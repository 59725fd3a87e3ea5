import Mathlib.Algebra.Order.BigOperators.Group.List
import Mathlib.Algebra.Order.Group.Nat
import Xinu.Lfs.Names

/-!
# What the local file system is for

Byte lists under names, and for each device at most one open file with a position. `Files.call` says what every call does to them.
The disk shows in one place only: files that need more blocks than the volume has cannot be written.
-/

namespace Xinu

/-- Files under names, in the order in which they were created, and what the devices have open: the name of a file and a position. -/
structure Files where
  names : List (List UInt8)
  content : List UInt8 → List UInt8
  opened : Fin 6 → Option (List UInt8 × Nat)

/-- The numbers of index blocks and of data blocks of a disk, and the numbers of the devices. -/
structure Volume where
  iblocks : Nat
  dblocks : Nat
  lfdev : Fin 6 → Int

/-- The bytes `new` replace those of `old` from `pos` on, and go beyond its end. -/
def splice (old : List UInt8) (pos : Nat) (new : List UInt8) : List UInt8 := old.take pos ++ new ++ old.drop (pos + new.length)

namespace Files

variable (V : Volume) (A : Files)

/-- The number of blocks of `unit` bytes that the files need. -/
def blocks (unit : Nat) : Nat := (A.names.map fun name => ((A.content name).length + (unit - 1)) / unit).sum

/-- The volume has the blocks that the files need. -/
def Fits : Prop := A.blocks 8192 ≤ V.iblocks ∧ A.blocks 512 ≤ V.dblocks

instance : Decidable (A.Fits V) := inferInstanceAs (Decidable (_ ∧ _))

/-- The file under the name gets the content, and the device has it open at the position. -/
def set (d : Fin 6) (name bytes : List UInt8) (pos : Nat) : Files where
  names := A.names
  content := Function.update A.content name bytes
  opened := Function.update A.opened d (some (name, pos))

/-- The device moves to a position. -/
def move (d : Fin 6) (name : List UInt8) (pos : Nat) : Files := { A with opened := Function.update A.opened d (some (name, pos)) }

/-- A new file without bytes. -/
def create (name : List UInt8) : Files :=
  { A with names := A.names ++ [name], content := Function.update A.content name [] }

/-- No file of the name is open, and a device is free. -/
def slot (name : List UInt8) : Option (Fin 6) :=
  if (List.finRange 6).any fun d => decide ((A.opened d).map Prod.fst = some name) then none
  else (List.finRange 6).find? fun d => (A.opened d).isNone

def lfsopen (name : List UInt8) (mode : List Char) : Int × Files :=
  let name := name.takeWhile (· ≠ 0)
  if name.length ≥ LF_NAME_LEN then (SYSERR, A)
  else
    match lfgetmode mode, A.slot name with
    | some mbits, some d =>
      if name ∈ A.names then if mbits.n then (SYSERR, A) else (V.lfdev d, A.move d name 0)
      else if mbits.o ∨ A.names.length ≥ LF_NUM_DIR_ENT then (SYSERR, A)
      else (V.lfdev d, (A.create name).move d name 0)
    | _, _ => (SYSERR, A)

/-- Bytes replace those at the position, and the position moves behind them. -/
def write (d : Fin 6) (bytes : List UInt8) : Option (Int × Files) :=
  match A.opened d with
  | none => some (SYSERR, A)
  | some (name, pos) =>
    let A' := A.set d name (splice (A.content name) pos bytes) (pos + bytes.length)
    if A'.Fits V then some (OK, A') else none

def lflwrite (d : Fin 6) (buff : Nat → UInt8) (count : Int32) : Option (Int × Files) :=
  if count < 0 then some (SYSERR, A)
  else if count.toInt.toNat = 0 then some (0, A)
  else (A.write V d ((List.range count.toInt.toNat).map buff)).map fun x => (if x.1 = SYSERR then SYSERR else count.toInt, x.2)

/-- The byte at the position. -/
def lflgetc (d : Fin 6) : Int × Files :=
  match A.opened d with
  | none => (SYSERR, A)
  | some (name, pos) =>
    match (A.content name)[pos]? with
    | none => (EOF, A)
    | some ch => ((ch.toNat : Int), A.move d name (pos + 1))

/-- At most `count` bytes from the position on. -/
def lflread (d : Fin 6) (count : Int32) : Int × List UInt8 × Files :=
  if count < 0 then (SYSERR, [], A)
  else if count.toInt.toNat = 0 then (0, [], A)
  else
    match A.opened d with
    | none => (SYSERR, [], A)
    | some (name, pos) =>
      let got := ((A.content name).drop pos).take count.toInt.toNat
      (if got = [] then EOF else got.length, got, A.move d name (pos + got.length))

def lflseek (d : Fin 6) (offset : UInt32) : Int × Files :=
  match A.opened d with
  | none => (SYSERR, A)
  | some (name, _) => if offset.toNat > (A.content name).length then (SYSERR, A) else (OK, A.move d name offset.toNat)

def lflcontrol (d : Fin 6) (func : Int) : Int × Files :=
  match A.opened d with
  | none => (SYSERR, A)
  | some (name, _) => if func = F_CTL_TRUNC then (OK, A.set d name [] 0) else (SYSERR, A)

def lflclose (d : Fin 6) : Int × Files :=
  match A.opened d with
  | none => (SYSERR, A)
  | some _ => (OK, { A with opened := Function.update A.opened d none })

/-- What a call returns, the bytes that it stores in the buffer of the user, and the files behind it; `none` for a panic. -/
def call : Lfs.LfsCall → Option (Int × List UInt8 × Files)
  | .lfsopen name mode => some ((A.lfsopen V name mode).1, [], (A.lfsopen V name mode).2)
  | .lflputc d ch => (A.write V d [ch]).map fun x => (x.1, [], x.2)
  | .lflgetc d => some ((A.lflgetc d).1, [], (A.lflgetc d).2)
  | .lflread d count => some (A.lflread d count)
  | .lflwrite d buff count => (A.lflwrite V d buff count).map fun x => (x.1, [], x.2)
  | .lflseek d offset => some ((A.lflseek d offset).1, [], (A.lflseek d offset).2)
  | .lflcontrol d func => some ((A.lflcontrol d func).1, [], (A.lflcontrol d func).2)
  | .lflclose d => some ((A.lflclose d).1, [], (A.lflclose d).2)

/-- What calls return, one after the other, and the files behind them. -/
def run : Files → List Lfs.LfsCall → Option (List (Int × List UInt8) × Files)
  | A, [] => some ([], A)
  | A, c :: cs =>
    match call V A c with
    | none => none
    | some (value, bytes, A) => (run A cs).map fun x => ((value, bytes) :: x.1, x.2)

/-- The first `n` files, none of them open: what is left when the system starts again. -/
def restart (n : Nat) : Files where
  names := A.names.take n
  content := A.content
  opened := fun _ => none

/-- A volume without files. -/
def empty : Files where
  names := []
  content := fun _ => []
  opened := fun _ => none

end Files

/-! ## Splicing -/

section Splice

variable {old l : List UInt8} {pos : Nat} {ch : UInt8}

theorem length_splice (h : pos ≤ old.length) : (splice old pos l).length = max old.length (pos + l.length) := by
  simp only [splice, List.length_append, List.length_take, List.length_drop]
  omega

theorem splice_nil : splice old pos [] = old := by simp [splice]

/-- Bytes are written one after the other. -/
theorem splice_cons (h : pos ≤ old.length) : splice (splice old pos [ch]) (pos + 1) l = splice old pos (ch :: l) := by
  have htake : (old.take pos).length = pos := by rw [List.length_take, Nat.min_eq_left h]
  have hfront : (old.take pos ++ [ch]).length = pos + 1 := by rw [List.length_append, htake, List.length_singleton]
  have h1 : (splice old pos [ch]).take (pos + 1) = old.take pos ++ [ch] := by
    rw [splice, List.take_append_of_le_length (Nat.le_of_eq hfront.symm), List.take_of_length_le (Nat.le_of_eq hfront)]
  have h2 : (splice old pos [ch]).drop (pos + 1 + l.length) = old.drop (pos + (l.length + 1)) := by
    rw [splice, List.drop_append, hfront, List.drop_eq_nil_of_le (by rw [hfront]; omega), List.nil_append, List.drop_drop,
      List.length_singleton]
    congr 1
    omega
  rw [splice, h1, h2]
  simp [splice]

/-- One byte of the result. -/
theorem getElem?_splice (h : pos ≤ old.length) (p : Nat) :
    (splice old pos [ch])[p]? = if p = pos then some ch else old[p]? := by
  have htake : (old.take pos).length = pos := by rw [List.length_take, Nat.min_eq_left h]
  rw [splice, List.append_assoc, List.getElem?_append, htake]
  by_cases hlt : p < pos
  · rw [if_pos hlt, if_neg (Nat.ne_of_lt hlt), List.getElem?_take_of_lt hlt]
  · rw [if_neg hlt]
    by_cases he : p = pos
    · rw [if_pos he, he, Nat.sub_self]
      rfl
    · obtain ⟨k, hk⟩ : ∃ k, p - pos = k + 1 := ⟨p - pos - 1, by omega⟩
      rw [if_neg he, hk, List.singleton_append, List.getElem?_cons_succ, List.getElem?_drop, List.length_singleton]
      congr 1
      omega

end Splice

namespace Files

variable {V : Volume} {A A' : Files} {d : Fin 6} {name bytes l : List UInt8} {pos unit : Nat} {ch : UInt8}

/-- Longer files need more blocks. -/
theorem blocks_le (hn : A'.names = A.names) (h : ∀ name, (A.content name).length ≤ (A'.content name).length) :
    A.blocks unit ≤ A'.blocks unit := by
  rw [blocks, blocks, hn]
  exact List.sum_le_sum fun name _ => Nat.div_le_div_right (Nat.add_le_add_right (h name) _)

@[simp] theorem set_names : (A.set d name bytes pos).names = A.names := rfl

@[simp] theorem set_opened : (A.set d name bytes pos).opened d = some (name, pos) := Function.update_self _ _ _

@[simp] theorem set_content : (A.set d name bytes pos).content name = bytes := Function.update_self _ _ _

theorem set_content_of_ne {other : List UInt8} (h : other ≠ name) : (A.set d name bytes pos).content other = A.content other :=
  Function.update_of_ne h _ _

theorem set_set {bytes' : List UInt8} {pos' : Nat} :
    (A.set d name bytes pos).set d name bytes' pos' = A.set d name bytes' pos' := by
  simp only [set, Function.update_idem]

/-- A write makes no file shorter. -/
theorem le_set (h : (A.content name).length ≤ bytes.length) (other : List UInt8) :
    (A.content other).length ≤ ((A.set d name bytes pos).content other).length := by
  by_cases he : other = name
  · rw [he, set_content]
    exact h
  · rw [set_content_of_ne he]

/-- A write that needs a block more. -/
theorem blocks_lt (d : Fin 6) (pos unit : Nat) (hmem : name ∈ A.names) (hle : (A.content name).length ≤ bytes.length)
    (hlt : ((A.content name).length + (unit - 1)) / unit < (bytes.length + (unit - 1)) / unit) :
    A.blocks unit < (A.set d name bytes pos).blocks unit := by
  rw [blocks, blocks, set_names]
  refine List.sum_lt_sum _ _ (fun other _ => ?_) ⟨name, hmem, ?_⟩
  · exact Nat.div_le_div_right (Nat.add_le_add_right (le_set hle other) _)
  · rw [set_content]
    exact hlt

/-- Files that fit also fit when one of them is shorter. -/
theorem Fits.shorter {bytes' : List UInt8} {pos' : Nat} (h : (A.set d name bytes' pos').Fits V) (hle : bytes.length ≤ bytes'.length) :
    (A.set d name bytes pos).Fits V := by
  have hall : ∀ other, ((A.set d name bytes pos).content other).length ≤ ((A.set d name bytes' pos').content other).length := by
    intro other
    by_cases he : other = name
    · rw [he, set_content, set_content]
      exact hle
    · rw [set_content_of_ne he, set_content_of_ne he]
  have hle : ∀ unit, (A.set d name bytes pos).blocks unit ≤ (A.set d name bytes' pos').blocks unit := fun _ => blocks_le rfl hall
  exact ⟨(hle 8192).trans h.1, (hle 512).trans h.2⟩

theorem set_same : A.set d name (A.content name) pos = A.move d name pos := by
  rw [set, move, Function.update_eq_self]

theorem move_same (h : A.opened d = some (name, pos)) : A.move d name pos = A := by
  rw [move, ← h, Function.update_eq_self]

@[simp] theorem move_opened : (A.move d name pos).opened d = some (name, pos) := Function.update_self _ _ _

@[simp] theorem move_content : (A.move d name pos).content = A.content := rfl

@[simp] theorem move_move {pos' : Nat} : (A.move d name pos).move d name pos' = A.move d name pos' := by
  simp only [move, Function.update_idem]

/-- Nothing is written. -/
theorem write_nil (h : A.opened d = some (name, pos)) (hfit : A.Fits V) : A.write V d [] = some (OK, A) := by
  have hsame : A.set d name (splice (A.content name) pos []) (pos + ([] : List UInt8).length) = A := by
    rw [splice_nil, List.length_nil, Nat.add_zero, set_same, move_same h]
  simp only [write, h, hsame]
  exact if_pos hfit

/-- Bytes are written one after the other. -/
theorem write_cons (ho : A.opened d = some (name, pos)) (hpos : pos ≤ (A.content name).length) :
    A.write V d (ch :: l) = (A.write V d [ch]).bind fun x => x.2.write V d l := by
  simp only [write, ho, List.length_cons, List.length_nil, Nat.zero_add]
  by_cases hfit : (A.set d name (splice (A.content name) pos [ch]) (pos + 1)).Fits V
  · rw [if_pos hfit]
    simp only [Option.bind_some, set_opened, set_content, set_set, splice_cons hpos]
    rw [show pos + 1 + l.length = pos + (l.length + 1) by omega]
  · -- the bytes that follow need no fewer blocks
    rw [if_neg hfit, Option.bind_none, if_neg]
    refine fun hall => hfit (hall.shorter ?_)
    rw [length_splice hpos, length_splice hpos]
    simp only [List.length_cons, List.length_nil]
    omega

end Files

end Xinu
