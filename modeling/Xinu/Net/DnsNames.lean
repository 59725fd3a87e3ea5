import Xinu.Net.Dns

/-!
# Names in responses

What the loops of the resolver do with a name by what the name is in the response: `dns_getrname` comes to an end exactly on the
names that expand and whose text, with the byte that ends it, has between one byte and as many as the buffer. The loop over the
labels of a question comes to an end exactly on the names whose labels do.
-/

namespace Xinu

namespace Dns

open DomainName

/-- A buffer with a byte sequence at a place. -/
def write (buf : Nat → UInt8) (d : Nat) (bs : List UInt8) : Nat → UInt8 :=
  fun j => if d ≤ j then (bs[j - d]?).getD (buf j) else buf j

/-- The name buffer with a name from a place on, the last dot replaced by the byte that ends a string. -/
def stored (buf : Nat → UInt8) (d : Nat) (labels : List (List UInt8)) : Nat → UInt8 :=
  write (write buf d (dotted labels)) (d + (dotted labels).length - 1) [0]

/-- With enough turns the run comes to its end, with a value. -/
def Settles {α : Type} (f : Nat → Option α) (a : α) : Prop := ∃ n, ∀ turns, n ≤ turns → f turns = some a

/-- A run that comes to its end when another does. -/
theorem Settles.map {α β : Type} {f : Nat → Option α} {g : Nat → Option β} {a : α} {b : β} (h : Settles f a)
    (hg : ∀ turns, f turns = some a → g turns = some b) : Settles g b := by
  obtain ⟨n, h⟩ := h
  exact ⟨n, fun turns hturns => hg turns (h turns hturns)⟩

/-- One run behind another. -/
theorem Settles.bind {α β γ : Type} {f : Nat → Option α} {g : Nat → Option β} {k : Nat → Option γ} {a : α} {b : β} {c : γ}
    (h : Settles f a) (h' : Settles g b) (hk : ∀ turns, f turns = some a → g turns = some b → k turns = some c) : Settles k c := by
  obtain ⟨n, h⟩ := h
  obtain ⟨n', h'⟩ := h'
  exact ⟨max n n', fun turns hturns => hk turns (h turns (by omega)) (h' turns (by omega))⟩

/-- A run that needs one turn more than another. -/
theorem Settles.succ {α β : Type} {f : Nat → Option α} {g : Nat → Option β} {a : α} {b : β} (h : Settles f a)
    (hg : ∀ turns, f turns = some a → g (turns + 1) = some b) : Settles g b := by
  obtain ⟨n, h⟩ := h
  refine ⟨n + 1, fun turns hturns => ?_⟩
  obtain ⟨turns, rfl⟩ : ∃ t, turns = t + 1 := ⟨turns - 1, by omega⟩
  exact hg turns (h turns (by omega))

variable {buf : Nat → UInt8} {rpkt : List UInt8}

theorem write_of_lt {d j : Nat} {bs : List UInt8} (h : j < d) : write buf d bs j = buf j := if_neg (by omega)

theorem write_of_ge {d j : Nat} {bs : List UInt8} (h : d + bs.length ≤ j) : write buf d bs j = buf j := by
  rw [write, if_pos (by omega), List.getElem?_eq_none (by omega)]
  rfl

theorem write_add (buf : Nat → UInt8) (d : Nat) {i : Nat} {bs : List UInt8} (h : i < bs.length) : write buf d bs (d + i) = bs[i] := by
  rw [write, if_pos (Nat.le_add_right d i), Nat.add_sub_cancel_left, List.getElem?_eq_getElem h]
  rfl

@[simp] theorem write_nil (d : Nat) : write buf d [] = buf := by
  funext j
  simp [write]

theorem write_singleton (d : Nat) (b : UInt8) : Function.update buf d b = write buf d [b] := by
  funext j
  by_cases hj : j = d
  · subst hj
    rw [Function.update_self]
    exact (write_add buf j (show 0 < [b].length from Nat.one_pos)).symm
  · rw [Function.update_of_ne hj]
    rcases Nat.lt_or_gt_of_ne hj with h | h
    · exact (write_of_lt h).symm
    · exact (write_of_ge h).symm

/-- One byte sequence behind another. -/
theorem write_append (buf : Nat → UInt8) (d : Nat) (as bs : List UInt8) :
    write (write buf d as) (d + as.length) bs = write buf d (as ++ bs) := by
  funext j
  by_cases h1 : j < d
  · rw [write_of_lt (by omega), write_of_lt h1, write_of_lt h1]
  · obtain ⟨i, rfl⟩ : ∃ i, j = d + i := ⟨j - d, by omega⟩
    by_cases h2 : i < as.length
    · rw [write_of_lt (by omega), write_add buf d h2, write_add buf d (by simp; omega), List.getElem_append_left h2]
    · by_cases h3 : i < (as ++ bs).length
      · obtain ⟨k, rfl⟩ : ∃ k, i = as.length + k := ⟨i - as.length, by omega⟩
        have hk : k < bs.length := by simpa using h3
        have happ : (as ++ bs)[as.length + k] = bs[k] := by
          rw [List.getElem_append_right (by omega)]
          simp
        rw [← Nat.add_assoc, write_add _ _ hk, Nat.add_assoc, write_add buf d h3, happ]
      · rw [List.length_append] at h3
        rw [write_of_ge (by omega), write_of_ge (by omega), write_of_ge (by rw [List.length_append]; omega)]

theorem put_eq (d : Nat) (b : UInt8) : put buf d b = if d < rnameSize then some (write buf d [b]) else none := by
  rw [put, write_singleton]

/-- The loop over a label copies its characters, when the label is in the response and the buffer has the room. -/
theorem copyLabel_eq (llen : Nat) : ∀ {son d : Nat} {dst : Nat → UInt8}, copyLabel rpkt llen son d dst =
    if llen = 0 ∨ son + llen ≤ rpkt.length ∧ d + llen ≤ rnameSize then some (write dst d ((rpkt.drop son).take llen)) else none := by
  induction llen with
  | zero =>
    intro son d dst
    rw [if_pos (.inl rfl), List.take_zero, write_nil]
    rfl
  | succ llen ih =>
    intro son d dst
    rw [copyLabel]
    by_cases hson : son < rpkt.length
    · rw [List.getElem?_eq_getElem hson, Option.bind_eq_bind, Option.bind_some, put_eq]
      by_cases hd : d < rnameSize
      · have htake : (rpkt.drop son).take (llen + 1) = rpkt[son] :: (rpkt.drop (son + 1)).take llen := by
          rw [List.drop_eq_getElem_cons hson, List.take_succ_cons]
        have hwrite := write_append dst d [rpkt[son]] ((rpkt.drop (son + 1)).take llen)
        rw [if_pos hd, Option.bind_eq_bind, Option.bind_some, ih, htake]
        refine (if_congr ?_ (congrArg some hwrite) rfl)
        omega
      · rw [if_neg hd, if_neg (by omega)]
        rfl
    · rw [List.getElem?_eq_none (by omega), if_neg (by omega)]
      rfl

/-- A word of the response. -/
theorem word16_eq_some {o v : Nat} : word16 rpkt o = some v ↔
    ∃ high low, rpkt[o]? = some high ∧ rpkt[o + 1]? = some low ∧ v = 256 * high.toNat + low.toNat := by
  simp only [word16, Option.bind_eq_bind, Option.bind_eq_some_iff, Option.pure_def, Option.some.injEq]
  constructor
  · rintro ⟨high, h, low, h', rfl⟩
    exact ⟨high, low, h, h', rfl⟩
  · rintro ⟨high, low, h, h', rfl⟩
    exact ⟨high, h, low, h', rfl⟩

/-- One label more in the buffer. -/
theorem stored_cons (buf : Nat → UInt8) (d : Nat) (l : List UInt8) (labels : List (List UInt8)) :
    stored (write (write buf d l) (d + l.length) [dot]) (d + l.length + 1) labels = stored buf d (l :: labels) := by
  have hlen : (dotted (l :: labels)).length = l.length + 1 + (dotted labels).length := by
    rw [dotted_cons, List.length_append, List.length_cons]
    omega
  have hdot := write_append buf d l [dot]
  have hrest := write_append buf d (l ++ [dot]) (dotted labels)
  have hjoin : l ++ [dot] ++ dotted labels = dotted (l :: labels) := by rw [dotted_cons, List.append_assoc, List.singleton_append]
  have hplace : d + (l ++ [dot]).length = d + l.length + 1 := by
    rw [List.length_append, List.length_singleton, Nat.add_assoc]
  rw [hplace, hjoin] at hrest
  rw [stored, stored, hdot, hrest, hlen]
  congr 1
  omega

/-- A run of `dns_getrname` that comes to its end has expanded a name. -/
theorem expands_of_getrnameLoop (turns : Nat) : ∀ {son d e : Nat} {dst dst' : Nat → UInt8},
    getrnameLoop rpkt turns son d dst = some (e, dst') → ∃ labels, Expands rpkt son labels e ∧
      1 ≤ d + (dotted labels).length ∧ d + (dotted labels).length ≤ rnameSize ∧ dst' = stored dst d labels := by
  induction turns with
  | zero =>
    intro son d e dst dst' h
    cases h
  | succ turns ih =>
    intro son d e dst dst' h
    rw [getrnameLoop, Option.bind_eq_bind, Option.bind_eq_some_iff] at h
    obtain ⟨llen, hllen, h⟩ := h
    split_ifs at h with h0 h63
    · subst h0
      rw [Option.bind_eq_bind, Option.bind_eq_some_iff] at h
      obtain ⟨dst₁, hend, h⟩ := h
      obtain ⟨rfl, rfl⟩ := Prod.mk.inj (Option.some.inj h)
      cases d with
      | zero => cases hend
      | succ d =>
        rw [terminate, put_eq] at hend
        split_ifs at hend with hd
        obtain rfl := Option.some.inj hend
        refine ⟨[], .root hllen, by simp, by simpa [Nat.succ_le_iff] using hd, ?_⟩
        simp [stored]
    · rw [Option.bind_eq_bind, Option.bind_eq_some_iff] at h
      obtain ⟨dst₁, hcopy, h⟩ := h
      rw [Option.bind_eq_some_iff] at h
      obtain ⟨dst₂, hput, h⟩ := h
      obtain ⟨labels, hexp, hlow, hhigh, rfl⟩ := ih h
      rw [copyLabel_eq] at hcopy
      rw [put_eq] at hput
      split_ifs at hcopy with hin
      split_ifs at hput with hroom
      obtain rfl := Option.some.inj hcopy
      obtain rfl := Option.some.inj hput
      have hpos : llen.toNat ≠ 0 := fun hz => h0 (UInt8.toNat_inj.mp hz)
      have hlen : ((rpkt.drop (son + 1)).take llen.toNat).length = llen.toNat := by
        rw [List.length_take, List.length_drop]
        omega
      have hstored := stored_cons dst d ((rpkt.drop (son + 1)).take llen.toNat) labels
      rw [hlen] at hstored
      refine ⟨_, .label hllen h0 h63 rfl hlen hexp, ?_, ?_, hstored⟩
      · rw [dotted_cons, List.length_append, List.length_cons]
        omega
      · rw [dotted_cons, List.length_append, List.length_cons, hlen]
        omega
    · rw [Option.bind_eq_bind, Option.bind_eq_some_iff] at h
      obtain ⟨tmpoff, hoff, h⟩ := h
      rw [Option.bind_eq_bind, Option.bind_eq_some_iff] at h
      obtain ⟨⟨e', dst₁⟩, hrec, h⟩ := h
      obtain ⟨rfl, rfl⟩ := Prod.mk.inj (Option.some.inj h)
      obtain ⟨labels, hexp, hlow, hhigh, rfl⟩ := ih hrec
      obtain ⟨high, low, hhi, hlo, rfl⟩ := word16_eq_some.mp hoff
      rw [hllen] at hhi
      obtain rfl := Option.some.inj hhi
      exact ⟨labels, .pointer hllen (UInt8.not_le.mp h63) hlo hexp, hlow, hhigh, rfl⟩

/-- `dns_getrname` comes to its end on a name that expands, when the buffer has the room. -/
theorem getrnameLoop_of_expands {son e : Nat} {labels : List (List UInt8)} (h : Expands rpkt son labels e) :
    ∀ (d : Nat) (dst : Nat → UInt8), 1 ≤ d + (dotted labels).length → d + (dotted labels).length ≤ rnameSize →
      Settles (fun turns => getrnameLoop rpkt turns son d dst) (e, stored dst d labels) := by
  induction h with
  | @root o h =>
    intro d dst hlow hhigh
    obtain ⟨d, rfl⟩ : ∃ d', d = d' + 1 := ⟨d - 1, by simp at hlow; omega⟩
    have hd : d < rnameSize := by
      rw [dotted_nil] at hhigh
      exact hhigh
    have hone : Settles (fun _ => some ()) () := ⟨0, fun _ _ => rfl⟩
    refine hone.succ fun turns _ => ?_
    rw [getrnameLoop, h, Option.bind_eq_bind, Option.bind_some, if_pos rfl, terminate, put_eq, if_pos hd]
    simp [stored]
  | @label o e llen l labels h h0 h63 hl hlen _ ih =>
    intro d dst hlow hhigh
    have hsize : (dotted (l :: labels)).length = llen.toNat + 1 + (dotted labels).length := by
      rw [dotted_cons, List.length_append, List.length_cons, hlen]
      omega
    have hin : o + 1 + llen.toNat ≤ rpkt.length := by
      have hdrop := congrArg List.length hl
      rw [List.length_take, List.length_drop, hlen] at hdrop
      obtain ⟨hlt, -⟩ := List.getElem?_eq_some_iff.mp h
      omega
    have hstored := stored_cons dst d l labels
    rw [hlen] at hstored
    refine (ih (d + llen.toNat + 1) (write (write dst d l) (d + llen.toNat) [dot]) (by omega) (by omega)).succ fun turns hrest => ?_
    rw [getrnameLoop, h, Option.bind_eq_bind, Option.bind_some, if_neg h0, if_pos h63, copyLabel_eq,
      if_pos (.inr ⟨hin, by omega⟩), hl, Option.bind_eq_bind, Option.bind_some, put_eq, if_pos (by omega),
      Option.bind_some, hrest, hstored]
  | @pointer o e high low labels h h63 h' _ ih =>
    intro d dst hlow hhigh
    have h0 : high ≠ 0 := by
      rintro rfl
      exact absurd h63 (by decide)
    refine (ih d dst hlow hhigh).succ fun turns hrest => ?_
    rw [getrnameLoop, h, Option.bind_eq_bind, Option.bind_some, if_neg h0, if_neg (UInt8.not_le.mpr h63),
      word16_eq_some.mpr ⟨high, low, h, h', rfl⟩, Option.bind_eq_bind, Option.bind_some, hrest]
    rfl

/-- A name that `dns_getrname` has read. -/
theorem expands_of_dnsGetrname {turns son : Nat} {dst : Nat → UInt8} {r : Nat × (Nat → UInt8)}
    (h : dnsGetrname rpkt turns son dst = some r) : ∃ labels e, Expands rpkt son labels e ∧ labels ≠ [] ∧
      (text labels).length < rnameSize ∧ r = (e - son, stored dst 0 labels) := by
  rw [dnsGetrname, Option.bind_eq_bind, Option.bind_eq_some_iff] at h
  obtain ⟨⟨e, dst'⟩, hloop, hr⟩ := h
  obtain ⟨labels, hexp, hlow, hhigh, rfl⟩ := expands_of_getrnameLoop turns hloop
  have hne : labels ≠ [] := by
    rintro rfl
    simp at hlow
  rw [length_dotted hne] at hhigh
  exact ⟨labels, e, hexp, hne, by omega, (Option.some.inj hr).symm⟩

/-- `dns_getrname` comes to its end exactly on the names that expand and have at least one label, if the text and the byte that
ends it fit in the buffer; it returns the size of the name in the response. -/
theorem dnsGetrname_settles {son : Nat} {dst : Nat → UInt8} {r : Nat × (Nat → UInt8)} :
    Settles (fun turns => dnsGetrname rpkt turns son dst) r ↔
      ∃ labels e, Expands rpkt son labels e ∧ labels ≠ [] ∧ (text labels).length < rnameSize ∧ r = (e - son, stored dst 0 labels) := by
  constructor
  · rintro ⟨n, h⟩
    exact expands_of_dnsGetrname (h n (Nat.le_refl n))
  · rintro ⟨labels, e, hexp, hne, hsize, rfl⟩
    have hlen := length_dotted hne
    refine (getrnameLoop_of_expands hexp 0 dst (by omega) (by omega)).map fun turns h => ?_
    rw [dnsGetrname, h]
    rfl

/-- A buffer that holds a string. -/
def IsString (rname : Nat → UInt8) (s : List UInt8) : Prop := (∀ i (h : i < s.length), rname i = s[i]) ∧ rname s.length = 0

/-- The name is stored as a string. -/
theorem isString_stored (buf : Nat → UInt8) {labels : List (List UInt8)} (h : labels ≠ []) :
    IsString (stored buf 0 labels) (text labels) := by
  have hlen := length_dotted h
  have hplace : 0 + (dotted labels).length - 1 = (text labels).length := by omega
  rw [stored, hplace]
  constructor
  · intro i hi
    have hdotted : i < (dotted labels).length := by omega
    have hchar : (dotted labels)[i] = (text labels)[i] := by
      simp only [dotted_eq_text h]
      exact List.getElem_append_left hi
    have hwrite := write_add buf 0 hdotted
    rw [Nat.zero_add] at hwrite
    rw [write_of_lt hi, hwrite, hchar]
  · exact write_add _ (text labels).length (show 0 < ([0] : List UInt8).length from Nat.one_pos)

/-! ## The names of questions -/

/-- The labels of a question come to an end, at a zero byte or a pointer. -/
inductive Skips (rpkt : List UInt8) : Nat → Nat → Prop
  | root {o : Nat} (h : rpkt[o]? = some 0) : Skips rpkt o (o + 1)
  | pointer {o : Nat} {llen : UInt8} (h : rpkt[o]? = some llen) (h63 : 63 < llen) : Skips rpkt o (o + 2)
  | label {o e : Nat} {llen : UInt8} (h : rpkt[o]? = some llen) (h0 : llen ≠ 0) (h63 : llen ≤ 63)
      (hrest : Skips rpkt (o + (llen.toNat + 1)) e) : Skips rpkt o e

/-- The loop over the labels comes to an end where they do. -/
theorem skips_of_skipName (turns : Nat) : ∀ {o e : Nat}, skipName rpkt turns o = some e → Skips rpkt o e := by
  induction turns with
  | zero =>
    intro o e h
    cases h
  | succ turns ih =>
    intro o e h
    rw [skipName, Option.bind_eq_bind, Option.bind_eq_some_iff] at h
    obtain ⟨llen, hllen, h⟩ := h
    split_ifs at h with h0 h63
    · obtain rfl := Option.some.inj h
      exact .root (h0 ▸ hllen)
    · obtain rfl := Option.some.inj h
      exact .pointer hllen h63
    · exact .label hllen h0 (UInt8.not_lt.mp h63) (ih h)

theorem skipName_settles {o e : Nat} (h : Skips rpkt o e) : Settles (fun turns => skipName rpkt turns o) e := by
  have hone : Settles (fun _ => some ()) () := ⟨0, fun _ _ => rfl⟩
  induction h with
  | root h =>
    refine hone.succ fun turns _ => ?_
    rw [skipName, h]
    rfl
  | @pointer o llen h h63 =>
    have h0 : llen ≠ 0 := by
      rintro rfl
      exact absurd h63 (by decide)
    refine hone.succ fun turns _ => ?_
    rw [skipName, h, Option.bind_eq_bind, Option.bind_some, if_neg h0, if_pos h63]
    rfl
  | @label o e llen h h0 h63 _ ih =>
    refine ih.succ fun turns hrest => ?_
    rw [skipName, h, Option.bind_eq_bind, Option.bind_some, if_neg h0, if_neg (UInt8.not_lt.mpr h63), hrest]

/-- The labels of a name that expands come to an end. -/
theorem Skips.of_expands {o e : Nat} {labels : List (List UInt8)} (h : Expands rpkt o labels e) : Skips rpkt o e := by
  induction h with
  | root h => exact .root h
  | @label o e llen l labels h h0 h63 _ _ _ ih =>
    have hplace : o + 1 + llen.toNat = o + (llen.toNat + 1) := by omega
    exact .label h h0 h63 (hplace ▸ ih)
  | pointer h h63 _ _ _ => exact .pointer h h63

end Dns

end Xinu
