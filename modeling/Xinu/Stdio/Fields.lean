import Mathlib.Logic.Function.Iterate
import Xinu.Stdio.Doprnt

/-!
# Digits and fields

How long the strings of digits are, and what a directive prints: the conversion takes one argument and makes a field, and
without flags, width and precision the field is printed as it is.
-/

namespace Xinu

/-! ## Digits -/

theorem length_lowDigits (digit rest : Int → Int) (k : Nat) (num : Int) : (lowDigits digit rest k num).length = k := by
  induction k generalizing num with
  | zero => rfl
  | succ k ih => simp [lowDigits, ih]

theorem length_stripZeros (temp : List Int) : (stripZeros temp).length ≤ temp.length := by
  unfold stripZeros
  have h := (List.dropWhile_sublist (l := temp.reverse) (· = chr '0')).length_le
  rw [List.length_reverse] at h
  split
  · exact List.length_take_le' _ _
  · exact h

/-- Digits from the low ones on, cut in two. -/
theorem lowDigits_add (digit rest : Int → Int) (j k : Nat) (num : Int) :
    lowDigits digit rest (j + k) num = lowDigits digit rest j num ++ lowDigits digit rest k (rest^[j] num) := by
  induction j generalizing num with
  | zero => simp [lowDigits]
  | succ j ih =>
    rw [Nat.succ_add]
    simp [lowDigits, ih]

theorem length_prtl10 (num : Int) : (Fdoprnt.prtl10 num).length ≤ 10 :=
  (length_stripZeros _).trans (length_lowDigits ..).le

theorem length_prtl8 (num : Int) : (prtl8 num).length ≤ 11 := by
  refine (length_stripZeros _).trans ?_
  rw [List.length_set, length_lowDigits]

theorem length_prtl16 (num : Int) : (prtl16 num).length ≤ 8 :=
  (length_stripZeros _).trans (length_lowDigits ..).le

theorem length_prtX16 (num : Int) : (prtX16 num).length ≤ 8 :=
  (length_stripZeros _).trans (length_lowDigits ..).le

/-- What holds of every digit, by what holds of the numbers they are taken from. -/
theorem mem_lowDigits {digit rest : Int → Int} {I P : Int → Prop} (hI : ∀ n, I n → I (rest n))
    (hP : ∀ n, I n → P (digit n)) {k : Nat} : ∀ {num : Int}, I num → ∀ c ∈ lowDigits digit rest k num, P c := by
  induction k with
  | zero => simp [lowDigits]
  | succ k ih =>
    intro num hn c hc
    rcases List.mem_cons.mp hc with rfl | hc
    · exact hP num hn
    · exact ih (hI num hn) c hc

/-- The characters printed are among the digits. -/
theorem mem_stripZeros {temp : List Int} {c : Int} (h : c ∈ stripZeros temp) : c ∈ temp := by
  unfold stripZeros at h
  split at h
  · exact List.mem_of_mem_take h
  · exact List.mem_reverse.mp ((List.dropWhile_sublist _).subset h)

/-- A number has at least one digit. -/
theorem stripZeros_ne_nil {temp : List Int} (h : temp ≠ []) : stripZeros temp ≠ [] := by
  unfold stripZeros
  split
  · simp [h]
  · assumption

/-! ## Fields -/

/-- The field of a conversion with its argument. -/
def fieldOf (prtl10 : Int → List Int) (d : Int → Option Field) (f : Int) (a : Arg) : Option Field :=
  (convert prtl10 d f [a]).map Prod.fst

/-- A conversion takes one argument and leaves the others. -/
theorem convert_cons (prtl10 : Int → List Int) (d : Int → Option Field) (f : Int) (a : Arg) (args : List Arg) :
    convert prtl10 d f (a :: args) = (fieldOf prtl10 d f a).map (·, args) := by
  unfold fieldOf
  cases a with
  | int v =>
    simp only [convert]
    split_ifs <;> simp [Option.map_map, Function.comp_def]
  | str s =>
    simp only [convert]
    split_ifs <;> rfl

theorem number_some {str : List Int} {sign nomax : Bool} (h : str.length < 20) :
    Field.number str sign nomax = some ⟨str, sign, nomax, false⟩ := if_pos h

@[simp] theorem isSome_number (str : List Int) (sign nomax : Bool) :
    (Field.number str sign nomax).isSome = decide (str.length < 20) := by
  unfold Field.number
  split <;> simp [*]

/-- A field without width and precision is its string, behind the sign. -/
theorem emit_plain (c : Field) :
    emit ⟨false, chr ' ', 0, 0⟩ c = (if c.sign then [chr '-'] else []) ++ c.str := by
  have hne : chr ' ' ≠ chr '0' := by decide
  simp [emit, hne, fillers]

/-- A format of one conversion without flags, width and precision. -/
theorem sprintf_one {f n : Int} (hf : chr 'A' ≤ f) {c : Field}
    (h : fieldOf Fdoprnt.prtl10 Fdoprnt.caseD f (.int n) = some c) :
    sprintf [chr '%', f] [.int n] = some ((if c.sign then [chr '-'] else []) ++ c.str) := by
  have hc : Fdoprnt.convert f [.int n] = some (c, []) := by
    rw [Fdoprnt.convert, convert_cons, h]
    rfl
  have hA : (65 : Int) ≤ f := hf
  have hne : f ≠ chr '%' ∧ f ≠ chr '-' ∧ f ≠ chr '0' ∧ f ≠ chr '*' ∧ f ≠ chr '.' ∧ ¬(chr '0' ≤ f ∧ f ≤ chr '9') := by
    simp only [chr]
    simp
    omega
  obtain ⟨h1, h2, h3, h4, h5, h6⟩ := hne
  have hspec : readSpec [f] [.int n] = some (⟨false, chr ' ', 0, 0⟩, [f], [.int n]) := by
    simp [readSpec, skip, numberOrStar, number, h2, h3, h4, h5, h6]
  have hp : (skip (chr '%') [f]).1 = false := by simp [skip, h1]
  have hloop : formatLoop Fdoprnt.convert 3 [chr '%', f] [.int n] = some (emit ⟨false, chr ' ', 0, 0⟩ c ++ []) := by
    simp [formatLoop, hp, hspec, hc]
  rw [emit_plain, List.append_nil] at hloop
  exact hloop

end Xinu
