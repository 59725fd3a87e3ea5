import Xinu.Stdio.FormatLoop
import Xinu.Stdio.Numerals

/-!
# Numeric directives

A directive with a numeric conversion prints the numeral of its argument in a field, for every width, justification and fill. The conversion
`b` writes up to 32 digits to `string`, which has room for 19: only there the directive fails.
-/

namespace Xinu

/-- The numeric conversions. -/
inductive NumericConv where
  | d | u | o | x | X | b
deriving DecidableEq

namespace NumericConv

/-- The character of a conversion. -/
def char : NumericConv → Int
  | .d => chr 'd'
  | .u => chr 'u'
  | .o => chr 'o'
  | .x => chr 'x'
  | .X => chr 'X'
  | .b => chr 'b'

/-- The numeral of a 32-bit value, which only `d` reads with its sign. -/
def numeral (v : BitVec 32) : NumericConv → List Int
  | .d => (Nat.toDigits 10 v.toInt.natAbs).map chr
  | .u => (Nat.toDigits 10 v.toNat).map chr
  | .o => (Nat.toDigits 8 v.toNat).map chr
  | .x => (Nat.toDigits 16 v.toNat).map chr
  | .X => (Nat.toDigits 16 v.toNat).map fun c => chr c.toUpper
  | .b => (Nat.toDigits 2 v.toNat).map chr

/-- A sign is printed. -/
def signed (f : NumericConv) (v : BitVec 32) : Bool := f = .d ∧ v.toInt < 0

end NumericConv

/-- A field width from 0 to 80: none, a number of the format, or an argument. -/
inductive Width where
  | zero
  | written (w : Fin 81) (pos : w ≠ 0)
  | star (w : Fin 81)

namespace Width

def value : Width → Nat
  | .zero => 0
  | .written w _ => w
  | .star w => w

def chars : Width → List Int
  | .zero => []
  | .written w _ => (Nat.toDigits 10 w).map chr
  | .star _ => [chr '*']

def args : Width → List Arg
  | .star w => [.int w]
  | _ => []

end Width

/-- The text of a directive. -/
def directive (leftjust zero : Bool) (w : Width) (f : NumericConv) : List Int :=
  chr '%' :: ((if leftjust then [chr '-'] else []) ++ (if zero then [chr '0'] else []) ++ w.chars ++ [f.char])

/-! ## Reading the directive -/

theorem number_digit {n : Int} {d : Nat} (hn : 0 ≤ n) (hlt : n < 100) (hd : d < 10) (fmt : List Int) :
    number n (chr (Nat.digitChar d) :: fmt) = number (n * 10 + d) fmt := by
  have h0 : chr '0' = 48 := rfl
  have h9 : chr '9' = 57 := rfl
  have hw : wrap32 (wrap32 (n * 10) + (d + 48) - 48) = n * 10 + d := by
    unfold wrap32
    omega
  rw [number, chr_digitChar hd, h0, h9, if_pos (by omega), hw]

theorem number_stop {n c : Int} (h : ¬(chr '0' ≤ c ∧ c ≤ chr '9')) (fmt : List Int) : number n (c :: fmt) = (n, c :: fmt) := by
  rw [number, if_neg h]

/-- A width of one or two digits. -/
theorem toDigits_width {w : Nat} (h : w < 100) : Nat.toDigits 10 w =
    if w < 10 then [Nat.digitChar w] else [Nat.digitChar (w / 10), Nat.digitChar (w % 10)] := by
  rw [Nat.toDigits_eq_if (by decide)]
  split
  · rfl
  · rw [Nat.toDigits_eq_if (by decide), if_pos (by omega)]
    rfl

theorem number_width {w : Nat} (hw : w < 100) {c : Int} (h : ¬(chr '0' ≤ c ∧ c ≤ chr '9')) (fmt : List Int) :
    number 0 ((Nat.toDigits 10 w).map chr ++ c :: fmt) = ((w : Int), c :: fmt) := by
  rw [toDigits_width hw]
  split
  · next hlt =>
    rw [List.map_singleton, List.singleton_append, number_digit (Int.le_refl 0) (by decide) hlt, number_stop h]
    simp
  · rw [List.map_cons, List.map_singleton, List.cons_append, List.singleton_append,
      number_digit (Int.le_refl 0) (by decide) (by omega), number_digit (by omega) (by omega) (by omega), number_stop h]
    refine Prod.ext ?_ rfl
    dsimp only
    omega

/-- The characters that a directive may go on with: none of the flags, a digit, a star or a point. -/
theorem NumericConv.char_ne (f : NumericConv) : f.char ≠ chr '%' ∧ f.char ≠ chr '-' ∧ f.char ≠ chr '0' ∧ f.char ≠ chr '*' ∧
    f.char ≠ chr '.' ∧ ¬(chr '0' ≤ f.char ∧ f.char ≤ chr '9') := by
  cases f <;> decide

/-- The first character of a width and a conversion. -/
theorem Width.first (w : Width) (f : NumericConv) (fmt : List Int) : ∃ x t, w.chars ++ f.char :: fmt = x :: t ∧
    x ≠ chr '%' ∧ x ≠ chr '-' ∧ x ≠ chr '0' := by
  cases w with
  | zero => exact ⟨f.char, fmt, rfl, f.char_ne.1, f.char_ne.2.1, f.char_ne.2.2.1⟩
  | star w => exact ⟨chr '*', f.char :: fmt, rfl, by decide, by decide, by decide⟩
  | written w pos =>
    have hw := w.isLt
    have hpos : (w : Nat) ≠ 0 := Fin.val_ne_zero_iff.mpr pos
    have hdigit : ∀ d : Nat, 0 < d → d < 10 → chr (Nat.digitChar d) ≠ chr '%' ∧ chr (Nat.digitChar d) ≠ chr '-' ∧
        chr (Nat.digitChar d) ≠ chr '0' := by
      intro d h1 h2
      have e1 : chr '%' = 37 := rfl
      have e2 : chr '-' = 45 := rfl
      have e3 : chr '0' = 48 := rfl
      rw [chr_digitChar h2, e1, e2, e3]
      omega
    rw [chars, toDigits_width (by omega)]
    split
    · next hlt => exact ⟨_, _, rfl, hdigit w (Nat.pos_of_ne_zero hpos) hlt⟩
    · exact ⟨_, _, rfl, hdigit (w / 10) (by omega) (by omega)⟩

theorem numberOrStar_other {c : Int} (h : c ≠ chr '*') (fmt : List Int) (args : List Arg) :
    numberOrStar (c :: fmt) args = some ((number 0 (c :: fmt)).1, (number 0 (c :: fmt)).2, args) := by
  unfold numberOrStar
  exact if_neg h

/-- The width is read. -/
theorem numberOrStar_width (w : Width) (f : NumericConv) (fmt : List Int) (args : List Arg) :
    numberOrStar (w.chars ++ f.char :: fmt) (w.args ++ args) = some ((w.value : Int), f.char :: fmt, args) := by
  obtain ⟨_, _, _, hstar, _, hstop⟩ := f.char_ne
  cases w with
  | zero =>
    change numberOrStar (f.char :: fmt) args = _
    rw [numberOrStar_other hstar, number_stop hstop]
    rfl
  | star w => rfl
  | written w pos =>
    have hw := w.isLt
    have hnumber := @number_width w (by omega) f.char hstop fmt
    have hfirst : ∃ d t, d < 10 ∧ (Nat.toDigits 10 w).map chr ++ f.char :: fmt = chr (Nat.digitChar d) :: t := by
      rw [toDigits_width (by omega)]
      split
      · next hlt => exact ⟨w, _, hlt, rfl⟩
      · exact ⟨w / 10, _, by omega, rfl⟩
    obtain ⟨d, t, hd, he⟩ := hfirst
    have hne : chr (Nat.digitChar d) ≠ chr '*' := by
      have e : chr '*' = 42 := rfl
      rw [chr_digitChar hd, e]
      omega
    change numberOrStar ((Nat.toDigits 10 w).map chr ++ f.char :: fmt) args = _
    rw [he] at hnumber ⊢
    rw [numberOrStar_other hne, hnumber]
    rfl

/-- What a directive says. -/
theorem readSpec_directive (leftjust zero : Bool) (w : Width) (f : NumericConv) (fmt : List Int) (args : List Arg) :
    readSpec ((if leftjust then [chr '-'] else []) ++ (if zero then [chr '0'] else []) ++ w.chars ++ f.char :: fmt) (w.args ++ args) =
      some (⟨leftjust, if zero then chr '0' else chr ' ', w.value, 0⟩, f.char :: fmt, args) := by
  obtain ⟨x, t, he, _, hminus, hzero⟩ := w.first f fmt
  have hwidth := numberOrStar_width w f fmt args
  have hdot : skip (chr '.') (f.char :: fmt) = (false, f.char :: fmt) := skip_false f.char_ne.2.2.2.2.1 fmt
  have h0 : chr '0' ≠ chr '-' := by decide
  rw [List.append_assoc, he]
  rw [he] at hwidth
  cases leftjust <;> cases zero <;>
    simp [readSpec, skip_true, skip_false hminus, skip_false hzero, skip_false h0, hwidth, hdot]

/-! ## The field -/

theorem matching_numeric (f : NumericConv) (v : BitVec 32) : matching f.char (.int v.toInt) = true := by
  obtain ⟨h1, h2⟩ := toInt_bounds v
  simp only [matching, decide_eq_true_eq]
  refine ⟨?_, h1, h2⟩
  cases f <;> simp [NumericConv.char]

/-- The field of a conversion that takes one number. -/
theorem fieldOf_int {p : Int → List Int} {d : Int → Option Field} {f n : Int} {field : Option Field}
    (h : convert p d f [.int n] = field.map (·, [])) : fieldOf p d f (.int n) = field := by
  rw [fieldOf, h, Option.map_map]
  exact Option.map_id_apply

/-- The conversion writes the numeral to `string`. -/
theorem fieldOf_numeric (f : NumericConv) (v : BitVec 32) : fieldOf Doprnt.prtl10 Doprnt.caseD f.char (.int v.toInt) =
    Field.number (f.numeral v) (f.signed v) (f ≠ .d) := by
  refine fieldOf_int ?_
  cases f with
  | d =>
    change (Doprnt.caseD v.toInt).map (·, []) = _
    rw [Doprnt.caseD, prtl10_toInt]
    simp [NumericConv.signed, NumericConv.numeral]
  | u =>
    change (Field.number (addFirst (unsign 4 v.toInt 0).2 (Doprnt.prtl10 (unsign 4 v.toInt 0).1)) false true).map (·, []) = _
    rw [unsigned_eq]
    rfl
  | o =>
    change (Field.number (prtl8 v.toInt) false true).map (·, []) = _
    rw [prtl8_eq]
    rfl
  | x =>
    change (Field.number (prtl16 v.toInt) false true).map (·, []) = _
    rw [prtl16_eq]
    rfl
  | X =>
    change (Field.number (prtX16 v.toInt) false true).map (·, []) = _
    rw [prtX16_eq]
    rfl
  | b =>
    change (Field.number (prtl2 v.toInt) false true).map (·, []) = _
    rw [prtl2_eq]
    rfl

/-- All numerals but those in base 2 fit into `string`. -/
theorem length_numeral (f : NumericConv) (v : BitVec 32) : (f.numeral v).length < 20 ↔ (f = .b → v.toNat < 524288) := by
  have hv := v.isLt
  have habs := natAbs_lt v
  have hfit : ∀ (b n : Nat) (g : Char → Int), 1 < b → (((Nat.toDigits b n).map g).length < 20 ↔ n < b ^ 19) := by
    intro b n g hb
    rw [List.length_map]
    exact Nat.lt_succ_iff.trans (Nat.length_toDigits_le_iff hb (by decide))
  cases f with
  | d => exact iff_of_true ((hfit 10 _ _ (by decide)).mpr (by omega)) nofun
  | u => exact iff_of_true ((hfit 10 _ _ (by decide)).mpr (by omega)) nofun
  | o => exact iff_of_true ((hfit 8 _ _ (by decide)).mpr (by omega)) nofun
  | x => exact iff_of_true ((hfit 16 _ _ (by decide)).mpr (by omega)) nofun
  | X => exact iff_of_true ((hfit 16 _ _ (by decide)).mpr (by omega)) nofun
  | b => exact (hfit 2 _ _ (by decide)).trans ⟨fun h _ => h, fun h => h rfl⟩

theorem Width.value_le (w : Width) : w.value ≤ 80 := by
  cases w with
  | zero => exact Nat.zero_le 80
  | written w _ => exact Nat.lt_succ_iff.mp w.isLt
  | star w => exact Nat.lt_succ_iff.mp w.isLt

/-- A directive in front of the rest of a format. -/
theorem doprnt_directive (leftjust zero : Bool) (w : Width) (f : NumericConv) (v : BitVec 32) (rest : List Int) (args : List Arg) :
    doprnt (directive leftjust zero w f ++ rest) (w.args ++ .int v.toInt :: args) =
      (Field.number (f.numeral v) (f.signed v) (f ≠ .d)).bind fun c =>
        (doprnt rest args).map (emit ⟨leftjust, if zero then chr '0' else chr ' ', w.value, 0⟩ c ++ ·) := by
  have hbody : ∃ x t, (if leftjust then [chr '-'] else []) ++ (if zero then [chr '0'] else []) ++ w.chars ++ f.char :: rest = x :: t ∧
      x ≠ chr '%' := by
    obtain ⟨x, t, he, hx, _⟩ := w.first f rest
    rw [List.append_assoc, he]
    cases leftjust with
    | true => exact ⟨chr '-', _, rfl, by decide⟩
    | false =>
      cases zero with
      | true => exact ⟨chr '0', _, rfl, by decide⟩
      | false => exact ⟨x, t, rfl, hx⟩
  have hread := readSpec_directive leftjust zero w f rest (.int v.toInt :: args)
  have htext : directive leftjust zero w f ++ rest = chr '%' :: ((if leftjust then [chr '-'] else []) ++
      (if zero then [chr '0'] else []) ++ w.chars ++ f.char :: rest) := by
    simp [directive]
  obtain ⟨x, t, he, hx⟩ := hbody
  rw [he] at hread htext
  rw [doprnt, htext, List.length_cons, List.length_cons, formatLoop_directive Doprnt.convert hx hread,
    doprnt_convert (matching_numeric f v), convert_cons, fieldOf_numeric]
  cases Field.number (f.numeral v) (f.signed v) (f ≠ .d) with
  | none => rfl
  | some c => rfl

/-- For every value, width, justification and fill: the directive prints the numeral in its field, unless `b` is to print more than 19
digits. -/
theorem numeric_directive_iff {rest out : List Int} {args : List Arg} (h : doprnt rest args = some out) (leftjust zero : Bool) (w : Width)
    (f : NumericConv) (v : BitVec 32) :
    doprnt (directive leftjust zero w f ++ rest) (w.args ++ .int v.toInt :: args) =
      some (padded leftjust zero w.value (f.signed v) (f.numeral v) ++ out) ↔ (f = .b → v.toNat < 524288) := by
  rw [doprnt_directive, h, ← length_numeral f v]
  by_cases hlen : (f.numeral v).length < 20
  · rw [number_some hlen, Option.bind_some, Option.map_some, emit_numeric leftjust zero w.value_le]
    exact iff_of_true rfl hlen
  · rw [Field.number, if_neg hlen]
    exact iff_of_false nofun hlen

/-- A value with its sign in a field of seven characters, and text behind it. -/
theorem numeric_directive_seven : doprnt (cstr "%07d|") [.int (-42)] = some (cstr "-000042|") := by
  have h := (numeric_directive_iff (show doprnt (cstr "|") [] = some (cstr "|") by decide) false true (.written 7 (by decide)) .d
    (-42#32)).mpr nofun
  have hpadded : padded false true 7 (NumericConv.signed .d (-42#32)) (NumericConv.numeral (-42#32) .d) = cstr "-000042" := by decide
  rw [Width.value, show (((7 : Fin 81) : Nat)) = 7 from rfl, hpadded] at h
  exact h

/-- `%b` of 2 to the 19th prints 20 digits and writes past the end of `string`. -/
theorem numeric_directive_overflow : doprnt (directive false false .zero .b) [.int (524288#32).toInt] = none ∧
    doprnt (directive false false .zero .b) [.int (524288#32).toInt] ≠
      some (padded false false 0 (NumericConv.signed .b (524288#32)) (NumericConv.numeral (524288#32) .b)) := by
  have hnone : doprnt (directive false false .zero .b) [.int (524288#32).toInt] = none := by decide +kernel
  rw [hnone]
  exact ⟨rfl, nofun⟩

end Xinu
