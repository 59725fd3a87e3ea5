import Mathlib.Data.List.TakeWhile
import Xinu.Stdio.Doscan
import Xinu.Stdio.Fields

/-!
# Scanning what was printed

`sscanf` on numerals that `sprintf` printed with the same conversions. The test for a digit in `_innum` asks for a letter where
it should ask for a letter or a digit, so the value comes back exactly when every conversion is `%x` and every numeral is made
of the letters `a` to `f` only.
-/

namespace Xinu

/-- The conversions of the numerals. -/
inductive NumConv where
  | d | x | o
deriving DecidableEq

/-- The character of a conversion. -/
def NumConv.char : NumConv → Int
  | .d => chr 'd'
  | .x => chr 'x'
  | .o => chr 'o'

/-- A numeral of a text: a 32-bit number, the conversion it is printed and read with, the blanks in front of it in the text and
the blanks in front of its conversion in the format. -/
structure Numeral where
  conv : NumConv
  n : Int
  gap : List Int
  fgap : List Int
  lower : -2147483648 ≤ n
  upper : n ≤ 2147483647
  gap_blank : ∀ c ∈ gap, isblank c = true
  fgap_blank : ∀ c ∈ fgap, isblank c = true

/-- The numeral as `sprintf` prints it. -/
def Numeral.printed (it : Numeral) : List Int := (sprintf [chr '%', it.conv.char] [.int it.n]).getD []

/-- The text of some numerals. -/
def textOf (items : List Numeral) : List Int := items.flatMap fun it => it.gap ++ it.printed

/-- The format that reads them. -/
def formatOf (items : List Numeral) : List Int := items.flatMap fun it => it.fgap ++ [chr '%', it.conv.char]

/-- What is to be stored, from the argument `k` on: every number through its own argument. -/
def storesOf (k : Nat) : List Numeral → List (Nat × Stored)
  | [] => []
  | it :: items => (k, .int it.n) :: storesOf (k + 1) items

/-- A hexadecimal numeral made of letters only. -/
def Numeral.Letters (it : Numeral) : Prop := it.conv = .x ∧ ∀ c ∈ prtl16 it.n, chr 'a' ≤ c

/-! ## What `sprintf` prints -/

theorem isdigit_iff {c : Int} : isdigit c = true ↔ 48 ≤ c ∧ c ≤ 57 := decide_eq_true_iff

theorem isblank_iff {c : Int} : isblank c = true ↔ c = 32 ∨ c = 9 ∨ c = 10 := decide_eq_true_iff

/-- The digits of a number that is not negative. -/
theorem digits_prtl10 {n : Int} (h : 0 ≤ n) : ∀ c ∈ Fdoprnt.prtl10 n, isdigit c = true := by
  intro c hc
  refine mem_lowDigits (I := fun n => 0 ≤ n) (P := fun c => isdigit c = true) ?_ ?_ h c (mem_stripZeros hc)
  · intro m hm
    exact Int.tdiv_nonneg hm (by decide)
  · intro m hm
    have h1 := Int.tmod_nonneg 10 hm
    have h2 := Int.tmod_lt_of_pos m (b := 10) (by decide)
    rw [isdigit_iff]
    simp only [wrap8, chr]
    simp
    omega

/-- Octal output is decimal digits. -/
theorem digits_prtl8 (n : Int) : ∀ c ∈ prtl8 n, isdigit c = true := by
  intro c hc
  have hlow : ∀ c ∈ lowDigits (fun n => n % 8 + chr '0') (fun n => n / 8) 11 n, isdigit c = true := by
    refine mem_lowDigits (I := fun _ => True) (fun _ _ => trivial) ?_ trivial
    intro m _
    rw [isdigit_iff]
    simp only [chr]
    simp
    omega
  rcases List.mem_or_eq_of_mem_set (mem_stripZeros hc) with hc | rfl
  · exact hlow c hc
  · rw [isdigit_iff]
    simp only [chr]
    simp
    omega

/-- A hexadecimal digit. -/
def IsHex (c : Int) : Prop := isdigit c = true ∨ (chr 'a' ≤ c ∧ c ≤ chr 'f')

/-- The hexadecimal digits and their values. -/
theorem hexDigit_spec : ∀ k : Fin 16, IsHex ((cstr "0123456789abcdef").getD k 0) ∧
    digitValue ((cstr "0123456789abcdef").getD k 0) = k := by
  unfold IsHex
  decide

/-- The table of hexadecimal digits. -/
theorem hexDigit_mod (n : Int) : IsHex ((cstr "0123456789abcdef").getD (n % 16).toNat 0) ∧
    digitValue ((cstr "0123456789abcdef").getD (n % 16).toNat 0) = n % 16 := by
  have hk : (n % 16).toNat < 16 := by omega
  have h := hexDigit_spec ⟨(n % 16).toNat, hk⟩
  refine ⟨h.1, h.2.trans ?_⟩
  simp only
  omega

theorem digits_prtl16 (n : Int) : ∀ c ∈ prtl16 n, IsHex c := by
  intro c hc
  refine mem_lowDigits (I := fun _ => True) (fun _ _ => trivial) ?_ trivial c (mem_stripZeros hc)
  intro m _
  exact (hexDigit_mod m).1

/-- What `%x` prints. -/
theorem printed_x {it : Numeral} (h : it.conv = .x) : it.printed = prtl16 it.n := by
  have hlen : (prtl16 it.n).length < 20 := Nat.lt_of_le_of_lt (length_prtl16 it.n) (by decide)
  have hf : fieldOf Fdoprnt.prtl10 Fdoprnt.caseD (chr 'x') (.int it.n) = some ⟨prtl16 it.n, false, true, false⟩ := by
    rw [← number_some hlen]
    simp [fieldOf, convert, chr, Option.map_map, Function.comp_def]
  simp only [Numeral.printed, h, NumConv.char, sprintf_one (by decide) hf]
  rfl

/-- What `%o` prints. -/
theorem printed_o {it : Numeral} (h : it.conv = .o) : it.printed = prtl8 it.n := by
  have hlen : (prtl8 it.n).length < 20 := Nat.lt_of_le_of_lt (length_prtl8 it.n) (by decide)
  have hf : fieldOf Fdoprnt.prtl10 Fdoprnt.caseD (chr 'o') (.int it.n) = some ⟨prtl8 it.n, false, true, false⟩ := by
    rw [← number_some hlen]
    simp [fieldOf, convert, chr, Option.map_map, Function.comp_def]
  simp only [Numeral.printed, h, NumConv.char, sprintf_one (by decide) hf]
  rfl

/-- What `%d` prints of a number that is not negative. -/
theorem printed_d_nonneg {it : Numeral} (h : it.conv = .d) (hn : 0 ≤ it.n) : it.printed = Fdoprnt.prtl10 it.n := by
  have hlen : (Fdoprnt.prtl10 it.n).length < 20 := Nat.lt_of_le_of_lt (length_prtl10 it.n) (by decide)
  have hf : fieldOf Fdoprnt.prtl10 Fdoprnt.caseD (chr 'd') (.int it.n) =
      some ⟨Fdoprnt.prtl10 it.n, false, false, false⟩ := by
    rw [← number_some hlen]
    simp [fieldOf, convert, chr, Option.map_map, Function.comp_def, Fdoprnt.caseD, Int.not_lt.mpr hn]
  simp only [Numeral.printed, h, NumConv.char, sprintf_one (by decide) hf]
  rfl

/-- A negative number is printed with its sign in front. -/
theorem printed_d_neg {it : Numeral} (h : it.conv = .d) (hn : it.n < 0) : ∃ str, it.printed = chr '-' :: str := by
  have hlen : (Fdoprnt.prtl10 (wrap32 (-it.n))).length < 20 := Nat.lt_of_le_of_lt (length_prtl10 _) (by decide)
  have hf : fieldOf Fdoprnt.prtl10 Fdoprnt.caseD (chr 'd') (.int it.n) =
      some ⟨Fdoprnt.prtl10 (wrap32 (-it.n)), true, false, false⟩ := by
    rw [← number_some hlen]
    simp [fieldOf, convert, chr, Option.map_map, Function.comp_def, Fdoprnt.caseD, hn]
  refine ⟨Fdoprnt.prtl10 (wrap32 (-it.n)), ?_⟩
  simp only [Numeral.printed, h, NumConv.char, sprintf_one (by decide) hf]
  rfl

/-- A decimal or octal numeral begins with a digit, or with the sign of a negative number. -/
theorem printed_decimal {it : Numeral} (hx : it.conv ≠ .x) :
    (∃ c str, it.printed = c :: str ∧ isdigit c = true) ∨ (it.n < 0 ∧ ∃ str, it.printed = chr '-' :: str) := by
  cases h : it.conv with
  | x => exact absurd h hx
  | d =>
    by_cases hn : it.n < 0
    · exact Or.inr ⟨hn, printed_d_neg h hn⟩
    · have hne : Fdoprnt.prtl10 it.n ≠ [] := stripZeros_ne_nil (by simp [lowDigits])
      obtain ⟨c, str, e⟩ := List.exists_cons_of_ne_nil hne
      rw [printed_d_nonneg h (by omega)]
      exact Or.inl ⟨c, str, e, digits_prtl10 (n := it.n) (by omega) c (by simp [e])⟩
  | o =>
    have hne : prtl8 it.n ≠ [] := stripZeros_ne_nil (by simp [lowDigits])
    obtain ⟨c, str, e⟩ := List.exists_cons_of_ne_nil hne
    rw [printed_o h]
    exact Or.inl ⟨c, str, e, digits_prtl8 it.n c (by simp [e])⟩

/-! ## The value of a numeral -/

/-- The value of some digits behind a value. -/
def hexFrom (a : Int) (l : List Int) : Int := l.foldl (fun a c => a * 16 + digitValue c) a

/-- A leading zero does not count. -/
theorem hexFrom_dropWhile (l : List Int) : hexFrom 0 (l.dropWhile (· = chr '0')) = hexFrom 0 l := by
  induction l with
  | nil => rfl
  | cons c l ih =>
    by_cases h : c = chr '0'
    · subst h
      rw [List.dropWhile_cons_of_pos (by decide), ih]
      rfl
    · rw [List.dropWhile_cons_of_neg (by simpa using h)]

/-- Leading zeros do not change the value. -/
theorem hexFrom_stripZeros (temp : List Int) : hexFrom 0 (stripZeros temp) = hexFrom 0 temp.reverse := by
  rw [← hexFrom_dropWhile temp.reverse]
  unfold stripZeros
  split
  · next he =>
    rw [he]
    rw [List.dropWhile_eq_nil_iff] at he
    cases temp with
    | nil => rfl
    | cons c temp =>
      obtain rfl : c = chr '0' := of_decide_eq_true (he c (by simp))
      rfl
  · rfl

/-- The digits that are printed have the value of the 32 bits of the number. -/
theorem hexFrom_prtl16 (n : Int) : hexFrom 0 (prtl16 n) = n % 4294967296 := by
  have hd := fun m => (hexDigit_mod m).2
  unfold prtl16
  rw [hexFrom_stripZeros]
  simp only [hexFrom, List.foldl_reverse, lowDigits, List.foldr_cons, List.foldr_nil, hd]
  omega

/-- The value of a digit. -/
theorem digitValue_bounds {c : Int} (h : IsHex c) : 0 ≤ digitValue c ∧ digitValue c < 16 ∧
    (chr 'a' ≤ c → 10 ≤ digitValue c) := by
  have hc : (48 ≤ c ∧ c ≤ 57) ∨ (97 ≤ c ∧ c ≤ 102) := h.imp isdigit_iff.mp id
  have e : digitValue c = if 48 ≤ c ∧ c ≤ 57 then c - 48 else if 97 ≤ c ∧ c ≤ 102 then c - (97 - 10) else c - (65 - 10) := rfl
  have ea : chr 'a' = 97 := rfl
  rw [e, ea]
  split_ifs <;> omega

theorem hexFrom_append (a : Int) (l l' : List Int) : hexFrom a (l ++ l') = hexFrom (hexFrom a l) l' := List.foldl_append ..

/-- More digits do not make the value smaller. -/
theorem le_hexFrom {l : List Int} (h : ∀ c ∈ l, IsHex c) : ∀ {a : Int}, 0 ≤ a → a ≤ hexFrom a l := by
  induction l with
  | nil => exact fun _ => Int.le_refl _
  | cons c l ih =>
    intro a ha
    have hd := (digitValue_bounds (h c (by simp))).1
    have := ih (fun x hx => h x (by simp [hx])) (a := a * 16 + digitValue c) (by omega)
    simp only [hexFrom, List.foldl_cons] at this ⊢
    omega

/-! ## One conversion -/

/-- What the characters are that are accepted. -/
theorem accepts_range {base c : Int} :
    accepts base c = true ↔ ((48 ≤ c ∧ c ≤ 57) ∨ base = 16) ∧ ((97 ≤ c ∧ c ≤ 102) ∨ (65 ≤ c ∧ c ≤ 70)) := by
  rw [← isdigit_iff]
  exact decide_eq_true_iff

/-- Only letters are accepted, and only in base 16. -/
theorem accepts_iff {base c : Int} (hc : IsHex c) : accepts base c = true ↔ base = 16 ∧ chr 'a' ≤ c := by
  have hc' : (48 ≤ c ∧ c ≤ 57) ∨ (97 ≤ c ∧ c ≤ 102) := hc.imp isdigit_iff.mp id
  have ea : chr 'a' = 97 := rfl
  rw [accepts_range, ea]
  omega

/-- In base 8 and in base 10 no character is accepted: none is a digit and a letter. -/
theorem accepts_false {base c : Int} (hb : base ≠ 16) : accepts base c = false := by
  rw [Bool.eq_false_iff, ne_eq, accepts_range]
  omega

/-- A blank and the end of the text are not accepted. -/
theorem accepts_blank {base c : Int} (hc : isblank c = true ∨ c = Doscan.EOF) : accepts base (wrap8 c) = false := by
  rw [isblank_iff, Doscan.EOF] at hc
  rw [Bool.eq_false_iff, ne_eq, accepts_range]
  unfold wrap8
  omega

/-- A `char` of a character with a code below 128. -/
theorem wrap8_of_lt {c : Int} (h0 : 0 ≤ c) (h : c < 128) : wrap8 c = c := by
  unfold wrap8
  omega

theorem wrap8_nonneg (c : Int) : 0 ≤ wrap8 c := by
  unfold wrap8
  omega

/-- The blanks in front of a numeral are passed over. -/
theorem skipBlanks_gap {keep : Int → Int} (hkeep : ∀ b, isblank b = true → isblank (keep b) = true) {gap : List Int}
    (hg : ∀ c ∈ gap, isblank c = true) {c : Int} (hc : isblank (keep c) = false) :
    ∀ back t : List Int,
      skipBlanks keep (.within back (gap ++ c :: t)) = some (keep c, .within (c :: (gap.reverse ++ back)) t) := by
  induction gap with
  | nil =>
    intro back t
    simp [skipBlanks, skipBlanksFrom, hc]
  | cons b gap ih =>
    intro back t
    have hb : isblank (keep b) = true := hkeep b (hg b (by simp))
    have hrest := ih (fun x hx => hg x (by simp [hx])) (b :: back) t
    simp only [skipBlanks, Option.some.injEq] at hrest ⊢
    simp only [List.cons_append, skipBlanksFrom, hb, if_true, hrest, List.reverse_cons, List.append_assoc, List.nil_append]

theorem isblank_wrap8 (b : Int) (hb : isblank b = true) : isblank (wrap8 b) = true := by
  rw [isblank_iff] at hb ⊢
  unfold wrap8
  omega

/-! ### The end of the text -/

/-- A `char` is not `EOF`. -/
theorem getChar_nonneg {s s' : Src} {c : Int} (h : getChar s = some (c, s')) : 0 ≤ c := by
  obtain ⟨p, _, e⟩ := Option.map_eq_some_iff.mp h
  obtain ⟨rfl, _⟩ := Prod.mk.inj e
  exact wrap8_nonneg p.1

/-- The character behind the blanks is not negative, as a `char` of this machine. -/
theorem skipBlanks_nonneg {s s' : Src} {c : Int} (h : skipBlanks wrap8 s = some (c, s')) : 0 ≤ c := by
  have hfrom : ∀ rest back, 0 ≤ (skipBlanksFrom wrap8 back rest).1 := by
    intro rest
    induction rest with
    | nil => exact fun _ => wrap8_nonneg _
    | cons x rest ih =>
      intro back
      simp only [skipBlanksFrom]
      split
      · exact ih _
      · exact wrap8_nonneg x
  cases s with
  | before => cases h
  | within back rest =>
    have := hfrom rest back
    rw [Option.some.inj h] at this
    exact this

/-- Nor is the one behind the digits. -/
theorem innumLoop_nonneg {base : Int} : ∀ {len np np' : Nat} {a v c c' : Int} {s s' : Src}, 0 ≤ c →
    innumLoop base len a c np s = some (v, c', np', s') → 0 ≤ c' := by
  intro len
  induction len with
  | zero =>
    intro np np' a v c c' s s' hc h
    cases h
    exact hc
  | succ len ih =>
    intro np np' a v c c' s s' hc h
    unfold innumLoop at h
    split at h
    · split at h
      · obtain ⟨p, hp, h⟩ := Option.bind_eq_some_iff.mp h
        exact ih (getChar_nonneg hp) h
      · cases h
    · cases h
      exact hc

/-- `_innum` keeps the character in a `char`, so it never sees the end of the text: the last character is put back, and
`*eofptr` is 0. -/
theorem innum_eof {ptr : Bool} {type : Int} {len : Nat} {size : Size} {s : Src} {r : Scanned}
    (h : innum ptr type len size s = some r) : r.eof = false := by
  have hend : ∀ {c a : Int} {n np : Nat} {s : Src} {neg : Bool}, 0 ≤ c →
      ((innumLoop (baseOf type) n a c np s).bind fun x => innumEnd ptr size neg x) = some r → r.eof = false := by
    intro c a n np s neg hc h
    obtain ⟨⟨v, c', np', s'⟩, hl, h⟩ := Option.bind_eq_some_iff.mp h
    have hne : c' ≠ Doscan.EOF := by
      have := innumLoop_nonneg hc hl
      unfold Doscan.EOF
      omega
    unfold innumEnd at h
    simp only [hne, decide_false, if_false] at h
    split at h
    · cases h
      rfl
    · split at h
      · cases h
        rfl
      · cases h
  unfold innum at h
  obtain ⟨⟨c, s1⟩, hskip, h⟩ := Option.bind_eq_some_iff.mp h
  simp only at h
  split at h
  · obtain ⟨⟨c2, s2⟩, hget, h⟩ := Option.bind_eq_some_iff.mp h
    exact hend (getChar_nonneg hget) h
  · split at h
    · obtain ⟨⟨c2, s2⟩, hget, h⟩ := Option.bind_eq_some_iff.mp h
      exact hend (getChar_nonneg hget) h
    · exact hend (skipBlanks_nonneg hskip) h

example : sscanf (cstr "") (cstr "%d") = some (0, []) := by decide

example : sscanf (cstr "fade") (cstr "%x%x") = some (2, [(0, .int 64222), (1, .int 14)]) := by decide

/-! ### Reading a numeral -/

/-- In base 16 a character that is accepted is a letter, and a `char` of it is the same. -/
theorem wrap8_accepted {base c : Int} (h : accepts base c = true) : wrap8 c = c := by
  have := (accepts_range.mp h).2
  exact wrap8_of_lt (by omega) (by omega)

/-- The digit loop takes the letters in front of a character that it does not accept. -/
theorem innumLoop_letters {p : List Int} (hp : ∀ c ∈ p, accepts 16 c = true) {t : List Int} {e : Int} {s' : Src}
    (hstop : accepts 16 e = false) :
    ∀ (back : List Int) (len np : Nat) (a c : Int) (s : Src), p.length < len → np + p.length < 64 →
      getChar (.within back (p ++ t)) = some (c, s) → getChar (.within (p.reverse ++ back) t) = some (e, s') →
      innumLoop 16 len (wrap32 a) c np s = some (wrap32 (hexFrom a p), e, np + p.length, s') := by
  induction p with
  | nil =>
    intro back len np a c s hlen _ h h'
    obtain ⟨len, rfl⟩ : ∃ m, len = m + 1 := ⟨len - 1, by simp at hlen; omega⟩
    simp only [List.nil_append, List.reverse_nil] at h h'
    obtain ⟨rfl, rfl⟩ := Prod.mk.inj (Option.some.inj (h.symm.trans h'))
    simp [innumLoop, hstop, hexFrom]
  | cons x p ih =>
    intro back len np a c s hlen hnp h h'
    obtain ⟨len, rfl⟩ : ∃ m, len = m + 1 := ⟨len - 1, by simp at hlen; omega⟩
    simp only [List.length_cons] at hlen hnp
    have hx : accepts 16 x = true := hp x (by simp)
    obtain ⟨rfl, rfl⟩ : wrap8 x = c ∧ Src.within (x :: back) (p ++ t) = s := by simpa [getChar, sgetch] using h
    obtain ⟨c2, s2, h2⟩ : ∃ c2 s2, getChar (.within (x :: back) (p ++ t)) = some (c2, s2) := by
      cases p ++ t <;> exact ⟨_, _, rfl⟩
    have hrest := ih (fun y hy => hp y (by simp [hy])) (x :: back) len (np + 1) (a * 16 + digitValue x) c2 s2
      (by omega) (by omega) h2 (by simpa using h')
    have hw : wrap32 (wrap32 (wrap32 a * 16) + digitValue x) = wrap32 (a * 16 + digitValue x) := by
      unfold wrap32
      omega
    have hn : np < 64 := by omega
    have hsum : np + 1 + p.length = np + (p.length + 1) := by omega
    rw [hsum] at hrest
    simp only [innumLoop, wrap8_accepted hx, hx, if_true, if_pos hn, hw, h2, Option.bind_eq_bind, Option.bind_some]
    exact hrest

/-- In base 8 and in base 10 the digit loop takes nothing. -/
theorem innumLoop_none {base : Int} (hb : base ≠ 16) (len : Nat) (a c : Int) (np : Nat) (s : Src) :
    innumLoop base len a c np s = some (a, c, np, s) := by
  cases len <;> simp [innumLoop, accepts_false hb]

/-- The text behind a numeral: it ends, or a blank follows. -/
def Ends (t : List Int) : Prop := ∀ c ∈ t.head?, isblank c = true

/-- A decimal or octal numeral is not read back: no digit is taken, and what is stored behind a sign is 0. -/
theorem innum_decimal {it : Numeral} (hx : it.conv ≠ .x) {gap : List Int} (hg : ∀ c ∈ gap, isblank c = true)
    (back t : List Int) :
    ∃ r, innum true it.conv.char NOLEN .REGULAR (.within back (gap ++ (it.printed ++ t))) = some r ∧
      r.stored ≠ some (.int it.n) := by
  have hbase : baseOf it.conv.char ≠ 16 := by
    cases h : it.conv with
    | x => exact absurd h hx
    | d => decide
    | o => decide
  rcases printed_decimal hx with ⟨c, str, e, hc⟩ | ⟨hn, str, e⟩
  · have hcd := isdigit_iff.mp hc
    have hblank : isblank c = false := by
      rw [Bool.eq_false_iff, ne_eq, isblank_iff]
      omega
    have hm : c ≠ chr '-' ∧ c ≠ chr '+' := by
      have e1 : chr '-' = 45 := rfl
      have e2 : chr '+' = 43 := rfl
      rw [e1, e2]
      omega
    have hw : wrap8 c = c := wrap8_of_lt (by omega) (by omega)
    have hskip := skipBlanks_gap isblank_wrap8 hg (hw.symm ▸ hblank) back (str ++ t)
    rw [e, List.cons_append, innum, hskip, hw]
    simp only [Option.bind_eq_bind, Option.bind_some, if_neg hm.1, if_neg hm.2, innumLoop_none hbase]
    exact ⟨_, rfl, by simp⟩
  · have hw : wrap8 (chr '-') = chr '-' := by decide
    have hblank : isblank (wrap8 (chr '-')) = false := by decide
    have hskip := skipBlanks_gap isblank_wrap8 hg hblank back (str ++ t)
    obtain ⟨c2, s2, h2⟩ : ∃ c2 s2, getChar (.within (chr '-' :: (gap.reverse ++ back)) (str ++ t)) = some (c2, s2) := by
      cases str ++ t <;> exact ⟨_, _, rfl⟩
    rw [e, List.cons_append, innum, hskip, hw]
    simp only [Option.bind_eq_bind, Option.bind_some, if_true, h2, innumLoop_none hbase]
    refine ⟨_, rfl, ?_⟩
    have h0 : wrap32 (-0) = 0 := rfl
    simp only [h0, storeNumber, ne_eq, Option.some.injEq, Stored.int.injEq]
    omega

/-- `%x` reads the letters `p` in front of `u`, and the next conversion begins there. -/
theorem innum_letters {gap : List Int} (hg : ∀ c ∈ gap, isblank c = true) {p u : List Int}
    (hp : ∀ c ∈ p, accepts 16 c = true) (hlen : p.length < 64) (hu : ∀ c ∈ u.head?, accepts 16 (wrap8 c) = false)
    {c : Int} {str : List Int} (hc : p ++ u = c :: str) (hw : wrap8 c = c) (hblank : isblank c = false)
    (hminus : c ≠ chr '-') (hplus : c ≠ chr '+') (back : List Int) :
    ∃ r, innum true (chr 'x') NOLEN .REGULAR (.within back (gap ++ (p ++ u))) = some r ∧
      r.stored = (if p = [] then none else some (.int (wrap32 (hexFrom 0 p)))) ∧
      (u ≠ [] → r.src = .within (p.reverse ++ (gap.reverse ++ back)) u) := by
  have hbase : baseOf (chr 'x') = 16 := rfl
  -- the character behind the letters
  obtain ⟨e, s', hnext, hstop, hback⟩ : ∃ e s', getChar (.within (p.reverse ++ (gap.reverse ++ back)) u) = some (e, s') ∧
      accepts 16 e = false ∧ (u ≠ [] → sungetch s' = .within (p.reverse ++ (gap.reverse ++ back)) u) := by
    cases u with
    | nil => exact ⟨_, _, rfl, accepts_blank (Or.inr rfl), fun h => absurd rfl h⟩
    | cons x u => exact ⟨_, _, rfl, hu x rfl, fun _ => rfl⟩
  have hfirst : getChar (.within (gap.reverse ++ back) (p ++ u)) = some (c, .within (c :: (gap.reverse ++ back)) str) := by
    rw [hc]
    simp [getChar, sgetch, hw]
  have hloop := innumLoop_letters hp hstop (gap.reverse ++ back) NOLEN 0 0 _ _ (by unfold NOLEN; omega) (by omega) hfirst
    hnext
  have hw0 : wrap32 0 = 0 := rfl
  have hskip := skipBlanks_gap isblank_wrap8 hg (hw.symm ▸ hblank) back str
  rw [hw0, Nat.zero_add] at hloop
  have hE : e ≠ Doscan.EOF := by
    have := getChar_nonneg hnext
    unfold Doscan.EOF
    omega
  rw [innum, hc, hskip, hw, hbase]
  simp only [Option.bind_eq_bind, Option.bind_some, if_neg hminus, if_neg hplus, hloop]
  by_cases h : p = []
  · simp [innumEnd, h, hE] at hback ⊢
    exact hback
  · have h0 : p.length ≠ 0 := by simpa using h
    simp [innumEnd, h, hE, hlen, storeNumber]
    exact hback

/-- The value of some letters in front of another digit is less than the value of the whole numeral. -/
theorem hexFrom_prefix {p q : List Int} {d : Int} (hp : p ≠ []) (hlet : ∀ c ∈ p, IsHex c ∧ chr 'a' ≤ c)
    (hd : IsHex d) (hq : ∀ c ∈ q, IsHex c) :
    0 < hexFrom 0 p ∧ 16 * hexFrom 0 p ≤ hexFrom 0 (p ++ d :: q) := by
  obtain ⟨c, p, rfl⟩ := List.exists_cons_of_ne_nil hp
  have hc := digitValue_bounds (hlet c (by simp)).1
  have h10 := hc.2.2 (hlet c (by simp)).2
  have hle := le_hexFrom (l := p) (fun x hx => (hlet x (by simp [hx])).1) (a := 0 * 16 + digitValue c) (by omega)
  have hpos : 0 < hexFrom 0 (c :: p) := by
    simp only [hexFrom, List.foldl_cons] at hle ⊢
    omega
  refine ⟨hpos, ?_⟩
  have hdv := (digitValue_bounds hd).1
  have hrest := le_hexFrom hq (a := hexFrom 0 (c :: p) * 16 + digitValue d) (by omega)
  rw [hexFrom_append]
  simp only [hexFrom, List.foldl_cons] at hrest ⊢
  omega

/-- A hexadecimal numeral is read up to the first digit that is no letter. -/
theorem innum_hex {it : Numeral} (hx : it.conv = .x) {gap : List Int} (hg : ∀ c ∈ gap, isblank c = true)
    (back : List Int) {t : List Int} (ht : Ends t) :
    ∃ r, innum true it.conv.char NOLEN .REGULAR (.within back (gap ++ (it.printed ++ t))) = some r ∧
      (it.Letters → r.stored = some (.int it.n) ∧ (t ≠ [] → ∃ b, r.src = .within b t)) ∧
      (¬it.Letters → r.stored ≠ some (.int it.n)) := by
  have hhex := digits_prtl16 it.n
  have hval := hexFrom_prtl16 it.n
  have hlen := length_prtl16 it.n
  have hne : prtl16 it.n ≠ [] := stripZeros_ne_nil (by simp [lowDigits])
  have hletters : it.Letters ↔ ∀ c ∈ prtl16 it.n, accepts 16 c = true := by
    unfold Numeral.Letters
    simp only [hx, true_and]
    refine forall₂_congr fun c hc => ?_
    rw [accepts_iff (hhex c hc)]
    simp
  rw [hletters, printed_x hx, hx]
  -- the letters at the front and the rest
  have hcut := List.takeWhile_append_dropWhile (p := fun c => accepts 16 c) (l := prtl16 it.n)
  have hp : ∀ c ∈ (prtl16 it.n).takeWhile (fun c => accepts 16 c), accepts 16 c = true :=
    fun c hc => List.mem_takeWhile_imp (p := fun c => accepts 16 c) hc
  have hq := List.head?_dropWhile_not (fun c => accepts 16 c) (prtl16 it.n)
  generalize (prtl16 it.n).takeWhile (fun c => accepts 16 c) = p at hcut hp
  generalize (prtl16 it.n).dropWhile (fun c => accepts 16 c) = q at hcut hq
  have hchar : ∀ c, IsHex c → wrap8 c = c := by
    intro c hc
    have hc' : (48 ≤ c ∧ c ≤ 57) ∨ (97 ≤ c ∧ c ≤ 102) := hc.imp isdigit_iff.mp id
    exact wrap8_of_lt (by omega) (by omega)
  have hu : ∀ c ∈ (q ++ t).head?, accepts 16 (wrap8 c) = false := by
    intro c hc
    cases q with
    | nil => exact accepts_blank (Or.inl (ht c hc))
    | cons d q =>
      obtain rfl : d = c := by simpa using hc
      rw [hchar d (hhex d (by simp [← hcut]))]
      simpa using hq
  obtain ⟨c, str, hstr⟩ := List.exists_cons_of_ne_nil hne
  have hc := hhex c (by simp [hstr])
  have hc' : (48 ≤ c ∧ c ≤ 57) ∨ (97 ≤ c ∧ c ≤ 102) := hc.imp isdigit_iff.mp id
  have hblank : isblank c = false := by
    rw [Bool.eq_false_iff, ne_eq, isblank_iff]
    omega
  have e1 : chr '-' = 45 := rfl
  have e2 : chr '+' = 43 := rfl
  have hplen : p.length < 64 := by
    have : p.length ≤ (prtl16 it.n).length := by simp [← hcut]
    omega
  have hcons : p ++ (q ++ t) = c :: (str ++ t) := by rw [← List.append_assoc, hcut, hstr, List.cons_append]
  obtain ⟨r, hread, hstored, hsrc⟩ := innum_letters hg hp hplen hu hcons (hchar c hc) hblank (by rw [e1]; omega)
    (by rw [e2]; omega) back
  rw [← List.append_assoc p, hcut] at hread
  refine ⟨r, hread, ?_, ?_⟩
  · intro hall
    have hq0 : q = [] := by
      cases q with
      | nil => rfl
      | cons d q =>
        have := hall d (by simp [← hcut])
        simp [this] at hq
    subst hq0
    rw [List.append_nil] at hcut
    have hw : wrap32 (it.n % 4294967296) = it.n := by
      have := it.lower
      have := it.upper
      unfold wrap32
      omega
    rw [hstored, hcut, if_neg hne, hval, hw]
    exact ⟨rfl, fun h => ⟨_, hsrc h⟩⟩
  · intro hall
    have hq0 : q ≠ [] := by
      rintro rfl
      rw [List.append_nil] at hcut
      exact hall (hcut ▸ hp)
    obtain ⟨d, q, rfl⟩ := List.exists_cons_of_ne_nil hq0
    rw [hstored]
    by_cases hp0 : p = []
    · simp [hp0]
    · have hlet : ∀ c ∈ p, IsHex c ∧ chr 'a' ≤ c := by
        intro c hc
        have hh := hhex c (by simp [← hcut, hc])
        exact ⟨hh, ((accepts_iff hh).mp (hp c hc)).2⟩
      have hpre := hexFrom_prefix hp0 hlet (hhex d (by simp [← hcut])) (q := q)
        (fun x hx => hhex x (by simp [← hcut, hx]))
      rw [hcut, hval] at hpre
      simp only [if_neg hp0, ne_eq, Option.some.injEq, Stored.int.injEq]
      have := it.lower
      have := it.upper
      unfold wrap32
      omega

/-- A numeral with what stands behind it. -/
theorem innum_numeral (it : Numeral) {gap : List Int} (hg : ∀ c ∈ gap, isblank c = true) (back : List Int) {t : List Int}
    (ht : Ends t) :
    ∃ r, innum true it.conv.char NOLEN .REGULAR (.within back (gap ++ (it.printed ++ t))) = some r ∧
      (it.Letters → r.stored = some (.int it.n) ∧ (t ≠ [] → ∃ b, r.src = .within b t)) ∧
      (¬it.Letters → r.stored ≠ some (.int it.n)) := by
  by_cases hx : it.conv = .x
  · exact innum_hex hx hg back ht
  · obtain ⟨r, e, h⟩ := innum_decimal hx hg back t
    exact ⟨r, e, fun hl => absurd hl.1 hx, fun _ => h⟩

/-! ## The loop over the format -/

/-- A conversion of the format. -/
theorem doscan_conv (n : Nat) (cv : NumConv) (fmt : List Int) (s : Src) (tab : Sctab) (nmatch : Int) (arg : Nat)
    (stores : List (Nat × Stored)) :
    doscan (n + 1) (chr '%' :: cv.char :: fmt) s tab nmatch arg stores =
      (innum true cv.char NOLEN .REGULAR s).bind fun r =>
        doscan n fmt r.src tab (if r.stored.isSome then nmatch + 1 else nmatch) (arg + 1) (addStore stores arg r.stored) := by
  have hread : readConv (cv.char :: fmt) = (⟨true, NOLEN, .REGULAR, cv.char⟩, fmt) := by
    cases cv <;> simp [readConv, NumConv.char, skip, lengthLoop, isdigit, isupper, chr]
  have hskip : (skip (chr '%') (cv.char :: fmt)).1 = false := by
    cases cv <;> simp [skip, NumConv.char, chr]
  have hne : cv.char ≠ 0 ∧ cv.char ≠ chr '[' ∧ cv.char ≠ chr 'c' ∧ cv.char ≠ chr 's' := by
    cases cv <;> decide
  obtain ⟨h0, h1, h2, h3⟩ := hne
  have hone : scanOne ⟨true, NOLEN, .REGULAR, cv.char⟩ tab fmt s =
      (innum true cv.char NOLEN .REGULAR s).map (·, tab, fmt) := by
    simp [scanOne, h1, h2, h3]
  rw [doscan]
  simp only [hskip, and_self, if_true, hread, if_neg h0, hone]
  cases hr : innum true cv.char NOLEN .REGULAR s with
  | none => rfl
  | some r => simp [innum_eof hr]

/-- Stores are added for later arguments only. -/
theorem doscan_stores (n : Nat) : ∀ {fmt : List Int} {s : Src} {tab : Sctab} {nmatch : Int} {arg : Nat}
    {stores st : List (Nat × Stored)} {v : Int}, doscan n fmt s tab nmatch arg stores = some (v, st) →
    ∃ new, st = stores ++ new ∧ ∀ x ∈ new, arg ≤ x.1 := by
  induction n with
  | zero =>
    intro fmt s tab nmatch arg stores st v h
    cases h
  | succ n ih =>
    intro fmt s tab nmatch arg stores st v h
    cases fmt with
    | nil =>
      obtain ⟨_, rfl⟩ := Prod.mk.inj (Option.some.inj h)
      exact ⟨[], by simp, by simp⟩
    | cons ch fmt =>
      rw [doscan] at h
      split at h
      · simp only at h
        split at h
        · obtain ⟨_, rfl⟩ := Prod.mk.inj (Option.some.inj h)
          exact ⟨[], by simp, by simp⟩
        · split at h
          · cases h
          · next r tab fmt _ =>
            have hadd : ∃ new, addStore stores arg r.stored = stores ++ new ∧ ∀ x ∈ new, arg ≤ x.1 := by
              cases r.stored with
              | none => exact ⟨[], by simp [addStore], by simp⟩
              | some x => exact ⟨[(arg, x)], rfl, by simp⟩
            obtain ⟨new, hnew, hle⟩ := hadd
            split at h
            · obtain ⟨_, rfl⟩ := Prod.mk.inj (Option.some.inj h)
              exact ⟨new, hnew, hle⟩
            · obtain ⟨new', rfl, hle'⟩ := ih h
              refine ⟨new ++ new', by rw [hnew, List.append_assoc], ?_⟩
              intro x hx
              rcases List.mem_append.mp hx with hx | hx
              · exact hle x hx
              · have := hle' x hx
                split at this <;> omega
      · split at h
        · split at h
          · cases h
          · exact ih h
        · split at h
          · cases h
          · split at h
            · exact ih h
            · split at h <;>
              · obtain ⟨_, rfl⟩ := Prod.mk.inj (Option.some.inj h)
                exact ⟨[], by simp, by simp⟩

/-- A blank of the format passes over the blanks of the text. -/
theorem doscan_blank {n : Nat} {b : Int} (hb : isblank b = true) {gap : List Int} (hg : ∀ c ∈ gap, isblank c = true)
    {c : Int} (hc : isblank c = false) (hE : c ≠ Doscan.EOF) (fmt back t : List Int) (tab : Sctab) (nmatch : Int) (arg : Nat)
    (stores : List (Nat × Stored)) :
    doscan (n + 1) (b :: fmt) (.within back (gap ++ c :: t)) tab nmatch arg stores =
      doscan n fmt (.within (gap.reverse ++ back) (c :: t)) tab nmatch arg stores := by
  have hne : b ≠ chr '%' := by
    rintro rfl
    revert hb
    decide
  rw [doscan]
  have hskip : skipBlanks id (.within back (gap ++ c :: t)) = some (c, .within (c :: (gap.reverse ++ back)) t) :=
    skipBlanks_gap (fun _ h => h) hg hc back t
  simp [hne, hb, hskip, sungetch, hE]

/-- The blanks of the format in front of a conversion leave the text in front of its numeral. -/
theorem doscan_gap {fgap : List Int} (hf : ∀ b ∈ fgap, isblank b = true) {c : Int} (hc : isblank c = false)
    (hE : c ≠ Doscan.EOF) (fmt t : List Int) (tab : Sctab) (nmatch : Int) (arg : Nat) (stores : List (Nat × Stored)) :
    ∀ (n : Nat) (back gap : List Int), (∀ c ∈ gap, isblank c = true) → ∃ back' gap', (∀ c ∈ gap', isblank c = true) ∧
      doscan (n + fgap.length) (fgap ++ fmt) (.within back (gap ++ c :: t)) tab nmatch arg stores =
        doscan n fmt (.within back' (gap' ++ c :: t)) tab nmatch arg stores := by
  induction fgap with
  | nil => exact fun n back gap hg => ⟨back, gap, hg, rfl⟩
  | cons b fgap ih =>
    intro n back gap hg
    obtain ⟨back', gap', hg', e⟩ := ih (fun x hx => hf x (by simp [hx])) n (gap.reverse ++ back) [] (by simp)
    refine ⟨back', gap', hg', ?_⟩
    rw [← e, List.length_cons, ← Nat.add_assoc, List.cons_append, doscan_blank (hf b (by simp)) hg hc hE]
    rfl

/-- A numeral is printed with a first character that is no blank. -/
theorem printed_cons (it : Numeral) : ∃ c str, it.printed = c :: str ∧ isblank c = false ∧ c ≠ Doscan.EOF := by
  have hok : ∀ c, ((48 ≤ c ∧ c ≤ 57) ∨ (97 ≤ c ∧ c ≤ 102)) → isblank c = false ∧ c ≠ Doscan.EOF := by
    intro c hc
    rw [Bool.eq_false_iff, ne_eq, isblank_iff, Doscan.EOF]
    omega
  by_cases hx : it.conv = .x
  · have hne : prtl16 it.n ≠ [] := stripZeros_ne_nil (by simp [lowDigits])
    obtain ⟨c, str, e⟩ := List.exists_cons_of_ne_nil hne
    exact ⟨c, str, (printed_x hx).trans e, hok c ((digits_prtl16 it.n c (by simp [e])).imp isdigit_iff.mp id)⟩
  · rcases printed_decimal hx with ⟨c, str, e, hc⟩ | ⟨_, str, e⟩
    · exact ⟨c, str, e, hok c (Or.inl (isdigit_iff.mp hc))⟩
    · exact ⟨_, str, e, by decide, by decide⟩

/-- The blanks that separate the numerals: in front of each but the first. -/
def Separated (items : List Numeral) : Prop := ∀ it ∈ items.tail, it.gap ≠ []

/-- A text of numerals with gaps ends each where it should. -/
theorem ends_textOf {items : List Numeral} (h : ∀ it ∈ items, it.gap ≠ []) : Ends (textOf items) := by
  cases items with
  | nil => simp [Ends, textOf]
  | cons it items =>
    obtain ⟨b, gap, e⟩ := List.exists_cons_of_ne_nil (h it (by simp))
    intro c hc
    simp only [textOf, List.flatMap_cons, e, List.cons_append, List.head?_cons, Option.mem_some_iff] at hc
    subst hc
    exact it.gap_blank b (by simp [e])

/-- The scan from any numeral on. -/
theorem doscan_numerals (tab : Sctab) : ∀ {items : List Numeral}, Separated items → ∀ (n k : Nat) (back : List Int)
    (stores : List (Nat × Stored)), (formatOf items).length < n →
    (doscan n (formatOf items) (.within back (textOf items)) tab k k stores =
        some (((k + items.length : Nat) : Int), stores ++ storesOf k items) ↔ ∀ it ∈ items, it.Letters) := by
  intro items
  induction items with
  | nil =>
    intro _ n k back stores hn
    obtain ⟨n, rfl⟩ : ∃ m, n = m + 1 := ⟨n - 1, by omega⟩
    refine iff_of_true ?_ (by simp)
    simp [formatOf, doscan, storesOf]
  | cons it items ih =>
    intro hsep n k back stores hn
    have hlater : ∀ j ∈ items, j.gap ≠ [] := hsep
    have hsep' : Separated items := fun j hj => hlater j (List.mem_of_mem_tail hj)
    have hends := ends_textOf hlater
    have hformat : formatOf (it :: items) = it.fgap ++ (chr '%' :: it.conv.char :: formatOf items) := by
      simp [formatOf]
    have htext : textOf (it :: items) = it.gap ++ (it.printed ++ textOf items) := by
      simp [textOf]
    obtain ⟨c, str, hcs, hblank, hE⟩ := printed_cons it
    obtain ⟨n, rfl⟩ : ∃ m, n = m + 1 + it.fgap.length := ⟨n - 1 - it.fgap.length, by
      simp only [hformat, List.length_append, List.length_cons] at hn
      omega⟩
    have hn' : (formatOf items).length < n := by
      simp only [hformat, List.length_append, List.length_cons] at hn
      omega
    -- the blanks of the format, then the conversion
    obtain ⟨back', gap', hg', hskip⟩ := doscan_gap it.fgap_blank hblank hE (chr '%' :: it.conv.char :: formatOf items)
      (str ++ textOf items) tab k k stores (n + 1) back it.gap it.gap_blank
    obtain ⟨r, hr, hgood, hbad⟩ := innum_numeral it hg' back' hends
    rw [hcs, List.cons_append] at hr
    rw [hformat, htext, hcs, List.cons_append, hskip, doscan_conv, hr, Option.bind_some, List.forall_mem_cons]
    by_cases hl : it.Letters
    · obtain ⟨hst, hrest⟩ := hgood hl
      simp only [hst, Option.isSome_some, if_true, addStore, hl, true_and]
      cases items with
      | nil =>
        -- the last character is put back, and the format is at its end
        refine iff_of_true ?_ (by simp)
        obtain ⟨n, rfl⟩ : ∃ m, n = m + 1 := ⟨n - 1, by omega⟩
        simp [formatOf, doscan, storesOf]
      | cons j items =>
        have hne : textOf (j :: items) ≠ [] := by
          obtain ⟨b, gap, e⟩ := List.exists_cons_of_ne_nil (hlater j (by simp))
          simp [textOf, e]
        obtain ⟨b, hsrc⟩ := hrest hne
        have hlen : k + (it :: j :: items).length = k + 1 + (j :: items).length := by
          simp only [List.length_cons]
          omega
        have hstores : stores ++ storesOf k (it :: j :: items) =
            stores ++ [(k, .int it.n)] ++ storesOf (k + 1) (j :: items) := by
          simp [storesOf]
        rw [hsrc, hlen, hstores, ← ih hsep' n (k + 1) b (stores ++ [(k, .int it.n)]) hn']
        push_cast
        rfl
    · refine iff_of_false ?_ (fun h => hl h.1)
      intro h
      -- whatever happens later, nothing else is stored through this argument
      obtain ⟨new, e, hnew⟩ := doscan_stores n h
      cases hr' : r.stored with
      | none =>
        rw [hr', addStore] at e
        have hle : k + 1 ≤ k := hnew (k, .int it.n) (by rw [← List.append_cancel_left e]; simp [storesOf])
        omega
      | some v =>
        rw [hr', addStore, List.append_assoc] at e
        have he := List.append_cancel_left e
        simp only [storesOf, List.cons_append, List.cons.injEq, Prod.mk.injEq, true_and] at he
        exact hbad hl (by rw [hr', he.1])

/-- For any numerals printed by `sprintf` and separated by blanks, `sscanf` with the same conversions stores every number and
returns how many there are exactly when all conversions are `%x` and all digits are letters. -/
theorem scan_print {items : List Numeral} (hsep : Separated items) :
    sscanf (textOf items) (formatOf items) = some ((items.length : Int), storesOf 0 items) ↔ ∀ it ∈ items, it.Letters := by
  have := doscan_numerals (fun _ => false) hsep ((formatOf items).length + 1) 0 [] []
    (Nat.lt_succ_self _)
  simpa [sscanf] using this

/-- The numeral `fade` with a blank in front. -/
def Numeral.fade : Numeral where
  conv := .x
  n := 64222
  gap := [chr ' ']
  fgap := []
  lower := by decide
  upper := by decide
  gap_blank := by decide
  fgap_blank := by decide

/-- Two numerals of letters are read back. -/
theorem scan_print_fade : sscanf (cstr " fade fade") (cstr "%x%x") = some (2, [(0, .int 64222), (1, .int 64222)]) := by
  have hsep : Separated [Numeral.fade, Numeral.fade] := by
    simp [Separated, Numeral.fade]
  have hl : ∀ it ∈ [Numeral.fade, Numeral.fade], it.Letters := by
    simp only [List.mem_cons, List.not_mem_nil, or_false, forall_eq_or_imp, forall_eq, and_self]
    exact ⟨rfl, by decide⟩
  have h := (scan_print hsep).mpr hl
  have ht : textOf [Numeral.fade, Numeral.fade] = cstr " fade fade" := by decide
  have hf : formatOf [Numeral.fade, Numeral.fade] = cstr "%x%x" := by decide
  rw [ht, hf] at h
  exact h

/-- `sprintf` prints 5 as a digit, and `sscanf` takes no digit. -/
theorem scan_print_five : sprintf (cstr "%d") [.int 5] = some (cstr "5") ∧ sscanf (cstr "5") (cstr "%d") = some (0, []) := by
  decide

end Xinu
