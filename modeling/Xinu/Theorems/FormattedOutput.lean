import Mathlib.Data.List.TakeWhile
import Mathlib.Tactic.Ring
import Xinu.Stdio.Fields

/-!
# The two formatted-output engines

For every format string with the conversions `c`, `s`, `d`, `u`, `o`, `x`, `X` and `b` and arguments of matching type, `_doprnt`
and `_fdoprnt` hand the same characters to their output functions exactly when no `d` converts -2147483648, which `_fdoprnt`
negates in 32 bits, and no `b` converts a number of more than 19 binary digits, for which both write past the end of `string`.
-/

namespace Xinu

/-- An argument is of the type that a conversion takes, and a number has 32 bits. -/
def matching (f : Int) : Arg → Bool
  | .int v =>
    (f = chr 'c' ∨ f = chr 'd' ∨ f = chr 'u' ∨ f = chr 'o' ∨ f = chr 'x' ∨ f = chr 'X' ∨ f = chr 'b') ∧
      -2147483648 ≤ v ∧ v ≤ 2147483647
  | .str _ => f = chr 's'

/-- The conversions of a format string in order, each with its argument; `none` when a conversion is none of the eight or its
argument is missing or does not match. -/
def conversions : Nat → List Int → List Arg → Option (List (Int × Arg))
  | 0, _, _ => none
  | _ + 1, [], _ => some []
  | n + 1, c :: fmt, args =>
    if c ≠ chr '%' then conversions n fmt args
    else if (skip (chr '%') fmt).1 then conversions n (skip (chr '%') fmt).2 args
    else do
      let (_, fmt, args) ← readSpec fmt args
      match fmt, args with
      | [], _ => some []
      | f :: fmt, a :: args => if matching f a then (conversions n fmt args).map ((f, a) :: ·) else none
      | _, _ => none

/-- A conversion for which the two files agree. -/
def Agreed (x : Int × Arg) : Prop :=
  x ≠ (chr 'd', .int (-2147483648)) ∧ ∀ v, x = (chr 'b', .int v) → 0 ≤ v ∧ v < 524288

/-! ## Digits -/

/-- The two copies of `_prtl10` agree on a number that is not negative. -/
theorem prtl10_eq {num : Int} (h : 0 ≤ num) : Doprnt.prtl10 num = Fdoprnt.prtl10 num := by
  have hn : ¬num < 0 := by omega
  unfold Doprnt.prtl10 Fdoprnt.prtl10
  rw [if_neg hn, if_neg hn]
  rfl

/-- `_doprnt` prints a negative number as `_fdoprnt` prints what it is negated to. -/
theorem prtl10_neg {num : Int} (h : num < 0) : Doprnt.prtl10 num = Fdoprnt.prtl10 (-num) := by
  unfold Doprnt.prtl10 Fdoprnt.prtl10
  rw [if_pos h, if_pos h, ← Int.neg_tmod, Int.tdiv_neg, ← Int.neg_tdiv]
  rfl

/-- The low `k` binary digits of a number are all zero exactly when it is a multiple of `2 ^ k`. -/
theorem bits_zero_iff (k : Nat) (num : Int) :
    (∀ c ∈ lowDigits (fun n => if n.tmod 2 = 0 then chr '0' else chr '1') (fun n => n / 2) k num, c = chr '0') ↔
      num % 2 ^ k = 0 := by
  induction k generalizing num with
  | zero => simp [lowDigits]
  | succ k ih =>
    have h1 : chr '1' ≠ chr '0' := by decide
    have hd : (if num.tmod 2 = 0 then chr '0' else chr '1') = chr '0' ↔ num % 2 = 0 := by
      rw [← Int.dvd_iff_emod_eq_zero, Int.dvd_iff_tmod_eq_zero]
      split
      · exact iff_of_true rfl ‹_›
      · exact iff_of_false h1 ‹_›
    simp only [lowDigits, List.mem_cons, forall_eq_or_imp, ih, hd, ← Int.dvd_iff_emod_eq_zero, pow_succ]
    constructor
    · rintro ⟨⟨a, rfl⟩, b, hb⟩
      rw [Int.mul_ediv_cancel_left _ (by decide)] at hb
      exact ⟨b, by rw [hb]; ring⟩
    · rintro ⟨c, rfl⟩
      have h2 : (2 : Int) ^ k * 2 * c = 2 * (2 ^ k * c) := by ring
      refine ⟨⟨2 ^ k * c, h2⟩, c, ?_⟩
      rw [h2, Int.mul_ediv_cancel_left _ (by decide)]

/-- The binary form of a 32-bit number fits into `string` exactly when it has at most 19 digits. -/
theorem length_prtl2 {v : Int} (h1 : -2147483648 ≤ v) (h2 : v ≤ 2147483647) :
    (prtl2 v).length < 20 ↔ 0 ≤ v ∧ v < 524288 := by
  have hcut := lowDigits_add (fun n => if n.tmod 2 = 0 then chr '0' else chr '1') (fun n => n / 2) 19 13 v
  have hhalf : (fun n : Int => n / 2)^[19] v = v / 524288 := by
    simp only [Function.iterate_succ, Function.iterate_zero, Function.comp_apply, id]
    omega
  have hbits := bits_zero_iff 13 (v / 524288)
  have hzero : v / 524288 % 2 ^ 13 = 0 ↔ 0 ≤ v ∧ v < 524288 := by omega
  rw [hhalf] at hcut
  rw [← hzero, ← hbits]
  have hlow := length_lowDigits (fun n => if n.tmod 2 = 0 then chr '0' else chr '1') (fun n => n / 2) 19 v
  unfold prtl2 stripZeros
  simp only [hcut]
  generalize lowDigits (fun n => if n.tmod 2 = 0 then chr '0' else chr '1') (fun n => n / 2) 19 v = low at hlow
  generalize lowDigits (fun n => if n.tmod 2 = 0 then chr '0' else chr '1') (fun n => n / 2) 13 (v / 524288) = high
  rw [List.reverse_append, List.dropWhile_append]
  by_cases hz : ∀ c ∈ high, c = chr '0'
  · -- the leading digits are dropped, and at most the 19 low ones are left
    have hdrop : high.reverse.dropWhile (fun c => decide (c = chr '0')) = [] := by
      rw [List.dropWhile_eq_nil_iff]
      intro c hc
      exact decide_eq_true (hz c (List.mem_reverse.mp hc))
    have hle := (List.dropWhile_sublist (l := low.reverse) (fun c => decide (c = chr '0'))).length_le
    rw [List.length_reverse] at hle
    simp only [hdrop, List.isEmpty_nil, if_true]
    refine iff_of_true ?_ hz
    split
    · simp only [List.length_take]
      omega
    · omega
  · -- the first digit that is not zero stands before all the 19 low ones
    have hdrop : high.reverse.dropWhile (fun c => decide (c = chr '0')) ≠ [] := by
      intro he
      rw [List.dropWhile_eq_nil_iff] at he
      exact hz fun c hc => of_decide_eq_true (he c (List.mem_reverse.mpr hc))
    have hpos := List.length_pos_iff.mpr hdrop
    rw [if_neg (by simpa using hdrop)]
    refine iff_of_false ?_ hz
    split
    · next he => simp_all
    · simp only [List.length_append, List.length_reverse]
      omega

/-! ## One conversion -/

/-- `H` and `h` are not among the conversions. -/
theorem doprnt_convert {f : Int} {a : Arg} (hm : matching f a = true) (args : List Arg) :
    Doprnt.convert f (a :: args) = convert Doprnt.prtl10 Doprnt.caseD f (a :: args) := by
  cases a with
  | str s => rfl
  | int v =>
    have hH : f ≠ chr 'H' ∧ f ≠ chr 'h' := by
      simp only [matching, decide_eq_true_eq] at hm
      rcases hm.1 with rfl | rfl | rfl | rfl | rfl | rfl | rfl <;> decide
    cases args with
    | nil => rfl
    | cons b args =>
      cases b with
      | str s => rfl
      | int w => simp only [Doprnt.convert, if_neg hH.1, if_neg hH.2]

/-- The loop of `u` ends with a number that is not negative: read without a sign, every turn makes it smaller. -/
theorem unsign_loop {n : Nat} : ∀ {v d : Int}, -2147483648 ≤ v → v ≤ 2147483647 →
    (0 ≤ v ∨ v + 4294967296 < 2147483648 + n * 1000000000) → 0 ≤ (unsign n v d).1 := by
  induction n with
  | zero =>
    intro v d h1 h2 h
    simp only [unsign]
    omega
  | succ n ih =>
    intro v d h1 h2 h
    unfold unsign
    split
    · have hw : -2147483648 ≤ wrap32 (v - 1000000000) ∧ wrap32 (v - 1000000000) ≤ 2147483647 := by
        unfold wrap32
        omega
      refine ih hw.1 hw.2 ?_
      unfold wrap32
      push_cast at h
      omega
    · simp only
      omega

theorem unsign_nonneg {v : Int} (h1 : -2147483648 ≤ v) (h2 : v ≤ 2147483647) : 0 ≤ (unsign 4 v 0).1 :=
  unsign_loop h1 h2 (by push_cast; omega)

theorem length_addFirst (d : Int) (str : List Int) : (addFirst d str).length = str.length := by
  cases str <;> rfl

/-- Case `d` of the two files agrees but for the least number. -/
theorem caseD_agreed {v : Int} (h1 : -2147483648 ≤ v) (h2 : v ≤ 2147483647) (hv : v ≠ -2147483648) :
    Doprnt.caseD v = Fdoprnt.caseD v ∧ (Fdoprnt.caseD v).isSome := by
  unfold Doprnt.caseD Fdoprnt.caseD
  by_cases hn : v < 0
  · have hw : wrap32 (-v) = -v := by
      unfold wrap32
      omega
    have hlen : (Fdoprnt.prtl10 (-v)).length < 20 := Nat.lt_of_le_of_lt (length_prtl10 _) (by decide)
    rw [if_pos hn, prtl10_neg hn, hw, number_some hlen, number_some hlen]
    simp [hn]
  · have hlen : (Fdoprnt.prtl10 v).length < 20 := Nat.lt_of_le_of_lt (length_prtl10 _) (by decide)
    rw [if_neg hn, prtl10_eq (by omega), number_some hlen, number_some hlen]
    simp [hn]

/-- Two files make the same field when their cases `d` and their digits for `u` agree. -/
theorem fieldOf_congr {p p' : Int → List Int} {d d' : Int → Option Field} {f v : Int} (hd : f = chr 'd' → d v = d' v)
    (hu : p (unsign 4 v 0).1 = p' (unsign 4 v 0).1) : fieldOf p d f (.int v) = fieldOf p' d' f (.int v) := by
  simp only [fieldOf, convert, hu]
  by_cases h : f = chr 'd'
  · rw [hd h]
  · simp only [if_neg h]

/-- A conversion of a number makes a field when its digits fit into `string`. -/
theorem fieldOf_isSome {f v : Int} (hm : matching f (.int v) = true) (hd : f = chr 'd' → (Fdoprnt.caseD v).isSome)
    (hb : f = chr 'b' → (prtl2 v).length < 20) : (fieldOf Fdoprnt.prtl10 Fdoprnt.caseD f (.int v)).isSome := by
  have hlen10 : ∀ n, (Fdoprnt.prtl10 n).length < 20 := fun n => Nat.lt_of_le_of_lt (length_prtl10 n) (by decide)
  have hlen8 : (prtl8 v).length < 20 := Nat.lt_of_le_of_lt (length_prtl8 v) (by decide)
  have hlenx : (prtl16 v).length < 20 := Nat.lt_of_le_of_lt (length_prtl16 v) (by decide)
  have hlenX : (prtX16 v).length < 20 := Nat.lt_of_le_of_lt (length_prtX16 v) (by decide)
  simp only [matching, decide_eq_true_eq] at hm
  by_cases h1 : f = chr 'c'
  · subst h1
    rfl
  · simp only [fieldOf, convert, Option.isSome_map, if_neg h1]
    split_ifs with h2 h3 h4 h5 h6 h7
    · rw [Option.isSome_map]
      exact hd h2
    · rw [Option.isSome_map, isSome_number, length_addFirst]
      exact decide_eq_true (hlen10 _)
    · rw [Option.isSome_map, isSome_number]
      exact decide_eq_true hlen8
    · rw [Option.isSome_map, isSome_number]
      exact decide_eq_true hlenX
    · rw [Option.isSome_map, isSome_number]
      exact decide_eq_true hlenx
    · rw [Option.isSome_map, isSome_number]
      exact decide_eq_true (hb h7)
    · rcases hm.1 with h | h | h | h | h | h | h
      · exact absurd h h1
      · exact absurd h h2
      · exact absurd h h3
      · exact absurd h h4
      · exact absurd h h6
      · exact absurd h h5
      · exact absurd h h7

/-- The two files make the same field of a conversion for which they agree. -/
theorem field_agreed {f : Int} {a : Arg} (hm : matching f a = true) (ha : Agreed (f, a)) :
    ∃ c, fieldOf Doprnt.prtl10 Doprnt.caseD f a = some c ∧ fieldOf Fdoprnt.prtl10 Fdoprnt.caseD f a = some c := by
  cases a with
  | str s =>
    obtain rfl : f = chr 's' := of_decide_eq_true hm
    exact ⟨_, rfl, rfl⟩
  | int v =>
    have hrange := hm
    simp only [matching, decide_eq_true_eq] at hrange
    obtain ⟨_, h1, h2⟩ := hrange
    have hv : f = chr 'd' → v ≠ -2147483648 := by
      rintro rfl rfl
      exact ha.1 rfl
    have hb : f = chr 'b' → (prtl2 v).length < 20 := by
      rintro rfl
      exact (length_prtl2 h1 h2).mpr (ha.2 v rfl)
    have hd : f = chr 'd' → Doprnt.caseD v = Fdoprnt.caseD v := fun h => (caseD_agreed h1 h2 (hv h)).1
    have hs := fieldOf_isSome hm (fun h => (caseD_agreed h1 h2 (hv h)).2) hb
    obtain ⟨c, hc⟩ := Option.isSome_iff_exists.mp hs
    exact ⟨c, (fieldOf_congr hd (prtl10_eq (unsign_nonneg h1 h2))).trans hc, hc⟩

/-- A `b` of more than 19 digits makes no field. -/
theorem field_b_none {v : Int} (h1 : -2147483648 ≤ v) (h2 : v ≤ 2147483647) (hv : ¬(0 ≤ v ∧ v < 524288)) :
    fieldOf Fdoprnt.prtl10 Fdoprnt.caseD (chr 'b') (.int v) = none := by
  have hlen : ¬(prtl2 v).length < 20 := fun h => hv ((length_prtl2 h1 h2).mp h)
  have hnum : Field.number (prtl2 v) false true = none := if_neg hlen
  have hne : chr 'b' ≠ chr 'c' ∧ chr 'b' ≠ chr 'd' ∧ chr 'b' ≠ chr 'u' ∧ chr 'b' ≠ chr 'o' ∧ chr 'b' ≠ chr 'X' ∧
      chr 'b' ≠ chr 'x' := by decide
  simp [fieldOf, convert, hne, hnum]

/-! ## The output of a field -/

/-- Two fields that differ in the string only, which has the same length, are printed alike around it. -/
theorem emit_same_length (s : Spec) {c c' : Field} (hlen : c'.str.length = c.str.length) (hpos : c.str ≠ [])
    (hsign : c'.sign = c.sign) (hmax : c'.nomax = c.nomax) (hblank : c'.blank = c.blank) :
    ∃ before after k, 0 < k ∧ emit s c = before ++ c.str.take k ++ after ∧
      emit s c' = before ++ c'.str.take k ++ after := by
  have hl := List.length_pos_iff.mpr hpos
  unfold emit
  simp only [hlen, hsign, hmax, hblank]
  refine ⟨_, _, _, ?_, rfl, rfl⟩
  split <;> split_ifs <;> omega

/-- A field whose string begins with another character is printed differently. -/
theorem emit_ne (s : Spec) {c c' : Field} (hlen : c'.str.length = c.str.length) {x y : Int} (hx : c.str.head? = some x)
    (hy : c'.str.head? = some y) (hxy : x ≠ y) (hsign : c'.sign = c.sign) (hmax : c'.nomax = c.nomax)
    (hblank : c'.blank = c.blank) (rest rest' : List Int) : emit s c ++ rest ≠ emit s c' ++ rest' := by
  obtain ⟨xs, hxs⟩ := List.head?_eq_some_iff.mp hx
  obtain ⟨ys, hys⟩ := List.head?_eq_some_iff.mp hy
  obtain ⟨before, after, k, hk, e1, e2⟩ := emit_same_length s hlen (by simp [hxs]) hsign hmax hblank
  obtain ⟨k, rfl⟩ : ∃ j, k = j + 1 := ⟨k - 1, by omega⟩
  rw [e1, e2, hxs, hys]
  simp [List.append_assoc, hxy]

/-! ## The whole format -/

/-- A conversion for which the files do not agree: no output of the one is an output of the other. -/
theorem field_disagreed {f : Int} {a : Arg} (hm : matching f a = true) (ha : ¬Agreed (f, a)) {c c' : Field}
    (hc : fieldOf Doprnt.prtl10 Doprnt.caseD f a = some c) (hc' : fieldOf Fdoprnt.prtl10 Fdoprnt.caseD f a = some c')
    (s : Spec) (rest rest' : List Int) : emit s c ++ rest ≠ emit s c' ++ rest' := by
  unfold Agreed at ha
  rw [not_and_or] at ha
  rcases ha with ha | ha
  · -- `d` of the least number: two strings of ten characters, the first of them different
    rw [not_not, Prod.mk.injEq] at ha
    obtain ⟨rfl, rfl⟩ := ha
    have e : fieldOf Doprnt.prtl10 Doprnt.caseD (chr 'd') (.int (-2147483648)) =
        some ⟨cstr "2147483648", true, false, false⟩ := by decide
    have e' : fieldOf Fdoprnt.prtl10 Fdoprnt.caseD (chr 'd') (.int (-2147483648)) =
        some ⟨cstr "./,),(-*,(", true, false, false⟩ := by decide
    have hcc : c = ⟨cstr "2147483648", true, false, false⟩ := Option.some.inj (hc.symm.trans e)
    have hcc' : c' = ⟨cstr "./,),(-*,(", true, false, false⟩ := Option.some.inj (hc'.symm.trans e')
    have hx : c.str.head? = some (chr '2') := by
      rw [hcc]
      decide
    have hy : c'.str.head? = some (chr '.') := by
      rw [hcc']
      decide
    exact emit_ne s (by rw [hcc, hcc']; decide) hx hy (by decide) (by rw [hcc, hcc']) (by rw [hcc, hcc'])
      (by rw [hcc, hcc']) rest rest'
  · -- `b` of more than 19 digits
    simp only [not_forall] at ha
    obtain ⟨v, he, hv⟩ := ha
    rw [Prod.mk.injEq] at he
    obtain ⟨rfl, rfl⟩ := he
    simp only [matching, decide_eq_true_eq] at hm
    rw [field_b_none hm.2.1 hm.2.2 hv] at hc'
    cases hc'

/-- One conversion in front of the rest of the format. -/
theorem one_conversion {f : Int} {a : Arg} (hm : matching f a = true) (s : Spec) {args : List Arg}
    {o o' : List Arg → Option (List Int)} :
    (∃ out,
      (((fieldOf Doprnt.prtl10 Doprnt.caseD f a).map (·, args)).bind fun r =>
        (o r.2).bind fun out => some (emit s r.1 ++ out)) = some out ∧
      (((fieldOf Fdoprnt.prtl10 Fdoprnt.caseD f a).map (·, args)).bind fun r =>
        (o' r.2).bind fun out => some (emit s r.1 ++ out)) = some out) ↔
    Agreed (f, a) ∧ ∃ out, o args = some out ∧ o' args = some out := by
  by_cases ha : Agreed (f, a)
  · obtain ⟨c, h1, h2⟩ := field_agreed hm ha
    simp only [h1, h2, Option.map_some, Option.bind_some, Option.bind_eq_some_iff, Option.some.injEq, ha, true_and]
    constructor
    · rintro ⟨out, ⟨o1, e1, rfl⟩, o2, e2, e⟩
      obtain rfl := List.append_cancel_left e
      exact ⟨o2, e1, e2⟩
    · rintro ⟨out, e1, e2⟩
      exact ⟨emit s c ++ out, ⟨out, e1, rfl⟩, out, e2, rfl⟩
  · refine iff_of_false ?_ (fun h => ha h.1)
    rintro ⟨out, h1, h2⟩
    simp only [Option.bind_eq_some_iff, Option.map_eq_some_iff, Option.some.injEq] at h1 h2
    obtain ⟨_, ⟨c, hc, rfl⟩, o1, _, rfl⟩ := h1
    obtain ⟨_, ⟨c', hc', rfl⟩, o2, _, e⟩ := h2
    exact field_disagreed hm ha hc hc' s o1 o2 e.symm

/-- The two loops from any point of the format on. -/
theorem formatLoop_agree (n : Nat) : ∀ {fmt : List Int} {args : List Arg} {cs : List (Int × Arg)},
    conversions n fmt args = some cs →
    ((∃ out, formatLoop Doprnt.convert n fmt args = some out ∧ formatLoop Fdoprnt.convert n fmt args = some out) ↔
      ∀ x ∈ cs, Agreed x) := by
  induction n with
  | zero =>
    intro fmt args cs h
    cases h
  | succ n ih =>
    intro fmt args cs h
    cases fmt with
    | nil =>
      obtain rfl := Option.some.inj h
      exact iff_of_true ⟨[], rfl, rfl⟩ (by simp)
    | cons c fmt =>
      unfold conversions at h
      unfold formatLoop
      by_cases hc : c ≠ chr '%'
      · simp only [if_pos hc] at h ⊢
        rw [← ih h]
        constructor
        · rintro ⟨out, h1, h2⟩
          obtain ⟨o1, e1, rfl⟩ := Option.map_eq_some_iff.mp h1
          obtain ⟨o2, e2, e⟩ := Option.map_eq_some_iff.mp h2
          obtain ⟨_, rfl⟩ := List.cons.inj e
          exact ⟨o2, e1, e2⟩
        · rintro ⟨out, h1, h2⟩
          exact ⟨c :: out, by rw [h1]; rfl, by rw [h2]; rfl⟩
      · simp only [if_neg hc] at h ⊢
        by_cases hp : (skip (chr '%') fmt).1 = true
        · simp only [if_pos hp] at h ⊢
          rw [← ih h]
          constructor
          · rintro ⟨out, h1, h2⟩
            obtain ⟨o1, e1, rfl⟩ := Option.map_eq_some_iff.mp h1
            obtain ⟨o2, e2, e⟩ := Option.map_eq_some_iff.mp h2
            obtain ⟨_, rfl⟩ := List.cons.inj e
            exact ⟨o2, e1, e2⟩
          · rintro ⟨out, h1, h2⟩
            exact ⟨chr '%' :: out, by rw [h1]; rfl, by rw [h2]; rfl⟩
        · simp only [if_neg hp] at h ⊢
          cases hr : readSpec fmt args with
          | none => simp [hr] at h
          | some r =>
            obtain ⟨s, fmt, args⟩ := r
            simp only [hr, Option.bind_eq_bind, Option.bind_some] at h ⊢
            cases fmt with
            | nil =>
              obtain rfl := Option.some.inj h
              exact iff_of_true ⟨[chr '%'], rfl, rfl⟩ (by simp)
            | cons f fmt =>
              cases args with
              | nil => simp at h
              | cons a args =>
                simp only at h ⊢
                split at h
                · next hm =>
                  obtain ⟨cs', hcs, rfl⟩ := Option.map_eq_some_iff.mp h
                  rw [doprnt_convert hm, Fdoprnt.convert, convert_cons, convert_cons, List.forall_mem_cons, ← ih hcs]
                  exact one_conversion hm s
                · cases h

/-- For every format and arguments of matching type, the two files hand out the same characters exactly when they agree for
every conversion: no `d` of -2147483648, and no `b` of a number with more than 19 binary digits. -/
theorem formatted_output {fmt : List Int} {args : List Arg} {cs : List (Int × Arg)}
    (h : conversions (fmt.length + 1) fmt args = some cs) :
    (∃ out, doprnt fmt args = some out ∧ fdoprnt fmt args = some out) ↔ ∀ x ∈ cs, Agreed x :=
  formatLoop_agree _ h

/-- A format with every kind of directive. -/
theorem formatted_output_eight :
    ∃ out, doprnt (cstr "%c|%-5s|%05d|%u|%o%%%x %.*X|%*b") [.int 65, .str (some (cstr "ab")), .int (-42), .int (-1), .int 8,
        .int 255, .int 2, .int 4095, .int 7, .int 5] = some out ∧
      fdoprnt (cstr "%c|%-5s|%05d|%u|%o%%%x %.*X|%*b") [.int 65, .str (some (cstr "ab")), .int (-42), .int (-1), .int 8,
        .int 255, .int 2, .int 4095, .int 7, .int 5] = some out := by
  refine (formatted_output (?_ : conversions _ _ _ = some [(chr 'c', .int 65), (chr 's', .str (some (cstr "ab"))),
    (chr 'd', .int (-42)), (chr 'u', .int (-1)), (chr 'o', .int 8), (chr 'x', .int 255), (chr 'X', .int 4095),
    (chr 'b', .int 5)])).mpr ?_
  · decide
  simp only [List.forall_mem_cons, Agreed]
  simp [chr]

example : doprnt (cstr "%c") [.int 200] = some [200] ∧ fdoprnt (cstr "%c") [.int 200] = some [200] := by decide

/-- The least number: `_doprnt` prints it, `_fdoprnt` prints no digits. -/
theorem formatted_output_least :
    conversions 3 (cstr "%d") [.int (-2147483648)] = some [(chr 'd', .int (-2147483648))] ∧
    doprnt (cstr "%d") [.int (-2147483648)] = some (cstr "-2147483648") ∧
    fdoprnt (cstr "%d") [.int (-2147483648)] = some (cstr "-./,),(-*,(") := by
  decide

end Xinu
