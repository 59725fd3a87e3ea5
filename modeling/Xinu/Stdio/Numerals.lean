import Mathlib.Data.List.GetD
import Mathlib.Tactic.NormNum
import Xinu.Lib.Positional
import Xinu.Theorems.FormattedOutput

/-!
# Numerals

The functions `_prtl` take low digits off a number and drop the zeros in front of them: what they print is the numeral of the number, with
the 32 bits read without a sign where `num >> k` copies the sign.
-/

namespace Xinu

open Positional

variable {b k n : Nat} {f : Char → Int}

/-- What is left of the digits is a numeral. -/
theorem stripZeros_lows (hb : 1 < b) (hk : 0 < k) (hlt : n < b ^ k) (hf : ∀ d < b, f (Nat.digitChar d) = chr '0' ↔ d = 0) :
    stripZeros ((lows b k n).map fun d => f (Nat.digitChar d)) = (Nat.toDigits b n).map f := by
  have hdrop : ((lows b k n).map fun d => f (Nat.digitChar d)).reverse.dropWhile (· = chr '0') =
      (strip (lows b k n)).map fun d => f (Nat.digitChar d) := by
    rw [← List.map_reverse, strip]
    refine dropWhile_map ?_
    intro d hd
    have hlow := hf d (lt_of_mem_lows (Nat.zero_lt_of_lt hb) d (List.mem_reverse.mp hd))
    exact decide_eq_decide.mpr hlow
  rw [stripZeros, hdrop]
  by_cases hn : n = 0
  · subst hn
    obtain ⟨k, rfl⟩ : ∃ j, k = j + 1 := ⟨k - 1, by omega⟩
    rw [strip_lows_zero, Nat.toDigits_zero, lows_zero]
    rfl
  · have hmap := congrArg (List.map f) (strip_lows hb hn hlt)
    rw [List.map_map] at hmap
    have hne : (strip (lows b k n)).map (fun d => f (Nat.digitChar d)) ≠ [] := by
      intro h0
      have hnil := h0.symm.trans hmap
      exact Nat.toDigits_ne_nil (List.map_eq_nil_iff.mp hnil.symm)
    split
    · next h0 => exact absurd h0 hne
    · exact hmap

/-- The digits of a number that is that of the numeral up to multiples of the power. -/
theorem lowDigits_eq_lows {digit rest : Int → Int} {I : Int → Prop} (hb : 0 < b)
    (h : ∀ m, I m → digit m = f (Nat.digitChar (m % b).toNat) ∧ rest m = m / b ∧ I (m / b)) :
    ∀ {m : Int} (c : Int), I m → m = n + b ^ k * c → lowDigits digit rest k m = (lows b k n).map fun d => f (Nat.digitChar d) := by
  have hpos : (b : Int) ≠ 0 := Int.natCast_ne_zero.mpr hb.ne'
  induction k generalizing n with
  | zero =>
    intro m _ _ _
    rfl
  | succ k ih =>
    intro m c hm he
    obtain ⟨hdigit, hrest, hI⟩ := h m hm
    have hmul : m = n + b * (b ^ k * c) := by rw [he, Int.pow_succ', Int.mul_assoc]
    have hmod : (m % b).toNat = n % b := by
      rw [hmul, Int.add_mul_emod_self_left, ← Int.natCast_emod, Int.toNat_natCast]
    have hdiv : m / b = (n / b : Nat) + b ^ k * c := by
      rw [Int.natCast_ediv, hmul, Int.add_mul_ediv_left _ _ hpos]
    rw [lowDigits, lows, List.map_cons, hdigit, hrest, hmod, ih c hI hdiv]

/-- A 32-bit value with and without its sign. -/
theorem toInt_eq_add (v : BitVec 32) : ∃ c : Int, v.toInt = v.toNat + 4294967296 * c ∧ (c = 0 ∨ c = -1) := by
  have h := v.toInt_eq_toNat_cond
  split at h
  · exact ⟨0, by omega, .inl rfl⟩
  · exact ⟨-1, by omega, .inr rfl⟩

theorem hexDigit_eq : ∀ d < 16, (cstr "0123456789abcdef").getD d 0 = chr (Nat.digitChar d) ∧
    (cstr "0123456789ABCDEF").getD d 0 = chr (Nat.digitChar d).toUpper := by decide

theorem digitChar_zero_iff : ∀ d < 16, (chr (Nat.digitChar d) = chr '0' ↔ d = 0) ∧
    (chr (Nat.digitChar d).toUpper = chr '0' ↔ d = 0) := by decide

theorem digitChar_decimal : ∀ d < 10, chr (Nat.digitChar d) = d + 48 := by decide

/-- `_prtl16`: the numeral in base 16. -/
theorem prtl16_eq (v : BitVec 32) : prtl16 v.toInt = (Nat.toDigits 16 v.toNat).map chr := by
  obtain ⟨c, hc, _⟩ := toInt_eq_add v
  have hlow : lowDigits (fun n => (cstr "0123456789abcdef").getD (n % 16).toNat 0) (fun n => n / 16) 8 v.toInt =
      (lows 16 8 v.toNat).map fun d => chr (Nat.digitChar d) := by
    refine lowDigits_eq_lows (I := fun _ => True) (by decide) (fun m _ => ⟨?_, rfl, trivial⟩) c trivial (hc.trans (by norm_num))
    exact (hexDigit_eq _ (by omega)).1
  rw [prtl16, hlow]
  exact stripZeros_lows (by decide) (by decide) v.isLt fun d hd => (digitChar_zero_iff d hd).1

/-- `_prtX16`: the same with capital letters. -/
theorem prtX16_eq (v : BitVec 32) : prtX16 v.toInt = (Nat.toDigits 16 v.toNat).map fun c => chr c.toUpper := by
  obtain ⟨c, hc, _⟩ := toInt_eq_add v
  have hlow : lowDigits (fun n => (cstr "0123456789ABCDEF").getD (n % 16).toNat 0) (fun n => n / 16) 8 v.toInt =
      (lows 16 8 v.toNat).map fun d => chr (Nat.digitChar d).toUpper := by
    refine lowDigits_eq_lows (f := fun c => chr c.toUpper) (I := fun _ => True) (by decide) (fun m _ => ⟨?_, rfl, trivial⟩) c trivial
      (hc.trans (by norm_num))
    exact (hexDigit_eq _ (by omega)).2
  rw [prtX16, hlow]
  exact stripZeros_lows (f := fun c => chr c.toUpper) (by decide) (by decide) v.isLt fun d hd => (digitChar_zero_iff d hd).2

/-- `_prtl2`: the numeral in base 2. -/
theorem prtl2_eq (v : BitVec 32) : prtl2 v.toInt = (Nat.toDigits 2 v.toNat).map chr := by
  obtain ⟨c, hc, _⟩ := toInt_eq_add v
  have hlow : lowDigits (fun n => if n.tmod 2 = 0 then chr '0' else chr '1') (fun n => n / 2) 32 v.toInt =
      (lows 2 32 v.toNat).map fun d => chr (Nat.digitChar d) := by
    refine lowDigits_eq_lows (I := fun _ => True) (by decide) (fun m _ => ⟨?_, rfl, trivial⟩) c trivial (hc.trans (by norm_num))
    rcases Int.emod_two_eq m with h | h
    · have ht : m.tmod 2 = 0 := Int.tmod_eq_zero_of_dvd (Int.dvd_of_emod_eq_zero h)
      rw [if_pos ht, show m % ((2 : Nat) : Int) = 0 from h]
      rfl
    · have ht : m.tmod 2 ≠ 0 := by
        rw [Ne, ← Int.dvd_iff_tmod_eq_zero]
        omega
      rw [if_neg ht, show m % ((2 : Nat) : Int) = 1 from h]
      rfl
  rw [prtl2, hlow]
  exact stripZeros_lows (by decide) (by decide) v.isLt fun d hd => (digitChar_zero_iff d (by omega)).1

/-- `_prtl8`: the numeral in base 8, whose eleventh digit has two bits. -/
theorem prtl8_eq (v : BitVec 32) : prtl8 v.toInt = (Nat.toDigits 8 v.toNat).map chr := by
  obtain ⟨c, hc, hcases⟩ := toInt_eq_add v
  have hlow : lowDigits (fun n => n % 8 + chr '0') (fun n => n / 8) 10 v.toInt =
      (lows 8 10 v.toNat).map fun d => chr (Nat.digitChar d) := by
    refine lowDigits_eq_lows (I := fun _ => True) (by decide) (fun m _ => ⟨?_, rfl, trivial⟩) (4 * c) trivial
      (hc.trans (by rw [← Int.mul_assoc]; norm_num))
    change m % 8 + chr '0' = chr (Nat.digitChar (m % 8).toNat)
    rw [digitChar_decimal _ (by omega), Int.toNat_of_nonneg (by omega)]
    rfl
  have hrest : (fun n : Int => n / 8)^[10] v.toInt = v.toInt / 1073741824 := by
    simp only [Function.iterate_succ, Function.iterate_zero, Function.comp_apply, id]
    omega
  have hlast : ((v.toInt / 1073741824 % 8 + chr '0') % 4 + chr '0' : Int) = chr (Nat.digitChar (v.toNat / 8 ^ 10 % 8)) := by
    have hv := v.isLt
    have h0 : chr '0' = 48 := rfl
    rw [digitChar_decimal _ (by omega), h0]
    omega
  have hset : (lowDigits (fun n => n % 8 + chr '0') (fun n => n / 8) 11 v.toInt).set 10
      ((lowDigits (fun n => n % 8 + chr '0') (fun n => n / 8) 11 v.toInt).getD 10 0 % 4 + chr '0') =
      (lows 8 11 v.toNat).map fun d => chr (Nat.digitChar d) := by
    rw [lowDigits_add _ _ 10 1, lows_add 8 10 1, List.map_append, hlow, hrest]
    have hlen : ((lows 8 10 v.toNat).map fun d => chr (Nat.digitChar d)).length = 10 := by rw [List.length_map, length_lows]
    rw [List.set_append_right _ _ hlen.le, List.getD_append_right _ _ _ _ hlen.le, hlen]
    simp only [lowDigits, lows, List.map_cons, List.map_nil, Nat.sub_self, List.set_cons_zero, List.getD_cons_zero, hlast]
  rw [prtl8, hset]
  exact stripZeros_lows (by decide) (by decide) (v.isLt.trans (by decide)) fun d hd => (digitChar_zero_iff d (by omega)).1

/-- `_prtl10` of a number that is not negative. -/
theorem prtl10_natCast (hn : n < 10 ^ 10) : Doprnt.prtl10 n = (Nat.toDigits 10 n).map chr := by
  rw [prtl10_eq (Int.natCast_nonneg n), Fdoprnt.prtl10]
  have hlow : lowDigits (fun n => wrap8 (n.tmod 10 + chr '0')) (fun n => n.tdiv 10) 10 n =
      (lows 10 10 n).map fun d => chr (Nat.digitChar d) := by
    refine lowDigits_eq_lows (I := fun m => 0 ≤ m) (by decide) (fun m hm => ⟨?_, ?_, ?_⟩) 0 (Int.natCast_nonneg n)
      (show (n : Int) = n + _ * 0 by rw [Int.mul_zero, Int.add_zero])
    · have h0 : chr '0' = 48 := rfl
      rw [digitChar_decimal _ (by omega), Int.tmod_eq_emod_of_nonneg hm, wrap8, h0]
      omega
    · exact Int.tdiv_eq_ediv_of_nonneg hm
    · exact Int.ediv_nonneg hm (by decide)
  rw [hlow]
  exact stripZeros_lows (by decide) (by decide) hn fun d hd => (digitChar_zero_iff d (by omega)).1

theorem toInt_bounds (v : BitVec 32) : -2147483648 ≤ v.toInt ∧ v.toInt ≤ 2147483647 := by
  have h1 := v.le_two_mul_toInt
  have h2 := v.two_mul_toInt_lt
  omega

theorem natAbs_lt (v : BitVec 32) : v.toInt.natAbs < 10 ^ 10 := by
  have h := toInt_bounds v
  omega

/-- `_prtl10` of a 32-bit value: its sign is dropped. -/
theorem prtl10_toInt (v : BitVec 32) : Doprnt.prtl10 v.toInt = (Nat.toDigits 10 v.toInt.natAbs).map chr := by
  rw [← prtl10_natCast (natAbs_lt v)]
  by_cases h : v.toInt < 0
  · have hneg : -v.toInt = (v.toInt.natAbs : Int) := by omega
    rw [prtl10_neg h, hneg, prtl10_eq (Int.natCast_nonneg _)]
  · rw [Int.natAbs_of_nonneg (Int.not_lt.mp h)]

/-! ## The conversion `u` -/

/-- What the loop of `u` leaves: a number that is not negative, and what was subtracted from it. Behind a subtraction it has ten digits. -/
theorem unsign_spec {n : Nat} : ∀ {v d : Int}, -2147483648 ≤ v → v ≤ 2147483647 → 0 ≤ d → d + n ≤ 127 →
    (0 ≤ v ∨ v + 4294967296 < 2147483648 + n * 1000000000) → (d = 0 ∨ 1147483648 ≤ v % 4294967296) →
    0 ≤ (unsign n v d).1 ∧ (unsign n v d).1 + 1000000000 * (unsign n v d).2 = v % 4294967296 + 1000000000 * d ∧
      0 ≤ (unsign n v d).2 ∧ ((unsign n v d).2 = 0 ∨ 1147483648 ≤ (unsign n v d).1) := by
  induction n with
  | zero =>
    intro v d h1 h2 hd hn h hten
    simp only [unsign]
    omega
  | succ n ih =>
    intro v d h1 h2 hd hn h hten
    push_cast at hn h
    unfold unsign
    split
    · next hneg =>
      have hw : wrap8 (d + 1) = d + 1 := by
        unfold wrap8
        omega
      have hv : wrap32 (v - 1000000000) % 4294967296 = v % 4294967296 - 1000000000 := by
        unfold wrap32
        omega
      have hstep := @ih (wrap32 (v - 1000000000)) (d + 1) (by unfold wrap32; omega) (by unfold wrap32; omega) (by omega) (by omega)
        (by unfold wrap32; omega) (.inr (by omega))
      rw [hv] at hstep
      rw [hw]
      omega
    · next hpos =>
      dsimp only
      omega

theorem chr_digitChar {d : Nat} (h : d < 10) : chr (Nat.digitChar d) = d + 48 := digitChar_decimal d h

/-- A number of ten digits with a first digit that is added to. -/
theorem addFirst_ten {r e : Nat} (hr : 1000000000 ≤ r) (hlt : r + 1000000000 * e < 10 ^ 10) :
    addFirst e ((Nat.toDigits 10 r).map chr) = (Nat.toDigits 10 (r + 1000000000 * e)).map chr := by
  have hfirst : ∀ n, 1000000000 ≤ n → n < 10 ^ 10 →
      Nat.toDigits 10 n = Nat.digitChar (n / 10 ^ 9) :: (lows 10 9 n).reverse.map Nat.digitChar := by
    intro n hn hlt
    have hdiv : n / 10 ^ 9 % 10 = n / 10 ^ 9 := by omega
    rw [← strip_lows (by decide) (by omega) hlt, strip_lows_succ (by omega), hdiv, List.map_cons]
  rw [hfirst r hr (by omega), hfirst _ (by omega) hlt, show 1000000000 = 10 ^ 9 from rfl, lows_add_mul (by decide), List.map_cons,
    List.map_cons, addFirst, chr_digitChar (by omega), chr_digitChar (by omega)]
  congr 1
  unfold wrap8
  omega

/-- Nothing is added to the first digit. -/
theorem addFirst_zero (n : Nat) : addFirst 0 ((Nat.toDigits 10 n).map chr) = (Nat.toDigits 10 n).map chr := by
  generalize he : Nat.toDigits 10 n = cs
  cases cs with
  | nil => rfl
  | cons c cs =>
    have hdigit : c.isDigit = true := by
      refine @Nat.isDigit_of_mem_toDigits 10 n c (by decide) (by decide) ?_
      rw [he]
      exact List.mem_cons_self
    have hle : chr c ≤ 57 := Int.ofNat_le.mpr (Char.isDigit_iff_toNat.mp hdigit).2
    have hnonneg : 0 ≤ chr c := Int.natCast_nonneg _
    rw [List.map_cons, addFirst]
    congr 1
    unfold wrap8
    omega

/-- The numeral of the bits without a sign. -/
theorem unsigned_eq (v : BitVec 32) : addFirst (unsign 4 v.toInt 0).2 (Doprnt.prtl10 (unsign 4 v.toInt 0).1) =
    (Nat.toDigits 10 v.toNat).map chr := by
  obtain ⟨c, hc, hcases⟩ := toInt_eq_add v
  have hv := v.isLt
  obtain ⟨hlow, hhigh⟩ := toInt_bounds v
  obtain ⟨h0, hsum, he, hten⟩ := @unsign_spec 4 v.toInt 0 hlow hhigh (Int.le_refl 0) (by decide) (by push_cast; omega) (.inl rfl)
  generalize unsign 4 v.toInt 0 = p at h0 hsum he hten
  obtain ⟨r, hr⟩ := Int.eq_ofNat_of_zero_le h0
  obtain ⟨e, he'⟩ := Int.eq_ofNat_of_zero_le he
  rw [hr, he'] at hsum hten
  rw [hr, he', prtl10_natCast (by omega)]
  have hn : v.toNat = r + 1000000000 * e := by omega
  rw [hn]
  rcases hten with h | h
  · obtain rfl : e = 0 := by omega
    exact addFirst_zero r
  · exact addFirst_ten (by omega) (by omega)

/-! ## Numerals in fields -/

/-- A numeral in its field: a sign stands before zeros and behind blanks. -/
def padded (leftjust zero : Bool) (w : Nat) (sign : Bool) (ds : List Int) : List Int :=
  let minus := if sign then [chr '-'] else []
  let fill := List.replicate (w - (minus.length + ds.length)) (if zero then chr '0' else chr ' ')
  if leftjust then minus ++ ds ++ fill else if zero then minus ++ fill ++ ds else fill ++ minus ++ ds

/-- The field is padded to its width. -/
theorem emit_numeric (leftjust zero : Bool) {w : Nat} (hw : w ≤ 80) (str : List Int) (sign nomax : Bool) :
    emit ⟨leftjust, if zero then chr '0' else chr ' ', w, 0⟩ ⟨str, sign, nomax, false⟩ = padded leftjust zero w sign str := by
  have h80 : MAXSTR = 80 := rfl
  have hmin : (if (w : Int) > MAXSTR ∨ (w : Int) < 0 then 0 else (w : Int)) = w := if_neg (by omega)
  have hfill : ∀ (m : Nat) (c : Int), 
      fillers (if ¬(w : Int) = 0 then (if ¬(w : Int) = 0 then (w : Int) - str.length else 0) - m else 0) c =
        List.replicate (w - (m + str.length)) c := by
    intro m c
    rw [fillers]
    congr 1
    split <;> omega
  have hminus : (if sign then (1 : Int) else 0) = (if sign then [chr '-'] else []).length := by cases sign <;> rfl
  have h0 : chr '0' ≠ chr ' ' := by decide
  have h1 : chr ' ' ≠ chr '0' := by decide
  unfold emit padded
  simp only [hmin, hminus, Bool.false_eq_true, if_false, ite_self, ne_eq, not_true_eq_false, false_and, false_or, gt_iff_lt,
    Int.toNat_natCast, List.take_length, hfill]
  cases leftjust <;> cases zero <;> cases sign <;> simp [h0, h1]

end Xinu
