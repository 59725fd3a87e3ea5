import Mathlib.Algebra.Group.Nat.Defs
import Mathlib.Data.List.TakeWhile
import Mathlib.Tactic.Common

/-!
# Numerals from low digits

A number is written from its low digits: a fixed count of them is taken off, and the zeros in front are dropped. What is left is the numeral
of the number (`strip_lows`), if it has no more digits than the count.
-/

namespace Positional

variable {b k n : Nat} {α : Type*}

/-- The `k` low digits of a number, the lowest first. -/
def lows (b : Nat) : (k n : Nat) → List Nat
  | 0, _ => []
  | k + 1, n => n % b :: lows b k (n / b)

theorem length_lows (b k n : Nat) : (lows b k n).length = k := by
  induction k generalizing n with
  | zero => rfl
  | succ k ih => rw [lows, List.length_cons, ih]

theorem lt_of_mem_lows (hb : 0 < b) : ∀ d ∈ lows b k n, d < b := by
  induction k generalizing n with
  | zero => nofun
  | succ k ih =>
    intro d hd
    rcases List.mem_cons.mp hd with rfl | hd
    · exact Nat.mod_lt n hb
    · exact ih d hd

/-- Digits from the low ones on, cut in two. -/
theorem lows_add (b j k n : Nat) : lows b (j + k) n = lows b j n ++ lows b k (n / b ^ j) := by
  induction j generalizing n with
  | zero => simp [lows]
  | succ j ih => rw [Nat.succ_add, lows, ih, lows, List.cons_append, Nat.div_div_eq_div_mul, Nat.pow_succ']

theorem lows_zero (b k : Nat) : lows b k 0 = List.replicate k 0 := by
  induction k with
  | zero => rfl
  | succ k ih => rw [lows, Nat.zero_mod, Nat.zero_div, ih, List.replicate_succ]

/-- The low digits do not depend on what lies above them. -/
theorem lows_add_mul (hb : 0 < b) (n c : Nat) : lows b k (n + b ^ k * c) = lows b k n := by
  induction k generalizing n with
  | zero => rfl
  | succ k ih =>
    have hmul : b ^ (k + 1) * c = b * (b ^ k * c) := by rw [Nat.pow_succ', Nat.mul_assoc]
    rw [lows, lows, hmul, Nat.add_mul_mod_self_left, Nat.add_mul_div_left _ _ hb, ih]

/-- The digits behind the leading zeros. -/
def strip (ds : List Nat) : List Nat := ds.reverse.dropWhile (· = 0)

/-- The leading zeros of the symbols of some digits. -/
theorem dropWhile_map {g : Nat → α} {p : α → Bool} {ds : List Nat} (h : ∀ d ∈ ds, p (g d) = decide (d = 0)) :
    (ds.map g).dropWhile p = (ds.dropWhile (· = 0)).map g := by
  induction ds with
  | nil => rfl
  | cons d ds ih =>
    rw [List.map_cons, List.dropWhile_cons, List.dropWhile_cons, h d List.mem_cons_self]
    split
    · exact ih fun d hd => h d (List.mem_cons_of_mem _ hd)
    · rfl

theorem strip_lows_zero (b k : Nat) : strip (lows b k 0) = [] := by
  rw [strip, lows_zero, List.reverse_replicate, List.dropWhile_eq_nil_iff]
  intro d hd
  exact decide_eq_true (List.eq_of_mem_replicate hd)

/-- A low digit behind others. -/
theorem strip_cons (d : Nat) (ds : List Nat) :
    strip (d :: ds) = if strip ds = [] then (if d = 0 then [] else [d]) else strip ds ++ [d] := by
  rw [strip, List.reverse_cons, List.dropWhile_append]
  by_cases h : strip ds = []
  · rw [if_pos (by rw [← strip, h]; rfl), if_pos h]
    by_cases hd : d = 0 <;> simp [hd]
  · rw [if_neg (by rwa [← strip, List.isEmpty_iff]), if_neg h, ← strip]

/-- No zero is in front when the highest digit is not one. -/
theorem strip_lows_succ (h : n / b ^ k % b ≠ 0) : strip (lows b (k + 1) n) = n / b ^ k % b :: (lows b k n).reverse := by
  rw [lows_add b k 1, strip, List.reverse_append]
  exact List.dropWhile_cons_of_neg (by simpa using h)

/-- The numeral of a number that is not zero. -/
theorem strip_lows (hb : 1 < b) (hn : n ≠ 0) (hlt : n < b ^ k) : (strip (lows b k n)).map Nat.digitChar = Nat.toDigits b n := by
  induction k generalizing n with
  | zero => exact absurd (Nat.lt_one_iff.mp hlt) hn
  | succ k ih =>
    rw [Nat.toDigits_eq_if hb, lows, strip_cons]
    by_cases h : n < b
    · have hdiv : n / b = 0 := Nat.div_eq_of_lt h
      rw [hdiv, strip_lows_zero, if_pos rfl, Nat.mod_eq_of_lt h, if_neg hn, if_pos h]
      rfl
    · have hdiv : n / b ≠ 0 := (Nat.div_pos (Nat.le_of_not_lt h) (Nat.zero_lt_of_lt hb)).ne'
      have hdlt : n / b < b ^ k := Nat.div_lt_of_lt_mul (by rwa [Nat.pow_succ'] at hlt)
      have ih := ih hdiv hdlt
      have hne : strip (lows b k (n / b)) ≠ [] := by
        intro h0
        rw [h0] at ih
        exact Nat.toDigits_ne_nil ih.symm
      rw [if_neg hne, if_neg h, List.map_append, ih]
      rfl

end Positional
