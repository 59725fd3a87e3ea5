import Mathlib.Data.Int.Init
import Mathlib.Tactic.Common

/-!
# Search in a table

A search for a free entry of a table with `N` entries that starts at an entry and goes round to the first one behind the last. It
also returns the entry to start at next time.
-/

namespace Table

variable {N : Int} {free : Int → Prop} [DecidablePred free]

/-- At most `n` entries are tried, from `x` on. -/
def search (N : Int) (free : Int → Prop) [DecidablePred free] : Nat → Int → Option Int × Int
  | 0, x => (none, x)
  | n + 1, x =>
    let next := if x + 1 ≥ N then 0 else x + 1
    if free x then (some x, next) else search N free n next

theorem search_next {x : Int} (hx : 0 ≤ x ∧ x < N) :
    (0 ≤ (if x + 1 ≥ N then 0 else x + 1) ∧ (if x + 1 ≥ N then 0 else x + 1) < N) ∧
      (if x + 1 ≥ N then 0 else x + 1) = (x + 1) % N := by
  split
  · have hxN : x + 1 = N := by omega
    exact ⟨⟨Int.le_refl 0, by omega⟩, by rw [hxN, Int.emod_self]⟩
  · exact ⟨⟨by omega, by omega⟩, (Int.emod_eq_of_lt (by omega) (by omega)).symm⟩

/-- The entry found is free. -/
theorem search_some {n : Nat} {x p y : Int} (h : search N free n x = (some p, y)) (hx : 0 ≤ x ∧ x < N) :
    (0 ≤ p ∧ p < N) ∧ free p ∧ 0 ≤ y ∧ y < N := by
  induction n generalizing x with
  | zero => cases h
  | succ n ih =>
    unfold search at h
    simp only at h
    split at h
    · next hfree =>
      obtain ⟨hp, hy⟩ := Prod.mk.inj h
      obtain rfl := Option.some.inj hp
      exact ⟨hx, hfree, hy ▸ (search_next hx).1⟩
    · exact ih h (search_next hx).1

/-- When none is found, all entries that were tried are in use. -/
theorem search_none {n : Nat} {x : Int} (h : (search N free n x).1 = none) (hx : 0 ≤ x ∧ x < N) :
    ∀ i : Nat, i < n → ¬free ((x + i) % N) := by
  induction n generalizing x with
  | zero => exact fun i hi => absurd hi (Nat.not_lt_zero i)
  | succ n ih =>
    unfold search at h
    simp only at h
    split at h
    · cases h
    · next hfree =>
      obtain ⟨hrange, hnext⟩ := search_next hx
      intro i hi
      cases i with
      | zero =>
        rw [Int.natCast_zero, Int.add_zero, Int.emod_eq_of_lt hx.1 hx.2]
        exact hfree
      | succ i =>
        have hi' := ih h hrange i (Nat.lt_of_succ_lt_succ hi)
        have hsum : x + ((i + 1 : Nat) : Int) = x + 1 + i := by omega
        rw [hnext, Int.emod_add_emod] at hi'
        rwa [hsum]

/-- A search of the whole table finds an entry exactly when one is free. -/
theorem search_isSome (free : Int → Prop) [DecidablePred free] {x : Int} (hx : 0 ≤ x ∧ x < N) :
    (search N free N.toNat x).1.isSome ↔ ∃ p, (0 ≤ p ∧ p < N) ∧ free p := by
  constructor
  · intro hs
    obtain ⟨p, hp⟩ := Option.isSome_iff_exists.mp hs
    have := search_some (Prod.ext hp rfl) hx
    exact ⟨p, this.1, this.2.1⟩
  · rintro ⟨p, ⟨h1, h2⟩, hf⟩
    by_contra hno
    have hr := Int.emod_nonneg (p - x) (show N ≠ 0 by omega)
    have hlt := Int.emod_lt_of_pos (p - x) (show 0 < N by omega)
    have hnone := search_none (Option.not_isSome_iff_eq_none.mp hno) hx ((p - x) % N).toNat (by omega)
    have hmod : (x + (((p - x) % N).toNat : Int)) % N = p := by
      rw [Int.toNat_of_nonneg hr, Int.add_emod_emod, show x + (p - x) = p by omega, Int.emod_eq_of_lt h1 h2]
    rw [hmod] at hnone
    exact hnone hf

end Table
