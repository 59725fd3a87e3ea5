import Mathlib.Algebra.BigOperators.Group.List.Basic
import Mathlib.Algebra.Ring.Nat
import Mathlib.Data.List.Nodup
import Mathlib.Logic.Function.Basic

/-!
# Lists without a common node

A family of lists on which every node is at most once. `Spread.move` is the step that takes nodes from one list to another. In
`Splits` the lists share out all nodes with a property.
-/

namespace Table

variable {ι α : Type} {own : ι → List α}

/-- No node is twice on one of the lists, or on two of them. -/
structure Spread (own : ι → List α) : Prop where
  nodup : ∀ i, (own i).Nodup
  apart : ∀ i j, i ≠ j → ∀ x ∈ own i, x ∉ own j

/-- The nodes with the property are on the lists, each of them once on exactly one list. -/
structure Splits (P : α → Prop) (own : ι → List α) : Prop extends Spread own where
  mem : ∀ x, P x ↔ ∃ i, x ∈ own i

namespace Splits

variable {P : α → Prop} {i j : ι}

/-- The list that a node is on. -/
theorem unique (h : Splits P own) {x : α} (hi : x ∈ own i) (hj : x ∈ own j) : i = j := by
  by_contra hne
  exact h.apart i j hne x hi hj

/-- The lists have as many nodes together as there are nodes with the property. -/
theorem sum_length (h : Splits P own) {is : List ι} (hn : is.Nodup) (hall : ∀ i, i ∈ is) {l : List α} (hl : l.Nodup)
    (hmem : ∀ x, x ∈ l ↔ P x) : (is.map fun i => (own i).length).sum = l.length := by
  have hnd : (is.flatMap own).Nodup := by
    refine List.nodup_flatMap.mpr ⟨fun i _ => h.nodup i, hn.imp fun {i j} hij => ?_⟩
    exact fun x hx hx' => h.apart i j hij x hx hx'
  have hperm : (is.flatMap own).Perm l := by
    refine (List.perm_ext_iff_of_nodup hnd hl).mpr fun x => ?_
    rw [hmem, h.mem, List.mem_flatMap]
    exact ⟨fun ⟨i, _, hx⟩ => ⟨i, hx⟩, fun ⟨i, hx⟩ => ⟨i, hall i, hx⟩⟩
  rw [← hperm.length_eq, List.length_flatMap]

end Splits

variable [DecidableEq ι] {i j : ι} {l l' : List α}

/-- The lists after nodes have gone from the list `i` to the list `j`, or the other way. -/
def moved (own : ι → List α) (i j : ι) (l l' : List α) : ι → List α := Function.update (Function.update own i l) j l'

theorem moved_left (hij : i ≠ j) : moved own i j l l' i = l := by
  rw [moved, Function.update_of_ne hij, Function.update_self]

theorem moved_right : moved own i j l l' j = l' := Function.update_self _ _ _

theorem moved_of_ne {k : ι} (hi : k ≠ i) (hj : k ≠ j) : moved own i j l l' k = own k := by
  rw [moved, Function.update_of_ne hj, Function.update_of_ne hi]

namespace Spread

/-- Nodes go from one list to another. -/
theorem move (S : Spread own) (hij : i ≠ j) (hp : (l ++ l').Perm (own i ++ own j)) : Spread (moved own i j l l') := by
  have hnd : (own i ++ own j).Nodup :=
    List.nodup_append.mpr ⟨S.nodup i, S.nodup j, fun x hx y hy e => S.apart i j hij x hx (e ▸ hy)⟩
  obtain ⟨hl, hl', hd⟩ := List.nodup_append.mp (hp.nodup_iff.mpr hnd)
  have hmem : ∀ x, x ∈ l ∨ x ∈ l' → x ∈ own i ∨ x ∈ own j := fun x hx =>
    List.mem_append.mp (hp.subset (List.mem_append.mpr hx))
  have hout : ∀ k, k ≠ i → k ≠ j → ∀ x, x ∈ l ∨ x ∈ l' → x ∉ own k := by
    intro k hi hj x hx
    rcases hmem x hx with h | h
    · exact S.apart i k (Ne.symm hi) x h
    · exact S.apart j k (Ne.symm hj) x h
  constructor
  · intro k
    by_cases hj : k = j
    · rw [hj, moved_right]
      exact hl'
    · by_cases hi : k = i
      · rw [hi, moved_left hij]
        exact hl
      · rw [moved_of_ne hi hj]
        exact S.nodup k
  · intro k m hkm x hx hx'
    by_cases hkj : k = j
    · subst hkj
      rw [moved_right] at hx
      by_cases hmi : m = i
      · rw [hmi, moved_left hij] at hx'
        exact hd x hx' x hx rfl
      · rw [moved_of_ne hmi (Ne.symm hkm)] at hx'
        exact hout m hmi (Ne.symm hkm) x (Or.inr hx) hx'
    · by_cases hki : k = i
      · subst hki
        rw [moved_left hij] at hx
        by_cases hmj : m = j
        · rw [hmj, moved_right] at hx'
          exact hd x hx x hx' rfl
        · rw [moved_of_ne (Ne.symm hkm) hmj] at hx'
          exact hout m (Ne.symm hkm) hmj x (Or.inl hx) hx'
      · rw [moved_of_ne hki hkj] at hx
        by_cases hmj : m = j
        · rw [hmj, moved_right] at hx'
          exact hout k hki hkj x (Or.inr hx') hx
        · by_cases hmi : m = i
          · rw [hmi, moved_left hij] at hx'
            exact hout k hki hkj x (Or.inl hx') hx
          · rw [moved_of_ne hmi hmj] at hx'
            exact S.apart k m hkm x hx hx'

end Spread

/-- The nodes are the same. -/
theorem moved_mem (hij : i ≠ j) (hp : (l ++ l').Perm (own i ++ own j)) (x : α) :
    (∃ k, x ∈ moved own i j l l' k) ↔ ∃ k, x ∈ own k := by
  have hmem : (x ∈ l ∨ x ∈ l') ↔ (x ∈ own i ∨ x ∈ own j) := by
    rw [← List.mem_append, ← List.mem_append]
    exact hp.mem_iff
  constructor
  · rintro ⟨k, hk⟩
    by_cases hj : k = j
    · rw [hj, moved_right] at hk
      rcases hmem.mp (Or.inr hk) with h | h
      · exact ⟨i, h⟩
      · exact ⟨j, h⟩
    · by_cases hi : k = i
      · rw [hi, moved_left hij] at hk
        rcases hmem.mp (Or.inl hk) with h | h
        · exact ⟨i, h⟩
        · exact ⟨j, h⟩
      · rw [moved_of_ne hi hj] at hk
        exact ⟨k, hk⟩
  · rintro ⟨k, hk⟩
    by_cases hij' : k = i ∨ k = j
    · have hx : x ∈ own i ∨ x ∈ own j := by
        rcases hij' with rfl | rfl
        · exact Or.inl hk
        · exact Or.inr hk
      rcases hmem.mpr hx with h | h
      · exact ⟨i, by rwa [moved_left hij]⟩
      · exact ⟨j, by rwa [moved_right]⟩
    · rw [not_or] at hij'
      exact ⟨k, by rwa [moved_of_ne hij'.1 hij'.2]⟩

/-- Two of the lists exchange nodes. -/
theorem Splits.exchange {P : α → Prop} {own' : ι → List α} (h : Splits P own) (hij : i ≠ j) (hother : ∀ k, k ≠ i → k ≠ j → own' k = own k)
    (hp : (own' i ++ own' j).Perm (own i ++ own j)) : Splits P own' := by
  have heq : own' = moved own i j (own' i) (own' j) := by
    funext k
    by_cases hj : k = j
    · rw [hj, moved_right]
    · by_cases hi : k = i
      · rw [hi, moved_left hij]
      · rw [moved_of_ne hi hj, hother k hi hj]
  rw [heq]
  exact ⟨h.toSpread.move hij hp, fun x => (h.mem x).trans (moved_mem hij hp x).symm⟩

end Table
