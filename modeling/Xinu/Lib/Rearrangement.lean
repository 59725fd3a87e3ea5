import Mathlib.Algebra.Group.End
import Mathlib.Data.List.Nodup
import Mathlib.Logic.Equiv.Basic
import Mathlib.Tactic.Common

/-!
# Rearrangements of a range of cells

Cells numbered by natural numbers. An exchange of two cells and a rotation of three rearrange a range, rearrangements compose, and what
holds of all cells of a range before holds of all of them afterwards.
-/

namespace Cells

variable {α : Type*} {f g h : Nat → α} {lo hi lo' hi' i j k : Nat}

/-- Exchange two cells. -/
def swap (f : Nat → α) (i j : Nat) : Nat → α := Function.update (Function.update f i (f j)) j (f i)

/-- Move the content of `k` to `i`, that of `j` to `k` and that of `i` to `j`, in this order. -/
def rotate (f : Nat → α) (i j k : Nat) : Nat → α :=
  let c := f i
  let f := Function.update f i (f k)
  let f := Function.update f k (f j)
  Function.update f j c

theorem swap_left (f : Nat → α) (i j : Nat) : swap f i j i = f j := by
  by_cases h : i = j
  · subst h
    exact Function.update_self i _ _
  · rw [swap, Function.update_of_ne h, Function.update_self]

theorem swap_right (f : Nat → α) (i j : Nat) : swap f i j j = f i := Function.update_self j _ _

theorem swap_of_ne (hi : k ≠ i) (hj : k ≠ j) : swap f i j k = f k := by
  rw [swap, Function.update_of_ne hj, Function.update_of_ne hi]

theorem rotate_first (hj : i ≠ j) (hk : i ≠ k) : rotate f i j k i = f k := by
  rw [rotate, Function.update_of_ne hj, Function.update_of_ne hk, Function.update_self]

theorem rotate_second (f : Nat → α) (i j k : Nat) : rotate f i j k j = f i := Function.update_self j _ _

theorem rotate_third (hjk : j ≠ k) (hj : j ≠ i) : rotate f i j k k = f j := by
  rw [rotate, Function.update_of_ne hjk.symm, Function.update_self, Function.update_of_ne hj]

theorem rotate_of_ne {n : Nat} (hi : n ≠ i) (hj : n ≠ j) (hk : n ≠ k) : rotate f i j k n = f n := by
  rw [rotate, Function.update_of_ne hj, Function.update_of_ne hk, Function.update_of_ne hi]

/-- The cells of a range are permuted, and the others are kept. -/
def Rearranges (lo hi : Nat) (f g : Nat → α) : Prop :=
  ∃ σ : Equiv.Perm Nat, (∀ k, k < lo ∨ hi ≤ k → σ k = k) ∧ ∀ k, g k = f (σ k)

theorem Rearranges.refl (lo hi : Nat) (f : Nat → α) : Rearranges lo hi f f := ⟨1, fun _ _ => rfl, fun _ => rfl⟩

theorem Rearranges.trans (hfg : Rearranges lo hi f g) (hgh : Rearranges lo hi g h) : Rearranges lo hi f h := by
  obtain ⟨σ, hσ, hg⟩ := hfg
  obtain ⟨τ, hτ, hh⟩ := hgh
  refine ⟨σ * τ, fun k hk => ?_, fun k => ?_⟩
  · rw [Equiv.Perm.mul_apply, hτ k hk, hσ k hk]
  · rw [hh, hg, Equiv.Perm.mul_apply]

/-- A rearrangement of a part of a range. -/
theorem Rearranges.widen (hfg : Rearranges lo hi f g) (hlo : lo' ≤ lo) (hhi : hi ≤ hi') : Rearranges lo' hi' f g := by
  obtain ⟨σ, hσ, hg⟩ := hfg
  exact ⟨σ, fun k hk => hσ k (by omega), hg⟩

theorem Rearranges.outside (hfg : Rearranges lo hi f g) (hk : k < lo ∨ hi ≤ k) : g k = f k := by
  obtain ⟨σ, hσ, hg⟩ := hfg
  rw [hg, hσ k hk]

/-- A permutation that keeps the cells outside a range keeps the range. -/
theorem perm_inside {σ : Equiv.Perm Nat} (hσ : ∀ k, k < lo ∨ hi ≤ k → σ k = k) (hlo : lo ≤ k) (hhi : k < hi) : lo ≤ σ k ∧ σ k < hi := by
  by_contra hout
  have hfix : σ (σ k) = σ k := hσ (σ k) (by omega)
  have hk : σ k = k := σ.injective hfix
  omega

/-- What holds of all cells of the range before holds of all of them afterwards. -/
theorem Rearranges.forall {P : α → Prop} (hfg : Rearranges lo hi f g) (hP : ∀ k, lo ≤ k → k < hi → P (f k)) :
    ∀ k, lo ≤ k → k < hi → P (g k) := by
  obtain ⟨σ, hσ, hg⟩ := hfg
  intro k hlo hhi
  obtain ⟨hlo', hhi'⟩ := perm_inside hσ hlo hhi
  rw [hg]
  exact hP (σ k) hlo' hhi'

theorem swap_rearranges (hi1 : lo ≤ i) (hi2 : i < hi) (hj1 : lo ≤ j) (hj2 : j < hi) : Rearranges lo hi f (swap f i j) := by
  refine ⟨Equiv.swap i j, fun k hk => Equiv.swap_apply_of_ne_of_ne (by omega) (by omega), fun k => ?_⟩
  by_cases hki : k = i
  · subst hki
    rw [swap_left, Equiv.swap_apply_left]
  · by_cases hkj : k = j
    · subst hkj
      rw [swap_right, Equiv.swap_apply_right]
    · rw [swap_of_ne hki hkj, Equiv.swap_apply_of_ne_of_ne hki hkj]

/-- A rotation is two exchanges; the second and the third cell may be the same. -/
theorem rotate_eq_swap (hj : i ≠ j) (hk : i ≠ k) : rotate f i j k = swap (swap f i k) k j := by
  funext n
  by_cases hni : n = i
  · subst hni
    rw [rotate_first hj hk, swap_of_ne hk hj, swap_left]
  · by_cases hnj : n = j
    · subst hnj
      rw [rotate_second, swap_right, swap_right]
    · by_cases hnk : n = k
      · subst hnk
        rw [rotate_third (Ne.symm hnj) hj.symm, swap_left, swap_of_ne hj.symm (Ne.symm hnj)]
      · rw [rotate_of_ne hni hnj hnk, swap_of_ne hnk hnj, swap_of_ne hni hnk]

theorem rotate_rearranges (hj : i ≠ j) (hk : i ≠ k) (hi1 : lo ≤ i) (hi2 : i < hi) (hj1 : lo ≤ j) (hj2 : j < hi) (hk1 : lo ≤ k)
    (hk2 : k < hi) : Rearranges lo hi f (rotate f i j k) := by
  rw [rotate_eq_swap hj hk]
  exact (swap_rearranges hi1 hi2 hk1 hk2).trans (swap_rearranges hk1 hk2 hj1 hj2)

/-- The cells from 0 on, as a list. -/
theorem Rearranges.perm {n : Nat} (hfg : Rearranges 0 n f g) : ((List.range n).map g).Perm ((List.range n).map f) := by
  obtain ⟨σ, hσ, hg⟩ := hfg
  have hmap : (List.range n).map g = ((List.range n).map σ).map f := by
    rw [List.map_map]
    exact List.map_congr_left fun k _ => hg k
  rw [hmap]
  refine List.Perm.map f ?_
  refine (List.perm_ext_iff_of_nodup (List.nodup_range.map σ.injective) List.nodup_range).mpr fun k => ?_
  rw [List.mem_map, List.mem_range]
  constructor
  · rintro ⟨m, hm, rfl⟩
    exact (perm_inside hσ (Nat.zero_le m) (List.mem_range.mp hm)).2
  · intro hk
    have hinv : ∀ m, m < 0 ∨ n ≤ m → σ.symm m = m := by
      intro m hm
      rw [Equiv.symm_apply_eq, hσ m hm]
    exact ⟨σ.symm k, List.mem_range.mpr (perm_inside hinv (Nat.zero_le k) hk).2, σ.apply_symm_apply k⟩

end Cells
