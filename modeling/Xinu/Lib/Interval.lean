import Mathlib.Data.List.Pairwise
import Mathlib.Tactic.Common

/-!
# Blocks of addresses

A block is a pair of a start and a length. `occ bs x` counts the blocks of a list that hold the address `x`; a list of blocks
tiles an interval when every address of it is held by exactly one block and no other address is held (`Tiles`). Counting is
additive, so cutting a block in two and joining two adjacent blocks keep a tiling.
-/

namespace Blocks

/-- The block holds the address. -/
def Holds (b : Nat × Nat) (x : Nat) : Prop := b.1 ≤ x ∧ x < b.1 + b.2

instance (b : Nat × Nat) (x : Nat) : Decidable (Holds b x) := inferInstanceAs (Decidable (_ ∧ _))

/-- The number of blocks that hold an address. -/
def occ (bs : List (Nat × Nat)) (x : Nat) : Nat := bs.countP (fun b => decide (Holds b x))

/-- Two blocks share no address. -/
def Apart (a b : Nat × Nat) : Prop := a.1 + a.2 ≤ b.1 ∨ b.1 + b.2 ≤ a.1

/-- Every address from `lo` up to `hi` is held by exactly one of the blocks, and no other address is held. -/
def Tiles (lo hi : Nat) (bs : List (Nat × Nat)) : Prop := ∀ x, occ bs x = if lo ≤ x ∧ x < hi then 1 else 0

variable {a b c : Nat × Nat} {bs cs : List (Nat × Nat)} {lo hi x : Nat}

@[simp] theorem occ_nil (x : Nat) : occ [] x = 0 := rfl

@[simp] theorem occ_cons (b : Nat × Nat) (bs : List (Nat × Nat)) (x : Nat) :
    occ (b :: bs) x = (if Holds b x then 1 else 0) + occ bs x := by
  simp only [occ, List.countP_cons, decide_eq_true_eq]
  omega

@[simp] theorem occ_append (bs cs : List (Nat × Nat)) (x : Nat) : occ (bs ++ cs) x = occ bs x + occ cs x :=
  List.countP_append

theorem occ_perm (h : bs.Perm cs) (x : Nat) : occ bs x = occ cs x := h.countP_eq _

/-- A block cut in two holds the same addresses. -/
theorem holds_cut (s m n x : Nat) :
    (if Holds (s, m + n) x then 1 else 0) = (if Holds (s, m) x then 1 else 0) + (if Holds (s + m, n) x then 1 else 0) := by
  by_cases h1 : Holds (s, m) x <;> by_cases h2 : Holds (s + m, n) x <;> by_cases h3 : Holds (s, m + n) x <;>
    simp only [h1, h2, h3, if_true, if_false] <;> simp only [Holds] at h1 h2 h3 <;> omega

/-- Two adjacent blocks joined hold the same addresses. -/
theorem holds_join (h : a.1 + a.2 = b.1) (x : Nat) :
    (if Holds (a.1, a.2 + b.2) x then 1 else 0) = (if Holds a x then 1 else 0) + (if Holds b x then 1 else 0) := by
  have := holds_cut a.1 a.2 b.2 x
  rw [h] at this
  exact this

theorem occ_pos_iff : 0 < occ bs x ↔ ∃ b ∈ bs, Holds b x := by
  simp [occ, List.countP_pos_iff]

/-- The addresses held by a tiling are those of the interval. -/
theorem Tiles.holds_iff (h : Tiles lo hi bs) : (∃ b ∈ bs, Holds b x) ↔ lo ≤ x ∧ x < hi := by
  rw [← occ_pos_iff, h x]
  split_ifs with hx <;> simp [hx]

/-- A block of a tiling lies in the interval. -/
theorem Tiles.inside (h : Tiles lo hi bs) (hb : b ∈ bs) (hpos : 0 < b.2) : lo ≤ b.1 ∧ b.1 + b.2 ≤ hi := by
  have h1 := h.holds_iff.mp ⟨b, hb, (⟨Nat.le_refl _, by omega⟩ : Holds b b.1)⟩
  have h2 := h.holds_iff.mp ⟨b, hb, (⟨by omega, by omega⟩ : Holds b (b.1 + b.2 - 1))⟩
  omega

/-- Two blocks of positive length that share no address are apart. -/
theorem apart_of_holds (ha : 0 < a.2) (hb : 0 < b.2) (h : ∀ x, Holds a x → ¬Holds b x) : Apart a b := by
  by_contra hn
  simp only [Apart, not_or, Nat.not_le] at hn
  exact h (max a.1 b.1) ⟨by omega, by omega⟩ ⟨by omega, by omega⟩

/-- When no address is held twice, the blocks are pairwise apart. -/
theorem pairwise_apart (h : ∀ x, occ bs x ≤ 1) (hpos : ∀ b ∈ bs, 0 < b.2) : bs.Pairwise Apart := by
  induction bs with
  | nil => exact List.Pairwise.nil
  | cons b bs ih =>
    refine List.pairwise_cons.mpr ⟨fun c hc => ?_, ih (fun x => ?_) (fun c hc => hpos c (by simp [hc]))⟩
    · refine apart_of_holds (hpos b (by simp)) (hpos c (by simp [hc])) (fun x hx hcx => ?_)
      have h1 := h x
      have h2 : 0 < occ bs x := occ_pos_iff.mpr ⟨c, hc, hcx⟩
      rw [occ_cons, if_pos hx] at h1
      omega
    · have := h x
      rw [occ_cons] at this
      omega

theorem Tiles.apart (h : Tiles lo hi bs) (hpos : ∀ b ∈ bs, 0 < b.2) : bs.Pairwise Apart := by
  refine pairwise_apart (fun x => ?_) hpos
  rw [h x]
  split_ifs <;> omega

theorem Apart.symm (h : Apart a b) : Apart b a := Or.symm h

/-- Two different places of a tiling hold blocks that are apart. -/
theorem Tiles.apart_of_mem (h : Tiles lo hi (bs ++ cs)) (hpos : ∀ b ∈ bs ++ cs, 0 < b.2) (ha : a ∈ bs) (hb : b ∈ cs) :
    Apart a b :=
  (List.pairwise_append.mp (h.apart hpos)).2.2 a ha b hb

end Blocks
