import Xinu.Lib.Rearrangement

/-!
# Quicksort with a three-way partition

The partition keeps a block of cells that are equal to the pivot in the middle of a range and grows or moves it: `[lo, i)` is below the pivot,
`[lp, hp]` is equal to it and `(j, hi)` is above it (`Split`). Every turn makes `(lp - i) + (j - hp)` smaller. The comparison is that of a
total preorder, given by the sign of a number.
-/

namespace Quicksort

open Cells

variable {α : Type*}

/-- The comparison of a total preorder. -/
structure IsPreorder (cmp : α → α → Int) : Prop where
  antisymm : ∀ x y, cmp x y < 0 ↔ 0 < cmp y x
  trans : ∀ x y z, cmp x y ≤ 0 → cmp y z ≤ 0 → cmp x z ≤ 0

namespace IsPreorder

variable {cmp : α → α → Int} {x y z : α}

theorem refl (h : IsPreorder cmp) (x : α) : cmp x x = 0 := by
  have hx := h.antisymm x x
  omega

theorem eq_comm (h : IsPreorder cmp) : cmp x y = 0 ↔ cmp y x = 0 := by
  have h1 := h.antisymm x y
  have h2 := h.antisymm y x
  omega

theorem lt_of_lt_of_eq (h : IsPreorder cmp) (hxy : cmp x y < 0) (hyz : cmp y z = 0) : cmp x z < 0 := by
  have h1 := h.antisymm x y
  have h2 := h.antisymm x z
  have h3 := h.eq_comm.mp hyz
  by_contra hle
  have hzx : cmp z x ≤ 0 := by
    have h4 := h.antisymm z x
    omega
  have hyx := h.trans y z x (by omega) hzx
  omega

theorem lt_of_eq_of_lt (h : IsPreorder cmp) (hxy : cmp x y = 0) (hyz : cmp y z < 0) : cmp x z < 0 := by
  have h1 := h.antisymm y z
  have h2 := h.eq_comm.mp hxy
  by_contra hle
  have hzx : cmp z x ≤ 0 := by
    have h4 := h.antisymm z x
    have h5 := h.antisymm x z
    omega
  have hzy := h.trans z x y hzx (by omega)
  omega

theorem eq_trans (h : IsPreorder cmp) (hxy : cmp x y = 0) (hyz : cmp y z = 0) : cmp x z = 0 := by
  have h1 := h.trans x y z (by omega) (by omega)
  have h2 := h.trans z y x (h.eq_comm.mp hyz).le (h.eq_comm.mp hxy).le
  have h3 := h.antisymm x z
  omega

end IsPreorder

/-! ## The partition -/

/-- The cells with the ends of the parts. -/
structure State (α : Type*) where
  arr : Nat → α
  i : Nat
  j : Nat
  lp : Nat
  hp : Nat

/-- Where a turn begins: at the lower part, or at the upper part. -/
inductive Point where
  | lower | upper

/-- What a turn leaves. -/
inductive Move (σ : Type*) where
  | go (p : Point) (s : σ)
  | done (s : σ)

variable (cmp : α → α → Int)

/-- A turn at the upper part. -/
def upperTurn (s : State α) : Move (State α) :=
  if s.hp < s.j then
    if cmp (s.arr s.hp) (s.arr s.j) = 0 then .go .upper { s with arr := swap s.arr (s.hp + 1) s.j, hp := s.hp + 1 }
    else if 0 < cmp (s.arr s.hp) (s.arr s.j) then
      if s.i = s.lp then
        .go .upper { s with arr := rotate s.arr s.i (s.hp + 1) s.j, hp := s.hp + 1, lp := s.lp + 1, i := s.lp + 1 }
      else .go .lower { s with arr := swap s.arr s.i s.j, j := s.j - 1, i := s.i + 1 }
    else .go .upper { s with j := s.j - 1 }
  else if s.i = s.lp then .done s
  else .go .lower { s with arr := rotate s.arr s.j (s.lp - 1) s.i, lp := s.lp - 1, hp := s.hp - 1, j := s.hp - 1 }

/-- A turn. -/
def turn : Point → State α → Move (State α)
  | .lower, s =>
    if s.i < s.lp then
      if cmp (s.arr s.i) (s.arr s.lp) = 0 then .go .lower { s with arr := swap s.arr s.i (s.lp - 1), lp := s.lp - 1 }
      else if cmp (s.arr s.i) (s.arr s.lp) < 0 then .go .lower { s with i := s.i + 1 }
      else upperTurn cmp s
    else upperTurn cmp s
  | .upper, s => upperTurn cmp s

/-- The turns of a partition, of which there are `left` at most. -/
def partition : (left : Nat) → Point → State α → Option (State α)
  | 0, _, _ => none
  | left + 1, p, s =>
    match turn cmp p s with
    | .go p s => partition left p s
    | .done s => some s

/-- Sort the cells from `lo` to `hi`, with recursion to the given depth. -/
def sort : (depth : Nat) → (Nat → α) → (lo hi : Nat) → Option (Nat → α)
  | 0, _, _, _ => none
  | depth + 1, arr, lo, hi =>
    if hi - lo ≤ 1 then some arr
    else
      let m := lo + (hi - lo) / 2
      (partition cmp (hi - lo) .lower ⟨arr, lo, hi - 1, m, m⟩).bind fun s =>
        if s.lp - lo ≥ hi - s.hp then (sort depth s.arr (s.hp + 1) hi).bind fun arr => sort depth arr lo s.lp
        else (sort depth s.arr lo s.lp).bind fun arr => sort depth arr (s.hp + 1) hi

variable {cmp} {lo hi : Nat} {x : α} {s s' : State α} {p p' : Point}

/-- The ends of the parts lie in order. -/
structure Bounds (lo hi : Nat) (s : State α) : Prop where
  lower : lo ≤ s.i
  below : s.i ≤ s.lp
  block : s.lp ≤ s.hp
  above : s.hp ≤ s.j
  upper : s.j < hi

/-- The parts of the range, for a pivot. -/
structure Split (cmp : α → α → Int) (lo hi : Nat) (x : α) (s : State α) : Prop extends Bounds lo hi s where
  less : ∀ k, lo ≤ k → k < s.i → cmp (s.arr k) x < 0
  equal : ∀ k, s.lp ≤ k → k ≤ s.hp → cmp (s.arr k) x = 0
  greater : ∀ k, s.j < k → k < hi → cmp x (s.arr k) < 0

/-- At the upper part, the cell that the lower part stopped at is above the pivot. -/
def Stopped (cmp : α → α → Int) (x : α) (s : State α) : Prop := s.i < s.lp → cmp x (s.arr s.i) < 0

/-- What holds where a turn begins. -/
def Holds (cmp : α → α → Int) (lo hi : Nat) (x : α) (p : Point) (s : State α) : Prop :=
  Split cmp lo hi x s ∧ (p = .upper → Stopped cmp x s)

/-- The turns that are left at most. -/
def turnsLeft (s : State α) : Nat := (s.lp - s.i) + (s.j - s.hp)

/-- What a turn does. -/
def Turned (cmp : α → α → Int) (lo hi : Nat) (x : α) (s : State α) : Move (State α) → Prop
  | .go p s' => Holds cmp lo hi x p s' ∧ turnsLeft s' < turnsLeft s ∧ Rearranges lo hi s.arr s'.arr
  | .done s' => s' = s ∧ s.i = s.lp ∧ s.j = s.hp

/-! ### One turn -/

/-- The upper part meets a cell that is equal to the pivot: it joins the block. -/
theorem Split.joinAbove (h : IsPreorder cmp) (hs : Split cmp lo hi x s) (hlt : s.hp < s.j) (hc : cmp (s.arr s.hp) (s.arr s.j) = 0) :
    Split cmp lo hi x { s with arr := swap s.arr (s.hp + 1) s.j, hp := s.hp + 1 } := by
  obtain ⟨⟨b1, b2, b3, b4, b5⟩, hless, hequal, hgreater⟩ := hs
  refine ⟨⟨b1, b2, by dsimp only; omega, hlt, b5⟩, fun k hk hki => ?_, fun k hk hkh => ?_, fun k hk hkh => ?_⟩ <;> dsimp only at *
  · rw [swap_of_ne (by omega) (by omega)]
    exact hless k hk hki
  · rcases Nat.lt_or_ge s.hp k with hlast | hin
    · obtain rfl : k = s.hp + 1 := by omega
      rw [swap_left]
      exact h.eq_trans (h.eq_comm.mp hc) (hequal s.hp b3 (Nat.le_refl _))
    · rw [swap_of_ne (by omega) (by omega)]
      exact hequal k hk hin
  · rw [swap_of_ne (by omega) (by omega)]
    exact hgreater k hk hkh

/-- The upper part meets a cell below the pivot while the lower part is complete: the block moves up by one cell. -/
theorem Split.moveUp (h : IsPreorder cmp) (hs : Split cmp lo hi x s) (hlt : s.hp < s.j) (hc : 0 < cmp (s.arr s.hp) (s.arr s.j))
    (hfull : s.i = s.lp) :
    Split cmp lo hi x { s with arr := rotate s.arr s.i (s.hp + 1) s.j, hp := s.hp + 1, lp := s.lp + 1, i := s.lp + 1 } := by
  obtain ⟨⟨b1, b2, b3, b4, b5⟩, hless, hequal, hgreater⟩ := hs
  refine ⟨⟨by dsimp only; omega, Nat.le_refl _, by dsimp only; omega, hlt, b5⟩, fun k hk hki => ?_, fun k hk hkh => ?_,
    fun k hk hkh => ?_⟩ <;> dsimp only at *
  · rcases Nat.lt_or_ge k s.i with hin | hlast
    · rw [rotate_of_ne (by omega) (by omega) (by omega)]
      exact hless k hk hin
    · obtain rfl : k = s.i := by omega
      rw [rotate_first (by omega) (by omega)]
      exact h.lt_of_lt_of_eq ((h.antisymm _ _).mpr hc) (hequal s.hp b3 (Nat.le_refl _))
  · rcases Nat.lt_or_ge s.hp k with hlast | hin
    · obtain rfl : k = s.hp + 1 := by omega
      rw [rotate_second, hfull]
      exact hequal s.lp (Nat.le_refl _) b3
    · rw [rotate_of_ne (by omega) (by omega) (by omega)]
      exact hequal k (by omega) hin
  · rw [rotate_of_ne (by omega) (by omega) (by omega)]
    exact hgreater k hk hkh

/-- Two cells on the wrong sides are exchanged. -/
theorem Split.exchange (h : IsPreorder cmp) (hs : Split cmp lo hi x s) (hst : Stopped cmp x s) (hlt : s.hp < s.j)
    (hc : 0 < cmp (s.arr s.hp) (s.arr s.j)) (hne : s.i ≠ s.lp) :
    Split cmp lo hi x { s with arr := swap s.arr s.i s.j, j := s.j - 1, i := s.i + 1 } := by
  obtain ⟨⟨b1, b2, b3, b4, b5⟩, hless, hequal, hgreater⟩ := hs
  refine ⟨⟨by dsimp only; omega, by dsimp only; omega, b3, by dsimp only; omega, by dsimp only; omega⟩, fun k hk hki => ?_,
    fun k hk hkh => ?_, fun k hk hkh => ?_⟩ <;> dsimp only at *
  · rcases Nat.lt_or_ge k s.i with hin | hlast
    · rw [swap_of_ne (by omega) (by omega)]
      exact hless k hk hin
    · obtain rfl : k = s.i := by omega
      rw [swap_left]
      exact h.lt_of_lt_of_eq ((h.antisymm _ _).mpr hc) (hequal s.hp b3 (Nat.le_refl _))
  · rw [swap_of_ne (by omega) (by omega)]
    exact hequal k hk hkh
  · rcases Nat.lt_or_ge s.j k with hin | hlast
    · rw [swap_of_ne (by omega) (by omega)]
      exact hgreater k hin hkh
    · obtain rfl : k = s.j := by omega
      rw [swap_right]
      exact hst (by omega)

/-- The upper part grows. -/
theorem Split.growAbove (h : IsPreorder cmp) (hs : Split cmp lo hi x s) (hlt : s.hp < s.j) (hc : cmp (s.arr s.hp) (s.arr s.j) < 0) :
    Split cmp lo hi x { s with j := s.j - 1 } := by
  obtain ⟨⟨b1, b2, b3, b4, b5⟩, hless, hequal, hgreater⟩ := hs
  refine ⟨⟨b1, b2, b3, by dsimp only; omega, by dsimp only; omega⟩, hless, hequal, fun k hk hkh => ?_⟩
  dsimp only at *
  rcases Nat.lt_or_ge s.j k with hin | hlast
  · exact hgreater k hin hkh
  · obtain rfl : k = s.j := by omega
    exact h.lt_of_eq_of_lt (h.eq_comm.mp (hequal s.hp b3 (Nat.le_refl _))) hc

/-- The upper part is complete and the lower part is not: the block moves down by one cell. -/
theorem Split.moveDown (hs : Split cmp lo hi x s) (hst : Stopped cmp x s) (hle : ¬s.hp < s.j) (hne : s.i ≠ s.lp) :
    Split cmp lo hi x { s with arr := rotate s.arr s.j (s.lp - 1) s.i, lp := s.lp - 1, hp := s.hp - 1, j := s.hp - 1 } := by
  obtain ⟨⟨b1, b2, b3, b4, b5⟩, hless, hequal, hgreater⟩ := hs
  refine ⟨⟨b1, by dsimp only; omega, by dsimp only; omega, Nat.le_refl _, by dsimp only; omega⟩, fun k hk hki => ?_, fun k hk hkh => ?_,
    fun k hk hkh => ?_⟩ <;> dsimp only at *
  · rw [rotate_of_ne (by omega) (by omega) (by omega)]
    exact hless k hk hki
  · rcases Nat.lt_or_ge k s.lp with hlast | hin
    · obtain rfl : k = s.lp - 1 := by omega
      rw [rotate_second]
      exact hequal s.j (by omega) (by omega)
    · rw [rotate_of_ne (by omega) (by omega) (by omega)]
      exact hequal k hin (by omega)
  · rcases Nat.lt_or_ge s.j k with hin | hlast
    · rw [rotate_of_ne (by omega) (by omega) (by omega)]
      exact hgreater k hin hkh
    · obtain rfl : k = s.j := by omega
      rw [rotate_first (by omega) (by omega)]
      exact hst (by omega)

/-- The lower part meets a cell that is equal to the pivot: it joins the block. -/
theorem Split.joinBelow (h : IsPreorder cmp) (hs : Split cmp lo hi x s) (hlt : s.i < s.lp) (hc : cmp (s.arr s.i) (s.arr s.lp) = 0) :
    Split cmp lo hi x { s with arr := swap s.arr s.i (s.lp - 1), lp := s.lp - 1 } := by
  obtain ⟨⟨b1, b2, b3, b4, b5⟩, hless, hequal, hgreater⟩ := hs
  refine ⟨⟨b1, by dsimp only; omega, by dsimp only; omega, b4, b5⟩, fun k hk hki => ?_, fun k hk hkh => ?_, fun k hk hkh => ?_⟩ <;>
    dsimp only at *
  · rw [swap_of_ne (by omega) (by omega)]
    exact hless k hk hki
  · rcases Nat.lt_or_ge k s.lp with hlast | hin
    · obtain rfl : k = s.lp - 1 := by omega
      rw [swap_right]
      exact h.eq_trans hc (hequal s.lp (Nat.le_refl _) b3)
    · rw [swap_of_ne (by omega) (by omega)]
      exact hequal k hin hkh
  · rw [swap_of_ne (by omega) (by omega)]
    exact hgreater k hk hkh

/-- The lower part grows. -/
theorem Split.growBelow (h : IsPreorder cmp) (hs : Split cmp lo hi x s) (hlt : s.i < s.lp) (hc : cmp (s.arr s.i) (s.arr s.lp) < 0) :
    Split cmp lo hi x { s with i := s.i + 1 } := by
  obtain ⟨⟨b1, b2, b3, b4, b5⟩, hless, hequal, hgreater⟩ := hs
  refine ⟨⟨by dsimp only; omega, hlt, b3, b4, b5⟩, fun k hk hki => ?_, hequal, hgreater⟩
  dsimp only at *
  rcases Nat.lt_or_ge k s.i with hin | hlast
  · exact hless k hk hin
  · obtain rfl : k = s.i := by omega
    exact h.lt_of_lt_of_eq hc (hequal s.lp (Nat.le_refl _) b3)

theorem upperTurn_turned (h : IsPreorder cmp) (hs : Split cmp lo hi x s) (hst : Stopped cmp x s) :
    Turned cmp lo hi x s (upperTurn cmp s) := by
  obtain ⟨b1, b2, b3, b4, b5⟩ := hs.toBounds
  rw [upperTurn]
  split
  · next hlt =>
    split
    · next hc =>
      refine ⟨⟨hs.joinAbove h hlt hc, fun _ hstop => ?_⟩, ?_, swap_rearranges (by omega) (by omega) (by omega) (by omega)⟩
      · dsimp only at *
        rw [swap_of_ne (by omega) (by omega)]
        exact hst hstop
      · simp only [turnsLeft]
        omega
    split
    · next hc =>
      split
      · next hfull =>
        refine ⟨⟨hs.moveUp h hlt hc hfull, fun _ hstop => absurd hstop (Nat.lt_irrefl _)⟩, ?_, ?_⟩
        · simp only [turnsLeft]
          omega
        · exact rotate_rearranges (by omega) (by omega) (by omega) (by omega) (by omega) (by omega) (by omega) (by omega)
      · next hne =>
        refine ⟨⟨hs.exchange h hst hlt hc hne, nofun⟩, ?_, swap_rearranges (by omega) (by omega) (by omega) (by omega)⟩
        simp only [turnsLeft]
        omega
    · next hc0 hc1 =>
      refine ⟨⟨hs.growAbove h hlt (by omega), fun _ => hst⟩, ?_, Rearranges.refl lo hi s.arr⟩
      simp only [turnsLeft]
      omega
  · next hle =>
    split
    · next hfull => exact ⟨rfl, hfull, by omega⟩
    · next hne =>
      refine ⟨⟨hs.moveDown hst hle hne, nofun⟩, ?_, ?_⟩
      · simp only [turnsLeft]
        omega
      · exact rotate_rearranges (by omega) (by omega) (by omega) (by omega) (by omega) (by omega) (by omega) (by omega)

/-- A turn keeps the parts, is one step towards the end and rearranges the range. -/
theorem turn_turned (h : IsPreorder cmp) (hs : Holds cmp lo hi x p s) : Turned cmp lo hi x s (turn cmp p s) := by
  obtain ⟨hs, hst⟩ := hs
  obtain ⟨b1, b2, b3, b4, b5⟩ := hs.toBounds
  cases p with
  | upper => exact upperTurn_turned h hs (hst rfl)
  | lower =>
    rw [turn]
    split
    · next hlt =>
      split
      · next hc =>
        refine ⟨⟨hs.joinBelow h hlt hc, nofun⟩, ?_, swap_rearranges (by omega) (by omega) (by omega) (by omega)⟩
        simp only [turnsLeft]
        omega
      split
      · next hc =>
        refine ⟨⟨hs.growBelow h hlt hc, nofun⟩, ?_, Rearranges.refl lo hi s.arr⟩
        simp only [turnsLeft]
        omega
      · next hc0 hc1 =>
        refine upperTurn_turned h hs fun _ => ?_
        have hgt : cmp (s.arr s.lp) (s.arr s.i) < 0 := (h.antisymm _ _).mpr (by omega)
        exact h.lt_of_eq_of_lt (h.eq_comm.mp (hs.equal s.lp (Nat.le_refl _) b3)) hgt
    · next hle => exact upperTurn_turned h hs fun hlt => absurd hlt hle

/-! ### Runs -/

/-- The partition ends, with both parts complete. -/
theorem partition_turned (h : IsPreorder cmp) {left : Nat} (hs : Holds cmp lo hi x p s) (hleft : turnsLeft s < left) :
    ∃ s', partition cmp left p s = some s' ∧ Split cmp lo hi x s' ∧ s'.i = s'.lp ∧ s'.j = s'.hp ∧ Rearranges lo hi s.arr s'.arr := by
  induction left generalizing p s with
  | zero => exact absurd hleft (Nat.not_lt_zero _)
  | succ left ih =>
    have hturn := turn_turned h hs
    rw [partition]
    split
    · next p' s' he =>
      rw [he] at hturn
      obtain ⟨hs', hm, hr⟩ := hturn
      obtain ⟨s'', hrun, hsplit, hi', hj', hr'⟩ := ih hs' (by omega)
      exact ⟨s'', hrun, hsplit, hi', hj', hr.trans hr'⟩
    · next s' he =>
      rw [he] at hturn
      obtain ⟨rfl, hi', hj'⟩ := hturn
      exact ⟨s', rfl, hs.1, hi', hj', Rearranges.refl lo hi s'.arr⟩

/-- The cells of a range do not decrease. -/
def Sorted (cmp : α → α → Int) (lo hi : Nat) (f : Nat → α) : Prop := ∀ k m, lo ≤ k → k ≤ m → m < hi → cmp (f k) (f m) ≤ 0

/-- A range of which the parts are sorted. -/
theorem sorted_of_parts (h : IsPreorder cmp) {f : Nat → α} {lp hp : Nat} (hlow : Sorted cmp lo lp f) (hhigh : Sorted cmp (hp + 1) hi f)
    (hless : ∀ k, lo ≤ k → k < lp → cmp (f k) x < 0) (hequal : ∀ k, lp ≤ k → k ≤ hp → cmp (f k) x = 0)
    (hgreater : ∀ k, hp + 1 ≤ k → k < hi → cmp x (f k) < 0) : Sorted cmp lo hi f := by
  intro k m hk hkm hm
  have hbelow : k ≤ hp → cmp (f k) x ≤ 0 := by
    intro hle
    rcases Nat.lt_or_ge k lp with hlt | hge
    · exact (hless k hk hlt).le
    · exact (hequal k hge hle).le
  have habove : lp ≤ m → cmp x (f m) ≤ 0 := by
    intro hle
    rcases Nat.lt_or_ge hp m with hlt | hge
    · exact (hgreater m hlt hm).le
    · exact (h.eq_comm.mp (hequal m hle hge)).le
  rcases Nat.lt_or_ge m lp with hmlt | hmge
  · exact hlow k m hk hkm hmlt
  rcases Nat.lt_or_ge hp k with hkgt | hkle
  · exact hhigh k m hkgt hkm hm
  · exact h.trans _ _ _ (hbelow hkle) (habove hmge)

theorem Sorted.congr {f g : Nat → α} (hs : Sorted cmp lo hi f) (h : ∀ k, lo ≤ k → k < hi → g k = f k) : Sorted cmp lo hi g := by
  intro k m hk hkm hm
  rw [h k hk (by omega), h m (by omega) hm]
  exact hs k m hk hkm hm

/-- A range of which first the upper part is sorted and then the lower one. -/
theorem Split.sorted_upper (h : IsPreorder cmp) (hs : Split cmp lo hi x s) (hfull : s.i = s.lp) (hfull' : s.j = s.hp) {f g : Nat → α}
    (hr : Rearranges (s.hp + 1) hi s.arr f) (hf : Sorted cmp (s.hp + 1) hi f) (hr' : Rearranges lo s.lp f g) (hg : Sorted cmp lo s.lp g) :
    Sorted cmp lo hi g := by
  obtain ⟨⟨b1, b2, b3, b4, b5⟩, hless, hequal, hgreater⟩ := hs
  refine sorted_of_parts h hg (hf.congr fun k hk _ => hr'.outside (by omega))
    (hr'.forall (P := fun y => cmp y x < 0) fun k hk hlt => ?_) (fun k hk hle => ?_) fun k hk hlt => ?_
  · rw [hr.outside (by omega)]
    exact hless k hk (by omega)
  · rw [hr'.outside (by omega), hr.outside (by omega)]
    exact hequal k hk hle
  · rw [hr'.outside (by omega)]
    exact hr.forall (P := fun y => cmp x y < 0) (fun k hk hlt => hgreater k (by omega) hlt) k hk hlt

/-- A range of which first the lower part is sorted and then the upper one. -/
theorem Split.sorted_lower (h : IsPreorder cmp) (hs : Split cmp lo hi x s) (hfull : s.i = s.lp) (hfull' : s.j = s.hp) {f g : Nat → α}
    (hr : Rearranges lo s.lp s.arr f) (hf : Sorted cmp lo s.lp f) (hr' : Rearranges (s.hp + 1) hi f g) (hg : Sorted cmp (s.hp + 1) hi g) :
    Sorted cmp lo hi g := by
  obtain ⟨⟨b1, b2, b3, b4, b5⟩, hless, hequal, hgreater⟩ := hs
  refine sorted_of_parts h (hf.congr fun k _ hk => hr'.outside (by omega)) hg (fun k hk hlt => ?_) (fun k hk hle => ?_)
    (hr'.forall (P := fun y => cmp x y < 0) fun k hk hlt => ?_)
  · rw [hr'.outside (by omega)]
    exact hr.forall (P := fun y => cmp y x < 0) (fun k hk hlt => hless k hk (by omega)) k hk hlt
  · rw [hr'.outside (by omega), hr.outside (by omega)]
    exact hequal k hk hle
  · rw [hr.outside (by omega)]
    exact hgreater k (by omega) hlt

/-- The state in which the partition begins. -/
def start (f : Nat → α) (lo hi : Nat) : State α := ⟨f, lo, hi - 1, lo + (hi - lo) / 2, lo + (hi - lo) / 2⟩

theorem start_split (h : IsPreorder cmp) (f : Nat → α) (hlt : 1 < hi - lo) :
    Split cmp lo hi (f (lo + (hi - lo) / 2)) (start f lo hi) := by
  refine ⟨⟨Nat.le_refl _, Nat.le_add_right _ _, Nat.le_refl _, ?_, ?_⟩, fun k hk hki => ?_, fun k hk hkh => ?_, fun k hk hkh => ?_⟩ <;>
    simp only [start] at *
  · omega
  · omega
  · omega
  · obtain rfl : k = lo + (hi - lo) / 2 := by omega
    exact h.refl _
  · omega

/-- The invariant at the start. -/
theorem start_holds (h : IsPreorder cmp) (f : Nat → α) (hlt : 1 < hi - lo) :
    Holds cmp lo hi (f (lo + (hi - lo) / 2)) .lower (start f lo hi) := by
  refine ⟨start_split h f hlt, ?_⟩
  intro hupper
  cases hupper

theorem start_turnsLeft (f : Nat → α) (hlt : 1 < hi - lo) : turnsLeft (start f lo hi) < hi - lo := by
  simp only [turnsLeft, start]
  omega

/-- A range is sorted. -/
theorem sort_sorted (h : IsPreorder cmp) {depth : Nat} : ∀ {f : Nat → α} {lo hi : Nat}, hi - lo < depth →
    ∃ g, sort cmp depth f lo hi = some g ∧ Rearranges lo hi f g ∧ Sorted cmp lo hi g := by
  induction depth with
  | zero =>
    intro f lo hi hd
    exact absurd hd (Nat.not_lt_zero _)
  | succ depth ih =>
    intro f lo hi hd
    rw [sort]
    by_cases hsmall : hi - lo ≤ 1
    · rw [if_pos hsmall]
      refine ⟨f, rfl, Rearranges.refl lo hi f, fun k m hk hkm hm => ?_⟩
      obtain rfl : k = m := by omega
      exact (h.refl _).le
    · rw [if_neg hsmall]
      have hholds := start_holds h f (Nat.lt_of_not_le hsmall)
      obtain ⟨s, hrun, hs, hfull, hfull', hr⟩ := partition_turned h hholds (start_turnsLeft f (Nat.lt_of_not_le hsmall))
      obtain ⟨b1, b2, b3, b4, b5⟩ := hs.toBounds
      change ∃ g, (partition cmp (hi - lo) .lower (start f lo hi)).bind _ = some g ∧ _
      rw [hrun, Option.bind_some]
      split
      · obtain ⟨g, hg, hrg, hsg⟩ := @ih s.arr (s.hp + 1) hi (by omega)
        obtain ⟨g', hg', hrg', hsg'⟩ := @ih g lo s.lp (by omega)
        refine ⟨g', by rw [hg, Option.bind_some, hg'], ?_, hs.sorted_upper h hfull hfull' hrg hsg hrg' hsg'⟩
        exact (hr.trans (hrg.widen (by omega) (Nat.le_refl _))).trans (hrg'.widen (Nat.le_refl _) (by omega))
      · obtain ⟨g, hg, hrg, hsg⟩ := @ih s.arr lo s.lp (by omega)
        obtain ⟨g', hg', hrg', hsg'⟩ := @ih g (s.hp + 1) hi (by omega)
        refine ⟨g', by rw [hg, Option.bind_some, hg'], ?_, hs.sorted_lower h hfull hfull' hrg hsg hrg' hsg'⟩
        exact (hr.trans (hrg.widen (Nat.le_refl _) (by omega))).trans (hrg'.widen (by omega) (Nat.le_refl _))

end Quicksort
