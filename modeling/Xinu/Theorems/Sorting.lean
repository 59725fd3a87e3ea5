import Xinu.Sort.Elements

/-!
# Sorting

`qs1` on addresses does turn by turn what the sort of cells does on the elements of the array (`Sim`), so it ends, stays inside the array and
sorts it.
-/

namespace Xinu

namespace Qsort

open Cells Quicksort

variable {es n : Nat} {cmp : (Fin es → UInt8) → (Fin es → UInt8) → Int}

/-- The pointers are those of cells, and the memory holds them. -/
structure Sim (a n es : Nat) (r : Regs) (s : State (Fin es → UInt8)) : Prop where
  base : r.b.base = a
  size : r.b.size = n * es
  arr : r.b.elements es = s.arr
  i : r.i = a + es * s.i
  j : r.j = a + es * s.j
  lp : r.lp = a + es * s.lp
  hp : r.hp = a + es * s.hp

/-- The pointers and the cells are given by the memory and four indices. -/
theorem Sim.eq {a : Nat} {r : Regs} {s : State (Fin es → UInt8)} (h : Sim a n es r s) : ∃ b i j lp hp, b.size = n * es ∧ a = b.base ∧
    r = ⟨b, b.base + es * i, b.base + es * j, b.base + es * lp, b.base + es * hp⟩ ∧ s = ⟨b.elements es, i, j, lp, hp⟩ := by
  obtain ⟨b, ri, rj, rlp, rhp⟩ := r
  obtain ⟨arr, i, j, lp, hp⟩ := s
  obtain ⟨hbase, hsize, harr, hi, hj, hlp, hhp⟩ := h
  dsimp only at *
  subst hbase harr hi hj hlp hhp
  exact ⟨b, i, j, lp, hp, hsize, rfl, rfl, rfl⟩

/-- The same for what a turn leaves. -/
def SimNext (a n es : Nat) : Option (Move Regs) → Move (State (Fin es → UInt8)) → Prop
  | some (.go p r), .go p' s => p = p' ∧ Sim a n es r s
  | some (.done r), .done s => Sim a n es r s
  | _, _ => False

section Turns

variable {a i j : Nat} {r : Regs} {s : State (Fin es → UInt8)} {lo hi : Nat} {x : Fin es → UInt8} {p : Point}

theorem place_lt_iff (hes : 0 < es) : a + es * i < a + es * j ↔ i < j :=
  Nat.add_lt_add_iff_left.trans (Nat.mul_lt_mul_left hes)

theorem place_eq_iff (hes : 0 < es) : a + es * i = a + es * j ↔ i = j :=
  Nat.add_left_cancel_iff.trans (Nat.mul_right_inj hes.ne')

theorem place_succ (a es i : Nat) : a + es * i + es = a + es * (i + 1) := by rw [Nat.mul_succ, Nat.add_assoc]

theorem place_pred (h : 0 < i) : a + es * i - es = a + es * (i - 1) := by
  obtain ⟨i, rfl⟩ : ∃ m, i = m + 1 := ⟨i - 1, by omega⟩
  rw [← place_succ, Nat.add_sub_cancel, Nat.add_sub_cancel]

/-- A turn from the label `loop` on. -/
theorem loop_sim (hes : 0 < es) (hb : Bounds lo hi s) (hn : hi ≤ n) (h : Sim a n es r s) :
    SimNext a n es (loop cmp r) (upperTurn cmp s) := by
  obtain ⟨b, si, sj, slp, shp, hsize, rfl, rfl, rfl⟩ := h.eq
  obtain ⟨b1, b2, b3, b4, b5⟩ := hb
  dsimp only at *
  rw [loop, upperTurn]
  simp only [gt_iff_lt, place_lt_iff hes, place_eq_iff hes]
  by_cases hlt : shp < sj
  · rw [if_pos hlt, if_pos hlt, compare_elements hsize (by omega) (by omega), Option.bind_eq_bind, Option.bind_some]
    split
    · obtain ⟨b', hrun, hbase, hsize', harr⟩ := @qsexc_swap es b n (shp + 1) sj hsize (by omega) (by omega)
      rw [place_succ, hrun]
      exact ⟨rfl, hbase, hsize'.trans hsize, harr, rfl, rfl, rfl, rfl⟩
    split
    · split
      · next heq =>
        obtain ⟨b', hrun, hbase, hsize', harr⟩ := @qstexc_rotate es b n si (shp + 1) sj hsize (by omega) (by omega) (by omega)
        rw [place_succ, place_succ, hrun]
        exact ⟨rfl, hbase, hsize'.trans hsize, harr, rfl, rfl, rfl, rfl⟩
      · obtain ⟨b', hrun, hbase, hsize', harr⟩ := @qsexc_swap es b n si sj hsize (by omega) (by omega)
        rw [place_succ, place_pred (by omega), hrun]
        exact ⟨rfl, hbase, hsize'.trans hsize, harr, rfl, rfl, rfl, rfl⟩
    · rw [place_pred (by omega)]
      exact ⟨rfl, rfl, hsize, rfl, rfl, rfl, rfl, rfl⟩
  · rw [if_neg hlt, if_neg hlt]
    split
    · exact ⟨rfl, hsize, rfl, rfl, rfl, rfl, rfl⟩
    · obtain ⟨b', hrun, hbase, hsize', harr⟩ := @qstexc_rotate es b n sj (slp - 1) si hsize (by omega) (by omega) (by omega)
      rw [place_pred (by omega), place_pred (by omega), hrun]
      exact ⟨rfl, hbase, hsize'.trans hsize, harr, rfl, rfl, rfl, rfl⟩

/-- A turn. -/
theorem body_sim (hes : 0 < es) (hb : Bounds lo hi s) (hn : hi ≤ n) (h : Sim a n es r s) :
    SimNext a n es (body cmp p r) (turn cmp p s) := by
  have hloop : SimNext a n es (loop cmp r) (upperTurn cmp s) := loop_sim hes hb hn h
  cases p with
  | upper => exact hloop
  | lower =>
    obtain ⟨b, si, sj, slp, shp, hsize, rfl, rfl, rfl⟩ := h.eq
    obtain ⟨b1, b2, b3, b4, b5⟩ := hb
    dsimp only at *
    rw [body, turn]
    simp only [place_lt_iff hes]
    split
    · next hlt =>
      rw [compare_elements hsize (by omega) (by omega), Option.bind_eq_bind, Option.bind_some]
      split
      · obtain ⟨b', hrun, hbase, hsize', harr⟩ := @qsexc_swap es b n si (slp - 1) hsize (by omega) (by omega)
        rw [place_pred (by omega), hrun]
        exact ⟨rfl, hbase, hsize'.trans hsize, harr, rfl, rfl, rfl, rfl⟩
      split
      · rw [place_succ]
        exact ⟨rfl, rfl, hsize, rfl, rfl, rfl, rfl, rfl⟩
      · exact hloop
    · exact hloop

/-- The loop of `qs1`. -/
theorem forLoop_sim (hes : 0 < es) (hc : IsPreorder cmp) (hn : hi ≤ n) {left : Nat} {s' : State (Fin es → UInt8)}
    (hs : Holds cmp lo hi x p s) (h : Sim a n es r s) (hrun : partition cmp left p s = some s') :
    ∃ r', forLoop cmp left p r = some r' ∧ Sim a n es r' s' := by
  induction left generalizing p r s with
  | zero => cases hrun
  | succ left ih =>
    have hturn := turn_turned hc hs
    have hsim : SimNext a n es (body cmp p r) (turn cmp p s) := body_sim hes hs.1.toBounds hn h
    rw [partition] at hrun
    rw [forLoop]
    generalize turn cmp p s = nx at hturn hsim hrun
    generalize body cmp p r = nr at hsim
    cases nr with
    | none => cases nx <;> exact hsim.elim
    | some nr =>
      cases nr with
      | done r' =>
        cases nx with
        | done s'' =>
          cases hrun
          exact ⟨r', rfl, hsim⟩
        | go p' s'' => exact hsim.elim
      | go p' r' =>
        cases nx with
        | done s'' => exact hsim.elim
        | go p'' s'' =>
          obtain ⟨rfl, hsim⟩ := hsim
          exact ih hturn.1 hsim hrun

end Turns

/-- Two ranges, one behind the other, when each of them is sorted as the elements are. -/
theorem qs1_bind {depth lo hi lo' hi' : Nat} {b : Block} {g : Nat → Fin es → UInt8}
    (ih : ∀ {b : Block} {lo hi : Nat} {g : Nat → Fin es → UInt8}, b.size = n * es → lo ≤ hi → hi ≤ n →
      sort cmp depth (b.elements es) lo hi = some g → ∃ b', qs1 cmp depth (b.base + es * lo) (b.base + es * hi) b = some b' ∧
        b'.base = b.base ∧ b'.size = b.size ∧ b'.elements es = g)
    (hsize : b.size = n * es) (hle : lo ≤ hi) (hn : hi ≤ n) (hle' : lo' ≤ hi') (hn' : hi' ≤ n)
    (hsort : ((sort cmp depth (b.elements es) lo hi).bind fun g₁ => sort cmp depth g₁ lo' hi') = some g) :
    ∃ b', ((qs1 cmp depth (b.base + es * lo) (b.base + es * hi) b).bind fun b₁ =>
        qs1 cmp depth (b.base + es * lo') (b.base + es * hi') b₁) = some b' ∧
      b'.base = b.base ∧ b'.size = b.size ∧ b'.elements es = g := by
  obtain ⟨g₁, hg₁, hg⟩ := Option.bind_eq_some_iff.mp hsort
  obtain ⟨b₁, hq₁, hb₁, hz₁, he₁⟩ := ih hsize hle hn hg₁
  rw [← he₁] at hg
  obtain ⟨b₂, hq₂, hb₂, hz₂, he₂⟩ := ih (hz₁.trans hsize) hle' hn' hg
  rw [hb₁] at hq₂ hb₂
  refine ⟨b₂, ?_, hb₂, hz₂.trans hz₁, he₂⟩
  rw [hq₁, Option.bind_some, hq₂]

/-- `qs1` on a range of the array. -/
theorem qs1_sim (hes : 0 < es) (hc : IsPreorder cmp) {depth : Nat} : ∀ {b : Block} {lo hi : Nat} {g : Nat → Fin es → UInt8},
    b.size = n * es → lo ≤ hi → hi ≤ n → sort cmp depth (b.elements es) lo hi = some g →
    ∃ b', qs1 cmp depth (b.base + es * lo) (b.base + es * hi) b = some b' ∧ b'.base = b.base ∧ b'.size = b.size ∧ b'.elements es = g := by
  induction depth with
  | zero => nofun
  | succ depth ih =>
    intro b lo hi g hsize hle hn hsort
    rw [sort] at hsort
    rw [qs1]
    have hlen : b.base + es * hi - (b.base + es * lo) = es * (hi - lo) := by rw [Nat.add_sub_add_left, Nat.mul_sub]
    have hsmall : es * (hi - lo) ≤ es ↔ hi - lo ≤ 1 := by
      have hmul := @Nat.mul_le_mul_left_iff (hi - lo) 1 es hes
      rwa [Nat.mul_one] at hmul
    have hhalf : es * (hi - lo) / (2 * es) = (hi - lo) / 2 := by rw [Nat.mul_comm 2 es, Nat.mul_div_mul_left _ _ hes]
    simp only [hlen, hsmall, hhalf, Nat.mul_div_cancel_left _ hes]
    by_cases hone : hi - lo ≤ 1
    · rw [if_pos hone] at hsort ⊢
      cases hsort
      exact ⟨b, rfl, rfl, rfl, rfl⟩
    · rw [if_neg hone] at hsort ⊢
      have hholds := start_holds hc (b.elements es) (Nat.lt_of_not_le hone)
      obtain ⟨s, hrun, hs, hfull, hfull', _⟩ := partition_turned hc hholds (start_turnsLeft (b.elements es) (Nat.lt_of_not_le hone))
      have hsim : Sim b.base n es ⟨b, b.base + es * lo, b.base + es * hi - es, b.base + es * lo + es * ((hi - lo) / 2),
          b.base + es * lo + es * ((hi - lo) / 2)⟩ (start (b.elements es) lo hi) := by
        have hmid : b.base + es * lo + es * ((hi - lo) / 2) = b.base + es * (lo + (hi - lo) / 2) := by rw [Nat.mul_add, Nat.add_assoc]
        exact ⟨rfl, hsize, rfl, rfl, place_pred (by omega), hmid, hmid⟩
      obtain ⟨r, hloop, hr⟩ := forLoop_sim hes hc hn hholds hsim hrun
      obtain ⟨b1, b2, b3, b4, b5⟩ := hs.toBounds
      change (partition cmp (hi - lo) .lower (start (b.elements es) lo hi)).bind _ = some g at hsort
      rw [hrun, Option.bind_some] at hsort
      have hside : r.lp - (b.base + es * lo) ≥ b.base + es * hi - r.hp ↔ s.lp - lo ≥ hi - s.hp := by
        rw [hr.lp, hr.hp, Nat.add_sub_add_left, Nat.add_sub_add_left, ← Nat.mul_sub, ← Nat.mul_sub]
        exact Nat.mul_le_mul_left_iff hes
      have hhp : r.hp + es = b.base + es * (s.hp + 1) := by rw [hr.hp, place_succ]
      rw [hloop, Option.bind_some, if_congr hside rfl rfl, hhp, hr.lp]
      rw [← hr.arr] at hsort
      rw [← hr.base, hsize.trans hr.size.symm]
      split at hsort
      · next hcond =>
        rw [if_pos hcond]
        exact qs1_bind ih hr.size (by omega) hn (by omega) (by omega) hsort
      · next hcond =>
        rw [if_neg hcond]
        exact qs1_bind ih hr.size (by omega) (by omega) (by omega) hn hsort

/-- The elements of an array. -/
def elements (es a n : Nat) (mem : Buffer) : List (Fin es → UInt8) := (List.range n).map fun k t => mem (a + es * k + t)

/-- The array is sorted, with accesses to its elements only. -/
theorem qsort_sorts (hes : 1 ≤ es) (hlen : n * es < 2147483648) (hc : IsPreorder cmp) (a : Nat) (mem : Buffer) :
    ∃ mem', qsort cmp a n mem = some mem' ∧ (elements es a n mem').Perm (elements es a n mem) ∧
      (elements es a n mem').Pairwise fun x y => cmp x y ≤ 0 := by
  let b : Block := ⟨a, n * es, mem⟩
  obtain ⟨g, hsort, hr, hsorted⟩ := @sort_sorted _ cmp hc (n + 1) (b.elements es) 0 n (by omega)
  obtain ⟨b', hrun, hbase, hsize, helements⟩ := qs1_sim hes hc (b := b) rfl (Nat.zero_le n) (Nat.le_refl n) hsort
  have hmem : elements es a n b'.mem = (List.range n).map g := by
    rw [← helements]
    have hbase' : b'.base = a := hbase
    subst hbase'
    rfl
  refine ⟨b'.mem, ?_, ?_, ?_⟩
  · have hend : a + n * es % 4294967296 = a + es * n := by rw [Nat.mod_eq_of_lt (by omega), Nat.mul_comm]
    rw [Nat.mul_zero] at hrun
    rw [qsort, hend]
    exact congrArg (Option.map Block.mem) hrun
  · rw [hmem]
    exact hr.perm
  · rw [hmem, List.pairwise_map]
    refine List.pairwise_lt_range.imp_of_mem ?_
    intro k m _ hm hkm
    exact hsorted k m (Nat.zero_le k) hkm.le (List.mem_range.mp hm)

/-- Elements of two bytes, compared by the first. -/
def firstByte (x y : Fin 2 → UInt8) : Int := (x 0).toNat - (y 0).toNat

/-- Five elements at address 100, of which two compare equal. -/
def fiveElements : Buffer := fun p => [5, 1, 2, 2, 9, 3, 2, 4, 1, 5].getD (p - 100) 0

/-- The array of five elements is sorted. -/
theorem qsort_sorts_five : ∃ mem, qsort firstByte 100 5 fiveElements = some mem ∧
    (elements 2 100 5 mem).Perm (elements 2 100 5 fiveElements) ∧ (elements 2 100 5 mem).Pairwise fun x y => firstByte x y ≤ 0 := by
  refine qsort_sorts (by decide) (by decide) ⟨fun x y => ?_, fun x y z => ?_⟩ 100 fiveElements
  · unfold firstByte
    omega
  · unfold firstByte
    omega

end Qsort

end Xinu
