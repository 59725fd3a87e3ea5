import Xinu.Memory.Allocation

/-!
# What `freemem` accepts, and what it undoes

`freemem` is given any address and any size here, not only blocks handed out: the checks that it makes (`Accepts`), what it does to
a block that lies in the heap and apart from the free blocks (`Heap.WellFormed.freemem`), and that it takes back what `getmem` and
`getstk` took (`Heap.WellFormed.undo_getmem`, `Heap.WellFormed.undo_getstk`).
-/

namespace Xinu

open Blocks Heap

/-- The checks of `freemem` for the block of `n` bytes at `a`. -/
def Heap.Accepts (h : Heap) (l : List (Nat × Nat)) (a n : Nat) : Prop :=
  n ≠ 0 ∧ h.minheap ≤ a ∧ a ≤ h.maxheap ∧ (∀ y ∈ l, y.1 < a → y.1 + y.2 ≤ a) ∧
    ∀ y ∈ (l.filter fun y => decide (a ≤ y.1)).head?, (a + roundmb n) % 4294967296 ≤ y.1

namespace FreeList

variable {lo hi a : Nat} {l₁ l₂ : List (Nat × Nat)}

/-- The blocks from the first one on that does not start below `a`. -/
theorem filter_split (h : FreeList lo hi (l₁ ++ l₂)) (h1 : ∀ y ∈ l₁, y.1 < a) (h2 : ∀ y ∈ l₂.head?, a ≤ y.1) :
    (∀ y ∈ l₂, a ≤ y.1) ∧ (l₁ ++ l₂).filter (fun y => decide (a ≤ y.1)) = l₂ := by
  have hall : ∀ y ∈ l₂, a ≤ y.1 := by
    cases l₂ with
    | nil => nofun
    | cons x l₂ =>
      intro y hy
      have hx : a ≤ x.1 := h2 x rfl
      rcases List.mem_cons.mp hy with rfl | hy
      · exact hx
      · have := h.around.2 y hy
        omega
  refine ⟨hall, ?_⟩
  rw [List.filter_append, List.filter_eq_nil_iff.mpr, List.filter_eq_self.mpr, List.nil_append]
  · intro y hy
    exact decide_eq_true (hall y hy)
  · intro y hy
    have := h1 y hy
    simp only [decide_eq_true_eq]
    omega

/-- The last of the blocks is the highest. -/
theorem below_last {p : Nat × Nat} (h : FreeList lo hi (l₁ ++ [p] ++ l₂)) (hp : p.1 + p.2 ≤ a) : ∀ y ∈ l₁ ++ [p], y.1 + y.2 ≤ a := by
  intro y hy
  rcases List.mem_append.mp hy with hy | hy
  · rw [List.append_assoc] at h
    have := h.around.1 y hy
    omega
  · obtain rfl := List.mem_singleton.mp hy
    exact hp

end FreeList

namespace Heap

variable {h : Heap} {n a lo hi : Nat} {l l₁ l₂ : List (Nat × Nat)} {x : Nat × Nat}

theorem WellFormed.meminit (h0 : 0 < lo) (hlt : lo < hi) (hhi : hi < 4294967296) (hlo8 : lo % 8 = 0) (hhi8 : hi % 8 = 0) :
    (Heap.meminit lo hi).WellFormed [(lo, hi - lo)] :=
  have H := Heap.Ledger.init h0 hlt hhi hlo8 hhi8
  ⟨H.free, H.list, H.total⟩

/-- `freemem` makes these checks, and changes nothing when one of them fails. -/
theorem WellFormed.accepts (H : h.WellFormed l) (hhi : h.maxheap < 4294967296) :
    (h.Accepts l a n → (h.freemem a n).1 = true) ∧ (¬h.Accepts l a n → h.freemem a n = (false, h)) := by
  have hlen : l.length < MAXBLKS := by
    have := H.list.length_le
    unfold MAXBLKS
    omega
  obtain ⟨l₁, l₂, e, hlow, hhead, hloop⟩ := freememLoop_cases a [] H.free hlen
  rw [show lastAddr [] = none from rfl, List.nil_append] at hloop
  have hl := H.list
  have hf := H.free
  subst e
  obtain ⟨hall, hfilter⟩ := hl.filter_split hlow hhead
  -- the checks, as `freemem` makes them
  have hprev : ∀ top, (∀ p, lastAddr l₁ = some p → top = (p + (h.mem p).mlength) % 4294967296) →
      ((lastAddr l₁ ≠ none ∧ a < top) ↔ ¬∀ y ∈ l₁ ++ l₂, y.1 < a → y.1 + y.2 ≤ a) := by
    intro top htop
    rcases List.eq_nil_or_concat l₁ with rfl | ⟨l', p, rfl⟩
    · have hno : ∀ y ∈ l₂, y.1 < a → y.1 + y.2 ≤ a := fun y hy hya => absurd (hall y hy) (by omega)
      simp only [lastAddr, List.getLast?_nil, Option.map_none, ne_eq, not_true_eq_false, false_and, false_iff, not_not]
      exact hno
    · rw [List.concat_eq_append] at *
      have hpv : (h.mem p.1).mlength = p.2 := Table.Seg.val_eq hf p (by simp)
      have hlast : lastAddr (l' ++ [p]) = some p.1 := by simp [lastAddr]
      have hup := hl.upper p (by simp)
      have hp := hlow p (by simp)
      have hp2 : top = p.1 + p.2 := by
        rw [htop _ hlast, hpv]
        exact Nat.mod_eq_of_lt (by omega)
      simp only [hlast, hp2, ne_eq, reduceCtorEq, not_false_eq_true, true_and]
      constructor
      · intro hlt hno
        exact Nat.not_lt.mpr (hno p (by simp) hp) hlt
      · intro hno
        by_contra hle
        refine hno fun y hy hya => ?_
        rcases List.mem_append.mp hy with hy | hy
        · exact hl.below_last (Nat.le_of_not_lt hle) y hy
        · have := hall y hy
          omega
  have hnext : (headAddr l₂ ≠ NULL ∧ (a + roundmb n) % 4294967296 > headAddr l₂) ↔
      ¬∀ y ∈ l₂.head?, (a + roundmb n) % 4294967296 ≤ y.1 := by
    cases l₂ with
    | nil => simp [headAddr]
    | cons z l₂ =>
      have hz : z.1 ≠ NULL := Table.Seg.ne_nil hf z (by simp)
      simp [headAddr, hz]
  have hiff : ∀ top, (∀ p, lastAddr l₁ = some p → top = (p + (h.mem p).mlength) % 4294967296) →
      (h.Accepts (l₁ ++ l₂) a n ↔ ¬(n = 0 ∨ a < h.minheap ∨ a > h.maxheap) ∧
        ¬((lastAddr l₁ ≠ none ∧ a < top) ∨ (headAddr l₂ ≠ NULL ∧ (a + roundmb n) % 4294967296 > headAddr l₂))) := by
    intro top htop
    rw [Accepts, hfilter, hprev top htop, hnext]
    constructor
    · rintro ⟨h1, h2, h3, h4, h5⟩
      exact ⟨by omega, by tauto⟩
    · rintro ⟨h1, h2⟩
      exact ⟨by omega, by omega, by omega, by tauto, by tauto⟩
  unfold freemem
  by_cases h1 : n = 0 ∨ a < h.minheap ∨ a > h.maxheap
  · rw [if_pos h1]
    refine ⟨fun hacc => ?_, fun _ => rfl⟩
    obtain ⟨hn, hmin, hmax, _⟩ := hacc
    omega
  · rw [if_neg h1, hloop]
    simp only
    split_ifs with h2
    · refine ⟨fun hacc => ?_, fun _ => rfl⟩
      exact absurd h2 ((hiff _ (fun p hp => by rw [hp])).mp hacc).2
    · exact ⟨fun _ => rfl, fun hacc => absurd ((hiff _ (fun p hp => by rw [hp])).mpr ⟨h1, h2⟩) hacc⟩
    · exact ⟨fun _ => rfl, fun hacc => absurd ((hiff _ (fun p hp => by rw [hp])).mpr ⟨h1, h2⟩) hacc⟩

/-- A list has one split into blocks with a property and blocks without it. -/
theorem split_unique {P : Nat × Nat → Bool} {m₁ m₂ : List (Nat × Nat)} (h : l₁ ++ l₂ = m₁ ++ m₂) (h1 : ∀ y ∈ l₁, P y = true)
    (h2 : ∀ y ∈ l₂, P y = false) (h3 : ∀ y ∈ m₁, P y = true) (h4 : ∀ y ∈ m₂, P y = false) : l₁ = m₁ ∧ l₂ = m₂ := by
  have hfilter : ∀ {k₁ k₂ : List (Nat × Nat)}, (∀ y ∈ k₁, P y = true) → (∀ y ∈ k₂, P y = false) → (k₁ ++ k₂).filter P = k₁ := by
    intro k₁ k₂ hk1 hk2
    rw [List.filter_append, List.filter_eq_self.mpr hk1, List.filter_eq_nil_iff.mpr, List.append_nil]
    intro y hy
    simp [hk2 y hy]
  have heq := congrArg (List.filter P) h
  rw [hfilter h1 h2, hfilter h3 h4] at heq
  subst heq
  exact ⟨rfl, List.append_cancel_left h⟩

/-- `freemem` of a block that lies in the heap between two parts of the free list joins it with its neighbours. -/
theorem WellFormed.freemem (H : h.WellFormed (l₁ ++ l₂)) (h0 : 0 < h.minheap) (hhi : h.maxheap < 4294967296)
    (hn0 : n ≠ 0) (hn : n ≤ 4294967288) (hal : a % 8 = 0) (hlow : h.minheap ≤ a) (hup : a + roundmb n ≤ h.maxheap)
    (h1 : ∀ y ∈ l₁, y.1 + y.2 ≤ a)
    (h2 : ∀ y ∈ l₂, a + roundmb n ≤ y.1) :
    ∃ h', h.freemem a n = (true, h') ∧ h'.WellFormed (join l₁ (a, roundmb n) l₂) ∧
      h'.memlist.mlength = h.memlist.mlength + roundmb n ∧ h'.minheap = h.minheap ∧ h'.maxheap = h.maxheap := by
  obtain ⟨_, _, hr8, hr0, _⟩ := roundmb_spec hn0 hn
  have hdis : ∀ y ∈ l₁ ++ l₂, y.1 + y.2 ≤ a ∨ a + roundmb n ≤ y.1 := by
    intro y hy
    rcases List.mem_append.mp hy with hy | hy
    · exact Or.inl (h1 y hy)
    · exact Or.inr (h2 y hy)
  obtain ⟨m₁, m₂, h', e, hm1, hm2, he, hf, ht, hmin, hmax⟩ := freemem_ok H.free H.list hhi hlow
    (by omega) (by simp only [NULL]; omega) hn0 hr0 (by omega) hdis
  have hsplit := split_unique (P := fun y => decide (y.1 < a)) e
    (fun y hy => by have := h1 y hy; have := H.list.pos y (by simp [hy]); exact decide_eq_true (by omega))
    (fun y hy => by have := h2 y hy; exact decide_eq_false (by omega))
    (fun y hy => by
      have := hm1 y hy
      have := H.list.pos y (by rw [e]; simp [hy])
      exact decide_eq_true (by omega))
    (fun y hy => by have := hm2 y hy; exact decide_eq_false (by omega))
  obtain ⟨rfl, rfl⟩ := hsplit
  have hfl : FreeList h.minheap h.maxheap (join l₁ (a, roundmb n) l₂) := H.list.join h1 h2 hlow hup hr0 ⟨hal, hr8⟩
  have htot := hfl.total_le
  have hmt := H.total
  rw [total_join] at htot
  rw [total_append] at hmt
  have hlen : h'.memlist.mlength = h.memlist.mlength + roundmb n := by
    rw [ht, hmt, Nat.mod_eq_of_lt (by simp only at htot; omega)]
  refine ⟨h', he, ⟨hf, ?_, ?_⟩, hlen, hmin, hmax⟩
  · rw [hmin, hmax]
    exact hfl
  rw [hlen, hmt, total_join]
  simp only
  omega

/-! ## Freeing undoes allocating -/

/-- A block that starts behind the end of the others is joined with none of them. -/
theorem join_apart (h1 : ∀ y ∈ l₁, y.1 + y.2 < x.1) : join l₁ x l₂ = l₁ ++ joinBack x l₂ := by
  rcases List.eq_nil_or_concat l₁ with rfl | ⟨l', p, rfl⟩
  · rfl
  · have hp : p.1 + p.2 < x.1 := h1 p (by simp)
    rw [List.concat_eq_append, join, List.getLast?_concat]
    exact if_neg (Nat.ne_of_lt hp)

theorem joinBack_apart (h2 : ∀ y ∈ l₂, x.1 + x.2 < y.1) : joinBack x l₂ = x :: l₂ := by
  cases l₂ with
  | nil => rfl
  | cons y l₂ => exact if_neg (Nat.ne_of_lt (h2 y List.mem_cons_self))

/-- The front that was cut off a block is joined with the rest. -/
theorem join_cutFront (hl : FreeList lo hi (l₁ ++ x :: l₂)) (hn : n ≤ x.2) :
    join l₁ (x.1, n) (cutFront x n ++ l₂) = l₁ ++ x :: l₂ := by
  have hfront : ∀ y ∈ l₁, y.1 + y.2 < ((x.1, n) : Nat × Nat).1 := hl.around.1
  rw [join_apart hfront]
  unfold cutFront
  split
  · next e =>
    subst e
    rw [List.nil_append, joinBack_apart hl.around.2]
  · rw [List.singleton_append, joinBack, if_pos rfl, Nat.add_sub_cancel' hn]

/-- The end that was cut off a block is joined with the rest. -/
theorem join_cutBack (hl : FreeList lo hi (l₁ ++ x :: l₂)) (hn : n ≤ x.2) :
    join (l₁ ++ cutBack x n) (x.1 + x.2 - n, n) l₂ = l₁ ++ x :: l₂ := by
  have hpos := hl.pos x (by simp)
  unfold cutBack
  split
  · next e =>
    subst e
    rw [List.append_nil, Nat.add_sub_cancel, join_apart hl.around.1, joinBack_apart hl.around.2]
  · have hend : x.1 + (x.2 - n) = x.1 + x.2 - n := by omega
    rw [join, List.getLast?_concat]
    simp only [hend, if_true, List.dropLast_concat, Nat.sub_add_cancel hn]
    rw [joinBack_apart hl.around.2]

/-- `freemem` takes back what `getmem` took. -/
theorem WellFormed.undo_getmem (H : h.WellFormed l) (h0 : 0 < h.minheap) (hhi : h.maxheap < 4294967296)
    (hn : n ≤ 4294967288) {p : Nat} {h' : Heap} (he : h.getmem n = (some p, h')) :
    ∃ h'', h'.freemem p n = (true, h'') ∧ h''.WellFormed l ∧ h''.memlist.mlength = h.memlist.mlength ∧
      h''.minheap = h.minheap ∧ h''.maxheap = h.maxheap := by
  rcases getmem_cases H.free H.list hhi n with ⟨e, _⟩ | ⟨l₁, x, l₂, h₁, hn0, rfl, _, hfit, e, hf, ht, hmin, hmax⟩
  · rw [e] at he
    cases he
  · rw [e] at he
    obtain ⟨hp, rfl⟩ := Prod.mk.inj he
    obtain rfl := Option.some.inj hp
    obtain ⟨_, _, hr8, hr0, _⟩ := roundmb_spec hn0 hn
    have hx := H.list.aligned x (by simp)
    have hlow := H.list.lower x (by simp)
    have hup := H.list.upper x (by simp)
    have htot := H.total
    have hle := H.list.total_le
    rw [total_append, total_cons] at htot hle
    have hcut := total_cutFront hfit
    rw [sub32_of_le (by omega) (by omega)] at ht
    have H₁ : h₁.WellFormed (l₁ ++ (cutFront x (roundmb n) ++ l₂)) := by
      refine ⟨List.append_assoc _ _ _ ▸ hf, ?_, ?_⟩
      · rw [← List.append_assoc, hmin, hmax]
        exact H.list.cutFront hfit hr8
      · rw [ht, total_append, total_append]
        omega
    obtain ⟨h₂, e₂, H₂, ht₂, hmin₂, hmax₂⟩ := H₁.freemem (by omega) (by omega) hn0 hn hx.1 (by omega) (by omega)
      (fun y hy => Nat.le_of_lt (H.list.around.1 y hy)) (fun y hy => by
        rcases List.mem_append.mp hy with hy | hy
        · unfold cutFront at hy
          split at hy
          · cases hy
          · exact Nat.le_of_eq (by rw [List.mem_singleton.mp hy])
        · have := H.list.around.2 y hy
          omega)
    rw [join_cutFront H.list hfit] at H₂
    exact ⟨h₂, e₂, H₂, by omega, by omega, by omega⟩

/-- `freestk` takes back what `getstk` took. -/
theorem WellFormed.undo_getstk (H : h.WellFormed l) (h0 : 0 < h.minheap) (hhi : h.maxheap < 4294967296)
    (hn : n ≤ 4294967288) {p : Nat} {h' : Heap} (he : h.getstk n = (some p, h')) :
    ∃ h'', h'.freestk p n = (true, h'') ∧ h''.WellFormed l ∧ h''.memlist.mlength = h.memlist.mlength ∧
      h''.minheap = h.minheap ∧ h''.maxheap = h.maxheap := by
  rcases getstk_cases H.free H.list hhi n with ⟨e, _⟩ | ⟨l₁, x, l₂, h₁, hn0, rfl, _, hfit, e, hf, ht, hmin, hmax⟩
  · rw [e] at he
    cases he
  · rw [e] at he
    obtain ⟨hp, rfl⟩ := Prod.mk.inj he
    obtain rfl := Option.some.inj hp
    obtain ⟨_, _, hr8, hr0, hr⟩ := roundmb_spec hn0 hn
    have hx := H.list.aligned x (by simp)
    have hlow := H.list.lower x (by simp)
    have hup := H.list.upper x (by simp)
    have htot := H.total
    have hle := H.list.total_le
    rw [total_append, total_cons] at htot hle
    have hcut := total_cutBack hfit
    rw [sub32_of_le (by omega) (by omega)] at ht
    have H₁ : h₁.WellFormed (l₁ ++ cutBack x (roundmb n) ++ l₂) := by
      refine ⟨hf, ?_, ?_⟩
      · rw [hmin, hmax]
        exact H.list.cutBack hfit hr8
      rw [ht, total_append, total_append]
      omega
    have haddr : (sub32 (x.1 + x.2 - 4) (roundmb n) + 4) % 4294967296 = x.1 + x.2 - roundmb n := by
      unfold sub32
      omega
    have hround : roundmb (roundmb n) = roundmb n := by
      unfold roundmb at hr8 hr ⊢
      omega
    obtain ⟨h₂, e₂, H₂, ht₂, hmin₂, hmax₂⟩ := H₁.freemem (n := roundmb n) (a := x.1 + x.2 - roundmb n) (by omega) (by omega)
      (by omega) (by omega) (by omega) (by omega) (by rw [hround]; omega) (fun y hy => by
        rcases List.mem_append.mp hy with hy | hy
        · have := H.list.around.1 y hy
          omega
        · unfold cutBack at hy
          split at hy
          · cases hy
          · rw [List.mem_singleton.mp hy]
            simp only
            omega) (fun y hy => by
        have := H.list.around.2 y hy
        rw [hround]
        omega)
    rw [hround, join_cutBack H.list hfit] at H₂
    rw [hround] at ht₂
    exact ⟨h₂, by rw [freestk, haddr, e₂], H₂, by omega, by omega, by omega⟩

end Heap

end Xinu
