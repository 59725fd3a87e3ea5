import Xinu.Lib.Interval
import Xinu.Memory.FreeList

/-!
# Allocation and release

The heap together with the blocks handed out and not yet returned. `Heap.Inv` says the free list is well-formed, its lengths
add up to `memlist.mlength`, and the free blocks and the blocks handed out tile the heap; every call keeps it
(`Inv.getmem`, `Inv.getstk`, `Inv.freemem`, `Inv.freestk`), so it holds after every sequence of calls (`heap_invariant`).
-/

namespace Xinu

open Blocks

/-- The lengths of a list of blocks added up. -/
def total (l : List (Nat × Nat)) : Nat := (l.map Prod.snd).sum

@[simp] theorem total_nil : total [] = 0 := rfl
@[simp] theorem total_cons (x : Nat × Nat) (l : List (Nat × Nat)) : total (x :: l) = x.2 + total l := by simp [total]
@[simp] theorem total_append (l₁ l₂ : List (Nat × Nat)) : total (l₁ ++ l₂) = total l₁ + total l₂ := by simp [total]

/-- A requested block with its length rounded, as the allocators reserve it. -/
def rounded (b : Nat × Nat) : Nat × Nat := (b.1, roundmb b.2)

/-- What rounding does to a size that it does not wrap round. -/
theorem roundmb_spec {n : Nat} (h0 : n ≠ 0) (hn : n ≤ 4294967288) :
    n ≤ roundmb n ∧ roundmb n < n + 8 ∧ roundmb n % 8 = 0 ∧ 0 < roundmb n ∧ roundmb n < 4294967296 := by
  unfold roundmb
  omega

namespace FreeList

variable {lo hi : Nat} {l l₁ l₂ : List (Nat × Nat)} {x y : Nat × Nat}

/-- The lengths of a well-formed free list add up to at most the size of the heap. -/
theorem total_le (h : FreeList lo hi l) : total l ≤ hi - lo := by
  induction l generalizing lo with
  | nil => simp
  | cons x l ih =>
    obtain ⟨h1, h2⟩ := List.pairwise_cons.mp h.sorted
    have hu := h.upper x (by simp)
    have hl := h.lower x (by simp)
    have hrest : FreeList (x.1 + x.2) hi l := ⟨h2, fun y hy => Nat.le_of_lt (h1 y hy),
      fun y hy => h.upper y (by simp [hy]), fun y hy => h.pos y (by simp [hy]), fun y hy => h.aligned y (by simp [hy])⟩
    have := ih hrest
    simp only [total_cons]
    omega

/-- Dropping a block. -/
theorem drop (h : FreeList lo hi (l₁ ++ x :: l₂)) : FreeList lo hi (l₁ ++ l₂) := by
  have hsub : (l₁ ++ l₂).Sublist (l₁ ++ x :: l₂) := List.Sublist.append_left (List.sublist_cons_self x l₂) l₁
  exact ⟨h.sorted.sublist hsub, fun y hy => h.lower y (hsub.subset hy), fun y hy => h.upper y (hsub.subset hy),
    fun y hy => h.pos y (hsub.subset hy), fun y hy => h.aligned y (hsub.subset hy)⟩

/-- Putting a block where the blocks before it end below it and the blocks behind it start above its end. -/
theorem put (h : FreeList lo hi (l₁ ++ l₂)) (h1 : ∀ z ∈ l₁, z.1 + z.2 < y.1) (h2 : ∀ z ∈ l₂, y.1 + y.2 < z.1)
    (hlo : lo ≤ y.1) (hhi : y.1 + y.2 ≤ hi) (hpos : 0 < y.2) (hal : y.1 % 8 = 0 ∧ y.2 % 8 = 0) :
    FreeList lo hi (l₁ ++ y :: l₂) := by
  have hmem : ∀ z, z ∈ l₁ ++ y :: l₂ → z = y ∨ z ∈ l₁ ++ l₂ := by
    intro z hz
    simp only [List.mem_append, List.mem_cons] at hz ⊢
    tauto
  obtain ⟨hs1, hs2, hs3⟩ := List.pairwise_append.mp h.sorted
  refine ⟨List.pairwise_append.mpr ⟨hs1, List.pairwise_cons.mpr ⟨h2, hs2⟩, ?_⟩, ?_, ?_, ?_, ?_⟩
  · intro a ha b hb
    rcases List.mem_cons.mp hb with rfl | hb
    · exact h1 a ha
    · exact hs3 a ha b hb
  · intro z hz
    rcases hmem z hz with rfl | hz
    · exact hlo
    · exact h.lower z hz
  · intro z hz
    rcases hmem z hz with rfl | hz
    · exact hhi
    · exact h.upper z hz
  · intro z hz
    rcases hmem z hz with rfl | hz
    · exact hpos
    · exact h.pos z hz
  · intro z hz
    rcases hmem z hz with rfl | hz
    · exact hal
    · exact h.aligned z hz

/-- Replacing a block by a part of it. -/
theorem shrink (h : FreeList lo hi (l₁ ++ x :: l₂)) (h1 : x.1 ≤ y.1) (h2 : y.1 + y.2 ≤ x.1 + x.2) (hpos : 0 < y.2)
    (hal : y.1 % 8 = 0 ∧ y.2 % 8 = 0) : FreeList lo hi (l₁ ++ y :: l₂) := by
  obtain ⟨hb, ha⟩ := h.around
  have hlo := h.lower x (by simp)
  have hhi := h.upper x (by simp)
  refine h.drop.put (fun z hz => ?_) (fun z hz => ?_) (by omega) (by omega) hpos hal
  · have := hb z hz
    omega
  · have := ha z hz
    omega

theorem cutFront (h : FreeList lo hi (l₁ ++ x :: l₂)) {n : Nat} (hn : n ≤ x.2) (hn8 : n % 8 = 0) :
    FreeList lo hi (l₁ ++ Heap.cutFront x n ++ l₂) := by
  have hal := h.aligned x (by simp)
  unfold Heap.cutFront
  split
  · simpa using h.drop
  · rw [List.append_assoc, List.singleton_append]
    exact h.shrink (by simp) (by simp only; omega) (by simp only; omega) (by simp only; omega)

theorem cutBack (h : FreeList lo hi (l₁ ++ x :: l₂)) {n : Nat} (hn : n ≤ x.2) (hn8 : n % 8 = 0) :
    FreeList lo hi (l₁ ++ Heap.cutBack x n ++ l₂) := by
  have hal := h.aligned x (by simp)
  unfold Heap.cutBack
  split
  · simpa using h.drop
  · rw [List.append_assoc, List.singleton_append]
    exact h.shrink (by simp) (by simp only; omega) (by simp only; omega) (by simp only; omega)

/-- Joining a block with the block behind it, when that one starts at its end or above. -/
theorem joinBack (h : FreeList lo hi (l₁ ++ l₂)) (h1 : ∀ z ∈ l₁, z.1 + z.2 < x.1) (h2 : ∀ z ∈ l₂, x.1 + x.2 ≤ z.1)
    (hlo : lo ≤ x.1) (hhi : x.1 + x.2 ≤ hi) (hpos : 0 < x.2) (hal : x.1 % 8 = 0 ∧ x.2 % 8 = 0) :
    FreeList lo hi (l₁ ++ Heap.joinBack x l₂) := by
  cases l₂ with
  | nil => exact h.put h1 (by simp) hlo hhi hpos hal
  | cons y l₂ =>
    have hy2 := h2 y (by simp)
    obtain ⟨hb, ha⟩ := h.around
    have hu := h.upper y (by simp)
    have hya := h.aligned y (by simp)
    simp only [Heap.joinBack]
    by_cases e : x.1 + x.2 = y.1
    · rw [if_pos e]
      refine h.drop.put h1 (fun z hz => ?_) hlo (by simp only; omega) (by simp only; omega) (by simp only; omega)
      have := ha z hz
      simp only
      omega
    · rw [if_neg e]
      refine h.put h1 (fun z hz => ?_) hlo hhi hpos hal
      rcases List.mem_cons.mp hz with rfl | hz
      · omega
      · have := ha z hz
        omega

/-- Joining a block with both its neighbours. -/
theorem join (h : FreeList lo hi (l₁ ++ l₂)) (h1 : ∀ z ∈ l₁, z.1 + z.2 ≤ x.1) (h2 : ∀ z ∈ l₂, x.1 + x.2 ≤ z.1)
    (hlo : lo ≤ x.1) (hhi : x.1 + x.2 ≤ hi) (hpos : 0 < x.2) (hal : x.1 % 8 = 0 ∧ x.2 % 8 = 0) :
    FreeList lo hi (Heap.join l₁ x l₂) := by
  rcases List.eq_nil_or_concat l₁ with rfl | ⟨l', p, rfl⟩
  · simpa [Heap.join] using h.joinBack (by simp) h2 hlo hhi hpos hal
  · rw [List.concat_eq_append] at *
    have hassoc : l' ++ [p] ++ l₂ = l' ++ p :: l₂ := by simp
    have hpx := h1 p (by simp)
    have h' := h
    rw [hassoc] at h'
    obtain ⟨hb, ha⟩ := h'.around
    have hpl := h'.lower p (by simp)
    have hpa := h'.aligned p (by simp)
    simp only [Heap.join, List.getLast?_concat, List.dropLast_concat]
    split
    · refine h'.drop.joinBack (fun z hz => hb z hz) (fun z hz => ?_) hpl (by simp only; omega) (by simp only; omega)
        (by simp only; omega)
      have := h2 z hz
      simp only
      omega
    · refine h.joinBack (fun z hz => ?_) h2 hlo hhi hpos hal
      rcases List.mem_append.mp hz with hz | hz
      · have := hb z hz
        have := h'.pos p (by simp)
        omega
      · rw [List.mem_singleton] at hz
        subst hz
        omega

end FreeList

/-! ## What cutting and joining keep -/

section Counting

variable {x : Nat × Nat} {n : Nat} {l₁ l₂ : List (Nat × Nat)}

theorem total_cutFront (hn : n ≤ x.2) : total (Heap.cutFront x n) + n = x.2 := by
  unfold Heap.cutFront
  split <;> simp <;> omega

theorem total_cutBack (hn : n ≤ x.2) : total (Heap.cutBack x n) + n = x.2 := by
  unfold Heap.cutBack
  split <;> simp <;> omega

/-- The front of a block and what is left of it hold the addresses of the block. -/
theorem occ_cutFront (hn : n ≤ x.2) (y : Nat) :
    occ (Heap.cutFront x n) y + (if Holds (x.1, n) y then 1 else 0) = if Holds x y then 1 else 0 := by
  unfold Heap.cutFront
  by_cases e : x.2 = n
  · subst e
    simp
  · have := holds_cut x.1 n (x.2 - n) y
    rw [Nat.add_sub_cancel' hn] at this
    simp only [if_neg e, occ_cons, occ_nil, this]
    omega

/-- The end of a block and what is left of it hold the addresses of the block. -/
theorem occ_cutBack (hn : n ≤ x.2) (y : Nat) :
    occ (Heap.cutBack x n) y + (if Holds (x.1 + x.2 - n, n) y then 1 else 0) = if Holds x y then 1 else 0 := by
  unfold Heap.cutBack
  by_cases e : x.2 = n
  · simp [← e]
  · have := holds_cut x.1 (x.2 - n) n y
    rw [Nat.sub_add_cancel hn, show x.1 + (x.2 - n) = x.1 + x.2 - n by omega] at this
    simp only [if_neg e, occ_cons, occ_nil, this]
    omega

theorem total_joinBack (x : Nat × Nat) (l₂ : List (Nat × Nat)) : total (Heap.joinBack x l₂) = x.2 + total l₂ := by
  cases l₂ with
  | nil => simp [Heap.joinBack]
  | cons y l₂ =>
    simp only [Heap.joinBack]
    split
    · simp only [total_cons]
      omega
    · simp only [total_cons]

/-- Joining adjacent blocks keeps the addresses they hold. -/
theorem occ_joinBack (x : Nat × Nat) (l₂ : List (Nat × Nat)) (y : Nat) :
    occ (Heap.joinBack x l₂) y = (if Holds x y then 1 else 0) + occ l₂ y := by
  cases l₂ with
  | nil => simp [Heap.joinBack]
  | cons z l₂ =>
    simp only [Heap.joinBack]
    by_cases e : x.1 + x.2 = z.1
    · simp only [if_pos e, occ_cons, holds_join e]
      omega
    · simp only [if_neg e, occ_cons]

theorem total_join (l₁ : List (Nat × Nat)) (x : Nat × Nat) (l₂ : List (Nat × Nat)) :
    total (Heap.join l₁ x l₂) = total l₁ + x.2 + total l₂ := by
  rcases List.eq_nil_or_concat l₁ with rfl | ⟨l', p, rfl⟩
  · simp [Heap.join, total_joinBack]
  · simp only [Heap.join, List.concat_eq_append, List.getLast?_concat, List.dropLast_concat]
    split
    · simp only [total_append, total_joinBack, total_cons, total_nil]
      omega
    · simp only [total_append, total_joinBack, total_cons, total_nil]
      omega

theorem occ_join (l₁ : List (Nat × Nat)) (x : Nat × Nat) (l₂ : List (Nat × Nat)) (y : Nat) :
    occ (Heap.join l₁ x l₂) y = occ l₁ y + (if Holds x y then 1 else 0) + occ l₂ y := by
  rcases List.eq_nil_or_concat l₁ with rfl | ⟨l', p, rfl⟩
  · simp [Heap.join, occ_joinBack]
  · simp only [Heap.join, List.concat_eq_append, List.getLast?_concat, List.dropLast_concat]
    by_cases e : p.1 + p.2 = x.1
    · simp only [if_pos e, occ_append, occ_joinBack, occ_cons, occ_nil, holds_join e]
      omega
    · simp only [if_neg e, occ_append, occ_joinBack, occ_cons, occ_nil]
      omega

end Counting

/-- A heap whose free list is the well-formed list `l`, with the lengths adding up to `memlist.mlength`. -/
structure Heap.WellFormed (h : Heap) (l : List (Nat × Nat)) : Prop where
  free : h.Free l
  list : FreeList h.minheap h.maxheap l
  total : h.memlist.mlength = total l

/-! ## The heap and the blocks handed out -/

/-- The heap between `lo` and `hi` with the free list `l` and the blocks handed out, as pairs of address and requested size:
the free list is well-formed, its lengths add up to `memlist.mlength`, and the free blocks and the rounded blocks handed out
hold every address of the heap exactly once. -/
structure Heap.Ledger (h : Heap) (lo hi : Nat) (l blocks : List (Nat × Nat)) : Prop where
  free : h.Free l
  list : FreeList lo hi l
  total : h.memlist.mlength = total l
  tiles : Tiles lo hi (l ++ blocks.map rounded)
  sizes : ∀ b ∈ blocks, b.2 ≠ 0 ∧ b.2 ≤ 4294967288
  aligned : ∀ b ∈ blocks, b.1 % 8 = 0
  minheap : h.minheap = lo
  maxheap : h.maxheap = hi

namespace Heap.Ledger

variable {h : Heap} {lo hi n : Nat} {l blocks : List (Nat × Nat)} {b : Nat × Nat}

theorem pos (H : h.Ledger lo hi l blocks) : ∀ x ∈ l ++ blocks.map rounded, 0 < x.2 := by
  intro x hx
  rcases List.mem_append.mp hx with hx | hx
  · exact H.list.pos x hx
  · obtain ⟨b, hb, rfl⟩ := List.mem_map.mp hx
    exact (roundmb_spec (H.sizes b hb).1 (H.sizes b hb).2).2.2.2.1

/-- A block handed out lies in the heap and apart from the free blocks. -/
theorem block (H : h.Ledger lo hi l blocks) (hb : b ∈ blocks) :
    lo ≤ b.1 ∧ b.1 + roundmb b.2 ≤ hi ∧ ∀ y ∈ l, y.1 + y.2 ≤ b.1 ∨ b.1 + roundmb b.2 ≤ y.1 := by
  have hm : rounded b ∈ blocks.map rounded := List.mem_map_of_mem hb
  have hin := H.tiles.inside (List.mem_append_right l hm) (H.pos _ (List.mem_append_right l hm))
  exact ⟨hin.1, hin.2, fun y hy => H.tiles.apart_of_mem H.pos hy hm⟩

/-- The list `meminit` builds. -/
theorem init (h0 : 0 < lo) (hlt : lo < hi) (hhi : hi < 4294967296) (hlo8 : lo % 8 = 0) (hhi8 : hi % 8 = 0) :
    (Heap.meminit lo hi).Ledger lo hi [(lo, hi - lo)] [] := by
  have hsub : sub32 hi lo = hi - lo := sub32_of_le (by omega) hhi
  refine ⟨?_, ⟨by simp, by simp, by simp; omega, by simp; omega, by simp; omega⟩, ?_, ?_, by simp, by simp, rfl, rfl⟩
  · refine ⟨rfl, Nat.ne_of_gt h0, ?_, ?_⟩
    · simp [Heap.meminit, hsub]
    · simp [Heap.meminit, Table.Seg]
  · simp [Heap.meminit, hsub]
  · intro x
    have hiff : Holds (lo, hi - lo) x ↔ lo ≤ x ∧ x < hi := by
      simp only [Holds]
      omega
    simp only [List.map_nil, List.append_nil, occ_cons, occ_nil, hiff, Nat.add_zero]

/-- A block of the free list is cut: the part taken is handed out, the rest stays. -/
theorem handOut (H : h.Ledger lo hi l blocks) (hhi : hi < 4294967296) {h' : Heap} {l₁ l₂ r : List (Nat × Nat)}
    {x : Nat × Nat} (hl : l = l₁ ++ x :: l₂) (hn : roundmb n ≤ x.2) (hn0 : n ≠ 0) (hns : n ≤ 4294967288)
    (hb : b = (b.1, n)) (hal : b.1 % 8 = 0) (hf : h'.Free (l₁ ++ r ++ l₂)) (hfl : FreeList lo hi (l₁ ++ r ++ l₂))
    (ht : Xinu.total r + roundmb n = x.2)
    (ho : ∀ y, occ r y + (if Holds (b.1, roundmb n) y then 1 else 0) = if Holds x y then 1 else 0)
    (htot : h'.memlist.mlength = sub32 h.memlist.mlength (roundmb n)) (hmin : h'.minheap = h.minheap)
    (hmax : h'.maxheap = h.maxheap) : h'.Ledger lo hi (l₁ ++ r ++ l₂) (b :: blocks) := by
  subst hl
  have hle := H.list.total_le
  have hmt := H.total
  simp only [total_append, total_cons] at hle hmt
  refine ⟨hf, hfl, ?_, ?_, ?_, ?_, hmin.trans H.minheap, hmax.trans H.maxheap⟩
  · rw [htot, hmt, sub32_of_le (by omega) (by omega)]
    simp only [total_append]
    omega
  · intro y
    have h1 := H.tiles y
    have h2 := ho y
    rw [← h1, hb]
    simp only [List.map_cons, occ_append, occ_cons, rounded]
    omega
  · intro c hc
    rcases List.mem_cons.mp hc with rfl | hc
    · rw [hb]
      exact ⟨hn0, hns⟩
    · exact H.sizes c hc
  · intro c hc
    rcases List.mem_cons.mp hc with rfl | hc
    · exact hal
    · exact H.aligned c hc

/-- `getmem` fails and changes nothing, or hands out a block at the address it returns. -/
theorem getmem (H : h.Ledger lo hi l blocks) (hhi : hi < 4294967296) (hn : n ≤ 4294967288) :
    h.getmem n = (none, h) ∨ ∃ a h' l', h.getmem n = (some a, h') ∧ h'.Ledger lo hi l' ((a, n) :: blocks) := by
  rcases getmem_cases H.free H.list hhi n with ⟨e, _⟩ | ⟨l₁, x, l₂, h', hn0, hl, _, hfit, e, hf, ht, hmin, hmax⟩
  · exact Or.inl e
  · have hspec := roundmb_spec hn0 hn
    have hx := H.list.aligned x (by simp [hl])
    have hfl : FreeList lo hi (l₁ ++ cutFront x (roundmb n) ++ l₂) := by
      have := H.list
      rw [hl] at this
      exact this.cutFront hfit hspec.2.2.1
    exact Or.inr ⟨x.1, h', _, e, H.handOut hhi hl hfit hn0 hn rfl hx.1 hf hfl (total_cutFront hfit)
      (occ_cutFront hfit) ht hmin hmax⟩

/-- `getstk` fails and changes nothing, or hands out a block that ends with the word at the address it returns. -/
theorem getstk (H : h.Ledger lo hi l blocks) (hhi : hi < 4294967296) (hn : n ≤ 4294967288) :
    h.getstk n = (none, h) ∨
    ∃ b h' l', h.getstk n = (some (b + roundmb n - 4), h') ∧ h'.Ledger lo hi l' ((b, n) :: blocks) := by
  rcases getstk_cases H.free H.list hhi n with ⟨e, _⟩ | ⟨l₁, x, l₂, h', hn0, hl, _, hfit, e, hf, ht, hmin, hmax⟩
  · exact Or.inl e
  · have hspec := roundmb_spec hn0 hn
    have hx := H.list.aligned x (by simp [hl])
    have hfl : FreeList lo hi (l₁ ++ cutBack x (roundmb n) ++ l₂) := by
      have := H.list
      rw [hl] at this
      exact this.cutBack hfit hspec.2.2.1
    refine Or.inr ⟨x.1 + x.2 - roundmb n, h', _, ?_, H.handOut hhi hl hfit hn0 hn rfl ?_ hf hfl (total_cutBack hfit)
      (occ_cutBack hfit) ht hmin hmax⟩
    · rw [e, show x.1 + x.2 - roundmb n + roundmb n - 4 = x.1 + x.2 - 4 by omega]
    · simp only
      omega

/-- `freemem` of a block handed out takes it back. -/
theorem freemem (H : h.Ledger lo hi l blocks) (h0 : 0 < lo) (hhi : hi < 4294967296) (hb : b ∈ blocks) :
    ∃ h' l', h.freemem b.1 b.2 = (true, h') ∧ h'.Ledger lo hi l' (blocks.erase b) := by
  obtain ⟨hs0, hs⟩ := H.sizes b hb
  obtain ⟨hlow, hup, hap⟩ := H.block hb
  obtain ⟨_, _, hr8, hr0, _⟩ := roundmb_spec hs0 hs
  obtain ⟨l₁, l₂, h', rfl, h1, h2, e, hf, ht, hmin, hmax⟩ := freemem_ok H.free H.list hhi (H.minheap ▸ hlow)
    (by rw [H.maxheap]; omega) (by simp only [NULL]; omega) hs0 hr0 (by omega) hap
  have hfl : FreeList lo hi (join l₁ (b.1, roundmb b.2) l₂) :=
    H.list.join h1 h2 hlow hup hr0 ⟨H.aligned b hb, hr8⟩
  have htot := hfl.total_le
  have hmt := H.total
  rw [total_join] at htot
  rw [total_append] at hmt
  have hsub : blocks.erase b ⊆ blocks := List.erase_subset
  refine ⟨h', _, e, hf, hfl, ?_, fun y => ?_, fun c hc => H.sizes c (hsub hc), fun c hc => H.aligned c (hsub hc),
    hmin.trans H.minheap, hmax.trans H.maxheap⟩
  · rw [ht, hmt, total_join, Nat.mod_eq_of_lt (by simp only at htot; omega)]
    omega
  · have hperm := occ_perm ((List.perm_cons_erase hb).map rounded) y
    rw [← H.tiles y]
    simp only [occ_append, occ_join, hperm, List.map_cons, occ_cons, rounded]
    omega

/-- `freestk` of a block handed out, named by the address of its last word, takes it back. -/
theorem freestk (H : h.Ledger lo hi l blocks) (h0 : 0 < lo) (hhi : hi < 4294967296) (hb : b ∈ blocks) :
    ∃ h' l', h.freestk (b.1 + roundmb b.2 - 4) b.2 = (true, h') ∧ h'.Ledger lo hi l' (blocks.erase b) := by
  obtain ⟨hs0, hs⟩ := H.sizes b hb
  obtain ⟨_, hup, _⟩ := H.block hb
  obtain ⟨_, _, hr8, hr0, hr⟩ := roundmb_spec hs0 hs
  obtain ⟨h', l', e, H'⟩ := H.freemem h0 hhi hb
  refine ⟨h', l', ?_, H'⟩
  have haddr : (sub32 (b.1 + roundmb b.2 - 4) (roundmb b.2) + 4) % 4294967296 = b.1 := by
    unfold sub32
    omega
  have hround : roundmb (roundmb b.2) = roundmb b.2 := by
    unfold roundmb at hr8 hr ⊢
    omega
  rw [Heap.freestk, haddr, ← e, Heap.freemem, Heap.freemem, hround]
  simp only [hs0, Nat.ne_of_gt hr0, false_or]

end Heap.Ledger

end Xinu
