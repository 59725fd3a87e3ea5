import Xinu.Memory.Allocation

/-!
# Allocation for every size

`getmem` and `getstk` on any well-formed free list and for any 32-bit size: exactly for the sizes up to `2^32 - 8`, or when the
free list is empty, they either fail and change nothing or cut a block that is large enough out of one free block. For the
seven sizes above, `roundmb` wraps round to zero and the block returned has no bytes.
-/

namespace Xinu

open Blocks

/-- What an allocation of `n` bytes has to do: to fail and leave the free list and the total as they are, or to return the
lowest address of a block of `roundmb n` bytes, not fewer than `n`, that lay inside one free block, is disjoint from every
block of the new free list, and is what was subtracted from the total. -/
def Heap.Served (h : Heap) (l : List (Nat × Nat)) (n : Nat) : Option Nat × Heap → Prop
  | (none, h') => h'.Free l ∧ h'.memlist.mlength = h.memlist.mlength
  | (some a, h') =>
    n ≤ roundmb n ∧ (∃ x ∈ l, x.1 ≤ a ∧ a + roundmb n ≤ x.1 + x.2) ∧
      h'.memlist.mlength + roundmb n = h.memlist.mlength ∧
      ∃ l', h'.WellFormed l' ∧ ∀ y ∈ l', Apart (a, roundmb n) y

/-- The result of `getstk` by its lowest address: `getstk` returns the address of the last word of the block. -/
def Heap.lowest (n : Nat) (r : Option Nat × Heap) : Option Nat × Heap := (r.1.map (· + 4 - roundmb n), r.2)

namespace Heap.WellFormed

variable {h : Heap} {l : List (Nat × Nat)} {n : Nat}

/-- A block cut out of one of the free blocks, at whichever end, leaves a well-formed list that it is apart from. -/
theorem cut (H : h.WellFormed l) (hmax : h.maxheap < 4294967296) (hn : n ≠ 0) (hns : n ≤ 4294967288) {h' : Heap}
    {l₁ l₂ r : List (Nat × Nat)} {x : Nat × Nat} {a : Nat} (hl : l = l₁ ++ x :: l₂) (ha : x.1 ≤ a)
    (hax : a + roundmb n ≤ x.1 + x.2) (hf : h'.Free (l₁ ++ r ++ l₂)) (hfl : FreeList h.minheap h.maxheap (l₁ ++ r ++ l₂))
    (hr : ∀ y ∈ r, Apart (a, roundmb n) y) (ht : Xinu.total r + roundmb n = x.2)
    (htot : h'.memlist.mlength = sub32 h.memlist.mlength (roundmb n)) (hmin : h'.minheap = h.minheap)
    (hmaxe : h'.maxheap = h.maxheap) : h.Served l n (some a, h') := by
  have hspec := roundmb_spec hn hns
  have hle := H.list.total_le
  have hmt := H.total
  have hlist := H.list
  rw [hl] at hlist
  obtain ⟨hbelow, habove⟩ := hlist.around
  rw [hl, total_append, total_cons] at hmt hle
  have hsub : h'.memlist.mlength = h.memlist.mlength - roundmb n := by
    rw [htot, sub32_of_le (by omega) (by omega)]
  refine ⟨hspec.1, ⟨x, by simp [hl], ha, hax⟩, by omega, l₁ ++ r ++ l₂, ⟨hf, ?_, ?_⟩, ?_⟩
  · rw [hmin, hmaxe]
    exact hfl
  · rw [hsub]
    simp only [total_append]
    omega
  · intro y hy
    simp only [List.mem_append] at hy
    rcases hy with (hy | hy) | hy
    · have := hbelow y hy
      exact Or.inr (by simp only; omega)
    · exact hr y hy
    · have := habove y hy
      exact Or.inl (by simp only; omega)

/-- `getmem` serves every size that does not wrap. -/
theorem getmem (H : h.WellFormed l) (hmax : h.maxheap < 4294967296) (hns : n ≤ 4294967288) :
    h.Served l n (h.getmem n) := by
  rcases getmem_cases H.free H.list hmax n with ⟨e, _⟩ | ⟨l₁, x, l₂, h', hn, hl, _, hfit, e, hf, ht, hmin, hmaxe⟩
  · rw [e]
    exact ⟨H.free, rfl⟩
  · have hspec := roundmb_spec hn hns
    have hfl : FreeList h.minheap h.maxheap (l₁ ++ cutFront x (roundmb n) ++ l₂) := by
      have := H.list
      rw [hl] at this
      exact this.cutFront hfit hspec.2.2.1
    rw [e]
    refine H.cut hmax hn hns hl (Nat.le_refl x.1) (by omega) hf hfl ?_ (total_cutFront hfit) ht hmin hmaxe
    intro y hy
    unfold cutFront at hy
    split at hy
    · cases hy
    · obtain rfl := List.mem_singleton.mp hy
      exact Or.inl (Nat.le_refl _)

/-- `getstk` serves every size that does not wrap. -/
theorem getstk (H : h.WellFormed l) (hmax : h.maxheap < 4294967296) (hns : n ≤ 4294967288) :
    h.Served l n (lowest n (h.getstk n)) := by
  rcases getstk_cases H.free H.list hmax n with ⟨e, _⟩ | ⟨l₁, x, l₂, h', hn, hl, _, hfit, e, hf, ht, hmin, hmaxe⟩
  · rw [e]
    exact ⟨H.free, rfl⟩
  · have hspec := roundmb_spec hn hns
    have hfl : FreeList h.minheap h.maxheap (l₁ ++ cutBack x (roundmb n) ++ l₂) := by
      have := H.list
      rw [hl] at this
      exact this.cutBack hfit hspec.2.2.1
    have hlow : x.1 + x.2 - 4 + 4 - roundmb n = x.1 + x.2 - roundmb n := by omega
    rw [e, lowest, Option.map_some, hlow]
    refine H.cut hmax hn hns hl (by omega) (by omega) hf hfl ?_ (total_cutBack hfit) ht hmin hmaxe
    intro y hy
    unfold cutBack at hy
    split at hy
    · cases hy
    · obtain rfl := List.mem_singleton.mp hy
      exact Or.inr (by simp only; omega)

/-- A size above `2^32 - 8` is rounded to zero. -/
theorem roundmb_wraps (h1 : 4294967288 < n) (h2 : n < 4294967296) : roundmb n = 0 := by
  unfold roundmb
  omega

/-- With a free block in the list, `getmem` answers a size that wraps with a block of no bytes. -/
theorem getmem_wraps (H : h.WellFormed l) (hmax : h.maxheap < 4294967296) (h1 : 4294967288 < n) (h2 : n < 4294967296)
    (hl : l ≠ []) : ¬h.Served l n (h.getmem n) := by
  have hr := roundmb_wraps h1 h2
  rcases getmem_cases H.free H.list hmax n with ⟨_, hn⟩ | ⟨_, x, _, h', _, _, _, _, e, _⟩
  · obtain ⟨x, hx⟩ := List.exists_mem_of_ne_nil l hl
    rcases hn with hn | hn
    · omega
    · have := hn x hx
      omega
  · rw [e]
    intro hs
    have := hs.1
    omega

end Heap.WellFormed

/-- On every well-formed free list and for every 32-bit size, `getmem` and `getstk` both do what an allocation has to do exactly
when the size is at most `2^32 - 8` or there is no free block. -/
theorem allocation_sizes {h : Heap} {l : List (Nat × Nat)} {n : Nat} (H : h.WellFormed l) (hmax : h.maxheap < 2 ^ 32)
    (hn : n < 2 ^ 32) :
    (h.Served l n (h.getmem n) ∧ h.Served l n (Heap.lowest n (h.getstk n))) ↔ n ≤ 4294967288 ∨ l = [] := by
  have h32 : h.maxheap < 4294967296 := hmax
  constructor
  · intro hs
    by_contra hc
    simp only [not_or, Nat.not_le] at hc
    exact H.getmem_wraps h32 hc.1 hn hc.2 hs.1
  · rintro (hns | rfl)
    · exact ⟨H.getmem h32 hns, H.getstk h32 hns⟩
    · constructor
      · rcases Heap.getmem_cases H.free H.list h32 n with ⟨e, _⟩ | ⟨l₁, x, l₂, _, _, hl, _⟩
        · rw [e]
          exact ⟨H.free, rfl⟩
        · simp at hl
      · rcases Heap.getstk_cases H.free H.list h32 n with ⟨e, _⟩ | ⟨l₁, x, l₂, _, _, hl, _⟩
        · rw [e]
          exact ⟨H.free, rfl⟩
        · simp at hl

/-- The list `meminit` builds is well formed. -/
theorem wellFormed_meminit : (Heap.meminit 64 4096).WellFormed [(64, 4032)] :=
  have L := @Heap.Ledger.init 64 4096 (by decide) (by decide) (by decide) (by decide) (by decide)
  ⟨L.free, L.list, L.total⟩

/-- Ten bytes from the list of a small heap. -/
theorem allocation_sizes_ten :
    (Heap.meminit 64 4096).Served [(64, 4032)] 10 ((Heap.meminit 64 4096).getmem 10) ∧
      (Heap.meminit 64 4096).Served [(64, 4032)] 10 (Heap.lowest 10 ((Heap.meminit 64 4096).getstk 10)) :=
  (allocation_sizes wellFormed_meminit (by decide) (by decide)).mpr (Or.inl (by decide))

/-- Asked for `2^32 - 1` bytes, both hand out a block of no bytes from a heap of 4032. -/
theorem allocation_sizes_wraps :
    ((Heap.meminit 64 4096).getmem 4294967295).1 = some 64 ∧ ((Heap.meminit 64 4096).getstk 4294967295).1 = some 4092 ∧
    ¬(Heap.meminit 64 4096).Served [(64, 4032)] 4294967295 ((Heap.meminit 64 4096).getmem 4294967295) := by
  refine ⟨by decide, by decide, ?_⟩
  exact wellFormed_meminit.getmem_wraps (by decide) (by decide) (by decide) (by decide)

end Xinu
