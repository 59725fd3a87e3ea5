import Xinu.Memory.Release

/-!
# Any argument of `freemem`, and calls that are undone

`freemem` for any address and size, and that it undoes `getmem` and `getstk`.
-/

namespace Xinu

open Blocks

/-! ## `freemem` -/

/-- A size rounded up to a multiple of eight. -/
def round8 (n : Nat) : Nat := (n + 7) / 8 * 8

/-- What a `freemem` that validates its argument does: it fails and changes nothing, or the block lay in the heap and apart from
the free blocks, and its bytes become free. -/
def Heap.Validated (h : Heap) (l : List (Nat × Nat)) (a n : Nat) : Prop :=
  h.freemem a n = (false, h) ∨
  ∃ h' l', h.freemem a n = (true, h') ∧
    (h.minheap ≤ a ∧ a + round8 n ≤ h.maxheap ∧ ∀ y ∈ l, y.1 + y.2 ≤ a ∨ a + round8 n ≤ y.1) ∧
    h'.WellFormed l' ∧ h'.minheap = h.minheap ∧ h'.maxheap = h.maxheap ∧
    (∀ x, (∃ b ∈ l', Holds b x) ↔ (∃ b ∈ l, Holds b x) ∨ a ≤ x ∧ x < a + round8 n) ∧
    h'.memlist.mlength = h.memlist.mlength + round8 n

/-- `roundmb` of a size that does not wrap round. -/
theorem roundmb_eq_round8 {n : Nat} (hn : n ≤ 4294967288) : roundmb n = round8 n := by
  unfold roundmb round8
  omega

/-- A block that passes the checks and does not reach behind the heap is apart from the free blocks. -/
theorem Heap.Accepts.parts {h : Heap} {l : List (Nat × Nat)} {a n : Nat} (hacc : h.Accepts l a n) (hl : FreeList h.minheap h.maxheap l)
    (hmax : h.maxheap < 4294967296) (hup : a + roundmb n ≤ h.maxheap) :
    ∃ l₁ l₂, l = l₁ ++ l₂ ∧ (∀ y ∈ l₁, y.1 + y.2 ≤ a) ∧ ∀ y ∈ l₂, a + roundmb n ≤ y.1 := by
  obtain ⟨_, _, _, hbelow, hnext⟩ := hacc
  induction l with
  | nil => exact ⟨[], [], rfl, nofun, nofun⟩
  | cons x l ih =>
    obtain ⟨hx, hs⟩ := List.pairwise_cons.mp hl.sorted
    by_cases hxa : x.1 < a
    · have hl' : FreeList h.minheap h.maxheap l :=
        ⟨hs, fun y hy => hl.lower y (List.mem_cons_of_mem x hy), fun y hy => hl.upper y (List.mem_cons_of_mem x hy),
          fun y hy => hl.pos y (List.mem_cons_of_mem x hy), fun y hy => hl.aligned y (List.mem_cons_of_mem x hy)⟩
      rw [List.filter_cons_of_neg (by simpa using hxa)] at hnext
      obtain ⟨l₁, l₂, rfl, h1, h2⟩ := ih hl' (fun y hy => hbelow y (List.mem_cons_of_mem x hy)) hnext
      refine ⟨x :: l₁, l₂, rfl, fun y hy => ?_, h2⟩
      rcases List.mem_cons.mp hy with rfl | hy
      · exact hbelow y List.mem_cons_self hxa
      · exact h1 y hy
    · rw [List.filter_cons_of_pos (by simpa using hxa)] at hnext
      have hxn := hnext x rfl
      rw [Nat.mod_eq_of_lt (by omega)] at hxn
      refine ⟨[], x :: l, rfl, nofun, fun y hy => ?_⟩
      rcases List.mem_cons.mp hy with rfl | hy
      · exact hxn
      · have := hx y hy
        omega

/-- On every well-formed free list `freemem` validates its argument exactly when the block does not reach behind the end of the heap,
or is rejected by the checks that are made. -/
theorem freemem_validates {h : Heap} {l : List (Nat × Nat)} {a n : Nat} (H : h.WellFormed l) (hmin : 0 < h.minheap)
    (hmax : h.maxheap < 2 ^ 32) (ha : a % 8 = 0) (hn : n < 2 ^ 32) :
    h.Validated l a n ↔ a + round8 n ≤ h.maxheap ∨ ¬h.Accepts l a n := by
  have h32 : h.maxheap < 4294967296 := hmax
  have hacc := H.accepts (a := a) (n := n) h32
  constructor
  · rintro (he | ⟨h', l', he, ⟨_, hup, _⟩, _⟩)
    · refine Or.inr fun hc => ?_
      have := hacc.1 hc
      rw [he] at this
      cases this
    · exact Or.inl hup
  · intro hcond
    by_cases hc : h.Accepts l a n
    swap
    · exact Or.inl (hacc.2 hc)
    have hup := hcond.resolve_right (fun hno => hno hc)
    have hns : n ≤ 4294967288 := by
      unfold round8 at hup
      omega
    have hr := roundmb_eq_round8 hns
    obtain ⟨l₁, l₂, rfl, h1, h2⟩ := hc.parts H.list h32 (by omega)
    obtain ⟨h', he, H', hlen, hmin', hmax'⟩ := H.freemem hmin h32 hc.1 hns ha hc.2.1 (by omega) h1 h2
    rw [hr] at h2 H' hlen
    refine Or.inr ⟨h', _, he, ⟨hc.2.1, hup, fun y hy => ?_⟩, H', hmin', hmax', fun x => ?_, hlen⟩
    · rcases List.mem_append.mp hy with hy | hy
      · exact Or.inl (h1 y hy)
      · exact Or.inr (h2 y hy)
    · have hiff : Holds (a, round8 n) x ↔ a ≤ x ∧ x < a + round8 n := Iff.rfl
      rw [← occ_pos_iff, ← occ_pos_iff, occ_join, occ_append, ← hiff]
      by_cases hx : Holds (a, round8 n) x
      · simp only [hx, if_true, or_true, iff_true]
        omega
      · simp only [hx, if_false, or_false]
        omega

/-- A heap of which the first 16 bytes are allocated. -/
def usedHeap : Heap := ((Heap.meminit 64 4096).getmem 10).2

theorem usedHeap_wellFormed : usedHeap.WellFormed [(80, 4016)] :=
  ⟨⟨by decide, by decide, by decide, (by decide : (usedHeap.mem 80).mnext = NULL)⟩,
    ⟨List.pairwise_singleton _ _, by decide, by decide, by decide, by decide⟩, by decide⟩

/-- The block that is allocated is freed. -/
theorem freemem_validates_block :
    ((Heap.meminit 64 4096).getmem 10).1 = some 64 ∧ (usedHeap.freemem 64 10).1 = true ∧ usedHeap.Validated [(80, 4016)] 64 10 :=
  ⟨by decide, by decide, (freemem_validates usedHeap_wellFormed (by decide) (by decide) (by decide) (by decide)).mpr (Or.inl (by decide))⟩

/-- A heap of 4032 bytes that are all allocated. -/
def fullHeap : Heap := ((Heap.meminit 64 4096).getmem 4032).2

/-- With no free block, 8000 bytes at the start of a heap of 4032 bytes become free. -/
theorem freemem_accepts_too_much : fullHeap.WellFormed [] ∧ ¬fullHeap.Validated [] 64 8000 := by
  have hempty : fullHeap.memlist.mnext = NULL := by decide
  refine ⟨⟨hempty, ⟨List.Pairwise.nil, nofun, nofun, nofun, nofun⟩, by decide⟩, ?_⟩
  have hok : (fullHeap.freemem 64 8000).1 = true := by decide
  rintro (he | ⟨h', l', _, ⟨_, hup, _⟩, _⟩)
  · rw [he] at hok
    cases hok
  · exact absurd hup (by decide)

/-! ## Freeing undoes allocating -/

/-- For every size up to `2^32 - 8`, freeing what `getmem` or `getstk` returned restores the free list and the total. -/
theorem free_undoes_alloc {h : Heap} {l : List (Nat × Nat)} {n : Nat} (H : h.WellFormed l) (hmin : 0 < h.minheap)
    (hmax : h.maxheap < 2 ^ 32) (_hn1 : 1 ≤ n) (hn : n ≤ 2 ^ 32 - 8) :
    (∀ p h', h.getmem n = (some p, h') →
      ∃ h'', h'.freemem p n = (true, h'') ∧ h''.Free l ∧ h''.memlist.mlength = h.memlist.mlength) ∧
    ∀ p h', h.getstk n = (some p, h') →
      ∃ h'', h'.freestk p n = (true, h'') ∧ h''.Free l ∧ h''.memlist.mlength = h.memlist.mlength := by
  have hns : n ≤ 4294967288 := hn
  constructor
  · intro p h' he
    obtain ⟨h'', e, H'', ht, _⟩ := H.undo_getmem hmin hmax hns he
    exact ⟨h'', e, H''.free, ht⟩
  · intro p h' he
    obtain ⟨h'', e, H'', ht, _⟩ := H.undo_getstk hmin hmax hns he
    exact ⟨h'', e, H''.free, ht⟩

/-- A block at each end of a heap. -/
theorem free_undoes_alloc_first :
    (∃ h' h'', (Heap.meminit 64 4096).getmem 10 = (some 64, h') ∧ h'.freemem 64 10 = (true, h'') ∧ h''.Free [(64, 4032)] ∧
      h''.memlist.mlength = 4032) ∧
    ∃ h' h'', (Heap.meminit 64 4096).getstk 10 = (some 4092, h') ∧ h'.freestk 4092 10 = (true, h'') ∧ h''.Free [(64, 4032)] ∧
      h''.memlist.mlength = 4032 := by
  have H : (Heap.meminit 64 4096).WellFormed [(64, 4032)] :=
    Heap.WellFormed.meminit (by decide) (by decide) (by decide) (by decide) (by decide)
  obtain ⟨hmem, hstk⟩ := free_undoes_alloc (n := 10) H (by decide) (by decide) (by decide) (by decide)
  have h1 : (Heap.meminit 64 4096).getmem 10 = (some 64, ((Heap.meminit 64 4096).getmem 10).2) := Prod.ext (by decide) rfl
  have h2 : (Heap.meminit 64 4096).getstk 10 = (some 4092, ((Heap.meminit 64 4096).getstk 10).2) := Prod.ext (by decide) rfl
  obtain ⟨h'', e, hfree, ht⟩ := hmem 64 _ h1
  obtain ⟨h₂, e₂, hfree₂, ht₂⟩ := hstk 4092 _ h2
  exact ⟨⟨_, h'', h1, e, hfree, ht⟩, _, h₂, h2, e₂, hfree₂, ht₂⟩

end Xinu
