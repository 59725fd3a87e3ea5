import Xinu.Memory.Heap
import Mathlib.Data.List.Pairwise
import Mathlib.Data.List.Basic

/-!
# The free list

`Heap.Free h l`: the blocks of the free list are `l`, as pairs of address and length. `FreeList lo hi l`: the blocks are
sorted by address, disjoint and not adjacent, they lie between `lo` and `hi`, and their addresses and lengths are multiples
of eight. For such a list, what `getmem`, `getstk` and `freemem` do (`getmem_cases`, `getstk_cases`, `freemem_cases`).
-/

namespace Xinu

/-- A well-formed free list between the addresses `lo` and `hi`. -/
structure FreeList (lo hi : Nat) (l : List (Nat × Nat)) : Prop where
  sorted : l.Pairwise (fun x y => x.1 + x.2 < y.1)
  lower : ∀ x ∈ l, lo ≤ x.1
  upper : ∀ x ∈ l, x.1 + x.2 ≤ hi
  pos : ∀ x ∈ l, 0 < x.2
  aligned : ∀ x ∈ l, x.1 % 8 = 0 ∧ x.2 % 8 = 0

namespace FreeList

variable {lo hi : Nat} {l l₁ l₂ : List (Nat × Nat)}

/-- The addresses of the blocks are different from one another. -/
theorem nodup (h : FreeList lo hi l) : (l.map Prod.fst).Nodup := by
  rw [List.Nodup, List.pairwise_map]
  exact h.sorted.imp (fun {x y} hxy => by omega)

/-- The blocks before a block end below it and the blocks behind it start above its end. -/
theorem around {x : Nat × Nat} (h : FreeList lo hi (l₁ ++ x :: l₂)) :
    (∀ y ∈ l₁, y.1 + y.2 < x.1) ∧ ∀ y ∈ l₂, x.1 + x.2 < y.1 := by
  obtain ⟨_, h2, h3⟩ := List.pairwise_append.mp h.sorted
  exact ⟨fun y hy => h3 y hy x (by simp), fun y hy => (List.pairwise_cons.mp h2).1 y hy⟩

/-- Fewer blocks than the address space has room for. -/
theorem length_le (h : FreeList lo hi l) : 8 * l.length ≤ hi - lo := by
  induction l generalizing lo with
  | nil => simp
  | cons x l ih =>
    obtain ⟨h1, h2⟩ := List.pairwise_cons.mp h.sorted
    have hx := h.pos x (by simp)
    have ha := (h.aligned x (by simp)).2
    have hu := h.upper x (by simp)
    have hl := h.lower x (by simp)
    have hrest : FreeList (x.1 + x.2) hi l := ⟨h2, fun y hy => Nat.le_of_lt (h1 y hy),
      fun y hy => h.upper y (by simp [hy]), fun y hy => h.pos y (by simp [hy]), fun y hy => h.aligned y (by simp [hy])⟩
    have := ih hrest
    simp only [List.length_cons]
    omega

end FreeList

namespace Heap

/-- The free list of the heap consists of the blocks `l`. -/
def Free (h : Heap) (l : List (Nat × Nat)) : Prop :=
  Table.Seg (fun a => (h.mem a).mnext) (fun a => (h.mem a).mlength) NULL h.memlist.mnext l NULL

/-! ## The fields after an assignment -/

section Fields

variable (h : Heap) (p : Option Nat) (a v b : Nat)

@[simp] theorem setNext_mlength : ((h.setNext p v).mem b).mlength = (h.mem b).mlength := by
  cases p with
  | none => rfl
  | some a => by_cases e : b = a <;> simp [setNext, e]

@[simp] theorem setNext_some_mnext :
    ((h.setNext (some a) v).mem b).mnext = Function.update (fun b => (h.mem b).mnext) a v b := by
  by_cases e : b = a <;> simp [setNext, e]

@[simp] theorem setNext_none_mem : (h.setNext none v).mem = h.mem := rfl
@[simp] theorem setNext_none_head : (h.setNext none v).memlist.mnext = v := rfl
@[simp] theorem setNext_some_head : (h.setNext (some a) v).memlist = h.memlist := rfl

@[simp] theorem setNext_total : (h.setNext p v).memlist.mlength = h.memlist.mlength := by cases p <;> rfl
@[simp] theorem setNext_minheap : (h.setNext p v).minheap = h.minheap := by cases p <;> rfl
@[simp] theorem setNext_maxheap : (h.setNext p v).maxheap = h.maxheap := by cases p <;> rfl

@[simp] theorem setLength_mnext : ((h.setLength a v).mem b).mnext = (h.mem b).mnext := by
  by_cases e : b = a <;> simp [setLength, e]

@[simp] theorem setLength_mlength :
    ((h.setLength a v).mem b).mlength = Function.update (fun b => (h.mem b).mlength) a v b := by
  by_cases e : b = a <;> simp [setLength, e]

@[simp] theorem setLength_memlist : (h.setLength a v).memlist = h.memlist := rfl
@[simp] theorem setLength_minheap : (h.setLength a v).minheap = h.minheap := rfl
@[simp] theorem setLength_maxheap : (h.setLength a v).maxheap = h.maxheap := rfl
@[simp] theorem setTotal_mem : (h.setTotal v).mem = h.mem := rfl
@[simp] theorem setTotal_head : (h.setTotal v).memlist.mnext = h.memlist.mnext := rfl
@[simp] theorem setTotal_total : (h.setTotal v).memlist.mlength = v := rfl
@[simp] theorem setTotal_minheap : (h.setTotal v).minheap = h.minheap := rfl
@[simp] theorem setTotal_maxheap : (h.setTotal v).maxheap = h.maxheap := rfl

end Fields

/-- The free list, and the part of it from an address on. -/
abbrev SegOf (h : Heap) (a : Nat) (l : List (Nat × Nat)) (b : Nat) : Prop :=
  Table.Seg (fun a => (h.mem a).mnext) (fun a => (h.mem a).mlength) NULL a l b

variable {h : Heap} {l l₁ l₂ : List (Nat × Nat)} {lo hi n : Nat}

/-- The address of the last block of a part of the free list; `none` is the head `memlist`. -/
def lastAddr (l : List (Nat × Nat)) : Option Nat := l.getLast?.map Prod.fst

/-- Assigning the link of the last block of the first part of the free list, or the head when that part is empty. -/
theorem setNext_seg {c v : Nat} (hs : h.SegOf h.memlist.mnext l₁ c) (hd : (l₁.map Prod.fst).Nodup) :
    (h.setNext (lastAddr l₁) v).SegOf (h.setNext (lastAddr l₁) v).memlist.mnext l₁ v := by
  rcases List.eq_nil_or_concat l₁ with rfl | ⟨l', x, rfl⟩
  · simp [SegOf, lastAddr]
  · rw [List.concat_eq_append] at hs hd ⊢
    have := Table.Seg.relink (c := v) hs hd
    simpa [SegOf, lastAddr] using this

/-- Assigning a link of the first part of the free list leaves the other blocks alone. -/
theorem setNext_mnext_of_not_mem {v b : Nat} (hb : b ∉ l₁.map Prod.fst) :
    ((h.setNext (lastAddr l₁) v).mem b).mnext = (h.mem b).mnext := by
  rcases List.eq_nil_or_concat l₁ with rfl | ⟨l', x, rfl⟩
  · simp [lastAddr]
  · have e : b ≠ x.1 := by
      rintro rfl
      simp at hb
    simp [lastAddr, Function.update_of_ne e]

theorem sub32_of_le {a b : Nat} (hb : b ≤ a) (ha : a < 4294967296) : sub32 a b = a - b := by
  unfold sub32
  omega

/-! ## `getmem` -/

/-- What is left of a block when `n` bytes are taken from its front. -/
def cutFront (x : Nat × Nat) (n : Nat) : List (Nat × Nat) := if x.2 = n then [] else [(x.1 + n, x.2 - n)]

/-- What is left of a block when `n` bytes are taken from its end. -/
def cutBack (x : Nat × Nat) (n : Nat) : List (Nat × Nat) := if x.2 = n then [] else [(x.1, x.2 - n)]

/-- Taking `n` bytes from the front of a block of the free list. -/
theorem take_front {x : Nat × Nat} (hf : h.Free (l₁ ++ x :: l₂)) (hl : FreeList lo hi (l₁ ++ x :: l₂))
    (hhi : hi < 4294967296) (hn : n < x.2) :
    let h1 := h.setNext (lastAddr l₁) ((x.1 + n) % 4294967296)
    let h2 := h1.setNext (some ((x.1 + n) % 4294967296)) (h1.mem x.1).mnext
    let h3 := h2.setLength ((x.1 + n) % 4294967296) (sub32 (h2.mem x.1).mlength n)
    h3.Free (l₁ ++ (x.1 + n, x.2 - n) :: l₂) := by
  obtain ⟨hbefore, hbehind⟩ := hl.around
  have hup := hl.upper x (by simp)
  have hmod : (x.1 + n) % 4294967296 = x.1 + n := Nat.mod_eq_of_lt (by omega)
  obtain ⟨c, hs1, hx, hx0, hxv, hs2⟩ := Table.seg_append.mp hf
  subst hx
  have hd1 : (l₁.map Prod.fst).Nodup := by
    have := hl.nodup
    rw [List.map_append] at this
    exact (List.nodup_append.mp this).1
  -- the new header lies inside the block, so it is none of the other blocks
  have hne1 : ∀ y ∈ l₁, y.1 ≠ x.1 + n := fun y hy => by have := hbefore y hy; omega
  have hne2 : ∀ y ∈ l₂, y.1 ≠ x.1 + n := fun y hy => by have := hbehind y hy; omega
  have hx1 : x.1 ∉ l₁.map Prod.fst := by
    intro hm
    obtain ⟨y, hy, e⟩ := List.mem_map.mp hm
    have := hbefore y hy
    omega
  have hl2 : ∀ y ∈ l₂, y.1 ∉ l₁.map Prod.fst := by
    intro y hy hm
    obtain ⟨z, hz, e⟩ := List.mem_map.mp hm
    have := hbefore z hz
    have := hbehind y hy
    omega
  intro h1 h2 h3
  have hs1' := setNext_seg (v := (x.1 + n) % 4294967296) hs1 hd1
  have hnx : (h1.mem x.1).mnext = (h.mem x.1).mnext := setNext_mnext_of_not_mem hx1
  have hlen : (h2.mem x.1).mlength = x.2 := by simpa [h2, h1] using hxv
  have hsub : sub32 (h2.mem x.1).mlength n = x.2 - n := by rw [hlen]; exact sub32_of_le (by omega) (by omega)
  show h3.SegOf h3.memlist.mnext _ NULL
  refine Table.seg_append.mpr ⟨x.1 + n, ?_, rfl, ?_, ?_, ?_⟩
  · simp only [h3, h2, hmod, setLength_memlist, setNext_some_head]
    rw [← hmod]
    refine hs1'.frame (fun y hy => ?_) (fun y hy => ?_)
    · simp [h1, hmod, Function.update_of_ne (hne1 y hy)]
    · simp [h1, hmod, Function.update_of_ne (hne1 y hy)]
  · simp only [NULL]
    have := Nat.pos_of_ne_zero hx0
    omega
  · simp only [h3, setLength_mlength, hmod, Function.update_self]
    exact hsub
  · have hstart : (h3.mem (x.1 + n)).mnext = (h.mem x.1).mnext := by
      simp only [h3, h2, hmod, setLength_mnext, setNext_some_mnext, Function.update_self]
      exact hnx
    show h3.SegOf (h3.mem (x.1 + n)).mnext l₂ NULL
    rw [hstart]
    refine hs2.frame (fun y hy => ?_) (fun y hy => ?_)
    · simp only [h3, h2, hmod, setLength_mnext, setNext_some_mnext, Function.update_of_ne (hne2 y hy)]
      exact setNext_mnext_of_not_mem (hl2 y hy)
    · simp [h3, h2, h1, hmod, Function.update_of_ne (hne2 y hy)]

/-- The addresses of a list of blocks around one of them. -/
theorem addr_around {x : Nat × Nat} (hd : ((l₁ ++ x :: l₂).map Prod.fst).Nodup) :
    (l₁.map Prod.fst).Nodup ∧ (∀ y ∈ l₁, y.1 ≠ x.1) ∧ (∀ y ∈ l₂, y.1 ≠ x.1) ∧ ∀ y ∈ l₂, y.1 ∉ l₁.map Prod.fst := by
  rw [List.map_append, List.map_cons, List.nodup_append] at hd
  obtain ⟨h1, h2, h3⟩ := hd
  refine ⟨h1, fun y hy => h3 y.1 (List.mem_map_of_mem hy) x.1 (by simp), fun y hy e => ?_, fun y hy hm => ?_⟩
  · exact (List.nodup_cons.mp h2).1 (e ▸ List.mem_map_of_mem hy)
  · exact h3 y.1 hm y.1 (List.mem_cons_of_mem _ (List.mem_map_of_mem hy)) rfl

/-- Taking a whole block out of the free list. -/
theorem take_whole {x : Nat × Nat} (hf : h.Free (l₁ ++ x :: l₂)) (hd : ((l₁ ++ x :: l₂).map Prod.fst).Nodup) :
    (h.setNext (lastAddr l₁) (h.mem x.1).mnext).Free (l₁ ++ l₂) := by
  obtain ⟨hd1, _, _, hd4⟩ := addr_around hd
  obtain ⟨c, hs1, hx, hx0, hxv, hs2⟩ := Table.seg_append.mp hf
  refine Table.seg_append.mpr ⟨_, setNext_seg hs1 hd1, hs2.frame (fun y hy => ?_) (fun y hy => ?_)⟩
  · exact setNext_mnext_of_not_mem (hd4 y hy)
  · simp

/-- Changing the length of a block of the free list. -/
theorem set_length {x : Nat × Nat} (hf : h.Free (l₁ ++ x :: l₂)) (hd : ((l₁ ++ x :: l₂).map Prod.fst).Nodup) (v : Nat) :
    (h.setLength x.1 v).Free (l₁ ++ (x.1, v) :: l₂) := by
  obtain ⟨_, hd2, hd3, _⟩ := addr_around hd
  obtain ⟨c, hs1, hx, hx0, hxv, hs2⟩ := Table.seg_append.mp hf
  refine Table.seg_append.mpr ⟨c, hs1.frame (fun y hy => ?_) (fun y hy => ?_), hx, hx0, by simp, ?_⟩
  · simp
  · simp [Function.update_of_ne (hd2 y hy)]
  · show (h.setLength x.1 v).SegOf ((h.setLength x.1 v).mem x.1).mnext l₂ NULL
    rw [setLength_mnext]
    refine hs2.frame (fun y hy => ?_) (fun y hy => ?_)
    · simp
    · simp [Function.update_of_ne (hd3 y hy)]

/-- The search of `getmem` from a point of the free list on: the first block that is large enough gives its front. -/
theorem getmemLoop_cases {fuel curr : Nat} (hf : h.Free (l₁ ++ l₂)) (hl : FreeList lo hi (l₁ ++ l₂))
    (hhi : hi < 4294967296) (hc : h.SegOf curr l₂ NULL) (hlen : l₂.length < fuel) :
    (h.getmemLoop n fuel (lastAddr l₁) curr = (none, h) ∧ ∀ x ∈ l₂, x.2 < n) ∨
    ∃ m₁ x m₂ h', l₂ = m₁ ++ x :: m₂ ∧ (∀ y ∈ m₁, y.2 < n) ∧ n ≤ x.2 ∧
      h.getmemLoop n fuel (lastAddr l₁) curr = (some x.1, h') ∧ h'.Free (l₁ ++ m₁ ++ cutFront x n ++ m₂) ∧
      h'.memlist.mlength = sub32 h.memlist.mlength n ∧ h'.minheap = h.minheap ∧ h'.maxheap = h.maxheap := by
  induction l₂ generalizing l₁ fuel curr with
  | nil =>
    obtain ⟨fuel, rfl⟩ : ∃ m, fuel = m + 1 := ⟨fuel - 1, by simp at hlen; omega⟩
    have : curr = NULL := hc
    simp [getmemLoop, this]
  | cons x l₂ ih =>
    obtain ⟨fuel, rfl⟩ : ∃ m, fuel = m + 1 := ⟨fuel - 1, by simp at hlen; omega⟩
    obtain ⟨rfl, hx0, hxv, hs⟩ := hc
    have hv : (h.mem x.1).mlength = x.2 := hxv
    unfold getmemLoop
    rw [if_neg hx0, hv]
    by_cases heq : x.2 = n
    · -- an exact match: the whole block goes
      right
      rw [if_pos heq]
      refine ⟨[], x, l₂, _, rfl, by simp, by omega, rfl, ?_, by simp, by simp, by simp⟩
      simpa [cutFront, heq, Free] using take_whole hf hl.nodup
    · rw [if_neg heq]
      by_cases hgt : x.2 > n
      · -- a larger block is split
        right
        rw [if_pos hgt]
        refine ⟨[], x, l₂, _, rfl, by simp, by omega, rfl, ?_, by simp, by simp, by simp⟩
        simpa [cutFront, heq, Free] using take_front hf hl hhi hgt
      · rw [if_neg hgt]
        have hassoc : l₁ ++ x :: l₂ = (l₁ ++ [x]) ++ l₂ := by simp
        rw [hassoc] at hf hl
        have hlen' : l₂.length < fuel := by simpa using hlen
        have := ih hf hl hs hlen'
        rw [show lastAddr (l₁ ++ [x]) = some x.1 by simp [lastAddr]] at this
        rcases this with ⟨h1, h2⟩ | ⟨m₁, y, m₂, h', e, h1, h2, h3, h4, h5⟩
        · exact Or.inl ⟨h1, by simpa using ⟨by omega, fun a b hab => h2 (a, b) hab⟩⟩
        · refine Or.inr ⟨x :: m₁, y, m₂, h', by rw [e]; rfl, ?_, h2, h3, by simpa using h4, h5⟩
          intro z hz
          rcases List.mem_cons.mp hz with rfl | hz
          · omega
          · exact h1 z hz

/-- `getmem` on a well-formed free list: it fails and changes nothing, or takes the front of the first block that is large
enough. -/
theorem getmem_cases (hf : h.Free l) (hl : FreeList lo hi l) (hhi : hi < 4294967296) (n : Nat) :
    (h.getmem n = (none, h) ∧ (n = 0 ∨ ∀ x ∈ l, x.2 < roundmb n)) ∨
    ∃ l₁ x l₂ h', n ≠ 0 ∧ l = l₁ ++ x :: l₂ ∧ (∀ y ∈ l₁, y.2 < roundmb n) ∧ roundmb n ≤ x.2 ∧
      h.getmem n = (some x.1, h') ∧ h'.Free (l₁ ++ cutFront x (roundmb n) ++ l₂) ∧
      h'.memlist.mlength = sub32 h.memlist.mlength (roundmb n) ∧ h'.minheap = h.minheap ∧ h'.maxheap = h.maxheap := by
  unfold getmem
  by_cases hn : n = 0
  · exact Or.inl ⟨by rw [if_pos hn], Or.inl hn⟩
  · rw [if_neg hn]
    have hlen : l.length < MAXBLKS := by
      have := hl.length_le
      unfold MAXBLKS
      omega
    have hf' : h.Free ([] ++ l) := hf
    rcases getmemLoop_cases hf' hl hhi hf hlen with ⟨h1, h2⟩ | ⟨m₁, x, m₂, h', e, h1, h2, h3, h4, h5⟩
    · exact Or.inl ⟨h1, Or.inr h2⟩
    · exact Or.inr ⟨m₁, x, m₂, h', hn, e, h1, h2, h3, h4, h5⟩

/-! ## `getstk` -/

/-- The scan of `getstk` from a point of the free list on: the last block that is large enough, or what the scan had found
before. -/
theorem getstkLoop_cases {fuel curr : Nat} (l₁ : List (Nat × Nat)) (fit : Nat × Option Nat) (hc : h.SegOf curr l₂ NULL)
    (hlen : l₂.length < fuel) :
    (h.getstkLoop n fuel (lastAddr l₁) curr fit = fit ∧ ∀ x ∈ l₂, x.2 < n) ∨
    ∃ m₁ x m₂, l₂ = m₁ ++ x :: m₂ ∧ n ≤ x.2 ∧ (∀ y ∈ m₂, y.2 < n) ∧
      h.getstkLoop n fuel (lastAddr l₁) curr fit = (x.1, lastAddr (l₁ ++ m₁)) := by
  induction l₂ generalizing l₁ fuel curr fit with
  | nil =>
    obtain ⟨fuel, rfl⟩ : ∃ m, fuel = m + 1 := ⟨fuel - 1, by simp at hlen; omega⟩
    have : curr = NULL := hc
    simp [getstkLoop, this]
  | cons x l₂ ih =>
    obtain ⟨fuel, rfl⟩ : ∃ m, fuel = m + 1 := ⟨fuel - 1, by simp at hlen; omega⟩
    obtain ⟨rfl, hx0, hxv, hs⟩ := hc
    have hv : (h.mem x.1).mlength = x.2 := hxv
    have hlen' : l₂.length < fuel := by simpa using hlen
    have hla : lastAddr (l₁ ++ [x]) = some x.1 := by simp [lastAddr]
    unfold getstkLoop
    rw [if_neg hx0, hv, ← hla]
    rcases ih (l₁ ++ [x]) (if x.2 ≥ n then (x.1, lastAddr l₁) else fit) hs hlen' with
      ⟨h1, h2⟩ | ⟨m₁, y, m₂, e, h1, h2, h3⟩
    · by_cases hx : x.2 ≥ n
      · refine Or.inr ⟨[], x, l₂, rfl, hx, h2, ?_⟩
        rw [h1, if_pos hx, List.append_nil]
      · refine Or.inl ⟨by rw [h1, if_neg hx], ?_⟩
        intro y hy
        rcases List.mem_cons.mp hy with rfl | hy
        · omega
        · exact h2 y hy
    · refine Or.inr ⟨x :: m₁, y, m₂, by rw [e]; rfl, h1, h2, ?_⟩
      rw [h3, List.append_assoc]
      rfl

/-- `getstk` on a well-formed free list: it fails and changes nothing, or takes the end of the last block that is large
enough. -/
theorem getstk_cases (hf : h.Free l) (hl : FreeList lo hi l) (hhi : hi < 4294967296) (n : Nat) :
    (h.getstk n = (none, h) ∧ (n = 0 ∨ ∀ x ∈ l, x.2 < roundmb n)) ∨
    ∃ l₁ x l₂ h', n ≠ 0 ∧ l = l₁ ++ x :: l₂ ∧ (∀ y ∈ l₂, y.2 < roundmb n) ∧ roundmb n ≤ x.2 ∧
      h.getstk n = (some (x.1 + x.2 - 4), h') ∧ h'.Free (l₁ ++ cutBack x (roundmb n) ++ l₂) ∧
      h'.memlist.mlength = sub32 h.memlist.mlength (roundmb n) ∧ h'.minheap = h.minheap ∧ h'.maxheap = h.maxheap := by
  unfold getstk
  by_cases hn : n = 0
  · exact Or.inl ⟨by rw [if_pos hn], Or.inl hn⟩
  · rw [if_neg hn]
    have hlen : l.length < MAXBLKS := by
      have := hl.length_le
      unfold MAXBLKS
      omega
    have hloop := getstkLoop_cases (n := roundmb n) [] (NULL, none) hf hlen
    rw [show lastAddr [] = none from rfl] at hloop
    rcases hloop with ⟨h1, h2⟩ | ⟨m₁, x, m₂, e, h1, h2, h3⟩
    · exact Or.inl ⟨by simp [h1], Or.inr h2⟩
    · have hx : x ∈ l := by simp [e]
      have hx0 : x.1 ≠ NULL := Table.Seg.ne_nil hf x hx
      have hxv : (h.mem x.1).mlength = x.2 := Table.Seg.val_eq hf x hx
      have hup := hl.upper x hx
      have hpos := hl.pos x hx
      have hal := hl.aligned x hx
      rw [e] at hf hl
      refine Or.inr ⟨m₁, x, m₂, ?_⟩
      simp only [h3, List.nil_append, if_neg hx0, hxv]
      by_cases heq : roundmb n = x.2
      · simp only [if_pos heq]
        have haddr : sub32 (x.1 + roundmb n) 4 = x.1 + x.2 - 4 := by
          rw [heq, sub32_of_le (by omega) (by omega)]
        refine ⟨_, hn, e, h2, h1, by rw [haddr], ?_, by simp, by simp, by simp⟩
        simpa [cutBack, heq, Free] using take_whole hf hl.nodup
      · simp only [if_neg heq, setLength_mlength, Function.update_self]
        have hsub : sub32 x.2 (roundmb n) = x.2 - roundmb n := sub32_of_le h1 (by omega)
        have haddr : sub32 ((x.1 + sub32 x.2 (roundmb n)) % 4294967296 + roundmb n) 4 = x.1 + x.2 - 4 := by
          rw [hsub, Nat.mod_eq_of_lt (by omega), sub32_of_le (by omega) (by omega)]
          omega
        refine ⟨_, hn, e, h2, h1, by rw [haddr], ?_, by simp, by simp, by simp⟩
        have := set_length hf hl.nodup (x.2 - roundmb n)
        rw [hsub]
        simpa [cutBack, Ne.symm heq, Free] using this

/-! ## `freemem` -/

/-- The address of the first block of a list, `NULL` when there is none. -/
def headAddr (l : List (Nat × Nat)) : Nat := (l.head?.map Prod.fst).getD NULL

theorem headAddr_eq {a : Nat} (hs : h.SegOf a l NULL) : headAddr l = a := by
  cases l with
  | nil => exact Eq.symm hs
  | cons x l => exact hs.1.symm

/-- The walk of `freemem` from a point of the free list on stops between the blocks below `block` and the others. -/
theorem freememLoop_cases {fuel curr : Nat} (block : Nat) (l₁ : List (Nat × Nat)) (hc : h.SegOf curr l₂ NULL)
    (hlen : l₂.length < fuel) :
    ∃ m₁ m₂, l₂ = m₁ ++ m₂ ∧ (∀ y ∈ m₁, y.1 < block) ∧ (∀ y ∈ m₂.head?, block ≤ y.1) ∧
      h.freememLoop block fuel (lastAddr l₁) curr = (lastAddr (l₁ ++ m₁), headAddr m₂) := by
  induction l₂ generalizing l₁ fuel curr with
  | nil =>
    obtain ⟨fuel, rfl⟩ : ∃ m, fuel = m + 1 := ⟨fuel - 1, by simp at hlen; omega⟩
    have : curr = NULL := hc
    exact ⟨[], [], by simp, by simp, by simp, by simp [freememLoop, this, headAddr]⟩
  | cons x l₂ ih =>
    obtain ⟨fuel, rfl⟩ : ∃ m, fuel = m + 1 := ⟨fuel - 1, by simp at hlen; omega⟩
    obtain ⟨rfl, hx0, hxv, hs⟩ := hc
    have hlen' : l₂.length < fuel := by simpa using hlen
    unfold freememLoop
    by_cases hlt : x.1 < block
    · rw [if_pos ⟨hx0, hlt⟩, show some x.1 = lastAddr (l₁ ++ [x]) by simp [lastAddr]]
      obtain ⟨m₁, m₂, e, h1, h2, h3⟩ := ih (l₁ ++ [x]) hs hlen'
      refine ⟨x :: m₁, m₂, by rw [e]; rfl, ?_, h2, by rw [h3, List.append_assoc]; rfl⟩
      intro y hy
      rcases List.mem_cons.mp hy with rfl | hy
      · exact hlt
      · exact h1 y hy
    · rw [if_neg (fun hh => hlt hh.2)]
      exact ⟨[], x :: l₂, rfl, by simp, by simpa using hlt, by simp [headAddr]⟩

/-- A block joined with the block behind it when the two are adjacent. -/
def joinBack (x : Nat × Nat) : List (Nat × Nat) → List (Nat × Nat)
  | [] => [x]
  | y :: l => if x.1 + x.2 = y.1 then (x.1, x.2 + y.2) :: l else x :: y :: l

/-- A block joined with the block before it and the block behind it when they are adjacent. -/
def join (l₁ : List (Nat × Nat)) (x : Nat × Nat) (l₂ : List (Nat × Nat)) : List (Nat × Nat) :=
  match l₁.getLast? with
  | none => joinBack x l₂
  | some p => if p.1 + p.2 = x.1 then l₁.dropLast ++ joinBack (p.1, p.2 + x.2) l₂ else l₁ ++ joinBack x l₂

/-- Linking a new block between two parts of the free list. -/
theorem link_new {a n : Nat} (hf : h.Free (l₁ ++ l₂)) (hd : ((l₁ ++ l₂).map Prod.fst).Nodup)
    (ha : a ∉ (l₁ ++ l₂).map Prod.fst) (ha0 : a ≠ NULL) :
    (((h.setNext (some a) (headAddr l₂)).setLength a n).setNext (lastAddr l₁) a).Free (l₁ ++ (a, n) :: l₂) := by
  obtain ⟨c, hs1, hs2⟩ := Table.seg_append.mp hf
  have hc := headAddr_eq hs2
  rw [List.map_append] at hd ha
  simp only [List.mem_append, not_or] at ha
  have hne1 : ∀ y ∈ l₁, y.1 ≠ a := fun y hy e => ha.1 (e ▸ List.mem_map_of_mem hy)
  have hne2 : ∀ y ∈ l₂, y.1 ≠ a := fun y hy e => ha.2 (e ▸ List.mem_map_of_mem hy)
  set h1 := (h.setNext (some a) (headAddr l₂)).setLength a n with hh1
  have hs1' : h1.SegOf h1.memlist.mnext l₁ c := by
    refine hs1.frame (fun y hy => ?_) (fun y hy => ?_)
    · simp [hh1, Function.update_of_ne (hne1 y hy)]
    · simp [hh1, Function.update_of_ne (hne1 y hy)]
  refine Table.seg_append.mpr ⟨a, setNext_seg hs1' (List.nodup_append.mp hd).1, rfl, ha0, by simp [hh1], ?_⟩
  show (h1.setNext (lastAddr l₁) a).SegOf ((h1.setNext (lastAddr l₁) a).mem a).mnext l₂ NULL
  rw [setNext_mnext_of_not_mem ha.1, show (h1.mem a).mnext = c by simp [hh1, hc]]
  refine hs2.frame (fun y hy => ?_) (fun y hy => ?_)
  · have hy' : y.1 ∉ l₁.map Prod.fst := fun hm =>
      (List.nodup_append.mp hd).2.2 y.1 hm y.1 (List.mem_map_of_mem hy) rfl
    rw [setNext_mnext_of_not_mem hy']
    simp [hh1, Function.update_of_ne (hne2 y hy)]
  · simp [hh1, Function.update_of_ne (hne2 y hy)]

/-- Coalescing a block with the block behind it. -/
theorem absorb {x y : Nat × Nat} (hf : h.Free (l₁ ++ x :: y :: l₂)) (hd : ((l₁ ++ x :: y :: l₂).map Prod.fst).Nodup)
    (v : Nat) : ((h.setLength x.1 v).setNext (some x.1) (h.mem y.1).mnext).Free (l₁ ++ (x.1, v) :: l₂) := by
  have h1 := set_length hf hd v
  have hassoc : l₁ ++ (x.1, v) :: y :: l₂ = (l₁ ++ [(x.1, v)]) ++ y :: l₂ := by simp
  rw [hassoc] at h1
  have hd' : (((l₁ ++ [(x.1, v)]) ++ y :: l₂).map Prod.fst).Nodup := by simpa using hd
  have := take_whole h1 hd'
  simpa [lastAddr] using this

/-- The last part of `freemem`: the block behind is coalesced when it is adjacent. -/
theorem coalesce_next {x : Nat × Nat} (hf : h.Free (l₁ ++ x :: l₂)) (hd : ((l₁ ++ x :: l₂).map Prod.fst).Nodup)
    (hx : 0 < x.1 + x.2) (hx' : x.1 + x.2 < 4294967296) (hl₂ : ∀ y ∈ l₂, x.2 + y.2 < 4294967296) :
    ∃ h' : Heap, (if (x.1 + (h.mem x.1).mlength) % 4294967296 = headAddr l₂ then
        (true, (h.setLength x.1 (((h.mem x.1).mlength + (h.mem (headAddr l₂)).mlength) % 4294967296)).setNext (some x.1)
          ((h.setLength x.1 (((h.mem x.1).mlength + (h.mem (headAddr l₂)).mlength) % 4294967296)).mem (headAddr l₂)).mnext)
      else (true, h)) = (true, h') ∧ h'.Free (l₁ ++ joinBack x l₂) ∧ h'.memlist.mlength = h.memlist.mlength ∧
      h'.minheap = h.minheap ∧ h'.maxheap = h.maxheap := by
  have hv : (h.mem x.1).mlength = x.2 := Table.Seg.val_eq hf x (by simp)
  rw [hv, Nat.mod_eq_of_lt hx']
  cases l₂ with
  | nil =>
    have : x.1 + x.2 ≠ headAddr [] := by simp only [headAddr, NULL]; simp; omega
    rw [if_neg this]
    exact ⟨h, rfl, hf, rfl, rfl, rfl⟩
  | cons y l₂ =>
    have hy : (h.mem y.1).mlength = y.2 := Table.Seg.val_eq hf y (by simp)
    have hh : headAddr (y :: l₂) = y.1 := rfl
    rw [hh, hy, Nat.mod_eq_of_lt (hl₂ y (by simp)), setLength_mnext]
    by_cases e : x.1 + x.2 = y.1
    · rw [if_pos e, joinBack, if_pos e]
      exact ⟨_, rfl, absorb hf hd _, by simp, by simp, by simp⟩
    · rw [if_neg e, joinBack, if_neg e]
      exact ⟨h, rfl, hf, rfl, rfl, rfl⟩

/-- A block that overlaps no free block lies between those below its address and the others. -/
theorem between {a m : Nat} (hl : FreeList lo hi (l₁ ++ l₂)) (hlow : ∀ y ∈ l₁, y.1 < a) (hhead : ∀ y ∈ l₂.head?, a ≤ y.1)
    (hm : 0 < m) (hdis : ∀ y ∈ l₁ ++ l₂, y.1 + y.2 ≤ a ∨ a + m ≤ y.1) :
    (∀ y ∈ l₁, y.1 + y.2 ≤ a) ∧ ∀ y ∈ l₂, a + m ≤ y.1 := by
  refine ⟨fun y hy => ?_, fun y hy => ?_⟩
  · rcases hdis y (List.mem_append_left _ hy) with hd | hd
    · exact hd
    · have := hlow y hy
      omega
  · rcases hdis y (List.mem_append_right _ hy) with hd | hd
    · have hpos := hl.pos y (List.mem_append_right _ hy)
      exfalso
      -- the first block of `l₂` starts at `a` or above, and the others behind it
      cases l₂ with
      | nil => cases hy
      | cons z l₂ =>
        have hz : a ≤ z.1 := hhead z (by simp)
        rcases List.mem_cons.mp hy with rfl | hy'
        · omega
        · have := hl.around.2 y hy'
          omega
    · exact hd

/-- No block of the list starts where that block does. -/
theorem between_new {a m : Nat} (hl : FreeList lo hi (l₁ ++ l₂)) (h1 : ∀ y ∈ l₁, y.1 + y.2 ≤ a) (h2 : ∀ y ∈ l₂, a + m ≤ y.1)
    (hm : 0 < m) : a ∉ (l₁ ++ l₂).map Prod.fst := by
  intro ha
  obtain ⟨y, hy, e⟩ := List.mem_map.mp ha
  have hpos := hl.pos y hy
  rcases List.mem_append.mp hy with hy | hy
  · have := h1 y hy
    omega
  · have := h2 y hy
    omega

/-- The check against the block behind passes. -/
theorem headAddr_le {a m : Nat} (hb : a + m < 4294967296) (h2 : ∀ y ∈ l₂, a + m ≤ y.1) :
    ¬(headAddr l₂ ≠ NULL ∧ (a + m) % 4294967296 > headAddr l₂) := by
  rintro ⟨hne, hgt⟩
  rw [Nat.mod_eq_of_lt hb] at hgt
  cases l₂ with
  | nil => exact hne rfl
  | cons z l₂ =>
    have := h2 z List.mem_cons_self
    simp only [headAddr, List.head?_cons, Option.map_some, Option.getD_some] at hgt
    omega

/-- `freemem` of a block that overlaps no free block: it returns `OK` and joins the block with its free neighbours. -/
theorem freemem_ok (hf : h.Free l) (hl : FreeList lo hi l) (hhi : hi < 4294967296) {a n : Nat} (hmin : h.minheap ≤ a)
    (hmax : a ≤ h.maxheap) (ha : a ≠ NULL) (hn : n ≠ 0) (hr : 0 < roundmb n) (hb : a + roundmb n < 4294967296)
    (hdis : ∀ y ∈ l, y.1 + y.2 ≤ a ∨ a + roundmb n ≤ y.1) :
    ∃ l₁ l₂ h', l = l₁ ++ l₂ ∧ (∀ y ∈ l₁, y.1 + y.2 ≤ a) ∧ (∀ y ∈ l₂, a + roundmb n ≤ y.1) ∧
      h.freemem a n = (true, h') ∧ h'.Free (join l₁ (a, roundmb n) l₂) ∧
      h'.memlist.mlength = (h.memlist.mlength + roundmb n) % 4294967296 ∧ h'.minheap = h.minheap ∧
      h'.maxheap = h.maxheap := by
  have hlen : l.length < MAXBLKS := by
    have := hl.length_le
    unfold MAXBLKS
    omega
  obtain ⟨l₁, l₂, rfl, hlow, hhead, hloop⟩ := freememLoop_cases a [] hf hlen
  rw [show lastAddr [] = none from rfl, List.nil_append] at hloop
  obtain ⟨h1, h2⟩ := between hl hlow hhead hr hdis
  have hd := hl.nodup
  have hanew := between_new hl h1 h2 hr
  have hnext := headAddr_le hb h2
  have hsum : ∀ x : Nat × Nat, x.1 + x.2 = a + roundmb n → ∀ y ∈ l₂, x.2 + y.2 < 4294967296 := by
    intro x hx y hy
    have := h2 y hy
    have := hl.upper y (List.mem_append_right _ hy)
    omega
  set h0 := h.setTotal ((h.memlist.mlength + roundmb n) % 4294967296) with hh0
  have hf0 : h0.Free (l₁ ++ l₂) := hf
  -- a new block is linked between the two parts
  have hnew := link_new (n := roundmb n) hf0 hd hanew ha
  have hnewd : ((l₁ ++ (a, roundmb n) :: l₂).map Prod.fst).Nodup := by
    rw [List.map_append] at hd hanew ⊢
    exact List.nodup_middle.mpr (List.nodup_cons.mpr ⟨hanew, hd⟩)
  obtain ⟨hj, hje, hjf, hjt, hjmin, hjmax⟩ := coalesce_next hnew hnewd (by omega) hb (hsum _ rfl)
  have hguard : ¬(n = 0 ∨ a < h.minheap ∨ a > h.maxheap) := by omega
  rcases List.eq_nil_or_concat l₁ with rfl | ⟨l', p, rfl⟩
  · -- no block below: the new block becomes the first one
    have hprev : lastAddr [] = none := rfl
    rw [hprev] at hje hjt hjmin hjmax
    refine ⟨[], l₂, hj, rfl, h1, h2, ?_, by simpa [join] using hjf, by simpa [hh0] using hjt, by simpa [hh0] using hjmin,
      by simpa [hh0] using hjmax⟩
    unfold freemem
    rw [if_neg hguard, hloop]
    simp only [hprev, ne_eq, not_true_eq_false, false_and, false_or, ← hh0]
    rw [if_neg hnext]
    exact hje
  · rw [List.concat_eq_append] at *
    have hprev : lastAddr (l' ++ [p]) = some p.1 := by simp [lastAddr]
    have hpv : (h.mem p.1).mlength = p.2 := Table.Seg.val_eq hf p (by simp)
    have hpa := h1 p (by simp)
    have htop : (p.1 + p.2) % 4294967296 = p.1 + p.2 := Nat.mod_eq_of_lt (by omega)
    have hguard' : ¬(a < p.1 + p.2 ∨ headAddr l₂ ≠ NULL ∧ (a + roundmb n) % 4294967296 > headAddr l₂) := by
      rintro (hh | hh)
      · omega
      · exact hnext hh
    rw [hprev] at hje hjt hjmin hjmax
    by_cases hadj : p.1 + p.2 = a
    · -- the block below is extended
      have hassoc : l' ++ [p] ++ l₂ = l' ++ p :: l₂ := by simp
      rw [hassoc] at hf0 hd
      have hext := set_length hf0 hd (p.2 + roundmb n)
      have hextd : ((l' ++ (p.1, p.2 + roundmb n) :: l₂).map Prod.fst).Nodup := by simpa using hd
      obtain ⟨hx, hxe, hxf, hxt, hxmin, hxmax⟩ := coalesce_next hext hextd (by simp only; omega) (by simp only; omega)
        (hsum (p.1, p.2 + roundmb n) (by simp only; omega))
      have hlp : (p.2 + roundmb n) % 4294967296 = p.2 + roundmb n := Nat.mod_eq_of_lt (by omega)
      have hv0 : (h0.mem p.1).mlength = p.2 := hpv
      refine ⟨l' ++ [p], l₂, hx, rfl, h1, h2, ?_, by simpa [join, hadj] using hxf, by simpa [hh0] using hxt,
        by simpa [hh0] using hxmin, by simpa [hh0] using hxmax⟩
      unfold freemem
      rw [if_neg hguard, hloop]
      simp only [hprev, hpv, htop, ne_eq, reduceCtorEq, not_false_eq_true, true_and, ← hh0]
      rw [if_neg hguard']
      simp only [hadj, decide_true, hv0, hlp]
      exact hxe
    · refine ⟨l' ++ [p], l₂, hj, rfl, h1, h2, ?_, by simpa [join, hadj] using hjf, by simpa [hh0] using hjt,
        by simpa [hh0] using hjmin, by simpa [hh0] using hjmax⟩
      unfold freemem
      rw [if_neg hguard, hloop]
      simp only [hprev, hpv, htop, ne_eq, reduceCtorEq, not_false_eq_true, true_and, ← hh0]
      rw [if_neg hguard']
      simp only [hadj, decide_false]
      exact hje

end Heap

end Xinu
