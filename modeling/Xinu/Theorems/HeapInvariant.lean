import Xinu.Memory.Allocation

/-!
# The heap invariant

Every sequence of `getmem`, `getstk`, `freemem` and `freestk` calls from the list built by `meminit`, where the frees name
blocks that are handed out with the size they were requested with, keeps the free list sorted, disjoint and without adjacent
blocks, and keeps the free blocks and the blocks handed out a partition of the heap.
-/

namespace Xinu

open Blocks

/-- A call of an allocator function, with its arguments. -/
inductive HeapCall where
  | getmem (nbytes : Nat)
  | getstk (nbytes : Nat)
  | freemem (blkaddr nbytes : Nat)
  | freestk (p len : Nat)
deriving Repr, DecidableEq

/-- The heap and the blocks its callers hold, as pairs of lowest address and requested size. -/
structure Arena where
  heap : Heap
  blocks : List (Nat × Nat)

namespace Arena

/-- The arena `meminit` leaves. -/
def meminit (minheap maxheap : Nat) : Arena := ⟨Heap.meminit minheap maxheap, []⟩

/-- One call: the callers hold what `getmem` and `getstk` return and no longer hold what a free took back. -/
def step (A : Arena) : HeapCall → Arena
  | .getmem n =>
    match A.heap.getmem n with
    | (some a, h) => ⟨h, (a, n) :: A.blocks⟩
    | (none, h) => ⟨h, A.blocks⟩
  | .getstk n =>
    match A.heap.getstk n with
    -- `getstk` returns the address of the last word of the stack
    | (some p, h) => ⟨h, (p + 4 - roundmb n, n) :: A.blocks⟩
    | (none, h) => ⟨h, A.blocks⟩
  | .freemem a n =>
    match A.heap.freemem a n with
    | (true, h) => ⟨h, A.blocks.erase (a, n)⟩
    | (false, h) => ⟨h, A.blocks⟩
  | .freestk p n =>
    match A.heap.freestk p n with
    | (true, h) => ⟨h, A.blocks.erase (p + 4 - roundmb n, n)⟩
    | (false, h) => ⟨h, A.blocks⟩

/-- A sequence of calls. -/
def run (A : Arena) (calls : List HeapCall) : Arena := calls.foldl step A

/-- Requested sizes are at most `2^32 - 8`, and a free names a block that is handed out with its requested size. -/
def Allowed (A : Arena) : HeapCall → Prop
  | .getmem n | .getstk n => n ≤ 4294967288
  | .freemem a n => (a, n) ∈ A.blocks
  | .freestk p n => (p + 4 - roundmb n, n) ∈ A.blocks

instance (A : Arena) (c : HeapCall) : Decidable (A.Allowed c) :=
  match c with
  | .getmem n | .getstk n => inferInstanceAs (Decidable (n ≤ 4294967288))
  | .freemem a n => inferInstanceAs (Decidable ((a, n) ∈ A.blocks))
  | .freestk p n => inferInstanceAs (Decidable ((p + 4 - roundmb n, n) ∈ A.blocks))

/-- Every call of the sequence is allowed when it is made. -/
def AllAllowed : Arena → List HeapCall → Prop
  | _, [] => True
  | A, c :: cs => A.Allowed c ∧ (A.step c).AllAllowed cs

variable {A : Arena} {lo hi : Nat} {l : List (Nat × Nat)}

/-- One allowed call keeps the ledger. -/
theorem step_ledger (H : A.heap.Ledger lo hi l A.blocks) (h0 : 0 < lo) (hhi : hi < 4294967296) {c : HeapCall}
    (hc : A.Allowed c) : ∃ l', (A.step c).heap.Ledger lo hi l' (A.step c).blocks := by
  cases c with
  | getmem n =>
    rcases H.getmem hhi hc with e | ⟨a, h', l', e, H'⟩
    · exact ⟨l, by simpa only [step, e] using H⟩
    · exact ⟨l', by simpa only [step, e] using H'⟩
  | getstk n =>
    rcases H.getstk hhi hc with e | ⟨b, h', l', e, H'⟩
    · exact ⟨l, by simpa only [step, e] using H⟩
    · obtain ⟨hs0, hs⟩ := H'.sizes (b, n) (by simp)
      have hspec := roundmb_spec (n := n) hs0 hs
      have hb : b + roundmb n - 4 + 4 - roundmb n = b := by omega
      exact ⟨l', by simpa only [step, e, hb] using H'⟩
  | freemem a n =>
    obtain ⟨h', l', e, H'⟩ := H.freemem h0 hhi (b := (a, n)) hc
    exact ⟨l', by simpa only [step, e] using H'⟩
  | freestk p n =>
    have hm : (p + 4 - roundmb n, n) ∈ A.blocks := hc
    obtain ⟨hs0, hs⟩ := H.sizes _ hm
    have hspec := roundmb_spec hs0 hs
    have hp : p + 4 - roundmb n + roundmb n - 4 = p := by
      have := (H.block hm).1
      simp only at this hspec
      omega
    obtain ⟨h', l', e, H'⟩ := H.freestk h0 hhi hm
    simp only [hp] at e
    exact ⟨l', by simpa only [step, e] using H'⟩

/-- A sequence of allowed calls keeps the ledger. -/
theorem run_ledger (h0 : 0 < lo) (hhi : hi < 4294967296) {calls : List HeapCall} :
    ∀ {A : Arena} {l : List (Nat × Nat)}, A.heap.Ledger lo hi l A.blocks → A.AllAllowed calls →
      ∃ l', (A.run calls).heap.Ledger lo hi l' (A.run calls).blocks := by
  induction calls with
  | nil => exact fun H _ => ⟨_, H⟩
  | cons c calls ih =>
    intro A l H hok
    obtain ⟨l', H'⟩ := step_ledger H h0 hhi hok.1
    exact ih H' hok.2

end Arena

/-- In every state reached by a sequence of allowed calls the free list is strictly sorted by address, its blocks lie in the
heap, their lengths are positive multiples of eight that add up to `memlist.mlength`, no two of them are adjacent, and the
free blocks together with the rounded blocks handed out are pairwise disjoint and cover the heap exactly. -/
theorem heap_invariant {minheap maxheap : Nat} (hpos : 0 < minheap) (hlt : minheap < maxheap) (hmax : maxheap < 2 ^ 32)
    (hmin8 : minheap % 8 = 0) (hmax8 : maxheap % 8 = 0) {calls : List HeapCall}
    (hok : (Arena.meminit minheap maxheap).AllAllowed calls) :
    ∃ l, ((Arena.meminit minheap maxheap).run calls).heap.Free l ∧
      l.Pairwise (fun x y => x.1 < y.1) ∧
      (∀ x ∈ l, minheap ≤ x.1 ∧ x.1 + x.2 ≤ maxheap ∧ 0 < x.2 ∧ x.2 % 8 = 0) ∧
      (∀ x ∈ l, ∀ y ∈ l, x.1 + x.2 ≠ y.1) ∧
      ((Arena.meminit minheap maxheap).run calls).heap.memlist.mlength = (l.map Prod.snd).sum ∧
      (l ++ ((Arena.meminit minheap maxheap).run calls).blocks.map rounded).Pairwise Apart ∧
      ∀ a, (∃ b ∈ l ++ ((Arena.meminit minheap maxheap).run calls).blocks.map rounded, Holds b a) ↔
        minheap ≤ a ∧ a < maxheap := by
  have h32 : maxheap < 4294967296 := hmax
  obtain ⟨l, H⟩ := Arena.run_ledger hpos h32 (Heap.Ledger.init hpos hlt h32 hmin8 hmax8) hok
  have hl := H.list
  refine ⟨l, H.free, hl.sorted.imp (fun {x y} hxy => by omega), fun x hx => ?_, fun x hx y hy e => ?_, H.total,
    H.tiles.apart H.pos, fun a => H.tiles.holds_iff⟩
  · exact ⟨hl.lower x hx, hl.upper x hx, hl.pos x hx, (hl.aligned x hx).2⟩
  · obtain ⟨l₁, l₂, rfl⟩ := List.append_of_mem hx
    obtain ⟨hb, ha⟩ := hl.around
    have hxp := hl.pos x hx
    rcases List.mem_append.mp hy with hy | hy
    · have := hb y hy
      omega
    · rcases List.mem_cons.mp hy with rfl | hy
      · omega
      · have := ha y hy
        omega

/-- The invariant after a run that splits blocks at both ends and gives them back in another order. -/
theorem heap_invariant_five_calls :
    (Arena.meminit 64 4096).AllAllowed [.getmem 10, .getstk 20, .getmem 8, .freemem 64 10, .freestk 4092 20] ∧
    ∃ l, ((Arena.meminit 64 4096).run
        [.getmem 10, .getstk 20, .getmem 8, .freemem 64 10, .freestk 4092 20]).heap.Free l ∧
      ∀ x ∈ l, ∀ y ∈ l, x.1 + x.2 ≠ y.1 := by
  have hok : (Arena.meminit 64 4096).AllAllowed
      [.getmem 10, .getstk 20, .getmem 8, .freemem 64 10, .freestk 4092 20] :=
    ⟨by decide, by decide, by decide, by decide, by decide, trivial⟩
  obtain ⟨l, hf, _, _, hadj, _⟩ := heap_invariant (by decide) (by decide) (by decide) (by decide) (by decide) hok
  exact ⟨hok, l, hf, hadj⟩

end Xinu
