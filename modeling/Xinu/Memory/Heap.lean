import Mathlib.Algebra.GroupWithZero.Nat
import Mathlib.Algebra.Ring.Int.Defs
import Xinu.Lib.Segment

/-!
# The heap

`memory.h`, `meminit.c`, `getmem.c`, `getstk.c` and `freemem.c`. The free list is threaded through the free memory: the first
two words of a free block are its `struct memblk`. Addresses and lengths are unsigned 32-bit; the loops carry a fuel argument,
the number of blocks that fit in the address space.
-/

namespace Xinu

/-- The null pointer. -/
def NULL : Nat := 0

/-- `struct memblk`. -/
structure Memblk where
  mnext : Nat
  mlength : Nat
deriving Repr, DecidableEq, Inhabited

/-- The heap: the head of the free list, the block headers by address, and the bounds of the heap. -/
structure Heap where
  memlist : Memblk
  mem : Nat → Memblk
  minheap : Nat
  maxheap : Nat

/-- `roundmb`: round up to a multiple of the size of a `struct memblk`, in 32 bits. -/
def roundmb (x : Nat) : Nat := (7 + x) % 4294967296 / 8 * 8

/-- The number of blocks of eight bytes in the address space. -/
def MAXBLKS : Nat := 536870912

namespace Heap

/-- Assign the `mnext` field of a block; `none` is the head `memlist`. -/
def setNext (h : Heap) (p : Option Nat) (v : Nat) : Heap :=
  match p with
  | none => { h with memlist := { h.memlist with mnext := v } }
  | some a => { h with mem := Function.update h.mem a { h.mem a with mnext := v } }

/-- Assign the `mlength` field of a block. -/
def setLength (h : Heap) (a v : Nat) : Heap :=
  { h with mem := Function.update h.mem a { h.mem a with mlength := v } }

/-- Assign `memlist.mlength`. -/
def setTotal (h : Heap) (v : Nat) : Heap := { h with memlist := { h.memlist with mlength := v } }

/-- Unsigned 32-bit subtraction. -/
def sub32 (a b : Nat) : Nat := (4294967296 + a - b % 4294967296) % 4294967296

/-- `meminit`: one big block from `minheap` to `maxheap`. -/
def meminit (minheap maxheap : Nat) : Heap :=
  { memlist := { mnext := minheap, mlength := sub32 maxheap minheap }
    mem := Function.update (fun _ => default) minheap { mnext := NULL, mlength := sub32 maxheap minheap }
    minheap := minheap
    maxheap := maxheap }

/-- The search loop of `getmem`. -/
def getmemLoop (h : Heap) (nbytes : Nat) : Nat → Option Nat → Nat → Option Nat × Heap
  | 0, _, _ => (none, h)
  | n + 1, prev, curr =>
    if curr = NULL then (none, h)
    else if (h.mem curr).mlength = nbytes then
      let h := h.setNext prev (h.mem curr).mnext
      (some curr, h.setTotal (sub32 h.memlist.mlength nbytes))
    else if (h.mem curr).mlength > nbytes then
      let leftover := (curr + nbytes) % 4294967296
      let h := h.setNext prev leftover
      let h := h.setNext (some leftover) (h.mem curr).mnext
      let h := h.setLength leftover (sub32 (h.mem curr).mlength nbytes)
      (some curr, h.setTotal (sub32 h.memlist.mlength nbytes))
    else getmemLoop h nbytes n (some curr) (h.mem curr).mnext

/-- `getmem`: allocate heap storage, returning the lowest word address; `none` is `SYSERR`. -/
def getmem (h : Heap) (nbytes : Nat) : Option Nat × Heap :=
  if nbytes = 0 then (none, h) else getmemLoop h (roundmb nbytes) MAXBLKS none h.memlist.mnext

/-- The scan of `getstk`: the last block that fits, and the block before it. -/
def getstkLoop (h : Heap) (nbytes : Nat) : Nat → Option Nat → Nat → Nat × Option Nat → Nat × Option Nat
  | 0, _, _, fit => fit
  | n + 1, prev, curr, fit =>
    if curr = NULL then fit
    else
      getstkLoop h nbytes n (some curr) (h.mem curr).mnext
        (if (h.mem curr).mlength ≥ nbytes then (curr, prev) else fit)

/-- `getstk`: allocate stack memory, returning the highest word address; `none` is `SYSERR`. -/
def getstk (h : Heap) (nbytes : Nat) : Option Nat × Heap :=
  if nbytes = 0 then (none, h)
  else
    let nbytes := roundmb nbytes
    let (fits, fitsprev) := getstkLoop h nbytes MAXBLKS none h.memlist.mnext (NULL, none)
    if fits = NULL then (none, h)
    else
      let (h, fits) :=
        if nbytes = (h.mem fits).mlength then (h.setNext fitsprev (h.mem fits).mnext, fits)
        else
          let h := h.setLength fits (sub32 (h.mem fits).mlength nbytes)
          (h, (fits + (h.mem fits).mlength) % 4294967296)
      (some (sub32 (fits + nbytes) 4), h.setTotal (sub32 h.memlist.mlength nbytes))

/-- The walk of `freemem` along the free list: the last block below `block` and the first one not below it. -/
def freememLoop (h : Heap) (block : Nat) : Nat → Option Nat → Nat → Option Nat × Nat
  | 0, prev, next => (prev, next)
  | n + 1, prev, next =>
    if next ≠ NULL ∧ next < block then freememLoop h block n (some next) (h.mem next).mnext else (prev, next)

/-- `freemem`: free a memory block, returning the block to the free list; `false` is `SYSERR`. -/
def freemem (h : Heap) (blkaddr nbytes : Nat) : Bool × Heap :=
  if nbytes = 0 ∨ blkaddr < h.minheap ∨ blkaddr > h.maxheap then (false, h)
  else
    let nbytes := roundmb nbytes
    let (prev, next) := freememLoop h blkaddr MAXBLKS none h.memlist.mnext
    let top := match prev with
      | none => NULL
      | some p => (p + (h.mem p).mlength) % 4294967296
    -- the new block must not overlap the previous or the next block
    if (prev ≠ none ∧ blkaddr < top) ∨ (next ≠ NULL ∧ (blkaddr + nbytes) % 4294967296 > next) then (false, h)
    else
      let h := h.setTotal ((h.memlist.mlength + nbytes) % 4294967296)
      -- `top` is `NULL` when there is no previous block, and no block of the heap starts there
      let (h, block) := match prev, decide (top = blkaddr) with
        | some p, true => (h.setLength p (((h.mem p).mlength + nbytes) % 4294967296), p)
        | _, _ => (((h.setNext (some blkaddr) next).setLength blkaddr nbytes).setNext prev blkaddr, blkaddr)
      if (block + (h.mem block).mlength) % 4294967296 = next then
        let h := h.setLength block (((h.mem block).mlength + (h.mem next).mlength) % 4294967296)
        (true, h.setNext (some block) (h.mem next).mnext)
      else (true, h)

/-- `freestk`: free stack memory allocated by `getstk`. -/
def freestk (h : Heap) (p len : Nat) : Bool × Heap :=
  h.freemem ((sub32 p (roundmb len) + 4) % 4294967296) (roundmb len)

end Heap

end Xinu
