import Xinu.Kernel.Nesting
import Xinu.Kernel.Evaluation
import Xinu.Lib.Machine

/-!
# Buffer pools

`mkbufpool.c`, `getbuf.c` and `freebuf.c` as a library on the system calls. All of them run with interrupts disabled; other processes
run when `getbuf` waits and when `freebuf` signals. The first word of a buffer is the link of the free chain while the buffer is
free, and the identifier of its pool while a caller has it.

`made` and `held` are not variables of the source: they record the pools, and the buffers that callers have.
-/

namespace Xinu

namespace Bufpool

def NBPOOLS : Int := 20
def BP_MAXB : Int := 8192
def BP_MINB : Int := 8
def BP_MAXN : Int := 2048

/-- `sizeof(bpid32)`. -/
def bpidSize : Nat := 4

/-- `struct bpentry` of a pool. -/
structure Bpentry where
  bpnext : Nat
  bpsem : Int
  bpsize : Int
deriving Repr, DecidableEq, Inhabited

/-- What a pool was made of: the block, and the size and the number of the slots that it is divided into. -/
structure Pool where
  buf : Nat
  size : Nat
  numbufs : Nat
deriving Repr, DecidableEq

/-- The addresses of the slots of a pool. -/
def Pool.slots (g : Pool) : List Nat := (List.range g.numbufs).map fun i => g.buf + i * g.size

/-- The block that the pool was made of. -/
def Pool.block (g : Pool) : Nat × Nat := (g.buf, g.numbufs * g.size)

/-- The table of the pools, with the pools made of the heap and the buffers that callers have. -/
structure Bufpools where
  buftab : Int → Bpentry
  nbpools : Int
  /-- The first words of the buffers. -/
  word : Nat → Nat
  made : Int → Option Pool
  held : List (Int × Nat)

inductive Op where
  | mkbufpool (bufsiz numbufs : Int)
  | getbuf (poolid : Int)
  | freebuf (bufaddr : Nat)
deriving Repr, DecidableEq

/-- Where a routine goes on. -/
inductive Point where
  /-- Behind the call of `getmem` in `mkbufpool`. -/
  | gotmem (bufsiz numbufs : Int)
  /-- Behind the call of `semcreate`. -/
  | gotsem (poolid : Int) (buf : Nat) (bufsiz numbufs : Int)
  /-- Behind the call of `freemem`. -/
  | undone
  /-- Behind the call of `wait` in `getbuf`. -/
  | waited (poolid : Int)
  /-- Behind the call of `signal` in `freebuf`. -/
  | signalled
deriving Repr, DecidableEq

namespace Bufpools

variable (d : Bufpools)

def setEntry (poolid : Int) (e : Bpentry) : Bufpools := { d with buftab := Function.update d.buftab poolid e }

def setWord (a v : Nat) : Bufpools := { d with word := Function.update d.word a v }

/-- `mkbufpool` up to the call of `getmem`. -/
def mkbufpool (bufsiz numbufs : Int) : Bufpools × Next Point :=
  let bufsiz := int32 bufsiz
  let numbufs := int32 numbufs
  if bufsiz < BP_MINB ∨ bufsiz > BP_MAXB ∨ numbufs < 1 ∨ numbufs > BP_MAXN ∨ d.nbpools ≥ NBPOOLS then (d, .ret SYSERR)
  else
    -- the size is rounded up to a multiple of four
    let bufsiz := (bufsiz + 3) / 4 * 4
    (d, .call (.getmem (uint32 (numbufs * (bufsiz + bpidSize)))) (.gotmem bufsiz numbufs))

/-- `mkbufpool` behind the call of `getmem`, which has returned `buf`. -/
def gotmem (bufsiz numbufs buf : Int) : Bufpools × Next Point :=
  if int32 buf = SYSERR then (d, .ret SYSERR)
  else
    let poolid := d.nbpools
    ({ d with nbpools := d.nbpools + 1 }.setEntry poolid { d.buftab poolid with bpnext := uint32 buf, bpsize := bufsiz },
      .call (.semcreate numbufs) (.gotsem poolid (uint32 buf) bufsiz numbufs))

/-- The loop of `mkbufpool` that links `n` more slots behind the one at `buf`, and the end of the chain. -/
def link (size : Nat) : Nat → Nat → (Nat → Nat) → Nat → Nat
  | 0, buf, word => Function.update word buf NULL
  | n + 1, buf, word => link size n (buf + size) (Function.update word buf (buf + size))

/-- `mkbufpool` behind the call of `semcreate`, which has returned `sem`. -/
def gotsem (poolid : Int) (buf : Nat) (bufsiz numbufs sem : Int) : Bufpools × Next Point :=
  let d := d.setEntry poolid { d.buftab poolid with bpsem := int32 sem }
  let size := (bufsiz + bpidSize).toNat
  if int32 sem = SYSERR then (d, .call (.freemem buf (uint32 (numbufs * (bufsiz + bpidSize)))) .undone)
  else
    ({ d with
        word := link size (numbufs.toNat - 1) buf d.word
        made := Function.update d.made poolid (some ⟨buf, size, numbufs.toNat⟩) }, .ret poolid)

/-- `getbuf` up to the call of `wait`. -/
def getbuf (poolid : Int) : Bufpools × Next Point :=
  let poolid := int32 poolid
  if poolid < 0 ∨ poolid ≥ d.nbpools then (d, .ret SYSERR)
  else (d, .call (.wait (d.buftab poolid).bpsem) (.waited poolid))

/-- The first buffer of the chain is unlinked, and the identifier of the pool is stored in it. -/
def unlink (poolid : Int) (bufptr : Nat) : Bufpools :=
  let d' := d.setEntry poolid { d.buftab poolid with bpnext := d.word bufptr }
  { d'.setWord bufptr (uint32 poolid) with held := (poolid, bufptr) :: d.held }

/-- `getbuf` behind the call of `wait`. -/
def waited (poolid : Int) : Bufpools × Next Point :=
  let bufptr := (d.buftab poolid).bpnext
  if bufptr = NULL then (d, .stop .faulted) else (d.unlink poolid bufptr, .ret (bufptr + bpidSize : Nat))

/-- A buffer is inserted into the chain. -/
def insert (poolid : Int) (bufaddr : Nat) : Bufpools :=
  let d' := d.setWord bufaddr (d.buftab poolid).bpnext
  { d'.setEntry poolid { d.buftab poolid with bpnext := bufaddr } with held := d.held.erase (poolid, bufaddr) }

/-- `freebuf` up to the call of `signal`. -/
def freebuf (bufaddr : Nat) : Bufpools × Next Point :=
  let bufaddr := Heap.sub32 bufaddr bpidSize
  let poolid := int32 (d.word bufaddr)
  if poolid < 0 ∨ poolid ≥ d.nbpools then (d, .ret SYSERR)
  else (d.insert poolid bufaddr, .call (.signal (d.buftab poolid).bpsem) .signalled)

/-- The tables that `bufinit` leaves. -/
def bufinit : Bufpools :=
  { buftab := fun _ => default, nbpools := 0, word := fun _ => 0, made := fun _ => none, held := [] }

end Bufpools

/-- The arguments of `mkbufpool`, with the size rounded. -/
def Sizes (bufsiz numbufs : Int) : Prop := 0 ≤ bufsiz ∧ bufsiz ≤ BP_MAXB ∧ 1 ≤ numbufs ∧ numbufs ≤ BP_MAXN

/-- The pool that `mkbufpool` makes of the block at `buf`. -/
def newPool (buf : Nat) (bufsiz numbufs : Int) : Pool := ⟨buf, (bufsiz + bpidSize).toNat, numbufs.toNat⟩

/-- The size that `mkbufpool` asks for does not wrap. -/
theorem newPool_bytes (buf : Nat) {bufsiz numbufs : Int} (h : Sizes bufsiz numbufs) :
    numbufs * (bufsiz + bpidSize) = ((newPool buf bufsiz numbufs).block.2 : Int) ∧
      (newPool buf bufsiz numbufs).block.2 ≤ 16785408 := by
  obtain ⟨h1, h2, h3, h4⟩ := h
  have hmax : BP_MAXB = 8192 := rfl
  have hbufs : BP_MAXN = 2048 := rfl
  have hid : (bpidSize : Int) = 4 := rfl
  have hn : ((newPool buf bufsiz numbufs).numbufs : Int) = numbufs := Int.toNat_of_nonneg (by omega)
  have hs : ((newPool buf bufsiz numbufs).size : Int) = bufsiz + bpidSize := Int.toNat_of_nonneg (by omega)
  refine ⟨by rw [Pool.block, Nat.cast_mul, hn, hs], ?_⟩
  calc (newPool buf bufsiz numbufs).numbufs * (newPool buf bufsiz numbufs).size ≤ 2048 * 8196 :=
      Nat.mul_le_mul (by omega) (by omega)
    _ = 16785408 := rfl

/-- The buffer pools as a library. -/
@[reducible] def pools : Client where
  Data := Bufpools
  Op := Op
  F := Point
  enter d _
    | .mkbufpool bufsiz numbufs => d.mkbufpool bufsiz numbufs
    | .getbuf poolid => d.getbuf poolid
    | .freebuf bufaddr => d.freebuf bufaddr
  resume d _
    | .gotmem bufsiz numbufs, buf => d.gotmem bufsiz numbufs buf
    | .gotsem poolid buf bufsiz numbufs, sem => d.gotsem poolid buf bufsiz numbufs sem
    | .undone, _ => ({ d with nbpools := d.nbpools - 1 }, .ret SYSERR)
    | .waited poolid, _ => d.waited poolid
    | .signalled, _ => (d, .ret OK)

end Bufpool

end Xinu
