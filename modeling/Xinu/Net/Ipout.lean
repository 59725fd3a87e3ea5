import Xinu.Lib.Ring
import Xinu.Kernel.Prompt
import Xinu.Kernel.Evaluation
import Xinu.Net.Ip

/-!
# The IP output queue

`ip_enqueue` and `ipout` of `ip.c` as a library on the system calls. `ip_enqueue` runs with interrupts disabled from `semcount` to
`signal`. `ipout` does not: interrupts are enabled between its `wait` and the statement that takes the packet off the queue, so
that user code runs there, as it does while the packet is processed.

`log` is not a variable of the source: it records what became of the packets.
-/

namespace Xinu

open Ip (Buf IP_OQSIZ)

inductive IpObs where
  /-- `ip_enqueue` stored the packet, and returns `OK`. -/
  | stored (pktptr : Buf)
  /-- `ip_enqueue` freed the packet, and returns `SYSERR`. -/
  | refused (pktptr : Buf)
  /-- `ipout` took the packet. -/
  | taken (pktptr : Buf)
deriving Repr, DecidableEq

/-- `ipoqueue`; a place that was never assigned holds a null pointer. -/
structure Ipoqueue where
  iqhead : Int
  iqtail : Int
  iqsem : Int
  iqbuf : Int → Option Buf
  /-- The semaphore of the pool of network buffers. -/
  netbufsem : Int
  log : List IpObs

inductive IpOp where
  | ipEnqueue (pktptr : Buf)
  | ipout
deriving Repr, DecidableEq

/-- Where a routine goes on. -/
inductive IpPoint where
  /-- Behind the call of `semcount`. -/
  | counted (pktptr : Buf)
  /-- Before the return. -/
  | done (v : Int)
  /-- Behind the call of `wait`. -/
  | waited
  /-- Before a packet is taken off the queue. -/
  | taking
  /-- While the packet is processed. -/
  | processing
deriving Repr, DecidableEq

namespace Ipoqueue

variable (q : Ipoqueue)

def note (o : IpObs) : Ipoqueue := { q with log := o :: q.log }

/-- `ip_enqueue` behind the call of `semcount`, which has returned `count`. -/
def ipEnqueue (pktptr : Buf) (count : Int) : Ipoqueue × Next IpPoint :=
  if count ≥ IP_OQSIZ then (q.note (.refused pktptr), .call (.signal q.netbufsem) (.done SYSERR))
  else
    ({ q with iqbuf := Function.update q.iqbuf q.iqtail (some pktptr), iqtail := Ring.next IP_OQSIZ q.iqtail }.note
      (.stored pktptr), .call (.signal q.iqsem) (.done OK))

/-- The next packet is taken off the queue by `ipout`, which writes to it. -/
def take : Ipoqueue × Next IpPoint :=
  let q' := { q with iqhead := Ring.next IP_OQSIZ q.iqhead }
  match q.iqbuf q.iqhead with
  | none => (q', .stop .faulted)
  | some pktptr => (q'.note (.taken pktptr), .callback .processing)

end Ipoqueue

/-- The IP output queue as a library. -/
@[reducible] def ipoq : Client where
  Data := Ipoqueue
  Op := IpOp
  F := IpPoint
  enter q _
    | .ipEnqueue pktptr => (q, .call (.semcount q.iqsem) (.counted pktptr))
    | .ipout => (q, .call (.wait q.iqsem) .waited)
  resume q _
    | .counted pktptr, count => q.ipEnqueue pktptr count
    | .done v, _ => (q, .ret v)
    | .waited, _ => (q, .callback .taking)
    | .taking, _ => q.take
    | .processing, _ => (q, .call (.wait q.iqsem) .waited)

/-- The number of network buffers. -/
def nbufs : Int := UDP_SLOTS * UDP_QSIZ + ICMP_SLOTS * ICMP_QSIZ + 1

/-- The queue that `net_init` leaves, for the semaphores that it has created. -/
def Ipoqueue.netInit (netbufsem iqsem : Int) : Ipoqueue :=
  { iqhead := 0, iqtail := 0, iqsem := iqsem, iqbuf := fun _ => none, netbufsem := netbufsem, log := [] }

/-- The machine after the null process has created the pool of network buffers and the queue. -/
def ipBoot (minheap maxheap : Nat) : Machine ipoq :=
  { boot ipoq (Ipoqueue.netInit 0 1) minheap maxheap with k := (((sysinit minheap maxheap).semcreate nbufs).1.semcreate 0).1 }

/-- The semaphores are those that `semcreate` returns. -/
theorem ipBoot_sems (minheap maxheap : Nat) :
    ((sysinit minheap maxheap).semcreate nbufs).2 = .ret (ipBoot minheap maxheap).data.netbufsem ∧
      (((sysinit minheap maxheap).semcreate nbufs).1.semcreate 0).2 = .ret (ipBoot minheap maxheap).data.iqsem :=
  ⟨rfl, rfl⟩

namespace Forcing

def ipData : Forcing Ipoqueue where
  app q f := int.app q.iqhead fun h => int.app q.iqtail fun t => (table [0, 1, 2, 3, 4, 5, 6, 7] (option nat)).app q.iqbuf fun b =>
    f { q with iqhead := h, iqtail := t, iqbuf := b }
  app_eq q f := by simp only [app_eq]

/-- How to evaluate a machine with the queue. -/
def ipMachine : Forcing (Machine ipoq) := machine ⟨[0, 1, 2], [0, 1], [4096]⟩ (id _) ipData

end Forcing

end Xinu
