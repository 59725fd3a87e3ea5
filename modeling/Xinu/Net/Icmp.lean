import Xinu.Lib.Ring
import Xinu.Lib.History
import Xinu.Kernel.Libraries
import Xinu.Kernel.Evaluation

/-!
# ICMP echo

`icmp_in`, `icmp_register`, `icmp_recv` and `icmp_release` of `icmp.c` as a library on the system calls. They run with
interrupts disabled, so a segment between two system calls is atomic. The reply to an echo request is made and sent by
procedures that do not touch the table (`icmp_mkpkt` and `ip_enqueue`); here they are a procedure that may make any system
calls. `freebuf` signals the semaphore of the pool of network buffers; the signals that `icmp_release` makes while
rescheduling is deferred are those of `signaln`.

`log` is not a variable of the source: it records what has been queued and taken off the queues.
-/

namespace Xinu

def ICMP_SLOTS : Int := 10
def ICMP_QSIZ : Int := 8
def ICMP_HDR_LEN : Int := 8
def IP_HDR_LEN : Int := 20

/-- ICMP message types for ping. -/
def ICMP_ECHOREPLY : Nat := 0
def ICMP_ECHOREQST : Nat := 8

inductive IcState where
  | ICMP_FREE
  | ICMP_USED
  | ICMP_RECV
deriving Repr, DecidableEq, Inhabited

/-- The fields of a `struct netpacket` that are read here, with the address of the buffer. -/
structure IcmpPacket where
  addr : Nat
  net_ipsrc : Nat
  net_iplen : Nat
  net_ictype : Nat
  net_icident : Nat
  net_icdata : List Nat
deriving Repr, DecidableEq

/-- `struct icmpentry`; a place of the queue that was never assigned holds a null pointer. -/
structure Icmpentry where
  icstate : IcState
  icremip : Nat
  ichead : Int
  ictail : Int
  iccount : Int
  icpid : Int
  icqueue : Int → Option IcmpPacket

instance : Inhabited Icmpentry := ⟨⟨.ICMP_FREE, 0, 0, 0, 0, 0, fun _ => none⟩⟩

/-- What ICMP records of its past. -/
inductive IcmpObs where
  | queued (slot : Int) (pkt : IcmpPacket)
  /-- `icmp_recv` took the packet off the queue, copied the bytes to its caller and called `freebuf` for the packet. -/
  | received (slot : Int) (pkt : IcmpPacket) (bytes : List Nat)
  /-- `icmp_release` took the packet off the queue and called `freebuf` for it. -/
  | discarded (slot : Int) (pkt : IcmpPacket)
  | released (slot : Int)
  /-- `icmp_in` called `freebuf` for a packet it does not queue. -/
  | dropped (pkt : IcmpPacket)
deriving Repr, DecidableEq

structure Icmp where
  icmptab : Int → Icmpentry
  /-- The semaphore of the pool of network buffers. -/
  netbufsem : Int
  log : List IcmpObs

inductive IcmpOp where
  | icmpIn (pkt : IcmpPacket)
  | icmpRegister (remip : Nat)
  | icmpRecv (icmpid len : Int) (timeout : Nat)
  | icmpRelease (icmpid : Int)
deriving Repr, DecidableEq

/-- Where a routine goes on. -/
inductive IcmpPoint where
  /-- The reply to an echo request has been made. -/
  | answered (pkt : IcmpPacket)
  /-- Behind the call of `recvclr`. -/
  | cleared (icmpid len : Int) (timeout : Nat)
  /-- Behind the call of `recvtime`. -/
  | waited (icmpid len : Int)
  /-- Before the return. -/
  | done (v : Int)
deriving Repr, DecidableEq

/-- The slots in the order in which the loops visit them. -/
def icmpSlots : List Int := (List.range ICMP_SLOTS.toNat).map Int.ofNat

/-- The packet at the head of a queue, inside the array. -/
def Icmpentry.front (e : Icmpentry) : Option IcmpPacket :=
  if 0 ≤ e.ichead ∧ e.ichead < ICMP_QSIZ then e.icqueue e.ichead else none

/-- Take the packet at the head of the queue off it. The index is compared with `ICMP_SLOTS`, as in the source. -/
def Icmpentry.advance (e : Icmpentry) : Icmpentry :=
  { e with ichead := Ring.next ICMP_SLOTS e.ichead, iccount := e.iccount - 1 }

/-- The loop of `icmp_release`; it stops where it reads outside the array or a null pointer. -/
def Icmpentry.drain : Nat → Icmpentry → List IcmpPacket → Option (Icmpentry × List IcmpPacket)
  | 0, e, l => some (e, l)
  | n + 1, e, l => e.front.bind (fun pkt => drain n e.advance (l ++ [pkt]))

namespace Icmp

variable (c : Icmp)

def note (o : IcmpObs) : Icmp := { c with log := o :: c.log }

def setSlot (slot : Int) (e : Icmpentry) : Icmp := { c with icmptab := Function.update c.icmptab slot e }

/-- `freebuf` of a packet that is not queued. -/
def drop (pkt : IcmpPacket) : Icmp × Next IcmpPoint := (c.note (.dropped pkt), .call (.signal c.netbufsem) (.done 0))

/-- `icmp_in`: handle an incoming icmp packet. -/
def icmpIn (pkt : IcmpPacket) : Icmp × Next IcmpPoint :=
  if pkt.net_ictype ≠ ICMP_ECHOREPLY ∧ pkt.net_ictype ≠ ICMP_ECHOREQST then c.drop pkt
  else if pkt.net_ictype = ICMP_ECHOREQST then (c, .callback (.answered pkt))
  else
    let slot : Int := pkt.net_icident
    if slot < 0 ∨ slot ≥ ICMP_SLOTS then c.drop pkt
    else
      let e := c.icmptab slot
      if e.icstate = .ICMP_FREE ∨ pkt.net_ipsrc ≠ e.icremip then c.drop pkt
      else
        let e' := { e with
          iccount := e.iccount + 1
          icqueue := Function.update e.icqueue e.ictail (some pkt)
          ictail := Ring.next ICMP_QSIZ e.ictail }
        let c := c.note (.queued slot pkt)
        if e.icstate = .ICMP_RECV then
          (c.setSlot slot { e' with icstate := .ICMP_USED }, .call (.send e.icpid OK.toNat) (.done 0))
        else (c.setSlot slot e', .ret 0)

/-- `icmp_register`: register a remote IP address for ping replies. -/
def icmpRegister (remip : Nat) : Icmp × Next IcmpPoint :=
  let remip := remip % 4294967296
  if icmpSlots.any (fun i => decide ((c.icmptab i).icstate ≠ .ICMP_FREE) && decide ((c.icmptab i).icremip = remip)) then
    (c, .ret SYSERR)
  else
    match icmpSlots.find? (fun i => decide ((c.icmptab i).icstate = .ICMP_FREE)) with
    | none => (c, .ret SYSERR)
    | some i =>
      (c.setSlot i { c.icmptab i with
        icstate := .ICMP_USED, icremip := remip, iccount := 0, ichead := 0, ictail := 0, icpid := -1 }, .ret i)

/-- The end of `icmp_recv`: a packet has arrived, dequeue it. -/
def dequeue (icmpid len : Int) : Icmp × Next IcmpPoint :=
  let e := c.icmptab icmpid
  match e.front with
  | none => (c.setSlot icmpid e.advance, .stop .faulted)
  | some pkt =>
    let datalen : Int := pkt.net_iplen - IP_HDR_LEN - ICMP_HDR_LEN
    let n := min datalen.toNat len.toNat
    ((c.setSlot icmpid e.advance).note (.received icmpid pkt (pkt.net_icdata.take n)), .call (.signal c.netbufsem) (.done n))

/-- `icmp_recv`: receive an icmp echo reply packet. -/
def icmpRecv (pid icmpid len : Int) (timeout : Nat) : Icmp × Next IcmpPoint :=
  if icmpid < 0 ∨ icmpid ≥ ICMP_SLOTS then (c, .ret SYSERR)
  else if (c.icmptab icmpid).icstate ≠ .ICMP_USED then (c, .ret SYSERR)
  else if (c.icmptab icmpid).iccount = 0 then
    (c.setSlot icmpid { c.icmptab icmpid with icstate := .ICMP_RECV, icpid := pid },
      .call .recvclr (.cleared icmpid len timeout))
  else c.dequeue icmpid len

/-- `icmp_recv` behind the call of `recvtime`, which has returned `msg`. -/
def wake (icmpid len msg : Int) : Icmp × Next IcmpPoint :=
  let c := c.setSlot icmpid { c.icmptab icmpid with icstate := .ICMP_USED }
  if msg = uint32 TIMEOUT then (c, .ret TIMEOUT)
  else if msg ≠ OK then (c, .ret SYSERR)
  else c.dequeue icmpid len

/-- `icmp_release`: release a previously registered icmpid. -/
def icmpRelease (icmpid : Int) : Icmp × Next IcmpPoint :=
  if icmpid < 0 ∨ icmpid ≥ ICMP_SLOTS then (c, .ret SYSERR)
  else if (c.icmptab icmpid).icstate ≠ .ICMP_USED then (c, .ret SYSERR)
  else
    match (c.icmptab icmpid).drain (c.icmptab icmpid).iccount.toNat [] with
    | none => (c, .stop .faulted)
    | some (e, l) =>
      let c := { c.setSlot icmpid { e with icstate := .ICMP_FREE } with
        log := .released icmpid :: ((l.map (IcmpObs.discarded icmpid)).reverse ++ c.log) }
      if l.length = 0 then (c, .ret OK) else (c, .call (.signaln c.netbufsem l.length) (.done OK))

/-- The table after `icmp_init`, with the semaphore of the pool of network buffers. -/
def icmpInit (netbufsem : Int) : Icmp := { icmptab := fun _ => default, netbufsem := netbufsem, log := [] }

end Icmp

/-- ICMP as a library. -/
@[reducible] def icmp : Client where
  Data := Icmp
  Op := IcmpOp
  F := IcmpPoint
  enter c pid
    | .icmpIn pkt => c.icmpIn pkt
    | .icmpRegister remip => c.icmpRegister remip
    | .icmpRecv icmpid len timeout => c.icmpRecv pid icmpid len timeout
    | .icmpRelease icmpid => c.icmpRelease icmpid
  resume c _
    | .answered pkt, _ => c.drop pkt
    | .cleared icmpid len timeout, _ => (c, .call (.recvtime timeout) (.waited icmpid len))
    | .waited icmpid len, msg => c.wake icmpid len msg
    | .done v, _ => (c, .ret v)

/-! ## Evaluation -/

def Forcing.icState : Forcing IcState where
  app s f := match s with
    | .ICMP_FREE => f .ICMP_FREE
    | .ICMP_USED => f .ICMP_USED
    | .ICMP_RECV => f .ICMP_RECV
  app_eq s f := by cases s <;> rfl

def Forcing.icmpentry : Forcing Icmpentry where
  app e f := icState.app e.icstate fun st => nat.app e.icremip fun a => int.app e.ichead fun h => int.app e.ictail fun t =>
    int.app e.iccount fun n => int.app e.icpid fun p =>
    (table [0, 1, 2, 3, 4, 5, 6, 7] (option (id _))).app e.icqueue fun q => f ⟨st, a, h, t, n, p, q⟩
  app_eq e f := by simp only [app_eq]

/-- How to evaluate a machine with ICMP. -/
def Forcing.icmpMachine : Forcing (Machine icmp) :=
  machine ⟨[0, 1, 2], [0], [4096]⟩ (id _)
    ⟨fun c f => (table [0, 1] icmpentry).app c.icmptab fun tab => int.app c.netbufsem fun s => f ⟨tab, s, c.log⟩,
      fun c f => by simp only [app_eq]⟩

end Xinu
