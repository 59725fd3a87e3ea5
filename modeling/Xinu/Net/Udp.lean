import Xinu.Lib.Ring
import Xinu.Lib.History
import Xinu.Kernel.Libraries
import Xinu.Kernel.Evaluation

/-!
# UDP endpoints

The receiving side of `udp.c` as a library on the system calls: `udp_in`, `udp_register`, `udp_recv`, `udp_recvaddr` and
`udp_release`. All of them run with interrupts disabled, so a segment between two system calls is atomic. `freebuf` returns a
buffer to the pool of network buffers and signals the semaphore of the pool; the signals that `udp_release` makes while
rescheduling is deferred are those of `signaln`.

`log` is not a variable of the source: it records what has been enqueued and delivered.
-/

namespace Xinu

def UDP_SLOTS : Int := 6
def UDP_QSIZ : Int := 8
def UDP_HDR_LEN : Int := 8

inductive UdState where
  | UDP_FREE
  | UDP_USED
  | UDP_RECV
deriving Repr, DecidableEq, Inhabited

/-- The fields of a `struct netpacket` that the receiving side reads, with the address of the buffer. -/
structure UdpPacket where
  addr : Nat
  net_ipsrc : Nat
  net_udpsport : Nat
  net_udpdport : Nat
  net_udplen : Nat
  net_udpdata : List Nat
deriving Repr, DecidableEq

/-- `struct udpentry`; a place of the queue that was never assigned holds a null pointer. -/
structure Udpentry where
  udstate : UdState
  udremip : Nat
  udremport : Nat
  udlocport : Nat
  udhead : Int
  udtail : Int
  udcount : Int
  udpid : Int
  udqueue : Int → Option UdpPacket

instance : Inhabited Udpentry := ⟨⟨.UDP_FREE, 0, 0, 0, 0, 0, 0, 0, fun _ => none⟩⟩

/-- What UDP records of its past. -/
inductive UdpObs where
  | registered (slot : Int)
  | enqueued (slot : Int) (pkt : UdpPacket)
  /-- The packet, the bytes that were copied, and the sender's address if the caller asked for it. -/
  | delivered (slot : Int) (pkt : UdpPacket) (bytes : List Nat) (sender : Option (Nat × Nat))
  | released (slot : Int)
  /-- `freebuf` was called. -/
  | freed (pkt : UdpPacket)
deriving Repr, DecidableEq

structure Udp where
  udptab : Int → Udpentry
  /-- The semaphore of the pool of network buffers. -/
  netbufsem : Int
  log : List UdpObs

inductive UdpOp where
  | udpIn (pkt : UdpPacket)
  | udpRegister (remip remport locport : Nat)
  | udpRecv (slot len : Int) (timeout : Nat)
  | udpRecvaddr (slot len : Int) (timeout : Nat)
  | udpRelease (slot : Int)
deriving Repr, DecidableEq

/-- Where a routine goes on. -/
inductive UdpPoint where
  /-- Behind the call of `recvclr`. -/
  | cleared (slot len : Int) (timeout : Nat) (addr : Bool)
  /-- Behind the call of `recvtime`. -/
  | waited (slot len : Int) (addr : Bool)
  /-- Before the return. -/
  | done (v : Int)
deriving Repr, DecidableEq

/-- The slots in the order in which the loops visit them. -/
def udpSlots : List Int := (List.range UDP_SLOTS.toNat).map Int.ofNat

/-- The test of `udp_in`: the entry matches the packet. -/
def Udpentry.accepts (e : Udpentry) (pkt : UdpPacket) : Bool :=
  decide (pkt.net_udpdport = e.udlocport) && (decide (e.udremport = 0) || decide (pkt.net_udpsport = e.udremport)) &&
    (decide (e.udremip = 0) || decide (pkt.net_ipsrc = e.udremip))

/-- Take the packet at the head of the queue off it. -/
def Udpentry.advance (e : Udpentry) : Udpentry :=
  { e with udhead := Ring.next UDP_QSIZ e.udhead, udcount := e.udcount - 1 }

/-- The loop of `udp_release`. -/
def Udpentry.drain : Nat → Udpentry → Udpentry × List (Option UdpPacket)
  | 0, e => (e, [])
  | n + 1, e =>
    let (e', l) := drain n e.advance
    (e', e.udqueue e.udhead :: l)

/-- The records of `freebuf` for the packets of a list. -/
def freedLog (l : List (Option UdpPacket)) : List UdpObs := (l.filterMap (fun x => x.map UdpObs.freed)).reverse

namespace Udp

variable (u : Udp)

def note (o : UdpObs) : Udp := { u with log := o :: u.log }

def setSlot (slot : Int) (e : Udpentry) : Udp := { u with udptab := Function.update u.udptab slot e }

/-- `udp_in`: handle an incoming UDP packet. -/
def udpIn (pkt : UdpPacket) : Udp × Next UdpPoint :=
  match udpSlots.find? (fun i => decide ((u.udptab i).udstate ≠ .UDP_FREE) && (u.udptab i).accepts pkt &&
      decide ((u.udptab i).udcount < UDP_QSIZ)) with
  | none => (u.note (.freed pkt), .call (.signal u.netbufsem) (.done 0))
  | some i =>
    let e := u.udptab i
    let e' := { e with
      udcount := e.udcount + 1
      udqueue := Function.update e.udqueue e.udtail (some pkt)
      udtail := Ring.next UDP_QSIZ e.udtail }
    let u := u.note (.enqueued i pkt)
    if e.udstate = .UDP_RECV then
      (u.setSlot i { e' with udstate := .UDP_USED }, .call (.send e.udpid OK.toNat) (.done 0))
    else (u.setSlot i e', .ret 0)

/-- `udp_register`: register a remote IP, remote port and local port. -/
def udpRegister (remip remport locport : Nat) : Udp × Next UdpPoint :=
  let remip := remip % 4294967296
  let remport := remport % 65536
  let locport := locport % 65536
  if udpSlots.any (fun i => decide ((u.udptab i).udstate ≠ .UDP_FREE) && decide (remport = (u.udptab i).udremport) &&
      decide (locport = (u.udptab i).udlocport) && decide (remip = (u.udptab i).udremip)) then (u, .ret SYSERR)
  else
    match udpSlots.find? (fun i => decide ((u.udptab i).udstate = .UDP_FREE)) with
    | none => (u, .ret SYSERR)
    | some i =>
      ((u.setSlot i { u.udptab i with
        udlocport := locport, udremport := remport, udremip := remip, udcount := 0, udhead := 0, udtail := 0, udpid := -1,
        udstate := .UDP_USED }).note (.registered i), .ret i)

/-- The end of `udp_recv` and `udp_recvaddr`: a packet has arrived, dequeue it. `udp_recvaddr` reads the packet before it
decrements the count. -/
def dequeue (slot len : Int) (addr : Bool) : Udp × Next UdpPoint :=
  let e := u.udptab slot
  match e.udqueue e.udhead with
  | none => (u.setSlot slot (if addr then { e.advance with udcount := e.udcount } else e.advance), .stop .faulted)
  | some pkt =>
    let msglen : Int := pkt.net_udplen - UDP_HDR_LEN
    let msglen := if len < msglen then len else msglen
    let sender := if addr then some (pkt.net_ipsrc, pkt.net_udpsport) else none
    (((u.setSlot slot e.advance).note (.delivered slot pkt (pkt.net_udpdata.take msglen.toNat) sender)).note (.freed pkt),
      .call (.signal u.netbufsem) (.done msglen))

/-- `udp_recv` and `udp_recvaddr` up to the call of `recvclr`. -/
def recv (pid slot len : Int) (timeout : Nat) (addr : Bool) : Udp × Next UdpPoint :=
  if slot < 0 ∨ slot ≥ UDP_SLOTS then (u, .ret SYSERR)
  else if (u.udptab slot).udstate ≠ .UDP_USED then (u, .ret SYSERR)
  else if (u.udptab slot).udcount = 0 then
    (u.setSlot slot { u.udptab slot with udstate := .UDP_RECV, udpid := pid }, .call .recvclr (.cleared slot len timeout addr))
  else u.dequeue slot len addr

/-- `udp_recv` and `udp_recvaddr` behind the call of `recvtime`, which has returned `msg`. -/
def wake (slot len : Int) (addr : Bool) (msg : Int) : Udp × Next UdpPoint :=
  let u := u.setSlot slot { u.udptab slot with udstate := .UDP_USED }
  if msg = uint32 TIMEOUT then (u, .ret TIMEOUT)
  else if msg ≠ OK then (u, .ret SYSERR)
  else u.dequeue slot len addr

/-- `udp_recv`: receive a UDP packet. -/
def udpRecv (pid slot len : Int) (timeout : Nat) : Udp × Next UdpPoint := u.recv pid slot len timeout false

/-- `udp_recvaddr`: receive a UDP packet and record the sender's address. -/
def udpRecvaddr (pid slot len : Int) (timeout : Nat) : Udp × Next UdpPoint := u.recv pid slot len timeout true

/-- `udp_release`: release a previously registered UDP slot. -/
def udpRelease (slot : Int) : Udp × Next UdpPoint :=
  if slot < 0 ∨ slot ≥ UDP_SLOTS then (u, .ret SYSERR)
  else if (u.udptab slot).udstate = .UDP_FREE then (u, .ret SYSERR)
  else
    let (e, l) := (u.udptab slot).drain (u.udptab slot).udcount.toNat
    if none ∈ l then (u.setSlot slot e, .stop .faulted)
    else
      let u := { u.setSlot slot { e with udstate := .UDP_FREE } with
        log := freedLog l ++ .released slot :: u.log }
      if l.length = 0 then (u, .ret OK) else (u, .call (.signaln u.netbufsem l.length) (.done OK))

end Udp

/-- The table after `udp_init`, with the semaphore of the pool of network buffers. -/
def Udp.udpInit (netbufsem : Int) : Udp := { udptab := fun _ => default, netbufsem := netbufsem, log := [] }

/-- UDP as a library. -/
@[reducible] def udp : Client where
  Data := Udp
  Op := UdpOp
  F := UdpPoint
  enter u pid
    | .udpIn pkt => u.udpIn pkt
    | .udpRegister remip remport locport => u.udpRegister remip remport locport
    | .udpRecv slot len timeout => u.udpRecv pid slot len timeout
    | .udpRecvaddr slot len timeout => u.udpRecvaddr pid slot len timeout
    | .udpRelease slot => u.udpRelease slot
  resume u _
    | .cleared slot len timeout addr, _ => (u, .call (.recvtime timeout) (.waited slot len addr))
    | .waited slot len addr, msg => u.wake slot len addr msg
    | .done v, _ => (u, .ret v)

/-! ## Evaluation -/
def Forcing.udState : Forcing UdState where
  app s f := match s with
    | .UDP_FREE => f .UDP_FREE
    | .UDP_USED => f .UDP_USED
    | .UDP_RECV => f .UDP_RECV
  app_eq s f := by cases s <;> rfl

def Forcing.udpentry : Forcing Udpentry where
  app e f := udState.app e.udstate fun st => nat.app e.udremip fun a => nat.app e.udremport fun b =>
    nat.app e.udlocport fun c => int.app e.udhead fun h => int.app e.udtail fun t => int.app e.udcount fun n =>
    int.app e.udpid fun p => (table [0, 1, 2] (option (id _))).app e.udqueue fun q => f ⟨st, a, b, c, h, t, n, p, q⟩
  app_eq e f := by simp only [app_eq]

/-- How to evaluate a machine with UDP. -/
def Forcing.udpMachine : Forcing (Machine udp) :=
  machine ⟨[0, 1, 2], [0], [4096]⟩ (id _)
    ⟨fun u f => (table [0, 1] udpentry).app u.udptab fun tab => int.app u.netbufsem fun s => f ⟨tab, s, u.log⟩,
      fun u f => by simp only [app_eq]⟩

end Xinu
