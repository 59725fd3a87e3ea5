import Xinu.Kernel.Nesting
import Xinu.Kernel.Evaluation
import Xinu.Lib.History
import Xinu.Lib.Machine
import Xinu.Net.Ip

/-!
# ARP among processes

`arp_resolve` and `arp_in` of `arp.c` as a library on the system calls. Both run with interrupts disabled; other processes run when
`write` waits for a place in the transmit queue, while `arp_resolve` waits for a message, and when `arp_in` sends one. The frames
that are written are not kept.

`log` is not a variable of the source: it records what became of the cache.
-/

namespace Xinu

namespace Arp

open Ip (Network)
open Netpacket (IP_BCAST)

inductive Obs where
  /-- `arp_alloc` handed out the slot for a new entry. -/
  | created (slot : Nat)
  /-- `arp_in` has processed a packet with this sender. -/
  | heard (sndpa : Nat) (sndha : List UInt8)
  /-- `arp_resolve` returned `OK` and this hardware address. -/
  | answered (pid : Int) (nxthop : Nat) (mac : List UInt8)
deriving Repr, DecidableEq

structure Table where
  arpcache : Cache
  netData : Network
  /-- The semaphores of the Ethernet's transmit queue and of the pool of network buffers. -/
  osem : Int
  netbufsem : Int
  log : List Obs

inductive Op where
  | arpResolve (nxthop : Nat)
  /-- The packet is in network order. -/
  | arpIn (pktptr : Netpacket)
  /-- Some other part of the network code changes `NetData`. -/
  | configure (netData : Network)

/-- Where a routine goes on. -/
inductive Point where
  /-- Behind the call of `recvclr`. -/
  | cleared (slot nxthop : Nat)
  /-- Behind the `write` of the request, in iteration `i`. -/
  | written (slot nxthop i : Nat)
  /-- Behind the call of `recvtime`, in iteration `i`. -/
  | received (slot nxthop i : Nat)
  /-- Behind the call of `send` in `arp_in`; the packet is in host order. -/
  | informed (pktptr : Netpacket)
  /-- Behind the `write` of the reply. -/
  | replied
  /-- Before the return. -/
  | done (v : Int)

namespace Table

variable (d : Table)

def note (o : Obs) : Table := { d with log := o :: d.log }

def setSlot (slot : Nat) (e : Arpentry) : Table := { d with arpcache := Function.update d.arpcache slot e }

/-- `freebuf` of the packet in `arp_in`. -/
def freebuf : Table × Next Point := (d, .call (.signal d.netbufsem) (.done 0))

/-- `arp_resolve` up to the call of `recvclr`. -/
def arpResolve (pid : Int) (nxthop : Nat) : Table × Next Point :=
  let nxthop := nxthop % 4294967296
  if nxthop = IP_BCAST then (d, .ret OK)
  else if nxthop = d.netData.ipbcast then (d, .ret OK)
  else
    match d.arpcache.search nxthop with
    | some i =>
      if (d.arpcache i).arstate = .AR_RESOLVED then (d.note (.answered pid nxthop (d.arpcache i).arhaddr), .ret OK)
      else (d, .ret SYSERR)
    | none =>
      match d.arpcache.arpAlloc with
      | none => (d, .ret SYSERR)
      | some (slot, cache) =>
        (({ d with arpcache := cache }.setSlot slot
          { cache slot with arstate := .AR_PENDING, arpaddr := nxthop, arpid := pid }).note (.created slot),
          .call .recvclr (.cleared slot nxthop))

/-- `arp_resolve` behind the call of `recvtime`, which has returned `msg`. -/
def received (pid : Int) (slot nxthop i : Nat) (msg : Int) : Table × Next Point :=
  let msg := int32 msg
  if msg = TIMEOUT then
    if i + 1 < ARP_RETRY then (d, .call (.wait d.osem) (.written slot nxthop (i + 1)))
    else (d.setSlot slot { d.arpcache slot with arstate := .AR_FREE }, .ret TIMEOUT)
  else if msg = SYSERR then (d, .ret SYSERR)
  else (d.note (.answered pid nxthop (d.arpcache slot).arhaddr), .ret OK)

/-- The end of `arp_in`: a request for the address of this machine is answered. -/
def arpRequest (pkt : Netpacket) (found : Bool) : Table × Next Point :=
  if pkt.w16 arp_op = ARP_OP_RPLY then d.freebuf
  else if d.netData.ipvalid = false ∨ pkt.w32 arp_tarpa ≠ d.netData.ipucast then d.freebuf
  else if found then (d, .call (.wait d.osem) .replied)
  else
    match d.arpcache.arpAlloc with
    | none => d.freebuf
    | some (slot, cache) =>
      (({ d with arpcache := cache }.setSlot slot
        { cache slot with arpaddr := pkt.w32 arp_sndpa, arhaddr := haddr pkt arp_sndha, arstate := .AR_RESOLVED }).note
          (.created slot), .call (.wait d.osem) .replied)

/-- `arp_in` up to the call of `send`, if there is one. -/
def arpIn (pktptr : Netpacket) : Table × Next Point :=
  let pkt := arpNtoh pktptr
  if pkt.w16 arp_htype ≠ ARP_HTYPE ∨ pkt.w16 arp_ptype ≠ ARP_PTYPE then d.freebuf
  else
    let heard := Obs.heard (pkt.w32 arp_sndpa) (haddr pkt arp_sndha)
    match d.arpcache.search (pkt.w32 arp_sndpa) with
    | some slot =>
      let e := { d.arpcache slot with arhaddr := haddr pkt arp_sndha }
      if e.arstate = .AR_PENDING then
        ((d.setSlot slot { e with arstate := .AR_RESOLVED }).note heard, .call (.send e.arpid OK.toNat) (.informed pkt))
      else ((d.setSlot slot e).note heard).arpRequest pkt true
    | none => ((d.arpRequest pkt false).1.note heard, (d.arpRequest pkt false).2)

end Table

/-- ARP as a library. -/
@[reducible] def arp : Client where
  Data := Table
  Op := Op
  F := Point
  enter d pid
    | .arpResolve nxthop => d.arpResolve pid nxthop
    | .arpIn pktptr => d.arpIn pktptr
    | .configure netData => ({ d with netData := netData }, .ret OK)
  resume d pid
    | .cleared slot nxthop, _ => (d, .call (.wait d.osem) (.written slot nxthop 0))
    | .written slot nxthop i, _ => (d, .call (.recvtime ARP_TIMEOUT) (.received slot nxthop i))
    | .received slot nxthop i, msg => d.received pid slot nxthop i msg
    | .informed pkt, _ => d.arpRequest pkt true
    | .replied, _ => d.freebuf
    | .done v, _ => (d, .ret v)

/-- The table at the start. -/
def Table.init (netData : Network) (osem netbufsem : Int) : Table :=
  { arpcache := Cache.arpInit, netData := netData, osem := osem, netbufsem := netbufsem, log := [] }

end Arp

/-! ## Evaluation -/

open Arp

def Forcing.arState : Forcing ArState where
  app s f := match s with
    | .AR_FREE => f .AR_FREE
    | .AR_PENDING => f .AR_PENDING
    | .AR_RESOLVED => f .AR_RESOLVED
  app_eq s f := by cases s <;> rfl

def Forcing.arpentry : Forcing Arpentry where
  app e f := arState.app e.arstate fun st => nat.app e.arpaddr fun a => int.app e.arpid fun p => f ⟨st, a, p, e.arhaddr⟩
  app_eq e f := by simp only [app_eq]

/-- How to evaluate a machine with ARP. -/
def Forcing.arpMachine : Forcing (Machine arp) :=
  machine ⟨[0, 1, 2], [0, 1], [4096]⟩ (id _)
    ⟨fun d f => (table slots arpentry).app d.arpcache fun cache => int.app d.osem fun o => int.app d.netbufsem fun b =>
      f ⟨cache, d.netData, o, b, d.log⟩, fun d f => by simp only [app_eq]⟩

end Xinu
