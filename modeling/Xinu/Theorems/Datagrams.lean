import Xinu.Lib.Medium
import Xinu.Net.Datagram

/-!
# Datagrams between hosts

Several hosts with UDP on one wire, which may lose, repeat, delay and reorder frames, and may deliver one to any host. What `udp_recv`
and `udp_recvaddr` deliver is the beginning of the data of a datagram that a host has sent to this one.
-/

namespace Xinu

/-! ## What is in the queues -/

namespace Udp

/-- Every packet in a queue has the property, and so has every one that was delivered; what was delivered is the beginning of its
data, and its sender. -/
structure Stocks (G : UdpPacket → Prop) (u : Udp) : Prop where
  queued : ∀ s k pkt, (u.udptab s).udqueue k = some pkt → G pkt
  delivered : ∀ s pkt bytes sender, .delivered s pkt bytes sender ∈ u.log → G pkt ∧
    bytes <+: pkt.net_udpdata.take (pkt.net_udplen - 8) ∧ (sender = none ∨ sender = some (pkt.net_ipsrc, pkt.net_udpsport))

variable {G : UdpPacket → Prop} {u u' : Udp} {i : Int} {e : Udpentry}

/-- The queues hold what they held, and packets with the property; nothing is delivered. -/
theorem Stocks.change (H : Stocks G u)
    (hq : ∀ s k pkt, (u'.udptab s).udqueue k = some pkt → (u.udptab s).udqueue k = some pkt ∨ G pkt)
    (hd : ∀ s pkt bytes sender, .delivered s pkt bytes sender ∈ u'.log → .delivered s pkt bytes sender ∈ u.log) : Stocks G u' :=
  ⟨fun s k pkt h => (hq s k pkt h).elim (H.queued s k pkt) id, fun s pkt bytes sender h =>
    H.delivered s pkt bytes sender (hd s pkt bytes sender h)⟩

/-- An entry changes, but not its queue. -/
theorem queue_setSlot (he : e.udqueue = (u.udptab i).udqueue) (s : Int) : ((u.setSlot i e).udptab s).udqueue = (u.udptab s).udqueue := by
  change (Function.update u.udptab i e s).udqueue = _
  by_cases h : s = i
  · rw [h, Function.update_self, he]
  · rw [Function.update_of_ne h]

theorem Stocks.setSlot (H : Stocks G u) (he : e.udqueue = (u.udptab i).udqueue) : Stocks G (u.setSlot i e) :=
  H.change (fun s _ _ h => Or.inl (queue_setSlot he s ▸ h)) fun _ _ _ _ h => h

theorem Stocks.note (H : Stocks G u) {o : UdpObs} (ho : ∀ s pkt bytes sender, o ≠ .delivered s pkt bytes sender) :
    Stocks G (u.note o) :=
  H.change (fun _ _ _ h => Or.inl h) fun s pkt bytes sender h =>
    (List.mem_cons.mp h).resolve_left fun h' => ho s pkt bytes sender h'.symm

/-- A packet that arrives is one of the good ones, and so is what is queued then. -/
theorem Stocks.udpIn (H : Stocks G u) {pkt : UdpPacket} (hG : G pkt) : Stocks G (u.udpIn pkt).1 := by
  have hput : ∀ (i : Int) (e : Udpentry), e.udqueue = Function.update (u.udptab i).udqueue (u.udptab i).udtail (some pkt) →
      Stocks G ((u.note (.enqueued i pkt)).setSlot i e) := by
    intro i e he
    refine H.change (fun s k p hp => ?_) fun s p bytes sender h => (List.mem_cons.mp h).resolve_left nofun
    change (Function.update u.udptab i e s).udqueue k = some p at hp
    by_cases hs : s = i
    · rw [hs, Function.update_self, he] at hp
      by_cases hk : k = (u.udptab i).udtail
      · rw [hk, Function.update_self] at hp
        exact Or.inr (Option.some.inj hp ▸ hG)
      · rw [Function.update_of_ne hk] at hp
        exact Or.inl (hs ▸ hp)
    · rw [Function.update_of_ne hs] at hp
      exact Or.inl hp
  unfold Udp.udpIn
  split
  · exact H.note nofun
  · simp only
    split_ifs
    · exact hput _ _ rfl
    · exact hput _ _ rfl

/-- Registering brings no packet into a queue. -/
theorem Stocks.udpRegister (H : Stocks G u) (remip remport locport : Nat) : Stocks G (u.udpRegister remip remport locport).1 := by
  unfold Udp.udpRegister
  simp only
  split_ifs
  · exact H
  · split
    · exact H
    · next i _ =>
      have hnew : Stocks G (u.setSlot i { u.udptab i with
          udlocport := locport % 65536, udremport := remport % 65536, udremip := remip % 4294967296, udcount := 0, udhead := 0,
          udtail := 0, udpid := -1, udstate := .UDP_USED }) := H.setSlot rfl
      exact hnew.note nofun

/-- The packet at the head of a queue is delivered. -/
theorem Stocks.dequeue (H : Stocks G u) (slot len : Int) (addr : Bool) : Stocks G (u.dequeue slot len addr).1 := by
  unfold Udp.dequeue
  simp only
  split
  · refine H.setSlot ?_
    split_ifs <;> rfl
  · next pkt hpkt =>
    refine Stocks.note ?_ nofun
    have hsame : ∀ s, (((u.setSlot slot (u.udptab slot).advance)).udptab s).udqueue = (u.udptab s).udqueue :=
      queue_setSlot (u := u) rfl
    refine ⟨fun s k p h => H.queued s k p (hsame s ▸ h), fun s p bytes sender h => ?_⟩
    rcases List.mem_cons.mp h with h | h
    · obtain ⟨-, rfl, rfl, rfl⟩ := UdpObs.delivered.inj h
      refine ⟨H.queued _ _ _ hpkt, List.take_prefix_take_left ?_, ?_⟩
      · unfold UDP_HDR_LEN
        split_ifs <;> omega
      · cases addr
        · exact Or.inl rfl
        · exact Or.inr rfl
    · exact H.delivered s p bytes sender h

/-- What a receive returns was queued. -/
theorem Stocks.recv (H : Stocks G u) (pid slot len : Int) (timeout : Nat) (addr : Bool) :
    Stocks G (u.recv pid slot len timeout addr).1 := by
  unfold Udp.recv
  split_ifs
  · exact H
  · exact H
  · exact H.setSlot rfl
  · exact H.dequeue slot len addr

/-- So was what it returns when it has waited. -/
theorem Stocks.wake (H : Stocks G u) (slot len : Int) (addr : Bool) (msg : Int) : Stocks G (u.wake slot len addr msg).1 := by
  have hused : Stocks G (u.setSlot slot { u.udptab slot with udstate := .UDP_USED }) := H.setSlot rfl
  unfold Udp.wake
  simp only
  split_ifs
  · exact hused
  · exact hused
  · exact hused.dequeue slot len addr

/-- `udp_release` leaves the packets where they are. -/
theorem drain_udqueue (n : Nat) (e : Udpentry) : (Udpentry.drain n e).1.udqueue = e.udqueue := by
  induction n generalizing e with
  | zero => rfl
  | succ n ih => exact ih e.advance

/-- Releasing an endpoint frees what it had queued. -/
theorem Stocks.udpRelease (H : Stocks G u) (slot : Int) : Stocks G (u.udpRelease slot).1 := by
  have hqueue := drain_udqueue (u.udptab slot).udcount.toNat (u.udptab slot)
  unfold Udp.udpRelease
  split_ifs with h1 h2
  · exact H
  · exact H
  · generalize Udpentry.drain (u.udptab slot).udcount.toNat (u.udptab slot) = x at hqueue
    obtain ⟨e, l⟩ := x
    have hfree : Stocks G { u.setSlot slot { e with udstate := .UDP_FREE } with
        log := freedLog l ++ .released slot :: u.log } := by
      have hsame := queue_setSlot (e := { e with udstate := .UDP_FREE }) hqueue
      refine H.change (fun s k p h => Or.inl (hsame s ▸ h)) fun s p bytes sender h => ?_
      rcases List.mem_append.mp h with h | h
      · unfold freedLog at h
        simp at h
      · exact (List.mem_cons.mp h).resolve_left nofun
    simp only
    split_ifs
    · exact H.setSlot hqueue
    · exact hfree
    · exact hfree

variable {m m' : Machine udp} {e : Event udp}

/-- Every event keeps it, when the packets that are passed to `udp_in` have the property. -/
theorem Stocks.step (H : Stocks G m.data) (hs : m.step e = some m') (hin : ∀ pkt, e = .op (.udpIn pkt) → G pkt) :
    Stocks G m'.data := by
  rw [Machine.segment_data hs]
  cases hx : m.segment e with
  | none => exact H
  | some x =>
    cases e with
    | call c | tick => cases hx
    | op o =>
      obtain rfl := Option.some.inj hx
      cases o with
      | udpIn pkt => exact H.udpIn (hin pkt rfl)
      | udpRegister remip remport locport => exact H.udpRegister remip remport locport
      | udpRecv slot len timeout => exact H.recv _ slot len timeout false
      | udpRecvaddr slot len timeout => exact H.recv _ slot len timeout true
      | udpRelease slot => exact H.udpRelease slot
    | ret | cont =>
      obtain ⟨⟨f, v⟩, hr, rfl⟩ := Option.map_eq_some_iff.mp hx
      cases f with
      | cleared slot len timeout addr => exact H
      | waited slot len addr => exact H.wake slot len addr v
      | done w => exact H

end Udp

/-! ## Hosts -/

open Ip (Network Datagram World Buf IP_VH)
open Netpacket (IP_BCAST)

/-- A host with UDP. -/
structure UdpHost where
  netData : Network
  machine : Machine udp

/-- What can happen to a host: an event of its processes, a send, and a frame that arrives. -/
inductive UdpEvent where
  /-- Any event of the machine, but no packet arrives. -/
  | machine (e : Event udp)
  /-- `ip_local` passes the packet to `udp_in`. -/
  | arrives (p : Buf) (pkt : Netpacket)
  /-- `udp_send` of `len` bytes. The system calls that it makes are events of their own. -/
  | udpSend (slot : Int) (buff : Nat → UInt8) (len : Int) (ident : Nat) (buf : Netpacket) (mac : List UInt8)
  /-- `udp_sendto`. -/
  | udpSendto (slot : Int) (remip remport : Nat) (buff : Nat → UInt8) (len : Int) (ident : Nat) (buf : Netpacket) (mac : List UInt8)

namespace UdpHost

variable (h : UdpHost)

def step : UdpEvent → Option UdpHost
  | .machine (.op (.udpIn _)) => none
  | .machine e => (h.machine.step e).map fun m => { h with machine := m }
  | .arrives p pkt => (h.machine.step (.op (.udpIn (Ip.udpPacket p pkt)))).map fun m => { h with machine := m }
  | .udpSend .. | .udpSendto .. => some h

/-- The checks of `udp_send` and `udp_sendto`. -/
def registered (slot : Int) : Bool :=
  decide (0 ≤ slot ∧ slot < UDP_SLOTS) && decide ((h.machine.data.udptab slot).udstate ≠ .UDP_FREE)

/-- The datagram that an event puts on the wire. -/
def sends : UdpEvent → Option Datagram
  | .udpSend slot buff len ident buf mac =>
    let e := h.machine.data.udptab slot
    if h.registered slot ∧ e.udremip ≠ 0 then
      some ⟨h.netData, ident, e.udremip, e.udlocport, e.udremport, buff, len, buf, mac⟩
    else none
  | .udpSendto slot remip remport buff len ident buf mac =>
    if h.registered slot then
      some ⟨h.netData, ident, remip, (h.machine.data.udptab slot).udlocport, remport, buff, len, buf, mac⟩
    else none
  | _ => none

end UdpHost

/-- Hosts with UDP on one wire. A buffer that begins with a frame is passed through the receiver's network code. -/
def udpWire : Exchange UdpHost UdpEvent Datagram where
  step h e := h.step e
  sends h e := h.sends e
  Takes ds h e := ∀ p pkt, e = .arrives p pkt → ∃ d ∈ ds, ∃ (others : World → World) (w : World),
    (w.bufs p).bytes d.frame.length = d.frame ∧ w.netData = h.netData ∧ pkt ∈ Ip.passed (Ip.demux others p) w

/-- The data of a caller fits in a frame. -/
def UdpEvent.fits : UdpEvent → Bool
  | .udpSend _ _ len _ _ _ | .udpSendto _ _ _ _ len _ _ _ => decide (0 ≤ len ∧ len ≤ 1472)
  | _ => true

section Runs

variable {ι : Type} (nd : ι → Network)

/-- A host that takes packets for the address. -/
def Reaches (nd : Network) (remip : Nat) : Prop :=
  remip % 4294967296 = IP_BCAST ∨ nd.ipvalid = false ∨ remip % 4294967296 = nd.ipucast ∨ remip % 4294967296 = nd.ipbcast

omit ι in
/-- A packet that `ip_in` passes on was addressed to the host. -/
theorem reaches_of_accepts {nd : Network} {pkt : Netpacket} {remip : Nat}
    (hdst : pkt.w32 Netpacket.net_ipdst = remip % 4294967296) (hacc : Ip.accepts nd pkt = true) : Reaches nd remip := by
  rw [Ip.accepts, hdst] at hacc
  rcases of_decide_eq_true hacc with hbcast | hacc
  · exact Or.inl hbcast
  · split_ifs at hacc with hvalid
    · exact Or.inr (Or.inl hvalid)
    · exact Or.inr (Or.inr hacc)

/-- The datagram that the packet carries has been sent to this host. -/
def SentTo (i : ι) (ds : List Datagram) (pkt : UdpPacket) : Prop :=
  ∃ d ∈ ds, ∃ j, d.netData = nd j ∧ Reaches (nd i) d.remip ∧ pkt.net_ipsrc = (nd j).ipucast ∧
    pkt.net_udpsport = d.locport % 65536 ∧ pkt.net_udpdport = d.remport % 65536 ∧
    pkt.net_udpdata.take (pkt.net_udplen - 8) = d.data

/-- A host sends what fits in a frame. -/
def FromHost (d : Datagram) (_ : List Datagram) : Prop := (∃ j, d.netData = nd j) ∧ 0 ≤ d.len ∧ d.len ≤ 1472

/-- What holds of a host between events. -/
structure Receiving (i : ι) (h : UdpHost) (ds : List Datagram) : Prop where
  netData : h.netData = nd i
  stocks : Udp.Stocks (SentTo nd i ds) h.machine.data

variable {nd} {i : ι} {h h' : UdpHost} {e : UdpEvent} {ds : List Datagram}

/-- What arrives has been sent. -/
theorem sentTo_of_arrives (hnd : ∀ j, (nd j).ipucast < 4294967296) (hg : Grounded (FromHost nd) ds) (hh : h.netData = nd i)
    (ht : udpWire.Takes ds h e) {p : Buf} {pkt : Netpacket} (he : e = .arrives p pkt) : SentTo nd i ds (Ip.udpPacket p pkt) := by
  obtain ⟨d, hd, others, w, hframe, hw, hpkt⟩ := ht p pkt he
  obtain ⟨l₁, l₂, -, ⟨j, hj⟩, h0, hlen⟩ := hg.of_mem hd
  obtain ⟨C, hacc⟩ := Datagram.arrived h0 hlen hframe hpkt
  rw [hw, hh] at hacc
  refine ⟨d, hd, j, hj, reaches_of_accepts C.dst hacc, ?_, C.sport, C.dport, ?_⟩
  · have hsrc := C.src
    rw [hj, Nat.mod_eq_of_lt (hnd j)] at hsrc
    exact hsrc
  · have hudplen : (Ip.udpPacket p pkt).net_udplen - 8 = d.len.toNat := by
      change pkt.w16 Netpacket.net_udplen - 8 = _
      rw [C.udplen]
      omega
    rw [hudplen, Ip.udpPacket, ← List.map_take, List.take_range, Nat.min_eq_left (by omega), Datagram.data]
    exact List.map_congr_left fun j hj => congrArg UInt8.toNat (C.data j (List.mem_range.mp hj))

theorem Udp.Stocks.mono {G G' : UdpPacket → Prop} {u : Udp} (H : Udp.Stocks G u) (hG : ∀ pkt, G pkt → G' pkt) : Udp.Stocks G' u :=
  ⟨fun s k pkt h => hG pkt (H.queued s k pkt h), fun s pkt bytes sender h => (H.delivered s pkt bytes sender h).imp_left (hG pkt)⟩

/-- Every event of a host keeps that it delivers datagrams that were sent to it. -/
theorem Receiving.step (hnd : ∀ j, (nd j).ipucast < 4294967296) (R : Receiving nd i h ds) (hg : Grounded (FromHost nd) ds)
    (ht : udpWire.Takes ds h e) (hs : h.step e = some h') : Receiving nd i h' ds := by
  have hmachine : ∀ k, (∀ pkt, k = .op (.udpIn pkt) → SentTo nd i ds pkt) →
      (h.machine.step k).map (fun m => { h with machine := m }) = some h' → Receiving nd i h' ds := by
    intro k hin hk
    obtain ⟨m, hm, rfl⟩ := Option.map_eq_some_iff.mp hk
    exact ⟨R.netData, R.stocks.step hm hin⟩
  cases e with
  | machine k =>
    have hk : ∀ pkt, k ≠ .op (.udpIn pkt) := by
      rintro pkt rfl
      cases hs
    refine hmachine k (fun pkt h => absurd h (hk pkt)) ?_
    cases k with
    | op o =>
      cases o with
      | udpIn pkt => exact absurd rfl (hk pkt)
      | udpRegister | udpRecv | udpRecvaddr | udpRelease => exact hs
    | call | tick | ret | cont => exact hs
  | arrives p pkt =>
    refine hmachine _ (fun q hq => ?_) hs
    obtain rfl := UdpOp.udpIn.inj (Event.op.inj hq)
    exact sentTo_of_arrives hnd hg R.netData ht rfl
  | udpSend | udpSendto =>
    obtain rfl := Option.some.inj hs
    exact R

/-- What a host sends has its addresses, and fits in a frame. -/
theorem Receiving.sends (R : Receiving nd i h ds) (hfits : e.fits = true) {d : Datagram} (hd : h.sends e = some d) :
    FromHost nd d ds := by
  cases e with
  | machine | arrives => cases hd
  | udpSend slot buff len ident buf mac =>
    simp only [UdpHost.sends] at hd
    split_ifs at hd
    obtain rfl := Option.some.inj hd
    exact ⟨⟨i, R.netData⟩, of_decide_eq_true hfits⟩
  | udpSendto slot remip remport buff len ident buf mac =>
    simp only [UdpHost.sends] at hd
    split_ifs at hd
    obtain rfl := Option.some.inj hd
    exact ⟨⟨i, R.netData⟩, of_decide_eq_true hfits⟩

/-- Every event of a host keeps what holds of it. -/
theorem receiving_keeps [DecidableEq ι] (hnd : ∀ j, (nd j).ipucast < 4294967296) :
    udpWire.Keeps (fun _ _ e => e.fits = true) (Receiving nd) (FromHost nd) where
  mono _ _ _ _ R := ⟨R.netData, R.stocks.mono fun _ ⟨d, hd, hsent⟩ => ⟨d, List.mem_cons_of_mem _ hd, hsent⟩⟩
  step _ _ _ _ _ R hg _ ht hs := R.step hnd hg ht hs
  sends _ _ _ _ _ _ R _ hfits _ _ hd := R.sends hfits hd

end Runs

/-- Hosts at the start; nothing has been sent. -/
def udpHosts {ι : Type} (nd : ι → Network) (netbufsem : ι → Int) (minheap maxheap : ι → Nat) : Medium ι UdpHost Datagram where
  party i := ⟨nd i, boot udp (Udp.udpInit (netbufsem i)) (minheap i) (maxheap i)⟩
  sent := []

/-- Whatever the wire does to the frames and the processes of the hosts to each other, what `udp_recv` and `udp_recvaddr` deliver is the
beginning of the data of a datagram that a host has sent to this one, to the port in the packet; and the sender that
`udp_recvaddr` reports is that host, and the port that it has sent from. -/
theorem udp_datagrams {ι : Type} [DecidableEq ι] (nd : ι → Network) (hnd : ∀ i, (nd i).ipucast < 4294967296) (netbufsem : ι → Int)
    (minheap maxheap : ι → Nat) {n : Medium ι UdpHost Datagram}
    (r : udpWire.Reach (fun _ _ e => e.fits = true) (udpHosts nd netbufsem minheap maxheap) n) (i : ι) (slot : Int) (pkt : UdpPacket)
    (bytes : List Nat) (sender : Option (Nat × Nat)) (h : .delivered slot pkt bytes sender ∈ (n.party i).machine.data.log) :
    ∃ d ∈ n.sent, ∃ j, d.netData = nd j ∧ Reaches (nd i) d.remip ∧ pkt.net_udpdport = d.remport % 65536 ∧ bytes <+: d.data ∧
      (sender = none ∨ sender = some ((nd j).ipucast, d.locport % 65536)) := by
  have hstart : ∀ i, Receiving nd i ((udpHosts nd netbufsem minheap maxheap).party i) [] := fun i =>
    ⟨rfl, ⟨nofun, nofun⟩⟩
  obtain ⟨hR, -⟩ := r.invariant (receiving_keeps hnd) hstart trivial
  obtain ⟨⟨d, hd, j, hj, hreach, hsrc, hsport, hdport, hdata⟩, hbytes, hsender⟩ := (hR i).stocks.delivered slot pkt bytes sender h
  rw [hdata] at hbytes
  rw [hsrc, hsport] at hsender
  exact ⟨d, hd, j, hj, hreach, hdport, hbytes, hsender⟩

/-! ## Evaluation -/

/-- How to evaluate a host with UDP. -/
def Forcing.udpHost : Forcing UdpHost where
  app h f := udpMachine.app h.machine fun m => f { h with machine := m }
  app_eq h f := by simp only [app_eq]

/-- The packet that is made of the frame of a datagram, in a buffer that holds nothing else. -/
def Ip.Datagram.received (d : Datagram) : Netpacket := (Ip.outgoing d.packet).ethNtoh.ipNtoh.udpNtoh

/-- An item of a script: a datagram arrives that has been sent, by its number, or something else happens. -/
def udpScript : Nat ⊕ UdpEvent → List Datagram → UdpHost → Option UdpEvent
  | .inl k, ds, h =>
    match ds[k]? with
    | some d => if 0 ≤ d.len ∧ d.len ≤ 1472 ∧ Ip.accepts h.netData d.received then some (.arrives 0 d.received) else none
    | none => none
  | .inr (.arrives ..), _, _ => none
  | .inr e, _, _ => some e

/-- A script takes from the wire what was put there. -/
theorem takes_udpScript : ∀ s ds h e, udpScript s ds h = some e → udpWire.Takes ds h e := by
  rintro s ds h e hscript p pkt rfl
  rcases s with k | e
  · simp only [udpScript] at hscript
    split at hscript
    · next d hd =>
      split_ifs at hscript with hok
      obtain ⟨h0, hlen, hacc⟩ := hok
      obtain ⟨rfl, rfl⟩ := UdpEvent.arrives.inj (Option.some.inj hscript)
      have hframe : (Ip.outgoing d.packet).bytes d.frame.length = d.frame := by simp [Datagram.frame, Netpacket.bytes]
      refine ⟨d, List.mem_of_getElem? hd, id,
        { Ip.receiver (fun _ => 0) (Ip.outgoing d.packet) with netData := h.netData }, hframe, rfl, ?_⟩
      obtain ⟨hpkt, hudp⟩ := Datagram.packet_hostOrder h0 hlen
      obtain ⟨hbytes, hpassed⟩ := Ip.passed_frame hpkt id 0
        (w := { Ip.receiver (fun _ => 0) (Ip.outgoing d.packet) with netData := h.netData }) hframe
      rw [hpassed, (Ip.incoming_udp hpkt hbytes hudp).1, Option.mem_toList, Option.filter_eq_some_iff]
      exact ⟨rfl, hacc⟩
    · cases hscript
  · cases e <;> cases hscript

/-- The machines at 10.0.0.2 and 10.0.0.1. -/
def udpPair (i : Bool) : Network where
  ipucast := if i then 0x0A000001 else 0x0A000002
  ipbcast := 0x0A0000FF
  ipmask := 0xFFFFFF00
  ipprefix := 0x0A000000
  iprouter := 0x0A000003
  ipvalid := true
  ethucast := [2, 0, 0, 0, 0, if i then 1 else 2]
  ethbcast := [255, 255, 255, 255, 255, 255]

/-- The bytes of the sender were delivered from the slot. -/
def UdpObs.delivers (slot : Int) (bytes : List Nat) (sender : Nat × Nat) : UdpObs → Bool
  | .delivered s _ bytes' sender' => decide (s = slot ∧ bytes' = bytes ∧ sender' = some sender)
  | _ => false

/-- The machine at 10.0.0.2 sends two bytes from port 5000 to port 7 of the one at 10.0.0.1. -/
theorem udp_datagrams_two : ∃ n pkt, udpWire.Reach (fun _ _ e => e.fits = true)
      (udpHosts udpPair (fun _ => 0) (fun _ => 4096) fun _ => 1048576) n ∧
    .delivered 0 pkt [104, 105] (some (0x0A000002, 5000)) ∈ (n.party true).machine.data.log ∧
    ∃ d ∈ n.sent, ∃ j, d.netData = udpPair j ∧ Reaches (udpPair true) d.remip ∧ pkt.net_udpdport = d.remport % 65536 ∧
      [104, 105] <+: d.data ∧
      (some (0x0A000002, 5000) = none ∨ some (0x0A000002, 5000) = some ((udpPair j).ipucast, d.locport % 65536)) := by
  obtain ⟨n, r, hf⟩ := udpWire.reach_of_evaluates Forcing.udpHost (fun _ _ e => e.fits = true) takes_udpScript
    (udpHosts udpPair (fun _ => 0) (fun _ => 4096) fun _ => 1048576)
    [(false, .inr (.machine (.op (.udpRegister 0 0 5000)))),
      (false, .inr (.udpSendto 0 0x0A000001 7 (fun j => if j = 0 then 104 else 105) 2 1 (fun _ => 0) [2, 0, 0, 0, 0, 1])),
      (true, .inr (.machine (.op (.udpRegister 0 0 7)))), (true, .inl 0), (true, .inr (.machine (.op (.udpRecvaddr 0 10 1000))))]
    (fun n => (n.party true).machine.data.log.any (UdpObs.delivers 0 [104, 105] (0x0A000002, 5000))) (by decide +kernel)
  obtain ⟨o, ho, hobs⟩ := List.any_eq_true.mp hf
  cases o with
  | delivered s pkt bytes sender =>
    obtain ⟨rfl, rfl, rfl⟩ := of_decide_eq_true hobs
    exact ⟨n, pkt, r, ho, udp_datagrams udpPair (fun i => by cases i <;> decide) _ _ _ r true 0 pkt _ _ ho⟩
  | registered | enqueued | released | freed => cases hobs

end Xinu
