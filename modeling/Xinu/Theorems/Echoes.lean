import Xinu.Lib.Medium
import Xinu.Net.Echo
import Xinu.Theorems.Datagrams

/-!
# Echo between hosts

Several hosts with ICMP on one wire, which may lose, repeat, delay and reorder frames, and may deliver one to any host. Processes send
echo requests and nothing else. What `icmp_recv` delivers is the beginning of the data of a request of this host, and it comes from a
host that the request went to.
-/

namespace Xinu

/-! ## What is in the queues -/

namespace Icmp

/-- Every packet in a queue has the property for its slot, and so has every one that was received, of which the beginning of the data
was copied. -/
structure Stocks (G : Int → IcmpPacket → Prop) (c : Icmp) : Prop where
  queued : ∀ s k pkt, (c.icmptab s).icqueue k = some pkt → G s pkt
  received : ∀ s pkt bytes, .received s pkt bytes ∈ c.log → G s pkt ∧
    bytes <+: pkt.net_icdata.take (pkt.net_iplen - IP_HDR_LEN - ICMP_HDR_LEN : Int).toNat

variable {G : Int → IcmpPacket → Prop} {c c' : Icmp} {i : Int} {e : Icmpentry}

/-- The queues hold what they held, and packets with the property; nothing is received. -/
theorem Stocks.change (H : Stocks G c)
    (hq : ∀ s k pkt, (c'.icmptab s).icqueue k = some pkt → (c.icmptab s).icqueue k = some pkt ∨ G s pkt)
    (hd : ∀ s pkt bytes, .received s pkt bytes ∈ c'.log → .received s pkt bytes ∈ c.log) : Stocks G c' :=
  ⟨fun s k pkt h => (hq s k pkt h).elim (H.queued s k pkt) id, fun s pkt bytes h => H.received s pkt bytes (hd s pkt bytes h)⟩

/-- An entry changes, but not its queue. -/
theorem queue_setSlot (he : e.icqueue = (c.icmptab i).icqueue) (s : Int) :
    ((c.setSlot i e).icmptab s).icqueue = (c.icmptab s).icqueue := by
  change (Function.update c.icmptab i e s).icqueue = _
  by_cases h : s = i
  · rw [h, Function.update_self, he]
  · rw [Function.update_of_ne h]

theorem Stocks.setSlot (H : Stocks G c) (he : e.icqueue = (c.icmptab i).icqueue) : Stocks G (c.setSlot i e) :=
  H.change (fun s _ _ h => Or.inl (queue_setSlot he s ▸ h)) fun _ _ _ h => h

theorem Stocks.drop (H : Stocks G c) (pkt : IcmpPacket) : Stocks G (c.drop pkt).1 :=
  H.change (fun _ _ _ h => Or.inl h) fun _ _ _ h => (List.mem_cons.mp h).resolve_left nofun

/-- A reply that arrives is one of the good ones, and so is what is queued then. -/
theorem Stocks.icmpIn (H : Stocks G c) {pkt : IcmpPacket} (hG : pkt.net_ictype = ICMP_ECHOREPLY → G pkt.net_icident pkt) :
    Stocks G (c.icmpIn pkt).1 := by
  have hput : pkt.net_ictype = ICMP_ECHOREPLY → ∀ e : Icmpentry,
      e.icqueue = Function.update (c.icmptab pkt.net_icident).icqueue (c.icmptab pkt.net_icident).ictail (some pkt) →
      Stocks G ((c.note (.queued pkt.net_icident pkt)).setSlot pkt.net_icident e) := by
    intro htype e he
    refine H.change (fun s k p hp => ?_) fun s p bytes h => (List.mem_cons.mp h).resolve_left nofun
    change (Function.update c.icmptab pkt.net_icident e s).icqueue k = some p at hp
    by_cases hs : s = pkt.net_icident
    · rw [hs, Function.update_self, he] at hp
      by_cases hk : k = (c.icmptab pkt.net_icident).ictail
      · rw [hk, Function.update_self] at hp
        exact Or.inr (Option.some.inj hp ▸ hs ▸ hG htype)
      · rw [Function.update_of_ne hk] at hp
        exact Or.inl (hs ▸ hp)
    · rw [Function.update_of_ne hs] at hp
      exact Or.inl hp
  unfold Icmp.icmpIn
  simp only
  split_ifs with h1 h2
  · exact H.drop pkt
  · exact H
  · exact H.drop pkt
  · exact H.drop pkt
  · exact hput (not_not.mp fun h => h1 ⟨h, h2⟩) _ rfl
  · exact hput (not_not.mp fun h => h1 ⟨h, h2⟩) _ rfl

/-- Registering brings no packet into a queue. -/
theorem Stocks.icmpRegister (H : Stocks G c) (remip : Nat) : Stocks G (c.icmpRegister remip).1 := by
  unfold Icmp.icmpRegister
  simp only
  split_ifs
  · exact H
  · split
    · exact H
    · exact H.setSlot rfl

/-- The packet at the head of a queue is received. -/
theorem Stocks.dequeue (H : Stocks G c) (icmpid len : Int) : Stocks G (c.dequeue icmpid len).1 := by
  unfold Icmp.dequeue
  simp only
  split
  · exact H.setSlot rfl
  · next pkt hpkt =>
    have hsame : ∀ s, ((c.setSlot icmpid (c.icmptab icmpid).advance).icmptab s).icqueue = (c.icmptab s).icqueue :=
      queue_setSlot (c := c) rfl
    refine ⟨fun s k p h => H.queued s k p (hsame s ▸ h), fun s p bytes h => ?_⟩
    rcases List.mem_cons.mp h with h | h
    · obtain ⟨rfl, rfl, rfl⟩ := IcmpObs.received.inj h
      unfold Icmpentry.front at hpkt
      split_ifs at hpkt
      exact ⟨H.queued _ _ _ hpkt, List.take_prefix_take_left (Nat.min_le_left _ _)⟩
    · exact H.received s p bytes h

/-- What a receive returns was queued. -/
theorem Stocks.icmpRecv (H : Stocks G c) (pid icmpid len : Int) (timeout : Nat) : Stocks G (c.icmpRecv pid icmpid len timeout).1 := by
  unfold Icmp.icmpRecv
  split_ifs
  · exact H
  · exact H
  · exact H.setSlot rfl
  · exact H.dequeue icmpid len

/-- So was what it returns when it has waited. -/
theorem Stocks.wake (H : Stocks G c) (icmpid len msg : Int) : Stocks G (c.wake icmpid len msg).1 := by
  have hused : Stocks G (c.setSlot icmpid { c.icmptab icmpid with icstate := .ICMP_USED }) := H.setSlot rfl
  unfold Icmp.wake
  simp only
  split_ifs
  · exact hused
  · exact hused
  · exact hused.dequeue icmpid len

/-- `icmp_release` leaves the packets where they are. -/
theorem drain_icqueue {n : Nat} {e e' : Icmpentry} {l l' : List IcmpPacket} (h : Icmpentry.drain n e l = some (e', l')) :
    e'.icqueue = e.icqueue := by
  induction n generalizing e l with
  | zero =>
    obtain ⟨rfl, -⟩ := Prod.mk.inj (Option.some.inj h)
    rfl
  | succ n ih =>
    obtain ⟨pkt, -, hrest⟩ := Option.bind_eq_some_iff.mp h
    have hadvance := ih hrest
    exact hadvance

/-- Releasing an endpoint brings no packet into a queue. -/
theorem Stocks.icmpRelease (H : Stocks G c) (icmpid : Int) : Stocks G (c.icmpRelease icmpid).1 := by
  unfold Icmp.icmpRelease
  split_ifs
  · exact H
  · exact H
  · split
    · exact H
    · next e l hdrain =>
      have hqueue := drain_icqueue hdrain
      have hsame := queue_setSlot (e := { e with icstate := .ICMP_FREE }) hqueue
      have hfree : Stocks G { c.setSlot icmpid { e with icstate := .ICMP_FREE } with
          log := .released icmpid :: ((l.map (IcmpObs.discarded icmpid)).reverse ++ c.log) } := by
        refine H.change (fun s k p h => Or.inl (hsame s ▸ h)) fun s p bytes h => ?_
        rcases List.mem_append.mp ((List.mem_cons.mp h).resolve_left nofun) with h | h
        · simp at h
        · exact h
      simp only
      split_ifs
      · exact hfree
      · exact hfree

variable {m m' : Machine icmp} {e : Event icmp}

/-- Every event keeps it, when the replies that are passed to `icmp_in` have the property. -/
theorem Stocks.step (H : Stocks G m.data) (hs : m.step e = some m')
    (hin : ∀ pkt, e = .op (.icmpIn pkt) → pkt.net_ictype = ICMP_ECHOREPLY → G pkt.net_icident pkt) : Stocks G m'.data := by
  rw [Machine.segment_data hs]
  cases hx : m.segment e with
  | none => exact H
  | some x =>
    cases e with
    | call c | tick => cases hx
    | op o =>
      obtain rfl := Option.some.inj hx
      cases o with
      | icmpIn pkt => exact H.icmpIn (hin pkt rfl)
      | icmpRegister remip => exact H.icmpRegister remip
      | icmpRecv icmpid len timeout => exact H.icmpRecv _ icmpid len timeout
      | icmpRelease icmpid => exact H.icmpRelease icmpid
    | ret | cont =>
      obtain ⟨⟨f, v⟩, hr, rfl⟩ := Option.map_eq_some_iff.mp hx
      cases f with
      | answered pkt => exact H.drop pkt
      | cleared icmpid len timeout => exact H
      | waited icmpid len => exact H.wake icmpid len v
      | done w => exact H

theorem Stocks.mono {G' : Int → IcmpPacket → Prop} (H : Stocks G c) (hG : ∀ s pkt, G s pkt → G' s pkt) : Stocks G' c :=
  ⟨fun s k pkt h => hG s pkt (H.queued s k pkt h), fun s pkt bytes h => (H.received s pkt bytes h).imp_left (hG s pkt)⟩

end Icmp

/-! ## Hosts -/

open Ip (Network Echo World Buf)

/-- A host with ICMP. -/
structure IcmpHost where
  netData : Network
  machine : Machine icmp

/-- What can happen to a host: an event of its processes, a ping, and a packet that arrives. -/
inductive IcmpEvent where
  /-- Any event of the machine, but no packet arrives. -/
  | machine (e : Event icmp)
  /-- `ip_local` passes the packet to `icmp_in`. If it is a request, the reply is made in a buffer with the contents `p`, with `ipid`
  for its identification, and is written to the Ethernet address `mac`. -/
  | arrives (b : Buf) (pkt : Netpacket) (ipid : Nat) (p : Netpacket) (mac : List UInt8)
  /-- `icmp_send` of an echo request. The system calls that it makes are events of their own. -/
  | icmpSend (remip ident seq : Nat) (buf : Nat → UInt8) (len : Int) (ipid : Nat) (p : Netpacket) (mac : List UInt8)

namespace IcmpHost

variable (h : IcmpHost)

def step : IcmpEvent → Option IcmpHost
  | .machine (.op (.icmpIn _)) => none
  | .machine e => (h.machine.step e).map fun m => { h with machine := m }
  | .arrives b pkt _ _ _ => (h.machine.step (.op (.icmpIn (Ip.icmpPacket b pkt)))).map fun m => { h with machine := m }
  | .icmpSend .. => some h

def sends : IcmpEvent → Option Echo
  | .machine _ => none
  | .arrives _ pkt ipid p mac =>
    if pkt.w8 Netpacket.net_ictype = ICMP_ECHOREQST then some (Echo.reply h.netData ipid pkt p mac) else none
  | .icmpSend remip ident seq buf len ipid p mac => some ⟨h.netData, ipid, remip, ICMP_ECHOREQST, ident, seq, buf, len, p, mac⟩

end IcmpHost

/-- Hosts with ICMP on one wire. A buffer that begins with a frame is passed through the receiver's network code. -/
def icmpWire : Exchange IcmpHost IcmpEvent Echo where
  step h e := h.step e
  sends h e := h.sends e
  Takes ds h e := ∀ b pkt ipid p mac, e = .arrives b pkt ipid p mac → ∃ d ∈ ds, ∃ (others : World → World) (w : World),
    (w.bufs b).bytes d.frame.length = d.frame ∧ w.netData = h.netData ∧ pkt ∈ Ip.passed (Ip.demux others b) w

/-- The data of a caller fits in a frame. -/
def IcmpEvent.fits : IcmpEvent → Bool
  | .icmpSend _ _ _ _ len _ _ _ => decide (0 ≤ len ∧ len ≤ 1472)
  | _ => true

section Runs

variable {ι : Type} (nd : ι → Network)

/-- The message has the identification, the number and the data of the other. -/
def SameEcho (d g : Echo) : Prop := d.ident % 65536 = g.ident % 65536 ∧ d.seq % 65536 = g.seq % 65536 ∧ d.data = g.data

/-- The reply of the host `j` answers an older request, which has reached it, and goes to the host `k` that has sent this. -/
def Replies (j : ι) (d : Echo) (older : List Echo) : Prop :=
  ∃ g ∈ older, ∃ k, g.netData = nd k ∧ g.type = ICMP_ECHOREQST ∧ Reaches (nd j) g.remip ∧ d.remip = (nd k).ipucast ∧ SameEcho d g

/-- The message comes from a host; it fits in a frame, and is a request or the reply to an older one. -/
def EchoSent (d : Echo) (older : List Echo) : Prop :=
  (0 ≤ d.len ∧ d.len ≤ 1472) ∧ ∃ j, d.netData = nd j ∧
    (d.type = ICMP_ECHOREQST ∨ d.type = ICMP_ECHOREPLY ∧ Replies nd j d older)

/-- The packet carries a reply to this host. -/
def RepliedTo (i : ι) (ds : List Echo) (slot : Int) (pkt : IcmpPacket) : Prop :=
  ∃ d ∈ ds, ∃ j, d.type = ICMP_ECHOREPLY ∧ d.netData = nd j ∧ Replies nd j d ds ∧ Reaches (nd i) d.remip ∧
    pkt.net_ipsrc = (nd j).ipucast ∧ (d.ident % 65536 : Int) = slot ∧
    pkt.net_icdata.take (pkt.net_iplen - IP_HDR_LEN - ICMP_HDR_LEN : Int).toNat = d.data

/-- What holds of a host between events. -/
structure Pinging (i : ι) (h : IcmpHost) (ds : List Echo) : Prop where
  netData : h.netData = nd i
  stocks : Icmp.Stocks (RepliedTo nd i ds) h.machine.data

variable {nd} {i j : ι} {h h' : IcmpHost} {e : IcmpEvent} {d : Echo} {ds ds' : List Echo}

theorem Replies.mono (H : Replies nd j d ds) (hsub : ds ⊆ ds') : Replies nd j d ds' := by
  obtain ⟨g, hg, hrest⟩ := H
  exact ⟨g, hsub hg, hrest⟩

theorem RepliedTo.mono {slot : Int} {pkt : IcmpPacket} (H : RepliedTo nd i ds slot pkt) (hsub : ds ⊆ ds') :
    RepliedTo nd i ds' slot pkt := by
  obtain ⟨d, hd, j, htype, hj, hreplies, hrest⟩ := H
  exact ⟨d, hsub hd, j, htype, hj, hreplies.mono hsub, hrest⟩

/-- The type of what was sent is in the packet. -/
theorem EchoSent.type_iff (H : EchoSent nd d ds) {pkt : Netpacket} (C : d.Carries pkt) :
    (pkt.w8 Netpacket.net_ictype = ICMP_ECHOREQST → d.type = ICMP_ECHOREQST) ∧
      (pkt.w8 Netpacket.net_ictype = ICMP_ECHOREPLY → d.type = ICMP_ECHOREPLY) := by
  obtain ⟨-, j, -, htype⟩ := H
  rw [C.type]
  rcases htype with h | ⟨h, -⟩
  · rw [h]
    decide
  · rw [h]
    decide

/-- What arrives has been sent. -/
theorem sent_of_arrives (hg : Grounded (EchoSent nd) ds) (hh : h.netData = nd i) (ht : icmpWire.Takes ds h e) {b : Buf}
    {pkt : Netpacket} {ipid : Nat} {p : Netpacket} {mac : List UInt8} (he : e = .arrives b pkt ipid p mac) :
    ∃ d ∈ ds, d.Carries pkt ∧ Reaches (nd i) d.remip ∧ ∃ older, older ⊆ ds ∧ EchoSent nd d older := by
  obtain ⟨d, hd, others, w, hframe, hw, hpkt⟩ := ht b pkt ipid p mac he
  obtain ⟨l₁, l₂, hds, hsent⟩ := hg.of_mem hd
  obtain ⟨C, hacc⟩ := Echo.arrived hsent.1.1 hsent.1.2 hframe hpkt
  rw [hw, hh] at hacc
  refine ⟨d, hd, C, reaches_of_accepts C.dst hacc, l₂, fun g hg => ?_, hsent⟩
  rw [hds]
  exact List.mem_append_right _ (List.mem_cons_of_mem _ hg)

/-- A reply that arrives is one to this host. -/
theorem repliedTo_of_arrives (hnd : ∀ j, (nd j).ipucast < 4294967296) (hg : Grounded (EchoSent nd) ds) (hh : h.netData = nd i)
    (ht : icmpWire.Takes ds h e) {b : Buf} {pkt : Netpacket} {ipid : Nat} {p : Netpacket} {mac : List UInt8}
    (he : e = .arrives b pkt ipid p mac) (htype : (Ip.icmpPacket b pkt).net_ictype = ICMP_ECHOREPLY) :
    RepliedTo nd i ds (Ip.icmpPacket b pkt).net_icident (Ip.icmpPacket b pkt) := by
  obtain ⟨d, hd, C, hreach, older, hsub, hsent⟩ := sent_of_arrives hg hh ht he
  have hreply := (hsent.type_iff C).2 htype
  obtain ⟨⟨-, hlen⟩, j, hj, hkind⟩ := hsent
  have hreplies : Replies nd j d older := by
    rcases hkind with h | ⟨-, h⟩
    · rw [hreply] at h
      cases h
    · exact h
  refine ⟨d, hd, j, hreply, hj, hreplies.mono hsub, hreach, ?_, ?_, ?_⟩
  · have hsrc := C.src
    rw [hj, Nat.mod_eq_of_lt (hnd j)] at hsrc
    exact hsrc
  · change (d.ident % 65536 : Int) = (pkt.w16 Netpacket.net_icident : Int)
    rw [C.ident]
    omega
  · have hiplen : ((Ip.icmpPacket b pkt).net_iplen - IP_HDR_LEN - ICMP_HDR_LEN : Int).toNat = d.len.toNat := by
      change ((pkt.w16 Netpacket.net_iplen : Int) - IP_HDR_LEN - ICMP_HDR_LEN).toNat = _
      rw [C.iplen]
      unfold IP_HDR_LEN ICMP_HDR_LEN
      omega
    rw [hiplen]
    exact C.icdata hlen b

/-- Every event of a host that takes its packets from the wire keeps it. -/
theorem Pinging.step (hnd : ∀ j, (nd j).ipucast < 4294967296) (R : Pinging nd i h ds) (hg : Grounded (EchoSent nd) ds)
    (ht : icmpWire.Takes ds h e) (hs : h.step e = some h') : Pinging nd i h' ds := by
  have hmachine : ∀ k, (∀ pkt, k = .op (.icmpIn pkt) → pkt.net_ictype = ICMP_ECHOREPLY → RepliedTo nd i ds pkt.net_icident pkt) →
      (h.machine.step k).map (fun m => { h with machine := m }) = some h' → Pinging nd i h' ds := by
    intro k hin hk
    obtain ⟨m, hm, rfl⟩ := Option.map_eq_some_iff.mp hk
    exact ⟨R.netData, R.stocks.step hm hin⟩
  cases e with
  | machine k =>
    have hk : ∀ pkt, k ≠ .op (.icmpIn pkt) := by
      rintro pkt rfl
      cases hs
    refine hmachine k (fun pkt h => absurd h (hk pkt)) ?_
    cases k with
    | op o =>
      cases o with
      | icmpIn pkt => exact absurd rfl (hk pkt)
      | icmpRegister | icmpRecv | icmpRelease => exact hs
    | call | tick | ret | cont => exact hs
  | arrives b pkt ipid p mac =>
    refine hmachine _ (fun q hq htype => ?_) hs
    obtain rfl := IcmpOp.icmpIn.inj (Event.op.inj hq)
    exact repliedTo_of_arrives hnd hg R.netData ht rfl htype
  | icmpSend =>
    obtain rfl := Option.some.inj hs
    exact R

/-- A request goes out as it is; a reply answers the request that arrives. -/
theorem Pinging.sends (hnd : ∀ j, (nd j).ipucast < 4294967296) (R : Pinging nd i h ds) (hg : Grounded (EchoSent nd) ds)
    (hfits : e.fits = true) (ht : icmpWire.Takes ds h e) (hd : h.sends e = some d) : EchoSent nd d ds := by
  cases e with
  | machine => cases hd
  | icmpSend remip ident seq buf len ipid p mac =>
    obtain rfl := Option.some.inj hd
    exact ⟨of_decide_eq_true hfits, i, R.netData, Or.inl rfl⟩
  | arrives b pkt ipid p mac =>
    simp only [IcmpHost.sends] at hd
    split_ifs at hd with htype
    obtain rfl := Option.some.inj hd
    obtain ⟨g, hmem, C, hreach, older, -, hsent⟩ := sent_of_arrives hg R.netData ht rfl
    have hreq := (hsent.type_iff C).1 htype
    obtain ⟨⟨-, hlen⟩, k, hk, -⟩ := hsent
    obtain ⟨hlen', hdata⟩ := C.reply h.netData ipid p mac
    refine ⟨by omega, i, R.netData, Or.inr ⟨rfl, g, hmem, k, hk, hreq, hreach, ?_, ?_, ?_, hdata⟩⟩
    · have hsrc := C.src
      rw [hk, Nat.mod_eq_of_lt (hnd k)] at hsrc
      exact hsrc
    · exact (congrArg (· % 65536) C.ident).trans (Nat.mod_mod _ _)
    · exact (congrArg (· % 65536) C.seq).trans (Nat.mod_mod _ _)

/-- Every event of a host keeps what holds of it. -/
theorem pinging_keeps [DecidableEq ι] (hnd : ∀ j, (nd j).ipucast < 4294967296) :
    icmpWire.Keeps (fun _ _ e => e.fits = true) (Pinging nd) (EchoSent nd) where
  mono _ _ _ _ R := ⟨R.netData, R.stocks.mono fun _ _ H => H.mono (List.subset_cons_self _ _)⟩
  step _ _ _ _ _ R hg _ ht hs := R.step hnd hg ht hs
  sends _ _ _ _ _ _ R hg hfits ht _ hd := R.sends hnd hg hfits ht hd

end Runs

/-- Hosts at the start; nothing has been sent. -/
def icmpHosts {ι : Type} (nd : ι → Network) (netbufsem : ι → Int) (minheap maxheap : ι → Nat) : Medium ι IcmpHost Echo where
  party i := ⟨nd i, boot icmp (Icmp.icmpInit (netbufsem i)) (minheap i) (maxheap i)⟩
  sent := []

/-- Where the address of a host reaches no other host: whatever the wire does to the frames, and the processes of the hosts to each
other, what `icmp_recv` delivers from a slot is the beginning of the data of a request that this host has sent with the slot for its
identification, and that has reached the host from which the reply comes. -/
theorem icmp_echoes {ι : Type} [DecidableEq ι] (nd : ι → Network) (hnd : ∀ i, (nd i).ipucast < 4294967296)
    (hown : ∀ i k, Reaches (nd i) (nd k).ipucast → i = k) (netbufsem : ι → Int) (minheap maxheap : ι → Nat)
    {n : Medium ι IcmpHost Echo} (r : icmpWire.Reach (fun _ _ e => e.fits = true) (icmpHosts nd netbufsem minheap maxheap) n)
    (i : ι) (slot : Int) (pkt : IcmpPacket) (bytes : List Nat) (h : .received slot pkt bytes ∈ (n.party i).machine.data.log) :
    ∃ g ∈ n.sent, ∃ j, g.netData = nd i ∧ g.type = ICMP_ECHOREQST ∧ (g.ident % 65536 : Int) = slot ∧ Reaches (nd j) g.remip ∧
      pkt.net_ipsrc = (nd j).ipucast ∧ bytes <+: g.data := by
  have hstart : ∀ i, Pinging nd i ((icmpHosts nd netbufsem minheap maxheap).party i) [] := fun i => ⟨rfl, ⟨nofun, nofun⟩⟩
  obtain ⟨hR, -⟩ := r.invariant (pinging_keeps hnd) hstart trivial
  obtain ⟨⟨d, -, j, -, -, ⟨g, hg, k, hk, hreq, hreach, hremip, hident, -, hdata⟩, hto, hsrc, hslot, htake⟩, hbytes⟩ :=
    (hR i).stocks.received slot pkt bytes h
  rw [hremip] at hto
  obtain rfl := hown i k hto
  refine ⟨g, hg, j, hk, hreq, ?_, hreach, hsrc, ?_⟩
  · omega
  · rw [htake, hdata] at hbytes
    exact hbytes

/-! ## Evaluation -/

/-- How to evaluate a host with ICMP. -/
def Forcing.icmpHost : Forcing IcmpHost where
  app h f := icmpMachine.app h.machine fun m => f { h with machine := m }
  app_eq h f := by simp only [app_eq]

/-- The packet that is made of the frame of a message, in a buffer that holds nothing else. -/
def Ip.Echo.received (d : Echo) : Netpacket := (Ip.outgoing d.packet).ethNtoh.ipNtoh.icmpNtoh

/-- An item of a script: a message arrives that has been sent, by its number, or something else happens. -/
def icmpScript : Nat ⊕ IcmpEvent → List Echo → IcmpHost → Option IcmpEvent
  | .inl k, ds, h =>
    match ds[k]? with
    | some d =>
      if 0 ≤ d.len ∧ d.len ≤ 1472 ∧ Netpacket.NoCarry (Ip.messageSum d.packet) ∧ Ip.accepts h.netData d.received then
        some (.arrives 0 d.received 0 (fun _ => 0) [])
      else none
    | none => none
  | .inr (.arrives ..), _, _ => none
  | .inr e, _, _ => some e

/-- A script takes from the wire what was put there. -/
theorem takes_icmpScript : ∀ s ds h e, icmpScript s ds h = some e → icmpWire.Takes ds h e := by
  rintro s ds h e hscript b pkt ipid p mac rfl
  rcases s with k | e
  · simp only [icmpScript] at hscript
    split at hscript
    · next d hd =>
      split_ifs at hscript with hok
      obtain ⟨h0, hlen, hcarry, hacc⟩ := hok
      obtain ⟨rfl, rfl, -⟩ := IcmpEvent.arrives.inj (Option.some.inj hscript)
      have hframe : (Ip.outgoing d.packet).bytes d.frame.length = d.frame := by simp [Echo.frame, Netpacket.bytes]
      refine ⟨d, List.mem_of_getElem? hd, id,
        { Ip.receiver (fun _ => 0) (Ip.outgoing d.packet) with netData := h.netData }, hframe, rfl, ?_⟩
      obtain ⟨hpkt, hicmp⟩ := Echo.packet_hostOrder h0 hlen
      obtain ⟨hbytes, hpassed⟩ := Ip.passed_frame hpkt id 0
        (w := { Ip.receiver (fun _ => 0) (Ip.outgoing d.packet) with netData := h.netData }) hframe
      rw [hpassed, (Ip.incoming_icmp hpkt hbytes hicmp).1, if_pos hcarry, Option.mem_toList, Option.filter_eq_some_iff]
      exact ⟨rfl, hacc⟩
    · cases hscript
  · cases e <;> cases hscript

/-- The bytes were received from the slot. -/
def IcmpObs.receives (slot : Int) (bytes : List Nat) : IcmpObs → Bool
  | .received s _ bytes' => decide (s = slot ∧ bytes' = bytes)
  | _ => false

/-- The machine at 10.0.0.2 pings the one at 10.0.0.1. -/
theorem icmp_echoes_ping : ∃ n pkt, icmpWire.Reach (fun _ _ e => e.fits = true)
      (icmpHosts udpPair (fun _ => 0) (fun _ => 4096) fun _ => 1048576) n ∧
    .received 0 pkt [104, 105] ∈ (n.party false).machine.data.log ∧
    ∃ g ∈ n.sent, ∃ j, g.netData = udpPair false ∧ g.type = ICMP_ECHOREQST ∧ (g.ident % 65536 : Int) = 0 ∧
      Reaches (udpPair j) g.remip ∧ pkt.net_ipsrc = (udpPair j).ipucast ∧ [104, 105] <+: g.data := by
  have hown : ∀ i k, Reaches (udpPair i) (udpPair k).ipucast → i = k := by
    intro i k h
    cases i <;> cases k <;> simp [Reaches, udpPair, Netpacket.IP_BCAST] at h ⊢
  obtain ⟨n, r, hf⟩ := icmpWire.reach_of_evaluates Forcing.icmpHost (fun _ _ e => e.fits = true) takes_icmpScript
    (icmpHosts udpPair (fun _ => 0) (fun _ => 4096) fun _ => 1048576)
    [(false, .inr (.machine (.op (.icmpRegister 0x0A000001)))),
      (false, .inr (.icmpSend 0x0A000001 0 1 (fun j => if j = 0 then 104 else 105) 2 1 (fun _ => 0) [2, 0, 0, 0, 0, 1])),
      (true, .inl 0), (false, .inl 0), (false, .inr (.machine (.op (.icmpRecv 0 10 1000))))]
    (fun n => (n.party false).machine.data.log.any (IcmpObs.receives 0 [104, 105])) (by decide +kernel)
  obtain ⟨o, ho, hobs⟩ := List.any_eq_true.mp hf
  cases o with
  | received slot pkt bytes =>
    obtain ⟨rfl, rfl⟩ := of_decide_eq_true hobs
    exact ⟨n, pkt, r, ho, icmp_echoes udpPair (fun i => by cases i <;> decide) hown _ _ _ r false 0 pkt _ ho⟩
  | queued | discarded | released | dropped => cases hobs

end Xinu
