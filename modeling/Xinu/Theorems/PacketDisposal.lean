import Xinu.Net.Ip

/-!
# Packet buffers are disposed of once

A buffer that is handed to a procedure is allocated: it is not in the pool. It stays out of the pool until the procedure, or one it
calls, disposes of it: puts it in the pool, or behind the last packet of one queue. What is said of a run ends where the other
processes free a buffer that the procedure still has; a packet in a queue is theirs. Each procedure is composed of uses of the packet,
one disposal and what does not mention the packet.
-/

namespace Xinu

namespace Ip

/-- A queue of packets: the buffers in its array, where the next one goes, how many there are and how many there can be. -/
structure Queue where
  cell : Int → Option Buf
  tail : Int
  count : Int
  size : Int

/-- The queue of a slot. -/
def World.queue (w : World) : Place → Queue
  | .udp i =>
    ⟨fun j => ((w.udptab i).udqueue j).map (·.addr), (w.udptab i).udtail, (w.udptab i).udcount, UDP_QSIZ⟩
  | .icmp i =>
    ⟨fun j => ((w.icmptab i).icqueue j).map (·.addr), (w.icmptab i).ictail, (w.icmptab i).iccount, ICMP_QSIZ⟩
  | .ipout => ⟨w.ipoqueue.iqbuf, w.ipoqueue.iqtail, w.ipoqueue.iqcount, IP_OQSIZ⟩

/-- A queue with one packet more. -/
def Queue.push (q : Queue) (p : Buf) : Queue :=
  { q with cell := Function.update q.cell q.tail (some p), tail := Ring.next q.size q.tail, count := q.count + 1 }

/-- The packet is put in the pool, where it was not, and no queue changes. -/
def Freed (p : Buf) (w w' : World) : Prop := p ∉ w.pool ∧ w'.pool = p :: w.pool ∧ w'.queue = w.queue

/-- The packet is put in one queue, and the pool and the other queues do not change. -/
def Stored (p : Buf) (place : Place) (w w' : World) : Prop :=
  w'.queue = Function.update w.queue place ((w.queue place).push p) ∧ w'.pool = w.pool

/-- The events that dispose of a packet: `freebuf`, or a queue slot that takes it. -/
def Event.Disposes (p : Buf) : Event → Prop
  | .freed q _ _ => q = p
  | .queued q _ _ _ => q = p
  | _ => False

/-- The events that leave a packet in the pool or in a queue slot, and the variables behind them. -/
def Event.Settles (p : Buf) : Event → World → Prop
  | .freed _ w w', s => Freed p w w' ∧ s = w'
  | .queued _ place w w', s => Stored p place w w' ∧ s = w'
  | _, _ => False

/-- The events that mention a packet. -/
def Event.Mentions (p : Buf) : Event → Prop
  | .used q => q = p
  | .freed q _ _ => q = p
  | .queued q _ _ _ => q = p
  | .locally q _ => q = p
  | _ => False

/-- The other processes put a packet in the pool. -/
def Event.Takes (p : Buf) : Event → Prop
  | .switched w w' => p ∉ w.pool ∧ p ∈ w'.pool
  | _ => False

instance (p : Buf) : DecidablePred (Event.Takes p)
  | .switched w w' => inferInstanceAs (Decidable (p ∉ w.pool ∧ p ∈ w'.pool))
  | .used _ | .freed _ _ _ | .queued _ _ _ _ | .locally _ _ | .wrote _ | .sent _ => instDecidableFalse

instance (p : Buf) : DecidablePred (Event.Disposes p)
  | .freed q _ _ | .queued q _ _ _ => inferInstanceAs (Decidable (q = p))
  | .used _ | .locally _ _ | .wrote _ | .sent _ | .switched _ _ => instDecidableFalse

/-- A packet buffer. -/
def packet (others : World → World) (p : Buf) : Resource World Event where
  held := fun w => p ∉ w.pool
  others := others
  takes := Event.Takes p
  disposes := Event.Disposes p
  settles := Event.Settles p
  mentions := Event.Mentions p

instance (others : World → World) (p : Buf) : DecidablePred (packet others p).takes := inferInstanceAs (DecidablePred (Event.Takes p))

instance (others : World → World) (p : Buf) : DecidablePred (packet others p).disposes :=
  inferInstanceAs (DecidablePred (Event.Disposes p))

open Resource

variable {p : Buf} {others : World → World}

/-! ## The elements -/

theorem load_uses {α : Type} (q : Buf) (f : Netpacket → α) : (packet others p).Uses (load q f) fun _ => True :=
  (Uses.emit fun h => h).bind fun _ _ => Uses.get.bind fun _ _ => Uses.pure trivial

theorem store_uses (q : Buf) (f : Netpacket → Netpacket) : (packet others p).Uses (store q f) fun _ => True :=
  (Uses.emit fun h => h).bind fun _ _ => Uses.modify fun _ h => h

/-- A change that leaves the pool alone. -/
theorem modify_uses {g : World → World} (hg : ∀ w, (g w).pool = w.pool) : (packet others p).Uses (Prog.modify g) fun _ => True :=
  Uses.modify fun w (h : p ∉ w.pool) => by
    have : p ∉ (g w).pool := hg w ▸ h
    exact this

variable (others)

theorem resched_uses : (packet others p).Uses (resched others) fun _ => True :=
  Uses.others (r := packet others p) (fun w hw => by
    by_cases h : p ∈ (others w).pool
    · exact Or.inl ⟨hw, h⟩
    · exact Or.inr h) fun _ h => h

theorem resched_silent : (packet others p).Silent (resched others) := Silent.others (r := packet others p) fun _ h => h

theorem send_uses (pid : Int) : (packet others p).Uses (send others pid) fun _ => True :=
  (Uses.emit fun h => h).bind fun _ _ => resched_uses others

theorem send_silent (pid : Int) : (packet others p).Silent (send others pid) :=
  (Silent.emit fun h => h).bind fun _ => resched_silent others

theorem write_uses (frame : List UInt8) : (packet others p).Uses (write others frame) fun _ => True :=
  (Uses.emit fun h => h).bind fun _ _ => (resched_uses others).bind fun _ _ => Uses.get.bind fun _ _ => Uses.pure trivial

theorem recvtime_uses : (packet others p).Uses (recvtime others) fun _ => True :=
  (resched_uses others).bind fun _ _ => Uses.get.bind fun _ _ => Uses.pure trivial

/-- `freebuf` disposes of its packet. -/
theorem freebuf_disposes : (packet others p).Disposes (freebuf others p) := by
  have hput : (packet others p).Disposes (Prog.change (fun w => { w with pool := p :: w.pool }) (.freed p)) :=
    Disposes.change fun w hs => ⟨rfl, ⟨hs, rfl, rfl⟩, rfl⟩
  exact hput.silent fun _ => resched_silent others

/-- `freebuf` of another packet. -/
theorem freebuf_uses {q : Buf} (hq : q ≠ p) : (packet others p).Uses (freebuf others q) fun _ => True :=
  Uses.bind (Uses.change (fun w (h : p ∉ w.pool) => by
      intro hmem
      rcases List.mem_cons.mp hmem with e | hmem
      · exact hq e.symm
      · exact h hmem) fun _ => hq) fun _ _ => resched_uses others

/-- `getbuf` allocates another buffer. -/
theorem getbuf_uses : (packet others p).Uses (getbuf others) fun q => q ≠ p := by
  refine (resched_uses others).bind fun _ _ => Uses.get.bind fun w hw => ?_
  have hw' : p ∉ w.pool := hw
  cases h : w.pool with
  | nil => exact Uses.stuck
  | cons q pool =>
    rw [h, List.mem_cons, not_or] at hw'
    exact (Uses.modify fun _ _ => hw'.2).bind fun _ _ => Uses.pure fun e => hw'.1 e.symm

/-! ## Procedures that use a packet -/

theorem arpTries_uses (apkt : List UInt8) (i : Nat) : ∀ msg, (packet others p).Uses (arpTries others apkt i msg) fun _ => True := by
  induction i with
  | zero => exact fun msg => Uses.pure trivial
  | succ i ih =>
    intro msg
    refine (write_uses others apkt).bind fun _ _ => (recvtime_uses others).bind fun msg _ => ?_
    exact Uses.ite (ih msg) (Uses.pure trivial)

/-- `arp_resolve` leaves the packet to its caller. -/
theorem arpResolve_uses (nxthop : Nat) (q : Buf) : (packet others p).Uses (arpResolve others nxthop q) fun _ => True := by
  refine Uses.get.bind fun w _ => ?_
  have hmac : ∀ ha, (packet others p).Uses (do store q fun pkt => Arp.putHaddr pkt Netpacket.net_ethdst ha; pure OK) fun _ => True :=
    fun ha => (store_uses q _).bind fun _ _ => Uses.pure trivial
  refine Uses.ite (hmac _) (Uses.ite (hmac _) ?_)
  cases w.arpcache.search nxthop with
  | some i => exact Uses.ite (hmac _) (Uses.pure trivial)
  | none =>
    cases w.arpcache.arpAlloc with
    | none => exact Uses.pure trivial
    | some r =>
      refine Uses.bind (modify_uses fun _ => rfl) fun _ _ => Uses.bind (arpTries_uses others _ _ _) fun msg _ => ?_
      refine Uses.ite (Uses.pure trivial) (Uses.ite ?_ ?_)
      · exact Uses.bind (modify_uses fun _ => rfl) fun _ _ => Uses.pure trivial
      · exact Uses.get.bind fun w _ => hmac _

/-- `ip_enqueue` of another packet. -/
theorem ipEnqueue_uses {q : Buf} (hq : q ≠ p) : (packet others p).Uses (ipEnqueue others q) fun _ => True := by
  refine Uses.get.bind fun w _ => Uses.ite ?_ ?_
  · exact (freebuf_uses others hq).bind fun _ _ => Uses.pure trivial
  · have hkeep : (packet others p).Uses (Prog.change (fun w' => { w' with
        ipoqueue := { w.ipoqueue with
          iqbuf := Function.update w.ipoqueue.iqbuf w.ipoqueue.iqtail (some q)
          iqtail := Ring.next IP_OQSIZ w.ipoqueue.iqtail
          iqcount := w.ipoqueue.iqcount + 1 } }) (.queued q .ipout)) fun _ => True :=
      Uses.change (fun _ h => h) fun _ => hq
    exact hkeep.bind fun _ _ => Uses.bind (resched_uses others) fun _ _ => Uses.pure trivial

/-- `icmp_mkpkt` makes its packet in another buffer. -/
theorem icmpMkpkt_uses (remip type ident seq : Nat) {buf : M (Nat → UInt8)} (hbuf : (packet others p).Uses buf fun _ => True)
    (len : Int) : (packet others p).Uses (icmpMkpkt others remip type ident seq buf len) fun q => q ≠ p :=
  (getbuf_uses others).bind fun q hq => Uses.get.bind fun _ _ => hbuf.bind fun _ _ =>
    Uses.bind (store_uses q _) fun _ _ => Uses.bind (modify_uses fun _ => rfl) fun _ _ => Uses.pure hq

/-! ## Procedures that dispose of a packet -/

/-- The update of an entry leaves the packet to `arp_in`. -/
theorem arpUpdate_uses (q : Buf) (slot : Nat) : (packet others p).Uses (arpUpdate others q slot) fun _ => True := by
  refine Uses.bind Uses.get fun w _ => Uses.bind (load_uses q _) fun sndha _ => Uses.ite ?_ (modify_uses fun _ => rfl)
  exact Uses.bind (modify_uses fun _ => rfl) fun _ _ => send_uses others _

/-- The reply is sent before the request is freed. -/
theorem arpReply_disposes : (packet others p).Disposes (arpReply others p) :=
  Uses.disposes Uses.get fun _ _ => Uses.disposes (load_uses p _) fun _ _ =>
    Uses.disposes (write_uses others _) fun _ _ => freebuf_disposes others

/-- The end of `arp_in`. -/
theorem arpRequest_disposes (found : Bool) : (packet others p).Disposes (arpRequest others p found) := by
  have hfree : (packet others p).Disposes (freebuf others p) := freebuf_disposes others
  refine Uses.disposes (load_uses p _) fun op _ => Disposes.ite (fun _ => hfree) fun _ => ?_
  refine Uses.disposes (load_uses p _) fun tarpa _ => Uses.disposes Uses.get fun w _ => Disposes.ite (fun _ => hfree) fun _ => ?_
  refine Disposes.ite (fun _ => arpReply_disposes others) fun _ => ?_
  cases w.arpcache.arpAlloc with
  | none => exact hfree
  | some r =>
    exact Uses.disposes (load_uses p _) fun _ _ => Uses.disposes (load_uses p _) fun _ _ =>
      Uses.disposes (modify_uses fun _ => rfl) fun _ _ => arpReply_disposes others

/-- `arp_in` frees its packet. -/
theorem arpIn_disposes : (packet others p).Disposes (arpIn others p) := by
  refine Uses.disposes (store_uses p _) fun _ _ => Uses.disposes (load_uses p _) fun htype _ =>
    Uses.disposes (load_uses p _) fun ptype _ => Disposes.ite (fun _ => freebuf_disposes others) fun _ => ?_
  refine Uses.disposes Uses.get fun w _ => Uses.disposes (load_uses p _) fun sndpa _ => ?_
  cases w.arpcache.search sndpa with
  | none => exact arpRequest_disposes others false
  | some slot => exact Uses.disposes (arpUpdate_uses others p slot) fun _ _ => arpRequest_disposes others true

/-- A packet that is stored in a queue slot, with a message to the process that waits for it. -/
theorem queued_disposes {w : World} {place : Place} {c : Prop} [Decidable c] {g g' : World → World} (pid : Int)
    (hg : Stored p place w (g w)) (hg' : Stored p place w (g' w)) : (packet others p).DisposesFrom w (do
      if c then do
        Prog.change g (.queued p place)
        send others pid
      else Prog.change g' (.queued p place)) := by
  refine DisposesFrom.ite (fun _ => ?_) fun _ => DisposesFrom.change fun _ => ⟨rfl, hg', rfl⟩
  exact DisposesFrom.silent (DisposesFrom.change fun _ => ⟨rfl, hg, rfl⟩) fun _ => send_silent others pid

/-- A table of UDP endpoints with a packet in the queue of one. -/
theorem udp_stored (w : World) (i : Int) (pkt : UdpPacket) (st : UdState) :
    Stored pkt.addr (.udp i) w { w with
      udptab := Function.update w.udptab i { w.udptab i with
        udstate := st
        udcount := (w.udptab i).udcount + 1
        udqueue := Function.update (w.udptab i).udqueue (w.udptab i).udtail (some pkt)
        udtail := Ring.next UDP_QSIZ (w.udptab i).udtail } } := by
  refine ⟨?_, rfl⟩
  funext place
  by_cases hp : place = .udp i
  · subst hp
    rw [Function.update_self]
    simp only [World.queue, Function.update_self, Queue.push, Queue.mk.injEq, and_true]
    funext j
    by_cases hj : j = (w.udptab i).udtail
    · subst hj
      simp only [Function.update_self, Option.map_some]
    · simp only [Function.update_of_ne hj]
  · rw [Function.update_of_ne hp]
    cases place with
    | udp i' =>
      have hi : i' ≠ i := fun e => hp (by rw [e])
      simp only [World.queue, Function.update_of_ne hi]
    | _ => rfl

/-- A table of ICMP endpoints with a packet in the queue of one. -/
theorem icmp_stored (w : World) (i : Int) (pkt : IcmpPacket) (st : IcState) :
    Stored pkt.addr (.icmp i) w { w with
      icmptab := Function.update w.icmptab i { w.icmptab i with
        icstate := st
        iccount := (w.icmptab i).iccount + 1
        icqueue := Function.update (w.icmptab i).icqueue (w.icmptab i).ictail (some pkt)
        ictail := Ring.next ICMP_QSIZ (w.icmptab i).ictail } } := by
  refine ⟨?_, rfl⟩
  funext place
  by_cases hp : place = .icmp i
  · subst hp
    rw [Function.update_self]
    simp only [World.queue, Function.update_self, Queue.push, Queue.mk.injEq, and_true]
    funext j
    by_cases hj : j = (w.icmptab i).ictail
    · subst hj
      simp only [Function.update_self, Option.map_some]
    · simp only [Function.update_of_ne hj]
  · rw [Function.update_of_ne hp]
    cases place with
    | icmp i' =>
      have hi : i' ≠ i := fun e => hp (by rw [e])
      simp only [World.queue, Function.update_of_ne hi]
    | _ => rfl

/-- What a packet that is read begins with. -/
theorem load_addr {α : Type} {q : Buf} {f : Netpacket → α} (addr : α → Buf) (h : ∀ pkt, addr (f pkt) = q) :
    (packet others p).Uses (load q f) fun a => addr a = q :=
  (Uses.emit fun h => h).bind fun _ _ => Uses.get.bind fun _ _ => Uses.pure (h _)

/-- `udp_in` stores its packet or frees it. -/
theorem udpIn_disposes : (packet others p).Disposes (udpIn others p) := by
  refine Uses.disposes (load_addr others UdpPacket.addr fun _ => rfl) fun pkt hpkt => Disposes.get fun w => ?_
  cases udpSlots.find? (fun i => decide ((w.udptab i).udstate ≠ .UDP_FREE) && (w.udptab i).accepts pkt &&
      decide ((w.udptab i).udcount < UDP_QSIZ)) with
  | none => exact (freebuf_disposes others).from w
  | some i =>
    have hst := udp_stored w i pkt
    rw [hpkt] at hst
    exact queued_disposes others _ (hst .UDP_USED) (hst (w.udptab i).udstate)

/-- `ip_enqueue` stores its packet or frees it. -/
theorem ipEnqueue_disposes : (packet others p).Disposes (ipEnqueue others p) := by
  refine Disposes.get fun w => DisposesFrom.ite (fun _ => ?_) fun _ => ?_
  · exact (Disposes.silent (freebuf_disposes others) fun _ => Silent.pure _).from w
  · refine DisposesFrom.silent (DisposesFrom.change fun _ => ⟨rfl, ⟨?_, rfl⟩, rfl⟩) fun _ =>
      Silent.bind (resched_silent others) fun _ => Silent.pure _
    funext place
    cases place <;> rfl

/-- `icmp_in` stores its packet or frees it; the reply to a request is in another buffer. -/
theorem icmpIn_disposes : (packet others p).Disposes (icmpIn others p) := by
  have hfree : (packet others p).Disposes (freebuf others p) := freebuf_disposes others
  refine Uses.disposes (load_addr others IcmpPacket.addr fun _ => rfl) fun pkt hpkt => Disposes.ite (fun _ => hfree)
    fun _ => Disposes.ite (fun _ => ?_) fun _ => ?_
  · refine Uses.disposes (load_uses p _) fun icseq _ => ?_
    refine Uses.disposes (icmpMkpkt_uses others _ _ _ _ (load_uses p _) _) fun reply hreply => ?_
    exact Uses.disposes (ipEnqueue_uses others hreply) fun _ _ => hfree
  · refine Disposes.ite (fun _ => hfree) fun _ => Disposes.get fun w => DisposesFrom.ite (fun _ => hfree.from w) fun _ => ?_
    have hst := icmp_stored w pkt.net_icident pkt
    rw [hpkt] at hst
    exact queued_disposes others _ (hst .ICMP_USED) (hst (w.icmptab pkt.net_icident).icstate)

/-- `ip_local` hands its packet on, or frees it. -/
theorem ipLocal_disposes : (packet others p).Disposes (ipLocal others p) := by
  refine Uses.disposes (load_uses p _) fun pkt _ => Uses.disposes (Uses.emit fun h => h) fun _ _ =>
    Uses.disposes (load_uses p _) fun proto _ => ?_
  exact Disposes.ite (fun _ => udpIn_disposes others) fun _ =>
    Disposes.ite (fun _ => icmpIn_disposes others) fun _ => freebuf_disposes others

/-- `ip_out` frees its packet when it is written. -/
theorem ipOut_disposes : (packet others p).Disposes (ipOut others p) := by
  refine Uses.disposes (load_uses p _) fun pktlen _ => Uses.disposes (store_uses p _) fun _ _ =>
    Uses.disposes (load_uses p _) fun frame _ => Uses.disposes (write_uses others _) fun retval _ => ?_
  refine Disposes.silent (freebuf_disposes others) fun _ => ?_
  split <;> exact Silent.pure _

/-- The end of `ip_in`. -/
theorem ipAccept_disposes : (packet others p).Disposes (ipAccept others p) := by
  have hfree : (packet others p).Disposes (freebuf others p) := freebuf_disposes others
  refine Uses.disposes Uses.get fun w _ => Uses.disposes (load_uses p _) fun dst _ => ?_
  refine Disposes.ite (fun _ => ipLocal_disposes others) fun _ => Disposes.ite (fun _ => ?_) fun _ => ?_
  · exact Uses.disposes (load_uses p _) fun proto _ => Disposes.ite (fun _ => ipLocal_disposes others) fun _ => hfree
  · exact Disposes.ite (fun _ => ipLocal_disposes others) fun _ => hfree

/-- `ip_in` drops its packet or hands it on. -/
theorem ipIn_disposes : (packet others p).Disposes (ipIn others p) := by
  have hfree : (packet others p).Disposes (freebuf others p) := freebuf_disposes others
  refine Uses.disposes (load_uses p _) fun cksum _ => Disposes.ite (fun _ => hfree) fun _ => ?_
  refine Uses.disposes (store_uses p _) fun _ _ => Uses.disposes (load_uses p _) fun vh _ => Disposes.ite (fun _ => hfree) fun _ => ?_
  refine Uses.disposes (load_uses p _) fun proto _ => Disposes.ite (fun _ => ?_) fun _ => Disposes.ite (fun _ => ?_) fun _ => ?_
  · exact Uses.disposes (store_uses p _) fun _ _ => ipAccept_disposes others
  · refine Uses.disposes (load_uses p _) fun icmplen _ => Uses.disposes (load_uses p _) fun cksum _ => ?_
    exact Disposes.ite (fun _ => hfree) fun _ => Uses.disposes (store_uses p _) fun _ _ => ipAccept_disposes others
  · exact ipAccept_disposes others

/-- `ip_send` hands its packet on, or frees it. -/
theorem ipSend_disposes : (packet others p).Disposes (ipSend others p) := by
  have hlocal : (packet others p).Disposes (do ipLocal others p; pure OK) :=
    Disposes.silent (ipLocal_disposes others) fun _ => Silent.pure _
  have hfree : (packet others p).Disposes (do freebuf others p; pure SYSERR) :=
    Disposes.silent (freebuf_disposes others) fun _ => Silent.pure _
  refine Uses.disposes (load_uses p _) fun dest _ => Uses.disposes Uses.get fun w _ => ?_
  refine Disposes.ite (fun _ => hlocal) fun _ => Disposes.ite (fun _ => hlocal) fun _ => Disposes.ite (fun _ => ?_) fun _ => ?_
  · exact Uses.disposes (store_uses p _) fun _ _ => ipOut_disposes others
  · refine Disposes.ite (fun _ => hfree) fun _ => Uses.disposes (arpResolve_uses others _ p) fun retval _ => ?_
    exact Disposes.ite (fun _ => hfree) fun _ => ipOut_disposes others

/-- The demultiplexing of `netin`. -/
theorem demux_disposes : (packet others p).Disposes (demux others p) := by
  refine Uses.disposes (store_uses p _) fun _ _ => Uses.disposes (load_uses p _) fun ethtype _ => ?_
  exact Disposes.ite (fun _ => arpIn_disposes others) fun _ => Disposes.ite (fun _ => ipIn_disposes others) fun _ =>
    Disposes.ite (fun _ => freebuf_disposes others) fun _ => freebuf_disposes others

/-- A machine with three buffers, one of which holds a UDP packet for the process that waits at the first slot. -/
def station : World where
  bufs := fun _ o => if o = Netpacket.net_ipproto then 17 else 0
  pool := [8, 9]
  netData := ⟨0, 0, 0, 0, 0, true, [], []⟩
  udptab := Function.update default 0 { (default : Udpentry) with udstate := .UDP_RECV, udpid := 3 }
  icmptab := default
  arpcache := default
  ipoqueue := ⟨0, 0, 0, fun _ => none⟩
  currpid := 0
  udpIdent := 0
  udptoIdent := 0
  ipident := 0
  arriving := fun _ => 0
  retval := 0
  clock := 0

/-- Another process, which takes the first packet off that slot and frees it. -/
def consumer (w : World) : World :=
  match (w.udptab 0).udqueue (w.udptab 0).udhead with
  | none => w
  | some pkt => { w with
      pool := pkt.addr :: w.pool
      udptab := Function.update w.udptab 0 { w.udptab 0 with
        udqueue := Function.update (w.udptab 0).udqueue (w.udptab 0).udhead none
        udhead := Ring.next UDP_QSIZ (w.udptab 0).udhead
        udcount := (w.udptab 0).udcount - 1 } }

end Ip

end Xinu
