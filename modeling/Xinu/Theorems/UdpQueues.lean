import Xinu.Net.Udp

/-!
# The receive queues of UDP in every run

A process that waits in `udp_recv` learns of a packet by a message, and any process can send it one. In every run in which a
waiting receiver that goes on with the message `OK` finds a packet, the queue of every slot is a ring, and what was delivered
since the slot was registered is the first part of what was enqueued, in order.
-/

namespace Xinu

/-- The slot begins a new life. -/
def UdpObs.restarts (slot : Int) : UdpObs → Bool
  | .registered s => decide (s = slot)
  | .released s => decide (s = slot)
  | _ => false

/-- The packet was enqueued in the slot. -/
def UdpObs.enqueuedIn (slot : Int) : UdpObs → Option UdpPacket
  | .enqueued s pkt => if s = slot then some pkt else none
  | _ => none

/-- The packet was delivered from the slot. -/
def UdpObs.deliveredFrom (slot : Int) : UdpObs → Option UdpPacket
  | .delivered s pkt _ _ => if s = slot then some pkt else none
  | _ => none

/-- The packets that `udp_in` enqueued since the slot was registered or released. -/
def udpEnqueued (slot : Int) (log : List UdpObs) : List UdpPacket := since (UdpObs.restarts slot) (UdpObs.enqueuedIn slot) log

/-- The packets that `udp_recv` and `udp_recvaddr` delivered since then. -/
def udpDelivered (slot : Int) (log : List UdpObs) : List UdpPacket :=
  since (UdpObs.restarts slot) (UdpObs.deliveredFrom slot) log

/-- The queue of an entry is a ring that holds the packets `l`. -/
structure Udpentry.Holds (e : Udpentry) (l : List UdpPacket) : Prop where
  valid : Ring.Valid UDP_QSIZ e.udhead e.udtail e.udcount
  items : Ring.items UDP_QSIZ e.udqueue e.udhead e.udcount = l.map some

/-- The queue of a slot holds what was enqueued and not delivered. -/
def Udp.Fifo (u : Udp) (slot : Int) : Prop :=
  ∃ l, (u.udptab slot).Holds l ∧ udpEnqueued slot u.log = udpDelivered slot u.log ++ l

namespace Udpentry.Holds

variable {e e' : Udpentry} {l : List UdpPacket} {pkt : UdpPacket}

/-- The other fields do not matter. -/
theorem congr (H : e.Holds l) (h1 : e'.udhead = e.udhead) (h2 : e'.udtail = e.udtail) (h3 : e'.udcount = e.udcount)
    (h4 : e'.udqueue = e.udqueue) : e'.Holds l := by
  obtain ⟨hv, hi⟩ := H
  exact ⟨by rw [h1, h2, h3]; exact hv, by rw [h1, h3, h4]; exact hi⟩

theorem length (H : e.Holds l) : e.udcount = l.length := by
  have h1 := congrArg List.length H.items
  rw [Ring.items_length, List.length_map] at h1
  have := H.valid.low
  omega

/-- A packet goes to the end of a queue with room. -/
theorem push (H : e.Holds l) (hc : e.udcount < UDP_QSIZ) (pkt : UdpPacket) :
    Udpentry.Holds { e with
      udcount := e.udcount + 1, udqueue := Function.update e.udqueue e.udtail (some pkt),
      udtail := Ring.next UDP_QSIZ e.udtail } (l ++ [pkt]) := by
  refine ⟨H.valid.push hc, ?_⟩
  rw [List.map_append, ← H.items]
  exact H.valid.items_push hc (some pkt)

/-- The first packet is at the head of the queue. -/
theorem pop (H : e.Holds l) (hc : 0 < e.udcount) :
    ∃ pkt l', l = pkt :: l' ∧ e.udqueue e.udhead = some pkt ∧ e.advance.Holds l' := by
  have hp := H.valid.items_pop hc (q := e.udqueue)
  rw [H.items] at hp
  cases l with
  | nil => cases hp
  | cons pkt l' =>
    obtain ⟨h1, h2⟩ := List.cons.inj hp
    exact ⟨pkt, l', rfl, h1.symm, H.valid.pop hc, h2.symm⟩

/-- The loop of `udp_release` takes all packets off the queue. -/
theorem drain (H : e.Holds l) :
    (e.drain e.udcount.toNat).2 = l.map some ∧ (e.drain e.udcount.toNat).1.Holds [] := by
  have hlen : e.udcount.toNat = l.length := by
    have := H.length
    omega
  rw [hlen]
  induction l generalizing e with
  | nil => exact ⟨rfl, H⟩
  | cons pkt l ih =>
    have hpos : 0 < e.udcount := by
      have := H.length
      simp only [List.length_cons] at this
      omega
    obtain ⟨_, _, hl, hq, H'⟩ := H.pop hpos
    obtain ⟨rfl, rfl⟩ := List.cons.inj hl
    have hlen' : e.advance.udcount.toNat = l.length := by
      have := H'.length
      omega
    obtain ⟨h1, h2⟩ := ih H' hlen'
    refine ⟨?_, h2⟩
    show e.udqueue e.udhead :: (e.advance.drain l.length).2 = _
    rw [hq, h1]
    rfl

end Udpentry.Holds

/-- The slot that a record is about. -/
def UdpObs.about : UdpObs → Option Int
  | .registered s | .enqueued s _ | .delivered s .. | .released s => some s
  | .freed _ => none

theorem UdpObs.of_about {o : UdpObs} {s : Int} (h : o.about ≠ some s) :
    o.restarts s = false ∧ o.enqueuedIn s = none ∧ o.deliveredFrom s = none := by
  cases o <;> simp [about, restarts, enqueuedIn, deliveredFrom] at h ⊢ <;> exact h

namespace Udp

variable {u u' : Udp} {i s : Int} {e : Udpentry}

/-- An operation on the slot `i`, which keeps the order there. -/
theorem fifo_step (H : ∀ s, u.Fifo s) (i : Int) (os : List UdpObs) (htab : u'.udptab = Function.update u.udptab i e)
    (hlog : u'.log = os ++ u.log) (hos : ∀ o ∈ os, o.about = some i ∨ o.about = none)
    (hi : ∀ l, (u.udptab i).Holds l → udpEnqueued i u.log = udpDelivered i u.log ++ l →
      ∃ l', e.Holds l' ∧ udpEnqueued i (os ++ u.log) = udpDelivered i (os ++ u.log) ++ l') (s : Int) : u'.Fifo s := by
  obtain ⟨l, hl, hf⟩ := H s
  by_cases hs : s = i
  · subst hs
    obtain ⟨l', hl', hf'⟩ := hi l hl hf
    refine ⟨l', ?_, ?_⟩
    · rw [htab, Function.update_self]
      exact hl'
    · rw [hlog]
      exact hf'
  · have hos' : ∀ o ∈ os, o.about ≠ some s := by
      intro o ho ha
      rcases hos o ho with h | h
      · exact hs (Option.some.inj (ha.symm.trans h))
      · rw [h] at ha
        cases ha
    refine ⟨l, ?_, ?_⟩
    · rw [htab, Function.update_of_ne hs]
      exact hl
    · rw [udpEnqueued, udpDelivered, hlog,
        since_append (fun o ho => ⟨(UdpObs.of_about (hos' o ho)).1, (UdpObs.of_about (hos' o ho)).2.1⟩),
        since_append (fun o ho => ⟨(UdpObs.of_about (hos' o ho)).1, (UdpObs.of_about (hos' o ho)).2.2⟩)]
      exact hf

/-- An operation that changes other fields of an entry than its queue. -/
theorem fifo_fields (H : ∀ s, u.Fifo s) (i : Int) (htab : u'.udptab = Function.update u.udptab i e) (hlog : u'.log = u.log)
    (he : ∀ l, (u.udptab i).Holds l → e.Holds l) : ∀ s, u'.Fifo s := by
  refine fifo_step H i [] htab hlog (by simp) (fun l hl hf => ⟨l, he l hl, hf⟩)

/-- A packet that arrives keeps the order of every queue. -/
theorem udpIn_fifo (H : ∀ s, u.Fifo s) (pkt : UdpPacket) : ∀ s, (u.udpIn pkt).1.Fifo s := by
  unfold udpIn
  split
  · intro s
    obtain ⟨l, hl, hf⟩ := H s
    refine ⟨l, hl, ?_⟩
    simpa [udpEnqueued, udpDelivered, since, note, UdpObs.restarts, UdpObs.enqueuedIn, UdpObs.deliveredFrom] using hf
  · next i hi =>
    have hc : (u.udptab i).udcount < UDP_QSIZ := by
      have := List.find?_some hi
      simp only [Bool.and_eq_true, decide_eq_true_eq] at this
      exact this.2
    have henq : ∀ l, udpEnqueued i u.log = udpDelivered i u.log ++ l →
        udpEnqueued i ([.enqueued i pkt] ++ u.log) = udpDelivered i ([.enqueued i pkt] ++ u.log) ++ (l ++ [pkt]) := by
      intro l hf
      simp only [udpEnqueued, udpDelivered] at hf
      simp [udpEnqueued, udpDelivered, since, UdpObs.restarts, UdpObs.enqueuedIn, UdpObs.deliveredFrom, hf]
    simp only
    split
    · refine fifo_step H i [.enqueued i pkt] rfl rfl (by simp [UdpObs.about]) (fun l hl hf => ?_)
      exact ⟨l ++ [pkt], (hl.push hc pkt).congr rfl rfl rfl rfl, henq l hf⟩
    · refine fifo_step H i [.enqueued i pkt] rfl rfl (by simp [UdpObs.about]) (fun l hl hf => ?_)
      exact ⟨l ++ [pkt], hl.push hc pkt, henq l hf⟩

/-- So does registering. -/
theorem udpRegister_fifo (H : ∀ s, u.Fifo s) (remip remport locport : Nat) :
    ∀ s, (u.udpRegister remip remport locport).1.Fifo s := by
  unfold udpRegister
  simp only
  split
  · exact H
  · split
    · exact H
    · next i hi =>
      refine fifo_step H i [.registered i] rfl rfl (by simp [UdpObs.about]) (fun l _ _ => ⟨[], ⟨?_, rfl⟩, ?_⟩)
      · exact Ring.Valid.empty (by decide)
      · simp [udpEnqueued, udpDelivered, since, UdpObs.restarts]

/-- A packet is taken off a queue that is not empty. -/
theorem dequeue_fifo (H : ∀ s, u.Fifo s) {slot : Int} (hc : 0 < (u.udptab slot).udcount) (len : Int) (addr : Bool) :
    ∀ s, (u.dequeue slot len addr).1.Fifo s := by
  obtain ⟨l, hl, _⟩ := H slot
  obtain ⟨pkt, l', rfl, hq, _⟩ := hl.pop hc
  unfold dequeue
  simp only [hq]
  refine fifo_step H slot [_, _] rfl rfl (by simp [UdpObs.about]) (fun l₁ hl₁ hf => ?_)
  obtain ⟨pkt₁, l₁', rfl, hq₁, h₁⟩ := hl₁.pop hc
  obtain rfl : pkt₁ = pkt := Option.some.inj (hq₁.symm.trans hq)
  refine ⟨l₁', h₁, ?_⟩
  simp only [udpEnqueued, udpDelivered] at hf
  simp [udpEnqueued, udpDelivered, since, UdpObs.restarts, UdpObs.enqueuedIn, UdpObs.deliveredFrom, hf]

/-- So does a receive up to where it waits. -/
theorem recv_fifo (H : ∀ s, u.Fifo s) (pid slot len : Int) (timeout : Nat) (addr : Bool) :
    ∀ s, (u.recv pid slot len timeout addr).1.Fifo s := by
  unfold recv
  split
  · exact H
  · split
    · exact H
    · split
      · exact fifo_fields H slot rfl rfl (fun l hl => hl.congr rfl rfl rfl rfl)
      · next hc =>
        refine dequeue_fifo H ?_ len addr
        obtain ⟨l, hl, _⟩ := H slot
        have := hl.valid.low
        omega

/-- So does its end, if a queue that is said to have a packet has one. -/
theorem wake_fifo (H : ∀ s, u.Fifo s) {slot msg : Int} (hc : msg = OK → 0 < (u.udptab slot).udcount) (len : Int)
    (addr : Bool) : ∀ s, (u.wake slot len addr msg).1.Fifo s := by
  have H' : ∀ s, (u.setSlot slot { u.udptab slot with udstate := .UDP_USED }).Fifo s :=
    fifo_fields H slot rfl rfl (fun l hl => hl.congr rfl rfl rfl rfl)
  unfold wake
  simp only
  split
  · exact H'
  · split
    · exact H'
    · next hmsg =>
      refine dequeue_fifo H' ?_ len addr
      simpa [setSlot] using hc (not_not.mp hmsg)

theorem freedLog_about {l : List (Option UdpPacket)} {o : UdpObs} (ho : o ∈ freedLog l) : o.about = none := by
  simp only [freedLog, List.mem_reverse, List.mem_filterMap, Option.map_eq_some_iff] at ho
  obtain ⟨_, _, pkt, _, rfl⟩ := ho
  rfl

/-- A release begins a new life of the slot. -/
theorem since_released {fs : List UdpObs} (hfs : ∀ o ∈ fs, o.about = none) (slot : Int) (log : List UdpObs) :
    udpEnqueued slot ((fs ++ [.released slot]) ++ log) = udpDelivered slot ((fs ++ [.released slot]) ++ log) := by
  have hne : ∀ o ∈ fs, o.about ≠ some slot := by
    intro o ho
    rw [hfs o ho]
    simp
  rw [List.append_assoc, udpEnqueued, udpDelivered,
    since_append (fun o ho => ⟨(UdpObs.of_about (hne o ho)).1, (UdpObs.of_about (hne o ho)).2.1⟩),
    since_append (fun o ho => ⟨(UdpObs.of_about (hne o ho)).1, (UdpObs.of_about (hne o ho)).2.2⟩)]
  simp [since, UdpObs.restarts]

/-- So does a release. -/
theorem udpRelease_fifo (H : ∀ s, u.Fifo s) (slot : Int) : ∀ s, (u.udpRelease slot).1.Fifo s := by
  obtain ⟨l, hl, _⟩ := H slot
  obtain ⟨hd, hempty⟩ := hl.drain
  unfold udpRelease
  split
  · exact H
  · split
    · exact H
    · simp only
      have hsome : none ∉ ((u.udptab slot).drain (u.udptab slot).udcount.toNat).2 := by
        rw [hd]
        simp
      rw [if_neg hsome]
      generalize hfs : freedLog ((u.udptab slot).drain (u.udptab slot).udcount.toNat).2 = fs
      have hnone : ∀ o ∈ fs, o.about = none := by
        intro o ho
        exact freedLog_about (hfs ▸ ho)
      have hrel : ∀ s, Udp.Fifo { u.setSlot slot { ((u.udptab slot).drain (u.udptab slot).udcount.toNat).1 with
          udstate := .UDP_FREE } with log := fs ++ .released slot :: u.log } s := by
        refine fifo_step H slot (fs ++ [.released slot]) rfl (by simp) (fun o ho => ?_) (fun _ _ _ => ⟨[], ?_, ?_⟩)
        · rcases List.mem_append.mp ho with ho | ho
          · exact Or.inr (hnone o ho)
          · rw [List.mem_singleton.mp ho]
            exact Or.inl rfl
        · exact hempty.congr rfl rfl rfl rfl
        · rw [since_released hnone, List.append_nil]
      split
      · exact hrel
      · exact hrel

end Udp

/-- The queue of every slot in use is in order, and what was delivered is the first part of what was enqueued. -/
structure UdpQueues (u : Udp) : Prop where
  ring : ∀ slot, (u.udptab slot).udstate ≠ .UDP_FREE →
    (0 ≤ (u.udptab slot).udcount ∧ (u.udptab slot).udcount ≤ UDP_QSIZ) ∧
      (0 ≤ (u.udptab slot).udhead ∧ (u.udptab slot).udhead < UDP_QSIZ) ∧
      (0 ≤ (u.udptab slot).udtail ∧ (u.udptab slot).udtail < UDP_QSIZ) ∧
      (u.udptab slot).udtail = ((u.udptab slot).udhead + (u.udptab slot).udcount) % UDP_QSIZ
  fifo : ∀ slot, ∃ l, udpEnqueued slot u.log = udpDelivered slot u.log ++ l ∧
    Ring.items UDP_QSIZ (u.udptab slot).udqueue (u.udptab slot).udhead (u.udptab slot).udcount = l.map some

namespace Machine

variable (m : Machine udp)

/-- A receiver that has waited and goes on with the message `OK` finds a packet. -/
def Served : Event udp → Bool
  | .cont =>
    match m.stack with
    | .kernel (.ret v) :: .client (.waited slot _ _) :: _ => decide (v ≠ OK) || decide (0 < (m.data.udptab slot).udcount)
    | _ => true
  | _ => true

/-- The slot from whose queue the event takes a packet. -/
def takesFrom : Event udp → Option Int
  | .op (.udpRecv slot _ _) | .op (.udpRecvaddr slot _ _) =>
    if (0 ≤ slot ∧ slot < UDP_SLOTS) ∧ (m.data.udptab slot).udstate = .UDP_USED ∧ (m.data.udptab slot).udcount ≠ 0 then some slot
    else none
  | .cont =>
    match m.stack with
    | .kernel (.ret v) :: .client (.waited slot _ _) :: _ => if v = OK then some slot else none
    | _ => none
  | _ => none

end Machine

/-- A segment keeps the queues in order. -/
theorem udp_follows_fifo {m : Machine udp} {e : Event udp} {l : List (Frame UdpPoint)} {x : Udp × Next UdpPoint}
    (hok : m.Served e = true) (hx : Machine.Follows m e l x) (H : ∀ s, Udp.Fifo m.data s) : ∀ s, x.1.Fifo s := by
  cases hx with
  | enter o h =>
    cases o with
    | udpIn pkt => exact Udp.udpIn_fifo H pkt
    | udpRegister remip remport locport => exact Udp.udpRegister_fifo H remip remport locport
    | udpRecv slot len timeout => exact Udp.recv_fifo H _ slot len timeout false
    | udpRecvaddr slot len timeout => exact Udp.recv_fifo H _ slot len timeout true
    | udpRelease slot => exact Udp.udpRelease_fifo H slot
  | @callback f l h =>
    cases f with
    | cleared => exact H
    | done => exact H
    | waited slot len addr => exact Udp.wake_fifo H (fun e => absurd e (by decide)) len addr
  | @client v f l h =>
    cases f with
    | cleared => exact H
    | done => exact H
    | waited slot len addr =>
      refine Udp.wake_fifo H (fun e => ?_) len addr
      simpa [Machine.Served, h, e] using hok

/-- A packet for port 9. -/
def pktNine : UdpPacket := ⟨4096, 1, 5, 9, 10, [7, 8]⟩

/-- A process registers port 9 and waits; a packet arrives and is delivered. -/
def udpOnePacket : List (Event udp) :=
  [.call (.semcreate 1), .cont, .call (.create 400 20), .cont, .call (.resume 1), .op (.udpRegister 0 0 9),
    .op (.udpRecv 0 10 100), .cont, .cont, .op (.udpIn pktNine), .cont, .cont, .cont]

/-- A process waits for a packet, another process sends it the message `OK`, and it goes on. -/
def udpStrayMessage : List (Event udp) :=
  [.call (.create 400 20), .cont, .call (.resume 1), .op (.udpRegister 0 0 9), .op (.udpRecv 0 10 100), .cont, .cont,
    .call (.send 1 1), .cont, .cont]

end Xinu
