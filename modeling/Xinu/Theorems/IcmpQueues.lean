import Xinu.Net.Icmp

/-!
# The reply queues of ICMP in every run

`icmp_in` does not look whether the queue of a slot is full, and the index of the first reply is compared with the number of
slots, not with the size of the queue. In every run in which neither matters and a receiver that is woken with `OK` finds a
reply, the queues are rings, replies are received in the order of arrival, and each is handed to `freebuf` once.
-/

namespace Xinu

namespace IcmpObs

/-- The slot begins a new life. -/
def restarts (slot : Int) : IcmpObs → Bool
  | .released s => decide (s = slot)
  | _ => false

/-- The reply was queued in the slot. -/
def queuedIn (slot : Int) : IcmpObs → Option IcmpPacket
  | .queued s pkt => if s = slot then some pkt else none
  | _ => none

/-- The reply was received from the slot. -/
def receivedFrom (slot : Int) : IcmpObs → Option IcmpPacket
  | .received s pkt _ => if s = slot then some pkt else none
  | _ => none

/-- The reply of the slot was handed to `freebuf`. -/
def freedFrom (slot : Int) : IcmpObs → Option IcmpPacket
  | .received s pkt _ => if s = slot then some pkt else none
  | .discarded s pkt => if s = slot then some pkt else none
  | _ => none

/-- The slot that a record is about. -/
def about : IcmpObs → Option Int
  | .queued s _ | .received s .. | .discarded s _ | .released s => some s
  | .dropped _ => none

theorem of_about {o : IcmpObs} {s : Int} (h : o.about ≠ some s) :
    o.restarts s = false ∧ o.queuedIn s = none ∧ o.receivedFrom s = none ∧ o.freedFrom s = none := by
  cases o <;> simp [about, restarts, queuedIn, receivedFrom, freedFrom] at h ⊢ <;> exact h

end IcmpObs

/-- The replies that `icmp_in` ever queued in the slot. -/
def icmpQueued (slot : Int) (log : List IcmpObs) : List IcmpPacket := since (fun _ => false) (IcmpObs.queuedIn slot) log

/-- The queued replies that `icmp_recv` and `icmp_release` handed to `freebuf`. -/
def icmpFreed (slot : Int) (log : List IcmpObs) : List IcmpPacket := since (fun _ => false) (IcmpObs.freedFrom slot) log

/-- The replies that `icmp_in` queued since the slot was released last. -/
def icmpArrived (slot : Int) (log : List IcmpObs) : List IcmpPacket :=
  since (IcmpObs.restarts slot) (IcmpObs.queuedIn slot) log

/-- The replies that `icmp_recv` returned since then. -/
def icmpReceived (slot : Int) (log : List IcmpObs) : List IcmpPacket :=
  since (IcmpObs.restarts slot) (IcmpObs.receivedFrom slot) log

/-- The queue of an entry is a ring that holds the replies `l`. -/
structure Icmpentry.Holds (e : Icmpentry) (l : List IcmpPacket) : Prop where
  valid : Ring.Valid ICMP_QSIZ e.ichead e.ictail e.iccount
  items : Ring.items ICMP_QSIZ e.icqueue e.ichead e.iccount = l.map some

/-- The entry of a slot: the queue of a free one is empty, but its first index may be the one behind the array. -/
structure Icmpentry.Keeps (e : Icmpentry) (l : List IcmpPacket) : Prop where
  used : e.icstate ≠ .ICMP_FREE → e.Holds l
  free : e.icstate = .ICMP_FREE → l = [] ∧ e.iccount = 0 ∧ 0 ≤ e.ichead ∧ e.ictail = e.ichead % ICMP_QSIZ

/-- What the records say of a slot whose queue holds `l`. -/
structure IcmpLedger (slot : Int) (log : List IcmpObs) (l : List IcmpPacket) : Prop where
  order : icmpArrived slot log = icmpReceived slot log ++ l
  freed : icmpQueued slot log = icmpFreed slot log ++ l

/-- The queue of a slot holds what was queued and neither received nor discarded. -/
def Icmp.Fifo (c : Icmp) (slot : Int) : Prop := ∃ l, (c.icmptab slot).Keeps l ∧ IcmpLedger slot c.log l

namespace Icmpentry.Holds

variable {e e' : Icmpentry} {l : List IcmpPacket} {pkt : IcmpPacket}

/-- The other fields do not matter. -/
theorem congr (H : e.Holds l) (h1 : e'.ichead = e.ichead) (h2 : e'.ictail = e.ictail) (h3 : e'.iccount = e.iccount)
    (h4 : e'.icqueue = e.icqueue) : e'.Holds l := by
  obtain ⟨hv, hi⟩ := H
  exact ⟨by rw [h1, h2, h3]; exact hv, by rw [h1, h3, h4]; exact hi⟩

theorem length (H : e.Holds l) : e.iccount = l.length := by
  have h1 := congrArg List.length H.items
  rw [Ring.items_length, List.length_map] at h1
  have := H.valid.low
  omega

/-- A packet is put behind the last one. -/
theorem push (H : e.Holds l) (hc : e.iccount < ICMP_QSIZ) (pkt : IcmpPacket) :
    Icmpentry.Holds { e with
      iccount := e.iccount + 1, icqueue := Function.update e.icqueue e.ictail (some pkt),
      ictail := Ring.next ICMP_QSIZ e.ictail } (l ++ [pkt]) := by
  refine ⟨H.valid.push hc, ?_⟩
  rw [List.map_append, ← H.items]
  exact H.valid.items_push hc (some pkt)

/-- The first reply is at the head of the queue. -/
theorem front (H : e.Holds (pkt :: l)) : e.front = some pkt := by
  have hpos : 0 < e.iccount := by
    have := H.length
    simp only [List.length_cons] at this
    omega
  have hp := H.valid.items_pop hpos (q := e.icqueue)
  rw [H.items, List.map_cons] at hp
  rw [Icmpentry.front, if_pos H.valid.first]
  exact (List.cons.inj hp).1.symm

/-- Where the index is not the last one, the two ways to compare it agree. -/
theorem advance (H : e.Holds (pkt :: l)) (hh : e.ichead + 1 < ICMP_QSIZ) : e.advance.Holds l := by
  have hpos : 0 < e.iccount := by
    have := H.length
    simp only [List.length_cons] at this
    omega
  have hnext : Ring.next ICMP_SLOTS e.ichead = Ring.next ICMP_QSIZ e.ichead := by
    rw [Ring.next_of_lt hh, Ring.next_of_lt (Int.lt_trans hh (by decide))]
  have hp := H.valid.items_pop hpos (q := e.icqueue)
  rw [H.items, List.map_cons] at hp
  refine ⟨?_, ?_⟩
  · show Ring.Valid ICMP_QSIZ (Ring.next ICMP_SLOTS e.ichead) e.ictail (e.iccount - 1)
    rw [hnext]
    exact H.valid.pop hpos
  · show Ring.items ICMP_QSIZ e.icqueue (Ring.next ICMP_SLOTS e.ichead) (e.iccount - 1) = _
    rw [hnext]
    exact (List.cons.inj hp).2.symm

/-- The loop of `icmp_release` takes all replies off a queue that does not go past the end of the array. -/
theorem drain (H : e.Holds l) (hh : e.ichead + e.iccount ≤ ICMP_QSIZ) (acc : List IcmpPacket) :
    e.drain e.iccount.toNat acc = some ({ e with ichead := e.ichead + e.iccount, iccount := 0 }, acc ++ l) := by
  have hlen : e.iccount = l.length := H.length
  have hnat : e.iccount.toNat = l.length := by omega
  rw [hnat]
  induction l generalizing e acc with
  | nil =>
    rw [List.length_nil] at hlen
    have h0 : e.iccount = 0 := hlen
    simp [Icmpentry.drain, h0]
    rw [← h0]
  | cons pkt l ih =>
    rw [List.length_cons] at hlen
    have hstep : Ring.next ICMP_SLOTS e.ichead = e.ichead + 1 := by
      refine Ring.next_of_lt (Int.lt_of_le_of_lt (Int.le_trans ?_ hh) (by decide))
      omega
    have hrest : e.advance.drain l.length (acc ++ [pkt]) =
        some ({ e with ichead := e.ichead + e.iccount, iccount := 0 }, acc ++ pkt :: l) := by
      cases l with
      | nil =>
        -- the index may be the one behind the array now
        have h1 : e.iccount = 1 := by simpa using hlen
        simp [Icmpentry.drain, Icmpentry.advance, hstep, h1]
      | cons pkt' l =>
        rw [List.length_cons] at hlen
        have H' := H.advance (by simp only [ICMP_QSIZ] at hh ⊢; omega)
        have h1 : e.advance.ichead = e.ichead + 1 := hstep
        have h2 : e.advance.iccount = e.iccount - 1 := rfl
        rw [ih H' (by rw [h1, h2]; omega) (acc ++ [pkt]) H'.length (by rw [H'.length]; rfl), h1, h2]
        simp only [List.append_assoc, List.singleton_append, Option.some.injEq, Prod.mk.injEq, and_true]
        rw [show e.ichead + 1 + (e.iccount - 1) = e.ichead + e.iccount by omega]
        rfl
    rw [List.length_cons, Icmpentry.drain, H.front]
    exact hrest

end Icmpentry.Holds

namespace IcmpLedger

variable {slot : Int} {log : List IcmpObs} {l : List IcmpPacket}

/-- Records about other slots. -/
theorem others {os : List IcmpObs} (L : IcmpLedger slot log l) (hos : ∀ o ∈ os, o.about ≠ some slot) :
    IcmpLedger slot (os ++ log) l := by
  have ho := fun o ho => IcmpObs.of_about (hos o ho)
  constructor
  · rw [icmpArrived, icmpReceived, since_append (fun o h => ⟨(ho o h).1, (ho o h).2.1⟩),
      since_append (fun o h => ⟨(ho o h).1, (ho o h).2.2.1⟩)]
    exact L.order
  · rw [icmpQueued, icmpFreed, since_append (fun o h => ⟨rfl, (ho o h).2.1⟩),
      since_append (fun o h => ⟨rfl, (ho o h).2.2.2⟩)]
    exact L.freed

/-- A packet that is queued is a new one at the end. -/
theorem queued (L : IcmpLedger slot log l) (pkt : IcmpPacket) : IcmpLedger slot (.queued slot pkt :: log) (l ++ [pkt]) := by
  have h1 : (IcmpObs.queued slot pkt).queuedIn slot = some pkt := if_pos rfl
  constructor
  · rw [icmpArrived, icmpReceived, since_some rfl h1, since_none rfl rfl, ← List.append_assoc]
    exact congrArg (· ++ [pkt]) L.order
  · rw [icmpQueued, icmpFreed, since_some rfl h1, since_none rfl rfl, ← List.append_assoc]
    exact congrArg (· ++ [pkt]) L.freed

/-- A packet that is received was the first one. -/
theorem received {pkt : IcmpPacket} (L : IcmpLedger slot log (pkt :: l)) (bytes : List Nat) :
    IcmpLedger slot (.received slot pkt bytes :: log) l := by
  have h1 : (IcmpObs.received slot pkt bytes).receivedFrom slot = some pkt := if_pos rfl
  have h2 : (IcmpObs.received slot pkt bytes).freedFrom slot = some pkt := if_pos rfl
  constructor
  · rw [icmpArrived, icmpReceived, since_none rfl rfl, since_some rfl h1, List.append_assoc]
    exact L.order
  · rw [icmpQueued, icmpFreed, since_none rfl rfl, since_some rfl h2, List.append_assoc]
    exact L.freed

/-- `icmp_release` hands every reply to `freebuf`. -/
theorem discarded {k : List IcmpPacket} (hl : icmpQueued slot log = icmpFreed slot log ++ (k ++ l)) :
    icmpQueued slot ((k.map (IcmpObs.discarded slot)).reverse ++ log) =
      icmpFreed slot ((k.map (IcmpObs.discarded slot)).reverse ++ log) ++ l := by
  induction k generalizing log with
  | nil => exact hl
  | cons pkt k ih =>
    have h1 : (IcmpObs.discarded slot pkt).freedFrom slot = some pkt := if_pos rfl
    have hl' : icmpQueued slot (.discarded slot pkt :: log) = icmpFreed slot (.discarded slot pkt :: log) ++ (k ++ l) := by
      rw [icmpQueued, icmpFreed, since_none rfl rfl, since_some rfl h1, List.append_assoc]
      exact hl
    rw [List.map_cons, List.reverse_cons, List.append_assoc]
    exact ih hl'

/-- What is left at the release has been discarded. -/
theorem released (L : IcmpLedger slot log l) :
    IcmpLedger slot (.released slot :: ((l.map (IcmpObs.discarded slot)).reverse ++ log)) [] := by
  have h1 : (IcmpObs.released slot).restarts slot = true := decide_eq_true rfl
  constructor
  · rw [icmpArrived, icmpReceived, since_reset h1, since_reset h1]
    rfl
  · have hd := discarded (k := l) (l := []) (by rw [List.append_nil]; exact L.freed)
    rw [icmpQueued, icmpFreed, since_none rfl rfl, since_none rfl rfl]
    exact hd

end IcmpLedger

namespace Icmp

variable {c c' : Icmp} {slot : Int} {e : Icmpentry}

/-- An operation on the slot `i`, which keeps the order there. -/
theorem fifo_step (H : ∀ s, c.Fifo s) (i : Int) (os : List IcmpObs) (htab : c'.icmptab = Function.update c.icmptab i e)
    (hlog : c'.log = os ++ c.log) (hos : ∀ o ∈ os, o.about = some i)
    (hi : ∀ l, (c.icmptab i).Keeps l → IcmpLedger i c.log l → ∃ l', e.Keeps l' ∧ IcmpLedger i (os ++ c.log) l') (s : Int) :
    c'.Fifo s := by
  obtain ⟨l, hl, hf⟩ := H s
  by_cases hs : s = i
  · subst hs
    obtain ⟨l', hl', hf'⟩ := hi l hl hf
    refine ⟨l', ?_, ?_⟩
    · rw [htab, Function.update_self]
      exact hl'
    · rw [hlog]
      exact hf'
  · refine ⟨l, ?_, ?_⟩
    · rw [htab, Function.update_of_ne hs]
      exact hl
    · rw [hlog]
      refine hf.others (fun o ho ha => hs ?_)
      exact Option.some.inj (ha.symm.trans (hos o ho))

theorem drop_fifo (H : ∀ s, c.Fifo s) (pkt : IcmpPacket) : ∀ s, (c.drop pkt).1.Fifo s := by
  intro s
  obtain ⟨l, hl, hf⟩ := H s
  refine ⟨l, hl, ?_⟩
  have hos : ∀ o ∈ [IcmpObs.dropped pkt], o.about ≠ some s := by simp [IcmpObs.about]
  exact hf.others hos

/-- The reply is queued in the slot that it names. -/
def Queues (c : Icmp) (pkt : IcmpPacket) : Bool :=
  decide (pkt.net_ictype = ICMP_ECHOREPLY) && decide ((pkt.net_icident : Int) < ICMP_SLOTS) &&
    decide ((c.icmptab pkt.net_icident).icstate ≠ .ICMP_FREE) &&
    decide (pkt.net_ipsrc = (c.icmptab pkt.net_icident).icremip)

/-- `icmp_in` puts its packet at the end, if there is room. -/
theorem icmpIn_fifo (H : ∀ s, c.Fifo s) {pkt : IcmpPacket}
    (hc : c.Queues pkt = true → (c.icmptab pkt.net_icident).iccount < ICMP_QSIZ) : ∀ s, (c.icmpIn pkt).1.Fifo s := by
  unfold icmpIn
  split
  · exact drop_fifo H pkt
  · next ht =>
    split
    · exact H
    · next hr =>
      simp only
      split
      · exact drop_fifo H pkt
      · next hslot =>
        split
        · exact drop_fifo H pkt
        · next hst =>
          simp only [not_or, not_not, not_and_or] at ht hst hslot
          have hq : c.Queues pkt = true := by
            simp only [Queues, Bool.and_eq_true, decide_eq_true_eq]
            exact ⟨⟨⟨ht.resolve_right hr, by omega⟩, hst.1⟩, hst.2⟩
          have hpush : ∀ l, (c.icmptab pkt.net_icident).Keeps l → IcmpLedger pkt.net_icident c.log l → _ :=
            fun l hl hf => And.intro ((hl.used hst.1).push (hc hq) pkt) (hf.queued pkt)
          split
          · refine fifo_step H pkt.net_icident [.queued pkt.net_icident pkt] rfl rfl (by simp [IcmpObs.about])
              (fun l hl hf => ⟨l ++ [pkt], ⟨fun _ => ?_, fun h => by cases h⟩, (hpush l hl hf).2⟩)
            exact (hpush l hl hf).1.congr rfl rfl rfl rfl
          · refine fifo_step H pkt.net_icident [.queued pkt.net_icident pkt] rfl rfl (by simp [IcmpObs.about])
              (fun l hl hf => ⟨l ++ [pkt], ⟨fun _ => ?_, fun h => absurd h hst.1⟩, (hpush l hl hf).2⟩)
            exact (hpush l hl hf).1

/-- `icmp_register` begins with an empty queue. -/
theorem icmpRegister_fifo (H : ∀ s, c.Fifo s) (remip : Nat) : ∀ s, (c.icmpRegister remip).1.Fifo s := by
  unfold icmpRegister
  simp only
  split
  · exact H
  · split
    · exact H
    · next i hi =>
      have hfree : (c.icmptab i).icstate = .ICMP_FREE := by simpa using List.find?_some hi
      refine fifo_step H i [] rfl rfl (by simp) (fun l hl hf => ⟨l, ⟨fun _ => ?_, fun h => by cases h⟩, hf⟩)
      rw [(hl.free hfree).1]
      exact ⟨Ring.Valid.empty (by decide), rfl⟩

/-- A reply is taken off a queue that is not empty and whose first index is not the last one of the array. -/
theorem dequeue_fifo (H : ∀ s, c.Fifo s) (hst : (c.icmptab slot).icstate ≠ .ICMP_FREE)
    (hc : 0 < (c.icmptab slot).iccount) (hh : (c.icmptab slot).ichead + 1 < ICMP_QSIZ) (len : Int) :
    ∀ s, (c.dequeue slot len).1.Fifo s := by
  have hcons : ∀ l, (c.icmptab slot).Holds l → ∃ pkt l', l = pkt :: l' := by
    intro l hl
    cases l with
    | nil => exact absurd hl.length (by simp only [List.length_nil]; omega)
    | cons pkt l' => exact ⟨pkt, l', rfl⟩
  obtain ⟨l, hl, _⟩ := H slot
  obtain ⟨pkt, l', rfl⟩ := hcons l (hl.used hst)
  have hfront := (hl.used hst).front
  unfold dequeue
  simp only [hfront]
  refine fifo_step H slot [_] rfl rfl (by simp [IcmpObs.about]) (fun l₁ hl₁ hf => ?_)
  obtain ⟨pkt₁, l₁', rfl⟩ := hcons l₁ (hl₁.used hst)
  obtain rfl : pkt₁ = pkt := Option.some.inj ((hl₁.used hst).front.symm.trans hfront)
  exact ⟨l₁', ⟨fun _ => (hl₁.used hst).advance hh, fun h => absurd h hst⟩, hf.received _⟩

/-- `icmp_recv` takes the first packet, if it is not in the last place. -/
theorem icmpRecv_fifo (H : ∀ s, c.Fifo s) {icmpid : Int}
    (hh : (c.icmptab icmpid).icstate = .ICMP_USED → (c.icmptab icmpid).iccount ≠ 0 →
      (c.icmptab icmpid).ichead + 1 < ICMP_QSIZ) (pid len : Int) (timeout : Nat) :
    ∀ s, (c.icmpRecv pid icmpid len timeout).1.Fifo s := by
  unfold icmpRecv
  split
  · exact H
  · split
    · exact H
    · next hst =>
      have hst := not_not.mp hst
      have hne : (c.icmptab icmpid).icstate ≠ .ICMP_FREE := by rw [hst]; decide
      split
      · refine fifo_step H icmpid [] rfl rfl (by simp) (fun l hl hf => ⟨l, ⟨fun _ => ?_, fun h => by cases h⟩, hf⟩)
        exact (hl.used hne).congr rfl rfl rfl rfl
      · next hc =>
        refine dequeue_fifo H hne ?_ (hh hst hc) len
        obtain ⟨l, hl, _⟩ := H icmpid
        have := (hl.used hne).valid.low
        omega

/-- So does it when it has waited. -/
theorem wake_fifo (H : ∀ s, c.Fifo s) {icmpid msg : Int} (hr : (c.icmptab icmpid).ichead < ICMP_QSIZ)
    (hc : msg = OK → 0 < (c.icmptab icmpid).iccount ∧ (c.icmptab icmpid).ichead + 1 < ICMP_QSIZ) (len : Int) :
    ∀ s, (c.wake icmpid len msg).1.Fifo s := by
  have H' : ∀ s, (c.setSlot icmpid { c.icmptab icmpid with icstate := .ICMP_USED }).Fifo s := by
    refine fifo_step H icmpid [] rfl rfl (by simp) (fun l hl hf => ⟨l, ⟨fun _ => ?_, fun h => by cases h⟩, hf⟩)
    by_cases hfree : (c.icmptab icmpid).icstate = .ICMP_FREE
    · obtain ⟨rfl, h0, hlow, hlast⟩ := hl.free hfree
      refine ⟨⟨?_, ?_, ⟨hlow, hr⟩, ?_⟩, ?_⟩
      · exact Int.le_of_eq h0.symm
      · exact Int.le_trans (Int.le_of_eq h0) (by decide : 0 ≤ ICMP_QSIZ)
      · simp only [h0, Int.add_zero]
        exact hlast
      · simp only [h0]
        rfl
    · exact (hl.used hfree).congr rfl rfl rfl rfl
  unfold wake
  simp only
  split
  · exact H'
  · split
    · exact H'
    · next hmsg =>
      obtain ⟨h1, h2⟩ := hc (not_not.mp hmsg)
      refine dequeue_fifo H' ?_ ?_ ?_ len
      · simp [setSlot]
      · simpa [setSlot] using h1
      · simpa [setSlot] using h2

/-- `icmp_release` discards what is left. -/
theorem icmpRelease_fifo (H : ∀ s, c.Fifo s) {icmpid : Int}
    (hh : (c.icmptab icmpid).icstate = .ICMP_USED → (c.icmptab icmpid).ichead + (c.icmptab icmpid).iccount ≤ ICMP_QSIZ) :
    ∀ s, (c.icmpRelease icmpid).1.Fifo s := by
  unfold icmpRelease
  split
  · exact H
  · split
    · exact H
    · next hst =>
      have hst := not_not.mp hst
      have hne : (c.icmptab icmpid).icstate ≠ .ICMP_FREE := by rw [hst]; decide
      obtain ⟨k, hk, hkf⟩ := H icmpid
      have hd := (hk.used hne).drain (hh hst) []
      rw [hd, List.nil_append]
      simp only
      have hrel : ∀ s, Icmp.Fifo { c.setSlot icmpid { c.icmptab icmpid with
          ichead := (c.icmptab icmpid).ichead + (c.icmptab icmpid).iccount, iccount := 0, icstate := .ICMP_FREE } with
          log := .released icmpid :: ((k.map (IcmpObs.discarded icmpid)).reverse ++ c.log) } s := by
        refine fifo_step H icmpid (.released icmpid :: (k.map (IcmpObs.discarded icmpid)).reverse) rfl rfl (fun o ho => ?_)
          (fun l hl hf => ⟨[], ⟨fun h => absurd rfl h, fun _ => ⟨rfl, rfl, ?_, ?_⟩⟩, hkf.released⟩)
        · rcases List.mem_cons.mp ho with rfl | ho
          · rfl
          · obtain ⟨pkt, _, rfl⟩ := List.mem_map.mp (List.mem_reverse.mp ho)
            rfl
        · have h1 := (hl.used hne).valid.first
          have h2 := (hl.used hne).valid.low
          show 0 ≤ (c.icmptab icmpid).ichead + (c.icmptab icmpid).iccount
          omega
        · exact (hl.used hne).valid.last
      split
      · exact hrel
      · exact hrel

end Icmp

/-- The queue of every slot in use is in order; what was received is the first part of what arrived, and every queued reply
is still queued or was handed to `freebuf`, once. -/
structure IcmpQueues (c : Icmp) : Prop where
  ring : ∀ slot, (c.icmptab slot).icstate ≠ .ICMP_FREE →
    (0 ≤ (c.icmptab slot).iccount ∧ (c.icmptab slot).iccount ≤ ICMP_QSIZ) ∧
      (0 ≤ (c.icmptab slot).ichead ∧ (c.icmptab slot).ichead < ICMP_QSIZ) ∧
      (0 ≤ (c.icmptab slot).ictail ∧ (c.icmptab slot).ictail < ICMP_QSIZ) ∧
      (c.icmptab slot).ictail = ((c.icmptab slot).ichead + (c.icmptab slot).iccount) % ICMP_QSIZ
  fifo : ∀ slot, ∃ l, icmpArrived slot c.log = icmpReceived slot c.log ++ l ∧
    icmpQueued slot c.log = icmpFreed slot c.log ++ l ∧
    ((c.icmptab slot).icstate ≠ .ICMP_FREE →
      Ring.items ICMP_QSIZ (c.icmptab slot).icqueue (c.icmptab slot).ichead (c.icmptab slot).iccount = l.map some) ∧
    ((c.icmptab slot).icstate = .ICMP_FREE → l = [])

/-- A reply is queued where there is room, a reply is taken off where the index does not reach the end of the array, and a
receiver that goes on finds the index inside the array and, with the message `OK`, a reply. -/
def Machine.Fits (m : Machine icmp) : Event icmp → Bool
  | .op (.icmpIn pkt) => !m.data.Queues pkt || decide ((m.data.icmptab pkt.net_icident).iccount < ICMP_QSIZ)
  | .op (.icmpRecv icmpid _ _) =>
    decide ((m.data.icmptab icmpid).icstate ≠ .ICMP_USED) || decide ((m.data.icmptab icmpid).iccount = 0) ||
      decide ((m.data.icmptab icmpid).ichead + 1 < ICMP_QSIZ)
  | .op (.icmpRelease icmpid) =>
    decide ((m.data.icmptab icmpid).icstate ≠ .ICMP_USED) ||
      decide ((m.data.icmptab icmpid).ichead + (m.data.icmptab icmpid).iccount ≤ ICMP_QSIZ)
  | e =>
    match m.resumed e with
    | some (.waited icmpid _, msg) =>
      decide ((m.data.icmptab icmpid).ichead < ICMP_QSIZ) && (decide (msg ≠ OK) ||
        (decide (0 < (m.data.icmptab icmpid).iccount) && decide ((m.data.icmptab icmpid).ichead + 1 < ICMP_QSIZ)))
    | _ => true

/-- A routine that begins keeps the queues in order. -/
theorem icmp_enter_fifo {m : Machine icmp} {o : IcmpOp} (hok : m.Fits (.op o) = true) (H : ∀ s, Icmp.Fifo m.data s) :
    ∀ s, (icmp.enter m.data m.k.currpid o).1.Fifo s := by
  cases o with
  | icmpIn pkt =>
    refine Icmp.icmpIn_fifo H (fun hq => ?_)
    simpa [Machine.Fits, hq] using hok
  | icmpRegister remip => exact Icmp.icmpRegister_fifo H remip
  | icmpRecv icmpid len timeout =>
    refine Icmp.icmpRecv_fifo H (fun hst hc => ?_) _ len timeout
    simpa [Machine.Fits, hst, hc] using hok
  | icmpRelease icmpid =>
    refine Icmp.icmpRelease_fifo H (fun hst => ?_)
    simpa [Machine.Fits, hst] using hok

/-- A routine that goes on keeps the queues in order. -/
theorem icmp_resume_fifo {m : Machine icmp} {e : Event icmp} {f : IcmpPoint} {v : Int} (hok : m.Fits e = true)
    (hf : m.resumed e = some (f, v)) (H : ∀ s, Icmp.Fifo m.data s) :
    ∀ s, (icmp.resume m.data m.k.currpid f v).1.Fifo s := by
  cases f with
  | answered pkt => exact Icmp.drop_fifo H pkt
  | cleared => exact H
  | done => exact H
  | waited icmpid len =>
    have hok' : (m.data.icmptab icmpid).ichead < ICMP_QSIZ ∧ (v = OK →
        0 < (m.data.icmptab icmpid).iccount ∧ (m.data.icmptab icmpid).ichead + 1 < ICMP_QSIZ) := by
      cases e with
      | op => cases hf
      | call | tick => cases hf
      | ret | cont =>
        simp only [Machine.Fits, hf, Bool.and_eq_true, Bool.or_eq_true, decide_eq_true_eq] at hok
        exact ⟨hok.1, fun h => hok.2.resolve_left (fun h' => h' h)⟩
    exact Icmp.wake_fifo H hok'.1 hok'.2 len

/-- An echo reply for the slot 0. -/
def echoReply : IcmpPacket := ⟨4096, 7, 30, ICMP_ECHOREPLY, 0, [1, 2]⟩

/-- A process registers an address and waits; a reply arrives and is received. -/
def icmpOneReply : List (Event icmp) :=
  [.call (.semcreate 1), .cont, .call (.create 400 20), .cont, .call (.resume 1), .op (.icmpRegister 7),
    .op (.icmpRecv 0 10 100), .cont, .cont, .op (.icmpIn echoReply), .cont, .cont, .cont]

/-- Nine replies arrive, and nobody receives them. -/
def icmpNineReplies : List (Event icmp) := .op (.icmpRegister 7) :: List.replicate 9 (.op (.icmpIn echoReply))

end Xinu
