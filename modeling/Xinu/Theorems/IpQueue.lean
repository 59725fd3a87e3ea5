import Xinu.Net.Ipout

/-!
# The IP output queue in every run

The count of the semaphore and the processes between the `wait` of `ipout` and the statement that takes a packet are together the
number of packets in the queue. `ip_enqueue` reads the count only: while `ipout` has been released and has not run, a count below
the size of the queue does not mean that a place is free. In every run in which it does, the queue is in order.
-/

namespace Xinu

open Ip (Buf IP_OQSIZ)

/-- The packet was stored. -/
def IpObs.storedPkt : IpObs → Option Buf
  | .stored pktptr => some pktptr
  | _ => none

/-- The packet was taken. -/
def IpObs.takenPkt : IpObs → Option Buf
  | .taken pktptr => some pktptr
  | _ => none

/-- The packets for which `ip_enqueue` returned `OK`, in order. -/
def ipStored (log : List IpObs) : List Buf := since (fun _ => false) IpObs.storedPkt log

/-- The packets that `ipout` took, in order. -/
def ipTaken (log : List IpObs) : List Buf := since (fun _ => false) IpObs.takenPkt log

/-- Between the `wait` of `ipout` and the statement that takes a packet. -/
def IpPoint.holds : IpPoint → Bool
  | .waited | .taking => true
  | _ => false

/-- Behind `semcount` in `ip_enqueue`. -/
def IpPoint.enqueuing : IpPoint → Bool
  | .counted _ => true
  | _ => false

/-- The queue holds the packets that were stored and not taken. -/
structure Ipoqueue.Queue (q : Ipoqueue) (l : List Buf) : Prop where
  ring : Ring.Holds IP_OQSIZ q.iqbuf q.iqhead q.iqtail (l.map some)
  fifo : ipStored q.log = ipTaken q.log ++ l

namespace Ipoqueue.Queue

variable {q : Ipoqueue} {l : List Buf} {pktptr : Buf}

/-- A packet is stored where there is room. -/
theorem store (H : q.Queue l) (hl : (l.length : Int) < IP_OQSIZ) (pktptr : Buf) :
    Ipoqueue.Queue ({ q with iqbuf := Function.update q.iqbuf q.iqtail (some pktptr), iqtail := Ring.next IP_OQSIZ q.iqtail }.note
      (.stored pktptr)) (l ++ [pktptr]) := by
  have hring := H.ring.put (by rw [List.length_map]; exact hl) (some pktptr)
  have hstored : ipStored (.stored pktptr :: q.log) = ipStored q.log ++ [pktptr] := by
    simp [ipStored, since, IpObs.storedPkt]
  have htaken : ipTaken (.stored pktptr :: q.log) = ipTaken q.log := since_none rfl rfl q.log
  refine ⟨?_, ?_⟩
  · rw [List.map_append]
    exact hring
  · rw [Ipoqueue.note, hstored, htaken, H.fifo, List.append_assoc]

/-- The first packet is taken. -/
theorem take (H : q.Queue (pktptr :: l)) : q.take.2 = .callback .processing ∧ q.take.1.Queue l := by
  obtain ⟨hhead, hring⟩ := Ring.Holds.pop (l := l.map some) H.ring
  have hstored : ipStored (.taken pktptr :: q.log) = ipStored q.log := since_none rfl rfl q.log
  have htaken : ipTaken (.taken pktptr :: q.log) = ipTaken q.log ++ [pktptr] := by
    simp [ipTaken, since, IpObs.takenPkt]
  unfold Ipoqueue.take
  simp only [hhead]
  refine ⟨trivial, hring, ?_⟩
  rw [Ipoqueue.note, hstored, htaken, H.fifo, List.append_assoc]
  rfl

/-- A packet that is refused changes nothing. -/
theorem refuse (H : q.Queue l) (pktptr : Buf) : (q.note (.refused pktptr)).Queue l := by
  have hstored : ipStored (.refused pktptr :: q.log) = ipStored q.log := since_none rfl rfl q.log
  have htaken : ipTaken (.refused pktptr :: q.log) = ipTaken q.log := since_none rfl rfl q.log
  refine ⟨H.ring, ?_⟩
  rw [Ipoqueue.note, hstored, htaken, H.fifo]

end Ipoqueue.Queue

/-! ## Events -/

namespace Machine

variable (m : Machine ipoq)

/-- User code does not use the semaphore of the queue, and no process is removed that `ipout` runs in and that has been released or
waits. -/
def IpAlone (e : Event ipoq) : Bool :=
  (match e with
    | .call c => !c.touches m.data.iqsem
    | _ => true) &&
  (match m.removes e with
    | some pid => (routines (m.context pid)).all fun f => !f.holds
    | none => true)

/-- `ip_enqueue`, when it finds a count below the size of the queue, finds it so with the packets of the processes that `ipout`
runs in and that wait or have not run since they were released. -/
def IpRoom (e : Event ipoq) : Bool :=
  match m.resumed e with
  | some (.counted _, count) => decide (count ≥ IP_OQSIZ) || decide (count + m.frames IpPoint.holds < IP_OQSIZ)
  | _ => true

end Machine

/-- What holds of the queue between events. -/
structure IpQueued (m : Machine ipoq) : Prop where
  sems : m.data.iqsem ≠ m.data.netbufsem
  kept : Kept m m.data.iqsem IpPoint.holds
  prompt : Prompt m IpPoint.enqueuing (fun k q _ => (k.semtab q.iqsem).scount)
  queue : ∃ l, m.data.Queue l ∧ (l.length : Int) = m.units m.data.iqsem IpPoint.holds

section Step

variable {m m' : Machine ipoq} {e : Event ipoq} {h h' : Kernel QLists} {x : Ipoqueue × Next IpPoint}

/-- What a segment asks of the kernel, and what it does to the queue. -/
structure IpSegment (q : Ipoqueue) (l : List Buf) (leaves : Nat) (x : Ipoqueue × Next IpPoint) : Prop where
  sems : x.1.iqsem = q.iqsem ∧ x.1.netbufsem = q.netbufsem
  calls : ∀ c f, x.2 = .call c f → (c = .semcount q.iqsem ∧ f.enqueuing = true) ∨
    (f.enqueuing = false ∧ (c = .signal q.netbufsem ∨ c = .signal q.iqsem ∨ (c = .wait q.iqsem ∧ f = .waited)))
  procs : ∀ f, x.2 = .callback f → f.enqueuing = false
  runs : ∀ st, x.2 ≠ .stop st
  queue : ∃ l', x.1.Queue l' ∧ (l'.length : Int) =
    l.length + x.2.signals q.iqsem - x.2.waits q.iqsem + x.2.routine.toList.countP IpPoint.holds - leaves

/-- A segment that leaves the queue alone. -/
theorem IpSegment.idle {q : Ipoqueue} {l : List Buf} {leaves : Nat} {n : Next IpPoint} (H : q.Queue l)
    (hcalls : ∀ c f, n = .call c f → (c = .semcount q.iqsem ∧ f.enqueuing = true) ∨
      (f.enqueuing = false ∧ (c = .signal q.netbufsem ∨ c = .signal q.iqsem ∨ (c = .wait q.iqsem ∧ f = .waited))))
    (hprocs : ∀ f, n = .callback f → f.enqueuing = false) (hruns : ∀ st, n ≠ .stop st)
    (hunits : n.signals q.iqsem - n.waits q.iqsem + n.routine.toList.countP IpPoint.holds = leaves) :
    IpSegment q l leaves (q, n) := by
  refine ⟨⟨rfl, rfl⟩, hcalls, hprocs, hruns, l, H, ?_⟩
  have hsum : ((l.length : Int) + n.signals q.iqsem - n.waits q.iqsem + n.routine.toList.countP IpPoint.holds) =
      l.length + leaves := by omega
  exact (sub_eq_of_eq_add hsum).symm

/-- `ip_enqueue` stores a packet where there is room. -/
theorem ipEnqueue_segment {q : Ipoqueue} {l : List Buf} (H : q.Queue l) (hne : q.iqsem ≠ q.netbufsem) (pktptr : Buf) {count : Int}
    (hroom : count ≥ IP_OQSIZ ∨ (l.length : Int) < IP_OQSIZ) : IpSegment q l 0 (q.ipEnqueue pktptr count) := by
  unfold Ipoqueue.ipEnqueue
  split
  · refine ⟨⟨rfl, rfl⟩, fun c f hc => ?_, fun f hf => (by cases hf), fun st hst => (by cases hst), l, H.refuse pktptr, ?_⟩
    · obtain ⟨rfl, rfl⟩ : Call.signal q.netbufsem = c ∧ IpPoint.done SYSERR = f := by simpa using hc
      exact Or.inr ⟨rfl, Or.inl rfl⟩
    · simp [Next.signals, Call.signals, Next.waits, Call.waits, Next.routine, IpPoint.holds, hne.symm]
  · next hlt =>
    refine ⟨⟨rfl, rfl⟩, fun c f hc => ?_, fun f hf => (by cases hf), fun st hst => (by cases hst), l ++ [pktptr],
      H.store (hroom.resolve_left hlt) pktptr, ?_⟩
    · obtain ⟨rfl, rfl⟩ : Call.signal q.iqsem = c ∧ IpPoint.done OK = f := by simpa using hc
      exact Or.inr ⟨rfl, Or.inr (Or.inl rfl)⟩
    · simp [Next.signals, Call.signals, Next.waits, Call.waits, Next.routine, IpPoint.holds]

/-- `ipout` takes a packet that is there. -/
theorem take_segment {q : Ipoqueue} {l : List Buf} (H : q.Queue l) (hl : 1 ≤ l.length) : IpSegment q l 1 q.take := by
  obtain ⟨pktptr, l, rfl⟩ : ∃ pktptr l', l = pktptr :: l' := List.exists_cons_of_length_pos hl
  obtain ⟨hnext, hqueue⟩ := H.take
  have hsems : q.take.1.iqsem = q.iqsem ∧ q.take.1.netbufsem = q.netbufsem := by
    unfold Ipoqueue.take
    split <;> exact ⟨rfl, rfl⟩
  refine ⟨hsems, ?_, ?_, ?_, l, hqueue, ?_⟩
  · intro c f hc
    rw [hnext] at hc
    cases hc
  · intro f hf
    rw [hnext] at hf
    obtain rfl : IpPoint.processing = f := Next.callback.inj hf
    rfl
  · intro st hst
    rw [hnext] at hst
    cases hst
  · rw [hnext]
    simp [Next.signals, Next.waits, Next.routine, IpPoint.holds]

/-- Every segment of the library is one of these. -/
theorem ip_segment (hx : m.segment e = some x) (hroom : m.IpRoom e = true) {l : List Buf} (H : m.data.Queue l)
    (hne : m.data.iqsem ≠ m.data.netbufsem)
    (hcount : ∀ pktptr v, m.resumed e = some (.counted pktptr, v) → (l.length : Int) = v + m.frames IpPoint.holds)
    (hhas : m.leaves IpPoint.holds e ≤ l.length) : IpSegment m.data l (m.leaves IpPoint.holds e) x := by
  have hidle : ∀ n : Next IpPoint, (∀ c f, n = .call c f → f.enqueuing = false ∧ c = .wait m.data.iqsem ∧ f = .waited) →
      (∀ f, n = .callback f → f.enqueuing = false) → (∀ st, n ≠ .stop st) →
      n.signals m.data.iqsem - n.waits m.data.iqsem + n.routine.toList.countP IpPoint.holds = m.leaves IpPoint.holds e →
      IpSegment m.data l (m.leaves IpPoint.holds e) (m.data, n) := fun n hc hf hst hu =>
    IpSegment.idle H (fun c f h => Or.inr ⟨(hc c f h).1, Or.inr (Or.inr (hc c f h).2)⟩) hf hst hu
  have hwaits : (Next.call (.wait m.data.iqsem) IpPoint.waited).signals m.data.iqsem -
      (Next.call (.wait m.data.iqsem) IpPoint.waited).waits m.data.iqsem +
      (Next.call (.wait m.data.iqsem) IpPoint.waited).routine.toList.countP IpPoint.holds = 0 := by
    simp [Next.signals, Call.signals, Next.waits, Call.waits, Next.routine, IpPoint.holds]
  have hwait : ∀ c f, Next.call (.wait m.data.iqsem) IpPoint.waited = .call c f →
      f.enqueuing = false ∧ c = .wait m.data.iqsem ∧ f = .waited := by
    rintro c f ⟨⟩
    exact ⟨rfl, rfl, rfl⟩
  cases e with
  | call c | tick => cases hx
  | op o =>
    obtain rfl := Option.some.inj hx
    cases o with
    | ipEnqueue pktptr =>
      refine IpSegment.idle H (fun c f hc => ?_) (fun f hf => by cases hf) (fun st hst => by cases hst) rfl
      obtain ⟨rfl, rfl⟩ : Call.semcount m.data.iqsem = c ∧ IpPoint.counted pktptr = f := by simpa using hc
      exact Or.inl ⟨rfl, rfl⟩
    | ipout => exact hidle _ hwait (fun f hf => by cases hf) (fun st hst => by cases hst) hwaits
  | ret | cont =>
    obtain ⟨⟨f, v⟩, hr, rfl⟩ := Option.map_eq_some_iff.mp hx
    have hleaves : ∀ e, m.resumed e = some (f, v) → m.leaves IpPoint.holds e = [f].countP IpPoint.holds := by
      intro e h
      rw [Machine.leaves, h]
      rfl
    rw [hleaves _ hr] at hidle hhas ⊢
    cases f with
    | counted pktptr =>
      refine ipEnqueue_segment H hne pktptr ?_
      have hlen := hcount pktptr v hr
      rcases (by simpa only [Machine.IpRoom, hr, Bool.or_eq_true, decide_eq_true_eq] using hroom :
        v ≥ IP_OQSIZ ∨ v + m.frames IpPoint.holds < IP_OQSIZ) with h | h
      · exact Or.inl h
      · exact Or.inr (by omega)
    | done v => exact hidle _ (fun c f hc => by cases hc) (fun f hf => by cases hf) (fun st hst => by cases hst) rfl
    | waited => exact hidle _ (fun c f hc => by cases hc) (fun f hf => Next.callback.inj hf ▸ rfl) (fun st hst => by cases hst) rfl
    | taking => exact take_segment H hhas
    | processing => exact hidle _ hwait (fun f hf => by cases hf) (fun st hst => by cases hst) hwaits

/-- The library keeps the semaphore of the queue to itself. -/
theorem IpQueued.private (I : IpQueued m) (halone : m.IpAlone e = true) {l : List Buf} (H : m.data.Queue l)
    (hunits : (l.length : Int) = m.units m.data.iqsem IpPoint.holds)
    (hseg : ∀ x, m.segment e = some x → IpSegment m.data l (m.leaves IpPoint.holds e) x) :
    m.Private m.data.iqsem IpPoint.holds e := by
  have hmax : MAXCOUNT = 2147483647 := rfl
  have hsize : IP_OQSIZ = 8 := rfl
  have hle := H.ring.valid.high
  rw [List.length_map] at hle
  rw [Machine.units] at hunits
  simp only [Machine.IpAlone, Bool.and_eq_true] at halone
  refine Machine.private_of_segments (fun c hc => ?_) (fun pid hp => ?_) (by omega) (fun d c f hx => ?_) (fun x hx => ?_)
  · subst hc
    simpa using halone.1
  · have hr : m.removes e = some pid := hp
    have hall := halone.2
    simp only [hr, List.all_eq_true, Bool.not_eq_true'] at hall
    exact List.countP_eq_zero.mpr fun f hf => by simp [hall f hf]
  · rcases (hseg _ hx).calls c f rfl with ⟨rfl, _⟩ | ⟨_, rfl | rfl | ⟨rfl, rfl⟩⟩
    · exact ⟨⟨fun hc => (by cases hc), fun n hc => by cases hc⟩, fun hc => by cases hc⟩
    · exact ⟨⟨fun hc => (by cases hc), fun n hc => by cases hc⟩, fun hc => by cases hc⟩
    · exact ⟨⟨fun hc => (by cases hc), fun n hc => by cases hc⟩, fun hc => by cases hc⟩
    · exact ⟨⟨fun hc => (by cases hc), fun n hc => by cases hc⟩, fun _ => rfl⟩
  · have hsig : x.2.signals m.data.iqsem = 0 ∨ x.2.signals m.data.iqsem = 1 := by
      cases hn : x.2 with
      | call c f =>
        rcases (hseg _ hx).calls c f hn with ⟨rfl, _⟩ | ⟨_, rfl | rfl | ⟨rfl, rfl⟩⟩
        · exact Or.inl rfl
        · exact Or.inl (if_neg I.sems.symm)
        · exact Or.inr (if_pos rfl)
        · exact Or.inl rfl
      | _ => exact Or.inl rfl
    omega

/-- Every event in which `ip_enqueue` finds room keeps the queue in order. -/
theorem IpQueued.step (I : IpQueued m) (hs : m.step e = some m') (halone : m.IpAlone e = true) (hroom : m.IpRoom e = true)
    (St : Steady m h) (T : AllTracked h) (St' : Steady m' h') (D : Does m e h m' h') : IpQueued m' := by
  obtain ⟨l, H, hunits⟩ := I.queue
  have hT := T _ I.kept.good
  have hleaves : m.leaves IpPoint.holds e ≤ l.length := by
    have h1 := leaves_le (P := IpPoint.holds) hs
    have h2 := I.kept.units St hT
    rw [Machine.units] at hunits
    omega
  have hseg : ∀ x, m.segment e = some x → IpSegment m.data l (m.leaves IpPoint.holds e) x := fun x hx =>
    ip_segment hx hroom H I.sems (fun pktptr v hr => by rw [hunits, I.prompt.resumed hr rfl, Machine.units]) hleaves
  have priv := I.private halone H hunits hseg
  have hprompt : Prompt m' IpPoint.enqueuing (fun k q _ => (k.semtab q.iqsem).scount) := by
    refine I.prompt.step hs St.stackOk (fun d c f hx hQ => ?_) (fun d f hx => (hseg _ hx).procs f rfl)
      (fun d st hx => (hseg _ hx).runs st rfl)
    rcases (hseg _ hx).calls c f rfl with ⟨rfl, _⟩ | ⟨hf, _⟩
    · refine I.kept.semcount.trans ?_
      rw [(hseg _ hx).sems.1]
    · rw [hQ] at hf
      cases hf
  have hdata := Machine.segment_data hs
  cases hx : m.segment e with
  | none =>
    rw [hx] at hdata
    have hdata' : m'.data = m.data := hdata
    obtain ⟨K', hu⟩ := I.kept.units_quiet hs St hT St' D priv hx
    refine ⟨by rw [hdata']; exact I.sems, by rw [hdata']; exact K', hprompt, l, by rw [hdata']; exact H, ?_⟩
    rw [hdata', hu]
    exact hunits
  | some x =>
    rw [hx] at hdata
    have hdata' : m'.data = x.1 := hdata
    have S := hseg x hx
    obtain ⟨l', H', hlen⟩ := S.queue
    obtain ⟨K', hu⟩ := I.kept.units_segment hs St hT St' D priv hx (fun d st e => S.runs st (congrArg Prod.snd e))
    refine ⟨by rw [hdata', S.sems.1, S.sems.2]; exact I.sems, by rw [hdata', S.sems.1]; exact K', hprompt, l',
      by rw [hdata']; exact H', ?_⟩
    rw [hdata', S.sems.1, hu, hlen, hunits]

end Step

/-- The queue holds at most `IP_OQSIZ` packets, those that were stored and not taken, each at its place, and `ipout` takes the
packets for which `ip_enqueue` returned `OK` in that order. -/
structure IpQueue (q : Ipoqueue) : Prop where
  head : 0 ≤ q.iqhead ∧ q.iqhead < IP_OQSIZ
  tail : 0 ≤ q.iqtail ∧ q.iqtail < IP_OQSIZ
  fifo : ∃ l : List Buf, ipStored q.log = ipTaken q.log ++ l ∧ (l.length : Int) ≤ IP_OQSIZ ∧
    q.iqtail = (q.iqhead + l.length) % IP_OQSIZ ∧ Ring.items IP_OQSIZ q.iqbuf q.iqhead l.length = l.map some

theorem IpQueued.ipQueue {m : Machine ipoq} (I : IpQueued m) : IpQueue m.data := by
  obtain ⟨l, H, _⟩ := I.queue
  have V := H.ring.valid
  have hitems := H.ring.items
  rw [List.length_map] at V hitems
  exact ⟨V.first, V.tail_range, l, H.fifo, V.high, V.last, hitems⟩

/-- What holds between events holds of the queue that `net_init` leaves. -/
theorem ipBoot_steady (minheap maxheap : Nat) : ∃ h, Steady (ipBoot minheap maxheap) h ∧ AllTracked h := by
  have hlaw : ∀ (k : Kernel QueueTab) (n : Int), k.Lawful (.semcreate n) := fun k n => ⟨fun _ => rfl, nofun⟩
  have h0 := boot_steady (C := ipoq) (Ipoqueue.netInit 0 1) minheap maxheap
  obtain ⟨h₁, St₁, T₁⟩ := h0.after_call (allTracked_boot minheap maxheap) (hlaw _ nbufs) rfl rfl
  exact St₁.after_call T₁ (hlaw _ 0) rfl rfl

theorem ipQueued_boot (minheap maxheap : Nat) : IpQueued (ipBoot minheap maxheap) := by
  have hfits : CountFits 1 (ipBoot minheap maxheap).k.log := by
    intro c hm
    have hlog : (ipBoot minheap maxheap).k.log = [.semcreated 1 0, .semcreated 0 nbufs] := rfl
    rw [hlog] at hm
    simp at hm
  have hsem : (ipBoot minheap maxheap).k.semtab 1 = ⟨.S_USED, 0⟩ := rfl
  obtain ⟨K, hframes⟩ := kept_boot (m := ipBoot minheap maxheap) minheap maxheap (fun _ => rfl) rfl hfits rfl hsem
    IpPoint.holds
  have hne : (1 : Int) ≠ 0 := by decide
  refine ⟨hne, K, ⟨fun p => List.isChain_nil, fun p f hm => ?_, fun p r f l hp => ?_⟩, [], ⟨⟨?_, rfl⟩, rfl⟩, ?_⟩
  · cases hm
  · cases hp
  · exact Ring.Valid.empty (by decide)
  · have hcount : ((ipBoot minheap maxheap).k.semtab 1).scount = 0 := rfl
    show (0 : Int) = ((ipBoot minheap maxheap).k.semtab 1).scount + _
    rw [hcount, hframes]
    rfl

/-- `ipout` waits for a packet, and a process of higher priority enqueues packets. -/
def ipProducer (n : Nat) : List (Event ipoq) :=
  [.call (.create 400 20), .cont, .call (.resume 1), .op .ipout, .cont, .call (.create 400 30), .cont, .call (.resume 2)] ++
    (List.replicate n [.op (.ipEnqueue 4096), .cont, .cont]).flatten

end Xinu
