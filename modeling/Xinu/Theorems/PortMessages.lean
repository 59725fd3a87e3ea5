import Xinu.Kernel.Evaluation
import Xinu.Message.PortEpochs
import Xinu.Theorems.PortConservation

/-!
# Messages through the ports

While a port keeps its sequence number, its queue holds the messages that have been sent to it and not yet received, in order, and no
more than the port has been made for; `ptrecv` never takes a message from an empty queue. When the number changes, every routine that
waits gives up, and leaves the port as it then is. No process waits for a message that is there, nor for room that is there, unless
another one has been let in for it.
-/

namespace Xinu

open Port

section Run

variable {m m' : Machine ports} {e : Event ports} {h : Kernel QLists} {own : Option Int → List (Nat × Nat)} {st : Int → Stage}
  {loc : Int → Int × Nat} {p : Int} {f : Point}

/-- A port in state `PT_ALLOC` is in use, unless `ptcreate` has not yet returned. -/
theorem PortsFlow.in_use (I : PortsFlow m own st loc) (ha : (m.data.porttab p).ptstate = .PT_ALLOC) (hm : ¬m.Making p) :
    isbadport p = false ∧ st p = .live :=
  I.ok.sound.is_live ha fun _ => ⟨fun hst => hm (I.ok.making_of_stage (Or.inl hst)), fun hst => hm (I.ok.making_of_stage (Or.inr hst))⟩

/-- What is in the queue of a port in use. -/
theorem PortsFlow.queue (I : PortsFlow m own st loc) (St : Steady m h) (T : AllTracked h) (hp : isbadport p = false)
    (hst : st p = .live) : ∃ l, m.data.Queue p l ∧ m.data.enqueued p = m.data.dequeued p ++ l.map Prod.snd ∧
      m.data.queued p = l.length ∧ (l.length : Int) ≤ m.data.count p := by
  have hat := I.ok.sound.port p hp
  rw [hst] at hat
  obtain ⟨_, hqueue, hlist, hsized⟩ := hat
  have hlen : m.data.queued p = (own (some p)).length := by
    rw [Ports.queued, hlist, List.length_append, List.length_map]
    omega
  refine ⟨own (some p), hqueue, hlist, hlen, ?_⟩
  have hrange := hsized.range
  by_cases hbad : isbadsem (m.data.porttab p).ptssem = true
  · have h0 := (I.flow p hp hst).unsent hbad
    omega
  have hgood := eq_false_of_ne_true hbad
  obtain ⟨K, n, hn, hu⟩ := (I.flow p hp hst).send hgood
  -- no more messages are there than the semaphore of the senders has let in
  have hpos := K.units St (T _ hgood)
  rw [Machine.units] at hu
  have hmax := hsized.maxcnt
  omega

/-- The routines behind `wait` that have been let in, and those that wait. -/
theorem Kept.let_in {s : Int} {P : Point → Bool} (K : Kept m s P) (St : Steady m h) (T : AllTracked h) (hw : 0 < m.k.waiters s) :
    (m.frames P : Int) = m.k.waiters s + m.units s P := by
  have hcount := St.waiters_count K.good (T s K.good) K.fits K.used
  rw [Machine.units]
  omega

/-- What `ptsend` and `ptrecv` return when they fail. -/
def Port.Point.failure : Point → Int
  | .recvwaited _ _ => uint32 SYSERR
  | _ => SYSERR

/-- Whoever waits for a port whose number has changed gives up. -/
theorem Port.stale {v : Int} (hw : f.waits = true) (hr : m.resumed e = some (f, v))
    (hold : ∀ q, f.port = some q →
      Point.sends q (m.data.porttab q).ptseq f = false ∧ Point.receives q (m.data.porttab q).ptseq f = false) :
    m.segment e = some (m.data, .ret f.failure) := by
  have hseg := Machine.segment_resumed hr
  cases f with
  | sendwaited q seq msg =>
    have hne : (m.data.porttab q).ptseq ≠ seq := fun he => by simpa [Point.sends, he] using (hold q rfl).1
    refine hseg.trans ?_
    change some (m.data.sendwaited q seq msg v) = _
    unfold Ports.sendwaited
    simp only
    rw [if_pos (Or.inr (Or.inr hne))]
    rfl
  | recvwaited q seq =>
    have hne : (m.data.porttab q).ptseq ≠ seq := fun he => by simpa [Point.receives, he] using (hold q rfl).2
    refine hseg.trans ?_
    change some (m.data.recvwaited q seq v) = _
    unfold Ports.recvwaited
    simp only
    rw [if_pos (Or.inr (Or.inr hne))]
    rfl
  | _ => cases hw

/-- Where no routine in progress calls `semcreate`, no port is being made. -/
theorem Steady.not_making (St : Steady m h) (hall : (pids.all fun x => (routines (m.context x)).all fun f => !f.makes) = true) :
    ¬m.Making p := by
  rintro ⟨x, c, hx⟩
  have hpid : x ∈ pids := by
    by_contra hout
    rw [St.freed x (St.inv.outside x (fun hpid => hout (mem_pids.mpr hpid)))] at hx
    rcases hx with hx | hx <;> cases hx
  have hnone := List.all_eq_true.mp (List.all_eq_true.mp hall x hpid)
  rcases hx with hx | hx <;> cases hnone _ hx

end Run

/-! ## How often the number of a port changes -/

/-- `ptinit` is not called again. -/
def Machine.Started (_ : Machine ports) (e : Event ports) : Prop := ∀ n, e ≠ .op (.ptinit n)

instance (m : Machine ports) (e : Event ports) : Decidable (m.Started e) :=
  match e with
  | .op (.ptinit n) => isFalse fun h => h n rfl
  | .op (.ptcreate _) | .op (.ptsend _ _) | .op (.ptrecv _) | .op (.ptreset _) | .op (.ptdelete _) => isTrue fun _ h => by cases h
  | .call _ | .ret | .cont | .tick => isTrue fun _ h => by cases h

/-- A run in which `ptseq` of a port changes as often as the number says. -/
inductive Machine.Renews (p : Int) (m : Machine ports) : Nat → Machine ports → Prop where
  | refl : Renews p m 0 m
  | step {k : Nat} {m₁ m₂ : Machine ports} (e : Event ports) : Renews p m k m₁ → m₁.Started e → m₁.step e = some m₂ →
    Renews p m (if (m₂.data.porttab p).ptseq = (m₁.data.porttab p).ptseq then k else k + 1) m₂

/-- No routine in progress is `ptinit`. -/
def Machine.Initialised (m : Machine ports) : Prop := ∀ x, ∀ f ∈ routines (m.context x), ∀ n, f ≠ .gotnodes n

namespace Port

/-- The number of a port stays, or it is incremented. -/
def Ports.Counts (d b : Ports) (p : Int) : Prop :=
  (b.porttab p).ptseq = (d.porttab p).ptseq ∨ (b.porttab p).ptseq = int32 ((d.porttab p).ptseq + 1)

section Counts

variable {d b : Ports} {p q v pid : Int}

theorem Ports.Counts.same (h : b.porttab = d.porttab) : d.Counts b p := Or.inl (by rw [h])

theorem Ports.Counts.setEntry {e : Ptentry} (hb : b.porttab = d.porttab) (he : e.ptseq = (d.porttab q).ptseq) :
    d.Counts (b.setEntry q e) p := by
  by_cases hq : p = q
  · rw [hq]
    exact Or.inl ((congrArg Ptentry.ptseq (Ports.setEntry_self b q e)).trans he)
  · exact Or.inl (by rw [(samePort_setEntry e hq).entry, hb])

theorem Ports.Counts.renewed {e : Ptentry} (hb : b.porttab = d.porttab) (he : e.ptseq = int32 ((d.porttab q).ptseq + 1)) :
    d.Counts (b.setEntry q e) p := by
  by_cases hq : p = q
  · rw [hq]
    exact Or.inr ((congrArg Ptentry.ptseq (Ports.setEntry_self b q e)).trans he)
  · exact Or.inl (by rw [(samePort_setEntry e hq).entry, hb])

theorem Ports.Counts.release (newstate : PtState) (h : d.Counts b p) : d.Counts (b.release q newstate).1 p := by
  unfold Ports.release
  simp only
  split
  · have hkeep : ((b.setEntry q { b.porttab q with pttail := NULL, pthead := NULL }).porttab p).ptseq = (b.porttab p).ptseq := by
      by_cases hq : p = q
      · rw [hq, Ports.setEntry_self]
      · rw [(samePort_setEntry _ hq).entry]
    rw [Ports.Counts, hkeep]
    exact h
  · exact h

/-- A piece of a routine leaves the number of a port or increments it, and does not begin `ptinit`. -/
structure Ports.Renewing (d : Ports) (x : Ports × Next Point) (p : Int) : Prop where
  counts : d.Counts x.1 p
  started : ∀ n, x.2.routine ≠ some (.gotnodes n)

theorem Ports.Renewing.release (newstate : PtState) (h : d.Counts b p) : d.Renewing (b.release q newstate) p := by
  refine ⟨h.release newstate, fun n => ?_⟩
  rw [(release_next b q newstate).1]
  nofun

/-- At the beginning of a routine, only `_ptclear` changes a number. -/
theorem Ports.renewing_enter {o : Op} (ho : ∀ n, o ≠ .ptinit n) : d.Renewing (ports.enter d pid o) p := by
  have hreset : ∀ portid newstate, d.Renewing (d.ptreset portid newstate) p := by
    intro portid newstate
    unfold Ports.ptreset
    simp only
    split
    · exact ⟨.same rfl, nofun⟩
    · have hclear : d.Counts (d.clearing (int32 portid)) p := .renewed rfl rfl
      unfold Ports.ptclear
      simp only
      split
      · exact ⟨hclear, nofun⟩
      · exact .release newstate hclear
  cases o with
  | ptinit n => exact absurd rfl (ho n)
  | ptcreate count =>
    change d.Renewing (d.ptcreate count) p
    unfold Ports.ptcreate
    simp only
    split
    · exact ⟨.same rfl, nofun⟩
    · split
      · exact ⟨.same rfl, nofun⟩
      · exact ⟨.setEntry rfl rfl, nofun⟩
  | ptsend portid msg =>
    change d.Renewing (d.ptsend portid msg) p
    unfold Ports.ptsend
    simp only
    split <;> exact ⟨.same rfl, nofun⟩
  | ptrecv portid =>
    change d.Renewing (d.ptrecv portid) p
    unfold Ports.ptrecv
    simp only
    split <;> exact ⟨.same rfl, nofun⟩
  | ptreset portid => exact hreset portid .PT_ALLOC
  | ptdelete portid => exact hreset portid .PT_FREE

/-- When a routine goes on, only `ptcreate` changes a number. -/
theorem Ports.renewing_resume {f : Point} (hf : ∀ n, f ≠ .gotnodes n) : d.Renewing (ports.resume d pid f v) p := by
  cases f with
  | gotnodes n => exact absurd rfl (hf n)
  | sent | received => exact ⟨.same rfl, nofun⟩
  | gotssem q c => exact ⟨.setEntry rfl rfl, nofun⟩
  | gotrsem q c => exact ⟨.renewed rfl rfl, nofun⟩
  | sendwaited q seq msg =>
    change d.Renewing (d.sendwaited q seq msg v) p
    unfold Ports.sendwaited
    simp only
    split
    · exact ⟨.same rfl, nofun⟩
    · split
      · exact ⟨.same rfl, nofun⟩
      · refine ⟨?_, nofun⟩
        obtain ⟨_, _, htab, _⟩ := enqueue_fields d q msg
        rw [Ports.Counts, htab]
        refine Ports.Counts.setEntry (d := d) (b := d) (q := q) rfl ?_
        split <;> rfl
  | recvwaited q seq =>
    change d.Renewing (d.recvwaited q seq v) p
    unfold Ports.recvwaited
    simp only
    split
    · exact ⟨.same rfl, nofun⟩
    · split
      · exact ⟨.same rfl, nofun⟩
      · refine ⟨?_, nofun⟩
        refine Ports.Counts.setEntry (d := d) (b := d) (q := q) rfl ?_
        split <;> rfl
  | disposing q newstate walk =>
    change d.Renewing (d.disposing q newstate walk) p
    unfold Ports.disposing
    simp only
    split
    · exact ⟨.same rfl, nofun⟩
    · exact .release newstate (.same rfl)
  | released q newstate =>
    change d.Renewing (d.released q newstate) p
    unfold Ports.released
    simp only
    split <;> exact ⟨.same rfl, nofun⟩
  | cleared q newstate =>
    change d.Renewing (d.cleared q newstate) p
    unfold Ports.cleared
    simp only
    split <;> exact ⟨.setEntry rfl rfl, nofun⟩

end Counts

end Port

section Renewals

variable {m m₁ m₂ : Machine ports} {e : Event ports} {p : Int} {k : Nat}

/-- Every piece of a routine is one of these, when `ptinit` is not called again. -/
theorem Machine.Initialised.renewing (I : m.Initialised) (U : m.Started e) {l : List (Frame Point)} {x : Ports × Next Point}
    (hx : m.Follows e l x) : m.data.Renewing x p := by
  rcases hx.enter_or_resume with ⟨o, rfl, rfl⟩ | ⟨f, v, hr, rfl⟩
  · exact Ports.renewing_enter fun n ho => U n (by rw [ho])
  · refine Ports.renewing_resume (I m.k.currpid f ?_)
    rw [hx.routines_stack, hr]
    simp

theorem Machine.Initialised.step (I : m.Initialised) (U : m.Started e) (hs : m.step e = some m₁) : m₁.Initialised := by
  cases Machine.step_segment hs with
  | quiet _ hf | stopped _ _ _ _ _ hf =>
    intro x f hm
    exact I x f (hf x ▸ hm)
  | killed pid _ hf =>
    intro x f hm
    rw [hf x] at hm
    split at hm
    · cases hm
    · exact I x f hm
  | library l x hx _ hf =>
    intro y f hm
    rw [hf y] at hm
    split at hm
    · rcases List.mem_append.mp hm with hm | hm
      · rintro n rfl
        exact (I.renewing (p := 0) U hx).started n (Option.mem_toList.mp hm)
      · exact I _ f (hx.routines_sub f hm)
    · exact I y f hm

/-- What an event does to the number of a port. -/
theorem Machine.Initialised.counts (I : m.Initialised) (U : m.Started e) (hs : m.step e = some m₁) (p : Int) :
    m.data.Counts m₁.data p := by
  cases Machine.step_segment hs with
  | quiet hd | killed _ hd => exact .same (by rw [hd])
  | library l x hx hd | stopped l d s hx hd =>
    rw [hd]
    exact (I.renewing U hx).counts

theorem Machine.Initialised.reach (I : m.Initialised) (r : Machine.Reach Machine.Started m m₁) : m₁.Initialised := by
  induction r with
  | refl => exact I
  | step e _ U hs ih => exact ih.step U hs

theorem Port.int32_int32_succ (n : Int) : int32 (int32 n + 1) = int32 (n + 1) := by
  unfold int32
  omega

/-- The number of a port after some changes. -/
theorem Machine.Initialised.renews (I : m.Initialised) (r : m.Renews p k m₁) :
    m₁.Initialised ∧
      (m₁.data.porttab p).ptseq = if k = 0 then (m.data.porttab p).ptseq else int32 ((m.data.porttab p).ptseq + k) := by
  induction r with
  | refl => exact ⟨I, rfl⟩
  | @step k m₁ m₂ e _ U hs ih =>
    obtain ⟨I₁, hseq⟩ := ih
    refine ⟨I₁.step U hs, ?_⟩
    split
    · next h => rw [h, hseq]
    · next h =>
      rw [(I₁.counts U hs p).resolve_left h, hseq, if_neg k.succ_ne_zero]
      split
      · next hk => rw [hk]; rfl
      · rw [int32_int32_succ, Nat.cast_succ, add_assoc]

/-- Fewer than 2 ^ 32 changes do not bring the number back. -/
theorem Port.int32_add_ne (n : Int) (hpos : 0 < k) (hk : k < 2 ^ 32) : int32 (n + k) ≠ n := by
  unfold int32
  omega

/-- A routine that begins to wait for a port keeps its number. -/
theorem Port.begins_waiting {o : Op} {f : Point} (hf : (ports.enter m.data m.k.currpid o).2.routine = some f)
    (hport : f.port = some p) (hw : f.waits = true) : (ports.enter m.data m.k.currpid o).1 = m.data ∧
      ∀ seq, seq ≠ (m.data.porttab p).ptseq → Point.sends p seq f = false ∧ Point.receives p seq f = false := by
  rcases enter_routine m.data m.k.currpid o hf with ⟨q, _, _, ⟨msg, hx⟩ | hx⟩ | ⟨q, newstate, ⟨w, rfl⟩ | rfl, _⟩ | ⟨q, c, rfl⟩ | ⟨c, rfl⟩
  · rw [hx] at hf
    obtain rfl := Option.some.inj hf
    obtain rfl := Option.some.inj hport
    exact ⟨by rw [hx], fun seq hne => ⟨decide_eq_false fun h => hne h.2.symm, rfl⟩⟩
  · rw [hx] at hf
    obtain rfl := Option.some.inj hf
    obtain rfl := Option.some.inj hport
    exact ⟨by rw [hx], fun seq hne => ⟨rfl, decide_eq_false fun h => hne h.2.symm⟩⟩
  all_goals cases hw

end Renewals

section Theorems

variable {n : Int} {buf minheap maxheap : Nat} {m : Machine ports}

/-- In every run in which user code leaves the semaphores of the ports alone and nobody is removed inside a routine of the ports: the
queue of a port in use holds the messages sent and not yet received, oldest first, and no more than its size; and no routine takes a
message from an empty queue. -/
theorem port_messages (hn : 1 ≤ n) (hbuf : 0 < buf) (hfit : buf + 8 * n ≤ 4294967296)
    (r : Machine.Reach Machine.PortsUsed (boot ports (Ports.started n buf) minheap maxheap) m) (hrun : m.k.status = .running) :
    (∀ p, (m.data.porttab p).ptstate = .PT_ALLOC → ¬m.Making p → ∃ l, m.data.Queue p l ∧
      m.data.enqueued p = m.data.dequeued p ++ l.map Prod.snd ∧ (l.length : Int) ≤ m.data.count p) ∧
    ∀ e m' d, m.step e = some m' → m.segment e ≠ some (d, .stop .faulted) := by
  obtain ⟨own, I₀⟩ := PortsFlow.boot hn hbuf hfit minheap maxheap
  obtain ⟨hI, h, St, T⟩ := I₀.reach (boot_steady _ minheap maxheap) (allTracked_boot minheap maxheap) r
  obtain ⟨own', st, loc, I⟩ := hI hrun
  refine ⟨fun p ha hm => ?_, fun e m' d hs => I.not_faulted hs St T⟩
  obtain ⟨hp, hst⟩ := I.in_use ha hm
  obtain ⟨l, h1, h2, _, h3⟩ := I.queue St T hp hst
  exact ⟨l, h1, h2, h3⟩

/-- How to evaluate a machine in which two processes use a port. -/
def portMachine : Forcing (Machine ports) := Forcing.machine ⟨[0, 1, 2], [0, 1], []⟩ (Forcing.id _) (Forcing.id _)

/-- A process has come to its call of `ptrecv`. -/
def beforeReceiver : List (Event ports) :=
  [.op (.ptcreate 5), .cont, .cont, .call (.create 400 20), .cont, .call (.resume 1)]

/-- A process waits to receive. -/
def oneReceiver : List (Event ports) := beforeReceiver ++ [.op (.ptrecv 0), .cont]

/-- Two processes wait. -/
def twoReceivers : List (Event ports) := oneReceiver ++ [.call (.create 400 20), .cont, .call (.resume 2), .op (.ptrecv 0), .cont]

/-- A message has been sent, and the process that was let in for it goes on. -/
theorem port_messages_one : ∃ m : Machine ports, (∃ l, m.data.Queue 0 l ∧ l.map Prod.snd = [7]) ∧ (m.step .cont).isSome = true ∧
    m.resumed .cont = some (.recvwaited 0 1, OK) ∧ ∀ e m' d, m.step e = some m' → m.segment e ≠ some (d, .stop .faulted) := by
  obtain ⟨m, r, hf⟩ := Machine.reach_of_evaluates portMachine Machine.PortsUsed
    (boot ports (Ports.started 2 8192) 16384 1048576) (oneReceiver ++ [.op (.ptsend 0 7), .cont])
    (fun m => decide (m.data.enqueued 0 = [7]) && decide (m.data.dequeued 0 = []) && (m.step .cont).isSome &&
      decide (m.resumed .cont = some (.recvwaited 0 1, OK)) && decide (m.k.status = .running) &&
      decide ((m.data.porttab 0).ptstate = .PT_ALLOC) && pids.all fun x => (routines (m.context x)).all fun f => !f.makes)
    (by decide +kernel)
  simp only [Bool.and_eq_true, decide_eq_true_eq] at hf
  obtain ⟨⟨⟨⟨⟨⟨h1, h2⟩, h3⟩, h4⟩, hrun⟩, ha⟩, hmakes⟩ := hf
  obtain ⟨h, St⟩ := reach_steady (fun _ _ (U : Machine.PortsUsed _ _) => U.lawful) (boot_steady _ 16384 1048576) r
  obtain ⟨hqueues, hfaults⟩ := port_messages (by decide) (by decide) (by decide) r hrun
  obtain ⟨l, hqueue, hlist, _⟩ := hqueues 0 ha (St.not_making hmakes)
  rw [h1, h2] at hlist
  exact ⟨m, ⟨l, hqueue, hlist.symm⟩, h3, h4, hfaults⟩

/-- When the number of a port changes, whoever has begun to send to it or to receive from it fails, as long as the number changes less
than 2 ^ 32 times until it goes on, and leaves all ports and the kernel as they are then. -/
theorem port_epochs {data : Ports} (r : Machine.Reach Machine.Started (boot ports data minheap maxheap) m) {o : Op} {f : Point}
    {m₁ m₂ m₃ : Machine ports} (hs : m.step (.op o) = some m₁) (hf : (ports.enter m.data m.k.currpid o).2.routine = some f)
    (hw : f.waits = true) {p : Int} (hport : f.port = some p) {k : Nat} (r₁ : m₁.Renews p k m₂) (hpos : 0 < k) (hk : k < 2 ^ 32)
    {e : Event ports} {v : Int} (hs₂ : m₂.step e = some m₃) (hr : m₂.resumed e = some (f, v)) :
    m₃.data = m₂.data ∧ m₃.k = m₂.k ∧ m₂.segment e = some (m₂.data, .ret f.failure) := by
  have I₀ : (boot ports data minheap maxheap).Initialised := by
    intro x f hm
    cases hm
  have U : m.Started (.op o) := by
    intro n h
    obtain rfl := Event.op.inj h
    obtain rfl := Option.some.inj hf
    cases hw
  obtain ⟨hdata, hseen⟩ := begins_waiting hf hport hw
  have hdata₁ : m₁.data = m.data := (Machine.segment_data hs).trans hdata
  have hseq := (((I₀.reach r).step U hs).renews r₁).2
  rw [if_neg (by omega), hdata₁] at hseq
  have hseg : m₂.segment e = some (m₂.data, .ret f.failure) := by
    refine stale hw hr fun q hq => ?_
    obtain rfl := Option.some.inj (hport.symm.trans hq)
    exact hseen _ (hseq ▸ int32_add_ne _ hpos hk)
  refine ⟨?_, segment_ret hs₂ hseg, hseg⟩
  rw [Machine.segment_data hs₂, hseg]
  rfl

/-- The process begins to wait, the port is reset, and the process goes on. -/
def resetsReceiver (m : Machine ports) : Bool :=
  decide ((ports.enter m.data m.k.currpid (.ptrecv 0)).2.routine = some (.recvwaited 0 1)) &&
    (m.step (.op (.ptrecv 0))).any fun m₁ => portMachine.app m₁ fun m₁ =>
      (m₁.step .cont).any fun m₂ => portMachine.app m₂ fun m₂ =>
        decide ((m₂.data.porttab 0).ptseq = (m₁.data.porttab 0).ptseq) &&
          (m₂.step (.op (.ptreset 0))).any fun m₃ => portMachine.app m₃ fun m₃ =>
            decide ((m₃.data.porttab 0).ptseq ≠ (m₂.data.porttab 0).ptseq) && (m₃.step .cont).any fun m₄ => portMachine.app m₄ fun m₄ =>
              decide ((m₄.data.porttab 0).ptseq = (m₃.data.porttab 0).ptseq) &&
                decide (m₄.resumed .cont = some (.recvwaited 0 1, OK)) && (m₄.step .cont).isSome

theorem port_epochs_reset : ∃ m m' : Machine ports, m.resumed .cont = some (.recvwaited 0 1, OK) ∧ m.step .cont = some m' ∧
    m'.data = m.data ∧ m'.k = m.k ∧ m.segment .cont = some (m.data, .ret (uint32 SYSERR)) := by
  obtain ⟨m, r, hf⟩ := Machine.reach_of_evaluates portMachine Machine.Started
    (boot ports (Ports.started 2 8192) 16384 1048576) beforeReceiver resetsReceiver (by decide +kernel)
  simp only [resetsReceiver, Bool.and_eq_true, decide_eq_true_eq, Option.any_eq_true, portMachine.app_eq] at hf
  obtain ⟨hbegins, m₁, hs₁, m₂, hs₂, h₂, m₃, hs₃, h₃, m₄, hs₄, ⟨h₄, hr⟩, hsome⟩ := hf
  obtain ⟨m₅, hs₅⟩ := Option.isSome_iff_exists.mp hsome
  have r₁ : m₁.Renews 0 _ m₄ := ((Machine.Renews.refl.step .cont nofun hs₂).step (.op (.ptreset 0)) nofun hs₃).step .cont nofun hs₄
  rw [if_pos h₂, if_neg h₃, if_pos h₄] at r₁
  obtain ⟨hd, hk, hret⟩ := port_epochs r hs₁ hbegins rfl rfl r₁ (by decide) (by decide) hs₅ hr
  exact ⟨m₄, m₅, hr, hs₅, hd, hk, hret⟩

/-- No process waits for a message that is there, nor for room that is there: as many routines have been let in and not gone on. -/
theorem port_wakeups (hn : 1 ≤ n) (hbuf : 0 < buf) (hfit : buf + 8 * n ≤ 4294967296)
    (r : Machine.Reach Machine.PortsUsed (boot ports (Ports.started n buf) minheap maxheap) m) (hrun : m.k.status = .running) {p : Int}
    (ha : (m.data.porttab p).ptstate = .PT_ALLOC) (hm : ¬m.Making p) : ∃ l, m.data.Queue p l ∧
      (isbadsem (m.data.porttab p).ptrsem = false → 0 < m.k.waiters (m.data.porttab p).ptrsem →
        m.frames (Point.receives p (m.data.porttab p).ptseq) = m.k.waiters (m.data.porttab p).ptrsem + l.length) ∧
      (isbadsem (m.data.porttab p).ptssem = false → 0 < m.k.waiters (m.data.porttab p).ptssem →
        ∃ c : Int, (c = m.data.count p ∨ c = (m.data.porttab p).ptmaxcnt) ∧
          m.frames (Point.sends p (m.data.porttab p).ptseq) = m.k.waiters (m.data.porttab p).ptssem + (c - l.length)) := by
  obtain ⟨own, I₀⟩ := PortsFlow.boot hn hbuf hfit minheap maxheap
  obtain ⟨hI, h, St, T⟩ := I₀.reach (boot_steady _ minheap maxheap) (allTracked_boot minheap maxheap) r
  obtain ⟨own', st, loc, I⟩ := hI hrun
  obtain ⟨hp, hst⟩ := I.in_use ha hm
  obtain ⟨l, hqueue, _, hlen, _⟩ := I.queue St T hp hst
  have F := I.flow p hp hst
  refine ⟨l, hqueue, fun hgood hw => ?_, fun hgood hw => ?_⟩
  · obtain ⟨K, hu⟩ := F.receive hgood
    have := K.let_in St T hw
    omega
  · obtain ⟨K, c, hc, hu⟩ := F.send hgood
    have := K.let_in St T hw
    exact ⟨c, hc, by omega⟩

/-- Of two processes that wait to receive, one has been let in for the message. -/
theorem port_wakeups_two : ∃ (m : Machine ports) (l : List (Nat × Nat)), m.data.Queue 0 l ∧ m.k.waiters 1 = 1 ∧
    m.frames (Point.receives 0 1) = 1 + l.length := by
  obtain ⟨m, r, hf⟩ := Machine.reach_of_evaluates portMachine Machine.PortsUsed
    (boot ports (Ports.started 2 8192) 16384 1048576) (twoReceivers ++ [.op (.ptsend 0 7), .cont])
    (fun m => decide ((m.data.porttab 0).ptstate = .PT_ALLOC) && decide ((m.data.porttab 0).ptrsem = 1) &&
      decide ((m.data.porttab 0).ptseq = 1) && decide (m.k.waiters 1 = 1) && decide (m.k.status = .running) &&
      pids.all fun x => (routines (m.context x)).all fun f => !f.makes) (by decide +kernel)
  simp only [Bool.and_eq_true, decide_eq_true_eq] at hf
  obtain ⟨⟨⟨⟨⟨ha, hsem⟩, hseq⟩, hw⟩, hrun⟩, hmakes⟩ := hf
  obtain ⟨h, St⟩ := reach_steady (fun _ _ (U : Machine.PortsUsed _ _) => U.lawful) (boot_steady _ 16384 1048576) r
  obtain ⟨l, hqueue, hr, _⟩ := port_wakeups (by decide) (by decide) (by decide) r hrun ha (St.not_making hmakes)
  rw [hsem, hseq, hw] at hr
  exact ⟨m, l, hqueue, hw, hr (by decide) (by decide)⟩

end Theorems

end Xinu
