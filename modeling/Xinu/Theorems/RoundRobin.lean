import Mathlib.Data.List.TakeWhile
import Xinu.Lib.Rotation
import Xinu.Kernel.Rotation
import Xinu.Kernel.Quiet
import Xinu.Theorems.Scheduling

/-!
# Stable insertion and round robin

`insert` puts a process behind all processes on a sorted queue that have at least its key, so the processes of the highest
priority take turns: at every quantum expiry and every `yield` the next of them is selected. `chprio` leaves the key of a ready
process as it was, so they do not when it gives such a process another priority.
-/

namespace Xinu

open Kernel

/-! ## Insertion -/

/-- What `insert` does to a sorted queue. -/
structure StablyInserts (k : Kernel QueueTab) (pid q key : Int) : Prop where
  /-- The loop ends by its condition. -/
  ends : ∃ curr, (k.queuetab curr).qkey < key ∧
    ∀ n, NQENT.toNat ≤ n → QueueTab.insertPos k.queuetab key n (QueueTab.firstid k.queuetab q) = curr
  returns : (k.insert pid q key).1 = OK
  stable : ∃ before behind, k.queuetab.toList q = before ++ behind ∧
    (k.insert pid q key).2.queuetab.toList q = before ++ pid :: behind ∧
    (∀ p ∈ before, key ≤ (k.queuetab p).qkey) ∧ ∀ p ∈ behind, (k.queuetab p).qkey < key
  qkey : ((k.insert pid q key).2.queuetab pid).qkey = key
  others : ∀ p, IsPid p → p ≠ pid → ((k.insert pid q key).2.queuetab p).qkey = (k.queuetab p).qkey

theorem stablyInserts_of_rep {k : Kernel QueueTab} {L : QLists} {pid q key : Int} (R : Rep k.queuetab L) (hq : IsHead q)
    (hb : k.isbadpid pid = false) (hf : ∀ q', pid ∉ L.ids q')
    (hs : (L.ids q).Pairwise (fun p p' => L.key p' ≤ L.key p)) (hk : MINKEY < key) : StablyInserts k pid q key := by
  have hins : k.insert pid q key = (OK, k.setQueues (k.queuetab.insert pid q key)) := by
    rw [Kernel.insert, hq.not_bad, hb]
    rfl
  have R' : Rep (k.queuetab.insert pid q key) (L.insert pid q key) := R.insert hq (isbadpid_eq_false.mp hb).1 hf hk
  have hkey : ∀ p, IsPid p → (k.queuetab.insert pid q key p).qkey = Function.update L.key pid key p := fun p hp => R'.key p hp
  refine ⟨⟨((L.ids q).dropWhile (fun x => decide (key ≤ L.key x))).headD (queuetail q), ?_, fun n hn => ?_⟩, ?_,
    ⟨(L.ids q).takeWhile (fun x => decide (key ≤ L.key x)), (L.ids q).dropWhile (fun x => decide (key ≤ L.key x)), ?_, ?_,
      fun p hp => ?_, fun p hp => ?_⟩, ?_, fun p hp hne => ?_⟩
  · rcases hd : (L.ids q).dropWhile (fun x => decide (key ≤ L.key x)) with _ | ⟨x, rest⟩
    · -- the key of the tail is smaller
      rw [List.headD_nil, R.tailkey q hq]
      exact hk
    · have hm : x ∈ (L.ids q).dropWhile (fun x => decide (key ≤ L.key x)) := hd ▸ List.mem_cons_self
      rw [List.headD_cons, R.key x (R.range q x (List.dropWhile_subset _ hm))]
      exact lt_of_mem_dropWhile hs x hm
  · have hlen : (L.ids q).length < n := lt_of_lt_of_le R.length_lt hn
    rw [R.firstid_eq hq]
    exact R.insertPos_eq hq hk (List.nil_append (L.ids q)).symm hlen
  · rw [hins]
  · rw [R.toList_eq hq]
    exact List.takeWhile_append_dropWhile.symm
  · rw [hins]
    exact (R'.toList_eq hq).trans (L.insert_ids pid q key)
  · have hm : p ∈ L.ids q := List.takeWhile_subset _ hp
    rw [R.key p (R.range q p hm)]
    exact of_decide_eq_true (List.mem_takeWhile_imp (p := fun x => decide (key ≤ L.key x)) hp)
  · have hm : p ∈ L.ids q := List.dropWhile_subset _ hp
    rw [R.key p (R.range q p hm)]
    exact lt_of_mem_dropWhile hs p hp
  · rw [hins]
    exact (hkey pid (isbadpid_eq_false.mp hb).1).trans (Function.update_self _ _ _)
  · rw [hins, R.key p hp]
    exact (hkey p hp).trans (Function.update_of_ne hne _ _)

/-! ## Runs -/

/-- A call of `chprio` gives no ready process another priority. -/
def Kernel.KeepsReady {Q : Type} (k : Kernel Q) (c : Call) : Prop :=
  ∀ x ∈ c.newPriority, (k.proctab x.1).prstate ≠ .PR_READY ∨ x.2 = (k.proctab x.1).prprio

/-- The system call that the event makes, if it makes one, is such a call. -/
def Machine.KeepsReady {C : Client} (m : Machine C) (e : Event C) : Prop := ∀ c ∈ m.issued e, m.k.KeepsReady c

instance {Q : Type} (k : Kernel Q) (c : Call) : Decidable (k.KeepsReady c) :=
  inferInstanceAs (Decidable (∀ x ∈ c.newPriority, _ ∨ _))

instance {C : Client} (m : Machine C) (e : Event C) : Decidable (m.KeepsReady e) :=
  inferInstanceAs (Decidable (∀ c ∈ m.issued e, m.k.KeepsReady c))

namespace Machine

variable {C : Client} (m : Machine C)

/-- The quantum expires, or the current process calls `yield`, or `sleepms` without a delay, which calls `yield`. -/
def selects (e : Event C) : Bool :=
  match e, m.issued e with
  | .tick, _ => decide (m.k.preempt - 1 = 0)
  | _, some .yield => true
  | _, some (.sleepms delay) => decide (int32 delay = 0)
  | _, _ => false

def deferred : Machine C := { m with k := m.k.deferStart }

/-- The event calls `resched`. While rescheduling is deferred, as it is in a clock interrupt, `attempt` records this. -/
def reschedules : Event C → Bool
  | .tick => m.k.deferStart.clkhandler.attempt
  | e => (m.deferred.step e).any fun m' => m'.k.attempt

/-- The runs from `m₀` in which the processes of the highest priority stay the same and every rescheduling is caused by the
expiry of the quantum or by `yield`, with the processes that are selected. -/
inductive Rounds (ok : Machine C → Event C → Prop) (m₀ : Machine C) : List Int → Machine C → Prop where
  | start : Rounds ok m₀ [] m₀
  | select {l : List Int} {m m' : Machine C} (e : Event C) : Rounds ok m₀ l m → ok m e → m.step e = some m' →
      m.selects e = true → (∀ p, m'.k.Highest p ↔ m₀.k.Highest p) → Rounds ok m₀ (l ++ [m'.k.currpid]) m'
  | other {l : List Int} {m m' : Machine C} (e : Event C) : Rounds ok m₀ l m → ok m e → m.step e = some m' →
      m.reschedules e = false → (∀ p, m'.k.Highest p ↔ m₀.k.Highest p) → Rounds ok m₀ l m'

end Machine

/-- The processes of `S` are selected cyclically, each exactly once in every round. -/
def RoundRobin (S : Int → Prop) (l : List Int) : Prop :=
  ∃ order : List Int, order.Nodup ∧ (∀ p, p ∈ order ↔ S p) ∧ (∀ i p, l[i]? = some p → order[i % order.length]? = some p) ∧
    ∀ i, i + order.length ≤ l.length → ((l.drop i).take order.length).Perm order

section Steps

variable {C : Client} {m m' : Machine C} {e : Event C} {h h' g : Kernel QLists} {κ : Kind} {b : Bool} {p prio : Int}

/-- The kernel behind a system call. -/
theorem Machine.step_call {c : Call} (hs : m.step e = some m') (hi : m.issued e = some c) : m'.k = (m.k.call c).1 := by
  cases (Machine.step_effect hs).2 with
  | call c' d l rest hi' =>
    obtain rfl := Option.some.inj (hi.symm.trans hi')
    rfl
  | inside _ _ _ _ _ hi' => cases hi.symm.trans hi'
  | stop d s l hx => cases hi.symm.trans hx.issued
  | tick _ he =>
    subst he
    cases hi
  | proceed r rest hstk hr he =>
    subst he
    cases hi.symm.trans (Machine.issued_cont_kernel hstk hr)

theorem Machine.step_tick (hs : m.step .tick = some m') : m'.k = m.k.clockInterrupt := by
  simp only [Machine.step] at hs
  split at hs
  · obtain rfl := Option.some.inj hs
    rfl
  · cases hs

/-- The event happens while rescheduling is deferred, too. -/
theorem Machine.step_deferred (hs : m.step e = some m') : ∃ mw, m.deferred.step e = some mw := by
  cases e with
  | call | op | tick =>
    simp only [Machine.step] at hs ⊢
    split at hs
    · next hu => exact ⟨_, if_pos hu⟩
    · cases hs
  | ret =>
    simp only [Machine.step] at hs ⊢
    split at hs
    · next f rest hrun hstk =>
      have hrun' : m.deferred.k.status = .running := hrun
      have hstk' : m.deferred.stack = .callback f :: rest := hstk
      simp only [hrun', hstk']
      exact ⟨_, rfl⟩
    · cases hs
  | cont =>
    simp only [Machine.step] at hs ⊢
    split at hs
    · next v f rest hrun hstk =>
      have hrun' : m.deferred.k.status = .running := hrun
      have hstk' : m.deferred.stack = .kernel (.ret v) :: .client f :: rest := hstk
      simp only [hrun', hstk']
      exact ⟨_, rfl⟩
    · next v rest hne hrun hstk =>
      have hrun' : m.deferred.k.status = .running := hrun
      have hstk' : m.deferred.stack = .kernel (.ret v) :: rest := hstk
      simp only [hrun', hstk']
      exact ⟨_, rfl⟩
    · next r rest _ hr hrun hstk =>
      have hrun' : m.deferred.k.status = .running := hrun
      have hstk' : m.deferred.stack = .kernel r :: rest := hstk
      simp only [hrun', hstk']
      exact ⟨_, rfl⟩
    · cases hs

theorem Machine.reschedules_call {c : Call} (hs : m.step e = some m') (hi : m.issued e = some c) :
    m.reschedules e = (m.k.deferStart.call c).1.attempt := by
  obtain ⟨mw, hw⟩ := Machine.step_deferred hs
  have hk : mw.k = (m.k.deferStart.call c).1 := Machine.step_call (m := m.deferred) hw hi
  rw [← hk]
  cases e with
  | tick => cases hi
  | call | op | ret | cont =>
    simp only [Machine.reschedules, hw]
    rfl

theorem Machine.reschedules_killEnd {pid : Int} {i : Nat} {rest : List (Frame C.F)} (hrun : m.k.status = .running)
    (hstk : m.stack = .kernel (.kill pid i) :: rest) (hi : ¬i < 3) :
    m.reschedules .cont = (m.k.deferStart.killEnd pid).attempt := by
  have hrun' : m.deferred.k.status = .running := hrun
  have hstk' : m.deferred.stack = .kernel (.kill pid i) :: rest := hstk
  simp only [Machine.reschedules, Machine.step, hrun', hstk', Option.any_some, Machine.goOn, Kernel.proceed, if_neg hi]
  rfl

/-- A call of `chprio` that gives no ready process another priority. -/
theorem Change.ranked_chprio (c : Change h (.chprio p prio) b g) (I : Inv h)
    (hp : (h.proctab p).prstate ≠ .PR_READY ∨ prio = (h.proctab p).prprio) (R : Ranked h) :
    Ranked g ∧ prio = (g.proctab p).prprio := by
  cases c with
  | chprio _ _ hs h1 h2 =>
    have hself : ((h.setProc p { h.proctab p with prprio := prio }).proctab p).prprio = prio := by
      simp [Kernel.setProc]
    refine ⟨⟨fun q hq => ?_, R.sorted⟩, hself.symm⟩
    refine (R.keys q hq).trans ?_
    by_cases hqp : q = p
    · subst hqp
      have hs := (homeOf_readylist (I.sem q)).mp ((I.mem q _).mp hq)
      rw [hself]
      exact (hp.resolve_left fun hne => hne hs).symm
    · simp [Kernel.setProc, Function.update_of_ne hqp]

theorem ranked_chprio_stable (p prio : Int) : Stable (fun κ => κ = .chprio p prio) (fun b h =>
    (Ranked h ∧ ((h.proctab p).prstate ≠ .PR_READY ∨ prio = (h.proctab p).prprio)) ∧ b = false) := by
  refine ⟨fun {h g κ b} I hκ c H => ?_, fun T H => by cases H.2⟩
  subst hκ
  obtain ⟨R, e⟩ := c.ranked_chprio I H.1.2 H.1.1
  refine ⟨⟨R, Or.inr e⟩, ?_⟩
  cases c
  rfl

/-- An event keeps the order of the priorities, if it gives no ready process another one. -/
theorem Does.ranked (d : Does m e h m' h') (St : Steady m h) (hok : m.KeepsReady e) (R : Ranked h) : Ranked h' := by
  cases d with
  | call c d l rest hi hr hk a =>
    by_cases hc : ∃ p n, c = .chprio p n
    · obtain ⟨p, n, rfl⟩ := hc
      have hp := hok _ hi (p, int16 n) rfl
      rw [St.sim.fields.1] at hp
      exact ((ranked_chprio_stable p (int16 n)).acts St.inv (by simp [Call.kinds]) a ⟨⟨R, hp⟩, rfl⟩).1.1
    · exact ranked_stable.acts St.inv (c.kinds_ranks fun p n e => hc ⟨p, n, e⟩) a R
  | inside | back | closed => exact R
  | stop d s => exact ranked_stable.act St.inv rfl (Act.plain (Change.stop s)) R
  | tick he t a =>
    have t' := Act.plain t
    exact ranked_stable.acts (t'.inv St.inv) (by simp [Kind.ranks]) a (ranked_stable.act St.inv rfl t' R)
  | take => exact R.fewer (Fewer.same rfl (prprio_update rfl))
  | killEnd pid i rest hs hi hk a => exact ranked_stable.acts St.inv (by simp [Kind.ranks]) (Acts.killEnd a) R

end Steps

section Ring

variable {C : Client} {m m' m₀ : Machine C} {e : Event C} {h h' h₀ : Kernel QLists} {S : Int → Prop} [DecidablePred S]

/-- The calls that select are calls of `yield`. -/
theorem Machine.selects_resched (hs : m.step e = some m') (hsel : m.selects e = true) (he : e ≠ .tick) :
    m'.k = m.k.resched := by
  unfold Machine.selects at hsel
  split at hsel
  · exact absurd rfl he
  · next hi => exact Machine.step_call hs hi
  · next delay _ hi =>
    have hz : int32 delay = 0 := of_decide_eq_true hsel
    rw [Machine.step_call hs hi]
    change (m.k.sleepms delay).1 = _
    rw [Kernel.sleepms]
    simp only [hz]
    rfl
  · cases hsel

/-- The first process of the ring is selected. -/
theorem Steady.select (St : Steady m h) (R : Ranked h) (hs : m.step e = some m') (hsel : m.selects e = true)
    (hS : ∀ p, S p → h.Eligible p) (hS' : ∀ p, S p ↔ m'.k.Highest p) :
    ∃ g rest, Sim m'.k g ∧ h.ring S = m'.k.currpid :: rest ∧ g.ring S = rest ++ [m'.k.currpid] := by
  have hd : m.k.ndefers = 0 := St.sim.fields.2.2.2.1.trans St.defers
  by_cases he : e = .tick
  · subst he
    rw [Machine.step_tick hs] at hS' ⊢
    exact tick_selects St.sim St.inv R hd hS (of_decide_eq_true hsel) hS'
  · rw [Machine.selects_resched hs hsel he] at hS' ⊢
    have K : RingKept S h m.k := ⟨h, St.sim, St.inv, R, rfl⟩
    exact K.resched hd hS'

/-- An event that does not reschedule leaves the ring. -/
theorem Does.keeps_ring (d : Does m e h m' h') (St : Steady m h) (St' : Steady m' h') (R : Ranked h)
    (hs : m.step e = some m') (hq : m.reschedules e = false) (hS : ∀ p, S p → h.Eligible p)
    (hS' : ∀ p, S p → h'.Eligible p) : h'.ring S = h.ring S := by
  have hd : m.k.ndefers = 0 := St.sim.fields.2.2.2.1.trans St.defers
  cases d with
  | call c d l rest hi hr hk a =>
    have sh := call_quiet St.sim St.inv hd c ((Machine.reschedules_call hs hi).symm.trans hq)
    obtain ⟨hc, hl⟩ := sh.lists St.sim St'.sim
    exact ring_shrinks St.inv St'.inv hc hl hS'
  | inside | back | closed | stop | take => rfl
  | tick he t a =>
    subst he
    obtain ⟨g, Sg, _, _, hg⟩ := tick_keeps St.sim St.inv R hd hS hq
    exact (St'.sim.ring_eq Sg).trans hg
  | killEnd pid i rest hstk hi hk a he =>
    subst he
    have hrun := (Machine.step_effect hs).1
    have hq' := (Machine.reschedules_killEnd hrun hstk hi).symm.trans hq
    obtain ⟨hc, hl⟩ := killEnd_quiet St.sim St.inv (by rw [deferStart_ndefers hd]; decide) a hq'
    exact ring_shrinks St.inv St'.inv hc hl hS'

/-- What a run keeps: the ring is the first one, turned as often as a process was selected. -/
theorem Machine.Rounds.turns {ok : Machine C → Event C → Prop} {l : List Int} (r : Machine.Rounds ok m₀ l m)
    (hok : ∀ m e, ok m e → m.Lawful e ∧ m.KeepsReady e) (St₀ : Steady m₀ h₀) (R₀ : Ranked h₀)
    (hS : ∀ p, S p ↔ m₀.k.Highest p) :
    ∃ h, Steady m h ∧ Ranked h ∧ (∀ p, S p ↔ m.k.Highest p) ∧ Rotation.Turns (h₀.ring S) l ∧
      (h₀.ring S).rotate l.length = h.ring S := by
  induction r with
  | start => exact ⟨h₀, St₀, R₀, hS, Rotation.Turns.nil _, List.rotate_zero _⟩
  | select e _ ho hs hsel hsame ih =>
    obtain ⟨h, St, R, hH, ht, hr⟩ := ih
    obtain ⟨h', St', d⟩ := step_does St hs (hok _ e ho).1
    have hH' := fun p => (hS p).trans (hsame p).symm
    obtain ⟨g, rest, Sg, h1, h2⟩ := St.select R hs hsel (fun p hp => (St.sim.highest_iff.mp ((hH p).mp hp)).2.1) hH'
    have hturn := hr.trans h1
    refine ⟨h', St', d.ranked St (hok _ e ho).2 R, hH', ht.snoc hturn, ?_⟩
    rw [List.length_append, List.length_singleton, Rotation.rotate_front hturn, ← h2]
    exact Sg.ring_eq St'.sim
  | other e _ ho hs hq hsame ih =>
    obtain ⟨h, St, R, hH, ht, hr⟩ := ih
    obtain ⟨h', St', d⟩ := step_does St hs (hok _ e ho).1
    have hH' := fun p => (hS p).trans (hsame p).symm
    have hring := d.keeps_ring (S := S) St St' R hs hq (fun p hp => (St.sim.highest_iff.mp ((hH p).mp hp)).2.1)
      (fun p hp => (St'.sim.highest_iff.mp ((hH' p).mp hp)).2.1)
    exact ⟨h', St', d.ranked St (hok _ e ho).2 R, hH', ht, hr.trans hring.symm⟩

end Ring

/-- The order of the priorities in every reachable state, if no ready process is given another one. -/
theorem reach_ranked {C : Client} (data : C.Data) (minheap maxheap : Nat) {m : Machine C}
    (r : Machine.Reach (fun m e => m.Lawful e ∧ m.KeepsReady e) (boot C data minheap maxheap) m) :
    ∃ h, Steady m h ∧ Ranked h := by
  induction r with
  | refl => exact ⟨_, boot_steady data minheap maxheap, ⟨fun _ hp => absurd hp List.not_mem_nil, List.Pairwise.nil⟩⟩
  | step e _ hok hs ih =>
    obtain ⟨h, St, R⟩ := ih
    obtain ⟨h', St', d⟩ := step_does St hs hok.1
    exact ⟨h', St', d.ranked St hok.2 R⟩

/-- `insert` is stable, and in the runs in which no call of `chprio` gives a ready process another priority the processes of the
highest priority are selected cyclically, if they stay the same and only the expiry of the quantum and `yield` reschedule. -/
theorem round_robin {C : Client} (data : C.Data) (minheap maxheap : Nat) :
    (∀ (k : Kernel QueueTab) (pid q key : Int), (∃ L, Rep k.queuetab L) → IsHead q → k.isbadpid pid = false →
      (∀ q', IsHead q' → pid ∉ k.queuetab.toList q') →
      (k.queuetab.toList q).Pairwise (fun p p' => (k.queuetab p').qkey ≤ (k.queuetab p).qkey) → MINKEY < key →
        StablyInserts k pid q key) ∧
    ∀ (m₀ m : Machine C) (l : List Int),
      Machine.Reach (fun m e => m.Lawful e ∧ m.KeepsReady e) (boot C data minheap maxheap) m₀ →
      Machine.Rounds (fun m e => m.Lawful e ∧ m.KeepsReady e) m₀ l m → RoundRobin m₀.k.Highest l := by
  classical
  refine ⟨fun k pid q key hL hq hb hout hsort hk => ?_, fun m₀ m l r rr => ?_⟩
  · obtain ⟨L, R⟩ := hL
    have hkey : ∀ p ∈ L.ids q, (k.queuetab p).qkey = L.key p := fun p hp => R.key p (R.range q p hp)
    refine stablyInserts_of_rep R hq hb (fun q' hm => ?_) ?_ hk
    · have hq' := R.isHead_of_mem hm
      exact hout q' hq' (by rw [R.toList_eq hq']; exact hm)
    · rw [R.toList_eq hq] at hsort
      refine hsort.imp_of_mem fun hp hp' hle => ?_
      rw [← hkey _ hp, ← hkey _ hp']
      exact hle
  · obtain ⟨h₀, St₀, R₀⟩ := reach_ranked data minheap maxheap r
    obtain ⟨_, _, _, _, ht, _⟩ := rr.turns (S := m₀.k.Highest) (fun _ _ ho => ho) St₀ R₀ (fun _ => Iff.rfl)
    exact ⟨h₀.ring m₀.k.Highest, St₀.inv.ring_nodup,
      fun p => St₀.inv.mem_ring fun p hp => (St₀.sim.highest_iff.mp hp).2.1, ht, fun i hi => ht.round hi⟩

/-! ## Runs on concrete inputs -/

/-- The processes of `l` are current or ready with the priority `prio`, and no other process has it or a higher one. -/
def Kernel.highestAre {Q : Type} (k : Kernel Q) (prio : Int) (l : List Int) : Prop :=
  (∃ p ∈ l, IsPid p ∧ k.Eligible p ∧ (k.proctab p).prprio = prio) ∧ ∀ p, 0 ≤ p → p < NPROC →
    ((k.Eligible p ∧ (k.proctab p).prprio = prio ↔ p ∈ l) ∧ (k.Eligible p → (k.proctab p).prprio ≤ prio))

instance {Q : Type} (k : Kernel Q) (p : Int) : Decidable (k.Eligible p) := inferInstanceAs (Decidable (_ ∨ _))

instance {Q : Type} (k : Kernel Q) (prio : Int) (l : List Int) : Decidable (k.highestAre prio l) :=
  inferInstanceAs (Decidable ((∃ p ∈ l, _) ∧ ∀ p, 0 ≤ p → p < NPROC → _))

theorem Kernel.highestAre.iff {Q : Type} {k : Kernel Q} {prio : Int} {l : List Int} (H : k.highestAre prio l) (p : Int) :
    k.Highest p ↔ IsPid p ∧ p ∈ l := by
  obtain ⟨⟨q, _, hq, hqe, hqp⟩, hall⟩ := H
  refine ⟨fun ⟨hp, he, htop⟩ => ⟨hp, ?_⟩, fun ⟨hp, hm⟩ => ?_⟩
  · have h1 := htop q hq.1 hq.2 hqe
    have h2 := (hall p hp.1 hp.2).2 he
    exact (hall p hp.1 hp.2).1.mp ⟨he, by omega⟩
  · obtain ⟨he, hprio⟩ := (hall p hp.1 hp.2).1.mpr hm
    refine ⟨hp, he, fun x h0 h1 hx => ?_⟩
    rw [hprio]
    exact (hall x h0 h1).2 hx

namespace Machine

variable {C : Client}

/-- The events select the processes of a list one after the other, they are allowed, the processes of the highest priority stay
`tops`, and no other event reschedules; the state is evaluated between the events. -/
def takesTurns (F : Forcing (Machine C)) (ok : Machine C → Event C → Prop) [∀ m e, Decidable (ok m e)] (prio : Int)
    (tops : List Int) : Machine C → List (Event C) → List Int → Bool
  | _, [], l => l.isEmpty
  | m, e :: es, l =>
    decide (ok m e) && match m.step e with
      | none => false
      | some m' => F.app m' fun m' => decide (m'.k.highestAre prio tops) &&
          if m.selects e then decide (l.head? = some m'.k.currpid) && takesTurns F ok prio tops m' es l.tail
          else !m.reschedules e && takesTurns F ok prio tops m' es l

/-- What evaluates is a run. -/
theorem rounds_of_takesTurns (F : Forcing (Machine C)) (ok : Machine C → Event C → Prop) [∀ m e, Decidable (ok m e)] {prio : Int}
    {tops : List Int} {m₀ : Machine C} (H : m₀.k.highestAre prio tops) (es : List (Event C)) :
    ∀ {m : Machine C} {l l' : List Int}, Rounds ok m₀ l m → takesTurns F ok prio tops m es l' = true →
      ∃ m', Rounds ok m₀ (l ++ l') m' := by
  induction es with
  | nil =>
    intro m l l' r h
    obtain rfl := List.isEmpty_iff.mp h
    exact ⟨m, by rwa [List.append_nil]⟩
  | cons e es ih =>
    intro m l l' r h
    rw [takesTurns, Bool.and_eq_true, decide_eq_true_eq] at h
    obtain ⟨hok, hrest⟩ := h
    cases hs : m.step e with
    | none =>
      rw [hs] at hrest
      cases hrest
    | some m₁ =>
      simp only [hs, F.app_eq, Bool.and_eq_true, decide_eq_true_eq] at hrest
      obtain ⟨hH, hnext⟩ := hrest
      have hsame : ∀ p, m₁.k.Highest p ↔ m₀.k.Highest p := fun p => (hH.iff p).trans (H.iff p).symm
      by_cases hsel : m.selects e = true
      · rw [if_pos hsel, Bool.and_eq_true, decide_eq_true_eq] at hnext
        obtain ⟨hhead, hturns⟩ := hnext
        obtain ⟨m', r'⟩ := ih (r.select e hok hs hsel hsame) hturns
        rw [List.append_assoc, List.singleton_append, List.cons_head?_tail hhead] at r'
        exact ⟨m', r'⟩
      · rw [if_neg hsel, Bool.and_eq_true, Bool.not_eq_true'] at hnext
        exact ih (r.other e hok hs hnext.1 hsame) hnext.2

end Machine

/-- Two processes of the same priority, the second of which is current. -/
def twoEqual : List (Event Client.none) :=
  [.call (.create 400 20), .cont, .call (.resume 1), .call (.create 400 20), .cont, .call (.resume 2)]

/-- They yield to each other, and one uses up its quantum. -/
def twoTurns : List (Event Client.none) := [.call .yield, .cont, .tick, .tick, .cont, .call (.sleepms 0)]

/-- Two processes take turns. -/
theorem round_robin_two : ∃ m₀ m : Machine Client.none,
    Machine.Rounds (fun m e => m.Lawful e ∧ m.KeepsReady e) m₀ [1, 2, 1] m ∧ RoundRobin m₀.k.Highest [1, 2, 1] ∧
      StablyInserts m₀.k 2 readylist 20 := by
  obtain ⟨m₀, r, hf⟩ := Machine.reach_of_evaluates Forcing.plain (fun m e => m.Lawful e ∧ m.KeepsReady e)
    (boot Client.none () 4096 1048576) twoEqual
    (fun m => decide (m.k.highestAre 20 [1, 2]) && decide (m.k.currpid = 2) &&
      Machine.takesTurns Forcing.plain (fun m e => m.Lawful e ∧ m.KeepsReady e) 20 [1, 2] m twoTurns [1, 2, 1] &&
      decide ((m.k.queuetab.toList readylist).Pairwise (fun p p' => (m.k.queuetab p').qkey ≤ (m.k.queuetab p).qkey)))
    (by decide +kernel)
  simp only [Bool.and_eq_true, decide_eq_true_eq] at hf
  obtain ⟨⟨⟨hH, hcur⟩, hsel⟩, hsort⟩ := hf
  obtain ⟨m, rr⟩ := Machine.rounds_of_takesTurns Forcing.plain _ hH twoTurns Machine.Rounds.start hsel
  obtain ⟨hins, hrounds⟩ := round_robin (C := Client.none) () 4096 1048576
  obtain ⟨h, St, _⟩ := reach_ranked (C := Client.none) () 4096 1048576 r
  have hrun : (m₀.k.proctab 2).prstate = .PR_CURR := (St.placed.current.2 2 (by decide)).mpr hcur.symm
  refine ⟨m₀, m, rr, hrounds m₀ m [1, 2, 1] r rr, hins m₀.k 2 readylist 20 ?_ isHead_readylist ?_ ?_ hsort (by decide)⟩
  · obtain ⟨L, R, _⟩ := St.sim
    exact ⟨L, R⟩
  · exact isbadpid_eq_false.mpr ⟨by decide, by rw [hrun]; decide⟩
  · exact St.placed.elsewhere 2 (by decide) (by rw [hrun]; simp)

/-- A ready process with a raised priority is not selected when the current process yields. -/
theorem round_robin_chprio_ready : ∃ m₀ m l, Machine.Reach Machine.Lawful (boot Client.none () 4096 1048576) m₀ ∧
    Machine.Rounds Machine.Lawful m₀ l m ∧ ¬RoundRobin m₀.k.Highest l := by
  obtain ⟨m₀, r, hf⟩ := Machine.reach_of_evaluates Forcing.plain Machine.Lawful (boot Client.none () 4096 1048576)
    [.call (.create 400 20), .cont, .call (.resume 1), .call (.create 400 10), .cont, .call (.resume 2), .cont,
      .call (.chprio 2 30), .cont]
    (fun m => decide (m.k.highestAre 30 [2]) &&
      Machine.takesTurns Forcing.plain Machine.Lawful 30 [2] m [.call .yield] [1])
    (by decide +kernel)
  simp only [Bool.and_eq_true, decide_eq_true_eq] at hf
  obtain ⟨hH, hsel⟩ := hf
  obtain ⟨m, rr⟩ := Machine.rounds_of_takesTurns Forcing.plain _ hH [.call .yield] Machine.Rounds.start hsel
  refine ⟨m₀, m, [1], r, rr, ?_⟩
  rintro ⟨order, _, hmem, hturn, _⟩
  have h1 : (1 : Int) ∈ order := List.mem_of_getElem? (hturn 0 1 rfl)
  have h2 := ((hH.iff 1).mp ((hmem 1).mp h1)).2
  exact absurd h2 (by decide)

end Xinu
