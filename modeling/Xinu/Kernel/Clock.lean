import Xinu.Kernel.Refinement

/-!
# The clock

The clock interrupt is one tick of the delta list of sleeping processes, and then a sequence of steps that wake processes
(`tick_refines`). When it is over, the first process on the delta list has still to wait (`Awake`), provided that it had
before the tick.
-/

namespace Xinu

open Kernel

/-! ## Steps that leave the delta list alone -/

/-- The delta list of `L'` is that of `L`. -/
structure Undisturbed (L L' : QLists) : Prop where
  ids : L'.ids sleepq = L.ids sleepq
  key : ∀ p ∈ L.ids sleepq, L'.key p = L.key p

namespace Undisturbed

variable {L L' L'' : QLists} {p : Int}

theorem refl (L : QLists) : Undisturbed L L := ⟨rfl, fun _ _ => rfl⟩

theorem trans (a : Undisturbed L L') (b : Undisturbed L' L'') : Undisturbed L L'' :=
  ⟨b.ids.trans a.ids, fun p hp => (b.key p (a.ids ▸ hp)).trans (a.key p hp)⟩

/-- Putting a process on the ready list that is not asleep. -/
theorem insert (hp : p ∉ L.ids sleepq) (prio : Int) : Undisturbed L (L.insert p readylist prio) := by
  refine ⟨(QLists.put_insert _ _ _ _).other _ readylist_ne_sleepq.symm, fun x hx => ?_⟩
  have hne : x ≠ p := fun e => hp (e ▸ hx)
  simp [QLists.insert, Function.update_of_ne hne]

/-- Taking a process off another list. -/
theorem getitem (hp : p ∉ L.ids sleepq) : Undisturbed L (L.getitem p) := ⟨List.erase_of_not_mem hp, fun _ _ => rfl⟩

/-- Moving a process from another list to the ready list. -/
theorem move (hp : p ∉ L.ids sleepq) (prio : Int) : Undisturbed L ((L.getitem p).insert p readylist prio) :=
  (getitem hp).trans (insert ((getitem hp).ids ▸ hp) prio)

theorem resched {h : Kernel QLists} (I : Inv0 h) : Undisturbed h.queuetab h.resched.queuetab := by
  have S := I.resched_only
  refine ⟨S.ids _ readylist_ne_sleepq.symm, fun p hp => S.key p ?_⟩
  exact (I.state_of_mem hp).2

end Undisturbed

theorem Inv0.not_asleep {h : Kernel QLists} {p : Int} (I : Inv0 h) (h1 : (h.proctab p).prstate ≠ .PR_SLEEP)
    (h2 : (h.proctab p).prstate ≠ .PR_RECTIM) : p ∉ h.queuetab.ids sleepq := by
  rw [I.mem, homeOf_sleepq (I.sem p)]
  exact fun e => e.elim h1 h2

theorem Inv0.waiting_not_asleep {h : Kernel QLists} {p s : Int} {rest : List Int} (I : Inv0 h) (hs : isbadsem s = false)
    (hq : h.queuetab.ids (squeue s) = p :: rest) : p ∉ h.queuetab.ids sleepq := by
  intro hm
  exact (squeue_ne hs).2 (I.disj (hq ▸ List.mem_cons_self) hm)

/-- The kinds of steps that never change the delta list. -/
def Kind.still : Kind → Bool
  | .quiet | .readied | .chprio .. | .created | .killing _ | .received | .took | .semcreated | .sem _ => true
  | .stkfreed | .killed _ | .sent | .slept | .tick | .woken => false

/-- A step of one of these kinds does not change the delta list. -/
theorem Change.undisturbed {h g : Kernel QLists} {κ : Kind} {b : Bool} (c : Change h κ b g) (I : Inv h)
    (hκ : κ.still = true) : Undisturbed h.queuetab g.queuetab := by
  cases c with
  | aux | stop | deferStart | deferStop | resched | created | killing | suspendSelf | chprio | receive | take | passed
  | signalled | releasedNone | flushedNone | semcreated | semreset | semdeleted => exact Undisturbed.refl _
  | ready p hs hh => exact Undisturbed.insert (I.not_mem hh sleepq) _
  | resumed p hs => exact Undisturbed.insert (I.not_mem (homeOf_susp hs) sleepq) _
  | suspend p hs => exact Undisturbed.getitem (I.not_asleep (by rw [hs]; decide) (by rw [hs]; decide))
  | blocked s hs => exact ⟨(QLists.put_enqueue _ _ _).other _ (squeue_ne hs).2.symm, fun _ _ => rfl⟩
  | released s p rest hs hu hc hq => exact Undisturbed.move (I.waiting_not_asleep hs hq) _
  | flushed s p rest hs hu hq => exact Undisturbed.move (I.waiting_not_asleep hs hq) _
  | _ => cases hκ

theorem Act.undisturbed {h g : Kernel QLists} {κ : Kind} (a : Act h κ g) (I : Inv h) (hκ : κ.still = true) :
    Undisturbed h.queuetab g.queuetab := by
  cases a with
  | plain c => exact c.undisturbed I hκ
  | sched c => exact (c.undisturbed I hκ).trans (Undisturbed.resched (c.settled I).toInv0)

theorem Acts.undisturbed {h g : Kernel QLists} {ks : List Kind} (a : Acts ks h g) (I : Inv h)
    (hks : ∀ κ ∈ ks, κ.still = true) : Undisturbed h.queuetab g.queuetab := by
  induction a with
  | refl => exact Undisturbed.refl _
  | tail a hκ c ih => exact ih.trans (c.undisturbed (a.inv I) (hks _ hκ))

/-! ## The interrupt -/

/-- The first process on the delta list, if there is one, has still to wait. -/
def Awake (h : Kernel QLists) : Prop := ∀ p rest, h.queuetab.ids sleepq = p :: rest → 0 < h.queuetab.key p

theorem Awake.of_undisturbed {h g : Kernel QLists} (A : Awake h) (u : Undisturbed h.queuetab g.queuetab) : Awake g := by
  intro p rest hl
  rw [u.ids] at hl
  rw [u.key p (hl ▸ List.mem_cons_self)]
  exact A p rest hl

section Clock

variable {k : Kernel QueueTab} {h : Kernel QLists} {p : Int}

/-- The first process on the delta list is due after the next tick at the earliest, and its key is an integer. -/
def Due (h : Kernel QLists) : Prop :=
  ∀ p rest, h.queuetab.ids sleepq = p :: rest → 0 < h.queuetab.key p ∧ h.queuetab.key p ≤ MAXKEY

/-- What the code reads of a queue that is not empty: its first key is that of the first process. -/
theorem Sim.first (S : Sim k h) {q : Int} (hq : IsHead q) {rest : List Int} (hl : h.queuetab.ids q = p :: rest) :
    QueueOps.isempty k.queuetab q = false ∧ QueueOps.firstkey k.queuetab q = h.queuetab.key p := by
  obtain ⟨L, R, rfl⟩ := S
  have hl' : L.ids q = p :: rest := hl
  constructor
  · refine (R.isempty_eq hq).trans ?_
    rw [hl']
    rfl
  · refine (R.firstkey_eq hq).trans ?_
    simp only [QueueOps.firstkey, hl']
    rfl

theorem Sim.isempty_iff (S : Sim k h) {q : Int} (hq : IsHead q) :
    QueueOps.isempty k.queuetab q = true ↔ h.queuetab.ids q = [] := by
  obtain ⟨L, R, rfl⟩ := S
  exact (R.isempty_eq hq).congr_left.trans List.isEmpty_iff

/-- The loop of `wakeup` ends when no process is due. -/
theorem wakeupLoop_refines (n : Nat) : ∀ {k : Kernel QueueTab} {h : Kernel QLists}, Sim k h → Inv h →
    (h.queuetab.ids sleepq).length < n → ∃ h', Sim (wakeupLoop n k) h' ∧ Acts [.woken] h h' ∧ Awake h' := by
  induction n with
  | zero => exact fun _ _ hlen => absurd hlen (Nat.not_lt_zero _)
  | succ n ih =>
    intro k h S I hlen
    unfold wakeupLoop
    rcases hl : h.queuetab.ids sleepq with _ | ⟨p, rest⟩
    · have he := (S.isempty_iff isHead_sleepq).mpr hl
      simp only [he, Bool.not_true, Bool.false_and, Bool.false_eq_true, if_false]
      refine ⟨h, S, Acts.refl, fun p rest e => ?_⟩
      rw [hl] at e
      cases e
    · obtain ⟨he, hkey⟩ := S.first isHead_sleepq hl
      by_cases hk : h.queuetab.key p ≤ 0
      · simp only [he, hkey, hk, Bool.not_false, decide_true, Bool.and_self, if_true]
        have hm : p ∈ h.queuetab.ids sleepq := hl ▸ List.mem_cons_self
        have ha : Act h .woken ((((h.note (.woken p)).getitem p).makeReady p).resched) := Act.sched (Change.woken p rest hl hk)
        have I' : Inv (h.note (.woken p)) := I.same rfl rfl rfl I.defers I.nextsem
        have I'' := (Change.woken p rest hl hk).settled I
        obtain ⟨h1, S'⟩ := S.dequeue isHead_sleepq hl
        simp only [h1]
        have S'' : Sim ((k.dequeue sleepq).2.note (.woken p)) ((h.note (.woken p)).getitem p) := by
          obtain ⟨L', R', e⟩ := S'
          exact ⟨L', R', congrArg (fun g => Kernel.note g (.woken p)) e⟩
        have hids : (((((h.note (.woken p)).getitem p).makeReady p).resched).queuetab.ids sleepq) = rest := by
          refine (I''.toInv0.resched_only.ids _ readylist_ne_sleepq.symm).trans ?_
          refine ((QLists.put_insert _ _ _ _).other _ readylist_ne_sleepq.symm).trans ?_
          show (h.queuetab.ids sleepq).erase p = rest
          rw [hl, List.erase_cons_head]
        obtain ⟨h', Sh, a, A⟩ := ih (S''.moveReady I' hm) (ha.inv I) (by
          rw [hids]
          rw [hl, List.length_cons] at hlen
          omega)
        exact ⟨h', Sh, Acts.head ha (by simp) a, A⟩
      · simp only [he, hkey, hk, Bool.not_false, decide_false, Bool.and_false, Bool.false_eq_true, if_false]
        refine ⟨h, S, Acts.refl, fun x rest' e => ?_⟩
        rw [hl] at e
        obtain ⟨rfl, _⟩ := List.cons.inj e
        omega

/-- `wakeup` wakes every process that is due, and none is due afterwards. -/
theorem wakeup_refines (S : Sim k h) (I : Inv h) :
    ∃ h', Sim k.wakeup h' ∧ Acts [.quiet, .woken] h h' ∧ Awake h' := by
  have I₁ := I.deferStart
  obtain ⟨h₂, S₂, a₂, A₂⟩ := wakeupLoop_refines (NPROC.toNat + 1) S.deferStart I₁ (ids_length S.deferStart _)
  have I₂ := a₂.inv I₁
  have r : Refines [.quiet] h₂ k.wakeup := deferStop_refines S₂ I₂
  obtain ⟨h₃, S₃, a₃⟩ := r
  refine ⟨h₃, S₃, (Acts.head (Act.plain Change.deferStart) (by simp) (a₂.mono (by simp))).trans (a₃.mono (by simp)), ?_⟩
  exact A₂.of_undisturbed (a₃.undisturbed I₂ (by simp [Kind.still]))

/-- Counting the tick changes the counters of the clock only. -/
theorem countTick_eq {Q : Type} [QueueOps Q] (k : Kernel Q) :
    ∃ clktime count1000, k.countTick = { k.note .tick with clktime := clktime, count1000 := count1000 } := by
  unfold Kernel.countTick
  simp only
  split
  · exact ⟨_, _, rfl⟩
  · exact ⟨_, _, rfl⟩

/-- A tick of the delta list. -/
def Kernel.tickList (h : Kernel QLists) : Kernel QLists := (h.note .tick).setQueues (h.queuetab.decFirst sleepq)

/-- The tick of the delta list takes one off the first key and wakes every process that is then due. -/
theorem tickSleepers_refines (S : Sim k h) (I : Inv h) :
    ∃ h', Sim k.countTick.tickSleepers h' ∧ Acts [.quiet, .woken] h.tickList h' ∧ (Due h → Awake h') := by
  obtain ⟨L, R, rfl⟩ := S
  obtain ⟨ct, c1000, hc⟩ := countTick_eq k
  have hb := Act.plain (Change.aux (h := (k.abst L).tickList) k.heap k.nextpid k.nextsem k.preempt ct c1000 I.nextsem)
  have hacts : Acts [.quiet, .woken] (k.abst L).tickList _ := Acts.single hb (by simp)
  rw [hc]
  unfold Kernel.tickSleepers
  have S : Sim k (k.abst L) := ⟨L, R, rfl⟩
  split
  · next he =>
    have hl : L.ids sleepq = [] := (S.isempty_iff isHead_sleepq).mp he
    have hlist : (k.abst L).tickList = (k.abst L).note .tick := by
      show ((k.abst L).note .tick).setQueues (L.decFirst sleepq) = _
      rw [QLists.decFirst, hl]
      rfl
    rw [hlist] at hacts ⊢
    refine ⟨_, ⟨L, R, rfl⟩, hacts, fun _ p rest e => ?_⟩
    have e' : L.ids sleepq = p :: rest := e
    rw [hl] at e'
    cases e'
  · next he =>
    have hne : L.ids sleepq ≠ [] := fun hnil => he ((S.isempty_iff isHead_sleepq).mpr hnil)
    obtain ⟨p, rest, hl⟩ := List.exists_cons_of_ne_nil hne
    have hl' : (L.decFirst sleepq).ids sleepq = p :: rest := by rw [QLists.decFirst_ids, hl]
    have hkey : (L.decFirst sleepq).key p = int32 (L.key p - 1) := by simp [QLists.decFirst, hl]
    have S' : Sim (Kernel.setQueues { k.note .tick with clktime := ct, count1000 := c1000 }
        (QueueOps.decFirst k.queuetab sleepq)) _ := ⟨L.decFirst sleepq, R.decFirst isHead_sleepq hne, rfl⟩
    have hfirst := (S'.first isHead_sleepq hl').2
    simp only
    split
    · obtain ⟨h', Sh, a, A⟩ := wakeup_refines S' (hb.inv ((Act.plain Change.tick).inv I))
      exact ⟨h', Sh, hacts.trans a, fun _ => A⟩
    · next hz =>
      refine ⟨_, S', hacts, fun D q rest' e => ?_⟩
      obtain ⟨rfl, _⟩ := List.cons.inj (hl'.symm.trans e)
      obtain ⟨h1, h2⟩ : 0 < L.key p ∧ L.key p ≤ 2147483647 := D p rest hl
      have h3 : int32 (L.key p - 1) = L.key p - 1 := int32_of_range (by omega) (by omega)
      have hz' : (L.decFirst sleepq).key p ≠ 0 := fun e0 => hz (hfirst.trans e0)
      show 0 < (L.decFirst sleepq).key p
      rw [hkey, h3] at hz' ⊢
      omega

/-- The end of a time slice reschedules, and otherwise nothing happens. -/
theorem tickPreempt_refines (S : Sim k h) (I : Inv h) : Refines [.quiet] h k.tickPreempt := by
  obtain ⟨L, R, rfl⟩ := S
  have ha := fun pre => Act.plain (Change.aux (h := k.abst L) k.heap k.nextpid k.nextsem pre k.clktime k.count1000 I.nextsem)
  unfold Kernel.tickPreempt
  simp only
  split
  · have S' : Sim { k with preempt := QUANTUM } { k.abst L with preempt := QUANTUM } := ⟨L, R, rfl⟩
    exact Refines.head (by simp) (ha QUANTUM)
      (Refines.of_act (by simp) (S'.resched ((ha QUANTUM).inv I).toInv0) (Act.sched Change.resched))
  · exact Refines.of_act (by simp) ⟨L, R, rfl⟩ (ha (k.preempt - 1))

/-- The clock interrupt is a tick and a sequence of steps that wake processes. -/
theorem tick_refines (S : Sim k h) (I : Inv h) : ∃ h₁ h', Sim k.clockInterrupt h' ∧ Change h .tick false h₁ ∧
    Acts [.quiet, .woken] h₁ h' ∧ (Due h → Awake h') := by
  have I₀ := I.deferStart
  have I₁ := (Act.plain (Change.tick (h := h.deferStart))).inv I₀
  obtain ⟨h₂, S₂, a₂, A₂⟩ := tickSleepers_refines S.deferStart I₀
  have I₂ := a₂.inv I₁
  have r : Refines [.quiet] h₂ k.clockInterrupt :=
    (tickPreempt_refines S₂ I₂).trans I₂ (fun _ S₃ I₃ _ => deferStop_refines S₃ I₃)
  obtain ⟨h₃, S₃, a₃⟩ := r
  refine ⟨h.tickList, h₃, S₃, Change.tick, ?_, fun D => ?_⟩
  · exact (Acts.head (Act.plain Change.deferStart) (by simp) a₂).trans (a₃.mono (by simp))
  · exact (A₂ D).of_undisturbed (a₃.undisturbed I₂ (by simp [Kind.still]))

end Clock

end Xinu
