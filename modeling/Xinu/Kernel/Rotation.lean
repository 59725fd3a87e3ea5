import Xinu.Kernel.Deferral

/-!
# The order of selection

The current and the ready processes of the highest priority are in a ring: those on the ready list in its order, and behind them
the current one. A rescheduling selects the first of the ring, and puts it behind the others (`Ranked.resched_ring`).
-/

namespace Xinu

open Kernel

/-- The process is current or ready, and no such process has a higher priority. -/
def Kernel.Highest {Q : Type} (k : Kernel Q) (p : Int) : Prop :=
  IsPid p ∧ k.Eligible p ∧ ∀ q, 0 ≤ q → q < NPROC → k.Eligible q → (k.proctab q).prprio ≤ (k.proctab p).prprio

/-- The processes of `S` in the order in which they are selected. -/
def Kernel.ring (h : Kernel QLists) (S : Int → Prop) [DecidablePred S] : List Int :=
  (h.queuetab.ids readylist ++ [h.currpid]).filter (fun p => decide (S p))

section Ring

variable {h g : Kernel QLists} {S : Int → Prop} [DecidablePred S] {p : Int}

/-- The eligible processes are the current one and those on the ready list. -/
theorem Inv.eligible_iff (I : Inv h) : h.Eligible p ↔ p ∈ h.queuetab.ids readylist ∨ p = h.currpid := by
  refine ⟨fun hp => ?_, fun hp => ?_⟩
  · rcases hp with hs | hs
    · exact Or.inr (I.curr p hs)
    · exact Or.inl ((I.mem p _).mpr ((homeOf_readylist (I.sem p)).mpr hs))
  · rcases hp with hp | rfl
    · exact Or.inr ((homeOf_readylist (I.sem p)).mp ((I.mem p _).mp hp))
    · exact Or.inl I.running

/-- Those of the highest priority among them. -/
theorem Inv.highest_iff (I : Inv h) :
    h.Highest p ↔ h.Eligible p ∧ ∀ q, h.Eligible q → (h.proctab q).prprio ≤ (h.proctab p).prprio := by
  have hpid : ∀ q, h.Eligible q → IsPid q := by
    intro q hq
    refine I.isPid_of_state fun hf => ?_
    rcases hq with hs | hs <;> rw [hf] at hs <;> cases hs
  refine ⟨fun hp => ⟨hp.2.1, fun q hq => hp.2.2 q (hpid q hq).1 (hpid q hq).2 hq⟩, fun hp => ⟨hpid p hp.1, hp.1, ?_⟩⟩
  intro q _ _ hq
  exact hp.2 q hq

theorem Inv.ring_nodup (I : Inv h) : (h.ring S).Nodup := by
  refine List.Nodup.filter _ (List.nodup_append.mpr ⟨I.nodup _, List.nodup_singleton _, ?_⟩)
  rintro p hp q hq rfl
  rw [List.mem_singleton] at hq
  exact Inv0.ready_ne_current I hp hq

/-- The ring holds the processes of `S`, if they are all current or ready. -/
theorem Inv.mem_ring (I : Inv h) (hS : ∀ p, S p → h.Eligible p) : p ∈ h.ring S ↔ S p := by
  rw [Kernel.ring, List.mem_filter, List.mem_append, List.mem_singleton, ← I.eligible_iff, decide_eq_true_iff]
  exact ⟨And.right, fun hp => ⟨hS p hp, hp⟩⟩

omit [DecidablePred S] in
theorem Highest.le (I : Inv h) (hS : ∀ p, S p ↔ h.Highest p) (hp : S p) {q : Int} (hq : h.Eligible q) :
    (h.proctab q).prprio ≤ (h.proctab p).prprio := (I.highest_iff.mp ((hS p).mp hp)).2 q hq

/-- The current process is alone in the ring, if it beats every other one. -/
theorem Ranked.ring_alone (R : Ranked h) (I : Inv h) (hS : ∀ p, S p ↔ h.Highest p)
    (hp : (h.proctab h.currpid).prprio > QueueOps.firstkey h.queuetab readylist) : h.ring S = [h.currpid] := by
  have hcur : S h.currpid := by
    refine (hS _).mpr (I.highest_iff.mpr ⟨Or.inl I.running, fun q hq => ?_⟩)
    rcases I.eligible_iff.mp hq with hq | rfl
    · exact (R.beats hp hq).le
    · exact Int.le_refl _
  have hnone : (h.queuetab.ids readylist).filter (fun p => decide (S p)) = [] := by
    refine List.filter_eq_nil_iff.mpr fun q hq hs => ?_
    have h1 := Highest.le I hS (of_decide_eq_true hs) (Or.inl I.running)
    have h2 := R.beats hp hq
    omega
  rw [Kernel.ring, List.filter_append, hnone, List.nil_append, List.filter_singleton, decide_eq_true hcur, cond_true]

/-- The first ready process is selected, and the current one goes behind the ready ones that have its priority. -/
theorem Ranked.preempt_list (R : Ranked h) (I : Inv h) (hd : h.ndefers = 0) {f : Int} {tl : List Int}
    (hl : h.queuetab.ids readylist = f :: tl) (hf : (h.proctab h.currpid).prprio ≤ h.queuetab.key f) :
    h.resched.currpid = f ∧ ∃ before behind, tl = before ++ behind ∧
      h.resched.queuetab.ids readylist = before ++ h.currpid :: behind ∧
      ∀ q ∈ behind, (h.proctab q).prprio < (h.proctab h.currpid).prprio := by
  have hp : ¬(h.proctab h.currpid).prprio > QueueOps.firstkey h.queuetab readylist := by
    rw [firstkey_cons hl]
    omega
  obtain ⟨before, behind, htl, hready, hlt⟩ : ∃ before behind, tl = before ++ behind ∧
      (h.makeReady h.currpid).queuetab.ids readylist = f :: (before ++ h.currpid :: behind) ∧
      ∀ q ∈ behind, h.queuetab.key q < (h.proctab h.currpid).prprio := by
    let goesBy : Int → Bool := fun x => decide ((h.proctab h.currpid).prprio ≤ h.queuetab.key x)
    have hpos : goesBy f = true := decide_eq_true hf
    have hsort : (f :: tl).Pairwise (fun p q => h.queuetab.key q ≤ h.queuetab.key p) := hl ▸ R.sorted
    refine ⟨tl.takeWhile goesBy, tl.dropWhile goesBy, List.takeWhile_append_dropWhile.symm, ?_,
      lt_of_mem_dropWhile (List.pairwise_cons.mp hsort).2⟩
    rw [makeReady_ids, hl, List.takeWhile_cons_of_pos hpos, List.dropWhile_cons_of_pos hpos]
    rfl
  rw [resched_preempt hd I.currpid I.running hp, Inv0.switch_eq hready]
  refine ⟨rfl, before, behind, htl, ?_, fun q hq => ?_⟩
  · change ((h.makeReady h.currpid).queuetab.ids readylist).erase f = _
    rw [hready, List.erase_cons_head]
  · have hm : q ∈ h.queuetab.ids readylist := hl ▸ List.mem_cons_of_mem _ (htl ▸ List.mem_append_right _ hq)
    rw [← R.keys q hm]
    exact hlt q hq

/-- A rescheduling selects the first of the ring, and puts it behind the others. -/
theorem Ranked.resched_ring (R : Ranked h) (I : Inv h) (hd : h.ndefers = 0) (hS : ∀ p, S p ↔ h.Highest p) :
    ∃ rest, h.ring S = h.resched.currpid :: rest ∧ h.resched.ring S = rest ++ [h.resched.currpid] := by
  by_cases hp : (h.proctab h.currpid).prprio > QueueOps.firstkey h.queuetab readylist
  · have hring := R.ring_alone I hS hp
    rw [resched_stay hd I.running hp]
    exact ⟨[], hring, hring⟩
  rcases hl : h.queuetab.ids readylist with _ | ⟨f, tl⟩
  · -- the key of the tail is smaller than every priority
    have hempty : QueueOps.firstkey h.queuetab readylist = MINKEY := by simp only [QueueOps.firstkey, hl]
    have h1 := (I.prio h.currpid).1
    have hm : MINKEY = -2147483648 := rfl
    omega
  · rw [firstkey_cons hl] at hp
    have hf : (h.proctab h.currpid).prprio ≤ h.queuetab.key f := by omega
    have hfm : f ∈ h.queuetab.ids readylist := hl ▸ List.mem_cons_self
    have hfS : S f := by
      refine (hS f).mpr (I.highest_iff.mpr ⟨I.eligible_iff.mpr (Or.inl hfm), fun q hq => ?_⟩)
      rw [← R.keys f hfm]
      rcases I.eligible_iff.mp hq with hq | rfl
      · rw [← R.keys q hq]
        exact Sorted.first R.sorted hl hq
      · exact hf
    obtain ⟨hcurr, before, behind, rfl, hids, hlt⟩ := R.preempt_list I hd hl hf
    have hbehind : behind.filter (fun p => decide (S p)) = [] := by
      refine List.filter_eq_nil_iff.mpr fun q hq hs => ?_
      have h1 := Highest.le I hS (of_decide_eq_true hs) (Or.inl I.running)
      have h2 := hlt q hq
      omega
    refine ⟨(before ++ [h.currpid]).filter (fun p => decide (S p)), ?_, ?_⟩
    · rw [Kernel.ring, hcurr, hl]
      simp [hfS, hbehind]
    · have hsplit : before ++ h.currpid :: behind ++ [f] = (before ++ [h.currpid]) ++ behind ++ [f] := by simp
      rw [Kernel.ring, hcurr, hids, hsplit, List.filter_append, List.filter_append, hbehind, List.append_nil,
        List.filter_singleton, decide_eq_true hfS, cond_true]

/-! ## Steps that leave the ring alone -/

theorem ring_congr (hl : (g.queuetab.ids readylist).filter (fun p => decide (S p)) =
    (h.queuetab.ids readylist).filter (fun p => decide (S p))) (hc : g.currpid = h.currpid) : g.ring S = h.ring S := by
  rw [Kernel.ring, Kernel.ring, List.filter_append, List.filter_append, hl, hc]

/-- Processes leave the ready list that are not in `S`. -/
theorem Inv.ring_sublist (I : Inv h) (hl : (g.queuetab.ids readylist).Sublist (h.queuetab.ids readylist))
    (hS : ∀ p ∈ h.queuetab.ids readylist, S p → p ∈ g.queuetab.ids readylist) (hc : g.currpid = h.currpid) :
    g.ring S = h.ring S := by
  refine ring_congr ((hl.filter _).eq_of_length_le ?_) hc
  refine (List.Nodup.subperm ((I.nodup readylist).filter _) fun p hp => ?_).length_le
  obtain ⟨hm, hs⟩ := List.mem_filter.mp hp
  exact List.mem_filter.mpr ⟨hS p hm (of_decide_eq_true hs), hs⟩

/-- A process becomes ready that is not in `S`. -/
theorem ring_makeReady (hp : ¬S p) : (h.makeReady p).ring S = h.ring S := by
  refine ring_congr ?_ rfl
  rw [makeReady_ids, List.filter_append, List.filter_cons_of_neg (by simpa using hp), ← List.filter_append,
    List.takeWhile_append_dropWhile]

/-- The kernel has the ring of `h`, and its ready list is in the order of the priorities. -/
def RingKept (S : Int → Prop) [DecidablePred S] (h : Kernel QLists) (k : Kernel QueueTab) : Prop :=
  ∃ g, Sim k g ∧ Inv g ∧ Ranked g ∧ g.ring S = h.ring S

/-- What the waking of processes keeps, while rescheduling is deferred. -/
structure Wakes (S : Int → Prop) [DecidablePred S] (h g : Kernel QLists) : Prop where
  ring : g.ring S = h.ring S
  asleep : g.queuetab.ids sleepq ⊆ h.queuetab.ids sleepq
  ndefers : g.ndefers = h.ndefers

/-- Waking one process, none of the ring. -/
theorem Act.wakes (a : Act h .woken g) (I : Inv h) (hd : 0 < h.ndefers) (hS : ∀ p ∈ h.queuetab.ids sleepq, ¬S p) :
    Wakes S h g := by
  cases a with
  | plain c => cases c
  | sched c =>
    cases c with
    | woken p rest hq =>
      have hm : p ∈ h.queuetab.ids sleepq := hq ▸ List.mem_cons_self
      have hp : p ∉ h.queuetab.ids readylist := fun hr => I.ready_not_asleep hr hm
      have hd' : 0 < (((h.getitem p).note (.woken p)).makeReady p).ndefers := hd
      rw [resched_deferred hd']
      refine ⟨?_, ?_, rfl⟩
      · refine Eq.trans (ring_makeReady (h := (h.getitem p).note (.woken p)) (hS p hm)) (ring_congr ?_ rfl)
        change ((h.queuetab.ids readylist).erase p).filter _ = _
        rw [List.erase_of_not_mem hp]
      · have hother : (((h.getitem p).note (.woken p)).makeReady p).queuetab.ids sleepq = (h.queuetab.ids sleepq).erase p :=
          (QLists.put_insert _ _ _ _).other _ readylist_ne_sleepq.symm
        change (((h.getitem p).note (.woken p)).makeReady p).queuetab.ids sleepq ⊆ _
        rw [hother]
        exact List.erase_subset

/-- Waking several. -/
theorem Acts.wakes (a : Acts [.woken] h g) (I : Inv h) (hd : 0 < h.ndefers) (hS : ∀ p ∈ h.queuetab.ids sleepq, ¬S p) :
    Wakes S h g := by
  induction a with
  | refl => exact ⟨rfl, fun _ hp => hp, rfl⟩
  | tail a hκ c ih =>
    obtain rfl := List.mem_singleton.mp hκ
    have W := c.wakes (a.inv I) (ih.ndefers ▸ hd) (fun p hp => hS p (ih.asleep hp))
    exact ⟨W.ring.trans ih.ring, fun p hp => ih.asleep (W.asleep hp), W.ndefers.trans ih.ndefers⟩

/-- Variables that no list depends on are assigned. -/
theorem RingKept.of_same {k : Kernel QueueTab} (S' : Sim k g) (I : Inv h) (R : Ranked h) (hproc : g.proctab = h.proctab)
    (hq : g.queuetab = h.queuetab) (hc : g.currpid = h.currpid) (hd : 0 ≤ g.ndefers)
    (hn : 0 ≤ g.nextsem ∧ g.nextsem < NSEM) : RingKept S h k := by
  refine ⟨g, S', I.same hproc (by rw [hq]) hc hd hn, R.fewer (Fewer.same hq fun q => by rw [hproc]), ?_⟩
  rw [Kernel.ring, Kernel.ring, hq, hc]

theorem RingKept.trans {k : Kernel QueueTab} (hr : g.ring S = h.ring S) (K : RingKept S g k) : RingKept S h k := by
  obtain ⟨f, Sf, I, R, hf⟩ := K
  exact ⟨f, Sf, I, R, hf.trans hr⟩

section Clock

variable {k : Kernel QueueTab}

/-- `wakeup` makes processes ready that are not in `S`. -/
theorem wakeup_ring (S' : Sim k h) (I : Inv h) (R : Ranked h) (hd : 0 < h.ndefers)
    (hS : ∀ p ∈ h.queuetab.ids sleepq, ¬S p) : RingKept S h k.wakeup := by
  have I₁ := I.deferStart
  have R₁ : Ranked h.deferStart := R.fewer (Fewer.same rfl fun _ => rfl)
  have hd₁ : h.deferStart.ndefers = h.ndefers + 1 := rfl
  obtain ⟨g, Sg, a, _⟩ := wakeupLoop_refines (NPROC.toNat + 1) S'.deferStart I₁ (ids_length S'.deferStart _)
  have W : Wakes S h.deferStart g := a.wakes I₁ (by omega) hS
  have hn := W.ndefers
  have Rg : Ranked g := ranked_stable.acts I₁ (by simp [Kind.ranks]) a R₁
  obtain ⟨L, RL, rfl⟩ := Sg
  have hk : (wakeupLoop (NPROC.toNat + 1) k.deferStart).ndefers = h.deferStart.ndefers := hn
  refine RingKept.trans W.ring ?_
  rw [Kernel.wakeup, deferStop_inner _ (by omega)]
  refine RingKept.of_same ⟨L, RL, rfl⟩ (a.inv I₁) Rg rfl rfl rfl ?_ (a.inv I₁).nextsem
  change 0 ≤ (wakeupLoop (NPROC.toNat + 1) k.deferStart).ndefers - 1
  omega

/-- The part of the clock interrupt that wakes processes. -/
theorem tickSleepers_ring (S' : Sim k h) (I : Inv h) (R : Ranked h) (hd : 0 < h.ndefers)
    (hS : ∀ p ∈ h.queuetab.ids sleepq, ¬S p) : RingKept S h k.countTick.tickSleepers := by
  have It : Inv h.tickList := (Act.plain Change.tick).inv I
  have Rt : Ranked h.tickList := ranked_stable.act I rfl (Act.plain Change.tick) R
  have hids : ∀ q, h.tickList.queuetab.ids q = h.queuetab.ids q := fun q => congrFun (QLists.decFirst_ids _ _) q
  have hring : h.tickList.ring S = h.ring S := ring_congr (by rw [hids]) rfl
  obtain ⟨L, RL, rfl⟩ := S'
  obtain ⟨ct, c1000, hc⟩ := countTick_eq k
  rw [hc]
  unfold Kernel.tickSleepers
  split
  · exact RingKept.of_same ⟨L, RL, rfl⟩ I R rfl rfl rfl I.defers I.nextsem
  · next he =>
    have hne : L.ids sleepq ≠ [] := by
      intro hnil
      exact he ((Sim.isempty_iff (k := k) ⟨L, RL, rfl⟩ isHead_sleepq).mpr hnil)
    have S₁ : Sim (Kernel.setQueues { k.note .tick with clktime := ct, count1000 := c1000 }
        (QueueOps.decFirst k.queuetab sleepq)) { (k.abst L).tickList with clktime := ct, count1000 := c1000 } :=
      ⟨L.decFirst sleepq, RL.decFirst isHead_sleepq hne, rfl⟩
    have I₁ : Inv { (k.abst L).tickList with clktime := ct, count1000 := c1000 } := It.same rfl rfl rfl I.defers I.nextsem
    have R₁ : Ranked { (k.abst L).tickList with clktime := ct, count1000 := c1000 } := Rt.fewer (Fewer.same rfl fun _ => rfl)
    refine RingKept.trans (g := { (k.abst L).tickList with clktime := ct, count1000 := c1000 }) hring ?_
    simp only
    split
    · refine wakeup_ring S₁ I₁ R₁ hd fun p hp => hS p ?_
      rw [← hids]
      exact hp
    · exact ⟨_, S₁, I₁, R₁, rfl⟩

/-- The tick wakes sleepers without a switch, while rescheduling is deferred. -/
theorem Held.tickSleepers {Q : Type} [QueueOps Q] {k : Kernel Q} (hd : 0 < k.ndefers) :
    ∃ a, Held k a k.countTick.tickSleepers := by
  obtain ⟨ct, c1000, hc⟩ := countTick_eq k
  rw [hc]
  unfold Kernel.tickSleepers
  split
  · exact ⟨false, Held.same rfl rfl rfl rfl⟩
  · simp only
    split
    · have h1 : Held k false (Kernel.setQueues { k.note .tick with clktime := ct, count1000 := c1000 }
          (QueueOps.decFirst k.queuetab sleepq)) := Held.same rfl rfl rfl rfl
      have h2 : ∀ k₁ : Kernel Q, 0 < k₁.ndefers → Held k₁ (DeferOp.wakeup.attempts k₁) k₁.wakeup :=
        fun k₁ h => Held.exec h (fun h => nomatch h) fun h => nomatch h
      exact ⟨_, h1.trans (h2 _ (h1.pos hd))⟩
    · exact ⟨false, Held.same rfl rfl rfl rfl⟩

/-- The end of the clock interrupt: the quantum expires, or not. -/
theorem tickPreempt_cases {Q : Type} [QueueOps Q] {k : Kernel Q} (hn : k.ndefers = 1) :
    k.preempt - 1 = 0 ∧ k.tickPreempt.attempt = true ∧
        k.tickPreempt.deferStop = { k with preempt := QUANTUM, attempt := true, ndefers := 0 }.resched ∨
      k.preempt - 1 ≠ 0 ∧ (k.tickPreempt.attempt = false →
        k.tickPreempt.deferStop = { k with preempt := k.preempt - 1, ndefers := 0 }) := by
  unfold Kernel.tickPreempt
  by_cases h0 : k.preempt - 1 = 0
  · have hd : 0 < ({ k with preempt := QUANTUM } : Kernel Q).ndefers := by
      simp only [hn]
      decide
    refine Or.inl ⟨h0, ?_⟩
    simp only [if_pos h0]
    rw [resched_deferred hd]
    exact ⟨rfl, deferStop_last _ hn⟩
  · refine Or.inr ⟨h0, fun ha => ?_⟩
    simp only [if_neg h0] at ha ⊢
    refine (deferStop_last { k with preempt := k.preempt - 1 } hn).trans (if_neg ?_)
    rw [ha]
    decide

/-- The clock interrupt, behind the part that wakes processes. -/
theorem clockInterrupt_cases {Q : Type} [QueueOps Q] {k : Kernel Q} (hd : k.ndefers = 0) :
    k.preempt - 1 = 0 ∧ k.deferStart.clkhandler.attempt = true ∧ k.clockInterrupt =
        { k.deferStart.countTick.tickSleepers with preempt := QUANTUM, attempt := true, ndefers := 0 }.resched ∨
      k.preempt - 1 ≠ 0 ∧ (k.deferStart.clkhandler.attempt = false → k.clockInterrupt =
        { k.deferStart.countTick.tickSleepers with preempt := k.preempt - 1, ndefers := 0 }) := by
  have hstart : k.deferStart.ndefers = 1 := by
    simp only [Kernel.deferStart]
    omega
  obtain ⟨a, H⟩ := Held.tickSleepers (k := k.deferStart) (by omega)
  have hp : k.deferStart.countTick.tickSleepers.preempt = k.preempt := H.preempt
  have h := tickPreempt_cases (H.ndefers.trans hstart)
  rw [hp] at h
  exact h

end Clock

end Ring

/-! ## The ring of the queue table -/

section Table

variable {k k' : Kernel QueueTab} {h g : Kernel QLists} {S : Int → Prop} [DecidablePred S] {p : Int}

/-- The ring depends on the queue table only. -/
theorem Sim.ring_eq (S₁ : Sim k h) (S₂ : Sim k g) : h.ring S = g.ring S := by
  obtain ⟨L, R, rfl⟩ := S₁
  obtain ⟨L', R', rfl⟩ := S₂
  have hids : L.ids readylist = L'.ids readylist :=
    (R.toList_eq isHead_readylist).symm.trans (R'.toList_eq isHead_readylist)
  change (L.ids readylist ++ [k.currpid]).filter _ = (L'.ids readylist ++ [k.currpid]).filter _
  rw [hids]

theorem Sim.highest_iff (S' : Sim k h) : k.Highest p ↔ h.Highest p := by
  obtain ⟨L, R, rfl⟩ := S'
  exact Iff.rfl

/-- Rescheduling keeps the processes of the highest priority. -/
theorem Inv.resched_highest (I : Inv h) : h.resched.Highest p ↔ h.Highest p := by
  have hprio : ∀ q, (h.resched.proctab q).prprio = (h.proctab q).prprio := fun q => by rw [I.toInv0.resched_only.proc q]
  simp only [Kernel.Highest, I.toInv0.resched_eligible, hprio]

/-- A rescheduling of the processes in the ring of `h`. -/
theorem RingKept.resched (K : RingKept S h k) (hd : k.ndefers = 0) (hS : ∀ p, S p ↔ k.resched.Highest p) :
    ∃ g rest, Sim k.resched g ∧ h.ring S = k.resched.currpid :: rest ∧ g.ring S = rest ++ [k.resched.currpid] := by
  obtain ⟨g, Sg, I, R, hr⟩ := K
  have S' := Sg.resched I.toInv0
  have hS' : ∀ p, S p ↔ g.Highest p := fun p => ((hS p).trans S'.highest_iff).trans I.resched_highest
  have hcur : k.resched.currpid = g.resched.currpid := by
    obtain ⟨L, _, e⟩ := S'
    rw [e]
    rfl
  have hdg : g.ndefers = 0 := by
    obtain ⟨L, _, e⟩ := Sg
    rw [e]
    exact hd
  obtain ⟨rest, h1, h2⟩ := R.resched_ring I hdg hS'
  refine ⟨g.resched, rest, S', ?_, ?_⟩
  · rw [← hr, h1, hcur]
  · rw [h2, hcur]

/-- Variables of the scheduler are assigned. -/
theorem RingKept.assign (K : RingKept S h k) (x d : Int) (b : Bool) (hd : 0 ≤ d) :
    RingKept S h { k with preempt := x, attempt := b, ndefers := d } := by
  obtain ⟨g, ⟨L, RL, rfl⟩, I, R, hr⟩ := K
  exact RingKept.trans hr (RingKept.of_same ⟨L, RL, rfl⟩ I R rfl rfl rfl hd I.nextsem)

/-- The processes that the clock interrupt wakes are not in `S`. -/
theorem tick_ring (S' : Sim k h) (I : Inv h) (R : Ranked h) (hd : k.ndefers = 0) (hS : ∀ p, S p → h.Eligible p) :
    RingKept S h k.deferStart.countTick.tickSleepers := by
  have I₁ := I.deferStart
  have R₁ : Ranked h.deferStart := R.fewer (Fewer.same rfl fun _ => rfl)
  have hpos : 0 < h.deferStart.ndefers := by
    obtain ⟨L, _, rfl⟩ := S'
    change 0 < k.ndefers + 1
    omega
  refine RingKept.trans (g := h.deferStart) rfl (tickSleepers_ring S'.deferStart I₁ R₁ hpos fun p hp hs => ?_)
  rcases I.eligible_iff.mp (hS p hs) with hm | rfl
  · exact I.ready_not_asleep hm hp
  · exact I.not_mem I.currpid_home _ hp

/-- The clock interrupt at which the quantum expires. -/
theorem tick_selects (S' : Sim k h) (I : Inv h) (R : Ranked h) (hd : k.ndefers = 0) (hS : ∀ p, S p → h.Eligible p)
    (hp : k.preempt - 1 = 0) (hS' : ∀ p, S p ↔ k.clockInterrupt.Highest p) : ∃ g rest, Sim k.clockInterrupt g ∧
      h.ring S = k.clockInterrupt.currpid :: rest ∧ g.ring S = rest ++ [k.clockInterrupt.currpid] := by
  rcases clockInterrupt_cases hd with ⟨_, _, e⟩ | ⟨hne, _⟩
  · rw [e] at hS' ⊢
    exact ((tick_ring S' I R hd hS).assign QUANTUM 0 true (Int.le_refl 0)).resched rfl hS'
  · exact absurd hp hne

/-- The clock interrupt that does not reschedule. -/
theorem tick_keeps (S' : Sim k h) (I : Inv h) (R : Ranked h) (hd : k.ndefers = 0) (hS : ∀ p, S p → h.Eligible p)
    (ha : k.deferStart.clkhandler.attempt = false) : RingKept S h k.clockInterrupt := by
  rcases clockInterrupt_cases hd with ⟨_, ha', _⟩ | ⟨_, e⟩
  · exact absurd (ha.symm.trans ha') (by decide)
  · rw [e ha]
    exact (tick_ring S' I R hd hS).assign _ 0 _ (Int.le_refl 0)

/-- Processes leave the ready list, and `S` is still of processes that are current or ready. -/
theorem ring_shrinks (I : Inv h) (Ig : Inv g) (hc : g.currpid = h.currpid)
    (hl : (g.queuetab.ids readylist).Sublist (h.queuetab.ids readylist)) (hS : ∀ p, S p → g.Eligible p) :
    g.ring S = h.ring S := by
  refine I.ring_sublist hl (fun p hp hs => ?_) hc
  refine (Ig.eligible_iff.mp (hS p hs)).resolve_right ?_
  rw [hc]
  exact Inv0.ready_ne_current I hp

end Table

end Xinu
