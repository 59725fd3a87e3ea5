import Xinu.Kernel.Deferral
import Xinu.Kernel.Defers

/-!
# System calls that do not reschedule

A system call that never calls `resched` leaves the current process, and takes at most one process off a queue (`call_quiet`).
Whether it calls `resched` is what the flag `attempt` tells of the same call while rescheduling is deferred.
-/

namespace Xinu

open Kernel

/-- `k'` has the queues of `k`, and the same process is current. -/
structure Quiet {Q : Type} (k k' : Kernel Q) : Prop where
  currpid : k'.currpid = k.currpid
  queuetab : k'.queuetab = k.queuetab

section Deferred

variable {Q : Type} [QueueOps Q] {k : Kernel Q} {p s : Int}

omit [QueueOps Q] in
theorem Quiet.refl (k : Kernel Q) : Quiet k k := ⟨rfl, rfl⟩

omit [QueueOps Q] in
theorem Quiet.trans {k₁ k₂ : Kernel Q} (a : Quiet k k₁) (b : Quiet k₁ k₂) : Quiet k k₂ :=
  ⟨b.currpid.trans a.currpid, b.queuetab.trans a.queuetab⟩

theorem attempt_resched (hd : 0 < k.ndefers) : k.resched.attempt = true := by
  rw [resched_deferred hd]

/-- `ready` attempts to reschedule for every process. -/
theorem attempt_ready (hd : 0 < k.ndefers) (hb : k.isbadpid p = false) : (k.ready p).2.attempt = true := by
  rw [(Held.ready hd p).attempt, hb, Bool.not_false, Bool.or_true]

/-- An attempt stays recorded. -/
theorem attempt_kept (hd : 0 < k.ndefers) (p : Int) (ha : k.attempt = true) : (k.ready p).2.attempt = true := by
  rw [(Held.ready hd p).attempt, ha, Bool.true_or]

/-- The loop of `semreset` keeps a recorded attempt. -/
theorem resetLoop_attempt {n : Nat} : ∀ {k : Kernel Q}, 0 < k.ndefers → k.attempt = true → (resetLoop s n k).attempt = true := by
  induction n with
  | zero => exact fun _ ha => ha
  | succ n ih =>
    intro k hd ha
    unfold resetLoop
    simp only
    split
    · exact ha
    · have hd' : 0 < ((k.getfirst (squeue s)).2.note (.flushed s (k.getfirst (squeue s)).1)).ndefers := hd
      refine ih ?_ (attempt_kept hd' _ ha)
      rw [ready_ndefers]
      exact hd'

/-- The loop of `semdelete` keeps a recorded attempt. -/
theorem deleteLoop_attempt {n : Nat} : ∀ {k : Kernel Q}, 0 < k.ndefers → k.attempt = true → (deleteLoop s n k).attempt = true := by
  induction n with
  | zero => exact fun _ ha => ha
  | succ n ih =>
    intro k hd ha
    unfold deleteLoop
    simp only
    split
    · generalize hg : (k.setSem s { k.semtab s with scount := int32 ((k.semtab s).scount + 1) }).getfirst (squeue s) = r
      have hd' : 0 < (r.2.note (.flushed s r.1)).ndefers := by
        rw [← hg]
        exact hd
      have ha' : (r.2.note (.flushed s r.1)).attempt = true := by
        rw [← hg]
        exact ha
      refine ih ?_ (attempt_kept hd' _ ha')
      rw [ready_ndefers]
      exact hd'
    · exact ha

omit [QueueOps Q] in
theorem deposit_isbadpid (p : Int) (msg : Nat) : (k.deposit p msg).isbadpid p = k.isbadpid p := by
  simp [isbadpid, Kernel.deposit, Kernel.setProc, Kernel.note]

theorem unsleep_isbadpid (p : Int) : (k.unsleep p).isbadpid p = k.isbadpid p := by
  unfold Kernel.unsleep
  split_ifs <;> rfl

end Deferred

/-! ## Semaphores -/

section Semaphores

variable {k : Kernel QueueTab} {h : Kernel QLists} {s p : Int} {rest : List Int}

/-- A process that waits is not refused by `ready`. -/
theorem Sim.not_bad (S : Sim k h) (I : Inv h) {q : Int} (hl : h.queuetab.ids q = p :: rest) : k.isbadpid p = false := by
  have hm : p ∈ h.queuetab.ids q := hl ▸ List.mem_cons_self
  obtain ⟨L, R, rfl⟩ := S
  exact isbadpid_eq_false.mpr ⟨I.isPid_of_mem hm, (I.state_of_mem hm).1⟩

/-- The increment of `signal` that makes no process ready. -/
theorem signalOne_quiet (S : Sim k h) (I : Inv h) (hs : isbadsem s = false) (ha : k.signalAttempts s = false) :
    k.signalOne s = if (k.semtab s).scount < 0 then (k.raise s).note (.released s EMPTY) else k.raise s := by
  rw [signalOne_eq]
  split
  · next hc =>
    have S' : Sim (k.raise s) (h.raise s) := by
      obtain ⟨L, R, rfl⟩ := S
      exact ⟨L, R, rfl⟩
    rcases hl : h.queuetab.ids (squeue s) with _ | ⟨p, rest⟩
    · rw [S'.dequeue_nil (isHead_squeue hs) hl]
      rfl
    · have hb := S.not_bad I hl
      have hfirst : (QueueOps.dequeue k.queuetab (squeue s)).1 = p := (S.dequeue (isHead_squeue hs) hl).1
      rw [signalAttempts, hfirst, hb, decide_eq_true hc] at ha
      cases ha
  · rfl

/-- The loop of `signaln` that makes no process ready, whether rescheduling is deferred by the caller or not. -/
theorem signalLoop_quiet (hs : isbadsem s = false) {d : Int} {a : Bool} (hd : 0 ≤ d) (n : Nat) :
    ∀ {k : Kernel QueueTab} {h : Kernel QLists}, Sim k h → Inv h →
      signalLoopAttempts s n { k with ndefers := d, attempt := a } = false →
      Quiet k (signalLoop s n k) ∧ (signalLoop s n k).attempt = k.attempt := by
  induction n with
  | zero => exact fun _ _ _ => ⟨Quiet.refl _, rfl⟩
  | succ n ih =>
    intro k h S I ha
    obtain ⟨L, R, rfl⟩ := S
    simp only [signalLoopAttempts, Bool.or_eq_false_iff] at ha
    have hone := signalOne_quiet (k := k) ⟨L, R, rfl⟩ I hs ha.1
    have I' : Inv ({ k with ndefers := d, attempt := a }.abst L) := I.same rfl rfl rfl hd I.nextsem
    have hone' := signalOne_quiet (k := { k with ndefers := d, attempt := a }) ⟨L, R, rfl⟩ I' hs ha.1
    have hrest := ha.2
    rw [hone'] at hrest
    rw [signalLoop, hone]
    by_cases hc : (k.semtab s).scount < 0
    · have hc' : (({ k with ndefers := d, attempt := a } : Kernel QueueTab).semtab s).scount < 0 := hc
      rw [if_pos hc'] at hrest
      rw [if_pos hc]
      obtain ⟨q, e⟩ := ih (k := (k.raise s).note (.released s EMPTY)) ⟨L, R, rfl⟩
        (I.same rfl rfl rfl I.defers I.nextsem) hrest
      exact ⟨⟨q.currpid, q.queuetab⟩, e⟩
    · have hc' : ¬(({ k with ndefers := d, attempt := a } : Kernel QueueTab).semtab s).scount < 0 := hc
      rw [if_neg hc'] at hrest
      rw [if_neg hc]
      obtain ⟨q, e⟩ := ih (k := k.raise s) ⟨L, R, rfl⟩ (I.same rfl rfl rfl I.defers I.nextsem) hrest
      exact ⟨⟨q.currpid, q.queuetab⟩, e⟩

/-- The loop of `semreset` with no process on the queue. -/
theorem resetLoop_empty (S : Sim k h) (hs : isbadsem s = false) (hl : h.queuetab.ids (squeue s) = []) (n : Nat) :
    resetLoop s (n + 1) k = k := by
  unfold resetLoop
  rw [S.getfirst_nil (isHead_squeue hs) hl]
  rfl

/-- The loop of `semreset` attempts to reschedule if a process waits. -/
theorem resetLoop_flushes (S : Sim k h) (I : Inv h) (hs : isbadsem s = false) (hd : 0 < k.ndefers)
    (hl : h.queuetab.ids (squeue s) = p :: rest) (n : Nat) : (resetLoop s (n + 1) k).attempt = true := by
  have hb := S.not_bad I hl
  have hne : p ≠ EMPTY := by
    rintro rfl
    cases hb
  unfold resetLoop
  simp only [(S.getfirst (isHead_squeue hs) hl).1, if_neg hne]
  refine resetLoop_attempt ?_ (attempt_ready hd hb)
  rw [ready_ndefers]
  exact hd

/-- The loop of `semdelete` with no process on the queue. -/
theorem deleteLoop_empty (hs : isbadsem s = false) (n : Nat) : ∀ {k : Kernel QueueTab} {h : Kernel QLists}, Sim k h →
    h.queuetab.ids (squeue s) = [] → Quiet k (deleteLoop s n k) ∧ (deleteLoop s n k).attempt = k.attempt := by
  induction n with
  | zero => exact fun _ _ => ⟨Quiet.refl _, rfl⟩
  | succ n ih =>
    intro k h S hl
    obtain ⟨L, R, rfl⟩ := S
    have S₁ : Sim (k.setSem s { k.semtab s with scount := int32 ((k.semtab s).scount + 1) })
        ((k.setSem s { k.semtab s with scount := int32 ((k.semtab s).scount + 1) }).abst L) := ⟨L, R, rfl⟩
    unfold deleteLoop
    simp only
    split
    · rw [S₁.getfirst_nil (isHead_squeue hs) hl]
      simp only [ready_empty]
      obtain ⟨q, e⟩ := ih (k := (k.setSem s { k.semtab s with scount := int32 ((k.semtab s).scount + 1) }).note (.flushed s EMPTY))
        ⟨L, R, rfl⟩ hl
      exact ⟨⟨q.currpid, q.queuetab⟩, e⟩
    · exact ⟨⟨rfl, rfl⟩, rfl⟩

/-- The loop of `semdelete` attempts to reschedule if a process waits. -/
theorem deleteLoop_flushes (S : Sim k h) (I : Inv h) (hs : isbadsem s = false) (hd : 0 < k.ndefers)
    (hl : h.queuetab.ids (squeue s) = p :: rest) (hc : (k.semtab s).scount < 0) (n : Nat) :
    (deleteLoop s (n + 1) k).attempt = true := by
  have hb := S.not_bad I hl
  obtain ⟨L, R, rfl⟩ := S
  have S₁ : Sim (k.setSem s { k.semtab s with scount := int32 ((k.semtab s).scount + 1) })
      ((k.setSem s { k.semtab s with scount := int32 ((k.semtab s).scount + 1) }).abst L) := ⟨L, R, rfl⟩
  unfold deleteLoop
  simp only [if_pos hc, (S₁.getfirst (isHead_squeue hs) hl).1]
  refine deleteLoop_attempt ?_ (attempt_ready hd hb)
  rw [ready_ndefers]
  exact hd

end Semaphores

/-! ## System calls -/

section Calls

variable {k : Kernel QueueTab} {h : Kernel QLists} {s p : Int} {rest : List Int}

/-- No process is current but that of `k`, and none comes onto the ready list. -/
structure Shrinks (k k' : Kernel QueueTab) : Prop where
  currpid : k'.currpid = k.currpid
  list : (k'.queuetab.toList readylist).Sublist (k.queuetab.toList readylist)

/-- The same fact about the lists: the ready list is a part of what it was. -/
theorem Shrinks.lists {k' : Kernel QueueTab} {g : Kernel QLists} (sh : Shrinks k k') (S : Sim k h) (S' : Sim k' g) :
    g.currpid = h.currpid ∧ (g.queuetab.ids readylist).Sublist (h.queuetab.ids readylist) := by
  obtain ⟨L, R, rfl⟩ := S
  obtain ⟨L', R', rfl⟩ := S'
  have hl := sh.list
  rw [R.toList_eq isHead_readylist, R'.toList_eq isHead_readylist] at hl
  exact ⟨sh.currpid, hl⟩

theorem Quiet.shrinks {k' : Kernel QueueTab} (q : Quiet k k') : Shrinks k k' :=
  ⟨q.currpid, by rw [q.queuetab]⟩

theorem ready_quiet (hd : 0 < k.deferStart.ndefers) (ha : (k.deferStart.ready p).2.attempt = false) : (k.ready p).2 = k := by
  by_cases hb : k.isbadpid p = true
  · rw [Kernel.ready, if_pos hb]
  · rw [attempt_ready hd (eq_false_of_ne_true hb)] at ha
    cases ha

/-- A `resume` that does not attempt to reschedule finds no suspended process. -/
theorem resume_quiet (hd : 0 < k.deferStart.ndefers) (ha : (k.deferStart.resume p).1.attempt = false) : (k.resume p).1 = k := by
  unfold Kernel.resume at ha ⊢
  by_cases hb : k.isbadpid p = true
  · rw [if_pos hb]
  by_cases hs : (k.proctab p).prstate ≠ .PR_SUSP
  · rw [if_neg hb, if_pos hs]
  have hb' : ¬k.deferStart.isbadpid p = true := hb
  have hs' : ¬(k.deferStart.proctab p).prstate ≠ .PR_SUSP := hs
  rw [if_neg hb', if_neg hs'] at ha
  rw [if_neg hb, if_neg hs]
  exact ready_quiet hd ha

/-- A `suspend` that does not attempt to reschedule takes a process off the ready list, or fails. -/
theorem suspend_quiet (S : Sim k h) (I : Inv h) (hd : 0 < k.deferStart.ndefers)
    (ha : (k.deferStart.suspend p).1.attempt = false) : Shrinks k (k.suspend p).1 := by
  unfold Kernel.suspend at ha ⊢
  by_cases hb : (k.isbadpid p || decide (p = NULLPROC)) = true
  · rw [if_pos hb]
    exact (Quiet.refl k).shrinks
  have hb' : ¬(k.deferStart.isbadpid p || decide (p = NULLPROC)) = true := hb
  rw [if_neg hb'] at ha
  rw [if_neg hb]
  cases hs : (k.proctab p).prstate with
  | PR_READY =>
    obtain ⟨L, R, rfl⟩ := S
    have hm : p ∈ L.ids readylist := (I.mem p readylist).mpr (by
      change homeOf (k.proctab p) = _
      rw [homeOf, hs])
    have R' : Rep ((k.getitem p).setState p .PR_SUSP).queuetab (L.getitem p) := R.getitem hm
    refine ⟨rfl, ?_⟩
    simp only
    rw [R'.toList_eq isHead_readylist, R.toList_eq isHead_readylist]
    exact List.erase_sublist
  | PR_CURR =>
    have hs' : (k.deferStart.proctab p).prstate = .PR_CURR := hs
    have h1 := attempt_resched (k := k.deferStart.setState p .PR_SUSP) hd
    simp only [hs'] at ha
    rw [h1] at ha
    cases ha
  | _ => exact (Quiet.refl k).shrinks

/-- A `send` that does not attempt to reschedule wakes nobody. -/
theorem send_quiet {msg : Nat} (hd : 0 < k.deferStart.ndefers) (ha : (k.deferStart.send p msg).1.attempt = false) :
    Quiet k (k.send p msg).1 := by
  by_cases hb : k.isbadpid p = true
  · rw [Kernel.send, if_pos hb]
    exact Quiet.refl k
  by_cases hm : (k.proctab p).prhasmsg = true
  · rw [Kernel.send, if_neg hb, if_pos hm]
    exact Quiet.refl k
  have hb' : ¬k.deferStart.isbadpid p = true := hb
  have hm' : ¬(k.deferStart.proctab p).prhasmsg = true := hm
  have hbad : (k.deferStart.deposit p (msg % 4294967296)).isbadpid p = false :=
    (deposit_isbadpid p _).trans (eq_false_of_ne_true hb')
  rw [Kernel.send, if_neg hb, if_neg hm]
  cases hs : (k.proctab p).prstate with
  | PR_RECV =>
    have hs' : (k.deferStart.proctab p).prstate = .PR_RECV := hs
    have hsend : (k.deferStart.send p msg).1 = ((k.deferStart.deposit p (msg % 4294967296)).ready p).2 := by
      rw [Kernel.send, if_neg hb', if_neg hm', Kernel.deposit]
      simp only [hs']
    rw [hsend, attempt_ready (k := k.deferStart.deposit p (msg % 4294967296)) hd hbad] at ha
    cases ha
  | PR_RECTIM =>
    have hs' : (k.deferStart.proctab p).prstate = .PR_RECTIM := hs
    have hsend : (k.deferStart.send p msg).1 = (((k.deferStart.deposit p (msg % 4294967296)).unsleep p).ready p).2 := by
      rw [Kernel.send, if_neg hb', if_neg hm', Kernel.deposit]
      simp only [hs']
    rw [hsend, attempt_ready (by rw [unsleep_ndefers]; exact hd) ((unsleep_isbadpid p).trans hbad)] at ha
    cases ha
  | _ => exact ⟨rfl, rfl⟩

/-- The end of a deferral in which nothing attempted to reschedule. -/
theorem deferStop_quiet {Q : Type} [QueueOps Q] {k : Kernel Q} (hn : k.ndefers = 1) (ha : k.attempt = false) :
    Quiet k k.deferStop := by
  rw [deferStop_last _ hn, ha]
  exact ⟨rfl, rfl⟩

theorem deferStart_attempt {Q : Type} {k : Kernel Q} (hd : k.ndefers = 0) : k.deferStart.attempt = false := if_pos hd

theorem deferStart_ndefers {Q : Type} {k : Kernel Q} (hd : k.ndefers = 0) : k.deferStart.ndefers = 1 := by
  simp only [Kernel.deferStart]
  omega

theorem deferStart_twice {Q : Type} {k : Kernel Q} (hd : k.ndefers = 0) : k.deferStart.deferStart.ndefers = 2 := by
  simp only [Kernel.deferStart]
  omega

/-- A `wait` that does not attempt to reschedule does not block. -/
theorem wait_quiet (hd : 0 < k.deferStart.ndefers) (ha : (k.deferStart.wait s).1.attempt = false) : Quiet k (k.wait s).1 := by
  unfold Kernel.wait at ha ⊢
  by_cases hs : isbadsem s = true
  · rw [if_pos hs]
    exact Quiet.refl k
  by_cases hu : (k.semtab s).sstate = .S_FREE
  · rw [if_neg hs, if_pos hu]
    exact Quiet.refl k
  by_cases hc : int32 ((k.semtab s).scount - 1) < 0
  · have hu' : ¬(k.deferStart.semtab s).sstate = .S_FREE := hu
    have hc' : int32 ((k.deferStart.semtab s).scount - 1) < 0 := hc
    rw [if_neg hs, if_neg hu'] at ha
    simp only [if_pos hc'] at ha
    rw [attempt_resched] at ha
    · cases ha
    · change 0 < (Kernel.enqueue _ _ _).2.ndefers
      rw [enqueue_ndefers]
      exact hd
  · rw [if_neg hs, if_neg hu]
    simp only [if_neg hc]
    exact ⟨rfl, rfl⟩

/-- A `signal` that does not attempt to reschedule releases nobody. -/
theorem signal_quiet (S : Sim k h) (I : Inv h) (hd : 0 < k.deferStart.ndefers)
    (ha : (k.deferStart.signal s).1.attempt = false) : Quiet k (k.signal s).1 := by
  unfold Kernel.signal at ha ⊢
  by_cases hs : isbadsem s = true
  · rw [if_pos hs]
    exact Quiet.refl k
  by_cases hu : (k.semtab s).sstate = .S_FREE
  · rw [if_neg hs, if_pos hu]
    exact Quiet.refl k
  have hu' : ¬(k.deferStart.semtab s).sstate = .S_FREE := hu
  rw [if_neg hs, if_neg hu'] at ha
  have H := (Held.signalOne hd s).attempt
  have hq : k.signalAttempts s = false := (Bool.or_eq_false_iff.mp (H.symm.trans ha)).2
  rw [if_neg hs, if_neg hu]
  simp only [signalOne_quiet S I (eq_false_of_ne_true hs) hq]
  split <;> exact ⟨rfl, rfl⟩

/-- A `signaln` that does not attempt to reschedule releases nobody. -/
theorem signaln_quiet {n : Int} (S : Sim k h) (I : Inv h) (hd : k.ndefers = 0)
    (ha : (k.deferStart.signaln s n).1.attempt = false) : Quiet k (k.signaln s n).1 := by
  unfold Kernel.signaln at ha ⊢
  simp only at ha ⊢
  by_cases hs : (isbadsem s || decide (int32 n < 0)) = true
  · rw [if_pos hs]
    exact Quiet.refl k
  by_cases hu : (k.semtab s).sstate = .S_FREE
  · rw [if_neg hs, if_pos hu]
    exact Quiet.refl k
  have hu' : ¬(k.deferStart.semtab s).sstate = .S_FREE := hu
  rw [if_neg hs, if_neg hu'] at ha
  rw [if_neg hs, if_neg hu]
  have hbad : isbadsem s = false := (Bool.or_eq_false_iff.mp (eq_false_of_ne_true hs)).1
  have htwice := deferStart_twice hd
  have hn : 1 < (signalLoop s (int32 n).toNat k.deferStart.deferStart).ndefers := by
    rw [signalLoop_ndefers, htwice]
    decide
  simp only [deferStop_inner _ hn] at ha
  have H := (Held.signalLoop (k := k.deferStart.deferStart) (by omega) s (int32 n).toNat).attempt
  rw [ha] at H
  have hq : signalLoopAttempts s (int32 n).toNat k.deferStart.deferStart = false := (Bool.or_eq_false_iff.mp H.symm).2
  have I' := I.deferStart
  obtain ⟨q, e⟩ := signalLoop_quiet (d := k.deferStart.deferStart.ndefers) (a := k.deferStart.deferStart.attempt) hbad
    (by omega) (int32 n).toNat S.deferStart I' hq
  have q' : Quiet k (signalLoop s (int32 n).toNat k.deferStart) := ⟨q.currpid, q.queuetab⟩
  exact q'.trans (deferStop_quiet ((signalLoop_ndefers _ _ _).trans (deferStart_ndefers hd)) (e.trans (deferStart_attempt hd)))

/-- A `semreset` that does not attempt to reschedule releases nobody. -/
theorem semreset_quiet {n : Int} (S : Sim k h) (I : Inv h) (hd : k.ndefers = 0)
    (ha : (k.deferStart.semreset s n).1.attempt = false) : Quiet k (k.semreset s n).1 := by
  unfold Kernel.semreset at ha ⊢
  simp only at ha ⊢
  by_cases hs : (decide (int32 n < 0) || isbadsem s || decide ((k.semtab s).sstate = .S_FREE)) = true
  · rw [if_pos hs]
    exact Quiet.refl k
  have hs' : ¬(decide (int32 n < 0) || isbadsem s || decide ((k.deferStart.semtab s).sstate = .S_FREE)) = true := hs
  rw [if_neg hs'] at ha
  rw [if_neg hs]
  have hbad : isbadsem s = false := (Bool.or_eq_false_iff.mp (Bool.or_eq_false_iff.mp (eq_false_of_ne_true hs)).1).2
  have htwice := deferStart_twice hd
  rcases hl : h.queuetab.ids (squeue s) with _ | ⟨p, rest⟩
  · rw [resetLoop_empty S.deferStart hbad hl]
    have q : Quiet k ((k.deferStart.setSem s { k.deferStart.semtab s with scount := int32 n }).note (.semwasreset s (int32 n))) :=
      ⟨rfl, rfl⟩
    exact q.trans (deferStop_quiet (deferStart_ndefers hd) (deferStart_attempt hd))
  · have I₁ := I.deferStart
    have I₂ := I₁.deferStart
    have h1 := resetLoop_flushes S.deferStart.deferStart I₂ hbad (by omega) hl NPROC.toNat
    have hn : 1 < (resetLoop s (NPROC.toNat + 1) k.deferStart.deferStart).ndefers := by
      rw [resetLoop_ndefers, htwice]
      decide
    rw [deferStop_inner] at ha
    · exact absurd (ha.symm.trans h1) (by decide)
    · exact hn

/-- `semdelete` makes the first process ready that waits. -/
theorem semdelete_attempts (S : Sim k h) (I : Inv h) (hd : k.ndefers = 0) (hs : isbadsem s = false)
    (hu : (k.semtab s).sstate ≠ .S_FREE) (hl : h.queuetab.ids (squeue s) = p :: rest) (hc : (k.semtab s).scount < 0) :
    (k.deferStart.semdelete s).1.attempt = true := by
  have htwice := deferStart_twice hd
  have hs' : ¬isbadsem s = true := by rw [hs]; decide
  have hu' : ¬(k.deferStart.semtab s).sstate = .S_FREE := hu
  have S₁ : Sim (k.deferStart.setSem s { k.semtab s with sstate := .S_FREE }).deferStart
      (h.deferStart.setSem s { k.semtab s with sstate := .S_FREE }).deferStart := by
    obtain ⟨L, R, rfl⟩ := S
    exact ⟨L, R, rfl⟩
  have I₁ : Inv (h.deferStart.setSem s { k.semtab s with sstate := .S_FREE }) :=
    I.deferStart.same rfl rfl rfl I.deferStart.defers I.nextsem
  have hc' : ((k.deferStart.setSem s { k.semtab s with sstate := .S_FREE }).deferStart.semtab s).scount < 0 := by
    simpa [Kernel.setSem, Kernel.deferStart] using hc
  have hpos : 0 < (k.deferStart.setSem s { k.semtab s with sstate := .S_FREE }).deferStart.ndefers := by
    change 0 < k.deferStart.deferStart.ndefers
    omega
  have h1 := deleteLoop_flushes S₁ I₁.deferStart hs hpos hl hc' (-(k.semtab s).scount).toNat
  have hn : 1 < (deleteLoop s ((-(k.semtab s).scount).toNat + 1)
      (k.deferStart.setSem s { k.semtab s with sstate := .S_FREE }).deferStart).ndefers := by
    rw [deleteLoop_ndefers]
    change 1 < k.deferStart.deferStart.ndefers
    omega
  rw [Kernel.semdelete, if_neg hs', if_neg hu']
  simp only
  rw [deferStop_inner]
  · exact h1
  · exact hn

/-- A `semdelete` that does not attempt to reschedule finds nobody on the queue. -/
theorem semdelete_quiet (S : Sim k h) (I : Inv h) (hd : k.ndefers = 0)
    (ha : (k.deferStart.semdelete s).1.attempt = false) : Quiet k (k.semdelete s).1 := by
  by_cases hs : isbadsem s = true
  · rw [Kernel.semdelete, if_pos hs]
    exact Quiet.refl k
  by_cases hu : (k.semtab s).sstate = .S_FREE
  · rw [Kernel.semdelete, if_neg hs, if_pos hu]
    exact Quiet.refl k
  rw [Kernel.semdelete, if_neg hs, if_neg hu]
  simp only
  have hbad := eq_false_of_ne_true hs
  have S₁ : Sim (k.setSem s { k.semtab s with sstate := .S_FREE }) (h.setSem s { k.semtab s with sstate := .S_FREE }) := by
    obtain ⟨L, R, rfl⟩ := S
    exact ⟨L, R, rfl⟩
  obtain ⟨q, e⟩ : Quiet k (deleteLoop s ((-(k.semtab s).scount).toNat + 1)
      (k.setSem s { k.semtab s with sstate := .S_FREE }).deferStart) ∧
      (deleteLoop s ((-(k.semtab s).scount).toNat + 1) (k.setSem s { k.semtab s with sstate := .S_FREE }).deferStart).attempt =
        (k.setSem s { k.semtab s with sstate := .S_FREE }).deferStart.attempt := by
    rcases hl : h.queuetab.ids (squeue s) with _ | ⟨p, rest⟩
    · obtain ⟨q, e⟩ := deleteLoop_empty hbad ((-(k.semtab s).scount).toNat + 1) S₁.deferStart hl
      exact ⟨⟨q.currpid, q.queuetab⟩, e⟩
    · by_cases hc : (k.semtab s).scount < 0
      · exact absurd (ha.symm.trans (semdelete_attempts S I hd hbad hu hl hc)) (by decide)
      · have hc' : ¬((k.setSem s { k.semtab s with sstate := .S_FREE }).deferStart.semtab s).scount < 0 := by
          simpa [Kernel.setSem, Kernel.deferStart] using hc
        unfold deleteLoop
        simp only [if_neg hc']
        exact ⟨⟨rfl, rfl⟩, rfl⟩
  have q' : Quiet k ((deleteLoop s ((-(k.semtab s).scount).toNat + 1)
      (k.setSem s { k.semtab s with sstate := .S_FREE }).deferStart).note (.semdeleted s)) := ⟨q.currpid, q.queuetab⟩
  exact q'.trans (deferStop_quiet ((deleteLoop_ndefers _ _ _).trans (deferStart_ndefers hd)) (e.trans (deferStart_attempt hd)))

/-- A `kill` that does not attempt to reschedule wakes nobody with its notice to the parent. -/
theorem kill_quiet (hd : 0 < k.deferStart.ndefers) (ha : (k.deferStart.kill p).1.attempt = false) : Quiet k (k.kill p).1 := by
  unfold Kernel.kill at ha ⊢
  by_cases hb : (k.isbadpid p || decide (p = NULLPROC) || decide ((k.proctab p).prstate = .PR_FREE)) = true
  · rw [if_pos hb]
    exact Quiet.refl k
  have hb' : ¬(k.deferStart.isbadpid p || decide (p = NULLPROC) || decide ((k.deferStart.proctab p).prstate = .PR_FREE)) = true :=
    hb
  rw [if_neg hb'] at ha
  rw [if_neg hb]
  by_cases hc : k.prcount - 1 ≤ 1
  · have q : Quiet k { { k with prcount := k.prcount - 1 }.note (.killing p) with status := .done } := ⟨rfl, rfl⟩
    exact (congrArg (fun x : Kernel QueueTab × Resume => Quiet k x.1) (if_pos hc)).mpr q
  · have hc' : ¬({ k.deferStart with prcount := k.deferStart.prcount - 1 }.note (.killing p)).prcount ≤ 1 := hc
    have hc'' : ¬({ k with prcount := k.prcount - 1 }.note (.killing p)).prcount ≤ 1 := hc
    simp only [if_neg hc'] at ha
    simp only [if_neg hc'']
    have q : Quiet ({ k with prcount := k.prcount - 1 }.note (.killing p))
        (({ k with prcount := k.prcount - 1 }.note (.killing p)).send (k.proctab p).prparent p.toNat).1 := send_quiet hd ha
    exact ⟨q.currpid, q.queuetab⟩

/-- A `receive` that does not attempt to reschedule finds a message. -/
theorem receive_quiet (hd : 0 < k.deferStart.ndefers) (ha : k.deferStart.receive.1.attempt = false) : Quiet k k.receive.1 := by
  unfold Kernel.receive at ha ⊢
  by_cases hm : (k.proctab k.currpid).prhasmsg = true
  · rw [if_pos hm]
    exact Quiet.refl k
  have hm' : ¬(k.deferStart.proctab k.deferStart.currpid).prhasmsg = true := hm
  have h1 := attempt_resched (k := k.deferStart.setState k.deferStart.currpid .PR_RECV) hd
  rw [if_neg hm'] at ha
  exact absurd (ha.symm.trans h1) (by decide)

/-- A `recvtime` that does not attempt to reschedule finds a message, or fails. -/
theorem recvtime_quiet {d : Int} (S : Sim k h) (I : Inv h) (hd : 0 < k.deferStart.ndefers)
    (ha : (k.deferStart.recvtime d).1.attempt = false) : Quiet k (k.recvtime d).1 := by
  have I' := I.deferStart
  unfold Kernel.recvtime at ha ⊢
  simp only at ha ⊢
  by_cases hneg : int32 d < 0
  · rw [if_pos hneg]
    exact Quiet.refl k
  by_cases hm : (k.proctab k.currpid).prhasmsg = true
  · rw [if_neg hneg, if_pos hm]
    exact Quiet.refl k
  have hm' : ¬(k.deferStart.proctab k.deferStart.currpid).prhasmsg = true := hm
  have h1 := attempt_resched (k := k.deferStart.sleepFor .PR_RECTIM (int32 d)) hd
  rw [if_neg hneg, if_neg hm', insertd_current I' S.deferStart] at ha
  exact absurd (ha.symm.trans h1) (by decide)

/-- A `sleepms` that does not attempt to reschedule fails. -/
theorem sleepms_quiet {d : Int} (S : Sim k h) (I : Inv h) (hd : 0 < k.deferStart.ndefers)
    (ha : (k.deferStart.sleepms d).1.attempt = false) : Quiet k (k.sleepms d).1 := by
  have I' := I.deferStart
  unfold Kernel.sleepms at ha ⊢
  simp only at ha ⊢
  by_cases hneg : int32 d < 0
  · rw [if_pos hneg]
    exact Quiet.refl k
  by_cases hz : int32 d = 0
  · have h1 := attempt_resched (k := k.deferStart) hd
    rw [if_neg hneg, if_pos hz] at ha
    exact absurd (ha.symm.trans h1) (by decide)
  · have h1 := attempt_resched (k := k.deferStart.sleepFor .PR_SLEEP (int32 d)) hd
    rw [if_neg hneg, if_neg hz, insertd_current I' S.deferStart] at ha
    exact absurd (ha.symm.trans h1) (by decide)

/-- A system call that does not call `resched`. -/
theorem call_quiet (S : Sim k h) (I : Inv h) (hd : k.ndefers = 0) (c : Call) (ha : (k.deferStart.call c).1.attempt = false) :
    Shrinks k (k.call c).1 := by
  have hpos : 0 < k.deferStart.ndefers := by
    rw [deferStart_ndefers hd]
    decide
  cases c with
  | create ssize priority =>
    change Shrinks k (k.create ssize priority).1
    rcases create_cases k ssize priority with ⟨np, e⟩ | ⟨saddr, heap, pid, np, _, _, _, e⟩
    · rw [e]
      exact Quiet.shrinks ⟨rfl, rfl⟩
    · rw [e]
      exact Quiet.shrinks ⟨rfl, rfl⟩
  | resume p =>
    change Shrinks k (k.resume p).1
    rw [resume_quiet hpos ha]
    exact (Quiet.refl k).shrinks
  | suspend p => exact suspend_quiet S I hpos ha
  | ready p =>
    change Shrinks k (k.ready p).2
    rw [ready_quiet hpos ha]
    exact (Quiet.refl k).shrinks
  | resched | yield =>
    have h1 := attempt_resched (k := k.deferStart) hpos
    exact absurd (ha.symm.trans h1) (by decide)
  | kill p => exact (kill_quiet hpos ha).shrinks
  | wait s => exact (wait_quiet hpos ha).shrinks
  | signal s => exact (signal_quiet S I hpos ha).shrinks
  | signaln s n => exact (signaln_quiet S I hd ha).shrinks
  | semcreate n =>
    change Shrinks k (k.semcreate n).1
    unfold Kernel.semcreate
    simp only
    split
    · exact (Quiet.refl k).shrinks
    · split <;> exact Quiet.shrinks ⟨rfl, rfl⟩
  | semreset s n => exact (semreset_quiet S I hd ha).shrinks
  | semdelete s => exact (semdelete_quiet S I hd ha).shrinks
  | semcount s =>
    change Shrinks k (k.semcount s).1
    unfold Kernel.semcount
    split <;> exact (Quiet.refl k).shrinks
  | send p msg => exact (send_quiet hpos ha).shrinks
  | receive => exact (receive_quiet hpos ha).shrinks
  | recvtime d => exact (recvtime_quiet S I hpos ha).shrinks
  | recvclr =>
    change Shrinks k k.recvclr.1
    unfold Kernel.recvclr
    split <;> exact Quiet.shrinks ⟨rfl, rfl⟩
  | sleepms d => exact (sleepms_quiet S I hpos ha).shrinks
  | chprio p prio =>
    change Shrinks k (k.chprio p prio).1
    unfold Kernel.chprio
    split <;> exact Quiet.shrinks ⟨rfl, rfl⟩
  | getmem n =>
    simp only [Kernel.call]
    rcases k.heap.getmem (n % 4294967296) with ⟨_ | a, heap⟩ <;> exact Quiet.shrinks ⟨rfl, rfl⟩
  | freemem a n => exact Quiet.shrinks ⟨rfl, rfl⟩

/-- The last part of `kill`, if it does not call `resched`. -/
theorem killEnd_quiet {g : Kernel QLists} (S : Sim k h) (I : Inv h) (hd : 0 < k.deferStart.ndefers)
    (a : Act (h.freeStack p) (.killed p) g) (ha : (k.deferStart.killEnd p).attempt = false) :
    g.currpid = h.currpid ∧ (g.queuetab.ids readylist).Sublist (h.queuetab.ids readylist) := by
  have I' : Inv (h.freeStack p) := (Act.plain (Change.stkfreed p)).inv I
  cases a with
  | plain c =>
    refine ⟨(c.deferral.resolve_left (by decide)).1, ?_⟩
    exact ((c.ready_list I' rfl).resolve_right fun e => absurd e.1 (by decide)).ids
  | sched c =>
    have hself : (h.proctab p).prstate = .PR_CURR := by
      have hcur : p = (h.freeStack p).currpid := by
        generalize h.freeStack p = h₁ at c
        cases c
        rfl
      have hrun := I.running
      rwa [show h.currpid = p from hcur.symm] at hrun
    have hst : ((k.deferStart.freeStack p).proctab p).prstate = .PR_CURR := by
      obtain ⟨L, R, rfl⟩ := S
      exact hself
    have h1 := attempt_resched (k := (k.deferStart.freeStack p).release p) hd
    unfold Kernel.killEnd Kernel.killSwitch at ha
    simp only [hst] at ha
    exact absurd (ha.symm.trans h1) (by decide)

end Calls

end Xinu
