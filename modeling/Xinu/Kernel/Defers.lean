import Xinu.Kernel.Clock

/-!
# What every system call leaves

A system call ends the deferral of rescheduling that it starts, keeps the counts of the semaphores above the smallest integer,
and goes on as `kill` only when it is one.
-/

namespace Xinu

open Kernel

/-! ## Deferral ends with the call that starts it -/

section Defers

variable {Q : Type} [QueueOps Q] (k : Kernel Q)

/-- The end of a deferral takes one off the depth, and does not reschedule before the depth is zero. -/
theorem deferStop_ndefers (h : 0 < k.ndefers) : k.deferStop.ndefers = k.ndefers - 1 := by
  unfold Kernel.deferStop
  rw [if_neg (by omega)]
  simp only
  split
  · rw [resched_ndefers]
  · rfl

/-- What is done under a deferral that ends leaves the depth as it was. -/
theorem deferred_ndefers (h : 0 ≤ k.ndefers) {k' : Kernel Q} (h' : k'.ndefers = k.deferStart.ndefers) :
    k'.deferStop.ndefers = k.ndefers := by
  have h1 : k.deferStart.ndefers = k.ndefers + 1 := rfl
  rw [deferStop_ndefers _ (by omega), h', h1]
  omega

theorem unsleep_ndefers (p : Int) : (k.unsleep p).ndefers = k.ndefers := by
  unfold Kernel.unsleep
  split_ifs <;> rfl

/-- Sending restores the depth that it found. -/
theorem send_ndefers (p : Int) (msg : Nat) : (k.send p msg).1.ndefers = k.ndefers := by
  unfold Kernel.send
  split_ifs
  · rfl
  · rfl
  · simp only
    split
    · exact ready_ndefers _ _
    · exact (ready_ndefers _ _).trans (unsleep_ndefers _ _)
    · rfl

theorem insertd_ndefers (p q key : Int) : (k.insertd p q key).2.ndefers = k.ndefers := by
  unfold Kernel.insertd
  split <;> rfl

theorem enqueue_ndefers (p q : Int) : (k.enqueue p q).2.ndefers = k.ndefers := by
  unfold Kernel.enqueue
  split <;> rfl

theorem signalOne_ndefers (s : Int) : (k.signalOne s).ndefers = k.ndefers := by
  unfold Kernel.signalOne
  simp only
  split
  · exact ready_ndefers _ _
  · rfl

theorem signalLoop_ndefers (s : Int) (n : Nat) : (signalLoop s n k).ndefers = k.ndefers := by
  induction n generalizing k with
  | zero => rfl
  | succ n ih => exact (ih _).trans (signalOne_ndefers k s)

/-- The loop of `semreset` makes processes ready, and leaves the depth to its caller. -/
theorem resetLoop_ndefers (s : Int) (n : Nat) : (resetLoop s n k).ndefers = k.ndefers := by
  induction n generalizing k with
  | zero => rfl
  | succ n ih =>
    unfold resetLoop
    simp only
    split
    · rfl
    · exact (ih _).trans (ready_ndefers _ _)

/-- Once more for `semdelete`, whose loop counts up to zero. -/
theorem deleteLoop_ndefers (s : Int) (n : Nat) : (deleteLoop s n k).ndefers = k.ndefers := by
  induction n generalizing k with
  | zero => rfl
  | succ n ih =>
    unfold deleteLoop
    simp only
    split
    · exact (ih _).trans (ready_ndefers _ _)
    · rfl

/-- Waking processes leaves the depth alone. -/
theorem wakeupLoop_ndefers (n : Nat) : (wakeupLoop n k).ndefers = k.ndefers := by
  induction n generalizing k with
  | zero => rfl
  | succ n ih =>
    unfold wakeupLoop
    split
    · exact (ih _).trans (ready_ndefers _ _)
    · rfl

theorem wakeup_ndefers (h : 0 ≤ k.ndefers) : k.wakeup.ndefers = k.ndefers :=
  deferred_ndefers _ h (wakeupLoop_ndefers _ _)

theorem countTick_ndefers : k.countTick.ndefers = k.ndefers := by
  obtain ⟨_, _, h⟩ := countTick_eq k
  rw [h]
  rfl

/-- A tick defers rescheduling only while it wakes processes. -/
theorem tickSleepers_ndefers (h : 0 ≤ k.ndefers) : k.tickSleepers.ndefers = k.ndefers := by
  unfold Kernel.tickSleepers
  split
  · rfl
  · simp only
    split
    · exact wakeup_ndefers _ h
    · rfl

theorem tickPreempt_ndefers : k.tickPreempt.ndefers = k.ndefers := by
  unfold Kernel.tickPreempt
  simp only
  split
  · exact resched_ndefers _
  · rfl

/-- The clock interrupt leaves rescheduling not deferred. -/
theorem clockInterrupt_ndefers (h : k.ndefers = 0) : k.clockInterrupt.ndefers = 0 := by
  have h1 : k.deferStart.ndefers = 1 := by simp [Kernel.deferStart, h]
  have h2 : k.deferStart.clkhandler.ndefers = 1 := by
    rw [Kernel.clkhandler, tickPreempt_ndefers, tickSleepers_ndefers _ (by rw [countTick_ndefers, h1]; decide),
      countTick_ndefers, h1]
  rw [Kernel.clockInterrupt, deferStop_ndefers _ (by omega), h2]
  rfl

/-- The switch on the victim's state leaves the depth to the rest of `kill`. -/
theorem killSwitch_ndefers (p : Int) : (k.killSwitch p).ndefers = k.ndefers := by
  unfold Kernel.killSwitch
  split
  · exact resched_ndefers _
  · exact unsleep_ndefers _ _
  · exact unsleep_ndefers _ _
  · rfl
  · rfl
  · rfl

omit [QueueOps Q] in
theorem create_ndefers (ssize : Nat) (priority : Int) : (k.create ssize priority).1.ndefers = k.ndefers := by
  rcases create_cases k ssize priority with ⟨np, e⟩ | ⟨saddr, heap, pid, np, _, _, _, e⟩
  · rw [e]
  · rw [e]
    rfl

/-! Each system call leaves the depth that it found: what it defers it stops deferring. -/

theorem resume_ndefers (p : Int) : (k.resume p).1.ndefers = k.ndefers := by
  unfold Kernel.resume
  split_ifs
  · rfl
  · rfl
  · exact ready_ndefers _ _

/-- `suspend` of the current process reschedules. -/
theorem suspend_ndefers (p : Int) : (k.suspend p).1.ndefers = k.ndefers := by
  unfold Kernel.suspend
  split
  · rfl
  · split
    · rfl
    · exact resched_ndefers _
    · rfl

/-- `kill` sends its notice first. -/
theorem kill_ndefers (p : Int) : (k.kill p).1.ndefers = k.ndefers := by
  unfold Kernel.kill
  split
  · rfl
  · simp only
    split
    · rfl
    · exact send_ndefers _ _ _

/-- `wait` that blocks reschedules. -/
theorem wait_ndefers (s : Int) : (k.wait s).1.ndefers = k.ndefers := by
  unfold Kernel.wait
  split
  · rfl
  · split
    · rfl
    · simp only
      split
      · exact (resched_ndefers _).trans (enqueue_ndefers _ _ _)
      · rfl

theorem signal_ndefers (s : Int) : (k.signal s).1.ndefers = k.ndefers := by
  unfold Kernel.signal
  split_ifs
  · rfl
  · rfl
  · exact signalOne_ndefers _ _

/-- `signaln` adds its units under a deferral. -/
theorem signaln_ndefers (h : 0 ≤ k.ndefers) (s n : Int) : (k.signaln s n).1.ndefers = k.ndefers := by
  unfold Kernel.signaln
  simp only
  split_ifs
  · rfl
  · rfl
  · exact deferred_ndefers _ h (signalLoop_ndefers _ _ _)

omit [QueueOps Q] in
theorem semcreate_ndefers (n : Int) : (k.semcreate n).1.ndefers = k.ndefers := by
  unfold Kernel.semcreate
  simp only
  split
  · rfl
  · split <;> rfl

theorem semreset_ndefers (h : 0 ≤ k.ndefers) (s n : Int) : (k.semreset s n).1.ndefers = k.ndefers := by
  unfold Kernel.semreset
  simp only
  split
  · rfl
  · exact deferred_ndefers _ h (resetLoop_ndefers _ _ _)

theorem semdelete_ndefers (h : 0 ≤ k.ndefers) (s : Int) : (k.semdelete s).1.ndefers = k.ndefers := by
  unfold Kernel.semdelete
  split_ifs
  · rfl
  · rfl
  · exact deferred_ndefers _ h (deleteLoop_ndefers _ _ _)

theorem receive_ndefers : k.receive.1.ndefers = k.ndefers := by
  unfold Kernel.receive
  split
  · rfl
  · exact resched_ndefers _

/-- `recvtime` without a message reschedules. -/
theorem recvtime_ndefers (d : Int) : (k.recvtime d).1.ndefers = k.ndefers := by
  unfold Kernel.recvtime
  simp only
  split_ifs
  · rfl
  · rfl
  · exact insertd_ndefers _ _ _ _
  · exact (resched_ndefers _).trans (insertd_ndefers _ _ _ _)

/-- `sleepms` reschedules, unless it fails. -/
theorem sleepms_ndefers (d : Int) : (k.sleepms d).1.ndefers = k.ndefers := by
  unfold Kernel.sleepms
  simp only
  split_ifs
  · rfl
  · exact resched_ndefers _
  · exact insertd_ndefers _ _ _ _
  · exact (resched_ndefers _).trans (insertd_ndefers _ _ _ _)

/-- A system call leaves rescheduling not deferred. -/
theorem call_ndefers (h : k.ndefers = 0) (c : Call) : (k.call c).1.ndefers = 0 := by
  refine Eq.trans ?_ h
  have h0 : 0 ≤ k.ndefers := h.ge
  cases c with
  | create ssize priority => exact create_ndefers k _ _
  | resume p => exact resume_ndefers k p
  | suspend p => exact suspend_ndefers k p
  | ready p => exact ready_ndefers _ _
  | resched | yield => exact resched_ndefers _
  | kill p => exact kill_ndefers k p
  | wait s => exact wait_ndefers k s
  | signal s => exact signal_ndefers k s
  | signaln s n => exact signaln_ndefers k h0 s n
  | semcreate n => exact semcreate_ndefers k n
  | semreset s n => exact semreset_ndefers k h0 s n
  | semdelete s => exact semdelete_ndefers k h0 s
  | semcount s =>
    show (k.semcount s).1.ndefers = k.ndefers
    unfold Kernel.semcount
    split <;> rfl
  | send p msg => exact send_ndefers _ _ _
  | receive => exact receive_ndefers k
  | recvtime d => exact recvtime_ndefers k d
  | recvclr =>
    show k.recvclr.1.ndefers = k.ndefers
    unfold Kernel.recvclr
    split <;> rfl
  | sleepms d => exact sleepms_ndefers k d
  | chprio p prio =>
    show (k.chprio p prio).1.ndefers = k.ndefers
    unfold Kernel.chprio
    split <;> rfl
  | getmem n =>
    simp only [Kernel.call]
    rcases k.heap.getmem (n % 4294967296) with ⟨_ | a, heap⟩ <;> rfl
  | freemem a n => rfl

end Defers

/-! ## Counts stay in the range of their type -/

section Counts

variable {h h' : Kernel QLists}

/-- The counts of the semaphores are not below the range of their type. -/
def CountsLow (h : Kernel QLists) : Prop := ∀ s, -2147483648 ≤ (h.semtab s).scount

/-- Storing a semaphore whose count is in the range of its type. -/
theorem CountsLow.setSem (H : CountsLow h) {s : Int} {e : Sentry} (he : -2147483648 ≤ e.scount) :
    CountsLow (h.setSem s e) := by
  intro t
  show -2147483648 ≤ (Function.update h.semtab s e t).scount
  by_cases ht : t = s
  · subst ht
    rw [Function.update_self]
    exact he
  · rw [Function.update_of_ne ht]
    exact H t

theorem CountsLow.setCount (H : CountsLow h) (s c : Int) : CountsLow (h.setCount s (int32 c)) :=
  H.setSem (int32_range c).1

theorem CountsLow.resched (H : CountsLow h) : CountsLow h.resched := by
  intro s
  rw [resched_semtab]
  exact H s

/-- No step takes a count below the range of its type. -/
theorem Change.counts {κ : Kind} {b : Bool} (c : Change h κ b h') (H : CountsLow h) : CountsLow h' := by
  cases c with
  | aux | stop | deferStart | deferStop | resched | created | killing | stkfreed | ready | resumed | suspend | suspendSelf | chprio
  | deposit | depositRecv | depositRectim | receive | take | sleep | tick | woken | freed | freedReady | freedAsleep
  | freedSelf => exact H
  | passed s | blocked s | signalled s | released s | releasedNone s | flushed s | flushedNone s | freedWaiting _ s =>
    exact H.setCount s _
  | semcreated s c hs hf h1 h2 => exact H.setSem (by simp only; omega)
  | semreset s c hs hu hq h1 h2 => exact H.setSem (by simp only; omega)
  | semdeleted s => exact H.setSem (int32_range _).1

theorem Act.counts {κ : Kind} (a : Act h κ h') (H : CountsLow h) : CountsLow h' := by
  cases a with
  | plain c => exact c.counts H
  | sched c => exact (c.counts H).resched

theorem Acts.counts {ks : List Kind} (a : Acts ks h h') (H : CountsLow h) : CountsLow h' := by
  induction a with
  | refl => exact H
  | tail _ _ b ih => exact b.counts ih

end Counts

/-! ## How a system call goes on -/

/-- How a system call goes on: it returns, or it is one of the four that go on in a later segment. -/
theorem call_resume (k : Kernel QueueTab) (c : Call) :
    (∃ v, (k.call c).2 = .ret v) ∨ (∃ p, c = .suspend p ∧ (k.call c).2 = .suspend p) ∨
      (c = .receive ∧ (k.call c).2 = .receive) ∨ (∃ d, c = .recvtime d ∧ (k.call c).2 = .recvtime) ∨
      ∃ p, c = .kill p ∧ (k.call c).2 = .kill p 0 ∧ k.isbadpid p = false ∧ p ≠ NULLPROC := by
  cases c with
  | kill p =>
    simp only [Kernel.call, Kernel.kill]
    split
    · exact Or.inl ⟨_, rfl⟩
    · next hb =>
      simp only [Bool.or_eq_true, decide_eq_true_eq, not_or] at hb
      refine Or.inr (Or.inr (Or.inr (Or.inr ⟨p, rfl, ?_, eq_false_of_ne_true hb.1.1, hb.1.2⟩)))
      split <;> rfl
  | create ssize priority =>
    rcases create_cases k ssize priority with ⟨np, e⟩ | ⟨saddr, heap, pid, np, _, _, _, e⟩
    · exact Or.inl ⟨_, congrArg Prod.snd e⟩
    · exact Or.inl ⟨_, congrArg Prod.snd e⟩
  | suspend p =>
    simp only [Kernel.call, Kernel.suspend]
    repeat' split
    · exact Or.inl ⟨_, rfl⟩
    · exact Or.inr (Or.inl ⟨p, rfl, rfl⟩)
    · exact Or.inr (Or.inl ⟨p, rfl, rfl⟩)
    · exact Or.inl ⟨_, rfl⟩
  | receive =>
    simp only [Kernel.call, Kernel.receive]
    split <;> exact Or.inr (Or.inr (Or.inl ⟨trivial, rfl⟩))
  | recvtime d =>
    simp only [Kernel.call, Kernel.recvtime]
    repeat' split
    · exact Or.inl ⟨_, rfl⟩
    · exact Or.inr (Or.inr (Or.inr (Or.inl ⟨d, rfl, rfl⟩)))
    · exact Or.inl ⟨_, rfl⟩
    · exact Or.inr (Or.inr (Or.inr (Or.inl ⟨d, rfl, rfl⟩)))
  | resume p | chprio p n | wait s | signal s | signaln s n | semcreate n | semreset s n | semdelete s | semcount s
  | recvclr | sleepms d | send p msg | getmem n =>
    simp only [Kernel.call, Kernel.resume, Kernel.chprio, Kernel.wait, Kernel.signal, Kernel.signaln, Kernel.semcreate,
      Kernel.semreset, Kernel.semdelete, Kernel.semcount, Kernel.recvclr, Kernel.sleepms, Kernel.send]
    repeat' split
    all_goals exact Or.inl ⟨_, rfl⟩
  | ready p | resched | yield | freemem a n => exact Or.inl ⟨_, rfl⟩

/-- Only `kill` goes on as `kill`. -/
theorem call_resume_kill {k : Kernel QueueTab} {c : Call} {pid : Int} {i : Nat} (h : (k.call c).2 = .kill pid i) :
    c = .kill pid ∧ i = 0 ∧ k.isbadpid pid = false ∧ pid ≠ NULLPROC := by
  rcases call_resume k c with ⟨v, e⟩ | ⟨p, _, e⟩ | ⟨_, e⟩ | ⟨d, _, e⟩ | ⟨p, hc, e, hb, h0⟩
  · rw [e] at h
    cases h
  · rw [e] at h
    cases h
  · rw [e] at h
    cases h
  · rw [e] at h
    cases h
  · rw [e] at h
    obtain ⟨rfl, rfl⟩ := Resume.kill.inj h
    exact ⟨hc, rfl, hb, h0⟩

/-- Only `receive` goes on as `receive`. -/
theorem call_resume_receive {k : Kernel QueueTab} {c : Call} (h : (k.call c).2 = .receive) : c = .receive := by
  rcases call_resume k c with ⟨v, e⟩ | ⟨p, _, e⟩ | ⟨hc, _⟩ | ⟨d, _, e⟩ | ⟨p, _, e, _⟩
  · rw [e] at h
    cases h
  · rw [e] at h
    cases h
  · exact hc
  · rw [e] at h
    cases h
  · rw [e] at h
    cases h

end Xinu
