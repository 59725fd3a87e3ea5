import Xinu.Kernel.Ranking

/-!
# Deferred rescheduling

`resched_cntl`, and sequences of the operations that may stand between `DEFER_START` and `DEFER_STOP`. While rescheduling is
deferred no operation switches the context, and the flag `attempt` tells whether one of them called `resched` (`Held`).
-/

namespace Xinu

def DEFER_START : Int := 1
def DEFER_STOP : Int := 2

namespace Kernel

variable {Q : Type} [QueueOps Q] (k : Kernel Q)

/-- `resched_cntl`: control whether rescheduling is deferred or allowed. -/
def resched_cntl (defer : Int) : Int × Kernel Q :=
  let defer := int32 defer
  if defer = DEFER_START then
    (OK, { k with ndefers := int32 (k.ndefers + 1), attempt := if k.ndefers = 0 then false else k.attempt })
  else if defer = DEFER_STOP then
    if k.ndefers ≤ 0 then (SYSERR, k)
    else
      let k := { k with ndefers := k.ndefers - 1 }
      (OK, if k.ndefers = 0 ∧ k.attempt then k.resched else k)
  else (SYSERR, k)

/-- The counter does not overflow. -/
theorem resched_cntl_start (h0 : 0 ≤ k.ndefers) (h : k.ndefers < 2147483647) :
    k.resched_cntl DEFER_START = (OK, k.deferStart) := by
  have hw : int32 (k.ndefers + 1) = k.ndefers + 1 := int32_of_range (by omega) (by omega)
  change (OK, { k with ndefers := int32 (k.ndefers + 1), attempt := if k.ndefers = 0 then false else k.attempt }) = _
  rw [hw]
  rfl

theorem resched_cntl_stop (h : 0 < k.ndefers) : k.resched_cntl DEFER_STOP = (OK, k.deferStop) := by
  change (if k.ndefers ≤ 0 then (SYSERR, k) else (OK, _)) = _
  have h' : ¬k.ndefers ≤ 0 := by omega
  rw [if_neg h', Kernel.deferStop, if_neg h']

theorem resched_cntl_unmatched (h : k.ndefers ≤ 0) : k.resched_cntl DEFER_STOP = (SYSERR, k) := by
  change (if k.ndefers ≤ 0 then (SYSERR, k) else (OK, _)) = _
  rw [if_pos h]

/-- The end of a deferral inside another one. -/
theorem deferStop_inner (h : 1 < k.ndefers) : k.deferStop = { k with ndefers := k.ndefers - 1 } := by
  unfold Kernel.deferStop
  rw [if_neg (by omega)]
  refine if_neg fun e => ?_
  have h0 : k.ndefers - 1 = 0 := e.1
  omega

/-- The end of the last deferral. -/
theorem deferStop_last (h : k.ndefers = 1) :
    k.deferStop = if k.attempt then { k with ndefers := 0 }.resched else { k with ndefers := 0 } := by
  have hpos : ¬k.ndefers ≤ 0 := by omega
  rw [Kernel.deferStop, if_neg hpos]
  simp only [h, sub_self, true_and]

/-! ## When `resched` is called -/

/-- The increment of `signal` makes a process ready. -/
def signalAttempts (sem : Int) : Bool :=
  decide ((k.semtab sem).scount < 0) && !k.isbadpid (QueueOps.dequeue k.queuetab (squeue sem)).1

/-- The loop of `signaln` makes a process ready. -/
def signalLoopAttempts (sem : Int) : Nat → Kernel Q → Bool
  | 0, _ => false
  | n + 1, k => k.signalAttempts sem || signalLoopAttempts sem n (k.signalOne sem)

/-- The loop of `wakeup` makes a process ready. -/
def wakeupLoopAttempts : Nat → Kernel Q → Bool
  | 0, _ => false
  | n + 1, k =>
    if !QueueOps.isempty k.queuetab sleepq && decide (QueueOps.firstkey k.queuetab sleepq ≤ 0) then
      let (pid, k') := k.dequeue sleepq
      !k.isbadpid pid || wakeupLoopAttempts n ((k'.note (.woken pid)).ready pid).2
    else false

end Kernel

/-- What may stand in a use of `resched_cntl`. -/
inductive DeferOp where
  | start
  | stop
  | ready (pid : Int)
  | signal (sem : Int)
  | signaln (sem count : Int)
  | wakeup
  | resched
deriving Repr, DecidableEq

namespace DeferOp

variable {Q : Type} [QueueOps Q]

/-- What a nested use of the kernel does. -/
def exec (k : Kernel Q) : DeferOp → Kernel Q
  | .start => (k.resched_cntl DEFER_START).2
  | .stop => (k.resched_cntl DEFER_STOP).2
  | .ready pid => (k.ready pid).2
  | .signal sem => (k.signal sem).1
  | .signaln sem count => (k.signaln sem count).1
  | .wakeup => k.wakeup
  | .resched => k.resched

def run (k : Kernel Q) (l : List DeferOp) : Kernel Q := l.foldl exec k

/-- The operation calls `resched`, when rescheduling is deferred. -/
def attempts (k : Kernel Q) : DeferOp → Bool
  | .start | .stop => false
  | .ready pid => !k.isbadpid pid
  | .signal sem => !isbadsem sem && decide ((k.semtab sem).sstate = .S_USED) && k.signalAttempts sem
  | .signaln sem count =>
    !isbadsem sem && decide (0 ≤ int32 count) && decide ((k.semtab sem).sstate = .S_USED) &&
      Kernel.signalLoopAttempts sem (int32 count).toNat k.deferStart
  | .wakeup => Kernel.wakeupLoopAttempts (NPROC.toNat + 1) k.deferStart
  | .resched => true

/-- One of the operations calls `resched`. -/
def attempted (k : Kernel Q) : List DeferOp → Bool
  | [] => false
  | op :: l => op.attempts k || attempted (op.exec k) l

/-- `ready` is not called for a process that is on a list or current. -/
def allowed (k : Kernel Q) : DeferOp → Bool
  | .ready pid =>
    k.isbadpid pid || decide (homeOf (k.proctab pid) = none) && decide ((k.proctab pid).prstate ≠ .PR_CURR)
  | _ => true

def allAllowed (k : Kernel Q) : List DeferOp → Bool
  | [] => true
  | op :: l => op.allowed k && allAllowed (op.exec k) l

/-- The sequence is properly nested, behind `n` calls with `DEFER_START` that it ends. -/
def nested : List DeferOp → Nat → Bool
  | [], n => n == 0
  | .start :: l, n => nested l (n + 1)
  | .stop :: _, 0 => false
  | .stop :: l, n + 1 => nested l n
  | _ :: l, n => nested l n

/-- The number of levels that the sequence reaches from the level `n`, those of `signaln` and `wakeup` counted. -/
def levels : List DeferOp → Nat → Nat
  | [], n => n
  | .start :: l, n => levels l (n + 1)
  | .stop :: l, n => max n (levels l (n - 1))
  | .signaln .. :: l, n => max (n + 1) (levels l n)
  | .wakeup :: l, n => max (n + 1) (levels l n)
  | _ :: l, n => levels l n

end DeferOp

/-! ## Nothing is switched while rescheduling is deferred -/

/-- `k'` is reached from `k` without a context switch, and `resched` was called on the way exactly if `a`. -/
structure Held {Q : Type} (k : Kernel Q) (a : Bool) (k' : Kernel Q) : Prop where
  currpid : k'.currpid = k.currpid
  preempt : k'.preempt = k.preempt
  ndefers : k'.ndefers = k.ndefers
  attempt : k'.attempt = (k.attempt || a)

namespace Held

variable {Q : Type} {k k₁ k₂ : Kernel Q} {a b : Bool}

/-- A step that leaves the scheduler's variables alone. -/
theorem same (hc : k₁.currpid = k.currpid) (hp : k₁.preempt = k.preempt) (hn : k₁.ndefers = k.ndefers)
    (ha : k₁.attempt = k.attempt) : Held k false k₁ := ⟨hc, hp, hn, ha.trans (Bool.or_false _).symm⟩

theorem refl (k : Kernel Q) : Held k false k := same rfl rfl rfl rfl

theorem trans (h₁ : Held k a k₁) (h₂ : Held k₁ b k₂) : Held k (a || b) k₂ := by
  refine ⟨h₂.currpid.trans h₁.currpid, h₂.preempt.trans h₁.preempt, h₂.ndefers.trans h₁.ndefers, ?_⟩
  rw [h₂.attempt, h₁.attempt, Bool.or_assoc]

theorem pos (h : Held k a k₁) (hd : 0 < k.ndefers) : 0 < k₁.ndefers := by
  rw [h.ndefers]
  exact hd

variable [QueueOps Q]

theorem resched (hd : 0 < k.ndefers) : Held k true k.resched := by
  rw [Kernel.resched_deferred hd]
  exact ⟨rfl, rfl, rfl, (Bool.or_true _).symm⟩

theorem insert (k : Kernel Q) (p q key : Int) : Held k false (k.insert p q key).2 := by
  unfold Kernel.insert
  split
  · exact refl k
  · exact same rfl rfl rfl rfl

/-- `ready` under a deferral attempts to reschedule, for a process that exists. -/
theorem ready (hd : 0 < k.ndefers) (p : Int) : Held k (!k.isbadpid p) (k.ready p).2 := by
  unfold Kernel.ready
  by_cases hb : k.isbadpid p = true
  · rw [if_pos hb, hb]
    exact refl k
  · rw [if_neg hb, eq_false_of_ne_true hb]
    have h1 : Held k false (k.setState p .PR_READY) := same rfl rfl rfl rfl
    have h2 := h1.trans (insert (k.setState p .PR_READY) p readylist (k.proctab p).prprio)
    exact h2.trans (resched (h2.pos hd))

/-- A unit under a deferral attempts to reschedule if somebody waits. -/
theorem signalOne (hd : 0 < k.ndefers) (s : Int) : Held k (k.signalAttempts s) (k.signalOne s) := by
  unfold Kernel.signalOne Kernel.signalAttempts
  simp only
  by_cases hc : (k.semtab s).scount < 0
  · rw [if_pos hc, decide_eq_true hc, Bool.true_and]
    have h1 : Held k false ((((k.setSem s { k.semtab s with scount := int32 ((k.semtab s).scount + 1) }).note
        (.signalled s (k.semtab s).scount)).dequeue (squeue s)).2.note
          (.released s (QueueOps.dequeue k.queuetab (squeue s)).1)) := same rfl rfl rfl rfl
    exact h1.trans (ready (h1.pos hd) _)
  · rw [if_neg hc, decide_eq_false hc, Bool.false_and]
    exact same rfl rfl rfl rfl

/-- The loop of `signaln` under a deferral. -/
theorem signalLoop (hd : 0 < k.ndefers) (s : Int) (n : Nat) :
    Held k (Kernel.signalLoopAttempts s n k) (Kernel.signalLoop s n k) := by
  induction n generalizing k with
  | zero => exact refl k
  | succ n ih =>
    have h1 := signalOne hd s
    exact h1.trans (ih (h1.pos hd))

/-- The loop of `wakeup` under a deferral. -/
theorem wakeupLoop (hd : 0 < k.ndefers) (n : Nat) : Held k (Kernel.wakeupLoopAttempts n k) (Kernel.wakeupLoop n k) := by
  induction n generalizing k with
  | zero => exact refl k
  | succ n ih =>
    unfold Kernel.wakeupLoop Kernel.wakeupLoopAttempts
    split
    · have h0 : Held k false ((k.dequeue sleepq).2.note (.woken (k.dequeue sleepq).1)) := same rfl rfl rfl rfl
      have h1 := h0.trans (ready (h0.pos hd) (k.dequeue sleepq).1)
      exact h1.trans (ih (h1.pos hd))
    · exact refl k

/-- A routine that defers rescheduling itself. -/
theorem block (hd : 0 < k.ndefers) (h : Held k.deferStart a k₁) : Held k a k₁.deferStop := by
  have hn : k₁.ndefers = k.ndefers + 1 := h.ndefers
  have ha : k₁.attempt = (k.attempt || a) := by
    refine h.attempt.trans ?_
    simp only [Kernel.deferStart, if_neg (show k.ndefers ≠ 0 by omega)]
  rw [Kernel.deferStop_inner k₁ (by omega)]
  exact ⟨h.currpid, h.preempt, by simp only; omega, ha⟩

/-- An operation other than `DEFER_START` and `DEFER_STOP`. -/
theorem exec (hd : 0 < k.ndefers) {op : DeferOp} (h1 : op ≠ .start) (h2 : op ≠ .stop) :
    Held k (op.attempts k) (op.exec k) := by
  have hstart : 0 < k.deferStart.ndefers := by
    simp only [Kernel.deferStart]
    omega
  cases op with
  | start => exact absurd rfl h1
  | stop => exact absurd rfl h2
  | ready p => exact ready hd p
  | signal s =>
    simp only [DeferOp.exec, DeferOp.attempts, Kernel.signal]
    by_cases hs : isbadsem s = true
    · rw [if_pos hs, hs]
      exact refl k
    · rw [if_neg hs, eq_false_of_ne_true hs]
      cases hu : (k.semtab s).sstate with
      | S_FREE => exact refl k
      | S_USED => exact signalOne hd s
  | signaln s n =>
    simp only [DeferOp.exec, DeferOp.attempts, Kernel.signaln]
    by_cases hs : isbadsem s = true
    · rw [if_pos (by rw [hs]; rfl), hs]
      exact refl k
    · by_cases hn : int32 n < 0
      · rw [if_pos (by rw [decide_eq_true hn, Bool.or_true]), decide_eq_false (show ¬0 ≤ int32 n by omega), Bool.and_false]
        exact refl k
      · rw [if_neg (by simp [hs, hn]), eq_false_of_ne_true hs, decide_eq_true (show 0 ≤ int32 n by omega)]
        cases hu : (k.semtab s).sstate with
        | S_FREE => exact refl k
        | S_USED => exact block hd (signalLoop hstart s _)
  | wakeup => exact block hd (wakeupLoop hstart _)
  | resched => exact resched hd

end Held

namespace DeferOp

variable {Q : Type} [QueueOps Q] {k : Kernel Q}

theorem exec_start (h0 : 0 ≤ k.ndefers) (h : k.ndefers < 2147483647) : start.exec k = k.deferStart :=
  congrArg Prod.snd (k.resched_cntl_start h0 h)

theorem exec_stop (h : 0 < k.ndefers) : stop.exec k = k.deferStop := congrArg Prod.snd (k.resched_cntl_stop h)

/-- The deepest level is not below the first one. -/
theorem levels_ge (l : List DeferOp) (n : Nat) : n ≤ levels l n := by
  induction l generalizing n with
  | nil => exact Nat.le_refl n
  | cons op l ih =>
    cases op with
    | start => exact (Nat.le_succ n).trans (ih (n + 1))
    | stop => exact Nat.le_max_left _ _
    | signaln => exact (Nat.le_succ n).trans (Nat.le_max_left _ _)
    | wakeup => exact (Nat.le_succ n).trans (Nat.le_max_left _ _)
    | ready | signal | resched => exact ih n

end DeferOp

end Xinu
