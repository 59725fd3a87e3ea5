import Xinu.Kernel.Actions

/-!
# The functions refine the steps

`Sim k h`: the kernel `h` with queues as lists is the kernel `k` with its queue table read as lists. The first segment of
every system call, and the last of `kill`, is a sequence of steps (`call_refines`, `killEnd_act`).
-/

namespace Xinu

open Kernel

/-- The kernel with other queues. -/
def Kernel.abst (k : Kernel QueueTab) (L : QLists) : Kernel QLists :=
  { proctab := k.proctab, prcount := k.prcount, currpid := k.currpid, nextpid := k.nextpid, semtab := k.semtab,
    nextsem := k.nextsem, queuetab := L, ndefers := k.ndefers, attempt := k.attempt, preempt := k.preempt,
    clktime := k.clktime, count1000 := k.count1000, heap := k.heap, status := k.status, log := k.log }

/-- `h` is `k` with the queue table read as lists. -/
def Sim (k : Kernel QueueTab) (h : Kernel QLists) : Prop := ∃ L, Rep k.queuetab L ∧ h = k.abst L

/-- The kernel `k'` is reached from `h` by steps of the kinds `ks`. -/
def Refines (ks : List Kind) (h : Kernel QLists) (k' : Kernel QueueTab) : Prop := ∃ h', Sim k' h' ∧ Acts ks h h'

namespace Refines

variable {h h₁ : Kernel QLists} {k : Kernel QueueTab} {ks : List Kind} {κ : Kind}

theorem refl (S : Sim k h) : Refines ks h k := ⟨h, S, Acts.refl⟩

theorem of_act (hκ : κ ∈ ks) (S : Sim k h₁) (a : Act h κ h₁) : Refines ks h k := ⟨h₁, S, Acts.single a hκ⟩

theorem head (hκ : κ ∈ ks) (a : Act h κ h₁) (r : Refines ks h₁ k) : Refines ks h k := by
  obtain ⟨h', S, b⟩ := r
  exact ⟨h', S, Acts.head a hκ b⟩

theorem mono {ks' : List Kind} (r : Refines ks h k) (hs : ks ⊆ ks') : Refines ks' h k := by
  obtain ⟨h', S, a⟩ := r
  exact ⟨h', S, a.mono hs⟩

end Refines

/-! ## Fields that rescheduling keeps, for any queues -/

section Fields

variable {Q : Type} [QueueOps Q] (k : Kernel Q)

theorem switch_ndefers : k.switch.ndefers = k.ndefers := rfl

theorem insert_ndefers (p q key : Int) : (k.insert p q key).2.ndefers = k.ndefers := by
  unfold Kernel.insert
  split <;> rfl

/-- Rescheduling keeps the depth of the deferral. -/
theorem resched_ndefers : k.resched.ndefers = k.ndefers := by
  unfold Kernel.resched
  split_ifs
  · rfl
  · rfl
  · rw [switch_ndefers, insert_ndefers]
    rfl
  · rfl

theorem resched_semtab : k.resched.semtab = k.semtab := by
  unfold Kernel.resched Kernel.insert
  split_ifs <;> rfl

theorem ready_semtab (p : Int) : (k.ready p).2.semtab = k.semtab := by
  unfold Kernel.ready Kernel.insert
  split_ifs
  · rfl
  · exact resched_semtab _
  · exact resched_semtab _

theorem ready_ndefers (p : Int) : (k.ready p).2.ndefers = k.ndefers := by
  unfold Kernel.ready
  split
  · rfl
  · rw [resched_ndefers, insert_ndefers]
    rfl

/-- Semaphores and queues are stored apart. -/
theorem insert_setSem (s : Int) (e : Sentry) (p q key : Int) :
    ((k.setSem s e).insert p q key).2 = (k.insert p q key).2.setSem s e := by
  unfold Kernel.insert
  rw [show (k.setSem s e).isbadpid p = k.isbadpid p from rfl]
  by_cases hb : (isbadqid q || k.isbadpid p) = true
  · rw [if_pos hb, if_pos hb]
  · rw [if_neg hb, if_neg hb]
    rfl

/-- Rescheduling does not read or write the semaphores. -/
theorem resched_setSem (s : Int) (e : Sentry) : (k.setSem s e).resched = k.resched.setSem s e := by
  unfold Kernel.resched
  show (if k.ndefers > 0 then _ else if (k.proctab k.currpid).prstate = .PR_CURR then
    if (k.proctab k.currpid).prprio > QueueOps.firstkey k.queuetab readylist then _ else _ else _) = _
  split_ifs
  · rfl
  · rfl
  · show Kernel.switch (Kernel.insert ((k.setState k.currpid .PR_READY).setSem s e) _ _ _).2 = _
    rw [insert_setSem]
    rfl
  · rfl

end Fields

/-! ## Queue operations and rescheduling -/

section Ops

variable {k : Kernel QueueTab} {h : Kernel QLists} {p q : Int}

theorem Sim.getitem (S : Sim k h) (hm : p ∈ h.queuetab.ids q) : Sim (k.getitem p) (h.getitem p) := by
  obtain ⟨L, R, rfl⟩ := S
  exact ⟨L.getitem p, R.getitem hm, rfl⟩

/-- The ready list of the code is that of the lists, after a process is put on it. -/
theorem Sim.makeReady (S : Sim k h) (hp : IsPid p) (hout : ∀ q, p ∉ h.queuetab.ids q)
    (hprio : -32768 ≤ (h.proctab p).prprio) : Sim (k.makeReady p) (h.makeReady p) := by
  obtain ⟨L, R, rfl⟩ := S
  have hk : MINKEY < (k.proctab p).prprio := by
    have : -32768 ≤ (k.proctab p).prprio := hprio
    unfold MINKEY
    omega
  exact ⟨_, R.insert isHead_readylist hp hout hk, rfl⟩

/-- The switch takes the first process of the same ready list. -/
theorem Sim.switch (S : Sim k h) : Sim k.switch h.switch := by
  obtain ⟨L, R, rfl⟩ := S
  obtain ⟨hpid, R'⟩ := R.dequeue isHead_readylist
  refine ⟨(L.getfirst readylist).2, R', ?_⟩
  have hpid' : (QueueOps.dequeue k.queuetab readylist).1 = (QueueOps.dequeue L readylist).1 := hpid
  simp only [Kernel.switch, Kernel.dequeue, hpid']
  rfl

/-- `resched` keeps the current process or switches, by the same comparison. -/
theorem Sim.resched (S : Sim k h) (I : Inv0 h) : Sim k.resched h.resched := by
  obtain ⟨L, R, rfl⟩ := S
  have S : Sim k (k.abst L) := ⟨L, R, rfl⟩
  have hkey : QueueOps.firstkey k.queuetab readylist = QueueOps.firstkey (k.abst L).queuetab readylist :=
    R.firstkey_eq isHead_readylist
  rcases Int.lt_or_eq_of_le I.defers with hd | hd
  · rw [resched_deferred hd, resched_deferred (k := k) hd]
    exact ⟨L, R, rfl⟩
  by_cases hc : (k.proctab k.currpid).prstate = .PR_CURR
  · by_cases hp : (k.proctab k.currpid).prprio > QueueOps.firstkey k.queuetab readylist
    · rw [resched_stay hd.symm hc (by rw [← hkey]; exact hp), resched_stay (k := k) hd.symm hc hp]
      exact S
    · rw [resched_preempt hd.symm I.currpid hc (by rw [← hkey]; exact hp),
        resched_preempt (k := k) hd.symm I.currpid hc hp]
      have hout := I.not_mem (p := k.currpid) (by show homeOf (k.proctab k.currpid) = none; rw [homeOf, hc])
      exact (S.makeReady I.currpid hout (I.prio _).1).switch
  · rw [resched_away hd.symm hc, resched_away (k := k) hd.symm hc]
    exact S.switch

/-- `ready` of a process that is on no list. -/
theorem Sim.ready (S : Sim k h) (I : Inv0 h) (hs : (h.proctab p).prstate ≠ .PR_FREE) (hout : ∀ q, p ∉ h.queuetab.ids q)
    (I' : Inv0 (h.makeReady p)) (hpid : IsPid p) : Sim (k.ready p).2 (h.makeReady p).resched := by
  have S' := (S.makeReady hpid hout (I.prio p).1).resched I'
  obtain ⟨L, R, rfl⟩ := S
  rw [ready_eq (k := k) hpid hs]
  exact S'

end Ops

/-! ## Processes -/

/-- The entry that `newpid` finds is free. -/
theorem newpidLoop_spec {proctab : Int → Procent} {n : Nat} {x p y : Int} (h : newpidLoop proctab n x = (some p, y)) :
    IsPid p ∧ (proctab p).prstate = .PR_FREE := by
  induction n generalizing x with
  | zero => simp [newpidLoop] at h
  | succ n ih =>
    unfold newpidLoop at h
    simp only at h
    split at h
    · next hf =>
      obtain rfl := Option.some.inj (Prod.mk.inj h).1
      exact ⟨⟨Int.emod_nonneg x (by decide), Int.emod_lt_of_pos x NPROC_pos⟩, hf⟩
    · exact ih h

/-- `create` fails and keeps what `getstk` did, or makes a process in the entry `newpid` found. -/
theorem create_cases {Q : Type} (k : Kernel Q) (ssize : Nat) (priority : Int) :
    (∃ np, k.create ssize priority =
      ({ k with heap := (k.heap.getstk (stkSize (ssize % 4294967296))).2, nextpid := np }, .ret SYSERR)) ∨
    ∃ saddr heap pid np, k.heap.getstk (stkSize (ssize % 4294967296)) = (some saddr, heap) ∧
      newpidLoop k.proctab NPROC.toNat k.nextpid = (some pid, np) ∧ 1 ≤ int16 priority ∧
      k.create ssize priority =
        ({ k with heap := heap, nextpid := np }.addProc pid saddr (stkSize (ssize % 4294967296)) (int16 priority),
          .ret pid) := by
  unfold Kernel.create
  simp only
  rcases hg : k.heap.getstk (stkSize (ssize % 4294967296)) with ⟨_ | saddr, heap⟩
  · exact Or.inl ⟨k.nextpid, rfl⟩
  · rcases hn : newpidLoop k.proctab NPROC.toNat k.nextpid with ⟨_ | pid, np⟩
    · exact Or.inl ⟨np, by simp only [Kernel.newpid, hn]⟩
    · simp only [Kernel.newpid, hn]
      by_cases hprio : int16 priority < 1
      · exact Or.inl ⟨np, by rw [if_pos hprio]⟩
      · refine Or.inr ⟨saddr, heap, pid, np, rfl, rfl, by omega, ?_⟩
        rw [if_neg hprio]
        rfl

section Calls

variable {k : Kernel QueueTab} {h : Kernel QLists} {p : Int}

/-- `create` reserves memory, and makes a suspended process or fails. -/
theorem create_refines (S : Sim k h) (I : Inv h) (ssize : Nat) (priority : Int) :
    Refines [.quiet, .created] h (k.create ssize priority).1 := by
  obtain ⟨L, R, rfl⟩ := S
  rcases create_cases k ssize priority with ⟨np, e⟩ | ⟨saddr, heap, pid, np, hg, hn, hprio, e⟩
  · rw [e]
    exact Refines.of_act (by simp) ⟨L, R, rfl⟩ (Act.plain (Change.aux _ np k.nextsem k.preempt k.clktime k.count1000 I.nextsem))
  · obtain ⟨hp, hf⟩ := newpidLoop_spec hn
    have ha := Act.plain (Change.aux (h := k.abst L) heap np k.nextsem k.preempt k.clktime k.count1000 I.nextsem)
    rw [e]
    exact Refines.head (by simp) ha (Refines.of_act (by simp) ⟨L, R, rfl⟩
      (Act.plain (Change.created pid saddr _ (int16 priority) hp hf hprio (int16_range priority).2)))

/-- A direct call of `ready` is a step, for a process that is on no list. -/
theorem ready_refines (S : Sim k h) (I : Inv h) (hd : (h.proctab p).prstate = .PR_CURR → h.ndefers = 0)
    (hok : k.isbadpid p = true ∨ homeOf (k.proctab p) = none) : Refines [.readied] h (k.ready p).2 := by
  by_cases hb : k.isbadpid p = true
  · rw [Kernel.ready, if_pos hb]
    exact Refines.refl S
  · have hh := hok.resolve_left hb
    obtain ⟨hp, hs⟩ := isbadpid_eq_false.mp (eq_false_of_ne_true hb)
    obtain ⟨L, R, rfl⟩ := S
    have S : Sim k (k.abst L) := ⟨L, R, rfl⟩
    exact Refines.of_act (by simp) (S.ready I.toInv0 hs (I.not_mem hh) (I.makeReady_of_out hp hh) hp)
      (Act.sched (Change.ready p hs hh hd))

/-- `resume` makes a suspended process ready, and is quiet for any other. -/
theorem resume_refines (S : Sim k h) (I : Inv h) (p : Int) : Refines [.quiet] h (k.resume p).1 := by
  unfold Kernel.resume
  split
  · exact Refines.refl S
  · next hb =>
    split
    · exact Refines.refl S
    · next hs =>
      obtain ⟨hp, hf⟩ := isbadpid_eq_false.mp (eq_false_of_ne_true hb)
      have hh := homeOf_susp (not_not.mp hs)
      obtain ⟨L, R, rfl⟩ := S
      have S : Sim k (k.abst L) := ⟨L, R, rfl⟩
      exact Refines.of_act (by simp) (S.ready I.toInv0 hf (I.not_mem hh) (I.makeReady_of_out hp hh) hp)
        (Act.sched (Change.resumed p (not_not.mp hs)))

/-- `suspend` takes a process off the ready list, or suspends the current one. -/
theorem suspend_refines (S : Sim k h) (I : Inv h) (hd : h.ndefers = 0) (p : Int) : Refines [.quiet] h (k.suspend p).1 := by
  obtain ⟨L, R, rfl⟩ := S
  have S : Sim k (k.abst L) := ⟨L, R, rfl⟩
  unfold Kernel.suspend
  split
  · exact Refines.refl S
  · next hb =>
    obtain ⟨_, h0⟩ : ¬k.isbadpid p = true ∧ p ≠ NULLPROC := by simpa using hb
    cases hs : (k.proctab p).prstate with
    | PR_READY =>
      have hm : p ∈ (k.abst L).queuetab.ids readylist := (I.mem p readylist).mpr (by
        show homeOf (k.proctab p) = _
        rw [homeOf, hs])
      exact Refines.of_act (by simp) ⟨L.getitem p, R.getitem hm, rfl⟩ (Act.plain (Change.suspend p hs h0))
    | PR_CURR =>
      have hc : p = k.currpid := I.curr p hs
      subst hc
      have hb : CanBlock (k.abst L) := ⟨h0, hd⟩
      have S' : Sim (k.setState k.currpid .PR_SUSP) ((k.abst L).setState k.currpid .PR_SUSP) := ⟨L, R, rfl⟩
      exact Refines.of_act (by simp) (S'.resched (I.leave hb (Or.inl rfl))) (Act.sched (Change.suspendSelf hb))
    | _ => exact Refines.refl S

/-- `chprio` changes the priority in the table, and no list. -/
theorem chprio_refines (S : Sim k h) (p newprio : Int) :
    Refines [.chprio p (int16 newprio)] h (k.chprio p newprio).1 := by
  unfold Kernel.chprio
  split
  · exact Refines.refl S
  · next hb =>
    obtain ⟨L, R, rfl⟩ := S
    obtain ⟨hp, hs⟩ := isbadpid_eq_false.mp (eq_false_of_ne_true hb)
    have hr := int16_range newprio
    exact Refines.of_act (by simp) ⟨L, R, rfl⟩ (Act.plain (Change.chprio p (int16 newprio) hs hr.1 hr.2))

/-! ## Messages and sleeping -/

/-- A process that sleeps or receives with a timeout is on `sleepq`. -/
theorem Inv.mem_sleepq (I : Inv h) {p : Int}
    (hs : (h.proctab p).prstate = .PR_SLEEP ∨ (h.proctab p).prstate = .PR_RECTIM) : p ∈ h.queuetab.ids sleepq := by
  rw [I.mem, homeOf]
  rcases hs with hs | hs <;> rw [hs]

/-- `unsleep` of a process that is asleep passes its checks. -/
theorem unsleep_eq (I : Inv h) {p : Int} (hk : k.proctab = h.proctab)
    (hs : (h.proctab p).prstate = .PR_SLEEP ∨ (h.proctab p).prstate = .PR_RECTIM) : k.unsleep p = k.leaveSleep p := by
  have hb : k.isbadpid p = false := by
    refine isbadpid_eq_false.mpr ⟨I.isPid_of_mem (I.mem_sleepq hs), ?_⟩
    rw [hk]
    exact (I.state_of_mem (I.mem_sleepq hs)).1
  rw [Kernel.unsleep, hb, hk]
  simp only [Bool.false_eq_true, if_false]
  rw [if_neg (by rcases hs with hs | hs <;> simp [hs])]
  rfl

/-- Leaving the delta list repairs the key of the successor in both queues. -/
theorem Sim.leaveSleep (S : Sim k h) {p : Int} (hm : p ∈ h.queuetab.ids sleepq) :
    Sim (k.leaveSleep p) (h.leaveSleep p) := by
  obtain ⟨L, R, rfl⟩ := S
  have hm' : p ∈ (L.passKey sleepq p).ids sleepq := by
    rw [QLists.passKey_ids]
    exact hm
  exact ⟨(L.passKey sleepq p).getitem p, (R.passKey hm).getitem hm', rfl⟩

/-- `send` leaves a message, and makes its receiver ready if that waits for one. -/
theorem send_refines (S : Sim k h) (I : Inv h) (p : Int) (msg : Nat) : Refines [.sent] h (k.send p msg).1 := by
  unfold Kernel.send
  split
  · exact Refines.refl S
  · next hb =>
    split
    · exact Refines.refl S
    · next hm =>
      obtain ⟨L, R, rfl⟩ := S
      obtain ⟨hp, hs⟩ := isbadpid_eq_false.mp (eq_false_of_ne_true hb)
      have hm' : ((k.abst L).proctab p).prhasmsg = false := eq_false_of_ne_true hm
      have I' := I.deposit hs (msg % 4294967296)
      have S' : Sim (k.deposit p (msg % 4294967296)) ((k.abst L).deposit p (msg % 4294967296)) := ⟨L, R, rfl⟩
      have hst := deposit_state (k.abst L) p (msg % 4294967296) p
      simp only
      split
      · next hr =>
        have hr' : (((k.abst L).deposit p (msg % 4294967296)).proctab p).prstate = .PR_RECV := hst.trans hr
        have hh : homeOf (((k.abst L).deposit p (msg % 4294967296)).proctab p) = none := by rw [homeOf, hr']
        exact Refines.of_act (by simp) (S'.ready I'.toInv0 (by rw [hr']; decide) (I'.not_mem hh) (I'.makeReady_of_out hp hh) hp)
          (Act.sched (Change.depositRecv p _ hm' hr))
      · next hr =>
        have hr' : (((k.abst L).deposit p (msg % 4294967296)).proctab p).prstate = .PR_RECTIM := hst.trans hr
        have hmem := I'.mem_sleepq (Or.inr hr')
        have S'' := S'.leaveSleep hmem
        have I'' : Inv ((((k.abst L).deposit p (msg % 4294967296)).setQueues
            (((k.abst L).deposit p (msg % 4294967296)).queuetab.passKey sleepq p)).note (.unslept p)) :=
          I'.same rfl (QLists.passKey_ids _ _ _) rfl I'.defers I'.nextsem
        have hunsleep := unsleep_eq (k := k.deposit p (msg % 4294967296)) I' rfl (Or.inr hr')
        have hout : ∀ q, p ∉ (((k.abst L).deposit p (msg % 4294967296)).leaveSleep p).queuetab.ids q := by
          intro q hq
          exact ((I''.toInv0.getitem_mem p).mp hq).1 rfl
        have ha : Act (k.abst L) .sent ((((k.abst L).deposit p (msg % 4294967296)).leaveSleep p).makeReady p).resched :=
          Act.sched (Change.depositRectim p _ hm' hr)
        refine Refines.of_act (by simp) ?_ ha
        show Sim (((k.deposit p (msg % 4294967296)).unsleep p).ready p).2 _
        rw [hunsleep]
        have hready := ready_eq (k := (k.deposit p (msg % 4294967296)).leaveSleep p) hp (by
          show (((k.abst L).deposit p (msg % 4294967296)).proctab p).prstate ≠ _
          rw [hr']
          decide)
        rw [hready]
        exact (S''.makeReady hp hout (I'.prio p).1).resched (I''.toInv0.moveReady hp)
      · next hr ht => exact Refines.of_act (by simp) S' (Act.plain (Change.deposit p _ hm' hs hr ht))

/-- `receive` takes a message, or blocks the current process. -/
theorem receive_refines (S : Sim k h) (I : Inv h) (hd : h.ndefers = 0)
    (hok : k.currpid = NULLPROC → (k.proctab k.currpid).prhasmsg = true) : Refines [.received] h k.receive.1 := by
  unfold Kernel.receive
  split
  · exact Refines.refl S
  · next hm =>
    obtain ⟨L, R, rfl⟩ := S
    have hb : CanBlock (k.abst L) := ⟨fun h0 => hm (hok h0), hd⟩
    have S' : Sim (k.setState k.currpid .PR_RECV) ((k.abst L).setState k.currpid .PR_RECV) := ⟨L, R, rfl⟩
    exact Refines.of_act (by simp) (S'.resched (I.leave hb (Or.inr (Or.inl rfl))))
      (Act.sched (Change.receive (eq_false_of_ne_true hm) hb))

/-- `insertd` of the current process on `sleepq`. -/
theorem insertd_current (I : Inv h) (S : Sim k h) (d : Int) :
    k.insertd k.currpid sleepq d = (OK, k.setQueues (QueueOps.insertd k.queuetab k.currpid sleepq d)) := by
  obtain ⟨L, R, rfl⟩ := S
  have hb : k.isbadpid k.currpid = false := by
    refine isbadpid_eq_false.mpr ⟨I.currpid, ?_⟩
    have := I.running
    rw [show (k.proctab k.currpid).prstate = .PR_CURR from this]
    decide
  rw [Kernel.insertd, hb, isHead_sleepq.not_bad]
  rfl

/-- The current process goes to the delta list with its delay, and another one runs. -/
theorem sleepFor_refines (S : Sim k h) (I : Inv h) (hb : CanBlock h) {st : PrState} {d : Int}
    (hst : st = .PR_SLEEP ∧ 0 < d ∨ st = .PR_RECTIM ∧ (h.proctab h.currpid).prhasmsg = false) (h1 : 0 ≤ d)
    (h2 : d ≤ 2147483647) : Refines [.quiet, .slept] h (k.sleepFor st d).resched := by
  obtain ⟨L, R, rfl⟩ := S
  have hR := R.insertd (k := d) isHead_sleepq I.currpid (I.not_mem I.currpid_home)
  have S' : Sim (k.sleepFor st d) ((k.abst L).sleepFor st d) := ⟨_, hR, rfl⟩
  exact Refines.of_act (by simp) (S'.resched (I.sleepFor hb d (hst.imp And.left And.left))) (Act.sched (Change.sleep st d hst h1 h2 hb))

/-- `recvtime` blocks on the delta list, unless it fails or finds a message. -/
theorem recvtime_refines (S : Sim k h) (I : Inv h) (hd : h.ndefers = 0) {d : Int}
    (hok : k.currpid = NULLPROC → int32 d < 0 ∨ (k.proctab k.currpid).prhasmsg = true) : Refines [.quiet, .slept] h (k.recvtime d).1 := by
  unfold Kernel.recvtime
  simp only
  split
  · exact Refines.refl S
  · next hneg =>
    split
    · exact Refines.refl S
    · next hm =>
      rw [insertd_current I S]
      have hcp : h.currpid = k.currpid ∧ (h.proctab h.currpid).prhasmsg = (k.proctab k.currpid).prhasmsg := by
        obtain ⟨L, R, rfl⟩ := S
        exact ⟨rfl, rfl⟩
      have hb : CanBlock h := ⟨fun h0 => (hok (hcp.1 ▸ h0)).elim hneg hm, hd⟩
      simp only [OK, SYSERR]
      exact sleepFor_refines S I hb (Or.inr ⟨rfl, hcp.2.trans (eq_false_of_ne_true hm)⟩) (by omega) (int32_range d).2

/-- `sleepms` puts the current process on the delta list, yields for a delay of zero, or fails. -/
theorem sleepms_refines (S : Sim k h) (I : Inv h) (hd : h.ndefers = 0) {d : Int}
    (hok : k.currpid = NULLPROC → int32 d ≤ 0) : Refines [.quiet, .slept] h (k.sleepms d).1 := by
  unfold Kernel.sleepms
  simp only
  split
  · exact Refines.refl S
  · next hneg =>
    split
    · exact Refines.of_act (by simp) (S.resched I.toInv0) (Act.sched Change.resched)
    · next hz =>
      rw [insertd_current I S]
      have hcp : h.currpid = k.currpid := by
        obtain ⟨L, R, rfl⟩ := S
        rfl
      have hb : CanBlock h := ⟨fun h0 => by have := hok (hcp ▸ h0); omega, hd⟩
      simp only [OK, SYSERR]
      exact sleepFor_refines S I hb (Or.inl ⟨rfl, by omega⟩) (by omega) (int32_range d).2

/-- `recvclr` takes a message if there is one. -/
theorem recvclr_refines (S : Sim k h) : Refines [.took] h k.recvclr.1 := by
  unfold Kernel.recvclr
  split
  · next hm =>
    obtain ⟨L, R, rfl⟩ := S
    exact Refines.of_act (by simp) ⟨L, R, rfl⟩ (Act.plain (Change.take hm))
  · exact Refines.refl S

/-! ## Semaphores -/

theorem sstate_used {st : SState} (hs : ¬st = .S_FREE) : st = .S_USED := by
  cases st with
  | S_FREE => exact absurd rfl hs
  | S_USED => rfl

theorem enqueue_eq {Q : Type} [QueueOps Q] {k : Kernel Q} {p q : Int} (hq : IsHead q) (hp : IsPid p)
    (hs : (k.proctab p).prstate ≠ .PR_FREE) : (k.enqueue p q).2 = k.setQueues (QueueOps.enqueue k.queuetab p q) := by
  rw [Kernel.enqueue, hq.not_bad, isbadpid_eq_false.mpr ⟨hp, hs⟩]
  rfl

/-- `wait` takes a unit, or blocks the current process on the semaphore's queue. -/
theorem wait_refines (S : Sim k h) (I : Inv h) (hd : h.ndefers = 0) {s : Int}
    (hok : k.currpid = NULLPROC → isbadsem s = true ∨ (k.semtab s).sstate = .S_FREE ∨
      0 ≤ int32 ((k.semtab s).scount - 1)) : Refines [.sem s] h (k.wait s).1 := by
  unfold Kernel.wait
  split
  · exact Refines.refl S
  · next hs =>
    split
    · exact Refines.refl S
    · next hu =>
      obtain ⟨L, R, rfl⟩ := S
      have hs' := eq_false_of_ne_true hs
      have hu' : ((k.abst L).semtab s).sstate = .S_USED := sstate_used hu
      simp only
      split
      · next hc =>
        have hb : CanBlock (k.abst L) := by
          refine ⟨fun h0 => ?_, hd⟩
          rcases hok h0 with h1 | h1 | h1
          · exact hs h1
          · exact hu h1
          · omega
        have S' : Sim (k.blockOn s) ((k.abst L).blockOn s) :=
          ⟨_, R.enqueue (isHead_squeue hs') I.currpid (I.not_mem I.currpid_home), rfl⟩
        have ha : Act (k.abst L) (.sem s) ((k.abst L).blockOn s).resched := Act.sched (Change.blocked s hs' hu' hc hb)
        refine Refines.of_act (by simp) ?_ ha
        rw [enqueue_eq (isHead_squeue hs')]
        · exact S'.resched (I.blockOn hb hs')
        · exact I.currpid
        · simp [Kernel.setProc]
      · next hc => exact Refines.of_act (by simp) ⟨L, R, rfl⟩ (Act.plain (Change.passed s hs' hu' (by simp only [Kernel.abst]; omega)))

/-- Taking the first process off a queue, when there is one. -/
theorem Sim.getfirst (S : Sim k h) {q p : Int} {rest : List Int} (hq : IsHead q) (hl : h.queuetab.ids q = p :: rest) :
    (k.getfirst q).1 = p ∧ Sim (k.getfirst q).2 (h.getitem p) := by
  obtain ⟨L, R, rfl⟩ := S
  have hg : L.getfirst q = (p, L.getitem p) := by
    rw [QLists.getfirst, show L.ids q = p :: rest from hl]
  obtain ⟨h1, h2⟩ := R.getfirst hq
  rw [hg] at h1 h2
  exact ⟨h1, L.getitem p, h2, rfl⟩

/-- Nothing is taken off an empty queue. -/
theorem Sim.getfirst_nil (S : Sim k h) {q : Int} (hq : IsHead q) (hl : h.queuetab.ids q = []) :
    k.getfirst q = (EMPTY, k) := by
  obtain ⟨L, R, rfl⟩ := S
  have he : QueueTab.isempty k.queuetab q = true := by
    rw [R.isempty_eq hq, show L.ids q = [] from hl]
    rfl
  have hg : QueueOps.getfirst k.queuetab q = (EMPTY, k.queuetab) := by
    show QueueTab.getfirst k.queuetab q = _
    rw [QueueTab.getfirst, if_pos he]
  rw [Kernel.getfirst, hg]
  rfl

/-- The code takes the first process off a queue, and so do the lists. -/
theorem Sim.dequeue (S : Sim k h) {q p : Int} {rest : List Int} (hq : IsHead q) (hl : h.queuetab.ids q = p :: rest) :
    (k.dequeue q).1 = p ∧ Sim (k.dequeue q).2 (h.getitem p) := by
  obtain ⟨L, R, rfl⟩ := S
  have hg : L.getfirst q = (p, L.getitem p) := by
    rw [QLists.getfirst, show L.ids q = p :: rest from hl]
  obtain ⟨h1, h2⟩ := R.dequeue hq
  rw [hg] at h1 h2
  exact ⟨h1, L.getitem p, h2, rfl⟩

/-- Dequeuing from an empty queue. -/
theorem Sim.dequeue_nil (S : Sim k h) {q : Int} (hq : IsHead q) (hl : h.queuetab.ids q = []) :
    k.dequeue q = (EMPTY, k) := by
  obtain ⟨L, R, rfl⟩ := S
  have he : QueueTab.isempty k.queuetab q = true := by
    rw [R.isempty_eq hq, show L.ids q = [] from hl]
    rfl
  have hg : QueueOps.dequeue k.queuetab q = (EMPTY, k.queuetab) := by
    show QueueTab.dequeue k.queuetab q = _
    rw [QueueTab.dequeue, if_neg (by rw [hq.not_bad]; decide), if_pos he]
  rw [Kernel.dequeue, hg]
  rfl

/-- No process is `EMPTY`. -/
theorem ready_empty (k : Kernel QueueTab) : (k.ready EMPTY).2 = k := rfl

/-- A process taken off its list is made ready. -/
theorem Sim.moveReady (S : Sim k (h.getitem p)) (I : Inv h) {q : Int} (hm : p ∈ h.queuetab.ids q) :
    Sim (k.ready p).2 ((h.getitem p).makeReady p).resched := by
  have hp := I.isPid_of_mem hm
  have hout : ∀ q, p ∉ (h.getitem p).queuetab.ids q := fun q hq => ((I.toInv0.getitem_mem p).mp hq).1 rfl
  have S' := (S.makeReady hp hout (I.prio p).1).resched (I.toInv0.moveReady hp)
  obtain ⟨L, R, e⟩ := S
  have hk : k.proctab = h.proctab := by
    rw [show k.proctab = (k.abst L).proctab from rfl, ← e]
    rfl
  rw [ready_eq (k := k) hp (by rw [hk]; exact (I.state_of_mem hm).1)]
  exact S'

theorem signalOne_eq (k : Kernel QueueTab) (s : Int) : k.signalOne s =
    if (k.semtab s).scount < 0 then ((((k.raise s).dequeue (squeue s)).2.note
      (.released s ((k.raise s).dequeue (squeue s)).1)).ready ((k.raise s).dequeue (squeue s)).1).2
    else k.raise s :=
  rfl

/-- One unit more: the count goes up, and the process that has waited longest is made ready. -/
theorem signalOne_refines (S : Sim k h) (I : Inv h) {s : Int} (hs : isbadsem s = false)
    (hu : (k.semtab s).sstate = .S_USED) : Refines [.quiet, .sem s] h (k.signalOne s) := by
  obtain ⟨L, R, rfl⟩ := S
  have hu' : ((k.abst L).semtab s).sstate = .S_USED := hu
  rw [signalOne_eq]
  split
  · next hc =>
    have S' : Sim (k.raise s) ((k.abst L).raise s) := ⟨L, R, rfl⟩
    rcases hl : L.ids (squeue s) with _ | ⟨p, rest⟩
    · rw [S'.dequeue_nil (isHead_squeue hs) hl]
      have ha : Act (k.abst L) (.sem s) (((k.abst L).raise s).note (.released s EMPTY)) :=
        Act.plain (Change.releasedNone s hs hu' hc hl)
      exact Refines.of_act (by simp) ⟨L, R, rfl⟩ ha
    · obtain ⟨h1, S''⟩ := S'.dequeue (isHead_squeue hs) hl
      rw [h1]
      have hm : p ∈ (k.abst L).queuetab.ids (squeue s) := by
        show p ∈ L.ids (squeue s)
        rw [hl]
        exact List.mem_cons_self
      have I' : Inv (((k.abst L).raise s).note (.released s p)) := I.same rfl rfl rfl I.defers I.nextsem
      refine Refines.of_act (by simp) (Sim.moveReady ?_ I' hm) (Act.sched (Change.released s p rest hs hu' hc hl))
      obtain ⟨L', R', e⟩ := S''
      exact ⟨L', R', congrArg (fun g => Kernel.note g (.released s p)) e⟩
  · next hc => exact Refines.of_act (by simp) ⟨L, R, rfl⟩ (Act.plain (Change.signalled s hs hu' (by simp only [Kernel.abst]; omega)))

/-- `signal` adds a unit to a semaphore in use, and fails for any other. -/
theorem signal_refines (S : Sim k h) (I : Inv h) (s : Int) : Refines [.quiet, .sem s] h (k.signal s).1 := by
  unfold Kernel.signal
  split
  · exact Refines.refl S
  · next hs =>
    split
    · exact Refines.refl S
    · next hu => exact signalOne_refines S I (eq_false_of_ne_true hs) (sstate_used hu)

theorem Refines.trans {h : Kernel QLists} {k k' : Kernel QueueTab} {ks : List Kind} (r : Refines ks h k) (I : Inv h)
    (f : ∀ h', Sim k h' → Inv h' → Acts ks h h' → Refines ks h' k') : Refines ks h k' := by
  obtain ⟨h', S, a⟩ := r
  obtain ⟨h'', S', b⟩ := f h' S (a.inv I) a
  exact ⟨h'', S', a.trans b⟩

/-- The semaphores a list of processes is released from keep their state. -/
theorem signalOne_sstate (k : Kernel QueueTab) (s t : Int) : ((k.signalOne s).semtab t).sstate = (k.semtab t).sstate := by
  have hset : ((k.setSem s { k.semtab s with scount := int32 ((k.semtab s).scount + 1) }).semtab t).sstate =
      (k.semtab t).sstate := by
    show (Function.update k.semtab s _ t).sstate = _
    by_cases ht : t = s
    · subst ht
      rw [Function.update_self]
    · rw [Function.update_of_ne ht]
  unfold Kernel.signalOne
  simp only
  split
  · rw [ready_semtab]
    exact hset
  · exact hset

/-- The loop of `signaln` adds the units one after another. -/
theorem signalLoop_refines (S : Sim k h) (I : Inv h) {s : Int} (hs : isbadsem s = false)
    (hu : (k.semtab s).sstate = .S_USED) (n : Nat) : Refines [.quiet, .sem s] h (signalLoop s n k) := by
  induction n generalizing k h with
  | zero => exact Refines.refl S
  | succ n ih =>
    refine (signalOne_refines S I hs hu).trans I (fun h' S' I' _ => ih S' I' ?_)
    rw [signalOne_sstate, hu]

/-- The end of a deferral reschedules if an attempt was recorded. -/
theorem deferStop_refines {ks : List Kind} (S : Sim k h) (I : Inv h) : Refines (.quiet :: ks) h k.deferStop := by
  obtain ⟨L, R, rfl⟩ := S
  unfold Kernel.deferStop
  split
  · exact Refines.refl ⟨L, R, rfl⟩
  · next hd =>
    have hpos : 0 < (k.abst L).ndefers := by
      show 0 < k.ndefers
      omega
    have S' : Sim { k with ndefers := k.ndefers - 1 } { k.abst L with ndefers := k.ndefers - 1 } := ⟨L, R, rfl⟩
    simp only
    split
    · next ha =>
      have c := Change.deferStop (h := k.abst L) true hpos (by
        have h1 : (k.abst L).ndefers = 1 := by
          show k.ndefers = 1
          omega
        have h2 : (k.abst L).attempt = true := ha.2
        rw [h1, h2]
        rfl)
      exact Refines.of_act (by simp) (S'.resched (c.settled I).toInv0) (Act.sched c)
    · next ha =>
      refine Refines.of_act (by simp) S' (Act.plain (Change.deferStop false hpos ?_))
      refine (Bool.eq_false_iff.mpr (fun hb => ha ?_)).symm
      simp only [Bool.and_eq_true, decide_eq_true_eq] at hb
      have h1 : k.ndefers = 1 := hb.1
      exact ⟨by omega, hb.2⟩

theorem Sim.deferStart (S : Sim k h) : Sim k.deferStart h.deferStart := by
  obtain ⟨L, R, rfl⟩ := S
  exact ⟨L, R, rfl⟩

/-- `signaln` adds the units under a deferral, and then reschedules. -/
theorem signaln_refines (S : Sim k h) (I : Inv h) (s count : Int) : Refines [.quiet, .sem s] h (k.signaln s count).1 := by
  unfold Kernel.signaln
  simp only
  split
  · exact Refines.refl S
  · next hs =>
    have hs' : isbadsem s = false := by
      simp only [Bool.or_eq_true, not_or] at hs
      exact eq_false_of_ne_true hs.1
    split
    · exact Refines.refl S
    · next hu =>
      have I' := I.deferStart
      refine Refines.head (by simp) (Act.plain Change.deferStart) ?_
      exact (signalLoop_refines S.deferStart I' hs' (sstate_used hu) _).trans I'
        (fun _ S'' I'' _ => deferStop_refines S'' I'')

/-- The entry that `newsem` finds is free. -/
theorem newsemLoop_spec {semtab : Int → Sentry} {n : Nat} {x y : Int} {r : Option Int}
    (h : newsemLoop semtab n x = (r, y)) (hx : 0 ≤ x ∧ x < NSEM) :
    (0 ≤ y ∧ y < NSEM) ∧ ∀ s ∈ r, isbadsem s = false ∧ (semtab s).sstate = .S_FREE := by
  induction n generalizing x with
  | zero =>
    obtain ⟨rfl, rfl⟩ := Prod.mk.inj h
    exact ⟨hx, by simp⟩
  | succ n ih =>
    have hnext : 0 ≤ (if x + 1 ≥ NSEM then 0 else x + 1) ∧ (if x + 1 ≥ NSEM then 0 else x + 1) < NSEM := by
      split
      · exact ⟨by omega, NSEM_pos⟩
      · omega
    unfold newsemLoop at h
    simp only at h
    split at h
    · next hf =>
      obtain ⟨rfl, rfl⟩ := Prod.mk.inj h
      exact ⟨hnext, by simpa using ⟨isbadsem_iff.mpr hx, hf⟩⟩
    · exact ih h hnext

/-- `semcreate` takes a free entry, or fails. -/
theorem semcreate_refines (S : Sim k h) (I : Inv h) (count : Int) : Refines [.quiet, .semcreated] h (k.semcreate count).1 := by
  obtain ⟨L, R, rfl⟩ := S
  unfold Kernel.semcreate
  simp only
  split
  · exact Refines.refl ⟨L, R, rfl⟩
  · next hc =>
    rcases hn : newsemLoop k.semtab NSEM.toNat k.nextsem with ⟨_ | s, ns⟩
    · obtain ⟨hr, _⟩ := newsemLoop_spec hn I.nextsem
      exact Refines.of_act (by simp) ⟨L, R, rfl⟩ (Act.plain (Change.aux k.heap k.nextpid ns k.preempt k.clktime k.count1000 hr))
    · obtain ⟨hr, hf⟩ := newsemLoop_spec hn I.nextsem
      have ha := Act.plain (Change.aux (h := k.abst L) k.heap k.nextpid ns k.preempt k.clktime k.count1000 hr)
      exact Refines.head (by simp) ha (Refines.of_act (by simp) ⟨L, R, rfl⟩
        (Act.plain (Change.semcreated s (int32 count) (hf s rfl).1 (hf s rfl).2 (by omega) (int32_range count).2)))

/-- The release of the first process on a semaphore's queue by `semreset` and `semdelete`. The step raises the count; the
functions assign the count themselves, so it is taken with the entry `e` in place of theirs. -/
theorem flush_step (S : Sim k h) (I : Inv h) {s p : Int} {rest : List Int} {e : Sentry} (hs : isbadsem s = false)
    (hu : e.sstate = .S_USED) (hl : h.queuetab.ids (squeue s) = p :: rest) :
    (k.getfirst (squeue s)).1 = p ∧
    ∃ h', Sim (((k.getfirst (squeue s)).2.note (.flushed s p)).ready p).2 h' ∧ Inv h' ∧
      Act (h.setSem s e) (.sem s) (h'.setSem s { e with scount := int32 (e.scount + 1) }) ∧ h'.semtab = h.semtab ∧
      h'.queuetab.ids (squeue s) = rest := by
  have hm : p ∈ h.queuetab.ids (squeue s) := hl ▸ List.mem_cons_self
  obtain ⟨h1, S'⟩ := S.getfirst (isHead_squeue hs) hl
  refine ⟨h1, (((h.getitem p).note (.flushed s p)).makeReady p).resched, ?_⟩
  have I' : Inv (h.note (.flushed s p)) := I.same rfl rfl rfl I.defers I.nextsem
  have I'' := I'.moveReady (I.isPid_of_mem hm) (I.state_of_mem hm).2
  have only := I''.toInv0.resched_only
  refine ⟨Sim.moveReady (h := h.note (.flushed s p)) ?_ I' hm, I''.resched, ?_, only.semtab, ?_⟩
  · obtain ⟨L', R', e⟩ := S'
    exact ⟨L', R', congrArg (fun g => Kernel.note g (.flushed s p)) e⟩
  · have ha := Act.sched (Change.flushed (h := h.setSem s e) s p rest hs (by simp [Kernel.setSem, hu]) hl)
    rw [← resched_setSem]
    convert ha using 2
    simp [Kernel.setCount, Kernel.setSem, Kernel.getitem, Kernel.setQueues, Kernel.note, Kernel.makeReady, Kernel.setState,
      Kernel.setProc]
  · refine (only.ids _ (squeue_ne hs).1).trans ?_
    show ((h.queuetab.getitem p).insert p readylist _).ids (squeue s) = rest
    rw [(QLists.put_insert _ _ _ _).other _ (squeue_ne hs).1]
    show (h.queuetab.ids (squeue s)).erase p = rest
    rw [hl, List.erase_cons_head]

/-- The loop of `semreset` empties the queue. -/
theorem resetLoop_refines {s : Int} (hs : isbadsem s = false) (n : Nat) :
    ∀ {k : Kernel QueueTab} {h : Kernel QLists} {e : Sentry}, Sim k h → Inv h → e.sstate = .S_USED →
      (h.queuetab.ids (squeue s)).length < n →
      ∃ h' e', Sim (resetLoop s n k) h' ∧ Inv h' ∧ Acts [.quiet, .sem s] (h.setSem s e) (h'.setSem s e') ∧ h'.semtab = h.semtab ∧
        e'.sstate = .S_USED ∧ h'.queuetab.ids (squeue s) = [] := by
  induction n with
  | zero => exact fun _ _ _ hlen => absurd hlen (Nat.not_lt_zero _)
  | succ n ih =>
    intro k h e S I hu hlen
    unfold resetLoop
    rcases hl : h.queuetab.ids (squeue s) with _ | ⟨p, rest⟩
    · rw [S.getfirst_nil (isHead_squeue hs) hl]
      exact ⟨h, e, S, I, Acts.refl, rfl, hu, hl⟩
    · obtain ⟨h1, h', S', I', ha, hsem, hrest⟩ := flush_step S I hs hu hl
      have hne : p ≠ EMPTY := by
        have := (I.isPid_of_mem (hl ▸ List.mem_cons_self : p ∈ h.queuetab.ids (squeue s))).1
        unfold EMPTY
        omega
      have hlen' : (h'.queuetab.ids (squeue s)).length < n := by
        rw [hrest]
        rw [hl, List.length_cons] at hlen
        omega
      obtain ⟨h'', e'', S'', I'', hacts, hsem', hu', hnil⟩ :=
        ih (e := { e with scount := int32 (e.scount + 1) }) S' I' hu hlen'
      simp only [h1, if_neg hne]
      exact ⟨h'', e'', S'', I'', Acts.head ha (by simp) hacts, hsem'.trans hsem, hu', hnil⟩

theorem setSem_self (h : Kernel QLists) (s : Int) : h.setSem s (h.semtab s) = h := by
  simp [Kernel.setSem]

theorem setSem_setSem (h : Kernel QLists) (s : Int) (e e' : Sentry) : (h.setSem s e).setSem s e' = h.setSem s e' := by
  simp [Kernel.setSem]

theorem ids_length (S : Sim k h) (q : Int) : (h.queuetab.ids q).length < NPROC.toNat + 1 := by
  obtain ⟨L, R, rfl⟩ := S
  exact Nat.lt_succ_of_le R.length_le

/-- `semreset` releases everyone who waits, and then stores the new count. -/
theorem semreset_refines (S : Sim k h) (I : Inv h) (s count : Int) : Refines [.quiet, .sem s] h (k.semreset s count).1 := by
  unfold Kernel.semreset
  simp only
  split
  · exact Refines.refl S
  · next hb =>
    simp only [Bool.or_eq_true, decide_eq_true_eq, not_or] at hb
    obtain ⟨⟨hc, hs⟩, hu⟩ := hb
    have hs' := eq_false_of_ne_true hs
    have I' := I.deferStart
    have hu' : (h.deferStart.semtab s).sstate = .S_USED := by
      obtain ⟨L, R, rfl⟩ := S
      exact sstate_used hu
    obtain ⟨h', e', S', I'', ha, hsem, hue, hnil⟩ :=
      resetLoop_refines hs' (NPROC.toNat + 1) S.deferStart I' hu' (ids_length S.deferStart _)
    rw [setSem_self] at ha
    have hr := int32_range count
    have hreset := Act.plain (Change.semreset (h := h'.setSem s e') s (int32 count) hs' (by simp [Kernel.setSem, hue]) hnil
      (by omega) hr.2)
    have heq : ((h'.setSem s e').setCount s (int32 count)).note (.semwasreset s (int32 count)) =
        (h'.setCount s (int32 count)).note (.semwasreset s (int32 count)) := by
      have he : (h'.semtab s).sstate = e'.sstate := by rw [hsem, hu', hue]
      simp [Kernel.setCount, Kernel.setSem, he]
    rw [heq] at hreset
    have hacts := (Acts.head (Act.plain Change.deferStart) (by simp) ha).tail (by simp) hreset
    have S'' : Sim (((resetLoop s (NPROC.toNat + 1) k.deferStart).setSem s
        { (resetLoop s (NPROC.toNat + 1) k.deferStart).semtab s with scount := int32 count }).note
        (.semwasreset s (int32 count))) ((h'.setCount s (int32 count)).note (.semwasreset s (int32 count))) := by
      obtain ⟨L', R', rfl⟩ := S'
      exact ⟨L', R', rfl⟩
    obtain ⟨g, Sg, ag⟩ := deferStop_refines S'' (hacts.inv I)
    exact ⟨g, Sg, hacts.trans ag⟩

/-- The loop of `semdelete`, run on the entry with its new state, raises the count to zero and once more. -/
theorem deleteLoop_refines {s : Int} (hs : isbadsem s = false) (n : Nat) :
    ∀ {k : Kernel QueueTab} {h : Kernel QLists} {c : Int}, Sim k h → Inv h →
      h.semtab s = { sstate := .S_FREE, scount := c } → -2147483648 ≤ c → (-c).toNat < n →
      ∃ (h' : Kernel QLists) (c' : Int), Sim (deleteLoop s n k) (h'.setSem s { sstate := .S_FREE, scount := int32 (c' + 1) }) ∧
        Acts [.quiet, .sem s] (h.setSem s { sstate := .S_USED, scount := c }) (h'.setSem s { sstate := .S_USED, scount := c' }) ∧
        0 ≤ c' := by
  induction n with
  | zero => exact fun _ _ _ _ hlen => absurd hlen (Nat.not_lt_zero _)
  | succ n ih =>
    intro k h c S I hsem hlow hlen
    have hk : k.semtab s = { sstate := .S_FREE, scount := c } := by
      obtain ⟨L, R, rfl⟩ := S
      exact hsem
    have S1 : Sim (k.setSem s { sstate := .S_FREE, scount := int32 (c + 1) })
        (h.setSem s { sstate := .S_FREE, scount := int32 (c + 1) }) := by
      obtain ⟨L, R, rfl⟩ := S
      exact ⟨L, R, rfl⟩
    have I1 : Inv (h.setSem s { sstate := .S_FREE, scount := int32 (c + 1) }) := I.same rfl rfl rfl I.defers I.nextsem
    unfold deleteLoop
    simp only [hk]
    by_cases hc : c < 0
    · rw [if_pos hc]
      have hc1 : int32 (c + 1) = c + 1 := int32_of_range (by omega) (by omega)
      rcases hl : h.queuetab.ids (squeue s) with _ | ⟨p, rest⟩
      · -- a count below zero and no process on the queue: `ready` refuses `EMPTY`
        rw [S1.getfirst_nil (isHead_squeue hs) hl]
        simp only [ready_empty]
        have S2 : Sim ((k.setSem s { sstate := .S_FREE, scount := int32 (c + 1) }).note (.flushed s EMPTY))
            ((h.setSem s { sstate := .S_FREE, scount := int32 (c + 1) }).note (.flushed s EMPTY)) := by
          obtain ⟨L, R, e⟩ := S1
          exact ⟨L, R, congrArg (fun g => Kernel.note g (.flushed s EMPTY)) e⟩
        have I2 : Inv ((h.setSem s { sstate := .S_FREE, scount := int32 (c + 1) }).note (.flushed s EMPTY)) :=
          I1.same rfl rfl rfl I.defers I.nextsem
        obtain ⟨h', c', S', ha, hc'⟩ := ih (c := c + 1) S2 I2 (by simp [Kernel.setSem, Kernel.note, hc1])
          (by omega) (by omega)
        have h1 := Act.plain (Change.flushedNone (h := h.setSem s { sstate := .S_USED, scount := c }) s hs
          (by simp [Kernel.setSem]) (by simpa [Kernel.setSem] using hc) hl)
        refine ⟨h', c', S', Acts.head h1 (by simp) ?_, hc'⟩
        convert ha using 1
        simp [Kernel.setCount, Kernel.setSem, Kernel.note, hc1]
      · obtain ⟨h1, h', S', I', ha, hsem', _⟩ := flush_step S1 I1 (e := { sstate := .S_USED, scount := c }) hs rfl hl
        simp only [h1]
        have hsem'' : h'.semtab s = { sstate := .S_FREE, scount := c + 1 } := by
          rw [hsem']
          simp [Kernel.setSem, hc1]
        obtain ⟨g, c', S'', ha', hc'⟩ := ih S' I' hsem'' (by omega) (by omega)
        rw [setSem_setSem] at ha
        simp only [hc1] at ha
        exact ⟨g, c', S'', Acts.head ha (by simp) ha', hc'⟩
    · rw [if_neg hc]
      exact ⟨h, c, S1, Acts.refl, by omega⟩

/-- `semdelete` frees the entry and releases everyone who waits. -/
theorem semdelete_refines (S : Sim k h) (I : Inv h) {s : Int} (hlow : -2147483648 ≤ (k.semtab s).scount) :
    Refines [.quiet, .sem s] h (k.semdelete s).1 := by
  unfold Kernel.semdelete
  split
  · exact Refines.refl S
  · next hs =>
    split
    · exact Refines.refl S
    · next hu =>
      have hs' := eq_false_of_ne_true hs
      simp only
      have hk : h.semtab s = { sstate := .S_USED, scount := (k.semtab s).scount } := by
        obtain ⟨L, R, rfl⟩ := S
        show k.semtab s = _
        rw [← sstate_used hu]
      have S1 : Sim (k.setSem s { k.semtab s with sstate := .S_FREE }).deferStart
          (h.setSem s { sstate := .S_FREE, scount := (k.semtab s).scount }).deferStart := by
        obtain ⟨L, R, rfl⟩ := S
        exact ⟨L, R, rfl⟩
      have I0 : Inv (h.setSem s { sstate := .S_FREE, scount := (k.semtab s).scount }) :=
        I.same rfl rfl rfl I.defers I.nextsem
      have I1 := I0.deferStart
      obtain ⟨g, c', S2, ha, hc'⟩ := deleteLoop_refines hs' ((-(k.semtab s).scount).toNat + 1)
        (c := (k.semtab s).scount) S1 I1 (by simp [Kernel.setSem, Kernel.deferStart]) hlow (by omega)
      have heq : (h.setSem s { sstate := .S_FREE, scount := (k.semtab s).scount }).deferStart.setSem s
          { sstate := .S_USED, scount := (k.semtab s).scount } = h.deferStart := by
        rw [← hk]
        show (h.deferStart.setSem s _).setSem s (h.deferStart.semtab s) = _
        rw [setSem_setSem, setSem_self]
      rw [heq] at ha
      have hdel := Act.plain (Change.semdeleted (h := g.setSem s { sstate := .S_USED, scount := c' }) s hs'
        (by simp [Kernel.setSem]) (by simpa [Kernel.setSem] using hc'))
      have hacts := (Acts.head (Act.plain Change.deferStart) (by simp) ha).tail (by simp) hdel
      refine Refines.trans ⟨_, ?_, hacts⟩ I (fun _ S'' I'' _ => deferStop_refines S'' I'')
      obtain ⟨L', R', e⟩ := S2
      have hcount : ((g.setSem s { sstate := .S_USED, scount := c' }).semtab s).scount = c' := by simp [Kernel.setSem]
      refine ⟨L', R', ?_⟩
      rw [setSem_setSem, hcount]
      exact congrArg (fun g => Kernel.note g (.semdeleted s)) e

/-! ## Termination -/

/-- The first segment of `kill` tells the parent, and fails for the null process and free entries. -/
theorem kill_refines (S : Sim k h) (I : Inv h) (p : Int) : Refines [.quiet, .killing p, .sent] h (k.kill p).1 := by
  unfold Kernel.kill
  split
  · exact Refines.refl S
  · next hb =>
    simp only [Bool.or_eq_true, decide_eq_true_eq, not_or] at hb
    obtain ⟨⟨_, h0⟩, hs⟩ := hb
    have hs' : (h.proctab p).prstate ≠ .PR_FREE := by
      obtain ⟨L, R, rfl⟩ := S
      exact hs
    have ha := Act.plain (Change.killing (h := h) p hs' h0)
    have S' : Sim ({ k with prcount := k.prcount - 1 }.note (.killing p))
        ({ h with prcount := h.prcount - 1 }.note (.killing p)) := by
      obtain ⟨L, R, rfl⟩ := S
      exact ⟨L, R, rfl⟩
    simp only
    split
    · refine Refines.head (by simp) ha (Refines.of_act (by simp) ?_ (Act.plain (Change.stop .done)))
      obtain ⟨L, R, e⟩ := S'
      exact ⟨L, R, congrArg (fun g => { g with status := Status.done }) e⟩
    · exact Refines.head (by simp) ha ((send_refines S' (ha.inv I) _ _).mono (by simp))

/-- The switch on the victim's state, for a victim that is a process table entry other than the null process. -/
theorem killSwitch_act (S : Sim k h) (I : Inv h) (hd : h.ndefers = 0) (hp : IsPid p) (h0 : p ≠ NULLPROC) :
    ∃ h', Sim (k.killSwitch p) h' ∧ Act h (.killed p) h' := by
  obtain ⟨L, R, rfl⟩ := S
  have S : Sim k (k.abst L) := ⟨L, R, rfl⟩
  unfold Kernel.killSwitch
  have hhome : homeOf ((k.abst L).proctab p) = homeOf (k.proctab p) := rfl
  split
  · next hs =>
    have hc : p = k.currpid := I.curr p hs
    subst hc
    have hb : CanBlock (k.abst L) := ⟨h0, hd⟩
    have I' : Inv ((k.abst L).note (.freed k.currpid)) := I.same rfl rfl rfl I.defers I.nextsem
    have I'' := I'.leave ⟨h0, hd⟩ (Or.inr (Or.inr rfl))
    have S' : Sim (k.release k.currpid) ((k.abst L).release k.currpid) := ⟨L, R, rfl⟩
    exact ⟨_, S'.resched I'', Act.sched (Change.freedSelf hb)⟩
  · next hs =>
    have hs' : ((k.abst L).proctab p).prstate = .PR_SLEEP ∨ ((k.abst L).proctab p).prstate = .PR_RECTIM := Or.inl hs
    obtain ⟨L', R', e⟩ := S.leaveSleep (I.mem_sleepq hs')
    rw [unsleep_eq I rfl hs']
    exact ⟨_, ⟨L', R', congrArg (fun g => Kernel.release g p) e⟩, Act.plain (Change.freedAsleep p hs')⟩
  · next hs =>
    have hs' : ((k.abst L).proctab p).prstate = .PR_SLEEP ∨ ((k.abst L).proctab p).prstate = .PR_RECTIM := Or.inr hs
    obtain ⟨L', R', e⟩ := S.leaveSleep (I.mem_sleepq hs')
    rw [unsleep_eq I rfl hs']
    exact ⟨_, ⟨L', R', congrArg (fun g => Kernel.release g p) e⟩, Act.plain (Change.freedAsleep p hs')⟩
  · next hs =>
    have hm : p ∈ L.ids (squeue (k.proctab p).prsem) := (I.mem p _).mpr (by rw [hhome, homeOf, hs])
    exact ⟨_, ⟨L.getitem p, R.getitem hm, rfl⟩, Act.plain (Change.freedWaiting p (k.proctab p).prsem hs rfl)⟩
  · next hs =>
    have hm : p ∈ L.ids readylist := (I.mem p _).mpr (by rw [hhome, homeOf, hs])
    exact ⟨_, ⟨L.getitem p, R.getitem hm, rfl⟩, Act.plain (Change.freedReady p h0 hs)⟩
  · next hc h1 h2 h3 h4 =>
    refine ⟨_, ⟨L, R, rfl⟩, Act.plain (Change.freed p hp h0 ?_ hc)⟩
    rw [hhome]
    cases hs : (k.proctab p).prstate <;> simp [homeOf, hs] <;> contradiction

/-- The last part of `kill`: the stack is returned, and then the entry becomes free. -/
theorem killEnd_act (S : Sim k h) (I : Inv h) (hd : h.ndefers = 0) (hp : IsPid p) (h0 : p ≠ NULLPROC) :
    ∃ h', Sim (k.killEnd p) h' ∧ Act (h.freeStack p) (.killed p) h' := by
  have S' : Sim (k.freeStack p) (h.freeStack p) := by
    obtain ⟨L, R, rfl⟩ := S
    exact ⟨L, R, rfl⟩
  exact killSwitch_act S' ((Act.plain (Change.stkfreed p)).inv I) hd hp h0

theorem Acts.killEnd {h' : Kernel QLists} (a : Act (h.freeStack p) (.killed p) h') : Acts [.stkfreed, .killed p] h h' :=
  Acts.head (Act.plain (Change.stkfreed p)) (by simp) (Acts.single a (by simp))

end Calls

/-! ## System calls -/

/-- The kinds of steps that a system call takes in its first segment. -/
def Call.kinds : Call → List Kind
  | .create .. => [.quiet, .created]
  | .kill p => [.quiet, .killing p, .sent]
  | .wait s => [.sem s]
  | .signal s | .signaln s _ | .semreset s _ | .semdelete s => [.quiet, .sem s]
  | .semcreate _ => [.quiet, .semcreated]
  | .send .. => [.sent]
  | .receive => [.received]
  | .recvclr => [.took]
  | .recvtime _ | .sleepms _ => [.quiet, .slept]
  | .chprio p newprio => [.chprio p (int16 newprio)]
  | .ready _ => [.readied]
  | .resume _ | .suspend _ | .resched | .yield | .semcount _ | .getmem _ | .freemem .. => [.quiet]

namespace Kernel

variable {Q : Type} (k : Kernel Q)

/-- The current process blocks in the call. -/
def blocks : Call → Bool
  | .wait s => !isbadsem s && decide ((k.semtab s).sstate = .S_USED) && decide (int32 ((k.semtab s).scount - 1) < 0)
  | .receive => !(k.proctab k.currpid).prhasmsg
  | .recvtime d => decide (0 ≤ int32 d) && !(k.proctab k.currpid).prhasmsg
  | .sleepms d => decide (0 < int32 d)
  | _ => false

/-- The null process does not block, and `ready` is not called directly for a process that is on a list. -/
structure Lawful (c : Call) : Prop where
  null : k.currpid = NULLPROC → k.blocks c = false
  ready : ∀ p, c = .ready p → k.isbadpid p = true ∨ homeOf (k.proctab p) = none

end Kernel

section System

variable {k : Kernel QueueTab} {h : Kernel QLists}

/-- The first segment of a system call is a sequence of steps. -/
theorem call_refines (S : Sim k h) (I : Inv h) (hd : h.ndefers = 0) (hcount : ∀ s, -2147483648 ≤ (k.semtab s).scount)
    {c : Call} (hc : k.Lawful c) : Refines c.kinds h (k.call c).1 := by
  cases c with
  | create ssize priority => exact create_refines S I ssize priority
  | resume p => exact resume_refines S I p
  | suspend p => exact suspend_refines S I hd p
  | ready p => exact ready_refines S I (fun _ => hd) (hc.ready p rfl)
  | resched => exact Refines.of_act List.mem_cons_self (S.resched I.toInv0) (Act.sched Change.resched)
  | yield => exact Refines.of_act List.mem_cons_self (S.resched I.toInv0) (Act.sched Change.resched)
  | kill p => exact kill_refines S I p
  | wait s =>
    refine wait_refines S I hd (fun h0 => ?_)
    have := hc.null h0
    simp only [Kernel.blocks, Bool.and_eq_false_iff, Bool.not_eq_false', decide_eq_false_iff_not] at this
    rcases this with (h1 | h1) | h1
    · exact Or.inl h1
    · refine Or.inr (Or.inl ?_)
      cases hs : (k.semtab s).sstate with
      | S_FREE => rfl
      | S_USED => exact absurd hs h1
    · exact Or.inr (Or.inr (by omega))
  | signal s => exact signal_refines S I s
  | signaln s n => exact signaln_refines S I s n
  | semcreate n => exact semcreate_refines S I n
  | semreset s n => exact semreset_refines S I s n
  | semdelete s => exact semdelete_refines S I (hcount s)
  | semcount s =>
    refine Refines.refl ?_
    show Sim (k.semcount s).1 h
    unfold Kernel.semcount
    split <;> exact S
  | send p msg => exact send_refines S I p msg
  | receive =>
    refine receive_refines S I hd (fun h0 => ?_)
    simpa [Kernel.blocks] using hc.null h0
  | recvtime d =>
    refine recvtime_refines S I hd (fun h0 => ?_)
    have := hc.null h0
    simp only [Kernel.blocks, Bool.and_eq_false_iff, Bool.not_eq_false', decide_eq_false_iff_not] at this
    exact this.imp (fun h1 => by omega) id
  | recvclr => exact recvclr_refines S
  | sleepms d =>
    refine sleepms_refines S I hd (fun h0 => ?_)
    have := hc.null h0
    simp only [Kernel.blocks, decide_eq_false_iff_not] at this
    omega
  | chprio p prio => exact chprio_refines S p prio
  | getmem n =>
    obtain ⟨L, R, rfl⟩ := S
    simp only [Kernel.call]
    rcases k.heap.getmem (n % 4294967296) with ⟨_ | a, heap⟩
    · exact Refines.of_act List.mem_cons_self ⟨L, R, rfl⟩
        (Act.plain (Change.aux heap k.nextpid k.nextsem k.preempt k.clktime k.count1000 I.nextsem))
    · exact Refines.of_act List.mem_cons_self ⟨L, R, rfl⟩
        (Act.plain (Change.aux heap k.nextpid k.nextsem k.preempt k.clktime k.count1000 I.nextsem))
  | freemem a n =>
    obtain ⟨L, R, rfl⟩ := S
    exact Refines.of_act List.mem_cons_self ⟨L, R, rfl⟩
      (Act.plain (Change.aux _ k.nextpid k.nextsem k.preempt k.clktime k.count1000 I.nextsem))

end System

end Xinu
