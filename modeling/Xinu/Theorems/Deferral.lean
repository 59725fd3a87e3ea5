import Xinu.Kernel.Deferral
import Xinu.Theorems.Scheduling

/-!
# Uses of `resched_cntl`

A properly nested use of `DEFER_START` and `DEFER_STOP`: nothing is switched before the outermost `DEFER_STOP`, which
reschedules exactly if something inside attempted to, and leaves a process of the largest key current. The counter of the
levels is a signed 32-bit integer, so that the nesting must stay below 2^31 levels.
-/

namespace Xinu

open Kernel

/-- The key by which `resched` compares the process with others. -/
def Kernel.key (k : Kernel QueueTab) (p : Int) : Int := if p = k.currpid then (k.proctab p).prprio else (k.queuetab p).qkey

/-- In `k'` the same processes are current and ready as in `k`, and the current one has the largest key of them. -/
structure Kernel.Leads (k k' : Kernel QueueTab) : Prop where
  eligible : ∀ p, k'.Eligible p ↔ k.Eligible p
  current : k'.Eligible k'.currpid
  top : ∀ p, k'.Eligible p → k.key p ≤ k.key k'.currpid

/-- The kernel's tables represent lists, the ready list in the order of its keys. -/
def Kernel.Ordered (k : Kernel QueueTab) : Prop := ∃ h, Sim k h ∧ Inv h ∧ Sorted h

/-- What a use of `resched_cntl` around `body` does. -/
structure DeferredUse (k : Kernel QueueTab) (body : List DeferOp) : Prop where
  /-- The context is not switched before the outermost `DEFER_STOP`. -/
  held : ∀ inside, inside <+: body →
    (DeferOp.run k (.start :: inside)).currpid = k.currpid ∧ (DeferOp.run k (.start :: inside)).preempt = k.preempt
  /-- The outermost `DEFER_STOP` reschedules exactly if this was attempted. -/
  stop : DeferOp.run k (.start :: body ++ [.stop]) =
    if DeferOp.attempted (DeferOp.start.exec k) body then { DeferOp.run k (.start :: body) with ndefers := 0 }.resched
    else { DeferOp.run k (.start :: body) with ndefers := 0 }
  ndefers : (DeferOp.run k (.start :: body ++ [.stop])).ndefers = 0
  leads : k.Ordered → DeferOp.allAllowed (DeferOp.start.exec k) body = true →
    DeferOp.attempted (DeferOp.start.exec k) body = true →
      (DeferOp.run k (.start :: body)).Leads (DeferOp.run k (.start :: body ++ [.stop]))
  /-- A `DEFER_STOP` before or behind it has no `DEFER_START`. -/
  unmatched : k.resched_cntl DEFER_STOP = (SYSERR, k) ∧
    (DeferOp.run k (.start :: body ++ [.stop])).resched_cntl DEFER_STOP =
      (SYSERR, DeferOp.run k (.start :: body ++ [.stop]))

namespace DeferOp

variable {k : Kernel QueueTab} {op : DeferOp} {body l : List DeferOp} {n : Nat}

/-- One operation inside: how many levels are open behind it, and that the context is not switched. -/
theorem exec_inside {Q : Type} [QueueOps Q] {k : Kernel Q} (hd : k.ndefers = n + 1) (hn : nested (op :: l) n = true)
    (hl : levels (op :: l) (n + 1) < 2147483648) :
    ∃ n', nested l n' = true ∧ levels l (n' + 1) < 2147483648 ∧
      Held { k with ndefers := n' + 1 } (op.attempts k) (op.exec k) := by
  by_cases h1 : op = .start
  · subst h1
    have hle := levels_ge l (n + 1 + 1)
    simp only [levels] at hl
    refine ⟨n + 1, hn, hl, ?_⟩
    rw [exec_start (by omega) (by omega)]
    refine Held.same rfl rfl ?_ (if_neg (by omega))
    simp only [Kernel.deferStart]
    omega
  by_cases h2 : op = .stop
  · subst h2
    cases n with
    | zero => cases hn
    | succ n =>
      refine ⟨n, hn, lt_of_le_of_lt (Nat.le_max_right _ _) hl, ?_⟩
      rw [exec_stop (by omega), Kernel.deferStop_inner k (by omega)]
      exact Held.same rfl rfl (by simp only; omega) rfl
  · have hl' : levels l (n + 1) < 2147483648 := by
      cases op with
      | start => exact absurd rfl h1
      | stop => exact absurd rfl h2
      | signaln => exact lt_of_le_of_lt (Nat.le_max_right _ _) hl
      | wakeup => exact lt_of_le_of_lt (Nat.le_max_right _ _) hl
      | ready | signal | resched => exact hl
    have hn' : nested l n = true := by
      cases op with
      | start => exact absurd rfl h1
      | stop => exact absurd rfl h2
      | _ => exact hn
    refine ⟨n, hn', hl', ?_⟩
    have H := Held.exec (k := k) (by omega) h1 h2
    exact ⟨H.currpid, H.preempt, H.ndefers.trans hd, H.attempt⟩

/-- The operations inside, and the first of them. -/
theorem run_inside {Q : Type} [QueueOps Q] {k : Kernel Q} (hd : k.ndefers = n + 1) (hn : nested body n = true)
    (hl : levels body (n + 1) < 2147483648) :
    (∀ inside, inside <+: body → (run k inside).currpid = k.currpid ∧ (run k inside).preempt = k.preempt) ∧
      (run k body).ndefers = 1 ∧ (run k body).attempt = (k.attempt || attempted k body) := by
  induction body generalizing k n with
  | nil =>
    have h0 : n = 0 := by simpa [nested] using hn
    refine ⟨fun inside hp => ?_, ?_, (Bool.or_false _).symm⟩
    · rw [List.prefix_nil.mp hp]
      exact ⟨rfl, rfl⟩
    · change k.ndefers = 1
      omega
  | cons op body ih =>
    obtain ⟨n', hn', hl', H⟩ := exec_inside hd hn hl
    obtain ⟨h1, h2, h3⟩ := ih H.ndefers hn' hl'
    refine ⟨fun inside hp => ?_, h2, ?_⟩
    · cases inside with
      | nil => exact ⟨rfl, rfl⟩
      | cons op' inside =>
        obtain ⟨rfl, hp'⟩ := List.cons_prefix_cons.mp hp
        obtain ⟨hc, hq⟩ := h1 _ hp'
        exact ⟨hc.trans H.currpid, hq.trans H.preempt⟩
    · refine h3.trans ?_
      rw [H.attempt]
      exact Bool.or_assoc _ _ _

/-! ## The order of the ready list -/

theorem ordered_of_refines {h : Kernel QLists} {ks : List Kind} {k' : Kernel QueueTab} (I : Inv h) (O : Sorted h)
    (r : Refines ks h k') : k'.Ordered := by
  obtain ⟨h', S, a⟩ := r
  exact ⟨h', S, a.inv I, sorted_stable.acts I (fun _ _ => trivial) a O⟩

/-- An operation keeps the kernel's tables in order. -/
theorem exec_ordered (O : k.Ordered) (hd : 0 ≤ k.ndefers) (hb : op = .start → k.ndefers < 2147483647)
    (ha : op.allowed k = true) : (op.exec k).Ordered := by
  obtain ⟨h, S, I, O⟩ := O
  cases op with
  | start =>
    rw [exec_start hd (hb rfl)]
    have r : Refines [.quiet] h k.deferStart := Refines.of_act (by simp) S.deferStart (Act.plain Change.deferStart)
    exact ordered_of_refines I O r
  | stop =>
    rcases Int.lt_or_eq_of_le hd with h0 | h0
    · have r : Refines [.quiet] h k.deferStop := deferStop_refines S I
      rw [exec_stop h0]
      exact ordered_of_refines I O r
    · have h1 : DeferOp.stop.exec k = k := congrArg Prod.snd (k.resched_cntl_unmatched (by omega))
      rw [h1]
      exact ⟨h, S, I, O⟩
  | ready p =>
    obtain ⟨hproc, _⟩ := S.fields
    simp only [allowed, Bool.or_eq_true, Bool.and_eq_true, decide_eq_true_eq] at ha
    by_cases hb : k.isbadpid p = true
    · have h1 : (DeferOp.ready p).exec k = k := by
        change (k.ready p).2 = k
        rw [Kernel.ready, if_pos hb]
      rw [h1]
      exact ⟨h, S, I, O⟩
    · have ha := ha.resolve_left hb
      refine ordered_of_refines I O (ready_refines S I (fun hc => ?_) (Or.inr ha.1))
      rw [← hproc] at hc
      exact absurd hc ha.2
  | signal s => exact ordered_of_refines I O (signal_refines S I s)
  | signaln s c => exact ordered_of_refines I O (signaln_refines S I s c)
  | wakeup =>
    obtain ⟨h', S', a, _⟩ := wakeup_refines S I
    exact ordered_of_refines I O ⟨h', S', a⟩
  | resched =>
    have r : Refines [.quiet] h k.resched := Refines.of_act (by simp) (S.resched I.toInv0) (Act.sched Change.resched)
    exact ordered_of_refines I O r

theorem run_ordered (O : k.Ordered) (hd : k.ndefers = n + 1) (hn : nested body n = true)
    (hl : levels body (n + 1) < 2147483648) (ha : allAllowed k body = true) : (run k body).Ordered := by
  induction body generalizing k n with
  | nil => exact O
  | cons op body ih =>
    simp only [allAllowed, Bool.and_eq_true] at ha
    obtain ⟨n', hn', hl', H⟩ := exec_inside hd hn hl
    refine ih (exec_ordered O (by omega) (fun e => ?_) ha.1) H.ndefers hn' hl' ha.2
    subst e
    have hle := levels_ge body (n + 1 + 1)
    simp only [levels] at hl
    omega

end DeferOp

/-! ## The context switch -/

/-- The key by which `resched` compares the process with others, over lists. -/
def Kernel.listKey (h : Kernel QLists) (p : Int) : Int := if p = h.currpid then (h.proctab p).prprio else h.queuetab.key p

/-- `resched` makes a process of the largest key current. -/
theorem Sorted.leads {h : Kernel QLists} (S : Sorted h) (I : Inv h) (hd : h.ndefers = 0) {p : Int} (hp : h.Eligible p) :
    h.listKey p ≤ h.listKey h.resched.currpid := by
  have hcur : h.listKey h.currpid = (h.proctab h.currpid).prprio := if_pos rfl
  have hready : ∀ q, h.Eligible q → q ≠ h.currpid → q ∈ h.queuetab.ids readylist := fun q hq hne =>
    (I.mem q _).mpr ((homeOf_readylist (I.sem q)).mpr (hq.resolve_left (fun hs => hne (I.curr q hs))))
  by_cases hp1 : (h.proctab h.currpid).prprio > QueueOps.firstkey h.queuetab readylist
  · rw [resched_stay hd I.running hp1, hcur]
    by_cases hpc : p = h.currpid
    · rw [hpc, hcur]
    · have hm := hready p hp hpc
      rcases hr : h.queuetab.ids readylist with _ | ⟨q, rest⟩
      · rw [hr] at hm
        cases hm
      · have hle := S.first hr hm
        rw [firstkey_cons hr] at hp1
        rw [Kernel.listKey, if_neg hpc]
        omega
  · rw [resched_preempt hd I.currpid I.running hp1]
    obtain ⟨I', hno⟩ := I.preempted I.running
    have S' : Sorted (h.makeReady h.currpid) := S.makeReady (I.not_mem (by rw [homeOf, I.running]) _)
    have hkey : ∀ q, (h.makeReady h.currpid).queuetab.key q = h.listKey q := by
      intro q
      by_cases hq : q = h.currpid
      · rw [hq, hcur, makeReady_key_self]
      · rw [makeReady_key_of_ne hq, Kernel.listKey, if_neg hq]
    have hm : p ∈ (h.makeReady h.currpid).queuetab.ids readylist := by
      refine (QLists.put_insert h.queuetab h.currpid readylist (h.proctab h.currpid).prprio).perm.mem_iff.mpr ?_
      by_cases hpc : p = h.currpid
      · rw [hpc]
        exact List.mem_cons_self
      · exact List.mem_cons_of_mem _ (hready p hp hpc)
    obtain ⟨q, rest, hr⟩ := I'.ready_nonempty hno
    have hcurr : (h.makeReady h.currpid).switch.currpid = q := by
      rw [Inv0.switch_eq hr]
      rfl
    rw [hcurr, ← hkey, ← hkey]
    exact S'.first hr hm

theorem Sim.key_eq {k : Kernel QueueTab} {h : Kernel QLists} (S : Sim k h) {p : Int} (hp : IsPid p) : k.key p = h.listKey p := by
  obtain ⟨L, R, rfl⟩ := S
  unfold Kernel.key Kernel.listKey
  rw [R.key p hp]
  rfl

theorem Kernel.Ordered.leads {k : Kernel QueueTab} (O : k.Ordered) (hd : k.ndefers = 0) : k.Leads k.resched := by
  obtain ⟨h, S, I, O⟩ := O
  have S' := S.resched I.toInv0
  have I' := I.resched
  obtain ⟨hproc, hcurr, _, hdef, _⟩ := S.fields
  obtain ⟨hproc', hcurr', _⟩ := S'.fields
  have hel : ∀ p, k.Eligible p ↔ h.Eligible p := fun p => by rw [Kernel.Eligible, hproc, Kernel.Eligible]
  have hel' : ∀ p, k.resched.Eligible p ↔ h.resched.Eligible p := fun p => by rw [Kernel.Eligible, hproc', Kernel.Eligible]
  have hiff : ∀ p, k.resched.Eligible p ↔ k.Eligible p := fun p =>
    ((hel' p).trans (I.toInv0.resched_eligible p)).trans (hel p).symm
  have hc : k.resched.Eligible k.resched.currpid := (hel' _).mpr (Or.inl (by rw [hcurr']; exact I'.running))
  have hpid : ∀ p, k.resched.Eligible p → IsPid p := fun p hp => by
    by_contra hne
    have hf := I'.outside p hne
    rcases (hel' p).mp hp with hs | hs <;> rw [hf] at hs <;> cases hs
  refine ⟨hiff, hc, fun p hp => ?_⟩
  rw [S.key_eq (hpid p hp), S.key_eq (hpid _ hc), hcurr']
  exact O.leads I (hdef ▸ hd) ((hel p).mp ((hiff p).mp hp))

/-! ## The whole use -/

section Use

variable {k : Kernel QueueTab} {body : List DeferOp}

open DeferOp

theorem run_stop (k : Kernel QueueTab) (body : List DeferOp) :
    run k (.start :: body ++ [.stop]) = DeferOp.stop.exec (run k (.start :: body)) :=
  List.foldl_concat exec k .stop (.start :: body)

/-- Every properly nested use of at most `2 ^ 31 - 1` levels, from any state in which rescheduling is not deferred. -/
theorem deferred_rescheduling (k : Kernel QueueTab) (body : List DeferOp) (hd : k.ndefers = 0) (hn : nested body 0 = true)
    (hl : levels body 1 < 2 ^ 31) : DeferredUse k body := by
  have hs : DeferOp.start.exec k = k.deferStart := exec_start (by omega) (by omega)
  have hd' : (DeferOp.start.exec k).ndefers = ((0 : Nat) : Int) + 1 := by
    rw [hs]
    simp only [Kernel.deferStart]
    omega
  have hfirst : (DeferOp.start.exec k).attempt = false := by
    rw [hs]
    exact if_pos hd
  have hcurr : (DeferOp.start.exec k).currpid = k.currpid := by rw [hs]; rfl
  have hpre : (DeferOp.start.exec k).preempt = k.preempt := by rw [hs]; rfl
  obtain ⟨hheld, hone, hatt⟩ := run_inside hd' hn hl
  have hone : (run k (.start :: body)).ndefers = 1 := hone
  have hatt : (run k (.start :: body)).attempt = attempted (DeferOp.start.exec k) body := by
    refine hatt.trans ?_
    rw [hfirst, Bool.false_or]
  have hstop : run k (.start :: body ++ [.stop]) =
      if attempted (DeferOp.start.exec k) body then { run k (.start :: body) with ndefers := 0 }.resched
      else { run k (.start :: body) with ndefers := 0 } := by
    rw [run_stop, exec_stop (by omega), ← hatt, Kernel.deferStop_last _ hone]
  have hzero : (run k (.start :: body ++ [.stop])).ndefers = 0 := by
    rw [hstop]
    split
    · exact resched_ndefers _
    · rfl
  refine ⟨fun inside hp => ?_, hstop, hzero, fun O ha hat => ?_, ?_⟩
  · obtain ⟨h1, h2⟩ := hheld inside hp
    exact ⟨h1.trans hcurr, h2.trans hpre⟩
  · have O₁ : (DeferOp.start.exec k).Ordered := exec_ordered O (by omega) (fun _ => by omega) rfl
    have O' : (run (DeferOp.start.exec k) body).Ordered := run_ordered O₁ hd' hn hl ha
    have O'' : ({ run k (.start :: body) with ndefers := 0 } : Kernel QueueTab).Ordered := by
      obtain ⟨h, ⟨L, R, rfl⟩, I, Sd⟩ := O'
      exact ⟨_, ⟨L, R, rfl⟩, I.same rfl rfl rfl (Int.le_refl 0) I.nextsem, Sd⟩
    have hlead := O''.leads rfl
    rw [hstop, if_pos hat]
    exact ⟨hlead.eligible, hlead.current, hlead.top⟩
  · exact ⟨k.resched_cntl_unmatched (by omega), (run k _).resched_cntl_unmatched (by omega)⟩

/-- The condition on the tables holds in every reachable state. -/
theorem reach_ordered {C : Client} (data : C.Data) (minheap maxheap : Nat) {m : Machine C}
    (r : Machine.Reach Machine.Lawful (boot C data minheap maxheap) m) : m.k.Ordered := by
  obtain ⟨h, St, S⟩ := reach_keeps (fun _ _ hok => hok) sorted_stable (fun _ _ S => S) (boot_steady data minheap maxheap)
    List.Pairwise.nil r
  exact ⟨h, St.sim, St.inv, S⟩

/-- A process is made ready two levels deep, among other operations. -/
def readyInside : List DeferOp := [.start, .ready 1, .stop, .wakeup, .signaln 0 2]

/-- The null process makes a process with a larger priority ready. -/
theorem deferred_rescheduling_ready :
    ∃ m, Machine.Reach Machine.Lawful (boot Client.none () 4096 1048576) m ∧
      (run m.k (.start :: readyInside)).Leads (run m.k (.start :: readyInside ++ [.stop])) ∧
      (run m.k (.start :: readyInside)).currpid = 0 ∧ (run m.k (.start :: readyInside ++ [.stop])).currpid = 1 := by
  obtain ⟨m, r, hf⟩ := Machine.reach_of_evaluates Forcing.plain Machine.Lawful (boot Client.none () 4096 1048576)
    [.call (.semcreate 0), .cont, .call (.create 400 20), .cont]
    (fun m => decide (m.k.ndefers = 0) && decide (m.k.currpid = 0) && allAllowed (DeferOp.start.exec m.k) readyInside &&
      attempted (DeferOp.start.exec m.k) readyInside &&
      decide ((run m.k (.start :: readyInside ++ [.stop])).currpid = 1)) (by decide +kernel)
  simp only [Bool.and_eq_true, decide_eq_true_eq] at hf
  obtain ⟨⟨⟨⟨hd, hc⟩, ha⟩, hat⟩, h1⟩ := hf
  have D := deferred_rescheduling m.k readyInside hd rfl (by decide)
  exact ⟨m, r, D.leads (reach_ordered () 4096 1048576 r) ha hat, (D.held readyInside (List.prefix_refl _)).1.trans hc, h1⟩

/-! ## Too many levels -/

theorem nested_starts (n a : Nat) (l : List DeferOp) : nested (List.replicate a .start ++ l) n = nested l (n + a) := by
  induction a generalizing n with
  | zero => rfl
  | succ a ih =>
    rw [List.replicate_succ, List.cons_append, nested, ih]
    congr 1
    omega

theorem nested_stops (a : Nat) : nested (List.replicate a .stop) a = true := by
  induction a with
  | zero => rfl
  | succ a ih => exact ih

/-- The counter after `n` calls with `DEFER_START`. -/
theorem run_starts (hd : k.ndefers = 0) {n : Nat} (hn : n ≤ 2 ^ 31) : (run k (List.replicate n .start)).ndefers = int32 n := by
  induction n with
  | zero => exact hd
  | succ n ih =>
    have hi : (run k (List.replicate n .start)).ndefers = n := (ih (by omega)).trans (int32_of_range (by omega) (by omega))
    have h1 : run k (List.replicate (n + 1) .start) = DeferOp.start.exec (run k (List.replicate n .start)) := by
      rw [List.replicate_succ']
      exact List.foldl_concat exec k .start _
    rw [h1]
    change int32 ((run k (List.replicate n .start)).ndefers + 1) = _
    rw [hi]
    rfl

/-- Calls with `DEFER_STOP` that have no `DEFER_START`. -/
theorem run_stops (hd : k.ndefers ≤ 0) (n : Nat) : run k (List.replicate n .stop) = k := by
  induction n with
  | zero => rfl
  | succ n ih =>
    have h1 : DeferOp.stop.exec k = k := congrArg Prod.snd (k.resched_cntl_unmatched hd)
    rw [List.replicate_succ]
    change run (DeferOp.stop.exec k) _ = k
    rw [h1, ih]

theorem run_append (k : Kernel QueueTab) (l l' : List DeferOp) : run k (l ++ l') = run (run k l) l' := List.foldl_append

theorem whole_use (n : Nat) : DeferOp.start :: (List.replicate n .start ++ List.replicate n .stop) ++ [.stop] =
    List.replicate (n + 1) .start ++ List.replicate (n + 1) .stop := by
  rw [List.replicate_succ' (n := n) (a := DeferOp.stop), List.replicate_succ, List.cons_append, List.cons_append,
    List.append_assoc]

/-- With `2 ^ 31` levels the counter overflows, and no `DEFER_STOP` is accepted. -/
theorem deferred_rescheduling_overflow :
    ∃ (k : Kernel QueueTab) (body : List DeferOp), k.ndefers = 0 ∧ nested body 0 = true ∧ ¬DeferredUse k body := by
  refine ⟨sysinit 4096 1048576, List.replicate (2 ^ 31 - 1) .start ++ List.replicate (2 ^ 31 - 1) .stop, rfl, ?_, ?_⟩
  · rw [nested_starts, Nat.zero_add]
    exact nested_stops _
  · intro D
    have hover : (run (sysinit 4096 1048576) (List.replicate (2 ^ 31 - 1 + 1) .start)).ndefers = -2147483648 :=
      run_starts rfl (Nat.le_refl _)
    have h := D.ndefers
    rw [whole_use, run_append, run_stops (by rw [hover]; decide), hover] at h
    cases h

end Use

end Xinu
