import Xinu.Kernel.Counting

/-!
# What an event adds to the history of a semaphore

A system call adds to the history of a semaphore only what its source says (`Call.adds`): `wait` one record of its caller,
`signal` and `signaln` a unit for each count, `semreset` and `semdelete` the processes they flush. The end of `kill` takes a
waiting victim away, and no other event adds anything (`Does.adds`).
-/

namespace Xinu

open Kernel

/-- What a system call of the process `cur` may add to the history of the semaphore `s`. -/
def Call.adds (s cur : Int) : Call → Semaphore.Ev Int → Prop
  | .wait t, .pass p | .wait t, .block p => t = s ∧ p = cur
  | .signal t, .signal | .signal t, .release _ | .signaln t _, .signal | .signaln t _, .release _ => t = s
  | .semreset t _, .flush _ | .semdelete t, .flush _ | .semdelete t, .delete => t = s
  | .semreset t n, .reset c => t = s ∧ (c : Int) = int32 n
  | .semcreate n, .create c => (c : Int) = int32 n
  | _, _ => False

/-! ## The calls for a semaphore -/

section Calls

variable {Q : Type} [QueueOps Q] {k : Kernel Q} {s : Int}

/-- A count above zero lets the caller of `wait` go on. -/
theorem wait_passed (hs : isbadsem s = false) (hu : (k.semtab s).sstate = .S_USED)
    (hc : 0 ≤ int32 ((k.semtab s).scount - 1)) :
    semHistory s (k.wait s).1.log = .pass k.currpid :: semHistory s k.log ∧ (k.wait s).1.currpid = k.currpid ∧
      (k.wait s).2 = .ret OK := by
  unfold Kernel.wait
  rw [if_neg (by simp [hs]), if_neg (by simp [hu])]
  simp only
  rw [if_neg (Int.not_lt.mpr hc)]
  exact ⟨by simp [semHistory, semEvent, Kernel.note, Kernel.setSem], rfl, rfl⟩

/-- Else the caller of `wait` is recorded as blocked, and is to return `OK`. -/
theorem wait_blocked (hs : isbadsem s = false) (hu : (k.semtab s).sstate = .S_USED)
    (hc : int32 ((k.semtab s).scount - 1) < 0) :
    semHistory s (k.wait s).1.log = .block k.currpid :: semHistory s k.log ∧ (k.wait s).2 = .ret OK := by
  have hlog : ∀ (k' : Kernel Q) (p q : Int), (k'.enqueue p q).2.log = k'.log := by
    intro k' p q
    unfold Kernel.enqueue
    split <;> rfl
  unfold Kernel.wait
  rw [if_neg (by simp [hs]), if_neg (by simp [hu])]
  simp only
  rw [if_pos hc]
  refine ⟨?_, rfl⟩
  rw [resched_log]
  simp [semHistory, semEvent, Kernel.note, hlog, Kernel.setSem, Kernel.setProc]

/-- A `wait` for what is no semaphore changes nothing. -/
theorem wait_refused (h : isbadsem s = true ∨ (k.semtab s).sstate = .S_FREE) : k.wait s = (k, .ret SYSERR) := by
  unfold Kernel.wait
  split
  · rfl
  · next hs => rw [if_pos (h.resolve_left hs)]

/-- One increment of `signal` and `signaln` adds a unit, and releases at most one process. -/
theorem signalOne_history (k : Kernel Q) (s : Int) : ∃ new : List (Semaphore.Ev Int),
    semHistory s (k.signalOne s).log = new ++ semHistory s k.log ∧ new.count .signal = 1 ∧
      ∀ ev ∈ new, ev = .signal ∨ ∃ p, ev = .release p := by
  unfold Kernel.signalOne
  simp only
  split
  · refine ⟨[.release (QueueOps.dequeue k.queuetab (squeue s)).1, .signal], ?_, by simp, by simp⟩
    rw [ready_log]
    simp [semHistory, semEvent, Kernel.note, Kernel.dequeue, Kernel.setQueues, Kernel.setSem]
  · exact ⟨[.signal], by simp [semHistory, semEvent, Kernel.note, Kernel.setSem], by simp, by simp⟩

/-- The loop of `signaln` adds its units and releases processes. -/
theorem signalLoop_history (s : Int) (n : Nat) (k : Kernel Q) : ∃ new : List (Semaphore.Ev Int),
    semHistory s (signalLoop s n k).log = new ++ semHistory s k.log ∧ new.count .signal = n ∧
      ∀ ev ∈ new, ev = .signal ∨ ∃ p, ev = .release p := by
  induction n generalizing k with
  | zero => exact ⟨[], rfl, rfl, by simp⟩
  | succ n ih =>
    obtain ⟨new, h1, h2, h3⟩ := signalOne_history k s
    obtain ⟨new', h1', h2', h3'⟩ := ih (k.signalOne s)
    refine ⟨new' ++ new, ?_, ?_, fun ev hev => (List.mem_append.mp hev).elim (h3' ev) (h3 ev)⟩
    · rw [signalLoop, h1', h1, List.append_assoc]
    · rw [List.count_append, h2, h2']

theorem signal_history (hs : isbadsem s = false) (hu : (k.semtab s).sstate = .S_USED) :
    ∃ new : List (Semaphore.Ev Int), semHistory s (k.signal s).1.log = new ++ semHistory s k.log ∧
      new.count .signal = 1 ∧ ∀ ev ∈ new, ev = .signal ∨ ∃ p, ev = .release p := by
  unfold Kernel.signal
  rw [if_neg (by simp [hs]), if_neg (by simp [hu])]
  exact signalOne_history k s

/-- `signaln` adds as many units as it is asked for. -/
theorem signaln_history {n : Int} (hs : isbadsem s = false) (hu : (k.semtab s).sstate = .S_USED) (hn : 0 ≤ int32 n) :
    ∃ new : List (Semaphore.Ev Int), semHistory s (k.signaln s n).1.log = new ++ semHistory s k.log ∧
      (new.count .signal : Int) = int32 n ∧ ∀ ev ∈ new, ev = .signal ∨ ∃ p, ev = .release p := by
  obtain ⟨new, h1, h2, h3⟩ := signalLoop_history s (int32 n).toNat k.deferStart
  unfold Kernel.signaln
  simp only
  rw [if_neg (by simp [hs, Int.not_lt.mpr hn]), if_neg (by simp [hu])]
  refine ⟨new, ?_, by omega, h3⟩
  rw [deferStop_log, h1]
  rfl

/-- The loop of `semreset` only flushes. -/
theorem resetLoop_history (s : Int) (n : Nat) (k : Kernel Q) : ∃ new : List (Semaphore.Ev Int),
    semHistory s (resetLoop s n k).log = new ++ semHistory s k.log ∧ ∀ ev ∈ new, ∃ p, ev = .flush p := by
  induction n generalizing k with
  | zero => exact ⟨[], rfl, by simp⟩
  | succ n ih =>
    unfold resetLoop
    simp only
    split
    · exact ⟨[], rfl, by simp⟩
    · obtain ⟨new, h1, h2⟩ := ih _
      refine ⟨new ++ [.flush (k.getfirst (squeue s)).1], ?_, ?_⟩
      · rw [h1, ready_log]
        simp [semHistory, semEvent, Kernel.note, Kernel.getfirst, Kernel.setQueues]
      · intro ev hev
        rcases List.mem_append.mp hev with hev | hev
        · exact h2 ev hev
        · exact ⟨_, List.mem_singleton.mp hev⟩

/-- `semreset` ends with the record of the new count. -/
theorem semreset_history {n : Int} (hs : isbadsem s = false) (hu : (k.semtab s).sstate = .S_USED) (hn : 0 ≤ int32 n) :
    ∃ new : List (Semaphore.Ev Int), semHistory s (k.semreset s n).1.log = .reset (int32 n).toNat :: new ++ semHistory s k.log ∧
      ∀ ev ∈ new, ∃ p, ev = .flush p := by
  obtain ⟨new, h1, h2⟩ := resetLoop_history s (NPROC.toNat + 1) k.deferStart
  unfold Kernel.semreset
  simp only
  rw [if_neg (by simp [hs, hu, Int.not_lt.mpr hn])]
  refine ⟨new, ?_, h2⟩
  rw [deferStop_log]
  have ho : semEvent s (.semwasreset s (int32 n)) = some (.reset (int32 n).toNat) := if_pos rfl
  exact (List.filterMap_cons_some ho).trans (congrArg _ h1)

/-- The loop of `semdelete` only flushes. -/
theorem deleteLoop_history (s : Int) (n : Nat) (k : Kernel Q) : ∃ new : List (Semaphore.Ev Int),
    semHistory s (deleteLoop s n k).log = new ++ semHistory s k.log ∧ ∀ ev ∈ new, ∃ p, ev = .flush p := by
  induction n generalizing k with
  | zero => exact ⟨[], rfl, by simp⟩
  | succ n ih =>
    unfold deleteLoop
    simp only
    split
    · obtain ⟨new, h1, h2⟩ := ih _
      refine ⟨new ++ [.flush (QueueOps.getfirst k.queuetab (squeue s)).1], ?_, ?_⟩
      · rw [h1, ready_log]
        simp [semHistory, semEvent, Kernel.note, Kernel.getfirst, Kernel.setQueues, Kernel.setSem]
      · intro ev hev
        rcases List.mem_append.mp hev with hev | hev
        · exact h2 ev hev
        · exact ⟨_, List.mem_singleton.mp hev⟩
    · exact ⟨[], rfl, by simp⟩

/-- `semdelete` ends with the record that it is gone. -/
theorem semdelete_history (hs : isbadsem s = false) (hu : (k.semtab s).sstate = .S_USED) :
    ∃ new : List (Semaphore.Ev Int), semHistory s (k.semdelete s).1.log = .delete :: new ++ semHistory s k.log ∧
      ∀ ev ∈ new, ∃ p, ev = .flush p := by
  unfold Kernel.semdelete
  rw [if_neg (by simp [hs]), if_neg (by simp [hu])]
  simp only
  obtain ⟨new, h1, h2⟩ := deleteLoop_history s ((-(k.semtab s).scount).toNat + 1)
    (k.setSem s { k.semtab s with sstate := .S_FREE }).deferStart
  refine ⟨new, ?_, h2⟩
  rw [deferStop_log]
  have ho : semEvent s (.semdeleted s) = some .delete := if_pos rfl
  exact (List.filterMap_cons_some ho).trans (congrArg _ h1)

omit [QueueOps Q] in
/-- `semcreate` adds a record when it returns the semaphore, and else none. -/
theorem semcreate_history (hs : isbadsem s = false) (n : Int) :
    (semHistory s (k.semcreate n).1.log = semHistory s k.log ∧ (k.semcreate n).2 ≠ .ret s) ∨
      semHistory s (k.semcreate n).1.log = .create (int32 n).toNat :: semHistory s k.log ∧ 0 ≤ int32 n := by
  have hne : Resume.ret SYSERR ≠ .ret s := by
    rintro ⟨⟩
    revert hs
    decide
  unfold Kernel.semcreate
  simp only
  split
  · exact Or.inl ⟨rfl, hne⟩
  · next hn =>
    rcases newsemLoop k.semtab NSEM.toNat k.nextsem with ⟨_ | t, ns⟩
    · exact Or.inl ⟨rfl, hne⟩
    · by_cases ht : t = s
      · exact Or.inr ⟨List.filterMap_cons_some (if_pos ht), by omega⟩
      · have ho : semEvent s (.semcreated t (int32 n)) = none := if_neg ht
        refine Or.inl ⟨semHistory_ne ho _, ?_⟩
        rintro ⟨⟩
        exact ht rfl

/-- A call for what is no semaphore changes nothing. -/
theorem call_refused {c : Call} (ht : c.touches s = true) (hu : (k.semtab s).sstate = .S_FREE) : (k.call c).1 = k := by
  cases c with
  | wait t =>
    obtain rfl : t = s := of_decide_eq_true ht
    exact congrArg Prod.fst (wait_refused (Or.inr hu))
  | signal t =>
    obtain rfl : t = s := of_decide_eq_true ht
    simp [Kernel.call, Kernel.signal, hu]
  | signaln t n =>
    obtain rfl : t = s := of_decide_eq_true ht
    simp [Kernel.call, Kernel.signaln, hu]
  | semreset t n =>
    obtain rfl : t = s := of_decide_eq_true ht
    simp [Kernel.call, Kernel.semreset, hu]
  | semdelete t =>
    obtain rfl : t = s := of_decide_eq_true ht
    simp [Kernel.call, Kernel.semdelete, hu]
  | _ => cases ht

/-- What a call for a semaphore adds to its history. -/
theorem call_adds {c : Call} (hs : isbadsem s = false) (ht : c.touches s = true) :
    ∃ new, semHistory s (k.call c).1.log = new ++ semHistory s k.log ∧ ∀ ev ∈ new, c.adds s k.currpid ev := by
  cases hst : (k.semtab s).sstate with
  | S_FREE =>
    rw [call_refused ht hst]
    exact ⟨[], rfl, by simp⟩
  | S_USED =>
    cases c with
    | wait t =>
      obtain rfl : t = s := of_decide_eq_true ht
      by_cases hc : int32 ((k.semtab t).scount - 1) < 0
      · exact ⟨[.block k.currpid], (wait_blocked hs hst hc).1, by simp [Call.adds]⟩
      · exact ⟨[.pass k.currpid], (wait_passed hs hst (Int.not_lt.mp hc)).1, by simp [Call.adds]⟩
    | signal t =>
      obtain rfl : t = s := of_decide_eq_true ht
      obtain ⟨new, h1, _, h3⟩ := signal_history hs hst
      refine ⟨new, h1, fun ev hev => ?_⟩
      obtain rfl | ⟨p, rfl⟩ := h3 ev hev <;> exact rfl
    | signaln t n =>
      obtain rfl : t = s := of_decide_eq_true ht
      by_cases hn : 0 ≤ int32 n
      · obtain ⟨new, h1, _, h3⟩ := signaln_history hs hst hn
        refine ⟨new, h1, fun ev hev => ?_⟩
        obtain rfl | ⟨p, rfl⟩ := h3 ev hev <;> exact rfl
      · refine ⟨[], ?_, by simp⟩
        simp [Kernel.call, Kernel.signaln, Int.not_le.mp hn]
    | semreset t n =>
      obtain rfl : t = s := of_decide_eq_true ht
      by_cases hn : 0 ≤ int32 n
      · obtain ⟨new, h1, h2⟩ := semreset_history hs hst hn
        refine ⟨_, h1, fun ev hev => ?_⟩
        rcases List.mem_cons.mp hev with rfl | hev
        · exact ⟨rfl, Int.toNat_of_nonneg hn⟩
        · obtain ⟨p, rfl⟩ := h2 ev hev
          exact rfl
      · refine ⟨[], ?_, by simp⟩
        simp [Kernel.call, Kernel.semreset, Int.not_le.mp hn]
    | semdelete t =>
      obtain rfl : t = s := of_decide_eq_true ht
      obtain ⟨new, h1, h2⟩ := semdelete_history hs hst
      refine ⟨_, h1, fun ev hev => ?_⟩
      rcases List.mem_cons.mp hev with rfl | hev
      · exact rfl
      · obtain ⟨p, rfl⟩ := h2 ev hev
        exact rfl
    | _ => cases ht

/-- The end of `kill` takes its victim away from the semaphore it waits for. -/
theorem killEnd_waiting {pid : Int} (hw : k.Waits s pid) :
    semHistory s (k.killEnd pid).log = .cancel pid :: semHistory s k.log := by
  have hst : ((k.freeStack pid).proctab pid).prstate = .PR_WAIT := hw.1
  have hsem : ((k.freeStack pid).proctab pid).prsem = s := hw.2
  unfold Kernel.killEnd Kernel.killSwitch
  simp only [hst, hsem]
  have hcancel : semEvent s (.unwaited s pid) = some (.cancel pid) := if_pos rfl
  show List.filterMap (semEvent s) (.freed pid :: .unwaited s pid :: .stkfreed pid _ _ :: k.log) = _
  rw [List.filterMap_cons_none rfl, List.filterMap_cons_some hcancel, List.filterMap_cons_none rfl]
  rfl

end Calls

/-! ## Events -/

section Events

variable {C : Client} {m m' : Machine C} {e : Event C} {h h' : Kernel QLists} {s : Int}

/-- What an event adds to the history of a semaphore: what its system call may add, or the victim of a `kill`. -/
theorem Does.adds (D : Does m e h m' h') (St : Steady m h) (St' : Steady m' h') (hs : isbadsem s = false) :
    ∃ new, semHistory s m'.k.log = new ++ semHistory s m.k.log ∧ ∀ ev ∈ new,
      (∃ c, m.issued e = some c ∧ c.adds s m.k.currpid ev) ∨ ∃ pid, m.removes e = some pid ∧ ev = .cancel pid := by
  have hsame : SameSem s h h' → semHistory s m'.k.log = semHistory s m.k.log := by
    intro S
    rw [St.sim.fields.2.2.2.2.1, St'.sim.fields.2.2.2.2.1]
    exact S.history
  have hnone : semHistory s m'.k.log = semHistory s m.k.log → ∃ new, semHistory s m'.k.log = new ++ semHistory s m.k.log ∧
      ∀ ev ∈ new, (∃ c, m.issued e = some c ∧ c.adds s m.k.currpid ev) ∨
        ∃ pid, m.removes e = some pid ∧ ev = .cancel pid := fun e => ⟨[], e, by simp⟩
  cases D with
  | call c d l rest hi hr hk a =>
    by_cases ht : c.touches s = true
    · obtain ⟨new, h1, h2⟩ := call_adds (k := m.k) hs ht
      exact ⟨new, h1, fun ev hev => Or.inl ⟨c, hi, h2 ev hev⟩⟩
    · by_cases hc : ∃ n, c = .semcreate n
      · obtain ⟨n, rfl⟩ := hc
        rcases semcreate_history (k := m.k) hs n with ⟨h1, _⟩ | ⟨h1, hn⟩
        · exact hnone h1
        · refine ⟨[_], h1, fun ev hev => Or.inl ⟨_, hi, ?_⟩⟩
          rw [List.mem_singleton.mp hev]
          exact Int.toNat_of_nonneg hn
      · refine hnone (hsame (a.sameSem St.inv hs (fun hm => ?_) (fun hm => ht (Call.touches_of_kinds hm))
          (fun p => c.kinds_killed p)))
        cases c with
        | semcreate n => exact absurd ⟨n, rfl⟩ hc
        | _ => simp [Call.kinds] at hm
  | inside | back | closed => exact hnone rfl
  | stop => exact hnone rfl
  | tick he t a =>
    refine hnone (hsame ?_)
    have S := (Acts.single (Act.plain t) (List.mem_singleton_self _)).sameSem St.inv hs (by simp) (by simp) (by simp)
    exact S.trans (a.sameSem ((Act.plain t).inv St.inv) hs (by simp) (by simp) (by simp))
  | take => exact hnone (semHistory_ne rfl _)
  | killEnd pid i rest hstk hi hk a he =>
    have hrem : m.removes e = some pid := by simp only [he, Machine.removes, hstk, if_neg hi]
    by_cases hw : m.k.Waits s pid
    · exact ⟨[.cancel pid], killEnd_waiting hw, by simp [hrem]⟩
    · refine hnone (hsame (a.sameSem_killed St.inv hs ?_))
      rwa [Kernel.Waits, ← St.sim.fields.1]

end Events

end Xinu
