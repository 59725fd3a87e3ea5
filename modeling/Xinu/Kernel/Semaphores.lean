import Xinu.Lib.Semaphore
import Xinu.Kernel.Actions

/-!
# Semaphores

The kernel's semaphores are counting semaphores: what the kernel has done with a semaphore is a history that the abstract
machine of `Lib.Semaphore` accepts, and its table entry and its queue are what that machine says (`Tracks`). Every step keeps
this as long as no count is raised past the largest integer (`tracked_stable`).
-/

namespace Xinu

open Kernel

/-- What the kernel records, as an event of the semaphore `s`. -/
def semEvent (s : Int) : Obs → Option (Semaphore.Ev Int)
  | .passed t p => if t = s then some (.pass p) else none
  | .blocked t p => if t = s then some (.block p) else none
  | .signalled t _ => if t = s then some .signal else none
  | .released t p => if t = s then some (.release p) else none
  | .flushed t p => if t = s then some (.flush p) else none
  | .unwaited t p => if t = s then some (.cancel p) else none
  | .semcreated t c => if t = s then some (.create c.toNat) else none
  | .semwasreset t c => if t = s then some (.reset c.toNat) else none
  | .semdeleted t => if t = s then some .delete else none
  | _ => none

/-- The history of a semaphore, most recent event first. -/
def semHistory (s : Int) (log : List Obs) : List (Semaphore.Ev Int) := log.filterMap (semEvent s)

/-- The largest count. -/
def MAXCOUNT : Int := 2147483647

/-- No count has been raised past the largest integer. -/
def CountsFit (log : List Obs) : Prop := ∀ s c, .signalled s c ∈ log → c < MAXCOUNT

/-- The count of the semaphore `s` has not been raised past the largest integer. -/
def CountFits (s : Int) (log : List Obs) : Prop := ∀ c, .signalled s c ∈ log → c < MAXCOUNT

/-- The test for one record. -/
def Obs.fits : Obs → Bool
  | .signalled _ c => decide (c < MAXCOUNT)
  | _ => true

/-- The condition on the counts, decided from the records. -/
theorem countsFit_iff {log : List Obs} : log.all Obs.fits = true ↔ CountsFit log := by
  rw [List.all_eq_true]
  constructor
  · intro hall s c hm
    exact of_decide_eq_true (hall _ hm)
  · intro hfit o ho
    cases o with
    | signalled s c => exact decide_eq_true (hfit s c ho)
    | _ => rfl

instance (log : List Obs) : Decidable (CountsFit log) := decidable_of_iff _ countsFit_iff

/-- The semaphore `s` is in the state `σ`. -/
structure Tracks (h : Kernel QLists) (s : Int) (σ : Semaphore.State Int) : Prop where
  after : Semaphore.after (semHistory s h.log) = some σ
  waiting : h.queuetab.ids (squeue s) = σ.waiting
  used : (h.semtab s).sstate = .S_USED ↔ σ.used = true
  count : σ.used = true → (h.semtab s).scount = σ.free.length - σ.waiting.length
  fits : σ.used = true → (h.semtab s).scount ≤ MAXCOUNT
  low : σ.waiting ≠ [] → σ.free = []
  idle : σ.used = false → σ.waiting = []

theorem setCount_self (h : Kernel QLists) (s c : Int) : (h.setCount s c).semtab s = { h.semtab s with scount := c } :=
  Function.update_self _ _ _

namespace Tracks

variable {h h' : Kernel QLists} {s t p : Int} {σ σ' : Semaphore.State Int}

/-- The state of a semaphore depends on its history, its queue and its entry. -/
theorem frame (T : Tracks h s σ) (hlog : semHistory s h'.log = semHistory s h.log)
    (hids : h'.queuetab.ids (squeue s) = h.queuetab.ids (squeue s)) (hsem : h'.semtab s = h.semtab s) : Tracks h' s σ := by
  refine ⟨hlog ▸ T.after, hids ▸ T.waiting, ?_, ?_, ?_, T.low, T.idle⟩
  · rw [hsem]
    exact T.used
  · rw [hsem]
    exact T.count
  · rw [hsem]
    exact T.fits

/-- A step of the semaphore, with the new queue and the new entry. -/
theorem next (T : Tracks h s σ) {o : Obs} {e : Semaphore.Ev Int} (hlog : h'.log = o :: h.log) (ho : semEvent s o = some e)
    (hstep : σ.step e = some σ') (hids : h'.queuetab.ids (squeue s) = σ'.waiting)
    (hu : (h'.semtab s).sstate = .S_USED ↔ σ'.used = true)
    (hc : σ'.used = true → (h'.semtab s).scount = σ'.free.length - σ'.waiting.length ∧ (h'.semtab s).scount ≤ MAXCOUNT)
    (hlow : σ'.waiting ≠ [] → σ'.free = []) (hidle : σ'.used = false → σ'.waiting = []) : Tracks h' s σ' := by
  refine ⟨?_, hids, hu, fun h => (hc h).1, fun h => (hc h).2, hlow, hidle⟩
  rw [hlog, semHistory, List.filterMap_cons_some ho]
  show (Semaphore.after (semHistory s h.log)).bind _ = _
  rw [T.after]
  exact hstep

theorem is_used (T : Tracks h s σ) (hu : (h.semtab s).sstate = .S_USED) : σ.used = true := T.used.mp hu

/-- A count that is not negative has no waiting process. -/
theorem empty (T : Tracks h s σ) (hu : (h.semtab s).sstate = .S_USED) (hc : 0 ≤ (h.semtab s).scount) : σ.waiting = [] := by
  by_contra hne
  have h1 := T.count (T.is_used hu)
  have h2 := List.length_pos_iff.mpr hne
  rw [T.low hne, List.length_nil] at h1
  omega

/-- A negative count has waiting processes. -/
theorem nonempty (T : Tracks h s σ) (hu : (h.semtab s).sstate = .S_USED) (hc : (h.semtab s).scount < 0) :
    σ.waiting ≠ [] := by
  intro hnil
  have h1 := T.count (T.is_used hu)
  rw [hnil, List.length_nil] at h1
  omega

/-- The process a negative count stands for. -/
theorem used_of_waiting (T : Tracks h s σ) (hw : σ.waiting ≠ []) :
    (h.semtab s).sstate = .S_USED ∧ σ.free = [] ∧ (h.semtab s).scount = -σ.waiting.length := by
  have hu : σ.used = true := by
    by_contra hn
    exact hw (T.idle (by simpa using hn))
  have h1 := T.count hu
  rw [T.low hw, List.length_nil] at h1
  exact ⟨T.used.mpr hu, T.low hw, by omega⟩

theorem length_le (T : Tracks h s σ) (I : Inv0 h) : σ.waiting.length ≤ NPROC.toNat := by
  rw [← T.waiting]
  exact pids_length_le (I.nodup _) (fun p hp => I.isPid_of_mem hp)

/-- No more processes wait than there are. -/
theorem low_count (T : Tracks h s σ) (I : Inv0 h) (hu : (h.semtab s).sstate = .S_USED) :
    -100 ≤ (h.semtab s).scount ∧ (h.semtab s).scount ≤ 2147483647 := by
  have h1 := T.count (T.is_used hu)
  have h2 := T.length_le I
  have h3 : NPROC.toNat = 100 := rfl
  have h4 : MAXCOUNT = 2147483647 := rfl
  have h5 := T.fits (T.is_used hu)
  omega

/-! ### The steps of a semaphore -/

/-- `wait` that takes a unit. -/
theorem passed (T : Tracks h s σ) (I : Inv h) (hu : (h.semtab s).sstate = .S_USED) (hc : 0 ≤ int32 ((h.semtab s).scount - 1)) :
    ∃ σ', Tracks ((h.setCount s (int32 ((h.semtab s).scount - 1))).note (.passed s h.currpid)) s σ' := by
  obtain ⟨h1, h2⟩ := T.low_count I.toInv0 hu
  have h3 : int32 ((h.semtab s).scount - 1) = (h.semtab s).scount - 1 := int32_of_range (by omega) (by omega)
  have hnil := T.empty hu (by omega)
  have hcount := T.count (T.is_used hu)
  rcases hf : σ.free with _ | ⟨t, free⟩
  · rw [hf, hnil, List.length_nil] at hcount
    omega
  · refine ⟨{ σ with free := free, grants := σ.grants ++ [(h.currpid, t)] }, T.next rfl (if_pos rfl) ?_ T.waiting ?_
      (fun _ => ?_) (fun hw => absurd hnil hw) (fun _ => hnil)⟩
    · simp [Semaphore.State.step, Semaphore.State.grant, T.is_used hu, hnil, hf]
    · simpa [Kernel.note, Kernel.setCount, Kernel.setSem] using T.used
    · rw [hf, hnil] at hcount
      simp only [Kernel.note, setCount_self, h3, hnil, MAXCOUNT, List.length_cons, List.length_nil] at hcount ⊢
      omega

/-- `wait` that blocks. -/
theorem blocked (T : Tracks h s σ) (I : Inv h) (hu : (h.semtab s).sstate = .S_USED) (hc : int32 ((h.semtab s).scount - 1) < 0) :
    ∃ σ', Tracks (h.blockOn s) s σ' := by
  obtain ⟨h1, h2⟩ := T.low_count I.toInv0 hu
  have h3 : int32 ((h.semtab s).scount - 1) = (h.semtab s).scount - 1 := int32_of_range (by omega) (by omega)
  have hcount := T.count (T.is_used hu)
  have hfree : σ.free = [] := by
    by_cases hw : σ.waiting = []
    · rw [hw, List.length_nil] at hcount
      exact List.eq_nil_of_length_eq_zero (by omega)
    · exact T.low hw
  have hout : h.currpid ∉ σ.waiting := T.waiting ▸ I.not_mem I.currpid_home (squeue s)
  refine ⟨{ σ with waiting := σ.waiting ++ [h.currpid] }, T.next rfl (if_pos rfl) ?_ ?_ ?_ (fun _ => ?_) (fun _ => hfree)
    (fun hn => ?_)⟩
  · simp [Semaphore.State.step, T.is_used hu, hfree, hout]
  · rw [← T.waiting]
    exact Function.update_self _ _ _
  · simpa [Kernel.blockOn, Kernel.note, Kernel.setQueues, Kernel.setProc, Kernel.setCount, Kernel.setSem] using T.used
  · have : (h.blockOn s).semtab s = { h.semtab s with scount := (h.semtab s).scount - 1 } := by
      rw [← h3]
      exact Function.update_self _ _ _
    rw [hfree] at hcount
    simp only [this, hfree, MAXCOUNT, List.length_append, List.length_cons, List.length_nil] at hcount ⊢
    omega
  · rw [T.is_used hu] at hn
    cases hn

/-- A unit that nobody waits for. -/
theorem signalled (T : Tracks h s σ) (hu : (h.semtab s).sstate = .S_USED) (hc : 0 ≤ (h.semtab s).scount)
    (hfit : (h.semtab s).scount < MAXCOUNT) : ∃ σ', Tracks (h.raise s) s σ' := by
  have hM : MAXCOUNT = 2147483647 := rfl
  have h3 : int32 ((h.semtab s).scount + 1) = (h.semtab s).scount + 1 := int32_of_range (by omega) (by omega)
  have hnil := T.empty hu hc
  have hcount := T.count (T.is_used hu)
  refine ⟨{ σ with signals := σ.signals + 1, free := σ.free ++ [.signal σ.signals] }, T.next rfl (if_pos rfl) ?_ T.waiting ?_
    (fun _ => ?_) (fun hw => absurd hnil hw) (fun _ => hnil)⟩
  · simp [Semaphore.State.step, T.is_used hu]
  · simpa [Kernel.raise, Kernel.note, Kernel.setCount, Kernel.setSem] using T.used
  · rw [hnil] at hcount
    simp only [Kernel.raise, Kernel.note, setCount_self, h3, hnil, List.length_append, List.length_cons,
      List.length_nil] at hcount ⊢
    omega

/-- The process that has waited longest leaves the queue, and the count is raised. -/
theorem dequeued (T : Tracks h s σ) (I : Inv h) {rest : List Int} (hq : h.queuetab.ids (squeue s) = p :: rest)
    (hlog : Semaphore.after (semHistory s h'.log) = some σ') (hσ : σ'.used = true ∧ σ'.free = [] ∧ σ'.waiting = rest)
    (hids : h'.queuetab.ids (squeue s) = (h.queuetab.getitem p).ids (squeue s))
    (hsem : h'.semtab s = { h.semtab s with scount := int32 ((h.semtab s).scount + 1) }) : Tracks h' s σ' := by
  have hw : σ.waiting = p :: rest := T.waiting ▸ hq
  obtain ⟨hused, _, hcount⟩ := T.used_of_waiting (by simp [hw])
  obtain ⟨h1, h2⟩ := T.low_count I.toInv0 hused
  rw [hw, List.length_cons] at hcount
  have h3 : int32 ((h.semtab s).scount + 1) = (h.semtab s).scount + 1 := int32_of_range (by omega) (by omega)
  refine ⟨hlog, ?_, ?_, fun _ => ?_, fun _ => ?_, fun _ => hσ.2.1, fun hn => ?_⟩
  · rw [hids, hσ.2.2]
    show (h.queuetab.ids (squeue s)).erase p = rest
    rw [hq, List.erase_cons_head]
  · rw [hsem]
    exact ⟨fun _ => hσ.1, fun _ => hused⟩
  · rw [hsem, hσ.2.1, hσ.2.2, List.length_nil]
    simp only [h3]
    omega
  · rw [hsem]
    simp only [h3, MAXCOUNT]
    omega
  · rw [hσ.1] at hn
    cases hn

/-- A unit that the first process on the queue gets. -/
theorem released (T : Tracks h s σ) (I : Inv h) {rest : List Int} (hq : h.queuetab.ids (squeue s) = p :: rest) (hs : isbadsem s = false) :
    ∃ σ', Tracks ((((h.raise s).getitem p).note (.released s p)).makeReady p) s σ' := by
  have hw : σ.waiting = p :: rest := T.waiting ▸ hq
  obtain ⟨hused, hfree, _⟩ := T.used_of_waiting (by simp [hw])
  have hu' := T.is_used hused
  refine ⟨{ σ with signals := σ.signals + 1, waiting := rest, grants := σ.grants ++ [(p, .signal σ.signals)] },
    T.dequeued I hq ?_ ⟨hu', hfree, rfl⟩ ((QLists.put_insert _ _ _ _).other _ (squeue_ne hs).1) (setCount_self _ _ _)⟩
  have hlog : semHistory s ((((h.raise s).getitem p).note (.released s p)).makeReady p).log =
      .release p :: .signal :: semHistory s h.log := by
    simp [semHistory, semEvent, Kernel.makeReady, Kernel.note, Kernel.getitem, Kernel.raise, Kernel.setQueues,
      Kernel.setState, Kernel.setProc, Kernel.setCount, Kernel.setSem]
  rw [hlog]
  simp [Semaphore.after, T.after, Semaphore.State.step, Semaphore.State.leave, Semaphore.State.grant, hu', hw, hfree]

/-- The first process leaves without a unit. -/
theorem flushed (T : Tracks h s σ) (I : Inv h) {rest : List Int} (hq : h.queuetab.ids (squeue s) = p :: rest) (hs : isbadsem s = false) :
    ∃ σ', Tracks ((((h.setCount s (int32 ((h.semtab s).scount + 1))).getitem p).note (.flushed s p)).makeReady p) s σ' := by
  have hw : σ.waiting = p :: rest := T.waiting ▸ hq
  obtain ⟨hused, hfree, _⟩ := T.used_of_waiting (by simp [hw])
  refine ⟨{ σ with waiting := rest }, T.dequeued I hq ?_ ⟨T.is_used hused, hfree, rfl⟩
    ((QLists.put_insert _ _ _ _).other _ (squeue_ne hs).1) (setCount_self _ _ _)⟩
  have hlog : semHistory s ((((h.setCount s (int32 ((h.semtab s).scount + 1))).getitem p).note (.flushed s p)).makeReady
      p).log = .flush p :: semHistory s h.log := by
    simp [semHistory, semEvent, Kernel.makeReady, Kernel.note, Kernel.getitem, Kernel.setQueues, Kernel.setState,
      Kernel.setProc, Kernel.setCount, Kernel.setSem]
  rw [hlog]
  simp [Semaphore.after, T.after, Semaphore.State.step, Semaphore.State.leave, hw]

/-- `kill` takes a process off the queue and repairs the count. -/
theorem unwaited (T : Tracks h s σ) (I : Inv h) (hm : p ∈ h.queuetab.ids (squeue s)) :
    ∃ σ', Tracks ((((h.setCount s (int32 ((h.semtab s).scount + 1))).note (.unwaited s p)).getitem p).release p) s σ' := by
  have hm' : p ∈ σ.waiting := T.waiting ▸ hm
  obtain ⟨hused, hfree, hcount⟩ := T.used_of_waiting (List.ne_nil_of_mem hm')
  obtain ⟨h1, h2⟩ := T.low_count I.toInv0 hused
  have hpos := List.length_pos_of_mem hm'
  have h3 : int32 ((h.semtab s).scount + 1) = (h.semtab s).scount + 1 := int32_of_range (by omega) (by omega)
  refine ⟨{ σ with waiting := σ.waiting.erase p }, ?_, ?_, ?_, fun _ => ?_, fun _ => ?_, fun _ => hfree, fun hn => ?_⟩
  · have hlog : semHistory s ((((h.setCount s (int32 ((h.semtab s).scount + 1))).note (.unwaited s p)).getitem p).release
        p).log = .cancel p :: semHistory s h.log := by
      show List.filterMap (semEvent s) (.freed p :: .unwaited s p :: h.log) = _
      have hcancel : semEvent s (.unwaited s p) = some (.cancel p) := if_pos rfl
      rw [List.filterMap_cons_none rfl, List.filterMap_cons_some hcancel]
      rfl
    rw [hlog]
    simp [Semaphore.after, T.after, Semaphore.State.step, hm']
  · exact congrArg (fun l : List Int => l.erase p) T.waiting
  · simpa [Kernel.release, Kernel.note, Kernel.getitem, Kernel.setQueues, Kernel.setState, Kernel.setProc,
      Kernel.setCount, Kernel.setSem] using T.used
  · have := setCount_self h s (int32 ((h.semtab s).scount + 1))
    show ((h.setCount s (int32 ((h.semtab s).scount + 1))).semtab s).scount = _
    rw [this, hfree]
    simp only [h3, List.length_nil, List.length_erase_of_mem hm']
    omega
  · show ((h.setCount s (int32 ((h.semtab s).scount + 1))).semtab s).scount ≤ _
    rw [setCount_self]
    simp only [h3, MAXCOUNT]
    omega
  · rw [T.is_used hused] at hn
    cases hn

/-- `semcreate` sets the count of a free entry. -/
theorem created (T : Tracks h s σ) {c : Int} (hf : (h.semtab s).sstate = .S_FREE) (h1 : 0 ≤ c) (h2 : c ≤ MAXCOUNT) :
    ∃ σ', Tracks ((h.setSem s { sstate := .S_USED, scount := c }).note (.semcreated s c)) s σ' := by
  have hn : σ.used = false := by
    by_contra hn
    have := T.used.mpr (by simpa using hn)
    rw [hf] at this
    cases this
  have hnil := T.idle hn
  have hentry : (h.setSem s { sstate := .S_USED, scount := c }).semtab s = { sstate := .S_USED, scount := c } :=
    Function.update_self _ _ _
  refine ⟨σ.assign c.toNat, T.next rfl (if_pos rfl) ?_ T.waiting ?_ (fun _ => ?_) (fun hw => absurd hnil hw) (fun _ => hnil)⟩
  · simp [Semaphore.State.step, hn, hnil]
  · simp [Kernel.note, hentry, Semaphore.State.assign]
  · simp only [Kernel.note, hentry, Semaphore.State.assign, Semaphore.length_tokens, hnil, List.length_nil]
    omega

/-- `semreset` sets the count once nobody waits. -/
theorem reset (T : Tracks h s σ) (hu : (h.semtab s).sstate = .S_USED) {c : Int} (hq : h.queuetab.ids (squeue s) = [])
    (h1 : 0 ≤ c) (h2 : c ≤ MAXCOUNT) : ∃ σ', Tracks ((h.setCount s c).note (.semwasreset s c)) s σ' := by
  have hnil : σ.waiting = [] := T.waiting ▸ hq
  refine ⟨σ.assign c.toNat, T.next rfl (if_pos rfl) ?_ T.waiting ?_ (fun _ => ?_) (fun hw => absurd hnil hw) (fun _ => hnil)⟩
  · simp [Semaphore.State.step, T.is_used hu, hnil]
  · simp [Kernel.note, setCount_self, hu, Semaphore.State.assign]
  · simp only [Kernel.note, setCount_self, Semaphore.State.assign, Semaphore.length_tokens, hnil, List.length_nil]
    omega

/-- `semdelete` frees the entry once nobody waits. -/
theorem deleted (T : Tracks h s σ) (hu : (h.semtab s).sstate = .S_USED) (hc : 0 ≤ (h.semtab s).scount) : ∃ σ', Tracks
    ((h.setSem s { sstate := .S_FREE, scount := int32 ((h.semtab s).scount + 1) }).note (.semdeleted s)) s σ' := by
  have hnil := T.empty hu hc
  refine ⟨{ σ with used := false }, T.next rfl (if_pos rfl) ?_ T.waiting ?_ (fun hn => ?_) (fun hw => absurd hnil hw)
    (fun _ => hnil)⟩
  · simp [Semaphore.State.step, T.is_used hu, hnil]
  · simp [Kernel.note, Kernel.setSem]
  · cases hn

end Tracks

/-- What has been recorded remains. -/
theorem Change.log_mem {h g : Kernel QLists} {κ : Kind} {b : Bool} (c : Change h κ b g) {o : Obs} (ho : o ∈ h.log) :
    o ∈ g.log := by
  cases c with
  | aux | stop | deferStart | deferStop | resched | ready | resumed | suspend | suspendSelf | chprio | receive => exact ho
  | created | killing | stkfreed | deposit | depositRecv | take | sleep | tick | woken | passed | blocked | signalled
  | flushed | flushedNone | semcreated | semreset | semdeleted | freed | freedReady | freedSelf =>
    exact List.mem_cons_of_mem _ ho
  | depositRectim | released | releasedNone | freedAsleep | freedWaiting =>
    exact List.mem_cons_of_mem _ (List.mem_cons_of_mem _ ho)

/-- The semaphore `s` is a counting semaphore, as long as its count fits. -/
def Tracked (s : Int) (h : Kernel QLists) : Prop := CountFits s h.log → ∃ σ, Tracks h s σ

section Tracked

variable {h g : Kernel QLists} {κ : Kind} {b : Bool} {s t p : Int} {σ : Semaphore.State Int}

theorem Kernel.makeReady_ids (h : Kernel QLists) (p : Int) {q : Int} (hq : q ≠ readylist) :
    (h.makeReady p).queuetab.ids q = h.queuetab.ids q :=
  (QLists.put_insert _ _ _ _).other q hq

theorem Inv0.getitem_ids (I : Inv0 h) {q : Int} (hp : homeOf (h.proctab p) ≠ some q) :
    (h.queuetab.getitem p).ids q = h.queuetab.ids q :=
  List.erase_of_not_mem (fun hm => hp ((I.mem p q).mp hm))

/-- A process on another list leaves the semaphore's queue alone. -/
theorem Inv0.getitem_squeue (I : Inv0 h) (hs : isbadsem s = false) (hp : (h.proctab p).prstate ≠ .PR_WAIT) :
    (h.queuetab.getitem p).ids (squeue s) = h.queuetab.ids (squeue s) :=
  I.getitem_ids (fun e => hp ((homeOf_squeue hs).mp e).1)

/-- A process on the queue of one semaphore leaves the queue of another alone. -/
theorem Inv0.getitem_squeue_ne (I : Inv0 h) (hm : p ∈ h.queuetab.ids (squeue t)) (hts : t ≠ s) :
    (h.queuetab.getitem p).ids (squeue s) = h.queuetab.ids (squeue s) :=
  List.erase_of_not_mem (fun hm' => hts (squeue_inj.mp (I.disj hm hm')))

theorem semHistory_ne {o : Obs} (ho : semEvent s o = none) (log : List Obs) : semHistory s (o :: log) = semHistory s log :=
  List.filterMap_cons_none ho

/-- What concerns the semaphore `s` is the same. -/
structure SameSem (s : Int) (h g : Kernel QLists) : Prop where
  history : semHistory s g.log = semHistory s h.log
  ids : g.queuetab.ids (squeue s) = h.queuetab.ids (squeue s)
  entry : g.semtab s = h.semtab s
  signalled : ∀ c, .signalled s c ∈ g.log → .signalled s c ∈ h.log

namespace SameSem

theorem refl (s : Int) (h : Kernel QLists) : SameSem s h h := ⟨rfl, rfl, rfl, fun _ hm => hm⟩

theorem trans {f : Kernel QLists} (S : SameSem s h g) (S' : SameSem s g f) : SameSem s h f :=
  ⟨S'.history.trans S.history, S'.ids.trans S.ids, S'.entry.trans S.entry, fun c hm => S.signalled c (S'.signalled c hm)⟩

/-- Records that do not concern the semaphore, and the entry of another one. -/
theorem frame (os : List Obs) (hlog : g.log = os ++ h.log) (hos : ∀ o ∈ os, semEvent s o = none)
    (hids : g.queuetab.ids (squeue s) = h.queuetab.ids (squeue s)) (hsem : g.semtab s = h.semtab s) : SameSem s h g := by
  refine ⟨?_, hids, hsem, fun c hm => ?_⟩
  · rw [hlog, semHistory, List.filterMap_append, List.filterMap_eq_nil_iff.mpr hos]
    rfl
  · rw [hlog] at hm
    refine (List.mem_append.mp hm).resolve_left (fun hm => ?_)
    have := hos _ hm
    simp [semEvent] at this

theorem resched (I : Inv0 h) (hs : isbadsem s = false) : SameSem s h h.resched := by
  have S := I.resched_only
  exact frame [] S.log (by simp) (S.ids _ (squeue_ne hs).1) (by rw [S.semtab])

end SameSem

/-- A change of the kernel concerns a semaphore only when it is a step of it, when it creates it, or when it removes a process
that waits for it. -/
theorem Change.sameSem_or (c : Change h κ b g) (I : Inv h) (hs : isbadsem s = false) :
    SameSem s h g ∨ κ = .sem s ∨ (κ = .semcreated ∧ (h.semtab s).sstate = .S_FREE) ∨
      ∃ p, κ = .killed p ∧ (h.proctab p).prstate = .PR_WAIT ∧ (h.proctab p).prsem = s := by
  have hready := (squeue_ne hs).1
  have hsleep := (squeue_ne hs).2
  cases c with
  | aux | stop | deferStart | deferStop | resched | suspendSelf | chprio | receive =>
    exact Or.inl (SameSem.frame [] rfl (by simp) rfl rfl)
  | created | killing | stkfreed | deposit | take | freed | freedSelf =>
    exact Or.inl (SameSem.frame [_] rfl (by simp [semEvent]) rfl rfl)
  | ready p | resumed p => exact Or.inl (SameSem.frame [] rfl (by simp) (h.makeReady_ids p hready) rfl)
  | suspend p hp =>
    exact Or.inl (SameSem.frame [] rfl (by simp) (I.getitem_squeue hs (by rw [hp]; decide)) rfl)
  | depositRecv p msg =>
    exact Or.inl (SameSem.frame [_] rfl (by simp [semEvent]) ((h.deposit p msg).makeReady_ids p hready) rfl)
  | depositRectim p msg hm hp =>
    refine Or.inl (SameSem.frame [_, _] rfl (by simp [semEvent]) ((Kernel.makeReady_ids _ p hready).trans ?_) rfl)
    refine Eq.trans ?_ (I.getitem_squeue hs (p := p) (by rw [hp]; decide))
    exact congrArg (fun f => List.erase (f (squeue s)) p) (QLists.passKey_ids _ _ _)
  | sleep st d =>
    exact Or.inl (SameSem.frame [_] rfl (by simp [semEvent]) ((QLists.put_insertd _ _ _ _).other _ hsleep) rfl)
  | tick =>
    exact Or.inl (SameSem.frame [_] rfl (by simp [semEvent]) (congrFun (QLists.decFirst_ids _ _) _) rfl)
  | woken p rest hq =>
    have hm : p ∈ h.queuetab.ids sleepq := hq ▸ List.mem_cons_self
    refine Or.inl (SameSem.frame [_] rfl (by simp [semEvent]) ((Kernel.makeReady_ids _ p hready).trans ?_) rfl)
    exact List.erase_of_not_mem (fun hm' => hsleep (I.disj hm' hm))
  | freedReady p h0 hp =>
    exact Or.inl (SameSem.frame [_] rfl (by simp [semEvent]) (I.getitem_squeue hs (by rw [hp]; decide)) rfl)
  | freedAsleep p hp =>
    refine Or.inl (SameSem.frame [_, _] rfl (by simp [semEvent]) (Eq.trans ?_ (I.getitem_squeue hs (p := p) ?_)) rfl)
    · exact congrArg (fun f => List.erase (f (squeue s)) p) (QLists.passKey_ids _ _ _)
    · rcases hp with hp | hp <;> rw [hp] <;> decide
  | freedWaiting p t hp hpt =>
    by_cases hts : t = s
    · exact Or.inr (Or.inr (Or.inr ⟨p, rfl, hp, hpt.trans hts⟩))
    · have hm : p ∈ h.queuetab.ids (squeue t) := (I.mem p _).mpr (by rw [homeOf, hp, hpt])
      refine Or.inl (SameSem.frame [_, _] rfl (by simp [semEvent, hts]) (I.getitem_squeue_ne hm hts) ?_)
      exact Function.update_of_ne (Ne.symm hts) _ _
  | semcreated t c ht hf h1 h2 =>
    by_cases hts : t = s
    · exact Or.inr (Or.inr (Or.inl ⟨rfl, hts ▸ hf⟩))
    · exact Or.inl (SameSem.frame [_] rfl (by simp [semEvent, hts]) rfl (Function.update_of_ne (Ne.symm hts) _ _))
  | passed t | signalled t | flushedNone t | semreset t | semdeleted t =>
    by_cases hts : t = s
    · exact Or.inr (Or.inl (by rw [hts]))
    · exact Or.inl (SameSem.frame [_] rfl (by simp [semEvent, hts]) rfl (Function.update_of_ne (Ne.symm hts) _ _))
  | releasedNone t =>
    by_cases hts : t = s
    · exact Or.inr (Or.inl (by rw [hts]))
    · exact Or.inl (SameSem.frame [_, _] rfl (by simp [semEvent, hts]) rfl (Function.update_of_ne (Ne.symm hts) _ _))
  | blocked t =>
    by_cases hts : t = s
    · exact Or.inr (Or.inl (by rw [hts]))
    · refine Or.inl (SameSem.frame [_] rfl (by simp [semEvent, hts]) ?_ (Function.update_of_ne (Ne.symm hts) _ _))
      exact (QLists.put_enqueue _ _ _).other _ (fun e => hts (squeue_inj.mp e).symm)
  | released t p rest ht hu hc hq =>
    by_cases hts : t = s
    · exact Or.inr (Or.inl (by rw [hts]))
    · have hm : p ∈ h.queuetab.ids (squeue t) := hq ▸ List.mem_cons_self
      refine Or.inl (SameSem.frame [_, _] rfl (by simp [semEvent, hts]) ?_ (Function.update_of_ne (Ne.symm hts) _ _))
      exact (Kernel.makeReady_ids _ p hready).trans (I.getitem_squeue_ne hm hts)
  | flushed t p rest ht hu hq =>
    by_cases hts : t = s
    · exact Or.inr (Or.inl (by rw [hts]))
    · have hm : p ∈ h.queuetab.ids (squeue t) := hq ▸ List.mem_cons_self
      refine Or.inl (SameSem.frame [_] rfl (by simp [semEvent, hts]) ?_ (Function.update_of_ne (Ne.symm hts) _ _))
      exact (Kernel.makeReady_ids _ p hready).trans (I.getitem_squeue_ne hm hts)

/-- A step of a semaphore. -/
theorem Change.tracked_sem (c : Change h (.sem s) b g) (I : Inv h) (hs : isbadsem s = false) (hfit : CountFits s g.log)
    (T : Tracks h s σ) : ∃ σ', Tracks g s σ' := by
  cases c with
  | passed _ ht hu hc => exact T.passed I hu hc
  | blocked _ ht hu hc hb => exact T.blocked I hu hc
  | signalled _ ht hu hc => exact T.signalled hu hc (hfit _ List.mem_cons_self)
  | released _ p rest ht hu hc hq => exact T.released I hq hs
  | releasedNone _ ht hu hc hq => exact absurd (T.waiting ▸ hq) (T.nonempty hu hc)
  | flushed _ p rest ht hu hq => exact T.flushed I hq hs
  | flushedNone _ ht hu hc hq => exact absurd (T.waiting ▸ hq) (T.nonempty hu hc)
  | semreset _ c ht hu hq h1 h2 => exact T.reset hu hq h1 h2
  | semdeleted _ ht hu hc => exact T.deleted hu hc

/-- Every change keeps a semaphore. -/
theorem Change.tracked (c : Change h κ b g) (I : Inv h) (hs : isbadsem s = false) (H : Tracked s h) : Tracked s g := by
  intro hfit
  obtain ⟨σ, T⟩ := H (fun c' hm => hfit c' (c.log_mem hm))
  rcases c.sameSem_or I hs with S | rfl | ⟨rfl, hf⟩ | ⟨p, rfl, hp, hpt⟩
  · exact ⟨σ, T.frame S.history S.ids S.entry⟩
  · exact c.tracked_sem I hs hfit T
  · cases c with
    | semcreated t c ht hf' h1 h2 =>
      by_cases hts : t = s
      · subst hts
        exact T.created hf h1 h2
      · refine ⟨σ, T.frame (semHistory_ne (by simp [semEvent, hts]) _) rfl (Function.update_of_ne (Ne.symm hts) _ _)⟩
  · cases c with
    | freed _ _ _ hh => rw [homeOf, hp] at hh; cases hh
    | freedReady _ _ hr => rw [hr] at hp; cases hp
    | freedAsleep _ ha => rcases ha with ha | ha <;> rw [ha] at hp <;> cases hp
    | freedSelf => rw [I.running] at hp; cases hp
    | freedWaiting _ t hp' hpt' =>
      obtain rfl : t = s := hpt'.symm.trans hpt
      exact T.unwaited I ((I.mem p _).mpr (by rw [homeOf, hp, hpt]))

end Tracked

/-- A semaphore is a counting semaphore from step to step. -/
theorem tracked_stable {s : Int} (hs : isbadsem s = false) : Stable (fun _ => True) (fun _ => Tracked s) := by
  refine ⟨fun I _ c => c.tracked I hs, fun {g} T H hfit => ?_⟩
  have S := T.toInv0.resched_only
  obtain ⟨σ, Tr⟩ := H (S.log ▸ hfit)
  exact ⟨σ, Tr.frame (by rw [S.log]) (S.ids _ (squeue_ne hs).1) (by rw [S.semtab])⟩

theorem Tracked.takeMsg {s : Int} {h : Kernel QLists} (H : Tracked s h) : Tracked s h.takeMsg := by
  intro hfit
  obtain ⟨σ, T⟩ := H (fun c hm => hfit c (List.mem_cons_of_mem _ hm))
  exact ⟨σ, T.frame rfl rfl rfl⟩

end Xinu
