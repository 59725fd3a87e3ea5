import Mathlib.Data.List.Perm.Basic
import Xinu.Kernel.Calls
import Xinu.Kernel.Lists

/-!
# Processes and lists

The state of a process says which list it is on (`homeOf`). `Inv0` says every list holds exactly the processes whose state puts
them there, once each; `Inv` adds that the current process is in state `PR_CURR`. Both are about the kernel with queues as
lists. Moving a process to another list keeps `Inv0` (`Inv0.put`, `Inv0.out`), and `resched` turns `Inv0` into `Inv`
(`Inv0.resched`).
-/

namespace Xinu

/-- The list that a process is on, by its table entry. -/
def homeOf (e : Procent) : Option Int :=
  match e.prstate with
  | .PR_READY => some readylist
  | .PR_WAIT => some (squeue e.prsem)
  | .PR_SLEEP | .PR_RECTIM => some sleepq
  | .PR_FREE | .PR_CURR | .PR_RECV | .PR_SUSP => none

theorem isHead_readylist : IsHead readylist := by decide
theorem isHead_sleepq : IsHead sleepq := by decide
theorem readylist_ne_sleepq : readylist ≠ sleepq := by decide

theorem isbadsem_iff {s : Int} : isbadsem s = false ↔ 0 ≤ s ∧ s < NSEM := by
  simp [isbadsem, decide_eq_false_iff_not]

theorem isHead_squeue {s : Int} (h : isbadsem s = false) : IsHead (squeue s) := by
  obtain ⟨h1, h2⟩ := isbadsem_iff.mp h
  simp only [IsHead, squeue, NQENT]
  omega

theorem squeue_ne {s : Int} (h : isbadsem s = false) : squeue s ≠ readylist ∧ squeue s ≠ sleepq := by
  obtain ⟨h1, h2⟩ := isbadsem_iff.mp h
  simp only [squeue, readylist, sleepq]
  omega

theorem squeue_inj {s t : Int} : squeue s = squeue t ↔ s = t := by
  simp only [squeue]
  omega

theorem homeOf_susp {e : Procent} (hs : e.prstate = .PR_SUSP) : homeOf e = none := by
  rw [homeOf, hs]

/-- Ready processes belong on the ready list. -/
theorem homeOf_readylist {e : Procent} (hs : e.prstate = .PR_WAIT → isbadsem e.prsem = false) :
    homeOf e = some readylist ↔ e.prstate = .PR_READY := by
  unfold homeOf
  split
  · next h => simp [h]
  · next h => simpa [h] using (squeue_ne (hs h)).1
  · next h => simpa [h] using readylist_ne_sleepq.symm
  · next h => simpa [h] using readylist_ne_sleepq.symm
  all_goals next h => simp [h]

/-- Sleepers belong on the sleep queue. -/
theorem homeOf_sleepq {e : Procent} (hs : e.prstate = .PR_WAIT → isbadsem e.prsem = false) :
    homeOf e = some sleepq ↔ e.prstate = .PR_SLEEP ∨ e.prstate = .PR_RECTIM := by
  unfold homeOf
  split
  · next h => simpa [h] using readylist_ne_sleepq
  · next h => simpa [h] using (squeue_ne (hs h)).2
  all_goals next h => simp [h]

/-- A process that waits belongs on the queue of its semaphore. -/
theorem homeOf_squeue {e : Procent} {s : Int} (hb : isbadsem s = false) :
    homeOf e = some (squeue s) ↔ e.prstate = .PR_WAIT ∧ e.prsem = s := by
  unfold homeOf
  split
  · next h => simpa [h] using (squeue_ne hb).1.symm
  · next h => simp [h, squeue_inj]
  · next h => simpa [h] using (squeue_ne hb).2.symm
  · next h => simpa [h] using (squeue_ne hb).2.symm
  all_goals next h => simp [h]

/-- Every list holds exactly the processes whose state puts them there, each once; at most the current process is in state
`PR_CURR`, and the null process is ready or current. -/
structure Inv0 (h : Kernel QLists) : Prop where
  mem : ∀ p q, p ∈ h.queuetab.ids q ↔ homeOf (h.proctab p) = some q
  nodup : ∀ q, (h.queuetab.ids q).Nodup
  outside : ∀ p, ¬IsPid p → (h.proctab p).prstate = .PR_FREE
  curr : ∀ p, (h.proctab p).prstate = .PR_CURR → p = h.currpid
  currpid : IsPid h.currpid
  null : (h.proctab NULLPROC).prstate = .PR_CURR ∨ (h.proctab NULLPROC).prstate = .PR_READY
  prio : ∀ p, -32768 ≤ (h.proctab p).prprio ∧ (h.proctab p).prprio ≤ 32767
  sem : ∀ p, (h.proctab p).prstate = .PR_WAIT → isbadsem (h.proctab p).prsem = false
  defers : 0 ≤ h.ndefers
  nextsem : 0 ≤ h.nextsem ∧ h.nextsem < NSEM

/-- Besides `Inv0`, the current process is in state `PR_CURR`. -/
structure Inv (h : Kernel QLists) : Prop extends Inv0 h where
  running : (h.proctab h.currpid).prstate = .PR_CURR

namespace QLists

variable {L L' : QLists} {p q : Int}

/-- `L'` is `L` with the process `p` put on the list `q`. -/
structure Put (L L' : QLists) (p q : Int) : Prop where
  perm : (L'.ids q).Perm (p :: L.ids q)
  other : ∀ q', q' ≠ q → L'.ids q' = L.ids q'

theorem put_insert (L : QLists) (p q k : Int) : Put L (L.insert p q k) p q := by
  refine ⟨?_, fun q' hq' => by simp [insert, Function.update_of_ne hq']⟩
  simp only [insert, setKey_ids, setIds_ids, Function.update_self]
  refine List.perm_middle.trans ?_
  rw [List.takeWhile_append_dropWhile]

theorem put_enqueue (L : QLists) (p q : Int) : Put L (QueueOps.enqueue L p q) p q := by
  refine ⟨?_, fun q' hq' => by simp [QueueOps.enqueue, Function.update_of_ne hq']⟩
  simp [QueueOps.enqueue, List.perm_append_singleton]

/-- `insertd` puts the process on the delta list. -/
theorem put_insertd (L : QLists) (p q k : Int) : Put L (L.insertd p q k) p q := by
  have key : (L.insertd p q k).ids = Function.update L.ids q
      ((deltaCut L.key k (L.ids q)).1 ++ p :: (deltaCut L.key k (L.ids q)).2.1) := by
    unfold insertd
    rcases deltaCut L.key k (L.ids q) with ⟨a, b, k'⟩
    cases b <;> rfl
  refine ⟨?_, fun q' hq' => by rw [key, Function.update_of_ne hq']⟩
  rw [key, Function.update_self]
  refine List.perm_middle.trans ?_
  rw [deltaCut_append]

theorem getitem_of_not_mem (h : ∀ q, p ∉ L.ids q) : L.getitem p = L := by
  unfold getitem
  congr 1
  funext q
  exact List.erase_of_not_mem (h q)

end QLists

namespace Kernel

variable {Q : Type}

theorem isbadpid_eq_false {k : Kernel Q} {p : Int} :
    k.isbadpid p = false ↔ IsPid p ∧ (k.proctab p).prstate ≠ .PR_FREE := by
  simp [isbadpid, IsPid]

theorem setState_state (k : Kernel Q) (p : Int) (st : PrState) : ((k.setState p st).proctab p).prstate = st := by
  simp [setState, setProc]

variable [QueueOps Q]

/-- What `ready` does before it reschedules. -/
def makeReady (k : Kernel Q) (p : Int) : Kernel Q :=
  (k.setState p .PR_READY).setQueues (QueueOps.insert k.queuetab p readylist (k.proctab p).prprio)

theorem makeReady_self (k : Kernel Q) (p : Int) :
    (k.makeReady p).proctab p = { k.proctab p with prstate := .PR_READY } :=
  Function.update_self _ _ _

theorem makeReady_other (k : Kernel Q) {p x : Int} (hx : x ≠ p) : (k.makeReady p).proctab x = k.proctab x :=
  Function.update_of_ne hx _ _

theorem insert_readylist {k : Kernel Q} {p key : Int} (hp : IsPid p) (hs : (k.proctab p).prstate ≠ .PR_FREE) :
    (k.insert p readylist key).2 = k.setQueues (QueueOps.insert k.queuetab p readylist key) := by
  have hb : (isbadqid readylist || k.isbadpid p) = false := by
    rw [isHead_readylist.not_bad, isbadpid_eq_false.mpr ⟨hp, hs⟩]
    rfl
  simp [insert, hb]

theorem ready_eq {k : Kernel Q} {p : Int} (hp : IsPid p) (hs : (k.proctab p).prstate ≠ .PR_FREE) :
    k.ready p = (OK, (k.makeReady p).resched) := by
  have hb := isbadpid_eq_false.mpr ⟨hp, hs⟩
  simp only [ready, hb, Bool.false_eq_true, if_false]
  rw [insert_readylist hp (by rw [setState_state]; decide)]
  rfl

end Kernel

namespace Inv0

variable {h h' : Kernel QLists} {p q : Int} {e : Procent}

theorem not_mem (I : Inv0 h) (hp : homeOf (h.proctab p) = none) : ∀ q, p ∉ h.queuetab.ids q := by
  intro q hm
  rw [I.mem, hp] at hm
  cases hm

theorem isPid_of_mem (I : Inv0 h) (hm : p ∈ h.queuetab.ids q) : IsPid p := by
  by_contra hn
  rw [I.mem, homeOf, I.outside p hn] at hm
  cases hm

theorem isPid_of_state (I : Inv0 h) (hs : (h.proctab p).prstate ≠ .PR_FREE) : IsPid p := by
  by_contra hn
  exact hs (I.outside p hn)

/-- A process is on one list at most. -/
theorem disj (I : Inv0 h) {q' : Int} (hq : p ∈ h.queuetab.ids q) (hq' : p ∈ h.queuetab.ids q') : q = q' := by
  rw [I.mem] at hq hq'
  exact Option.some.inj (hq.symm.trans hq')

/-- Changing one table entry and moving its process accordingly keeps the invariant. -/
theorem relocate (I : Inv0 h) (hproc : h'.proctab = Function.update h.proctab p e) (hp : IsPid p)
    (hnd : ∀ q, (h'.queuetab.ids q).Nodup)
    (hmem : ∀ q x, x ∈ h'.queuetab.ids q ↔ (x ≠ p ∧ x ∈ h.queuetab.ids q) ∨ (x = p ∧ homeOf e = some q))
    (hcurr : ∀ x, (h'.proctab x).prstate = .PR_CURR → x = h'.currpid) (hcp : IsPid h'.currpid)
    (hnull : p = NULLPROC → e.prstate = .PR_CURR ∨ e.prstate = .PR_READY)
    (hprio : -32768 ≤ e.prprio ∧ e.prprio ≤ 32767) (hsem : e.prstate = .PR_WAIT → isbadsem e.prsem = false)
    (hdef : h'.ndefers = h.ndefers ∧ h'.nextsem = h.nextsem) : Inv0 h' := by
  have at_p : h'.proctab p = e := by rw [hproc, Function.update_self]
  have at_other : ∀ x, x ≠ p → h'.proctab x = h.proctab x := fun x hx => by rw [hproc, Function.update_of_ne hx]
  refine ⟨fun x q => ?_, hnd, fun x hx => ?_, hcurr, hcp, ?_, fun x => ?_, fun x hx => ?_, hdef.1 ▸ I.defers,
    hdef.2 ▸ I.nextsem⟩
  · by_cases hx : x = p
    · subst hx
      simp [hmem, at_p]
    · simp [hmem, at_other x hx, I.mem, hx]
  · have : x ≠ p := fun e => hx (e ▸ hp)
    rw [at_other x this]
    exact I.outside x hx
  · by_cases h0 : p = NULLPROC
    · rw [← h0, at_p]
      exact hnull h0
    · rw [at_other _ (Ne.symm h0)]
      exact I.null
  · by_cases hx : x = p
    · subst hx
      rw [at_p]
      exact hprio
    · rw [at_other x hx]
      exact I.prio x
  · by_cases hxp : x = p
    · subst hxp
      rw [at_p] at hx ⊢
      exact hsem hx
    · rw [at_other x hxp] at hx ⊢
      exact I.sem x hx

/-- The lists without the process `p`. -/
theorem getitem_mem (I : Inv0 h) (x : Int) : x ∈ (h.queuetab.getitem p).ids q ↔ x ≠ p ∧ x ∈ h.queuetab.ids q :=
  (I.nodup q).mem_erase_iff

/-- A changed entry that is not current leaves the current process the only one that can be. -/
theorem curr_of_update (I : Inv0 h) (hproc : h'.proctab = Function.update h.proctab p e) (he : e.prstate ≠ .PR_CURR)
    (hc : h'.currpid = h.currpid) (x : Int) (hx : (h'.proctab x).prstate = .PR_CURR) : x = h'.currpid := by
  by_cases hxp : x = p
  · subst hxp
    rw [hproc, Function.update_self] at hx
    exact absurd hx he
  · rw [hproc, Function.update_of_ne hxp] at hx
    rw [hc]
    exact I.curr x hx

/-- Moving a process to the list that its new entry names. -/
theorem put (I : Inv0 h) (hproc : h'.proctab = Function.update h.proctab p e) (hp : IsPid p)
    (hput : QLists.Put (h.queuetab.getitem p) h'.queuetab p q) (hhome : homeOf e = some q) (hc : h'.currpid = h.currpid)
    (hnull : p = NULLPROC → e.prstate = .PR_READY) (hprio : -32768 ≤ e.prprio ∧ e.prprio ≤ 32767)
    (hsem : e.prstate = .PR_WAIT → isbadsem e.prsem = false) (hdef : h'.ndefers = h.ndefers ∧ h'.nextsem = h.nextsem) : Inv0 h' := by
  have he : e.prstate ≠ .PR_CURR := fun he => by rw [homeOf, he] at hhome; cases hhome
  refine I.relocate hproc hp (fun q' => ?_) (fun q' x => ?_) (I.curr_of_update hproc he hc) (hc ▸ I.currpid)
    (fun h0 => Or.inr (hnull h0)) hprio hsem hdef
  · by_cases hq : q' = q
    · subst hq
      refine (hput.perm.nodup_iff).mpr (List.nodup_cons.mpr ⟨fun hm => ?_, (I.nodup q').erase p⟩)
      exact (I.getitem_mem p).mp hm |>.1 rfl
    · rw [hput.other q' hq]
      exact (I.nodup q').erase p
  · by_cases hq : q' = q
    · subst hq
      rw [hput.perm.mem_iff, List.mem_cons, I.getitem_mem, hhome]
      simp [or_comm]
    · rw [hput.other q' hq, I.getitem_mem, hhome]
      simp [Ne.symm hq]

/-- Taking a process off its list when its new entry names none. -/
theorem out (I : Inv0 h) (hproc : h'.proctab = Function.update h.proctab p e) (hp : IsPid p)
    (hids : h'.queuetab.ids = (h.queuetab.getitem p).ids) (hhome : homeOf e = none)
    (hcurr : ∀ x, (h'.proctab x).prstate = .PR_CURR → x = h'.currpid) (hcp : IsPid h'.currpid)
    (hnull : p = NULLPROC → e.prstate = .PR_CURR) (hprio : -32768 ≤ e.prprio ∧ e.prprio ≤ 32767)
    (hdef : h'.ndefers = h.ndefers ∧ h'.nextsem = h.nextsem) : Inv0 h' := by
  refine I.relocate hproc hp (fun q' => ?_) (fun q' x => ?_) hcurr hcp (fun h0 => Or.inl (hnull h0)) hprio (fun hw => ?_)
    hdef
  · rw [hids]
    exact (I.nodup q').erase p
  · rw [hids, I.getitem_mem, hhome]
    simp
  · rw [homeOf, hw] at hhome
    cases hhome

/-- Making a process ready, from the list it is on or from none. -/
theorem makeReady (I : Inv0 h) (hp : IsPid p) : Inv0 ((h.setQueues (h.queuetab.getitem p)).makeReady p) := by
  exact I.put rfl hp (QLists.put_insert _ p readylist _) rfl rfl (fun _ => rfl) (I.prio p) (fun hw => by cases hw)
    ⟨rfl, rfl⟩

theorem setQueues_getitem_self (I : Inv0 h) (hp : homeOf (h.proctab p) = none) :
    h.setQueues (h.queuetab.getitem p) = h := by
  rw [QLists.getitem_of_not_mem (I.not_mem hp)]
  rfl

/-- Making a process ready that is on no list. -/
theorem makeReady_of_out (I : Inv0 h) (hp : IsPid p) (hh : homeOf (h.proctab p) = none) : Inv0 (h.makeReady p) := by
  have := I.makeReady hp
  rwa [I.setQueues_getitem_self hh] at this

theorem ready_nonempty (I : Inv0 h) (hno : ∀ p, (h.proctab p).prstate ≠ .PR_CURR) :
    ∃ p rest, h.queuetab.ids readylist = p :: rest := by
  have hr : (h.proctab NULLPROC).prstate = .PR_READY := I.null.resolve_left (hno _)
  have hm : NULLPROC ∈ h.queuetab.ids readylist := (I.mem _ _).mpr (by rw [homeOf, hr])
  exact List.exists_cons_of_ne_nil (List.ne_nil_of_mem hm)

/-- The switch takes the first process off the ready list and makes it current. -/
theorem switch_eq {rest : List Int} (hr : h.queuetab.ids readylist = p :: rest) :
    h.switch = { h with currpid := p, preempt := QUANTUM, queuetab := h.queuetab.getitem p }.setState p .PR_CURR := by
  have hd : QueueOps.dequeue h.queuetab readylist = (p, h.queuetab.getitem p) := by
    show h.queuetab.getfirst readylist = _
    rw [QLists.getfirst, hr]
  simp only [Kernel.switch, Kernel.dequeue, hd]
  rfl

/-- The context switch, when no process is current any more. -/
theorem switch (I : Inv0 h) (hno : ∀ p, (h.proctab p).prstate ≠ .PR_CURR) : Inv h.switch := by
  obtain ⟨p, rest, hr⟩ := I.ready_nonempty hno
  have hp : IsPid p := I.isPid_of_mem (hr ▸ List.mem_cons_self)
  rw [switch_eq hr]
  refine ⟨I.out rfl hp rfl rfl (fun x hx => ?_) hp (fun _ => rfl) (I.prio p) ⟨rfl, rfl⟩,
    by simp [Kernel.setState, Kernel.setProc]⟩
  by_contra hxp
  refine hno x ?_
  have hxp' : x ≠ p := hxp
  simpa [Kernel.setState, Kernel.setProc, Function.update_of_ne hxp'] using hx

theorem no_curr (I : Inv0 h) (hc : (h.proctab h.currpid).prstate ≠ .PR_CURR) (p : Int) :
    (h.proctab p).prstate ≠ .PR_CURR :=
  fun hp => hc (I.curr p hp ▸ hp)

/-- The current process put on the ready list leaves no current process. -/
theorem preempted (I : Inv0 h) (hc : (h.proctab h.currpid).prstate = .PR_CURR) :
    Inv0 (h.makeReady h.currpid) ∧ ∀ p, ((h.makeReady h.currpid).proctab p).prstate ≠ .PR_CURR := by
  have I' := I.makeReady_of_out I.currpid (by rw [homeOf, hc])
  refine ⟨I', I'.no_curr ?_⟩
  show ((h.makeReady h.currpid).proctab h.currpid).prstate ≠ _
  rw [Kernel.makeReady_self]
  simp

end Inv0

namespace Kernel

variable {Q : Type} [QueueOps Q] {k : Kernel Q}

theorem resched_deferred (hd : 0 < k.ndefers) : k.resched = { k with attempt := true } := by
  rw [resched, if_pos hd]

theorem resched_stay (hd : k.ndefers = 0) (hc : (k.proctab k.currpid).prstate = .PR_CURR)
    (hp : (k.proctab k.currpid).prprio > QueueOps.firstkey k.queuetab readylist) : k.resched = k := by
  rw [resched, if_neg (by omega), if_pos hc, if_pos hp]

theorem resched_preempt (hd : k.ndefers = 0) (hpid : IsPid k.currpid) (hc : (k.proctab k.currpid).prstate = .PR_CURR)
    (hp : ¬(k.proctab k.currpid).prprio > QueueOps.firstkey k.queuetab readylist) :
    k.resched = (k.makeReady k.currpid).switch := by
  rw [resched, if_neg (by omega), if_pos hc, if_neg hp, insert_readylist hpid (by rw [setState_state]; decide)]
  rfl

theorem resched_away (hd : k.ndefers = 0) (hc : (k.proctab k.currpid).prstate ≠ .PR_CURR) : k.resched = k.switch := by
  rw [resched, if_neg (by omega), if_neg hc]

end Kernel

/-- Rescheduling when it is not deferred. -/
theorem Inv0.resched {h : Kernel QLists} (I : Inv0 h) (hd : h.ndefers = 0) : Inv h.resched := by
  by_cases hc : (h.proctab h.currpid).prstate = .PR_CURR
  · by_cases hp : (h.proctab h.currpid).prprio > QueueOps.firstkey h.queuetab readylist
    · rw [Kernel.resched_stay hd hc hp]
      exact ⟨I, hc⟩
    · rw [Kernel.resched_preempt hd I.currpid hc hp]
      obtain ⟨I', hno⟩ := I.preempted hc
      exact I'.switch hno
  · rw [Kernel.resched_away hd hc]
    exact I.switch (I.no_curr hc)

/-- Rescheduling when the current process remains eligible. -/
theorem Inv.resched {h : Kernel QLists} (I : Inv h) : Inv h.resched := by
  rcases Int.lt_or_eq_of_le I.defers with hd | hd
  · rw [Kernel.resched_deferred hd]
    exact ⟨⟨I.mem, I.nodup, I.outside, I.curr, I.currpid, I.null, I.prio, I.sem, I.defers, I.nextsem⟩,
      I.running⟩
  · exact I.toInv0.resched hd.symm

/-- What rescheduling leaves alone: everything but the ready list, the states of processes that are ready or current, and the
key of the process that was current. -/
structure SchedOnly (h h' : Kernel QLists) : Prop where
  proc : ∀ p, h'.proctab p = { h.proctab p with prstate := (h'.proctab p).prstate }
  state : ∀ p, (h'.proctab p).prstate = (h.proctab p).prstate ∨
    ((h.proctab p).prstate = .PR_CURR ∨ (h.proctab p).prstate = .PR_READY) ∧
      ((h'.proctab p).prstate = .PR_CURR ∨ (h'.proctab p).prstate = .PR_READY)
  ids : ∀ q, q ≠ readylist → h'.queuetab.ids q = h.queuetab.ids q
  key : ∀ p, (h.proctab p).prstate ≠ .PR_CURR → h'.queuetab.key p = h.queuetab.key p
  semtab : h'.semtab = h.semtab
  log : h'.log = h.log
  heap : h'.heap = h.heap
  prcount : h'.prcount = h.prcount
  ndefers : h'.ndefers = h.ndefers
  status : h'.status = h.status

namespace SchedOnly

variable {h h₁ h₂ : Kernel QLists}

theorem refl (h : Kernel QLists) : SchedOnly h h :=
  ⟨fun _ => rfl, fun _ => Or.inl rfl, fun _ _ => rfl, fun _ _ => rfl, rfl, rfl, rfl, rfl, rfl, rfl⟩

end SchedOnly

/-- What the context switch leaves alone. -/
theorem Inv0.switch_only {h : Kernel QLists} (I : Inv0 h) (hno : ∀ p, (h.proctab p).prstate ≠ .PR_CURR) :
    SchedOnly h h.switch := by
  obtain ⟨p, rest, hr⟩ := I.ready_nonempty hno
  have hm : p ∈ h.queuetab.ids readylist := hr ▸ List.mem_cons_self
  have hst : (h.proctab p).prstate = .PR_READY := by
    have := (I.mem p readylist).mp hm
    revert this
    cases hs : (h.proctab p).prstate <;> simp [homeOf, hs, readylist_ne_sleepq.symm]
    exact (squeue_ne (I.sem p hs)).1
  rw [Inv0.switch_eq hr]
  refine ⟨fun x => ?_, fun x => ?_, fun q hq => ?_, fun _ _ => rfl, rfl, rfl, rfl, rfl, rfl, rfl⟩
  · by_cases hx : x = p
    · subst hx
      simp [Kernel.setState, Kernel.setProc]
    · simp [Kernel.setState, Kernel.setProc, Function.update_of_ne hx]
  · by_cases hx : x = p
    · subst hx
      exact Or.inr ⟨Or.inr hst, Or.inl (by simp [Kernel.setState, Kernel.setProc])⟩
    · exact Or.inl (by simp [Kernel.setState, Kernel.setProc, Function.update_of_ne hx])
  · exact List.erase_of_not_mem (fun hq' => hq (I.disj hq' hm))

/-- What rescheduling leaves alone. -/
theorem Inv0.resched_only {h : Kernel QLists} (I : Inv0 h) : SchedOnly h h.resched := by
  rcases Int.lt_or_eq_of_le I.defers with hd | hd
  · rw [Kernel.resched_deferred hd]
    exact ⟨fun _ => rfl, fun _ => Or.inl rfl, fun _ _ => rfl, fun _ _ => rfl, rfl, rfl, rfl, rfl, rfl, rfl⟩
  by_cases hc : (h.proctab h.currpid).prstate = .PR_CURR
  · by_cases hp : (h.proctab h.currpid).prprio > QueueOps.firstkey h.queuetab readylist
    · rw [Kernel.resched_stay hd.symm hc hp]
      exact SchedOnly.refl h
    · rw [Kernel.resched_preempt hd.symm I.currpid hc hp]
      obtain ⟨I', hno⟩ := I.preempted hc
      have S := I'.switch_only hno
      refine ⟨fun p => ?_, fun p => ?_, fun q hq => ?_, fun p hp => ?_, S.semtab, S.log, S.heap, S.prcount, S.ndefers,
        S.status⟩
      · rw [S.proc p]
        by_cases hx : p = h.currpid
        · subst hx
          rw [Kernel.makeReady_self]
        · rw [Kernel.makeReady_other h hx]
      · have hs := S.state p
        by_cases hx : p = h.currpid
        · subst hx
          rw [Kernel.makeReady_self] at hs
          exact Or.inr ⟨Or.inl hc, hs.elim Or.inr And.right⟩
        · rwa [Kernel.makeReady_other h hx] at hs
      · rw [S.ids q hq]
        exact (QLists.put_insert h.queuetab h.currpid readylist _).other q hq
      · have hx : p ≠ h.currpid := fun e => hp (e ▸ hc)
        rw [S.key p (hno p)]
        show (h.queuetab.insert h.currpid readylist _).key p = _
        simp [QLists.insert, Function.update_of_ne hx]
  · rw [Kernel.resched_away hd.symm hc]
    exact I.switch_only (I.no_curr hc)

end Xinu
