import Xinu.Kernel.Counting

/-!
# Semaphores in use

A semaphore remains in use until `semdelete` deletes it (`Does.keepsUsed`). After `semreset` it has the new count, and nobody waits for
it (`semreset_done`).
-/

namespace Xinu

open Kernel

section Reset

variable {k : Kernel QueueTab} {h : Kernel QLists} {s n : Int}

theorem resetLoop_semtab (s : Int) (n : Nat) (k : Kernel QueueTab) : (resetLoop s n k).semtab = k.semtab := by
  induction n generalizing k with
  | zero => rfl
  | succ n ih =>
    unfold resetLoop
    simp only
    split
    · rfl
    · rw [ih, ready_semtab]
      rfl

/-- The entry of a semaphore after `semreset`. -/
theorem semreset_entry (k : Kernel QueueTab) (hs : isbadsem s = false) (hu : (k.semtab s).sstate = .S_USED) (n : Int) :
    (k.semreset s n).1.semtab s = if int32 n < 0 then k.semtab s else ⟨.S_USED, int32 n⟩ := by
  unfold Kernel.semreset
  simp only [hs, hu]
  by_cases hn : int32 n < 0
  · rw [if_pos (by simp [hn]), if_pos hn]
  · rw [if_neg (by simp [hn]), if_neg hn, deferStop_semtab]
    change Function.update (resetLoop s (NPROC.toNat + 1) k.deferStart).semtab s _ s = _
    rw [Function.update_self, resetLoop_semtab]
    change Sentry.mk (k.semtab s).sstate _ = _
    rw [hu]

theorem Sim.waits_iff (S : Sim k h) (I : Inv h) (hs : isbadsem s = false) (p : Int) :
    k.Waits s p ↔ p ∈ h.queuetab.ids (squeue s) := by
  rw [I.mem, homeOf_squeue hs, Kernel.Waits, S.fields.1]

/-- After `semreset` the semaphore has the new count, and nobody waits for it. -/
theorem semreset_done (S : Sim k h) (I : Inv h) (hs : isbadsem s = false) (hu : (k.semtab s).sstate = .S_USED)
    (hn : 0 ≤ int32 n) : (k.semreset s n).1.semtab s = ⟨.S_USED, int32 n⟩ ∧ ∀ q, ¬(k.semreset s n).1.Waits s q := by
  refine ⟨?_, fun q hw => ?_⟩
  · rw [semreset_entry k hs hu, if_neg (Int.not_lt.mpr hn)]
  · have hu' : (h.deferStart.semtab s).sstate = .S_USED := by
      obtain ⟨L, R, rfl⟩ := S
      exact hu
    have I' := I.deferStart
    obtain ⟨h', e', S', I'', _, _, _, hnil⟩ := resetLoop_refines hs (NPROC.toNat + 1) S.deferStart I' hu' (ids_length S.deferStart _)
    unfold Kernel.semreset at hw
    simp only [hs, hu] at hw
    rw [if_neg (by simp [Int.not_lt.mpr hn])] at hw
    have hstop := (noWaits_deferStop _).waits _ _ hw
    have hw' : (resetLoop s (NPROC.toNat + 1) k.deferStart).Waits s q := hstop
    rw [S'.waits_iff I'' hs, hnil] at hw'
    cases hw'

/-- `semcreate` returns `SYSERR` or a semaphore that was not in use, and the caller goes on. -/
theorem semcreate_value (S : Sim k h) (I : Inv h) (n : Int) :
    (k.semcreate n).1.currpid = k.currpid ∧ ∃ w, (k.semcreate n).2 = .ret w ∧
      (w = SYSERR ∨ isbadsem w = false ∧ (k.semtab w).sstate = .S_FREE ∧ ((k.semcreate n).1.semtab w).sstate = .S_USED) := by
  have hnext : 0 ≤ k.nextsem ∧ k.nextsem < NSEM := by
    obtain ⟨L, R, rfl⟩ := S
    exact I.nextsem
  unfold Kernel.semcreate
  simp only
  split
  · exact ⟨rfl, SYSERR, rfl, Or.inl rfl⟩
  · rcases hl : newsemLoop k.semtab NSEM.toNat k.nextsem with ⟨_ | s, ns⟩
    · exact ⟨rfl, SYSERR, rfl, Or.inl rfl⟩
    · obtain ⟨hs, hfree⟩ := (newsemLoop_spec hl hnext).2 s rfl
      refine ⟨rfl, s, rfl, Or.inr ⟨hs, hfree, ?_⟩⟩
      change (Function.update k.semtab s _ s).sstate = _
      rw [Function.update_self]

theorem signalLoop_state (s : Int) (n : Nat) (k : Kernel QueueTab) :
    ((signalLoop s n k).semtab s).sstate = (k.semtab s).sstate := by
  induction n generalizing k with
  | zero => rfl
  | succ n ih => rw [signalLoop, ih, signalOne_entry]

/-- A call for a semaphore that does not delete it. -/
theorem call_used {c : Call} (ht : c.touches s = true) (hd : c ≠ .semdelete s) (hs : isbadsem s = false)
    (hu : (k.semtab s).sstate = .S_USED) : ((k.call c).1.semtab s).sstate = .S_USED := by
  cases c with
  | wait t =>
    obtain rfl : t = s := of_decide_eq_true ht
    exact congrArg Sentry.sstate (wait_entry hs hu)
  | signal t =>
    obtain rfl : t = s := of_decide_eq_true ht
    change ((k.signal t).1.semtab t).sstate = _
    unfold Kernel.signal
    rw [if_neg (by simp [hs]), if_neg (by simp [hu]), signalOne_entry]
    exact hu
  | signaln t n =>
    obtain rfl : t = s := of_decide_eq_true ht
    change ((k.signaln t n).1.semtab t).sstate = _
    unfold Kernel.signaln
    simp only
    split
    · exact hu
    · rw [if_neg (by simp [hu]), deferStop_semtab, signalLoop_state]
      exact hu
  | semreset t n =>
    obtain rfl : t = s := of_decide_eq_true ht
    change ((k.semreset t n).1.semtab t).sstate = _
    rw [semreset_entry k hs hu]
    split
    · exact hu
    · rfl
  | semdelete t =>
    obtain rfl : t = s := of_decide_eq_true ht
    exact absurd rfl hd
  | _ => cases ht

end Reset

section Used

variable {C : Client} {m m' : Machine C} {e : Event C} {h h' : Kernel QLists} {s p : Int}

/-- The end of `kill` changes no semaphore's state. -/
theorem Act.killed_used (a : Act h (.killed p) h') (I : Inv h) : (h'.semtab s).sstate = (h.semtab s).sstate := by
  have hchange : ∀ {g : Kernel QLists} {b : Bool}, Change h (.killed p) b g → (g.semtab s).sstate = (h.semtab s).sstate := by
    intro g b c
    cases c with
    | freed | freedReady | freedAsleep | freedSelf => rfl
    | freedWaiting _ t =>
      by_cases hts : s = t
      · subst hts
        change (Function.update h.semtab s _ s).sstate = _
        rw [Function.update_self]
      · exact congrArg Sentry.sstate (Function.update_of_ne hts _ h.semtab)
  cases a with
  | plain c => exact hchange c
  | sched c =>
    rw [(c.settled I).toInv0.resched_only.semtab]
    exact hchange c

/-- A semaphore remains in use, unless it is deleted. -/
theorem Does.keepsUsed (D : Does m e h m' h') (St : Steady m h) (St' : Steady m' h') (hs : isbadsem s = false)
    (hu : (m.k.semtab s).sstate = .S_USED) (hd : ∀ c ∈ m.issued e, c ≠ .semdelete s) : (m'.k.semtab s).sstate = .S_USED := by
  obtain ⟨_, _, hsem, _⟩ := St.sim.fields
  obtain ⟨_, _, hsem', _⟩ := St'.sim.fields
  have hidle : (∀ c ∈ m.issued e, c.touches s = false) → (∀ pid ∈ m.removes e, ¬m.k.Waits s pid) →
      (m'.k.semtab s).sstate = .S_USED := by
    intro hc hr
    rw [(D.semIdle St St' hs hu hc hr).entry]
    exact hu
  have hremoves : ∀ c ∈ m.issued e, m.removes e = none := by
    intro c hc
    cases e with
    | cont =>
      simp only [Machine.issued] at hc
      split at hc
      · next hstk => simp only [Machine.removes, hstk]
      · cases hc
    | _ => rfl
  cases D with
  | call c d l rest hi hr hk a =>
    by_cases ht : c.touches s = true
    · exact call_used ht (hd c hi) hs hu
    · refine hidle (fun c' hc' => ?_) (fun pid hp => ?_)
      · obtain rfl := Option.some.inj (hc'.symm.trans hi)
        exact eq_false_of_ne_true ht
      · rw [hremoves c hi] at hp
        cases hp
  | inside | stop | back | closed | take => exact hu
  | tick he =>
    subst he
    exact hidle (fun c hc => by cases hc) (fun pid hp => by cases hp)
  | killEnd pid i rest hstk hi hk a he =>
    have I' : Inv (h.freeStack pid) := (Act.plain (Change.stkfreed pid)).inv St.inv
    rw [hsem'] at *
    rw [a.killed_used I']
    change (h.semtab s).sstate = _
    rw [← hsem]
    exact hu

end Used

end Xinu
