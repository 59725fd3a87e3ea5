import Mathlib.Data.Int.Range
import Xinu.Kernel.Ranking
import Xinu.Theorems.ProcessLists

/-!
# The scheduler in every run

The current process has a priority at least that of every ready process, the keys of the ready list are the priorities, and the
ready list is sorted, so that rescheduling picks a process of the highest priority. `chprio` changes the priority in the
process table only: it neither moves a ready process nor reschedules, so the invariant holds in the runs in which no call of
`chprio` needed that.
-/

namespace Xinu

open Kernel

/-- The current process has the highest priority, and the ready list is sorted by the priorities. -/
structure Scheduled (k : Kernel QueueTab) : Prop where
  current : ∀ p, IsPid p → (k.proctab p).prstate = .PR_READY → (k.proctab p).prprio ≤ (k.proctab k.currpid).prprio
  keys : ∀ p, IsPid p → (k.proctab p).prstate = .PR_READY → (k.queuetab p).qkey = (k.proctab p).prprio
  sorted : (k.queuetab.toList readylist).Pairwise (fun p q => (k.proctab q).prprio ≤ (k.proctab p).prprio)

/-- The process whose priority a call changes, and the new priority. -/
def Call.newPriority : Call → Option (Int × Int)
  | .chprio pid newprio => some (pid, int16 newprio)
  | _ => none

/-- A call of `chprio` names no process, or a process that is neither ready nor current, or leaves the priority as it is, or
leaves the current process one of the highest priority. -/
def Kernel.ChprioOk {Q : Type} (k : Kernel Q) (c : Call) : Prop :=
  ∀ x ∈ c.newPriority, k.isbadpid x.1 = true ∨
    (k.proctab x.1).prstate ≠ .PR_READY ∧ (k.proctab x.1).prstate ≠ .PR_CURR ∨ x.2 = (k.proctab x.1).prprio ∨
    x.1 = k.currpid ∧ ∀ p, 0 ≤ p → p < NPROC → (k.proctab p).prstate = .PR_READY → (k.proctab p).prprio ≤ x.2

/-- The system call that the event makes, if it makes one, is such a call. -/
def Machine.ChprioOk {C : Client} (m : Machine C) (e : Event C) : Prop := ∀ c ∈ m.issued e, m.k.ChprioOk c

instance {Q : Type} (k : Kernel Q) (c : Call) : Decidable (k.ChprioOk c) :=
  inferInstanceAs (Decidable (∀ x ∈ c.newPriority, _ ∨ _ ∧ _ ∨ _ ∨ _ ∧ ∀ p, 0 ≤ p → p < NPROC → _ → _))

instance {C : Client} (m : Machine C) (e : Event C) : Decidable (m.ChprioOk e) :=
  inferInstanceAs (Decidable (∀ c ∈ m.issued e, m.k.ChprioOk c))

section

variable {C : Client} {m m' : Machine C} {e : Event C} {h h' g : Kernel QLists} {κ : Kind} {b : Bool} {p prio : Int}

/-- The new priority `prio` of the process `p` disturbs nothing. -/
def PrioOk (p prio : Int) (h : Kernel QLists) : Prop :=
  (h.proctab p).prstate ≠ .PR_READY ∧ (h.proctab p).prstate ≠ .PR_CURR ∨ prio = (h.proctab p).prprio ∨
    p = h.currpid ∧ ∀ q ∈ h.queuetab.ids readylist, (h.proctab q).prprio ≤ prio

/-- A call of `chprio` that disturbs nothing. -/
theorem Change.ranking_chprio (c : Change h (.chprio p prio) b g) (I : Inv h) (hp : PrioOk p prio h)
    (R : Ranking false h) : Ranking b g ∧ PrioOk p prio g := by
  cases c with
  | chprio _ _ hs h1 h2 =>
    have hself : ((h.setProc p { h.proctab p with prprio := prio }).proctab p) = { h.proctab p with prprio := prio } :=
      Function.update_self _ _ _
    have hother : ∀ q, q ≠ p → (h.setProc p { h.proctab p with prprio := prio }).proctab q = h.proctab q :=
      fun q hq => Function.update_of_ne hq _ _
    refine ⟨?_, Or.inr (Or.inl (by rw [hself]))⟩
    rcases hp with ⟨h1, h2⟩ | heq | ⟨rfl, htop⟩
    · refine R.fewer ⟨List.Sublist.refl _, fun _ _ => rfl, fun q hq => ?_⟩ rfl ⟨rfl, rfl⟩
      have hne : q ≠ p := by
        rintro rfl
        rcases hq with hq | hq
        · exact h1 ((homeOf_readylist (I.sem q)).mp ((I.mem q _).mp hq))
        · exact h2 (hq ▸ I.running)
      rw [hother q hne]
    · exact R.fewer (Fewer.same rfl (prprio_update heq)) rfl ⟨rfl, rfl⟩
    · have hne : ∀ q ∈ h.queuetab.ids readylist, q ≠ h.currpid := fun q hq => Inv0.ready_ne_current I hq
      have hR : Ranked (h.setProc h.currpid { h.proctab h.currpid with prprio := prio }) := by
        refine ⟨fun q hq => ?_, R.1.sorted⟩
        rw [hother q (hne q hq)]
        exact R.1.keys q hq
      refine ⟨hR, Or.inr (Or.inl fun q hq => ?_)⟩
      rw [hother q (hne q hq)]
      exact (htop q hq).trans_eq (congrArg Procent.prprio hself).symm

/-- `chprio` keeps the ranking when the new priority fits the ready list. -/
theorem ranking_chprio_stable (p prio : Int) :
    Stable (fun κ => κ = .chprio p prio) (fun b h => Ranking b h ∧ PrioOk p prio h ∧ b = false) := by
  refine ⟨fun {h g κ b} I hκ c H => ?_, fun T H => by cases H.2.2⟩
  subst hκ
  obtain ⟨R, hp⟩ := c.ranking_chprio I H.2.1 H.1
  refine ⟨R, hp, ?_⟩
  cases c
  rfl

theorem Call.kinds_ranks (c : Call) (hc : ∀ p n, c ≠ .chprio p n) : ∀ κ ∈ c.kinds, κ.ranks = true := by
  cases c with
  | chprio p n => exact absurd rfl (hc p n)
  | _ => simp [Call.kinds, Kind.ranks]

/-- An event keeps the ranking, if its call of `chprio` disturbs nothing. -/
theorem Does.ranking (d : Does m e h m' h') (St : Steady m h) (hok : m.ChprioOk e) (R : Ranking false h) : Ranking false h' := by
  cases d with
  | call c d l rest hi hr hk a =>
    by_cases hc : ∃ p n, c = .chprio p n
    · obtain ⟨p, n, rfl⟩ := hc
      obtain ⟨hproc, hcurr, _⟩ := St.sim.fields
      by_cases hb : m.k.isbadpid p = true
      · -- the call does nothing
        have hfree : (h.proctab p).prstate = .PR_FREE := by
          by_contra hs
          have := isbadpid_eq_false.mpr ⟨St.inv.isPid_of_state hs, by rw [hproc]; exact hs⟩
          rw [hb] at this
          cases this
        have hp : PrioOk p (int16 n) h := Or.inl (by rw [hfree]; exact ⟨by decide, by decide⟩)
        exact ((ranking_chprio_stable p (int16 n)).acts St.inv (by simp [Call.kinds]) a ⟨R, hp, rfl⟩).1
      · have hp : PrioOk p (int16 n) h := by
          have := (hok _ hi (p, int16 n) rfl).resolve_left hb
          rw [hproc, hcurr] at this
          refine this.imp id (Or.imp id (And.imp id fun htop q hq => ?_))
          have hq' := St.inv.isPid_of_mem hq
          exact htop q hq'.1 hq'.2 ((homeOf_readylist (St.inv.sem q)).mp ((St.inv.mem q _).mp hq))
        exact ((ranking_chprio_stable p (int16 n)).acts St.inv (by simp [Call.kinds]) a ⟨R, hp, rfl⟩).1
    · exact ranking_stable.acts St.inv (c.kinds_ranks (fun p n e => hc ⟨p, n, e⟩)) a R
  | inside | back | closed => exact R
  | stop d s => exact ranking_stable.act St.inv rfl (Act.plain (Change.stop s)) R
  | tick he t a =>
    have t' := Act.plain t
    exact ranking_stable.acts (t'.inv St.inv) (by simp [Kind.ranks]) a (ranking_stable.act St.inv rfl t' R)
  | take => exact R.fewer (Fewer.same rfl (prprio_update rfl)) rfl ⟨rfl, rfl⟩
  | killEnd pid i rest hs hi hk a => exact ranking_stable.acts St.inv (by simp [Kind.ranks]) (Acts.killEnd a) R

/-- Between events, the ranking is the statement about the scheduler. -/
theorem Steady.scheduled (St : Steady m h) (R : Ranking false h) : Scheduled m.k := by
  obtain ⟨hproc, hcurr, _⟩ := St.sim.fields
  have hmem : ∀ p, (h.proctab p).prstate = .PR_READY → p ∈ h.queuetab.ids readylist := fun p hs =>
    (St.inv.mem p _).mpr ((homeOf_readylist (St.inv.sem p)).mpr hs)
  have hkey : ∀ p, IsPid p → (m.k.queuetab p).qkey = h.queuetab.key p := fun p hp => by
    obtain ⟨L, Rep, rfl⟩ := St.sim
    exact Rep.key p hp
  refine ⟨fun p hp hs => ?_, fun p hp hs => ?_, ?_⟩
  · rw [hproc] at hs ⊢
    rw [hcurr]
    rcases R.2 with e | T | P
    · cases e
    · exact T p (hmem p hs)
    · have := P.1
      rw [St.defers] at this
      cases this
  · rw [hproc] at hs
    rw [hkey p hp, hproc]
    exact R.1.keys p (hmem p hs)
  · rw [St.sim.toList_eq isHead_readylist, hproc]
    refine R.1.sorted.imp_of_mem (fun {p q} hp hq hpq => ?_)
    rw [← R.1.keys p hp, ← R.1.keys q hq]
    exact hpq

end

/-- The scheduling invariant in every reachable state, for the runs in which no call of `chprio` needs to move a process or to
reschedule. -/
theorem scheduling_invariant {C : Client} (data : C.Data) (minheap maxheap : Nat) {m : Machine C}
    (r : Machine.Reach (fun m e => m.Lawful e ∧ m.ChprioOk e) (boot C data minheap maxheap) m) : Scheduled m.k := by
  have hrun : ∃ h, Steady m h ∧ Ranking false h := by
    induction r with
    | refl =>
      refine ⟨_, boot_steady data minheap maxheap, ⟨fun p hp => ?_, List.Pairwise.nil⟩, Or.inr (Or.inl fun p hp => ?_)⟩
      · cases hp
      · cases hp
    | step e _ hok hs ih =>
      obtain ⟨h, St, R⟩ := ih
      obtain ⟨h', St', d⟩ := step_does St hs hok.1
      exact ⟨h', St', d.ranking St hok.2 R⟩
  obtain ⟨h, St, R⟩ := hrun
  exact St.scheduled R

/-- A process is given another priority before it runs, and changes its own while it does. -/
def twoPriorities : List (Event Client.none) :=
  [.call (.create 400 20), .cont, .call (.chprio 1 30), .cont, .call (.resume 1), .call (.chprio 1 10), .cont]

/-- The invariant in a run with calls of `chprio`. -/
theorem scheduling_invariant_two_priorities :
    ∃ m, Machine.Reach (fun m e => m.Lawful e ∧ m.ChprioOk e) (boot Client.none () 4096 1048576) m ∧ Scheduled m.k := by
  obtain ⟨m, r, _⟩ := Machine.reach_of_evaluates Forcing.plain (fun m e => m.Lawful e ∧ m.ChprioOk e)
    (boot Client.none () 4096 1048576) twoPriorities (fun _ => true) (by decide +kernel)
  exact ⟨m, r, scheduling_invariant () 4096 1048576 r⟩

/-- A call of `chprio` that raises the priority of a ready process leaves its key on the ready list and the lower process
current. -/
theorem scheduling_invariant_chprio_ready :
    ∃ m, Machine.Reach Machine.Lawful (boot Client.none () 4096 1048576) m ∧ ¬Scheduled m.k := by
  obtain ⟨m, r, hf⟩ := Machine.reach_of_evaluates Forcing.plain Machine.Lawful (boot Client.none () 4096 1048576)
    [.call (.create 400 20), .cont, .call (.resume 1), .call (.create 400 10), .cont, .call (.resume 2), .cont,
      .call (.chprio 2 30)]
    (fun m => decide ((m.k.proctab 2).prstate = .PR_READY) &&
      decide ((m.k.proctab m.k.currpid).prprio < (m.k.proctab 2).prprio))
    (by decide +kernel)
  simp only [Bool.and_eq_true, decide_eq_true_eq] at hf
  refine ⟨m, r, fun S => ?_⟩
  have := S.current 2 (by decide) hf.1
  omega

end Xinu
