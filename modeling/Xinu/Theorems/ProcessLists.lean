import Xinu.Kernel.Runs
import Xinu.Kernel.Evaluation

/-!
# Processes and lists in every run

The state of a process says which list it is on, and every list is doubly linked from head to tail, in every state that a run of
system calls and clock interrupts reaches.
-/

namespace Xinu

open Kernel

/-- The process is on the list `q` exactly once and on no other list. -/
def OnlyOn (qt : QueueTab) (p q : Int) : Prop :=
  (qt.toList q).count p = 1 ∧ ∀ q', IsHead q' → q' ≠ q → p ∉ qt.toList q'

/-- Every process is where its state says, and every list is doubly linked. -/
structure Placed (k : Kernel QueueTab) : Prop where
  current : IsPid k.currpid ∧ ∀ p, IsPid p → ((k.proctab p).prstate = .PR_CURR ↔ p = k.currpid)
  ready : ∀ p, IsPid p → ((k.proctab p).prstate = .PR_READY ↔ OnlyOn k.queuetab p readylist)
  waiting : ∀ p, IsPid p → ((k.proctab p).prstate = .PR_WAIT ↔
    isbadsem (k.proctab p).prsem = false ∧ OnlyOn k.queuetab p (squeue (k.proctab p).prsem))
  asleep : ∀ p, IsPid p → ((k.proctab p).prstate = .PR_SLEEP ∨ (k.proctab p).prstate = .PR_RECTIM ↔
    OnlyOn k.queuetab p sleepq)
  elsewhere : ∀ p, IsPid p → (k.proctab p).prstate ∈ [.PR_FREE, .PR_CURR, .PR_RECV, .PR_SUSP] →
    ∀ q, IsHead q → p ∉ k.queuetab.toList q
  linked : ∀ q, IsHead q → Table.Linked (fun i => (k.queuetab i).qnext) (fun i => (k.queuetab i).qprev)
    (q :: k.queuetab.toList q ++ [queuetail q])

section

variable {C : Client} {m : Machine C} {h : Kernel QLists} {p q : Int}

/-- The lists that are read from the table are those of the abstract kernel. -/
theorem Sim.toList_eq {k : Kernel QueueTab} (S : Sim k h) (hq : IsHead q) : k.queuetab.toList q = h.queuetab.ids q := by
  obtain ⟨L, R, rfl⟩ := S
  exact R.toList_eq hq

/-- A process is on a list alone exactly when its entry names the list. -/
theorem Steady.onlyOn_iff (St : Steady m h) (hq : IsHead q) :
    OnlyOn m.k.queuetab p q ↔ homeOf (h.proctab p) = some q := by
  rw [OnlyOn, St.sim.toList_eq hq, ← St.inv.mem]
  constructor
  · rintro ⟨hcount, _⟩
    exact List.count_pos_iff.mp (by omega)
  · intro hm
    refine ⟨List.count_eq_one_of_mem (St.inv.nodup q) hm, fun q' hq' hne hm' => hne ?_⟩
    rw [St.sim.toList_eq hq'] at hm'
    exact St.inv.disj hm' hm

theorem Steady.placed (St : Steady m h) : Placed m.k := by
  obtain ⟨hproc, hcurr, _⟩ := St.sim.fields
  have I := St.inv
  refine ⟨⟨hcurr ▸ I.currpid, fun p _ => ?_⟩, fun p _ => ?_, fun p _ => ?_, fun p _ => ?_, fun p _ hs q hq hm => ?_,
    fun q hq => ?_⟩
  · rw [hproc, hcurr]
    exact ⟨I.curr p, fun e => e ▸ I.running⟩
  · rw [hproc, St.onlyOn_iff isHead_readylist, homeOf_readylist (I.sem p)]
  · rw [hproc]
    constructor
    · intro hw
      have hb := I.sem p hw
      exact ⟨hb, (St.onlyOn_iff (isHead_squeue hb)).mpr ((homeOf_squeue hb).mpr ⟨hw, rfl⟩)⟩
    · rintro ⟨hb, ho⟩
      exact ((homeOf_squeue hb).mp ((St.onlyOn_iff (isHead_squeue hb)).mp ho)).1
  · rw [hproc, St.onlyOn_iff isHead_sleepq, homeOf_sleepq (I.sem p)]
  · rw [St.sim.toList_eq hq, I.mem] at hm
    rw [hproc] at hs
    simp only [List.mem_cons, List.not_mem_nil, or_false] at hs
    rcases hs with hs | hs | hs | hs <;> rw [homeOf, hs] at hm <;> cases hm
  · rw [St.sim.toList_eq hq]
    obtain ⟨L, R, rfl⟩ := St.sim
    exact R.linked q hq

end

/-- In every reachable state exactly the current process is in state `PR_CURR`, every process is on the list of its state once
and on no other, and the lists are doubly linked. The null process does not block, and a direct call of `ready` names a process
that is on no list. -/
theorem process_lists {C : Client} (data : C.Data) (minheap maxheap : Nat) {m : Machine C}
    (r : Machine.Reach Machine.Lawful (boot C data minheap maxheap) m) : Placed m.k := by
  obtain ⟨h, St⟩ := reach_steady (fun _ _ hok => hok) (boot_steady data minheap maxheap) r
  exact St.placed

/-- Two processes are created, one blocks in `receive` and the other sleeps. -/
def twoBlocked : List (Event Client.none) :=
  [.call (.create 400 20), .cont, .call (.resume 1), .call .receive, .cont, .call (.create 400 30), .cont,
    .call (.resume 2), .call (.sleepms 5), .cont, .tick, .call (.send 1 7)]

/-- The invariant in a run in which processes block, sleep and are made ready. -/
theorem process_lists_two_blocked :
    ∃ m, Machine.Reach Machine.Lawful (boot Client.none () 4096 1048576) m ∧ Placed m.k := by
  obtain ⟨m, r, _⟩ := Machine.reach_of_evaluates Forcing.plain Machine.Lawful (boot Client.none () 4096 1048576) twoBlocked
    (fun _ => true) (by decide +kernel)
  exact ⟨m, r, process_lists () 4096 1048576 r⟩

/-- A direct call of `ready` for a process that is on the ready list already links it to itself. -/
theorem process_lists_ready_twice :
    ∃ m, Machine.Reach (fun m e => ∀ c ∈ m.issued e, m.k.currpid = NULLPROC → m.k.blocks c = false)
      (boot Client.none () 4096 1048576) m ∧ ¬Placed m.k := by
  obtain ⟨m, r, hf⟩ := Machine.reach_of_evaluates Forcing.plain
    (fun m e => ∀ c ∈ m.issued e, m.k.currpid = NULLPROC → m.k.blocks c = false)
    (boot Client.none () 4096 1048576)
    [.call (.create 400 20), .cont, .call (.resume 1), .call (.create 400 10), .cont, .call (.resume 2), .cont,
      .call (.ready 2)]
    (fun m => decide ((m.k.proctab 2).prstate = .PR_READY) && decide ((m.k.queuetab.toList readylist).count 2 ≠ 1))
    (by decide +kernel)
  refine ⟨m, r, fun P => ?_⟩
  simp only [Bool.and_eq_true, decide_eq_true_eq] at hf
  exact hf.2 ((P.ready 2 (by decide)).mp hf.1).1

end Xinu
