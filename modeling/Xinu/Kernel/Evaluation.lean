import Xinu.Lib.Forcing
import Xinu.Kernel.Machine

/-!
# Runs on concrete inputs

`reach_of_evaluates`: a sequence of events that evaluates is a run. The tables of the kernel are evaluated between events, at
the entries the run uses.
-/

namespace Xinu

namespace Forcing

/-- A process state is one of the constants. -/
def prState : Forcing PrState where
  app s f := match s with
    | .PR_FREE => f .PR_FREE
    | .PR_CURR => f .PR_CURR
    | .PR_READY => f .PR_READY
    | .PR_RECV => f .PR_RECV
    | .PR_SLEEP => f .PR_SLEEP
    | .PR_SUSP => f .PR_SUSP
    | .PR_WAIT => f .PR_WAIT
    | .PR_RECTIM => f .PR_RECTIM
  app_eq s f := by cases s <;> rfl

def procent : Forcing Procent where
  app e f := prState.app e.prstate fun s => int.app e.prprio fun prio => nat.app e.prstkbase fun base =>
    nat.app e.prstklen fun len => int.app e.prsem fun sem => int.app e.prparent fun par => nat.app e.prmsg fun msg =>
    bool.app e.prhasmsg fun has => f ⟨s, prio, base, len, sem, par, msg, has⟩
  app_eq e f := by simp only [app_eq]

/-- A semaphore is its state and an evaluated count. -/
def sentry : Forcing Sentry where
  app e f := (match e.sstate with
    | .S_FREE => int.app e.scount fun c => f ⟨.S_FREE, c⟩
    | .S_USED => int.app e.scount fun c => f ⟨.S_USED, c⟩)
  app_eq e f := by
    rcases e with ⟨s, c⟩
    cases s <;> exact int.app_eq c _

def qentry : Forcing Qentry where
  app e f := int.app e.qkey fun key => int.app e.qnext fun next => int.app e.qprev fun prev => f ⟨key, next, prev⟩
  app_eq e f := by simp only [app_eq]

def memblk : Forcing Memblk where
  app e f := nat.app e.mnext fun next => nat.app e.mlength fun len => f ⟨next, len⟩
  app_eq e f := by simp only [app_eq]

def heap (addrs : List Nat) : Forcing Heap where
  app h f := memblk.app h.memlist fun l => (table addrs memblk).app h.mem fun mem => nat.app h.minheap fun a =>
    nat.app h.maxheap fun b => f ⟨l, mem, a, b⟩
  app_eq e f := by simp only [app_eq]

/-- So is the state of the system. -/
def status : Forcing Status where
  app s f := match s with
    | .running => f .running
    | .done => f .done
    | .panicked => f .panicked
    | .faulted => f .faulted
  app_eq s f := by cases s <;> rfl

/-- A record is evaluated with its numbers. -/
def obs : Forcing Obs where
  app o f := match o with
    | .created p a n => int.app p fun p => nat.app a fun a => nat.app n fun n => f (.created p a n)
    | .killing p => int.app p fun p => f (.killing p)
    | .stkfreed p a n => int.app p fun p => nat.app a fun a => nat.app n fun n => f (.stkfreed p a n)
    | .freed p => int.app p fun p => f (.freed p)
    | .sent p msg => int.app p fun p => nat.app msg fun msg => f (.sent p msg)
    | .took p msg => int.app p fun p => nat.app msg fun msg => f (.took p msg)
    | .tick => f .tick
    | .slept p d => int.app p fun p => int.app d fun d => f (.slept p d)
    | .woken p => int.app p fun p => f (.woken p)
    | .unslept p => int.app p fun p => f (.unslept p)
    | .passed s p => int.app s fun s => int.app p fun p => f (.passed s p)
    | .blocked s p => int.app s fun s => int.app p fun p => f (.blocked s p)
    | .signalled s c => int.app s fun s => int.app c fun c => f (.signalled s c)
    | .released s p => int.app s fun s => int.app p fun p => f (.released s p)
    | .flushed s p => int.app s fun s => int.app p fun p => f (.flushed s p)
    | .unwaited s p => int.app s fun s => int.app p fun p => f (.unwaited s p)
    | .semcreated s c => int.app s fun s => int.app c fun c => f (.semcreated s c)
    | .semwasreset s c => int.app s fun s => int.app c fun c => f (.semwasreset s c)
    | .semdeleted s => int.app s fun s => f (.semdeleted s)
  app_eq o f := by cases o <;> simp only [app_eq]

/-- The entries of the kernel's tables that a run uses. -/
structure Used where
  pids : List Int
  sems : List Int
  addrs : List Nat

/-- The nodes of the processes, of the ready list, of the sleep list and of the semaphores. -/
def Used.nodes (u : Used) : List Int :=
  u.pids ++ [readylist, queuetail readylist, sleepq, queuetail sleepq] ++
    u.sems.flatMap (fun s => [squeue s, queuetail (squeue s)])

/-- A kernel, with the entries of its tables that are used. -/
def kernel (u : Used) : Forcing (Kernel QueueTab) where
  app k f := (table u.pids procent).app k.proctab fun proctab => int.app k.prcount fun prcount =>
    int.app k.currpid fun currpid => int.app k.nextpid fun nextpid => (table u.sems sentry).app k.semtab fun semtab =>
    int.app k.nextsem fun nextsem => (table u.nodes qentry).app k.queuetab fun queuetab =>
    int.app k.ndefers fun ndefers => bool.app k.attempt fun attempt => int.app k.preempt fun preempt =>
    nat.app k.clktime fun clktime => int.app k.count1000 fun count1000 => (heap u.addrs).app k.heap fun heap =>
    status.app k.status fun status => (list obs).app k.log fun log =>
    f ⟨proctab, prcount, currpid, nextpid, semtab, nextsem, queuetab, ndefers, attempt, preempt, clktime, count1000, heap,
      status, log⟩
  app_eq k f := by simp only [app_eq]

/-- How a system call goes on, with its numbers. -/
def resume : Forcing Resume where
  app r f := match r with
    | .ret v => int.app v fun v => f (.ret v)
    | .suspend p => int.app p fun p => f (.suspend p)
    | .receive => f .receive
    | .recvtime => f .recvtime
    | .kill p i => int.app p fun p => nat.app i fun i => f (.kill p i)
  app_eq r f := by cases r <;> simp only [app_eq]

def frame {F : Type} (G : Forcing F) : Forcing (Frame F) where
  app x f := match x with
    | .kernel r => resume.app r fun r => f (.kernel r)
    | .client c => G.app c fun c => f (.client c)
    | .callback c => G.app c fun c => f (.callback c)
  app_eq x f := by cases x <;> simp only [app_eq]

/-- A machine, with a way to evaluate the frames and the data of its library. -/
def machine {C : Client} (u : Used) (G : Forcing C.F) (D : Forcing C.Data) : Forcing (Machine C) where
  app m f := (kernel u).app m.k fun k => (table u.pids (list (frame G))).app m.context fun context =>
    D.app m.data fun data => f ⟨k, context, data⟩
  app_eq m f := by simp only [app_eq]

/-- A machine without a library, in which the first processes and semaphores are used. -/
def plain : Forcing (Machine Client.none) := machine ⟨[0, 1, 2, 3, 4], [0, 1], [4096]⟩ (id _) (id _)

end Forcing

namespace Machine

variable {C : Client}

/-- The events are allowed one after the other, and `f` holds in the end; the state is evaluated between the events. -/
def evaluates (F : Forcing (Machine C)) (ok : Machine C → Event C → Prop) [∀ m e, Decidable (ok m e)]
    (f : Machine C → Bool) : Machine C → List (Event C) → Bool
  | m, [] => f m
  | m, e :: es =>
    decide (ok m e) && match m.step e with
      | none => false
      | some m' => F.app m' (fun m' => evaluates F ok f m' es)

/-- A sequence of events that evaluates is a run. -/
theorem reach_of_evaluates (F : Forcing (Machine C)) (ok : Machine C → Event C → Prop) [∀ m e, Decidable (ok m e)]
    (m : Machine C) (es : List (Event C)) (f : Machine C → Bool) (h : evaluates F ok f m es = true) :
    ∃ m', Reach ok m m' ∧ f m' = true := by
  induction es generalizing m with
  | nil => exact ⟨m, .refl, h⟩
  | cons e es ih =>
    rw [evaluates, Bool.and_eq_true, decide_eq_true_eq] at h
    obtain ⟨hok, hrest⟩ := h
    cases hs : m.step e with
    | none =>
      rw [hs] at hrest
      cases hrest
    | some m₁ =>
      simp only [hs, F.app_eq] at hrest
      obtain ⟨m', r, hf⟩ := ih m₁ hrest
      exact ⟨m', (Reach.refl.step e hok hs).trans r, hf⟩

end Machine

end Xinu
