import Xinu.Kernel.Queue
import Xinu.Memory.Heap

/-!
# The kernel's data

`process.h`, `semaphore.h`, `resched.h`, `clock.h` and the variables of `initialize.c`. The kernel is generic in the
implementation of its queues. `readylist`, `sleepq` and the `squeue` of a semaphore are the identifiers that the calls of
`newqueue` in `sysinit` return; no function assigns them again, so they are definitions here.

`log` is not a variable of the source: no function reads it. It records what the kernel has done, most recent first, for the
properties that speak of the past.
-/

namespace Xinu

/-- The process state constants. -/
inductive PrState where
  | PR_FREE
  | PR_CURR
  | PR_READY
  | PR_RECV
  | PR_SLEEP
  | PR_SUSP
  | PR_WAIT
  | PR_RECTIM
deriving Repr, DecidableEq, Inhabited

/-- `struct procent`. -/
structure Procent where
  prstate : PrState
  prprio : Int
  prstkbase : Nat
  prstklen : Nat
  prsem : Int
  prparent : Int
  prmsg : Nat
  prhasmsg : Bool
deriving Repr, DecidableEq, Inhabited

/-- The semaphore state constants. -/
inductive SState where
  | S_FREE
  | S_USED
deriving Repr, DecidableEq, Inhabited

/-- `struct sentry`. -/
structure Sentry where
  sstate : SState
  scount : Int
deriving Repr, DecidableEq, Inhabited

/-- What the kernel records of its past. -/
inductive Obs where
  /-- `create` made the process, with the stack it obtained. -/
  | created (pid : Int) (stkbase stklen : Nat)
  /-- `kill` accepted its argument. -/
  | killing (pid : Int)
  /-- `kill` returned the stack. -/
  | stkfreed (pid : Int) (stkbase stklen : Nat)
  /-- `kill` freed the table entry. -/
  | freed (pid : Int)
  /-- `send` deposited the message. -/
  | sent (pid : Int) (msg : Nat)
  /-- `receive`, `recvtime` or `recvclr` took the message. -/
  | took (pid : Int) (msg : Nat)
  /-- A clock interrupt. -/
  | tick
  /-- `sleepms` or `recvtime` put the process on `sleepq`. -/
  | slept (pid delay : Int)
  /-- `wakeup` made the process ready. -/
  | woken (pid : Int)
  /-- `unsleep` took the process off `sleepq`. -/
  | unslept (pid : Int)
  /-- `wait` went through. -/
  | passed (sem pid : Int)
  /-- `wait` put the process on the semaphore's queue. -/
  | blocked (sem pid : Int)
  /-- `signal` or `signaln` raised the count, which was `count`. -/
  | signalled (sem count : Int)
  /-- `signal` or `signaln` released the process. -/
  | released (sem pid : Int)
  /-- `semreset` or `semdelete` released the process. -/
  | flushed (sem pid : Int)
  /-- `kill` took the process off the semaphore's queue. -/
  | unwaited (sem pid : Int)
  | semcreated (sem count : Int)
  | semwasreset (sem count : Int)
  | semdeleted (sem : Int)
deriving Repr, DecidableEq

/-- Whether the processor runs. `done` is the halt in `xdone`, `panicked` the halt in `panic`, and `faulted` a dereference
of a null pointer or an access outside an array. -/
inductive Status where
  | running
  | done
  | panicked
  | faulted
deriving Repr, DecidableEq, Inhabited

/-- The kernel's variables. -/
structure Kernel (Q : Type) where
  proctab : Int → Procent
  prcount : Int
  currpid : Int
  nextpid : Int
  semtab : Int → Sentry
  nextsem : Int
  queuetab : Q
  ndefers : Int
  attempt : Bool
  preempt : Int
  clktime : Nat
  count1000 : Int
  heap : Heap
  status : Status
  log : List Obs

def NULLPROC : Int := 0
def QUANTUM : Int := 2
def MINSTK : Nat := 400
def NULLSTK : Nat := 8192

/-- The queue of a semaphore. -/
def squeue (s : Int) : Int := NPROC + 2 * s

/-- The list of ready processes. -/
def readylist : Int := NPROC + 2 * NSEM

/-- The delta list of sleeping processes. -/
def sleepq : Int := NPROC + 2 * NSEM + 2

def isbadsem (s : Int) : Bool := decide (s < 0) || decide (s ≥ NSEM)

namespace Kernel

variable {Q : Type}

def setProc (k : Kernel Q) (p : Int) (e : Procent) : Kernel Q := { k with proctab := Function.update k.proctab p e }
def setState (k : Kernel Q) (p : Int) (st : PrState) : Kernel Q := k.setProc p { k.proctab p with prstate := st }
def setSem (k : Kernel Q) (s : Int) (e : Sentry) : Kernel Q := { k with semtab := Function.update k.semtab s e }
def setQueues (k : Kernel Q) (qt : Q) : Kernel Q := { k with queuetab := qt }

/-- Record what was done. -/
def note (k : Kernel Q) (e : Obs) : Kernel Q := { k with log := e :: k.log }

def isbadpid (k : Kernel Q) (x : Int) : Bool :=
  decide (x < 0) || decide (x ≥ NPROC) || decide ((k.proctab x).prstate = .PR_FREE)

end Kernel

/-- The queue table after `sysinit` has called `newqueue` for the first `n` queues: all of them are empty. -/
def newqueues (n : Int) : QueueTab := fun i =>
  if i < NPROC ∨ NPROC + 2 * n ≤ i then default
  else if (i - NPROC) % 2 = 0 then { qkey := MAXKEY, qnext := queuetail i, qprev := EMPTY }
  else { qkey := MINKEY, qnext := EMPTY, qprev := i - 1 }

/-- The next call of `newqueue` hands out the next identifier and empties its queue. -/
theorem newqueue_newqueues {n : Int} (hn : 0 ≤ n) : QueueTab.newqueue (newqueues n) (NPROC + 2 * n) = newqueues (n + 1) := by
  funext i
  have hN : NPROC = 100 := rfl
  by_cases h0 : i = NPROC + 2 * n
  · subst h0
    have hne : NPROC + 2 * n ≠ NPROC + 2 * n + 1 := by omega
    rw [newqueues, if_neg (by omega), if_pos (by omega)]
    simp only [QueueTab.newqueue, QueueTab.setNext, QueueTab.setPrev, QueueTab.setKey, queuetail, Function.update_self,
      Function.update_of_ne hne]
  · by_cases h1 : i = NPROC + 2 * n + 1
    · subst h1
      rw [newqueues, if_neg (by omega), if_neg (by omega), show NPROC + 2 * n + 1 - 1 = NPROC + 2 * n by omega]
      simp only [QueueTab.newqueue, QueueTab.setNext, QueueTab.setPrev, QueueTab.setKey, queuetail, Function.update_self]
    · have hiff : (i < NPROC ∨ NPROC + 2 * n ≤ i) ↔ (i < NPROC ∨ NPROC + 2 * (n + 1) ≤ i) := by omega
      simp only [QueueTab.newqueue, QueueTab.setNext, QueueTab.setPrev, QueueTab.setKey, newqueues, queuetail, hiff,
        Function.update_of_ne h0, Function.update_of_ne h1]

/-- The queue table `sysinit` leaves: one queue for every semaphore, then `readylist`, then `sleepq`. -/
def sysinitQueues : QueueTab := newqueues (NSEM + 2)

/-- The state `sysinit` leaves, for the bounds of the heap that the linker and the board give. What it does after the clock is
initialised, the initialisation of the devices, is a sequence of calls by the null process. -/
def sysinit (minheap maxheap : Nat) : Kernel QueueTab :=
  let (stk, heap) := (Heap.meminit minheap maxheap).getstk NULLSTK
  { proctab := fun p =>
      if p = NULLPROC then
        { (default : Procent) with prstate := .PR_CURR, prstkbase := stk.getD (uint32 SYSERR), prstklen := NULLSTK }
      else default
    prcount := 1
    currpid := NULLPROC
    nextpid := 1
    semtab := fun _ => default
    nextsem := 0
    queuetab := sysinitQueues
    ndefers := 0
    attempt := false
    preempt := QUANTUM
    clktime := 0
    count1000 := 0
    heap := heap
    status := .running
    log := [] }

end Xinu
