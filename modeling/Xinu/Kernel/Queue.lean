import Xinu.Lib.Linked
import Xinu.Lib.Machine

/-!
# The queue table

`queue.h`, `queue.c`, `getitem.c`, `insert.c`, `insertd.c` and `newqueue.c`. One table `queuetab` holds a node for every
process and two sentinel nodes for every queue; the identifier of a queue is the index of its head, and its tail is the next
index. The loops carry a fuel argument, the size of the table: a list that reaches its tail is shorter than that.

The argument checks that read the process table (`isbadpid`) are made by the callers of these functions in `Kernel`.
-/

namespace Xinu

/-- `conf.h`: number of entries of the process table. -/
def NPROC : Int := 100

/-- `conf.h`: number of semaphores. -/
def NSEM : Int := 100

/-- One node per process, two for the ready list, two for the sleep list and two per semaphore. -/
def NQENT : Int := NPROC + 4 + NSEM + NSEM

def OK : Int := 1
def SYSERR : Int := -1
def EOF : Int := -2
def TIMEOUT : Int := -3

/-- Null value for a `qnext` or `qprev` index. -/
def EMPTY : Int := -1

def MAXKEY : Int := 2147483647
def MINKEY : Int := -2147483648

theorem NPROC_pos : 0 < NPROC := by decide
theorem NSEM_pos : 0 < NSEM := by decide

structure Qentry where
  qkey : Int
  qnext : Int
  qprev : Int
deriving Repr, DecidableEq, Inhabited

abbrev QueueTab := Int → Qentry

def queuetail (q : Int) : Int := q + 1

def isbadqid (x : Int) : Bool := decide (x < NPROC) || decide (x ≥ NQENT - 1)

namespace QueueTab

variable (qt : QueueTab)

def setNext (i v : Int) : QueueTab := Function.update qt i { qt i with qnext := v }
def setPrev (i v : Int) : QueueTab := Function.update qt i { qt i with qprev := v }
def setKey (i v : Int) : QueueTab := Function.update qt i { qt i with qkey := v }

def firstid (q : Int) : Int := (qt q).qnext
def isempty (q : Int) : Bool := decide (firstid qt q ≥ NPROC)
def firstkey (q : Int) : Int := (qt (firstid qt q)).qkey

/-- `enqueue`: insert a process at the tail of a queue. -/
def enqueue (pid q : Int) : QueueTab :=
  let tail := queuetail q
  let prev := (qt tail).qprev
  let qt := setNext qt pid tail
  let qt := setPrev qt pid prev
  let qt := setNext qt prev pid
  setPrev qt tail pid

/-- `getitem`: remove a process from an arbitrary point in a queue. -/
def getitem (pid : Int) : QueueTab :=
  let next := (qt pid).qnext
  let prev := (qt pid).qprev
  let qt := setNext qt prev next
  setPrev qt next prev

/-- `getfirst`: remove a process from the front of a queue. -/
def getfirst (q : Int) : Int × QueueTab :=
  if isempty qt q then (EMPTY, qt) else (firstid qt q, getitem qt (firstid qt q))

/-- `dequeue`: remove and return the first process on a list. -/
def dequeue (q : Int) : Int × QueueTab :=
  if isbadqid q then (SYSERR, qt)
  else if isempty qt q then (EMPTY, qt)
  else
    let (pid, qt) := getfirst qt q
    let qt := setPrev qt pid EMPTY
    (pid, setNext qt pid EMPTY)

/-- The loop of `insert`: skip the nodes whose key is at least `key`. -/
def insertPos (key : Int) : Nat → Int → Int
  | 0, curr => curr
  | n + 1, curr => if (qt curr).qkey ≥ key then insertPos key n (qt curr).qnext else curr

/-- `insert`: insert a process into a queue in descending key order. -/
def insert (pid q key : Int) : QueueTab :=
  let curr := insertPos qt key NQENT.toNat (firstid qt q)
  let prev := (qt curr).qprev
  let qt := setNext qt pid curr
  let qt := setPrev qt pid prev
  let qt := setKey qt pid key
  let qt := setNext qt prev pid
  setPrev qt curr pid

/-- The loop of `insertd`: the node before which the process goes, the node after which it goes, and what is left of the
delay there. -/
def insertdPos (q : Int) : Nat → Int → Int → Int → Int × Int × Int
  | 0, prev, next, key => (prev, next, key)
  | n + 1, prev, next, key =>
    if next ≠ queuetail q ∧ (qt next).qkey ≤ key then
      insertdPos q n next (qt next).qnext (int32 (key - (qt next).qkey))
    else (prev, next, key)

/-- `insertd`: insert a process in a delta list using the delay as the key. -/
def insertd (pid q key : Int) : QueueTab :=
  let (prev, next, key) := insertdPos qt q NQENT.toNat q (qt q).qnext key
  let qt := setNext qt pid next
  let qt := setPrev qt pid prev
  let qt := setKey qt pid key
  let qt := setNext qt prev pid
  let qt := setPrev qt next pid
  if next ≠ queuetail q then setKey qt next (int32 ((qt next).qkey - key)) else qt

/-- The part of `unsleep` that adds the key of a process to the key of the process behind it, if there is one. -/
def passKey (pid : Int) : QueueTab :=
  let pidnext := (qt pid).qnext
  if pidnext < NPROC then setKey qt pidnext (int32 ((qt pidnext).qkey + (qt pid).qkey)) else qt

/-- The decrement of `clkhandler` of the key of the first process on a queue. -/
def decFirst (q : Int) : QueueTab := setKey qt (firstid qt q) (int32 ((qt (firstid qt q)).qkey - 1))

/-- `newqueue` on the next free queue identifier `q`: initialise the two sentinels to form an empty queue. -/
def newqueue (q : Int) : QueueTab :=
  let qt := setNext qt q (queuetail q)
  let qt := setPrev qt q EMPTY
  let qt := setKey qt q MAXKEY
  let qt := setNext qt (queuetail q) EMPTY
  let qt := setPrev qt (queuetail q) q
  setKey qt (queuetail q) MINKEY

/-- The processes on a queue, read from the table by following `qnext` from the head. -/
def toList (q : Int) : List Int :=
  Table.walk (fun i => (qt i).qnext) (fun i => decide (i ≥ NPROC)) NPROC.toNat (firstid qt q)

end QueueTab

/-- What the kernel needs of its queues. The source has one implementation, the table `QueueTab`; `QLists` of
`Kernel.Lists` is the abstract one. -/
class QueueOps (Q : Type) where
  isempty : Q → Int → Bool
  firstid : Q → Int → Int
  firstkey : Q → Int → Int
  enqueue : Q → Int → Int → Q
  getitem : Q → Int → Q
  getfirst : Q → Int → Int × Q
  dequeue : Q → Int → Int × Q
  insert : Q → Int → Int → Int → Q
  insertd : Q → Int → Int → Int → Q
  /-- The queue is named for the abstract implementation; the table finds the neighbour by its links. -/
  passKey : Q → Int → Int → Q
  decFirst : Q → Int → Q

instance : QueueOps QueueTab where
  isempty := QueueTab.isempty
  firstid := QueueTab.firstid
  firstkey := QueueTab.firstkey
  enqueue := QueueTab.enqueue
  getitem := QueueTab.getitem
  getfirst := QueueTab.getfirst
  dequeue := QueueTab.dequeue
  insert := QueueTab.insert
  insertd := QueueTab.insertd
  passKey qt _ pid := QueueTab.passKey qt pid
  decFirst := QueueTab.decFirst

end Xinu
