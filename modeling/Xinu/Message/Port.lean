import Xinu.Kernel.Machine
import Xinu.Memory.Heap

/-!
# Ports

`ptinit.c`, `ptcreate.c`, `ptsend.c`, `ptrecv.c`, `ptclear.c`, `ptreset.c` and `ptdelete.c` as a library on the system calls. All of
them run with interrupts disabled; other processes run when `ptsend` or `ptrecv` waits or signals, when `_ptclear` resets or deletes
a semaphore, and when the procedure that disposes of a message makes a system call.

`count` is not a variable of the source, and neither are the four fields behind it: they record the argument of the `ptcreate` that
made the port, the messages put into its queue and taken out since `ptseq` last changed, and, for the last clearing of the port, the
messages that its queue held and those that the procedure was called with.
-/

namespace Xinu

namespace Port

def NPORTS : Int := 30

/-- `sizeof(struct ptnode)`. -/
def nodeSize : Nat := 8

/-- The port states. -/
inductive PtState where
  | PT_FREE
  | PT_LIMBO
  | PT_ALLOC
deriving Repr, DecidableEq, Inhabited

/-- `struct ptnode`. -/
structure Ptnode where
  ptmsg : Nat
  ptnext : Nat
deriving Repr, DecidableEq, Inhabited

/-- `struct ptentry`. -/
structure Ptentry where
  ptssem : Int
  ptrsem : Int
  ptstate : PtState
  ptmaxcnt : Nat
  ptseq : Int
  pthead : Nat
  pttail : Nat
deriving Repr, DecidableEq, Inhabited

/-- The ports and the nodes, with the messages of each port since it was created, and those its disposal takes. -/
structure Ports where
  ptfree : Nat
  porttab : Int → Ptentry
  ptnextid : Int
  /-- The nodes by address. -/
  node : Nat → Ptnode
  count : Int → Int
  enqueued : Int → List Nat
  dequeued : Int → List Nat
  doomed : Int → List Nat
  disposed : Int → List Nat

/-- The routines of `pt*.c`. -/
inductive Op where
  | ptinit (maxmsgs : Int)
  | ptcreate (count : Int)
  | ptsend (portid : Int) (msg : Nat)
  | ptrecv (portid : Int)
  | ptreset (portid : Int)
  | ptdelete (portid : Int)
deriving Repr, DecidableEq

/-- Where a routine goes on. -/
inductive Point where
  /-- Behind the call of `getmem` in `ptinit`. -/
  | gotnodes (maxmsgs : Int)
  /-- Behind the two calls of `semcreate` in `ptcreate`. -/
  | gotssem (ptnum count : Int)
  | gotrsem (ptnum count : Int)
  /-- Behind the call of `wait` in `ptsend`, and behind that of `signal`. -/
  | sendwaited (portid seq : Int) (msg : Nat)
  | sent
  /-- Behind the call of `wait` in `ptrecv`, and behind that of `signal`. -/
  | recvwaited (portid seq : Int)
  | received (msg : Nat)
  /-- Behind the call of the procedure for the message of the node `walk`. -/
  | disposing (portid : Int) (newstate : PtState) (walk : Nat)
  /-- Behind the first and the second call of `semreset` or of `semdelete`. -/
  | released (portid : Int) (newstate : PtState)
  | cleared (portid : Int) (newstate : PtState)
deriving Repr, DecidableEq

def isbadport (portid : Int) : Bool := decide (portid < 0) || decide (portid ≥ NPORTS)

namespace Ports

variable (d : Ports)

def setEntry (p : Int) (e : Ptentry) : Ports := { d with porttab := Function.update d.porttab p e }

def setNode (a : Nat) (n : Ptnode) : Ports := { d with node := Function.update d.node a n }

/-! ## `ptinit` -/

/-- The loop of `ptinit` that links `n` more nodes behind the one at `curr`, and the end of the list. -/
def linkNodes : Nat → Nat → (Nat → Ptnode) → Nat → Ptnode
  | 0, curr, node => Function.update node curr { node curr with ptnext := NULL }
  | n + 1, curr, node =>
    let next := (curr + nodeSize) % 4294967296
    linkNodes n next (Function.update node curr { node curr with ptnext := next })

/-- `ptinit` up to the call of `getmem`. -/
def ptinit (maxmsgs : Int) : Ports × Next Point :=
  let maxmsgs := int32 maxmsgs
  (d, .call (.getmem (uint32 (maxmsgs * nodeSize))) (.gotnodes maxmsgs))

/-- `ptinit` behind the call of `getmem`, which has returned `buf`. -/
def gotnodes (maxmsgs buf : Int) : Ports × Next Point :=
  let d := { d with ptfree := uint32 buf }
  if int32 buf = SYSERR then (d, .stop .panicked)
  else
    ({ d with
        porttab := fun p =>
          if isbadport p then d.porttab p else { d.porttab p with ptstate := .PT_FREE, ptseq := 0 }
        ptnextid := 0
        node := linkNodes (int32 (maxmsgs - 1)).toNat (uint32 buf) d.node }, .ret OK)

/-! ## `ptcreate` -/

/-- The loop of `ptcreate`: the entry found and the next one to try. -/
def ptcreateLoop (porttab : Int → Ptentry) : Nat → Int → Option Int × Int
  | 0, ptnextid => (none, ptnextid)
  | n + 1, ptnextid =>
    let ptnum := ptnextid
    let ptnextid := if ptnextid + 1 ≥ NPORTS then 0 else ptnextid + 1
    if (porttab ptnum).ptstate = .PT_FREE then (some ptnum, ptnextid) else ptcreateLoop porttab n ptnextid

/-- `ptcreate` up to the first call of `semcreate`. -/
def ptcreate (count : Int) : Ports × Next Point :=
  let count := int32 count
  if count < 0 then (d, .ret SYSERR)
  else
    match ptcreateLoop d.porttab NPORTS.toNat d.ptnextid with
    | (none, ptnextid) => ({ d with ptnextid := ptnextid }, .ret SYSERR)
    | (some ptnum, ptnextid) =>
      ({ d with ptnextid := ptnextid }.setEntry ptnum { d.porttab ptnum with ptstate := .PT_ALLOC },
        .call (.semcreate count) (.gotssem ptnum count))

def gotssem (ptnum count sem : Int) : Ports × Next Point :=
  (d.setEntry ptnum { d.porttab ptnum with ptssem := int32 sem }, .call (.semcreate 0) (.gotrsem ptnum count))

/-- The port gets its second semaphore and a new number, and is in use. -/
def gotrsem (ptnum count sem : Int) : Ports × Next Point :=
  let e := d.porttab ptnum
  ({ d with
      count := Function.update d.count ptnum count
      enqueued := Function.update d.enqueued ptnum []
      dequeued := Function.update d.dequeued ptnum [] }.setEntry ptnum
    { e with
      ptrsem := int32 sem, pthead := NULL, pttail := NULL, ptseq := int32 (e.ptseq + 1), ptmaxcnt := (count % 65536).toNat },
    .ret ptnum)

/-! ## `ptsend` and `ptrecv` -/

/-- `ptsend` up to the call of `wait`. -/
def ptsend (portid : Int) (msg : Nat) : Ports × Next Point :=
  let portid := int32 portid
  let e := d.porttab portid
  if isbadport portid ∨ e.ptstate ≠ .PT_ALLOC then (d, .ret SYSERR)
  else (d, .call (.wait e.ptssem) (.sendwaited portid e.ptseq (msg % 4294967296)))

/-- A node is unlinked from the free list and linked into the queue. -/
def enqueue (portid : Int) (msg : Nat) : Ports :=
  let e := d.porttab portid
  let msgnode := d.ptfree
  let d := { d with ptfree := (d.node msgnode).ptnext }.setNode msgnode ⟨msg, NULL⟩
  let d := { d with enqueued := Function.update d.enqueued portid (d.enqueued portid ++ [msg]) }
  if e.pttail = NULL then d.setEntry portid { e with pttail := msgnode, pthead := msgnode }
  else (d.setNode e.pttail { d.node e.pttail with ptnext := msgnode }).setEntry portid { e with pttail := msgnode }

/-- `ptsend` behind the call of `wait`, which has returned `v`. -/
def sendwaited (portid seq : Int) (msg : Nat) (v : Int) : Ports × Next Point :=
  let e := d.porttab portid
  if v = SYSERR ∨ e.ptstate ≠ .PT_ALLOC ∨ e.ptseq ≠ seq then (d, .ret SYSERR)
  else if d.ptfree = NULL then (d, .stop .panicked)
  else (d.enqueue portid msg, .call (.signal e.ptrsem) .sent)

/-- `ptrecv` up to the call of `wait`. -/
def ptrecv (portid : Int) : Ports × Next Point :=
  let portid := int32 portid
  let e := d.porttab portid
  if isbadport portid ∨ e.ptstate ≠ .PT_ALLOC then (d, .ret (uint32 SYSERR))
  else (d, .call (.wait e.ptrsem) (.recvwaited portid e.ptseq))

/-- The first node is taken off the queue and returned to the free list. -/
def dequeue (portid : Int) : Ports :=
  let e := d.porttab portid
  let msgnode := e.pthead
  let e' :=
    if e.pthead = e.pttail then { e with pthead := NULL, pttail := NULL } else { e with pthead := (d.node msgnode).ptnext }
  let d := { d with dequeued := Function.update d.dequeued portid (d.dequeued portid ++ [(d.node msgnode).ptmsg]) }
  { (d.setEntry portid e').setNode msgnode { d.node msgnode with ptnext := d.ptfree } with ptfree := msgnode }

/-- `ptrecv` behind the call of `wait`, which has returned `v`. -/
def recvwaited (portid seq v : Int) : Ports × Next Point :=
  let e := d.porttab portid
  if v = SYSERR ∨ e.ptstate ≠ .PT_ALLOC ∨ e.ptseq ≠ seq then (d, .ret (uint32 SYSERR))
  else if e.pthead = NULL then (d, .stop .faulted)
  else (d.dequeue portid, .call (.signal e.ptssem) (.received (d.node e.pthead).ptmsg))

/-! ## `ptreset` and `ptdelete` -/

/-- The call of the procedure for the message of a node. -/
def dispose (portid : Int) (newstate : PtState) (walk : Nat) : Ports × Next Point :=
  ({ d with disposed := Function.update d.disposed portid (d.disposed portid ++ [(d.node walk).ptmsg]) },
    .callback (.disposing portid newstate walk))

/-- The part of `_ptclear` that empties the queue and releases the processes that wait to send. -/
def release (portid : Int) (newstate : PtState) : Ports × Next Point :=
  let e := d.porttab portid
  if newstate = .PT_ALLOC then
    (d.setEntry portid { e with pttail := NULL, pthead := NULL }, .call (.semreset e.ptssem e.ptmaxcnt) (.released portid newstate))
  else (d, .call (.semdelete e.ptssem) (.released portid newstate))

/-- `_ptclear` up to the first call of the procedure. -/
def ptclear (portid : Int) (newstate : PtState) : Ports × Next Point :=
  let e := d.porttab portid
  let d := { d with
    doomed := Function.update d.doomed portid ((d.enqueued portid).drop (d.dequeued portid).length)
    disposed := Function.update d.disposed portid []
    enqueued := Function.update d.enqueued portid []
    dequeued := Function.update d.dequeued portid [] }.setEntry portid { e with ptstate := .PT_LIMBO, ptseq := int32 (e.ptseq + 1) }
  if e.pthead ≠ NULL then d.dispose portid newstate e.pthead else d.release portid newstate

/-- The whole queue is linked into the free list. -/
def splice (portid : Int) : Ports :=
  let e := d.porttab portid
  { d.setNode e.pttail { d.node e.pttail with ptnext := d.ptfree } with ptfree := e.pthead }

/-- `_ptclear` behind the call of the procedure for the message of a node. -/
def disposing (portid : Int) (newstate : PtState) (walk : Nat) : Ports × Next Point :=
  let walk := (d.node walk).ptnext
  if walk ≠ NULL then d.dispose portid newstate walk else (d.splice portid).release portid newstate

/-- `_ptclear` behind the first call of `semreset` or `semdelete`. -/
def released (portid : Int) (newstate : PtState) : Ports × Next Point :=
  let e := d.porttab portid
  if newstate = .PT_ALLOC then (d, .call (.semreset e.ptrsem 0) (.cleared portid newstate))
  else (d, .call (.semdelete e.ptrsem) (.cleared portid newstate))

/-- `_ptclear` behind the second call, and the rest of `ptreset` and of `ptdelete`. -/
def cleared (portid : Int) (newstate : PtState) : Ports × Next Point :=
  let d := d.setEntry portid { d.porttab portid with ptstate := newstate }
  (if newstate = .PT_ALLOC then d else { d with ptnextid := portid }, .ret OK)

/-- `ptreset` and `ptdelete` up to the first call of the procedure. -/
def ptreset (portid : Int) (newstate : PtState) : Ports × Next Point :=
  let portid := int32 portid
  if isbadport portid ∨ (d.porttab portid).ptstate ≠ .PT_ALLOC then (d, .ret SYSERR) else d.ptclear portid newstate

/-- The tables before `ptinit`. -/
def init : Ports :=
  { ptfree := NULL, porttab := fun _ => default, ptnextid := 0, node := fun _ => default, count := fun _ => 0
    enqueued := fun _ => [], dequeued := fun _ => [], doomed := fun _ => [], disposed := fun _ => [] }

end Ports

/-- The ports as a library. -/
@[reducible] def ports : Client where
  Data := Ports
  Op := Op
  F := Point
  enter d _
    | .ptinit maxmsgs => d.ptinit maxmsgs
    | .ptcreate count => d.ptcreate count
    | .ptsend portid msg => d.ptsend portid msg
    | .ptrecv portid => d.ptrecv portid
    | .ptreset portid => d.ptreset portid .PT_ALLOC
    | .ptdelete portid => d.ptreset portid .PT_FREE
  resume d _
    | .gotnodes maxmsgs, buf => d.gotnodes maxmsgs buf
    | .gotssem ptnum count, sem => d.gotssem ptnum count sem
    | .gotrsem ptnum count, sem => d.gotrsem ptnum count sem
    | .sendwaited portid seq msg, v => d.sendwaited portid seq msg v
    | .sent, _ => (d, .ret OK)
    | .recvwaited portid seq, v => d.recvwaited portid seq v
    | .received msg, _ => (d, .ret msg)
    | .disposing portid newstate walk, _ => d.disposing portid newstate walk
    | .released portid newstate, _ => d.released portid newstate
    | .cleared portid newstate, _ => d.cleared portid newstate

end Port

end Xinu
