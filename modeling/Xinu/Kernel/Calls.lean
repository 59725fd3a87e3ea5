import Xinu.Kernel.State

/-!
# The kernel's functions

The system calls and the clock interrupt, as their sources compute them. A function runs up to the point where a context
switch can leave its caller behind: it returns the kernel at that point and what the caller does when it runs again
(`Resume`). Every context switch is the last thing such a segment does, so the segments are atomic. Arguments are converted to
the parameter's type where a function is entered; addresses of procedures, names, arguments and device descriptors of a
process are not kept, since no function here depends on them.
-/

namespace Xinu

/-- What a caller does when it runs again after a segment of a system call. -/
inductive Resume where
  /-- Return the value. -/
  | ret (v : Int)
  /-- The end of `suspend`. -/
  | suspend (pid : Int)
  /-- The end of `receive`. -/
  | receive
  /-- The end of `recvtime`. -/
  | recvtime
  /-- `kill` before the call of `close` for descriptor `i`, and behind the last of the three when `i` is 3. -/
  | kill (pid : Int) (i : Nat)
deriving Repr, DecidableEq

namespace Kernel

variable {Q : Type} [QueueOps Q] (k : Kernel Q)

/-! ## Queues, with the argument checks that read the process table -/

def enqueue (pid q : Int) : Int × Kernel Q :=
  if isbadqid q || k.isbadpid pid then (SYSERR, k) else (pid, k.setQueues (QueueOps.enqueue k.queuetab pid q))

def insert (pid q key : Int) : Int × Kernel Q :=
  if isbadqid q || k.isbadpid pid then (SYSERR, k) else (OK, k.setQueues (QueueOps.insert k.queuetab pid q key))

def insertd (pid q key : Int) : Int × Kernel Q :=
  if isbadqid q || k.isbadpid pid then (SYSERR, k) else (OK, k.setQueues (QueueOps.insertd k.queuetab pid q key))

/-- Remove and return the first process on a list. -/
def dequeue (q : Int) : Int × Kernel Q :=
  let (pid, qt) := QueueOps.dequeue k.queuetab q
  (pid, k.setQueues qt)

def getfirst (q : Int) : Int × Kernel Q :=
  let (pid, qt) := QueueOps.getfirst k.queuetab q
  (pid, k.setQueues qt)

def getitem (pid : Int) : Kernel Q := k.setQueues (QueueOps.getitem k.queuetab pid)

/-! ## Scheduling -/

/-- The context switch of `resched` to the first process on the ready list. -/
def switch : Kernel Q :=
  let (pid, k) := k.dequeue readylist
  { k with currpid := pid, preempt := QUANTUM }.setState pid .PR_CURR

/-- `resched`: reschedule processor to highest priority eligible process. -/
def resched : Kernel Q :=
  if k.ndefers > 0 then { k with attempt := true }
  else if (k.proctab k.currpid).prstate = .PR_CURR then
    if (k.proctab k.currpid).prprio > QueueOps.firstkey k.queuetab readylist then k
    else ((k.setState k.currpid .PR_READY).insert k.currpid readylist (k.proctab k.currpid).prprio).2.switch
  else k.switch

/-- `resched_cntl(DEFER_START)`. -/
def deferStart : Kernel Q :=
  { k with ndefers := k.ndefers + 1, attempt := if k.ndefers = 0 then false else k.attempt }

/-- `resched_cntl(DEFER_STOP)`. -/
def deferStop : Kernel Q :=
  if k.ndefers ≤ 0 then k
  else
    let k := { k with ndefers := k.ndefers - 1 }
    if k.ndefers = 0 ∧ k.attempt then k.resched else k

/-- `ready`: make a process eligible for CPU service. -/
def ready (pid : Int) : Int × Kernel Q :=
  if k.isbadpid pid then (SYSERR, k)
  else (OK, ((k.setState pid .PR_READY).insert pid readylist (k.proctab pid).prprio).2.resched)

/-! ## Processes -/

/-- The loop of `newpid`: the entry found and the next one to try. -/
def newpidLoop (proctab : Int → Procent) : Nat → Int → Option Int × Int
  | 0, nextpid => (none, nextpid)
  | n + 1, nextpid =>
    let nextpid := nextpid % NPROC
    if (proctab nextpid).prstate = .PR_FREE then (some nextpid, nextpid + 1) else newpidLoop proctab n (nextpid + 1)

/-- `newpid`: obtain a new (free) process ID. -/
def newpid : Option Int × Kernel Q :=
  let (pid, nextpid) := newpidLoop k.proctab NPROC.toNat k.nextpid
  (pid, { k with nextpid := nextpid })

/-- The size `create` asks for: at least `MINSTK`, rounded up to a multiple of four in 32 bits. -/
def stkSize (ssize : Nat) : Nat := ((if ssize < MINSTK then MINSTK else ssize) + 3) % 4294967296 / 4 * 4

/-- `create`: create a process to start running a procedure. -/
def create (ssize : Nat) (priority : Int) : Kernel Q × Resume :=
  let priority := int16 priority
  let ssize := stkSize (ssize % 4294967296)
  match k.heap.getstk ssize with
  | (none, heap) => ({ k with heap := heap }, .ret SYSERR)
  | (some saddr, heap) =>
    match { k with heap := heap }.newpid with
    | (none, k) => (k, .ret SYSERR)
    | (some pid, k) =>
      if priority < 1 then (k, .ret SYSERR)
      else
        let k := { k with prcount := k.prcount + 1 }
        (((k.setProc pid { k.proctab pid with
            prstate := .PR_SUSP, prprio := priority, prstkbase := saddr, prstklen := ssize,
            prsem := -1, prparent := k.currpid, prhasmsg := false })).note (.created pid saddr ssize), .ret pid)

/-- `resume`: unsuspend a process, making it ready. -/
def resume (pid : Int) : Kernel Q × Resume :=
  if k.isbadpid pid then (k, .ret SYSERR)
  else if (k.proctab pid).prstate ≠ .PR_SUSP then (k, .ret SYSERR)
  else ((k.ready pid).2, .ret (k.proctab pid).prprio)

/-- `suspend`: suspend a process, placing it in hibernation. -/
def suspend (pid : Int) : Kernel Q × Resume :=
  if k.isbadpid pid || decide (pid = NULLPROC) then (k, .ret SYSERR)
  else
    match (k.proctab pid).prstate with
    | .PR_READY => ((k.getitem pid).setState pid .PR_SUSP, .suspend pid)
    | .PR_CURR => ((k.setState pid .PR_SUSP).resched, .suspend pid)
    | _ => (k, .ret SYSERR)

/-- `yield`: voluntarily relinquish the CPU. -/
def yield : Kernel Q × Resume := (k.resched, .ret OK)

/-- `chprio`: change the scheduling priority of a process. -/
def chprio (pid newprio : Int) : Kernel Q × Resume :=
  if k.isbadpid pid then (k, .ret SYSERR)
  else (k.setProc pid { k.proctab pid with prprio := int16 newprio }, .ret (k.proctab pid).prprio)

/-! ## Messages and sleeping -/

/-- `unsleep`: remove a process from the sleep queue prematurely. -/
def unsleep (pid : Int) : Kernel Q :=
  if k.isbadpid pid then k
  else if (k.proctab pid).prstate ≠ .PR_SLEEP ∧ (k.proctab pid).prstate ≠ .PR_RECTIM then k
  else ((k.setQueues (QueueOps.passKey k.queuetab sleepq pid)).getitem pid).note (.unslept pid)

/-- `send`: pass a message to a process and start recipient if waiting. -/
def send (pid : Int) (msg : Nat) : Kernel Q × Resume :=
  if k.isbadpid pid then (k, .ret SYSERR)
  else if (k.proctab pid).prhasmsg then (k, .ret SYSERR)
  else
    let st := (k.proctab pid).prstate
    let k := (k.setProc pid { k.proctab pid with prmsg := msg % 4294967296, prhasmsg := true }).note
      (.sent pid (msg % 4294967296))
    match st with
    | .PR_RECV => ((k.ready pid).2, .ret OK)
    | .PR_RECTIM => (((k.unsleep pid).ready pid).2, .ret OK)
    | _ => (k, .ret OK)

/-- `receive`: wait for a message and return the message to the caller. -/
def receive : Kernel Q × Resume :=
  if (k.proctab k.currpid).prhasmsg then (k, .receive)
  else ((k.setState k.currpid .PR_RECV).resched, .receive)

/-- `recvtime`: wait specified time to receive a message and return. -/
def recvtime (maxwait : Int) : Kernel Q × Resume :=
  let maxwait := int32 maxwait
  if maxwait < 0 then (k, .ret (uint32 SYSERR))
  else if (k.proctab k.currpid).prhasmsg then (k, .recvtime)
  else
    match k.insertd k.currpid sleepq maxwait with
    | (st, k') =>
      if st = SYSERR then (k', .ret (uint32 SYSERR))
      else (((k'.setState k'.currpid .PR_RECTIM).note (.slept k'.currpid maxwait)).resched, .recvtime)

/-- The message of the current process is taken. -/
def takeMsg : Kernel Q :=
  (k.setProc k.currpid { k.proctab k.currpid with prhasmsg := false }).note (.took k.currpid (k.proctab k.currpid).prmsg)

/-- `recvclr`: clear incoming message, and return message if one waiting. -/
def recvclr : Kernel Q × Resume :=
  if (k.proctab k.currpid).prhasmsg then (k.takeMsg, .ret (k.proctab k.currpid).prmsg) else (k, .ret OK)

/-- `sleepms`: delay the calling process n milliseconds. -/
def sleepms (delay : Int) : Kernel Q × Resume :=
  let delay := int32 delay
  if delay < 0 then (k, .ret SYSERR)
  else if delay = 0 then (k.yield.1, .ret OK)
  else
    match k.insertd k.currpid sleepq delay with
    | (st, k') =>
      if st = SYSERR then (k', .ret SYSERR)
      else (((k'.setState k'.currpid .PR_SLEEP).note (.slept k'.currpid delay)).resched, .ret OK)

/-! ## Semaphores -/

/-- `wait`: cause current process to wait on a semaphore. -/
def wait (sem : Int) : Kernel Q × Resume :=
  if isbadsem sem then (k, .ret SYSERR)
  else if (k.semtab sem).sstate = .S_FREE then (k, .ret SYSERR)
  else
    let scount := int32 ((k.semtab sem).scount - 1)
    let k := k.setSem sem { k.semtab sem with scount := scount }
    if scount < 0 then
      let k := k.setProc k.currpid { k.proctab k.currpid with prstate := .PR_WAIT, prsem := sem }
      (((k.enqueue k.currpid (squeue sem)).2.note (.blocked sem k.currpid)).resched, .ret OK)
    else (k.note (.passed sem k.currpid), .ret OK)

/-- The increment of `signal` and `signaln`, with the release of a waiting process. -/
def signalOne (sem : Int) : Kernel Q :=
  let scount := (k.semtab sem).scount
  let k := (k.setSem sem { k.semtab sem with scount := int32 (scount + 1) }).note (.signalled sem scount)
  if scount < 0 then
    let (pid, k) := k.dequeue (squeue sem)
    ((k.note (.released sem pid)).ready pid).2
  else k

/-- `signal`: signal a semaphore, releasing a process if one is waiting. -/
def signal (sem : Int) : Kernel Q × Resume :=
  if isbadsem sem then (k, .ret SYSERR)
  else if (k.semtab sem).sstate = .S_FREE then (k, .ret SYSERR)
  else (k.signalOne sem, .ret OK)

/-- The loop of `signaln`. -/
def signalLoop (sem : Int) : Nat → Kernel Q → Kernel Q
  | 0, k => k
  | n + 1, k => signalLoop sem n (k.signalOne sem)

/-- `signaln`: signal a semaphore n times, releasing n waiting processes. -/
def signaln (sem count : Int) : Kernel Q × Resume :=
  let count := int32 count
  if isbadsem sem || decide (count < 0) then (k, .ret SYSERR)
  else if (k.semtab sem).sstate = .S_FREE then (k, .ret SYSERR)
  else ((signalLoop sem count.toNat k.deferStart).deferStop, .ret OK)

/-- The loop of `newsem`: the entry found and the next one to try. -/
def newsemLoop (semtab : Int → Sentry) : Nat → Int → Option Int × Int
  | 0, nextsem => (none, nextsem)
  | n + 1, nextsem =>
    let sem := nextsem
    let nextsem := if nextsem + 1 ≥ NSEM then 0 else nextsem + 1
    if (semtab sem).sstate = .S_FREE then (some sem, nextsem) else newsemLoop semtab n nextsem

/-- `semcreate`: create a new semaphore and return the ID to the caller. -/
def semcreate (count : Int) : Kernel Q × Resume :=
  let count := int32 count
  if count < 0 then (k, .ret SYSERR)
  else
    match newsemLoop k.semtab NSEM.toNat k.nextsem with
    | (none, nextsem) => ({ k with nextsem := nextsem }, .ret SYSERR)
    | (some sem, nextsem) =>
      (({ k with nextsem := nextsem }.setSem sem { sstate := .S_USED, scount := count }).note (.semcreated sem count),
        .ret sem)

/-- The loop of `semreset`: release the processes on the queue. -/
def resetLoop (sem : Int) : Nat → Kernel Q → Kernel Q
  | 0, k => k
  | n + 1, k =>
    let (pid, k) := k.getfirst (squeue sem)
    if pid = EMPTY then k else resetLoop sem n ((k.note (.flushed sem pid)).ready pid).2

/-- `semreset`: reset a semaphore's count and release waiting processes. -/
def semreset (sem count : Int) : Kernel Q × Resume :=
  let count := int32 count
  if decide (count < 0) || isbadsem sem || decide ((k.semtab sem).sstate = .S_FREE) then (k, .ret SYSERR)
  else
    let k := resetLoop sem (NPROC.toNat + 1) k.deferStart
    let k := (k.setSem sem { k.semtab sem with scount := count }).note (.semwasreset sem count)
    (k.deferStop, .ret OK)

/-- The loop of `semdelete`: release a process for every unit the count is below zero. -/
def deleteLoop (sem : Int) : Nat → Kernel Q → Kernel Q
  | 0, k => k
  | n + 1, k =>
    let scount := (k.semtab sem).scount
    let k := k.setSem sem { k.semtab sem with scount := int32 (scount + 1) }
    if scount < 0 then
      let (pid, k) := k.getfirst (squeue sem)
      deleteLoop sem n ((k.note (.flushed sem pid)).ready pid).2
    else k

/-- `semdelete`: delete a semaphore by releasing its table entry. -/
def semdelete (sem : Int) : Kernel Q × Resume :=
  if isbadsem sem then (k, .ret SYSERR)
  else if (k.semtab sem).sstate = .S_FREE then (k, .ret SYSERR)
  else
    let scount := (k.semtab sem).scount
    let k := (k.setSem sem { k.semtab sem with sstate := .S_FREE }).deferStart
    -- every iteration raises the count by one, and the loop ends when it is not negative
    let k := deleteLoop sem ((-scount).toNat + 1) k
    ((k.note (.semdeleted sem)).deferStop, .ret OK)

/-- `semcount`: return the count of a semaphore. -/
def semcount (sem : Int) : Kernel Q × Resume :=
  if isbadsem sem || decide ((k.semtab sem).sstate = .S_FREE) then (k, .ret SYSERR)
  else (k, .ret (k.semtab sem).scount)

/-! ## Termination of a process -/

/-- The first part of `kill`: up to the notification of the parent. -/
def kill (pid : Int) : Kernel Q × Resume :=
  if k.isbadpid pid || decide (pid = NULLPROC) || decide ((k.proctab pid).prstate = .PR_FREE) then (k, .ret SYSERR)
  else
    let k := { k with prcount := k.prcount - 1 }.note (.killing pid)
    -- `xdone` halts the processor
    if k.prcount ≤ 1 then ({ k with status := .done }, .kill pid 0)
    else ((k.send (k.proctab pid).prparent pid.toNat).1, .kill pid 0)

/-- The entry of a process becomes free. -/
def release (pid : Int) : Kernel Q := (k.setState pid .PR_FREE).note (.freed pid)

/-- The call of `freestk` in `kill`. -/
def freeStack (pid : Int) : Kernel Q :=
  let e := k.proctab pid
  { k with heap := (k.heap.freestk e.prstkbase e.prstklen).2 }.note (.stkfreed pid e.prstkbase e.prstklen)

/-- The switch on the victim's state in `kill`. -/
def killSwitch (pid : Int) : Kernel Q :=
  match (k.proctab pid).prstate with
  -- a process that kills itself does not return from `resched`
  | .PR_CURR => (k.release pid).resched
  | .PR_SLEEP | .PR_RECTIM => (k.unsleep pid).release pid
  | .PR_WAIT =>
    let sem := (k.proctab pid).prsem
    let k := (k.setSem sem { k.semtab sem with scount := int32 ((k.semtab sem).scount + 1) }).note (.unwaited sem pid)
    (k.getitem pid).release pid
  | .PR_READY => (k.getitem pid).release pid
  | _ => k.release pid

/-- The last part of `kill`: the stack, and the switch on the state. -/
def killEnd (pid : Int) : Kernel Q := (k.freeStack pid).killSwitch pid

/-! ## The clock -/

/-- The loop of `wakeup`. -/
def wakeupLoop : Nat → Kernel Q → Kernel Q
  | 0, k => k
  | n + 1, k =>
    if !QueueOps.isempty k.queuetab sleepq && decide (QueueOps.firstkey k.queuetab sleepq ≤ 0) then
      let (pid, k) := k.dequeue sleepq
      wakeupLoop n ((k.note (.woken pid)).ready pid).2
    else k

/-- `wakeup`: awaken all processes that have no more time to sleep. -/
def wakeup : Kernel Q := (wakeupLoop (NPROC.toNat + 1) k.deferStart).deferStop

/-- The part of `clkhandler` that counts milliseconds and seconds. -/
def countTick : Kernel Q :=
  let k := k.note .tick
  if k.count1000 + 1 ≥ 1000 then { k with clktime := (k.clktime + 1) % 4294967296, count1000 := 0 }
  else { k with count1000 := k.count1000 + 1 }

/-- The part of `clkhandler` that decrements the key of the topmost process on `sleepq`. -/
def tickSleepers : Kernel Q :=
  if QueueOps.isempty k.queuetab sleepq then k
  else
    let k := k.setQueues (QueueOps.decFirst k.queuetab sleepq)
    if QueueOps.firstkey k.queuetab sleepq = 0 then k.wakeup else k

/-- The part of `clkhandler` that decrements the preemption counter and reschedules if necessary. -/
def tickPreempt : Kernel Q :=
  let k : Kernel Q := { k with preempt := k.preempt - 1 }
  if k.preempt = 0 then { k with preempt := QUANTUM }.resched else k

/-- `clkhandler`: high level clock interrupt handler. -/
def clkhandler : Kernel Q := k.countTick.tickSleepers.tickPreempt

/-- `irq_dispatch` for the clock: rescheduling is deferred until the interrupt is acknowledged. -/
def clockInterrupt : Kernel Q := k.deferStart.clkhandler.deferStop

end Kernel

/-- A system call with its arguments. -/
inductive Call where
  | create (ssize : Nat) (priority : Int)
  | resume (pid : Int)
  | suspend (pid : Int)
  | ready (pid : Int)
  | resched
  | yield
  | kill (pid : Int)
  | wait (sem : Int)
  | signal (sem : Int)
  | signaln (sem count : Int)
  | semcreate (count : Int)
  | semreset (sem count : Int)
  | semdelete (sem : Int)
  | semcount (sem : Int)
  | send (pid : Int) (msg : Nat)
  | receive
  | recvtime (maxwait : Int)
  | recvclr
  | sleepms (delay : Int)
  | chprio (pid newprio : Int)
  | getmem (nbytes : Nat)
  | freemem (blkaddr nbytes : Nat)
deriving Repr, DecidableEq

namespace Kernel

variable {Q : Type} [QueueOps Q] (k : Kernel Q)

/-- The first segment of a system call. -/
def call : Call → Kernel Q × Resume
  | .create ssize priority => k.create ssize priority
  | .resume pid => k.resume pid
  | .suspend pid => k.suspend pid
  | .ready pid => ((k.ready pid).2, .ret (k.ready pid).1)
  | .resched => (k.resched, .ret OK)
  | .yield => k.yield
  | .kill pid => k.kill pid
  | .wait sem => k.wait sem
  | .signal sem => k.signal sem
  | .signaln sem count => k.signaln sem count
  | .semcreate count => k.semcreate count
  | .semreset sem count => k.semreset sem count
  | .semdelete sem => k.semdelete sem
  | .semcount sem => k.semcount sem
  | .send pid msg => k.send pid msg
  | .receive => k.receive
  | .recvtime maxwait => k.recvtime maxwait
  | .recvclr => k.recvclr
  | .sleepms delay => k.sleepms delay
  | .chprio pid newprio => k.chprio pid newprio
  | .getmem nbytes =>
    match k.heap.getmem (nbytes % 4294967296) with
    | (none, heap) => ({ k with heap := heap }, .ret SYSERR)
    | (some a, heap) => ({ k with heap := heap }, .ret a)
  | .freemem blkaddr nbytes =>
    match k.heap.freemem (blkaddr % 4294967296) (nbytes % 4294967296) with
    | (ok, heap) => ({ k with heap := heap }, .ret (if ok then OK else SYSERR))

/-- The next segment of a system call, when its caller runs again. The calls of `close` in `kill` are made between the
segments: a device's close routine is a sequence of system calls. -/
def proceed : Resume → Kernel Q × Resume
  | .ret v => (k, .ret v)
  | .suspend pid => (k, .ret (k.proctab pid).prprio)
  | .receive => (k.takeMsg, .ret (k.proctab k.currpid).prmsg)
  | .recvtime =>
    if (k.proctab k.currpid).prhasmsg then (k.takeMsg, .ret (k.proctab k.currpid).prmsg)
    else (k, .ret (uint32 TIMEOUT))
  | .kill pid i => if i < 3 then (k, .kill pid (i + 1)) else (k.killEnd pid, .ret OK)

end Kernel

end Xinu
