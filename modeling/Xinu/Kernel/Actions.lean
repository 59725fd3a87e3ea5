import Xinu.Kernel.Membership

/-!
# What the kernel can do

The steps from which every system call and the clock interrupt are made up, on the kernel with queues as lists (`Act`). A step
that makes a process eligible or blocks the current one ends with the rescheduling, as in the source. `Act.inv`: every step
keeps the invariant. The properties of the kernel are proved for one step each, and for whole runs by induction.
-/

namespace Xinu

namespace Kernel

variable {Q : Type} [QueueOps Q] (k : Kernel Q)

/-- The count of a semaphore, assigned. -/
def setCount (s c : Int) : Kernel Q := k.setSem s { k.semtab s with scount := c }

/-- The increment of a count by `signal` and `signaln`. -/
def raise (s : Int) : Kernel Q := (k.setCount s (int32 ((k.semtab s).scount + 1))).note (.signalled s (k.semtab s).scount)

/-- `send` up to the test of the recipient's state. -/
def deposit (p : Int) (msg : Nat) : Kernel Q :=
  (k.setProc p { k.proctab p with prmsg := msg, prhasmsg := true }).note (.sent p msg)

/-- `wait` before it reschedules, when the caller must block. -/
def blockOn (s : Int) : Kernel Q :=
  (((k.setCount s (int32 ((k.semtab s).scount - 1))).setProc k.currpid
    { k.proctab k.currpid with prstate := .PR_WAIT, prsem := s }).setQueues
    (QueueOps.enqueue k.queuetab k.currpid (squeue s))).note (.blocked s k.currpid)

/-- `sleepms` and `recvtime` before they reschedule. -/
def sleepFor (st : PrState) (d : Int) : Kernel Q :=
  ((k.setQueues (QueueOps.insertd k.queuetab k.currpid sleepq d)).setState k.currpid st).note (.slept k.currpid d)

/-- `unsleep` of a process that is on `sleepq`. -/
def leaveSleep (p : Int) : Kernel Q :=
  ((k.setQueues (QueueOps.passKey k.queuetab sleepq p)).getitem p).note (.unslept p)

/-- `create` of a process in the entry `p`. -/
def addProc (p : Int) (saddr ssize : Nat) (priority : Int) : Kernel Q :=
  ({ k with prcount := k.prcount + 1 }.setProc p { k.proctab p with
    prstate := .PR_SUSP, prprio := priority, prstkbase := saddr, prstklen := ssize,
    prsem := -1, prparent := k.currpid, prhasmsg := false }).note (.created p saddr ssize)

end Kernel

open Kernel

/-- The current process may block: it is not the null process, and rescheduling is not deferred. -/
structure CanBlock (h : Kernel QLists) : Prop where
  notNull : h.currpid ≠ NULLPROC
  now : h.ndefers = 0

/-- The kinds of steps. -/
inductive Kind where
  | quiet
  | readied
  | chprio (p prio : Int)
  | created
  | killing (p : Int)
  | stkfreed
  | killed (p : Int)
  | sent
  | received
  | took
  | slept
  | tick
  | woken
  | semcreated
  | sem (s : Int)
deriving Repr, DecidableEq

/-- What a step of the kernel changes, and whether it reschedules afterwards. -/
inductive Change (h : Kernel QLists) : Kind → Bool → Kernel QLists → Prop where
  /-- Variables that no list depends on. -/
  | aux (heap : Heap) (nextpid nextsem preempt : Int) (clktime : Nat) (count1000 : Int)
      (hn : 0 ≤ nextsem ∧ nextsem < NSEM) :
      Change h .quiet false { h with
        heap := heap, nextpid := nextpid, nextsem := nextsem, preempt := preempt, clktime := clktime, count1000 := count1000 }
  | stop (s : Status) : Change h .quiet false { h with status := s }
  | deferStart : Change h .quiet false h.deferStart
  | deferStop (b : Bool) (hd : 0 < h.ndefers) (hb : b = (decide (h.ndefers = 1) && h.attempt)) :
      Change h .quiet b { h with ndefers := h.ndefers - 1 }
  | resched : Change h .quiet true h
  | created (p : Int) (saddr ssize : Nat) (priority : Int) (hp : IsPid p) (hf : (h.proctab p).prstate = .PR_FREE)
      (h1 : 1 ≤ priority) (h2 : priority ≤ 32767) : Change h .created false (h.addProc p saddr ssize priority)
  | killing (p : Int) (hs : (h.proctab p).prstate ≠ .PR_FREE) (h0 : p ≠ NULLPROC) :
      Change h (.killing p) false ({ h with prcount := h.prcount - 1 }.note (.killing p))
  | stkfreed (p : Int) : Change h .stkfreed false (h.freeStack p)
  | ready (p : Int) (hs : (h.proctab p).prstate ≠ .PR_FREE) (hh : homeOf (h.proctab p) = none)
      (hd : (h.proctab p).prstate = .PR_CURR → h.ndefers = 0) : Change h .readied true (h.makeReady p)
  | resumed (p : Int) (hs : (h.proctab p).prstate = .PR_SUSP) : Change h .quiet true (h.makeReady p)
  | suspend (p : Int) (hs : (h.proctab p).prstate = .PR_READY) (h0 : p ≠ NULLPROC) :
      Change h .quiet false ((h.getitem p).setState p .PR_SUSP)
  | suspendSelf (hb : CanBlock h) : Change h .quiet true (h.setState h.currpid .PR_SUSP)
  | chprio (p prio : Int) (hs : (h.proctab p).prstate ≠ .PR_FREE) (h1 : -32768 ≤ prio) (h2 : prio ≤ 32767) :
      Change h (.chprio p prio) false (h.setProc p { h.proctab p with prprio := prio })
  | deposit (p : Int) (msg : Nat) (hm : (h.proctab p).prhasmsg = false) (hs : (h.proctab p).prstate ≠ .PR_FREE)
      (hr : (h.proctab p).prstate ≠ .PR_RECV) (ht : (h.proctab p).prstate ≠ .PR_RECTIM) : Change h .sent false (h.deposit p msg)
  | depositRecv (p : Int) (msg : Nat) (hm : (h.proctab p).prhasmsg = false) (hs : (h.proctab p).prstate = .PR_RECV) :
      Change h .sent true ((h.deposit p msg).makeReady p)
  | depositRectim (p : Int) (msg : Nat) (hm : (h.proctab p).prhasmsg = false) (hs : (h.proctab p).prstate = .PR_RECTIM) :
      Change h .sent true (((h.deposit p msg).leaveSleep p).makeReady p)
  | receive (hm : (h.proctab h.currpid).prhasmsg = false) (hb : CanBlock h) :
      Change h .received true (h.setState h.currpid .PR_RECV)
  | take (hm : (h.proctab h.currpid).prhasmsg = true) : Change h .took false h.takeMsg
  | sleep (st : PrState) (d : Int) (hst : st = .PR_SLEEP ∧ 0 < d ∨
        st = .PR_RECTIM ∧ (h.proctab h.currpid).prhasmsg = false) (h1 : 0 ≤ d) (h2 : d ≤ 2147483647)
      (hb : CanBlock h) : Change h .slept true (h.sleepFor st d)
  | tick : Change h .tick false ((h.note .tick).setQueues (h.queuetab.decFirst sleepq))
  | woken (p : Int) (rest : List Int) (hq : h.queuetab.ids sleepq = p :: rest) (hk : h.queuetab.key p ≤ 0) :
      Change h .woken true (((h.getitem p).note (.woken p)).makeReady p)
  | passed (s : Int) (hs : isbadsem s = false) (hu : (h.semtab s).sstate = .S_USED)
      (hc : 0 ≤ int32 ((h.semtab s).scount - 1)) :
      Change h (.sem s) false ((h.setCount s (int32 ((h.semtab s).scount - 1))).note (.passed s h.currpid))
  | blocked (s : Int) (hs : isbadsem s = false) (hu : (h.semtab s).sstate = .S_USED)
      (hc : int32 ((h.semtab s).scount - 1) < 0) (hb : CanBlock h) : Change h (.sem s) true (h.blockOn s)
  | signalled (s : Int) (hs : isbadsem s = false) (hu : (h.semtab s).sstate = .S_USED) (hc : 0 ≤ (h.semtab s).scount) :
      Change h (.sem s) false (h.raise s)
  | released (s p : Int) (rest : List Int) (hs : isbadsem s = false) (hu : (h.semtab s).sstate = .S_USED)
      (hc : (h.semtab s).scount < 0) (hq : h.queuetab.ids (squeue s) = p :: rest) :
      Change h (.sem s) true ((((h.raise s).getitem p).note (.released s p)).makeReady p)
  /-- A count below zero with no process on the queue. -/
  | releasedNone (s : Int) (hs : isbadsem s = false) (hu : (h.semtab s).sstate = .S_USED) (hc : (h.semtab s).scount < 0)
      (hq : h.queuetab.ids (squeue s) = []) :
      Change h (.sem s) false ((h.raise s).note (.released s EMPTY))
  | flushed (s p : Int) (rest : List Int) (hs : isbadsem s = false) (hu : (h.semtab s).sstate = .S_USED)
      (hq : h.queuetab.ids (squeue s) = p :: rest) :
      Change h (.sem s) true ((((h.setCount s (int32 ((h.semtab s).scount + 1))).getitem p).note (.flushed s p)).makeReady p)
  | flushedNone (s : Int) (hs : isbadsem s = false) (hu : (h.semtab s).sstate = .S_USED) (hc : (h.semtab s).scount < 0)
      (hq : h.queuetab.ids (squeue s) = []) :
      Change h (.sem s) false ((h.setCount s (int32 ((h.semtab s).scount + 1))).note (.flushed s EMPTY))
  | semcreated (s c : Int) (hs : isbadsem s = false) (hf : (h.semtab s).sstate = .S_FREE) (h1 : 0 ≤ c)
      (h2 : c ≤ 2147483647) : Change h .semcreated false ((h.setSem s { sstate := .S_USED, scount := c }).note (.semcreated s c))
  | semreset (s c : Int) (hs : isbadsem s = false) (hu : (h.semtab s).sstate = .S_USED)
      (hq : h.queuetab.ids (squeue s) = []) (h1 : 0 ≤ c) (h2 : c ≤ 2147483647) :
      Change h (.sem s) false ((h.setCount s c).note (.semwasreset s c))
  | semdeleted (s : Int) (hs : isbadsem s = false) (hu : (h.semtab s).sstate = .S_USED) (hc : 0 ≤ (h.semtab s).scount) :
      Change h (.sem s) false ((h.setSem s { sstate := .S_FREE, scount := int32 ((h.semtab s).scount + 1) }).note (.semdeleted s))
  | freed (p : Int) (hp : IsPid p) (h0 : p ≠ NULLPROC) (hh : homeOf (h.proctab p) = none)
      (hc : (h.proctab p).prstate ≠ .PR_CURR) : Change h (.killed p) false (h.release p)
  | freedReady (p : Int) (h0 : p ≠ NULLPROC) (hs : (h.proctab p).prstate = .PR_READY) :
      Change h (.killed p) false ((h.getitem p).release p)
  | freedAsleep (p : Int) (hs : (h.proctab p).prstate = .PR_SLEEP ∨ (h.proctab p).prstate = .PR_RECTIM) :
      Change h (.killed p) false ((h.leaveSleep p).release p)
  | freedWaiting (p s : Int) (hs : (h.proctab p).prstate = .PR_WAIT) (hps : (h.proctab p).prsem = s) :
      Change h (.killed p) false ((((h.setCount s (int32 ((h.semtab s).scount + 1))).note (.unwaited s p)).getitem p).release p)
  | freedSelf (hb : CanBlock h) : Change h (.killed h.currpid) true (h.release h.currpid)

/-- A step of the kernel. -/
inductive Act (h : Kernel QLists) : Kind → Kernel QLists → Prop where
  | plain {κ : Kind} {g : Kernel QLists} (c : Change h κ false g) : Act h κ g
  | sched {κ : Kind} {g : Kernel QLists} (c : Change h κ true g) : Act h κ g.resched

/-- A sequence of steps of the given kinds. -/
inductive Acts (ks : List Kind) (h : Kernel QLists) : Kernel QLists → Prop where
  | refl : Acts ks h h
  | tail {h₁ h₂ : Kernel QLists} {κ : Kind} : Acts ks h h₁ → κ ∈ ks → Act h₁ κ h₂ → Acts ks h h₂

namespace Acts

variable {h h₁ h₂ : Kernel QLists} {ks : List Kind} {κ : Kind}

theorem single (a : Act h κ h₁) (hκ : κ ∈ ks) : Acts ks h h₁ := tail refl hκ a

theorem trans (a : Acts ks h h₁) (b : Acts ks h₁ h₂) : Acts ks h h₂ := by
  induction b with
  | refl => exact a
  | tail _ hκ c ih => exact tail ih hκ c

theorem head (a : Act h κ h₁) (hκ : κ ∈ ks) (b : Acts ks h₁ h₂) : Acts ks h h₂ := (single a hκ).trans b

theorem mono {ks' : List Kind} (a : Acts ks h h₁) (hs : ks ⊆ ks') : Acts ks' h h₁ := by
  induction a with
  | refl => exact refl
  | tail _ hκ c ih => exact tail ih (hs hκ) c

end Acts

/-! ## Every step keeps the invariant -/

section Invariant

variable {h h' : Kernel QLists} {p : Int} {e : Procent}

theorem homeOf_congr {e e' : Procent} (hs : e'.prstate = e.prstate) (hsem : e'.prsem = e.prsem) : homeOf e' = homeOf e := by
  rw [homeOf, homeOf, hs, hsem]

/-- The invariant does not depend on the other variables. -/
theorem Inv.same (I : Inv h) (hproc : h'.proctab = h.proctab) (hids : h'.queuetab.ids = h.queuetab.ids)
    (hc : h'.currpid = h.currpid) (hd : 0 ≤ h'.ndefers) (hn : 0 ≤ h'.nextsem ∧ h'.nextsem < NSEM) : Inv h' := by
  refine ⟨⟨fun p q => ?_, fun q => ?_, ?_, ?_, ?_, ?_, ?_, ?_, hd, hn⟩, ?_⟩
  · rw [hids, hproc]
    exact I.mem p q
  · rw [hids]
    exact I.nodup q
  · rw [hproc]
    exact I.outside
  · rw [hproc, hc]
    exact I.curr
  · rw [hc]
    exact I.currpid
  · rw [hproc]
    exact I.null
  · rw [hproc]
    exact I.prio
  · rw [hproc]
    exact I.sem
  · rw [hproc, hc]
    exact I.running

theorem Inv0.setEntry (I : Inv0 h) (hproc : h'.proctab = Function.update h.proctab p e)
    (hids : h'.queuetab.ids = h.queuetab.ids) (hc : h'.currpid = h.currpid) (hd : h'.ndefers = h.ndefers ∧ h'.nextsem = h.nextsem)
    (hp : IsPid p)
    (hs : e.prstate = (h.proctab p).prstate) (hsem : e.prsem = (h.proctab p).prsem)
    (hprio : -32768 ≤ e.prprio ∧ e.prprio ≤ 32767) : Inv0 h' := by
  have hst : ∀ x, (h'.proctab x).prstate = (h.proctab x).prstate := by
    intro x
    by_cases hx : x = p
    · subst hx
      rw [hproc, Function.update_self, hs]
    · rw [hproc, Function.update_of_ne hx]
  refine I.relocate hproc hp (fun q => hids ▸ I.nodup q) (fun q x => ?_) (fun x hx => ?_) (hc ▸ I.currpid) (fun h0 => ?_)
    hprio (fun hw => ?_) hd
  · rw [hids, homeOf_congr hs hsem]
    by_cases hx : x = p
    · simp [hx, I.mem]
    · simp [hx]
  · rw [hst] at hx
    rw [hc]
    exact I.curr x hx
  · rw [hs, h0]
    exact I.null
  · rw [hsem]
    exact I.sem p (hs ▸ hw)

/-- Changing fields of an entry that its list does not depend on. -/
theorem Inv.setEntry (I : Inv h) (hproc : h'.proctab = Function.update h.proctab p e)
    (hids : h'.queuetab.ids = h.queuetab.ids) (hc : h'.currpid = h.currpid) (hd : h'.ndefers = h.ndefers ∧ h'.nextsem = h.nextsem)
    (hp : IsPid p)
    (hs : e.prstate = (h.proctab p).prstate) (hsem : e.prsem = (h.proctab p).prsem)
    (hprio : -32768 ≤ e.prprio ∧ e.prprio ≤ 32767) : Inv h' := by
  refine ⟨I.toInv0.setEntry hproc hids hc hd hp hs hsem hprio, ?_⟩
  rw [hc, hproc]
  by_cases hx : h.currpid = p
  · rw [hx, Function.update_self, hs, ← hx]
    exact I.running
  · rw [Function.update_of_ne hx]
    exact I.running

/-- The invariant after a change of another process. -/
theorem Inv0.toInv (I' : Inv0 h') (I : Inv h) (hproc : h'.proctab = Function.update h.proctab p e)
    (hc : h'.currpid = h.currpid) (hp : (h.proctab p).prstate ≠ .PR_CURR) : Inv h' := by
  refine ⟨I', ?_⟩
  have hx : h.currpid ≠ p := fun hx => hp (hx ▸ I.running)
  rw [hc, hproc, Function.update_of_ne hx]
  exact I.running

theorem Inv.currpid_home (I : Inv h) : homeOf (h.proctab h.currpid) = none := by
  rw [homeOf, I.running]

theorem Inv.getitem_currpid (I : Inv h) : h.queuetab.getitem h.currpid = h.queuetab :=
  QLists.getitem_of_not_mem (I.not_mem I.currpid_home)

/-- The current process leaves the processor for no list. -/
theorem Inv.leave (I : Inv h) (hb : CanBlock h) {st : PrState} (hst : st = .PR_SUSP ∨ st = .PR_RECV ∨ st = .PR_FREE) :
    Inv0 (h.setState h.currpid st) := by
  have hne : st ≠ .PR_CURR := by rcases hst with rfl | rfl | rfl <;> decide
  have hhome : homeOf { h.proctab h.currpid with prstate := st } = none := by
    rcases hst with rfl | rfl | rfl <;> rfl
  refine I.out rfl I.currpid ?_ hhome (I.curr_of_update rfl hne rfl) I.currpid (fun h0 => absurd h0 hb.notNull)
    (I.prio _) ⟨rfl, rfl⟩
  rw [I.getitem_currpid]
  rfl

/-- The current process goes to wait on a semaphore. -/
theorem Inv.blockOn (I : Inv h) (hb : CanBlock h) {s : Int} (hs : isbadsem s = false) : Inv0 (h.blockOn s) := by
  refine I.put (q := squeue s) rfl I.currpid ?_ rfl rfl (fun h0 => absurd h0 hb.notNull) (I.prio _) (fun _ => hs)
    ⟨rfl, rfl⟩
  rw [I.getitem_currpid]
  exact QLists.put_enqueue h.queuetab h.currpid (squeue s)

/-- The current process goes to sleep. -/
theorem Inv.sleepFor (I : Inv h) (hb : CanBlock h) {st : PrState} (d : Int) (hst : st = .PR_SLEEP ∨ st = .PR_RECTIM) :
    Inv0 (h.sleepFor st d) := by
  have hhome : homeOf { h.proctab h.currpid with prstate := st } = some sleepq := by
    rcases hst with rfl | rfl <;> rfl
  refine I.put rfl I.currpid ?_ hhome rfl (fun h0 => absurd h0 hb.notNull) (I.prio _) (fun hw => ?_) ⟨rfl, rfl⟩
  · rw [I.getitem_currpid]
    exact QLists.put_insertd h.queuetab h.currpid sleepq d
  · rcases hst with rfl | rfl <;> cases hw

/-- Rescheduling after a change that keeps the current process eligible, or when it is not deferred. -/
theorem Inv0.resched_of (I : Inv0 h) (hc : (h.proctab h.currpid).prstate = .PR_CURR ∨ h.ndefers = 0) : Inv h.resched := by
  rcases hc with hc | hd
  · exact Inv.resched ⟨I, hc⟩
  · exact I.resched hd

/-- A process on a list is made ready. -/
theorem Inv0.moveReady (I : Inv0 h) (hp : IsPid p) : Inv0 ((h.getitem p).makeReady p) := I.makeReady hp

theorem Inv.moveReady (I : Inv h) (hp : IsPid p) (hc : (h.proctab p).prstate ≠ .PR_CURR) :
    Inv ((h.getitem p).makeReady p) :=
  (I.toInv0.moveReady hp).toInv I rfl rfl hc

/-- The entry of a process other than the current one becomes free. -/
theorem Inv.freeEntry (I : Inv h) (hp : IsPid p) (h0 : p ≠ NULLPROC) (hc : (h.proctab p).prstate ≠ .PR_CURR) :
    Inv ((h.getitem p).release p) := by
  have I' : Inv0 ((h.getitem p).release p) :=
    I.out rfl hp rfl rfl (I.curr_of_update rfl (by simp) rfl) I.currpid (fun e => absurd e h0) (I.prio p)
      ⟨rfl, rfl⟩
  exact I'.toInv I rfl rfl hc

theorem QLists.passKey_ids (L : QLists) (q p : Int) : (L.passKey q p).ids = L.ids := by
  unfold passKey
  split <;> rfl

theorem QLists.decFirst_ids (L : QLists) (q : Int) : (L.decFirst q).ids = L.ids := by
  unfold decFirst
  split <;> rfl

/-- The state of a process that is on a list. -/
theorem Inv0.state_of_mem (I : Inv0 h) {q : Int} (hm : p ∈ h.queuetab.ids q) :
    (h.proctab p).prstate ≠ .PR_FREE ∧ (h.proctab p).prstate ≠ .PR_CURR := by
  rw [I.mem] at hm
  constructor <;> intro hs <;> rw [homeOf, hs] at hm <;> cases hm

theorem Inv0.ne_null (I : Inv0 h) (hs : (h.proctab p).prstate ≠ .PR_CURR ∧ (h.proctab p).prstate ≠ .PR_READY) :
    p ≠ NULLPROC := by
  rintro rfl
  exact I.null.elim hs.1 hs.2

theorem Inv.deposit (I : Inv h) (hs : (h.proctab p).prstate ≠ .PR_FREE) (msg : Nat) : Inv (h.deposit p msg) :=
  I.setEntry (p := p) rfl rfl rfl ⟨rfl, rfl⟩ (I.isPid_of_state hs) rfl rfl (I.prio p)

theorem deposit_state (h : Kernel QLists) (p : Int) (msg : Nat) (x : Int) :
    ((h.deposit p msg).proctab x).prstate = (h.proctab x).prstate := by
  show (Function.update h.proctab p _ x).prstate = _
  by_cases hx : x = p
  · subst hx
    rw [Function.update_self]
  · rw [Function.update_of_ne hx]

/-- The lists are in order, and the current process is eligible or rescheduling follows at once. -/
structure Settled (b : Bool) (g : Kernel QLists) : Prop extends Inv0 g where
  eligible : (g.proctab g.currpid).prstate = .PR_CURR ∨ b = true ∧ g.ndefers = 0

theorem Inv.settled {b : Bool} (I : Inv h) : Settled b h := ⟨I.toInv0, Or.inl I.running⟩

/-- What every change leaves. -/
theorem Change.settled {κ : Kind} {b : Bool} (c : Change h κ b h') (I : Inv h) : Settled b h' := by
  have hd := I.defers
  cases c with
  | aux heap nextpid nextsem preempt clktime count1000 hn => exact Inv.settled (I.same rfl rfl rfl hd hn)
  | stop | killing | stkfreed | passed | signalled | releasedNone | flushedNone | semcreated | semreset
  | semdeleted => exact Inv.settled (I.same rfl rfl rfl hd I.nextsem)
  | tick => exact Inv.settled (I.same rfl (QLists.decFirst_ids _ _) rfl hd I.nextsem)
  | deferStart => exact Inv.settled (I.same rfl rfl rfl (by simp only [Kernel.deferStart]; omega) I.nextsem)
  | deferStop b hpos => exact Inv.settled (I.same rfl rfl rfl (by simp only; omega) I.nextsem)
  | resched => exact I.settled
  | created p saddr ssize priority hp hf h1 h2 =>
    have h0 : p ≠ NULLPROC := I.ne_null (by rw [hf]; exact ⟨by decide, by decide⟩)
    have hids : (h.addProc p saddr ssize priority).queuetab.ids = (h.queuetab.getitem p).ids := by
      rw [QLists.getitem_of_not_mem (I.not_mem (by rw [homeOf, hf]))]
      rfl
    have I' : Inv0 (h.addProc p saddr ssize priority) :=
      I.out rfl hp hids rfl (I.curr_of_update rfl (by simp) rfl) I.currpid (fun e => absurd e h0)
        ⟨by simp only; omega, h2⟩ ⟨rfl, rfl⟩
    exact Inv.settled (I'.toInv I rfl rfl (by rw [hf]; decide))
  | ready p hs hh hc =>
    have I' := I.makeReady_of_out (I.isPid_of_state hs) hh
    by_cases hp : (h.proctab p).prstate = .PR_CURR
    · exact ⟨I', Or.inr ⟨rfl, hc hp⟩⟩
    · exact Inv.settled (I'.toInv I rfl rfl hp)
  | resumed p hs =>
    have I' := I.makeReady_of_out (I.isPid_of_state (by rw [hs]; decide)) (homeOf_susp hs)
    exact Inv.settled (I'.toInv I rfl rfl (by rw [hs]; decide))
  | suspend p hs h0 =>
    have I' : Inv0 ((h.getitem p).setState p .PR_SUSP) :=
      I.out rfl (I.isPid_of_state (by rw [hs]; decide)) rfl rfl (I.curr_of_update rfl (by simp) rfl) I.currpid
        (fun e => absurd e h0) (I.prio p)
      ⟨rfl, rfl⟩
    exact Inv.settled (I'.toInv I rfl rfl (by rw [hs]; decide))
  | suspendSelf hb => exact ⟨I.leave hb (Or.inl rfl), Or.inr ⟨rfl, hb.now⟩⟩
  | chprio p prio hs h1 h2 =>
    exact Inv.settled (I.setEntry rfl rfl rfl ⟨rfl, rfl⟩ (I.isPid_of_state hs) rfl rfl ⟨h1, h2⟩)
  | deposit p msg hm hs => exact Inv.settled (I.deposit hs msg)
  | depositRecv p msg hm hs =>
    have I' := I.deposit (p := p) (by rw [hs]; decide) msg
    have hst := deposit_state h p msg p
    have I'' := I'.makeReady_of_out (p := p) (I.isPid_of_state (by rw [hs]; decide)) (by rw [homeOf, hst, hs])
    exact Inv.settled (I''.toInv I' rfl rfl (by rw [hst, hs]; decide))
  | depositRectim p msg hm hs =>
    have I' := I.deposit (p := p) (by rw [hs]; decide) msg
    have I'' : Inv (((h.deposit p msg).setQueues ((h.deposit p msg).queuetab.passKey sleepq p)).note (.unslept p)) :=
      I'.same rfl (QLists.passKey_ids _ _ _) rfl hd I.nextsem
    have hst : ((h.deposit p msg).proctab p).prstate ≠ .PR_CURR := by
      rw [deposit_state, hs]
      decide
    exact Inv.settled (I''.moveReady (I.isPid_of_state (by rw [hs]; decide)) hst)
  | receive hm hb => exact ⟨I.leave hb (Or.inr (Or.inl rfl)), Or.inr ⟨rfl, hb.now⟩⟩
  | take hm => exact Inv.settled (I.setEntry rfl rfl rfl ⟨rfl, rfl⟩ I.currpid rfl rfl (I.prio _))
  | sleep st d hst h1 h2 hb => exact ⟨I.sleepFor hb d (hst.imp And.left And.left), Or.inr ⟨rfl, hb.now⟩⟩
  | woken p rest hq =>
    have hm : p ∈ h.queuetab.ids sleepq := hq ▸ List.mem_cons_self
    have I' : Inv (h.note (.woken p)) := I.same rfl rfl rfl hd I.nextsem
    exact Inv.settled (I'.moveReady (I.isPid_of_mem hm) (I.state_of_mem hm).2)
  | blocked s hs hu hc hb => exact ⟨I.blockOn hb hs, Or.inr ⟨rfl, hb.now⟩⟩
  | released s p rest hs hu hc hq =>
    have hm : p ∈ h.queuetab.ids (squeue s) := hq ▸ List.mem_cons_self
    have I' : Inv ((h.raise s).note (.released s p)) := I.same rfl rfl rfl hd I.nextsem
    exact Inv.settled (I'.moveReady (I.isPid_of_mem hm) (I.state_of_mem hm).2)
  | flushed s p rest hs hu hq =>
    have hm : p ∈ h.queuetab.ids (squeue s) := hq ▸ List.mem_cons_self
    have I' : Inv ((h.setCount s (int32 ((h.semtab s).scount + 1))).note (.flushed s p)) := I.same rfl rfl rfl hd I.nextsem
    exact Inv.settled (I'.moveReady (I.isPid_of_mem hm) (I.state_of_mem hm).2)
  | freed p hp h0 hh hc =>
    have I' := I.freeEntry hp h0 hc
    rw [show h.getitem p = h from I.setQueues_getitem_self hh] at I'
    exact I'.settled
  | freedReady p h0 hs =>
    exact Inv.settled (I.freeEntry (I.isPid_of_state (by rw [hs]; decide)) h0 (by rw [hs]; decide))
  | freedAsleep p hs =>
    have hs' : (h.proctab p).prstate ≠ .PR_FREE ∧ (h.proctab p).prstate ≠ .PR_CURR ∧
        (h.proctab p).prstate ≠ .PR_READY := by
      rcases hs with hs | hs <;> rw [hs] <;> decide
    have I' : Inv ((h.setQueues (h.queuetab.passKey sleepq p)).note (.unslept p)) :=
      I.same rfl (QLists.passKey_ids _ _ _) rfl hd I.nextsem
    exact Inv.settled (I'.freeEntry (I.isPid_of_state hs'.1) (I.ne_null hs'.2) hs'.2.1)
  | freedWaiting p s hs hps =>
    have I' : Inv ((h.setCount s (int32 ((h.semtab s).scount + 1))).note (.unwaited s p)) := I.same rfl rfl rfl hd I.nextsem
    have hc : (h.proctab p).prstate ≠ .PR_CURR := by
      rw [hs]
      decide
    exact Inv.settled (I'.freeEntry (I.isPid_of_state (by rw [hs]; decide)) (I.ne_null (by rw [hs]; exact ⟨by decide, by decide⟩))
      hc)
  | freedSelf hb =>
    have I' : Inv (h.note (.freed h.currpid)) := I.same rfl rfl rfl hd I.nextsem
    exact ⟨I'.leave ⟨hb.notNull, hb.now⟩ (Or.inr (Or.inr rfl)), Or.inr ⟨rfl, hb.now⟩⟩

/-- Every step keeps the invariant. -/
theorem Act.inv {κ : Kind} (a : Act h κ h') (I : Inv h) : Inv h' := by
  cases a with
  | plain c =>
    have T := c.settled I
    exact ⟨T.toInv0, T.eligible.resolve_right (fun e => by cases e.1)⟩
  | sched c =>
    have T := c.settled I
    exact T.toInv0.resched_of (T.eligible.imp id And.right)

theorem Inv.deferStart (I : Inv h) : Inv h.deferStart := (Act.plain Change.deferStart).inv I

/-- A sequence of steps keeps the invariant. -/
theorem Acts.inv {ks : List Kind} (a : Acts ks h h') (I : Inv h) : Inv h' := by
  induction a with
  | refl => exact I
  | tail _ _ b ih => exact b.inv ih

end Invariant

/-- `P false` holds between steps of the kinds `K`: a change leads to `P b`, where `b` says whether rescheduling follows, and
rescheduling leads from `P true` to `P false`. -/
structure Stable (K : Kind → Prop) (P : Bool → Kernel QLists → Prop) : Prop where
  change : ∀ {h g : Kernel QLists} {κ : Kind} {b : Bool}, Inv h → K κ → Change h κ b g → P false h → P b g
  sched : ∀ {g : Kernel QLists}, Settled true g → P true g → P false g.resched

namespace Stable

variable {K : Kind → Prop} {P : Bool → Kernel QLists → Prop} {h h' : Kernel QLists}

theorem act (hP : Stable K P) (I : Inv h) {κ : Kind} (hκ : K κ) (a : Act h κ h') (hp : P false h) : P false h' := by
  cases a with
  | plain c => exact hP.change I hκ c hp
  | sched c => exact hP.sched (c.settled I) (hP.change I hκ c hp)

theorem acts (hP : Stable K P) (I : Inv h) {ks : List Kind} (hks : ∀ κ ∈ ks, K κ) (a : Acts ks h h') (hp : P false h) :
    P false h' := by
  induction a with
  | refl => exact hp
  | tail a hκ b ih => exact hP.act (a.inv I) (hks _ hκ) b ih

end Stable

end Xinu
