import Xinu.Kernel.Refinement

/-!
# Messages

The messages that were sent to a process since it was created are those it has taken, in the order of the sends, and the one
that is in its slot (`Mail`). A process that waits in `receive` has an empty slot until it is made ready again (`Awaits`).
-/

namespace Xinu

open Kernel

/-- The messages sent to the process in the entry `p` since it was created. -/
def sentTo (p : Int) : List Obs → List Nat
  | [] => []
  | .created q _ _ :: l => if q = p then [] else sentTo p l
  | .sent q msg :: l => if q = p then sentTo p l ++ [msg] else sentTo p l
  | _ :: l => sentTo p l

/-- The messages that the process in the entry `p` has taken since it was created. -/
def tookBy (p : Int) : List Obs → List Nat
  | [] => []
  | .created q _ _ :: l => if q = p then [] else tookBy p l
  | .took q msg :: l => if q = p then tookBy p l ++ [msg] else tookBy p l
  | _ :: l => tookBy p l

/-- The message in the slot of a process. -/
def Procent.slot (e : Procent) : List Nat := if e.prhasmsg then [e.prmsg] else []

/-- The process waits for a message. -/
def Procent.listens (e : Procent) : Prop := e.prstate = .PR_RECV ∨ e.prstate = .PR_RECTIM

/-- No message is lost, duplicated or out of order, and who waits for one has none. -/
structure Mail {Q : Type} (h : Kernel Q) (p : Int) : Prop where
  fifo : sentTo p h.log = tookBy p h.log ++ (h.proctab p).slot
  waiting : (h.proctab p).listens → (h.proctab p).prhasmsg = false

section Mail

variable {h g : Kernel QLists} {κ : Kind} {b : Bool} {p q : Int} {e : Procent}

/-- The records on top of the log that concern no message. -/
def Obs.mailless : Obs → Bool
  | .created .. | .sent .. | .took .. => false
  | _ => true

/-- Records of other things do not count. -/
theorem mail_append {l : List Obs} (hl : ∀ o ∈ l, o.mailless = true) (p : Int) (log : List Obs) :
    sentTo p (l ++ log) = sentTo p log ∧ tookBy p (l ++ log) = tookBy p log := by
  induction l with
  | nil => exact ⟨rfl, rfl⟩
  | cons o l ih =>
    have ho := hl o List.mem_cons_self
    have ih := ih (fun o ho => hl o (List.mem_cons_of_mem _ ho))
    cases o with
    | created | sent | took => cases ho
    | _ => exact ih

/-- A step that is not about messages keeps the account, if it leaves the slot and who listens has none. -/
theorem Mail.frame (H : Mail h p) {l : List Obs} (hlog : g.log = l ++ h.log) (hl : ∀ o ∈ l, o.mailless = true)
    (hslot : (g.proctab p).slot = (h.proctab p).slot) (hw : (g.proctab p).listens → (g.proctab p).prhasmsg = false) :
    Mail g p := by
  obtain ⟨h1, h2⟩ := mail_append hl p h.log
  refine ⟨?_, hw⟩
  rw [hlog, h1, h2, hslot]
  exact H.fifo

/-- A step that changes no message. -/
theorem Mail.same (H : Mail h p) {l : List Obs} (hlog : g.log = l ++ h.log) (hl : ∀ o ∈ l, o.mailless = true)
    (hproc : g.proctab = h.proctab) : Mail g p := by
  refine H.frame hlog hl (by rw [hproc]) (fun hw => ?_)
  rw [hproc] at hw ⊢
  exact H.waiting hw

/-- A step that changes the state of a process, but no message. -/
theorem Mail.entry (H : Mail h p) {l : List Obs} (hlog : g.log = l ++ h.log) (hl : ∀ o ∈ l, o.mailless = true)
    (hproc : g.proctab = Function.update h.proctab q e) (hslot : e.slot = (h.proctab q).slot)
    (hw : e.listens → e.prhasmsg = false) : Mail g p := by
  by_cases hp : p = q
  · subst hp
    refine H.frame hlog hl ?_ ?_
    · rw [hproc, Function.update_self, hslot]
    · rw [hproc, Function.update_self]
      exact hw
  · refine H.frame hlog hl ?_ ?_
    · rw [hproc, Function.update_of_ne hp]
    · rw [hproc, Function.update_of_ne hp]
      exact H.waiting

theorem not_listens {e : Procent} (h1 : e.prstate ≠ .PR_RECV) (h2 : e.prstate ≠ .PR_RECTIM) : ¬e.listens := by
  rintro (hs | hs)
  · exact h1 hs
  · exact h2 hs

/-- A message goes into an empty slot. -/
theorem Mail.deposited (H : Mail h p) {l : List Obs} {msg : Nat} (hm : (h.proctab q).prhasmsg = false)
    (hlog : g.log = l ++ .sent q msg :: h.log) (hl : ∀ o ∈ l, o.mailless = true)
    (hproc : g.proctab = Function.update h.proctab q e) (hslot : e.slot = [msg]) (hw : ¬e.listens) : Mail g p := by
  obtain ⟨h1, h2⟩ := mail_append hl p (.sent q msg :: h.log)
  by_cases hp : p = q
  · subst hp
    have hf := H.fifo
    rw [Procent.slot, hm, if_neg (by simp), List.append_nil] at hf
    refine ⟨?_, fun hl => absurd ?_ hw⟩
    · rw [hlog, h1, h2, hproc, Function.update_self, hslot]
      show (if p = p then sentTo p h.log ++ [msg] else _) = tookBy p h.log ++ [msg]
      rw [if_pos rfl, hf]
    · rwa [hproc, Function.update_self] at hl
  · have hsent : sentTo p (.sent q msg :: h.log) = sentTo p h.log := if_neg (fun e => hp e.symm)
    refine ⟨?_, ?_⟩
    · rw [hlog, h1, h2, hproc, Function.update_of_ne hp, hsent]
      exact H.fifo
    · rw [hproc, Function.update_of_ne hp]
      exact H.waiting

/-- The current process takes its message. -/
theorem Mail.take (H : Mail h p) (hm : (h.proctab h.currpid).prhasmsg = true) : Mail h.takeMsg p := by
  by_cases hp : p = h.currpid
  · subst hp
    have hproc : h.takeMsg.proctab h.currpid = { h.proctab h.currpid with prhasmsg := false } := Function.update_self _ _ _
    have hf := H.fifo
    rw [Procent.slot, if_pos hm] at hf
    refine ⟨?_, fun _ => by rw [hproc]⟩
    show sentTo h.currpid h.log = (if h.currpid = h.currpid then _ ++ [_] else _) ++ _
    rw [if_pos rfl, hproc, Procent.slot, if_neg (by simp), List.append_nil]
    exact hf
  · have hproc : h.takeMsg.proctab p = h.proctab p := Function.update_of_ne hp _ _
    have htook : tookBy p h.takeMsg.log = tookBy p h.log := if_neg (fun e => hp e.symm)
    refine ⟨?_, ?_⟩
    · rw [htook, hproc]
      exact H.fifo
    · rw [hproc]
      exact H.waiting

/-- A new process has no messages. -/
theorem Mail.create (H : Mail h p) (saddr ssize : Nat) (priority : Int) : Mail (h.addProc q saddr ssize priority) p := by
  by_cases hp : p = q
  · subst hp
    have hproc : (h.addProc p saddr ssize priority).proctab p = { h.proctab p with
      prstate := .PR_SUSP, prprio := priority, prstkbase := saddr, prstklen := ssize, prsem := -1, prparent := h.currpid,
      prhasmsg := false } := Function.update_self _ _ _
    refine ⟨?_, fun _ => by rw [hproc]⟩
    show (if p = p then [] else _) = (if p = p then [] else _) ++ _
    rw [if_pos rfl, if_pos rfl, hproc]
    rfl
  · have hproc : (h.addProc q saddr ssize priority).proctab p = h.proctab p := Function.update_of_ne hp _ _
    have h1 : sentTo p (h.addProc q saddr ssize priority).log = sentTo p h.log := if_neg (fun e => hp e.symm)
    have h2 : tookBy p (h.addProc q saddr ssize priority).log = tookBy p h.log := if_neg (fun e => hp e.symm)
    refine ⟨?_, ?_⟩
    · rw [h1, h2, hproc]
      exact H.fifo
    · rw [hproc]
      exact H.waiting

/-- Every change keeps the messages. -/
theorem Change.mail (c : Change h κ b g) (H : ∀ p, Mail h p) (p : Int) : Mail g p := by
  have H' := H p
  cases c with
  | aux | stop | deferStart | deferStop | resched => exact H'.same (l := []) rfl (by simp) rfl
  | killing | stkfreed | tick | passed | signalled | flushedNone | semcreated | semreset | semdeleted =>
    exact H'.same (l := [_]) rfl (by simp [Obs.mailless]) rfl
  | releasedNone => exact H'.same (l := [_, _]) rfl (by simp [Obs.mailless]) rfl
  | created p saddr ssize priority => exact H'.create saddr ssize priority
  | ready | resumed | suspend | suspendSelf =>
    exact H'.entry (l := []) rfl (by simp) rfl rfl (fun hw => absurd hw (not_listens (by simp) (by simp)))
  | chprio p prio => exact H'.entry (q := p) (l := []) rfl (by simp) rfl rfl (H p).waiting
  | deposit q msg hm hs hr ht =>
    exact H'.deposited (q := q) (l := []) hm rfl (by simp) rfl rfl (not_listens hr ht)
  | depositRecv q msg hm =>
    have hproc : ((h.deposit q msg).makeReady q).proctab = Function.update h.proctab q
        { h.proctab q with prmsg := msg, prhasmsg := true, prstate := .PR_READY } := by
      simp [Kernel.makeReady, Kernel.deposit, Kernel.setState, Kernel.setProc, Kernel.setQueues, Kernel.note]
    exact H'.deposited (q := q) (l := []) hm rfl (by simp) hproc rfl (not_listens (by simp) (by simp))
  | depositRectim q msg hm =>
    have hproc : (((h.deposit q msg).leaveSleep q).makeReady q).proctab = Function.update h.proctab q
        { h.proctab q with prmsg := msg, prhasmsg := true, prstate := .PR_READY } := by
      simp [Kernel.makeReady, Kernel.leaveSleep, Kernel.deposit, Kernel.setState, Kernel.setProc, Kernel.setQueues,
        Kernel.getitem, Kernel.note]
    exact H'.deposited (q := q) (l := [_]) hm rfl (by simp [Obs.mailless]) hproc rfl (not_listens (by simp) (by simp))
  | receive hm => exact H'.entry (l := []) rfl (by simp) rfl rfl (fun _ => hm)
  | take hm => exact H'.take hm
  | sleep st d hst =>
    refine H'.entry (l := [_]) rfl (by simp [Obs.mailless]) rfl rfl (fun hw => ?_)
    rcases hst with ⟨rfl, _⟩ | ⟨rfl, hm⟩
    · exact absurd hw (not_listens (by simp) (by simp))
    · exact hm
  | woken | blocked | flushed | freed | freedReady | freedSelf =>
    exact H'.entry (l := [_]) rfl (by simp [Obs.mailless]) rfl rfl (fun hw => absurd hw (not_listens (by simp) (by simp)))
  | released | freedAsleep | freedWaiting =>
    exact H'.entry (l := [_, _]) rfl (by simp [Obs.mailless]) rfl rfl
      (fun hw => absurd hw (not_listens (by simp) (by simp)))

/-- Rescheduling touches no slot. -/
theorem Mail.resched (I : Inv0 h) (H : Mail h p) : Mail h.resched p := by
  have R := I.resched_only
  have hproc := R.proc p
  refine H.frame (l := []) R.log (by simp) (by rw [hproc]; rfl) (fun hw => ?_)
  have hm : (h.resched.proctab p).prhasmsg = (h.proctab p).prhasmsg := by rw [hproc]
  rw [hm]
  refine H.waiting ?_
  rcases R.state p with hs | ⟨_, hs⟩
  · rwa [Procent.listens, hs] at hw
  · rcases hw with hw | hw <;> rw [hw] at hs <;> simp at hs

/-- The messages are kept from step to step. -/
theorem mail_stable : Stable (fun _ => True) (fun _ h => ∀ p, Mail h p) :=
  ⟨fun _ _ c H => c.mail H, fun T H p => (H p).resched T.toInv0⟩

end Mail

/-! ## What a step records of messages -/

section Records

variable {h g : Kernel QLists} {κ : Kind} {b : Bool} {ks : List Kind}

/-- Only `send` and `kill` send a message, and only the receiving calls take one. -/
theorem Change.records (c : Change h κ b g) (hκ : κ ≠ .created) (p : Int) :
    (κ ≠ .sent → sentTo p g.log = sentTo p h.log) ∧ (κ ≠ .took → tookBy p g.log = tookBy p h.log) := by
  cases c with
  | created => exact absurd rfl hκ
  | take => exact ⟨fun _ => rfl, fun ht => absurd rfl ht⟩
  | deposit | depositRecv | depositRectim => exact ⟨fun hs => absurd rfl hs, fun _ => rfl⟩
  | _ => exact ⟨fun _ => rfl, fun _ => rfl⟩

/-- Only a step that sends adds to what was sent, and only one that takes to what was taken. -/
theorem Act.records (a : Act h κ g) (I : Inv h) (hκ : κ ≠ .created) (p : Int) :
    (κ ≠ .sent → sentTo p g.log = sentTo p h.log) ∧ (κ ≠ .took → tookBy p g.log = tookBy p h.log) := by
  cases a with
  | plain c => exact c.records hκ p
  | sched c =>
    rw [(c.settled I).toInv0.resched_only.log]
    exact c.records hκ p

/-- The same for a sequence of steps. -/
theorem Acts.records (a : Acts ks h g) (I : Inv h) (hc : .created ∉ ks) (p : Int) :
    (.sent ∉ ks → sentTo p g.log = sentTo p h.log) ∧ (.took ∉ ks → tookBy p g.log = tookBy p h.log) := by
  induction a with
  | refl => exact ⟨fun _ => rfl, fun _ => rfl⟩
  | tail a hκ c ih =>
    obtain ⟨h1, h2⟩ := c.records (a.inv I) (fun e => hc (e ▸ hκ)) p
    exact ⟨fun hs => (h1 (fun e => hs (e ▸ hκ))).trans (ih.1 hs), fun ht => (h2 (fun e => ht (e ▸ hκ))).trans (ih.2 ht)⟩

end Records

section Send

variable {Q : Type} [QueueOps Q] (k : Kernel Q)

theorem insert_log (p q key : Int) : (k.insert p q key).2.log = k.log := by
  unfold Kernel.insert
  split <;> rfl

/-- Rescheduling records nothing. -/
theorem resched_log : k.resched.log = k.log := by
  unfold Kernel.resched
  split_ifs
  · rfl
  · rfl
  · exact insert_log _ _ _ _
  · rfl

theorem ready_log (p : Int) : (k.ready p).2.log = k.log := by
  unfold Kernel.ready
  split
  · rfl
  · rw [resched_log, insert_log]
    rfl

theorem unsleep_log (p : Int) : ∃ l : List Obs, (k.unsleep p).log = l ++ k.log ∧ ∀ o ∈ l, o.mailless = true := by
  unfold Kernel.unsleep
  split_ifs
  · exact ⟨[], rfl, by simp⟩
  · exact ⟨[], rfl, by simp⟩
  · exact ⟨[_], rfl, by simp [Obs.mailless]⟩

/-- `send` refuses a process that does not exist, or has a message. -/
def Kernel.refuses (p : Int) : Bool := k.isbadpid p || (k.proctab p).prhasmsg

/-- A refused message changes nothing. -/
theorem send_refused {p : Int} (hr : k.refuses p = true) (msg : Nat) : k.send p msg = (k, .ret SYSERR) := by
  unfold Kernel.send
  split
  · rfl
  · next hb =>
    have hm : (k.proctab p).prhasmsg = true := by
      simpa [Kernel.refuses, hb] using hr
    rw [if_pos hm]

/-- An accepted message is recorded, and nothing else that is about messages. -/
theorem send_accepted {p : Int} (hr : k.refuses p = false) (msg : Nat) : (k.send p msg).2 = .ret OK ∧
    ∃ l : List Obs, (k.send p msg).1.log = l ++ .sent p (msg % 4294967296) :: k.log ∧ ∀ o ∈ l, o.mailless = true := by
  simp only [Kernel.refuses, Bool.or_eq_false_iff] at hr
  unfold Kernel.send
  rw [if_neg (by simp [hr.1]), if_neg (by simp [hr.2])]
  simp only
  split
  · exact ⟨rfl, [], ready_log _ _, by simp⟩
  · obtain ⟨l, h1, h2⟩ := unsleep_log ((k.setProc p { k.proctab p with prmsg := msg % 4294967296, prhasmsg := true }).note
      (.sent p (msg % 4294967296))) p
    exact ⟨rfl, l, (ready_log _ _).trans h1, h2⟩
  · exact ⟨rfl, [], rfl, by simp⟩

end Send

/-! ## Processes in `receive` -/

/-- The process is in `receive`: it waits, or its message has arrived. -/
def Awaits (h : Kernel QLists) (p : Int) : Prop :=
  (h.proctab p).prstate ≠ .PR_FREE ∧ ((h.proctab p).prstate = .PR_RECV ∨ (h.proctab p).prhasmsg = true)

section Awaits

variable {h g : Kernel QLists} {κ : Kind} {b : Bool} {p q : Int} {e : Procent}

/-- Writing one entry keeps who awaits a message, if it does so for the entry. -/
theorem Awaits.entry (H : Awaits h p) (hproc : g.proctab = Function.update h.proctab q e)
    (he : Awaits h q → e.prstate ≠ .PR_FREE ∧ (e.prstate = .PR_RECV ∨ e.prhasmsg = true)) : Awaits g p := by
  by_cases hp : p = q
  · subst hp
    rw [Awaits, hproc, Function.update_self]
    exact he H
  · rw [Awaits, hproc, Function.update_of_ne hp]
    exact H

/-- A process that is not in state `PR_RECV` has its message. -/
theorem Awaits.hasmsg (H : Awaits h p) (hs : (h.proctab p).prstate ≠ .PR_RECV) : (h.proctab p).prhasmsg = true :=
  H.2.resolve_left hs

/-- Only a direct call of `ready`, a receiving call of the process itself and its end take a process out of `receive`. -/
theorem Change.awaits (c : Change h κ b g) (I : Inv h) (hκ : κ ≠ .readied ∧ κ ≠ .took ∧ κ ≠ .killed p)
    (H : Awaits h p) : Awaits g p := by
  have hcurr : Awaits h h.currpid → (h.proctab h.currpid).prhasmsg = true := by
    intro A
    exact A.hasmsg (by rw [I.running]; decide)
  cases c with
  | aux | stop | deferStart | deferStop | resched | killing | tick | passed | signalled | releasedNone
  | flushedNone | semcreated | semreset | semdeleted | stkfreed => exact H
  | ready => exact absurd rfl hκ.1
  | take => exact absurd rfl hκ.2.1
  | created q saddr ssize priority hq hf => exact H.entry (q := q) rfl (fun A => absurd hf A.1)
  | resumed q hs => exact H.entry (q := q) rfl (fun A => ⟨by simp, Or.inr (A.hasmsg (by rw [hs]; decide))⟩)
  | suspend q hs => exact H.entry (q := q) rfl (fun A => ⟨by simp, Or.inr (A.hasmsg (by rw [hs]; decide))⟩)
  | suspendSelf | blocked => exact H.entry (q := h.currpid) rfl (fun A => ⟨by simp, Or.inr (hcurr A)⟩)
  | sleep st d hst =>
    refine H.entry (q := h.currpid) rfl (fun A => ⟨?_, Or.inr (hcurr A)⟩)
    rcases hst with ⟨rfl, _⟩ | ⟨rfl, _⟩ <;> simp
  | receive => exact H.entry (q := h.currpid) rfl (fun _ => ⟨by simp, Or.inl rfl⟩)
  | chprio q => exact H.entry (q := q) rfl (fun A => A)
  | deposit q msg hm hs => exact H.entry (q := q) rfl (fun _ => ⟨hs, Or.inr rfl⟩)
  | depositRecv q msg hm hs | depositRectim q msg hm hs =>
    have H' : Awaits (h.deposit q msg) p := H.entry (q := q) rfl (fun A => ⟨A.1, Or.inr rfl⟩)
    refine H'.entry (q := q) rfl (fun _ => ⟨by simp, Or.inr ?_⟩)
    show (Function.update h.proctab q _ q).prhasmsg = true
    rw [Function.update_self]
  | woken q rest hq =>
    have hm : q ∈ h.queuetab.ids sleepq := hq ▸ List.mem_cons_self
    refine H.entry (q := q) rfl (fun A => ⟨by simp, Or.inr (A.hasmsg (fun hs => ?_))⟩)
    rw [I.mem, homeOf, hs] at hm
    cases hm
  | released s q rest hs hu hc hq | flushed s q rest hs hu hq =>
    have hm : q ∈ h.queuetab.ids (squeue s) := hq ▸ List.mem_cons_self
    refine H.entry (q := q) rfl (fun A => ⟨by simp, Or.inr (A.hasmsg (fun hs => ?_))⟩)
    rw [I.mem, homeOf, hs] at hm
    cases hm
  | freed q | freedReady q | freedAsleep q | freedWaiting q | freedSelf =>
    have hp := fun e => hκ.2.2 (congrArg Kind.killed e)
    rw [Awaits]
    rw [show (_ : Kernel QLists).proctab p = h.proctab p from Function.update_of_ne (fun e => hp e.symm) _ _]
    exact H

/-- Rescheduling keeps who awaits a message. -/
theorem Awaits.resched (I : Inv0 h) (H : Awaits h p) : Awaits h.resched p := by
  have R := I.resched_only
  have hm : (h.resched.proctab p).prhasmsg = (h.proctab p).prhasmsg := by rw [R.proc p]
  rw [Awaits, hm]
  rcases R.state p with hs | ⟨hs, hs'⟩
  · rw [hs]
    exact H
  · have hmsg := H.hasmsg (by rcases hs with hs | hs <;> rw [hs] <;> decide)
    exact ⟨by rcases hs' with hs' | hs' <;> rw [hs'] <;> decide, Or.inr hmsg⟩

/-- A set of processes in `receive` stays there from step to step. -/
theorem awaits_stable (W : Int → Prop) :
    Stable (fun κ => κ ≠ .readied ∧ κ ≠ .took ∧ ∀ p, W p → κ ≠ .killed p) (fun _ h => ∀ p, W p → Awaits h p) :=
  ⟨fun I hκ c H p hp => c.awaits I ⟨hκ.1, hκ.2.1, hκ.2.2 p hp⟩ (H p hp), fun T H p hp => (H p hp).resched T.toInv0⟩

end Awaits

end Xinu
