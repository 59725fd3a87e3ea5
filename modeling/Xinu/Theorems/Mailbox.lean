import Xinu.Kernel.Libraries
import Xinu.Kernel.Mailbox
import Xinu.Kernel.Runs
import Xinu.Kernel.Evaluation

/-!
# Messages in every run

In every reachable state the messages a process has taken since it was created are the first of those sent to it, in the
order of the sends, and what it has not taken is the message in its slot. `Delivery` says what an event does with messages:
what `send` returns, when a receiving call returns, and which message it returns.
-/

namespace Xinu

open Kernel

/-- Nobody calls `ready` directly. -/
def Machine.Indirect {C : Client} (m : Machine C) (e : Event C) : Prop := ∀ c ∈ m.issued e, ∀ κ ∈ c.kinds, κ ≠ .readied

instance {C : Client} (m : Machine C) (e : Event C) : Decidable (m.Indirect e) :=
  inferInstanceAs (Decidable (∀ c ∈ m.issued e, ∀ κ ∈ c.kinds, κ ≠ .readied))

/-- The current process has taken the message that it returns. -/
def Machine.Took {C : Client} (m m' : Machine C) : Prop :=
  ∃ v : Nat, m'.Returns m.k.currpid v ∧ tookBy m.k.currpid m'.k.log = tookBy m.k.currpid m.k.log ++ [v]

/-- The current process is about to leave a receiving call, or calls `recvclr`. -/
inductive Machine.Receives {C : Client} (m : Machine C) : Event C → Prop where
  | receive {rest : List (Frame C.F)} (hs : m.stack = .kernel .receive :: rest) : Receives m .cont
  | recvtime {rest : List (Frame C.F)} (hs : m.stack = .kernel .recvtime :: rest) : Receives m .cont
  | recvclr {e : Event C} (hi : m.issued e = some .recvclr) : Receives m e

/-- What an event does with messages. -/
structure Delivery {C : Client} (m : Machine C) (e : Event C) (m' : Machine C) : Prop where
  /-- `send` refuses exactly a process that does not exist or has a message, and then changes nothing. -/
  refused : ∀ p msg, m.issued e = some (.send p msg) → m.k.refuses p = true →
    m'.k = m.k ∧ m'.Returns m.k.currpid SYSERR
  accepted : ∀ p msg, m.issued e = some (.send p msg) → m.k.refuses p = false →
    m'.Returns m.k.currpid OK ∧ sentTo p m'.k.log = sentTo p m.k.log ++ [msg % 4294967296]
  /-- A call of `receive` does not return at once: the caller is in it, and takes a message when it goes on. -/
  enters : m.issued e = some .receive → ∃ rest, m'.context m.k.currpid = .kernel .receive :: rest
  receive : ∀ rest, e = .cont → m.stack = .kernel .receive :: rest → m.Took m'
  /-- Nor does `recvtime`, but that it refuses a negative time, and then changes nothing. -/
  entersTime : ∀ d, m.issued e = some (.recvtime d) → 0 ≤ int32 d →
    ∃ rest, m'.context m.k.currpid = .kernel .recvtime :: rest
  negative : ∀ d, m.issued e = some (.recvtime d) → int32 d < 0 →
    m'.k = m.k ∧ m'.Returns m.k.currpid (uint32 SYSERR)
  recvtime : ∀ rest, e = .cont → m.stack = .kernel .recvtime :: rest →
    m.Took m' ∨ m'.k = m.k ∧ m'.Returns m.k.currpid (uint32 TIMEOUT)
  recvclr : m.issued e = some .recvclr → m.Took m' ∨ m'.k = m.k ∧ m'.Returns m.k.currpid OK
  /-- A process that does not run stays in its calls, unless it is killed. -/
  still : ∀ p, p ≠ m.k.currpid → m'.context p = m.context p ∨ m.removes e = some p ∧ m'.context p = []
  /-- Nothing else takes a message. -/
  took : ∀ p, tookBy p m'.k.log = tookBy p m.k.log ∨ (∃ ssize prio, m.issued e = some (.create ssize prio)) ∨
    p = m.k.currpid ∧ m.Receives e
  /-- Nothing but `send`, and `kill` to the parent, sends one. -/
  sent : ∀ p, sentTo p m'.k.log = sentTo p m.k.log ∨ (∃ ssize prio, m.issued e = some (.create ssize prio)) ∨
    (∃ q msg, m.issued e = some (.send q msg)) ∨ ∃ q, m.issued e = some (.kill q)

section

variable {C : Client} {m m' : Machine C} {e : Event C} {h h' : Kernel QLists}

/-- Who is in `receive` waits for a message or has one. -/
def Machine.Waits (m : Machine C) (h : Kernel QLists) : Prop :=
  ∀ p rest, m.context p = .kernel .receive :: rest → Awaits h p

theorem Kills.not_receive {l rest : List (Frame C.F)} (hk : Kills l) : l ≠ .kernel .receive :: rest := by
  rintro rfl
  obtain ⟨pid, i, e, _⟩ := hk _ List.mem_cons_self
  cases e

/-- Another process than the current one is in `receive` when the current one's stack changes. -/
theorem Machine.Waits.update (H : m.Waits h) {l rest : List (Frame C.F)} (hl : ∀ rest, l ≠ .kernel .receive :: rest)
    {p : Int} (hp : Function.update m.context m.k.currpid l p = .kernel .receive :: rest) :
    p ≠ m.k.currpid ∧ Awaits h p := by
  by_cases hc : p = m.k.currpid
  · subst hc
    rw [Function.update_self] at hp
    exact absurd hp (hl rest)
  · rw [Function.update_of_ne hc] at hp
    exact ⟨hc, H p rest hp⟩

theorem Call.kinds_took {c : Call} (hm : .took ∈ c.kinds) : c = .recvclr := by
  cases c <;> simp [Call.kinds] at hm ⊢

theorem Call.kinds_sent {c : Call} (hm : .sent ∈ c.kinds) : (∃ p msg, c = .send p msg) ∨ ∃ p, c = .kill p := by
  cases c <;> simp [Call.kinds] at hm ⊢

theorem Call.kinds_created {c : Call} (hm : .created ∈ c.kinds) : ∃ ssize prio, c = .create ssize prio := by
  cases c <;> simp [Call.kinds] at hm ⊢

/-- After a call of `receive` the caller waits or has a message. -/
theorem receive_awaits (St : Steady m h) (hlaw : m.k.Lawful .receive) (S' : Sim m.k.receive.1 h') : Awaits h' m.k.currpid := by
  obtain ⟨hproc, hcurr, _⟩ := St.sim.fields
  have hrun : (h.proctab m.k.currpid).prstate = .PR_CURR := by
    rw [hcurr]
    exact St.inv.running
  rw [Kernel.receive] at S'
  split at S'
  · next hm =>
    rw [Awaits, ← S'.fields.1, hproc]
    refine ⟨by rw [hrun]; decide, Or.inr ?_⟩
    rw [← hproc]
    exact hm
  · next hm =>
    have h0 : h.currpid ≠ NULLPROC := by
      intro e
      have := hlaw.null (hcurr.trans e)
      simp [Kernel.blocks, hm] at this
    have I0 : Inv0 (h.setState h.currpid .PR_RECV) := St.inv.leave ⟨h0, St.defers⟩ (Or.inr (Or.inl rfl))
    have S₀ : Sim (m.k.setState m.k.currpid .PR_RECV) (h.setState h.currpid .PR_RECV) := by
      obtain ⟨L, R, rfl⟩ := St.sim
      exact ⟨L, R, rfl⟩
    have A : Awaits (h.setState h.currpid .PR_RECV) m.k.currpid := by
      have hst : ((h.setState h.currpid .PR_RECV).proctab h.currpid).prstate = .PR_RECV := by
        simp [Kernel.setState, Kernel.setProc]
      rw [hcurr]
      exact ⟨by rw [hst]; decide, Or.inl hst⟩
    have A' := A.resched I0
    rwa [Awaits, ← (S₀.resched I0).fields.1, S'.fields.1] at A'

/-- An event keeps what holds of the processes in `receive`. -/
theorem Does.waits (d : Does m e h m' h') (St : Steady m h) (St' : Steady m' h') (hlaw : m.Lawful e) (hin : m.Indirect e)
    (H : m.Waits h) : m'.Waits h' := by
  obtain ⟨hproc, hcurr, _⟩ := St.sim.fields
  cases d with
  | call c d l rest hi hr hk a =>
    intro p rest' hp
    by_cases hc : p = m.k.currpid
    · subst hc
      have hp' : Frame.kernel (m.k.call c).2 :: rest = .kernel .receive :: rest' := (Machine.enterCall_self c rest).symm.trans hp
      have he := call_resume_receive (Frame.kernel.inj (List.cons.inj hp').1)
      subst he
      exact receive_awaits St (hlaw _ hi) St'.sim
    · have hp' : m.context p = .kernel .receive :: rest' := (Machine.enterCall_of_ne c rest hc).symm.trans hp
      by_cases hrc : c = .recvclr
      · subst hrc
        have hsame : h'.proctab p = h.proctab p := by
          rw [← St'.sim.fields.1, ← hproc]
          show m.k.recvclr.1.proctab p = _
          rw [Kernel.recvclr]
          split
          · exact Function.update_of_ne hc _ _
          · rfl
        rw [Awaits, hsame]
        exact H p rest' hp'
      · refine (awaits_stable (fun x => x = p)).acts St.inv (fun κ hκ => ?_) a ?_ p rfl
        · exact ⟨hin c hi κ hκ, fun e => hrc (Call.kinds_took (e ▸ hκ)), fun x _ e => c.kinds_killed x (e ▸ hκ)⟩
        · rintro x rfl
          exact H x rest' hp'
  | inside d l rest hr hk =>
    intro p rest' hp
    exact (H.update (fun _ => hk.not_receive) hp).2
  | stop d s l hx => exact H
  | tick he t a =>
    have t' := Act.plain t
    intro p rest hp
    have A := (awaits_stable (fun x => x = p)).act St.inv (by simp) t' (fun x hx => H x rest (hx ▸ hp))
    exact (awaits_stable (fun x => x = p)).acts (t'.inv St.inv) (by simp) a A p rfl
  | back r v rest hs hr hk =>
    intro p rest' hp
    exact (H.update (fun _ => by simp) hp).2
  | take r rest hs hr hk =>
    intro p rest' hp
    obtain ⟨hc, A⟩ := H.update (fun _ => by simp) hp
    have hsame : h.takeMsg.proctab p = h.proctab p := Function.update_of_ne (hcurr ▸ hc) _ _
    rw [Awaits, hsame]
    exact A
  | closed pid i rest hs hi hk =>
    intro p rest' hp
    exact (H.update (fun _ => by simp) hp).2
  | killEnd pid i rest hs hi hk a =>
    intro p rest' hp
    by_cases hpp : p = pid
    · subst hpp
      rw [Machine.setStack_self] at hp
      cases hp
    · have hp' := (Machine.setStack_of_ne _ hpp).symm.trans hp
      obtain ⟨_, A⟩ := H.update (fun _ => by simp) hp'
      refine (awaits_stable (fun x => x = p)).acts St.inv (fun κ hκ => ?_) (Acts.killEnd a) (fun x hx => hx ▸ A) p rfl
      obtain rfl | rfl : κ = .stkfreed ∨ κ = .killed pid := by simpa using hκ
      · simp
      · refine ⟨by simp, by simp, ?_⟩
        rintro x rfl
        simpa using fun e => hpp e.symm

/-- A process that leaves `receive` has a message. -/
theorem Steady.take_hasmsg (St : Steady m h) (H : m.Waits h) {r : Resume} {rest : List (Frame C.F)}
    (hs : m.stack = .kernel r :: rest)
    (hr : r = .receive ∨ r = .recvtime ∧ (h.proctab h.currpid).prhasmsg = true) :
    (h.proctab h.currpid).prhasmsg = true := by
  rcases hr with rfl | ⟨_, hm⟩
  · have A := H m.k.currpid rest hs
    rw [St.currpid_eq] at A
    exact A.hasmsg (by rw [St.inv.running]; decide)
  · exact hm

/-- An event keeps the messages. -/
theorem Does.mail (d : Does m e h m' h') (St : Steady m h) (H : m.Waits h) (M : ∀ p, Mail h p) : ∀ p, Mail h' p := by
  cases d with
  | call c d l rest hi hr hk a => exact mail_stable.acts St.inv (fun _ _ => trivial) a M
  | inside | back | closed => exact M
  | stop d s => exact mail_stable.act St.inv trivial (Act.plain (Change.stop s)) M
  | tick he t a =>
    have t' := Act.plain t
    exact mail_stable.acts (t'.inv St.inv) (fun _ _ => trivial) a (mail_stable.act St.inv trivial t' M)
  | take r rest hs hr =>
    intro p
    exact (M p).take (St.take_hasmsg H hs hr)
  | killEnd pid i rest hs hi hk a => exact mail_stable.acts St.inv (fun _ _ => trivial) (Acts.killEnd a) M

theorem Machine.Took.of_takeMsg {rest : List (Frame C.F)} (hk : m'.k = m.k.takeMsg)
    (hc : m'.context m.k.currpid = .kernel (.ret (m.k.proctab m.k.currpid).prmsg) :: rest) : m.Took m' := by
  refine ⟨(m.k.proctab m.k.currpid).prmsg, ⟨rest, hc⟩, ?_⟩
  rw [hk]
  exact if_pos rfl

/-- `recvtime` refuses a negative time, and else its caller is in it. -/
theorem recvtime_enters {k : Kernel QueueTab} (hb : k.isbadpid k.currpid = false) (d : Int) :
    (int32 d < 0 → k.recvtime d = (k, .ret (uint32 SYSERR))) ∧ (0 ≤ int32 d → (k.recvtime d).2 = .recvtime) := by
  refine ⟨fun hd => if_pos hd, fun hd => ?_⟩
  have hins : k.insertd k.currpid sleepq (int32 d) =
      (OK, k.setQueues (QueueOps.insertd k.queuetab k.currpid sleepq (int32 d))) := by
    have hq : isbadqid sleepq = false := by decide
    unfold Kernel.insertd
    rw [if_neg (by simp [hb, hq])]
  have hne : OK ≠ SYSERR := by decide
  unfold Kernel.recvtime
  simp only [if_neg (Int.not_lt.mpr hd), hins, if_neg hne]
  split <;> rfl

/-- A system call. -/
theorem call_delivery {c : Call} {d : C.Data} {rest : List (Frame C.F)} (St : Steady m h) (hi : m.issued e = some c)
    (a : Acts c.kinds h h') (S' : Sim (m.k.call c).1 h') : Delivery m e ({ m with data := d }.enterCall c rest) := by
  have hlog := St.sim.fields.2.2.2.2.1
  have hlog' : (m.k.call c).1.log = h'.log := S'.fields.2.2.2.2.1
  have hself : ({ m with data := d }.enterCall c rest).context m.k.currpid = .kernel (m.k.call c).2 :: rest :=
    Machine.enterCall_self c rest
  have hcont : ∀ r l, (∀ v, r ≠ .ret v) → e = .cont → m.stack ≠ .kernel r :: l := by
    intro r l hr he hs
    rw [he, Machine.issued_cont_kernel hs hr] at hi
    cases hi
  have hcurr : m.k.isbadpid m.k.currpid = false := by
    rw [isbadpid_eq_false, St.sim.fields.1, St.currpid_eq, St.inv.running]
    exact ⟨St.inv.currpid, by decide⟩
  refine ⟨fun p msg hi' hr => ?_, fun p msg hi' hr => ?_, fun hi' => ?_, fun l he hs => absurd hs (hcont _ l (by simp) he),
    fun t hi' ht => ?_, fun t hi' ht => ?_, fun l he hs => absurd hs (hcont _ l (by simp) he), fun hi' => ?_,
    fun p hp => Or.inl (Machine.enterCall_of_ne c rest hp), fun p => ?_, fun p => ?_⟩
  · obtain rfl := Option.some.inj (hi.symm.trans hi')
    have hsend := send_refused m.k hr msg
    refine ⟨congrArg Prod.fst hsend, rest, hself.trans ?_⟩
    rw [Kernel.call, hsend]
  · obtain rfl := Option.some.inj (hi.symm.trans hi')
    obtain ⟨hret, l, hl, hless⟩ := send_accepted m.k hr msg
    refine ⟨⟨rest, hself.trans (by rw [Kernel.call, hret])⟩, ?_⟩
    refine (congrArg (sentTo p) hl).trans ((mail_append hless p _).1.trans ?_)
    exact if_pos rfl
  · obtain rfl := Option.some.inj (hi.symm.trans hi')
    have hret : m.k.receive.2 = .receive := by
      unfold Kernel.receive
      split <;> rfl
    exact ⟨rest, hself.trans (by rw [Kernel.call, hret])⟩
  · obtain rfl := Option.some.inj (hi.symm.trans hi')
    exact ⟨rest, hself.trans (by rw [Kernel.call, (recvtime_enters hcurr t).2 ht])⟩
  · obtain rfl := Option.some.inj (hi.symm.trans hi')
    have hneg := (recvtime_enters hcurr t).1 ht
    exact ⟨congrArg Prod.fst hneg, rest, hself.trans (by rw [Kernel.call, hneg])⟩
  · obtain rfl := Option.some.inj (hi.symm.trans hi')
    by_cases hm : (m.k.proctab m.k.currpid).prhasmsg = true
    · have hclr : m.k.recvclr = (m.k.takeMsg, .ret (m.k.proctab m.k.currpid).prmsg) := if_pos hm
      exact Or.inl (Machine.Took.of_takeMsg (congrArg Prod.fst hclr) (hself.trans (by rw [Kernel.call, hclr])))
    · have hclr : m.k.recvclr = (m.k, .ret OK) := if_neg hm
      exact Or.inr ⟨congrArg Prod.fst hclr, rest, hself.trans (by rw [Kernel.call, hclr])⟩
  · show tookBy p (m.k.call c).1.log = _ ∨ _
    rw [hlog, hlog']
    by_cases hc : .created ∈ c.kinds
    · obtain ⟨ssize, prio, rfl⟩ := Call.kinds_created hc
      exact Or.inr (Or.inl ⟨ssize, prio, hi⟩)
    · by_cases ht : .took ∈ c.kinds
      · obtain rfl := Call.kinds_took ht
        by_cases hp : p = m.k.currpid
        · exact Or.inr (Or.inr ⟨hp, Machine.Receives.recvclr hi⟩)
        · refine Or.inl ?_
          rw [← hlog, ← hlog', Kernel.call, Kernel.recvclr]
          split
          · exact if_neg (fun e => hp e.symm)
          · rfl
      · exact Or.inl ((a.records St.inv hc p).2 ht)
  · show sentTo p (m.k.call c).1.log = _ ∨ _
    rw [hlog, hlog']
    by_cases hc : .created ∈ c.kinds
    · obtain ⟨ssize, prio, rfl⟩ := Call.kinds_created hc
      exact Or.inr (Or.inl ⟨ssize, prio, hi⟩)
    · by_cases ht : .sent ∈ c.kinds
      · rcases Call.kinds_sent ht with ⟨q, msg, rfl⟩ | ⟨q, rfl⟩
        · exact Or.inr (Or.inr (Or.inl ⟨q, msg, hi⟩))
        · exact Or.inr (Or.inr (Or.inr ⟨q, hi⟩))
      · exact Or.inl ((a.records St.inv hc p).1 ht)

/-- An event that makes no system call and takes no message. -/
theorem silent_delivery (hi : m.issued e = none)
    (hstk : e = .cont → ∃ r l, m.stack = .kernel r :: l ∧ r ≠ .receive ∧
      (r = .recvtime → m'.k = m.k ∧ m'.Returns m.k.currpid (uint32 TIMEOUT)))
    (hlog : ∀ p, sentTo p m'.k.log = sentTo p m.k.log ∧ tookBy p m'.k.log = tookBy p m.k.log)
    (hstill : ∀ p, p ≠ m.k.currpid → m'.context p = m.context p ∨ m.removes e = some p ∧ m'.context p = []) :
    Delivery m e m' := by
  have hno : ∀ {c : Call}, m.issued e ≠ some c := by
    intro c hc
    rw [hi] at hc
    cases hc
  refine ⟨fun _ _ hi' => absurd hi' hno, fun _ _ hi' => absurd hi' hno, fun hi' => absurd hi' hno, fun rest he hs => ?_,
    fun _ hi' => absurd hi' hno, fun _ hi' => absurd hi' hno, fun rest he hs => ?_, fun hi' => absurd hi' hno, hstill,
    fun p => Or.inl (hlog p).2, fun p => Or.inl (hlog p).1⟩
  · obtain ⟨r, l, hs', hne, _⟩ := hstk he
    exact absurd (Frame.kernel.inj (List.cons.inj (hs'.symm.trans hs)).1) hne
  · obtain ⟨r, l, hs', _, ht⟩ := hstk he
    exact Or.inr (ht (Frame.kernel.inj (List.cons.inj (hs'.symm.trans hs)).1))

/-- What an event does with messages. -/
theorem Does.delivery (d : Does m e h m' h') (St : Steady m h) (St' : Steady m' h') (hstep : m.step e = some m') :
    Delivery m e m' := by
  have hstill : ∀ p, p ≠ m.k.currpid → m'.context p = m.context p ∨ m.removes e = some p ∧ m'.context p = [] :=
    fun p hp => Machine.step_context hstep hp
  have hlog := St.sim.fields.2.2.2.2.1
  have hlog' := St'.sim.fields.2.2.2.2.1
  have hsame : m'.k.log = m.k.log → ∀ p, sentTo p m'.k.log = sentTo p m.k.log ∧ tookBy p m'.k.log = tookBy p m.k.log := by
    intro hl p
    rw [hl]
    exact ⟨rfl, rfl⟩
  have hret : ∀ {l : List (Frame C.F)} {v : Int}, m.stack = .kernel (.ret v) :: l → ∃ r l, m.stack = .kernel r :: l ∧
      r ≠ .receive ∧ (r = .recvtime → m'.k = m.k ∧ m'.Returns m.k.currpid (uint32 TIMEOUT)) := by
    intro l v hs
    exact ⟨_, _, hs, by simp, by simp⟩
  cases d with
  | call c d l rest hi hr hk a => exact call_delivery St hi a St'.sim
  | inside d l rest hr hk hi =>
    refine silent_delivery hi (fun he => ?_) (hsame rfl) hstill
    obtain ⟨v, l', hs⟩ := hr.cont_stack he
    exact hret hs
  | stop d s l hx =>
    refine silent_delivery hx.issued (fun he => ?_) (hsame rfl) hstill
    obtain ⟨v, l', hs⟩ := hx.cont_stack he
    exact hret hs
  | tick he t a hw =>
    subst he
    have t' := Act.plain t
    refine silent_delivery rfl (fun he => by cases he) (fun p => ?_) hstill
    rw [hlog, hlog']
    obtain ⟨h1, h2⟩ := a.records (t'.inv St.inv) (by simp) p
    obtain ⟨h3, h4⟩ := t'.records St.inv (by simp) p
    exact ⟨(h1 (by simp)).trans (h3 (by simp)), (h2 (by simp)).trans (h4 (by simp))⟩
  | back r v rest hs hr hk he =>
    subst he
    have hne : ∀ v, r ≠ .ret v := by
      intro v
      rcases hr with ⟨p, rfl⟩ | ⟨rfl, _⟩ <;> simp
    refine silent_delivery (Machine.issued_cont_kernel hs hne) (fun _ => ⟨r, rest, hs, ?_, ?_⟩) (hsame rfl) hstill
    · rcases hr with ⟨p, rfl⟩ | ⟨rfl, _⟩ <;> simp
    · rintro rfl
      obtain ⟨_, rfl, _⟩ := hr.resolve_left (by simp)
      exact ⟨rfl, rest, Machine.setStack_self _ _⟩
  | take r rest hs hr hk he =>
    subst he
    have ht : m.Took ({ m with k := m.k.takeMsg }.setStack m.k.currpid
        (.kernel (.ret (m.k.proctab m.k.currpid).prmsg) :: rest)) :=
      Machine.Took.of_takeMsg rfl (Machine.setStack_self _ _)
    have hi : m.issued .cont = none := by
      refine Machine.issued_cont_kernel hs (fun v => ?_)
      rcases hr with rfl | ⟨rfl, _⟩ <;> simp
    have hno : ∀ {c : Call}, m.issued .cont ≠ some c := by
      intro c hc
      rw [hi] at hc
      cases hc
    refine ⟨fun _ _ hi' => absurd hi' hno, fun _ _ hi' => absurd hi' hno, fun hi' => absurd hi' hno, fun _ _ _ => ht,
      fun _ hi' => absurd hi' hno, fun _ hi' => absurd hi' hno, fun _ _ _ => Or.inl ht, fun hi' => absurd hi' hno, hstill,
      fun p => ?_, fun p => Or.inl rfl⟩
    by_cases hp : p = m.k.currpid
    · refine Or.inr (Or.inr ⟨hp, ?_⟩)
      rcases hr with rfl | ⟨rfl, _⟩
      · exact Machine.Receives.receive hs
      · exact Machine.Receives.recvtime hs
    · exact Or.inl (if_neg (fun e => hp e.symm))
  | closed pid i rest hs hi hk he =>
    subst he
    exact silent_delivery (Machine.issued_cont_kernel hs (by simp)) (fun _ => ⟨_, rest, hs, by simp, by simp⟩) (hsame rfl)
      hstill
  | killEnd pid i rest hs hi hk a he =>
    subst he
    refine silent_delivery (Machine.issued_cont_kernel hs (by simp)) (fun _ => ⟨_, rest, hs, by simp, by simp⟩) (fun p => ?_)
      hstill
    rw [hlog, hlog']
    obtain ⟨h1, h2⟩ := (Acts.killEnd a).records St.inv (by simp) p
    exact ⟨h1 (by simp), h2 (by simp)⟩

end

theorem sysinit_hasmsg (minheap maxheap : Nat) (p : Int) : ((sysinit minheap maxheap).proctab p).prhasmsg = false := by
  simp only [sysinit]
  split <;> rfl

/-- A process waits in `recvtime`, gets a message from the null process and returns it. -/
def oneMessage : List (Event Client.none) :=
  [.call (.create 400 20), .cont, .call (.resume 1), .call (.recvtime 5), .cont, .tick, .call (.send 1 7), .cont]

end Xinu
