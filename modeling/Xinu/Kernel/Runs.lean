import Xinu.Kernel.Defers
import Xinu.Kernel.Machine

/-!
# Runs

`Steady` collects what holds in every reachable state between two events: the queue table represents lists, every process is on
the list of its state, rescheduling is not deferred, and below the top of a stack there are only routines of the library and
calls of `kill` that are in the close routine of a device. `Does` says what an event does to the machine and to the kernel with
its queues as lists (`step_does`); a property that every step of the kernel keeps holds in every reachable state
(`reach_keeps`).
-/

namespace Xinu

open Kernel

/-! ## Lawful events -/

/-- `ready` is not called for a process that is on a list. -/
def Kernel.readiable {Q : Type} (k : Kernel Q) : Call → Bool
  | .ready p => k.isbadpid p || decide (homeOf (k.proctab p) = none)
  | _ => true

/-- The two conditions of a lawful call are decided from the state before it. -/
theorem Kernel.lawful_iff {Q : Type} {k : Kernel Q} {c : Call} :
    (k.currpid = NULLPROC → k.blocks c = false) ∧ k.readiable c = true ↔ k.Lawful c := by
  constructor
  · rintro ⟨h1, h2⟩
    refine ⟨h1, fun p e => ?_⟩
    subst e
    simpa [Kernel.readiable] using h2
  · intro hc
    refine ⟨hc.null, ?_⟩
    cases c with
    | ready p => simpa [Kernel.readiable] using hc.ready p rfl
    | _ => rfl

instance {Q : Type} (k : Kernel Q) (c : Call) : Decidable (k.Lawful c) := decidable_of_iff _ Kernel.lawful_iff

/-- The system call that the event makes, if it makes one, is lawful. -/
def Machine.Lawful {C : Client} (m : Machine C) (e : Event C) : Prop := ∀ c ∈ m.issued e, m.k.Lawful c

instance {C : Client} (m : Machine C) (e : Event C) : Decidable (m.Lawful e) :=
  inferInstanceAs (Decidable (∀ c ∈ m.issued e, m.k.Lawful c))

/-! ## Stacks -/

section Stacks

variable {F : Type}

/-- Every system call on the stack is a call of `kill` in the close routine of a device, for a process other than the null
process. -/
def Kills (l : List (Frame F)) : Prop :=
  ∀ r, Frame.kernel r ∈ l → ∃ pid i, r = .kill pid i ∧ i < 3 ∧ IsPid pid ∧ pid ≠ NULLPROC

/-- Only the top of a stack can be another system call than that. -/
def StackOk : List (Frame F) → Prop
  | [] => True
  | f :: l => (∀ pid i, f = .kernel (.kill pid i) → IsPid pid ∧ pid ≠ NULLPROC) ∧ Kills l

theorem Kills.nil : Kills ([] : List (Frame F)) := by
  intro r hr
  cases hr

theorem Kills.of_cons {f : Frame F} {l : List (Frame F)} (hl : Kills (f :: l)) : Kills l := by
  intro r hr
  exact hl r (List.mem_cons_of_mem _ hr)

theorem Kills.cons {f : Frame F} {l : List (Frame F)} (hl : Kills l) (hf : ∀ r, f ≠ .kernel r) : Kills (f :: l) := by
  intro r hr
  rcases List.mem_cons.mp hr with hr | hr
  · exact absurd hr.symm (hf r)
  · exact hl r hr

/-- A stack of calls of `kill` only is a stack of a process. -/
theorem Kills.stackOk {l : List (Frame F)} (hl : Kills l) : StackOk l := by
  cases l with
  | nil => trivial
  | cons f l =>
    refine ⟨?_, hl.of_cons⟩
    rintro pid i rfl
    obtain ⟨pid', i', e, _, hp⟩ := hl _ List.mem_cons_self
    obtain ⟨rfl, _⟩ := Resume.kill.inj e
    exact hp

/-- A call of `kill` on a stack has a victim other than the null process. -/
theorem StackOk.victim {l : List (Frame F)} (hl : StackOk l) {pid : Int} {i : Nat} (hm : Frame.kernel (.kill pid i) ∈ l) :
    IsPid pid ∧ pid ≠ NULLPROC := by
  cases l with
  | nil => cases hm
  | cons f l =>
    rcases List.mem_cons.mp hm with rfl | hm
    · exact hl.1 pid i rfl
    · obtain ⟨pid', i', e, _, hp⟩ := hl.2 _ hm
      obtain ⟨rfl, _⟩ := Resume.kill.inj e
      exact hp

end Stacks

namespace Machine

variable {C : Client} {m : Machine C} {e : Event C} {c : Call} {d : C.Data} {l rest : List (Frame C.F)}

/-- What is left of a stack when a segment ends. -/
theorem Base.kills (hl : Base m l) (hs : StackOk m.stack) : Kills l := by
  cases hl with
  | user hu =>
    cases hst : m.stack with
    | nil => exact Kills.nil
    | cons f l =>
      rw [hst] at hu hs
      intro r hr
      rcases List.mem_cons.mp hr with rfl | hr
      · cases r with
        | kill pid i => exact ⟨pid, i, rfl, of_decide_eq_true hu, hs.1 pid i rfl⟩
        | _ => cases hu
      · exact hs.2 r hr
  | callback h =>
    rw [h] at hs
    exact hs.2
  | client h =>
    rw [h] at hs
    exact hs.2.of_cons
  | ret h =>
    rw [h] at hs
    exact hs.2

theorem Calls.kills (hr : Calls m e c d l rest) (hl : Kills l) : Kills rest := by
  cases hr with
  | user _ => exact hl
  | client _ => exact hl.cons (fun r => by simp)

theorem Ends.kills (hr : Ends m e d l rest) (hl : Kills l) : Kills rest := by
  cases hr with
  | user _ _ _ => exact hl
  | ret _ => exact hl
  | callback _ => exact hl.cons (fun r => by simp)

end Machine

/-! ## Events -/

/-- What holds of a machine between two events, with its queues as lists. -/
structure Steady {C : Client} (m : Machine C) (h : Kernel QLists) : Prop where
  sim : Sim m.k h
  inv : Inv h
  defers : h.ndefers = 0
  counts : CountsLow h
  frames : ∀ p, StackOk (m.context p)
  freed : ∀ p, (h.proctab p).prstate = .PR_FREE → m.context p = []

/-- What an event does to the machine, and to the kernel with its queues as lists. -/
inductive Does {C : Client} (m : Machine C) (e : Event C) (h : Kernel QLists) : Machine C → Kernel QLists → Prop where
  | call (c : Call) (d : C.Data) (l rest : List (Frame C.F)) {h' : Kernel QLists} (hi : m.issued e = some c)
      (hr : Machine.Calls m e c d l rest) (hk : Kills rest) (a : Acts c.kinds h h') :
      Does m e h ({ m with data := d }.enterCall c rest) h'
  | inside (d : C.Data) (l rest : List (Frame C.F)) (hr : Machine.Ends m e d l rest) (hk : Kills rest)
      (hi : m.issued e = none) :
      Does m e h ({ m with data := d }.setStack m.k.currpid rest) h
  | stop (d : C.Data) (s : Status) (l : List (Frame C.F)) (hx : Machine.Follows m e l (d, .stop s)) :
      Does m e h { m with data := d, k := { m.k with status := s } } { h with status := s }
  | tick {h₁ h' : Kernel QLists} (he : e = .tick) (t : Change h .tick false h₁) (a : Acts [.quiet, .woken] h₁ h')
      (hw : Due h → Awake h') : Does m e h { m with k := m.k.clockInterrupt } h'
  /-- The end of `suspend`, or of `recvtime` without a message. -/
  | back (r : Resume) (v : Int) (rest : List (Frame C.F)) (hs : m.stack = .kernel r :: rest)
      (hr : (∃ p, r = .suspend p) ∨ r = .recvtime ∧ v = uint32 TIMEOUT ∧ (h.proctab h.currpid).prhasmsg = false)
      (hk : Kills rest) (he : e = .cont) : Does m e h (m.setStack m.k.currpid (.kernel (.ret v) :: rest)) h
  | take (r : Resume) (rest : List (Frame C.F)) (hs : m.stack = .kernel r :: rest)
      (hr : r = .receive ∨ r = .recvtime ∧ (h.proctab h.currpid).prhasmsg = true) (hk : Kills rest)
      (he : e = .cont) :
      Does m e h ({ m with k := m.k.takeMsg }.setStack m.k.currpid
        (.kernel (.ret (m.k.proctab m.k.currpid).prmsg) :: rest)) h.takeMsg
  /-- The close routine of a device returns to `kill`. -/
  | closed (pid : Int) (i : Nat) (rest : List (Frame C.F)) (hs : m.stack = .kernel (.kill pid i) :: rest) (hi : i < 3)
      (hk : Kills rest) (he : e = .cont) : Does m e h (m.setStack m.k.currpid (.kernel (.kill pid (i + 1)) :: rest)) h
  | killEnd (pid : Int) (i : Nat) (rest : List (Frame C.F)) {h' : Kernel QLists}
      (hs : m.stack = .kernel (.kill pid i) :: rest) (hi : ¬i < 3) (hk : Kills rest)
      (a : Act (h.freeStack pid) (.killed pid) h')
      (he : e = .cont) :
      Does m e h (({ m with k := m.k.killEnd pid }.setStack m.k.currpid (.kernel (.ret OK) :: rest)).setStack pid []) h'

theorem Sim.fields {k : Kernel QueueTab} {h : Kernel QLists} (S : Sim k h) :
    k.proctab = h.proctab ∧ k.currpid = h.currpid ∧ k.semtab = h.semtab ∧ k.ndefers = h.ndefers ∧ k.log = h.log ∧
      k.status = h.status ∧ k.prcount = h.prcount ∧ k.heap = h.heap := by
  obtain ⟨L, R, rfl⟩ := S
  exact ⟨rfl, rfl, rfl, rfl, rfl, rfl, rfl, rfl⟩

section Freed

variable {h g : Kernel QLists} {κ : Kind} {b : Bool} {x p : Int}

/-- An entry that is free after an update was free, if the update does not free it. -/
theorem free_of_update {f : Int → Procent} {e : Procent} (hx : (Function.update f p e x).prstate = .PR_FREE)
    (he : e.prstate = .PR_FREE → (f p).prstate = .PR_FREE) : (f x).prstate = .PR_FREE := by
  by_cases hxp : x = p
  · subst hxp
    rw [Function.update_self] at hx
    exact he hx
  · rwa [Function.update_of_ne hxp] at hx

theorem free_of_release (hx : (Function.update h.proctab p { h.proctab p with prstate := .PR_FREE } x).prstate = .PR_FREE) :
    (h.proctab x).prstate = .PR_FREE ∨ Kind.killed p = .killed x := by
  by_cases hxp : x = p
  · exact Or.inr (by rw [hxp])
  · rw [Function.update_of_ne hxp] at hx
    exact Or.inl hx

/-- Only `kill` frees a table entry. -/
theorem Change.free (c : Change h κ b g) (hx : (g.proctab x).prstate = .PR_FREE) :
    (h.proctab x).prstate = .PR_FREE ∨ κ = .killed x := by
  cases c with
  | aux | stop | deferStart | deferStop | resched | killing | stkfreed | tick | passed | signalled | releasedNone
  | flushedNone | semcreated | semreset | semdeleted => exact Or.inl hx
  | created | ready | resumed | suspend | suspendSelf | receive | woken | blocked | released | flushed =>
    exact Or.inl (free_of_update hx (fun e => by cases e))
  | sleep st d hst =>
    refine Or.inl (free_of_update hx (fun e => ?_))
    rcases hst with ⟨rfl, _⟩ | ⟨rfl, _⟩ <;> cases e
  | chprio | take | deposit => exact Or.inl (free_of_update hx (fun e => e))
  | depositRecv | depositRectim =>
    have h1 := free_of_update hx (fun e => by cases e)
    exact Or.inl (free_of_update h1 (fun e => e))
  | freed | freedReady | freedAsleep | freedWaiting | freedSelf => exact free_of_release hx

/-- Rescheduling frees no entry. -/
theorem free_of_resched (I : Inv0 g) (hx : (g.resched.proctab x).prstate = .PR_FREE) : (g.proctab x).prstate = .PR_FREE := by
  rcases I.resched_only.state x with e | ⟨_, e | e⟩
  · rwa [e] at hx
  · rw [e] at hx
    cases hx
  · rw [e] at hx
    cases hx

theorem Act.free (a : Act h κ g) (I : Inv h) (hx : (g.proctab x).prstate = .PR_FREE) :
    (h.proctab x).prstate = .PR_FREE ∨ κ = .killed x := by
  cases a with
  | plain c => exact c.free hx
  | sched c => exact c.free (free_of_resched (c.settled I).toInv0 hx)

/-- An entry that a sequence of steps frees is that of a killed process. -/
theorem Acts.free {ks : List Kind} (a : Acts ks h g) (I : Inv h) (hx : (g.proctab x).prstate = .PR_FREE) :
    (h.proctab x).prstate = .PR_FREE ∨ .killed x ∈ ks := by
  induction a with
  | refl => exact Or.inl hx
  | tail a hκ c ih =>
    rcases c.free (a.inv I) hx with hx | e
    · exact ih hx
    · exact Or.inr (e ▸ hκ)

end Freed

theorem Call.kinds_killed (c : Call) (p : Int) : Kind.killed p ∉ c.kinds := by
  cases c <;> simp [Call.kinds]

section Step

variable {C : Client} {m m' : Machine C} {e : Event C} {h h' : Kernel QLists}

theorem Steady.stackOk (St : Steady m h) : StackOk m.stack := St.frames _

theorem Steady.currpid_eq (St : Steady m h) : m.k.currpid = h.currpid := St.sim.fields.2.1

/-- Changing one stack keeps what holds of all stacks. -/
theorem frames_update {context : Int → List (Frame C.F)} (hc : ∀ p, StackOk (context p)) {p : Int} {l : List (Frame C.F)}
    (hl : StackOk l) (x : Int) : StackOk (Function.update context p l x) := by
  by_cases hx : x = p
  · subst hx
    rw [Function.update_self]
    exact hl
  · rw [Function.update_of_ne hx]
    exact hc x

/-- The current process is not free, so its stack may change. -/
theorem Steady.freed_update (St : Steady m h) {l : List (Frame C.F)} {h' : Kernel QLists}
    (hf : ∀ p, (h'.proctab p).prstate = .PR_FREE → (h.proctab p).prstate = .PR_FREE) (p : Int)
    (hp : (h'.proctab p).prstate = .PR_FREE) : Function.update m.context m.k.currpid l p = [] := by
  have hp' := hf p hp
  have hne : p ≠ m.k.currpid := by
    rintro rfl
    rw [St.currpid_eq, St.inv.running] at hp'
    cases hp'
  rw [Function.update_of_ne hne]
  exact St.freed p hp'

theorem stackOk_cons {f : Frame C.F} {l : List (Frame C.F)} (hl : Kills l) (hf : ∀ pid i, f ≠ .kernel (.kill pid i)) :
    StackOk (f :: l) :=
  ⟨fun pid i e => absurd e (hf pid i), hl⟩

/-- Every event that meets the conditions on system calls keeps what holds between events. -/
theorem step_does (St : Steady m h) (hs : m.step e = some m') (hlaw : m.Lawful e) :
    ∃ h', Steady m' h' ∧ Does m e h m' h' := by
  obtain ⟨hproc, hcurr, hsem, hndef, _⟩ := St.sim.fields
  have hk0 : m.k.ndefers = 0 := hndef.trans St.defers
  cases (Machine.step_effect hs).2 with
  | call c d l rest hi hl hr =>
    obtain ⟨h', S', a⟩ := call_refines St.sim St.inv St.defers (fun s => hsem ▸ St.counts s) (hlaw c hi)
    have hk := hr.kills (hl.kills St.stackOk)
    have hfree : ∀ p, (h'.proctab p).prstate = .PR_FREE → (h.proctab p).prstate = .PR_FREE := by
      intro p hp
      exact (a.free St.inv hp).resolve_right (c.kinds_killed p)
    refine ⟨h', ⟨S', a.inv St.inv, ?_, a.counts St.counts, frames_update St.frames ⟨?_, hk⟩, St.freed_update hfree⟩,
      Does.call c d l rest hi hr hk a⟩
    · rw [← S'.fields.2.2.2.1]
      exact call_ndefers _ hk0 c
    · intro pid i e
      obtain ⟨_, _, hb, h0⟩ := call_resume_kill (Frame.kernel.inj e)
      exact ⟨(isbadpid_eq_false.mp hb).1, h0⟩
  | inside d l rest hl hr hi =>
    have hk := hr.kills (hl.kills St.stackOk)
    exact ⟨h, ⟨St.sim, St.inv, St.defers, St.counts, frames_update St.frames hk.stackOk, St.freed_update (fun _ hp => hp)⟩,
      Does.inside d l rest hr hk hi⟩
  | stop d s l hx =>
    obtain ⟨L, R, rfl⟩ := St.sim
    exact ⟨_, ⟨⟨L, R, rfl⟩, St.inv.same rfl rfl rfl St.inv.defers St.inv.nextsem, St.defers, St.counts, St.frames, St.freed⟩,
      Does.stop d s l hx⟩
  | tick hu he =>
    obtain ⟨h₁, h', S', t, a, hw⟩ := tick_refines St.sim St.inv
    have t' := Act.plain t
    have I₁ := t'.inv St.inv
    refine ⟨h', ⟨S', a.inv I₁, ?_, a.counts (t'.counts St.counts), St.frames, ?_⟩, Does.tick he t a hw⟩
    · rw [← S'.fields.2.2.2.1]
      exact clockInterrupt_ndefers _ hk0
    · intro p hp
      have h1 := (a.free I₁ hp).resolve_right (by simp)
      exact St.freed p ((t'.free St.inv h1).resolve_right (by simp))
  | proceed r rest hstk hr he =>
    have hso := St.stackOk
    rw [hstk] at hso
    have hk : Kills rest := hso.2
    have hret : ∀ v, Steady (m.setStack m.k.currpid (.kernel (.ret v) :: rest)) h := by
      intro v
      exact ⟨St.sim, St.inv, St.defers, St.counts, frames_update St.frames (stackOk_cons hk (by simp)),
        St.freed_update (fun _ hp => hp)⟩
    have htake : ∀ v, Steady ({ m with k := m.k.takeMsg }.setStack m.k.currpid (.kernel (.ret v) :: rest)) h.takeMsg := by
      intro v
      have S' : Sim m.k.takeMsg h.takeMsg := by
        obtain ⟨L, R, rfl⟩ := St.sim
        exact ⟨L, R, rfl⟩
      refine ⟨S', St.inv.setEntry rfl rfl rfl ⟨rfl, rfl⟩ St.inv.currpid rfl rfl (St.inv.prio _), St.defers, St.counts,
        frames_update St.frames (stackOk_cons hk (by simp)), St.freed_update ?_⟩
      exact fun _ hp => free_of_update hp (fun e => e)
    cases r with
    | ret v => exact absurd rfl (hr v)
    | suspend p => exact ⟨h, hret _, Does.back _ _ rest hstk (Or.inl ⟨p, rfl⟩) hk he⟩
    | receive => exact ⟨h.takeMsg, htake _, Does.take _ rest hstk (Or.inl rfl) hk he⟩
    | recvtime =>
      by_cases hm : (m.k.proctab m.k.currpid).prhasmsg = true
      · have hgo : m.goOn .recvtime rest = { m with k := m.k.takeMsg }.setStack m.k.currpid
            (.kernel (.ret (m.k.proctab m.k.currpid).prmsg) :: rest) := by
          simp only [Machine.goOn, Kernel.proceed, hm, if_true, Machine.setStack]
        rw [hgo]
        refine ⟨h.takeMsg, htake _, Does.take _ rest hstk (Or.inr ⟨rfl, ?_⟩) hk he⟩
        rw [← hproc, ← hcurr]
        exact hm
      · have hgo : m.goOn .recvtime rest = m.setStack m.k.currpid (.kernel (.ret (uint32 TIMEOUT)) :: rest) := by
          simp only [Machine.goOn, Kernel.proceed, if_neg hm, Machine.setStack]
        rw [hgo]
        refine ⟨h, hret _, Does.back _ _ rest hstk (Or.inr ⟨rfl, rfl, ?_⟩) hk he⟩
        rw [← hproc, ← hcurr]
        exact eq_false_of_ne_true hm
    | kill pid i =>
      obtain ⟨hp, h0⟩ := hso.1 pid i rfl
      by_cases hi : i < 3
      · have hgo : m.goOn (.kill pid i) rest = m.setStack m.k.currpid (.kernel (.kill pid (i + 1)) :: rest) := by
          simp only [Machine.goOn, Kernel.proceed, hi, if_true, Machine.setStack]
        rw [hgo]
        refine ⟨h, ⟨St.sim, St.inv, St.defers, St.counts, frames_update St.frames ⟨?_, hk⟩, St.freed_update (fun _ hp => hp)⟩,
          Does.closed pid i rest hstk hi hk he⟩
        intro pid' i' e
        obtain ⟨rfl, _⟩ := Resume.kill.inj (Frame.kernel.inj e)
        exact ⟨hp, h0⟩
      · obtain ⟨h', S', a'⟩ := killEnd_act St.sim St.inv St.defers hp h0
        have a := Acts.killEnd a'
        have hgo : m.goOn (.kill pid i) rest = ({ m with k := m.k.killEnd pid }.setStack m.k.currpid
            (.kernel (.ret OK) :: rest)).setStack pid [] := by
          simp only [Machine.goOn, Kernel.proceed, if_neg hi, Machine.setStack]
        rw [hgo]
        refine ⟨h', ⟨S', a.inv St.inv, ?_, a.counts St.counts, ?_, ?_⟩, Does.killEnd pid i rest hstk hi hk a' he⟩
        · rw [← S'.fields.2.2.2.1]
          exact (killSwitch_ndefers _ _).trans hk0
        · exact frames_update (frames_update St.frames (stackOk_cons hk (by simp))) trivial
        · intro p hp'
          by_cases hpp : p = pid
          · subst hpp
            exact Function.update_self _ _ _
          · have hp'' : (h.proctab p).prstate = .PR_FREE := (a.free St.inv hp').resolve_right (by simpa using hpp)
            exact (Function.update_of_ne hpp _ _).trans (St.freed_update (fun _ h => h) p hp'')

/-- A call leaves its frame on the stack of its caller. -/
theorem Does.call_enters (D : Does m e h m' h') {c : Call} (hi : m.issued e = some c) :
    m'.k = (m.k.call c).1 ∧ ∃ rest, m'.context m.k.currpid = .kernel (m.k.call c).2 :: rest := by
  have hne : m.issued e ≠ none := by
    rw [hi]
    simp
  cases D with
  | call c' d l rest hi' hr hk a =>
    obtain rfl := Option.some.inj (hi'.symm.trans hi)
    exact ⟨rfl, rest, Machine.enterCall_self c' rest⟩
  | inside d l rest hr hk hi' => exact absurd hi' hne
  | stop d st l hx => exact absurd hx.issued hne
  | tick he t a => exact absurd (congrArg m.issued he) hne
  | back r v rest hs hr hk he =>
    refine absurd ((congrArg m.issued he).trans (Machine.issued_cont_kernel hs (fun v => ?_))) hne
    rcases hr with ⟨p, rfl⟩ | ⟨rfl, _⟩ <;> simp
  | take r rest hs hr hk he =>
    refine absurd ((congrArg m.issued he).trans (Machine.issued_cont_kernel hs (fun v => ?_))) hne
    rcases hr with rfl | ⟨rfl, _⟩ <;> simp
  | closed pid i rest hs hi' hk he =>
    exact absurd ((congrArg m.issued he).trans (Machine.issued_cont_kernel hs (by simp))) hne
  | killEnd pid i rest hs hi' hk a he =>
    exact absurd ((congrArg m.issued he).trans (Machine.issued_cont_kernel hs (by simp))) hne

end Step

/-! ## The first state -/

/-- All queues empty. -/
def QLists.none : QLists := { ids := fun _ => [], key := fun _ => 0 }

/-- The queue table that `sysinit` leaves represents queues without processes. -/
theorem sysinitQueues_rep : Rep sysinitQueues QLists.none := by
  have hN : NPROC = 100 := rfl
  have hS : NSEM = 100 := rfl
  have hhead : ∀ q, IsHead q → sysinitQueues q = { qkey := MAXKEY, qnext := queuetail q, qprev := EMPTY } ∧
      sysinitQueues (queuetail q) = { qkey := MINKEY, qnext := EMPTY, qprev := q } := by
    intro q hq
    obtain ⟨h1, h2, h3⟩ := hq
    simp only [NQENT, hN, hS] at h1 h2 h3
    constructor
    · simp only [sysinitQueues, newqueues, hN, hS]
      rw [if_neg (by omega), if_pos (by omega)]
    · simp only [sysinitQueues, newqueues, queuetail, hN, hS]
      rw [if_neg (by omega), if_neg (by omega), show q + 1 - 1 = q by omega]
  refine ⟨fun q hq => ?_, fun q hq => ?_, fun p hp => ?_, fun q p hm => ?_, fun _ _ => rfl, fun _ => List.nodup_nil,
    fun q q' p hm => ?_⟩
  · obtain ⟨h1, h2⟩ := hhead q hq
    simp [Table.Linked, QLists.none, h1, h2]
  · rw [(hhead q hq).2]
  · have hp2 := hp.2
    simp only [sysinitQueues, newqueues]
    rw [if_pos (Or.inl hp2)]
    rfl
  · cases hm
  · cases hm

variable {C : Client}

/-- The state `sysinit` leaves. -/
theorem boot_steady (data : C.Data) (minheap maxheap : Nat) :
    Steady (boot C data minheap maxheap) ((sysinit minheap maxheap).abst QLists.none) := by
  have hproc : ∀ p, ((sysinit minheap maxheap).proctab p).prstate = if p = NULLPROC then .PR_CURR else .PR_FREE := by
    intro p
    simp only [sysinit]
    split <;> rfl
  have hprio : ∀ p, ((sysinit minheap maxheap).proctab p).prprio = 0 := by
    intro p
    simp only [sysinit]
    split <;> rfl
  have hcount : ∀ s, ((sysinit minheap maxheap).semtab s).scount = 0 := fun s => rfl
  have hnull : IsPid NULLPROC := by decide
  refine ⟨⟨QLists.none, sysinitQueues_rep, rfl⟩, ⟨⟨fun p q => ?_, fun _ => List.nodup_nil, fun p hp => ?_, fun p hp => ?_,
    hnull, Or.inl (hproc NULLPROC), fun p => ?_, fun p hp => ?_, Int.le_refl 0, ⟨Int.le_refl 0, NSEM_pos⟩⟩, hproc NULLPROC⟩,
    rfl, fun s => ?_, fun _ => trivial, fun _ _ => rfl⟩
  · have hhome : homeOf ((sysinit minheap maxheap).proctab p) = none := by
      have hs := hproc p
      by_cases h0 : p = NULLPROC
      · rw [if_pos h0] at hs
        rw [homeOf, hs]
      · rw [if_neg h0] at hs
        rw [homeOf, hs]
    show p ∈ [] ↔ homeOf ((sysinit minheap maxheap).proctab p) = some q
    rw [hhome]
    simp
  · have hne : p ≠ NULLPROC := fun e => hp (e ▸ by decide)
    exact (hproc p).trans (if_neg hne)
  · by_contra hne
    have hf := (hproc p).trans (if_neg hne)
    rw [show ((sysinit minheap maxheap).proctab p).prstate = .PR_CURR from hp] at hf
    cases hf
  · show -32768 ≤ ((sysinit minheap maxheap).proctab p).prprio ∧ _
    have := hprio p
    exact ⟨by omega, by show ((sysinit minheap maxheap).proctab p).prprio ≤ _; omega⟩
  · have hw := (hproc p).symm.trans hp
    split at hw <;> cases hw
  · show -2147483648 ≤ ((sysinit minheap maxheap).semtab s).scount
    rw [hcount]
    decide

/-- What holds between events holds in every state that is reached. -/
theorem reach_steady {ok : Machine C → Event C → Prop} {m₀ m : Machine C} {h₀ : Kernel QLists}
    (hlaw : ∀ m e, ok m e → m.Lawful e) (h0 : Steady m₀ h₀) (r : Machine.Reach ok m₀ m) :
    ∃ h, Steady m h := by
  induction r with
  | refl => exact ⟨h₀, h0⟩
  | step e _ hok hs ih =>
    obtain ⟨h, St⟩ := ih
    obtain ⟨h', St', _⟩ := step_does St hs (hlaw _ e hok)
    exact ⟨h', St'⟩

/-- An event keeps a property of the kernel that every step keeps. -/
theorem Does.keeps {m m' : Machine C} {e : Event C} {h h' : Kernel QLists} {P : Bool → Kernel QLists → Prop}
    (hP : Stable (fun _ => True) P) (htake : ∀ h, Inv h → P false h → P false h.takeMsg) (I : Inv h) (d : Does m e h m' h')
    (hp : P false h) : P false h' := by
  cases d with
  | call c d l rest hi hr hk a => exact hP.acts I (fun _ _ => trivial) a hp
  | inside | back | closed => exact hp
  | stop d s => exact hP.act I trivial (Act.plain (Change.stop s)) hp
  | tick he t a =>
    have t' := Act.plain t
    exact hP.acts (t'.inv I) (fun _ _ => trivial) a (hP.act I trivial t' hp)
  | take => exact htake h I hp
  | killEnd pid i rest hs hi hk a => exact hP.acts I (fun _ _ => trivial) (Acts.killEnd a) hp

/-- A property of the kernel that every step keeps holds in every state that is reached. -/
theorem reach_keeps {ok : Machine C → Event C → Prop} {m₀ m : Machine C} {h₀ : Kernel QLists}
    {P : Bool → Kernel QLists → Prop} (hlaw : ∀ m e, ok m e → m.Lawful e) (hP : Stable (fun _ => True) P)
    (htake : ∀ h, Inv h → P false h → P false h.takeMsg) (h0 : Steady m₀ h₀) (hp0 : P false h₀)
    (r : Machine.Reach ok m₀ m) : ∃ h, Steady m h ∧ P false h := by
  induction r with
  | refl => exact ⟨h₀, h0, hp0⟩
  | step e _ hok hs ih =>
    obtain ⟨h, St, hp⟩ := ih
    obtain ⟨h', St', d⟩ := step_does St hs (hlaw _ e hok)
    exact ⟨h', St', d.keeps hP htake St.inv hp⟩

end Xinu
