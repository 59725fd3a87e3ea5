import Xinu.Kernel.Calls

/-!
# The machine

Processes run on the kernel. The stack of a process that is not in user code is a list of frames: system calls it is inside
(`Frame.kernel`), and routines of a library built on the system calls, which either wait for one to return (`Frame.client`) or
have called a procedure of the user (`Frame.callback`). The library is a parameter, `Client`. What user code does is arbitrary:
an event is a system call or a library routine called by the current process, the return of a procedure the library called, a
clock interrupt, or the current process going on inside the kernel.
-/

namespace Xinu

inductive Frame (F : Type) where
  | kernel (r : Resume)
  | client (f : F)
  | callback (f : F)
deriving Repr, DecidableEq

/-- What a routine of a library does at the end of a segment. -/
inductive Next (F : Type) where
  /-- Return to the caller. -/
  | ret (v : Int)
  /-- Make a system call, and go on at `f` with the value it returns. -/
  | call (c : Call) (f : F)
  /-- Call a procedure of the user, and go on at `f`. -/
  | callback (f : F)
  /-- Stop the processor. -/
  | stop (s : Status)

/-- A library: its data, its routines, and the points where a routine goes on. The process that runs is an argument. -/
structure Client where
  Data : Type
  Op : Type
  F : Type
  enter : Data → Int → Op → Data × Next F
  resume : Data → Int → F → Int → Data × Next F

/-- No library. -/
def Client.none : Client where
  Data := Unit
  Op := Empty
  F := Empty
  enter _ _ o := o.elim
  resume _ _ f _ := f.elim

structure Machine (C : Client) where
  k : Kernel QueueTab
  context : Int → List (Frame C.F)
  data : C.Data

inductive Event (C : Client) where
  /-- User code makes a system call. -/
  | call (c : Call)
  /-- User code calls a routine of the library. -/
  | op (o : C.Op)
  /-- A procedure that the library called returns. -/
  | ret
  /-- A clock interrupt. -/
  | tick
  /-- The current process goes on inside the kernel. -/
  | cont

/-- User code runs when the stack is empty, in a procedure the library called, and in the close routine of a device. -/
def userMode {F : Type} : List (Frame F) → Bool
  | [] => true
  | .kernel (.kill _ i) :: _ => decide (i < 3)
  | .kernel _ :: _ => false
  | .client _ :: _ => false
  | .callback _ :: _ => true

namespace Machine

variable {C : Client} (m : Machine C)

/-- The stack of the current process. -/
def stack : List (Frame C.F) := m.context m.k.currpid

def setStack (p : Int) (l : List (Frame C.F)) : Machine C := { m with context := Function.update m.context p l }

/-- The current process makes a system call; the frame of the call goes on top of the stack `rest`. -/
def enterCall (c : Call) (rest : List (Frame C.F)) : Machine C :=
  { m with
    k := (m.k.call c).1
    context := Function.update m.context m.k.currpid (.kernel (m.k.call c).2 :: rest) }

/-- The current process, in a routine of the library with the stack `rest` below it, reaches the end of a segment. -/
def follow (rest : List (Frame C.F)) : C.Data × Next C.F → Machine C
  | (d, .ret _) => { m with data := d }.setStack m.k.currpid rest
  | (d, .call c f) => { m with data := d }.enterCall c (.client f :: rest)
  | (d, .callback f) => { m with data := d }.setStack m.k.currpid (.callback f :: rest)
  | (d, .stop s) => { m with data := d, k := { m.k with status := s } }

/-- The current process goes on in the system call on top of its stack. A process that `kill` removed has no stack. -/
def goOn (r : Resume) (rest : List (Frame C.F)) : Machine C :=
  let m' : Machine C :=
    { m with
      k := (m.k.proceed r).1
      context := Function.update m.context m.k.currpid (.kernel (m.k.proceed r).2 :: rest) }
  match r with
  | .kill pid i => if i < 3 then m' else m'.setStack pid []
  | _ => m'

/-- One event; `none` when it cannot happen in this state. -/
def step : Event C → Option (Machine C)
  | .call c => if m.k.status = .running ∧ userMode m.stack then some (m.enterCall c m.stack) else none
  | .op o =>
    if m.k.status = .running ∧ userMode m.stack then some (m.follow m.stack (C.enter m.data m.k.currpid o)) else none
  | .ret =>
    match m.k.status, m.stack with
    | .running, .callback f :: rest => some (m.follow rest (C.resume m.data m.k.currpid f 0))
    | _, _ => none
  | .tick => if m.k.status = .running ∧ userMode m.stack then some { m with k := m.k.clockInterrupt } else none
  | .cont =>
    match m.k.status, m.stack with
    | .running, .kernel (.ret v) :: .client f :: rest => some (m.follow rest (C.resume m.data m.k.currpid f v))
    | .running, .kernel (.ret _) :: rest => some (m.setStack m.k.currpid rest)
    | .running, .kernel r :: rest => some (m.goOn r rest)
    | _, _ => none

/-- The system call made by the segment that an event runs. -/
def issued : Event C → Option Call
  | .call c => some c
  | .op o => nextCall (C.enter m.data m.k.currpid o)
  | .ret =>
    match m.stack with
    | .callback f :: _ => nextCall (C.resume m.data m.k.currpid f 0)
    | _ => none
  | .tick => none
  | .cont =>
    match m.stack with
    | .kernel (.ret v) :: .client f :: _ => nextCall (C.resume m.data m.k.currpid f v)
    | _ => none
where
  nextCall : C.Data × Next C.F → Option Call
    | (_, .call c _) => some c
    | _ => none

/-- The system call on top of the stack of `p` returns `v`. -/
def Returns {C : Client} (m : Machine C) (p v : Int) : Prop := ∃ rest, m.context p = .kernel (.ret v) :: rest

/-- The states a machine reaches by events that `ok` allows. -/
inductive Reach (ok : Machine C → Event C → Prop) (m : Machine C) : Machine C → Prop where
  | refl : Reach ok m m
  | step {m₁ m₂ : Machine C} (e : Event C) : Reach ok m m₁ → ok m₁ e → m₁.step e = some m₂ → Reach ok m m₂

theorem Reach.mono {ok ok' : Machine C → Event C → Prop} {m m' : Machine C} (h : ∀ m e, ok m e → ok' m e)
    (r : Reach ok m m') : Reach ok' m m' := by
  induction r with
  | refl => exact Reach.refl
  | step e _ hok hs ih => exact ih.step e (h _ _ hok) hs

theorem Reach.trans {ok : Machine C → Event C → Prop} {m m₁ m₂ : Machine C} (r : Reach ok m m₁) (r' : Reach ok m₁ m₂) :
    Reach ok m m₂ := by
  induction r' with
  | refl => exact r
  | step e _ hok hs ih => exact ih.step e hok hs

end Machine

namespace Machine

variable {C : Client} {m m' : Machine C} {e : Event C}

theorem setStack_self (p : Int) (l : List (Frame C.F)) : (m.setStack p l).context p = l := Function.update_self _ _ _

theorem setStack_of_ne {p x : Int} (l : List (Frame C.F)) (hx : x ≠ p) : (m.setStack p l).context x = m.context x :=
  Function.update_of_ne hx _ _

theorem enterCall_self (c : Call) (rest : List (Frame C.F)) :
    (m.enterCall c rest).context m.k.currpid = .kernel (m.k.call c).2 :: rest := Function.update_self _ _ _

theorem enterCall_of_ne {x : Int} (c : Call) (rest : List (Frame C.F)) (hx : x ≠ m.k.currpid) :
    (m.enterCall c rest).context x = m.context x := Function.update_of_ne hx _ _

/-- `l` is what is left of the current process's stack when the segment that runs in it ends: user code runs, a procedure
of the user returns to the library, or a system call returns to the library or to user code. -/
inductive Base (m : Machine C) : List (Frame C.F) → Prop where
  | user (h : userMode m.stack = true) : Base m m.stack
  | callback {f : C.F} {l : List (Frame C.F)} (h : m.stack = .callback f :: l) : Base m l
  | client {v : Int} {f : C.F} {l : List (Frame C.F)} (h : m.stack = .kernel (.ret v) :: .client f :: l) : Base m l
  | ret {v : Int} {l : List (Frame C.F)} (h : m.stack = .kernel (.ret v) :: l) : Base m l

/-- A segment of the library runs in the event, above the stack `l`, and ends with `x`. -/
inductive Follows (m : Machine C) : Event C → List (Frame C.F) → C.Data × Next C.F → Prop where
  | enter (o : C.Op) (h : userMode m.stack = true) : Follows m (.op o) m.stack (C.enter m.data m.k.currpid o)
  | callback {f : C.F} {l : List (Frame C.F)} (h : m.stack = .callback f :: l) :
      Follows m .ret l (C.resume m.data m.k.currpid f 0)
  | client {v : Int} {f : C.F} {l : List (Frame C.F)} (h : m.stack = .kernel (.ret v) :: .client f :: l) :
      Follows m .cont l (C.resume m.data m.k.currpid f v)

theorem Follows.base {l : List (Frame C.F)} {x : C.Data × Next C.F} (hx : Follows m e l x) : Base m l := by
  cases hx with
  | enter o h => exact Base.user h
  | callback h => exact Base.callback h
  | client h => exact Base.client h

theorem Follows.issued {l : List (Frame C.F)} {x : C.Data × Next C.F} (hx : Follows m e l x) :
    m.issued e = issued.nextCall x := by
  cases hx with
  | enter o h => rfl
  | callback h => simp only [Machine.issued, h]
  | client h => simp only [Machine.issued, h]

/-- A system call made by user code, or by a segment of the library, which goes on behind it. -/
inductive Calls (m : Machine C) (e : Event C) (c : Call) : C.Data → List (Frame C.F) → List (Frame C.F) → Prop where
  | user (he : e = .call c) : Calls m e c m.data m.stack m.stack
  | client {d : C.Data} {f : C.F} {l : List (Frame C.F)} (hx : Follows m e l (d, .call c f)) :
      Calls m e c d l (.client f :: l)

/-- The end of a segment that makes no system call. -/
inductive Ends (m : Machine C) (e : Event C) : C.Data → List (Frame C.F) → List (Frame C.F) → Prop where
  /-- A system call returns to user code. -/
  | user {v : Int} {l : List (Frame C.F)} (he : e = .cont) (hs : m.stack = .kernel (.ret v) :: l)
      (hne : ∀ f l', l = .client f :: l' → False) : Ends m e m.data l l
  /-- The library returns to user code. -/
  | ret {d : C.Data} {v : Int} {l : List (Frame C.F)} (hx : Follows m e l (d, .ret v)) : Ends m e d l l
  /-- The library calls a procedure of the user. -/
  | callback {d : C.Data} {f : C.F} {l : List (Frame C.F)} (hx : Follows m e l (d, .callback f)) :
      Ends m e d l (.callback f :: l)

/-- What an event does: a system call, a segment of the library that ends without one, a stop of the processor, a clock
interrupt, or a later segment of a system call. -/
inductive Effect (m : Machine C) (e : Event C) : Machine C → Prop where
  | call (c : Call) (d : C.Data) (l rest : List (Frame C.F)) (hi : m.issued e = some c) (hl : Base m l)
      (hr : Calls m e c d l rest) : Effect m e ({ m with data := d }.enterCall c rest)
  | inside (d : C.Data) (l rest : List (Frame C.F)) (hl : Base m l) (hr : Ends m e d l rest) (hi : m.issued e = none) :
      Effect m e ({ m with data := d }.setStack m.k.currpid rest)
  | stop (d : C.Data) (s : Status) (l : List (Frame C.F)) (hx : Follows m e l (d, .stop s)) :
      Effect m e { m with data := d, k := { m.k with status := s } }
  | tick (hu : userMode m.stack = true) (he : e = .tick) : Effect m e { m with k := m.k.clockInterrupt }
  | proceed (r : Resume) (rest : List (Frame C.F)) (hs : m.stack = .kernel r :: rest) (hr : ∀ v, r ≠ .ret v)
      (he : e = .cont) : Effect m e (m.goOn r rest)

theorem Follows.effect {l : List (Frame C.F)} {x : C.Data × Next C.F} (hx : Follows m e l x) :
    Effect m e (m.follow l x) := by
  rcases x with ⟨d, v | ⟨c, f⟩ | f | s⟩
  · exact Effect.inside d l l hx.base (Ends.ret hx) hx.issued
  · exact Effect.call c d l _ hx.issued hx.base (Calls.client hx)
  · exact Effect.inside d l _ hx.base (Ends.callback hx) hx.issued
  · exact Effect.stop d s l hx

/-- A segment that begins when a process goes on inside the kernel begins with the return of a system call. -/
theorem Follows.cont_stack {l : List (Frame C.F)} {x : C.Data × Next C.F} (hx : Follows m e l x) (he : e = .cont) :
    ∃ v l', m.stack = .kernel (.ret v) :: l' := by
  cases hx with
  | enter => cases he
  | callback => cases he
  | client h => exact ⟨_, _, h⟩

theorem Ends.cont_stack {d : C.Data} {l rest : List (Frame C.F)} (hr : Ends m e d l rest) (he : e = .cont) :
    ∃ v l', m.stack = .kernel (.ret v) :: l' := by
  cases hr with
  | user _ hs => exact ⟨_, _, hs⟩
  | ret hx => exact hx.cont_stack he
  | callback hx => exact hx.cont_stack he

/-- No system call is made when one returns to user code, or goes on. -/
theorem issued_cont_user {v : Int} {rest : List (Frame C.F)} (hs : m.stack = .kernel (.ret v) :: rest)
    (hne : ∀ f l, rest = .client f :: l → False) : m.issued .cont = none := by
  simp only [Machine.issued, hs]
  split
  · next heq =>
    obtain ⟨_, e⟩ := List.cons.inj heq
    exact absurd e (hne _ _)
  · rfl

theorem issued_cont_kernel {r : Resume} {rest : List (Frame C.F)} (hs : m.stack = .kernel r :: rest)
    (hr : ∀ v, r ≠ .ret v) : m.issued .cont = none := by
  simp only [Machine.issued, hs]
  split
  · next heq => exact absurd (Frame.kernel.inj (List.cons.inj heq).1) (hr _)
  · rfl

/-- Every event has one of the effects, and happens only while the processor runs. -/
theorem step_effect (h : m.step e = some m') : m.k.status = .running ∧ Effect m e m' := by
  cases e with
  | call c =>
    simp only [step] at h
    split at h
    · next hu =>
      obtain rfl := Option.some.inj h
      exact ⟨hu.1, Effect.call c m.data m.stack m.stack rfl (Base.user hu.2) (Calls.user rfl)⟩
    · cases h
  | op o =>
    simp only [step] at h
    split at h
    · next hu =>
      obtain rfl := Option.some.inj h
      exact ⟨hu.1, (Follows.enter o hu.2).effect⟩
    · cases h
  | ret =>
    simp only [step] at h
    split at h
    · next f rest hrun hs =>
      obtain rfl := Option.some.inj h
      exact ⟨hrun, (Follows.callback hs).effect⟩
    · cases h
  | tick =>
    simp only [step] at h
    split at h
    · next hu =>
      obtain rfl := Option.some.inj h
      exact ⟨hu.1, Effect.tick hu.2 rfl⟩
    · cases h
  | cont =>
    simp only [step] at h
    split at h
    · next v f rest hrun hs =>
      obtain rfl := Option.some.inj h
      exact ⟨hrun, (Follows.client hs).effect⟩
    · next v rest hne hrun hs =>
      obtain rfl := Option.some.inj h
      exact ⟨hrun, Effect.inside m.data rest rest (Base.ret hs) (Ends.user rfl hs hne) (issued_cont_user hs hne)⟩
    · next r rest _ hr hrun hs =>
      obtain rfl := Option.some.inj h
      exact ⟨hrun, Effect.proceed r rest hs hr rfl⟩
    · cases h

end Machine

/-- The machine `sysinit` leaves, with the library's initial data. -/
def boot (C : Client) (data : C.Data) (minheap maxheap : Nat) : Machine C :=
  { k := sysinit minheap maxheap, context := fun _ => [], data := data }

end Xinu
