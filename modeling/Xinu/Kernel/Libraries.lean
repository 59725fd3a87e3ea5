import Xinu.Kernel.Machine

/-!
# Libraries

What an event does to the data of a library and to the routines of it that are in progress (`step_segment`). A system call
leaves both alone, but for the end of `kill`, which ends the routines of its victim; a segment of the library changes the data
and the stack of the current process.
-/

namespace Xinu

/-- The routine of the library that a frame belongs to. -/
def Frame.routine {F : Type} : Frame F → Option F
  | .kernel _ => none
  | .client f => some f
  | .callback f => some f

/-- The routines of the library in progress on a stack, the innermost first. -/
def routines {F : Type} (l : List (Frame F)) : List F := l.filterMap Frame.routine

/-- The point at which a routine goes on. -/
def Next.routine {F : Type} : Next F → Option F
  | .call _ f => some f
  | .callback f => some f
  | .ret _ | .stop _ => none

namespace Machine

variable {C : Client} {m m' : Machine C} {e : Event C}

theorem routines_kernel (r : Resume) (l : List (Frame C.F)) : routines (.kernel r :: l) = routines l := rfl

theorem routines_client (f : C.F) (l : List (Frame C.F)) : routines (.client f :: l) = f :: routines l := rfl

/-- The point at which a routine of the library goes on in an event, and the value that is returned there. -/
def resumed (m : Machine C) : Event C → Option (C.F × Int)
  | .ret =>
    match m.stack with
    | .callback f :: _ => some (f, 0)
    | _ => none
  | .cont =>
    match m.stack with
    | .kernel (.ret v) :: .client f :: _ => some (f, v)
    | _ => none
  | _ => none

/-- What the segment of the library that runs in an event does. -/
def segment (m : Machine C) : Event C → Option (C.Data × Next C.F)
  | .op o => some (C.enter m.data m.k.currpid o)
  | e => (m.resumed e).map (fun x => C.resume m.data m.k.currpid x.1 x.2)

theorem Follows.segment {l : List (Frame C.F)} {x : C.Data × Next C.F} (hx : Follows m e l x) : m.segment e = some x := by
  cases hx with
  | enter o h => rfl
  | callback h => simp only [Machine.segment, resumed, h, Option.map_some]
  | client h => simp only [Machine.segment, resumed, h, Option.map_some]

/-- A segment of the library begins a routine or goes on in one. -/
theorem Follows.enter_or_resume {l : List (Frame C.F)} {x : C.Data × Next C.F} (hx : Follows m e l x) :
    (∃ o, e = .op o ∧ x = C.enter m.data m.k.currpid o) ∨
      ∃ f v, m.resumed e = some (f, v) ∧ x = C.resume m.data m.k.currpid f v := by
  cases hx with
  | enter o h => exact Or.inl ⟨o, rfl, rfl⟩
  | callback h => exact Or.inr ⟨_, _, by simp only [resumed, h], rfl⟩
  | client h => exact Or.inr ⟨_, _, by simp only [resumed, h], rfl⟩

/-- The process that the end of `kill` removes. -/
def removes (m : Machine C) : Event C → Option Int
  | .cont =>
    match m.stack with
    | .kernel (.kill pid i) :: _ => if i < 3 then none else some pid
    | _ => none
  | _ => none

/-- Only the current process's stack changes, and that of a process that `kill` removes. -/
theorem step_context (h : m.step e = some m') {p : Int} (hp : p ≠ m.k.currpid) :
    m'.context p = m.context p ∨ m.removes e = some p ∧ m'.context p = [] := by
  cases (step_effect h).2 with
  | call c d l rest hi hl hr => exact Or.inl (enterCall_of_ne c rest hp)
  | inside d l rest hl hr hi => exact Or.inl (setStack_of_ne rest hp)
  | stop d s l hx => exact Or.inl rfl
  | tick hu he => exact Or.inl rfl
  | proceed r rest hs hr he =>
    have hsame : ∀ f : Frame C.F, Function.update m.context m.k.currpid (f :: rest) p = m.context p :=
      fun f => Function.update_of_ne hp _ _
    cases r with
    | kill pid i =>
      by_cases hi : i < 3
      · simp only [goOn, if_pos hi]
        exact Or.inl (hsame _)
      · simp only [goOn, if_neg hi]
        by_cases hpp : p = pid
        · subst hpp
          exact Or.inr ⟨by simp only [he, removes, hs, if_neg hi], setStack_self _ _⟩
        · rw [setStack_of_ne _ hpp]
          exact Or.inl (hsame _)
    | _ => exact Or.inl (hsame _)

/-- What an event does to the library. -/
inductive Segment (m : Machine C) (e : Event C) (m' : Machine C) : Prop where
  | quiet (hd : m'.data = m.data) (hf : ∀ p, routines (m'.context p) = routines (m.context p)) (hn : m.segment e = none)
  | killed (pid : Int) (hd : m'.data = m.data)
      (hf : ∀ p, routines (m'.context p) = if p = pid then [] else routines (m.context p)) (hn : m.segment e = none)
      (hr : m.removes e = some pid)
  | library (l : List (Frame C.F)) (x : C.Data × Next C.F) (hx : Follows m e l x) (hd : m'.data = x.1)
      (hf : ∀ p, routines (m'.context p) =
        if p = m.k.currpid then x.2.routine.toList ++ routines l else routines (m.context p))
  | stopped (l : List (Frame C.F)) (d : C.Data) (s : Status) (hx : Follows m e l (d, .stop s)) (hd : m'.data = d)
      (hf : ∀ p, routines (m'.context p) = routines (m.context p))

/-- The stack of the current process changes. -/
theorem routines_update {context : Int → List (Frame C.F)} {p x : Int} {l : List (Frame C.F)} :
    routines (Function.update context p l x) = if x = p then routines l else routines (context x) := by
  by_cases hx : x = p
  · rw [if_pos hx, hx, Function.update_self]
  · rw [if_neg hx, Function.update_of_ne hx]

theorem routines_same {context : Int → List (Frame C.F)} {p : Int} {l : List (Frame C.F)}
    (hl : routines l = routines (context p)) (x : Int) :
    routines (Function.update context p l x) = routines (context x) := by
  rw [routines_update]
  split
  · next hx => rw [hl, hx]
  · rfl

theorem segment_none (h : m.resumed e = none) (he : ∀ o, e ≠ .op o) : m.segment e = none := by
  cases e with
  | op o => exact absurd rfl (he o)
  | _ => simp only [segment, h, Option.map_none]

theorem resumed_none (hn : m.segment e = none) : m.resumed e = none := by
  cases e with
  | op o => cases hn
  | _ => simpa [segment] using hn

theorem segment_resumed {f : C.F} {v : Int} (h : m.resumed e = some (f, v)) :
    m.segment e = some (C.resume m.data m.k.currpid f v) := by
  cases e with
  | op o => cases h
  | _ => simp only [segment, h, Option.map_some]

/-- A routine that goes on is in progress. -/
theorem resumed_mem {f : C.F} {v : Int} (h : m.resumed e = some (f, v)) : f ∈ routines (m.context m.k.currpid) := by
  have hctx : m.context m.k.currpid = m.stack := rfl
  rw [hctx]
  cases e with
  | ret =>
    simp only [resumed] at h
    split at h
    · next g l hstk =>
      obtain ⟨rfl, _⟩ := Prod.mk.inj (Option.some.inj h)
      rw [hstk]
      exact List.mem_cons_self
    · cases h
  | cont =>
    simp only [resumed] at h
    split at h
    · next w g l hstk =>
      obtain ⟨rfl, _⟩ := Prod.mk.inj (Option.some.inj h)
      rw [hstk]
      exact List.mem_cons_self
    · cases h
  | _ => cases h

/-- A segment that stops the processor. -/
theorem step_stop (hs : m.step e = some m') {d : C.Data} {s : Status} (hx : m.segment e = some (d, .stop s)) :
    m' = { m with data := d, k := { m.k with status := s } } := by
  cases e with
  | op o =>
    simp only [step] at hs
    split at hs
    · have hx' : C.enter m.data m.k.currpid o = (d, .stop s) := Option.some.inj hx
      rw [hx'] at hs
      exact (Option.some.inj hs).symm
    · cases hs
  | call c | tick => cases hx
  | ret =>
    simp only [step] at hs
    split at hs
    · next f l hrun hstk =>
      simp only [segment, resumed, hstk, Option.map_some] at hx
      rw [Option.some.inj hx] at hs
      exact (Option.some.inj hs).symm
    · cases hs
  | cont =>
    simp only [segment, resumed] at hx
    split at hx
    · next v f l hstk =>
      have hx' : C.resume m.data m.k.currpid f v = (d, .stop s) := Option.some.inj hx
      simp only [step, hstk] at hs
      split at hs
      · next hstk' =>
        simp only [List.cons.injEq, Frame.kernel.injEq, Resume.ret.injEq, Frame.client.injEq] at hstk'
        obtain ⟨rfl, rfl, rfl⟩ := hstk'
        rw [hx'] at hs
        exact (Option.some.inj hs).symm
      · next hne _ hstk' =>
        simp only [List.cons.injEq, Frame.kernel.injEq, Resume.ret.injEq] at hstk'
        exact (hne _ _ hstk'.2.symm).elim
      · next hne _ hstk' =>
        simp only [List.cons.injEq, Frame.kernel.injEq] at hstk'
        exact (hne _ hstk'.1.symm).elim
      · cases hs
    · cases hx

theorem goOn_segment {r : Resume} {rest : List (Frame C.F)} (hs : m.stack = .kernel r :: rest) (hr : ∀ v, r ≠ .ret v)
    (he : e = .cont) : Segment m e (m.goOn r rest) := by
  have hl : ∀ r', routines (.kernel r' :: rest) = routines (m.context m.k.currpid) := by
    intro r'
    rw [show m.context m.k.currpid = _ from hs]
    rfl
  have hn : m.segment e = none := by
    subst he
    refine segment_none ?_ (fun o => nofun)
    simp only [resumed, hs]
    split
    · next heq => exact absurd (Frame.kernel.inj (List.cons.inj heq).1) (hr _)
    · rfl
  cases r with
  | kill pid i =>
    by_cases hi : i < 3
    · rw [show m.goOn (.kill pid i) rest = _ from if_pos hi]
      exact Segment.quiet rfl (routines_same (hl _)) hn
    · rw [show m.goOn (.kill pid i) rest = _ from if_neg hi]
      refine Segment.killed pid rfl (fun p => ?_) hn ?_
      · refine routines_update.trans ?_
        split
        · rfl
        · exact routines_same (hl _) p
      · simp only [he, removes, hs, if_neg hi]
  | ret | suspend | receive | recvtime => exact Segment.quiet rfl (routines_same (hl _)) hn

/-- Every event is one of these. -/
theorem step_segment (hs : m.step e = some m') : Segment m e m' := by
  cases (step_effect hs).2 with
  | call c d l rest hi hl hr =>
    cases hr with
    | user he => exact Segment.quiet rfl (routines_same rfl) (by rw [he]; rfl)
    | client hx => exact Segment.library l _ hx rfl (fun p => routines_update)
  | inside d l rest hl hr =>
    cases hr with
    | user he hstk hne =>
      refine Segment.quiet rfl (routines_same ?_) ?_
      · rw [show m.context m.k.currpid = _ from hstk]
        rfl
      · subst he
        refine segment_none ?_ (fun o => nofun)
        simp only [resumed, hstk]
        split
        · next heq => exact absurd (List.cons.inj heq).2 (hne _ _)
        · rfl
    | ret hx => exact Segment.library l _ hx rfl (fun p => routines_update)
    | callback hx => exact Segment.library l _ hx rfl (fun p => routines_update)
  | stop d s l hx => exact Segment.stopped l d s hx rfl (fun _ => rfl)
  | tick hu he => exact Segment.quiet rfl (fun _ => rfl) (by rw [he]; rfl)
  | proceed r rest hstk hr he => exact goOn_segment hstk hr he

/-- A routine that goes on is at the top of the stack. -/
theorem Follows.routines_stack {l : List (Frame C.F)} {x : C.Data × Next C.F} (hx : Follows m e l x) :
    routines (m.context m.k.currpid) = ((m.resumed e).map Prod.fst).toList ++ routines l := by
  cases hx with
  | enter o h => rfl
  | callback h | client h =>
    rw [show m.context m.k.currpid = _ from h]
    simp only [resumed, h, Option.map_some, Option.toList_some]
    rfl

/-- The event in which a segment of the library runs. -/
theorem Follows.step {l : List (Frame C.F)} {x : C.Data × Next C.F} (hx : Follows m e l x) (hs : m.step e = some m') :
    m' = m.follow l x := by
  have hrun := (step_effect hs).1
  cases hx with
  | enter o h =>
    simp only [Machine.step, hrun, h, and_self, if_true] at hs
    exact (Option.some.inj hs).symm
  | callback h | client h =>
    simp only [Machine.step, hrun, h] at hs
    exact (Option.some.inj hs).symm

/-- A library waits for a system call that has returned: it goes on in the next event. -/
theorem step_resumes (hs : m.step e = some m') {v : Int} {f : C.F} {l : List (Frame C.F)}
    (hstk : m.stack = .kernel (.ret v) :: .client f :: l) : m.resumed e = some (f, v) := by
  cases e with
  | cont => simp only [resumed, hstk]
  | call | op | ret | tick => simp [Machine.step, hstk, userMode] at hs

/-- The data of the library after an event. -/
theorem segment_data (hs : m.step e = some m') : m'.data = ((m.segment e).map Prod.fst).getD m.data := by
  cases step_segment hs with
  | quiet hd hf hn | killed pid hd hf hn => rw [hn, hd]; rfl
  | library l x hx hd => rw [hx.segment, hd]; rfl
  | stopped l d s hx hd => rw [hx.segment, hd]; rfl

/-- The routines below the one that runs. -/
theorem Follows.routines_sub {l : List (Frame C.F)} {x : C.Data × Next C.F} (hx : Follows m e l x) :
    ∀ f ∈ routines l, f ∈ routines (m.context m.k.currpid) := by
  intro f hf
  cases hx with
  | enter => exact hf
  | callback h | client h =>
    rw [show m.context m.k.currpid = _ from h]
    exact List.mem_cons_of_mem _ hf

/-- The routine of the library on top of the stack goes on. -/
theorem cont_client {f : C.F} {v : Int} {l : List (Frame C.F)} (hstk : m.stack = .kernel (.ret v) :: .client f :: l) :
    m.resumed .cont = some (f, v) ∧ m.segment .cont = some (C.resume m.data m.k.currpid f v) ∧
      (m.k.status = .running → m.step .cont = some (m.follow l (C.resume m.data m.k.currpid f v))) := by
  refine ⟨?_, ?_, fun hrun => ?_⟩
  · simp only [resumed, hstk]
  · simp only [segment, resumed, hstk, Option.map_some]
  · simp only [step, hrun, hstk]

/-- A segment that ends with a system call which returns at once. -/
theorem segment_call {d : C.Data} {c : Call} {f : C.F} {v : Int} (hs : m.step e = some m')
    (hx : m.segment e = some (d, .call c f)) (hv : (m.k.call c).2 = .ret v) (hcur : (m.k.call c).1.currpid = m.k.currpid) :
    m'.data = d ∧ m'.k = (m.k.call c).1 ∧ ∃ l, m'.stack = .kernel (.ret v) :: .client f :: l := by
  cases (step_effect hs).2 with
  | call c' d' l rest hi hl hr =>
    cases hr with
    | user he =>
      subst he
      cases hx
    | @client _ f' _ hf =>
      obtain ⟨rfl, hn⟩ := Prod.mk.inj (Option.some.inj (hf.segment.symm.trans hx))
      obtain ⟨rfl, rfl⟩ := Next.call.inj hn
      refine ⟨rfl, rfl, l, ?_⟩
      have hstk := enterCall_self (m := { m with data := d' }) c' (.client f' :: l)
      rw [stack, show (enterCall { m with data := d' } c' (.client f' :: l)).k.currpid = m.k.currpid from hcur]
      exact hstk.trans (by rw [show (Kernel.call m.k c').2 = .ret v from hv])
  | inside d' l rest hl hr hi =>
    cases hr with
    | user he hstk hne =>
      subst he
      simp only [segment, resumed, hstk] at hx
      split at hx
      · next heq => exact (hne _ _ (List.cons.inj heq).2).elim
      · cases hx
    | ret hf | callback hf =>
      rw [hf.segment] at hx
      cases hx
  | stop d' st l hf =>
    rw [hf.segment] at hx
    cases hx
  | tick hu he =>
    subst he
    cases hx
  | proceed r rest hstk hr he =>
    subst he
    simp only [segment, resumed, hstk] at hx
    split at hx
    · next heq => exact absurd (Frame.kernel.inj (List.cons.inj heq).1) (hr _)
    · cases hx

/-- A property of the points at which routines go on. -/
theorem step_points {R : C.F → Prop} (hs : m.step e = some m') (h : ∀ p, ∀ f ∈ routines (m.context p), R f)
    (hR : ∀ x f, m.segment e = some x → x.2.routine = some f → R f) : ∀ p, ∀ f ∈ routines (m'.context p), R f := by
  intro p f hm
  cases step_segment hs with
  | quiet hd hf => exact h p f (hf p ▸ hm)
  | killed pid hd hf =>
    rw [hf p] at hm
    split at hm
    · cases hm
    · exact h p f hm
  | library l x hx hd hf =>
    rw [hf p] at hm
    split at hm
    · rcases List.mem_append.mp hm with hm | hm
      · exact hR x f hx.segment (Option.mem_toList.mp hm)
      · exact h _ f (hx.routines_sub f hm)
    · exact h p f hm
  | stopped l d s hx hd hf => exact h p f (hf p ▸ hm)

/-- A property of the library's data that every segment keeps holds in every state that is reached. -/
theorem reach_data {ok : Machine C → Event C → Prop} {P : C.Data → Prop} {m₀ : Machine C}
    (hP : ∀ (m : Machine C) (e : Event C) (l : List (Frame C.F)) (x : C.Data × Next C.F), ok m e → Follows m e l x →
      P m.data → P x.1)
    (r : Reach ok m₀ m) (h0 : P m₀.data) : P m.data := by
  induction r with
  | refl => exact h0
  | step e _ hok hs ih =>
    cases step_segment hs with
    | quiet hd => exact hd ▸ ih
    | killed pid hd => exact hd ▸ ih
    | library l x hx hd => exact hd ▸ hP _ _ _ _ hok hx ih
    | stopped l d s hx hd => exact hd ▸ hP _ _ _ _ hok hx ih

end Machine

end Xinu
