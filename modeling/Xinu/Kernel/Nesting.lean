import Xinu.Kernel.Libraries
import Xinu.Kernel.Defers

/-!
# Libraries that do not call the user

Where a library calls neither a procedure of the user nor `kill`, user code never runs above one of its routines: a process is in
one routine at most, and in none when it calls one (`Leaf.step`). A property of the routines and of the processes that they belong
to is then kept when the new routine has it and those of other processes keep it (`step_owned`).
-/

namespace Xinu

section Leaf

variable {F : Type}

/-- No routine of the library is in progress, or one, which waits for a system call other than `kill`. -/
def Leaf (l : List (Frame F)) : Prop :=
  routines l = [] ∨ ∃ r f l', l = .kernel r :: .client f :: l' ∧ routines l' = [] ∧ ∀ pid i, r ≠ .kill pid i

theorem Leaf.nil : Leaf ([] : List (Frame F)) := Or.inl rfl

/-- User code runs in no routine. -/
theorem Leaf.user {l : List (Frame F)} (h : Leaf l) (hu : userMode l = true) : routines l = [] := by
  rcases h with h | ⟨r, f, l', rfl, _, hr⟩
  · exact h
  · cases r with
    | kill pid i => exact absurd rfl (hr pid i)
    | _ => cases hu

/-- Below a system call that returns to user code. -/
theorem Leaf.below {r : Resume} {l : List (Frame F)} (h : Leaf (.kernel r :: l)) (hne : ∀ f l', l ≠ .client f :: l') :
    routines l = [] := by
  rcases h with h | ⟨r', f, l', e, _, _⟩
  · exact h
  · exact absurd (List.cons.inj e).2 (hne f l')

end Leaf

namespace Machine

variable {C : Client} {m m' : Machine C} {e : Event C}

/-- Nothing of the library is in progress below a segment of it. -/
theorem Follows.leaf {l : List (Frame C.F)} {x : C.Data × Next C.F} (hx : Follows m e l x) (h : Leaf m.stack) :
    routines l = [] := by
  cases hx with
  | enter o hu => exact h.user hu
  | callback hs =>
    rw [hs] at h
    rcases h with h | ⟨r, f, l', hl, _, _⟩
    · cases h
    · cases (List.cons.inj hl).1
  | client hs =>
    rw [hs] at h
    rcases h with h | ⟨r, f, l', hl, hl', _⟩
    · cases h
    · obtain ⟨_, e2⟩ := List.cons.inj hl
      obtain ⟨_, rfl⟩ := List.cons.inj e2
      exact hl'

/-- The library asks neither for a procedure of the user nor for the end of a process. -/
structure Inner (m : Machine C) (e : Event C) : Prop where
  callback : ∀ d f, m.segment e ≠ some (d, .callback f)
  kill : ∀ d pid f, m.segment e ≠ some (d, .call (.kill pid) f)

/-- A later segment of a system call other than `kill` is none of `kill`. -/
theorem proceed_not_kill {r : Resume} (hr : ∀ pid i, r ≠ .kill pid i) (pid : Int) (i : Nat) :
    (m.k.proceed r).2 ≠ .kill pid i := by
  cases r with
  | kill pid i => exact absurd rfl (hr pid i)
  | recvtime =>
    simp only [Kernel.proceed]
    split <;> nofun
  | _ => nofun

/-- Every event keeps the shape of the stacks. -/
theorem leaf_step (hs : m.step e = some m') (h : ∀ p, Leaf (m.context p)) (hin : m.Inner e) : ∀ p, Leaf (m'.context p) := by
  have hcur : Leaf m.stack := h m.k.currpid
  have hupd : ∀ {l : List (Frame C.F)}, Leaf l → ∀ p, Leaf (Function.update m.context m.k.currpid l p) := by
    intro l hl p
    by_cases hp : p = m.k.currpid
    · rw [hp, Function.update_self]
      exact hl
    · rw [Function.update_of_ne hp]
      exact h p
  cases (step_effect hs).2 with
  | call c d l rest hi hl hr =>
    refine hupd ?_
    cases hr with
    | user he =>
      subst he
      simp only [step] at hs
      split at hs
      · next hu => exact Or.inl (hcur.user hu.2)
      · cases hs
    | client hx =>
      refine Or.inr ⟨_, _, _, rfl, hx.leaf hcur, fun pid i hk => ?_⟩
      obtain ⟨rfl, _⟩ := call_resume_kill hk
      exact hin.kill _ _ _ hx.segment
  | inside d l rest hl hr hi =>
    refine hupd ?_
    cases hr with
    | user he hstk hne =>
      rw [hstk] at hcur
      exact Or.inl (hcur.below fun f l' e => hne f l' e)
    | ret hx => exact Or.inl (hx.leaf hcur)
    | callback hx => exact absurd hx.segment (hin.callback _ _)
  | stop d s l hx => exact h
  | tick hu he => exact h
  | proceed r rest hstk hr he =>
    have hnew : Leaf (.kernel (m.k.proceed r).2 :: rest) := by
      rw [hstk] at hcur
      rcases hcur with hcur | ⟨r', f, l', e', hl', hr'⟩
      · exact Or.inl hcur
      · obtain ⟨e1, rfl⟩ := List.cons.inj e'
        obtain rfl := Frame.kernel.inj e1
        exact Or.inr ⟨_, _, _, rfl, hl', proceed_not_kill hr'⟩
    intro p
    cases r with
    | kill pid i =>
      by_cases h3 : i < 3
      · rw [show m.goOn (.kill pid i) rest = _ from if_pos h3]
        exact hupd hnew p
      · rw [show m.goOn (.kill pid i) rest = _ from if_neg h3]
        by_cases hp : p = pid
        · rw [hp, setStack_self]
          exact Leaf.nil
        · rw [setStack_of_ne _ hp]
          exact hupd hnew p
    | _ => exact hupd hnew p

/-- A property of the routines in progress, of the processes that they belong to and of the data. -/
theorem step_owned {R : C.Data → Int → C.F → Prop} (hs : m.step e = some m') (h : Leaf m.stack)
    (hR : ∀ p, ∀ f ∈ routines (m.context p), R m.data p f)
    (hnew : ∀ x f, m.segment e = some x → x.2.routine = some f → R x.1 m.k.currpid f)
    (hkeep : ∀ x, m.segment e = some x → ∀ p, p ≠ m.k.currpid → ∀ f ∈ routines (m.context p), R x.1 p f)
    (hrun : ∀ d st, m.segment e ≠ some (d, .stop st)) : ∀ p, ∀ f ∈ routines (m'.context p), R m'.data p f := by
  intro p f hm
  cases step_segment hs with
  | quiet hd hf =>
    rw [hd]
    exact hR p f (hf p ▸ hm)
  | killed pid hd hf =>
    rw [hf p] at hm
    rw [hd]
    split at hm
    · cases hm
    · exact hR p f hm
  | library l x hx hd hf =>
    rw [hf p, hx.leaf h, List.append_nil] at hm
    rw [hd]
    split at hm
    · next hp =>
      rw [hp]
      exact hnew x f hx.segment (Option.mem_toList.mp hm)
    · next hp => exact hkeep x hx.segment p hp f hm
  | stopped l d st hx => exact absurd hx.segment (hrun d st)

end Machine

end Xinu
