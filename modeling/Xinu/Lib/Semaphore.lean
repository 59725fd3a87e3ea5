import Mathlib.Data.List.Basic
import Mathlib.Data.List.Nodup

/-!
# Counting semaphores

A counting semaphore with a queue of waiting processes, as a machine on its history. Every unit of the count has a name
(`Token`), so that the machine says which unit a wait used. `after` replays a history; it fails on one that no semaphore has:
a wait that goes through without a unit, a process that blocks although there is one, or a release that is not of the process
that has waited longest. `Balanced` says that the units used and the units left are, in order, the units there have been.
-/

namespace Semaphore

/-- A unit: the `i`-th of the count that was assigned, or that of the `j`-th signal since. -/
inductive Token where
  | given (i : Nat)
  | signal (j : Nat)
deriving Repr, DecidableEq

/-- All units, for the assigned count and the number of signals since. -/
def tokens (c n : Nat) : List Token := (List.range c).map .given ++ (List.range n).map .signal

/-- The units are all different. -/
theorem tokens_nodup (c n : Nat) : (tokens c n).Nodup := by
  refine List.Nodup.append (List.nodup_range.map (fun _ _ e => Token.given.inj e))
    (List.nodup_range.map (fun _ _ e => Token.signal.inj e)) ?_
  intro t h1 h2
  obtain ⟨i, _, rfl⟩ := List.mem_map.mp h1
  obtain ⟨j, _, e⟩ := List.mem_map.mp h2
  cases e

theorem tokens_succ (c n : Nat) : tokens c (n + 1) = tokens c n ++ [.signal n] := by
  simp [tokens, List.range_succ]

theorem length_tokens (c n : Nat) : (tokens c n).length = c + n := by
  simp [tokens]

/-- What happens to a semaphore. -/
inductive Ev (P : Type) where
  | create (c : Nat)
  | reset (c : Nat)
  | delete
  /-- A wait goes through. -/
  | pass (p : P)
  /-- A wait blocks. -/
  | block (p : P)
  | signal
  /-- A signal lets the waiting process go on. -/
  | release (p : P)
  /-- A waiting process goes on without a unit. -/
  | flush (p : P)
  /-- A waiting process is taken away. -/
  | cancel (p : P)
deriving Repr, DecidableEq

/-- `given` and `signals` say what units there have been since the count was last assigned, `free` which are left, and
`grants` which process used which, in the order of use. `waiting` has the process that has waited longest first. -/
structure State (P : Type) where
  used : Bool
  given : Nat
  signals : Nat
  free : List Token
  grants : List (P × Token)
  waiting : List P

variable {P : Type} [DecidableEq P]

namespace State

/-- No semaphore. -/
def init : State P := ⟨false, 0, 0, [], [], []⟩

/-- The count is assigned. -/
def assign (σ : State P) (c : Nat) : State P :=
  { σ with used := true, given := c, signals := 0, free := tokens c 0, grants := [] }

/-- A process uses the first unit. -/
def grant (σ : State P) (p : P) : Option (State P) :=
  match σ.free with
  | [] => none
  | t :: free => some { σ with free := free, grants := σ.grants ++ [(p, t)] }

/-- The process that has waited longest leaves the queue. -/
def leave (σ : State P) (p : P) : Option (State P) :=
  match σ.waiting with
  | [] => none
  | q :: waiting => if q = p then some { σ with waiting := waiting } else none

/-- Every step keeps the account of the units. -/
def step (σ : State P) : Ev P → Option (State P)
  | .create c => if σ.used = false ∧ σ.waiting = [] then some (σ.assign c) else none
  | .reset c => if σ.used = true ∧ σ.waiting = [] then some (σ.assign c) else none
  | .delete => if σ.used = true ∧ σ.waiting = [] then some { σ with used := false } else none
  | .pass p => if σ.used = true ∧ σ.waiting = [] then σ.grant p else none
  | .block p => if σ.used = true ∧ σ.free = [] ∧ p ∉ σ.waiting then some { σ with waiting := σ.waiting ++ [p] } else none
  | .signal =>
    if σ.used = true then some { σ with signals := σ.signals + 1, free := σ.free ++ [.signal σ.signals] } else none
  | .release p => (σ.leave p).bind (fun σ => σ.grant p)
  | .flush p => σ.leave p
  | .cancel p => if p ∈ σ.waiting then some { σ with waiting := σ.waiting.erase p } else none

end State

/-- The state after a history, most recent event first. -/
def after : List (Ev P) → Option (State P)
  | [] => some .init
  | e :: l => (after l).bind (fun σ => σ.step e)

theorem after_suffix {l₁ l₂ : List (Ev P)} {σ : State P} (h : after (l₂ ++ l₁) = some σ) : ∃ σ', after l₁ = some σ' := by
  induction l₂ generalizing σ with
  | nil => exact ⟨σ, h⟩
  | cons e l₂ ih =>
    obtain ⟨σ', h', _⟩ := Option.bind_eq_some_iff.mp (show (after (l₂ ++ l₁)).bind _ = some σ from h)
    exact ih h'

/-- The waits that have got a unit since the count was last assigned, in order. -/
def granted : List (Ev P) → List P
  | [] => []
  | .create _ :: _ | .reset _ :: _ => []
  | .pass p :: l | .release p :: l => granted l ++ [p]
  | _ :: l => granted l

/-- The units used and the units left are the units there have been, and nobody waits for a semaphore twice. -/
structure Balanced (l : List (Ev P)) (σ : State P) : Prop where
  units : σ.grants.map Prod.snd ++ σ.free = tokens σ.given σ.signals
  waits : σ.grants.map Prod.fst = granted l
  nodup : σ.waiting.Nodup

namespace Balanced

variable {l : List (Ev P)} {σ σ' : State P} {p : P}

/-- Leaving the queue moves no unit. -/
theorem of_leave (B : Balanced l σ) (h : σ.leave p = some σ') : Balanced l σ' := by
  unfold State.leave at h
  split at h
  · cases h
  · next q rest hw =>
    split at h
    · obtain rfl := Option.some.inj h
      exact ⟨B.units, B.waits, (List.nodup_cons.mp (hw ▸ B.nodup)).2⟩
    · cases h

omit [DecidableEq P] in
/-- A unit goes from the free ones to who is granted it. -/
theorem of_grant (B : Balanced l σ) (h : σ.grant p = some σ') {e : Ev P} (he : granted (e :: l) = granted l ++ [p]) :
    Balanced (e :: l) σ' := by
  unfold State.grant at h
  split at h
  · cases h
  · next t free hf =>
    obtain rfl := Option.some.inj h
    refine ⟨?_, ?_, B.nodup⟩
    · rw [← B.units, hf]
      simp
    · rw [he, ← B.waits]
      simp

theorem step (B : Balanced l σ) {e : Ev P} (h : σ.step e = some σ') : Balanced (e :: l) σ' := by
  cases e with
  | create c | reset c =>
    simp only [State.step] at h
    split at h
    · obtain rfl := Option.some.inj h
      exact ⟨by simp [State.assign], rfl, B.nodup⟩
    · cases h
  | delete =>
    simp only [State.step] at h
    split at h
    · obtain rfl := Option.some.inj h
      exact ⟨B.units, B.waits, B.nodup⟩
    · cases h
  | pass p =>
    simp only [State.step] at h
    split at h
    · exact B.of_grant h rfl
    · cases h
  | block p =>
    simp only [State.step] at h
    split at h
    · next hc =>
      obtain rfl := Option.some.inj h
      refine ⟨B.units, B.waits, List.nodup_append.mpr ⟨B.nodup, List.nodup_singleton p, ?_⟩⟩
      intro a ha b hb e
      rw [List.mem_singleton.mp hb] at e
      exact hc.2.2 (e ▸ ha)
    · cases h
  | signal =>
    simp only [State.step] at h
    split at h
    · obtain rfl := Option.some.inj h
      refine ⟨?_, B.waits, B.nodup⟩
      rw [tokens_succ, ← B.units, List.append_assoc]
    · cases h
  | release p =>
    obtain ⟨σ₁, h1, h2⟩ := Option.bind_eq_some_iff.mp h
    exact (B.of_leave h1).of_grant h2 rfl
  | flush p =>
    have B' := B.of_leave (show σ.leave p = some σ' from h)
    exact ⟨B'.units, B'.waits, B'.nodup⟩
  | cancel p =>
    simp only [State.step] at h
    split at h
    · obtain rfl := Option.some.inj h
      exact ⟨B.units, B.waits, B.nodup.erase p⟩
    · cases h

omit [DecidableEq P] in
/-- No unit is used twice. -/
theorem tokens_nodup (B : Balanced l σ) : (σ.grants.map Prod.snd).Nodup := by
  have := Semaphore.tokens_nodup σ.given σ.signals
  rw [← B.units] at this
  exact this.of_append_left

end Balanced

/-- Every history is balanced. -/
theorem after_balanced {l : List (Ev P)} {σ : State P} (h : after l = some σ) : Balanced l σ := by
  induction l generalizing σ with
  | nil =>
    obtain rfl := Option.some.inj h
    exact ⟨rfl, rfl, List.nodup_nil⟩
  | cons e l ih =>
    obtain ⟨σ₁, h1, h2⟩ := Option.bind_eq_some_iff.mp (show (after l).bind _ = some σ from h)
    exact (ih h1).step h2

/-- A process that has begun to wait waits until it is released, flushed or taken away. -/
theorem State.step_waiting {σ σ' : State P} {e : Ev P} {p : P} (h : σ.step e = some σ') (hp : p ∈ σ.waiting) :
    p ∈ σ'.waiting ∨ e = .release p ∨ e = .flush p ∨ e = .cancel p := by
  have hgrant : ∀ {σ₁ : State P} {q : P}, σ₁.grant q = some σ' → σ'.waiting = σ₁.waiting := by
    intro σ₁ q hg
    unfold State.grant at hg
    split at hg
    · cases hg
    · obtain rfl := Option.some.inj hg
      rfl
  have hleave : ∀ {σ₁ : State P} {q : P}, σ.leave q = some σ₁ → p ∈ σ₁.waiting ∨ q = p := by
    intro σ₁ q hl
    unfold State.leave at hl
    split at hl
    · cases hl
    · next x rest hw =>
      split at hl
      · next hx =>
        obtain rfl := Option.some.inj hl
        rw [hw] at hp
        rcases List.mem_cons.mp hp with e | hm
        · exact Or.inr (hx.symm.trans e.symm)
        · exact Or.inl hm
      · cases hl
  cases e with
  | create c | reset c | delete | signal =>
    simp only [State.step] at h
    split at h
    · obtain rfl := Option.some.inj h
      exact Or.inl hp
    · cases h
  | pass q =>
    simp only [State.step] at h
    split at h
    · rw [hgrant h]
      exact Or.inl hp
    · cases h
  | block q =>
    simp only [State.step] at h
    split at h
    · obtain rfl := Option.some.inj h
      exact Or.inl (List.mem_append_left _ hp)
    · cases h
  | release q =>
    obtain ⟨σ₁, h1, h2⟩ := Option.bind_eq_some_iff.mp h
    rw [hgrant h2]
    exact (hleave h1).imp id (fun e => Or.inl (by rw [e]))
  | flush q => exact (hleave h).imp id (fun e => Or.inr (Or.inl (by rw [e])))
  | cancel q =>
    simp only [State.step] at h
    split at h
    · obtain rfl := Option.some.inj h
      by_cases hq : q = p
      · exact Or.inr (Or.inr (Or.inr (by rw [hq])))
      · exact Or.inl ((List.mem_erase_of_ne (Ne.symm hq)).mpr hp)
    · cases h

/-- Who waits goes on waiting until it is released, flushed or taken away. -/
theorem after_waiting {l₁ l₂ : List (Ev P)} {σ σ' : State P} {p : P} (h : after l₁ = some σ)
    (h' : after (l₂ ++ l₁) = some σ') (hp : p ∈ σ.waiting) :
    p ∈ σ'.waiting ∨ .release p ∈ l₂ ∨ .flush p ∈ l₂ ∨ .cancel p ∈ l₂ := by
  induction l₂ generalizing σ' with
  | nil =>
    obtain rfl := Option.some.inj (h.symm.trans h')
    exact Or.inl hp
  | cons e l₂ ih =>
    obtain ⟨σ₁, h1, h2⟩ := Option.bind_eq_some_iff.mp (show (after (l₂ ++ l₁)).bind _ = some σ' from h')
    rcases ih h1 with hm | hm
    · rcases State.step_waiting h2 hm with hm | rfl | rfl | rfl
      · exact Or.inl hm
      · exact Or.inr (Or.inl List.mem_cons_self)
      · exact Or.inr (Or.inr (Or.inl List.mem_cons_self))
      · exact Or.inr (Or.inr (Or.inr List.mem_cons_self))
    · exact Or.inr (hm.imp (List.mem_cons_of_mem _) (Or.imp (List.mem_cons_of_mem _) (List.mem_cons_of_mem _)))

/-- Whoever is released has waited longest. -/
theorem release_head {l₁ l₂ : List (Ev P)} {σ : State P} {p : P} (h : after (l₂ ++ .release p :: l₁) = some σ) :
    ∃ σ₁, after l₁ = some σ₁ ∧ σ₁.waiting.head? = some p := by
  obtain ⟨σ', h'⟩ := after_suffix h
  obtain ⟨σ₁, h1, h2⟩ := Option.bind_eq_some_iff.mp (show (after l₁).bind _ = some σ' from h')
  obtain ⟨σ₂, h3, _⟩ := Option.bind_eq_some_iff.mp h2
  refine ⟨σ₁, h1, ?_⟩
  unfold State.leave at h3
  split at h3
  · cases h3
  · next q rest hw =>
    split at h3
    · next hq => rw [hw, ← hq]; rfl
    · cases h3

end Semaphore
