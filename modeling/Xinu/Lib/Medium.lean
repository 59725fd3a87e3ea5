import Xinu.Lib.Forcing

/-!
# Parties that share a medium

What a party sends stays in the medium: it may be taken at any time, by any party, any number of times, or never. An invariant of
each party, which may refer to what has been sent, and a property of each frame, which may refer to what was sent before it, hold in
every state of the whole when every event of a party keeps them (`Exchange.Reach.invariant`).
-/

namespace Xinu

/-- How a party moves, and what passes between it and the medium. -/
structure Exchange (P E F : Type) where
  step : P → E → Option P
  /-- What the party sends in an event. -/
  sends : P → E → Option F
  /-- What the party takes from the medium in the event comes of these frames. -/
  Takes : List F → P → E → Prop

/-- The parties, and what has been sent, the newest first. -/
structure Medium (ι P F : Type) where
  party : ι → P
  sent : List F

/-- Each frame is accounted for by those that were sent before it. -/
def Grounded {F : Type} (φ : F → List F → Prop) : List F → Prop
  | [] => True
  | f :: fs => φ f fs ∧ Grounded φ fs

theorem Grounded.of_append {F : Type} {φ : F → List F → Prop} {l₁ l₂ : List F} {f : F} (h : Grounded φ (l₁ ++ f :: l₂)) :
    φ f l₂ := by
  induction l₁ with
  | nil => exact h.1
  | cons g l₁ ih => exact ih h.2

/-- Every frame is accounted for by some of those that have been sent. -/
theorem Grounded.of_mem {F : Type} {φ : F → List F → Prop} {fs : List F} {f : F} (h : Grounded φ fs) (hf : f ∈ fs) :
    ∃ l₁ l₂, fs = l₁ ++ f :: l₂ ∧ φ f l₂ := by
  obtain ⟨l₁, l₂, rfl⟩ := List.append_of_mem hf
  exact ⟨l₁, l₂, rfl, h.of_append⟩

namespace Exchange

variable {ι P E F : Type} [DecidableEq ι] (X : Exchange P E F)

/-- An event of a party. -/
def move (n : Medium ι P F) (i : ι) (e : E) : Option (Medium ι P F) :=
  (X.step (n.party i) e).map fun p =>
    { party := Function.update n.party i p, sent := (X.sends (n.party i) e).toList ++ n.sent }

/-- The states that the whole reaches by events that `ok` allows. -/
inductive Reach (ok : ι → P → E → Prop) (n : Medium ι P F) : Medium ι P F → Prop where
  | refl : Reach ok n n
  | step {n₁ n₂ : Medium ι P F} (i : ι) (e : E) : Reach ok n n₁ → ok i (n₁.party i) e → X.Takes n₁.sent (n₁.party i) e →
      X.move n₁ i e = some n₂ → Reach ok n n₂

/-- What every event of a party keeps. -/
structure Keeps (ok : ι → P → E → Prop) (I : ι → P → List F → Prop) (φ : F → List F → Prop) : Prop where
  mono : ∀ i p f fs, I i p fs → I i p (f :: fs)
  step : ∀ i p e p' fs, I i p fs → Grounded φ fs → ok i p e → X.Takes fs p e → X.step p e = some p' → I i p' fs
  sends : ∀ i p e p' f fs, I i p fs → Grounded φ fs → ok i p e → X.Takes fs p e → X.step p e = some p' →
    X.sends p e = some f → φ f fs

variable {X} {ok : ι → P → E → Prop} {I : ι → P → List F → Prop} {φ : F → List F → Prop} {n n' : Medium ι P F}

theorem Keeps.move (K : X.Keeps ok I φ) {i : ι} {e : E} (hI : ∀ j, I j (n.party j) n.sent) (hφ : Grounded φ n.sent)
    (hok : ok i (n.party i) e) (ht : X.Takes n.sent (n.party i) e) (hm : X.move n i e = some n') :
    (∀ j, I j (n'.party j) n'.sent) ∧ Grounded φ n'.sent := by
  obtain ⟨p, hs, rfl⟩ := Option.map_eq_some_iff.mp hm
  have hparty : ∀ j, I j (Function.update n.party i p j) n.sent := by
    intro j
    by_cases h : j = i
    · subst h
      rw [Function.update_self]
      exact K.step j _ e p n.sent (hI j) hφ hok ht hs
    · rw [Function.update_of_ne h]
      exact hI j
  cases hf : X.sends (n.party i) e with
  | none => exact ⟨hparty, hφ⟩
  | some f => exact ⟨fun j => K.mono j _ f _ (hparty j), K.sends i _ e p f n.sent (hI i) hφ hok ht hs hf, hφ⟩

/-- The invariant of the whole. -/
theorem Reach.invariant (r : X.Reach ok n n') (K : X.Keeps ok I φ) (hI : ∀ j, I j (n.party j) n.sent) (hφ : Grounded φ n.sent) :
    (∀ j, I j (n'.party j) n'.sent) ∧ Grounded φ n'.sent := by
  induction r with
  | refl => exact ⟨hI, hφ⟩
  | step i e _ hok ht hm ih => exact K.move ih.1 ih.2 hok ht hm

theorem Reach.trans {n₁ n₂ : Medium ι P F} (r : X.Reach ok n n₁) (r' : X.Reach ok n₁ n₂) : X.Reach ok n n₂ := by
  induction r' with
  | refl => exact r
  | step i e _ hok ht hm ih => exact ih.step i e hok ht hm

/-! ## Evaluation -/

/-- The events of a script are allowed one after the other, and `f` holds in the end. What an item of the script does may depend on
what has been sent and on the party; the party that moves is evaluated between the events. -/
def evaluates {S : Type} (X : Exchange P E F) (G : Forcing P) (ok : ι → P → E → Prop) [∀ i p e, Decidable (ok i p e)]
    (script : S → List F → P → Option E) (f : Medium ι P F → Bool) : Medium ι P F → List (ι × S) → Bool
  | n, [] => f n
  | n, (i, s) :: items =>
    match script s n.sent (n.party i) with
    | none => false
    | some e =>
      decide (ok i (n.party i) e) && match X.step (n.party i) e with
        | none => false
        | some p => G.app p fun p => X.evaluates G ok script f
            ⟨fun j => if j = i then p else n.party j, (X.sends (n.party i) e).toList ++ n.sent⟩ items

/-- A script that evaluates is a run. -/
theorem reach_of_evaluates {S : Type} (X : Exchange P E F) (G : Forcing P) (ok : ι → P → E → Prop)
    [∀ i p e, Decidable (ok i p e)] {script : S → List F → P → Option E}
    (ht : ∀ s fs p e, script s fs p = some e → X.Takes fs p e)
    (n : Medium ι P F) (items : List (ι × S)) (f : Medium ι P F → Bool) (h : X.evaluates G ok script f n items = true) :
    ∃ n', X.Reach ok n n' ∧ f n' = true := by
  induction items generalizing n with
  | nil => exact ⟨n, .refl, h⟩
  | cons x items ih =>
    obtain ⟨i, s⟩ := x
    rw [evaluates] at h
    split at h
    · cases h
    · next e he =>
      rw [Bool.and_eq_true, decide_eq_true_eq] at h
      obtain ⟨hok, hrest⟩ := h
      split at hrest
      · cases hrest
      · next p hs =>
        rw [G.app_eq] at hrest
        obtain ⟨n', r, hf⟩ := ih _ hrest
        have hm : X.move n i e = some ⟨fun j => if j = i then p else n.party j, (X.sends (n.party i) e).toList ++ n.sent⟩ := by
          rw [move, hs]
          refine congrArg some (Medium.mk.injEq .. ▸ ⟨funext fun j => ?_, rfl⟩)
          rw [Function.update_apply]
        exact ⟨n', (Reach.refl.step i e hok (ht s _ _ e he) hm).trans r, hf⟩

end Exchange

end Xinu
