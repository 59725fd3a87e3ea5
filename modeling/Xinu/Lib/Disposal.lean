import Mathlib.Logic.Function.Iterate
import Mathlib.Tactic.Common

/-!
# Disposing of a resource

A sequential program on a state, with the events it causes; a program that does not return has no value. A resource is used while
it is held, then disposed of by one event, which leaves it where it should be; no event mentions it afterwards, and only the other
programs change the state. What is said of a program is said of the runs in which it returns, up to the event by which the other
programs take the resource away, if they do so while it is held.
-/

namespace Xinu

/-- A program: what it returns, if it does, the state it leaves and the events it causes. -/
def Prog (σ ε α : Type) : Type := σ → Option α × σ × List ε

namespace Prog

variable {σ ε α β : Type}

protected def pure (a : α) : Prog σ ε α := fun s => (some a, s, [])

protected def bind (x : Prog σ ε α) (f : α → Prog σ ε β) : Prog σ ε β := fun s =>
  match x s with
  | (none, s', t) => (none, s', t)
  | (some a, s', t) => ((f a s').1, (f a s').2.1, t ++ (f a s').2.2)

instance : Monad (Prog σ ε) where
  pure := Prog.pure
  bind := Prog.bind

/-- Read the state. -/
def get : Prog σ ε σ := fun s => (some s, s, [])

/-- Change the state. -/
def modify (f : σ → σ) : Prog σ ε Unit := fun s => (some (), f s, [])

/-- Cause an event. -/
def emit (e : ε) : Prog σ ε Unit := fun s => (some (), s, [e])

/-- Change the state, with an event that says what it was and what it is. -/
def change (f : σ → σ) (e : σ → σ → ε) : Prog σ ε Unit := fun s => (some (), f s, [e s (f s)])

/-- Never return. -/
def stuck : Prog σ ε α := fun s => (none, s, [])

/-- In every run from a state of the first condition that returns, the second holds of the value, the state and the events. -/
def Triple (P : σ → Prop) (x : Prog σ ε α) (Q : α → σ → List ε → Prop) : Prop :=
  ∀ s, P s → ∀ a s' t, x s = (some a, s', t) → Q a s' t

/-- A run of two programs that returns. -/
theorem bind_eq_some {x : Prog σ ε α} {f : α → Prog σ ε β} {s s' : σ} {b : β} {t : List ε} (h : (x >>= f) s = (some b, s', t)) :
    ∃ a s₁ t₁ t₂, x s = (some a, s₁, t₁) ∧ f a s₁ = (some b, s', t₂) ∧ t = t₁ ++ t₂ := by
  have h' : Prog.bind x f s = (some b, s', t) := h
  unfold Prog.bind at h'
  split at h'
  · exact absurd (congrArg Prod.fst h') (by simp)
  · rename_i a s₁ t₁ hx
    have h1 := congrArg Prod.fst h'
    have h2 := congrArg (fun r => r.2.1) h'
    have h3 := congrArg (fun r => r.2.2) h'
    exact ⟨a, s₁, t₁, (f a s₁).2.2, hx, Prod.ext h1 (Prod.ext h2 rfl), h3.symm⟩

/-- One program after another. -/
theorem Triple.bind {P : σ → Prop} {x : Prog σ ε α} {f : α → Prog σ ε β} {Q : α → σ → List ε → Prop}
    {R : β → σ → List ε → Prop} (hx : Triple P x Q)
    (hf : ∀ a t, Triple (fun s => Q a s t) (f a) fun b s t' => R b s (t ++ t')) : Triple P (x >>= f) R := by
  intro s hs b s' t h
  obtain ⟨a, s₁, t₁, t₂, h1, h2, rfl⟩ := bind_eq_some h
  exact hf a t₁ s₁ (hx s hs a s₁ t₁ h1) b s' t₂ h2

theorem Triple.pure {P : σ → Prop} {a : α} {Q : α → σ → List ε → Prop} (h : ∀ s, P s → Q a s []) :
    Triple P (Pure.pure a : Prog σ ε α) Q := by
  intro s hs b s' t e
  have e' : (some a, s, []) = (some b, s', t) := e
  obtain ⟨rfl, rfl, rfl⟩ := by simpa using e'
  exact h s hs

/-! ### The events of a run -/

/-- The events of a run, whether it returns or not. -/
def events (x : Prog σ ε α) (s : σ) : List ε := (x s).2.2

/-- The events of a program behind one that returns. -/
theorem events_bind {x : Prog σ ε α} {f : α → Prog σ ε β} {s s' : σ} {a : α} {t : List ε} (h : x s = (some a, s', t)) :
    (x >>= f).events s = t ++ (f a).events s' := by
  have hbind : (x >>= f) s = Prog.bind x f s := rfl
  rw [events, hbind, Prog.bind, h]
  rfl

/-- Every event that the program may cause satisfies a condition. -/
def Emits (C : ε → Prop) (x : Prog σ ε α) : Prop := ∀ s, ∀ e ∈ x.events s, C e

variable {C : ε → Prop}

theorem Emits.pure (a : α) : Emits C (Pure.pure a : Prog σ ε α) := by
  intro s e he
  cases he

theorem Emits.get : Emits C (get : Prog σ ε σ) := by
  intro s e he
  cases he

theorem Emits.modify (f : σ → σ) : Emits C (modify f : Prog σ ε Unit) := by
  intro s e he
  cases he

theorem Emits.stuck : Emits C (stuck : Prog σ ε α) := by
  intro s e he
  cases he

theorem Emits.emit {e : ε} (h : C e) : Emits C (emit e : Prog σ ε Unit) := by
  intro s e' he
  rcases List.mem_singleton.mp he with rfl
  exact h

theorem Emits.change {f : σ → σ} {e : σ → σ → ε} (h : ∀ s, C (e s (f s))) : Emits C (change f e : Prog σ ε Unit) := by
  intro s e' he
  rcases List.mem_singleton.mp he with rfl
  exact h s

/-- What two programs cause one after the other. -/
theorem Emits.bind {x : Prog σ ε α} {f : α → Prog σ ε β} (hx : Emits C x) (hf : ∀ a, Emits C (f a)) : Emits C (x >>= f) := by
  intro s e he
  have hx' := hx s
  generalize hr : x s = r at hx'
  obtain ⟨_ | a, s', t⟩ := r
  · have hbind : (x >>= f) s = Prog.bind x f s := rfl
    rw [events, hbind, Prog.bind, hr] at he
    rw [events, hr] at hx'
    exact hx' e he
  · rw [events_bind hr] at he
    rw [events, hr] at hx'
    rcases List.mem_append.mp he with he | he
    · exact hx' e he
    · exact hf a s' e he

theorem Emits.ite {c : Prop} [Decidable c] {x y : Prog σ ε α} (hx : Emits C x) (hy : Emits C y) :
    Emits C (if c then x else y) := by
  split
  · exact hx
  · exact hy

end Prog

/-! ## The life of a resource -/

variable {σ ε α β : Type}

/-- A resource: the states that keep it apart, what the other programs do to the state, the events by which they take it away, the
events that dispose of it, the states in which such an event leaves it where it should be, and the events that mention it. -/
structure Resource (σ ε : Type) where
  held : σ → Prop
  others : σ → σ
  takes : ε → Prop
  disposes : ε → Prop
  settles : ε → σ → Prop
  mentions : ε → Prop

namespace Resource

variable (r : Resource σ ε)

/-- From one state to another only the other programs run. -/
def Leads (s s' : σ) : Prop := ∃ n, s' = r.others^[n] s

/-- The other programs take the resource away before it is disposed of. -/
def Lost : List ε → Prop
  | [] => False
  | e :: t => r.takes e ∨ ¬r.disposes e ∧ Lost t

/-- One event disposes of the resource and leaves it where it should be. None behind it mentions it, and only the other programs
change the state behind it. -/
def Once (t : List ε) (s : σ) : Prop :=
  ∃ t₁ e t₂ s₀, t = t₁ ++ e :: t₂ ∧ (∀ e' ∈ t₁, ¬r.disposes e') ∧ r.disposes e ∧ r.settles e s₀ ∧
    (∀ e' ∈ t₂, ¬r.mentions e') ∧ r.Leads s₀ s

/-- The program uses the resource and leaves it held; what it returns satisfies a condition. -/
def Uses (x : Prog σ ε α) (R : α → Prop) : Prop :=
  Prog.Triple r.held x fun a s t => r.Lost t ∨ r.held s ∧ (∀ e ∈ t, ¬r.disposes e) ∧ R a

/-- The program disposes of the resource. -/
def Disposes (x : Prog σ ε α) : Prop := Prog.Triple r.held x fun _ s t => r.Lost t ∨ r.Once t s

/-- The program disposes of the resource when it is run from the state. -/
def DisposesFrom (s : σ) (x : Prog σ ε α) : Prop := r.held s → ∀ a s' t, x s = (some a, s', t) → r.Lost t ∨ r.Once t s'

/-- The program does not mention the resource, and leaves the state to the other programs. -/
def Silent (x : Prog σ ε α) : Prop := ∀ s a s' t, x s = (some a, s', t) → (∀ e ∈ t, ¬r.mentions e) ∧ r.Leads s s'

instance decidableLost [DecidablePred r.takes] [DecidablePred r.disposes] : DecidablePred r.Lost
  | [] => instDecidableFalse
  | e :: t =>
    have := decidableLost t
    inferInstanceAs (Decidable (r.takes e ∨ ¬r.disposes e ∧ r.Lost t))

variable {r} {x : Prog σ ε α} {f : α → Prog σ ε β} {R : α → Prop} {S : β → Prop}

theorem Leads.refl (s : σ) : r.Leads s s := ⟨0, rfl⟩

theorem Leads.trans {s₁ s₂ s₃ : σ} (h₁ : r.Leads s₁ s₂) (h₂ : r.Leads s₂ s₃) : r.Leads s₁ s₃ := by
  obtain ⟨m, rfl⟩ := h₁
  obtain ⟨n, rfl⟩ := h₂
  exact ⟨n + m, (Function.iterate_add_apply r.others n m s₁).symm⟩

theorem Lost.append_left {t₁ t₂ : List ε} (h₁ : ∀ e ∈ t₁, ¬r.disposes e) (h₂ : r.Lost t₂) : r.Lost (t₁ ++ t₂) := by
  induction t₁ with
  | nil => exact h₂
  | cons e t₁ ih => exact Or.inr ⟨h₁ e List.mem_cons_self, ih fun e' he' => h₁ e' (List.mem_cons_of_mem _ he')⟩

theorem Lost.append_right {t₁ t₂ : List ε} (h : r.Lost t₁) : r.Lost (t₁ ++ t₂) := by
  induction t₁ with
  | nil => exact h.elim
  | cons e t₁ ih => exact h.imp id fun ⟨hd, hl⟩ => ⟨hd, ih hl⟩

theorem Once.append_left {t₁ t₂ : List ε} {s : σ} (h₁ : ∀ e ∈ t₁, ¬r.disposes e) (h₂ : r.Once t₂ s) : r.Once (t₁ ++ t₂) s := by
  obtain ⟨u₁, e, u₂, s₀, rfl, hu₁, hd, hs, hu₂, hl⟩ := h₂
  refine ⟨t₁ ++ u₁, e, u₂, s₀, by simp, fun e' he' => ?_, hd, hs, hu₂, hl⟩
  rcases List.mem_append.mp he' with h | h
  · exact h₁ e' h
  · exact hu₁ e' h

/-- What comes behind the disposal. -/
theorem Once.append_right {t₁ t₂ : List ε} {s s' : σ} (h₁ : r.Once t₁ s) (h₂ : ∀ e ∈ t₂, ¬r.mentions e) (h : r.Leads s s') :
    r.Once (t₁ ++ t₂) s' := by
  obtain ⟨u₁, e, u₂, s₀, rfl, hu₁, hd, hs, hu₂, hl⟩ := h₁
  refine ⟨u₁, e, u₂ ++ t₂, s₀, by simp, hu₁, hd, hs, fun e' he' => ?_, hl.trans h⟩
  rcases List.mem_append.mp he' with h | h
  · exact hu₂ e' h
  · exact h₂ e' h

theorem Uses.pure {a : α} (h : R a) : r.Uses (Pure.pure a) R :=
  Prog.Triple.pure fun _ hs => Or.inr ⟨hs, by simp, h⟩

/-- Use after use. -/
theorem Uses.bind (hx : r.Uses x R) (hf : ∀ a, R a → r.Uses (f a) S) : r.Uses (x >>= f) S := by
  refine Prog.Triple.bind hx fun a t s hs b s' t' h => ?_
  obtain hlost | ⟨hheld, ht, hR⟩ := hs
  · exact Or.inl hlost.append_right
  obtain hlost | ⟨hheld', ht', hS⟩ := hf a hR s hheld b s' t' h
  · exact Or.inl (hlost.append_left ht)
  refine Or.inr ⟨hheld', fun e he => ?_, hS⟩
  rcases List.mem_append.mp he with he | he
  · exact ht e he
  · exact ht' e he

/-- Disposal after use. -/
theorem Uses.disposes (hx : r.Uses x R) (hf : ∀ a, R a → r.Disposes (f a)) : r.Disposes (x >>= f) := by
  refine Prog.Triple.bind hx fun a t s hs b s' t' h => ?_
  obtain hlost | ⟨hheld, ht, hR⟩ := hs
  · exact Or.inl hlost.append_right
  · exact (hf a hR s hheld b s' t' h).imp (·.append_left ht) (·.append_left ht)

/-- Silence after disposal. -/
theorem Disposes.silent (hx : r.Disposes x) (hf : ∀ a, r.Silent (f a)) : r.Disposes (x >>= f) := by
  refine Prog.Triple.bind hx fun a t s hs b s' t' h => ?_
  obtain ⟨ht, hl⟩ := hf a s b s' t' h
  exact hs.imp (·.append_right) (·.append_right ht hl)

theorem Silent.pure (a : α) : r.Silent (Pure.pure a) := by
  intro s b s' t h
  have h' : (some a, s, []) = (some b, s', t) := h
  obtain ⟨rfl, rfl, rfl⟩ := by simpa using h'
  exact ⟨by simp, Leads.refl s⟩

/-- Silence after silence. -/
theorem Silent.bind (hx : r.Silent x) (hf : ∀ a, r.Silent (f a)) : r.Silent (x >>= f) := by
  intro s b s' t h
  obtain ⟨a, s₁, t₁, t₂, h1, h2, rfl⟩ := Prog.bind_eq_some h
  obtain ⟨ht₁, hl₁⟩ := hx s a s₁ t₁ h1
  obtain ⟨ht₂, hl₂⟩ := hf a s₁ b s' t₂ h2
  refine ⟨fun e he => ?_, hl₁.trans hl₂⟩
  rcases List.mem_append.mp he with he | he
  · exact ht₁ e he
  · exact ht₂ e he

theorem Disposes.from (hx : r.Disposes x) (s : σ) : r.DisposesFrom s x := fun hs => hx s hs

theorem DisposesFrom.silent {s : σ} (hx : r.DisposesFrom s x) (hf : ∀ a, r.Silent (f a)) : r.DisposesFrom s (x >>= f) := by
  intro hs b s' t h
  obtain ⟨a, s₁, t₁, t₂, h1, h2, rfl⟩ := Prog.bind_eq_some h
  obtain ⟨ht, hl⟩ := hf a s₁ b s' t₂ h2
  exact (hx hs a s₁ t₁ h1).imp (·.append_right) (·.append_right ht hl)

theorem DisposesFrom.ite {s : σ} {c : Prop} [Decidable c] {y : Prog σ ε α} (hx : c → r.DisposesFrom s x)
    (hy : ¬c → r.DisposesFrom s y) : r.DisposesFrom s (if c then x else y) := by
  split
  · exact hx ‹_›
  · exact hy ‹_›

/-- Disposal after the state has been read. -/
theorem Disposes.get {k : σ → Prog σ ε α} (h : ∀ s, r.DisposesFrom s (k s)) : r.Disposes (Prog.get >>= k) := by
  intro s hs b s' t e
  obtain ⟨a, s₁, t₁, t₂, h1, h2, rfl⟩ := Prog.bind_eq_some e
  have e' : (some s, s, []) = (some a, s₁, t₁) := h1
  obtain ⟨rfl, rfl, rfl⟩ := by simpa using e'
  exact h s hs b s' t₂ h2

theorem Disposes.ite {c : Prop} [Decidable c] {y : Prog σ ε α} (hx : c → r.Disposes x) (hy : ¬c → r.Disposes y) :
    r.Disposes (if c then x else y) := by
  split
  · exact hx ‹_›
  · exact hy ‹_›

theorem Uses.ite {c : Prop} [Decidable c] {y : Prog σ ε α} (hx : r.Uses x R) (hy : r.Uses y R) :
    r.Uses (if c then x else y) R := by
  split
  · exact hx
  · exact hy

/-- A condition that is forgotten. -/
theorem Uses.mono (hx : r.Uses x R) {R' : α → Prop} (h : ∀ a, R a → R' a) : r.Uses x R' := by
  intro s hs a s' t e
  exact (hx s hs a s' t e).imp id fun ⟨h1, h2, h3⟩ => ⟨h1, h2, h a h3⟩

/-- A state read. -/
theorem Uses.get : r.Uses (Prog.get : Prog σ ε σ) r.held := by
  intro s hs a s' t e
  have e' : (some s, s, []) = (some a, s', t) := e
  obtain ⟨rfl, rfl, rfl⟩ := by simpa using e'
  exact Or.inr ⟨hs, by simp, hs⟩

/-- A change that keeps the resource apart. -/
theorem Uses.modify {g : σ → σ} (h : ∀ s, r.held s → r.held (g s)) : r.Uses (Prog.modify g) fun _ => True := by
  intro s hs a s' t e
  have e' : (some (), g s, []) = (some a, s', t) := e
  obtain ⟨rfl, rfl⟩ := by simpa using e'
  exact Or.inr ⟨h s hs, by simp, trivial⟩

/-- An event that does not dispose of the resource. -/
theorem Uses.emit {e : ε} (h : ¬r.disposes e) : r.Uses (Prog.emit e) fun _ => True := by
  intro s hs a s' t he
  have e' : (some (), s, [e]) = (some a, s', t) := he
  obtain ⟨rfl, rfl⟩ := by simpa using e'
  exact Or.inr ⟨hs, by simpa using h, trivial⟩

/-- A change that keeps the resource apart, with an event that does not dispose of it. -/
theorem Uses.change {g : σ → σ} {e : σ → σ → ε} (h : ∀ s, r.held s → r.held (g s)) (he : ∀ s, ¬r.disposes (e s (g s))) :
    r.Uses (Prog.change g e) fun _ => True := by
  intro s hs a s' t heq
  have e' : (some (), g s, [e s (g s)]) = (some a, s', t) := heq
  obtain ⟨rfl, rfl⟩ := by simpa using e'
  exact Or.inr ⟨h s hs, by simpa using he s, trivial⟩

/-- The change that disposes of the resource. -/
theorem DisposesFrom.change {s : σ} {g : σ → σ} {e : σ → σ → ε}
    (h : r.held s → r.disposes (e s (g s)) ∧ r.settles (e s (g s)) (g s)) : r.DisposesFrom s (Prog.change g e) := by
  intro hs a s' t heq
  have e' : (some (), g s, [e s (g s)]) = (some a, s', t) := heq
  obtain ⟨rfl, rfl⟩ := by simpa using e'
  exact Or.inr ⟨[], _, [], g s, rfl, by simp, (h hs).1, (h hs).2, by simp, Leads.refl _⟩

theorem Disposes.change {g : σ → σ} {e : σ → σ → ε}
    (h : ∀ s, r.held s → r.disposes (e s (g s)) ∧ r.settles (e s (g s)) (g s)) : r.Disposes (Prog.change g e) :=
  fun s hs => DisposesFrom.change (h s) hs

theorem Uses.stuck : r.Uses (Prog.stuck : Prog σ ε α) R := by
  intro s _ a s' t e
  exact absurd (congrArg Prod.fst e) (by simp [Prog.stuck])

theorem Disposes.stuck : r.Disposes (Prog.stuck : Prog σ ε α) := by
  intro s _ a s' t e
  exact absurd (congrArg Prod.fst e) (by simp [Prog.stuck])

/-- The other programs run, with an event that says whether they take the resource away. -/
theorem Uses.others {e : σ → σ → ε} (ht : ∀ s, r.held s → r.takes (e s (r.others s)) ∨ r.held (r.others s))
    (hd : ∀ s, ¬r.disposes (e s (r.others s))) : r.Uses (Prog.change r.others e) fun _ => True := by
  intro s hs a s' t heq
  have e' : (some (), r.others s, [e s (r.others s)]) = (some a, s', t) := heq
  obtain ⟨rfl, rfl⟩ := by simpa using e'
  exact (ht s hs).imp Or.inl fun h => ⟨h, by simpa using hd s, trivial⟩

theorem Silent.others {e : σ → σ → ε} (hm : ∀ s, ¬r.mentions (e s (r.others s))) : r.Silent (Prog.change r.others e) := by
  intro s a s' t heq
  have e' : (some (), r.others s, [e s (r.others s)]) = (some a, s', t) := heq
  obtain ⟨rfl, rfl⟩ := by simpa using e'
  exact ⟨by simpa using hm s, 1, rfl⟩

theorem Silent.emit {e : ε} (h : ¬r.mentions e) : r.Silent (Prog.emit e) := by
  intro s a s' t he
  have e' : (some (), s, [e]) = (some a, s', t) := he
  obtain ⟨rfl, rfl⟩ := by simpa using e'
  exact ⟨by simpa using h, Leads.refl s⟩

end Resource

end Xinu
