import Xinu.Lib.Disposal

/-!
# Programs with an interrupt mask

A program on a processor: a state together with an interrupt mask, which `disable` returns and clears and `restore` sets. A
program is balanced if it leaves the mask as it finds it. Between a `disable` and a `restore` of what it returned anything may
happen to the mask. `Erases` relates such a program to the one on the state alone.
-/

namespace Xinu

/-- A state and an interrupt mask. -/
structure Cpu (σ μ : Type) where
  state : σ
  mask : μ

namespace Masked

variable {σ ε μ α β γ δ : Type}

/-- A program that does not touch the mask. -/
def lift (x : Prog σ ε α) : Prog (Cpu σ μ) ε α := fun c => ((x c.state).1, { c with state := (x c.state).2.1 }, (x c.state).2.2)

/-- Return the mask, and clear it. -/
def disable (off : μ) : Prog (Cpu σ μ) ε μ := fun c => (some c.mask, { c with mask := off }, [])

/-- Set the mask. -/
def restore (mask : μ) : Prog (Cpu σ μ) ε Unit := fun c => (some (), { c with mask := mask }, [])

/-- A program that runs with interrupts disabled, and restores the mask when it is done. -/
def critical (off : μ) (x : Prog (Cpu σ μ) ε α) : Prog (Cpu σ μ) ε α := do
  let mask ← disable off
  let a ← x
  restore mask
  pure a

/-! ## The mask -/

/-- Every run that returns leaves a mask. -/
def Leaves (m : μ) (x : Prog (Cpu σ μ) ε α) : Prop := Prog.Triple (fun _ => True) x fun _ c _ => c.mask = m

/-- Every run that returns leaves the mask as it was. -/
def Balanced (x : Prog (Cpu σ μ) ε α) : Prop := ∀ m, Prog.Triple (fun c => c.mask = m) x fun _ c _ => c.mask = m

variable {m : μ} {x : Prog (Cpu σ μ) ε α} {f : α → Prog (Cpu σ μ) ε β}

/-- What runs before does not matter. -/
theorem Leaves.bind (hf : ∀ a, Leaves m (f a)) : Leaves m (x >>= f) := by
  intro c _ b c' t h
  obtain ⟨a, c₁, t₁, t₂, -, h2, rfl⟩ := Prog.bind_eq_some h
  exact hf a c₁ trivial b c' t₂ h2

/-- The mask that is restored is left. -/
theorem Leaves.restore (v : α) : Leaves m (restore m >>= fun _ => pure v : Prog (Cpu σ μ) ε α) := by
  intro c _ b c' t h
  obtain ⟨a, c₁, t₁, t₂, h1, h2, rfl⟩ := Prog.bind_eq_some h
  have e1 : { c with mask := m } = c₁ := congrArg (fun r => r.2.1) h1
  have e2 : c₁ = c' := congrArg (fun r => r.2.1) h2
  rw [← e2, ← e1]

theorem Leaves.ite {b : Prop} [Decidable b] {y : Prog (Cpu σ μ) ε α} (hx : Leaves m x) (hy : Leaves m y) :
    Leaves m (if b then x else y) := by
  split
  · exact hx
  · exact hy

theorem Leaves.stuck : Leaves m (Prog.stuck : Prog (Cpu σ μ) ε α) := by
  intro c _ b c' t h
  exact absurd (congrArg Prod.fst h) (by simp [Prog.stuck])

theorem Balanced.pure (a : α) : Balanced (Pure.pure a : Prog (Cpu σ μ) ε α) := fun _ => Prog.Triple.pure fun _ h => h

theorem Balanced.lift (y : Prog σ ε α) : Balanced (lift y : Prog (Cpu σ μ) ε α) := by
  intro m c hc a c' t h
  have e : { c with state := (y c.state).2.1 } = c' := congrArg (fun r => r.2.1) h
  rw [← e]
  exact hc

theorem Balanced.bind (hx : Balanced x) (hf : ∀ a, Balanced (f a)) : Balanced (x >>= f) :=
  fun m => Prog.Triple.bind (hx m) fun a _ => hf a m

theorem Balanced.stuck : Balanced (Prog.stuck : Prog (Cpu σ μ) ε α) := by
  intro m c _ a c' t h
  exact absurd (congrArg Prod.fst h) (by simp [Prog.stuck])

theorem Balanced.ite {b : Prop} [Decidable b] {y : Prog (Cpu σ μ) ε α} (hx : Balanced x) (hy : Balanced y) :
    Balanced (if b then x else y) := by
  split
  · exact hx
  · exact hy

/-- A program that saves the mask and leaves what it saved. -/
theorem Balanced.disable {off : μ} {f : μ → Prog (Cpu σ μ) ε β} (hf : ∀ m, Leaves m (f m)) :
    Balanced (disable off >>= f) := by
  intro m c hc b c' t h
  obtain ⟨a, c₁, t₁, t₂, h1, h2, rfl⟩ := Prog.bind_eq_some h
  have e : c.mask = a := Option.some.inj (congrArg Prod.fst h1)
  rw [← hc, e]
  exact hf a c₁ trivial b c' t₂ h2

theorem Balanced.critical (off : μ) (x : Prog (Cpu σ μ) ε α) : Balanced (critical off x) :=
  Balanced.disable fun _ => Leaves.bind fun a => Leaves.restore a

/-! ## Forgetting the mask -/

/-- The program does what another does on the state alone, and returns what a function makes of its value. -/
def ErasesBy (g : α → β) (x : Prog (Cpu σ μ) ε β) (y : Prog σ ε α) : Prop :=
  ∀ c, (x c).1 = (y c.state).1.map g ∧ (x c).2.1.state = (y c.state).2.1 ∧ (x c).2.2 = (y c.state).2.2

/-- The program does what another does on the state alone. -/
def Erases (x : Prog (Cpu σ μ) ε α) (y : Prog σ ε α) : Prop := ErasesBy id x y

theorem Erases.lift (y : Prog σ ε α) : Erases (lift y : Prog (Cpu σ μ) ε α) y :=
  fun _ => ⟨(congrFun Option.map_id _).symm, rfl, rfl⟩

theorem ErasesBy.pure (g : α → β) (a : α) : ErasesBy g (Pure.pure (g a) : Prog (Cpu σ μ) ε β) (Pure.pure a : Prog σ ε α) :=
  fun _ => ⟨rfl, rfl, rfl⟩

theorem Erases.pure (a : α) : Erases (Pure.pure a : Prog (Cpu σ μ) ε α) (Pure.pure a : Prog σ ε α) := ErasesBy.pure id a

theorem Erases.stuck : Erases (Prog.stuck : Prog (Cpu σ μ) ε α) (Prog.stuck : Prog σ ε α) := fun _ => ⟨rfl, rfl, rfl⟩

/-- One program after another. -/
theorem ErasesBy.bind {g : α → β} {g' : γ → δ} {x : Prog (Cpu σ μ) ε β} {y : Prog σ ε α} {f : β → Prog (Cpu σ μ) ε δ}
    {k : α → Prog σ ε γ} (hx : ErasesBy g x y) (hf : ∀ a, ErasesBy g' (f (g a)) (k a)) : ErasesBy g' (x >>= f) (y >>= k) := by
  intro c
  have h := hx c
  have hbind : (x >>= f) c = Prog.bind x f c := rfl
  have hbind' : (y >>= k) c.state = Prog.bind y k c.state := rfl
  rw [hbind, hbind', Prog.bind, Prog.bind]
  generalize x c = r at h
  generalize y c.state = r' at h
  obtain ⟨v, c', t⟩ := r
  obtain ⟨v', s', t'⟩ := r'
  obtain ⟨h1, h2, h3⟩ := h
  simp only at h1 h2 h3
  subst h1 h2 h3
  cases v' with
  | none => exact ⟨rfl, rfl, rfl⟩
  | some a =>
    obtain ⟨e1, e2, e3⟩ := hf a c'
    exact ⟨e1, e2, congrArg (t ++ ·) e3⟩

/-- Saving the mask is forgotten. -/
theorem ErasesBy.disable {g : α → β} {off : μ} {f : μ → Prog (Cpu σ μ) ε β} {y : Prog σ ε α} (hf : ∀ m, ErasesBy g (f m) y) :
    ErasesBy g (disable off >>= f) y := by
  intro c
  exact hf c.mask { c with mask := off }

/-- Restoring the mask is forgotten. -/
theorem ErasesBy.restore {g : α → β} {m : μ} {f : Unit → Prog (Cpu σ μ) ε β} {y : Prog σ ε α} (hf : ErasesBy g (f ()) y) :
    ErasesBy g (restore m >>= f) y := by
  intro c
  exact hf { c with mask := m }

/-- What only returns a value at the end is forgotten. -/
theorem ErasesBy.tail {g : α → β} {g' : α → δ} {x : Prog (Cpu σ μ) ε β} {y : Prog σ ε α} {f : β → Prog (Cpu σ μ) ε δ}
    (hx : ErasesBy g x y) (hf : ∀ a, ErasesBy g' (f (g a)) (Pure.pure a : Prog σ ε α)) : ErasesBy g' (x >>= f) y := by
  have hpure : (y >>= Pure.pure : Prog σ ε α) = y := by
    funext s
    have hbind : (y >>= Pure.pure : Prog σ ε α) s = Prog.bind y Prog.pure s := rfl
    rw [hbind, Prog.bind]
    generalize y s = r
    obtain ⟨_ | a, s', t⟩ := r
    · rfl
    · exact Prod.ext rfl (Prod.ext rfl (List.append_nil t))
  have h := hx.bind hf
  rwa [hpure] at h

/-- A critical section is forgotten. -/
theorem ErasesBy.critical {g : α → β} {off : μ} {x : Prog (Cpu σ μ) ε β} {y : Prog σ ε α} (hx : ErasesBy g x y) :
    ErasesBy g (critical off x) y :=
  ErasesBy.disable fun _ => hx.tail fun a => ErasesBy.restore (ErasesBy.pure g a)

theorem ErasesBy.ite {g : α → β} {b : Prop} [Decidable b] {x x' : Prog (Cpu σ μ) ε β} {y y' : Prog σ ε α} (h : ErasesBy g x y)
    (h' : ErasesBy g x' y') : ErasesBy g (if b then x else x') (if b then y else y') := by
  split
  · exact h
  · exact h'

end Masked

end Xinu
