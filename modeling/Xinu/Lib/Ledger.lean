import Mathlib.Tactic.Common

/-!
# A ledger of resources

Resources are acquired and released. What is held after some entries is what was held before, with what they acquired and without what they
released; entries that release nothing only add to it.
-/

namespace Xinu

namespace Ledger

/-- An entry of the ledger. -/
inductive Entry (ρ : Type*) where
  | acquire (r : ρ)
  | release (r : ρ)

variable {ρ : Type*} [DecidableEq ρ]

/-- What is held after the entries, the latest first. -/
def held : List ρ → List (Entry ρ) → List ρ
  | rs, [] => rs
  | rs, .acquire r :: t => held (r :: rs) t
  | rs, .release r :: t => held (rs.erase r) t

@[simp] theorem held_nil (rs : List ρ) : held rs [] = rs := rfl

@[simp] theorem held_acquire (rs : List ρ) (r : ρ) (t : List (Entry ρ)) : held rs (.acquire r :: t) = held (r :: rs) t := rfl

@[simp] theorem held_release (rs : List ρ) (r : ρ) (t : List (Entry ρ)) : held rs (.release r :: t) = held (rs.erase r) t := rfl

variable {rs : List ρ} {t u : List (Entry ρ)} {r : ρ}

theorem held_append : held rs (t ++ u) = held (held rs t) u := by
  induction t generalizing rs with
  | nil => rfl
  | cons e t ih => cases e <;> exact ih

/-- Entries that release nothing add to what is held. -/
theorem held_eq_append (h : ∀ r, .release r ∉ t) : held rs t = held [] t ++ rs := by
  induction t generalizing rs with
  | nil => rfl
  | cons e t ih =>
    have ht : ∀ r, .release r ∉ t := fun r hr => h r (List.mem_cons_of_mem e hr)
    cases e with
    | acquire r =>
      rw [held_acquire, held_acquire, ih ht]
      conv_rhs => rw [ih ht]
      rw [List.append_assoc, List.singleton_append]
    | release r => exact absurd List.mem_cons_self (h r)

end Ledger

end Xinu
