import Mathlib.Data.List.Nodup
import Mathlib.Tactic.Common

/-!
# Computations with a guard

A computation that stops, or goes on to a known state, as a condition says. The state may have a part that the condition and the
rest of the state do not depend on; it stays an argument.
-/

namespace Xinu

/-- The computation goes on to `put s` for some `s` when `P` holds, and stops when it does not. -/
def Guards {σ τ : Type} (x : Option σ) (P : Prop) (put : τ → σ) : Prop :=
  (P → ∃ s, x = some (put s)) ∧ (¬P → x = none)

namespace Guards

variable {σ τ υ ρ : Type} {x : Option σ} {P Q : Prop} {put : τ → σ}

theorem of_some (s : τ) : Guards (some (put s)) True put := ⟨fun _ => ⟨s, rfl⟩, fun h => absurd trivial h⟩

theorem congr (h : Guards x P put) (hPQ : P ↔ Q) : Guards x Q put :=
  ⟨fun hq => h.1 (hPQ.mpr hq), fun hq => h.2 (fun hp => hq (hPQ.mp hp))⟩

/-- One guarded computation after another, which may assume the condition of the first. -/
theorem bind {k : σ → Option ρ} {put' : υ → ρ} (h : Guards x P put) (hk : P → ∀ s, Guards (k (put s)) Q put') :
    Guards (x >>= k) (P ∧ Q) put' := by
  constructor
  · rintro ⟨hp, hq⟩
    obtain ⟨s, rfl⟩ := h.1 hp
    exact (hk hp s).1 hq
  · intro hn
    by_cases hp : P
    · obtain ⟨s, rfl⟩ := h.1 hp
      exact (hk hp s).2 fun hq => hn ⟨hp, hq⟩
    · rw [h.2 hp]
      rfl

end Guards

/-- The condition holds at every element of a list, on the way of the states. -/
def Passes {ε α : Type} (P : ε → α → Prop) (step : ε → α → ε) : ε → List α → Prop
  | _, [] => True
  | e, a :: l => P e a ∧ Passes P step (step e a) l

variable {ε α β σ τ : Type}

/-- A loop over a list of guarded computations. -/
theorem Guards.foldlM {f : σ → α → Option σ} (put : ε → τ → σ) (step : ε → α → ε) (P : ε → α → Prop)
    (h : ∀ e s a, Guards (f (put e s) a) (P e a) (put (step e a))) (l : List α) :
    ∀ e s, Guards (l.foldlM f (put e s)) (Passes P step e l) (put (l.foldl step e)) := by
  induction l with
  | nil => exact fun e s => of_some s
  | cons a l ih =>
    intro e s
    rw [List.foldlM_cons]
    exact (h e s a).bind fun _ s' => ih (step e a) s'

/-- A condition that does not depend on the state. -/
theorem passes_iff {P : α → Prop} {step : ε → α → ε} (l : List α) :
    ∀ e, Passes (fun _ => P) step e l ↔ ∀ a ∈ l, P a := by
  induction l with
  | nil => simp [Passes]
  | cons a l ih =>
    intro e
    rw [List.forall_mem_cons, ← ih (step e a)]
    rfl

/-- A table of at most `n` entries with different keys, filled in order. -/
theorem passes_table {key : α → β} {n : Nat} {P : α → Prop} (l : List α) :
    ∀ {e : List α}, e.length ≤ n → (e.map key).Nodup →
    (Passes (fun e a => e.length < n ∧ key a ∉ e.map key ∧ P a) (fun e a => e ++ [a]) e l ↔
      (e ++ l).length ≤ n ∧ ((e ++ l).map key).Nodup ∧ ∀ a ∈ l, P a) := by
  induction l with
  | nil =>
    intro e hlen hnd
    simp [Passes, hlen, hnd]
  | cons a l ih =>
    intro e hlen hnd
    have hassoc : e ++ a :: l = e ++ [a] ++ l := by simp
    have hfresh : ((e ++ [a]).map key).Nodup ↔ key a ∉ e.map key := by
      rw [List.map_append, List.map_singleton, List.nodup_append_comm]
      simp [hnd]
    rw [Passes, hassoc, List.forall_mem_cons]
    constructor
    · rintro ⟨⟨hlt, hkey, hP⟩, hrest⟩
      obtain ⟨h1, h2, h3⟩ := (ih (by simpa using Nat.succ_le_of_lt hlt) (hfresh.mpr hkey)).mp hrest
      exact ⟨h1, h2, hP, h3⟩
    · rintro ⟨h1, h2, hP, h3⟩
      have hnd' : ((e ++ [a]).map key).Nodup := by
        rw [List.map_append] at h2
        exact h2.of_append_left
      have hlt : (e ++ [a]).length ≤ n := by
        simp only [List.length_append] at h1 ⊢
        omega
      exact ⟨⟨by simp at hlt; omega, hfresh.mp hnd', hP⟩, (ih hlt hnd').mpr ⟨h1, h2, h3⟩⟩

end Xinu
