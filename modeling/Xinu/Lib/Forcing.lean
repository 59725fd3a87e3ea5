import Mathlib.Logic.Function.Basic

/-!
# Evaluation before use

A term that stands for a state is evaluated again at every use. A `Forcing` evaluates a value to a literal first and then
passes it on, so that a run of a machine on a concrete input takes time in proportion to its length. It never changes the
result.
-/

namespace Xinu

/-- A way to evaluate a value before it is used. -/
structure Forcing (β : Type) where
  app : β → (β → Bool) → Bool
  app_eq : ∀ b f, app b f = f b

namespace Forcing

variable {β γ : Type}

/-- No evaluation. -/
def id (β : Type) : Forcing β := ⟨fun b f => f b, fun _ _ => rfl⟩

def nat : Forcing Nat where
  app n f := match n with
    | 0 => f 0
    | k + 1 => f (k + 1)
  app_eq n f := by cases n <;> rfl

def int : Forcing Int where
  app n f := match n with
    | .ofNat k => nat.app k (fun k => f (.ofNat k))
    | .negSucc k => nat.app k (fun k => f (.negSucc k))
  app_eq n f := by cases n <;> exact nat.app_eq _ _

def bool : Forcing Bool where
  app b f := match b with
    | true => f true
    | false => f false
  app_eq b f := by cases b <;> rfl

def option (F : Forcing β) : Forcing (Option β) where
  app x f := match x with
    | none => f none
    | some b => F.app b (fun b => f (some b))
  app_eq x f := by
    cases x with
    | none => rfl
    | some b => exact F.app_eq _ _

def listApp (F : Forcing β) : List β → (List β → Bool) → Bool
  | [], f => f []
  | b :: l, f => F.app b (fun b => listApp F l (fun l => f (b :: l)))

/-- The elements of a list. -/
def list (F : Forcing β) : Forcing (List β) where
  app := listApp F
  app_eq l f := by
    induction l generalizing f with
    | nil => rfl
    | cons b l ih => rw [listApp, F.app_eq, ih]

def tableApp [DecidableEq γ] (F : Forcing β) (t : γ → β) : List γ → ((γ → β) → Bool) → Bool
  | [], f => f t
  | i :: is, f => F.app (t i) (fun b => tableApp F t is (fun u => f (fun j => if j = i then b else u j)))

/-- The entries of a table with the given indices. -/
def table [DecidableEq γ] (is : List γ) (F : Forcing β) : Forcing (γ → β) where
  app t f := tableApp F t is f
  app_eq t f := by
    induction is generalizing f with
    | nil => rfl
    | cons i is ih =>
      rw [tableApp, F.app_eq, ih]
      refine congrArg f (funext fun j => ?_)
      by_cases h : j = i
      · rw [if_pos h, h]
      · rw [if_neg h]

end Forcing

end Xinu
