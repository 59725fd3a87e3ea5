import Mathlib.Data.List.Basic

/-!
# Line editors

What a sequence of keys makes of a text: a character is added to the current line, one key takes its last character back,
another one the whole line, and the end of a line completes it. Completed lines are never changed.
-/

namespace Xinu.LineEditor

variable {α : Type}

inductive Key (α : Type) where
  | char (a : α)
  | newline (a : α)
  | erase
  | kill
deriving Repr, DecidableEq

/-- The completed lines, and the line that is not finished. -/
structure Text (α : Type) where
  lines : List (List α)
  current : List α
deriving Repr, DecidableEq

namespace Text

/-- What a key does. -/
def press (t : Text α) : Key α → Text α
  | .char a => { t with current := t.current ++ [a] }
  | .newline a => ⟨t.lines ++ [t.current ++ [a]], []⟩
  | .erase => { t with current := t.current.dropLast }
  | .kill => { t with current := [] }

/-- What a sequence of keys does. -/
def typed (t : Text α) (keys : List (Key α)) : Text α := keys.foldl press t

/-- The characters of a text. -/
def chars (t : Text α) : List α := t.lines.flatten ++ t.current

/-- No text. -/
def empty : Text α := ⟨[], []⟩

@[simp] theorem typed_nil (t : Text α) : t.typed [] = t := rfl

@[simp] theorem typed_cons (t : Text α) (k : Key α) (keys : List (Key α)) : t.typed (k :: keys) = (t.press k).typed keys := rfl

theorem typed_append (t : Text α) (keys more : List (Key α)) : t.typed (keys ++ more) = (t.typed keys).typed more :=
  List.foldl_append

/-- A key does not change the completed lines. -/
theorem press_lines (t : Text α) (k : Key α) : t.lines <+: (t.press k).lines := by
  cases k with
  | newline a => exact List.prefix_append _ _
  | char | erase | kill => exact List.prefix_refl _

/-- Completed lines are never changed. -/
theorem typed_lines (t : Text α) (keys : List (Key α)) : t.lines <+: (t.typed keys).lines := by
  induction keys generalizing t with
  | nil => exact List.prefix_refl _
  | cons k keys ih => exact (t.press_lines k).trans (ih (t.press k))

/-- The characters that a key adds. -/
def added : Key α → List α
  | .char a | .newline a => [a]
  | .erase | .kill => []

theorem press_chars {t : Text α} {k : Key α} {a : α} (h : a ∈ (t.press k).chars) : a ∈ t.chars ∨ a ∈ added k := by
  unfold chars at h ⊢
  cases k with
  | char b | newline b =>
    simp [press, added] at h ⊢
    exact or_assoc.mpr h
  | erase =>
    rcases List.mem_append.mp h with h | h
    · exact .inl (List.mem_append_left _ h)
    · exact .inl (List.mem_append_right _ (List.dropLast_subset _ h))
  | kill =>
    rcases List.mem_append.mp h with h | h
    · exact .inl (List.mem_append_left _ h)
    · cases h

/-- Every character of the text was typed. -/
theorem typed_chars {t : Text α} {keys : List (Key α)} {a : α} (h : a ∈ (t.typed keys).chars) :
    a ∈ t.chars ∨ ∃ k ∈ keys, a ∈ added k := by
  induction keys generalizing t with
  | nil => exact .inl h
  | cons k keys ih =>
    rcases ih h with h | ⟨k', hk', ha⟩
    · rcases press_chars h with h | ha
      · exact .inl h
      · exact .inr ⟨k, List.mem_cons_self, ha⟩
    · exact .inr ⟨k', List.mem_cons_of_mem _ hk', ha⟩

end Text

end Xinu.LineEditor
