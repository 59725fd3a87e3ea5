import Mathlib.Data.List.Basic

/-!
# Histories

What a list of records, most recent first, says of the time since the last record that begins an epoch.
-/

namespace Xinu

variable {ω α : Type} {reset : ω → Bool} {pick : ω → Option α}

/-- What the records since the last reset hold, oldest first. -/
def since (reset : ω → Bool) (pick : ω → Option α) : List ω → List α
  | [] => []
  | o :: l => if reset o then [] else since reset pick l ++ (pick o).toList

theorem since_reset {o : ω} (h : reset o = true) (l : List ω) : since reset pick (o :: l) = [] := by
  rw [since, if_pos h]

theorem since_some {o : ω} {a : α} (h : reset o = false) (ho : pick o = some a) (l : List ω) :
    since reset pick (o :: l) = since reset pick l ++ [a] := by
  rw [since, if_neg (by simp [h]), ho]
  rfl

theorem since_none {o : ω} (h : reset o = false) (ho : pick o = none) (l : List ω) :
    since reset pick (o :: l) = since reset pick l := by
  rw [since, if_neg (by simp [h]), ho]
  exact List.append_nil _

/-- Records that neither begin an epoch nor hold anything. -/
theorem since_append {l : List ω} (h : ∀ o ∈ l, reset o = false ∧ pick o = none) (log : List ω) :
    since reset pick (l ++ log) = since reset pick log := by
  induction l with
  | nil => rfl
  | cons o l ih =>
    obtain ⟨h1, h2⟩ := h o List.mem_cons_self
    rw [List.cons_append, since_none h1 h2, ih (fun o ho => h o (List.mem_cons_of_mem _ ho))]

/-- What has been held since the last reset is held by one of the records. -/
theorem mem_since {l : List ω} {a : α} (h : a ∈ since reset pick l) : ∃ o ∈ l, pick o = some a := by
  induction l with
  | nil => cases h
  | cons o l ih =>
    rw [since] at h
    split at h
    · cases h
    · rcases List.mem_append.mp h with h | h
      · obtain ⟨o', ho', hpick⟩ := ih h
        exact ⟨o', List.mem_cons_of_mem _ ho', hpick⟩
      · exact ⟨o, List.mem_cons_self, Option.mem_toList.mp h⟩

/-- The third list is an interleaving of the first two. -/
inductive Interleaves : List α → List α → List α → Prop where
  | nil : Interleaves [] [] []
  | left {l r w : List α} (a : α) : Interleaves l r w → Interleaves (l ++ [a]) r (w ++ [a])
  | right {l r w : List α} (a : α) : Interleaves l r w → Interleaves l (r ++ [a]) (w ++ [a])

/-- What the records of two kinds hold is interleaved. -/
theorem interleaves_since {f g w : ω → Option α}
    (h : ∀ o, (f o = none ∧ w o = g o) ∨ (g o = none ∧ w o = f o)) (log : List ω) :
    Interleaves (since (fun _ => false) f log) (since (fun _ => false) g log) (since (fun _ => false) w log) := by
  induction log with
  | nil => exact Interleaves.nil
  | cons o log ih =>
    simp only [since, Bool.false_eq_true, if_false]
    rcases h o with ⟨h1, h2⟩ | ⟨h1, h2⟩
    · rw [h1, h2, Option.toList_none, List.append_nil]
      cases g o with
      | none => simpa using ih
      | some a => exact ih.right a
    · rw [h1, h2, Option.toList_none, List.append_nil]
      cases f o with
      | none => simpa using ih
      | some a => exact ih.left a

end Xinu
