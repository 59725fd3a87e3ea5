import Mathlib.Data.List.Nodup
import Mathlib.Logic.Function.Basic

/-!
# Singly linked lists in memory

Every node has a link and a value. `Seg next val nil a l b` says that following the links from `a` one meets the nodes of
`l`, with their values, none of them the null pointer, and then `b`; a null-terminated list is a segment that ends in the null
pointer. `Seg.frame` is the frame rule and `Seg.relink` the edit of the last link.
-/

namespace Table

variable {ι β : Type} {next next' : ι → ι} {val val' : ι → β} {nil a b c : ι}

/-- Following the links from `a` one meets the nodes of `l`, and then `b`. -/
def Seg (next : ι → ι) (val : ι → β) (nil : ι) : ι → List (ι × β) → ι → Prop
  | a, [], b => a = b
  | a, x :: l, b => a = x.1 ∧ x.1 ≠ nil ∧ val x.1 = x.2 ∧ Seg next val nil (next x.1) l b

@[simp] theorem seg_nil : Seg next val nil a [] b ↔ a = b := Iff.rfl

@[simp] theorem seg_cons {x : ι × β} {l : List (ι × β)} :
    Seg next val nil a (x :: l) b ↔ a = x.1 ∧ x.1 ≠ nil ∧ val x.1 = x.2 ∧ Seg next val nil (next x.1) l b := Iff.rfl

/-- A segment cut in two. -/
theorem seg_append {l₁ l₂ : List (ι × β)} :
    Seg next val nil a (l₁ ++ l₂) b ↔ ∃ c, Seg next val nil a l₁ c ∧ Seg next val nil c l₂ b := by
  induction l₁ generalizing a with
  | nil => simp
  | cons x l ih => simp only [List.cons_append, seg_cons, ih]; tauto

/-- Frame rule: a segment whose nodes keep their links and values is kept. -/
theorem Seg.frame {l : List (ι × β)} (h : Seg next val nil a l b) (hn : ∀ x ∈ l, next' x.1 = next x.1)
    (hv : ∀ x ∈ l, val' x.1 = val x.1) : Seg next' val' nil a l b := by
  induction l generalizing a with
  | nil => exact h
  | cons x l ih =>
    obtain ⟨h1, h2, h3, h4⟩ := h
    refine ⟨h1, h2, (hv x (by simp)).trans h3, ?_⟩
    rw [hn x (by simp)]
    exact ih h4 (fun y hy => hn y (List.mem_cons_of_mem x hy)) (fun y hy => hv y (List.mem_cons_of_mem x hy))

/-- The nodes of a segment are not null. -/
theorem Seg.ne_nil {l : List (ι × β)} (h : Seg next val nil a l b) : ∀ x ∈ l, x.1 ≠ nil := by
  induction l generalizing a with
  | nil => simp
  | cons y l ih =>
    intro x hx
    rcases List.mem_cons.mp hx with rfl | hx
    · exact h.2.1
    · exact ih h.2.2.2 x hx

/-- The value of a node of a segment. -/
theorem Seg.val_eq {l : List (ι × β)} (h : Seg next val nil a l b) : ∀ x ∈ l, val x.1 = x.2 := by
  induction l generalizing a with
  | nil => simp
  | cons y l ih =>
    intro x hx
    rcases List.mem_cons.mp hx with rfl | hx
    · exact h.2.2.1
    · exact ih h.2.2.2 x hx

/-- The start of a null-terminated list that is not null is its first node. -/
theorem Seg.cons_of_ne {l : List (ι × β)} (h : Seg next val nil a l nil) (ha : a ≠ nil) :
    ∃ v l', l = (a, v) :: l' ∧ val a = v ∧ Seg next val nil (next a) l' nil := by
  cases l with
  | nil => exact absurd h ha
  | cons x l =>
    obtain ⟨rfl, _, h3, h4⟩ := h
    exact ⟨x.2, l, rfl, h3, h4⟩

/-- A null-terminated list is determined by its start. -/
theorem Seg.unique {l₁ l₂ : List (ι × β)} (h₁ : Seg next val nil a l₁ nil) (h₂ : Seg next val nil a l₂ nil) : l₁ = l₂ := by
  induction l₁ generalizing a l₂ with
  | nil =>
    cases l₂ with
    | nil => rfl
    | cons y l₂ => exact absurd (h₂.1.symm.trans h₁) h₂.2.1
  | cons x l₁ ih =>
    cases l₂ with
    | nil => exact absurd (h₁.1.symm.trans h₂) h₁.2.1
    | cons y l₂ =>
      obtain ⟨hx, _, hxv, hxl⟩ := h₁
      obtain ⟨hy, _, hyv, hyl⟩ := h₂
      have e : x.1 = y.1 := hx.symm.trans hy
      have ev : x = y := Prod.ext e (by rw [← hxv, ← hyv, e])
      subst ev
      rw [ih hxl hyl]

/-- Pointing the last node of a segment elsewhere. -/
theorem Seg.relink [DecidableEq ι] {l : List (ι × β)} {x : ι × β} (h : Seg next val nil a (l ++ [x]) b)
    (hd : ((l ++ [x]).map Prod.fst).Nodup) : Seg (Function.update next x.1 c) val nil a (l ++ [x]) c := by
  obtain ⟨d, h1, h2⟩ := seg_append.mp h
  have hne : ∀ y ∈ l, y.1 ≠ x.1 := by
    intro y hy
    simp only [List.map_append, List.map_cons, List.map_nil] at hd
    exact (List.nodup_append.mp hd).2.2 y.1 (List.mem_map_of_mem hy) x.1 (by simp)
  refine seg_append.mpr ⟨d, h1.frame (fun y hy => Function.update_of_ne (hne y hy) _ _) (fun _ _ => rfl), ?_⟩
  obtain ⟨h3, h4, h5, _⟩ := h2
  exact ⟨h3, h4, h5, Function.update_self _ _ _⟩

end Table
