import Mathlib.Data.List.Nodup
import Mathlib.Logic.Function.Basic

/-!
# Chains of nodes

A chain is a list of nodes, each with a link to the next one, that ends with the null pointer. `Chain.push` and `Chain.pop` are the
edits at its head, `Chain.snoc` and `Chain.splice` those at its end.
-/

namespace Table

variable {ι : Type} {next f : ι → ι} {nil a b x y : ι} {l l' : List ι}

/-- Following the links from `a` one meets the nodes of `l`, and then the null pointer. -/
def Chain (next : ι → ι) (nil : ι) : ι → List ι → Prop
  | a, [] => a = nil
  | a, x :: l => a = x ∧ x ≠ nil ∧ Chain next nil (next x) l

namespace Chain

/-- Frame rule: a chain whose nodes keep their links is kept. -/
theorem frame (h : Chain next nil a l) (hn : ∀ x ∈ l, f x = next x) : Chain f nil a l := by
  induction l generalizing a with
  | nil => exact h
  | cons x l ih =>
    obtain ⟨h1, h2, h3⟩ := h
    refine ⟨h1, h2, ?_⟩
    rw [hn x List.mem_cons_self]
    exact ih h3 fun y hy => hn y (List.mem_cons_of_mem x hy)

/-- A node outside the chain is written. -/
theorem update [DecidableEq ι] (h : Chain next nil a l) (hx : x ∉ l) (b : ι) : Chain (Function.update next x b) nil a l := by
  refine h.frame fun y hy => Function.update_of_ne ?_ _ _
  rintro rfl
  exact hx hy

/-- A node goes to the front. -/
theorem push [DecidableEq ι] (h : Chain next nil a l) (hx : x ∉ l) (hnil : x ≠ nil) :
    Chain (Function.update next x a) nil x (x :: l) := by
  refine ⟨rfl, hnil, ?_⟩
  rw [Function.update_self]
  exact h.update hx a

/-- The first node is taken off. -/
theorem pop (h : Chain next nil a (x :: l)) : a = x ∧ Chain next nil (next a) l := by
  obtain ⟨rfl, _, h3⟩ := h
  exact ⟨rfl, h3⟩

theorem ne_nil (h : Chain next nil a l) : ∀ x ∈ l, x ≠ nil := by
  induction l generalizing a with
  | nil => nofun
  | cons y l ih =>
    intro x hx
    rcases List.mem_cons.mp hx with rfl | hx
    · exact h.2.1
    · exact ih h.2.2 x hx

/-- The head is the null pointer exactly when the chain is empty. -/
theorem head_eq_nil (h : Chain next nil a l) : a = nil ↔ l = [] := by
  cases l with
  | nil => exact ⟨fun _ => rfl, fun _ => h⟩
  | cons x l =>
    obtain ⟨rfl, h2, _⟩ := h
    exact ⟨fun e => absurd e h2, nofun⟩

/-- Behind each node is the rest of the chain. -/
theorem drop {k : Nat} (h : Chain next nil a l) (hk : l[k]? = some x) : Chain next nil (next x) (l.drop (k + 1)) := by
  induction l generalizing a k with
  | nil => cases hk
  | cons y l ih =>
    cases k with
    | zero =>
      obtain rfl := Option.some.inj hk
      exact h.2.2
    | succ k => exact ih h.2.2 hk

/-- The last link of a chain is the null pointer. -/
theorem last (h : Chain next nil a (l ++ [x])) : next x = nil := by
  induction l generalizing a with
  | nil => exact h.2.2
  | cons y l ih => exact ih h.2.2

/-- A second chain goes behind the last node. -/
theorem splice [DecidableEq ι] (h : Chain next nil a (l ++ [x])) (h' : Chain next nil b l') (hd : (l ++ [x] ++ l').Nodup) :
    Chain (Function.update next x b) nil a (l ++ [x] ++ l') := by
  induction l generalizing a with
  | nil =>
    obtain ⟨h1, h2, _⟩ := h
    refine ⟨h1, h2, ?_⟩
    have hx : x ∉ l' := by simpa using (List.nodup_cons.mp hd).1
    rw [Function.update_self]
    exact h'.update hx b
  | cons y l ih =>
    obtain ⟨h1, h2, h3⟩ := h
    obtain ⟨hy, hd'⟩ := List.nodup_cons.mp hd
    refine ⟨h1, h2, ?_⟩
    have hne : y ≠ x := by
      rintro rfl
      simp at hy
    rw [Function.update_of_ne hne]
    exact ih h3 hd'

/-- A node goes to the end. -/
theorem snoc [DecidableEq ι] (h : Chain next nil a (l ++ [y])) (hx : next x = nil) (hnil : x ≠ nil)
    (hd : (l ++ [y] ++ [x]).Nodup) : Chain (Function.update next y x) nil a (l ++ [y] ++ [x]) :=
  h.splice ⟨rfl, hnil, hx⟩ hd

/-- A chain is determined by its head. -/
theorem unique (h : Chain next nil a l) (h' : Chain next nil a l') : l = l' := by
  induction l generalizing a l' with
  | nil => exact (h'.head_eq_nil.mp h).symm
  | cons x l ih =>
    cases l' with
    | nil => exact absurd (h.1.symm.trans h') h.2.1
    | cons y l' =>
      obtain ⟨rfl, _, h3⟩ := h
      obtain ⟨rfl, _, h3'⟩ := h'
      rw [ih h3 h3']

end Chain

end Table
