import Mathlib.Data.List.Chain
import Mathlib.Data.List.Nodup
import Mathlib.Logic.Function.Basic

/-!
# Linked lists in a table

A table keeps, for every node, the node that follows it and the node that precedes it. `Linked next prev l` says the nodes
of `l` are linked both ways in that order, sentinels included; `Linked.insert` and `Linked.remove` are the two edits, and
`Linked.congr` is the frame rule. `walk` reads a list back by following `next`.
-/

namespace Table

variable {ι : Type} {next prev next' prev' : ι → ι}

/-- Consecutive nodes of `l` are linked both ways. -/
def Linked (next prev : ι → ι) (l : List ι) : Prop := l.IsChain (fun x y => next x = y ∧ prev y = x)

/-- The links of a list are those of its two halves and of the seam between them. -/
theorem linked_split {A B : List ι} {x y : ι} :
    Linked next prev (A ++ x :: y :: B) ↔
      Linked next prev (A ++ [x]) ∧ (next x = y ∧ prev y = x) ∧ Linked next prev (y :: B) :=
  List.isChain_append_cons_cons

/-- Two neighbours point to each other. -/
theorem Linked.seam {A B : List ι} {x y : ι} (h : Linked next prev (A ++ x :: y :: B)) : next x = y ∧ prev y = x :=
  (linked_split.mp h).2.1

/-- Frame rule: a list reads `next` of every node but the last and `prev` of every node but the first. -/
theorem Linked.congr {l : List ι} (h : Linked next prev l) (hn : ∀ x ∈ l.dropLast, next' x = next x)
    (hp : ∀ y ∈ l.tail, prev' y = prev y) : Linked next' prev' l := by
  induction l with
  | nil => exact List.isChain_nil
  | cons x l ih =>
    cases l with
    | nil => exact List.isChain_singleton x
    | cons y l =>
      obtain ⟨⟨h1, h2⟩, h3⟩ := List.isChain_cons_cons.mp h
      refine List.isChain_cons_cons.mpr ⟨⟨?_, ?_⟩, ih h3 ?_ ?_⟩
      · rw [hn x (by simp), h1]
      · rw [hp y (by simp), h2]
      · intro z hz
        exact hn z (by simp [hz])
      · intro z hz
        exact hp z (List.mem_cons_of_mem y hz)

/-- A list none of whose nodes is written keeps its links. -/
theorem Linked.frame {l : List ι} (h : Linked next prev l) (hn : ∀ x ∈ l, next' x = next x)
    (hp : ∀ y ∈ l, prev' y = prev y) : Linked next' prev' l :=
  h.congr (fun x hx => hn x (List.dropLast_subset _ hx)) (fun y hy => hp y (List.mem_of_mem_tail hy))

section Edit

variable [DecidableEq ι]

/-- Linking a new node `p` between the neighbours `x` and `y`. -/
theorem Linked.insert {A B : List ι} {x y p : ι} (h : Linked next prev (A ++ x :: y :: B))
    (hd : (A ++ x :: y :: B).Nodup) (hp : p ∉ A ++ x :: y :: B) :
    Linked (Function.update (Function.update next p y) x p) (Function.update (Function.update prev p x) y p)
      (A ++ x :: p :: y :: B) := by
  obtain ⟨h1, _, h3⟩ := linked_split.mp h
  simp only [List.mem_append, List.mem_cons, not_or] at hp
  obtain ⟨hpA, hpx, hpy, hpB⟩ := hp
  have hxA : ∀ z ∈ A, z ≠ x := fun z hz => (List.nodup_append.mp hd).2.2 z hz x (by simp)
  have hyA : ∀ z ∈ A, z ≠ y := fun z hz => (List.nodup_append.mp hd).2.2 z hz y (by simp)
  have hxy := (List.nodup_append.mp hd).2.1
  simp only [List.nodup_cons, List.mem_cons, not_or] at hxy
  obtain ⟨⟨hxny, hxB⟩, hyB, _⟩ := hxy
  refine linked_split.mpr ⟨h1.congr ?_ ?_, ⟨?_, ?_⟩, List.isChain_cons_cons.mpr ⟨⟨?_, ?_⟩, h3.congr ?_ ?_⟩⟩
  · intro z hz
    simp only [List.dropLast_concat] at hz
    rw [Function.update_of_ne (hxA z hz), Function.update_of_ne (ne_of_mem_of_not_mem hz hpA)]
  · intro z hz
    have hz' : z ∈ A ++ [x] := List.mem_of_mem_tail hz
    simp only [List.mem_append, List.mem_singleton] at hz'
    rw [Function.update_of_ne, Function.update_of_ne]
    · rintro rfl
      exact hz'.elim hpA hpx
    · rintro rfl
      exact hz'.elim (fun hA => hyA z hA rfl) (fun e => hxny e.symm)
  · exact Function.update_self _ _ _
  · rw [Function.update_of_ne hpy, Function.update_self]
  · rw [Function.update_of_ne hpx, Function.update_self]
  · exact Function.update_self _ _ _
  · intro z hz
    have hz' : z ∈ y :: B := List.dropLast_subset _ hz
    simp only [List.mem_cons] at hz'
    rw [Function.update_of_ne, Function.update_of_ne]
    · rintro rfl
      exact hz'.elim hpy hpB
    · rintro rfl
      exact hz'.elim hxny hxB
  · intro z hz
    rw [Function.update_of_ne (ne_of_mem_of_not_mem hz hyB), Function.update_of_ne (ne_of_mem_of_not_mem hz hpB)]

/-- Unlinking the node `p` between the neighbours `x` and `y`. -/
theorem Linked.remove {A B : List ι} {x y p : ι} (h : Linked next prev (A ++ x :: p :: y :: B))
    (hd : (A ++ x :: p :: y :: B).Nodup) :
    Linked (Function.update next x y) (Function.update prev y x) (A ++ x :: y :: B) := by
  obtain ⟨h1, _, h3⟩ := linked_split.mp h
  have h4 : Linked next prev (y :: B) := (List.isChain_cons_cons.mp h3).2
  have hxA : ∀ z ∈ A, z ≠ x := fun z hz => (List.nodup_append.mp hd).2.2 z hz x (by simp)
  have hyA : ∀ z ∈ A, z ≠ y := fun z hz => (List.nodup_append.mp hd).2.2 z hz y (by simp)
  have hxy := (List.nodup_append.mp hd).2.1
  simp only [List.nodup_cons, List.mem_cons, not_or] at hxy
  obtain ⟨⟨_, hxny, hxB⟩, _, hyB, _⟩ := hxy
  refine linked_split.mpr ⟨h1.congr ?_ ?_, ⟨Function.update_self _ _ _, Function.update_self _ _ _⟩, h4.congr ?_ ?_⟩
  · intro z hz
    simp only [List.dropLast_concat] at hz
    rw [Function.update_of_ne (hxA z hz)]
  · intro z hz
    have hz' : z ∈ A ++ [x] := List.mem_of_mem_tail hz
    simp only [List.mem_append, List.mem_singleton] at hz'
    rw [Function.update_of_ne]
    rintro rfl
    exact hz'.elim (fun hA => hyA z hA rfl) (fun e => hxny e.symm)
  · intro z hz
    have hz' : z ∈ y :: B := List.dropLast_subset _ hz
    simp only [List.mem_cons] at hz'
    rw [Function.update_of_ne]
    rintro rfl
    exact hz'.elim hxny hxB
  · intro z hz
    rw [Function.update_of_ne (ne_of_mem_of_not_mem hz hyB)]

end Edit

/-- The nodes met by following `next` from `a`, at most `n` of them, up to the first that `stop` accepts. -/
def walk (next : ι → ι) (stop : ι → Bool) : Nat → ι → List ι
  | 0, _ => []
  | n + 1, a => if stop a then [] else a :: walk next stop n (next a)

/-- Walking from the head of a linked list reads its nodes back. -/
theorem Linked.walk_eq {stop : ι → Bool} {h t : ι} {l : List ι} {n : Nat} (hl : Linked next prev (h :: l ++ [t]))
    (hs : ∀ x ∈ l, stop x = false) (ht : stop t = true) (hn : l.length ≤ n) : walk next stop n (next h) = l := by
  induction l generalizing h n with
  | nil =>
    have hnx : next h = t := (List.isChain_cons_cons.mp hl).1.1
    cases n with
    | zero => rfl
    | succ n => simp [walk, hnx, ht]
  | cons x l ih =>
    obtain ⟨⟨hx, _⟩, hl'⟩ := List.isChain_cons_cons.mp hl
    cases n with
    | zero => simp at hn
    | succ n =>
      have := ih hl' (fun y hy => hs y (List.mem_cons_of_mem x hy)) (by simpa using hn)
      simp [walk, hx, hs x (by simp), this]

end Table
