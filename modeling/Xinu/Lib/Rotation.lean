import Mathlib.Data.List.Rotate

/-!
# Taking turns

An entry is taken from the front of a queue and goes behind the others. The entries that have had their turn go round the queue
as it was at first (`Turns.snoc`), and as many of them in a row as the queue has entries are all of these, each once
(`Turns.round`).
-/

namespace Rotation

variable {α : Type} {order l rest : List α} {x : α} {n i : Nat}

/-- The entries of `l` go round `order`. -/
def Turns (order l : List α) : Prop := ∀ i x, l[i]? = some x → order[i % order.length]? = some x

/-- The entry at the front goes behind the others. -/
theorem rotate_front (h : order.rotate n = x :: rest) : order.rotate (n + 1) = rest ++ [x] := by
  rw [← List.rotate_rotate, h, List.rotate_cons_succ, List.rotate_zero]

theorem Turns.nil (order : List α) : Turns order [] := by
  intro i x hx
  cases hx

/-- The entry at the front has its turn. -/
theorem Turns.snoc (h : Turns order l) (hx : order.rotate l.length = x :: rest) : Turns order (l ++ [x]) := by
  have hpos : 0 < order.length := by
    rw [← List.length_rotate order l.length, hx]
    exact Nat.succ_pos _
  intro i y hy
  rcases Nat.lt_trichotomy i l.length with hi | rfl | hi
  · rw [List.getElem?_append_left hi] at hy
    exact h i y hy
  · have hfront : (order.rotate l.length)[0]? = some x := by
      rw [hx]
      rfl
    rw [List.getElem?_rotate hpos, Nat.zero_add] at hfront
    rw [List.getElem?_concat_length] at hy
    exact hfront.trans hy
  · have hlen : (l ++ [x]).length ≤ i := by
      rw [List.length_append]
      exact hi
    rw [List.getElem?_eq_none hlen] at hy
    cases hy

/-- What is taken in a row, as many entries as the queue has. -/
theorem Turns.window (h : Turns order l) (hi : i + order.length ≤ l.length) :
    (l.drop i).take order.length = order.rotate i := by
  refine List.ext_getElem ?_ (fun j hj hj' => ?_)
  · rw [List.length_take, List.length_drop, List.length_rotate]
    omega
  · have hlt : i + j < l.length := by
      rw [List.length_rotate] at hj'
      omega
    have hturn := h (i + j) l[i + j] (List.getElem?_eq_getElem hlt)
    rw [List.getElem_take, List.getElem_drop, List.getElem_rotate]
    refine Option.some.inj ?_
    rw [← hturn, ← List.getElem?_eq_getElem, Nat.add_comm i j]

/-- They are all the entries of the queue, each once. -/
theorem Turns.round (h : Turns order l) (hi : i + order.length ≤ l.length) : ((l.drop i).take order.length).Perm order := by
  rw [h.window hi]
  exact order.rotate_perm i

end Rotation
