import Mathlib.Data.List.Range
import Mathlib.Logic.Function.Basic

/-!
# Ring buffers

A queue in an array of `n` places: the index of the first item, and the number of items. `items` is what the queue holds;
storing at the index behind the last item appends (`items_push`), and advancing the index of the first item takes it off
(`items_pop`).
-/

namespace Xinu.Ring

variable {α : Type} {n head count : Int} {q : Int → α}

/-- The index behind an index. -/
def next (n i : Int) : Int := if i + 1 ≥ n then 0 else i + 1

/-- The index `k` places before an index. -/
def back (n i k : Int) : Int := if i - k < 0 then i - k + n else i - k

/-- What the queue holds, first item first. -/
def items (n : Int) (q : Int → α) (head count : Int) : List α :=
  (List.range count.toNat).map (fun i : Nat => q ((head + i) % n))

/-- The indices of a queue are in order. -/
structure Valid (n head tail count : Int) : Prop where
  low : 0 ≤ count
  high : count ≤ n
  first : 0 ≤ head ∧ head < n
  last : tail = (head + count) % n

theorem next_of_lt {i : Int} (h : i + 1 < n) : next n i = i + 1 := if_neg (by omega)

theorem next_eq (h0 : 0 ≤ head) (h1 : head < n) : next n head = (head + 1) % n := by
  unfold next
  split
  · have : head + 1 = n := by omega
    rw [this, Int.emod_self]
  · rw [Int.emod_eq_of_lt (by omega) (by omega)]

/-- Indices of different items are different. -/
theorem index_inj {i j : Int} (hi : 0 ≤ i ∧ i < n) (hj : 0 ≤ j ∧ j < n) (h : (head + i) % n = (head + j) % n) : i = j := by
  have h1 := Int.emod_emod_of_dvd (head + i - (head + j)) (Int.dvd_refl n)
  have h2 : (head + i - (head + j)) % n = 0 := by rw [Int.sub_emod, h, Int.sub_self, Int.zero_emod]
  obtain ⟨k, hk⟩ := Int.dvd_of_emod_eq_zero h2
  have hn : 0 < n := by omega
  have hk0 : k = 0 := by
    have h3 : n * k < n * 1 := by omega
    have h4 : n * (-1) < n * k := by omega
    have h5 := Int.lt_of_mul_lt_mul_left h3 (Int.le_of_lt hn)
    have h6 := Int.lt_of_mul_lt_mul_left h4 (Int.le_of_lt hn)
    omega
  rw [hk0, Int.mul_zero] at hk
  omega

namespace Valid

variable {tail : Int}

theorem tail_range (V : Valid n head tail count) : 0 ≤ tail ∧ tail < n := by
  have hn : 0 < n := by
    have := V.first
    omega
  rw [V.last]
  exact ⟨Int.emod_nonneg _ (by omega), Int.emod_lt_of_pos _ hn⟩

/-- An empty queue. -/
theorem empty (hn : 0 < n) : Valid n 0 0 0 := ⟨Int.le_refl 0, by omega, ⟨Int.le_refl 0, hn⟩, by simp⟩

theorem push (V : Valid n head tail count) (hc : count < n) : Valid n head (next n tail) (count + 1) := by
  have ht := V.tail_range
  have := V.low
  refine ⟨by omega, by omega, V.first, ?_⟩
  rw [next_eq ht.1 ht.2, V.last, Int.emod_add_emod, Int.add_assoc]

theorem pop (V : Valid n head tail count) (hc : 0 < count) : Valid n (next n head) tail (count - 1) := by
  have hh := V.first
  have := V.high
  have hn : 0 < n := by omega
  rw [next_eq hh.1 hh.2]
  refine ⟨by omega, by omega, ⟨Int.emod_nonneg _ (by omega), Int.emod_lt_of_pos _ hn⟩, ?_⟩
  rw [V.last, Int.emod_add_emod]
  congr 1
  omega

/-- Storing behind the last item appends. -/
theorem items_push (V : Valid n head tail count) (hc : count < n) (x : α) :
    items n (Function.update q tail x) head (count + 1) = items n q head count ++ [x] := by
  have hlow := V.low
  have hsucc : (count + 1).toNat = count.toNat + 1 := by omega
  have hlast : (head + (count.toNat : Int)) % n = tail := by
    rw [V.last]
    congr 1
    omega
  rw [items, hsucc, List.range_succ, List.map_append, List.map_singleton, hlast, Function.update_self, items]
  congr 1
  refine List.map_congr_left (fun i hi => ?_)
  have hi' := List.mem_range.mp hi
  refine Function.update_of_ne (fun e => ?_) _ _
  rw [V.last] at e
  have := index_inj ⟨by omega, by omega⟩ ⟨hlow, hc⟩ e
  omega

/-- The first item, and the rest. -/
theorem items_pop (V : Valid n head tail count) (hc : 0 < count) :
    items n q head count = q head :: items n q (next n head) (count - 1) := by
  have hh := V.first
  have hsucc : count.toNat = (count - 1).toNat + 1 := by omega
  rw [items, hsucc, List.range_succ_eq_map, List.map_cons, List.map_map, items, next_eq hh.1 hh.2]
  congr 1
  · show q ((head + 0) % n) = q head
    rw [Int.add_zero, Int.emod_eq_of_lt hh.1 hh.2]
  · refine List.map_congr_left (fun i _ => ?_)
    show q ((head + ((i + 1 : Nat) : Int)) % n) = q (((head + 1) % n + i) % n)
    rw [Int.emod_add_emod]
    congr 2
    omega

/-- The last items are taken back. -/
theorem retract (V : Valid n head tail count) {k : Int} (h0 : 0 ≤ k) (hk : k ≤ count) :
    Valid n head (back n tail k) (count - k) := by
  have ht := V.tail_range
  have hh := V.high
  refine ⟨by omega, by omega, V.first, ?_⟩
  have hmod : (head + (count - k)) % n = (tail - k) % n := by
    rw [V.last, Int.emod_sub_emod]
    congr 1
    omega
  rw [hmod, back]
  split
  · next hneg =>
    rw [← Int.add_emod_right, Int.emod_eq_of_lt (by omega) (by omega)]
  · next hneg => rw [Int.emod_eq_of_lt (by omega) (by omega)]

end Valid

/-- The first items. -/
theorem items_take {q : Int → α} {j : Int} (hj : j ≤ count) : items n q head j = (items n q head count).take j.toNat := by
  have hle : j.toNat ≤ count.toNat := by omega
  rw [items, items, ← List.map_take, List.take_range, Nat.min_eq_left hle]

/-! ## A queue and its content -/

/-- The queue holds the list. -/
structure Holds (n : Int) (q : Int → α) (head tail : Int) (l : List α) : Prop where
  valid : Valid n head tail l.length
  items : items n q head l.length = l

namespace Holds

variable {tail : Int} {l : List α} {x : α}

/-- An item is stored where there is room. -/
theorem put (H : Holds n q head tail l) (hl : (l.length : Int) < n) (x : α) :
    Holds n (Function.update q tail x) head (next n tail) (l ++ [x]) := by
  constructor
  · rw [List.length_append, List.length_singleton]
    exact H.valid.push hl
  · rw [List.length_append, List.length_singleton]
    refine (H.valid.items_push hl x).trans ?_
    rw [H.items]

/-- The first item is taken off. -/
theorem pop (H : Holds n q head tail (x :: l)) : q head = x ∧ Holds n q (next n head) tail l := by
  have hpos : (0 : Int) < (x :: l).length := by simp
  have hp := H.valid.items_pop hpos (q := q)
  rw [H.items] at hp
  obtain ⟨h1, h2⟩ := List.cons.inj hp
  have hlen : ((x :: l).length : Int) - 1 = l.length := by simp
  refine ⟨h1.symm, ?_, ?_⟩
  · rw [← hlen]
    exact H.valid.pop hpos
  · rw [← hlen]
    exact h2.symm

/-- The last items are taken back. -/
theorem retract (H : Holds n q head tail l) {k : Int} (h0 : 0 ≤ k) (hk : k ≤ l.length) :
    Holds n q head (back n tail k) (l.take (l.length - k.toNat)) := by
  have hlen : ((l.take (l.length - k.toNat)).length : Int) = l.length - k := by
    rw [List.length_take]
    omega
  constructor
  · rw [hlen]
    exact H.valid.retract h0 hk
  · have hle : (l.length : Int) - k ≤ l.length := by omega
    rw [hlen, items_take hle, H.items]
    congr 1
    omega

/-- The number of items is the distance of the indices, as long as a place is free. -/
theorem distance (H : Holds n q head tail l) (hl : (l.length : Int) < n) : (tail - head) % n = l.length := by
  have hdiff : head + (l.length : Int) - head = l.length := by omega
  rw [H.valid.last, Int.emod_sub_emod, hdiff]
  exact Int.emod_eq_of_lt (Int.natCast_nonneg _) hl

theorem head_eq_tail_iff (H : Holds n q head tail l) (hl : (l.length : Int) < n) : head = tail ↔ l = [] := by
  have hd := H.distance hl
  constructor
  · intro e
    rw [e, Int.sub_self, Int.zero_emod] at hd
    exact List.length_eq_zero_iff.mp (by omega)
  · rintro rfl
    have hh := H.valid.first
    have hl := H.valid.last
    rw [List.length_nil, Int.natCast_zero, Int.add_zero, Int.emod_eq_of_lt hh.1 hh.2] at hl
    exact hl.symm

end Holds

theorem items_length (q : Int → α) : (items n q head count).length = count.toNat := by
  rw [items, List.length_map, List.length_range]

end Xinu.Ring
