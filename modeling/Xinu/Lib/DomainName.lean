import Mathlib.Data.List.Infix
import Mathlib.Tactic.Common

/-!
# Domain names

A name is a sequence of labels. On the wire a label follows a byte with its length, the name ends at a zero byte, and in place of
the rest of a name a pointer may stand to where in the message the rest is. `Expands` says what labels a name in a message has
and where it ends; names whose pointers go in a circle, and names that leave the message, have none.
-/

namespace Xinu.DomainName

def dot : UInt8 := 46

/-- A name with a dot behind each label. -/
def dotted (labels : List (List UInt8)) : List UInt8 := labels.flatMap fun l => l ++ [dot]

/-- A name with a dot between labels. -/
def text (labels : List (List UInt8)) : List UInt8 := (dotted labels).dropLast

/-- A name on the wire, without pointers. -/
def wire : List (List UInt8) → List UInt8
  | [] => [0]
  | l :: labels => UInt8.ofNat l.length :: (l ++ wire labels)

/-- The labels of the name at an offset of a message, and the offset behind it. -/
inductive Expands (msg : List UInt8) : Nat → List (List UInt8) → Nat → Prop
  | root {o : Nat} (h : msg[o]? = some 0) : Expands msg o [] (o + 1)
  | label {o e : Nat} {llen : UInt8} {l : List UInt8} {labels : List (List UInt8)} (h : msg[o]? = some llen) (h0 : llen ≠ 0)
      (h63 : llen ≤ 63) (hl : (msg.drop (o + 1)).take llen.toNat = l) (hlen : l.length = llen.toNat)
      (hrest : Expands msg (o + 1 + llen.toNat) labels e) : Expands msg o (l :: labels) e
  | pointer {o e : Nat} {high low : UInt8} {labels : List (List UInt8)} (h : msg[o]? = some high) (h63 : 63 < high)
      (h' : msg[o + 1]? = some low) (hrest : Expands msg ((256 * high.toNat + low.toNat) % 0x4000) labels e) :
      Expands msg o labels (o + 2)

@[simp] theorem dotted_nil : dotted [] = [] := rfl

theorem dotted_cons (l : List UInt8) (labels : List (List UInt8)) : dotted (l :: labels) = l ++ dot :: dotted labels := by
  simp [dotted]

/-- A name that has a label ends with a dot. -/
theorem dotted_eq_text {labels : List (List UInt8)} (h : labels ≠ []) : dotted labels = text labels ++ [dot] := by
  obtain ⟨init, last, rfl⟩ := (List.eq_nil_or_concat labels).resolve_left h
  have hsplit : dotted (init.concat last) = (dotted init ++ last) ++ [dot] := by simp [dotted]
  rw [text, hsplit, List.dropLast_concat]

theorem length_dotted {labels : List (List UInt8)} (h : labels ≠ []) : (dotted labels).length = (text labels).length + 1 := by
  rw [dotted_eq_text h, List.length_append]
  rfl

theorem dotted_eq_nil_iff {labels : List (List UInt8)} : dotted labels = [] ↔ labels = [] := by
  cases labels <;> simp [dotted_cons]

theorem length_wire (labels : List (List UInt8)) : (wire labels).length = (dotted labels).length + 1 := by
  induction labels with
  | nil => rfl
  | cons l labels ih =>
    simp only [wire, dotted_cons, List.length_cons, List.length_append, ih]

variable {msg : List UInt8}

/-- A name in a message has one expansion. -/
theorem Expands.unique {o e e' : Nat} {labels labels' : List (List UInt8)} (h : Expands msg o labels e)
    (h' : Expands msg o labels' e') : labels = labels' ∧ e = e' := by
  induction h generalizing labels' e' with
  | root h =>
    cases h' with
    | root _ => exact ⟨rfl, rfl⟩
    | label hb h0 =>
      rw [h] at hb
      exact absurd (Option.some.inj hb).symm h0
    | pointer hb h63 =>
      rw [h] at hb
      obtain rfl := Option.some.inj hb
      exact absurd h63 (by decide)
  | label h h0 h63 hl hlen _ ih =>
    cases h' with
    | root hb =>
      rw [h] at hb
      exact absurd (Option.some.inj hb) h0
    | label hb _ _ hl' _ hrest' =>
      rw [h] at hb
      obtain rfl := Option.some.inj hb
      obtain ⟨rfl, rfl⟩ := ih hrest'
      exact ⟨by rw [← hl, ← hl'], rfl⟩
    | pointer hb h63' =>
      rw [h] at hb
      obtain rfl := Option.some.inj hb
      exact absurd h63 (UInt8.not_le.mpr h63')
  | pointer h h63 hlow _ ih =>
    cases h' with
    | root hb =>
      rw [h] at hb
      obtain rfl := Option.some.inj hb
      exact absurd h63 (by decide)
    | label hb _ h63' =>
      rw [h] at hb
      obtain rfl := Option.some.inj hb
      exact absurd h63' (UInt8.not_le.mpr h63)
    | pointer hb _ hlow' hrest' =>
      rw [h] at hb
      rw [hlow] at hlow'
      obtain rfl := Option.some.inj hb
      obtain rfl := Option.some.inj hlow'
      exact ⟨(ih hrest').1, rfl⟩

/-- A name ends behind where it begins. -/
theorem Expands.lt {o e : Nat} {labels : List (List UInt8)} (h : Expands msg o labels e) : o < e := by
  induction h with
  | root _ => exact Nat.lt_succ_self _
  | label _ _ _ _ _ _ ih => omega
  | pointer _ _ _ _ _ => exact Nat.lt_add_of_pos_right (by decide)

/-- The name that stands on the wire. -/
theorem expands_wire (labels : List (List UInt8)) : ∀ (o : Nat) (rest : List UInt8), (∀ l ∈ labels, 1 ≤ l.length ∧ l.length ≤ 63) →
    msg.drop o = wire labels ++ rest → Expands msg o labels (o + (wire labels).length) := by
  induction labels with
  | nil =>
    intro o rest _ h
    refine Expands.root ?_
    rw [← List.head?_drop, h]
    rfl
  | cons l labels ih =>
    intro o rest hlabels h
    obtain ⟨h1, h63⟩ := hlabels l List.mem_cons_self
    have hnat : (UInt8.ofNat l.length).toNat = l.length := UInt8.toNat_ofNat_of_lt' (by
      have : UInt8.size = 256 := rfl
      omega)
    have htail : msg.drop (o + 1) = l ++ (wire labels ++ rest) := by
      have hdrop : (msg.drop o).tail = msg.drop (o + 1) := List.tail_drop
      rw [← hdrop, h, wire]
      simp
    have hrest : msg.drop (o + 1 + l.length) = wire labels ++ rest := by
      rw [← List.drop_drop, htail, List.drop_left]
    have hexp := ih (o + 1 + l.length) rest (fun l' hl' => hlabels l' (List.mem_cons_of_mem _ hl')) hrest
    have hend : o + (wire (l :: labels)).length = o + 1 + l.length + (wire labels).length := by
      rw [wire, List.length_cons, List.length_append]
      omega
    have hbyte : msg[o]? = some (UInt8.ofNat l.length) := by
      rw [← List.head?_drop, h]
      rfl
    rw [hend]
    refine Expands.label hbyte ?_ ?_ ?_ hnat.symm (by rw [hnat]; exact hexp)
    · intro h0
      rw [h0] at hnat
      exact absurd hnat (by simp only [UInt8.toNat_zero]; omega)
    · rw [UInt8.le_iff_toNat_le, hnat]
      exact h63
    · rw [htail, hnat, List.take_left]

end Xinu.DomainName
