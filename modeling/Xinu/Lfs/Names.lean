import Mathlib.Data.List.GetD
import Mathlib.Data.List.OfFn
import Mathlib.Data.List.TakeWhile
import Xinu.Lfs.FileSystem

/-!
# Names of files

The loops of `lfsopen` compare a name with a name field byte by byte, up to the NUL byte, and copy it with the NUL byte. For a name
that leaves space for it they compare and set the name in the field.
-/

namespace Xinu

namespace Lfs

/-- The name in a name field: the bytes before the NUL byte. -/
def fieldName (field : Fin 16 → UInt8) : List UInt8 := (List.ofFn field).takeWhile (· ≠ 0)

/-- A name that leaves space for a NUL byte. -/
structure IsName (name : List UInt8) : Prop where
  nul : ∀ c ∈ name, c ≠ 0
  short : name.length < 16

section Names

variable {field : Fin 16 → UInt8} {name : List UInt8}

/-- What `lfsopen` takes as the name. -/
theorem isName_takeWhile (h : (name.takeWhile (· ≠ 0)).length < 16) : IsName (name.takeWhile (· ≠ 0)) :=
  ⟨fun c hc => by simpa using List.mem_takeWhile_imp hc, h⟩

/-- The field from a byte on. -/
theorem drop_field {i : Nat} (hi : i < 16) : (List.ofFn field).drop i = nameByte field i :: (List.ofFn field).drop (i + 1) := by
  have hlen : i < (List.ofFn field).length := by rwa [List.length_ofFn]
  rw [List.drop_eq_getElem_cons hlen, List.getElem_ofFn, nameByte, dif_pos hi]

/-- The comparison from a byte on. The induction is on the rest of the name. -/
theorem sameName_drop {i : Nat} (hnul : ∀ c ∈ name, c ≠ 0) (hi : i + name.length < 16) :
    sameName field i name = true ↔ ((List.ofFn field).drop i).takeWhile (· ≠ 0) = name := by
  induction name generalizing i with
  | nil =>
    rw [List.length_nil, Nat.add_zero] at hi
    rw [drop_field hi, sameName, beq_iff_eq]
    by_cases hz : nameByte field i = 0
    · simp [hz]
    · simp [hz]
  | cons c name ih =>
    have hc : c ≠ 0 := hnul c List.mem_cons_self
    rw [List.length_cons] at hi
    rw [drop_field (by omega), sameName, Bool.and_eq_true, beq_iff_eq, ih (fun c hc => hnul c (List.mem_cons_of_mem _ hc)) (by omega)]
    by_cases he : nameByte field i = c
    · simp [he, hc]
    · by_cases hz : nameByte field i = 0
      · simp [hz, Ne.symm hc]
      · simp [hz, he]

/-- The loop that compares names compares with the name in the field. -/
theorem sameName_iff (h : IsName name) : sameName field 0 name = true ↔ fieldName field = name := by
  rw [sameName_drop h.nul (by simpa using h.short), List.drop_zero, fieldName]

/-- The loop that copies a name writes its bytes and the NUL byte. -/
theorem nameByte_copyName (h : name.length < 16) {i : Nat} (hi : i ≤ name.length) :
    nameByte (copyName field name) i = name.getD i 0 := by
  rw [nameByte, dif_pos (by omega), copyName]
  by_cases hlt : i < name.length
  · rw [if_pos hlt]
  · rw [if_neg hlt, if_pos (by simp only; omega), List.getD_eq_default _ _ (Nat.le_of_not_lt hlt)]

/-- It sets the name in the field. -/
theorem fieldName_copyName (h : IsName name) : fieldName (copyName field name) = name := by
  refine (sameName_iff h).mp ?_
  have hcopy : ∀ (l : List UInt8) (i : Nat), name.drop i = l → i ≤ name.length → sameName (copyName field name) i l = true := by
    intro l
    induction l with
    | nil =>
      intro i hi hle
      rw [sameName, beq_iff_eq, nameByte_copyName h.short hle, List.getD_eq_default _ _ (List.drop_eq_nil_iff.mp hi)]
    | cons c l ih =>
      intro i hi hle
      have hlt : i < name.length := by
        by_contra hge
        rw [List.drop_eq_nil_of_le (Nat.le_of_not_lt hge)] at hi
        cases hi
      rw [List.drop_eq_getElem_cons hlt] at hi
      injection hi with hc hl
      rw [sameName, nameByte_copyName h.short hle, List.getD_eq_getElem _ _ hlt, hc, beq_self_eq_true, Bool.true_and]
      exact ih (i + 1) hl hlt
  exact hcopy name 0 rfl (Nat.zero_le _)

end Names

end Lfs

end Xinu
