import Mathlib.Tactic.Common

/-!
# Machine integers

The C types of the source that the model keeps as `Int`: a value is stored through the conversion of its type, which wraps
round at the type's width.
-/

namespace Xinu

/-- Conversion to a signed 32-bit integer. -/
def int32 (x : Int) : Int := (x + 2147483648) % 4294967296 - 2147483648

/-- Conversion to a signed 16-bit integer. -/
def int16 (x : Int) : Int := (x + 32768) % 65536 - 32768

/-- Conversion to an unsigned 32-bit integer. -/
def uint32 (x : Int) : Nat := (x % 4294967296).toNat

/-- A value of the type is kept. -/
theorem int32_of_range {x : Int} (h1 : -2147483648 ≤ x) (h2 : x ≤ 2147483647) : int32 x = x := by
  unfold int32
  omega

theorem int32_range (x : Int) : -2147483648 ≤ int32 x ∧ int32 x ≤ 2147483647 := by
  unfold int32
  omega

theorem int16_range (x : Int) : -32768 ≤ int16 x ∧ int16 x ≤ 32767 := by
  unfold int16
  omega

end Xinu
