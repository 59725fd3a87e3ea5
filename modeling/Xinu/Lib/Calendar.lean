import Mathlib.Tactic.Common

/-!
# The Gregorian calendar

Time is counted in seconds from the start of the year 1970, which began on a Thursday. A year and a month of it are found by walking over
units as long as whole ones are left (`walk_spec`). `Describes` says that the parts of a date and time are those of an instant; months are
counted from 0, and so are the days of the week, from Sunday on.
-/

namespace Calendar

/-! ## Units of different sizes -/

variable {size : Nat → Nat} {left k now n : Nat}

/-- The size of `n` units from the unit `k` on. -/
def extent (size : Nat → Nat) (k : Nat) : Nat → Nat
  | 0 => 0
  | n + 1 => extent size k n + size (k + n)

/-- Walk over at most `left` whole units from the unit `k` on: the unit reached and the rest. -/
def walk (size : Nat → Nat) : (left k now : Nat) → Nat × Nat
  | 0, k, now => (k, now)
  | left + 1, k, now => if size k > now then (k, now) else walk size left (k + 1) (now - size k)

/-- A first unit and the others. -/
theorem extent_succ' (size : Nat → Nat) (k n : Nat) : extent size k (n + 1) = size k + extent size (k + 1) n := by
  induction n with
  | zero => simp [extent]
  | succ n ih =>
    rw [extent, ih, extent, Nat.add_assoc, show k + (n + 1) = k + 1 + n by omega]

/-- What is walked over is whole units, and what is left is less than a unit. -/
theorem walk_spec (h : now < extent size k left) : ∃ n, n < left ∧ (walk size left k now).1 = k + n ∧
    extent size k n + (walk size left k now).2 = now ∧ (walk size left k now).2 < size (k + n) := by
  induction left generalizing k now with
  | zero => exact absurd h (Nat.not_lt_zero _)
  | succ left ih =>
    rw [walk]
    split
    · next hgt => exact ⟨0, Nat.succ_pos left, rfl, Nat.zero_add now, hgt⟩
    · next hle =>
      rw [extent_succ'] at h
      obtain ⟨n, hn, h1, h2, h3⟩ := @ih (k + 1) (now - size k) (by omega)
      have hk : k + 1 + n = k + (n + 1) := by omega
      rw [hk] at h1 h3
      refine ⟨n + 1, Nat.succ_lt_succ hn, h1, ?_, h3⟩
      rw [extent_succ']
      omega

/-- Units of a multiple of the size. -/
theorem extent_mul (size : Nat → Nat) (c k n : Nat) : extent (fun i => size i * c) k n = extent size k n * c := by
  induction n with
  | zero => exact (Nat.zero_mul c).symm
  | succ n ih => rw [extent, extent, ih, Nat.add_mul]

theorem extent_congr {size' : Nat → Nat} (h : ∀ i, i < n → size (k + i) = size' (k + i)) : extent size k n = extent size' k n := by
  induction n with
  | zero => rfl
  | succ n ih => rw [extent, extent, ih fun i hi => h i (Nat.lt_succ_of_lt hi), h n (Nat.lt_succ_self n)]

/-- More units are no smaller. -/
theorem extent_mono {m : Nat} (h : n ≤ m) : extent size k n ≤ extent size k m := by
  induction h with
  | refl => exact Nat.le_refl _
  | step _ ih => exact Nat.le_trans ih (Nat.le_add_right _ _)

/-! ## Dates -/

/-- A leap year. -/
def leap (y : Nat) : Prop := y % 4 = 0 ∧ (y % 100 ≠ 0 ∨ y % 400 = 0)

instance (y : Nat) : Decidable (leap y) := inferInstanceAs (Decidable (_ ∧ _))

/-- The days of a year. -/
def yearDays (y : Nat) : Nat := if leap y then 366 else 365

/-- The days of a month. -/
def monthDays (y : Nat) : Nat → Nat
  | 1 => if leap y then 29 else 28
  | 3 | 5 | 8 | 10 => 30
  | _ => 31

/-- The days before a date. -/
def dayNumber (y m d : Nat) : Nat := extent yearDays 1970 (y - 1970) + extent (monthDays y) 0 m + (d - 1)

/-- The day of the week of a day. -/
def weekday (n : Nat) : Nat := (n + 4) % 7

/-- The twelve months make up the year. -/
theorem extent_monthDays (y : Nat) : extent (monthDays y) 0 12 = yearDays y := by
  simp only [extent, monthDays, yearDays]
  split <;> rfl

/-- The first Sunday of a month. -/
def firstSunday (y m : Nat) : Nat := 1 + (7 - weekday (dayNumber y m 1)) % 7

theorem weekday_firstSunday (y m : Nat) : weekday (dayNumber y m (firstSunday y m)) = 0 ∧ 1 ≤ firstSunday y m ∧ firstSunday y m ≤ 7 := by
  have hday : dayNumber y m (firstSunday y m) = dayNumber y m 1 + (7 - weekday (dayNumber y m 1)) % 7 := by
    rw [dayNumber, firstSunday, dayNumber]
    omega
  rw [hday, firstSunday, weekday, weekday]
  omega

/-- The parts of a date and time. -/
structure Civil where
  weekday : Nat
  month : Nat
  day : Nat
  hour : Nat
  minute : Nat
  second : Nat
  year : Nat

/-- The parts are those of one instant. -/
structure Describes (c : Civil) (t : Nat) : Prop where
  year : 1970 ≤ c.year
  month : c.month < 12
  day : 1 ≤ c.day ∧ c.day ≤ monthDays c.year c.month
  hour : c.hour < 24
  minute : c.minute < 60
  second : c.second < 60
  instant : dayNumber c.year c.month c.day * 86400 + c.hour * 3600 + c.minute * 60 + c.second = t
  weekday : c.weekday = weekday (dayNumber c.year c.month c.day)

/-- The day of the week of an instant. -/
theorem Describes.weekday_eq {c : Civil} {t : Nat} (h : Describes c t) : c.weekday = Calendar.weekday (t / 86400) := by
  have hday : dayNumber c.year c.month c.day = t / 86400 := by
    have h1 := h.instant
    have h2 := h.hour
    have h3 := h.minute
    have h4 := h.second
    omega
  rw [h.weekday, hday]

end Calendar
