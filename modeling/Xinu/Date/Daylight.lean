import Xinu.Date.Civil

/-!
# Daylight saving

The automatic calculation finds the second Sunday of March and the first Sunday of November from the day of the week of the first of January,
and compares the parts of a date and time with them. It is on exactly between the two instants (`autoDst_iff`).
-/

namespace Xinu

namespace Ascdate

open Calendar

/-- 2:00 standard time on the second Sunday of March. -/
def dstStart (y : Nat) : Nat := dayNumber y 2 (firstSunday y 2 + 7) * 86400 + 2 * 3600

/-- 2:00 daylight time, which is 1:00 standard time, on the first Sunday of November. -/
def dstEnd (y : Nat) : Nat := dayNumber y 10 (firstSunday y 10) * 86400 + 1 * 3600

/-- An instant in the daylight saving time of some year. -/
def Daylight (now : Nat) : Prop := ∃ y, 1970 ≤ y ∧ dstStart y ≤ now ∧ now < dstEnd y

variable {y m d hour : Nat}

/-- The days before a month. -/
theorem extent_months (hm : m ≤ 11) : extent (monthDays y) 0 m =
    [0, 31, 59, 90, 120, 151, 181, 212, 243, 273, 304, 334].getD m 0 + if 2 ≤ m ∧ leap y then 1 else 0 := by
  by_cases hy : leap y <;> interval_cases m <;> simp [extent, monthDays, hy]

/-- The first of January. -/
theorem weekday_january (h : 1970 ≤ y) (h' : y < 2100) :
    (4 + (y - 1970) + (y - 1969) / 4) % 7 = weekday (extent yearDays 1970 (y - 1970)) := by
  obtain ⟨n, rfl⟩ : ∃ n, y = 1970 + n := ⟨y - 1970, by omega⟩
  rw [Nat.add_sub_cancel_left, extent_yearDays (by omega), show 1970 + n - 1969 = n + 1 by omega]
  exact weekday_shift n ((n + 1) / 4) 0

/-- The second Sunday of March. -/
theorem marss_eq (h : 1970 ≤ y) (h' : y < 2100) :
    (if (weekday (extent yearDays 1970 (y - 1970)) + dt_msize.getD 0 0 + dt_msize.getD 1 0 + if isleap y then 1 else 0) % 7 = 0 then 8
      else 15 - (weekday (extent yearDays 1970 (y - 1970)) + dt_msize.getD 0 0 + dt_msize.getD 1 0 + if isleap y then 1 else 0) % 7) =
    firstSunday y 2 + 7 := by
  have hmarch : extent (monthDays y) 0 2 = 59 + if leap y then 1 else 0 := by
    rw [extent_months (by decide), if_congr (and_iff_right (Nat.le_refl 2)) rfl rfl]
    rfl
  have hsizes : dt_msize.getD 0 0 = 31 ∧ dt_msize.getD 1 0 = 28 := ⟨rfl, rfl⟩
  rw [firstSunday, dayNumber, hmarch, if_congr (isleap_iff h h') rfl rfl, hsizes.1, hsizes.2, weekday, weekday]
  generalize extent yearDays 1970 (y - 1970) = K
  generalize (if leap y then 1 else 0) = L
  split <;> omega

/-- The first Sunday of November. -/
theorem novfs_eq (h : 1970 ≤ y) (h' : y < 2100) :
    (if (if isleap y then (dt_msize.take 10).foldl (· + ·) (weekday (extent yearDays 1970 (y - 1970))) + 1
        else (dt_msize.take 10).foldl (· + ·) (weekday (extent yearDays 1970 (y - 1970)))) % 7 = 0 then 1
      else 8 - (if isleap y then (dt_msize.take 10).foldl (· + ·) (weekday (extent yearDays 1970 (y - 1970))) + 1
        else (dt_msize.take 10).foldl (· + ·) (weekday (extent yearDays 1970 (y - 1970)))) % 7) =
    firstSunday y 10 := by
  have hnovember : extent (monthDays y) 0 10 = 304 + if leap y then 1 else 0 := by
    rw [extent_months (by decide), if_congr (and_iff_right (by decide)) rfl rfl]
    rfl
  have hsum : ∀ jan1, (dt_msize.take 10).foldl (· + ·) jan1 = jan1 + 304 := by
    intro jan1
    simp [dt_msize]
  rw [firstSunday, dayNumber, hnovember, hsum, if_congr (isleap_iff h h') rfl rfl, weekday, weekday]
  generalize extent yearDays 1970 (y - 1970) = K
  by_cases hy : leap y
  · simp only [if_pos hy]
    split <;> omega
  · simp only [if_neg hy]
    split <;> omega

/-- The calculation, with the two Sundays. -/
theorem autoDst_eq (h : 1970 ≤ y) (h' : y < 2100) : autoDst y (weekday (extent yearDays 1970 (y - 1970))) m d hour =
    if m = 11 ∨ m = 0 ∨ m = 1 then false
    else if m > 2 ∧ m < 10 then true
    else if m = 2 then
      if d > firstSunday y 2 + 7 then true
      else if d = firstSunday y 2 + 7 ∧ hour ≥ 2 then true
      else false
    else if m = 10 then
      if d > firstSunday y 10 then false
      else if d = firstSunday y 10 ∧ hour ≥ 1 then false
      else true
    else false := by
  rw [autoDst]
  simp only [marss_eq h h', novfs_eq h h']

/-- A day and hour at or behind another. -/
def AtLeast (day hour day' hour' : Nat) : Prop := day < day' ∨ day = day' ∧ hour ≤ hour'

/-- A day of an earlier month. -/
theorem dayNumber_month_lt {m' : Nat} (hm : m < m') (hd : 1 ≤ d) (hd' : d ≤ monthDays y m) (d' : Nat) :
    dayNumber y m d < dayNumber y m' d' := by
  have hmonths : extent (monthDays y) 0 (m + 1) ≤ extent (monthDays y) 0 m' := extent_mono hm
  rw [extent, Nat.zero_add] at hmonths
  rw [dayNumber, dayNumber]
  omega

theorem atLeast_of_lt {n n' : Nat} (h : n < n') (k k' : Nat) : AtLeast n k n' k' := .inl h

theorem not_atLeast_of_lt {n n' : Nat} (h : n' < n) (k k' : Nat) : ¬AtLeast n k n' k' := by
  unfold AtLeast
  omega

/-- Two days of one month. -/
theorem atLeast_month {d' k k' : Nat} (hd : 1 ≤ d) (hd' : 1 ≤ d') :
    AtLeast (dayNumber y m d) k (dayNumber y m d') k' ↔ d' > d ∨ d' = d ∧ k' ≥ k := by
  rw [AtLeast, dayNumber, dayNumber]
  omega

/-- The calculation is on between the two days and hours. -/
theorem autoDst_iff (h : 1970 ≤ y) (h' : y < 2100) (hm : m < 12) (hd : 1 ≤ d) (hd' : d ≤ monthDays y m) :
    autoDst y (weekday (extent yearDays 1970 (y - 1970))) m d hour = true ↔
      AtLeast (dayNumber y 2 (firstSunday y 2 + 7)) 2 (dayNumber y m d) hour ∧
        ¬AtLeast (dayNumber y 10 (firstSunday y 10)) 1 (dayNumber y m d) hour := by
  obtain ⟨_, hmarch, hmarch'⟩ := weekday_firstSunday y 2
  obtain ⟨_, hnovember, hnovember'⟩ := weekday_firstSunday y 10
  have hsizes : monthDays y 2 = 31 ∧ monthDays y 10 = 30 := ⟨rfl, rfl⟩
  -- Every other month lies before or behind the month of a Sunday.
  have hbefore : ∀ m' d', m < m' → dayNumber y m d < dayNumber y m' d' := by
    intro m' d' hlt
    exact dayNumber_month_lt hlt hd hd' d'
  rw [autoDst_eq h h']
  rcases Nat.lt_trichotomy m 2 with hlt | rfl | hgt
  · rw [if_pos (by omega)]
    exact iff_of_false nofun fun hon => not_atLeast_of_lt (hbefore 2 _ hlt) _ _ hon.1
  · have hoff := not_atLeast_of_lt (hbefore 10 (firstSunday y 10) (by decide)) 1 hour
    rw [if_neg (by decide), if_neg (by decide), if_pos rfl, and_iff_left hoff, atLeast_month (by omega) hd]
    simp
  · have hbehind : dayNumber y 2 (firstSunday y 2 + 7) < dayNumber y m d := dayNumber_month_lt hgt (by omega) (by omega) d
    rw [and_iff_right (atLeast_of_lt hbehind 2 hour)]
    rcases Nat.lt_trichotomy m 10 with hlt | rfl | hgt'
    · rw [if_neg (by omega), if_pos ⟨hgt, hlt⟩]
      exact iff_of_true rfl (not_atLeast_of_lt (hbefore 10 _ hlt) _ _)
    · rw [if_neg (by decide), if_neg (by decide), if_neg (by decide), if_pos rfl, atLeast_month hnovember hd]
      simp [imp_iff_not_or]
    · have hbehind' : dayNumber y 10 (firstSunday y 10) < dayNumber y m d := dayNumber_month_lt hgt' hnovember (by omega) d
      rw [if_pos (by omega)]
      exact iff_of_false nofun (not_not_intro (atLeast_of_lt hbehind' 1 hour))

/-! ## Instants -/

/-- A date lies in its year. -/
theorem dayNumber_lt (hy : 1970 ≤ y) (hm : m < 12) (hd : 1 ≤ d) (hd' : d ≤ monthDays y m) :
    dayNumber y m d < extent yearDays 1970 (y - 1970 + 1) := by
  have hmonth : extent (monthDays y) 0 (m + 1) ≤ extent (monthDays y) 0 12 := extent_mono hm
  rw [extent_monthDays, extent, Nat.zero_add] at hmonth
  have hyear : 1970 + (y - 1970) = y := by omega
  rw [dayNumber, extent, hyear]
  omega

theorem dayNumber_november_lt (hy : 1970 ≤ y) : dayNumber y 10 (firstSunday y 10) < extent yearDays 1970 (y - 1970 + 1) := by
  obtain ⟨_, h1, h7⟩ := weekday_firstSunday y 10
  exact dayNumber_lt hy (by decide) h1 (by change _ ≤ 30; omega)

/-- The daylight saving time of an instant is that of its year. -/
theorem describes_year_eq {c : Civil} {now : Nat} (h : Describes c now) (hy : 1970 ≤ y) (hstart : dstStart y ≤ now)
    (hend : now < dstEnd y) : y = c.year := by
  have hlow : ∀ y m d, extent yearDays 1970 (y - 1970) ≤ dayNumber y m d := by
    intro y m d
    rw [dayNumber, Nat.add_assoc]
    exact Nat.le_add_right _ _
  have hinstant := h.instant
  have hhour := h.hour
  have hminute := h.minute
  have hsecond := h.second
  rcases Nat.lt_trichotomy y c.year with hlt | heq | hgt
  · have hnovember := dayNumber_november_lt hy
    have hmono : extent yearDays 1970 (y - 1970 + 1) ≤ extent yearDays 1970 (c.year - 1970) := extent_mono (by omega)
    have hday := hlow c.year c.month c.day
    rw [dstEnd] at hend
    omega
  · exact heq
  · have hday := dayNumber_lt h.year h.month h.day.1 h.day.2
    have hmono : extent yearDays 1970 (c.year - 1970 + 1) ≤ extent yearDays 1970 (y - 1970) := extent_mono (by have := h.year; omega)
    have hmarch := hlow y 2 (firstSunday y 2 + 7)
    rw [dstStart] at hstart
    omega

/-- An instant lies at or behind an hour of a day. -/
theorem describes_atLeast_iff {c : Civil} {now : Nat} (h : Describes c now) (n : Nat) (hhour : hour < 24) :
    n * 86400 + hour * 3600 ≤ now ↔ AtLeast n hour (dayNumber c.year c.month c.day) c.hour := by
  have hinstant := h.instant
  have h1 := h.hour
  have h2 := h.minute
  have h3 := h.second
  rw [AtLeast]
  omega

/-- Daylight saving by the parts of the instant. -/
theorem daylight_iff {c : Civil} {now : Nat} (h : Describes c now) : Daylight now ↔
    AtLeast (dayNumber c.year 2 (firstSunday c.year 2 + 7)) 2 (dayNumber c.year c.month c.day) c.hour ∧
      ¬AtLeast (dayNumber c.year 10 (firstSunday c.year 10)) 1 (dayNumber c.year c.month c.day) c.hour := by
  rw [← describes_atLeast_iff h _ (by decide), ← describes_atLeast_iff h _ (by decide), Nat.not_le]
  constructor
  · rintro ⟨y, hy, hstart, hend⟩
    obtain rfl := describes_year_eq h hy hstart hend
    exact ⟨hstart, hend⟩
  · rintro ⟨hstart, hend⟩
    exact ⟨c.year, h.year, hstart, hend⟩

end Ascdate

end Xinu
