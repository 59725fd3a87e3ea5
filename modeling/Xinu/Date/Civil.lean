import Mathlib.Tactic.IntervalCases
import Mathlib.Tactic.Ring
import Xinu.Date.Ascdate

/-!
# The date of an instant

Up to the year 2099 the leap years of the code are those of the calendar, and the two loops find the year and the month of an instant.
-/

namespace Xinu

namespace Ascdate

open Calendar

variable {y n m : Nat}

theorem isleap_iff (h : 1970 ≤ y) (h' : y < 2100) : isleap y ↔ leap y := by
  unfold isleap leap
  omega

theorem yearSize_eq (h : 1970 ≤ y) (h' : y < 2100) : yearSize y = yearDays y * 86400 := by
  rw [yearSize, yearDays, if_congr (isleap_iff h h') rfl rfl]
  rfl

/-- The days before a year. -/
theorem extent_yearDays (h : n ≤ 130) : extent yearDays 1970 n = 365 * n + (n + 1) / 4 := by
  induction n with
  | zero => rfl
  | succ n ih =>
    have hleap : leap (1970 + n) ↔ (n + 2) % 4 = 0 := by
      unfold leap
      omega
    rw [extent, ih (by omega), yearDays, if_congr hleap rfl rfl]
    split <;> omega

theorem monthSize_eq (h : 1970 ≤ y) (h' : y < 2100) (hm : m < 12) : monthSize y m = monthDays y m * 86400 := by
  rw [monthSize, if_congr (and_congr_right fun _ => isleap_iff h h') rfl rfl]
  interval_cases m <;> simp [monthDays, dt_msize, SECPERDY]
  split <;> rfl

/-- The years of a 32-bit count of seconds: the loop ends. -/
theorem extent_yearSize (n : Nat) : extent yearSize 1970 n = (365 * n + (n + 1) / 4) * 86400 := by
  induction n with
  | zero => rfl
  | succ n ih =>
    have hleap : isleap (1970 + n) ↔ (n + 2) % 4 = 0 := by
      unfold isleap
      omega
    rw [extent, ih, yearSize, if_congr hleap rfl rfl, SECPERDY]
    split <;> omega

/-- The year of an instant. -/
theorem year_found {now : Nat} (h : now < 4102444800) : ∃ n, n < 130 ∧ (walk yearSize 137 1970 now).1 = 1970 + n ∧
    (365 * n + (n + 1) / 4) * 86400 + (walk yearSize 137 1970 now).2 = now ∧
      (walk yearSize 137 1970 now).2 < yearDays (1970 + n) * 86400 := by
  have hlt : now < extent yearSize 1970 137 := by
    rw [extent_yearSize]
    omega
  obtain ⟨n, hn, h1, h2, h3⟩ := walk_spec hlt
  rw [extent_yearSize] at h2
  have hn' : n < 130 := by omega
  rw [yearSize_eq (by omega) (by omega)] at h3
  exact ⟨n, hn', h1, h2, h3⟩

/-- The month of what is left of a year. -/
theorem month_found {now : Nat} (hy : 1970 ≤ y) (hy' : y < 2100) (h : now < yearDays y * 86400) :
    (walk (monthSize y) 12 0 now).1 < 12 ∧
      extent (monthDays y) 0 (walk (monthSize y) 12 0 now).1 * 86400 + (walk (monthSize y) 12 0 now).2 = now ∧
      (walk (monthSize y) 12 0 now).2 < monthDays y (walk (monthSize y) 12 0 now).1 * 86400 := by
  have hextent : ∀ m, m ≤ 12 → extent (monthSize y) 0 m = extent (monthDays y) 0 m * 86400 := by
    intro m hm
    rw [← extent_mul]
    exact extent_congr fun i hi => monthSize_eq hy hy' (by omega)
  have hlt : now < extent (monthSize y) 0 12 := by
    rw [hextent 12 (Nat.le_refl _), extent_monthDays]
    exact h
  obtain ⟨m, hm, h1, h2, h3⟩ := walk_spec hlt
  rw [Nat.zero_add] at h1 h3
  rw [hextent m hm.le] at h2
  rw [monthSize_eq hy hy' hm] at h3
  rw [h1]
  exact ⟨hm, h2, h3⟩

/-- The parts that are printed. -/
def Fields.civil (f : Fields) : Civil := ⟨f.dayofweek, f.month, f.day, f.hour, f.minute, f.second, f.year⟩

/-- The parts of a time of the day. -/
theorem time_parts (s : Nat) : s / 86400 * 86400 + s % 86400 / 3600 * 3600 + s % 86400 % 3600 / 60 * 60 + s % 86400 % 3600 % 60 = s := by
  omega

/-- A year of 365 days moves the day of the week by one. -/
theorem weekday_shift (n k days : Nat) : (4 + n + k + days) % 7 = weekday (365 * n + k + days) := by
  unfold weekday
  omega

/-- Without daylight saving, the parts are those of the instant. -/
theorem fields_off {now : Nat} (h : now < 4102444800) : Describes (fields DATE_DST_OFF now).1.civil now ∧
    (fields DATE_DST_OFF now).1.year < 2100 := by
  obtain ⟨n, hn, hy, hsum, hrest⟩ := year_found h
  have hmonth := @month_found (1970 + n) (walk yearSize 137 1970 now).2 (by omega) (by omega) hrest
  have hfields : (fields DATE_DST_OFF now).1 =
      let r := walk yearSize 137 1970 now
      let m := walk (monthSize r.1) 12 0 r.2
      ⟨(4 + (r.1 - 1970) + (r.1 - 1969) / 4 + r.2 / 86400) % 7, m.1, m.2 / 86400 + 1, m.2 % 86400 / 3600, m.2 % 86400 % 3600 / 60,
        m.2 % 86400 % 3600 % 60, r.1⟩ := rfl
  rw [hfields]
  dsimp only
  rw [hy]
  generalize (walk yearSize 137 1970 now).2 = r at hsum hrest hmonth
  generalize walk (monthSize (1970 + n)) 12 0 r = p at hmonth
  obtain ⟨m, s⟩ := p
  obtain ⟨hm, hsum', hrest'⟩ := hmonth
  dsimp only at hm hsum' hrest' ⊢
  have hdays : r / 86400 = extent (monthDays (1970 + n)) 0 m + s / 86400 := by omega
  have hday : dayNumber (1970 + n) m (s / 86400 + 1) = 365 * n + (n + 1) / 4 + r / 86400 := by
    rw [dayNumber, Nat.add_sub_cancel_left, extent_yearDays hn.le, Nat.add_sub_cancel, hdays, Nat.add_assoc]
  have hinstant : dayNumber (1970 + n) m (s / 86400 + 1) * 86400 + s % 86400 / 3600 * 3600 + s % 86400 % 3600 / 60 * 60 +
      s % 86400 % 3600 % 60 = now := by
    rw [hday, hdays]
    calc _ = (365 * n + (n + 1) / 4) * 86400 + (extent (monthDays (1970 + n)) 0 m * 86400 +
          (s / 86400 * 86400 + s % 86400 / 3600 * 3600 + s % 86400 % 3600 / 60 * 60 + s % 86400 % 3600 % 60)) := by ring
      _ = now := by rw [time_parts, hsum', hsum]
  have hleap : 1970 + n - 1969 = n + 1 := by omega
  have hweekday : (4 + (1970 + n - 1970) + (1970 + n - 1969) / 4 + r / 86400) % 7 = weekday (dayNumber (1970 + n) m (s / 86400 + 1)) := by
    rw [hday, hleap, Nat.add_sub_cancel_left]
    exact weekday_shift n _ _
  refine ⟨⟨Nat.le_add_right 1970 n, hm, ⟨Nat.succ_pos _, Nat.div_lt_of_lt_mul ?_⟩, ?_, ?_, Nat.mod_lt _ (by decide), hinstant, hweekday⟩,
    ?_⟩
  · rw [Nat.mul_comm]
    exact hrest'
  · exact Nat.div_lt_of_lt_mul (Nat.mod_lt s (by decide))
  · exact Nat.div_lt_of_lt_mul (Nat.mod_lt _ (by decide))
  · exact Nat.add_lt_add_left hn 1970

/-! ## Moving ahead -/

/-- The first day of a month is the day behind the last of the month before. -/
theorem dayNumber_next_month (y m : Nat) : dayNumber y (m + 1) 1 = dayNumber y m (monthDays y m) + 1 := by
  have hpos : 1 ≤ monthDays y m := by
    unfold monthDays
    split <;> (try split) <;> omega
  rw [dayNumber, dayNumber, extent, Nat.zero_add]
  omega

theorem dayNumber_next_day {d : Nat} (hd : 1 ≤ d) (y m : Nat) : dayNumber y m (d + 1) = dayNumber y m d + 1 := by
  rw [dayNumber, dayNumber]
  omega

/-- An hour later, on the same day and past its last hour. -/
theorem hour_later {n h mi se now : Nat} (hat : n * 86400 + h * 3600 + mi * 60 + se = now) :
    n * 86400 + (h + 1) * 3600 + mi * 60 + se = now + 3600 ∧
      (h = 23 → (n + 1) * 86400 + 0 * 3600 + mi * 60 + se = now + 3600) := by
  subst hat
  refine ⟨by ring, ?_⟩
  rintro rfl
  ring

theorem msize_eq (hm : 2 ≤ m) (hm' : m ≤ 10) (y : Nat) : dt_msize.getD m 0 = monthDays y m := by
  interval_cases m <;> rfl

/-- Neither the day of the week nor the year is moved. -/
theorem ahead_kept (f : Fields) : (ahead f).dayofweek = f.dayofweek ∧ (ahead f).year = f.year := by
  rw [ahead]
  split
  · split <;> exact ⟨rfl, rfl⟩
  · exact ⟨rfl, rfl⟩

/-- Between March and November the hour, the day and the month are moved as the calendar says. -/
theorem ahead_spec {f : Fields} {now : Nat} (h : Describes f.civil now) (hm : 2 ≤ f.month) (hm' : f.month ≤ 10) :
    Describes { (ahead f).civil with weekday := weekday ((now + 3600) / 86400) } (now + 3600) := by
  have hyear : 1970 ≤ f.year := h.year
  have hday : 1 ≤ f.day ∧ f.day ≤ monthDays f.year f.month := h.day
  have hhour : f.hour < 24 := h.hour
  have hminute : f.minute < 60 := h.minute
  have hsecond : f.second < 60 := h.second
  have hinstant : dayNumber f.year f.month f.day * 86400 + f.hour * 3600 + f.minute * 60 + f.second = now := h.instant
  have hmonth : f.month < 12 := h.month
  -- The parts that the code moves make up the instant one hour later.
  have hmoved : ∀ mo d hr, mo < 12 → 1 ≤ d ∧ d ≤ monthDays f.year mo → hr < 24 →
      dayNumber f.year mo d * 86400 + hr * 3600 + f.minute * 60 + f.second = now + 3600 →
      Describes ⟨weekday ((now + 3600) / 86400), mo, d, hr, f.minute, f.second, f.year⟩ (now + 3600) := by
    intro mo d hr hmo hd hhr hat
    refine ⟨hyear, hmo, hd, hhr, hminute, hsecond, hat, ?_⟩
    have hdiv : (now + 3600) / 86400 = dayNumber f.year mo d := by omega
    exact congrArg weekday hdiv
  rw [ahead, msize_eq hm hm' f.year]
  by_cases hlate : f.hour + 1 > 23
  · by_cases hlast : f.day + 1 > monthDays f.year f.month
    · rw [if_pos hlate, if_pos hlast]
      have hnext := dayNumber_next_month f.year f.month
      have heq : f.day = monthDays f.year f.month := by omega
      rw [← heq] at hnext
      have hat := (hour_later hinstant).2 (by omega)
      rw [← hnext] at hat
      refine hmoved (f.month + 1) 1 0 (by omega) ⟨Nat.le_refl 1, ?_⟩ (by decide) hat
      unfold monthDays
      split <;> (try split) <;> omega
    · rw [if_pos hlate, if_neg hlast]
      have hnext := dayNumber_next_day hday.1 f.year f.month
      have hat := (hour_later hinstant).2 (by omega)
      rw [← hnext] at hat
      exact hmoved f.month (f.day + 1) 0 hmonth (by omega) (by decide) hat
  · rw [if_neg hlate]
    exact hmoved f.month f.day (f.hour + 1) hmonth hday (by omega) (hour_later hinstant).1

end Ascdate

end Xinu
