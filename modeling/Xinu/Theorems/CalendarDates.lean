import Xinu.Date.Daylight
import Xinu.Date.Text

/-!
# Calendar dates

`ascdate` with automatic daylight saving prints the date and time of its instant, an hour ahead while daylight saving is on. The day of the
week is not moved with the hour: in the last standard hour of such a day it is that of the day before the date that is printed.
-/

namespace Xinu

namespace Ascdate

open Calendar

/-- What is printed is the text of the instant, an hour ahead while daylight saving is on. -/
def PrintsInstant (now : Nat) : Prop :=
  (Daylight now → ∃ c, Describes c (now + 3600) ∧ ascdate DATE_DST_AUTO now = some (text c true)) ∧
  (¬Daylight now → ∃ c, Describes c now ∧ ascdate DATE_DST_AUTO now = some (text c false))

variable {now : Nat}

/-- The automatic calculation, from the parts without daylight saving. -/
theorem fields_auto (now : Nat) : fields DATE_DST_AUTO now =
    let f := (fields DATE_DST_OFF now).1
    let dst := autoDst f.year ((4 + (f.year - 1970) + (f.year - 1969) / 4) % 7) f.month f.day f.hour
    (if dst then ahead f else f, dst) := rfl

/-- The calculation of an instant is on exactly in the daylight saving time of its year. -/
theorem autoDst_daylight {f : Fields} (hf : Describes f.civil now) (hyear : f.year < 2100) :
    autoDst f.year ((4 + (f.year - 1970) + (f.year - 1969) / 4) % 7) f.month f.day f.hour = true ↔ Daylight now := by
  have hyear' : 1970 ≤ f.year := hf.year
  rw [weekday_january hyear' hyear, daylight_iff hf]
  exact autoDst_iff hyear' hyear hf.month hf.day.1 hf.day.2

/-- Daylight saving is off in the months around the year boundary. -/
theorem autoDst_month {year jan1 month day hour : Nat} (h : autoDst year jan1 month day hour = true) : 2 ≤ month ∧ month ≤ 10 := by
  by_contra hm
  by_cases hoff : month = 11 ∨ month = 0 ∨ month = 1
  · have hfalse : autoDst year jan1 month day hour = false := if_pos hoff
    rw [hfalse] at h
    cases h
  · have hmid : ¬(month > 2 ∧ month < 10) := by omega
    have hmar : month ≠ 2 := by omega
    have hnov : month ≠ 10 := by omega
    have hfalse : autoDst year jan1 month day hour = false :=
      (if_neg hoff).trans ((if_neg hmid).trans ((if_neg hmar).trans (if_neg hnov)))
    rw [hfalse] at h
    cases h

/-- While daylight saving is on, the parts are moved ahead. -/
theorem fields_daylight (h : now < 4102444800) (hd : Daylight now) :
    fields DATE_DST_AUTO now = (ahead (fields DATE_DST_OFF now).1, true) ∧
      2 ≤ (fields DATE_DST_OFF now).1.month ∧ (fields DATE_DST_OFF now).1.month ≤ 10 := by
  obtain ⟨hf, hyear⟩ := fields_off h
  have hdst := (autoDst_daylight hf hyear).mpr hd
  rw [fields_auto]
  dsimp only
  rw [hdst]
  exact ⟨rfl, autoDst_month hdst⟩

theorem fields_standard (h : now < 4102444800) (hd : ¬Daylight now) :
    fields DATE_DST_AUTO now = ((fields DATE_DST_OFF now).1, false) := by
  obtain ⟨hf, hyear⟩ := fields_off h
  have hdst := (autoDst_daylight hf hyear).not.mpr hd
  rw [Bool.not_eq_true] at hdst
  rw [fields_auto]
  dsimp only
  rw [hdst]
  rfl

theorem weekday_lt (n : Nat) : weekday n < 7 := Nat.mod_lt _ (by decide)

/-- What is printed while daylight saving is on: the parts of the instant one hour later, and the day of the week of the instant. -/
theorem ascdate_daylight (h : now < 4102444800) (hd : Daylight now) : ∃ c, Describes c (now + 3600) ∧
    ascdate DATE_DST_AUTO now = some (text { c with weekday := weekday (now / 86400) } true) := by
  obtain ⟨hf, hyear⟩ := fields_off h
  obtain ⟨hfields, hm, hm'⟩ := fields_daylight h hd
  have hahead := ahead_spec hf hm hm'
  obtain ⟨hkept, hkept'⟩ := ahead_kept (fields DATE_DST_OFF now).1
  have hweekday : (ahead (fields DATE_DST_OFF now).1).dayofweek = weekday (now / 86400) := hkept.trans hf.weekday_eq
  have htext := @ascdate_eq DATE_DST_AUTO now (now + 3600) (weekday ((now + 3600) / 86400))
  rw [hfields] at htext
  have hprinted := htext hahead (hweekday ▸ weekday_lt _) (hkept' ▸ hyear)
  refine ⟨_, hahead, ?_⟩
  rw [hprinted, ← hweekday]
  rfl

/-- What is printed while daylight saving is off. -/
theorem ascdate_standard (h : now < 4102444800) (hd : ¬Daylight now) : ∃ c, Describes c now ∧
    ascdate DATE_DST_AUTO now = some (text c false) := by
  obtain ⟨hf, hyear⟩ := fields_off h
  have hweekday : (fields DATE_DST_OFF now).1.dayofweek = weekday (now / 86400) := hf.weekday_eq
  have htext := @ascdate_eq DATE_DST_AUTO now now (fields DATE_DST_OFF now).1.dayofweek
  rw [fields_standard h hd] at htext
  exact ⟨_, hf, htext hf (hweekday ▸ weekday_lt _) hyear⟩

/-- The day one hour later. -/
theorem day_later (now : Nat) : (now + 3600) / 86400 = now / 86400 + if now % 86400 / 3600 = 23 then 1 else 0 := by
  split <;> omega

theorem dnam_injective : ∀ m < 7, ∀ n < 7, dt_dnam.getD m [] = dt_dnam.getD n [] → m = n := by decide

/-- The text tells the day of the week. -/
theorem weekday_of_text {c c' : Civil} {dst dst' : Bool} (h : c.weekday < 7) (h' : c'.weekday < 7) (he : text c dst = text c' dst') :
    c.weekday = c'.weekday := by
  rw [text, text] at he
  obtain ⟨hname, _⟩ := List.append_inj he ((length_dnam _ h).trans (length_dnam _ h').symm)
  exact dnam_injective _ h _ h' hname

/-- In the last standard hour of a day with daylight saving, the day of the week is not that of the date. -/
theorem not_printsInstant (h : now < 4102444800) (hd : Daylight now) (hlast : now % 86400 / 3600 = 23) : ¬PrintsInstant now := by
  rintro ⟨hon, _⟩
  obtain ⟨c, hc, hprinted⟩ := hon hd
  obtain ⟨c', _, hprinted'⟩ := ascdate_daylight h hd
  have htext := Option.some.inj (hprinted.symm.trans hprinted')
  have hweekday := hc.weekday_eq
  rw [day_later, if_pos hlast] at hweekday
  have hsame := weekday_of_text (hweekday ▸ weekday_lt _) (weekday_lt _) htext
  dsimp only at hsame
  rw [hweekday, weekday, weekday] at hsame
  omega

/-- Up to 2100 the date of every instant is printed, except in the last standard hour of the days with daylight saving. -/
theorem printsInstant_iff (h : now < 4102444800) : PrintsInstant now ↔ ¬(Daylight now ∧ now % 86400 / 3600 = 23) := by
  constructor
  · rintro hprints ⟨hd, hlast⟩
    exact not_printsInstant h hd hlast hprints
  · intro hcond
    refine ⟨?_, ascdate_standard h⟩
    intro hd
    obtain ⟨c, hc, hprinted⟩ := ascdate_daylight h hd
    have hday : (now + 3600) / 86400 = now / 86400 := by
      rw [day_later, if_neg fun hlast => hcond ⟨hd, hlast⟩, Nat.add_zero]
    have hweekday := hc.weekday_eq
    rw [hday] at hweekday
    rw [← hweekday] at hprinted
    exact ⟨c, hc, hprinted⟩

/-- At noon. -/
theorem printsInstant_noon : PrintsInstant 1246449600 :=
  (printsInstant_iff (by decide)).mpr fun h => absurd h.2 (by decide)

/-- The second of July 2009 was a Thursday. -/
theorem printsInstant_midnight : ascdate DATE_DST_AUTO 1246491000 = some (cstr "Wed  Jul  2   0:30:00 EDT 2009") ∧
    ¬PrintsInstant 1246491000 := by
  refine ⟨by decide +kernel, not_printsInstant (by decide) ⟨2009, by decide, ?_, ?_⟩ (by decide)⟩
  · decide +kernel
  · decide +kernel

end Ascdate

end Xinu
