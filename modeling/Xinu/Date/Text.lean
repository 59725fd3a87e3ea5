import Xinu.Date.Civil
import Xinu.Stdio.FormatLoop
import Xinu.Stdio.Numerals

/-!
# The text of a date

`ascdate` prints the parts of a date in fields: names of three characters, and numbers that are not negative.
-/

namespace Xinu

open Calendar

/-- A number that is not negative, in base 10. -/
def decimal (n : Nat) : List Int := (Nat.toDigits 10 n).map chr

/-- The directive `%d` in front of a format, with a field of its own. -/
theorem fdoprnt_decimal {zero : Bool} {w n : Nat} {fmt t out : List Int} {args : List Arg} {x : Int} (hx : x ≠ chr '%')
    (hread : readSpec (x :: t) (.int n :: args) = some (⟨false, if zero then chr '0' else chr ' ', w, 0⟩, chr 'd' :: fmt, .int n :: args))
    (hw : w ≤ 80) (hn : n < 10 ^ 10) (hrest : fdoprnt fmt args = some out) :
    fdoprnt (chr '%' :: x :: t) (.int n :: args) = some (padded false zero w false (decimal n) ++ out) := by
  have hlen : (decimal n).length < 20 := by
    have h10 : (Nat.toDigits 10 n).length ≤ 10 := (Nat.length_toDigits_le_iff (by decide) (by decide)).mpr hn
    rw [decimal, List.length_map]
    omega
  have hcase : Fdoprnt.caseD n = some ⟨decimal n, false, false, false⟩ := by
    rw [Fdoprnt.caseD, if_neg (by omega), ← prtl10_eq (Int.natCast_nonneg n), prtl10_natCast hn]
    exact number_some hlen
  have hconv : Fdoprnt.convert (chr 'd') (.int n :: args) = (Fdoprnt.caseD n).map (·, args) := rfl
  rw [fdoprnt, List.length_cons, List.length_cons, formatLoop_directive Fdoprnt.convert hx hread, hconv, hcase, Option.map_some,
    Option.bind_some]
  rw [fdoprnt] at hrest
  rw [hrest, emit_numeric false zero hw]
  rfl

theorem padded_none (ds : List Int) : padded false false 0 false ds = ds := by
  simp [padded]

/-- The directive `%s` in front of a format. -/
theorem fdoprnt_string {w : Nat} {fmt t out s : List Int} {args : List Arg} {x : Int} (hx : x ≠ chr '%')
    (hread : readSpec (x :: t) (.str s :: args) = some (⟨false, chr ' ', w, 0⟩, chr 's' :: fmt, .str s :: args))
    (hw : w ≤ 80) (hlen : w ≤ s.length) (hrest : fdoprnt fmt args = some out) :
    fdoprnt (chr '%' :: x :: t) (.str s :: args) = some (s ++ out) := by
  have hconv : Fdoprnt.convert (chr 's') (.str s :: args) = some (⟨s, false, false, true⟩, args) := rfl
  have hemit : emit ⟨false, chr ' ', w, 0⟩ ⟨s, false, false, true⟩ = s := by
    have hblank := emit_numeric false false hw s false false
    have hfill : w - s.length = 0 := Nat.sub_eq_zero_of_le hlen
    simp only [padded, Bool.false_eq_true, if_false, List.length_nil, Nat.zero_add, hfill, List.replicate_zero, List.nil_append,
      List.append_nil] at hblank
    exact hblank
  rw [fdoprnt, List.length_cons, List.length_cons, formatLoop_directive Fdoprnt.convert hx hread, hconv, Option.bind_some]
  rw [fdoprnt] at hrest
  rw [hrest, hemit]
  rfl

/-- A text in front of a format. -/
theorem fdoprnt_text {fmt out : List Int} {args : List Arg} (l : List Int) (hl : ∀ c ∈ l, c ≠ chr '%')
    (hrest : fdoprnt fmt args = some out) : fdoprnt (l ++ fmt) args = some (l ++ out) := by
  induction l with
  | nil => exact hrest
  | cons c l ih =>
    rw [List.cons_append, fdoprnt_char (hl c List.mem_cons_self), ih fun c hc => hl c (List.mem_cons_of_mem _ hc)]
    rfl

namespace Ascdate

/-- The text of a date and time: the names of the day and the month, and the numbers. -/
def text (c : Civil) (dst : Bool) : List Int :=
  dt_dnam.getD c.weekday [] ++ (cstr "  " ++ (dt_mnam.getD c.month [] ++ (cstr " " ++ (padded false false 2 false (decimal c.day) ++
    (cstr "  " ++ (padded false false 2 false (decimal c.hour) ++ (cstr ":" ++ (padded false true 2 false (decimal c.minute) ++
    (cstr ":" ++ (padded false true 2 false (decimal c.second) ++ (cstr " " ++ ((if dst then cstr "EDT" else cstr "EST") ++
    (cstr " " ++ (decimal c.year ++ []))))))))))))))

theorem length_dnam : ∀ n < 7, (dt_dnam.getD n []).length = 3 := by decide

theorem length_mnam : ∀ n < 12, (dt_mnam.getD n []).length = 3 := by decide

/-! ## The directives of the format -/

theorem readSpec_plain {f : Int} (hf : f = chr 's' ∨ f = chr 'd') (fmt : List Int) (args : List Arg) :
    readSpec (f :: fmt) args = some (⟨false, chr ' ', 0, 0⟩, f :: fmt, args) := by
  rcases hf with rfl | rfl <;> simp [readSpec, skip, numberOrStar, number, chr]

theorem readSpec_three (fmt : List Int) (args : List Arg) :
    readSpec (chr '3' :: chr 's' :: fmt) args = some (⟨false, chr ' ', 3, 0⟩, chr 's' :: fmt, args) := by
  simp [readSpec, skip, numberOrStar, number, chr, wrap32]

theorem readSpec_two (fmt : List Int) (args : List Arg) :
    readSpec (chr '2' :: chr 'd' :: fmt) args = some (⟨false, chr ' ', 2, 0⟩, chr 'd' :: fmt, args) := by
  simp [readSpec, skip, numberOrStar, number, chr, wrap32]

theorem readSpec_zero_two (fmt : List Int) (args : List Arg) :
    readSpec (chr '0' :: chr '2' :: chr 'd' :: fmt) args = some (⟨false, chr '0', 2, 0⟩, chr 'd' :: fmt, args) := by
  simp [readSpec, skip, numberOrStar, number, chr, wrap32]

/-- The parts of the format. -/
theorem format_eq : cstr "%3s  %3s %2d  %2d:%02d:%02d %s %d" =
    chr '%' :: chr '3' :: chr 's' :: (cstr "  " ++ chr '%' :: chr '3' :: chr 's' :: (cstr " " ++ chr '%' :: chr '2' :: chr 'd' ::
      (cstr "  " ++ chr '%' :: chr '2' :: chr 'd' :: (cstr ":" ++ chr '%' :: chr '0' :: chr '2' :: chr 'd' ::
        (cstr ":" ++ chr '%' :: chr '0' :: chr '2' :: chr 'd' :: (cstr " " ++ chr '%' :: chr 's' ::
          (cstr " " ++ [chr '%', chr 'd']))))))) := by
  decide

theorem monthDays_le (y m : Nat) : monthDays y m ≤ 31 := by
  unfold monthDays
  split <;> (try split) <;> omega

/-- The text of the parts is printed, also when the day of the week is another. -/
theorem ascdate_eq {dl : Int} {now t k : Nat} (h : Describes { (fields dl now).1.civil with weekday := k } t)
    (hw : (fields dl now).1.dayofweek < 7) (hy : (fields dl now).1.year < 2100) :
    ascdate dl now = some (text (fields dl now).1.civil (fields dl now).2) := by
  have hm : (fields dl now).1.month < 12 := h.month
  have hd : (fields dl now).1.day < 10 ^ 10 := Nat.lt_of_le_of_lt (h.day.2.trans (monthDays_le _ _)) (by decide)
  have hh : (fields dl now).1.hour < 10 ^ 10 := Nat.lt_trans h.hour (by decide)
  have hmi : (fields dl now).1.minute < 10 ^ 10 := Nat.lt_trans h.minute (by decide)
  have hs : (fields dl now).1.second < 10 ^ 10 := Nat.lt_trans h.second (by decide)
  have hy' : (fields dl now).1.year < 10 ^ 10 := Nat.lt_trans hy (by decide)
  have hplain : ∀ l : List Int, (l = cstr "  " ∨ l = cstr " " ∨ l = cstr ":") → ∀ c ∈ l, c ≠ chr '%' := by
    rintro l (rfl | rfl | rfl) <;> decide
  have hzone : ((if (fields dl now).2 then dzones else zones).getD (TIMEZONE - 5) []) =
      if (fields dl now).2 then cstr "EDT" else cstr "EST" := by
    cases (fields dl now).2 <;> rfl
  rw [ascdate, hzone, sprintf, text, format_eq]
  refine fdoprnt_string (by decide) (readSpec_three _ _) (by decide) (length_dnam _ hw).ge ?_
  refine fdoprnt_text (cstr "  ") (hplain _ (.inl rfl)) ?_
  refine fdoprnt_string (by decide) (readSpec_three _ _) (by decide) (length_mnam _ hm).ge ?_
  refine fdoprnt_text (cstr " ") (hplain _ (.inr (.inl rfl))) ?_
  refine fdoprnt_decimal (by decide) (readSpec_two _ _) (by decide) hd ?_
  refine fdoprnt_text (cstr "  ") (hplain _ (.inl rfl)) ?_
  refine fdoprnt_decimal (by decide) (readSpec_two _ _) (by decide) hh ?_
  refine fdoprnt_text (cstr ":") (hplain _ (.inr (.inr rfl))) ?_
  refine fdoprnt_decimal (by decide) (readSpec_zero_two _ _) (by decide) hmi ?_
  refine fdoprnt_text (cstr ":") (hplain _ (.inr (.inr rfl))) ?_
  refine fdoprnt_decimal (by decide) (readSpec_zero_two _ _) (by decide) hs ?_
  refine fdoprnt_text (cstr " ") (hplain _ (.inr (.inl rfl))) ?_
  refine fdoprnt_string (by decide) (readSpec_plain (.inl rfl) _ _) (by decide) (Nat.zero_le _) ?_
  refine fdoprnt_text (cstr " ") (hplain _ (.inr (.inl rfl))) ?_
  rw [← padded_none (decimal _)]
  exact @fdoprnt_decimal false 0 _ [] [] [] [] (chr 'd') (by decide) (readSpec_plain (.inr rfl) _ _) (by decide) hy' rfl

end Ascdate

end Xinu
