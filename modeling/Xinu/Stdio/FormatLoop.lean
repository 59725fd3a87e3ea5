import Xinu.Stdio.Doprnt

/-!
# The loop over a format

Reading takes characters off the format, so the turns of the loop are enough, and a directive prints its field in front of what the rest of
the format prints.
-/

namespace Xinu

theorem skip_true (c : Int) (fmt : List Int) : skip c (c :: fmt) = (true, fmt) := if_pos rfl

theorem skip_false {c x : Int} (h : x ≠ c) (fmt : List Int) : skip c (x :: fmt) = (false, x :: fmt) := if_neg h

/-- An optional character is taken off the format, or nothing. -/
theorem length_skip (c : Int) (fmt : List Int) : (skip c fmt).2.length ≤ fmt.length := by
  cases fmt with
  | nil => exact Nat.le_refl _
  | cons x fmt =>
    rw [skip]
    split
    · exact Nat.le_succ _
    · exact Nat.le_refl _

/-- Reading a number takes its digits off the format. -/
theorem length_number (n : Int) (fmt : List Int) : (number n fmt).2.length ≤ fmt.length := by
  induction fmt generalizing n with
  | nil => exact Nat.le_refl _
  | cons c fmt ih =>
    rw [number]
    split
    · exact (ih _).trans (Nat.le_succ _)
    · exact Nat.le_refl _

/-- So does reading a number or a star. -/
theorem length_numberOrStar {fmt : List Int} {args : List Arg} {r : Int × List Int × List Arg} (h : numberOrStar fmt args = some r) :
    r.2.1.length ≤ fmt.length := by
  cases fmt with
  | nil =>
    cases h
    exact Nat.le_refl _
  | cons c fmt =>
    unfold numberOrStar at h
    dsimp only at h
    split at h
    · split at h
      · cases h
        exact Nat.le_succ _
      · cases h
    · cases h
      exact length_number 0 (c :: fmt)

/-- What stands between `%` and the conversion is taken off the format. -/
theorem length_readSpec {fmt : List Int} {args : List Arg} {r : Spec × List Int × List Arg} (h : readSpec fmt args = some r) :
    r.2.1.length ≤ fmt.length := by
  simp only [readSpec, Option.bind_eq_bind, Option.bind_eq_some_iff] at h
  obtain ⟨p, hp, h⟩ := h
  have h1 := length_skip (chr '-') fmt
  have h2 := length_skip (chr '0') (skip (chr '-') fmt).2
  have h3 := length_numberOrStar hp
  have h4 := length_skip (chr '.') p.2.1
  have h5 : r.2.1.length ≤ (skip (chr '.') p.2.1).2.length := by
    split at h
    · obtain ⟨q, hq, he⟩ := Option.bind_eq_some_iff.mp h
      cases he
      exact length_numberOrStar hq
    · cases h
      exact Nat.le_refl _
  exact h5.trans (h4.trans (h3.trans (h2.trans h1)))

/-- The turns that are left do not matter when there are enough of them. -/
theorem formatLoop_fuel (conv : Int → List Arg → Option (Field × List Arg)) {n : Nat} : ∀ {m : Nat} {fmt : List Int} (args : List Arg),
    fmt.length < n → fmt.length < m → formatLoop conv n fmt args = formatLoop conv m fmt args := by
  induction n with
  | zero =>
    intro m fmt args hn _
    exact absurd hn (Nat.not_lt_zero _)
  | succ n ih =>
    intro m fmt args hn hm
    obtain ⟨m, rfl⟩ : ∃ j, m = j + 1 := ⟨m - 1, by omega⟩
    cases fmt with
    | nil => rfl
    | cons c fmt =>
      rw [List.length_cons] at hn hm
      have hskip := length_skip (chr '%') fmt
      rw [formatLoop, formatLoop, @ih m fmt args (by omega) (by omega), @ih m (skip (chr '%') fmt).2 args (by omega) (by omega)]
      cases hr : readSpec fmt args with
      | none => rfl
      | some r =>
        obtain ⟨s, fmt', args'⟩ := r
        have hlen : fmt'.length ≤ fmt.length := length_readSpec hr
        cases fmt' with
        | nil => rfl
        | cons f fmt' =>
          rw [List.length_cons] at hlen
          have hrest : ∀ args, formatLoop conv n fmt' args = formatLoop conv m fmt' args := fun args => ih args (by omega) (by omega)
          simp only [Option.bind_eq_bind, Option.bind_some, hrest]

/-- A character in front of a format. -/
theorem fdoprnt_char {c : Int} (hc : c ≠ chr '%') (fmt : List Int) (args : List Arg) :
    fdoprnt (c :: fmt) args = (fdoprnt fmt args).map (c :: ·) := by
  rw [fdoprnt, List.length_cons, formatLoop, if_pos hc, fdoprnt]

/-- A directive in front of a format. -/
theorem formatLoop_directive (conv : Int → List Arg → Option (Field × List Arg)) {x f : Int} {fmt t : List Int} {args args' : List Arg}
    {s : Spec} (hx : x ≠ chr '%') (hread : readSpec (x :: t) args = some (s, f :: fmt, args')) :
    formatLoop conv (t.length + 3) (chr '%' :: x :: t) args =
      (conv f args').bind fun r => (formatLoop conv (fmt.length + 1) fmt r.2).map (emit s r.1 ++ ·) := by
  have hlen : fmt.length + 1 ≤ t.length + 1 := length_readSpec hread
  have hfuel : ∀ args, formatLoop conv (t.length + 2) fmt args = formatLoop conv (fmt.length + 1) fmt args := by
    intro args
    exact formatLoop_fuel conv args (by omega) (Nat.lt_succ_self fmt.length)
  rw [formatLoop, if_neg (by simp), skip_false hx]
  simp only [Bool.false_eq_true, if_false, hread, Option.bind_eq_bind, Option.bind_some, hfuel]
  cases conv f args' with
  | none => rfl
  | some r =>
    rw [Option.bind_some, Option.bind_some]
    cases formatLoop conv (fmt.length + 1) fmt r.2 <;> rfl

end Xinu
