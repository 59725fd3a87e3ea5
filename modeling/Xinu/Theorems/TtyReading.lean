import Xinu.Device.Tty

/-!
# Reading a tty

The characters that are released to readers form a stream, and a reader calls `ttyread` again and again. `serve` runs the
segments of the driver, one character of the stream for every `wait` that the reader gets behind. In cooked mode the first
character is stored before the count is looked at, and an end-of-file character behind it is stored as the value that `ttygetc`
returns for it. Apart from these calls, every call stores what it reads, within the count and within the line.
-/

namespace Xinu

/-- A character ends a line. -/
def isEnd (ch : Nat) : Bool := decide (ch = TY_NEWLINE) || decide (ch = TY_RETURN)

namespace Tty

variable (t : Tty)

/-- The character is the end-of-file character, and `ttygetc` looks for it. -/
def isEof (ch : Nat) : Bool := decide (t.tyimode = .TY_IMCOOKED) && t.tyeof && decide (ch = t.tyeofch)

/-- The next character of the stream stands at the head of the buffer. -/
def feed (ch : Nat) : Tty := { t with tyibuff := Function.update t.tyibuff t.tyihead ch }

end Tty

/-- The byte that is stored for a value that `ttygetc` returns: `char` has no sign. -/
def charOf (v : Int) : Nat := (v % 256).toNat

/-- What `ttyread` stores of a value that `ttygetc` returns. -/
def GetcUse.stores : GetcUse → Int → List Nat
  | .getc, _ => []
  | .first _, v => if v = EOF then [] else [charOf v]
  | .each .., v | .within .., v => [charOf v]

/-- What a reader has got: the value returned, unless it is still waiting, the bytes stored, the driver and the rest of the
stream. -/
structure Served where
  value : Option Int
  bytes : List Nat
  t : Tty
  rest : List Nat

/-- A reader goes on as long as there are characters in the stream. -/
def serve : List Nat → Tty × Next TtyPoint → Served
  | stream, (t, .ret v) => ⟨some v, [], t, stream⟩
  | ch :: stream, (t, .call _ (.got u)) =>
    let s := serve stream (tty.resume (t.feed ch) 0 (.got u) OK)
    { s with bytes := u.stores (t.getcValue ch) ++ s.bytes }
  | stream, (t, _) => ⟨none, [], t, stream⟩

/-- `ttyread` with so many characters of the stream available. -/
def serveRead (t : Tty) (count avail : Nat) (stream : List Nat) : Served :=
  match tty.enter t 0 (.ttyread count) with
  | (t, .call _ .counted) => serve stream (tty.resume t 0 .counted (min avail stream.length : Nat))
  | x => serve stream x

/-- A call of `ttyread`, with the mode at the call. -/
structure ReadCall where
  tyimode : TyMode
  count : Nat
  avail : Nat
deriving Repr, DecidableEq

/-- A call, the driver and the stream at the call, and what it made of them. -/
structure Answer where
  t : Tty
  count : Nat
  avail : Nat
  stream : List Nat
  value : Option Int
  bytes : List Nat

/-- What a call makes of the stream. -/
def answer (t : Tty) (count avail : Nat) (stream : List Nat) : Answer :=
  let s := serveRead t count avail stream
  ⟨t, count, avail, stream, s.value, s.bytes⟩

/-- A sequence of calls, until one of them waits for ever, and the rest of the stream. -/
def serveAll : List ReadCall → Tty → List Nat → List Answer × List Nat
  | [], _, stream => ([], stream)
  | c :: calls, t, stream =>
    let t := { t with tyimode := c.tyimode }
    let s := serveRead t c.count c.avail stream
    match s.value with
    | none => ([answer t c.count c.avail stream], s.rest)
    | some _ =>
      let (answers, rest) := serveAll calls s.t s.rest
      (answer t c.count c.avail stream :: answers, rest)

namespace Answer

variable (a : Answer)

/-- The device is in cooked mode. -/
def cooked : Prop := a.t.tyimode = .TY_IMCOOKED

/-- The part of the stream that a call accounts for: what it stored, or the end-of-file character that it reported. -/
def accounts : List Nat := if a.value = some EOF then a.stream.take 1 else a.bytes

/-- What a call may do. -/
structure InBounds : Prop where
  bounded : 0 < a.count ∨ a.cooked → a.bytes.length ≤ a.count
  available : a.count = 0 → ¬a.cooked → a.bytes = a.stream.take a.avail
  returned : ∀ r, a.value = some r → r ≠ EOF → r = a.bytes.length
  eof : a.value = some EOF ↔ ∃ ch ∈ a.stream.head?, a.t.isEof ch = true
  nothing : a.value = some EOF → a.bytes = []
  within : a.cooked → ∀ ch ∈ a.bytes.dropLast, isEnd ch = false
  complete : a.cooked → ∀ r, a.value = some r → r ≠ EOF → a.bytes.length = a.count ∨ ∃ ch ∈ a.bytes.getLast?, isEnd ch = true

end Answer

/-- At most so many characters, up to the end of a line. -/
def lineChars (p : Nat → Bool) : Nat → List Nat → List Nat
  | 0, _ => []
  | _, [] => []
  | n + 1, ch :: stream => if p ch then [ch] else ch :: lineChars p n stream

/-- A call in cooked mode whose first character is not the end-of-file character has a count, and does not meet the end-of-file
character in what it reads of the line, unless that character is the byte that is stored for it. -/
def Answer.Sound (a : Answer) : Prop :=
  a.cooked → ∀ ch ∈ a.stream.head?, a.t.isEof ch = false →
    0 < a.count ∧ ∀ c ∈ lineChars isEnd a.count a.stream, a.t.isEof c = true → c = charOf EOF

/-! ## One character -/

section Character

variable {t t' : Tty} {ch : Nat} {stream : List Nat}

theorem Tty.getcValue_eq (t : Tty) (ch : Nat) : t.getcValue ch = if t.isEof ch then EOF else (ch : Int) := by
  unfold Tty.getcValue Tty.isEof
  simp only [Bool.and_eq_true, decide_eq_true_eq, and_assoc]

theorem Tty.isEof_congr (h : t'.toTtySettings = t.toTtySettings) : t'.isEof = t.isEof := by
  funext ch
  unfold Tty.isEof
  rw [h]

/-- The byte that is stored for a character behind the first one of a line. -/
def Tty.byteOf (t : Tty) (ch : Nat) : Nat := charOf (t.getcValue ch)

/-- The character ends the line that `ttyread` reads. -/
def Tty.endsLine (t : Tty) (ch : Nat) : Bool := isEnd ch && !t.isEof ch

theorem charOf_nat (h : ch < 256) : charOf ch = ch := by
  unfold charOf
  omega

theorem Tty.byteOf_eq (h : ch < 256) (heof : t.isEof ch = true → ch = charOf EOF) : t.byteOf ch = ch := by
  rw [Tty.byteOf, Tty.getcValue_eq]
  split
  · next he => exact (heof he).symm
  · exact charOf_nat h

/-- What is stored for an end-of-file character is not that character, but for one. -/
theorem Tty.eof_of_byteOf (h : t.byteOf ch = ch) (heof : t.isEof ch = true) : ch = charOf EOF := by
  rw [Tty.byteOf, Tty.getcValue_eq, if_pos heof] at h
  exact h.symm

theorem Tty.byteOf_congr (h : t'.toTtySettings = t.toTtySettings) : t'.byteOf = t.byteOf := by
  funext ch
  rw [Tty.byteOf, Tty.byteOf, Tty.getcValue_eq, Tty.getcValue_eq, Tty.isEof_congr h]

theorem Tty.endsLine_congr (h : t'.toTtySettings = t.toTtySettings) : t'.endsLine = t.endsLine := by
  funext ch
  rw [Tty.endsLine, Tty.endsLine, Tty.isEof_congr h]

/-- The tests of `ttyread` for the end of a line. -/
theorem Tty.endsLine_iff (t : Tty) (ch : Nat) :
    (t.getcValue ch ≠ TY_NEWLINE ∧ t.getcValue ch ≠ TY_RETURN) ↔ t.endsLine ch = false := by
  have hEOF : EOF = -2 := rfl
  have hnl : TY_NEWLINE = 10 := rfl
  have hcr : TY_RETURN = 13 := rfl
  rw [Tty.getcValue_eq, Tty.endsLine, isEnd]
  cases t.isEof ch
  · simp
  · simp
    omega

/-- A reader gets behind its `wait`. -/
theorem serve_got (t : Tty) (u : GetcUse) (ch : Nat) (stream : List Nat) :
    ∃ t' : Tty, t'.toTtySettings = t.toTtySettings ∧
      serve (ch :: stream) (t.ttygetc u) =
        { serve stream (t'.gotten u (t.getcValue ch)) with
          bytes := u.stores (t.getcValue ch) ++ (serve stream (t'.gotten u (t.getcValue ch))).bytes } := by
  have hch : (t.feed ch).getIn.1 = ch := Function.update_self _ _ _
  have hv : (t.feed ch).getIn.2.getcValue (t.feed ch).getIn.1 = t.getcValue ch := by
    rw [hch]
    rfl
  have hresume : tty.resume (t.feed ch) 0 (.got u) OK = (t.feed ch).getIn.2.gotten u (t.getcValue ch) := by
    rw [← hv]
  refine ⟨(t.feed ch).getIn.2, rfl, ?_⟩
  rw [← hresume]
  rfl

end Character

/-! ## Raw and cbreak mode -/

section Lines

variable {t : Tty} {p q : Nat → Bool} {stream : List Nat} {n k : Nat}

/-- The loop of `ttyread` in raw and cbreak mode behind its last character. -/
theorem serve_each_zero (t : Tty) (n : Nat) (stream : List Nat) :
    (serve stream (t.readEach n (n + 0 : Nat))).value = (if 0 ≤ stream.length then some (n + (0 : Nat) : Int) else none) ∧
      (serve stream (t.readEach n (n + 0 : Nat))).bytes = stream.take 0 ∧
      (serve stream (t.readEach n (n + 0 : Nat))).rest = stream.drop 0 := by
  have hret : t.readEach n (n + 0 : Nat) = (t, .ret n) := if_neg (by omega)
  rw [hret]
  cases stream <;> exact ⟨by simp [serve], rfl, rfl⟩

/-- The loop of `ttyread` in raw and cbreak mode. -/
theorem serve_each (hmode : t.tyimode ≠ .TY_IMCOOKED) (hchars : ∀ ch ∈ stream, ch < 256) (n k : Nat) :
    (serve stream (t.readEach n (n + k : Nat))).value = (if k ≤ stream.length then some (n + k : Int) else none) ∧
      (serve stream (t.readEach n (n + k : Nat))).bytes = stream.take k ∧
      (serve stream (t.readEach n (n + k : Nat))).rest = stream.drop k := by
  induction stream generalizing t n k with
  | nil =>
    cases k with
    | zero => exact serve_each_zero t n _
    | succ k =>
      have hget : t.readEach n (n + (k + 1) : Nat) = t.ttygetc (.each n (n + (k + 1) : Nat)) := if_pos (by omega)
      rw [hget]
      exact ⟨by simp [serve, Tty.ttygetc], rfl, rfl⟩
  | cons ch stream ih =>
    cases k with
    | zero => exact serve_each_zero t n _
    | succ k =>
      have hget : t.readEach n (n + (k + 1) : Nat) = t.ttygetc (.each n (n + (k + 1) : Nat)) := if_pos (by omega)
      obtain ⟨t', hset, hserve⟩ := serve_got t (.each n (n + (k + 1) : Nat)) ch stream
      have hmode' : t'.tyimode ≠ .TY_IMCOOKED := by
        rw [show t'.tyimode = t.tyimode from congrArg TtySettings.tyimode hset]
        exact hmode
      have hv : t.getcValue ch = ch := if_neg fun h => hmode h.1
      have hgotten : t'.gotten (.each n (n + (k + 1) : Nat)) (t.getcValue ch) = t'.readEach (n + 1 : Nat) (n + 1 + k : Nat) := by
        have hsum : n + (k + 1) = n + 1 + k := by omega
        rw [hsum]
        rfl
      obtain ⟨h1, h2, h3⟩ := ih hmode' (fun c hc => hchars c (List.mem_cons_of_mem _ hc)) (n + 1) k
      rw [hget, hserve, hgotten]
      refine ⟨?_, ?_, h3⟩
      · rw [h1, List.length_cons]
        simp only [Nat.add_le_add_iff_right]
        split
        · congr 1
          push_cast
          omega
        · rfl
      · simp only [h2, GetcUse.stores, hv, charOf_nat (hchars ch List.mem_cons_self), List.take_succ_cons]
        rfl

/-! ## Cooked mode -/

/-- The end of a line, or of the count, is reached. -/
def lineFull (p : Nat → Bool) : Nat → List Nat → Bool
  | 0, _ => true
  | _, [] => false
  | n + 1, ch :: stream => p ch || lineFull p n stream

theorem lineChars_length_le (p : Nat → Bool) (n : Nat) (stream : List Nat) :
    (lineChars p n stream).length ≤ n ∧ (lineChars p n stream).length ≤ stream.length := by
  induction stream generalizing n with
  | nil => cases n <;> simp [lineChars]
  | cons ch stream ih =>
    cases n with
    | zero => simp [lineChars]
    | succ n =>
      have h := ih n
      unfold lineChars
      split
      · simp
      · simp only [List.length_cons]
        omega

/-- The characters of a line are the first ones of the stream. -/
theorem lineChars_append (p : Nat → Bool) (n : Nat) (stream : List Nat) :
    lineChars p n stream ++ stream.drop (lineChars p n stream).length = stream := by
  induction stream generalizing n with
  | nil => cases n <;> rfl
  | cons ch stream ih =>
    cases n with
    | zero => rfl
    | succ n =>
      unfold lineChars
      split
      · rfl
      · exact congrArg (ch :: ·) (ih n)

/-- Only the last character of a line ends it. -/
theorem lineChars_dropLast (p : Nat → Bool) (n : Nat) (stream : List Nat) :
    ∀ ch ∈ (lineChars p n stream).dropLast, p ch = false := by
  induction stream generalizing n with
  | nil => cases n <;> simp [lineChars]
  | cons c stream ih =>
    cases n with
    | zero => simp [lineChars]
    | succ n =>
      intro ch hch
      unfold lineChars at hch
      split at hch
      · simp at hch
      · next hc =>
        cases hl : lineChars p n stream with
        | nil => simp [hl] at hch
        | cons d l =>
          rw [hl, List.dropLast_cons_cons, ← hl] at hch
          rcases List.mem_cons.mp hch with rfl | hch
          · exact eq_false_of_ne_true hc
          · exact ih n ch hch

theorem lineChars_full (h : lineFull p n stream = true) :
    (lineChars p n stream).length = n ∨ ∃ ch ∈ (lineChars p n stream).getLast?, p ch = true := by
  induction stream generalizing n with
  | nil =>
    cases n with
    | zero => exact .inl rfl
    | succ n => cases h
  | cons ch stream ih =>
    cases n with
    | zero => exact .inl rfl
    | succ n =>
      unfold lineChars
      by_cases hp : p ch = true
      · rw [if_pos hp]
        exact .inr ⟨ch, rfl, hp⟩
      · rw [if_neg hp]
        simp only [lineFull, Bool.or_eq_true, Bool.false_eq_true, hp, false_or] at h
        rcases ih h with hlen | ⟨d, hd, hpd⟩
        · exact .inl (congrArg (· + 1) hlen)
        · refine .inr ⟨d, ?_, hpd⟩
          have hne : lineChars p n stream ≠ [] := by
            rintro e
            rw [e] at hd
            cases hd
          rw [Option.mem_def, List.getLast?_cons_of_ne_nil hne]
          exact hd

/-- Two tests that agree on the line find the same line. -/
theorem lineChars_congr (h : ∀ ch ∈ lineChars p n stream, p ch = q ch) : lineChars q n stream = lineChars p n stream := by
  induction stream generalizing n with
  | nil => cases n <;> rfl
  | cons ch stream ih =>
    cases n with
    | zero => rfl
    | succ n =>
      unfold lineChars at h ⊢
      by_cases hp : p ch = true
      · rw [if_pos hp] at h ⊢
        rw [← h ch List.mem_cons_self, if_pos hp]
      · rw [if_neg hp] at h ⊢
        rw [← h ch List.mem_cons_self, if_neg hp, ih fun c hc => h c (List.mem_cons_of_mem _ hc)]

/-- The loop of `ttyread` in cooked mode. -/
theorem serve_within (t : Tty) (stream : List Nat) (n k : Nat) :
    let s := serve stream (t.ttygetc (.within n (n + (k + 1) : Nat)))
    let line := lineChars t.endsLine (k + 1) stream
    s.value = (if lineFull t.endsLine (k + 1) stream then some (n + line.length : Int) else none) ∧
      s.bytes = line.map t.byteOf ∧ s.rest = stream.drop line.length := by
  induction stream generalizing t n k with
  | nil => exact ⟨by simp [serve, Tty.ttygetc, lineFull], rfl, rfl⟩
  | cons ch stream ih =>
    obtain ⟨t', hset, hserve⟩ := serve_got t (.within n (n + (k + 1) : Nat)) ch stream
    have hstores : GetcUse.stores (.within n (n + (k + 1) : Nat)) (t.getcValue ch) = [t.byteOf ch] := rfl
    simp only [hserve, hstores]
    by_cases hend : t.endsLine ch = true
    · have hret : t'.gotten (.within n (n + (k + 1) : Nat)) (t.getcValue ch) = (t', .ret (n + 1)) := by
        refine if_neg fun h => ?_
        have hno := (t.endsLine_iff ch).mp h.2
        rw [hend] at hno
        cases hno
      rw [hret]
      simp [serve, lineChars, lineFull, hend]
    · have hno := eq_false_of_ne_true hend
      have hline : lineChars t.endsLine (k + 1) (ch :: stream) = ch :: lineChars t.endsLine k stream := if_neg hend
      have hfull : lineFull t.endsLine (k + 1) (ch :: stream) = lineFull t.endsLine k stream := by
        simp only [lineFull, hno, Bool.false_or]
      rw [hline, hfull]
      cases k with
      | zero =>
        have hret : t'.gotten (.within n (n + (0 + 1) : Nat)) (t.getcValue ch) = (t', .ret (n + 1)) := if_neg (by omega)
        rw [hret]
        simp [serve, lineChars, lineFull]
      | succ k =>
        have hget : t'.gotten (.within n (n + (k + 1 + 1) : Nat)) (t.getcValue ch) =
            t'.ttygetc (.within (n + 1 : Nat) (n + 1 + (k + 1) : Nat)) := by
          have hsum : n + (k + 1 + 1) = n + 1 + (k + 1) := by omega
          rw [hsum]
          exact if_pos ⟨by omega, (t.endsLine_iff ch).mpr hno⟩
        obtain ⟨h1, h2, h3⟩ := ih t' (n + 1) k
        rw [Tty.endsLine_congr hset] at h1 h2 h3
        rw [Tty.byteOf_congr hset] at h2
        rw [hget]
        refine ⟨?_, ?_, h3⟩
        · rw [h1, List.length_cons]
          congr 2
          push_cast
          omega
        · rw [h2]
          rfl

/-- `ttyread` in cooked mode, with a first character that is not the end-of-file character. -/
theorem serve_first {ch : Nat} (heof : t.isEof ch = false) (count : Nat) :
    let s := serve (ch :: stream) (t.ttygetc (.first count))
    let line := lineChars t.endsLine (max count 1) (ch :: stream)
    s.value = (if lineFull t.endsLine (max count 1) (ch :: stream) then some (line.length : Int) else none) ∧
      s.bytes = line.map t.byteOf ∧ s.rest = (ch :: stream).drop line.length := by
  obtain ⟨t', hset, hserve⟩ := serve_got t (.first count) ch stream
  have hv : t.getcValue ch = ch := by
    rw [Tty.getcValue_eq, heof]
    rfl
  have hne : ¬t.getcValue ch = EOF := by
    have hEOF : EOF = -2 := rfl
    omega
  have hstores : GetcUse.stores (.first count) (t.getcValue ch) = [t.byteOf ch] := if_neg hne
  simp only [hserve, hstores]
  have hgotten : t'.gotten (.first count) (t.getcValue ch) =
      if 1 < (count : Int) ∧ t.getcValue ch ≠ TY_NEWLINE ∧ t.getcValue ch ≠ TY_RETURN then t'.ttygetc (.within 1 count)
      else (t', .ret 1) := if_neg hne
  obtain ⟨k, hk⟩ : ∃ k, max count 1 = k + 1 := ⟨max count 1 - 1, by omega⟩
  rw [hgotten, hk]
  by_cases hend : t.endsLine ch = true
  · rw [if_neg fun h => by
      have hno := (t.endsLine_iff ch).mp h.2
      rw [hend] at hno
      cases hno]
    simp [serve, lineChars, lineFull, hend]
  · have hno := eq_false_of_ne_true hend
    have hline : lineChars t.endsLine (k + 1) (ch :: stream) = ch :: lineChars t.endsLine k stream := if_neg hend
    have hfull : lineFull t.endsLine (k + 1) (ch :: stream) = lineFull t.endsLine k stream := by
      simp only [lineFull, hno, Bool.false_or]
    rw [hline, hfull]
    cases k with
    | zero =>
      rw [if_neg (by omega)]
      simp [serve, lineChars, lineFull]
    | succ k =>
      have hcount : count = 1 + (k + 1) := by omega
      rw [if_pos ⟨by omega, (t.endsLine_iff ch).mpr hno⟩, hcount]
      obtain ⟨h1, h2, h3⟩ := serve_within t' stream 1 k
      rw [Tty.endsLine_congr hset] at h1 h2 h3
      rw [Tty.byteOf_congr hset] at h2
      refine ⟨?_, ?_, h3⟩
      · refine h1.trans ?_
        rw [List.length_cons]
        congr 2
        push_cast
        omega
      · exact congrArg (t.byteOf ch :: ·) h2

end Lines

/-! ## One call -/

section Call

variable {t : Tty} {stream : List Nat} (count avail : Nat)

theorem serveRead_raw (hmode : t.tyimode ≠ .TY_IMCOOKED) : serveRead t count avail stream =
    serve stream (t.readEach (0 : Nat) (0 + (if count = 0 then min avail stream.length else count) : Nat)) := by
  have hneg : ¬(count : Int) < 0 := by omega
  unfold serveRead
  simp only [Tty.ttyread, if_neg hneg, if_pos hmode]
  by_cases h0 : count = 0
  · subst h0
    simp only [Nat.cast_zero, if_true, Nat.zero_add]
    by_cases hav : min avail stream.length = 0
    · rw [hav]
      rfl
    · have hne : ¬((min avail stream.length : Nat) : Int) = 0 := by omega
      rw [if_neg hne]
  · have hne : ¬(count : Int) = 0 := by omega
    have hget : t.readEach 0 count = t.ttygetc (.each 0 count) := if_pos (by omega)
    rw [if_neg hne, if_neg h0, Nat.zero_add, Nat.cast_zero, hget]
    rfl

theorem serveRead_cooked (hmode : t.tyimode = .TY_IMCOOKED) :
    serveRead t count avail stream = serve stream (t.ttygetc (.first count)) := by
  have hneg : ¬(count : Int) < 0 := by omega
  have hcooked : ¬t.tyimode ≠ .TY_IMCOOKED := not_not.mpr hmode
  unfold serveRead
  simp only [Tty.ttyread, if_neg hneg, if_neg hcooked]
  rfl

/-- What a call does that stores what it reads. -/
structure Answer.Stores (a : Answer) (s : Served) : Prop where
  bounds : a.InBounds
  accounts : a.accounts ++ s.rest = a.stream

/-- A call takes from the stream what it accounts for. -/
def Answer.Takes (a : Answer) (s : Served) : Prop := s.rest = a.stream.drop a.accounts.length

theorem Answer.Stores.takes {a : Answer} {s : Served} (K : a.Stores s) : a.Takes s := by
  rw [Answer.Takes, ← K.accounts, List.drop_left]

/-- Every call in raw or cbreak mode stores what it reads. -/
theorem answer_raw (hmode : t.tyimode ≠ .TY_IMCOOKED) (hchars : ∀ ch ∈ stream, ch < 256) :
    (answer t count avail stream).Stores (serveRead t count avail stream) := by
  have hEOF : EOF = -2 := rfl
  have hnoeof : ∀ ch, t.isEof ch = false := by
    intro ch
    simp [Tty.isEof, hmode]
  have hserve := @serveRead_raw t stream count avail hmode
  obtain ⟨k, hk⟩ : ∃ k, k = if count = 0 then min avail stream.length else count := ⟨_, rfl⟩
  rw [← hk] at hserve
  obtain ⟨h1, h2, h3⟩ := serve_each hmode hchars 0 k
  rw [← hserve] at h1 h2 h3
  have hne : (serveRead t count avail stream).value ≠ some EOF := by
    rw [h1]
    split
    · intro h
      have := Option.some.inj h
      omega
    · exact nofun
  constructor
  · constructor
    · intro h
      have hpos : ¬count = 0 := fun h0 => h.elim (fun hlt => absurd hlt (by simp [answer, h0])) (fun hc => hmode hc)
      rw [if_neg hpos] at hk
      simp only [answer, h2, List.length_take]
      omega
    · intro h0 _
      have h0' : count = 0 := h0
      rw [if_pos h0'] at hk
      simp only [answer, h2, hk]
      rw [← List.take_take, List.take_length]
    · intro r hr _
      simp only [answer, h1] at hr
      split at hr
      · next hle =>
        have := Option.some.inj hr
        simp only [answer, h2, List.length_take]
        omega
      · cases hr
    · constructor
      · exact fun h => absurd h hne
      · rintro ⟨ch, -, heof⟩
        rw [answer, hnoeof] at heof
        cases heof
    · exact fun h => absurd h hne
    · exact fun hc => absurd hc hmode
    · exact fun hc => absurd hc hmode
  · simp only [Answer.accounts, answer, if_neg hne, h2, h3, List.take_append_drop]

/-- A call in cooked mode that finds no character waits. -/
theorem answer_nil (hmode : t.tyimode = .TY_IMCOOKED) : (answer t count avail []).Stores (serveRead t count avail []) := by
  have hserve : serveRead t count avail [] = ⟨none, [], t, []⟩ := by
    rw [serveRead_cooked count avail hmode]
    rfl
  rw [answer, hserve]
  refine ⟨⟨fun _ => Nat.zero_le _, fun _ _ => ?_, fun _ => nofun, ⟨nofun, ?_⟩, fun _ => rfl, fun _ _ => nofun, fun _ _ => nofun⟩, rfl⟩
  · exact List.take_nil.symm
  · rintro ⟨ch, hch, -⟩
    cases hch

/-- A call in cooked mode that finds the end-of-file character first reports it. -/
theorem answer_eof {ch : Nat} (heof : t.isEof ch = true) :
    (answer t count avail (ch :: stream)).Stores (serveRead t count avail (ch :: stream)) := by
  have hmode : t.tyimode = .TY_IMCOOKED := by
    simp only [Tty.isEof, Bool.and_eq_true, decide_eq_true_eq] at heof
    exact heof.1.1
  obtain ⟨t', -, hserve⟩ := serve_got t (.first count) ch stream
  have hv : t.getcValue ch = EOF := by
    rw [Tty.getcValue_eq, if_pos heof]
  have hgotten : t'.gotten (.first count) EOF = (t', .ret EOF) := by simp [Tty.gotten]
  have hstores : GetcUse.stores (.first count) EOF = [] := by simp [GetcUse.stores]
  have hserve' : serveRead t count avail (ch :: stream) = ⟨some EOF, [], t', stream⟩ := by
    rw [serveRead_cooked count avail hmode, hserve, hv, hgotten, hstores]
    cases stream <;> rfl
  rw [answer, hserve']
  refine ⟨⟨fun _ => Nat.zero_le _, fun _ hc => absurd hmode hc, fun r hr hne => ?_, ⟨fun _ => ⟨ch, rfl, heof⟩, fun _ => rfl⟩,
    fun _ => rfl, fun _ _ h => (by cases h), fun _ r hr hne => ?_⟩, rfl⟩
  · exact absurd (Option.some.inj hr).symm hne
  · exact absurd (Option.some.inj hr).symm hne

/-- The tests for the end of a line agree on a character that is stored as it is. -/
theorem Tty.endsLine_eq {c : Nat} (h : t.isEof c = true → c = charOf EOF) : t.endsLine c = isEnd c := by
  unfold Tty.endsLine
  cases heof : t.isEof c with
  | false => exact Bool.and_true _
  | true =>
    rw [h heof]
    rfl

/-- A call in cooked mode that finds another character first takes what it reads; it stores that if it has a count and meets no
end-of-file character. -/
theorem answer_line {ch : Nat} (hmode : t.tyimode = .TY_IMCOOKED) (heof : t.isEof ch = false)
    (hchars : ∀ c ∈ ch :: stream, c < 256) :
    (answer t count avail (ch :: stream)).Takes (serveRead t count avail (ch :: stream)) ∧
      ((answer t count avail (ch :: stream)).Stores (serveRead t count avail (ch :: stream)) ↔
        0 < count ∧ ∀ c ∈ lineChars isEnd count (ch :: stream), t.isEof c = true → c = charOf EOF) := by
  have hEOF : EOF = -2 := rfl
  obtain ⟨h1, h2, h3⟩ := @serve_first t stream ch heof count
  rw [← serveRead_cooked count avail hmode] at h1 h2 h3
  obtain ⟨line, hline⟩ : ∃ l, l = lineChars t.endsLine (max count 1) (ch :: stream) := ⟨_, rfl⟩
  have happ := lineChars_append t.endsLine (max count 1) (ch :: stream)
  rw [← hline] at h1 h2 h3 happ
  have hne : (serveRead t count avail (ch :: stream)).value ≠ some EOF := by
    rw [h1]
    split
    · intro h
      have := Option.some.inj h
      omega
    · exact nofun
  have haccounts : (answer t count avail (ch :: stream)).accounts = line.map t.byteOf := by
    simp only [Answer.accounts, answer, if_neg hne, h2]
  refine ⟨?_, ?_⟩
  · rw [Answer.Takes, haccounts, h3, List.length_map]
    rfl
  constructor
  · intro S
    have hpos : 0 < count := by
      have hle := S.bounds.bounded (.inr hmode)
      have hlen : 0 < line.length := by
        obtain ⟨k, hk⟩ : ∃ k, max count 1 = k + 1 := ⟨max count 1 - 1, by omega⟩
        rw [hline, hk]
        unfold lineChars
        split <;> simp
      simp only [answer, h2, List.length_map] at hle
      omega
    have hmax : max count 1 = count := by omega
    have hsame := S.accounts
    rw [haccounts, h3] at hsame
    have hbytes : line.map t.byteOf = line :=
      (List.append_inj (hsame.trans happ.symm) (List.length_map _)).1
    have hstored : ∀ c ∈ line, t.isEof c = true → c = charOf EOF := fun c hc =>
      Tty.eof_of_byteOf (List.map_inj_left.mp (hbytes.trans (List.map_id line).symm) c hc)
    have hlines : lineChars isEnd count (ch :: stream) = line := by
      rw [hmax] at hline
      rw [hline]
      refine lineChars_congr fun c hc => Tty.endsLine_eq (hstored c ?_)
      rwa [hline]
    rw [hlines]
    exact ⟨hpos, hstored⟩
  · rintro ⟨hpos, hstored⟩
    have hmax : max count 1 = count := by omega
    have hlines : line = lineChars isEnd count (ch :: stream) := by
      rw [hline, hmax]
      exact lineChars_congr fun c hc => (Tty.endsLine_eq (hstored c hc)).symm
    have hends : ∀ c ∈ line, t.endsLine c = isEnd c := fun c hc => Tty.endsLine_eq (hstored c (hlines ▸ hc))
    have hbytes : line.map t.byteOf = line := by
      refine (List.map_congr_left fun c hc => ?_).trans (List.map_id line)
      refine Tty.byteOf_eq (hchars c ?_) (hstored c (hlines ▸ hc))
      rw [← happ]
      exact List.mem_append_left _ hc
    have hlen := lineChars_length_le t.endsLine (max count 1) (ch :: stream)
    rw [← hline, hmax] at hlen
    rw [hbytes] at h2 haccounts
    refine ⟨⟨fun _ => ?_, fun _ hc => absurd hmode hc, fun r hr _ => ?_, ⟨fun h => absurd h hne, ?_⟩, fun h => absurd h hne,
      fun _ c hc => ?_, fun _ r hr _ => ?_⟩, ?_⟩
    · simp only [answer, h2]
      exact hlen.1
    · simp only [answer, h1, h2] at hr ⊢
      split at hr
      · exact (Option.some.inj hr).symm
      · cases hr
    · rintro ⟨c, hc, hceof⟩
      obtain rfl : ch = c := Option.some.inj hc
      rw [answer, heof] at hceof
      cases hceof
    · simp only [answer, h2] at hc
      rw [hlines] at hc
      exact lineChars_dropLast isEnd count (ch :: stream) c hc
    · simp only [answer, h1, h2] at hr ⊢
      split at hr
      · next hfull =>
        rw [hmax] at hfull hline
        rcases lineChars_full hfull with hl | ⟨c, hc, hp⟩
        · left
          rw [hline, hl]
        · right
          rw [← hline] at hc
          exact ⟨c, hc, (hends c (List.mem_of_getLast? hc)) ▸ hp⟩
      · cases hr
    · rw [haccounts, h3]
      exact happ

/-- Every call takes what it accounts for, and is in order if and only if it is sound. -/
theorem answer_iff (t : Tty) (hchars : ∀ ch ∈ stream, ch < 256) :
    (answer t count avail stream).Takes (serveRead t count avail stream) ∧
      ((answer t count avail stream).Stores (serveRead t count avail stream) ↔ (answer t count avail stream).Sound) := by
  by_cases hmode : t.tyimode = .TY_IMCOOKED
  · cases stream with
    | nil =>
      have S := answer_nil (t := t) count avail hmode
      refine ⟨S.takes, fun _ _ ch hch => ?_, fun _ => S⟩
      cases hch
    | cons ch stream =>
      cases heof : t.isEof ch with
      | true =>
        have S := @answer_eof t stream count avail ch heof
        refine ⟨S.takes, fun _ _ c hc hno => ?_, fun _ => S⟩
        obtain rfl : ch = c := Option.some.inj hc
        rw [answer, heof] at hno
        cases hno
      | false =>
        obtain ⟨hT, hiff⟩ := answer_line count avail hmode heof hchars
        refine ⟨hT, hiff.trans ⟨fun h _ c hc _ => ?_, fun h => h hmode ch rfl heof⟩⟩
        exact h
  · have S := answer_raw count avail hmode hchars
    exact ⟨S.takes, fun _ hc => absurd hc hmode, fun _ => S⟩

end Call

/-! ## Sequences of calls -/

/-- Every call does what it may do, and what the calls account for is the stream as far as it was taken. -/
structure Delivered (calls : List ReadCall) (t : Tty) (stream : List Nat) : Prop where
  bounds : ∀ a ∈ (serveAll calls t stream).1, a.InBounds
  stream : (serveAll calls t stream).1.flatMap Answer.accounts ++ (serveAll calls t stream).2 = stream

/-- For every stream of characters and every sequence of calls by one reader, the calls deliver the stream within bounds if and
only if every call is sound. -/
theorem ttyread_delivers_iff (calls : List ReadCall) (t : Tty) (stream : List Nat) (hchars : ∀ ch ∈ stream, ch < 256) :
    Delivered calls t stream ↔ ∀ a ∈ (serveAll calls t stream).1, a.Sound := by
  induction calls generalizing t stream with
  | nil =>
    have hnone : (serveAll [] t stream).1 = [] := rfl
    refine ⟨fun _ a ha => ?_, fun _ => ⟨fun a ha => ?_, rfl⟩⟩
    · rw [hnone] at ha
      exact absurd ha List.not_mem_nil
    · rw [hnone] at ha
      exact absurd ha List.not_mem_nil
  | cons c calls ih =>
    obtain ⟨t₁, ht₁⟩ : ∃ t₁ : Tty, t₁ = { t with tyimode := c.tyimode } := ⟨_, rfl⟩
    obtain ⟨hT, hiff⟩ := answer_iff c.count c.avail t₁ hchars
    obtain ⟨s, hs⟩ : ∃ s, s = serveRead t₁ c.count c.avail stream := ⟨_, rfl⟩
    obtain ⟨a, ha⟩ : ∃ a, a = answer t₁ c.count c.avail stream := ⟨_, rfl⟩
    have hstream : a.stream = stream := by
      rw [ha]
      rfl
    rw [← hs, ← ha] at hT hiff
    rw [Answer.Takes, hstream] at hT
    cases hv : s.value with
    | none =>
      have hall : serveAll (c :: calls) t stream = ([a], s.rest) := by
        simp only [serveAll, ← ht₁, ← hs, ← ha, hv]
      constructor
      · rintro ⟨hbounds, hsame⟩
        rw [hall] at hbounds hsame ⊢
        intro b hb
        obtain rfl := List.mem_singleton.mp hb
        refine hiff.mp ⟨hbounds b hb, ?_⟩
        rw [hstream]
        simpa using hsame
      · intro hsound
        rw [hall] at hsound
        have S := hiff.mpr (hsound a (List.mem_singleton_self a))
        constructor
        · rw [hall]
          intro b hb
          rw [List.mem_singleton.mp hb]
          exact S.bounds
        · rw [hall]
          simpa [hstream] using S.accounts
    | some v =>
      have hall : serveAll (c :: calls) t stream = (a :: (serveAll calls s.t s.rest).1, (serveAll calls s.t s.rest).2) := by
        simp only [serveAll, ← ht₁, ← hs, ← ha, hv]
      have ih' := ih s.t s.rest fun ch hch => hchars ch (List.mem_of_mem_drop (hT ▸ hch))
      constructor
      · rintro ⟨hbounds, hsame⟩
        rw [hall] at hbounds hsame ⊢
        rw [List.flatMap_cons, List.append_assoc] at hsame
        have hrest : (serveAll calls s.t s.rest).1.flatMap Answer.accounts ++ (serveAll calls s.t s.rest).2 = s.rest := by
          refine Eq.trans ?_ hT.symm
          conv_rhs => rw [← hsame]
          exact List.drop_left.symm
        have hsound := ih'.mp ⟨fun b hb => hbounds b (List.mem_cons_of_mem _ hb), hrest⟩
        intro b hb
        rcases List.mem_cons.mp hb with rfl | hb
        · refine hiff.mp ⟨hbounds b List.mem_cons_self, ?_⟩
          rw [hrest] at hsame
          exact hsame.trans hstream.symm
        · exact hsound b hb
      · intro hsound
        rw [hall] at hsound
        have S := hiff.mpr (hsound a List.mem_cons_self)
        have D := ih'.mpr fun b hb => hsound b (List.mem_cons_of_mem _ hb)
        constructor
        · rw [hall]
          intro b hb
          rcases List.mem_cons.mp hb with rfl | hb
          · exact S.bounds
          · exact D.bounds b hb
        · rw [hall]
          simp only [List.flatMap_cons, List.append_assoc, D.stream]
          exact S.accounts.trans hstream

/-- Two calls read a line of three characters. -/
theorem ttyread_delivers_line :
    Delivered [⟨.TY_IMCOOKED, 2, 0⟩, ⟨.TY_IMCOOKED, 9, 0⟩] (Tty.ttyinit {} 0 1) [104, 105, 10] ∧
      (serveAll [⟨.TY_IMCOOKED, 2, 0⟩, ⟨.TY_IMCOOKED, 9, 0⟩] (Tty.ttyinit {} 0 1) [104, 105, 10]).1.map Answer.bytes =
        [[104, 105], [10]] := by
  have hsound : ∀ a ∈ (serveAll [⟨.TY_IMCOOKED, 2, 0⟩, ⟨.TY_IMCOOKED, 9, 0⟩] (Tty.ttyinit {} 0 1) [104, 105, 10]).1,
      0 < a.count ∧ ∀ c ∈ lineChars isEnd a.count a.stream, a.t.isEof c = true → c = charOf EOF := by decide
  exact ⟨(ttyread_delivers_iff _ _ _ (by decide)).mpr fun a ha _ _ _ _ => hsound a ha, by decide⟩

/-- A call in cooked mode with a count of zero stores a byte, and an end-of-file character inside a line, which was released
before the mode was changed, is stored as another one. -/
theorem ttyread_stores_other :
    ¬Delivered [⟨.TY_IMCOOKED, 0, 1⟩] (Tty.ttyinit {} 0 1) [97] ∧
      ¬Delivered [⟨.TY_IMCOOKED, 9, 3⟩] (Tty.ttyinit {} 0 1) [97, 4, 10] := by
  constructor
  · intro D
    have hle := (D.bounds (answer (Tty.ttyinit {} 0 1) 0 1 [97]) List.mem_cons_self).bounded (.inr rfl)
    exact absurd hle (by decide)
  · intro D
    exact absurd D.stream (by decide)

end Xinu
