import Xinu.Lib.LineEditor
import Xinu.Theorems.TtyInput

/-!
# Line editing in cooked mode

`ttyhandle_in` edits the pending line in place, in the ring that also holds the completed lines that were not read. In every run
in which the characters arrive in cooked mode, none of them is an end-of-file or flow control character, and each finds room,
what readers take are the completed lines of a line editor that was given the same characters, and the ring holds the rest of
these lines and then the editor's current line.
-/

namespace Xinu

open LineEditor

/-! ## The keys -/

namespace TtySettings

variable (s : TtySettings)

/-- The common part for cooked and cbreak mode. -/
def mapCr (ch : Nat) : Nat := if ch = TY_RETURN ∧ s.tyicrlf then TY_NEWLINE else ch

/-- The key that a character is in cooked mode, behind the mapping. -/
def keyOf (ch : Nat) : Key Nat :=
  if ch = s.tyikillc ∧ s.tyikill then .kill
  else if (ch = s.tyierasec ∨ ch = s.tyierasec2) ∧ s.tyierase then .erase
  else if ch = TY_NEWLINE ∨ ch = TY_RETURN then .newline ch
  else .char ch

/-- The text that a line editor makes of the characters. -/
def typed (input : List Nat) : Text Nat := Text.empty.typed (input.map (fun ch => s.keyOf (s.mapCr ch)))

/-- The character, behind the mapping, is no end-of-file character and no character for flow control. -/
def plain (ch : Nat) : Bool := !(decide (ch = s.tyeofch) && s.tyeof) && !(s.tyoflow && (decide (ch = s.tyostart) || decide (ch = s.tyostop)))

/-- The settings that are never changed, with some values for the others. -/
def fixed : TtySettings := { s with tyimode := .TY_IMCOOKED, tyiecho := true, tyoheld := false }

/-- What the line editor looks at is never changed. -/
theorem fixed_keys {s s' : TtySettings} (h : s'.fixed = s.fixed) :
    s'.keyOf = s.keyOf ∧ s'.mapCr = s.mapCr ∧ s'.plain = s.plain ∧ s'.tyeof = s.tyeof ∧ s'.tyeofch = s.tyeofch := by
  have hkey : s'.fixed.keyOf = s.fixed.keyOf := by rw [h]
  have hmap : s'.fixed.mapCr = s.fixed.mapCr := by rw [h]
  have hplain : s'.fixed.plain = s.fixed.plain := by rw [h]
  have heof : s'.fixed.tyeof = s.fixed.tyeof := by rw [h]
  have heofch : s'.fixed.tyeofch = s.fixed.tyeofch := by rw [h]
  exact ⟨hkey, hmap, hplain, heof, heofch⟩

end TtySettings

/-! ## Settings that are never changed -/

namespace Tty

variable {t t' : Tty} {n : Int}

/-- The settings that the driver never changes are the same. -/
def SameFixed (t t' : Tty) : Prop := t'.toTtySettings.fixed = t.toTtySettings.fixed

theorem SameFixed.refl (t : Tty) : t.SameFixed t := rfl

theorem SameFixed.trans {t'' : Tty} (h : t.SameFixed t') (h' : t'.SameFixed t'') : t.SameFixed t'' := Eq.trans h' h

theorem eputs_fixed (t : Tty) (l : List Nat) : t.SameFixed (t.eputs l) := by
  induction l generalizing t with
  | nil => exact SameFixed.refl t
  | cons ch l ih => exact ih (t.eputc ch)

theorem echo_fixed (t : Tty) (ch : Nat) : t.SameFixed (t.echo ch) := by
  unfold echo
  split
  · exact t.eputs_fixed _
  · exact SameFixed.refl t

theorem putIn_fixed {ch : Nat} (h : t.putIn ch = some t') : t.SameFixed t' := by
  unfold putIn at h
  split at h
  · obtain rfl := Option.some.inj h
    exact SameFixed.refl t
  · cases h

theorem putIn_map_fixed {t₀ : Tty} {ch : Nat} {g : Tty → Tty × Int} (h0 : t.SameFixed t₀) (hg : ∀ t : Tty, t.SameFixed (g t).1)
    (h : (t₀.putIn ch).map g = some (t', n)) : t.SameFixed t' := by
  obtain ⟨t₁, h1, h2⟩ := Option.map_eq_some_iff.mp h
  have h3 := hg t₁
  rw [h2] at h3
  exact (h0.trans (putIn_fixed h1)).trans h3

theorem perform_fixed {ch : Nat} {b : Branch} (h : t.perform ch b = some (t', n)) : t.SameFixed t' := by
  cases b with
  | ignore | start | stop =>
    obtain ⟨rfl, -⟩ := Prod.mk.inj (Option.some.inj h)
    exact SameFixed.refl t
  | raw => exact putIn_map_fixed (SameFixed.refl t) (fun t => SameFixed.refl t) h
  | full =>
    obtain ⟨rfl, -⟩ := Prod.mk.inj (Option.some.inj h)
    exact SameFixed.refl t
  | cbreak =>
    refine putIn_map_fixed (SameFixed.refl t) (fun t₁ => ?_) h
    exact echo_fixed (t₁.wrapIn.note (.direct ch)) ch
  | kill =>
    obtain ⟨rfl, -⟩ := Prod.mk.inj (Option.some.inj h)
    exact eputs_fixed _ _
  | erase =>
    simp only [perform] at h
    split at h
    · obtain ⟨rfl, -⟩ := Prod.mk.inj (Option.some.inj h)
      exact eputs_fixed _ _
    · obtain ⟨rfl, -⟩ := Prod.mk.inj (Option.some.inj h)
      exact SameFixed.refl t
  | line => exact putIn_map_fixed (t.echo_fixed ch) (fun t => SameFixed.refl t) h
  | eof =>
    simp only [perform] at h
    split at h
    · obtain ⟨rfl, -⟩ := Prod.mk.inj (Option.some.inj h)
      exact t.echo_fixed ch
    · exact putIn_map_fixed (t.echo_fixed ch) (fun t => SameFixed.refl t) h
  | char =>
    have h0 : t.SameFixed { t.echo ch with tyicursor := (t.echo ch).tyicursor + 1 } := t.echo_fixed ch
    exact putIn_map_fixed h0 (fun t => SameFixed.refl t) h

theorem ttyhandleIn_fixed {count : Int} {ch : Nat} (h : t.ttyhandleIn count ch = some (t', n)) : t.SameFixed t' := by
  rw [ttyhandleIn_eq] at h
  have hhold : t.SameFixed (t.hold (t.taken count ch)) := SameFixed.refl t
  exact hhold.trans (perform_fixed h)

theorem sendEcho_fixed (n : Nat) (t : Tty) : t.SameFixed (sendEcho n t).2 := by
  induction n generalizing t with
  | zero => exact SameFixed.refl t
  | succ n ih =>
    unfold sendEcho
    split
    · exact ih _
    · exact SameFixed.refl t

theorem sendOut_fixed (n : Nat) (t : Tty) : t.SameFixed (sendOut n t) := by
  induction n generalizing t with
  | zero => exact SameFixed.refl t
  | succ n ih => exact ih _

theorem ttyputcs_fixed (t : Tty) (l : List OutChar) : t.SameFixed (t.ttyputcs l).1 := by
  cases l with
  | nil => exact SameFixed.refl t
  | cons c rest =>
    simp only [ttyputcs]
    split_ifs <;> exact SameFixed.refl t

/-! ## One character -/

/-- What the driver has recorded of its input is the text. -/
structure Agrees (l : TtyLines) (e : Text Nat) : Prop where
  released : l.released = e.lines.flatten
  pending : l.pending = e.current

/-- The branch of `ttyhandle_in` for a key. -/
def branchOf : Key Nat → Branch
  | .kill => .kill
  | .erase => .erase
  | .newline _ => .line
  | .char _ => .char

theorem mapped_cooked (hmode : t.tyimode = .TY_IMCOOKED) (ch : Nat) : t.mapped ch = t.mapCr ch := by
  unfold mapped TtySettings.mapCr
  rw [hmode]
  simp

/-- A character that is no end-of-file or flow control character, and finds room, is handled as a key. -/
theorem branch_cooked {avail : Int} {ch : Nat} (hmode : t.tyimode = .TY_IMCOOKED) (hplain : t.plain ch = true)
    (hroom : avail + t.tyicursor < TY_IBUFLEN - 1) : t.branch avail ch = branchOf (t.keyOf ch) := by
  have hraw : ¬t.tyimode = .TY_IMRAW := by
    rw [hmode]
    decide
  have hcbreak : ¬t.tyimode = .TY_IMCBREAK := by
    rw [hmode]
    decide
  simp only [TtySettings.plain, Bool.and_eq_true, Bool.not_eq_true', Bool.and_eq_false_iff, Bool.or_eq_false_iff,
    decide_eq_false_iff_not] at hplain
  obtain ⟨heof, hflow⟩ := hplain
  have hstart : ¬(t.tyoflow = true ∧ ch = t.tyostart) := by
    rintro ⟨h1, h2⟩
    rcases hflow with h | h
    · rw [h] at h1
      cases h1
    · exact h.1 h2
  have hstop : ¬(t.tyoflow = true ∧ ch = t.tyostop) := by
    rintro ⟨h1, h2⟩
    rcases hflow with h | h
    · rw [h] at h1
      cases h1
    · exact h.2 h2
  have hnoeof : ¬(ch = t.tyeofch ∧ t.tyeof = true) := by
    rintro ⟨h1, h2⟩
    rcases heof with h | h
    · exact h h1
    · rw [h] at h2
      cases h2
  unfold branch TtySettings.keyOf
  rw [if_neg hraw, if_neg hstart, if_neg hstop, if_neg hcbreak]
  split_ifs with h1 h2 h3 h4
  · rfl
  · rfl
  · rfl
  · omega
  · rfl

theorem putIn_log {ch : Nat} (h : t.putIn ch = some t') : t'.log = t.log := by
  unfold putIn at h
  split at h
  · obtain rfl := Option.some.inj h
    rfl
  · cases h

/-- The branch for a key records what the key does to the text. -/
theorem perform_key {unread : List Nat} {e : Text Nat} {ch : Nat} (H : t.Input unread) (A : Agrees (ttyLines t.log) e)
    (h : t.perform ch (branchOf (t.keyOf ch)) = some (t', n)) : Agrees (ttyLines t'.log) (e.press (t.keyOf ch)) := by
  have hecho := (t.echo_sameIn ch).lines
  unfold TtySettings.keyOf at h ⊢
  split_ifs at h ⊢ with h1 h2 h3
  · obtain ⟨rfl, -⟩ := Prod.mk.inj (Option.some.inj h)
    rw [(eputs_sameIn _ _).lines]
    exact ⟨A.released, rfl⟩
  · simp only [branchOf, perform] at h
    split at h
    · obtain ⟨rfl, -⟩ := Prod.mk.inj (Option.some.inj h)
      rw [erase1, (eputs_sameIn _ _).lines]
      exact ⟨A.released, congrArg List.dropLast A.pending⟩
    · next hcur =>
      obtain ⟨rfl, -⟩ := Prod.mk.inj (Option.some.inj h)
      -- no line is pending
      have hnil : (ttyLines t.log).pending = [] := by
        refine List.length_eq_zero_iff.mp ?_
        have := H.cursor
        omega
      refine ⟨A.released, ?_⟩
      have hcurrent : e.current = [] := A.pending.symm.trans hnil
      rw [hnil, Text.press, hcurrent]
      rfl
  · obtain ⟨t₁, hput, h⟩ := Option.map_eq_some_iff.mp h
    obtain ⟨rfl, -⟩ := Prod.mk.inj h
    have hlines : ttyLines t₁.log = ttyLines t.log := by rw [putIn_log hput, hecho]
    change Agrees ((ttyLines t₁.log).edit (.line ch)) _
    rw [hlines]
    refine ⟨?_, rfl⟩
    rw [TtyLines.edit, A.released, A.pending, Text.press, List.flatten_append, List.flatten_singleton]
  · obtain ⟨t₁, hput, h⟩ := Option.map_eq_some_iff.mp h
    obtain ⟨rfl, -⟩ := Prod.mk.inj h
    have hlines : ttyLines t₁.log = ttyLines t.log := by
      rw [putIn_log hput]
      exact hecho
    change Agrees ((ttyLines t₁.log).edit (.typed ch)) _
    rw [hlines]
    refine ⟨A.released, ?_⟩
    rw [TtyLines.edit, A.pending, Text.press]

/-! ## All characters of an interrupt -/

/-- The character arrives in cooked mode, is no end-of-file or flow control character, and finds room in a buffer with so many
characters. -/
def cookedIn (t : Tty) (occupied : Int) (ch : Nat) : Bool :=
  decide (t.tyimode = .TY_IMCOOKED) && t.plain (t.mapCr ch) && decide (occupied < TY_IBUFLEN - 1)

/-- The same for every character, when so many units of the input semaphore are held by readers that have not yet taken their
character. -/
def cookedAll (held : Int) : Int → List Nat → Tty → Bool
  | _, [], _ => true
  | count, ch :: chars, t =>
    t.cookedIn (count + held + t.tyicursor) ch &&
      match t.ttyhandleIn count ch with
      | some (t', n) => cookedAll held (count + n) chars t'
      | none => true

theorem fitsIn_key {occupied : Int} (h : occupied < TY_IBUFLEN) (k : Key Nat) : t.fitsIn occupied (branchOf k) = true := by
  cases k with
  | char ch | newline ch => exact decide_eq_true h
  | erase | kill => rfl

/-- The branch for a character that arrives in cooked mode. -/
theorem taken_cooked {count held : Int} {ch : Nat} (h : t.cookedIn (count + held + t.tyicursor) ch = true) (hheld : 0 ≤ held)
    (hcount : 0 ≤ count + held) :
    t.taken count ch = branchOf (t.keyOf (t.mapCr ch)) ∧ t.mapped ch = t.mapCr ch ∧ t.plain (t.mapCr ch) = true ∧
      t.fitsIn (count + held + t.tyicursor) (t.taken count ch) = true := by
  simp only [cookedIn, Bool.and_eq_true, decide_eq_true_eq] at h
  obtain ⟨⟨hmode, hplain⟩, hroom⟩ := h
  have hmapped := mapped_cooked hmode ch
  have hbuf : TY_IBUFLEN = 128 := rfl
  have htaken : t.taken count ch = branchOf (t.keyOf (t.mapCr ch)) := by
    rw [taken, hmapped]
    refine branch_cooked hmode hplain ?_
    split <;> omega
  refine ⟨htaken, hmapped, hplain, ?_⟩
  rw [htaken]
  exact fitsIn_key (by omega) _

/-- The characters of an interrupt that arrive in cooked mode find room, and edit the text. -/
theorem Input.handleAll_cooked {s : TtySettings} {chars unread : List Nat} {count held : Int} {e : Text Nat} (H : t.Input unread)
    (A : Agrees (ttyLines t.log) e) (hs : t.toTtySettings.fixed = s.fixed) (hcount : (unread.length : Int) = count + held)
    (hheld : 0 ≤ held) (hc : cookedAll held count chars t = true) :
    fitsAll held count chars t = true ∧ (∀ ch ∈ chars, s.plain (s.mapCr ch) = true) ∧
      ∀ t' n, Tty.handleAll count chars t = some (t', n) →
        Agrees (ttyLines t'.log) (e.typed (chars.map (fun ch => s.keyOf (s.mapCr ch)))) ∧ t'.toTtySettings.fixed = s.fixed := by
  induction chars generalizing t unread count e with
  | nil =>
    refine ⟨rfl, fun _ => nofun, fun t' n h => ?_⟩
    obtain ⟨rfl, -⟩ := Prod.mk.inj (Option.some.inj h)
    exact ⟨A, hs⟩
  | cons ch chars ih =>
    obtain ⟨hkey, hmap, hpl, -⟩ := TtySettings.fixed_keys hs
    simp only [cookedAll, Bool.and_eq_true] at hc
    obtain ⟨hfirst, hrest⟩ := hc
    obtain ⟨htaken, hmapped, hplain, hfits⟩ := taken_cooked hfirst hheld (by omega)
    have Hh : (t.hold (t.taken count ch)).Input unread := H.same ⟨rfl, rfl, rfl, rfl, rfl, rfl⟩
    have hfits' : (t.hold (t.taken count ch)).fitsIn (unread.length + (t.hold (t.taken count ch)).tyicursor)
        (t.taken count ch) = true := by
      rw [hcount]
      exact hfits
    obtain ⟨t₁, r₁, h1, H₁⟩ := Hh.perform hfits' (t.mapped ch)
    have hin : t.ttyhandleIn count ch = some (t₁, (r₁.length : Int)) := h1
    have A₁ : Agrees (ttyLines t₁.log) (e.press (t.keyOf (t.mapCr ch))) := by
      rw [hmapped, htaken] at h1
      exact @perform_key (t.hold (branchOf (t.keyOf (t.mapCr ch)))) _ _ _ _ _ (H.same ⟨rfl, rfl, rfl, rfl, rfl, rfl⟩) A h1
    rw [hin] at hrest
    obtain ⟨hf, hp, hall⟩ := ih H₁ A₁ (Eq.trans (ttyhandleIn_fixed hin) hs) (by rw [List.length_append]; push_cast; omega) hrest
    refine ⟨?_, fun c hmem => ?_, fun t' n h => ?_⟩
    · simp only [fitsAll, hfits, hin, Bool.true_and]
      exact hf
    · rcases List.mem_cons.mp hmem with rfl | hmem
      · rw [← hpl, ← hmap]
        exact hplain
      · exact hp c hmem
    · obtain ⟨⟨t₂, n₂⟩, h2, h3⟩ := Option.bind_eq_some_iff.mp h
      rw [hin] at h2
      obtain ⟨rfl, rfl⟩ := Prod.mk.inj (Option.some.inj h2)
      obtain ⟨⟨t₃, n₃⟩, h4, h5⟩ := Option.map_eq_some_iff.mp h3
      obtain ⟨rfl, -⟩ := Prod.mk.inj h5
      rw [hkey, hmap] at hall
      exact hall t₃ n₃ h4

end Tty

/-! ## Runs -/

/-- The characters that an event hands to `ttyhandle_in`. -/
def Machine.handled (m : Machine tty) (e : Event tty) : List Nat :=
  match m.resumed e with
  | some (.arrived chars, _) => chars
  | _ => []

/-- Every character that is handed to `ttyhandle_in` arrives in cooked mode, is no end-of-file or flow control character, and
finds fewer than `TY_IBUFLEN - 1` unread and pending characters. -/
def Machine.TtyCooked (m : Machine tty) (e : Event tty) : Bool :=
  match m.resumed e with
  | some (.arrived chars, count) => Tty.cookedAll (m.frames TtyPoint.reads) count chars m.data
  | _ => true

/-- The states that are reached from the initialised tty by any events, with the characters that have been handled. -/
inductive CookedRun (settings : TtySettings) (minheap maxheap : Nat) : List Nat → Machine tty → Prop where
  | boot : CookedRun settings minheap maxheap [] (ttyBoot settings minheap maxheap)
  | step {input : List Nat} {m m' : Machine tty} (e : Event tty) (r : CookedRun settings minheap maxheap input m)
      (hlaw : m.Lawful e) (halone : m.TtyAlone e = true) (hcooked : m.TtyCooked e = true) (hs : m.step e = some m') :
      CookedRun settings minheap maxheap (input ++ m.handled e) m'

/-- What holds of the input side and the text. -/
structure TtyEdits (settings : TtySettings) (input : List Nat) (m : Machine tty) : Prop where
  reads : TtyReads m
  fixed : m.data.toTtySettings.fixed = settings.fixed
  agrees : Tty.Agrees (ttyLines m.data.log) (settings.typed input)
  plain : ∀ ch ∈ input, settings.plain (settings.mapCr ch) = true

theorem TtySettings.typed_append (s : TtySettings) (input more : List Nat) :
    s.typed (input ++ more) = (s.typed input).typed (more.map (fun ch => s.keyOf (s.mapCr ch))) := by
  rw [typed, List.map_append, Text.typed_append, typed]

section Step

variable {m m' : Machine tty} {e : Event tty} {h h' : Kernel QLists} {x : Tty × Next TtyPoint}

/-- A segment that handles no characters records no editing. -/
theorem tty_segment_quiet (hx : m.segment e = some x) (hne : m.data.tyisem ≠ m.data.tyosem)
    (harr : ∀ chars v, m.resumed e ≠ some (.arrived chars, v)) :
    ttyLines x.1.log = ttyLines m.data.log ∧ m.data.SameFixed x.1 := by
  cases e with
  | call c | tick => cases hx
  | op o =>
    obtain rfl := Option.some.inj hx
    cases o with
    | receive chars => exact ⟨rfl, rfl⟩
    | transmit lvl =>
      simp only [tty]
      split
      · exact ⟨rfl, rfl⟩
      · exact ⟨rfl, rfl⟩
    | ttygetc => exact ⟨rfl, rfl⟩
    | ttyread count => exact ⟨(m.data.ttyread_idle count).same.lines, by simp only [tty, Tty.ttyread_fst]; exact Tty.SameFixed.refl _⟩
    | ttyputc ch => exact ⟨(m.data.ttyputcs_idle [⟨ch, true, 0⟩]).same.lines, m.data.ttyputcs_fixed _⟩
    | ttywrite buff count =>
      refine ⟨(m.data.ttywrite_idle buff count).same.lines, ?_⟩
      simp only [tty, Tty.ttywrite]
      split_ifs
      · exact Tty.SameFixed.refl _
      · exact Tty.SameFixed.refl _
      · exact m.data.ttyputcs_fixed _
    | ttycontrol func => exact ⟨(m.data.ttycontrol_idle func).same.lines, by cases func <;> exact rfl⟩
  | ret | cont =>
    obtain ⟨⟨f, v⟩, hr, rfl⟩ := Option.map_eq_some_iff.mp hx
    cases f with
    | arrived chars => exact absurd hr (harr chars v)
    | got u =>
      simp only [tty, Tty.gotten_fst]
      exact ⟨rfl, rfl⟩
    | ready lvl =>
      refine ⟨(m.data.ttyhandleOut_idle lvl v hne).same.lines, ?_⟩
      have S := (Tty.sendEcho_fixed (UART_FIFO_SIZE - lvl).toNat m.data).trans (Tty.sendOut_fixed
        (min (Tty.sendEcho (UART_FIFO_SIZE - lvl).toNat m.data).1 (TY_OBUFLEN - v).toNat) _)
      simp only [tty, Tty.ttyhandleOut]
      split_ifs
      · exact Tty.SameFixed.refl _
      · exact S
      · exact S
    | counted =>
      simp only [tty]
      split
      · exact ⟨rfl, rfl⟩
      · exact ⟨(m.data.readEach_idle 0 v).same.lines, by rw [Tty.readEach_fst]; exact Tty.SameFixed.refl _⟩
    | store c rest =>
      exact ⟨(m.data.store_idle c rest).same.lines, Tty.SameFixed.trans (Tty.SameFixed.refl _) ((m.data.putOut c).ttyputcs_fixed rest)⟩
    | peeked | room | returned | done => exact ⟨rfl, rfl⟩

/-- The characters of an event that arrive in cooked mode find room, and edit the text. -/
theorem TtyEdits.arrive {settings : TtySettings} {input : List Nat} (I : TtyEdits settings input m)
    (hcooked : m.TtyCooked e = true) {chars : List Nat} {v : Int} (hr : m.resumed e = some (.arrived chars, v)) :
    Tty.fitsAll (m.frames TtyPoint.reads) v chars m.data = true ∧ (∀ ch ∈ chars, settings.plain (settings.mapCr ch) = true) ∧
      ∀ t' n, Tty.handleAll v chars m.data = some (t', n) →
        Tty.Agrees (ttyLines t'.log) (settings.typed (input ++ chars)) ∧ t'.toTtySettings.fixed = settings.fixed := by
  obtain ⟨unread, H, hunits⟩ := I.reads.input
  have hcount : (unread.length : Int) = v + m.frames TtyPoint.reads := by
    rw [hunits, I.reads.prompt.resumed hr rfl, Machine.units]
  have hall : Tty.cookedAll (m.frames TtyPoint.reads) v chars m.data = true := by
    simpa only [Machine.TtyCooked, hr] using hcooked
  rw [TtySettings.typed_append]
  exact H.handleAll_cooked I.agrees I.fixed hcount (Int.natCast_nonneg _) hall

/-- Characters that arrive in cooked mode fit. -/
theorem TtyEdits.fits {settings : TtySettings} {input : List Nat} (I : TtyEdits settings input m)
    (hcooked : m.TtyCooked e = true) : m.TtyFits e = true := by
  unfold Machine.TtyFits
  split
  · next chars v hr => exact (I.arrive hcooked hr).1
  · rfl

/-- Every event keeps what is recorded of the input and the text in step. -/
theorem TtyEdits.step {settings : TtySettings} {input : List Nat} (I : TtyEdits settings input m) (hs : m.step e = some m')
    (halone : m.TtyAlone e = true) (hcooked : m.TtyCooked e = true) (St : Steady m h) (T : AllTracked h) (St' : Steady m' h')
    (D : Does m e h m' h') : TtyEdits settings (input ++ m.handled e) m' := by
  have R := I.reads.step hs halone (I.fits hcooked) St T St' D
  have hdata := Machine.segment_data hs
  by_cases harr : ∃ chars v, m.resumed e = some (.arrived chars, v)
  · obtain ⟨chars, v, hr⟩ := harr
    obtain ⟨unread, H, hunits⟩ := I.reads.input
    have hcount : (unread.length : Int) = v + m.frames TtyPoint.reads := by
      rw [hunits, I.reads.prompt.resumed hr rfl, Machine.units]
    obtain ⟨hfits, hplain, hall⟩ := I.arrive hcooked hr
    obtain ⟨t', released, ht', -⟩ := H.handleAll hcount hfits
    obtain ⟨A, hfixed⟩ := hall t' _ ht'
    have hhandled : m.handled e = chars := by simp only [Machine.handled, hr]
    have hdata' : m'.data = t' := by
      rw [hdata, Machine.segment_resumed hr]
      simp only [tty, ht']
      split <;> rfl
    rw [hhandled]
    refine ⟨R, by rw [hdata']; exact hfixed, by rw [hdata']; exact A, fun ch hch => ?_⟩
    rcases List.mem_append.mp hch with hch | hch
    · exact I.plain ch hch
    · exact hplain ch hch
  · have hne : ∀ chars v, m.resumed e ≠ some (.arrived chars, v) := fun chars v hr => harr ⟨chars, v, hr⟩
    have hhandled : m.handled e = [] := by
      unfold Machine.handled
      split
      · next chars v hr => exact absurd hr (hne chars v)
      · rfl
    rw [hhandled, List.append_nil]
    cases hx : m.segment e with
    | none =>
      have hsame : m'.data = m.data := by
        rw [hdata, hx]
        rfl
      exact ⟨R, by rw [hsame]; exact I.fixed, by rw [hsame]; exact I.agrees, I.plain⟩
    | some x =>
      have hsame : m'.data = x.1 := by
        rw [hdata, hx]
        rfl
      obtain ⟨hlines, hfixed⟩ := tty_segment_quiet hx I.reads.sems hne
      exact ⟨R, by rw [hsame]; exact Eq.trans hfixed I.fixed, by rw [hsame, hlines]; exact I.agrees, I.plain⟩

end Step

/-- What holds of the input side and the text holds in every state that is reached. -/
theorem cookedRun_edits {settings : TtySettings} {minheap maxheap : Nat} {input : List Nat} {m : Machine tty}
    (r : CookedRun settings minheap maxheap input m) : TtyEdits settings input m ∧ ∃ h, Steady m h ∧ AllTracked h := by
  induction r with
  | boot =>
    obtain ⟨h₀, St₀, T₀⟩ := ttyBoot_steady settings minheap maxheap
    exact ⟨⟨ttyReads_boot settings minheap maxheap, rfl, ⟨rfl, rfl⟩, fun _ => nofun⟩, h₀, St₀, T₀⟩
  | step e _ hlaw halone hcooked hs ih =>
    obtain ⟨I, h, St, T⟩ := ih
    obtain ⟨h', St', D⟩ := step_does St hs hlaw
    refine ⟨I.step hs halone hcooked St T St' D, h', St', ?_⟩
    exact D.keeps allTracked_stable (fun _ _ H s hs => (H s hs).takeMsg) St.inv T

/-- Readers take the completed lines of the text in order; the ring holds the rest of these lines, which the semaphore or
readers that were released account for, and then the current line. `ttygetc` takes the next character of the lines behind its
`wait` and returns it as it is, and no further input changes a completed line. -/
structure DeliversLines (settings : TtySettings) (input : List Nat) (m : Machine tty) : Prop where
  delivered : ∃ unread, (settings.typed input).lines.flatten = ttyTaken m.data.log ++ unread ∧
    (unread.length : Int) = m.units m.data.tyisem TtyPoint.reads ∧
    Ring.items TY_IBUFLEN m.data.tyibuff m.data.tyihead (unread.length + m.data.tyicursor) =
      unread ++ (settings.typed input).current
  cursor : m.data.tyicursor = (settings.typed input).current.length
  values : ∀ ch ∈ ttyTaken m.data.log, ∀ mode, Tty.getcValue { m.data with tyimode := mode } ch = (ch : Int)
  returned : ∀ e m' u v, m.step e = some m' → m.resumed e = some (.got u, v) → ∃ ch : Nat,
    ttyTaken m'.data.log = ttyTaken m.data.log ++ [ch] ∧ ttyTaken m'.data.log <+: (settings.typed input).lines.flatten ∧
      m.segment e = some (m.data.getIn.2.gotten u ch)
  kept : ∀ more, (settings.typed input).lines <+: (settings.typed (input ++ more)).lines

/-- A character of the text is no end-of-file character. -/
theorem typed_no_eof {settings : TtySettings} {input : List Nat} (h : ∀ ch ∈ input, settings.plain (settings.mapCr ch) = true)
    {ch : Nat} (hch : ch ∈ (settings.typed input).chars) : ¬(settings.tyeof = true ∧ ch = settings.tyeofch) := by
  rcases Text.typed_chars hch with hnone | ⟨k, hk, hadded⟩
  · cases hnone
  · obtain ⟨c, hc, rfl⟩ := List.mem_map.mp hk
    have hmapped : ch = settings.mapCr c := by
      unfold TtySettings.keyOf at hadded
      split_ifs at hadded
      · cases hadded
      · cases hadded
      · exact List.mem_singleton.mp hadded
      · exact List.mem_singleton.mp hadded
    have hplain := h c hc
    rw [← hmapped] at hplain
    rintro ⟨h1, h2⟩
    simp [TtySettings.plain, h1, h2] at hplain

/-- Events that hand no characters to `ttyhandle_in`. -/
def Machine.TtyQuiet (m : Machine tty) (e : Event tty) : Prop :=
  m.Lawful e ∧ m.TtyAlone e = true ∧ m.TtyCooked e = true ∧ m.handled e = []

instance (m : Machine tty) (e : Event tty) : Decidable (m.TtyQuiet e) := inferInstanceAs (Decidable (_ ∧ _ ∧ _ ∧ _))

theorem CookedRun.quiet {settings : TtySettings} {minheap maxheap : Nat} {input : List Nat} {m m' : Machine tty}
    (r : CookedRun settings minheap maxheap input m) (r' : Machine.Reach Machine.TtyQuiet m m') :
    CookedRun settings minheap maxheap input m' := by
  induction r' with
  | refl => exact r
  | step e _ hok hs ih =>
    obtain ⟨hlaw, halone, hcooked, hnone⟩ := hok
    have h := ih.step e hlaw halone hcooked hs
    rwa [hnone, List.append_nil] at h

/-- Some characters arrive, one of which is erased, and the line is completed with a carriage return. -/
def ttyTypo : List Nat := [97, 98, 8, 99, 13]

/-- The interrupt of these characters, then two characters are read. -/
def Machine.readsTypo (m : Machine tty) : Bool :=
  decide (m.Lawful .cont) && m.TtyAlone .cont && m.TtyCooked .cont && decide (m.handled .cont = ttyTypo) &&
    match m.step .cont with
    | none => false
    | some m' => m'.evaluates Forcing.ttyMachine Machine.TtyQuiet (fun m => decide (ttyTaken m.data.log = [97, 99]))
        [.cont, .op .ttygetc, .cont, .op .ttygetc, .cont]

end Xinu
