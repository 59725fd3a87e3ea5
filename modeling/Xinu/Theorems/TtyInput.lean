import Xinu.Lib.History
import Xinu.Device.Tty
import Xinu.Kernel.Prompt

/-!
# The input buffer of a tty in every run

The fullness of the input buffer is judged from the count of a semaphore, which counts neither the characters for which a
reader has been released but has not run, nor a line that was pending when the mode was changed, and the end of a line is
stored without looking. In every run in which a character is stored only where there is room, the buffer is a ring that holds
the characters released to readers and not taken, then the pending line, and readers take the released characters in order.
-/

namespace Xinu

/-! ## What was typed -/

/-- The characters released to readers, and the pending line. -/
structure TtyLines where
  released : List Nat
  pending : List Nat
deriving Repr, DecidableEq

/-- What a record does to the lines. -/
def TtyLines.edit (l : TtyLines) : TtyObs → TtyLines
  | .direct ch => { l with released := l.released ++ [ch] }
  | .typed ch => { l with pending := l.pending ++ [ch] }
  | .erased => { l with pending := l.pending.dropLast }
  | .killed => { l with pending := [] }
  | .line ch => ⟨l.released ++ (l.pending ++ [ch]), []⟩
  | _ => l

/-- The lines after what is recorded, most recent first. -/
def ttyLines : List TtyObs → TtyLines
  | [] => ⟨[], []⟩
  | o :: log => (ttyLines log).edit o

/-- The character that a record says was taken. -/
def TtyObs.takenChar : TtyObs → Option Nat
  | .taken ch => some ch
  | _ => none

/-- The characters that `ttygetc` took, in order. -/
def ttyTaken (log : List TtyObs) : List Nat := since (fun _ => false) TtyObs.takenChar log

namespace Tty

variable {t t' : Tty} {unread l : List Nat} {ch : Nat}

/-! ## The ring -/

/-- The input buffer holds the characters `l`. -/
@[reducible] def Holds (t : Tty) (l : List Nat) : Prop := Ring.Holds TY_IBUFLEN t.tyibuff t.tyihead t.tyitail l

theorem Holds.congr (H : t.Holds l) (h1 : t'.tyihead = t.tyihead) (h2 : t'.tyitail = t.tyitail) (h3 : t'.tyibuff = t.tyibuff) :
    t'.Holds l := by
  rw [Holds, h1, h2, h3]
  exact H

/-- A character is stored inside the buffer. -/
theorem Holds.put (H : t.Holds l) (hl : (l.length : Int) < TY_IBUFLEN) (ch : Nat) :
    t.putIn ch = some { t with tyibuff := Function.update t.tyibuff t.tyitail ch, tyitail := t.tyitail + 1 } ∧
      Holds { t with
        tyibuff := Function.update t.tyibuff t.tyitail ch, tyitail := Ring.next TY_IBUFLEN t.tyitail } (l ++ [ch]) :=
  ⟨if_pos H.valid.tail_range, Ring.Holds.put H hl ch⟩

/-- The input side of the driver: `unread` are the characters released to readers and not taken. -/
structure Input (t : Tty) (unread : List Nat) : Prop where
  ring : t.Holds (unread ++ (ttyLines t.log).pending)
  cursor : t.tyicursor = (ttyLines t.log).pending.length
  fifo : (ttyLines t.log).released = ttyTaken t.log ++ unread

/-- The input side is the same. -/
structure SameIn (t t' : Tty) : Prop where
  head : t'.tyihead = t.tyihead
  tail : t'.tyitail = t.tyitail
  buff : t'.tyibuff = t.tyibuff
  cursor : t'.tyicursor = t.tyicursor
  lines : ttyLines t'.log = ttyLines t.log
  taken : ttyTaken t'.log = ttyTaken t.log

theorem SameIn.refl (t : Tty) : t.SameIn t := ⟨rfl, rfl, rfl, rfl, rfl, rfl⟩

theorem SameIn.trans {t'' : Tty} (h : t.SameIn t') (h' : t'.SameIn t'') : t.SameIn t'' :=
  ⟨h'.head.trans h.head, h'.tail.trans h.tail, h'.buff.trans h.buff, h'.cursor.trans h.cursor, h'.lines.trans h.lines,
    h'.taken.trans h.taken⟩

/-- The invariant depends on the input side only. -/
theorem Input.same (H : t.Input unread) (S : t.SameIn t') : t'.Input unread := by
  refine ⟨?_, ?_, ?_⟩
  · rw [S.lines]
    exact Holds.congr H.ring S.head S.tail S.buff
  · rw [S.cursor, S.lines]
    exact H.cursor
  · rw [S.lines, S.taken]
    exact H.fifo

theorem eputc_sameIn (t : Tty) (ch : Nat) : t.SameIn (t.eputc ch) := ⟨rfl, rfl, rfl, rfl, rfl, since_none rfl rfl _⟩

theorem eputs_sameIn (t : Tty) (l : List Nat) : t.SameIn (t.eputs l) := by
  induction l generalizing t with
  | nil => exact SameIn.refl t
  | cons ch l ih => exact (t.eputc_sameIn ch).trans (ih (t.eputc ch))

/-! ## Arriving characters -/

/-- A character is stored only where there is room for it, in a buffer with so many characters: in raw and cbreak mode no line
is pending, and the end-of-file character does not come to the last place. -/
def fitsIn (t : Tty) (occupied : Int) : Branch → Bool
  | .raw | .cbreak => decide (occupied < TY_IBUFLEN) && decide (t.tyicursor = 0)
  | .line | .char => decide (occupied < TY_IBUFLEN)
  | .eof => decide (t.tyicursor ≠ 0) || (decide (occupied < TY_IBUFLEN) && decide (t.tyitail + 1 < TY_IBUFLEN))
  | _ => true

/-- A character is stored and released to readers at once. -/
theorem Input.direct (H : t.Input unread) (hroom : ((unread.length : Int) + t.tyicursor) < TY_IBUFLEN)
    (hcur : t.tyicursor = 0) (ch : Nat) : ∃ t₁, t.putIn ch = some t₁ ∧ t₁.tyitail = t.tyitail + 1 ∧
      (t₁.wrapIn.note (.direct ch)).Input (unread ++ [ch]) := by
  have hpend : (ttyLines t.log).pending = [] := by
    refine List.length_eq_zero_iff.mp ?_
    have := H.cursor
    omega
  have hring := H.ring
  rw [hpend, List.append_nil] at hring
  obtain ⟨h1, h2⟩ := Holds.put hring (by omega) ch
  refine ⟨_, h1, rfl, ?_, ?_, ?_⟩
  · show Holds _ (unread ++ [ch] ++ (ttyLines t.log).pending)
    rw [hpend, List.append_nil]
    exact h2
  · exact H.cursor
  · show (ttyLines t.log).released ++ [ch] = ttyTaken (.direct ch :: t.log) ++ (unread ++ [ch])
    rw [ttyTaken, since_none rfl rfl, H.fifo, List.append_assoc]
    rfl

theorem echo_sameIn (t : Tty) (ch : Nat) : t.SameIn (t.echo ch) := by
  unfold echo
  split
  · exact t.eputs_sameIn _
  · exact SameIn.refl t

/-- The pending line is killed. -/
theorem Input.killed (H : t.Input unread) :
    Input ({ t with tyitail := Ring.back TY_IBUFLEN t.tyitail t.tyicursor, tyicursor := 0 }.note .killed) unread := by
  have hlen : (unread ++ (ttyLines t.log).pending).length - t.tyicursor.toNat = unread.length := by
    rw [H.cursor, List.length_append]
    omega
  have hret := H.ring.retract (k := t.tyicursor) (by rw [H.cursor]; omega)
    (by rw [H.cursor, List.length_append]; omega)
  rw [hlen, List.take_left] at hret
  refine ⟨?_, rfl, ?_⟩
  · show Holds _ (unread ++ [])
    rw [List.append_nil]
    exact hret
  · show (ttyLines t.log).released = ttyTaken (.killed :: t.log) ++ unread
    rw [ttyTaken, since_none rfl rfl]
    exact H.fifo

/-- The last character of the pending line is erased. -/
theorem Input.erased (H : t.Input unread) (hpos : 0 < t.tyicursor) :
    Input ({ t with tyicursor := t.tyicursor - 1, tyitail := Ring.back TY_IBUFLEN t.tyitail 1 }.note .erased) unread := by
  have hcur := H.cursor
  have hne : (ttyLines t.log).pending ≠ [] := by
    intro e
    rw [e, List.length_nil] at hcur
    omega
  have hdrop : (unread ++ (ttyLines t.log).pending).take ((unread ++ (ttyLines t.log).pending).length - (1 : Int).toNat) =
      unread ++ (ttyLines t.log).pending.dropLast := by
    rw [← List.dropLast_append_of_ne_nil hne, List.dropLast_eq_take]
    rfl
  have hret := H.ring.retract (k := 1) (by decide) (by rw [List.length_append]; omega)
  rw [hdrop] at hret
  refine ⟨?_, ?_, ?_⟩
  · show Holds _ (unread ++ (ttyLines t.log).pending.dropLast)
    exact hret
  · show t.tyicursor - 1 = (ttyLines t.log).pending.dropLast.length
    rw [List.length_dropLast]
    omega
  · show (ttyLines t.log).released = ttyTaken (.erased :: t.log) ++ unread
    rw [ttyTaken, since_none rfl rfl]
    exact H.fifo

/-- The end of a line is stored, and the line released to readers. -/
theorem Input.line (H : t.Input unread) (hroom : (unread.length : Int) + t.tyicursor < TY_IBUFLEN) (ch : Nat) :
    ∃ t₁, t.putIn ch = some t₁ ∧ t₁.tyicursor = t.tyicursor ∧
      Input ({ t₁.wrapIn with tyicursor := 0 }.note (.line ch)) (unread ++ ((ttyLines t.log).pending ++ [ch])) := by
  obtain ⟨h1, h2⟩ := Holds.put H.ring (by rw [List.length_append]; have := H.cursor; push_cast; omega) ch
  refine ⟨_, h1, rfl, ?_, rfl, ?_⟩
  · show Holds _ (unread ++ ((ttyLines t.log).pending ++ [ch]) ++ [])
    rw [List.append_nil, ← List.append_assoc]
    exact h2
  · show (ttyLines t.log).released ++ ((ttyLines t.log).pending ++ [ch]) =
      ttyTaken (.line ch :: t.log) ++ (unread ++ ((ttyLines t.log).pending ++ [ch]))
    rw [ttyTaken, since_none rfl rfl, ← List.append_assoc _ unread]
    exact congrArg (· ++ ((ttyLines t.log).pending ++ [ch])) H.fifo

/-- A character of a line is stored. -/
theorem Input.typed (H : t.Input unread) (hroom : (unread.length : Int) + t.tyicursor < TY_IBUFLEN) (ch : Nat) :
    ∃ t₁, { t with tyicursor := t.tyicursor + 1 }.putIn ch = some t₁ ∧ (t₁.wrapIn.note (.typed ch)).Input unread := by
  have H₂ : Holds { t with tyicursor := t.tyicursor + 1 } (unread ++ (ttyLines t.log).pending) := Holds.congr H.ring rfl rfl rfl
  obtain ⟨h1, h2⟩ := Holds.put H₂ (by rw [List.length_append]; have := H.cursor; push_cast; omega) ch
  refine ⟨_, h1, ?_, ?_, ?_⟩
  · show Holds _ (unread ++ ((ttyLines t.log).pending ++ [ch]))
    rw [← List.append_assoc]
    exact h2
  · show t.tyicursor + 1 = ((ttyLines t.log).pending ++ [ch]).length
    rw [List.length_append, List.length_singleton, H.cursor]
    rfl
  · show (ttyLines t.log).released = ttyTaken (.typed ch :: t.log) ++ unread
    rw [ttyTaken, since_none rfl rfl]
    exact H.fifo

/-- One character, by the branch that takes it. -/
theorem Input.perform (H : t.Input unread) {b : Branch} (hfit : t.fitsIn (unread.length + t.tyicursor) b = true) (ch : Nat) :
    ∃ t' released, t.perform ch b = some (t', (released.length : Int)) ∧ t'.Input (unread ++ released) := by
  have S := t.echo_sameIn ch
  cases b with
  | ignore | start | stop => exact ⟨t, [], rfl, by rwa [List.append_nil]⟩
  | full => exact ⟨_, [], rfl, by rw [List.append_nil]; exact H.same (t.eputc_sameIn _)⟩
  | raw =>
    simp only [fitsIn, Bool.and_eq_true, decide_eq_true_eq] at hfit
    obtain ⟨t₁, h1, _, H₁⟩ := H.direct hfit.1 hfit.2 ch
    exact ⟨_, [ch], by simp only [Tty.perform, h1, Option.map_some]; rfl, H₁⟩
  | cbreak =>
    simp only [fitsIn, Bool.and_eq_true, decide_eq_true_eq] at hfit
    obtain ⟨t₁, h1, _, H₁⟩ := H.direct hfit.1 hfit.2 ch
    exact ⟨_, [ch], by simp only [Tty.perform, h1, Option.map_some]; rfl, H₁.same (echo_sameIn _ ch)⟩
  | kill =>
    refine ⟨_, [], rfl, ?_⟩
    rw [List.append_nil]
    exact H.killed.same (eputs_sameIn _ _)
  | erase =>
    by_cases hpos : t.tyicursor > 0
    · refine ⟨_, [], by simp only [Tty.perform, if_pos hpos]; rfl, ?_⟩
      rw [List.append_nil]
      exact (H.erased hpos).same (eputs_sameIn _ _)
    · exact ⟨t, [], by simp only [Tty.perform, if_neg hpos]; rfl, by rwa [List.append_nil]⟩
  | line =>
    simp only [fitsIn, decide_eq_true_eq] at hfit
    have H₁ := H.same S
    obtain ⟨t₁, h1, h2, H₂⟩ := H₁.line (by rw [S.cursor]; exact hfit) ch
    refine ⟨_, _, ?_, H₂⟩
    simp only [Tty.perform, h1, Option.map_some, h2, H₁.cursor, List.length_append, List.length_singleton]
    rfl
  | eof =>
    simp only [fitsIn, Bool.or_eq_true, Bool.and_eq_true, decide_eq_true_eq] at hfit
    have H₁ := H.same S
    by_cases h0 : (t.echo ch).tyicursor = 0
    · obtain ⟨hroom, hlast⟩ := hfit.resolve_left (fun h => h (S.cursor ▸ h0))
      obtain ⟨t₂, h1, h2, H₂⟩ := H₁.direct (by rw [S.cursor]; exact hroom) h0 ch
      refine ⟨_, [ch], by simp only [Tty.perform, h0, h1, Option.map_some]; rfl, ?_⟩
      -- the index is inside the buffer without the comparison
      have hwrap : t₂.wrapIn = t₂ := by
        have htail : ¬t₂.tyitail ≥ TY_IBUFLEN := by
          rw [h2, S.tail]
          omega
        simp only [wrapIn, if_neg htail]
      rwa [hwrap] at H₂
    · exact ⟨_, [], by simp only [Tty.perform, if_pos h0]; rfl, by rwa [List.append_nil]⟩
  | char =>
    simp only [fitsIn, decide_eq_true_eq] at hfit
    obtain ⟨t₁, h1, H₁⟩ := (H.same S).typed (by rw [S.cursor]; exact hfit) ch
    exact ⟨_, [], by simp only [Tty.perform, h1, Option.map_some]; rfl, by rwa [List.append_nil]⟩

/-- Every arriving character that is stored finds room, when so many units of the input semaphore are held by readers that have
not yet taken their character. -/
def fitsAll (held : Int) : Int → List Nat → Tty → Bool
  | _, [], _ => true
  | count, ch :: chars, t =>
    t.fitsIn (count + held + t.tyicursor) (t.taken count ch) &&
      match t.ttyhandleIn count ch with
      | some (t', n) => fitsAll held (count + n) chars t'
      | none => true

/-- All characters of one interrupt. -/
theorem Input.handleAll {chars : List Nat} {count held : Int} (H : t.Input unread)
    (hcount : (unread.length : Int) = count + held) (hfit : fitsAll held count chars t = true) :
    ∃ t' released, Tty.handleAll count chars t = some (t', (released.length : Int)) ∧ t'.Input (unread ++ released) := by
  induction chars generalizing t unread count with
  | nil => exact ⟨t, [], rfl, by rwa [List.append_nil]⟩
  | cons ch chars ih =>
    simp only [fitsAll, Bool.and_eq_true] at hfit
    have Hh : (t.hold (t.taken count ch)).Input unread := H.same ⟨rfl, rfl, rfl, rfl, rfl, rfl⟩
    have hfit' : (t.hold (t.taken count ch)).fitsIn (unread.length + (t.hold (t.taken count ch)).tyicursor)
        (t.taken count ch) = true := by
      rw [hcount]
      exact hfit.1
    obtain ⟨t₁, r₁, h1, H₁⟩ := Hh.perform hfit' (t.mapped ch)
    have hin : t.ttyhandleIn count ch = some (t₁, (r₁.length : Int)) := h1
    have hrest := hfit.2
    rw [hin] at hrest
    obtain ⟨t₂, r₂, h2, H₂⟩ := ih H₁ (by rw [List.length_append]; push_cast; omega) hrest
    refine ⟨t₂, r₁ ++ r₂, ?_, by rwa [List.append_assoc] at H₂⟩
    simp only [Tty.handleAll, hin, Option.bind_some, h2, Option.map_some, List.length_append, Nat.cast_add]

/-- A reader takes the first character. -/
theorem Input.getIn (H : t.Input (ch :: unread)) : t.getIn.1 = ch ∧ t.getIn.2.Input unread := by
  obtain ⟨h1, h2⟩ := Ring.Holds.pop (l := unread ++ (ttyLines t.log).pending) H.ring
  refine ⟨h1, h2, H.cursor, ?_⟩
  have htaken : ttyTaken (.taken ch :: t.log) = ttyTaken t.log ++ [ch] := by
    unfold ttyTaken
    exact since_some (o := TtyObs.taken ch) (a := ch) rfl rfl t.log
  show (ttyLines t.log).released = ttyTaken (.taken (t.tyibuff t.tyihead) :: t.log) ++ unread
  rw [h1, htaken, H.fifo, List.append_assoc]
  rfl

/-! ## Segments that leave the input alone -/

/-- The segment of the driver leaves the input side alone, and releases no reader. -/
structure Idle (t : Tty) (x : Tty × Next TtyPoint) : Prop where
  same : t.SameIn x.1
  signals : x.2.signals t.tyisem = 0
  runs : ∀ st, x.2 ≠ .stop st

theorem ret_idle (t : Tty) (v : Int) : t.Idle (t, .ret v) := ⟨SameIn.refl t, rfl, fun _ => nofun⟩

theorem semcount_idle (t : Tty) (s : Int) (f : TtyPoint) : t.Idle (t, .call (.semcount s) f) :=
  ⟨SameIn.refl t, rfl, fun _ => nofun⟩

/-- A segment of a reader that takes nothing. -/
theorem reading_idle {x : Tty × Next TtyPoint} (h : TtyReading t.tyisem x.2) (S : t.SameIn x.1) : t.Idle x := by
  obtain ⟨d, n⟩ := x
  cases h <;> exact ⟨S, rfl, fun _ => nofun⟩

theorem readEach_idle (t : Tty) (nread count : Int) : t.Idle (t.readEach nread count) :=
  reading_idle (t.readEach_reads nread count) (by rw [readEach_fst]; exact SameIn.refl t)

theorem gotten_idle (t : Tty) (u : GetcUse) (v : Int) : t.Idle (t.gotten u v) :=
  reading_idle (t.gotten_reads u v) (by rw [gotten_fst]; exact SameIn.refl t)

theorem ttyread_idle (t : Tty) (count : Int) : t.Idle (t.ttyread count) :=
  reading_idle (t.ttyread_reads count) (by rw [ttyread_fst]; exact SameIn.refl t)

theorem ttycontrol_idle (t : Tty) (func : TtyControl) : t.Idle (t.ttycontrol func) :=
  reading_idle (t.ttycontrol_reads func) (by cases func <;> exact ⟨rfl, rfl, rfl, rfl, rfl, rfl⟩)

/-- Output leaves the input alone. -/
theorem ttyputcs_idle (t : Tty) (l : List OutChar) : t.Idle (t.ttyputcs l) := by
  cases l with
  | nil => exact t.ret_idle _
  | cons c rest =>
    simp only [ttyputcs]
    split_ifs
    · exact ⟨⟨rfl, rfl, rfl, rfl, rfl, since_none rfl rfl _⟩, rfl, fun st hst => by cases hst⟩
    · exact ⟨⟨rfl, rfl, rfl, rfl, rfl, since_none rfl rfl _⟩, rfl, fun st hst => by cases hst⟩
    · exact ⟨SameIn.refl t, rfl, fun st hst => by cases hst⟩

theorem ttywrite_idle (t : Tty) (buff : List Nat) (count : Int) : t.Idle (t.ttywrite buff count) := by
  unfold ttywrite
  split_ifs
  · exact t.ret_idle _
  · exact t.ret_idle _
  · exact t.ttyputcs_idle _

theorem store_idle (t : Tty) (c : OutChar) (rest : List OutChar) : t.Idle ((t.putOut c).ttyputcs rest) := by
  have h := (t.putOut c).ttyputcs_idle rest
  refine ⟨SameIn.trans ?_ h.same, h.signals, h.runs⟩
  exact ⟨rfl, rfl, rfl, rfl, rfl, since_none rfl rfl _⟩

/-- So does the sending of the echo. -/
theorem sendEcho_sameIn (n : Nat) (t : Tty) : t.SameIn (sendEcho n t).2 := by
  induction n generalizing t with
  | zero => exact SameIn.refl t
  | succ n ih =>
    unfold sendEcho
    split
    · refine SameIn.trans ?_ (ih _)
      exact ⟨rfl, rfl, rfl, rfl, rfl, since_none rfl rfl _⟩
    · exact SameIn.refl t

theorem sendOut_sameIn (n : Nat) (t : Tty) : t.SameIn (sendOut n t) := by
  induction n generalizing t with
  | zero => exact SameIn.refl t
  | succ n ih =>
    refine SameIn.trans ?_ (ih _)
    exact ⟨rfl, rfl, rfl, rfl, rfl, since_none rfl rfl _⟩

/-- So does the transmit interrupt. -/
theorem ttyhandleOut_idle (t : Tty) (lvl : Nat) (count : Int) (hne : t.tyisem ≠ t.tyosem) : t.Idle (t.ttyhandleOut lvl count) := by
  have S₁ := sendEcho_sameIn (UART_FIFO_SIZE - lvl).toNat t
  have S := S₁.trans (sendOut_sameIn (min (sendEcho (UART_FIFO_SIZE - lvl).toNat t).1 (TY_OBUFLEN - count).toNat) _)
  have Ss := (sendEcho_sems (UART_FIFO_SIZE - lvl).toNat t).trans
    (sendOut_sems (min (sendEcho (UART_FIFO_SIZE - lvl).toNat t).1 (TY_OBUFLEN - count).toNat) _)
  unfold ttyhandleOut
  simp only
  split_ifs
  · exact t.ret_idle _
  · refine ⟨S, ?_, fun st hst => by cases hst⟩
    simp only [Next.signals, Call.signals, Ss.tyosem]
    exact if_neg hne.symm
  · exact ⟨S, rfl, fun st hst => by cases hst⟩

end Tty

/-! ## Events -/

/-- The arriving characters fit. -/
def Machine.TtyFits (m : Machine tty) (e : Event tty) : Bool :=
  match m.resumed e with
  | some (.arrived chars, count) => Tty.fitsAll (m.frames TtyPoint.reads) count chars m.data
  | _ => true

/-- Behind `semcount` in the receive interrupt. -/
def TtyPoint.arriving : TtyPoint → Bool
  | .arrived _ => true
  | _ => false

/-- What holds of the input side between events. -/
structure TtyReads (m : Machine tty) : Prop where
  sems : m.data.tyisem ≠ m.data.tyosem
  kept : Kept m m.data.tyisem TtyPoint.reads
  prompt : Prompt m TtyPoint.arriving (fun k t _ => (k.semtab t.tyisem).scount)
  input : ∃ unread, m.data.Input unread ∧ (unread.length : Int) = m.units m.data.tyisem TtyPoint.reads

section Step

variable {m m' : Machine tty} {e : Event tty} {h h' : Kernel QLists} {x : Tty × Next TtyPoint}

/-- A segment waits for the input semaphore before the points of a reader. -/
theorem TtyNext.waits_reads {i o : Int} {x : Next TtyPoint} (h : TtyNext i o x) (hne : i ≠ o) :
    x.waits i = x.routine.toList.countP TtyPoint.reads := by
  cases h with
  | room c rest => simp [Next.waits, Call.waits, Next.routine, TtyPoint.reads, hne.symm]
  | reads h =>
    cases h with
    | got | peeked => simp [Next.waits, Call.waits, Next.routine, TtyPoint.reads]
    | _ => rfl
  | _ => rfl

/-- What a segment does to the input: what it releases is the number of its signals, and it takes what it has waited for. -/
theorem tty_segment_input (hx : m.segment e = some x) (hfits : m.TtyFits e = true) {unread : List Nat}
    (H : m.data.Input unread) (hne : m.data.tyisem ≠ m.data.tyosem)
    (hcount : ∀ chars v, m.resumed e = some (.arrived chars, v) → (unread.length : Int) = v + m.frames TtyPoint.reads)
    (hhas : m.leaves TtyPoint.reads e ≤ unread.length) :
    (∃ unread', x.1.Input unread' ∧
      (unread'.length : Int) = unread.length + x.2.signals m.data.tyisem - m.leaves TtyPoint.reads e) ∧
      ∀ st, x.2 ≠ .stop st := by
  have hidle : m.leaves TtyPoint.reads e = 0 → m.data.Idle x →
      (∃ unread', x.1.Input unread' ∧
        (unread'.length : Int) = unread.length + x.2.signals m.data.tyisem - m.leaves TtyPoint.reads e) ∧
        ∀ st, x.2 ≠ .stop st := by
    intro hl I
    refine ⟨⟨unread, H.same I.same, ?_⟩, I.runs⟩
    rw [hl, I.signals]
    omega
  cases e with
  | call c | tick => cases hx
  | op o =>
    obtain rfl := Option.some.inj hx
    refine hidle rfl ?_
    cases o with
    | receive chars => exact m.data.semcount_idle _ _
    | transmit lvl =>
      simp only [tty]
      split
      · exact m.data.ret_idle 0
      · exact m.data.semcount_idle _ _
    | ttygetc => exact Tty.reading_idle (TtyReading.got _) (Tty.SameIn.refl _)
    | ttyread count => exact m.data.ttyread_idle count
    | ttyputc ch => exact m.data.ttyputcs_idle [⟨ch, true, 0⟩]
    | ttywrite buff count => exact m.data.ttywrite_idle buff count
    | ttycontrol func => exact m.data.ttycontrol_idle func
  | ret | cont =>
    obtain ⟨⟨f, v⟩, hr, rfl⟩ := Option.map_eq_some_iff.mp hx
    have hleaves : ∀ e, m.resumed e = some (f, v) → m.leaves TtyPoint.reads e = [f].countP TtyPoint.reads := by
      intro e h
      rw [Machine.leaves, h]
      rfl
    rw [hleaves _ hr] at hidle hhas ⊢
    cases f with
    | arrived chars =>
      have hfit : Tty.fitsAll (m.frames TtyPoint.reads) v chars m.data = true := by
        simpa only [Machine.TtyFits, hr] using hfits
      obtain ⟨t', released, h1, H'⟩ := H.handleAll (hcount chars v hr) hfit
      simp only [tty, h1]
      by_cases hpos : (released.length : Int) > 0
      · rw [if_pos hpos]
        refine ⟨⟨_, H', ?_⟩, fun st hst => by cases hst⟩
        rw [List.length_append]
        simp [Next.signals, Call.signals, (Tty.handleAll_sems h1).tyisem, TtyPoint.reads]
      · rw [if_neg hpos]
        refine ⟨⟨_, H', ?_⟩, fun st hst => by cases hst⟩
        have hz : released.length = 0 := by omega
        rw [List.length_append, hz]
        show ((unread.length + 0 : Nat) : Int) = unread.length + 0 - ((0 : Nat) : Int)
        omega
    | got u =>
      obtain ⟨ch, rest, rfl⟩ : ∃ ch rest, unread = ch :: rest := by
        cases unread with
        | nil => exact absurd hhas (by simp [TtyPoint.reads])
        | cons ch rest => exact ⟨ch, rest, rfl⟩
      have I := m.data.getIn.2.gotten_idle u (m.data.getIn.2.getcValue m.data.getIn.1)
      have hsig := I.signals
      refine ⟨⟨rest, H.getIn.2.same I.same, ?_⟩, I.runs⟩
      simp only [tty]
      rw [show m.data.tyisem = m.data.getIn.2.tyisem from rfl, hsig]
      simp [TtyPoint.reads]
    | peeked =>
      refine ⟨⟨unread, H, ?_⟩, fun st hst => by cases hst⟩
      simp [Next.signals, Call.signals, TtyPoint.reads]
    | ready lvl => exact hidle rfl (m.data.ttyhandleOut_idle lvl v hne)
    | counted =>
      refine hidle rfl ?_
      simp only [tty]
      split
      · exact m.data.ret_idle 0
      · exact m.data.readEach_idle 0 v
    | room c rest => exact hidle rfl ⟨Tty.SameIn.refl _, rfl, fun st hst => by cases hst⟩
    | store c rest => exact hidle rfl (m.data.store_idle c rest)
    | returned => exact hidle rfl (m.data.ret_idle v)
    | done v => exact hidle rfl (m.data.ret_idle v)

/-- The driver keeps the input semaphore to itself. -/
theorem TtyReads.private (I : TtyReads m) (halone : m.TtyAlone e = true) {unread : List Nat} (H : m.data.Input unread)
    (hunits : (unread.length : Int) = m.units m.data.tyisem TtyPoint.reads)
    (hseg : ∀ x, m.segment e = some x → ∃ unread', x.1.Input unread' ∧
      (unread'.length : Int) = unread.length + x.2.signals m.data.tyisem - m.leaves TtyPoint.reads e) :
    m.Private m.data.tyisem TtyPoint.reads e := by
  have hmax : MAXCOUNT = 2147483647 := rfl
  have hbuf : TY_IBUFLEN = 128 := rfl
  have hsize : ∀ {t : Tty} {l : List Nat}, t.Input l → (l.length : Int) ≤ TY_IBUFLEN := by
    intro t l H
    have h := H.ring.valid.high
    rw [List.length_append] at h
    omega
  have hle := hsize H
  have hone : m.leaves TtyPoint.reads e ≤ 1 := by
    refine List.countP_le_length.trans ?_
    cases m.resumed e <;> simp
  have hframes : (m.k.semtab m.data.tyisem).scount ≤ TY_IBUFLEN := by
    rw [Machine.units] at hunits
    omega
  refine tty_private (fun c hc => (ttyAlone_user halone hc).1) (fun f h => h.wait_in I.sems)
    (fun pid hp => (ttyAlone_spare halone hp).1) (by omega) (fun x hx => ?_)
  obtain ⟨unread', H', hlen⟩ := hseg x hx
  have hle' := hsize H'
  constructor <;> omega

/-- Every event in which the arriving characters fit keeps the input side in order. -/
theorem TtyReads.step (I : TtyReads m) (hs : m.step e = some m') (halone : m.TtyAlone e = true) (hfits : m.TtyFits e = true)
    (St : Steady m h) (T : AllTracked h) (St' : Steady m' h') (D : Does m e h m' h') : TtyReads m' := by
  obtain ⟨unread, H, hunits⟩ := I.input
  have hT := T _ I.kept.good
  have hleaves : m.leaves TtyPoint.reads e ≤ unread.length := by
    have h1 := leaves_le (P := TtyPoint.reads) hs
    have h2 := I.kept.units St hT
    rw [Machine.units] at hunits
    omega
  have hseg := fun x hx => tty_segment_input (x := x) hx hfits H I.sems (fun chars v hr => by
    rw [hunits, I.prompt.resumed hr rfl, Machine.units]) hleaves
  have priv := I.private halone H hunits (fun x hx => (hseg x hx).1)
  have S := tty_step_sems hs
  have hprompt : Prompt m' TtyPoint.arriving (fun k t _ => (k.semtab t.tyisem).scount) := by
    refine I.prompt.step hs St.stackOk (fun d c f hx hQ => ?_) (fun d f hx => ?_) (fun d st hx => (hseg _ hx).2 st rfl)
    · cases f with
      | arrived chars =>
        obtain ⟨Sd, N⟩ := tty_segment hx
        rw [N.of_arrived]
        refine I.kept.semcount.trans ?_
        rw [Sd.tyisem]
      | _ => cases hQ
    · obtain ⟨c, rest, rfl⟩ := (tty_segment hx).2.of_callback
      rfl
  have hdata := Machine.segment_data hs
  cases hx : m.segment e with
  | none =>
    rw [hx] at hdata
    obtain ⟨K', hu⟩ := I.kept.units_quiet hs St hT St' D priv hx
    refine ⟨by rw [S.tyisem, S.tyosem]; exact I.sems, by rw [S.tyisem]; exact K', hprompt, unread, ?_, ?_⟩
    · rw [hdata]
      exact H
    · rw [S.tyisem, hu]
      exact hunits
  | some x =>
    rw [hx] at hdata
    obtain ⟨⟨unread', H', hlen⟩, hrun⟩ := hseg x hx
    obtain ⟨K', hu⟩ := I.kept.units_segment hs St hT St' D priv hx (fun d st e => hrun st (congrArg Prod.snd e))
    refine ⟨by rw [S.tyisem, S.tyosem]; exact I.sems, by rw [S.tyisem]; exact K', hprompt, unread', ?_, ?_⟩
    · rw [hdata]
      exact H'
    · rw [S.tyisem, hu, (tty_segment hx).2.waits_reads I.sems, hlen, hunits]
      omega

end Step

/-- The indices of the input buffer are inside it; the released characters that are not taken, then the pending line, are what it
holds, and readers take the released characters in order, each once. -/
structure TtyInput (m : Machine tty) : Prop where
  head : 0 ≤ m.data.tyihead ∧ m.data.tyihead < TY_IBUFLEN
  tail : 0 ≤ m.data.tyitail ∧ m.data.tyitail < TY_IBUFLEN
  fifo : ∃ unread, (ttyLines m.data.log).released = ttyTaken m.data.log ++ unread ∧
    (unread.length : Int) = m.units m.data.tyisem TtyPoint.reads ∧
    m.data.tyicursor = (ttyLines m.data.log).pending.length ∧ unread.length + m.data.tyicursor ≤ TY_IBUFLEN ∧
    m.data.tyitail = (m.data.tyihead + (unread.length + m.data.tyicursor)) % TY_IBUFLEN ∧
    Ring.items TY_IBUFLEN m.data.tyibuff m.data.tyihead (unread.length + m.data.tyicursor) =
      unread ++ (ttyLines m.data.log).pending

/-- The invariant of the runs has the law of the input. -/
theorem TtyReads.ttyInput {m : Machine tty} (I : TtyReads m) : TtyInput m := by
  obtain ⟨unread, H, hunits⟩ := I.input
  have hlen : ((unread ++ (ttyLines m.data.log).pending).length : Int) = unread.length + m.data.tyicursor := by
    rw [List.length_append, H.cursor]
    push_cast
    rfl
  have V := H.ring.valid
  have hitems := H.ring.items
  rw [hlen] at V hitems
  exact ⟨V.first, V.tail_range, unread, H.fifo, hunits, H.cursor, V.high, V.last, hitems⟩

/-- What holds of the input side of the initialised tty. -/
theorem ttyReads_boot (settings : TtySettings) (minheap maxheap : Nat) : TtyReads (ttyBoot settings minheap maxheap) := by
  obtain ⟨K, hframes⟩ := ttyBoot_kept settings minheap maxheap (Or.inl rfl) TtyPoint.reads
  have hcount := congrArg Sentry.scount (ttyBoot_kernel settings minheap maxheap).2.2.1
  have hne : (0 : Int) ≠ 1 := by decide
  refine ⟨hne, K, ⟨fun p => List.isChain_nil, fun p f hm => ?_, fun p r f l hp => ?_⟩, [], ⟨⟨?_, rfl⟩, rfl, rfl⟩, ?_⟩
  · cases hm
  · cases hp
  · exact Ring.Valid.empty (by decide)
  · show (0 : Int) = ((ttyBoot settings minheap maxheap).k.semtab 0).scount + _
    rw [hcount, hframes]
    rfl

/-- A line arrives, and its first character is read. -/
def ttyOneLine : List (Event tty) := [.op (.receive [104, 105, 10]), .cont, .cont, .op .ttygetc, .cont]

/-- A line fills all places but the last, one character of it is read, and an end-of-file character arrives. -/
def ttyEofLast : List (Event tty) :=
  [.op (.receive (List.replicate 126 97 ++ [10])), .cont, .cont, .op .ttygetc, .cont, .op (.receive [4]), .cont, .cont]

end Xinu
