import Xinu.Lib.History
import Xinu.Device.Tty
import Xinu.Kernel.Prompt

/-!
# The output of a tty in every run

The transmit interrupt computes the number of characters in the output buffer from the count of a semaphore, which counts a
place for a writer that has waited and not yet stored, and the echo queue is not compared with its size. In every run in which
the interrupt sends no more than what is stored, and echoed characters find room, what is written to the UART is an interleaving
of what was echoed and of what the calls of `ttyputc` stored.
-/

namespace Xinu

/-! ## What was recorded -/

namespace TtyObs

/-- The character that `ttyputc` stored. -/
def storedChar : TtyObs → Option Nat
  | .stored _ ch => some ch
  | _ => none

/-- The character that the call `id` of `ttyputc` stored. -/
def storedBy (id : Nat) : TtyObs → Option Nat
  | .stored i ch => if i = id then some ch else none
  | _ => none

/-- The character for which the call `id` of `ttyputc` began. -/
def askedBy (id : Nat) : TtyObs → Option Nat
  | .asked i ch => if i = id then some ch else none
  | _ => none

/-- The character that was put in the echo queue. -/
def echoedChar : TtyObs → Option Nat
  | .echoed ch => some ch
  | _ => none

/-- The character of the echo queue that was written to the data register. -/
def sentEchoChar : TtyObs → Option Nat
  | .sentEcho ch => some ch
  | _ => none

/-- The character of the output buffer that was written to the data register. -/
def sentOutChar : TtyObs → Option Nat
  | .sentOut ch => some ch
  | _ => none

/-- The character that was written to the data register. -/
def written : TtyObs → Option Nat
  | .sentEcho ch | .sentOut ch => some ch
  | _ => none

/-- The record concerns no output. -/
def outputless : TtyObs → Bool
  | .echoed _ | .asked .. | .stored .. | .sentEcho _ | .sentOut _ => false
  | _ => true

end TtyObs

/-- What the records hold, oldest first. -/
@[reducible] def ttyRecords (pick : TtyObs → Option Nat) (log : List TtyObs) : List Nat := since (fun _ => false) pick log

theorem records_none {pick : TtyObs → Option Nat} {o : TtyObs} (h : pick o = none) (log : List TtyObs) :
    ttyRecords pick (o :: log) = ttyRecords pick log := since_none rfl h log

theorem records_some {pick : TtyObs → Option Nat} {o : TtyObs} (ch : Nat) (h : pick o = some ch) (log : List TtyObs) :
    ttyRecords pick (o :: log) = ttyRecords pick log ++ [ch] := since_some rfl h log

/-- The characters that a call of `ttyputc` stores. -/
def TtySettings.expand (s : TtySettings) (ch : Nat) : List Nat :=
  if ch = TY_NEWLINE ∧ s.tyocrlf then [TY_RETURN, TY_NEWLINE] else [ch]

/-! ## The two queues -/

namespace Tty

variable {t t' : Tty} {out queue : List Nat} {ch : Nat}

/-- The output side of the driver: `out` is in the output buffer and `queue` in the echo queue. -/
structure Output (t : Tty) (out queue : List Nat) : Prop where
  buffer : Ring.Holds TY_OBUFLEN t.tyobuff t.tyohead t.tyotail out
  echoes : Ring.Holds TY_EBUFLEN t.tyebuff t.tyehead t.tyetail queue
  room : (queue.length : Int) < TY_EBUFLEN
  stored : ttyRecords TtyObs.storedChar t.log = ttyRecords TtyObs.sentOutChar t.log ++ out
  echoed : ttyRecords TtyObs.echoedChar t.log = ttyRecords TtyObs.sentEchoChar t.log ++ queue

/-- The number of characters in the echo queue. -/
def echoCount (t : Tty) : Int := (t.tyetail - t.tyehead) % TY_EBUFLEN

theorem Output.echoCount (H : t.Output out queue) : t.echoCount = queue.length := H.echoes.distance H.room

/-- The output side is the same. -/
structure SameOut (t t' : Tty) : Prop where
  ohead : t'.tyohead = t.tyohead
  otail : t'.tyotail = t.tyotail
  obuff : t'.tyobuff = t.tyobuff
  ehead : t'.tyehead = t.tyehead
  etail : t'.tyetail = t.tyetail
  ebuff : t'.tyebuff = t.tyebuff
  calls : t'.calls = t.calls
  ocrlf : t'.tyocrlf = t.tyocrlf
  records : ∀ pick : TtyObs → Option Nat, (∀ o, o.outputless = true → pick o = none) →
    ttyRecords pick t'.log = ttyRecords pick t.log

theorem SameOut.refl (t : Tty) : t.SameOut t := ⟨rfl, rfl, rfl, rfl, rfl, rfl, rfl, rfl, fun _ _ => rfl⟩

theorem SameOut.trans {t'' : Tty} (h : t.SameOut t') (h' : t'.SameOut t'') : t.SameOut t'' :=
  ⟨h'.ohead.trans h.ohead, h'.otail.trans h.otail, h'.obuff.trans h.obuff, h'.ehead.trans h.ehead, h'.etail.trans h.etail,
    h'.ebuff.trans h.ebuff, h'.calls.trans h.calls, h'.ocrlf.trans h.ocrlf, fun pick hp => (h'.records pick hp).trans (h.records pick hp)⟩

/-- The kinds of records of output. -/
theorem outputless_none {o : TtyObs} (h : o.outputless = true) :
    o.storedChar = none ∧ o.echoedChar = none ∧ o.sentEchoChar = none ∧ o.sentOutChar = none ∧
      ∀ id, o.askedBy id = none ∧ o.storedBy id = none := by
  cases o <;> first | exact ⟨rfl, rfl, rfl, rfl, fun _ => ⟨rfl, rfl⟩⟩ | cases h

theorem Output.same (H : t.Output out queue) (S : t.SameOut t') : t'.Output out queue := by
  refine ⟨?_, ?_, H.room, ?_, ?_⟩
  · rw [S.obuff, S.ohead, S.otail]
    exact H.buffer
  · rw [S.ebuff, S.ehead, S.etail]
    exact H.echoes
  · rw [S.records _ (fun o h => (outputless_none h).1), S.records _ (fun o h => (outputless_none h).2.2.2.1)]
    exact H.stored
  · rw [S.records _ (fun o h => (outputless_none h).2.1), S.records _ (fun o h => (outputless_none h).2.2.1)]
    exact H.echoed

/-- A character is put in the echo queue. -/
theorem Output.eputc (H : t.Output out queue) (hroom : (queue.length : Int) + 1 < TY_EBUFLEN) (ch : Nat) :
    (t.eputc ch).Output out (queue ++ [ch]) := by
  refine ⟨H.buffer, H.echoes.put H.room ch, ?_, ?_, ?_⟩
  · rw [List.length_append, List.length_singleton]
    exact hroom
  · show ttyRecords TtyObs.storedChar (.echoed ch :: t.log) = ttyRecords TtyObs.sentOutChar (.echoed ch :: t.log) ++ out
    rw [records_none rfl, records_none rfl, H.stored]
  · show ttyRecords TtyObs.echoedChar (.echoed ch :: t.log) =
      ttyRecords TtyObs.sentEchoChar (.echoed ch :: t.log) ++ (queue ++ [ch])
    rw [records_some ch rfl, records_none rfl, H.echoed, List.append_assoc]

theorem Output.eputs (H : t.Output out queue) {l : List Nat} (hroom : (queue.length : Int) + l.length < TY_EBUFLEN) :
    (t.eputs l).Output out (queue ++ l) := by
  induction l generalizing t queue with
  | nil => rwa [List.append_nil]
  | cons ch l ih =>
    rw [List.length_cons] at hroom
    push_cast at hroom
    have H' := H.eputc (by omega) ch
    have h := ih H' (by rw [List.length_append, List.length_singleton]; push_cast; omega)
    rwa [List.append_assoc] at h

/-- `ttyputc` stores a character where there is room. -/
theorem Output.putOut (H : t.Output out queue) {c : OutChar} (hroom : (out.length : Int) < TY_OBUFLEN) :
    (t.putOut c).Output (out ++ [c.ch]) queue := by
  refine ⟨H.buffer.put hroom c.ch, H.echoes, H.room, ?_, ?_⟩
  · show ttyRecords TtyObs.storedChar (.stored c.id c.ch :: t.log) =
      ttyRecords TtyObs.sentOutChar (.stored c.id c.ch :: t.log) ++ (out ++ [c.ch])
    rw [records_some c.ch rfl, records_none rfl, H.stored, List.append_assoc]
  · show ttyRecords TtyObs.echoedChar (.stored c.id c.ch :: t.log) =
      ttyRecords TtyObs.sentEchoChar (.stored c.id c.ch :: t.log) ++ queue
    rw [records_none rfl, records_none rfl, H.echoed]

/-- The loop over the echo queue sends its first characters, as many as there is space for. -/
theorem Output.sendEcho (H : t.Output out queue) (n : Nat) :
    ∃ queue', (Tty.sendEcho n t).1 = n - queue.length ∧ (Tty.sendEcho n t).2.Output out queue' := by
  induction n generalizing t queue with
  | zero => exact ⟨queue, (Nat.zero_sub _).symm, H⟩
  | succ n ih =>
    have hiff := H.echoes.head_eq_tail_iff H.room
    cases queue with
    | nil =>
      have heq : ¬t.tyehead ≠ t.tyetail := not_not.mpr (hiff.mpr rfl)
      refine ⟨[], ?_, ?_⟩
      · simp only [Tty.sendEcho, if_neg heq, List.length_nil, Nat.sub_zero]
      · simp only [Tty.sendEcho, if_neg heq]
        exact H
    | cons ch queue =>
      have hne : t.tyehead ≠ t.tyetail := fun e => absurd (hiff.mp e) (by simp)
      obtain ⟨h1, h2⟩ := H.echoes.pop
      have hroom := H.room
      rw [List.length_cons] at hroom
      have hrec : ttyRecords TtyObs.echoedChar (.sentEcho (t.tyebuff t.tyehead) :: t.log) =
          ttyRecords TtyObs.sentEchoChar (.sentEcho (t.tyebuff t.tyehead) :: t.log) ++ queue := by
        rw [records_none rfl, h1, records_some ch rfl, H.echoed, List.append_assoc]
        rfl
      have H' : Output ({ t with tyehead := Ring.next TY_EBUFLEN t.tyehead }.note (.sentEcho (t.tyebuff t.tyehead))) out queue :=
        ⟨H.buffer, h2, by push_cast at hroom; omega, (records_none rfl _).trans (H.stored.trans
          (congrArg (· ++ out) (records_none rfl _).symm)), hrec⟩
      obtain ⟨queue', h3, h4⟩ := ih H'
      refine ⟨queue', ?_, ?_⟩
      · simp only [Tty.sendEcho, if_pos hne, h3, List.length_cons]
        omega
      · simp only [Tty.sendEcho, if_pos hne]
        exact h4

/-- The loop over the output buffer sends its first characters. -/
theorem Output.sendOut (H : t.Output out queue) {n : Nat} (hn : n ≤ out.length) :
    (Tty.sendOut n t).Output (out.drop n) queue := by
  induction n generalizing t out with
  | zero => exact H
  | succ n ih =>
    cases out with
    | nil => exact absurd hn (by simp)
    | cons ch out =>
      obtain ⟨h1, h2⟩ := H.buffer.pop
      have hrec : ttyRecords TtyObs.storedChar (.sentOut (t.tyobuff t.tyohead) :: t.log) =
          ttyRecords TtyObs.sentOutChar (.sentOut (t.tyobuff t.tyohead) :: t.log) ++ out := by
        rw [records_none rfl, h1, records_some ch rfl, H.stored, List.append_assoc]
        rfl
      have H' : Output ({ t with tyohead := Ring.next TY_OBUFLEN t.tyohead }.note (.sentOut (t.tyobuff t.tyohead))) out queue :=
        ⟨h2, H.echoes, H.room, hrec, (records_none rfl _).trans (H.echoed.trans
          (congrArg (· ++ queue) (records_none rfl _).symm))⟩
      exact ih H' (by simpa using hn)

/-! ## Arriving characters -/

/-- The characters that a branch of `ttyhandle_in` puts in the echo queue. -/
def echoes (t : Tty) (ch : Nat) : Branch → List Nat
  | .ignore | .raw | .start | .stop => []
  | .full => [t.tyifullc]
  | .kill => [TY_RETURN, TY_NEWLINE]
  | .erase => if t.tyicursor > 0 then t.erasechars (t.tyibuff (Ring.back TY_IBUFLEN t.tyitail 1)) else []
  | .cbreak | .line | .eof | .char => if t.tyiecho then t.echochars ch else []

theorem echo_eq (t : Tty) (ch : Nat) : t.echo ch = t.eputs (if t.tyiecho then t.echochars ch else []) := by
  unfold echo
  split <;> rfl

theorem SameOut.eputc (S : t.SameOut t') (ch : Nat) : (t.eputc ch).SameOut (t'.eputc ch) := by
  refine ⟨S.ohead, S.otail, S.obuff, S.ehead, ?_, ?_, S.calls, S.ocrlf, fun pick hp => ?_⟩
  · show Ring.next TY_EBUFLEN t'.tyetail = Ring.next TY_EBUFLEN t.tyetail
    rw [S.etail]
  · show Function.update t'.tyebuff t'.tyetail ch = Function.update t.tyebuff t.tyetail ch
    rw [S.ebuff, S.etail]
  · exact congrArg (· ++ (pick (.echoed ch)).toList) (S.records pick hp)

theorem SameOut.eputs (S : t.SameOut t') (l : List Nat) : (t.eputs l).SameOut (t'.eputs l) := by
  induction l generalizing t t' with
  | nil => exact S
  | cons ch l ih => exact ih (S.eputc ch)

/-- A record that concerns no output. -/
theorem sameOut_note (t : Tty) {o : TtyObs} (h : o.outputless = true) : t.SameOut (t.note o) :=
  ⟨rfl, rfl, rfl, rfl, rfl, rfl, rfl, rfl, fun _ hp => records_none (hp o h) _⟩

theorem putIn_eq (h : t.putIn ch = some t') :
    t' = { t with tyibuff := Function.update t.tyibuff t.tyitail ch, tyitail := t.tyitail + 1 } := by
  unfold putIn at h
  split at h
  · exact (Option.some.inj h).symm
  · cases h

/-- The input side changes. -/
theorem sameOut_input (t : Tty) (buff : Int → Nat) (tail cursor : Int) :
    t.SameOut { t with tyibuff := buff, tyitail := tail, tyicursor := cursor } :=
  ⟨rfl, rfl, rfl, rfl, rfl, rfl, rfl, rfl, fun _ _ => rfl⟩

/-- A character is stored, and a record made. -/
theorem putIn_sameOut (h : t.putIn ch = some t') {o : TtyObs} (ho : o.outputless = true) (tail cursor : Int) :
    t.SameOut ({ t' with tyitail := tail, tyicursor := cursor }.note o) := by
  rw [putIn_eq h]
  exact (t.sameOut_input _ tail cursor).trans (sameOut_note _ ho)

/-- What a branch does to the output: it echoes. -/
theorem perform_sameOut {b : Branch} {n : Int} (h : t.perform ch b = some (t', n)) : (t.eputs (t.echoes ch b)).SameOut t' := by
  have hecho := t.echo_eq ch
  cases b with
  | ignore | start | stop =>
    obtain ⟨rfl, _⟩ := Prod.mk.inj (Option.some.inj h)
    exact SameOut.refl t
  | raw =>
    obtain ⟨t₁, h1, h2⟩ := Option.map_eq_some_iff.mp h
    obtain ⟨rfl, _⟩ := Prod.mk.inj h2
    exact putIn_sameOut h1 rfl _ t₁.tyicursor
  | full =>
    obtain ⟨rfl, _⟩ := Prod.mk.inj (Option.some.inj h)
    exact SameOut.refl _
  | cbreak =>
    obtain ⟨t₁, h1, h2⟩ := Option.map_eq_some_iff.mp h
    obtain ⟨rfl, _⟩ := Prod.mk.inj h2
    have S := putIn_sameOut h1 (o := .direct ch) rfl (if t₁.tyitail ≥ TY_IBUFLEN then 0 else t₁.tyitail) t₁.tyicursor
    rw [echo_eq]
    obtain rfl := putIn_eq h1
    exact S.eputs _
  | kill =>
    obtain ⟨rfl, _⟩ := Prod.mk.inj (Option.some.inj h)
    exact SameOut.eputs ((t.sameOut_input t.tyibuff _ 0).trans (sameOut_note _ rfl)) _
  | erase =>
    simp only [perform] at h
    split at h
    · next hpos =>
      obtain ⟨rfl, _⟩ := Prod.mk.inj (Option.some.inj h)
      rw [show t.echoes ch .erase = _ from if_pos hpos]
      exact SameOut.eputs ((t.sameOut_input t.tyibuff _ _).trans (sameOut_note _ (o := .erased) rfl)) _
    · next hpos =>
      obtain ⟨rfl, _⟩ := Prod.mk.inj (Option.some.inj h)
      rw [show t.echoes ch .erase = _ from if_neg hpos]
      exact SameOut.refl t
  | line =>
    obtain ⟨t₁, h1, h2⟩ := Option.map_eq_some_iff.mp h
    obtain ⟨rfl, _⟩ := Prod.mk.inj h2
    rw [hecho] at h1
    exact putIn_sameOut h1 rfl _ 0
  | eof =>
    simp only [perform] at h
    split at h
    · obtain ⟨rfl, _⟩ := Prod.mk.inj (Option.some.inj h)
      rw [hecho]
      exact SameOut.refl _
    · obtain ⟨t₁, h1, h2⟩ := Option.map_eq_some_iff.mp h
      obtain ⟨rfl, _⟩ := Prod.mk.inj h2
      rw [hecho] at h1
      exact putIn_sameOut h1 rfl t₁.tyitail t₁.tyicursor
  | char =>
    obtain ⟨t₁, h1, h2⟩ := Option.map_eq_some_iff.mp h
    obtain ⟨rfl, _⟩ := Prod.mk.inj h2
    rw [hecho] at h1
    exact (SameOut.trans (sameOut_input _ _ _ _) (putIn_sameOut h1 rfl _ t₁.tyicursor))

/-! ## The calls of `ttyputc` -/

/-- What concerns the calls of `ttyputc` is the same. -/
structure SameCalls (t t' : Tty) : Prop where
  calls : t'.calls = t.calls
  ocrlf : t'.tyocrlf = t.tyocrlf
  asked : ∀ id, ttyRecords (TtyObs.askedBy id) t'.log = ttyRecords (TtyObs.askedBy id) t.log
  stored : ∀ id, ttyRecords (TtyObs.storedBy id) t'.log = ttyRecords (TtyObs.storedBy id) t.log

theorem SameCalls.refl (t : Tty) : t.SameCalls t := ⟨rfl, rfl, fun _ => rfl, fun _ => rfl⟩

theorem SameCalls.trans {t'' : Tty} (h : t.SameCalls t') (h' : t'.SameCalls t'') : t.SameCalls t'' :=
  ⟨h'.calls.trans h.calls, h'.ocrlf.trans h.ocrlf, fun id => (h'.asked id).trans (h.asked id),
    fun id => (h'.stored id).trans (h.stored id)⟩

theorem SameOut.sameCalls (S : t.SameOut t') : t.SameCalls t' :=
  ⟨S.calls, S.ocrlf, fun id => S.records _ (fun _ h => ((outputless_none h).2.2.2.2 id).1),
    fun id => S.records _ (fun _ h => ((outputless_none h).2.2.2.2 id).2)⟩

theorem eputs_sameCalls (t : Tty) (l : List Nat) : t.SameCalls (t.eputs l) := by
  induction l generalizing t with
  | nil => exact SameCalls.refl t
  | cons ch l ih =>
    refine SameCalls.trans ?_ (ih (t.eputc ch))
    exact ⟨rfl, rfl, fun _ => records_none rfl _, fun _ => records_none rfl _⟩

theorem sendEcho_sameCalls (n : Nat) (t : Tty) : t.SameCalls (Tty.sendEcho n t).2 := by
  induction n generalizing t with
  | zero => exact SameCalls.refl t
  | succ n ih =>
    unfold Tty.sendEcho
    split
    · refine SameCalls.trans ?_ (ih _)
      exact ⟨rfl, rfl, fun _ => records_none rfl _, fun _ => records_none rfl _⟩
    · exact SameCalls.refl t

theorem sendOut_sameCalls (n : Nat) (t : Tty) : t.SameCalls (Tty.sendOut n t) := by
  induction n generalizing t with
  | zero => exact SameCalls.refl t
  | succ n ih =>
    refine SameCalls.trans ?_ (ih _)
    exact ⟨rfl, rfl, fun _ => records_none rfl _, fun _ => records_none rfl _⟩

/-- The characters that arriving characters put in the echo queue find room. -/
def echoFits : Int → List Nat → Tty → Bool
  | _, [], _ => true
  | count, ch :: chars, t =>
    decide (t.echoCount + ((t.echoes (t.mapped ch) (t.taken count ch)).length : Int) < TY_EBUFLEN) &&
      match t.ttyhandleIn count ch with
      | some (t', n) => echoFits (count + n) chars t'
      | none => true

/-- The receive interrupt echoes. -/
theorem Output.handleAll {chars : List Nat} {count n : Int} (H : t.Output out queue)
    (hfit : echoFits count chars t = true) (h : Tty.handleAll count chars t = some (t', n)) :
    (∃ queue', t'.Output out queue') ∧ t.SameCalls t' := by
  induction chars generalizing t queue count n with
  | nil =>
    obtain ⟨rfl, _⟩ := Prod.mk.inj (Option.some.inj h)
    exact ⟨⟨queue, H⟩, SameCalls.refl t⟩
  | cons ch chars ih =>
    obtain ⟨⟨t₁, n₁⟩, h1, h2⟩ := Option.bind_eq_some_iff.mp h
    obtain ⟨⟨t₂, n₂⟩, h3, h4⟩ := Option.map_eq_some_iff.mp h2
    obtain ⟨rfl, _⟩ := Prod.mk.inj h4
    simp only [echoFits, h1, Bool.and_eq_true, decide_eq_true_eq] at hfit
    have hroom := hfit.1
    rw [H.echoCount] at hroom
    have S : (t.hold (t.taken count ch)).SameCalls t₁ ∧ ∃ queue', t₁.Output out queue' := by
      have Hh : (t.hold (t.taken count ch)).Output out queue :=
        H.same ⟨rfl, rfl, rfl, rfl, rfl, rfl, rfl, rfl, fun _ _ => rfl⟩
      have S₁ := perform_sameOut h1
      exact ⟨(eputs_sameCalls _ _).trans S₁.sameCalls, _, (Hh.eputs hroom).same S₁⟩
    obtain ⟨S₁, queue', H₁⟩ := S
    obtain ⟨H₂, S₂⟩ := ih H₁ hfit.2 h3
    have S₀ : t.SameCalls (t.hold (t.taken count ch)) := ⟨rfl, rfl, fun _ => rfl, fun _ => rfl⟩
    exact ⟨H₂, (S₀.trans S₁).trans S₂⟩

/-! ## What calls still have to store -/

/-- The calls of `ttyputc`: `l` holds those that are in progress, with what they have not yet stored. -/
structure Ledger (t : Tty) (l : List (Nat × List Nat)) : Prop where
  nodup : (l.map Prod.fst).Nodup
  low : ∀ x ∈ l, x.1 < t.calls
  call : ∀ id, id < t.calls → ∃ ch rest, ttyRecords (TtyObs.askedBy id) t.log = [ch] ∧
    t.expand ch = ttyRecords (TtyObs.storedBy id) t.log ++ rest ∧ (∀ r, (id, r) ∈ l → r = rest) ∧ (rest ≠ [] → (id, rest) ∈ l)
  later : ∀ id, t.calls ≤ id → ttyRecords (TtyObs.askedBy id) t.log = [] ∧ ttyRecords (TtyObs.storedBy id) t.log = []

variable {l : List (Nat × List Nat)}

theorem Ledger.perm (L : t.Ledger l) {l' : List (Nat × List Nat)} (h : l.Perm l') : t.Ledger l' := by
  refine ⟨(h.map _).nodup_iff.mp L.nodup, fun x hx => L.low x (h.mem_iff.mpr hx), fun id hid => ?_, L.later⟩
  obtain ⟨ch, rest, h1, h2, h3, h4⟩ := L.call id hid
  exact ⟨ch, rest, h1, h2, fun r hr => h3 r (h.mem_iff.mpr hr), fun hne => h.mem_iff.mp (h4 hne)⟩

theorem expand_congr (h : t'.tyocrlf = t.tyocrlf) (ch : Nat) : t'.expand ch = t.expand ch := by
  unfold TtySettings.expand
  rw [h]

theorem Ledger.same (L : t.Ledger l) (S : t.SameCalls t') : t'.Ledger l := by
  refine ⟨L.nodup, fun x hx => ?_, fun id hid => ?_, fun id hid => ?_⟩
  · rw [S.calls]
    exact L.low x hx
  · rw [S.calls] at hid
    obtain ⟨ch, rest, h1, h2, h3⟩ := L.call id hid
    refine ⟨ch, rest, (S.asked id).trans h1, ?_, h3⟩
    rw [expand_congr S.ocrlf, S.stored]
    exact h2
  · rw [S.calls] at hid
    rw [S.asked, S.stored]
    exact L.later id hid

/-- A call begins. -/
theorem Ledger.ask (L : t.Ledger l) (ch : Nat) :
    Ledger ({ t with calls := t.calls + 1 }.note (.asked t.calls ch)) ((t.calls, t.expand ch) :: l) := by
  have hnot : ∀ r, (t.calls, r) ∉ l := fun r hm => absurd (L.low _ hm) (Nat.lt_irrefl _)
  have hstored : ∀ id, ttyRecords (TtyObs.storedBy id) (.asked t.calls ch :: t.log) = ttyRecords (TtyObs.storedBy id) t.log :=
    fun id => records_none rfl _
  have hasked : ∀ id, id ≠ t.calls →
      ttyRecords (TtyObs.askedBy id) (.asked t.calls ch :: t.log) = ttyRecords (TtyObs.askedBy id) t.log :=
    fun id hne => records_none (if_neg hne.symm) _
  refine ⟨?_, fun x hx => ?_, fun id hid => ?_, fun id hid => ?_⟩
  · refine List.nodup_cons.mpr ⟨fun hm => ?_, L.nodup⟩
    obtain ⟨⟨i, r⟩, hx, he⟩ := List.mem_map.mp hm
    obtain rfl : i = t.calls := he
    exact hnot r hx
  · rcases List.mem_cons.mp hx with rfl | hx
    · exact Nat.lt_succ_self _
    · exact Nat.lt_succ_of_lt (L.low x hx)
  · by_cases he : id = t.calls
    · subst he
      obtain ⟨h1, h2⟩ := L.later t.calls (Nat.le_refl _)
      refine ⟨ch, t.expand ch, ?_, ?_, fun r hr => ?_, fun _ => List.mem_cons_self⟩
      · refine (records_some _ (if_pos rfl) _).trans ?_
        rw [h1, List.nil_append]
      · refine (congrArg (· ++ t.expand ch) ((hstored t.calls).trans h2)).symm
      · rcases List.mem_cons.mp hr with hr | hr
        · exact (Prod.mk.inj hr).2
        · exact absurd hr (hnot r)
    · have hid' : id < t.calls + 1 := hid
      obtain ⟨ch', rest, h1, h2, h3, h4⟩ := L.call id (by omega)
      refine ⟨ch', rest, (hasked id he).trans h1, ?_, fun r hr => ?_, fun hne => List.mem_cons_of_mem _ (h4 hne)⟩
      · exact h2.trans (congrArg (· ++ rest) (hstored id).symm)
      · rcases List.mem_cons.mp hr with hr | hr
        · exact absurd (Prod.mk.inj hr).1 he
        · exact h3 r hr
  · have hid' : t.calls + 1 ≤ id := hid
    obtain ⟨h1, h2⟩ := L.later id (by omega)
    exact ⟨(hasked id (by omega)).trans h1, (hstored id).trans h2⟩

/-- A call stores its next character. -/
theorem Ledger.store {c : OutChar} {rest : List Nat} (L : t.Ledger ((c.id, c.ch :: rest) :: l)) :
    (t.putOut c).Ledger ((c.id, rest) :: l) := by
  have hasked : ∀ id, ttyRecords (TtyObs.askedBy id) (.stored c.id c.ch :: t.log) = ttyRecords (TtyObs.askedBy id) t.log :=
    fun id => records_none rfl _
  have hstored : ∀ id, id ≠ c.id →
      ttyRecords (TtyObs.storedBy id) (.stored c.id c.ch :: t.log) = ttyRecords (TtyObs.storedBy id) t.log :=
    fun id hne => records_none (if_neg hne.symm) _
  have hlow := L.low _ List.mem_cons_self
  obtain ⟨hnot, _⟩ := List.nodup_cons.mp L.nodup
  refine ⟨L.nodup, fun x hx => ?_, fun id hid => ?_, fun id hid => ?_⟩
  · rcases List.mem_cons.mp hx with rfl | hx
    · exact hlow
    · exact L.low x (List.mem_cons_of_mem _ hx)
  · obtain ⟨ch, rest', h1, h2, h3, h4⟩ := L.call id hid
    by_cases he : id = c.id
    · subst he
      obtain rfl := h3 _ List.mem_cons_self
      refine ⟨ch, rest, (hasked c.id).trans h1, ?_, fun r hr => ?_, fun _ => List.mem_cons_self⟩
      · show t.expand ch = ttyRecords (TtyObs.storedBy c.id) (.stored c.id c.ch :: t.log) ++ rest
        rw [records_some _ (if_pos rfl), List.append_assoc]
        exact h2
      · rcases List.mem_cons.mp hr with hr | hr
        · exact (Prod.mk.inj hr).2
        · exact absurd (List.mem_map_of_mem hr) hnot
    · refine ⟨ch, rest', (hasked id).trans h1, ?_, fun r hr => ?_, fun hne => ?_⟩
      · exact h2.trans (congrArg (· ++ rest') (hstored id he).symm)
      · rcases List.mem_cons.mp hr with hr | hr
        · exact absurd (Prod.mk.inj hr).1 he
        · exact h3 r (List.mem_cons_of_mem _ hr)
      · rcases List.mem_cons.mp (h4 hne) with hr | hr
        · exact absurd (Prod.mk.inj hr).1 he
        · exact List.mem_cons_of_mem _ hr
  · obtain ⟨h1, h2⟩ := L.later id hid
    have hne : id ≠ c.id := by
      rintro rfl
      have hid' : t.calls ≤ c.id := hid
      omega
    exact ⟨(hasked id).trans h1, (hstored id hne).trans h2⟩

/-- A call that has stored everything returns. -/
theorem Ledger.finish {id : Nat} (L : t.Ledger ((id, []) :: l)) : t.Ledger l := by
  obtain ⟨_, hnd⟩ := List.nodup_cons.mp L.nodup
  refine ⟨hnd, fun x hx => L.low x (List.mem_cons_of_mem _ hx), fun i hi => ?_, L.later⟩
  obtain ⟨ch, rest, h1, h2, h3, h4⟩ := L.call i hi
  refine ⟨ch, rest, h1, h2, fun r hr => h3 r (List.mem_cons_of_mem _ hr), fun hne => ?_⟩
  rcases List.mem_cons.mp (h4 hne) with hr | hr
  · exact absurd (Prod.mk.inj hr).2 hne
  · exact hr

end Tty

/-! ## The routines of `ttyputc` -/

namespace OutChar

/-- The characters that the call in progress still has to store, before the next call begins. -/
def own (l : List OutChar) : List Nat := (l.takeWhile (fun c => !c.fresh)).map OutChar.ch

/-- Characters of the call `id`, and then characters for which no call has begun. -/
def ordered (id : Nat) : List OutChar → Bool
  | [] => true
  | c :: rest => if c.fresh then rest.all OutChar.fresh else decide (c.id = id) && ordered id rest

end OutChar

/-- What the call at a point still has to store. -/
def TtyPoint.owed : TtyPoint → Option (Nat × List Nat)
  | .room c rest | .store c rest => some (c.id, c.ch :: OutChar.own rest)
  | _ => none

/-- The characters at a point are in order. -/
def TtyPoint.ordered : TtyPoint → Bool
  | .room c rest | .store c rest => OutChar.ordered c.id rest
  | _ => true

namespace Tty

variable {t t' : Tty} {l : List (Nat × List Nat)} {rest : List OutChar}

/-- The end of a segment of the driver for the calls that are in progress elsewhere. -/
structure CallsAfter (x : Tty × Next TtyPoint) (l : List (Nat × List Nat)) : Prop where
  ledger : x.1.Ledger ((x.2.routine.bind TtyPoint.owed).toList ++ l)
  ordered : ∀ f, x.2.routine = some f → f.ordered = true

/-- The next call begins. -/
theorem ttyputcs_fresh (L : t.Ledger l) (hl : rest.all OutChar.fresh = true) : CallsAfter (t.ttyputcs rest) l := by
  cases rest with
  | nil => exact ⟨L, fun f => nofun⟩
  | cons c rest =>
    rw [List.all_cons, Bool.and_eq_true] at hl
    obtain ⟨hc, hrest⟩ := hl
    have hord : ∀ id, OutChar.ordered id rest = true ∧ OutChar.own rest = [] := by
      intro id
      cases rest with
      | nil => exact ⟨rfl, rfl⟩
      | cons d rest =>
        rw [List.all_cons, Bool.and_eq_true] at hrest
        exact ⟨by simp only [OutChar.ordered, hrest.1, if_true, hrest.2], by simp [OutChar.own, hrest.1]⟩
    have L' := L.ask c.ch
    simp only [ttyputcs, if_pos hc]
    split
    · next hcr =>
      rw [show t.expand c.ch = _ from if_pos hcr, ← hcr.1] at L'
      have hown : OutChar.own (⟨c.ch, false, t.calls⟩ :: rest) = c.ch :: OutChar.own rest := rfl
      refine ⟨?_, ?_⟩
      · simpa [Next.routine, TtyPoint.owed, hown, (hord 0).2] using L'
      · rintro f ⟨rfl⟩
        simp [TtyPoint.ordered, OutChar.ordered, (hord _).1]
    · next hcr =>
      rw [show t.expand c.ch = _ from if_neg hcr] at L'
      refine ⟨?_, ?_⟩
      · simpa [Next.routine, TtyPoint.owed, (hord 0).2] using L'
      · rintro f ⟨rfl⟩
        exact (hord _).1

/-- The call goes on, or the next one begins. -/
theorem ttyputcs_own {id : Nat} (L : t.Ledger ((id, OutChar.own rest) :: l)) (hl : OutChar.ordered id rest = true) :
    CallsAfter (t.ttyputcs rest) l := by
  cases rest with
  | nil => exact ttyputcs_fresh L.finish rfl
  | cons c rest =>
    by_cases hc : c.fresh = true
    · simp only [OutChar.ordered, hc, if_true] at hl
      have hown : OutChar.own (c :: rest) = [] := by simp [OutChar.own, hc]
      rw [hown] at L
      exact ttyputcs_fresh L.finish (by rw [List.all_cons, hc, hl]; rfl)
    · rw [OutChar.ordered, if_neg hc, Bool.and_eq_true, decide_eq_true_eq] at hl
      obtain ⟨rfl, hl⟩ := hl
      have hown : OutChar.own (c :: rest) = c.ch :: OutChar.own rest := by simp [OutChar.own, hc]
      rw [hown] at L
      simp only [ttyputcs, if_neg hc]
      refine ⟨L, ?_⟩
      rintro f ⟨rfl⟩
      exact hl

/-! ## Segments -/

/-- What a segment does to the output, the calls and the places of the output buffer. -/
structure Sends (t : Tty) (out : List Nat) (f : Option TtyPoint) (x : Tty × Next TtyPoint) : Prop where
  output : ∃ out' queue', x.1.Output out' queue' ∧ ((∀ st, x.2 ≠ .stop st) → (out'.length : Int) + x.2.signals t.tyosem -
    x.2.waits t.tyosem + x.2.routine.toList.countP TtyPoint.writes = out.length + f.toList.countP TtyPoint.writes)
  calls : ∀ l, t.Ledger ((f.bind TtyPoint.owed).toList ++ l) → CallsAfter x l

variable {out queue : List Nat} {x : Tty × Next TtyPoint} {f : Option TtyPoint}

/-- A segment that leaves the output alone. -/
theorem Output.idle (H : t.Output out queue) (hf : ∀ g, f = some g → g.writes = false) (S : t.SameOut x.1)
    (hsig : x.2.signals t.tyosem = 0) (hwait : x.2.waits t.tyosem = 0)
    (hx : ∀ g, x.2.routine = some g → g.writes = false) : t.Sends out f x := by
  have hnone : ∀ g : TtyPoint, g.writes = false → g.owed = none ∧ g.ordered = true := by
    intro g hg
    cases g <;> first | exact ⟨rfl, rfl⟩ | cases hg
  have hcount : ∀ o : Option TtyPoint, (∀ g, o = some g → g.writes = false) →
      o.toList.countP TtyPoint.writes = 0 ∧ o.bind TtyPoint.owed = none := by
    intro o ho
    cases o with
    | none => exact ⟨rfl, rfl⟩
    | some g => exact ⟨by simp [ho g rfl], (hnone g (ho g rfl)).1⟩
  refine ⟨⟨out, queue, H.same S, fun _ => ?_⟩, fun l L => ⟨?_, fun g hg => (hnone g (hx g hg)).2⟩⟩
  · rw [hsig, hwait, (hcount f hf).1, (hcount _ hx).1]
    omega
  · rw [(hcount f hf).2] at L
    rw [(hcount _ hx).2]
    exact L.same S.sameCalls

theorem Output.ret (H : t.Output out queue) (hf : ∀ g, f = some g → g.writes = false) (v : Int) : t.Sends out f (t, .ret v) :=
  H.idle hf (SameOut.refl t) rfl rfl (fun _ => nofun)

/-- A segment of a reader. -/
theorem Output.reading (H : t.Output out queue) (hne : t.tyisem ≠ t.tyosem) (hf : ∀ g, f = some g → g.writes = false)
    (h : TtyReading t.tyisem x.2) (S : t.SameOut x.1) : t.Sends out f x := by
  obtain ⟨d, n⟩ := x
  cases h with
  | ret => exact H.idle hf S rfl rfl (fun g => nofun)
  | counted | returned =>
    refine H.idle hf S rfl rfl ?_
    rintro g ⟨rfl⟩
    rfl
  | got | peeked =>
    refine H.idle hf S rfl (if_neg hne) ?_
    rintro g ⟨rfl⟩
    rfl

/-- The end of a segment of `ttyputc`. -/
theorem ttyputcs_places (t : Tty) (rest : List OutChar) : (t.ttyputcs rest).2.signals t.tyosem = 0 ∧
    (t.ttyputcs rest).2.waits t.tyosem = (t.ttyputcs rest).2.routine.toList.countP TtyPoint.writes := by
  cases rest with
  | nil => exact ⟨rfl, rfl⟩
  | cons c rest =>
    simp only [ttyputcs]
    split_ifs <;> simp [note, Next.signals, Next.waits, Call.signals, Call.waits, Next.routine, TtyPoint.writes]

theorem ttyputcs_output (H : t.Output out queue) (rest : List OutChar) : (t.ttyputcs rest).1.Output out queue := by
  have hask : ∀ ch, Output ({ t with calls := t.calls + 1 }.note (.asked t.calls ch)) out queue := by
    intro ch
    refine ⟨H.buffer, H.echoes, H.room, ?_, ?_⟩
    · exact (records_none rfl _).trans (H.stored.trans (congrArg (· ++ out) (records_none rfl _).symm))
    · exact (records_none rfl _).trans (H.echoed.trans (congrArg (· ++ queue) (records_none rfl _).symm))
  cases rest with
  | nil => exact H
  | cons c rest =>
    simp only [ttyputcs]
    split_ifs
    · exact hask c.ch
    · exact hask c.ch
    · exact H

/-- A call of `ttyputc` or `ttywrite` begins. -/
theorem Output.begin (H : t.Output out queue) (rest : List OutChar) (hrest : rest.all OutChar.fresh = true) :
    t.Sends out none (t.ttyputcs rest) := by
  obtain ⟨h1, h2⟩ := t.ttyputcs_places rest
  refine ⟨⟨out, queue, ttyputcs_output H rest, fun _ => ?_⟩, fun l L => ttyputcs_fresh L hrest⟩
  rw [h1, h2]
  show (out.length : Int) + 0 - _ + _ = out.length + ((0 : Nat) : Int)
  omega

/-- A character is stored. -/
theorem Output.store (H : t.Output out queue) (hroom : (out.length : Int) < TY_OBUFLEN) {c : OutChar} {rest : List OutChar}
    (hord : OutChar.ordered c.id rest = true) : t.Sends out (some (.store c rest)) ((t.putOut c).ttyputcs rest) := by
  obtain ⟨h1, h2⟩ := (t.putOut c).ttyputcs_places rest
  refine ⟨⟨out ++ [c.ch], queue, ttyputcs_output (H.putOut hroom) rest, fun _ => ?_⟩,
    fun l L => ttyputcs_own (Ledger.store L) hord⟩
  rw [show t.tyosem = (t.putOut c).tyosem from rfl, h1, h2, List.length_append]
  show ((out.length + 1 : Nat) : Int) + 0 - _ + _ = out.length + ((1 : Nat) : Int)
  push_cast
  omega

/-- The transmit interrupt, when it sends no more than what is stored. -/
theorem Output.transmit (H : t.Output out queue) {lvl : Nat} {count : Int}
    (hfits : (min ((UART_FIFO_SIZE - lvl).toNat - queue.length) (TY_OBUFLEN - count).toNat : Nat) ≤ out.length) :
    t.Sends out (some (.ready lvl)) (t.ttyhandleOut lvl count) := by
  obtain ⟨queue', h1, H₁⟩ := H.sendEcho (UART_FIFO_SIZE - lvl).toNat
  have S₁ := sendEcho_sems (UART_FIFO_SIZE - lvl).toNat t
  have C₁ := sendEcho_sameCalls (UART_FIFO_SIZE - lvl).toNat t
  unfold ttyhandleOut
  simp only [h1]
  generalize hn : min ((UART_FIFO_SIZE - lvl).toNat - queue.length) (TY_OBUFLEN - count).toNat = n at hfits ⊢
  have H₂ := H₁.sendOut hfits
  have C₂ := C₁.trans (sendOut_sameCalls n _)
  have S₂ := S₁.trans (sendOut_sems n _)
  have hlen : ((out.drop n).length : Int) = out.length - n := by
    rw [List.length_drop]
    omega
  split_ifs with hidle hpos
  · exact H.ret (fun g e => Option.some.inj e ▸ rfl) 0
  · have hsig : Next.signals t.tyosem (.call (.signaln (Tty.sendOut n (Tty.sendEcho (UART_FIFO_SIZE - lvl).toNat t).2).tyosem n)
        (TtyPoint.done 0)) = n := if_pos S₂.tyosem
    refine ⟨⟨_, queue', H₂, fun _ => ?_⟩, fun l L => ⟨L.same C₂, ?_⟩⟩
    · rw [hlen, hsig]
      show (out.length : Int) - n + n - 0 + ((0 : Nat) : Int) = out.length + ((0 : Nat) : Int)
      omega
    · rintro g ⟨rfl⟩
      rfl
  · refine ⟨⟨_, queue', H₂, fun _ => ?_⟩, fun l L => ⟨L.same C₂, fun g => nofun⟩⟩
    rw [hlen]
    show (out.length : Int) - n + 0 - 0 + ((0 : Nat) : Int) = out.length + ((0 : Nat) : Int)
    omega

end Tty

/-! ## Events -/

/-- The transmit interrupt finds no writer between its `wait` and its store, or has space for no more characters than are stored,
and echoed characters find room. -/
def Machine.TtySends (m : Machine tty) (e : Event tty) : Bool :=
  match m.resumed e with
  | some (.arrived chars, count) => Tty.echoFits count chars m.data
  | some (.ready lvl, count) =>
    decide (m.frames TtyPoint.writes = 0) ||
      decide ((((UART_FIFO_SIZE - lvl).toNat - m.data.echoCount.toNat : Nat) : Int) ≤ TY_OBUFLEN - count - m.frames TtyPoint.writes)
  | _ => true

/-- Behind `semcount` in the transmit interrupt. -/
def TtyPoint.sending : TtyPoint → Bool
  | .ready _ => true
  | _ => false

/-- The output, and the calls of `ttyputc` in progress. -/
structure TtyStream (m : Machine tty) : Prop where
  output : ∃ out queue, m.data.Output out queue
  calls : m.data.Ledger (m.collect TtyPoint.owed)
  ordered : ∀ p, ∀ f ∈ routines (m.context p), TtyPoint.ordered f = true

/-- What holds of the places of the output buffer between events. -/
structure TtyPlaces (m : Machine tty) : Prop where
  sems : m.data.tyisem ≠ m.data.tyosem
  kept : Kept m m.data.tyosem TtyPoint.writes
  prompt : Prompt m TtyPoint.sending (fun k t _ => (k.semtab t.tyosem).scount)
  places : ∀ out queue, m.data.Output out queue → (out.length : Int) + m.units m.data.tyosem TtyPoint.writes = TY_OBUFLEN

section Step

variable {m m' : Machine tty} {e : Event tty} {h h' : Kernel QLists} {x : Tty × Next TtyPoint} {out queue : List Nat}

/-- What a segment does to the output. -/
theorem tty_segment_sends (hx : m.segment e = some x) (hsends : m.TtySends e = true) (H : m.data.Output out queue)
    (hne : m.data.tyisem ≠ m.data.tyosem) (hord : ∀ f v, m.resumed e = some (f, v) → f.ordered = true)
    (hready : ∀ lvl v, m.resumed e = some (.ready lvl, v) →
      (out.length : Int) = TY_OBUFLEN - v - m.frames TtyPoint.writes)
    (hroom : ∀ c rest v, m.resumed e = some (.store c rest, v) → (out.length : Int) < TY_OBUFLEN) :
    m.data.Sends out ((m.resumed e).map Prod.fst) x := by
  cases e with
  | call c | tick => cases hx
  | op o =>
    obtain rfl := Option.some.inj hx
    show m.data.Sends out none _
    have hnone : ∀ g : TtyPoint, none = some g → g.writes = false := fun g hg => by cases hg
    cases o with
    | receive chars =>
      refine H.idle hnone (Tty.SameOut.refl _) rfl rfl ?_
      rintro g ⟨rfl⟩
      rfl
    | transmit lvl =>
      simp only [tty]
      split
      · exact H.ret hnone 0
      · refine H.idle hnone (Tty.SameOut.refl _) rfl rfl ?_
        rintro g ⟨rfl⟩
        rfl
    | ttygetc => exact H.reading hne hnone (TtyReading.got _) (Tty.SameOut.refl _)
    | ttyread count =>
      exact H.reading hne hnone (m.data.ttyread_reads count) (by rw [Tty.ttyread_fst]; exact Tty.SameOut.refl _)
    | ttyputc ch => exact H.begin [⟨ch, true, 0⟩] rfl
    | ttywrite buff count =>
      simp only [tty, Tty.ttywrite]
      split_ifs
      · exact H.ret hnone _
      · exact H.ret hnone _
      · refine H.begin _ (List.all_eq_true.mpr (fun c hc => ?_))
        obtain ⟨ch, _, rfl⟩ := List.mem_map.mp hc
        rfl
    | ttycontrol func =>
      refine H.reading hne hnone (m.data.ttycontrol_reads func) ?_
      cases func <;> exact ⟨rfl, rfl, rfl, rfl, rfl, rfl, rfl, rfl, fun _ _ => rfl⟩
  | ret | cont =>
    obtain ⟨⟨f, v⟩, hr, rfl⟩ := Option.map_eq_some_iff.mp hx
    simp only [hr, Option.map_some]
    have hsome : ∀ {f : TtyPoint}, f.writes = false → ∀ g, some f = some g → g.writes = false :=
      fun hf g e => Option.some.inj e ▸ hf
    cases f with
    | arrived chars =>
      have hfit : Tty.echoFits v chars m.data = true := by simpa only [Machine.TtySends, hr] using hsends
      simp only [tty]
      split
      · exact ⟨⟨out, queue, H, fun hrun => absurd rfl (hrun .faulted)⟩, fun l L => ⟨L, fun f hf => by cases hf⟩⟩
      · next t' n h1 =>
        obtain ⟨⟨queue', H'⟩, C⟩ := H.handleAll hfit h1
        split
        · have hsig : Next.signals m.data.tyosem (.call (.signaln t'.tyisem n) (TtyPoint.done 0)) = 0 := by
            rw [(Tty.handleAll_sems h1).tyisem]
            exact if_neg hne
          refine ⟨⟨out, queue', H', fun _ => ?_⟩, fun l L => ⟨L.same C, ?_⟩⟩
          · rw [hsig]
            show (out.length : Int) + 0 - 0 + ((0 : Nat) : Int) = out.length + ((0 : Nat) : Int)
            omega
          · rintro g ⟨rfl⟩
            rfl
        · refine ⟨⟨out, queue', H', fun _ => ?_⟩, fun l L => ⟨L.same C, fun g hg => by cases hg⟩⟩
          show (out.length : Int) + 0 - 0 + ((0 : Nat) : Int) = out.length + ((0 : Nat) : Int)
          omega
    | ready lvl =>
      have hsend : m.frames TtyPoint.writes = 0 ∨ (((UART_FIFO_SIZE - lvl).toNat - m.data.echoCount.toNat : Nat) : Int) ≤
          TY_OBUFLEN - v - m.frames TtyPoint.writes := by
        simpa only [Machine.TtySends, hr, Bool.or_eq_true, decide_eq_true_eq] using hsends
      have hlen := hready lvl v hr
      rw [H.echoCount, Int.toNat_natCast] at hsend
      exact H.transmit (by omega)
    | got u =>
      refine H.reading hne (hsome rfl) (m.data.getIn.2.gotten_reads u _) ?_
      show m.data.SameOut (m.data.getIn.2.gotten u _).1
      rw [Tty.gotten_fst]
      refine Tty.SameOut.trans ?_ (Tty.sameOut_note _ (o := .taken _) rfl)
      exact ⟨rfl, rfl, rfl, rfl, rfl, rfl, rfl, rfl, fun _ _ => rfl⟩
    | peeked =>
      refine H.idle (hsome rfl) (Tty.SameOut.refl _) (if_neg hne) rfl ?_
      rintro g ⟨rfl⟩
      rfl
    | counted =>
      simp only [tty]
      split
      · exact H.ret (hsome rfl) 0
      · exact H.reading hne (hsome rfl) (m.data.readEach_reads 0 v) (by rw [Tty.readEach_fst]; exact Tty.SameOut.refl _)
    | room c rest =>
      refine ⟨⟨out, queue, H, fun _ => rfl⟩, fun l L => ⟨L, ?_⟩⟩
      rintro g ⟨rfl⟩
      exact hord (.room c rest) v hr
    | store c rest => exact H.store (hroom c rest v hr) (hord _ v hr)
    | returned => exact H.ret (hsome rfl) v
    | done v => exact H.ret (hsome rfl) v

/-- A buffer holds what was stored and not sent. -/
theorem Tty.Output.unique {t : Tty} {out out' queue queue' : List Nat} (H : t.Output out queue) (H' : t.Output out' queue') :
    out = out' := List.append_cancel_left (H.stored.symm.trans H'.stored)

/-- A routine that begins to wait or to store does so for one character. -/
theorem places_bound (o : Option TtyPoint) : o.toList.countP TtyPoint.writes ≤ 1 := by
  refine List.countP_le_length.trans ?_
  cases o <;> simp

/-- The driver keeps the output semaphore to itself. -/
theorem TtyPlaces.private (P : TtyPlaces m) (halone : m.TtyAlone e = true) (H : m.data.Output out queue)
    (hseg : ∀ x, m.segment e = some x → m.data.Sends out ((m.resumed e).map Prod.fst) x) :
    m.Private m.data.tyosem TtyPoint.writes e := by
  have hmax : MAXCOUNT = 2147483647 := rfl
  have hbuf : TY_OBUFLEN = 64 := rfl
  have hplaces := P.places out queue H
  have hle := H.buffer.valid.high
  rw [Machine.units] at hplaces
  refine tty_private (fun c hc => (ttyAlone_user halone hc).2) (fun f h => h.wait_out P.sems)
    (fun pid hp => (ttyAlone_spare halone hp).2) (by omega) (fun x hx => ?_)
  obtain ⟨out', queue', H', heq⟩ := (hseg x hx).output
  by_cases hstop : ∃ st, x.2 = .stop st
  · obtain ⟨st, hst⟩ := hstop
    rw [hst]
    show (0 : Int) ≤ MAXCOUNT ∧ (m.k.semtab m.data.tyosem).scount + 0 ≤ MAXCOUNT
    omega
  · have h1 := heq (fun st h => hstop ⟨st, h⟩)
    have h2 := places_bound x.2.routine
    have h3 := places_bound ((m.resumed e).map Prod.fst)
    have h4 : x.2.waits m.data.tyosem ≤ 1 := by
      cases x.2 with
      | call c f =>
        cases c <;> simp only [Next.waits, Call.waits] <;> first | decide | (split <;> decide)
      | _ => simp [Next.waits]
    have h5 := H'.buffer.valid.high
    constructor <;> omega

/-- Every event in which the interrupts find room keeps the output in order. -/
theorem ttyStream_step (I : TtyStream m) (P : TtyPlaces m) (hs : m.step e = some m') (halone : m.TtyAlone e = true)
    (hsends : m.TtySends e = true) (St : Steady m h) (T : AllTracked h) (St' : Steady m' h') (D : Does m e h m' h') :
    TtyStream m' ∧ (m'.k.status = .running → TtyPlaces m') := by
  obtain ⟨out, queue, H⟩ := I.output
  have hT := T _ P.kept.good
  have hplaces := P.places out queue H
  have hseg : ∀ x, m.segment e = some x → m.data.Sends out ((m.resumed e).map Prod.fst) x := by
    intro x hx
    refine tty_segment_sends hx hsends H P.sems (fun f v hr => I.ordered _ f (Machine.resumed_mem hr)) (fun lvl v hr => ?_)
      (fun c rest v hr => ?_)
    · rw [P.prompt.resumed hr rfl]
      rw [Machine.units] at hplaces
      omega
    · have h1 := leaves_le (P := TtyPoint.writes) hs
      have h2 := P.kept.units St hT
      have h3 : m.leaves TtyPoint.writes e = 1 := by
        rw [Machine.leaves, hr]
        rfl
      rw [Machine.units] at hplaces
      omega
  have priv := P.private halone H hseg
  have S := tty_step_sems hs
  have hdata := Machine.segment_data hs
  have howed : ∀ f : TtyPoint, f.writes = false → f.owed = none := by
    intro f hf
    cases f <;> first | rfl | cases hf
  have hrem : ∀ pid ∈ m.removes e, (routines (m.context pid)).filterMap TtyPoint.owed = [] := by
    intro pid hp
    refine List.filterMap_eq_nil_iff.mpr (fun f hf => howed f ?_)
    have := List.countP_eq_zero.mp (ttyAlone_spare halone hp).2 f hf
    simpa using this
  by_cases hstop : ∃ d st, m.segment e = some (d, .stop st)
  · obtain ⟨d, st, hx⟩ := hstop
    obtain ⟨rfl, rfl⟩ := tty_stop hx
    obtain rfl := Machine.step_stop hs hx
    exact ⟨⟨⟨out, queue, H⟩, I.calls, I.ordered⟩, fun h => by cases h⟩
  have hrun : ∀ d st, m.segment e ≠ some (d, .stop st) := fun d st hx => hstop ⟨d, st, hx⟩
  obtain ⟨R, hR, hR'⟩ := step_collect hs St.currpid_isPid hrem hrun
  have hprompt : Prompt m' TtyPoint.sending (fun k t _ => (k.semtab t.tyosem).scount) := by
    refine P.prompt.step hs St.stackOk (fun d c f hx hQ => ?_) (fun d f hx => ?_) hrun
    · cases f with
      | ready lvl =>
        obtain ⟨Sd, N⟩ := tty_segment hx
        rw [N.of_ready]
        refine P.kept.semcount.trans ?_
        rw [Sd.tyosem]
      | _ => cases hQ
    · obtain ⟨c, rest, rfl⟩ := (tty_segment hx).2.of_callback
      rfl
  have hsems' : m'.data.tyisem ≠ m'.data.tyosem := by
    rw [S.tyisem, S.tyosem]
    exact P.sems
  cases hx : m.segment e with
  | none =>
    rw [hx] at hdata hR'
    have hdata' : m'.data = m.data := hdata
    rw [Machine.resumed_none hx] at hR
    obtain ⟨K', hu⟩ := P.kept.units_quiet hs St hT St' D priv hx
    refine ⟨⟨⟨out, queue, hdata'.symm ▸ H⟩, ?_, ?_⟩, fun _ => ⟨hsems', by rw [S.tyosem]; exact K', hprompt, ?_⟩⟩
    · rw [hdata']
      exact I.calls.perm (hR.trans hR'.symm)
    · exact Machine.step_points hs I.ordered (fun x f hx' => by rw [hx] at hx'; cases hx')
    · intro out' queue' H'
      rw [S.tyosem, hu]
      exact P.places out' queue' (hdata' ▸ H')
  | some x =>
    rw [hx] at hdata hR'
    have hdata' : m'.data = x.1 := hdata
    have hgo : ∀ st, x.2 ≠ .stop st := fun st e => hrun x.1 st (hx.trans (congrArg some (Prod.ext rfl e)))
    have hS := hseg x hx
    obtain ⟨out', queue', H', heq⟩ := hS.output
    have C := hS.calls R (I.calls.perm hR)
    obtain ⟨K', hu⟩ := P.kept.units_segment hs St hT St' D priv hx (fun d st e => hgo st (congrArg Prod.snd e))
    refine ⟨⟨⟨out', queue', hdata'.symm ▸ H'⟩, ?_, ?_⟩, fun _ => ⟨hsems', by rw [S.tyosem]; exact K', hprompt, ?_⟩⟩
    · rw [hdata']
      exact C.ledger.perm hR'.symm
    · refine Machine.step_points hs I.ordered (fun y f hy hf => ?_)
      obtain rfl := Option.some.inj (hx.symm.trans hy)
      exact C.ordered f hf
    · intro out₂ queue₂ H₂
      rw [hdata'] at H₂
      obtain rfl := H'.unique H₂
      have h1 := heq hgo
      rw [S.tyosem, hu]
      have h2 : m.leaves TtyPoint.writes e = ((m.resumed e).map Prod.fst).toList.countP TtyPoint.writes := rfl
      omega

end Step

/-- What was written to the data register is an interleaving of the first part of what was echoed and of the first part of what
was stored, the rest is in the two queues, and every call of `ttyputc` stores its characters in order. -/
structure TtyOutput (m : Machine tty) : Prop where
  written : Interleaves (ttyRecords TtyObs.sentEchoChar m.data.log) (ttyRecords TtyObs.sentOutChar m.data.log)
    (ttyRecords TtyObs.written m.data.log)
  echoed : ttyRecords TtyObs.echoedChar m.data.log = ttyRecords TtyObs.sentEchoChar m.data.log ++
    Ring.items TY_EBUFLEN m.data.tyebuff m.data.tyehead m.data.echoCount
  stored : ∃ out, ttyRecords TtyObs.storedChar m.data.log = ttyRecords TtyObs.sentOutChar m.data.log ++ out ∧
    out.length ≤ TY_OBUFLEN ∧ m.data.tyotail = (m.data.tyohead + out.length) % TY_OBUFLEN ∧
    Ring.items TY_OBUFLEN m.data.tyobuff m.data.tyohead out.length = out
  calls : ∀ id, id < m.data.calls → ∃ ch rest, ttyRecords (TtyObs.askedBy id) m.data.log = [ch] ∧
    m.data.expand ch = ttyRecords (TtyObs.storedBy id) m.data.log ++ rest ∧
    (rest ≠ [] → ∃ p, ∃ f ∈ routines (m.context p), TtyPoint.owed f = some (id, rest))
  others : ∀ id, m.data.calls ≤ id → ttyRecords (TtyObs.storedBy id) m.data.log = []

theorem TtyStream.ttyOutput {m : Machine tty} (I : TtyStream m) : TtyOutput m := by
  obtain ⟨out, queue, H⟩ := I.output
  have hwritten : ∀ o : TtyObs, (o.sentEchoChar = none ∧ o.written = o.sentOutChar) ∨
      (o.sentOutChar = none ∧ o.written = o.sentEchoChar) := by
    intro o
    cases o with
    | sentEcho => exact Or.inr ⟨rfl, rfl⟩
    | _ => exact Or.inl ⟨rfl, rfl⟩
  have V := H.buffer.valid
  refine ⟨interleaves_since hwritten _, ?_, ⟨out, H.stored, V.high, V.last, H.buffer.items⟩, fun id hid => ?_,
    fun id hid => (I.calls.later id hid).2⟩
  · rw [H.echoCount, H.echoes.items]
    exact H.echoed
  · obtain ⟨ch, rest, h1, h2, _, h4⟩ := I.calls.call id hid
    refine ⟨ch, rest, h1, h2, fun hne => ?_⟩
    obtain ⟨p, _, hm⟩ := List.mem_flatMap.mp (h4 hne)
    obtain ⟨f, hf, ho⟩ := List.mem_filterMap.mp hm
    exact ⟨p, f, hf, ho⟩

/-- What holds of the output side of the initialised tty. -/
theorem ttyStream_boot (settings : TtySettings) (minheap maxheap : Nat) :
    TtyStream (ttyBoot settings minheap maxheap) ∧ TtyPlaces (ttyBoot settings minheap maxheap) := by
  obtain ⟨K, hframes⟩ := ttyBoot_kept settings minheap maxheap (Or.inr rfl) TtyPoint.writes
  have hcount := congrArg Sentry.scount (ttyBoot_kernel settings minheap maxheap).2.2.2
  have H : (ttyBoot settings minheap maxheap).data.Output [] [] :=
    ⟨⟨Ring.Valid.empty (by decide), rfl⟩, ⟨Ring.Valid.empty (by decide), rfl⟩, by decide, rfl, rfl⟩
  have hcollect : (ttyBoot settings minheap maxheap).collect TtyPoint.owed = [] :=
    List.flatMap_eq_nil_iff.mpr (fun p _ => rfl)
  have hne : (0 : Int) ≠ 1 := by decide
  refine ⟨⟨⟨[], [], H⟩, ?_, fun p f hf => ?_⟩, ⟨hne, K, ⟨fun p => List.isChain_nil, fun p f hm => ?_, fun p r f l hp => ?_⟩,
    fun out queue H' => ?_⟩⟩
  · rw [hcollect]
    refine ⟨List.nodup_nil, fun x hx => ?_, fun id hid => absurd hid (Nat.not_lt_zero id), fun _ _ => ⟨rfl, rfl⟩⟩
    cases hx
  · cases hf
  · cases hm
  · cases hp
  · obtain rfl := H.unique H'
    show (0 : Int) + (((ttyBoot settings minheap maxheap).k.semtab 1).scount + _) = TY_OBUFLEN
    rw [hcount, hframes]
    rfl

/-- In every run in which the transmit interrupt sends no more than what is stored and echoed characters find room, the output is
in order. -/
theorem tty_output (settings : TtySettings) (minheap maxheap : Nat) {m : Machine tty}
    (r : Machine.Reach (fun m e => m.Lawful e ∧ m.TtyAlone e = true ∧ m.TtySends e = true) (ttyBoot settings minheap maxheap) m) :
    TtyOutput m := by
  obtain ⟨h₀, St₀, T₀⟩ := ttyBoot_steady settings minheap maxheap
  obtain ⟨I₀, P₀⟩ := ttyStream_boot settings minheap maxheap
  have I := (reach_invariant (I := fun m => TtyStream m ∧ (m.k.status = .running → TtyPlaces m)) (fun m e hok => hok.1) St₀ T₀
    ⟨I₀, fun _ => P₀⟩ (fun m m' e h h' hok hs St T St' D I =>
      ttyStream_step I.1 (I.2 (Machine.step_effect hs).1) hs hok.2.1 hok.2.2 St T St' D) r).1
  exact I.1.ttyOutput

/-- A line is written, a character arrives and is echoed, and the transmit interrupt sends everything. -/
def ttyHello : List (Event tty) :=
  [.op (.ttyputc TY_NEWLINE), .cont, .ret, .cont, .ret, .op (.receive [97]), .cont, .op (.transmit 0), .cont, .cont]

/-- The output in a run in which a line is written. -/
theorem tty_output_hello :
    ∃ m, Machine.Reach (fun m e => m.Lawful e ∧ m.TtyAlone e = true ∧ m.TtySends e = true) (ttyBoot {} 4096 1048576) m ∧
      ttyRecords TtyObs.written m.data.log = [97, TY_RETURN, TY_NEWLINE] ∧ TtyOutput m := by
  obtain ⟨m, r, hf⟩ := Machine.reach_of_evaluates Forcing.ttyMachine
    (fun m e => m.Lawful e ∧ m.TtyAlone e = true ∧ m.TtySends e = true) (ttyBoot {} 4096 1048576) ttyHello
    (fun m => decide (ttyRecords TtyObs.written m.data.log = [97, TY_RETURN, TY_NEWLINE])) (by decide +kernel)
  exact ⟨m, r, of_decide_eq_true hf, tty_output {} 4096 1048576 r⟩

/-- A process fills the output buffer and waits for a message; a process of lower priority waits for a place; the first goes on,
and two transmit interrupts arrive. -/
def ttyTwoInterrupts : List (Event tty) :=
  [.call (.create 400 20), .cont, .call (.resume 1), .call (.create 400 10), .cont, .call (.resume 2), .cont,
    .op (.ttywrite (List.replicate 64 97) 64)] ++ (List.replicate 64 [.cont, .ret]).flatten ++
    [.call .receive, .op (.ttyputc 98), .cont, .call (.send 1 7), .cont, .cont, .op (.transmit 0), .cont, .cont,
      .op (.transmit 0), .cont]

/-- The second interrupt sends a character that nobody has stored. -/
theorem tty_output_two_interrupts :
    ∃ m, Machine.Reach (fun m e => m.Lawful e ∧ m.TtyAlone e = true) (ttyBoot {} 4096 1048576) m ∧
      (ttyRecords TtyObs.storedChar m.data.log).length = 64 ∧ (ttyRecords TtyObs.sentOutChar m.data.log).length = 65 ∧
      ¬TtyOutput m := by
  obtain ⟨m, r, hf⟩ := Machine.reach_of_evaluates Forcing.ttyMachine (fun m e => m.Lawful e ∧ m.TtyAlone e = true)
    (ttyBoot {} 4096 1048576) ttyTwoInterrupts
    (fun m => decide ((ttyRecords TtyObs.storedChar m.data.log).length = 64) &&
      decide ((ttyRecords TtyObs.sentOutChar m.data.log).length = 65)) (by decide +kernel)
  rw [Bool.and_eq_true, decide_eq_true_eq, decide_eq_true_eq] at hf
  refine ⟨m, r, hf.1, hf.2, fun O => ?_⟩
  obtain ⟨out, hout, _⟩ := O.stored
  have hlen := congrArg List.length hout
  rw [List.length_append, hf.1, hf.2] at hlen
  omega

end Xinu
