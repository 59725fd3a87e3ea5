import Xinu.Lib.Ring
import Xinu.Kernel.Counting
import Xinu.Kernel.Evaluation

/-!
# The tty driver

`ttyhandle_in`, `ttyhandle_out`, `ttygetc`, `ttyread`, `ttyputc`, `ttywrite` and `ttycontrol` as a library on the system calls.
A pointer into one of the three buffers is an index. An interrupt is an operation of the process that it interrupts. The
receive interrupt handles all characters that have arrived while rescheduling is deferred: the semaphore counts the signals at
once, and the processes that they release are made eligible at the end, which is what one call of `signaln` does. `ttyputc` is
entered with interrupts disabled; here a procedure of the caller may run between its `wait` and the store, so that the results
do not depend on that. The registers of the UART other than the data register are not kept: an interrupt may happen at any time.

`log` and `calls` are not variables of the source: they record what the driver has done, and number the calls of `ttyputc`.
-/

namespace Xinu

def TY_EBUFLEN : Int := 20
def TY_IBUFLEN : Int := 128
def TY_OBUFLEN : Int := 64
def UART_FIFO_SIZE : Int := 64

def TY_BACKSP : Nat := 8
def TY_BLANK : Nat := 32
def TY_NEWLINE : Nat := 10
def TY_RETURN : Nat := 13
def TY_UPARROW : Nat := 94

/-- The input modes. -/
inductive TyMode where
  | TY_IMRAW
  | TY_IMCOOKED
  | TY_IMCBREAK
deriving Repr, DecidableEq, Inhabited

/-- The settings of a `struct ttycblk`, as `ttyinit` assigns them. -/
structure TtySettings where
  tyimode : TyMode := .TY_IMCOOKED
  tyiecho : Bool := true
  tyieback : Bool := true
  tyevis : Bool := true
  tyecrlf : Bool := true
  tyicrlf : Bool := true
  tyierase : Bool := true
  tyierasec : Nat := TY_BACKSP
  tyierasec2 : Nat := 127
  tyeof : Bool := true
  tyeofch : Nat := 4
  tyikill : Bool := true
  tyikillc : Nat := 21
  tyoflow : Bool := true
  tyoheld : Bool := false
  tyostop : Nat := 19
  tyostart : Nat := 17
  tyocrlf : Bool := true
  tyifullc : Nat := 7
deriving Repr, DecidableEq, Inhabited

/-- What the driver records of its past. -/
inductive TtyObs where
  /-- A character was stored and released to readers at once. -/
  | direct (ch : Nat)
  /-- A character of a line was stored. -/
  | typed (ch : Nat)
  /-- The last character of the line was erased. -/
  | erased
  /-- The line was killed. -/
  | killed
  /-- The end of a line was stored, and the line released to readers. -/
  | line (ch : Nat)
  /-- `ttygetc` took a character. -/
  | taken (ch : Nat)
  /-- `eputc` put a character in the echo queue. -/
  | echoed (ch : Nat)
  /-- `ttyputc` was called. -/
  | asked (id : Nat) (ch : Nat)
  /-- `ttyputc` stored a character in the output buffer. -/
  | stored (id : Nat) (ch : Nat)
  /-- A character of the echo queue was written to the data register. -/
  | sentEcho (ch : Nat)
  /-- A character of the output buffer was written to the data register. -/
  | sentOut (ch : Nat)
deriving Repr, DecidableEq

/-- `struct ttycblk`. -/
structure Tty extends TtySettings where
  tyihead : Int
  tyitail : Int
  tyibuff : Int → Nat
  tyisem : Int
  tyohead : Int
  tyotail : Int
  tyobuff : Int → Nat
  tyosem : Int
  tyehead : Int
  tyetail : Int
  tyebuff : Int → Nat
  tyicursor : Int
  calls : Nat
  log : List TtyObs

/-- The requests of `ttycontrol`. -/
inductive TtyControl where
  | TC_NEXTC
  | TC_MODER
  | TC_MODEC
  | TC_MODEK
  | TC_ICHARS
  | TC_ECHO
  | TC_NOECHO
  | other
deriving Repr, DecidableEq

/-- A character that `ttyputc` has to store; `fresh` when it was not asked for yet. -/
structure OutChar where
  ch : Nat
  fresh : Bool
  id : Nat
deriving Repr, DecidableEq

/-- The two halves of the interrupt, and the routines of the device. -/
inductive TtyOp where
  /-- The receive interrupt, with the characters that have arrived. -/
  | receive (chars : List Nat)
  /-- The transmit interrupt, with the number of characters in the UART's output FIFO. -/
  | transmit (txfifo_lvl : Nat)
  | ttygetc
  | ttyread (count : Int)
  | ttyputc (ch : Nat)
  | ttywrite (buff : List Nat) (count : Int)
  | ttycontrol (func : TtyControl)
deriving Repr, DecidableEq

/-- What happens to a character that `ttygetc` returns. -/
inductive GetcUse where
  | getc
  /-- `ttyread` in raw or cbreak mode. -/
  | each (nread count : Int)
  /-- `ttyread` in cooked mode, at the beginning of a line. -/
  | first (count : Int)
  /-- `ttyread` in cooked mode, inside a line. -/
  | within (nread count : Int)
deriving Repr, DecidableEq

/-- Where a routine goes on. -/
inductive TtyPoint where
  /-- The receive interrupt, behind `semcount`. -/
  | arrived (chars : List Nat)
  /-- The transmit interrupt, behind `semcount`. -/
  | ready (txfifo_lvl : Nat)
  /-- Behind the `wait` of `ttygetc`. -/
  | got (u : GetcUse)
  /-- Behind the `wait` of `ttycontrol`. -/
  | peeked
  /-- `ttyread`, behind `semcount`. -/
  | counted
  /-- Behind the `wait` of `ttyputc`. -/
  | room (c : OutChar) (rest : List OutChar)
  /-- Before the store of `ttyputc`. -/
  | store (c : OutChar) (rest : List OutChar)
  /-- Before a return of the value that the system call has returned. -/
  | returned
  | done (v : Int)
deriving Repr, DecidableEq

namespace Tty

variable (t : Tty)

def note (o : TtyObs) : Tty := { t with log := o :: t.log }

/-! ## Echo -/

/-- `eputc`: put one character in the echo queue. -/
def eputc (ch : Nat) : Tty :=
  { t with
    tyebuff := Function.update t.tyebuff t.tyetail ch
    tyetail := Ring.next TY_EBUFLEN t.tyetail
    log := .echoed ch :: t.log }

/-- A sequence of calls of `eputc`. -/
def eputs (chars : List Nat) : Tty := chars.foldl eputc t

/-- The character is a control character. -/
def control (ch : Nat) : Bool := decide (ch < TY_BLANK) || decide (ch = 127)

/-- The characters that `echoch` puts in the echo queue, with visual and output crlf options. -/
def echochars (ch : Nat) : List Nat :=
  if (ch = TY_NEWLINE ∨ ch = TY_RETURN) ∧ t.tyecrlf then [TY_RETURN, TY_NEWLINE]
  else if control ch ∧ t.tyevis then [TY_UPARROW, (ch + 64) % 256]
  else [ch]

/-- `echoch`: echo a character. -/
def echoch (ch : Nat) : Tty := t.eputs (t.echochars ch)

/-- The characters that `erase1` puts in the echo queue. -/
def erasechars (ch : Nat) : List Nat :=
  let back := if t.tyieback then [TY_BACKSP, TY_BLANK, TY_BACKSP] else [TY_BACKSP]
  if t.tyiecho then (if control ch then (if t.tyevis then back else []) ++ back else back) else []

/-! ## Input -/

/-- `*tyitail++ = ch`, inside the buffer. -/
def putIn (ch : Nat) : Option Tty :=
  if 0 ≤ t.tyitail ∧ t.tyitail < TY_IBUFLEN then
    some { t with tyibuff := Function.update t.tyibuff t.tyitail ch, tyitail := t.tyitail + 1 }
  else none

/-- The index that leaves the buffer goes back to its beginning. -/
def wrapIn : Tty := { t with tyitail := if t.tyitail ≥ TY_IBUFLEN then 0 else t.tyitail }

/-- `erase1`: erase one character honoring erasing backspace. -/
def erase1 : Tty :=
  let tail := Ring.back TY_IBUFLEN t.tyitail 1
  { t with tyitail := tail }.eputs (t.erasechars (t.tyibuff tail))

/-- The branches of `ttyhandle_in`. -/
inductive Branch where
  /-- No space in raw mode. -/
  | ignore
  | raw
  | start
  | stop
  /-- No space in cbreak or cooked mode. -/
  | full
  | cbreak
  | kill
  | erase
  | line
  | eof
  | char
deriving Repr, DecidableEq

/-- The character that the common part for cooked and cbreak mode makes of an arriving one. -/
def mapped (ch : Nat) : Nat := if t.tyimode ≠ .TY_IMRAW ∧ ch = TY_RETURN ∧ t.tyicrlf then TY_NEWLINE else ch

/-- The branch of `ttyhandle_in` that handles a character, for the characters available in the buffer. -/
def branch (avail : Int) (ch : Nat) : Branch :=
  if t.tyimode = .TY_IMRAW then (if avail ≥ TY_IBUFLEN then .ignore else .raw)
  else if t.tyoflow ∧ ch = t.tyostart then .start
  else if t.tyoflow ∧ ch = t.tyostop then .stop
  else if t.tyimode = .TY_IMCBREAK then (if avail ≥ TY_IBUFLEN then .full else .cbreak)
  else if ch = t.tyikillc ∧ t.tyikill then .kill
  else if (ch = t.tyierasec ∨ ch = t.tyierasec2) ∧ t.tyierase then .erase
  else if ch = TY_NEWLINE ∨ ch = TY_RETURN then .line
  else if avail + t.tyicursor ≥ TY_IBUFLEN - 1 then .full
  else if ch = t.tyeofch ∧ t.tyeof then .eof
  else .char

/-- The assignments to `tyoheld`: any character other than those for flow control starts output, but not in raw mode. -/
def hold (b : Branch) : Tty :=
  { t with
    tyoheld :=
      match b with
      | .ignore | .raw => t.tyoheld
      | .stop => true
      | _ => false }

/-- Echo a character, if characters are echoed. -/
def echo (ch : Nat) : Tty := if t.tyiecho then t.echoch ch else t

/-- The rest of a branch. The number is that of the characters released to readers. -/
def perform (ch : Nat) : Branch → Option (Tty × Int)
  | .ignore | .start | .stop => some (t, 0)
  | .raw => (t.putIn ch).map (fun t : Tty => (t.wrapIn.note (.direct ch), 1))
  | .full => some (t.eputc t.tyifullc, 0)
  | .cbreak => (t.putIn ch).map (fun t : Tty => ((t.wrapIn.note (.direct ch)).echo ch, 1))
  | .kill =>
    let tail := Ring.back TY_IBUFLEN t.tyitail t.tyicursor
    some (({ t with tyitail := tail, tyicursor := 0 }.note .killed).eputs [TY_RETURN, TY_NEWLINE], 0)
  | .erase =>
    if t.tyicursor > 0 then some (({ t with tyicursor := t.tyicursor - 1 }.note .erased).erase1, 0) else some (t, 0)
  | .line =>
    ((t.echo ch).putIn ch).map (fun t : Tty => ({ t.wrapIn with tyicursor := 0 }.note (.line ch), t.tyicursor + 1))
  | .eof =>
    -- the index is not compared with the end of the buffer here
    if (t.echo ch).tyicursor ≠ 0 then some (t.echo ch, 0)
    else ((t.echo ch).putIn ch).map (fun t : Tty => (t.note (.direct ch), 1))
  | .char =>
    ({ t.echo ch with tyicursor := (t.echo ch).tyicursor + 1 }.putIn ch).map
      (fun t : Tty => (t.wrapIn.note (.typed ch), 0))

/-- `ttyhandle_in`: handle one arriving character; `count` is the count of `tyisem`. -/
def ttyhandleIn (count : Int) (ch : Nat) : Option (Tty × Int) :=
  let avail := if count < 0 then 0 else count
  let ch := t.mapped ch
  let b := t.branch avail ch
  (t.hold b).perform ch b

/-- The branch that `ttyhandle_in` takes. -/
def taken (count : Int) (ch : Nat) : Branch := t.branch (if count < 0 then 0 else count) (t.mapped ch)

theorem ttyhandleIn_eq (count : Int) (ch : Nat) :
    t.ttyhandleIn count ch = (t.hold (t.taken count ch)).perform (t.mapped ch) (t.taken count ch) := rfl

/-- The receive interrupt: `ttyhandle_in` for every character, with the number of characters released. -/
def handleAll (count : Int) : List Nat → Tty → Option (Tty × Int)
  | [], t => some (t, 0)
  | ch :: chars, t =>
    (t.ttyhandleIn count ch).bind (fun x => (handleAll (count + x.2) chars x.1).map (fun y => (y.1, x.2 + y.2)))

/-- `ttygetc` behind its `wait`: extract one character. -/
def getIn : Nat × Tty :=
  let ch := t.tyibuff t.tyihead
  (ch, { t with tyihead := Ring.next TY_IBUFLEN t.tyihead }.note (.taken ch))

/-- The value that `ttygetc` returns. -/
def getcValue (ch : Nat) : Int := if t.tyimode = .TY_IMCOOKED ∧ t.tyeof ∧ ch = t.tyeofch then EOF else ch

/-- `ttygetc`: wait for a character in the buffer. -/
def ttygetc (u : GetcUse) : Tty × Next TtyPoint := (t, .call (.wait t.tyisem) (.got u))

/-- The loop of `ttyread` in raw and cbreak mode. -/
def readEach (nread count : Int) : Tty × Next TtyPoint :=
  if nread < count then t.ttygetc (.each nread count) else (t, .ret nread)

/-- `ttygetc` has returned `v`. -/
def gotten (u : GetcUse) (v : Int) : Tty × Next TtyPoint :=
  match u with
  | .getc => (t, .ret v)
  | .each nread count => t.readEach (nread + 1) count
  | .first count =>
    if v = EOF then (t, .ret EOF)
    else if 1 < count ∧ v ≠ TY_NEWLINE ∧ v ≠ TY_RETURN then t.ttygetc (.within 1 count)
    else (t, .ret 1)
  | .within nread count =>
    if nread + 1 < count ∧ v ≠ TY_NEWLINE ∧ v ≠ TY_RETURN then t.ttygetc (.within (nread + 1) count)
    else (t, .ret (nread + 1))

/-- `ttyread`: read characters. -/
def ttyread (count : Int) : Tty × Next TtyPoint :=
  if count < 0 then (t, .ret SYSERR)
  else if t.tyimode ≠ .TY_IMCOOKED then
    if count = 0 then (t, .call (.semcount t.tyisem) .counted) else t.readEach 0 count
  else t.ttygetc (.first count)

/-- `ttycontrol`: control a tty device by setting modes. -/
def ttycontrol : TtyControl → Tty × Next TtyPoint
  | .TC_NEXTC => (t, .call (.wait t.tyisem) .peeked)
  | .TC_MODER => ({ t with tyimode := .TY_IMRAW }, .ret OK)
  | .TC_MODEC => ({ t with tyimode := .TY_IMCOOKED }, .ret OK)
  | .TC_MODEK => ({ t with tyimode := .TY_IMCBREAK }, .ret OK)
  | .TC_ICHARS => (t, .call (.semcount t.tyisem) .returned)
  | .TC_ECHO => ({ t with tyiecho := true }, .ret OK)
  | .TC_NOECHO => ({ t with tyiecho := false }, .ret OK)
  | .other => (t, .ret SYSERR)

/-! ## Output -/

/-- `ttyputc` for the characters of a call, one after the other: wait for space. -/
def ttyputcs : List OutChar → Tty × Next TtyPoint
  | [] => (t, .ret OK)
  | c :: rest =>
    if c.fresh then
      let id := t.calls
      let t := { t with calls := t.calls + 1 }.note (.asked id c.ch)
      if c.ch = TY_NEWLINE ∧ t.tyocrlf then
        (t, .call (.wait t.tyosem) (.room ⟨TY_RETURN, false, id⟩ (⟨c.ch, false, id⟩ :: rest)))
      else (t, .call (.wait t.tyosem) (.room ⟨c.ch, false, id⟩ rest))
    else (t, .call (.wait t.tyosem) (.room c rest))

/-- `ttyputc` behind its `wait`: store the character. -/
def putOut (c : OutChar) : Tty :=
  { t with
    tyobuff := Function.update t.tyobuff t.tyotail c.ch
    tyotail := Ring.next TY_OBUFLEN t.tyotail
    log := .stored c.id c.ch :: t.log }

/-- `ttywrite`: write characters. -/
def ttywrite (buff : List Nat) (count : Int) : Tty × Next TtyPoint :=
  if count < 0 then (t, .ret SYSERR)
  else if count = 0 then (t, .ret OK)
  else t.ttyputcs ((buff.take count.toNat).map (fun ch => ⟨ch, true, 0⟩))

/-- The loop of `ttyhandle_out` over the echo queue, with the space left in the FIFO. -/
def sendEcho : Nat → Tty → Nat × Tty
  | 0, t => (0, t)
  | uspace + 1, t =>
    if t.tyehead ≠ t.tyetail then
      let ch := t.tyebuff t.tyehead
      sendEcho uspace ({ t with tyehead := Ring.next TY_EBUFLEN t.tyehead }.note (.sentEcho ch))
    else (uspace + 1, t)

/-- The loop of `ttyhandle_out` over the output buffer. -/
def sendOut : Nat → Tty → Tty
  | 0, t => t
  | n + 1, t =>
    let ch := t.tyobuff t.tyohead
    sendOut n ({ t with tyohead := Ring.next TY_OBUFLEN t.tyohead }.note (.sentOut ch))

/-- `ttyhandle_out` behind `semcount`. -/
def ttyhandleOut (txfifo_lvl : Nat) (count : Int) : Tty × Next TtyPoint :=
  if t.tyehead = t.tyetail ∧ count ≥ TY_OBUFLEN then (t, .ret 0)
  else
    let (uspace, t) := sendEcho (UART_FIFO_SIZE - txfifo_lvl).toNat t
    let ochars := min uspace (TY_OBUFLEN - count).toNat
    let t := sendOut ochars t
    if ochars > 0 then (t, .call (.signaln t.tyosem ochars) (.done 0)) else (t, .ret 0)

end Tty

/-- The tty driver as a library. -/
@[reducible] def tty : Client where
  Data := Tty
  Op := TtyOp
  F := TtyPoint
  enter t _
    | .receive chars => (t, .call (.semcount t.tyisem) (.arrived chars))
    | .transmit txfifo_lvl =>
      if t.tyoheld then (t, .ret 0) else (t, .call (.semcount t.tyosem) (.ready txfifo_lvl))
    | .ttygetc => t.ttygetc .getc
    | .ttyread count => t.ttyread count
    | .ttyputc ch => t.ttyputcs [⟨ch, true, 0⟩]
    | .ttywrite buff count => t.ttywrite buff count
    | .ttycontrol func => t.ttycontrol func
  resume t _
    | .arrived chars, count =>
      match Tty.handleAll count chars t with
      | none => (t, .stop .faulted)
      | some (t, n) => if n > 0 then (t, .call (.signaln t.tyisem n) (.done 0)) else (t, .ret 0)
    | .ready txfifo_lvl, count => t.ttyhandleOut txfifo_lvl count
    | .got u, _ => (t.getIn.2).gotten u (t.getIn.2.getcValue t.getIn.1)
    | .peeked, _ => (t, .call (.signal t.tyisem) (.done (t.tyibuff t.tyitail)))
    | .counted, avail => if avail = 0 then (t, .ret 0) else t.readEach 0 avail
    | .room c rest, _ => (t, .callback (.store c rest))
    | .store c rest, _ => (t.putOut c).ttyputcs rest
    | .returned, v => (t, .ret v)
    | .done v, _ => (t, .ret v)

/-- The tty after `ttyinit`, for the semaphores that it has created. -/
def Tty.ttyinit (settings : TtySettings) (tyisem tyosem : Int) : Tty :=
  { settings with
    tyihead := 0, tyitail := 0, tyibuff := fun _ => 0, tyisem := tyisem
    tyohead := 0, tyotail := 0, tyobuff := fun _ => 0, tyosem := tyosem
    tyehead := 0, tyetail := 0, tyebuff := fun _ => 0, tyicursor := 0
    calls := 0, log := [] }

/-- The machine after the null process has initialised the tty. -/
def ttyBoot (settings : TtySettings) (minheap maxheap : Nat) : Machine tty :=
  { boot tty (Tty.ttyinit settings 0 1) minheap maxheap with
    k := (((sysinit minheap maxheap).semcreate 0).1.semcreate TY_OBUFLEN).1 }

/-- The semaphores are those that `semcreate` returns. -/
theorem ttyBoot_sems (settings : TtySettings) (minheap maxheap : Nat) :
    ((sysinit minheap maxheap).semcreate 0).2 = .ret (ttyBoot settings minheap maxheap).data.tyisem ∧
      (((sysinit minheap maxheap).semcreate 0).1.semcreate TY_OBUFLEN).2 =
        .ret (ttyBoot settings minheap maxheap).data.tyosem :=
  ⟨rfl, rfl⟩

/-- What holds between events holds of the initialised tty. -/
theorem ttyBoot_steady (settings : TtySettings) (minheap maxheap : Nat) :
    ∃ h, Steady (ttyBoot settings minheap maxheap) h ∧ AllTracked h := by
  have hlaw : ∀ (k : Kernel QueueTab) (n : Int), k.Lawful (.semcreate n) := fun k n => ⟨fun _ => rfl, nofun⟩
  have h0 := boot_steady (C := tty) (Tty.ttyinit settings 0 1) minheap maxheap
  obtain ⟨h₁, St₁, T₁⟩ := h0.after_call (allTracked_boot minheap maxheap) (hlaw _ 0) rfl rfl
  exact St₁.after_call T₁ (hlaw _ TY_OBUFLEN) rfl rfl

/-- The kernel after `ttyinit`. -/
theorem ttyBoot_kernel (settings : TtySettings) (minheap maxheap : Nat) :
    (ttyBoot settings minheap maxheap).k.proctab = (sysinit minheap maxheap).proctab ∧
      (ttyBoot settings minheap maxheap).k.log = [.semcreated 1 TY_OBUFLEN, .semcreated 0 0] ∧
      (ttyBoot settings minheap maxheap).k.semtab 0 = ⟨.S_USED, 0⟩ ∧
      (ttyBoot settings minheap maxheap).k.semtab 1 = ⟨.S_USED, TY_OBUFLEN⟩ := ⟨rfl, rfl, rfl, rfl⟩

/-- Nobody is inside a routine of the driver, and nobody waits for its semaphores. -/
theorem ttyBoot_kept (settings : TtySettings) (minheap maxheap : Nat) {s : Int} (h : s = 0 ∨ s = 1) (P : TtyPoint → Bool) :
    Kept (ttyBoot settings minheap maxheap) s P ∧ (ttyBoot settings minheap maxheap).frames P = 0 := by
  obtain ⟨h1, h2, h3, h4⟩ := ttyBoot_kernel settings minheap maxheap
  have hfits : ∀ s, CountFits s (ttyBoot settings minheap maxheap).k.log := by
    intro s c hm
    rw [h2] at hm
    simp at hm
  rcases h with rfl | rfl
  · exact kept_boot minheap maxheap (fun _ => rfl) h1 (hfits 0) rfl h3 P
  · exact kept_boot minheap maxheap (fun _ => rfl) h1 (hfits 1) rfl h4 P

/-! ## What the driver asks of the kernel -/

namespace TtyPoint

/-- Behind the `wait` of a reader. -/
def reads : TtyPoint → Bool
  | .got _ | .peeked => true
  | _ => false

/-- Behind the `wait` of a writer, and before its store. -/
def writes : TtyPoint → Bool
  | .room .. | .store .. => true
  | _ => false

end TtyPoint

/-- The ways in which a segment of a reader ends, for the input semaphore. -/
inductive TtyReading (i : Int) : Next TtyPoint → Prop where
  | ret (v : Int) : TtyReading i (.ret v)
  | counted : TtyReading i (.call (.semcount i) .counted)
  | returned : TtyReading i (.call (.semcount i) .returned)
  | got (u : GetcUse) : TtyReading i (.call (.wait i) (.got u))
  | peeked : TtyReading i (.call (.wait i) .peeked)

/-- The ways in which a segment of the driver ends, for its two semaphores. -/
inductive TtyNext (i o : Int) : Next TtyPoint → Prop where
  | reads {x : Next TtyPoint} (h : TtyReading i x) : TtyNext i o x
  | arrived (chars : List Nat) : TtyNext i o (.call (.semcount i) (.arrived chars))
  | ready (txfifo_lvl : Nat) : TtyNext i o (.call (.semcount o) (.ready txfifo_lvl))
  | peek (v : Int) : TtyNext i o (.call (.signal i) (.done v))
  | released (n : Int) (hn : 0 < n) : TtyNext i o (.call (.signaln i n) (.done 0))
  | room (c : OutChar) (rest : List OutChar) : TtyNext i o (.call (.wait o) (.room c rest))
  | store (c : OutChar) (rest : List OutChar) : TtyNext i o (.callback (.store c rest))
  | sent (n : Nat) (hn : 0 < n) : TtyNext i o (.call (.signaln o n) (.done 0))
  | faulted : TtyNext i o (.stop .faulted)

theorem TtyNext.ret {i o : Int} (v : Int) : TtyNext i o (.ret v) := TtyNext.reads (TtyReading.ret v)

namespace Tty

variable (t : Tty)

theorem readEach_reads (nread count : Int) : TtyReading t.tyisem (t.readEach nread count).2 := by
  unfold readEach
  split
  · exact TtyReading.got _
  · exact TtyReading.ret _

/-- A reader that has got a character. -/
theorem gotten_reads (u : GetcUse) (v : Int) : TtyReading t.tyisem (t.gotten u v).2 := by
  cases u with
  | getc => exact TtyReading.ret _
  | each nread count => exact t.readEach_reads _ _
  | first count =>
    simp only [gotten]
    split_ifs
    · exact TtyReading.ret _
    · exact TtyReading.got _
    · exact TtyReading.ret _
  | within nread count =>
    simp only [gotten]
    split_ifs
    · exact TtyReading.got _
    · exact TtyReading.ret _

/-- `ttyread` up to its first call. -/
theorem ttyread_reads (count : Int) : TtyReading t.tyisem (t.ttyread count).2 := by
  unfold ttyread
  split_ifs
  · exact TtyReading.ret _
  · exact TtyReading.counted
  · exact t.readEach_reads _ _
  · exact TtyReading.got _

theorem ttycontrol_reads (func : TtyControl) : TtyReading t.tyisem (t.ttycontrol func).2 := by
  cases func with
  | TC_NEXTC => exact TtyReading.peeked
  | TC_ICHARS => exact TtyReading.returned
  | _ => exact TtyReading.ret _

theorem ttyputcs_next (l : List OutChar) : TtyNext t.tyisem t.tyosem (t.ttyputcs l).2 := by
  cases l with
  | nil => exact TtyNext.ret _
  | cons c rest =>
    simp only [ttyputcs]
    split_ifs <;> exact TtyNext.room _ _

theorem ttywrite_next (buff : List Nat) (count : Int) : TtyNext t.tyisem t.tyosem (t.ttywrite buff count).2 := by
  unfold ttywrite
  split_ifs
  · exact TtyNext.ret _
  · exact TtyNext.ret _
  · exact t.ttyputcs_next _

/-- The two semaphores are the same. -/
structure SameSems (t t' : Tty) : Prop where
  tyisem : t'.tyisem = t.tyisem
  tyosem : t'.tyosem = t.tyosem

variable {t} {t' : Tty} {ch : Nat} {n : Int}

theorem SameSems.refl (t : Tty) : t.SameSems t := ⟨rfl, rfl⟩

theorem SameSems.trans {t'' : Tty} (h : t.SameSems t') (h' : t'.SameSems t'') : t.SameSems t'' :=
  ⟨h'.tyisem.trans h.tyisem, h'.tyosem.trans h.tyosem⟩

theorem SameSems.eputs (h : t.SameSems t') (l : List Nat) : t.SameSems (t'.eputs l) := by
  induction l generalizing t' with
  | nil => exact h
  | cons ch l ih =>
    have h' : t.SameSems (t'.eputc ch) := ⟨h.tyisem, h.tyosem⟩
    exact ih h'

theorem SameSems.echo (h : t.SameSems t') (ch : Nat) : t.SameSems (t'.echo ch) := by
  unfold Tty.echo
  split
  · exact h.eputs _
  · exact h

theorem putIn_sems (h : t.putIn ch = some t') : t.SameSems t' := by
  unfold putIn at h
  split at h
  · obtain rfl := Option.some.inj h
    exact ⟨rfl, rfl⟩
  · cases h

/-- One character leaves the semaphores as they are. -/
theorem perform_sems {b : Branch} (h : t.perform ch b = some (t', n)) : t.SameSems t' := by
  have hput : ∀ {t₀ : Tty} {g : Tty → Tty × Int}, t.SameSems t₀ → (∀ t : Tty, t.SameSems (g t).1) →
      (t₀.putIn ch).map g = some (t', n) → t.SameSems t' := by
    intro t₀ g h0 hg h
    obtain ⟨t₁, h1, h2⟩ := Option.map_eq_some_iff.mp h
    have h3 := hg t₁
    rw [h2] at h3
    exact (h0.trans (putIn_sems h1)).trans h3
  cases b with
  | ignore | start | stop =>
    obtain ⟨rfl, _⟩ := Prod.mk.inj (Option.some.inj h)
    exact SameSems.refl t
  | raw => exact hput (SameSems.refl t) (fun t => ⟨rfl, rfl⟩) h
  | full =>
    obtain ⟨rfl, _⟩ := Prod.mk.inj (Option.some.inj h)
    exact ⟨rfl, rfl⟩
  | cbreak =>
    refine hput (SameSems.refl t) (fun t => ?_) h
    refine SameSems.echo ?_ ch
    exact ⟨rfl, rfl⟩
  | kill =>
    obtain ⟨rfl, _⟩ := Prod.mk.inj (Option.some.inj h)
    refine SameSems.eputs ?_ _
    exact ⟨rfl, rfl⟩
  | erase =>
    simp only [perform] at h
    split at h
    · obtain ⟨rfl, _⟩ := Prod.mk.inj (Option.some.inj h)
      refine SameSems.eputs ?_ _
      exact ⟨rfl, rfl⟩
    · obtain ⟨rfl, _⟩ := Prod.mk.inj (Option.some.inj h)
      exact SameSems.refl t
  | line => exact hput ((SameSems.refl t).echo ch) (fun t => ⟨rfl, rfl⟩) h
  | eof =>
    simp only [perform] at h
    split at h
    · obtain ⟨rfl, _⟩ := Prod.mk.inj (Option.some.inj h)
      exact (SameSems.refl t).echo ch
    · exact hput ((SameSems.refl t).echo ch) (fun t => ⟨rfl, rfl⟩) h
  | char =>
    have S := (SameSems.refl t).echo ch
    have S' : t.SameSems { t.echo ch with tyicursor := (t.echo ch).tyicursor + 1 } := ⟨S.tyisem, S.tyosem⟩
    exact hput S' (fun t => ⟨rfl, rfl⟩) h

/-- So do all characters of an interrupt. -/
theorem handleAll_sems {count : Int} {chars : List Nat} (h : handleAll count chars t = some (t', n)) : t.SameSems t' := by
  induction chars generalizing t t' n count with
  | nil =>
    obtain ⟨rfl, _⟩ := Prod.mk.inj (Option.some.inj h)
    exact SameSems.refl t
  | cons ch chars ih =>
    obtain ⟨⟨t₁, n₁⟩, h1, h2⟩ := Option.bind_eq_some_iff.mp h
    obtain ⟨⟨t₂, n₂⟩, h3, h4⟩ := Option.map_eq_some_iff.mp h2
    obtain ⟨rfl, _⟩ := Prod.mk.inj h4
    have h5 : ∀ b, t.SameSems (t.hold b) := fun b => ⟨rfl, rfl⟩
    have h6 := (h5 (t.branch (if count < 0 then 0 else count) (t.mapped ch))).trans (perform_sems h1)
    exact h6.trans (ih h3)

/-- So does the echo. -/
theorem sendEcho_sems (n : Nat) (t : Tty) : t.SameSems (sendEcho n t).2 := by
  induction n generalizing t with
  | zero => exact SameSems.refl t
  | succ n ih =>
    unfold sendEcho
    split
    · refine SameSems.trans ?_ (ih _)
      exact ⟨rfl, rfl⟩
    · exact SameSems.refl t

theorem sendOut_sems (n : Nat) (t : Tty) : t.SameSems (sendOut n t) := by
  induction n generalizing t with
  | zero => exact SameSems.refl t
  | succ n ih =>
    refine SameSems.trans ?_ (ih _)
    exact ⟨rfl, rfl⟩

theorem readEach_fst (t : Tty) (nread count : Int) : (t.readEach nread count).1 = t := by
  unfold readEach
  split <;> rfl

/-- A reader that has got its character changes nothing more. -/
theorem gotten_fst (t : Tty) (u : GetcUse) (v : Int) : (t.gotten u v).1 = t := by
  cases u with
  | getc => rfl
  | each nread count => exact t.readEach_fst _ _
  | first count | within nread count =>
    simp only [gotten]
    split_ifs <;> rfl

/-- `ttyread` changes nothing up to its first call. -/
theorem ttyread_fst (t : Tty) (count : Int) : (t.ttyread count).1 = t := by
  unfold ttyread
  split_ifs
  · rfl
  · rfl
  · exact t.readEach_fst _ _
  · rfl

theorem ttyputcs_sems (t : Tty) (l : List OutChar) : t.SameSems (t.ttyputcs l).1 := by
  cases l with
  | nil => exact SameSems.refl t
  | cons c rest =>
    simp only [ttyputcs]
    split_ifs <;> exact ⟨rfl, rfl⟩

theorem ttywrite_sems (t : Tty) (buff : List Nat) (count : Int) : t.SameSems (t.ttywrite buff count).1 := by
  unfold ttywrite
  split_ifs
  · exact SameSems.refl t
  · exact SameSems.refl t
  · exact t.ttyputcs_sems _

theorem ttycontrol_sems (t : Tty) (func : TtyControl) : t.SameSems (t.ttycontrol func).1 := by
  cases func <;> exact ⟨rfl, rfl⟩

end Tty

/-- A segment of the driver keeps its two semaphores, and asks the kernel for nothing else. -/
theorem tty_segment {m : Machine tty} {e : Event tty} {x : Tty × Next TtyPoint} (hx : m.segment e = some x) :
    m.data.SameSems x.1 ∧ TtyNext m.data.tyisem m.data.tyosem x.2 := by
  have hput : ∀ {t : Tty} (l : List OutChar), m.data.SameSems t → m.data.SameSems (t.ttyputcs l).1 ∧
      TtyNext m.data.tyisem m.data.tyosem (t.ttyputcs l).2 := by
    intro t l h
    refine ⟨h.trans (t.ttyputcs_sems l), ?_⟩
    rw [← h.tyisem, ← h.tyosem]
    exact t.ttyputcs_next l
  cases e with
  | op o =>
    obtain rfl := Option.some.inj hx
    cases o with
    | receive chars => exact ⟨Tty.SameSems.refl _, TtyNext.arrived chars⟩
    | transmit lvl =>
      simp only [tty]
      split
      · exact ⟨Tty.SameSems.refl _, TtyNext.ret 0⟩
      · exact ⟨Tty.SameSems.refl _, TtyNext.ready lvl⟩
    | ttygetc => exact ⟨Tty.SameSems.refl _, TtyNext.reads (TtyReading.got _)⟩
    | ttyread count =>
      exact ⟨by simp only [tty, Tty.ttyread_fst]; exact Tty.SameSems.refl _, TtyNext.reads (m.data.ttyread_reads count)⟩
    | ttyputc ch => exact hput _ (Tty.SameSems.refl _)
    | ttywrite buff count => exact ⟨m.data.ttywrite_sems buff count, m.data.ttywrite_next buff count⟩
    | ttycontrol func => exact ⟨m.data.ttycontrol_sems func, TtyNext.reads (m.data.ttycontrol_reads func)⟩
  | call c | tick => cases hx
  | ret | cont =>
    obtain ⟨⟨f, v⟩, _, rfl⟩ := Option.map_eq_some_iff.mp hx
    cases f with
    | arrived chars =>
      simp only [tty]
      split
      · exact ⟨Tty.SameSems.refl _, TtyNext.faulted⟩
      · next t n h =>
        have S := Tty.handleAll_sems h
        split
        · next hn => exact ⟨S, by rw [← S.tyisem]; exact TtyNext.released n hn⟩
        · exact ⟨S, TtyNext.ret 0⟩
    | ready lvl =>
      simp only [tty, Tty.ttyhandleOut]
      have S₁ := Tty.sendEcho_sems (UART_FIFO_SIZE - lvl).toNat m.data
      have S := S₁.trans (Tty.sendOut_sems (min (Tty.sendEcho (UART_FIFO_SIZE - lvl).toNat m.data).1 (TY_OBUFLEN - v).toNat)
        (Tty.sendEcho (UART_FIFO_SIZE - lvl).toNat m.data).2)
      split_ifs with h1 h2
      · exact ⟨Tty.SameSems.refl _, TtyNext.ret 0⟩
      · exact ⟨S, by simp only [S.tyosem]; exact TtyNext.sent _ h2⟩
      · exact ⟨S, TtyNext.ret 0⟩
    | got u =>
      have hg := m.data.getIn.2.gotten_fst u (m.data.getIn.2.getcValue m.data.getIn.1)
      refine ⟨?_, TtyNext.reads (m.data.getIn.2.gotten_reads u _)⟩
      show m.data.SameSems (m.data.getIn.2.gotten u _).1
      rw [hg]
      exact ⟨rfl, rfl⟩
    | peeked => exact ⟨Tty.SameSems.refl _, TtyNext.peek _⟩
    | counted =>
      simp only [tty]
      split
      · exact ⟨Tty.SameSems.refl _, TtyNext.ret 0⟩
      · exact ⟨by rw [Tty.readEach_fst]; exact Tty.SameSems.refl _, TtyNext.reads (m.data.readEach_reads 0 v)⟩
    | room c rest => exact ⟨Tty.SameSems.refl _, TtyNext.store c rest⟩
    | store c rest => exact hput rest ⟨rfl, rfl⟩
    | returned => exact ⟨Tty.SameSems.refl _, TtyNext.ret v⟩
    | done v => exact ⟨Tty.SameSems.refl _, TtyNext.ret v⟩

/-- The driver stops the processor only when a character does not fit, and then nothing has changed. -/
theorem tty_stop {m : Machine tty} {e : Event tty} {d : Tty} {st : Status} (hx : m.segment e = some (d, .stop st)) :
    d = m.data ∧ st = .faulted := by
  have hreading : ∀ {x : Tty × Next TtyPoint} {P : Prop}, TtyReading m.data.tyisem x.2 → x = (d, .stop st) → P := by
    intro x P h e
    rw [e] at h
    cases h
  have hputcs : ∀ {t : Tty} {l : List OutChar} {P : Prop}, t.ttyputcs l = (d, .stop st) → P := by
    intro t l P h
    cases l with
    | nil => cases h
    | cons c rest =>
      simp only [Tty.ttyputcs] at h
      split_ifs at h <;> cases h
  cases e with
  | call c | tick => cases hx
  | op o =>
    have hx' : tty.enter m.data m.k.currpid o = (d, .stop st) := Option.some.inj hx
    cases o with
    | receive chars | ttygetc => cases hx'
    | transmit lvl =>
      simp only [tty] at hx'
      split at hx' <;> cases hx'
    | ttyread count => exact hreading (m.data.ttyread_reads count) hx'
    | ttyputc ch => exact hputcs (l := [⟨ch, true, 0⟩]) hx'
    | ttywrite buff count =>
      simp only [tty, Tty.ttywrite] at hx'
      split_ifs at hx'
      · cases hx'
      · cases hx'
      · exact hputcs hx'
    | ttycontrol func => exact hreading (m.data.ttycontrol_reads func) hx'
  | ret | cont =>
    obtain ⟨⟨f, v⟩, _, hx'⟩ := Option.map_eq_some_iff.mp hx
    cases f with
    | arrived chars =>
      simp only [tty] at hx'
      split at hx'
      · cases hx'
        exact ⟨rfl, rfl⟩
      · split at hx' <;> cases hx'
    | ready lvl =>
      simp only [tty, Tty.ttyhandleOut] at hx'
      split_ifs at hx' <;> cases hx'
    | got u => exact hreading (m.data.getIn.2.gotten_reads u _) hx'
    | counted =>
      simp only [tty] at hx'
      split at hx'
      · cases hx'
      · exact hreading (m.data.readEach_reads 0 v) hx'
    | store c rest => exact hputcs hx'
    | peeked | room | returned | done => cases hx'

/-- An event keeps the two semaphores. -/
theorem tty_step_sems {m m' : Machine tty} {e : Event tty} (hs : m.step e = some m') : m.data.SameSems m'.data := by
  rw [Machine.segment_data hs]
  cases hx : m.segment e with
  | none => exact Tty.SameSems.refl _
  | some x => exact (tty_segment hx).1

/-- User code does not use the semaphores of the driver, and no process is removed that reads or writes. -/
def Machine.TtyAlone (m : Machine tty) (e : Event tty) : Bool :=
  (match e with
    | .call c => !c.touches m.data.tyisem && !c.touches m.data.tyosem
    | _ => true) &&
  (match m.removes e with
    | some pid => (routines (m.context pid)).all (fun f => !f.reads && !f.writes)
    | none => true)

theorem ttyAlone_user {m : Machine tty} {e : Event tty} (h : m.TtyAlone e = true) {c : Call} (he : e = .call c) :
    c.touches m.data.tyisem = false ∧ c.touches m.data.tyosem = false := by
  subst he
  simp only [Machine.TtyAlone, Bool.and_eq_true, Bool.not_eq_true'] at h
  exact h.1

/-- A process that is removed neither reads nor writes. -/
theorem ttyAlone_spare {m : Machine tty} {e : Event tty} (h : m.TtyAlone e = true) {pid : Int} (hp : pid ∈ m.removes e) :
    (routines (m.context pid)).countP TtyPoint.reads = 0 ∧ (routines (m.context pid)).countP TtyPoint.writes = 0 := by
  have hr : m.removes e = some pid := hp
  simp only [Machine.TtyAlone, hr, Bool.and_eq_true, List.all_eq_true, Bool.not_eq_true'] at h
  constructor
  · rw [List.countP_eq_zero]
    intro f hf
    simp [(h.2 f hf).1]
  · rw [List.countP_eq_zero]
    intro f hf
    simp [(h.2 f hf).2]

namespace TtyNext

variable {i o s : Int} {c : Call} {f : TtyPoint}

theorem wait_in (h : TtyNext i o (.call (.wait i) f)) (hne : i ≠ o) : f.reads = true := by
  cases h with
  | reads h =>
    cases h <;> rfl
  | room => exact absurd rfl hne

theorem wait_out (h : TtyNext i o (.call (.wait o) f)) (hne : i ≠ o) : f.writes = true := by
  cases h with
  | reads h =>
    cases h <;> exact absurd rfl hne
  | room => rfl

theorem no_flush (h : TtyNext i o (.call c f)) : c ≠ .semdelete s ∧ ∀ n, c ≠ .semreset s n := by
  cases h with
  | reads h =>
    cases h <;> exact ⟨nofun, fun n => nofun⟩
  | _ => exact ⟨nofun, fun n => nofun⟩

/-- The interrupts ask for the count of a semaphore. -/
theorem of_arrived {chars : List Nat} (h : TtyNext i o (.call c (.arrived chars))) : c = .semcount i := by
  cases h with
  | reads h => cases h
  | arrived => rfl

theorem of_ready {lvl : Nat} (h : TtyNext i o (.call c (.ready lvl))) : c = .semcount o := by
  cases h with
  | reads h => cases h
  | ready => rfl

/-- The driver calls a procedure of the caller only before it stores a character. -/
theorem of_callback (h : TtyNext i o (.callback f)) : ∃ c rest, f = .store c rest := by
  cases h with
  | reads h => cases h
  | store c rest => exact ⟨c, rest, rfl⟩

/-- A segment raises no count by less than nothing. -/
theorem signals_nonneg {x : Next TtyPoint} (h : TtyNext i o x) (s : Int) : 0 ≤ x.signals s := by
  cases h with
  | reads h =>
    cases h <;> exact Int.le_refl 0
  | peek v =>
    simp only [Next.signals, Call.signals]
    split <;> decide
  | released n hn | sent n hn =>
    simp only [Next.signals, Call.signals]
    split <;> omega
  | _ => exact Int.le_refl 0

end TtyNext

/-- The driver keeps a semaphore to itself. -/
theorem tty_private {m : Machine tty} {e : Event tty} {s : Int} {P : TtyPoint → Bool}
    (huser : ∀ c, e = .call c → c.touches s = false)
    (hwait : ∀ f, TtyNext m.data.tyisem m.data.tyosem (.call (.wait s) f) → P f = true)
    (hspare : ∀ pid ∈ m.removes e, (routines (m.context pid)).countP P = 0)
    (hcount : (m.k.semtab s).scount ≤ MAXCOUNT)
    (hhigh : ∀ x, m.segment e = some x → x.2.signals s ≤ MAXCOUNT ∧ (m.k.semtab s).scount + x.2.signals s ≤ MAXCOUNT) :
    m.Private s P e := by
  refine Machine.private_of_segments huser hspare hcount (fun d c f hx => ⟨(tty_segment hx).2.no_flush, ?_⟩)
    (fun x hx => ⟨(tty_segment hx).2.signals_nonneg s, hhigh x hx⟩)
  rintro rfl
  exact hwait f (tty_segment hx).2

namespace Forcing

/-- The indices and the cursor of a tty; its other parts are used as they are. -/
def ttyData : Forcing Tty where
  app t f := int.app t.tyihead fun ihead => int.app t.tyitail fun itail => int.app t.tyohead fun ohead =>
    int.app t.tyotail fun otail => int.app t.tyehead fun ehead => int.app t.tyetail fun etail =>
    int.app t.tyicursor fun cursor => nat.app t.calls fun calls =>
    f { t with tyihead := ihead, tyitail := itail, tyohead := ohead, tyotail := otail, tyehead := ehead, tyetail := etail,
               tyicursor := cursor, calls := calls }
  app_eq t f := by simp only [app_eq]

/-- How to evaluate a machine with a tty. -/
def ttyMachine : Forcing (Machine tty) := machine ⟨[0, 1, 2], [0, 1], [4096]⟩ (id _) ttyData

end Forcing

end Xinu
