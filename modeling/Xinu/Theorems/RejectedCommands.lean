import Xinu.Shell.Execute

/-!
# Rejected commands

What a command acquires before it is rejected: the shell neither closes a file nor kills a child on its way back to the prompt, so a command
leaves nothing behind exactly when it acquired nothing (`launch_leaves_iff`).
-/

namespace Xinu

namespace Shell

open Ledger

/-- What a command acquires: a file that is opened for its redirection, or the process that is created for it. -/
inductive Held where
  | file (did : Int)
  | process (pid : Int)
deriving DecidableEq

/-- The entry of a call in the ledger. -/
def Syscall.entry : Syscall → Option (Entry Held)
  | .openFile _ _ did => if did = SYSERR then none else some (.acquire (.file did))
  | .create _ _ pid => if pid = SYSERR then none else some (.acquire (.process pid))
  | .close did => some (.release (.file did))
  | .kill pid => some (.release (.process pid))
  | .truncate _ | .addargs _ _ | .resume _ _ _ | .builtin _ _ _ => none

/-- What the calls leave: the files that are open and the processes in the table. -/
def left (t : List Syscall) : List Held := held [] (t.filterMap Syscall.entry)

/-- A turn that reports an error leaves nothing behind. -/
def LeavesNothing (r : Exit × List Syscall) : Prop := ∀ msg, r.1 = .error msg → left r.2 = []

/-- The line is a command that a child is to run. -/
def Launches (b : Input) (c : Cmdline) : Prop :=
  1 < b.line.length ∧ ∃ l e, b.lexan = some l ∧ parse l = some c ∧ lookup l.tokbuf cmdtab = some e ∧ e.cbuiltin = false

/-- The calls that fail leave something behind: a file for the input when that for the output is not opened, a file when no child is
created, the child when its arguments are not passed. -/
structure Strands (c : Cmdline) (o : Outcome) : Prop where
  input : c.inname ≠ none → o.input ≠ SYSERR
  fails : (c.inname ≠ none ∧ c.outname ≠ none ∧ o.output = SYSERR) ∨
    ((c.outname ≠ none → o.output ≠ SYSERR) ∧
      ((o.child = SYSERR ∧ (c.inname ≠ none ∨ c.outname ≠ none)) ∨ (o.child ≠ SYSERR ∧ o.args = SYSERR)))

section Turns

variable {dev did stdinput stdoutput : Int} {b : Input} {o : Outcome} {l : Lex} {c : Cmdline} {e : Cmdent} {n : Option Nat}

/-- A call that neither closes a file nor kills a process. -/
def Syscall.Keeps : Syscall → Prop
  | .close _ | .kill _ => False
  | _ => True

/-- A call that keeps what is held releases nothing. -/
theorem Syscall.Keeps.entry_ne {s : Syscall} (h : s.Keeps) (r : Held) : s.entry ≠ some (.release r) := by
  cases s with
  | openFile name mode did =>
    rw [Syscall.entry]
    split <;> nofun
  | create cname ntok pid =>
    rw [Syscall.entry]
    split <;> nofun
  | close did => exact h.elim
  | kill pid => exact h.elim
  | _ => nofun

/-- What is left behind by one sequence of calls and then another. -/
theorem left_append {t u : List Syscall} (hu : ∀ s ∈ u, s.Keeps) : left (t ++ u) = left u ++ left t := by
  have h : ∀ r, Entry.release r ∉ u.filterMap Syscall.entry := by
    intro r hr
    obtain ⟨s, hs, he⟩ := List.mem_filterMap.mp hr
    exact (hu s hs).entry_ne r he
  rw [left, List.filterMap_append, held_append, held_eq_append h]
  rfl

theorem redirectInput_keeps : ∀ s ∈ (redirectInput l dev did n).2, s.Keeps := by
  cases n <;> simp [redirectInput, Syscall.Keeps]

theorem redirectOutput_keeps : ∀ s ∈ (redirectOutput l dev did n).2, s.Keeps := by
  cases n with
  | none => simp [redirectOutput]
  | some k =>
    rw [redirectOutput]
    split <;> simp [Syscall.Keeps]

theorem spawn_keeps : ∀ s ∈ (spawn e c o stdinput stdoutput).2, s.Keeps := by
  rw [spawn]
  split
  · simp [Syscall.Keeps]
  · split <;> simp [Syscall.Keeps]

/-- The file for the input, if it is opened. -/
theorem redirectInput_opened (l : Lex) (dev : Int) (h : n ≠ none → did ≠ SYSERR) :
    ∃ stdinput, (redirectInput l dev did n).1 = .ok stdinput ∧
      left (redirectInput l dev did n).2 = if n = none then [] else [.file did] := by
  cases n with
  | none => exact ⟨dev, rfl, rfl⟩
  | some k =>
    have hdid := h nofun
    refine ⟨did, if_neg hdid, ?_⟩
    rw [if_neg nofun]
    simp [redirectInput, left, Syscall.entry, hdid]

/-- The file for the output, if it is opened. -/
theorem redirectOutput_opened (l : Lex) (dev : Int) (h : n ≠ none → did ≠ SYSERR) :
    ∃ stdoutput, (redirectOutput l dev did n).1 = .ok stdoutput ∧
      left (redirectOutput l dev did n).2 = if n = none then [] else [.file did] := by
  cases n with
  | none => exact ⟨dev, rfl, rfl⟩
  | some k =>
    have hdid := h nofun
    refine ⟨did, by rw [redirectOutput, if_neg hdid], ?_⟩
    rw [if_neg nofun]
    simp [redirectOutput, left, Syscall.entry, List.filterMap_cons, hdid]

theorem redirectInput_failed (l : Lex) (dev : Int) (h : n ≠ none) (hdid : did = SYSERR) :
    ∃ msg, (redirectInput l dev did n).1 = .error msg ∧ left (redirectInput l dev did n).2 = [] := by
  obtain ⟨k, rfl⟩ := Option.ne_none_iff_exists'.mp h
  subst hdid
  exact ⟨SHELL_INERRMSG (l.name k), rfl, rfl⟩

theorem redirectOutput_failed (l : Lex) (dev : Int) (h : n ≠ none) (hdid : did = SYSERR) :
    ∃ msg, (redirectOutput l dev did n).1 = .error msg ∧ left (redirectOutput l dev did n).2 = [] := by
  obtain ⟨k, rfl⟩ := Option.ne_none_iff_exists'.mp h
  subst hdid
  exact ⟨SHELL_OUTERRMSG (l.name k), rfl, rfl⟩

theorem left_spawn : left (spawn e c o stdinput stdoutput).2 = if o.child = SYSERR then [] else [.process o.child] := by
  rw [spawn]
  split
  · simp [left, Syscall.entry, *]
  · split <;> simp [left, Syscall.entry, List.filterMap_cons, *]

theorem spawn_error_iff : (∃ msg, (spawn e c o stdinput stdoutput).1 = .error msg) ↔ o.child = SYSERR ∨ o.args = SYSERR := by
  rw [spawn]
  split
  · simp [*]
  · split <;> simp [*]

theorem leavesNothing_iff {r : Exit × List Syscall} : LeavesNothing r ↔ ((∃ msg, r.1 = .error msg) → left r.2 = []) := by
  simp [LeavesNothing]

/-- The file for the input is not opened. -/
theorem launch_input (hn : c.inname ≠ none) (hdid : o.input = SYSERR) : LeavesNothing (launch dev l c e o) := by
  intro msg _
  obtain ⟨msg', herr, hleft⟩ := redirectInput_failed l dev hn hdid
  rw [launch]
  simp only [herr, hleft]

/-- The file for the output is not opened. -/
theorem launch_output (hi : c.inname ≠ none → o.input ≠ SYSERR) (hn : c.outname ≠ none) (hdid : o.output = SYSERR) :
    LeavesNothing (launch dev l c e o) ↔ c.inname = none := by
  obtain ⟨stdinput, hok, hopened⟩ := redirectInput_opened l dev hi
  obtain ⟨msg, herr, hnothing⟩ := redirectOutput_failed l dev hn hdid
  rw [leavesNothing_iff, launch]
  simp only [hok, herr, left_append redirectOutput_keeps, hopened, hnothing]
  simp

/-- The child is created or not, when the files are open. -/
theorem launch_spawn (hi : c.inname ≠ none → o.input ≠ SYSERR) (ho : c.outname ≠ none → o.output ≠ SYSERR) :
    LeavesNothing (launch dev l c e o) ↔
      (o.child = SYSERR ∨ o.args = SYSERR → o.child = SYSERR ∧ c.inname = none ∧ c.outname = none) := by
  obtain ⟨stdinput, hok, hopened⟩ := redirectInput_opened l dev hi
  obtain ⟨stdoutput, hok', hopened'⟩ := redirectOutput_opened l dev ho
  rw [leavesNothing_iff, launch]
  simp only [hok, hok', left_append spawn_keeps, left_append redirectOutput_keeps, hopened, hopened', left_spawn, spawn_error_iff]
  simp [and_comm (b := c.inname = none)]

/-- A command leaves nothing exactly when it strands nothing. -/
theorem launch_leaves_iff : LeavesNothing (launch dev l c e o) ↔ ¬Strands c o := by
  by_cases hi : c.inname ≠ none → o.input ≠ SYSERR
  · by_cases ho : c.outname ≠ none → o.output ≠ SYSERR
    · rw [launch_spawn hi ho]
      refine ⟨fun h S => ?_, fun h hfails => ?_⟩
      · obtain ⟨_, hn, hdid⟩ | ⟨_, ⟨hchild, hopen⟩ | ⟨hchild, hargs⟩⟩ := S.fails
        · exact ho hn hdid
        · obtain ⟨_, hin, hout⟩ := h (Or.inl hchild)
          exact hopen.elim (fun hne => hne hin) fun hne => hne hout
        · exact hchild (h (Or.inr hargs)).1
      · by_cases hchild : o.child = SYSERR
        · refine ⟨hchild, ?_, ?_⟩
          · by_contra hn
            exact h ⟨hi, Or.inr ⟨ho, Or.inl ⟨hchild, Or.inl hn⟩⟩⟩
          · by_contra hn
            exact h ⟨hi, Or.inr ⟨ho, Or.inl ⟨hchild, Or.inr hn⟩⟩⟩
        · exact absurd ⟨hi, Or.inr ⟨ho, Or.inr ⟨hchild, hfails.resolve_left hchild⟩⟩⟩ h
    · push Not at ho
      rw [launch_output hi ho.1 ho.2]
      refine ⟨fun hn S => ?_, fun h => ?_⟩
      · obtain ⟨hn', _⟩ | ⟨hopened, _⟩ := S.fails
        · exact hn' hn
        · exact hopened ho.1 ho.2
      · by_contra hn
        exact h ⟨hi, Or.inl ⟨hn, ho⟩⟩
  · have hstrands : ¬Strands c o := fun h => hi h.input
    push Not at hi
    exact iff_of_true (launch_input hi.1 hi.2) hstrands

/-- At most a builtin function is called. -/
def Quiet (t : List Syscall) : Prop := t = [] ∨ ∃ cname ntok status, t = [.builtin cname ntok status]

theorem Quiet.left_eq {t : List Syscall} (h : Quiet t) : left t = [] := by
  obtain rfl | ⟨cname, ntok, status, rfl⟩ := h <;> rfl

theorem Quiet.keeps {t : List Syscall} (h : Quiet t) : ∀ s ∈ t, s.Keeps := by
  obtain rfl | ⟨cname, ntok, status, rfl⟩ := h <;> simp [Syscall.Keeps]

/-- A turn launches a command, or it is quiet. -/
theorem turn_cases (dev : Int) (b : Input) (o : Outcome) :
    (∃ l c e, Launches b c ∧ turn dev b o = launch dev l c e o) ∨ ((¬∃ c, Launches b c) ∧ Quiet (turn dev b o).2) := by
  rw [turn]
  split
  · next h => exact .inr ⟨fun ⟨c, hc, _⟩ => absurd hc (Nat.not_lt.mpr h), .inl rfl⟩
  next hline =>
  split
  · next hl =>
    refine .inr ⟨?_, .inl rfl⟩
    rintro ⟨c, _, l', e, hl', _⟩
    cases hl.symm.trans hl'
  next l hl =>
  split
  · next h0 =>
    refine .inr ⟨?_, .inl rfl⟩
    rintro ⟨c, _, l', e, hl', hc, _⟩
    cases hl.symm.trans hl'
    rw [parse, if_pos h0] at hc
    cases hc
  split
  · next hc =>
    refine .inr ⟨?_, .inl rfl⟩
    rintro ⟨c, _, l', e, hl', hc', _⟩
    cases hl.symm.trans hl'
    cases hc.symm.trans hc'
  next c hc =>
  split
  · next he =>
    refine .inr ⟨?_, .inl rfl⟩
    rintro ⟨c', _, l', e, hl', _, he', _⟩
    cases hl.symm.trans hl'
    cases he.symm.trans he'
  next e he =>
  split
  · next hb =>
    refine .inr ⟨?_, ?_⟩
    · rintro ⟨c', _, l', e', hl', _, he', hb'⟩
      cases hl.symm.trans hl'
      cases he.symm.trans he'
      rw [hb] at hb'
      cases hb'
    · rw [call]
      split
      · exact .inl rfl
      · exact .inr ⟨e.cname, c.ntok, o.builtin, rfl⟩
  · next hb => exact .inl ⟨l, c, e, ⟨Nat.lt_of_not_le hline, l, e, hl, hc, he, Bool.eq_false_of_not_eq_true hb⟩, rfl⟩

theorem Launches.unique {c' : Cmdline} (h : Launches b c) (h' : Launches b c') : c = c' := by
  obtain ⟨_, l, e, hl, hc, _⟩ := h
  obtain ⟨_, l', e', hl', hc', _⟩ := h'
  cases hl.symm.trans hl'
  exact Option.some.inj (hc.symm.trans hc')

/-- A turn that launches a command closes and kills nothing. -/
theorem launch_keeps : ∀ s ∈ (launch dev l c e o).2, s.Keeps := by
  intro s hs
  have hall : s ∈ (redirectInput l dev o.input c.inname).2 ∨ s ∈ (redirectOutput l dev o.output c.outname).2 ∨
      ∃ stdinput stdoutput, s ∈ (spawn e c o stdinput stdoutput).2 := by
    rw [launch] at hs
    dsimp only at hs
    split at hs
    · exact .inl hs
    · next stdinput _ =>
      split at hs
      · exact (List.mem_append.mp hs).imp_right .inl
      · next stdoutput _ =>
        rcases List.mem_append.mp hs with hs | hs
        · exact (List.mem_append.mp hs).imp_right .inl
        · exact .inr (.inr ⟨stdinput, stdoutput, hs⟩)
  rcases hall with hs | hs | ⟨stdinput, stdoutput, hs⟩
  · exact redirectInput_keeps s hs
  · exact redirectOutput_keeps s hs
  · exact spawn_keeps s hs

/-- A launched command is rejected or runs. -/
theorem launch_exit : (∃ msg, (launch dev l c e o).1 = .error msg) ∨ (launch dev l c e o).1 = .run o.child c.backgnd := by
  rw [launch]
  dsimp only
  split
  · exact .inl ⟨_, rfl⟩
  split
  · exact .inl ⟨_, rfl⟩
  rw [spawn]
  split
  · exact .inl ⟨_, rfl⟩
  split
  · exact .inl ⟨_, rfl⟩
  · exact .inr rfl

theorem turn_keeps : ∀ s ∈ (turn dev b o).2, s.Keeps := by
  obtain ⟨l, c, e, _, hturn⟩ | ⟨_, hquiet⟩ := turn_cases dev b o
  · rw [hturn]
    exact launch_keeps
  · exact hquiet.keeps

/-- Nor does a whole session. -/
theorem session_keeps {ps : List (Input × Outcome)} : ∀ s ∈ session dev ps, s.Keeps := by
  induction ps with
  | nil => nofun
  | cons p ps ih =>
    intro s hs
    rw [session] at hs
    split at hs
    · exact turn_keeps s hs
    · rcases List.mem_append.mp hs with hs | hs
      · exact turn_keeps s hs
      · exact ih s hs

/-- A turn whose calls do not strand anything runs what it leaves. -/
theorem runs_of_left (h : ∀ c, Launches b c → ¬Strands c o) (hleft : left (turn dev b o).2 ≠ []) :
    ∃ backgnd, (turn dev b o).1 = .run o.child backgnd := by
  obtain ⟨l, c, e, hc, hturn⟩ | ⟨_, hnone⟩ := turn_cases dev b o
  · rw [hturn] at hleft ⊢
    have hleaves : LeavesNothing (launch dev l c e o) := launch_leaves_iff.mpr (h c hc)
    rcases launch_exit with ⟨msg, hmsg⟩ | hrun
    · exact absurd (hleaves msg hmsg) hleft
    · exact ⟨c.backgnd, hrun⟩
  · exact absurd hnone.left_eq hleft

end Turns

/-- Exactly the turns whose calls fail with something acquired leave it behind. -/
theorem rejected_leaves_nothing_iff (dev : Int) (b : Input) (o : Outcome) :
    LeavesNothing (turn dev b o) ↔ ∀ c, Launches b c → ¬Strands c o := by
  obtain ⟨l, c, e, hc, hturn⟩ | ⟨hnone, hquiet⟩ := turn_cases dev b o
  · rw [hturn, launch_leaves_iff]
    exact ⟨fun h c' hc' => hc.unique hc' ▸ h, fun h => h c hc⟩
  · exact iff_of_true (fun _ _ => hquiet.left_eq) fun c hc => (hnone ⟨c, hc⟩).elim

/-- The line `cat < in > out`. -/
def catLine : Input := ⟨bytes "cat < in > out\n", fun _ => 0, fun _ => 0, fun _ => .SH_TOK_OTHER⟩

/-- The file for the input is descriptor 5, and that for the output cannot be opened. -/
def noOutput : Outcome := ⟨5, SYSERR, 3, OK, 0⟩

/-- The file for the input stays open. -/
theorem rejected_leaves_input : (turn 0 catLine noOutput).1 = .error (SHELL_OUTERRMSG (bytes "out")) ∧
    left (turn 0 catLine noOutput).2 = [.file 5] ∧ ¬∀ dev b o, LeavesNothing (turn dev b o) := by
  have hexit : (turn 0 catLine noOutput).1 = .error (SHELL_OUTERRMSG (bytes "out")) := by decide +kernel
  have hleft : left (turn 0 catLine noOutput).2 = [.file 5] := by decide +kernel
  refine ⟨hexit, hleft, fun h => ?_⟩
  have hnothing := h 0 catLine noOutput _ hexit
  rw [hleft] at hnothing
  cases hnothing

/-- What is left after a session in which no command is stranded belongs to commands that run. -/
theorem session_left {dev : Int} {ps : List (Input × Outcome)} (h : ∀ p ∈ ps, ∀ c, Launches p.1 c → ¬Strands c p.2) :
    ∀ r ∈ left (session dev ps), ∃ p ∈ ps, r ∈ left (turn dev p.1 p.2).2 ∧ ∃ backgnd, (turn dev p.1 p.2).1 = .run p.2.child backgnd := by
  induction ps with
  | nil => nofun
  | cons p ps ih =>
    intro r hr
    have hturn : r ∈ left (turn dev p.1 p.2).2 → ∃ backgnd, (turn dev p.1 p.2).1 = .run p.2.child backgnd := fun hr =>
      runs_of_left (h p List.mem_cons_self) (List.ne_nil_of_mem hr)
    rw [session] at hr
    split at hr
    · exact ⟨p, List.mem_cons_self, hr, hturn hr⟩
    · rw [left_append session_keeps] at hr
      rcases List.mem_append.mp hr with hr | hr
      · obtain ⟨q, hq, hrun⟩ := ih (fun q hq => h q (List.mem_cons_of_mem p hq)) r hr
        exact ⟨q, List.mem_cons_of_mem p hq, hrun⟩
      · exact ⟨p, List.mem_cons_self, hr, hturn hr⟩

end Shell

end Xinu
