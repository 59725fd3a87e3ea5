import Xinu.Kernel.Queue
import Xinu.Shell.Lexan

/-!
# The parser of the shell

The part of `shell.c` between the call of `lexan` and the look-up of the command, and `addargs.c` with the stack that `create` makes.
`none` is a line for which the shell goes back to the prompt: an empty one or one with a syntax error. A file name is its index in
`tokbuf`. In `addargs` the memory of the child's stack is addressed by bytes.
-/

namespace Xinu

namespace Shell

def SHELL_BUFLEN : Nat := 129
def SHELL_CMDSTK : Nat := 8192

/-- The variables of `shell` that the parser sets. -/
structure Cmdline where
  ntok : Nat
  tlen : Int
  inname : Option Nat
  outname : Option Nat
  backgnd : Bool

/-- The test for `&` as the last token. -/
def ampersand (l : Lex) : Cmdline :=
  if l.toktyp (l.ntok - 1) = .SH_TOK_AMPER then ⟨l.ntok - 1, l.tbindex - 2, none, none, true⟩
  else ⟨l.ntok, l.tbindex, none, none, false⟩

/-- The last but one token is `<` or `>`. -/
def isRedirection (l : Lex) (c : Cmdline) : Prop :=
  c.ntok ≥ 3 ∧ (l.toktyp (c.ntok - 2) = .SH_TOK_LESS ∨ l.toktyp (c.ntok - 2) = .SH_TOK_GREATER)

instance (l : Lex) (c : Cmdline) : Decidable (isRedirection l c) := inferInstanceAs (Decidable (_ ∧ _))

/-- The first test for a redirection. -/
def redirection1 (l : Lex) (c : Cmdline) : Option Cmdline :=
  if isRedirection l c then
    if l.toktyp (c.ntok - 1) ≠ .SH_TOK_OTHER then none
    else
      let c := if l.toktyp (c.ntok - 2) = .SH_TOK_LESS then { c with inname := some (l.tok (c.ntok - 1)) }
        else { c with outname := some (l.tok (c.ntok - 1)) }
      some { c with ntok := c.ntok - 2, tlen := l.tok (c.ntok - 2) }
  else some c

/-- The second test for a redirection. -/
def redirection2 (l : Lex) (c : Cmdline) : Option Cmdline :=
  if isRedirection l c then
    if l.toktyp (c.ntok - 1) ≠ .SH_TOK_OTHER then none
    else if l.toktyp (c.ntok - 2) = .SH_TOK_LESS then
      if c.inname ≠ none then none
      else some { c with inname := some (l.tok (c.ntok - 1)), ntok := c.ntok - 2, tlen := l.tok (c.ntok - 2) }
    else
      if c.outname ≠ none then none
      else some { c with outname := some (l.tok (c.ntok - 1)), ntok := c.ntok - 2, tlen := l.tok (c.ntok - 2) }
  else some c

/-- The loop that verifies that the tokens are of type "other". -/
def otherLoop (toktyp : Nat → Toktype) : (left i : Nat) → Nat
  | 0, i => i
  | left + 1, i => if toktyp i ≠ .SH_TOK_OTHER then i else otherLoop toktyp left (i + 1)

/-- What the shell makes of the tokens of a line. -/
def parse (l : Lex) : Option Cmdline :=
  if l.ntok = 0 then none
  else (redirection1 l (ampersand l)).bind fun c => (redirection2 l c).bind fun c =>
    if c.ntok = 0 ∨ otherLoop l.toktyp c.ntok 0 < c.ntok then none else some c

/-! ## The stack of a command -/

def STACKMAGIC : UInt32 := 0x0A0AAAA9

/-- `*--saddr = w`. -/
def push (s : Nat × Buffer) (w : UInt32) : Nat × Buffer := (s.1 - 4, s.2.setWord (s.1 - 4) w)

/-- The part of `create` that makes the stack: `prstkptr` and the memory. -/
def createStack (saddr : Nat) (procaddr initret : UInt32) (args : List UInt32) (mem : Buffer) : Nat × Buffer :=
  let s := (saddr, mem.setWord saddr STACKMAGIC)
  let s := (args.drop 4).reverse.foldl push s
  let s := push s procaddr
  let s := (List.replicate 8 0).foldl push s
  let s := [4, 3, 2, 1].foldl (fun s i => push s (if i ≤ args.length then args.getD (i - 1) 0 else 0)) s
  push (push s initret) 0x53

/-- The loop of `addargs` over the args vector. -/
def vectorLoop (tok : Nat → Nat) (argstr : Nat) : (left i aptr : Nat) → Buffer → Nat × Buffer
  | 0, _, aptr, mem => (aptr, mem)
  | left + 1, i, aptr, mem => vectorLoop tok argstr left (i + 1) (aptr + 4) (mem.setWord aptr (UInt32.ofNat (argstr + tok i)))

/-- The loop of `addargs` that looks for the dummy argument. -/
def searchLoop (mem : Buffer) (dummy : UInt32) : (left search : Nat) → Option Nat
  | 0, _ => none
  | left + 1, search => if mem.word search = dummy then some search else searchLoop mem dummy left (search + 4)

/-- `addargs` for a process with this stack: what it returns and the memory. -/
def addargs (prstkbase prstklen prstkptr : Nat) (ntok : Nat) (tok : Nat → Nat) (tlen : Int) (tokbuf : Buffer) (dummy : UInt32)
    (mem : Buffer) : Int × Buffer :=
  if ntok = 0 ∨ tlen < 0 then (SYSERR, mem)
  else
    let aloc := prstkbase - prstklen + 4
    let argloc := (aloc + 3) / 4 * 4
    let argstr := argloc + 4 * (ntok + 1)
    let r := vectorLoop tok argstr ntok 0 argloc mem
    let mem := (r.2.setWord r.1 0).copy (r.1 + 4) tokbuf tlen.toNat
    match searchLoop mem dummy ((prstkbase - prstkptr) / 4) prstkptr with
    | some search => (OK, mem.setWord search (UInt32.ofNat argloc))
    | none => (SYSERR, mem)

end Shell

end Xinu
