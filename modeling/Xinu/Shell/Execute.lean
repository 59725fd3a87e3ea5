import Xinu.Lib.Ledger
import Xinu.Shell.Parse

/-!
# The execution of a command

One turn of the loop of `shell.c` behind the call of `read`. What the calls of the system return is given by `Outcome`; a turn says how it
ends and which calls it made. Files are opened on the device `NAMESPACE`, and `dev` is the device of the shell.
-/

namespace Xinu

namespace Shell

/-- The bytes of a text. -/
def bytes (s : String) : List UInt8 := s.toList.map fun c => UInt8.ofNat c.toNat

def SHELL_SYNERRMSG : List UInt8 := bytes "Syntax error\n"
def SHELL_CREATMSG : List UInt8 := bytes "Cannot create process\n"
def SHELL_INERRMSG (name : List UInt8) : List UInt8 := bytes "Cannot open file " ++ name ++ bytes " for input\n"
def SHELL_OUTERRMSG (name : List UInt8) : List UInt8 := bytes "Cannot open file " ++ name ++ bytes " for output\n"
def SHELL_BGERRMSG : List UInt8 := bytes "Cannot redirect I/O or background a builtin\n"
def SHELL_EXIT : Int := -3

/-- An entry in the table of commands. -/
structure Cmdent where
  cname : List UInt8
  cbuiltin : Bool

def cmdtab : List Cmdent :=
  [⟨bytes "argecho", true⟩, ⟨bytes "arp", false⟩, ⟨bytes "cat", false⟩, ⟨bytes "clear", true⟩, ⟨bytes "date", false⟩,
    ⟨bytes "devdump", false⟩, ⟨bytes "echo", false⟩, ⟨bytes "exit", true⟩, ⟨bytes "help", false⟩, ⟨bytes "kill", true⟩,
    ⟨bytes "memdump", false⟩, ⟨bytes "memstat", false⟩, ⟨bytes "netinfo", false⟩, ⟨bytes "ping", false⟩, ⟨bytes "ps", false⟩,
    ⟨bytes "sleep", false⟩, ⟨bytes "udp", false⟩, ⟨bytes "udpecho", false⟩, ⟨bytes "udpeserver", false⟩, ⟨bytes "uptime", false⟩,
    ⟨bytes "?", false⟩]

/-- The comparison of a name in the table with the first token. -/
def nameLoop (tokbuf : Buffer) : (src : List UInt8) → (cmp : Nat) → Bool
  | [], cmp => tokbuf cmp = NULLCH
  | c :: src, cmp => if tokbuf cmp ≠ c then false else nameLoop tokbuf src (cmp + 1)

/-- The look-up of the first token. -/
def lookup (tokbuf : Buffer) : List Cmdent → Option Cmdent
  | [] => none
  | e :: t => if nameLoop tokbuf e.cname 0 then some e else lookup tokbuf t

/-- A call of the system or of a builtin function, with what it returns. -/
inductive Syscall where
  | openFile (name mode : List UInt8) (did : Int)
  | truncate (did : Int)
  | create (cname : List UInt8) (ntok : Nat) (pid : Int)
  | addargs (pid : Int) (status : Int)
  | resume (pid stdinput stdoutput : Int)
  | close (did : Int)
  | kill (pid : Int)
  | builtin (cname : List UInt8) (ntok : Nat) (status : Int)

/-- What the calls return in a turn. -/
structure Outcome where
  input : Int
  output : Int
  child : Int
  args : Int
  builtin : Int

/-- How a turn ends: at the prompt, with an error at the prompt, with a child that runs, or with the end of the shell. -/
inductive Exit where
  | prompt
  | error (msg : List UInt8)
  | run (child : Int) (backgnd : Bool)
  | exit
deriving DecidableEq

/-- A name in `tokbuf`. -/
def Lex.name (l : Lex) (k : Nat) : List UInt8 := l.tokbuf.text (SHELL_BUFLEN + SHELL_MAXTOK) k

/-- Open the file for the input, if there is one. -/
def redirectInput (l : Lex) (dev did : Int) : Option Nat → Except (List UInt8) Int × List Syscall
  | none => (.ok dev, [])
  | some k =>
    (if did = SYSERR then .error (SHELL_INERRMSG (l.name k)) else .ok did, [.openFile (l.name k) (bytes "ro") did])

/-- Open the file for the output, if there is one. -/
def redirectOutput (l : Lex) (dev did : Int) : Option Nat → Except (List UInt8) Int × List Syscall
  | none => (.ok dev, [])
  | some k =>
    if did = SYSERR then (.error (SHELL_OUTERRMSG (l.name k)), [.openFile (l.name k) (bytes "w") did])
    else (.ok did, [.openFile (l.name k) (bytes "w") did, .truncate did])

/-- Create the child and pass the arguments. -/
def spawn (e : Cmdent) (c : Cmdline) (o : Outcome) (stdinput stdoutput : Int) : Exit × List Syscall :=
  let create := Syscall.create e.cname c.ntok o.child
  if o.child = SYSERR then (.error SHELL_CREATMSG, [create])
  else if o.args = SYSERR then (.error SHELL_CREATMSG, [create, .addargs o.child o.args])
  else (.run o.child c.backgnd, [create, .addargs o.child o.args, .resume o.child stdinput stdoutput])

/-- The part of a turn for a command that is not builtin. -/
def launch (dev : Int) (l : Lex) (c : Cmdline) (e : Cmdent) (o : Outcome) : Exit × List Syscall :=
  let i := redirectInput l dev o.input c.inname
  match i.1 with
  | .error msg => (.error msg, i.2)
  | .ok stdinput =>
    let u := redirectOutput l dev o.output c.outname
    match u.1 with
    | .error msg => (.error msg, i.2 ++ u.2)
    | .ok stdoutput =>
      let r := spawn e c o stdinput stdoutput
      (r.1, i.2 ++ u.2 ++ r.2)

/-- The part of a turn for a builtin command. -/
def call (c : Cmdline) (e : Cmdent) (o : Outcome) : Exit × List Syscall :=
  if c.inname ≠ none ∨ c.outname ≠ none ∨ c.backgnd then (.error SHELL_BGERRMSG, [])
  else (if o.builtin = SHELL_EXIT then .exit else .prompt, [.builtin e.cname c.ntok o.builtin])

/-- The message for tokens that the parser refuses: a redirection prints a newline behind it. -/
def parseMessage (l : Lex) : List UInt8 :=
  if ((redirection1 l (ampersand l)).bind (redirection2 l)).isNone then SHELL_SYNERRMSG ++ bytes "\n" else SHELL_SYNERRMSG

/-- What `read` stores, and what stands in the arrays of tokens before the turn. -/
structure Input where
  line : List UInt8
  tokbuf : Buffer
  tok : Nat → Nat
  toktyp : Nat → Toktype

/-- `lexan` on the line, which is terminated by a newline. -/
def Input.lexan (b : Input) : Option Lex := Shell.lexan (b.line ++ [SH_NEWLINE]) b.tokbuf b.tok b.toktyp

/-- A turn. -/
def turn (dev : Int) (b : Input) (o : Outcome) : Exit × List Syscall :=
  if b.line.length ≤ 1 then (.prompt, [])
  else
    match b.lexan with
    | none => (.error (SHELL_SYNERRMSG ++ bytes "\n"), [])
    | some l =>
      if l.ntok = 0 then (.prompt, [])
      else
        match parse l with
        | none => (.error (parseMessage l), [])
        | some c =>
          match lookup l.tokbuf cmdtab with
          | none => (.error (bytes "command " ++ l.name 0 ++ bytes " not found\n"), [])
          | some e => if e.cbuiltin then call c e o else launch dev l c e o

/-- The turns of a session: what `read` stores, and what the calls return. -/
def session (dev : Int) : List (Input × Outcome) → List Syscall
  | [] => []
  | (b, o) :: t =>
    let r := turn dev b o
    if r.1 = .exit then r.2 else r.2 ++ session dev t

end Shell

end Xinu
