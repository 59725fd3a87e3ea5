import Xinu.Lib.Text
import Xinu.Lib.Tokens

/-!
# The lexical analyzer of the shell

`lexan.c`. The pointer into the line is the list of the characters from it on; behind a list stands `NULLCH`. Each turn of the outer loop
takes at least one character, and `left` counts down the turns that are left. `none` is `SYSERR`; otherwise the result has the number of
tokens, the length of the text in `tokbuf` and the arrays.
-/

namespace Xinu

namespace Shell

def SHELL_MAXTOK : Nat := 32

def NULLCH : UInt8 := 0
def SH_NEWLINE : UInt8 := 10
def SH_AMPER : UInt8 := 38
def SH_BLANK : UInt8 := 32
def SH_TAB : UInt8 := 9
def SH_SQUOTE : UInt8 := 39
def SH_DQUOTE : UInt8 := 34
def SH_LESS : UInt8 := 60
def SH_GREATER : UInt8 := 62

/-- The types of tokens. -/
inductive Toktype where
  | SH_TOK_AMPER | SH_TOK_LESS | SH_TOK_GREATER | SH_TOK_OTHER
deriving DecidableEq

/-- The variables of `lexan`, with the arrays that it fills. -/
structure Lex where
  ntok : Nat
  tbindex : Nat
  tokbuf : Buffer
  tok : Nat → Nat
  toktyp : Nat → Toktype

/-- `tokbuf[tbindex++] = ch`. -/
def Lex.put (l : Lex) (ch : UInt8) : Lex := { l with tokbuf := Function.update l.tokbuf l.tbindex ch, tbindex := l.tbindex + 1 }

/-- Set the entries for the next token. -/
def Lex.start (l : Lex) (typ : Toktype) : Lex :=
  { l with tok := Function.update l.tok l.ntok l.tbindex, toktyp := Function.update l.toktyp l.ntok typ }

/-- Terminate the token and count it. -/
def Lex.count (l : Lex) : Lex :=
  let l := l.put NULLCH
  { l with ntok := l.ntok + 1 }

/-- The loop over blanks and tabs. -/
def skip : List UInt8 → List UInt8
  | [] => []
  | ch :: p => if ch = SH_BLANK ∨ ch = SH_TAB then skip p else ch :: p

/-- The loop over a quoted string; `none` when its end quote is missing. -/
def quoteLoop (quote : UInt8) : List UInt8 → Lex → Option (List UInt8 × Lex)
  | [], _ => none
  | ch :: p, l =>
    if ch = quote then some (p, l)
    else if ch = SH_NEWLINE ∨ ch = NULLCH then none
    else quoteLoop quote p (l.put ch)

/-- The loop over a token other than a quoted string. -/
def wordLoop : List UInt8 → Lex → List UInt8 × Lex
  | [], l => ([], l)
  | ch :: p, l =>
    if ch = SH_NEWLINE ∨ ch = NULLCH ∨ ch = SH_LESS ∨ ch = SH_GREATER ∨ ch = SH_BLANK ∨ ch = SH_TAB ∨ ch = SH_AMPER ∨ ch = SH_SQUOTE ∨
      ch = SH_DQUOTE then (ch :: p, l)
    else wordLoop p (l.put ch)

/-- The part of the outer loop behind the blanks: what is left of the line when a token is stored that begins with `ch`. -/
def lexanToken (ch : UInt8) (p : List UInt8) (l : Lex) : Option (List UInt8 × Lex) :=
  if ch = SH_AMPER then some (p, ((l.start .SH_TOK_AMPER).put ch).count)
  else if ch = SH_LESS then some (p, ((l.start .SH_TOK_LESS).put ch).count)
  else if ch = SH_GREATER then some (p, ((l.start .SH_TOK_GREATER).put ch).count)
  else if ch = SH_SQUOTE ∨ ch = SH_DQUOTE then (quoteLoop ch p (l.start .SH_TOK_OTHER)).map fun r => (r.1, r.2.count)
  else
    let r := wordLoop p ((l.start .SH_TOK_OTHER).put ch)
    let ch := r.1.headD NULLCH
    if ch = SH_SQUOTE ∨ ch = SH_DQUOTE ∨ ch = SH_LESS ∨ ch = SH_GREATER then none else some (r.1, r.2.count)

/-- The outer loop of `lexan`. -/
def lexanLoop : (left : Nat) → List UInt8 → Lex → Option Lex
  | 0, _, _ => none
  | left + 1, p, l =>
    if p.headD NULLCH = NULLCH ∨ p.headD NULLCH = SH_NEWLINE then some l
    else if l.ntok ≥ SHELL_MAXTOK then none
    else
      match skip p with
      | [] => some l
      | ch :: p =>
        if ch = SH_NEWLINE ∨ ch = NULLCH then some l else (lexanToken ch p l).bind fun r => lexanLoop left r.1 r.2

/-- `lexan`, with what stands in the arrays before. -/
def lexan (line : List UInt8) (tokbuf : Buffer) (tok : Nat → Nat) (toktyp : Nat → Toktype) : Option Lex :=
  lexanLoop (line.length + 1) line ⟨0, 0, tokbuf, tok, toktyp⟩

end Shell

end Xinu
