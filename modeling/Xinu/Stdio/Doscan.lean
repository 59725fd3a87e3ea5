import Xinu.Stdio.Doprnt

/-!
# Formatted input

`doscan.c` with the two functions of `sscanf.c` that read a string. `none` is undefined: an array is accessed outside its
bounds (`numbuf`, `_sctab`, the format behind its end, or the string in front of its start).
-/

namespace Xinu

/-- `EOF`. -/
def Doscan.EOF : Int := -2

/-- The length of a conversion that gives none. -/
def NOLEN : Nat := 30000

/-- `isdigit`. The table behind it ends at 127. `_innum` does not use what it finds beyond. -/
def isdigit (c : Int) : Bool := chr '0' ≤ c ∧ c ≤ chr '9'

/-- `isupper`. -/
def isupper (c : Int) : Bool := chr 'A' ≤ c ∧ c ≤ chr 'Z'

/-- A blank, a tab or a newline. -/
def isblank (c : Int) : Bool := c = chr ' ' ∨ c = chr '\t' ∨ c = chr '\n'

/-- The pointer into the string that is read: the characters before it, the last one first, and those from it on; or in front
of the string, where a character put back at the start leaves it. -/
inductive Src where
  | within (back rest : List Int)
  | before
deriving DecidableEq

/-- `sgetch`. At the `NUL` the pointer stays. -/
def sgetch : Src → Option (Int × Src)
  | .within back [] => some (Doscan.EOF, .within back [])
  | .within back (c :: rest) => some (c, .within (c :: back) rest)
  | .before => none

/-- `sungetch`. It moves the pointer back, also when no character was read because the string is at its end. -/
def sungetch : Src → Src
  | .within (c :: back) rest => .within back (c :: rest)
  | .within [] _ | .before => .before

/-- The loop that passes over blanks, each character kept in a variable of the type of `keep`: the first that is none. -/
def skipBlanksFrom (keep : Int → Int) (back : List Int) : List Int → Int × Src
  | [] => (keep Doscan.EOF, .within back [])
  | c :: rest => if isblank (keep c) then skipBlanksFrom keep (c :: back) rest else (keep c, .within (c :: back) rest)

/-- The loops that pass over blanks. -/
def skipBlanks (keep : Int → Int) : Src → Option (Int × Src)
  | .within back rest => some (skipBlanksFrom keep back rest)
  | .before => none

/-- `SHORT`, `REGULAR` and `LONG`. -/
inductive Size where
  | SHORT | REGULAR | LONG
deriving DecidableEq

/-- What a conversion stores through its pointer. -/
inductive Stored where
  | short (v : Int)
  | int (v : Int)
  | chars (s : List Int)
deriving DecidableEq, Repr

/-- What a conversion leaves: what it stored if it returns 1, `*eofptr` and the input. -/
structure Scanned where
  stored : Option Stored
  eof : Bool
  src : Src
deriving DecidableEq

/-! ## Numbers -/

/-- The value of a digit. -/
def digitValue (c : Int) : Int :=
  if chr '0' ≤ c ∧ c ≤ chr '9' then c - chr '0'
  else if chr 'a' ≤ c ∧ c ≤ chr 'f' then c - (chr 'a' - 10)
  else c - (chr 'A' - 10)

/-- The test for a digit in the loop of `_innum`, as its parentheses stand. -/
def accepts (base c : Int) : Bool :=
  (isdigit c ∨ base = 16) ∧ ((chr 'a' ≤ c ∧ c ≤ chr 'f') ∨ (chr 'A' ≤ c ∧ c ≤ chr 'F'))

/-- `c = (*getch) (arg1, arg2)` in `_innum`, where `c` is a `char`: at the end of the string it is 254 and not `EOF`. -/
def getChar (s : Src) : Option (Int × Src) := (sgetch s).map fun p => (wrap8 p.1, p.2)

/-- The digit loop of `_innum`, at most `len` turns: the value, the first character that is no digit and the characters in
`numbuf`, which has room for 64. -/
def innumLoop (base : Int) : Nat → Int → Int → Nat → Src → Option (Int × Int × Nat × Src)
  | 0, lcval, c, np, s => some (lcval, c, np, s)
  | len + 1, lcval, c, np, s =>
    if accepts base c then
      if np < 64 then do
        let (c', s) ← getChar s
        innumLoop base len (wrap32 (wrap32 (lcval * base) + digitValue c)) c' (np + 1) s
      else none
    else some (lcval, c, np, s)

/-- The store at the end of `_innum`. -/
def storeNumber (size : Size) (lcval : Int) : Stored :=
  match size with
  | .SHORT => .short ((lcval + 32768) % 65536 - 32768)
  | .REGULAR | .LONG => .int lcval

/-- The base of a conversion. -/
def baseOf (type : Int) : Int := if type = chr 'o' then 8 else if type = chr 'x' then 16 else 10

/-- The end of `_innum`: the pointer is moved back unless `c` is `EOF`, and the number is stored if there is a pointer and
`numbuf` is not empty. The final `NUL` needs room in `numbuf`, too. -/
def innumEnd (ptr : Bool) (size : Size) (neg : Bool) (r : Int × Int × Nat × Src) : Option Scanned :=
  let (lcval, c, np, s) := r
  -- a `char` is never `EOF`
  let src := if c = Doscan.EOF then s else sungetch s
  if ptr = false ∨ np = 0 then some ⟨none, c = Doscan.EOF, src⟩
  else if np < 64 then some ⟨some (storeNumber size (if neg then wrap32 (-lcval) else lcval)), c = Doscan.EOF, src⟩
  else none

/-- `_innum` for a number. Of the two signs only `'-'` is kept in `numbuf`. -/
def innum (ptr : Bool) (type : Int) (len : Nat) (size : Size) (s : Src) : Option Scanned := do
  let (c, s) ← skipBlanks wrap8 s
  if c = chr '-' then
    let (c, s) ← getChar s
    let r ← innumLoop (baseOf type) (len - 1) 0 c 1 s
    innumEnd ptr size true r
  else if c = chr '+' then
    let (c, s) ← getChar s
    let r ← innumLoop (baseOf type) (len - 1) 0 c 0 s
    innumEnd ptr size false r
  else
    let r ← innumLoop (baseOf type) len 0 c 0 s
    innumEnd ptr size false r

/-! ## Characters and strings -/

/-- The `STP` bits of `_sctab`; its `SPC` bits are those of blank, tab and newline. -/
abbrev Sctab : Type := Int → Bool

/-- A look into `_sctab`: `none` outside of its 128 entries. -/
def inTable (c : Int) (bit : Bool) : Option Bool := if 0 ≤ c ∧ c < 128 then some bit else none

/-- The first loop of `_instr`, which for `s` passes over blanks. It looks up `EOF`, too. -/
def instrSkip (skip : Bool) (back : List Int) : List Int → Option (Int × Src)
  | [] => none
  | c :: rest => do
    let blank ← inTable c (isblank c)
    if skip ∧ blank then instrSkip skip (c :: back) rest else some (c, .within (c :: back) rest)

/-- The second loop of `_instr` from the character `c` on, an `unsigned` that is compared with `EOF`, at most `len` more: the
characters taken, the one it stops at, what is left of `len` and the input. -/
def instrLoop (stop : Int → Bool) : Nat → List Int → Int → Src → Option (List Int × Int × Nat × Src)
  | 0, taken, c, s => some (taken, c, 0, s)
  | len + 1, taken, c, s =>
    if c = Doscan.EOF then some (taken, c, len + 1, s)
    else do
      if ← inTable c (stop c) then some (taken, c, len + 1, s)
      else if len = 0 then some (taken ++ [c], c, 0, s)
      else
        let (c', s) ← sgetch s
        instrLoop stop len (taken ++ [c]) c' s

/-- `_instr`. -/
def instr (tab : Sctab) (ptr : Bool) (type : Int) (len : Nat) (s : Src) : Option Scanned := do
  -- one character is taken before the length is tested
  let len := if (type = chr 'c' ∧ len = NOLEN) ∨ len = 0 then 1 else len
  let stop : Int → Bool := if type = chr 'c' then fun _ => false else if type = chr '[' then tab else isblank
  let (c, s) ←
    match s with
    | .within back rest => instrSkip (type = chr 's') back rest
    | .before => none
  let (taken, c, len, s) ← instrLoop stop len [] c s
  let src := if c = Doscan.EOF ∨ len = 0 then s else sungetch s
  let stored := if type = chr 'c' then taken else taken ++ [0]
  some ⟨if ptr = true ∧ taken ≠ [] then some (.chars stored) else none, c = Doscan.EOF, src⟩

/-- `_getccl` behind the `'^'`: the characters up to `']'` are put in the set, or taken out of it. -/
def getcclLoop (bit : Bool) : Sctab → List Int → Option (Sctab × List Int)
  | _, [] => none
  | tab, c :: fmt =>
    if c % 128 = chr ']' then some (tab, fmt)
    else do
      let bit ← inTable c bit
      getcclLoop bit (Function.update tab c bit) fmt

/-- `_getccl`. -/
def getccl (fmt : List Int) : Option (Sctab × List Int) :=
  let (t, fmt) := skip (chr '^') fmt
  getcclLoop t (fun _ => !t) fmt

/-! ## The format -/

/-- A conversion behind its `%`: whether it stores, its length, its size and its character. -/
structure ConvSpec where
  ptr : Bool
  len : Nat
  size : Size
  type : Int
deriving DecidableEq

/-- `*fmt++`; the `NUL` at the end is 0. -/
def nextChar : List Int → Int × List Int
  | [] => (0, [])
  | c :: fmt => (c, fmt)

/-- The loop that reads the length. -/
def lengthLoop : Int → List Int → Int × Int × List Int
  | len, [] => (len, 0, [])
  | len, c :: fmt =>
    if isdigit c then lengthLoop (wrap32 (wrap32 (len * 10) + c - chr '0')) fmt else (len, c, fmt)

/-- What stands between the `%` and the conversion, and the conversion itself; a capital letter is the small one with `LONG`.
For `[` the set is still to be read, which `_doscan` does only where no `l` or `h` stands before it. -/
def readConv (fmt : List Int) : ConvSpec × List Int :=
  let (star, fmt) := skip (chr '*') fmt
  let (len, c, fmt) := lengthLoop 0 fmt
  let len := if len = 0 then NOLEN else len.toNat
  let (size, c, fmt) :=
    if c = chr 'l' then (Size.LONG, nextChar fmt)
    else if c = chr 'h' then (Size.SHORT, nextChar fmt)
    else (Size.REGULAR, c, fmt)
  if isupper c then (⟨!star, len, .LONG, c - chr 'A' + chr 'a'⟩, fmt) else (⟨!star, len, size, c⟩, fmt)

/-- One conversion, with the set of a `[` read first: what it leaves, the table and the format behind it. -/
def scanOne (v : ConvSpec) (tab : Sctab) (fmt : List Int) (s : Src) : Option (Scanned × Sctab × List Int) :=
  if v.type = chr '[' ∧ v.size = .REGULAR then do
    let (tab, fmt) ← getccl fmt
    let r ← instr tab v.ptr v.type v.len s
    some (r, tab, fmt)
  else if v.type = chr 'c' ∨ v.type = chr 's' ∨ v.type = chr '[' then
    (instr tab v.ptr v.type v.len s).map (·, tab, fmt)
  else (innum v.ptr v.type v.len v.size s).map (·, tab, fmt)

/-- The stores with that of one conversion. -/
def addStore (stores : List (Nat × Stored)) (arg : Nat) : Option Stored → List (Nat × Stored)
  | some x => stores ++ [(arg, x)]
  | none => stores

/-- `_doscan`: the number of matches, or -1, and what was stored through which argument. `arg` is the index of the next
argument. Every turn of the loop takes at least one character of the format. -/
def doscan : Nat → List Int → Src → Sctab → Int → Nat → List (Nat × Stored) → Option (Int × List (Nat × Stored))
  | 0, _, _, _, _, _, _ => none
  | _ + 1, [], _, _, nmatch, _, stores => some (nmatch, stores)
  | n + 1, ch :: fmt, s, tab, nmatch, arg, stores =>
    if ch = chr '%' ∧ (skip (chr '%') fmt).1 = false then
      let v := (readConv fmt).1
      if v.type = 0 then some (-1, stores)
      else
        match scanOne v tab (readConv fmt).2 s with
        | none => none
        | some (r, tab, fmt) =>
          let nmatch := if r.stored.isSome then nmatch + 1 else nmatch
          let stores := addStore stores arg r.stored
          if r.eof then some (if nmatch ≠ 0 then nmatch else -1, stores)
          else doscan n fmt r.src tab nmatch (if v.ptr then arg + 1 else arg) stores
    else if ch ≠ chr '%' ∧ isblank ch then
      match skipBlanks id s with
      | none => none
      | some (ch1, s) => doscan n fmt (if ch1 = Doscan.EOF then s else sungetch s) tab nmatch arg stores
    else
      match sgetch s with
      | none => none
      | some (ch1, s) =>
        if ch1 = ch then doscan n (if ch = chr '%' then (skip (chr '%') fmt).2 else fmt) s tab nmatch arg stores
        else if ch1 = Doscan.EOF then some (-1, stores)
        else some (nmatch, stores)

/-- `sscanf`: the value returned and what was stored through each argument. -/
def sscanf (str fmt : List Int) : Option (Int × List (Nat × Stored)) :=
  doscan (fmt.length + 1) fmt (.within [] str) (fun _ => false) 0 0 []

end Xinu
