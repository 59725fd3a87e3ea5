import Mathlib.Algebra.Order.Group.Int
import Mathlib.Data.Int.Basic
import Mathlib.Tactic.Common

/-!
# Formatted output

`doprnt.c` and `fdoprnt.c`: two copies of one interpreter of format strings. A character is the `int` that is handed to the
output function, a string the list of its characters before the `NUL`. The part that reads a directive and the part that pads
its field are the same text in both files and are defined once; the conversions, which are not, have a definition for each.
`%f` is left out: it converts a floating-point number.
-/

namespace Xinu

/-- The code of a character. -/
def chr (c : Char) : Int := c.toNat

/-- The characters of a string constant. -/
def cstr (s : String) : List Int := s.toList.map chr

/-- A `long`, which has 32 bits, of the value of an expression. -/
def wrap32 (x : Int) : Int := (x + 2147483648) % 4294967296 - 2147483648

/-- A `char` of the value of an expression. On this machine a `char` is unsigned. -/
def wrap8 (x : Int) : Int := x % 256

/-- `MAXSTR`. -/
def MAXSTR : Int := 80

/-- An argument: a 32-bit value, or a string pointer that may be `NULL`. -/
inductive Arg where
  | int (v : Int)
  | str (s : Option (List Int))
deriving DecidableEq

/-! ## Digits -/

/-- The low digits of a number: `k` times a digit and what is left of the number. -/
def lowDigits (digit rest : Int → Int) : Nat → Int → List Int
  | 0, _ => []
  | k + 1, num => digit num :: lowDigits digit rest k (rest num)

/-- The characters from the first that is not `'0'`, the low digit first in `temp`; a zero keeps one digit. -/
def stripZeros (temp : List Int) : List Int :=
  match temp.reverse.dropWhile (· = chr '0') with
  | [] => temp.take 1
  | str => str

namespace Fdoprnt

/-- `_prtl10` of `fdoprnt.c`. -/
def prtl10 (num : Int) : List Int :=
  stripZeros (lowDigits (fun n => wrap8 (n.tmod 10 + chr '0')) (fun n => n.tdiv 10) 10 num)

end Fdoprnt

namespace Doprnt

/-- `_prtl10` of `doprnt.c`: the first digit is taken off before the sign is dropped. -/
def prtl10 (num : Int) : List Int :=
  stripZeros (wrap8 ((if num < 0 then -(num.tmod 10) else num.tmod 10) + chr '0') ::
    lowDigits (fun n => wrap8 (n.tmod 10 + chr '0')) (fun n => n.tdiv 10) 9 (num.tdiv (if num < 0 then -10 else 10)))

end Doprnt

/-- `_prtl8`: `num & 07`, and `num >> 3` copies the sign. The last digit is masked with `'3'`. -/
def prtl8 (num : Int) : List Int :=
  let temp := lowDigits (fun n => n % 8 + chr '0') (fun n => n / 8) 11 num
  stripZeros (temp.set 10 (temp.getD 10 0 % 4 + chr '0'))

/-- `_prtl16`. -/
def prtl16 (num : Int) : List Int :=
  stripZeros (lowDigits (fun n => (cstr "0123456789abcdef").getD (n % 16).toNat 0) (fun n => n / 16) 8 num)

/-- `_prtX16`. -/
def prtX16 (num : Int) : List Int :=
  stripZeros (lowDigits (fun n => (cstr "0123456789ABCDEF").getD (n % 16).toNat 0) (fun n => n / 16) 8 num)

/-- `_prtl2`. -/
def prtl2 (num : Int) : List Int :=
  stripZeros (lowDigits (fun n => if n.tmod 2 = 0 then chr '0' else chr '1') (fun n => n / 2) 32 num)

/-! ## Conversions -/

/-- The loop of the `u` conversion: subtract until the number is not negative, and count. -/
def unsign : Nat → Int → Int → Int × Int
  | 0, larg, digit1 => (larg, digit1)
  | n + 1, larg, digit1 => if larg < 0 then unsign n (wrap32 (larg - 1000000000)) (wrap8 (digit1 + 1)) else (larg, digit1)

/-- `str[0] += digit1`. -/
def addFirst (digit1 : Int) : List Int → List Int
  | [] => []
  | c :: str => wrap8 (c + digit1) :: str

/-- What a conversion leaves: the string to print, whether `sign` is `'-'`, whether the precision is dropped (`fmax = 0`) and
whether the fill character becomes a blank. -/
structure Field where
  str : List Int
  sign : Bool
  nomax : Bool
  blank : Bool
deriving DecidableEq

/-- A number in the buffer `string`, which has room for 20 characters with the `NUL`; `none` when it is written past its end. -/
def Field.number (str : List Int) (sign nomax : Bool) : Option Field :=
  if str.length < 20 then some ⟨str, sign, nomax, false⟩ else none

/-- The `switch` on the conversion `f`, with the arguments left, a file's own `_prtl10` and its own case `d`. `none` is
undefined: an argument is missing or of the wrong type, `string` overflows, or `f` is none of these, for which the source
prints `f` and whatever `string` holds. -/
def convert (prtl10 : Int → List Int) (d : Int → Option Field) (f : Int) (args : List Arg) : Option (Field × List Arg) :=
  match args with
  | .int larg :: args =>
    if f = chr 'c' then some (⟨if wrap8 larg = 0 then [] else [wrap8 larg], false, true, true⟩, args)
    else if f = chr 'd' then (d larg).map (·, args)
    else if f = chr 'u' then
      let (larg, digit1) := unsign 4 larg 0
      (Field.number (addFirst digit1 (prtl10 larg)) false true).map (·, args)
    else if f = chr 'o' then (Field.number (prtl8 larg) false true).map (·, args)
    else if f = chr 'X' then (Field.number (prtX16 larg) false true).map (·, args)
    else if f = chr 'x' then (Field.number (prtl16 larg) false true).map (·, args)
    else if f = chr 'b' then (Field.number (prtl2 larg) false true).map (·, args)
    else none
  | .str s :: args => if f = chr 's' then some (⟨s.getD (cstr "(null)"), false, false, true⟩, args) else none
  | [] => none

/-- Case `d` of `_doprnt`: the number is handed on with its sign. -/
def Doprnt.caseD (larg : Int) : Option Field := Field.number (Doprnt.prtl10 larg) (larg < 0) false

/-- Case `d` of `_fdoprnt`: a negative number is negated first, in 32 bits. -/
def Fdoprnt.caseD (larg : Int) : Option Field :=
  if larg < 0 then Field.number (Fdoprnt.prtl10 (wrap32 (-larg))) true false
  else Field.number (Fdoprnt.prtl10 larg) false false

/-- Cases `H` and `h` of `_doprnt`: the second number is put eight characters behind the first, where it is seen only when the
first has all its eight digits. -/
def twoWords (prt : Int → List Int) (hi lo : Int) : Option Field :=
  Field.number (if (prt hi).length = 8 then prt hi ++ prt lo else prt hi) false true

/-- The `switch` of `_doprnt`. -/
def Doprnt.convert (f : Int) (args : List Arg) : Option (Field × List Arg) :=
  match args with
  | .int hi :: .int lo :: args' =>
    if f = chr 'H' then (twoWords prtX16 hi lo).map (·, args')
    else if f = chr 'h' then (twoWords prtl16 hi lo).map (·, args')
    else Xinu.convert Doprnt.prtl10 Doprnt.caseD f args
  | _ => Xinu.convert Doprnt.prtl10 Doprnt.caseD f args

/-- The `switch` of `_fdoprnt`. -/
def Fdoprnt.convert : Int → List Arg → Option (Field × List Arg) := Xinu.convert Fdoprnt.prtl10 Fdoprnt.caseD

/-! ## Directives -/

/-- What stands between the `%` and the conversion. -/
structure Spec where
  leftjust : Bool
  fill : Int
  fmin : Int
  fmax : Int
deriving DecidableEq

/-- The loop that reads a decimal number of the format. -/
def number : Int → List Int → Int × List Int
  | n, c :: fmt =>
    if chr '0' ≤ c ∧ c ≤ chr '9' then number (wrap32 (wrap32 (n * 10) + c - chr '0')) fmt else (n, c :: fmt)
  | n, [] => (n, [])

/-- A width or a precision: `*` takes it from the arguments. -/
def numberOrStar (fmt : List Int) (args : List Arg) : Option (Int × List Int × List Arg) :=
  match fmt with
  | c :: fmt' =>
    if c = chr '*' then
      match args with
      | .int v :: args => some (v, fmt', args)
      | _ => none
    else some ((number 0 fmt).1, (number 0 fmt).2, args)
  | [] => some (0, [], args)

/-- `if (*fmt == c) fmt++`. -/
def skip (c : Int) : List Int → Bool × List Int
  | x :: fmt => if x = c then (true, fmt) else (false, x :: fmt)
  | [] => (false, [])

/-- The flags, the width and the precision of a directive. -/
def readSpec (fmt : List Int) (args : List Arg) : Option (Spec × List Int × List Arg) := do
  let (leftjust, fmt) := skip (chr '-') fmt
  let (zero, fmt) := skip (chr '0') fmt
  let (fmin, fmt, args) ← numberOrStar fmt args
  let (dot, fmt) := skip (chr '.') fmt
  let (fmax, fmt, args) ← if dot then numberOrStar fmt args else some (0, fmt, args)
  some (⟨leftjust, if zero then chr '0' else chr ' ', fmin, fmax⟩, fmt, args)

/-- `n` times the same character; none when `n` is not positive. -/
def fillers (n c : Int) : List Int := List.replicate n.toNat c

/-- The output for a field: the sign, the fill characters and the string, cut to the precision. -/
def emit (s : Spec) (c : Field) : List Int :=
  let fill := if c.blank then chr ' ' else s.fill
  let fmax := if c.nomax then 0 else s.fmax
  let fmin := if s.fmin > MAXSTR ∨ s.fmin < 0 then 0 else s.fmin
  let fmax := if fmax > MAXSTR ∨ fmax < 0 then 0 else fmax
  let length := if fmax ≠ 0 ∧ (c.str.length : Int) > fmax then fmax else c.str.length
  let leading :=
    if fmax ≠ 0 ∨ fmin ≠ 0 then
      (if fmin ≠ 0 then fmin - length else 0) - (if c.sign then 1 else 0)
    else 0
  (if c.sign ∧ fill = chr '0' then [chr '-'] else []) ++
  (if s.leftjust then [] else fillers leading fill) ++
  (if c.sign ∧ fill = chr ' ' then [chr '-'] else []) ++
  c.str.take length.toNat ++
  (if s.leftjust then fillers leading fill else [])

/-- The loop over the format, with a file's own `switch`: the characters handed to the output function. -/
def formatLoop (conv : Int → List Arg → Option (Field × List Arg)) : Nat → List Int → List Arg → Option (List Int)
  | 0, _, _ => none
  | _ + 1, [], _ => some []
  | n + 1, c :: fmt, args =>
    if c ≠ chr '%' then (formatLoop conv n fmt args).map (c :: ·)
    else if (skip (chr '%') fmt).1 then (formatLoop conv n (skip (chr '%') fmt).2 args).map (chr '%' :: ·)
    else do
      let (s, fmt, args) ← readSpec fmt args
      match fmt with
      | [] => some [chr '%']
      | f :: fmt =>
        let (field, args) ← conv f args
        let out ← formatLoop conv n fmt args
        some (emit s field ++ out)

/-- `_doprnt`: the characters it hands to `func`. Every turn of the loop takes at least one character of the format. -/
def doprnt (fmt : List Int) (args : List Arg) : Option (List Int) := formatLoop Doprnt.convert (fmt.length + 1) fmt args

/-- `_fdoprnt`: the characters it hands to `func`. -/
def fdoprnt (fmt : List Int) (args : List Arg) : Option (List Int) := formatLoop Fdoprnt.convert (fmt.length + 1) fmt args

/-- `sprintf`: the string that `_fdoprnt` writes. -/
def sprintf (fmt : List Int) (args : List Arg) : Option (List Int) := fdoprnt fmt args

end Xinu
