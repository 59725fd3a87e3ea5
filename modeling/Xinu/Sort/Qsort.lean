import Xinu.Lib.Buffer
import Xinu.Lib.Quicksort

/-!
# The sort of the library

`qsort.c`. Pointers are addresses, and an access to memory outside the array has no result. The variables `qscmp` and `qses`, which the calls
share, are the parameters `cmp` and `es`; the comparison function is given by what it makes of the contents of two elements. The loop of
`qs1` has two heads: that of the `for` and the label `loop`, the points `lower` and `upper`.
-/

namespace Xinu

namespace Qsort

open Quicksort (Move Point)

/-- Memory with the array in it. -/
structure Block where
  base : Nat
  size : Nat
  mem : Buffer

def Block.load (b : Block) (p : Nat) : Option UInt8 := if b.base ≤ p ∧ p < b.base + b.size then some (b.mem p) else none

def Block.store (b : Block) (p : Nat) (c : UInt8) : Option Block :=
  if b.base ≤ p ∧ p < b.base + b.size then some { b with mem := Function.update b.mem p c } else none

/-- The element at an address. -/
def Block.element (b : Block) (es p : Nat) : Option (Fin es → UInt8) :=
  if b.base ≤ p ∧ p + es ≤ b.base + b.size then some fun t => b.mem (p + t) else none

/-- The loop of `qsexc`. -/
def qsexcLoop : (n ri rj : Nat) → Block → Option Block
  | 0, _, _, b => some b
  | n + 1, ri, rj, b => do
    let c ← b.load ri
    let d ← b.load rj
    let b ← b.store ri d
    let b ← b.store rj c
    qsexcLoop n (ri + 1) (rj + 1) b

/-- `qsexc`. -/
def qsexc (es i j : Nat) (b : Block) : Option Block := qsexcLoop es i j b

/-- The loop of `qstexc`. -/
def qstexcLoop : (n ri rj rk : Nat) → Block → Option Block
  | 0, _, _, _, b => some b
  | n + 1, ri, rj, rk, b => do
    let c ← b.load ri
    let d ← b.load rk
    let b ← b.store ri d
    let d ← b.load rj
    let b ← b.store rk d
    let b ← b.store rj c
    qstexcLoop n (ri + 1) (rj + 1) (rk + 1) b

/-- `qstexc`. -/
def qstexc (es i j k : Nat) (b : Block) : Option Block := qstexcLoop es i j k b

/-- The memory and the pointers of `qs1`. -/
structure Regs where
  b : Block
  i : Nat
  j : Nat
  lp : Nat
  hp : Nat

variable {es : Nat} (cmp : (Fin es → UInt8) → (Fin es → UInt8) → Int)

/-- `(*qscmp)(p, q)`. -/
def compare (b : Block) (p q : Nat) : Option Int := do
  let x ← b.element es p
  let y ← b.element es q
  some (cmp x y)

/-- The part of the loop from the label `loop` on. -/
def loop (r : Regs) : Option (Move Regs) :=
  if r.j > r.hp then do
    let c ← compare cmp r.b r.hp r.j
    if c = 0 then
      let b ← qsexc es (r.hp + es) r.j r.b
      some (.go .upper { r with b := b, hp := r.hp + es })
    else if c > 0 then
      if r.i = r.lp then
        let b ← qstexc es r.i (r.hp + es) r.j r.b
        some (.go .upper { r with b := b, hp := r.hp + es, lp := r.lp + es, i := r.lp + es })
      else
        let b ← qsexc es r.i r.j r.b
        some (.go .lower { r with b := b, j := r.j - es, i := r.i + es })
    else some (.go .upper { r with j := r.j - es })
  else if r.i = r.lp then some (.done r)
  else do
    let b ← qstexc es r.j (r.lp - es) r.i r.b
    some (.go .lower { r with b := b, lp := r.lp - es, hp := r.hp - es, j := r.hp - es })

/-- One turn of the loop. -/
def body : Point → Regs → Option (Move Regs)
  | .lower, r =>
    if r.i < r.lp then do
      let c ← compare cmp r.b r.i r.lp
      if c = 0 then
        let b ← qsexc es r.i (r.lp - es) r.b
        some (.go .lower { r with b := b, lp := r.lp - es })
      else if c < 0 then some (.go .lower { r with i := r.i + es })
      else loop cmp r
    else loop cmp r
  | .upper, r => loop cmp r

/-- The loop of `qs1`. -/
def forLoop : (left : Nat) → Point → Regs → Option Regs
  | 0, _, _ => none
  | left + 1, p, r =>
    match body cmp p r with
    | none => none
    | some (.done r) => some r
    | some (.go p r) => forLoop left p r

/-- `qs1`, with `goto start` as a call. -/
def qs1 : (depth a l : Nat) → Block → Option Block
  | 0, _, _, _ => none
  | depth + 1, a, l, b =>
    if l - a ≤ es then some b
    else
      let n := es * ((l - a) / (2 * es))
      (forLoop cmp ((l - a) / es) .lower ⟨b, a, l - es, a + n, a + n⟩).bind fun r =>
        if r.lp - a ≥ l - r.hp then (qs1 depth (r.hp + es) l r.b).bind fun b => qs1 depth a r.lp b
        else (qs1 depth a r.lp r.b).bind fun b => qs1 depth (r.hp + es) l b

/-- `qsort`; the product is that of 32-bit values. The array is all of the memory that may be accessed. -/
def qsort (a n : Nat) (mem : Buffer) : Option Buffer :=
  (qs1 cmp (n + 1) a (a + n * es % 4294967296) ⟨a, n * es, mem⟩).map Block.mem

end Qsort

end Xinu
