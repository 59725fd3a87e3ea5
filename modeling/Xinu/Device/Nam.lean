import Xinu.Kernel.Queue
import Xinu.Lib.Text

/-!
# The namespace

`nammap.c`, `mount.c` and `naminit.c`, with the devices of `conf.c`. The table is changed by `mount` only, which writes each string with
its terminator into the entry. A plain `char` is unsigned on this machine, so the length in `olen` is taken modulo 256. `RFILESYS` and
`LFILESYS` are the devices of the configuration. The diagnostics of `naminit` are left out.
-/

namespace Xinu

namespace Nam

def NM_PRELEN : Nat := 64
def NM_REPLLEN : Nat := 96
def NM_MAXLEN : Nat := 256
def NNAMES : Nat := 40

def NDEVS : Int := 30

/-- `isbaddev`. -/
def isbaddev (f : Int) : Prop := f < 0 ∨ f ≥ NDEVS

instance (f : Int) : Decidable (isbaddev f) := inferInstanceAs (Decidable (_ ∨ _))

/-- `struct nmentry`. -/
structure Nmentry where
  nprefix : Buffer
  nreplace : Buffer
  ndevice : Int

/-- `nametab` and `nnames`. -/
structure Names where
  nametab : Nat → Nmentry
  nnames : Nat

/-! ## Mounting -/

/-- The loop of `namlen`. -/
def namlenLoop (name : Buffer) : (left i : Nat) → Int
  | 0, _ => SYSERR
  | left + 1, i => if name i = 0 then i + 1 else namlenLoop name left (i + 1)

/-- `namlen`. -/
def namlen (name : Buffer) (maxlen : Nat) : Int := namlenLoop name maxlen 0

/-- `mount`. -/
def mount (path replace : Buffer) (device : Int) (t : Names) : Int × Names :=
  let psiz := namlen path NM_PRELEN
  let rsiz := namlen replace NM_REPLLEN
  if psiz = SYSERR ∨ rsiz = SYSERR ∨ isbaddev device ∨ t.nnames ≥ NNAMES then (SYSERR, t)
  else
    let namptr := t.nametab t.nnames
    let namptr := ⟨Buffer.copy namptr.nprefix 0 path psiz.toNat, Buffer.copy namptr.nreplace 0 replace rsiz.toNat, device⟩
    (OK, ⟨Function.update t.nametab t.nnames namptr, t.nnames + 1⟩)

/-! ## Substitution -/

/-- The loop over the characters of a prefix: its length if all of them match. A prefix has its terminator among its bytes. -/
def prefixLoop (name pptr : Buffer) : (left plen : Nat) → Option Nat
  | 0, _ => none
  | left + 1, plen =>
    if pptr plen = 0 then some plen
    else if pptr plen ≠ name plen then none
    else prefixLoop name pptr left (plen + 1)

/-- The loop over the table: the entry that matches and the length of its prefix. -/
def matchLoop (t : Names) (name : Buffer) : (left i : Nat) → Option (Nat × Nat)
  | 0, _ => none
  | left + 1, i =>
    match prefixLoop name ( Nmentry.nprefix (t.nametab i)) NM_PRELEN 0 with
    | some plen => some (i, plen)
    | none => matchLoop t name left (i + 1)

/-- `namrepl`: the device and the new name. -/
def namrepl (t : Names) (name newname : Buffer) : Int × Buffer :=
  match matchLoop t name t.nnames 0 with
  | none => (SYSERR, newname)
  | some (i, plen) =>
    let namptr := t.nametab i
    let olen := namlen name NM_MAXLEN % 256
    let rlen := namlen namptr.nreplace NM_MAXLEN - 1
    let remain := olen - plen
    if rlen + remain > NM_MAXLEN then (SYSERR, newname)
    else (namptr.ndevice, (newname.copy 0 namptr.nreplace rlen.toNat).copy rlen.toNat (fun j => name (plen + j)) remain.toNat)

/-- `namcpy`. -/
def namcpy (newname oldname : Buffer) (buflen : Nat) : Int × Buffer :=
  match Buffer.copyUpTo oldname 0 buflen 0 newname with
  | (newname, some _) => (OK, newname)
  | (newname, none) => (SYSERR, newname)

/-- The loop of `nammap`: the device and the new name. -/
def nammapLoop (t : Names) (namdev : Int) : (left : Nat) → (tmpname newname : Buffer) → Int × Buffer
  | 0, _, newname => (SYSERR, newname)
  | left + 1, tmpname, newname =>
    let (newdev, newname) := namrepl t tmpname newname
    if newdev ≠ namdev then (newdev, newname)
    else nammapLoop t namdev left (namcpy tmpname newname NM_MAXLEN).2 newname

/-- `nammap`, with the bytes that stand in `tmpname` before. -/
def nammap (t : Names) (name newname : Buffer) (namdev : Int) (tmpname : Buffer) : Int × Buffer :=
  let (copied, tmpname) := namcpy tmpname name NM_MAXLEN
  if copied = SYSERR then (SYSERR, newname) else nammapLoop t namdev t.nnames tmpname newname

/-! ## The devices -/

/-- The bytes of a string constant. -/
def chars (s : String) : List UInt8 := s.toList.map fun c => UInt8.ofNat c.toNat

/-- A string constant in memory. -/
def constant (s : String) : Buffer := fun j => (chars s).getD j 0

def NULLDEV : Int := 5
def NAMESPACE : Int := 7
def RFILESYS : Int := 10
def LFILESYS : Int := 21

/-- The names in `devtab`; a device's place is its `dvnum`. -/
def dvnames : List String :=
  ["CONSOLE", "GPIO0", "GPIO1", "GPIO2", "GPIO3", "NULLDEV", "ETHER0", "NAMESPACE", "RDISK", "RAM0", "RFILESYS", "RFILE0", "RFILE1",
    "RFILE2", "RFILE3", "RFILE4", "RFILE5", "RFILE6", "RFILE7", "RFILE8", "RFILE9", "LFILESYS", "LFILE0", "LFILE1", "LFILE2", "LFILE3",
    "LFILE4", "LFILE5", "SPI0", "SPI1"]

/-- An upper case letter becomes a lower case letter. -/
def lower (ch : UInt8) : UInt8 := if 65 ≤ ch ∧ ch ≤ 90 then ch + (97 - 65) else ch

/-- The loop of `naminit` over the characters of `devprefix`: the place of the terminator. -/
def devprefixLoop (nptr : Buffer) : (left len : Nat) → Buffer → Nat × Buffer
  | 0, len, tptr => (len, tptr)
  | left + 1, len, tptr =>
    let tptr := Function.update tptr len (nptr len)
    if nptr len = 0 then (len, tptr) else devprefixLoop nptr left (len + 1) tptr

/-- The loop of `naminit` over the characters of a device name, from the place behind the prefix on: `len` when it ends. -/
def devnameLoop (nptr : Buffer) (o : Nat) : (left j len : Nat) → Buffer → Nat × Buffer
  | 0, _, len, tptr => (len + 1, tptr)
  | left + 1, j, len, tptr =>
    let ch := lower (nptr j)
    let tptr := Function.update tptr (o + j) ch
    if ch = 0 then (len + 1, tptr) else devnameLoop nptr o left (j + 1) (len + 1) tptr

/-- The body of the loop of `naminit` over the devices. -/
def naminitDevice (dvname : Buffer) (dvnum : Int) (tmpstr : Buffer) (t : Names) : Buffer × Names :=
  let (o, tmpstr) := devprefixLoop (constant "/dev/") 6 0 tmpstr
  let (len, tmpstr) := devnameLoop dvname o (NM_MAXLEN - 1 - o) 0 o tmpstr
  if len > NM_MAXLEN then (tmpstr, t) else (tmpstr, (mount tmpstr (constant "") dvnum t).2)

/-- The loop of `naminit` over the devices. -/
def naminitLoop : List String → (i : Nat) → (tmpstr : Buffer) → Names → Names
  | [], _, _, t => t
  | dvname :: rest, i, tmpstr, t =>
    let r := naminitDevice (constant dvname) i tmpstr t
    naminitLoop rest (i + 1) r.1 r.2

/-- `naminit`, with the bytes that stand in `tmpstr` before. -/
def naminit (tmpstr : Buffer) (t : Names) : Names :=
  let t := naminitLoop dvnames 0 tmpstr { t with nnames := 0 }
  let t := (mount (constant "/dev/null") (constant "") NULLDEV t).2
  let t := (mount (constant "/remote/") (constant "remote:") RFILESYS t).2
  let t := (mount (constant "/local/") (constant "") LFILESYS t).2
  let t := (mount (constant "/dev/") (constant "") SYSERR t).2
  let t := (mount (constant "~/") (constant "") LFILESYS t).2
  let t := (mount (constant "/") (constant "root:") RFILESYS t).2
  (mount (constant "") (constant "") LFILESYS t).2

/-! ## Lengths -/

section Lengths

variable {name : Buffer} {maxlen : Nat} {s : List UInt8}

theorem namlenLoop_text {left i : Nat} (h : name.IsText i s) :
    namlenLoop name left i = if s.length < left then (i + s.length + 1 : Int) else SYSERR := by
  induction left generalizing i s with
  | zero => rfl
  | succ left ih =>
    unfold namlenLoop
    cases s with
    | nil =>
      rw [if_pos (Buffer.isText_nil.mp h), List.length_nil, if_pos (Nat.zero_lt_succ left)]
      simp
    | cons c s =>
      obtain ⟨hc, hread, h⟩ := Buffer.isText_cons.mp h
      rw [hread, if_neg hc, ih h, List.length_cons]
      by_cases hlt : s.length < left
      · rw [if_pos hlt, if_pos (Nat.succ_lt_succ hlt)]
        push_cast
        omega
      · rw [if_neg hlt, if_neg fun hlt' => hlt (Nat.lt_of_succ_lt_succ hlt')]

/-- The length of a string with its terminator, if there is room for it. -/
theorem namlen_text (h : name.IsText 0 s) : namlen name maxlen = if s.length < maxlen then (s.length + 1 : Int) else SYSERR := by
  rw [namlen, namlenLoop_text h]
  simp

/-- A length is that of a string. -/
theorem text_of_namlenLoop {left i : Nat} (h : namlenLoop name left i ≠ SYSERR) : ∃ s, name.IsText i s ∧ s.length < left := by
  induction left generalizing i with
  | zero => exact absurd rfl h
  | succ left ih =>
    unfold namlenLoop at h
    by_cases h0 : name i = 0
    · exact ⟨[], Buffer.isText_nil.mpr h0, Nat.succ_pos left⟩
    · rw [if_neg h0] at h
      obtain ⟨s, hs, hlen⟩ := ih h
      exact ⟨name i :: s, Buffer.isText_cons.mpr ⟨h0, rfl, hs⟩, Nat.succ_lt_succ hlen⟩

end Lengths

end Nam

end Xinu
