import Mathlib.Algebra.GroupWithZero.Nat
import Mathlib.Algebra.Ring.Int.Defs
import Mathlib.Logic.Function.Basic
import Mathlib.Tactic.Common

/-!
# The configuration generator

`config.y`. A Configuration file is its parse: the types with their `on` sections, and the devices. The semantic actions run in
the order in which the parser reduces; `none` is `exit`. The functions of an entry, one field each in the source, are one table
here, indexed by the token that sets them.
-/

namespace Xinu

namespace Config

def MAXNAME : Nat := 16
def NDEVS : Nat := 250
def NTYPES : Nat := 250

/-- The flags that take a function. -/
inductive Driver where
  | INTR
  | OPEN
  | CLOSE
  | INIT
  | GETC
  | PUTC
  | READ
  | WRITE
  | SEEK
  | CONTROL
deriving DecidableEq, Repr

/-- The flags that take a number. -/
inductive Hardware where
  | CSR
  | IRQ
deriving DecidableEq, Repr

/-! ## The file -/

/-- `[0-9a-fA-F]`. -/
def isHexDigit (c : Char) : Bool := ('0' ≤ c ∧ c ≤ '9') ∨ ('a' ≤ c ∧ c ≤ 'f') ∨ ('A' ≤ c ∧ c ≤ 'F')

/-- The patterns `OCT`, `DEC` and `HEX` of the scanner. -/
def isInteger : List Char → Bool
  | '0' :: 'x' :: ds => !ds.isEmpty && ds.all isHexDigit
  | '0' :: ds => ds.all fun c => '0' ≤ c ∧ c ≤ '7'
  | c :: ds => (c :: ds).all fun c => '0' ≤ c ∧ c ≤ '9'
  | [] => false

/-- The text of an `INTEGER` token. -/
structure Integer where
  yytext : List Char
  valid : isInteger yytext = true
deriving DecidableEq

/-- `attr`. -/
inductive Attr where
  | number (tok : Hardware) (n : Integer)
  | id (tok : Driver) (ident : String)
deriving DecidableEq

/-- `theader attr_list`. -/
structure Section where
  on : String
  attrs : List Attr
deriving DecidableEq

/-- `devtype`: a name and one section or more. -/
structure TypeDecl where
  tname : String
  first : Section
  others : List Section
deriving DecidableEq

/-- `dev_tlist`. -/
def TypeDecl.sections (t : TypeDecl) : List Section := t.first :: t.others

/-- `device`. -/
structure DeviceDecl where
  dname : String
  is : String
  on : String
  attrs : List Attr
deriving DecidableEq

/-- `configuration`. -/
structure Configuration where
  devtypes : List TypeDecl
  devices : List DeviceDecl
deriving DecidableEq

/-! ## The tables -/

/-- `struct dev_ent`. -/
structure DevEnt where
  name : String
  tname : String
  ison : String
  csr : Int
  irq : Int
  driver : Driver → String
  minor : Nat

/-- The variables of the program. -/
structure Gen where
  dtypes : List DevEnt
  devs : List DevEnt
  saveattrid : String
  brkcount : Nat

/-- What `bzero` leaves of an entry. -/
def DevEnt.zero : DevEnt := ⟨"", "", "", 0, 0, fun _ => "", 0⟩

/-- The variables at the start. -/
def Gen.init : Gen := ⟨[], [], "", 0⟩

/-- An `int`. -/
def int (x : Int) : Int := x.bmod (2 ^ 32)

/-- What a character adds in `config_atoi`. -/
def atoiDigit (c : Char) : Int :=
  if '0' ≤ c ∧ c ≤ '9' then (c.toNat : Int) - '0'.toNat
  else if 'A' ≤ c ∧ c ≤ 'Z' then (c.toNat : Int) - 'A'.toNat + 10
  else (c.toNat : Int) - 'a'.toNat + 10

/-- The loop of `config_atoi`. -/
def atoiLoop (base : Int) (rv : Int) : List Char → Int
  | [] => rv
  | c :: p => atoiLoop base (int (int (rv * base) + atoiDigit c)) p

/-- `config_atoi`. -/
def configAtoi : List Char → Int
  | '0' :: c :: p => if c = 'x' ∨ c = 'X' then atoiLoop 16 0 p else atoiLoop 8 0 (c :: p)
  | '0' :: [] => atoiLoop 8 0 []
  | p => atoiLoop 10 0 p

/-- `getattrid`. -/
def getattrid (str : String) (g : Gen) : Option Gen :=
  if str.length ≥ MAXNAME then none else some { g with saveattrid := str }

/-- The assignment of `addattr`. -/
def DevEnt.assign (saveattrid : String) (tok : Hardware ⊕ Driver) (val : Int) (s : DevEnt) : DevEnt :=
  match tok with
  | .inl .CSR => { s with csr := val }
  | .inl .IRQ => { s with irq := val }
  | .inr k => { s with driver := Function.update s.driver k saveattrid }

/-- `addattr`: the last type is changed in the first part of the file, the last device in the second. -/
def addattr (tok : Hardware ⊕ Driver) (val : Int) (g : Gen) : Gen :=
  if g.brkcount = 0 then
    { g with dtypes := g.dtypes.modify (g.dtypes.length - 1) (DevEnt.assign g.saveattrid tok val) }
  else { g with devs := g.devs.modify (g.devs.length - 1) (DevEnt.assign g.saveattrid tok val) }

/-- `addton`. -/
def addton (tonid : String) (g : Gen) : Option Gen :=
  if tonid.length ≥ MAXNAME then none
  else some { g with dtypes := g.dtypes.modify (g.dtypes.length - 1) fun t => { t with ison := tonid } }

/-- `newtype`. -/
def newtype (name : String) (g : Gen) : Option Gen :=
  if g.dtypes.length ≥ NTYPES then none
  else if name.length ≥ MAXNAME then none
  else if g.dtypes.any (fun t => t.tname = name) then none
  else some { g with dtypes := g.dtypes ++ [{ DevEnt.zero with tname := name, driver := fun _ => "ioerr" }] }

/-- `newdev`. -/
def newdev (name : String) (g : Gen) : Option Gen :=
  if g.devs.length ≥ NDEVS then none
  else if name.length ≥ MAXNAME then none
  else if g.devs.any (fun d => d.name = name) then none
  else some { g with devs := g.devs ++ [{ DevEnt.zero with name := name }] }

/-- `devisid`. -/
def devisid (tname : String) (g : Gen) : Option Gen :=
  if tname.length ≥ MAXNAME then none
  else if g.dtypes.any (fun t => t.tname = tname) then
    some { g with devs := g.devs.modify (g.devs.length - 1) fun d => { d with tname := tname } }
  else none

/-- `devonid`: the entry of the type becomes the entry of the device, all but the name. -/
def devonid (onname : String) (g : Gen) : Option Gen :=
  if onname.length ≥ MAXNAME then none
  else
    match g.devs.getLast? with
    | none => none
    | some dptr =>
      match g.dtypes.findIdx? (fun t => dptr.tname = t.tname ∧ onname = t.ison) with
      | none => none
      | some i =>
        match g.dtypes[i]? with
        | none => none
        | some tptr =>
          some { g with
            devs := g.devs.modify (g.devs.length - 1) fun d => { tptr with name := d.name }
            dtypes := g.dtypes.modify i fun t => { t with minor := t.minor + 1 } }

/-! ## The parse -/

/-- The actions of an attribute. -/
def attr (g : Gen) : Attr → Option Gen
  | .number tok n => some (addattr (.inl tok) (configAtoi n.yytext) g)
  | .id tok ident => (getattrid ident g).map (addattr (.inr tok) 0)

/-- The actions of an `on` section. -/
def onSection (g : Gen) (s : Section) : Option Gen := do
  let g ← addton s.on g
  s.attrs.foldlM attr g

/-- The actions of a type. -/
def devtype (g : Gen) (t : TypeDecl) : Option Gen := do
  let g ← newtype t.tname g
  t.sections.foldlM onSection g

/-- The actions of a device. -/
def device (g : Gen) (d : DeviceDecl) : Option Gen := do
  let g ← newdev d.dname g
  let g ← devisid d.is g
  let g ← devonid d.on g
  d.attrs.foldlM attr g

/-- `yyparse`: the scanner counts the separator. -/
def yyparse (f : Configuration) : Option Gen := do
  let g ← f.devtypes.foldlM devtype Gen.init
  f.devices.foldlM device { g with brkcount := g.brkcount + 1 }

/-! ## The output -/

/-- `struct dentry`, with the values that `conf.c` has. -/
structure Dentry where
  dvnum : Nat
  dvminor : Nat
  dvname : String
  dvinit : String
  dvopen : String
  dvclose : String
  dvread : String
  dvwrite : String
  dvseek : String
  dvgetc : String
  dvputc : String
  dvcntl : String
  dvcsr : Nat
  dvintr : String
  dvirq : Int
deriving DecidableEq, Repr

/-- The two files: the entries of `devtab`, the numbers of the devices and the counts of the types. -/
structure Output where
  devtab : List Dentry
  devices : List (String × Nat)
  counts : List (String × Nat)
deriving DecidableEq, Repr

/-- The `i`-th entry of `devtab`; the format of `csr` is `%x`. -/
def dentry (i : Nat) (s : DevEnt) : Dentry where
  dvnum := i
  dvminor := s.minor
  dvname := s.name
  dvinit := s.driver .INIT
  dvopen := s.driver .OPEN
  dvclose := s.driver .CLOSE
  dvread := s.driver .READ
  dvwrite := s.driver .WRITE
  dvseek := s.driver .SEEK
  dvgetc := s.driver .GETC
  dvputc := s.driver .PUTC
  dvcntl := s.driver .CONTROL
  dvcsr := (s.csr % 2 ^ 32).toNat
  dvintr := s.driver .INTR
  dvirq := s.irq

/-- What `main` writes behind the parse. -/
def Gen.output (g : Gen) : Output where
  devtab := g.devs.mapIdx dentry
  devices := g.devs.mapIdx fun i s => (s.name, i)
  counts := (g.dtypes.filter fun s => s.minor > 0).map fun s => (s.tname, s.minor)

/-- `main`. -/
def config (f : Configuration) : Option Output := (yyparse f).map Gen.output

end Config

end Xinu
