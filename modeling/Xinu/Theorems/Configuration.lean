import Mathlib.Data.Nat.Digits.Defs
import Xinu.Lib.Guard
import Xinu.Config.Generator

/-!
# What a Configuration file says

The values of a device are those of its own declaration and of the section of its type for its hardware. The generator keeps one
entry for a type with all its sections, so it gives these values exactly when the last section is the one for the hardware of the
device and no other section has a say in what the device inherits.
-/

namespace Xinu

namespace Config

/-! ## The meaning of a file -/

/-- The value of a digit. -/
def digitValue (c : Char) : Nat :=
  if '0' ≤ c ∧ c ≤ '9' then c.toNat - '0'.toNat
  else if 'a' ≤ c ∧ c ≤ 'f' then c.toNat - 'a'.toNat + 10
  else c.toNat - 'A'.toNat + 10

/-- The value of a row of digits. -/
def numeral (base : Nat) (ds : List Char) : Nat := Nat.ofDigits base (ds.reverse.map digitValue)

/-- The value of an octal, decimal or hexadecimal number. -/
def valueOf : List Char → Nat
  | '0' :: 'x' :: ds => numeral 16 ds
  | '0' :: ds => numeral 8 ds
  | ds => numeral 10 ds

/-- The value of a token. -/
def Integer.value (n : Integer) : Nat := valueOf n.yytext

/-- The function that an attribute gives to a flag. -/
def Attr.ident? (k : Driver) : Attr → Option String
  | .number _ _ => none
  | .id tok ident => if tok = k then some ident else none

/-- The number that an attribute gives to a flag. -/
def Attr.value? (k : Hardware) : Attr → Option Nat
  | .number tok n => if tok = k then some n.value else none
  | .id _ _ => none

/-- The last of a list that gives a value. -/
def lastOf {α β : Type} (get : α → Option β) (l : List α) : Option β := l.reverse.findSome? get

/-- The function that a list of attributes gives to a flag, or the default. -/
def driverOf (k : Driver) (attrs : List Attr) : String := (lastOf (Attr.ident? k) attrs).getD "ioerr"

/-- The number that a list of attributes gives to a flag, or the default. -/
def numberOf (k : Hardware) (attrs : List Attr) : Nat := (lastOf (Attr.value? k) attrs).getD 0

/-- The attributes of all sections of a type. -/
def TypeDecl.attrs (t : TypeDecl) : List Attr := t.sections.flatMap Section.attrs

/-- The attributes of a type on some hardware. -/
def TypeDecl.attrsOn (t : TypeDecl) (hw : String) : List Attr := (t.sections.filter fun s => s.on = hw).flatMap Section.attrs

/-- The hardware of the last section of a type. -/
def TypeDecl.lastOn (t : TypeDecl) : String := (t.sections.foldl (fun _ s => s.on) "")

variable (f : Configuration)

/-- The types of a name; there is one in an accepted file. -/
def Configuration.typesOf (name : String) : List TypeDecl := f.devtypes.filter fun t => t.tname = name

/-- What is declared for a device: by its type for its hardware, then by itself. -/
def Configuration.declared (d : DeviceDecl) : List Attr := (f.typesOf d.is).flatMap (fun t => t.attrsOn d.on) ++ d.attrs

/-- What any section of its type declares, and the device. -/
def Configuration.inherited (d : DeviceDecl) : List Attr := (f.typesOf d.is).flatMap TypeDecl.attrs ++ d.attrs

/-- An entry of `devtab` with the values of a list of attributes. -/
def entryOf (i minor : Nat) (d : DeviceDecl) (attrs : List Attr) : Dentry where
  dvnum := i
  dvminor := minor
  dvname := d.dname
  dvinit := driverOf .INIT attrs
  dvopen := driverOf .OPEN attrs
  dvclose := driverOf .CLOSE attrs
  dvread := driverOf .READ attrs
  dvwrite := driverOf .WRITE attrs
  dvseek := driverOf .SEEK attrs
  dvgetc := driverOf .GETC attrs
  dvputc := driverOf .PUTC attrs
  dvcntl := driverOf .CONTROL attrs
  dvcsr := numberOf .CSR attrs
  dvintr := driverOf .INTR attrs
  dvirq := numberOf .IRQ attrs

/-- The output that a file calls for: device `i` gets number `i` and, as minor number, how many devices of its type come before
it; the count of a type is the number of its devices. -/
def Configuration.expected : Output where
  devtab := f.devices.mapIdx fun i d => entryOf i ((f.devices.take i).countP fun e => e.is = d.is) d (f.declared d)
  devices := f.devices.mapIdx fun i d => (d.dname, i)
  counts := (f.devtypes.map fun t => (t.tname, f.devices.countP fun d => d.is = t.tname)).filter fun c => c.2 > 0

/-- The names of an attribute fit. -/
def Attr.Short : Attr → Prop
  | .number _ _ => True
  | .id _ ident => ident.length < MAXNAME

/-- The names of a section fit. -/
def Section.Short (s : Section) : Prop := s.on.length < MAXNAME ∧ ∀ a ∈ s.attrs, a.Short

/-- The names of a type fit. -/
def TypeDecl.Short (t : TypeDecl) : Prop := t.tname.length < MAXNAME ∧ ∀ s ∈ t.sections, s.Short

/-- The names of a device fit. -/
def DeviceDecl.Short (d : DeviceDecl) : Prop := d.dname.length < MAXNAME ∧ ∀ a ∈ d.attrs, a.Short

/-- The file is within the limits of the generator, its names are different, and every device is of a type that is declared on
the hardware of the device. -/
structure Configuration.Accepted : Prop where
  ntypes : f.devtypes.length ≤ NTYPES
  ndevs : f.devices.length ≤ NDEVS
  types : (f.devtypes.map TypeDecl.tname).Nodup
  devices : (f.devices.map DeviceDecl.dname).Nodup
  typesShort : ∀ t ∈ f.devtypes, t.Short
  devicesShort : ∀ d ∈ f.devices, d.Short
  declared : ∀ d ∈ f.devices, ∃ t ∈ f.devtypes, t.tname = d.is ∧ ∃ s ∈ t.sections, s.on = d.on

instance : DecidablePred Attr.Short := fun a => by
  cases a <;> unfold Attr.Short <;> infer_instance

instance : DecidablePred Section.Short := fun s => by
  unfold Section.Short
  infer_instance

instance : DecidablePred TypeDecl.Short := fun t => by
  unfold TypeDecl.Short
  infer_instance

instance : DecidablePred DeviceDecl.Short := fun d => by
  unfold DeviceDecl.Short
  infer_instance

instance : DecidablePred Configuration.Accepted := fun f =>
  decidable_of_iff (f.devtypes.length ≤ NTYPES ∧ f.devices.length ≤ NDEVS ∧ (f.devtypes.map TypeDecl.tname).Nodup ∧
    (f.devices.map DeviceDecl.dname).Nodup ∧ (∀ t ∈ f.devtypes, t.Short) ∧ (∀ d ∈ f.devices, d.Short) ∧
    ∀ d ∈ f.devices, ∃ t ∈ f.devtypes, t.tname = d.is ∧ ∃ s ∈ t.sections, s.on = d.on)
    ⟨fun ⟨h1, h2, h3, h4, h5, h6, h7⟩ => ⟨h1, h2, h3, h4, h5, h6, h7⟩,
      fun ⟨h1, h2, h3, h4, h5, h6, h7⟩ => ⟨h1, h2, h3, h4, h5, h6, h7⟩⟩

/-- What the generator is for. -/
def Configuration.meaning : Option Output := if f.Accepted then some f.expected else none

/-- The sections of a type do not mix at a device: the last section of the type is on the hardware of the device, what the device
inherits from any section is what it is declared to have, and the numbers fit. -/
structure Configuration.Unmixed (d : DeviceDecl) : Prop where
  last : ∀ t ∈ f.typesOf d.is, t.lastOn = d.on
  driver : ∀ k, driverOf k (f.inherited d) = driverOf k (f.declared d)
  csr : numberOf .CSR (f.inherited d) % 2 ^ 32 = numberOf .CSR (f.declared d)
  irq : int (numberOf .IRQ (f.inherited d)) = numberOf .IRQ (f.declared d)

/-! ## Numbers -/

/-- A row of digits with one in front. -/
theorem numeral_cons (base : Nat) (c : Char) (ds : List Char) :
    numeral base (c :: ds) = digitValue c * base ^ ds.length + numeral base ds := by
  unfold numeral
  rw [List.reverse_cons, List.map_append, List.map_singleton, Nat.ofDigits_append, Nat.ofDigits_singleton]
  simp
  ring

/-- On digits `config_atoi` adds their value. -/
theorem atoiDigit_eq {c : Char} (h : isHexDigit c = true) : atoiDigit c = digitValue c := by
  have hle : ∀ a b : Char, a ≤ b ↔ a.toNat ≤ b.toNat := fun _ _ => Iff.rfl
  have h0 : '0'.toNat = 48 := rfl
  have h9 : '9'.toNat = 57 := rfl
  have hA : 'A'.toNat = 65 := rfl
  have hF : 'F'.toNat = 70 := rfl
  have hZ : 'Z'.toNat = 90 := rfl
  have ha : 'a'.toNat = 97 := rfl
  have hf : 'f'.toNat = 102 := rfl
  simp only [isHexDigit, hle, h0, h9, hA, hF, ha, hf, decide_eq_true_eq] at h
  simp only [atoiDigit, digitValue, hle, h0, h9, hA, hZ, ha, hf]
  split_ifs <;> omega

/-- The loop of `config_atoi`. -/
theorem atoiLoop_eq (base : Nat) (ds : List Char) : ∀ rv : Int, (∀ c ∈ ds, isHexDigit c = true) →
    atoiLoop base (int rv) ds = int (rv * base ^ ds.length + numeral base ds) := by
  induction ds with
  | nil => simp [atoiLoop, numeral]
  | cons c ds ih =>
    intro rv h
    have hstep : int (int (int rv * base) + atoiDigit c) = int (rv * base + digitValue c) := by
      rw [atoiDigit_eq (h c List.mem_cons_self)]
      simp only [int, Int.bmod_add_bmod, Int.bmod_mul_bmod]
    rw [atoiLoop, hstep, ih _ fun c hc => h c (List.mem_cons_of_mem _ hc), numeral_cons]
    congr 1
    push_cast
    rw [List.length_cons]
    ring

/-- A decimal digit is a hexadecimal digit. -/
theorem isHexDigit_of_decimal {c : Char} (h : '0' ≤ c ∧ c ≤ '9') : isHexDigit c = true := by simp [isHexDigit, h]

/-- An octal digit is a hexadecimal digit. -/
theorem isHexDigit_of_octal {c : Char} (h : '0' ≤ c ∧ c ≤ '7') : isHexDigit c = true :=
  isHexDigit_of_decimal ⟨h.1, Char.le_trans h.2 (by decide)⟩

/-- The base of a number that does not begin with 0 is 10. -/
theorem configAtoi_decimal {c : Char} (hc : c ≠ '0') (ds : List Char) : configAtoi (c :: ds) = atoiLoop 10 0 (c :: ds) := by
  unfold configAtoi
  split
  · rename_i e
    exact absurd (List.cons.inj e).1 hc
  · rename_i e
    exact absurd (List.cons.inj e).1 hc
  · rfl

theorem valueOf_decimal {c : Char} (hc : c ≠ '0') (ds : List Char) : valueOf (c :: ds) = numeral 10 (c :: ds) := by
  unfold valueOf
  split
  · rename_i e
    exact absurd (List.cons.inj e).1 hc
  · rename_i e
    exact absurd (List.cons.inj e).1 hc
  · rfl

/-- `config_atoi` computes the value of a number, in an `int`. -/
theorem configAtoi_eq (n : Integer) : configAtoi n.yytext = int n.value := by
  have hloop : ∀ base ds, (∀ c ∈ ds, isHexDigit c = true) → atoiLoop (base : Nat) 0 ds = int (numeral base ds) := by
    intro base ds hds
    simpa [int] using atoiLoop_eq base ds 0 hds
  obtain ⟨t, ht⟩ := n
  unfold Integer.value
  fun_cases isInteger t with
  | case1 ds =>
    simp only [isInteger, Bool.and_eq_true, List.all_eq_true] at ht
    simpa [configAtoi, valueOf] using hloop 16 ds ht.2
  | case2 ds hx =>
    have hds := ht
    simp only [isInteger, List.all_eq_true, decide_eq_true_eq] at hds
    cases ds with
    | nil => exact hloop 8 [] (by simp)
    | cons c p =>
      have hcx : c ≠ 'x' := fun e => hx p (by rw [e])
      have hcX : c ≠ 'X' := by
        rintro rfl
        exact absurd (hds 'X' List.mem_cons_self) (by decide)
      simp only [configAtoi, valueOf, hcx, hcX, or_self, if_false]
      exact hloop 8 _ fun c hc => isHexDigit_of_octal (hds c hc)
  | case3 c ds h0 hx =>
    have hds := ht
    simp only [isInteger, List.all_eq_true, decide_eq_true_eq] at hds
    rw [configAtoi_decimal hx, valueOf_decimal hx]
    exact hloop 10 _ fun c hc => isHexDigit_of_decimal (hds c hc)
  | case4 => simp [isInteger] at ht

/-! ## Attributes -/

/-- The last that gives a value is in the second list, if it is there at all. -/
theorem lastOf_append {α β : Type} (get : α → Option β) (l l' : List α) :
    lastOf get (l ++ l') = (lastOf get l').or (lastOf get l) := by
  simp [lastOf, List.findSome?_append]

/-- An attribute more. -/
theorem driverOf_snoc (k : Driver) (attrs : List Attr) (a : Attr) :
    driverOf k (attrs ++ [a]) = (a.ident? k).getD (driverOf k attrs) := by
  rw [driverOf, lastOf_append]
  cases h : a.ident? k <;> simp [lastOf, driverOf, h]

/-- An attribute more. -/
theorem numberOf_snoc (k : Hardware) (attrs : List Attr) (a : Attr) :
    numberOf k (attrs ++ [a]) = (a.value? k).getD (numberOf k attrs) := by
  rw [numberOf, lastOf_append]
  cases h : a.value? k <;> simp [lastOf, numberOf, h]

/-- The entry that has got a list of attributes. -/
def DevEnt.ofAttrs (name tname ison : String) (attrs : List Attr) (minor : Nat) : DevEnt where
  name := name
  tname := tname
  ison := ison
  csr := int (numberOf .CSR attrs)
  irq := int (numberOf .IRQ attrs)
  driver := fun k => driverOf k attrs
  minor := minor

/-- `addattr` adds a number to what an entry has got. -/
theorem assign_number (tok : Hardware) (n : Integer) (save name tname ison : String) (attrs : List Attr) (minor : Nat) :
    (DevEnt.ofAttrs name tname ison attrs minor).assign save (.inl tok) (configAtoi n.yytext) =
      DevEnt.ofAttrs name tname ison (attrs ++ [.number tok n]) minor := by
  cases tok <;> simp [DevEnt.assign, DevEnt.ofAttrs, numberOf_snoc, driverOf_snoc, Attr.value?, Attr.ident?, configAtoi_eq]

/-- `addattr` adds a function to what an entry has got. -/
theorem assign_ident (tok : Driver) (ident name tname ison : String) (attrs : List Attr) (minor : Nat) :
    (DevEnt.ofAttrs name tname ison attrs minor).assign ident (.inr tok) 0 =
      DevEnt.ofAttrs name tname ison (attrs ++ [.id tok ident]) minor := by
  have hdriver : Function.update (fun k => driverOf k attrs) tok ident = fun k => driverOf k (attrs ++ [.id tok ident]) := by
    funext k
    rw [driverOf_snoc]
    by_cases hk : k = tok
    · simp [Attr.ident?, hk]
    · simp [Attr.ident?, hk, Ne.symm hk]
  simp [DevEnt.assign, DevEnt.ofAttrs, numberOf_snoc, Attr.value?, hdriver]

/-- The last entry of a table is changed. -/
theorem modify_last {α : Type} (l : List α) (a : α) (g : α → α) :
    (l ++ [a]).modify ((l ++ [a]).length - 1) g = l ++ [g a] := by
  rw [List.modify_eq_take_cons_drop (by simp)]
  simp

/-- The variables while the last type is getting its attributes. -/
def Gen.typing (l : List DevEnt) (e : DevEnt) (s : String) : Gen := ⟨l ++ [e], [], s, 0⟩

/-- The variables while the last device is getting its attributes. -/
def Gen.making (dtypes l : List DevEnt) (e : DevEnt) (s : String) : Gen := ⟨dtypes, l ++ [e], s, 1⟩

/-- A name that is saved when it fits. -/
theorem guards_getattrid {ident : String} {g : Gen} {put : String → Gen} {k : Gen → Gen} (s : String)
    (hk : k { g with saveattrid := ident } = put s) :
    Guards ((getattrid ident g).map k) (ident.length < MAXNAME) put := by
  unfold getattrid
  constructor
  · intro h
    exact ⟨s, by rw [if_neg (by omega), Option.map_some, hk]⟩
  · intro h
    rw [if_pos (by omega), Option.map_none]

/-- The actions of an attribute of a type. -/
theorem attr_typing (l : List DevEnt) (name tname ison : String) (attrs : List Attr) (minor : Nat) (s : String) (a : Attr) :
    Guards (attr (Gen.typing l (DevEnt.ofAttrs name tname ison attrs minor) s) a) a.Short
      (Gen.typing l (DevEnt.ofAttrs name tname ison (attrs ++ [a]) minor)) := by
  cases a with
  | number tok n =>
    refine ⟨fun _ => ⟨s, ?_⟩, fun h => absurd trivial h⟩
    simp only [attr, addattr, Gen.typing, if_true, modify_last, assign_number]
  | id tok ident =>
    refine guards_getattrid ident ?_
    simp only [addattr, Gen.typing, if_true, modify_last, assign_ident]

/-- The actions of an attribute of a device. -/
theorem attr_making (dtypes l : List DevEnt) (name tname ison : String) (attrs : List Attr) (minor : Nat) (s : String)
    (a : Attr) : Guards (attr (Gen.making dtypes l (DevEnt.ofAttrs name tname ison attrs minor) s) a) a.Short
      (Gen.making dtypes l (DevEnt.ofAttrs name tname ison (attrs ++ [a]) minor)) := by
  cases a with
  | number tok n =>
    refine ⟨fun _ => ⟨s, ?_⟩, fun h => absurd trivial h⟩
    simp only [attr, addattr, Gen.making, one_ne_zero, if_false, modify_last, assign_number]
  | id tok ident =>
    refine guards_getattrid ident ?_
    simp only [addattr, Gen.making, one_ne_zero, if_false, modify_last, assign_ident]

/-- A list that is copied element by element. -/
theorem foldl_snoc {α : Type} (l : List α) : ∀ e : List α, l.foldl (fun e a => e ++ [a]) e = e ++ l := by
  induction l with
  | nil => simp
  | cons a l ih =>
    intro e
    rw [List.foldl_cons, ih, List.append_assoc, List.singleton_append]

/-! ## Types -/

/-- The entry of a type. -/
def TypeDecl.ent (t : TypeDecl) (minor : Nat) : DevEnt := DevEnt.ofAttrs "" t.tname t.lastOn t.attrs minor

/-- The variables when some types are read. -/
def Gen.typed (ts : List TypeDecl) (s : String) : Gen := ⟨ts.map fun t => t.ent 0, [], s, 0⟩

/-- The actions of a section: the entry of the type has it on top of the sections before. -/
theorem onSection_typing (l : List DevEnt) (tname : String) (p : String × List Attr) (s : String) (sec : Section) :
    Guards (onSection (Gen.typing l (DevEnt.ofAttrs "" tname p.1 p.2 0) s) sec) sec.Short
      (Gen.typing l (DevEnt.ofAttrs "" tname sec.on (p.2 ++ sec.attrs) 0)) := by
  have hon : Guards (addton sec.on (Gen.typing l (DevEnt.ofAttrs "" tname p.1 p.2 0) s)) (sec.on.length < MAXNAME)
      (Gen.typing l (DevEnt.ofAttrs "" tname sec.on p.2 0)) := by
    constructor
    · intro h
      refine ⟨s, ?_⟩
      rw [addton, if_neg (by omega)]
      simp only [Gen.typing, modify_last, DevEnt.ofAttrs]
    · intro h
      rw [addton, if_pos (by omega)]
  have hattrs := Guards.foldlM (fun attrs => Gen.typing l (DevEnt.ofAttrs "" tname sec.on attrs 0))
    (fun attrs a => attrs ++ [a]) (fun _ a => a.Short)
    (fun attrs s a => attr_typing l "" tname sec.on attrs 0 s a) sec.attrs p.2
  simp only [passes_iff, foldl_snoc] at hattrs
  exact hon.bind fun _ => hattrs

/-- The sections of a type, one after the other. -/
theorem foldl_sections (l : List Section) : ∀ p : String × List Attr,
    l.foldl (fun p s => (s.on, p.2 ++ s.attrs)) p = (l.foldl (fun _ s => s.on) p.1, p.2 ++ l.flatMap Section.attrs) := by
  induction l with
  | nil => simp
  | cons s l ih =>
    intro p
    rw [List.foldl_cons, ih]
    simp

/-- The actions of a type: it is new, there is room, and its names fit. -/
theorem devtype_typed (ts : List TypeDecl) (s : String) (t : TypeDecl) :
    Guards (devtype (Gen.typed ts s) t) (ts.length < NTYPES ∧ t.tname ∉ ts.map TypeDecl.tname ∧ t.Short)
      (Gen.typed (ts ++ [t])) := by
  have hnew : Guards (newtype t.tname (Gen.typed ts s))
      (ts.length < NTYPES ∧ t.tname ∉ ts.map TypeDecl.tname ∧ t.tname.length < MAXNAME)
      (Gen.typing (ts.map fun t => t.ent 0) (DevEnt.ofAttrs "" t.tname "" [] 0)) := by
    have hblank : ({ DevEnt.zero with tname := t.tname, driver := fun _ => "ioerr" } : DevEnt) =
        DevEnt.ofAttrs "" t.tname "" [] 0 := rfl
    have hany : (ts.map fun t => t.ent 0).any (fun e => e.tname = t.tname) = true ↔ t.tname ∈ ts.map TypeDecl.tname := by
      simp [TypeDecl.ent, DevEnt.ofAttrs]
    unfold newtype Gen.typed
    rw [hblank, List.length_map]
    simp only [hany]
    constructor
    · rintro ⟨hroom, hfresh, hshort⟩
      refine ⟨s, ?_⟩
      rw [if_neg (by omega), if_neg (by omega), if_neg hfresh]
      rfl
    · intro h
      split_ifs with h1 h2 h3
      · rfl
      · rfl
      · rfl
      · exact absurd ⟨by omega, h3, by omega⟩ h
  have hsections := Guards.foldlM
    (fun p : String × List Attr => Gen.typing (ts.map fun t => t.ent 0) (DevEnt.ofAttrs "" t.tname p.1 p.2 0))
    (fun p s => (s.on, p.2 ++ s.attrs)) (fun _ s => s.Short)
    (fun p s sec => onSection_typing _ _ p s sec) t.sections ("", [])
  simp only [passes_iff, foldl_sections] at hsections
  have hput : (Gen.typing (ts.map fun t => t.ent 0)
      (DevEnt.ofAttrs "" t.tname (t.sections.foldl (fun _ s => s.on) "") ([] ++ t.sections.flatMap Section.attrs) 0)) =
      Gen.typed (ts ++ [t]) := by
    funext s
    simp [Gen.typing, Gen.typed, TypeDecl.ent, TypeDecl.lastOn, TypeDecl.attrs]
  rw [hput] at hsections
  refine (hnew.bind fun _ => hsections).congr ?_
  unfold TypeDecl.Short
  tauto

/-! ## Devices -/

/-- In a table with different keys there is one entry for a key. -/
theorem filter_key {α β : Type} [DecidableEq β] {key : α → β} {l : List α} (hnd : (l.map key).Nodup) {a : α}
    (ha : a ∈ l) : l.filter (fun b => key b = key a) = [a] := by
  induction l with
  | nil => exact absurd ha (by simp)
  | cons b l ih =>
    rw [List.map_cons, List.nodup_cons] at hnd
    rcases List.mem_cons.mp ha with rfl | hl
    · have hnone : l.filter (fun b => key b = key a) = [] := by
        refine List.filter_eq_nil_iff.mpr fun c hc => ?_
        have : key c ≠ key a := fun e => hnd.1 (e ▸ List.mem_map_of_mem hc)
        simpa using this
      rw [List.filter_cons_of_pos (by simp), hnone]
    · have hb : key b ≠ key a := fun e => hnd.1 (e ▸ List.mem_map_of_mem hl)
      rw [List.filter_cons_of_neg (by simpa using hb), ih hnd.2 hl]

variable {f}

/-- The entries of some devices. -/
def Configuration.entries (f : Configuration) (ds : List DeviceDecl) : List DevEnt :=
  ds.mapIdx fun i d => DevEnt.ofAttrs d.dname d.is d.on (f.inherited d) ((ds.take i).countP fun e => e.is = d.is)

/-- The entries of the types when some devices are read. -/
def Configuration.counted (f : Configuration) (ds : List DeviceDecl) : List DevEnt :=
  f.devtypes.map fun t => t.ent (ds.countP fun d => d.is = t.tname)

/-- The variables when some devices are read. -/
def Configuration.made (f : Configuration) (ds : List DeviceDecl) (s : String) : Gen := ⟨f.counted ds, f.entries ds, s, 1⟩

/-- A device more. -/
theorem entries_snoc (ds : List DeviceDecl) (d : DeviceDecl) : f.entries (ds ++ [d]) =
    f.entries ds ++ [DevEnt.ofAttrs d.dname d.is d.on (f.inherited d) (ds.countP fun e => e.is = d.is)] := by
  have hprefix : (ds.mapIdx fun i e => DevEnt.ofAttrs e.dname e.is e.on (f.inherited e)
      (((ds ++ [d]).take i).countP fun e' => e'.is = e.is)) = f.entries ds :=
    List.mapIdx_eq_mapIdx_iff.mpr fun i hi => by rw [List.take_append_of_le_length hi.le]
  rw [Configuration.entries, List.mapIdx_concat, hprefix, List.take_left']
  rfl

/-- The type of a device. -/
theorem typesOf_eq (hnd : (f.devtypes.map TypeDecl.tname).Nodup) {t : TypeDecl} (ht : t ∈ f.devtypes) :
    f.typesOf t.tname = [t] := filter_key hnd ht

/-- The next minor number of a type is counted up. -/
theorem counted_snoc (hnd : (f.devtypes.map TypeDecl.tname).Nodup) (ds : List DeviceDecl) (d : DeviceDecl) {i : Nat}
    (hi : i < f.devtypes.length) (his : f.devtypes[i].tname = d.is) :
    (f.counted ds).modify i (fun t => { t with minor := t.minor + 1 }) = f.counted (ds ++ [d]) := by
  refine List.ext_getElem (by simp [Configuration.counted]) fun j hj hj' => ?_
  have hjt : j < f.devtypes.length := by simpa [Configuration.counted] using hj'
  rw [List.getElem_modify]
  simp only [Configuration.counted, List.getElem_map, List.countP_append, List.countP_singleton]
  by_cases hij : i = j
  · subst hij
    simp [his, TypeDecl.ent, DevEnt.ofAttrs]
  · have hne : d.is ≠ f.devtypes[j].tname := by
      intro e
      have hi' : i < (f.devtypes.map TypeDecl.tname).length := by simpa using hi
      have hj' : j < (f.devtypes.map TypeDecl.tname).length := by simpa using hjt
      have heq : (f.devtypes.map TypeDecl.tname)[i] = (f.devtypes.map TypeDecl.tname)[j] := by simp [his, e]
      exact hij (hnd.getElem_inj_iff.mp heq)
    simp [hij, hne]

/-- `newdev` starts an entry. -/
theorem newdev_made (ds : List DeviceDecl) (s : String) (d : DeviceDecl) :
    Guards (newdev d.dname (f.made ds s))
      (ds.length < NDEVS ∧ d.dname ∉ ds.map DeviceDecl.dname ∧ d.dname.length < MAXNAME)
      (Gen.making (f.counted ds) (f.entries ds) { DevEnt.zero with name := d.dname }) := by
  have hany : (f.entries ds).any (fun e => e.name = d.dname) = true ↔ d.dname ∈ ds.map DeviceDecl.dname := by
    simp only [List.any_eq_true, List.mem_map, decide_eq_true_eq, Configuration.entries, List.mem_mapIdx]
    constructor
    · rintro ⟨e, ⟨i, hi, rfl⟩, he⟩
      exact ⟨ds[i], List.getElem_mem hi, he⟩
    · rintro ⟨e, he, hname⟩
      obtain ⟨i, hi, rfl⟩ := List.getElem_of_mem he
      exact ⟨_, ⟨i, hi, rfl⟩, hname⟩
  have hlen : (f.entries ds).length = ds.length := by simp [Configuration.entries]
  unfold newdev Configuration.made
  simp only [hany, hlen]
  constructor
  · rintro ⟨hroom, hfresh, hshort⟩
    refine ⟨s, ?_⟩
    rw [if_neg (by omega), if_neg (by omega), if_neg hfresh]
    rfl
  · intro h
    split_ifs with h1 h2 h3
    · rfl
    · rfl
    · rfl
    · exact absurd ⟨by omega, h3, by omega⟩ h

/-- `devisid` asks for a type of that name. -/
theorem devisid_making (ds : List DeviceDecl) (l : List DevEnt) (e : DevEnt) (tname s : String) :
    Guards (devisid tname (Gen.making (f.counted ds) l e s)) (tname.length < MAXNAME ∧ ∃ t ∈ f.devtypes, t.tname = tname)
      (Gen.making (f.counted ds) l { e with tname := tname }) := by
  have hany : (f.counted ds).any (fun t => t.tname = tname) = true ↔ ∃ t ∈ f.devtypes, t.tname = tname := by
    simp [Configuration.counted, TypeDecl.ent, DevEnt.ofAttrs]
  unfold devisid Gen.making
  simp only [hany, modify_last]
  constructor
  · rintro ⟨hshort, hsome⟩
    exact ⟨s, by rw [if_neg (by omega), if_pos hsome]⟩
  · intro h
    split_ifs with h1 h2
    · rfl
    · exact absurd ⟨by omega, h2⟩ h
    · rfl

/-- `devonid` copies the entry of the type, if its last section is on the hardware of the device. -/
theorem devonid_making (hnd : (f.devtypes.map TypeDecl.tname).Nodup) (ds : List DeviceDecl) (d : DeviceDecl) (l : List DevEnt)
    (s : String) :
    Guards (devonid d.on (Gen.making (f.counted ds) l { DevEnt.zero with name := d.dname, tname := d.is } s))
      (d.on.length < MAXNAME ∧ ∃ t ∈ f.devtypes, t.tname = d.is ∧ t.lastOn = d.on)
      (Gen.making (f.counted (ds ++ [d])) l (DevEnt.ofAttrs d.dname d.is d.on ((f.typesOf d.is).flatMap TypeDecl.attrs)
        (ds.countP fun e => e.is = d.is))) := by
  unfold devonid Gen.making
  simp only [List.getLast?_concat, modify_last]
  constructor
  · rintro ⟨hshort, t, ht, hname, hon⟩
    refine ⟨s, ?_⟩
    rw [if_neg (by omega)]
    cases hfind : (f.counted ds).findIdx? (fun t => d.is = t.tname ∧ d.on = t.ison) with
    | none =>
      rw [List.findIdx?_eq_none_iff] at hfind
      have := hfind (t.ent (ds.countP fun d => d.is = t.tname)) (List.mem_map_of_mem ht)
      simp [TypeDecl.ent, DevEnt.ofAttrs, hname, hon] at this
    | some i =>
      obtain ⟨hi, hp, -⟩ := List.findIdx?_eq_some_iff_getElem.mp hfind
      have hit : i < f.devtypes.length := by simpa [Configuration.counted] using hi
      have hget : (f.counted ds)[i]? = some (f.devtypes[i].ent (ds.countP fun d => d.is = f.devtypes[i].tname)) := by
        simp [Configuration.counted, hit]
      simp only [Configuration.counted, List.getElem_map, TypeDecl.ent, DevEnt.ofAttrs, decide_eq_true_eq] at hp
      have hof : f.typesOf d.is = [f.devtypes[i]] := hp.1 ▸ typesOf_eq hnd (List.getElem_mem hit)
      simp only [hget]
      rw [counted_snoc hnd ds d hit hp.1.symm, hof]
      simp [TypeDecl.ent, DevEnt.ofAttrs, hp.1, hp.2]
  · intro h
    by_cases hshort : d.on.length < MAXNAME
    · have hfind : (f.counted ds).findIdx? (fun t => d.is = t.tname ∧ d.on = t.ison) = none := by
        rw [List.findIdx?_eq_none_iff]
        intro e he
        obtain ⟨t, ht, rfl⟩ := List.mem_map.mp he
        have : ¬(t.tname = d.is ∧ t.lastOn = d.on) := fun hn => h ⟨hshort, t, ht, hn⟩
        exact decide_eq_false fun hn => this ⟨hn.1.symm, hn.2.symm⟩
      rw [if_neg (by omega)]
      simp only [hfind]
    · rw [if_pos (by omega)]

/-- What the generator asks of a device. -/
def Configuration.Made (f : Configuration) (d : DeviceDecl) : Prop :=
  d.Short ∧ d.is.length < MAXNAME ∧ d.on.length < MAXNAME ∧ ∃ t ∈ f.devtypes, t.tname = d.is ∧ t.lastOn = d.on

/-- The actions of a device. -/
theorem device_made (hnd : (f.devtypes.map TypeDecl.tname).Nodup) (ds : List DeviceDecl) (s : String) (d : DeviceDecl) :
    Guards (device (f.made ds s) d) (ds.length < NDEVS ∧ d.dname ∉ ds.map DeviceDecl.dname ∧ f.Made d)
      (f.made (ds ++ [d])) := by
  have hattrs := Guards.foldlM
    (fun attrs => Gen.making (f.counted (ds ++ [d])) (f.entries ds)
      (DevEnt.ofAttrs d.dname d.is d.on attrs (ds.countP fun e => e.is = d.is)))
    (fun attrs a => attrs ++ [a]) (fun _ a => a.Short)
    (fun attrs s a => attr_making _ _ d.dname d.is d.on attrs _ s a) d.attrs ((f.typesOf d.is).flatMap TypeDecl.attrs)
  simp only [passes_iff, foldl_snoc] at hattrs
  have hput : Gen.making (f.counted (ds ++ [d])) (f.entries ds) (DevEnt.ofAttrs d.dname d.is d.on
      ((f.typesOf d.is).flatMap TypeDecl.attrs ++ d.attrs) (ds.countP fun e => e.is = d.is)) = f.made (ds ++ [d]) := by
    funext s
    rw [Configuration.made, entries_snoc]
    rfl
  rw [hput] at hattrs
  refine ((newdev_made ds s d).bind fun _ s' => (devisid_making ds _ _ d.is s').bind fun _ s' =>
    (devonid_making hnd ds d _ s').bind fun _ => hattrs).congr ?_
  unfold Configuration.Made DeviceDecl.Short
  constructor
  · rintro ⟨⟨h1, h2, h3⟩, ⟨h4, -⟩, ⟨h5, h6⟩, h7⟩
    exact ⟨h1, h2, ⟨h3, h7⟩, h4, h5, h6⟩
  · rintro ⟨h1, h2, ⟨h3, h7⟩, h4, h5, t, ht, hname, hon⟩
    exact ⟨⟨h1, h2, h3⟩, ⟨h4, t, ht, hname⟩, ⟨h5, t, ht, hname, hon⟩, h7⟩

/-! ## The whole file -/

/-- The types are as the generator asks. -/
def Configuration.TypesOk (f : Configuration) : Prop :=
  f.devtypes.length ≤ NTYPES ∧ (f.devtypes.map TypeDecl.tname).Nodup ∧ ∀ t ∈ f.devtypes, t.Short

/-- The devices are as the generator asks. -/
def Configuration.DevicesOk (f : Configuration) : Prop :=
  f.devices.length ≤ NDEVS ∧ (f.devices.map DeviceDecl.dname).Nodup ∧ ∀ d ∈ f.devices, f.Made d

/-- The parse. -/
theorem yyparse_made (f : Configuration) : Guards (yyparse f) (f.TypesOk ∧ f.DevicesOk) (f.made f.devices) := by
  have htypes := Guards.foldlM Gen.typed (fun ts t => ts ++ [t])
    (fun ts t => ts.length < NTYPES ∧ t.tname ∉ ts.map TypeDecl.tname ∧ t.Short)
    (fun ts s t => devtype_typed ts s t) f.devtypes [] ""
  rw [foldl_snoc, passes_table f.devtypes (Nat.zero_le _) (by simp)] at htypes
  refine htypes.bind fun hok s => ?_
  have hdevices := Guards.foldlM f.made (fun ds d => ds ++ [d])
    (fun ds d => ds.length < NDEVS ∧ d.dname ∉ ds.map DeviceDecl.dname ∧ f.Made d)
    (fun ds s d => device_made hok.2.1 ds s d) f.devices [] s
  rw [foldl_snoc, passes_table f.devices (Nat.zero_le _) (by simp)] at hdevices
  exact hdevices

/-- The last section of a type. -/
theorem exists_lastOn (t : TypeDecl) : ∃ s ∈ t.sections, s.on = t.lastOn := by
  have hfold : ∀ (l : List Section) (s : Section), ∃ s' ∈ s :: l, s'.on = l.foldl (fun _ s => s.on) s.on := by
    intro l
    induction l with
    | nil => exact fun s => ⟨s, List.mem_singleton_self s, rfl⟩
    | cons s' l ih =>
      intro s
      obtain ⟨s'', hs, hon⟩ := ih s'
      exact ⟨s'', List.mem_cons_of_mem _ hs, hon⟩
  exact hfold t.others t.first

/-- What the generator asks of a file: that it is accepted, and that the devices are on the hardware of the last sections. -/
theorem ok_iff (f : Configuration) : f.TypesOk ∧ f.DevicesOk ↔
    f.Accepted ∧ ∀ d ∈ f.devices, ∀ t ∈ f.typesOf d.is, t.lastOn = d.on := by
  constructor
  · rintro ⟨⟨h1, h2, h3⟩, h4, h5, h6⟩
    refine ⟨⟨h1, h4, h2, h5, h3, fun d hd => (h6 d hd).1, fun d hd => ?_⟩, fun d hd t ht => ?_⟩
    · obtain ⟨-, -, -, t, ht, hname, hon⟩ := h6 d hd
      obtain ⟨s, hs, hson⟩ := exists_lastOn t
      exact ⟨t, ht, hname, s, hs, hson.trans hon⟩
    · obtain ⟨-, -, -, t', ht', hname, hon⟩ := h6 d hd
      rw [← hname, typesOf_eq h2 ht', List.mem_singleton] at ht
      rw [ht, hon]
  · rintro ⟨ha, hlast⟩
    refine ⟨⟨ha.ntypes, ha.types, ha.typesShort⟩, ha.ndevs, ha.devices, fun d hd => ?_⟩
    obtain ⟨t, ht, hname, s, hs, hon⟩ := ha.declared d hd
    have hshort := ha.typesShort t ht
    refine ⟨ha.devicesShort d hd, hname ▸ hshort.1, hon ▸ (hshort.2 s hs).1, t, ht, hname, hlast d hd t ?_⟩
    exact List.mem_filter.mpr ⟨ht, by simpa using hname⟩

/-- The entry of `devtab` is the one that is declared when what is inherited is. -/
theorem dentry_eq_iff (i minor : Nat) (d : DeviceDecl) (attrs attrs' : List Attr) :
    dentry i (DevEnt.ofAttrs d.dname d.is d.on attrs minor) = entryOf i minor d attrs' ↔
      (∀ k, driverOf k attrs = driverOf k attrs') ∧ numberOf .CSR attrs % 2 ^ 32 = numberOf .CSR attrs' ∧
        int (numberOf .IRQ attrs) = numberOf .IRQ attrs' := by
  have hcsr : (int (numberOf .CSR attrs) % 2 ^ 32).toNat = numberOf .CSR attrs % 2 ^ 32 := by
    have : int (numberOf .CSR attrs) % 2 ^ 32 = numberOf .CSR attrs % 2 ^ 32 := Int.bmod_emod
    omega
  simp only [dentry, entryOf, DevEnt.ofAttrs, hcsr, Dentry.mk.injEq, true_and]
  constructor
  · rintro ⟨h1, h2, h3, h4, h5, h6, h7, h8, h9, hc, h10, hi⟩
    refine ⟨fun k => ?_, hc, hi⟩
    cases k with
    | INTR => exact h10
    | OPEN => exact h2
    | CLOSE => exact h3
    | INIT => exact h1
    | GETC => exact h7
    | PUTC => exact h8
    | READ => exact h4
    | WRITE => exact h5
    | SEEK => exact h6
    | CONTROL => exact h9
  · rintro ⟨hk, hc, hi⟩
    exact ⟨hk .INIT, hk .OPEN, hk .CLOSE, hk .READ, hk .WRITE, hk .SEEK, hk .GETC, hk .PUTC, hk .CONTROL, hc, hk .INTR, hi⟩

/-- The output is the expected one when at every device the inherited values are the declared ones. -/
theorem output_eq_iff (f : Configuration) (s : String) : (f.made f.devices s).output = f.expected ↔
    ∀ d ∈ f.devices, (∀ k, driverOf k (f.inherited d) = driverOf k (f.declared d)) ∧
      numberOf .CSR (f.inherited d) % 2 ^ 32 = numberOf .CSR (f.declared d) ∧
      int (numberOf .IRQ (f.inherited d)) = numberOf .IRQ (f.declared d) := by
  have hcounts : (f.made f.devices s).output.counts = f.expected.counts := by
    simp only [Configuration.made, Gen.output, Configuration.expected, Configuration.counted, List.filter_map, List.map_map]
    rfl
  have hdevices : (f.made f.devices s).output.devices = f.expected.devices := by
    simp only [Configuration.made, Gen.output, Configuration.expected, Configuration.entries, List.mapIdx_mapIdx]
    rfl
  have hparts : ∀ o o' : Output, o = o' ↔ o.devtab = o'.devtab ∧ o.devices = o'.devices ∧ o.counts = o'.counts := by
    rintro ⟨_, _, _⟩ ⟨_, _, _⟩
    exact Iff.of_eq (Output.mk.injEq ..)
  rw [hparts, and_iff_left ⟨hdevices, hcounts⟩]
  simp only [Configuration.made, Gen.output, Configuration.expected, Configuration.entries, List.mapIdx_mapIdx,
    List.mapIdx_eq_mapIdx_iff, Function.comp_def, dentry_eq_iff]
  constructor
  · intro h d hd
    obtain ⟨i, hi, rfl⟩ := List.getElem_of_mem hd
    exact h i hi
  · exact fun h i hi => h _ (List.getElem_mem hi)

/-- For every Configuration file, the generator writes what the file means, or rejects it when it is not accepted, exactly when
no accepted device gets anything from a section of its type for other hardware. -/
theorem configuration_meaning (f : Configuration) :
    config f = f.meaning ↔ (f.Accepted → ∀ d ∈ f.devices, f.Unmixed d) := by
  have hparse := yyparse_made f
  by_cases ha : f.Accepted
  · rw [Configuration.meaning, if_pos ha, config]
    by_cases hlast : ∀ d ∈ f.devices, ∀ t ∈ f.typesOf d.is, t.lastOn = d.on
    · obtain ⟨s, hs⟩ := hparse.1 ((ok_iff f).mpr ⟨ha, hlast⟩)
      rw [hs, Option.map_some, Option.some.injEq, output_eq_iff]
      constructor
      · intro h _ d hd
        obtain ⟨hk, hc, hi⟩ := h d hd
        exact ⟨hlast d hd, hk, hc, hi⟩
      · intro h d hd
        exact ⟨(h ha d hd).driver, (h ha d hd).csr, (h ha d hd).irq⟩
    · -- a device on the hardware of another section is rejected
      have hnone := hparse.2 fun hok => hlast ((ok_iff f).mp hok).2
      rw [hnone, Option.map_none]
      refine iff_of_false (by simp) fun h => hlast fun d hd => (h ha d hd).last
  · have hnone := hparse.2 fun hok => ha ((ok_iff f).mp hok).1
    rw [config, hnone, Configuration.meaning, if_neg ha]
    exact iff_of_true rfl fun h => absurd h ha

/-- A type with one section does not mix. -/
theorem unmixed_of_single {f : Configuration} (ha : f.Accepted) {d : DeviceDecl} (hd : d ∈ f.devices)
    (hone : ∀ t ∈ f.typesOf d.is, t.others = []) (hcsr : numberOf .CSR (f.declared d) < 2 ^ 32)
    (hirq : numberOf .IRQ (f.declared d) < 2 ^ 31) : f.Unmixed d := by
  obtain ⟨t, ht, hname, s, hs, hon⟩ := ha.declared d hd
  have hof : f.typesOf d.is = [t] := hname ▸ typesOf_eq ha.types ht
  have hsec : t.sections = [t.first] := by rw [TypeDecl.sections, hone t (by simp [hof])]
  obtain rfl : s = t.first := by simpa [hsec] using hs
  have hsame : f.inherited d = f.declared d := by
    simp [Configuration.inherited, Configuration.declared, hof, TypeDecl.attrs, TypeDecl.attrsOn, hsec, hon]
  refine ⟨?_, fun k => by rw [hsame], by rw [hsame]; exact Nat.mod_eq_of_lt hcsr, ?_⟩
  · simp [hof, TypeDecl.lastOn, hsec, hon]
  · rw [hsame, int, Int.bmod_eq_of_le (by omega) (by omega)]

/-- A type on two kinds of hardware, and a device on the second. -/
def Configuration.mixed : Configuration where
  devtypes := [⟨"tty", ⟨"uart", [.id .INIT "ttyinit"]⟩, [⟨"usb", [.id .OPEN "usbopen"]⟩]⟩]
  devices := [⟨"CONSOLE", "tty", "usb", []⟩]

/-- A device on the first kind of hardware. -/
def Configuration.refused : Configuration := { Configuration.mixed with devices := [⟨"CONSOLE", "tty", "uart", []⟩] }

/-- A device on the second kind of hardware gets the initialisation of the first, and one on the first is rejected. -/
theorem configuration_mixed :
    (config Configuration.mixed).map (fun o => o.devtab.map Dentry.dvinit) = some ["ttyinit"] ∧
    Configuration.mixed.meaning.map (fun o => o.devtab.map Dentry.dvinit) = some ["ioerr"] ∧
    config Configuration.refused = none ∧
    Configuration.refused.meaning.map (fun o => o.devtab.map Dentry.dvinit) = some ["ttyinit"] := by
  decide

end Config

end Xinu
