import Mathlib.Data.List.Induction
import Mathlib.Data.List.Pairwise
import Mathlib.Tactic.Common

/-!
# Tagged fields

An area of tagged fields: a pad is one zero byte, a field is its code, a byte with the length of its value, and the value, and the
byte 255 ends the area. `walk` is the way through an area of a reader that takes whatever it meets for a field.
-/

namespace Xinu.Tagged

def padCode : UInt8 := 0
def endCode : UInt8 := 255

/-- A field. -/
structure Field where
  code : UInt8
  value : List UInt8
  notPad : code ≠ padCode
  notEnd : code ≠ endCode
  fits : value.length < 256

inductive Item where
  | pad
  | field (f : Field)

def Item.bytes : Item → List UInt8
  | .pad => [padCode]
  | .field f => f.code :: UInt8.ofNat f.value.length :: f.value

/-- An area: the items, the end mark, and what stands behind it. -/
def area (items : List Item) (rest : List UInt8) : List UInt8 := items.flatMap Item.bytes ++ endCode :: rest

/-- The value of the first field with a code. -/
def valueOf (code : UInt8) : List Item → Option (List UInt8)
  | [] => none
  | .pad :: items => valueOf code items
  | .field f :: items => if f.code = code then some f.value else valueOf code items

/-- Where the value of the first field with a code is, for items from an offset on. -/
def valueAt (code : UInt8) : List Item → Nat → Option Nat
  | [], _ => none
  | .pad :: items, o => valueAt code items (o + 1)
  | .field f :: items, o => if f.code = code then some (o + 2) else valueAt code items (o + 2 + f.value.length)

/-- The places below a limit that a reader visits: behind each there are a byte and as many as the stride. -/
def walk (stride : Nat → Nat) (n o : Nat) : List Nat :=
  if o < n then o :: walk stride n (o + 1 + stride o) else []
termination_by n - o

/-- The stride of a reader that takes the byte behind each place for a length. -/
def lengthStride (b : Nat → UInt8) (o : Nat) : Nat := 1 + (b (o + 1)).toNat

variable {stride : Nat → Nat} {n o p : Nat}

theorem walk_of_lt (stride : Nat → Nat) (h : o < n) : walk stride n o = o :: walk stride n (o + 1 + stride o) := by
  rw [walk, if_pos h]

theorem walk_of_le (stride : Nat → Nat) (h : n ≤ o) : walk stride n o = [] := by
  rw [walk, if_neg (by omega)]

/-- The reader visits places from where it begins up to the limit. -/
theorem walk_bounds (h : p ∈ walk stride n o) : o ≤ p ∧ p < n := by
  induction o using walk.induct stride n with
  | case1 o hlt ih =>
    rw [walk_of_lt stride hlt] at h
    rcases List.mem_cons.mp h with rfl | h
    · exact ⟨Nat.le_refl _, hlt⟩
    · have := ih h
      exact ⟨by omega, this.2⟩
  | case2 o hge =>
    rw [walk_of_le stride (by omega)] at h
    cases h

/-- The reader visits each place behind the one before. -/
theorem walk_pairwise (stride : Nat → Nat) (n o : Nat) : (walk stride n o).Pairwise (· < ·) := by
  induction o using walk.induct stride n with
  | case1 o hlt ih =>
    rw [walk_of_lt stride hlt]
    refine List.pairwise_cons.mpr ⟨fun p hp => ?_, ih⟩
    have := walk_bounds hp
    omega
  | case2 o hge =>
    rw [walk_of_le stride (by omega)]
    exact List.Pairwise.nil

/-- The reader visits no place within a stride. -/
theorem walk_gap {q : Nat} (hp : p ∈ walk stride n o) (hq : q ∈ walk stride n o) (h : p < q) : p + 1 + stride p ≤ q := by
  induction o using walk.induct stride n with
  | case1 o hlt ih =>
    rw [walk_of_lt stride hlt] at hp hq
    rcases List.mem_cons.mp hp with rfl | hp
    · rcases List.mem_cons.mp hq with rfl | hq
      · exact absurd h (Nat.lt_irrefl _)
      · exact (walk_bounds hq).1
    · rcases List.mem_cons.mp hq with rfl | hq
      · have := (walk_bounds hp).1
        omega
      · exact ih hp hq
  | case2 o hge =>
    rw [walk_of_le stride (by omega)] at hp
    cases hp

/-- The first place of an increasing list with a property. -/
theorem find?_eq_some_iff_first {l : List Nat} (h : l.Pairwise (· < ·)) (P : Nat → Bool) {p : Nat} :
    l.find? P = some p ↔ p ∈ l ∧ P p ∧ ∀ q ∈ l, P q → p ≤ q := by
  induction l with
  | nil => simp
  | cons a l ih =>
    obtain ⟨ha, hl⟩ := List.pairwise_cons.mp h
    rw [List.find?_cons]
    cases hPa : P a with
    | true =>
      constructor
      · rintro heq
        obtain rfl := Option.some.inj heq
        refine ⟨List.mem_cons_self, hPa, fun q hq _ => ?_⟩
        rcases List.mem_cons.mp hq with rfl | hq
        · exact Nat.le_refl _
        · exact Nat.le_of_lt (ha q hq)
      · rintro ⟨hp, -, hfirst⟩
        have hle := hfirst a List.mem_cons_self hPa
        rcases List.mem_cons.mp hp with rfl | hp
        · rfl
        · exact absurd (ha p hp) (by omega)
    | false =>
      rw [ih hl]
      constructor
      · rintro ⟨hp, hPp, hfirst⟩
        refine ⟨List.mem_cons_of_mem a hp, hPp, fun q hq hPq => ?_⟩
        rcases List.mem_cons.mp hq with rfl | hq
        · rw [hPa] at hPq
          cases hPq
        · exact hfirst q hq hPq
      · rintro ⟨hp, hPp, hfirst⟩
        rcases List.mem_cons.mp hp with rfl | hp
        · rw [hPa] at hPp
          cases hPp
        · exact ⟨hp, hPp, fun q hq => hfirst q (List.mem_cons_of_mem a hq)⟩

/-- The last place of an increasing list with a property. -/
def last (P : Nat → Bool) (l : List Nat) : Option Nat := (l.filter P).getLast?

theorem last_concat (P : Nat → Bool) (l : List Nat) (p : Nat) : last P (l ++ [p]) = if P p then some p else last P l := by
  rw [last, List.filter_append]
  by_cases h : P p
  · rw [if_pos h, List.filter_cons_of_pos h, List.filter_nil, List.getLast?_concat]
  · rw [if_neg h, List.filter_cons_of_neg h, List.filter_nil, List.append_nil, last]

theorem last_eq_some_iff {l : List Nat} (h : l.Pairwise (· < ·)) (P : Nat → Bool) {p : Nat} :
    last P l = some p ↔ p ∈ l ∧ P p ∧ ∀ q ∈ l, P q → q ≤ p := by
  induction l using List.reverseRecOn with
  | nil => simp [last]
  | append_singleton l a ih =>
    obtain ⟨hl, -, ha⟩ := List.pairwise_append.mp h
    have ha' : ∀ q ∈ l, q < a := fun q hq => ha q hq a List.mem_cons_self
    rw [last_concat]
    by_cases hPa : P a
    · rw [if_pos hPa]
      constructor
      · rintro heq
        obtain rfl := Option.some.inj heq
        refine ⟨by simp, hPa, fun q hq _ => ?_⟩
        rcases List.mem_append.mp hq with hq | hq
        · exact Nat.le_of_lt (ha' q hq)
        · exact Nat.le_of_eq (List.mem_singleton.mp hq)
      · rintro ⟨hp, -, hlast⟩
        have hle := hlast a (by simp) hPa
        rcases List.mem_append.mp hp with hp | hp
        · exact absurd (ha' p hp) (by omega)
        · rw [List.mem_singleton.mp hp]
    · rw [if_neg hPa, ih hl]
      constructor
      · rintro ⟨hp, hPp, hlast⟩
        refine ⟨List.mem_append_left _ hp, hPp, fun q hq hPq => ?_⟩
        rcases List.mem_append.mp hq with hq | hq
        · exact hlast q hq hPq
        · rw [List.mem_singleton.mp hq] at hPq
          exact absurd hPq hPa
      · rintro ⟨hp, hPp, hlast⟩
        rcases List.mem_append.mp hp with hp | hp
        · exact ⟨hp, hPp, fun q hq => hlast q (List.mem_append_left _ hq)⟩
        · rw [List.mem_singleton.mp hp] at hPp
          exact absurd hPp hPa

theorem last_eq_none_iff {l : List Nat} (P : Nat → Bool) : last P l = none ↔ ∀ p ∈ l, ¬P p := by
  rw [last, List.getLast?_eq_none_iff, List.filter_eq_nil_iff]

/-! ## Areas -/

/-- The bytes of fields without pads. -/
def fieldBytes (fields : List Field) : List UInt8 := (fields.map Item.field).flatMap Item.bytes

/-- Where the fields are, from an offset on. -/
def starts : List Field → Nat → List Nat
  | [], _ => []
  | f :: fields, o => o :: starts fields (o + 2 + f.value.length)

variable {msg : List UInt8}

theorem fieldBytes_cons (f : Field) (fields : List Field) :
    fieldBytes (f :: fields) = f.code :: UInt8.ofNat f.value.length :: (f.value ++ fieldBytes fields) := by
  simp [fieldBytes, Item.bytes]

theorem getElem?_of_drop {bs : List UInt8} (h : msg.drop o = bs) (i : Nat) : msg[o + i]? = bs[i]? := by
  rw [← h, List.getElem?_drop]

theorem drop_add_of_drop {as bs : List UInt8} (h : msg.drop o = as ++ bs) : msg.drop (o + as.length) = bs := by
  rw [← List.drop_drop, h, List.drop_left]

/-- A field in a message, and what is behind it. -/
theorem drop_field {f : Field} {bs : List UInt8} (h : msg.drop o = f.code :: UInt8.ofNat f.value.length :: (f.value ++ bs)) :
    msg.drop (o + 2 + f.value.length) = bs := by
  have hsplit : msg.drop o = (f.code :: UInt8.ofNat f.value.length :: f.value) ++ bs := h
  have hdrop := drop_add_of_drop hsplit
  rw [List.length_cons, List.length_cons] at hdrop
  rw [← hdrop]
  congr 1
  omega

theorem lengthStride_field {f : Field} {bs : List UInt8}
    (h : msg.drop o = f.code :: UInt8.ofNat f.value.length :: bs) : lengthStride (fun o => msg.getD o 0) o = 1 + f.value.length := by
  have hsize : UInt8.size = 256 := rfl
  have hlen : msg[o + 1]? = some (UInt8.ofNat f.value.length) := getElem?_of_drop h 1
  have hfits := f.fits
  rw [lengthStride, List.getD_eq_getElem?_getD, hlen, Option.getD_some, UInt8.toNat_ofNat_of_lt' (by omega)]

theorem length_fieldBytes_cons (f : Field) (fields : List Field) :
    (fieldBytes (f :: fields)).length = 2 + f.value.length + (fieldBytes fields).length := by
  rw [fieldBytes_cons, List.length_cons, List.length_cons, List.length_append]
  omega

theorem starts_bounds {fields : List Field} (h : p ∈ starts fields o) : o ≤ p ∧ p + 2 ≤ o + (fieldBytes fields).length := by
  induction fields generalizing o with
  | nil => cases h
  | cons f fields ih =>
    have hlen := length_fieldBytes_cons f fields
    rcases List.mem_cons.mp h with rfl | h
    · omega
    · have := ih h
      omega

/-- The reader visits fields without pads one by one. -/
theorem walk_fields (fields : List Field) : ∀ {o : Nat} {tail : List UInt8}, msg.drop o = fieldBytes fields ++ tail →
    o + (fieldBytes fields).length ≤ n → walk (lengthStride fun o => msg.getD o 0) n o =
      starts fields o ++ walk (lengthStride fun o => msg.getD o 0) n (o + (fieldBytes fields).length) := by
  induction fields with
  | nil => exact fun _ _ => rfl
  | cons f fields ih =>
    intro o tail h hn
    rw [fieldBytes_cons, List.cons_append, List.cons_append, List.append_assoc] at h
    have hlen := length_fieldBytes_cons f fields
    have hnext : o + 1 + lengthStride (fun o => msg.getD o 0) o = o + 2 + f.value.length := by
      rw [lengthStride_field h]
      omega
    have hend : o + 2 + f.value.length + (fieldBytes fields).length = o + (2 + f.value.length + (fieldBytes fields).length) := by
      omega
    rw [walk_of_lt _ (by omega), hnext, ih (drop_field h) (by omega), starts, List.cons_append, hlen, hend]

/-- The first field with a code among fields without pads, or behind them. -/
theorem valueAt_fields (key : UInt8) (fields : List Field) (items : List Item) : ∀ o : Nat, (∀ f ∈ fields, f.code ≠ key) →
    valueAt key (fields.map Item.field ++ items) o = valueAt key items (o + (fieldBytes fields).length) := by
  induction fields with
  | nil => exact fun _ _ => rfl
  | cons f fields ih =>
    intro o h
    have hlen := length_fieldBytes_cons f fields
    rw [List.map_cons, List.cons_append, valueAt, if_neg (h f List.mem_cons_self),
      ih _ fun g hg => h g (List.mem_cons_of_mem f hg), hlen]
    congr 1
    omega

theorem mem_starts_of_valueAt {key : UInt8} {fields : List Field} {q : Nat} (h : valueAt key (fields.map Item.field) o = some q) :
    ∃ p ∈ starts fields o, q = p + 2 := by
  induction fields generalizing o with
  | nil => cases h
  | cons f fields ih =>
    rw [List.map_cons, valueAt] at h
    by_cases hkey : f.code = key
    · rw [if_pos hkey] at h
      exact ⟨o, List.mem_cons_self, (Option.some.inj h).symm⟩
    · rw [if_neg hkey] at h
      obtain ⟨p, hp, hq⟩ := ih h
      exact ⟨p, List.mem_cons_of_mem o hp, hq⟩

/-- The field at a place, among fields without pads and with different codes. -/
theorem field_of_mem_starts {fields : List Field} {tail : List UInt8} (h : msg.drop o = fieldBytes fields ++ tail)
    (hcodes : (fields.map Field.code).Nodup) (hp : p ∈ starts fields o) :
    ∃ f ∈ fields, msg[p]? = some f.code ∧ valueAt f.code (fields.map Item.field) o = some (p + 2) ∧
      p + 2 + f.value.length ≤ o + (fieldBytes fields).length := by
  induction fields generalizing o with
  | nil => cases hp
  | cons f fields ih =>
    have hlen := length_fieldBytes_cons f fields
    rw [fieldBytes_cons, List.cons_append, List.cons_append, List.append_assoc] at h
    rw [List.map_cons, List.nodup_cons] at hcodes
    rcases List.mem_cons.mp hp with rfl | hp
    · refine ⟨f, List.mem_cons_self, getElem?_of_drop h 0, ?_, by omega⟩
      rw [List.map_cons, valueAt, if_pos rfl]
    · obtain ⟨g, hg, hcode, hvalue, hend⟩ := ih (drop_field h) hcodes.2 hp
      have hne : f.code ≠ g.code := fun heq => hcodes.1 (heq ▸ List.mem_map_of_mem hg)
      refine ⟨g, List.mem_cons_of_mem f hg, hcode, ?_, by omega⟩
      rw [List.map_cons, valueAt, if_neg hne, hvalue]

/-- Two bytes before the value of a field there is its code. -/
theorem code_of_valueAt {key : UInt8} {items : List Item} {rest : List UInt8} {q : Nat} (h : msg.drop o = area items rest)
    (hq : valueAt key items o = some q) : ∃ p, q = p + 2 ∧ o ≤ p ∧ p + 1 < msg.length ∧ msg[p]? = some key ∧ key ≠ padCode ∧
      key ≠ endCode := by
  induction items generalizing o with
  | nil => cases hq
  | cons item items ih =>
    cases item with
    | pad =>
      have hpad : msg.drop o = [padCode] ++ area items rest := h
      have hrest : msg.drop (o + 1) = area items rest := drop_add_of_drop hpad
      obtain ⟨p, hqp, hle, hp⟩ := ih hrest hq
      exact ⟨p, hqp, by omega, hp⟩
    | field f =>
      have hcons : msg.drop o = f.code :: UInt8.ofNat f.value.length :: (f.value ++ area items rest) := by
        rw [h]
        simp [area, Item.bytes]
      rw [valueAt] at hq
      by_cases hkey : f.code = key
      · rw [if_pos hkey] at hq
        obtain rfl := Option.some.inj hq
        have hcode : msg[o]? = some f.code := getElem?_of_drop hcons 0
        have hsecond : msg[o + 1]? = some (UInt8.ofNat f.value.length) := getElem?_of_drop hcons 1
        obtain ⟨hlt, -⟩ := List.getElem?_eq_some_iff.mp hsecond
        exact ⟨o, rfl, Nat.le_refl o, hlt, hkey ▸ hcode, hkey ▸ f.notPad, hkey ▸ f.notEnd⟩
      · rw [if_neg hkey] at hq
        obtain ⟨p, hqp, hle, hp⟩ := ih (drop_field hcons) hq
        exact ⟨p, hqp, by omega, hp⟩

/-- An area has one reading. -/
theorem area_injective {items : List Item} : ∀ {items' : List Item} {rest rest' : List UInt8}, area items rest = area items' rest' →
    items = items' := by
  have hpad : ∀ (items : List Item) rest, area (.pad :: items) rest = padCode :: area items rest := fun _ _ => rfl
  have hfield : ∀ (f : Field) (items : List Item) rest,
      area (.field f :: items) rest = f.code :: UInt8.ofNat f.value.length :: (f.value ++ area items rest) := by
    intro f items rest
    simp [area, Item.bytes]
  have hnil : ∀ rest, area [] rest = endCode :: rest := fun _ => rfl
  induction items with
  | nil =>
    intro items' rest rest' h
    rcases items' with _ | ⟨_ | f, items'⟩
    · rfl
    · rw [hnil, hpad] at h
      exact absurd (List.cons.inj h).1 (by decide)
    · rw [hnil, hfield] at h
      exact absurd (List.cons.inj h).1.symm f.notEnd
  | cons item items ih =>
    intro items' rest rest' h
    cases item with
    | pad =>
      rcases items' with _ | ⟨_ | f, items'⟩
      · rw [hnil, hpad] at h
        exact absurd (List.cons.inj h).1 (by decide)
      · rw [hpad, hpad] at h
        rw [ih (List.cons.inj h).2]
      · rw [hpad, hfield] at h
        exact absurd (List.cons.inj h).1.symm f.notPad
    | field g =>
      rcases items' with _ | ⟨_ | f, items'⟩
      · rw [hnil, hfield] at h
        exact absurd (List.cons.inj h).1 g.notEnd
      · rw [hpad, hfield] at h
        exact absurd (List.cons.inj h).1 g.notPad
      · rw [hfield, hfield] at h
        obtain ⟨hcode, h⟩ := List.cons.inj h
        obtain ⟨hlength, h⟩ := List.cons.inj h
        have hlen : g.value.length = f.value.length := by
          have hsize : UInt8.size = 256 := rfl
          have hg := g.fits
          have hf := f.fits
          have hnat := congrArg UInt8.toNat hlength
          rwa [UInt8.toNat_ofNat_of_lt' (by omega), UInt8.toNat_ofNat_of_lt' (by omega)] at hnat
        obtain ⟨hvalue, h⟩ := List.append_inj h hlen
        have hfg : g = f := by
          cases g
          cases f
          congr
        rw [ih h, hfg]

/-- The reader does not visit the field behind a pad, when there were only fields before. -/
theorem pad_hides {fields : List Field} {f : Field} {items : List Item} {rest : List UInt8}
    (h : msg.drop o = area (fields.map Item.field ++ .pad :: .field f :: items) rest) (hcode : ∀ g ∈ fields, g.code ≠ f.code) :
    ∃ p, valueAt f.code (fields.map Item.field ++ .pad :: .field f :: items) o = some (p + 2) ∧
      p ∉ walk (lengthStride fun o => msg.getD o 0) (msg.length - 1) o := by
  have hsplit : msg.drop o = fieldBytes fields ++ (padCode :: (Item.field f).bytes ++ area items rest) := by
    rw [h]
    simp [area, fieldBytes, Item.bytes]
  have hlen := congrArg List.length (drop_add_of_drop hsplit)
  rw [List.length_drop, List.length_append, List.length_cons, Item.bytes, List.length_cons, List.length_cons] at hlen
  refine ⟨o + (fieldBytes fields).length + 1, ?_, fun hp => ?_⟩
  · rw [valueAt_fields _ _ _ _ hcode, valueAt, valueAt, if_pos rfl]
  · rw [walk_fields fields hsplit (by omega)] at hp
    have hpad : o + (fieldBytes fields).length ∈
        walk (lengthStride fun o => msg.getD o 0) (msg.length - 1) (o + (fieldBytes fields).length) := by
      rw [walk_of_lt _ (by omega)]
      exact List.mem_cons_self
    rcases List.mem_append.mp hp with hp | hp
    · have := starts_bounds hp
      omega
    · have := walk_gap hpad hp (Nat.lt_succ_self _)
      rw [lengthStride] at this
      omega

end Xinu.Tagged
