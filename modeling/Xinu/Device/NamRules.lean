import Xinu.Device.Nam
import Xinu.Lib.PrefixRules

/-!
# The rules of the name table

What a name table says is the list of its rules, a prefix with its replacement and device each (`Names.rules`). A call of `mount` that
succeeds appends one rule (`rules_mount`), and the search in `namrepl` finds the first rule (`matchLoop_eq_first`).
-/

namespace Xinu

namespace Nam

open Buffer PrefixRules

/-- What a table entry says. -/
def Nmentry.rule (e : Nmentry) : Rule UInt8 Int := ⟨Buffer.text e.nprefix NM_PRELEN 0, Buffer.text e.nreplace NM_REPLLEN 0, e.ndevice⟩

/-- What a name table says. -/
def Names.rules (t : Names) : List (Rule UInt8 Int) := (List.range t.nnames).map fun i => (t.nametab i).rule

/-- Both strings of a table entry end inside their arrays. -/
structure Nmentry.Terminated (e : Nmentry) : Prop where
  key : e.nprefix.IsText 0 e.rule.key
  short_key : e.rule.key.length < NM_PRELEN
  replacement : e.nreplace.IsText 0 e.rule.replacement
  short_replacement : e.rule.replacement.length < NM_REPLLEN

/-- All entries are strings and devices. -/
structure Names.Ok (t : Names) : Prop where
  count : t.nnames ≤ NNAMES
  entries : ∀ i < t.nnames, (t.nametab i).Terminated
  devices : ∀ i < t.nnames, ¬isbaddev (t.nametab i).ndevice

/-- The tables that calls of `mount` build. -/
inductive Built : Names → Prop
  | empty (t : Names) (h : t.nnames = 0) : Built t
  | mount (path replace : Buffer) (device : Int) {t : Names} (h : Built t) : Built (mount path replace device t).2

variable {t : Names} {path replace name : Buffer} {device : Int} {p r s : List UInt8}

theorem length_rules : t.rules.length = t.nnames := by simp [Names.rules]

/-! ## Mounting -/

/-- A table with one more entry. -/
def Names.push (t : Names) (e : Nmentry) : Names := ⟨Function.update t.nametab t.nnames e, t.nnames + 1⟩

/-- A mount is one more rule. -/
theorem rules_push (t : Names) (e : Nmentry) : (t.push e).rules = t.rules ++ [e.rule] := by
  have hrules : (t.push e).rules = ((List.range (t.nnames + 1)).map fun i => (Function.update t.nametab t.nnames e i).rule) := rfl
  rw [hrules, List.range_succ, List.map_append, List.map_singleton, Function.update_self]
  congr 1
  apply List.map_congr_left
  intro i hi
  rw [Function.update_of_ne (Nat.ne_of_lt (List.mem_range.mp hi))]

/-- A mount that is accepted keeps the table well formed. -/
theorem Names.Ok.push {e : Nmentry} (h : t.Ok) (hcount : t.nnames < NNAMES) (he : e.Terminated) (hdev : ¬isbaddev e.ndevice) :
    (t.push e).Ok := by
  have hentry : ∀ P : Nmentry → Prop, (∀ i < t.nnames, P (t.nametab i)) → P e → ∀ i < t.nnames + 1,
      P (Function.update t.nametab t.nnames e i) := by
    intro P hold hnew i hi
    rcases Nat.lt_succ_iff_lt_or_eq.mp hi with hlt | rfl
    · rw [Function.update_of_ne (Nat.ne_of_lt hlt)]
      exact hold i hlt
    · rw [Function.update_self]
      exact hnew
  exact ⟨hcount, hentry Nmentry.Terminated h.entries he, hentry (fun e => ¬isbaddev e.ndevice) h.devices hdev⟩

/-- What `mount` writes into an entry. -/
theorem rule_copies {e : Nmentry} (hp : path.IsText 0 p) (hr : replace.IsText 0 r) (hp64 : p.length < NM_PRELEN)
    (hr96 : r.length < NM_REPLLEN) :
    Nmentry.rule ⟨Buffer.copy e.nprefix 0 path (p.length + 1), e.nreplace.copy 0 replace (r.length + 1), device⟩ = ⟨p, r, device⟩ ∧
      Nmentry.Terminated ⟨Buffer.copy e.nprefix 0 path (p.length + 1), e.nreplace.copy 0 replace (r.length + 1), device⟩ := by
  have hcopy : ∀ {b src : Buffer} {s : List UInt8}, src.IsText 0 s → (b.copy 0 src (s.length + 1)).IsText 0 s := by
    intro b src s h
    refine h.congr fun i hi => ?_
    rw [Nat.zero_add]
    exact copy_start (Nat.lt_succ_of_le hi)
  have hrule : Nmentry.rule ⟨Buffer.copy e.nprefix 0 path (p.length + 1), e.nreplace.copy 0 replace (r.length + 1), device⟩ =
      ⟨p, r, device⟩ := by
    rw [Nmentry.rule, (hcopy hp).text_eq (Nat.le_of_lt hp64), (hcopy hr).text_eq (Nat.le_of_lt hr96)]
  refine ⟨hrule, ?_⟩
  constructor
  · rw [hrule]
    exact hcopy hp
  · rw [hrule]
    exact hp64
  · rw [hrule]
    exact hcopy hr
  · rw [hrule]
    exact hr96

/-- A call of `mount` with two strings, a device and room in the table appends a rule. -/
theorem mount_text (hp : path.IsText 0 p) (hr : replace.IsText 0 r) (hp64 : p.length < NM_PRELEN) (hr96 : r.length < NM_REPLLEN)
    (hdev : ¬isbaddev device) (hcount : t.nnames < NNAMES) :
    (mount path replace device t).1 = OK ∧ (mount path replace device t).2.rules = t.rules ++ [⟨p, r, device⟩] ∧
      (t.Ok → (mount path replace device t).2.Ok) := by
  have hpsiz : namlen path NM_PRELEN = (p.length + 1 : Nat) := (namlen_text hp).trans (if_pos hp64)
  have hrsiz : namlen replace NM_REPLLEN = (r.length + 1 : Nat) := (namlen_text hr).trans (if_pos hr96)
  have hne : ∀ n : Nat, (n : Int) ≠ SYSERR := fun n => by change (n : Int) ≠ -1; omega
  have hguard : ¬(((p.length + 1 : Nat) : Int) = SYSERR ∨ ((r.length + 1 : Nat) : Int) = SYSERR ∨ isbaddev device ∨
      t.nnames ≥ NNAMES) := by
    rintro (h | h | h | h)
    · exact hne _ h
    · exact hne _ h
    · exact hdev h
    · exact absurd hcount (Nat.not_lt.mpr h)
  have hmount : mount path replace device t = (OK, t.push ⟨Buffer.copy ( Nmentry.nprefix (t.nametab t.nnames)) 0 path (p.length + 1),
      (t.nametab t.nnames).nreplace.copy 0 replace (r.length + 1), device⟩) := by
    unfold mount
    simp only [hpsiz, hrsiz, if_neg hguard, Int.toNat_natCast]
    rfl
  obtain ⟨hrule, hterm⟩ := @rule_copies path replace device p r (t.nametab t.nnames) hp hr hp64 hr96
  rw [hmount]
  refine ⟨rfl, ?_, fun hok => hok.push hcount hterm hdev⟩
  rw [rules_push, hrule]

/-- A call of `mount` fails and leaves the table, or it is one with two strings, a device and room in the table. -/
theorem mount_cases (path replace : Buffer) (device : Int) (t : Names) :
    mount path replace device t = (SYSERR, t) ∨ ∃ p r, path.IsText 0 p ∧ replace.IsText 0 r ∧ p.length < NM_PRELEN ∧
      r.length < NM_REPLLEN ∧ ¬isbaddev device ∧ t.nnames < NNAMES := by
  by_cases hguard : namlen path NM_PRELEN = SYSERR ∨ namlen replace NM_REPLLEN = SYSERR ∨ isbaddev device ∨ t.nnames ≥ NNAMES
  · refine Or.inl ?_
    unfold mount
    rw [if_pos hguard]
  · obtain ⟨hp, hr, hdev, hcount⟩ : _ ∧ _ ∧ _ ∧ _ := by simpa only [not_or] using hguard
    obtain ⟨p, hp, hp64⟩ := text_of_namlenLoop hp
    obtain ⟨r, hr, hr96⟩ := text_of_namlenLoop hr
    exact Or.inr ⟨p, r, hp, hr, hp64, hr96, hdev, Nat.not_le.mp hcount⟩

theorem Names.Ok.of_empty (h : t.nnames = 0) : t.Ok := by
  have hno : ∀ i, ¬i < t.nnames := fun i hi => Nat.not_lt_zero i (h ▸ hi)
  exact ⟨h ▸ Nat.zero_le _, fun i hi => absurd hi (hno i), fun i hi => absurd hi (hno i)⟩

theorem Names.Ok.mount (h : t.Ok) (path replace : Buffer) (device : Int) : (Nam.mount path replace device t).2.Ok := by
  rcases mount_cases path replace device t with hfail | ⟨p, r, hp, hr, hp64, hr96, hdev, hcount⟩
  · rw [hfail]
    exact h
  · exact (mount_text hp hr hp64 hr96 hdev hcount).2.2 h

theorem Built.ok (h : Built t) : t.Ok := by
  induction h with
  | empty t h => exact .of_empty h
  | mount path replace device _ ih => exact ih.mount path replace device

/-! ## Searching -/

/-- The loop over the characters of a prefix compares it with the name. -/
theorem prefixLoop_text {pptr : Buffer} {left plen : Nat} (hp : pptr.IsText plen p) (hs : name.IsText plen s) (hlen : p.length < left) :
    prefixLoop name pptr left plen = if p <+: s then some (plen + p.length) else none := by
  induction left generalizing plen p s with
  | zero => exact absurd hlen (Nat.not_lt_zero _)
  | succ left ih =>
    cases p with
    | nil =>
      rw [prefixLoop, if_pos (isText_nil.mp hp), if_pos List.nil_prefix]
      rfl
    | cons c p =>
      obtain ⟨hc, hread, hp⟩ := isText_cons.mp hp
      rw [prefixLoop, hread, if_neg hc]
      cases s with
      | nil =>
        rw [isText_nil.mp hs, if_pos hc, if_neg fun h => List.cons_ne_nil _ _ (List.prefix_nil.mp h)]
      | cons c' s =>
        obtain ⟨_, hread', hs⟩ := isText_cons.mp hs
        rw [hread']
        by_cases hcc : c = c'
        · have hplace : plen + (c :: p).length = plen + 1 + p.length := by
            rw [List.length_cons]
            omega
          rw [if_neg (not_not.mpr hcc), ih hp hs (Nat.lt_of_succ_lt_succ hlen), hcc]
          simp only [List.prefix_cons_inj, ← hplace, hcc]
        · rw [if_pos hcc, if_neg fun h => hcc (List.cons_prefix_cons.mp h).1]

/-- The search for an entry finds the first rule that matches, and the length of its key. -/
theorem matchLoop_eq_first (hok : t.Ok) (hs : name.IsText 0 s) {left i : Nat} (hi : i + left = t.nnames) :
    (matchLoop t name left i).map (fun q => ((t.nametab q.1).rule, q.2)) = (first (t.rules.drop i) s).map fun r => (r, r.key.length) := by
  induction left generalizing i with
  | zero =>
    have hnil : t.rules.drop i = [] := List.drop_eq_nil_iff.mpr (by rw [length_rules]; omega)
    rw [hnil]
    rfl
  | succ left ih =>
    have hlt : i < t.rules.length := by rw [length_rules]; omega
    have hrule : t.rules[i] = (t.nametab i).rule := by simp [Names.rules]
    have hentry := hok.entries i (by omega)
    rw [List.drop_eq_getElem_cons hlt, first_cons, hrule, matchLoop, prefixLoop_text hentry.key hs hentry.short_key, Nat.zero_add]
    by_cases hmatch : (t.nametab i).rule.key <+: s
    · simp only [if_pos hmatch, Option.map_some]
    · simp only [if_neg hmatch]
      exact ih (by omega)

/-- The entry that matches is one of those looked at. -/
theorem matchLoop_lt {left i k plen : Nat} (h : matchLoop t name left i = some (k, plen)) : k < i + left := by
  induction left generalizing i with
  | zero => cases h
  | succ left ih =>
    rw [matchLoop] at h
    split at h
    · cases h
      omega
    · have hlt := ih h
      omega

/-- An entry that the search finds. -/
theorem matchLoop_some (hok : t.Ok) (hs : name.IsText 0 s) {i plen : Nat} (h : matchLoop t name t.nnames 0 = some (i, plen)) :
    i < t.nnames ∧ first t.rules s = some (t.nametab i).rule ∧ plen = (t.nametab i).rule.key.length := by
  have hlt := matchLoop_lt h
  rw [Nat.zero_add] at hlt
  refine ⟨hlt, ?_⟩
  have hfirst := matchLoop_eq_first hok hs (Nat.zero_add t.nnames)
  rw [h, List.drop_zero] at hfirst
  cases hr : first t.rules s with
  | none =>
    rw [hr] at hfirst
    cases hfirst
  | some r =>
    rw [hr] at hfirst
    obtain ⟨h1, h2⟩ := Prod.mk.inj (Option.some.inj hfirst)
    exact ⟨congrArg some h1.symm, h2.trans (congrArg (fun r => r.key.length) h1.symm)⟩

theorem matchLoop_none_iff (hok : t.Ok) (hs : name.IsText 0 s) : matchLoop t name t.nnames 0 = none ↔ first t.rules s = none := by
  have hfirst := matchLoop_eq_first hok hs (Nat.zero_add t.nnames)
  rw [List.drop_zero] at hfirst
  rw [← Option.map_eq_none_iff, hfirst, Option.map_eq_none_iff]

end Nam

end Xinu
