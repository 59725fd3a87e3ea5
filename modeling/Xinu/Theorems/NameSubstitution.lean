import Xinu.Device.NamRules

/-!
# Names are substituted by the first rule

`namrepl` keeps the length of the name with its terminator in a `char`. For the longest names, of 255 characters, it is 0: what stands
behind the prefix is not copied, nor is a terminator, and no name is ever too long. `nammap` comes to such a name also through a
substitution.
-/

namespace Xinu

namespace Nam

open Buffer PrefixRules

/-- One substitution in a name: `namrepl` returns the device of the first rule that matches, with the replacement and the rest of the name,
and `SYSERR` exactly when no rule matches or the new name is too long. -/
structure Replaces (t : Names) (s : List UInt8) : Prop where
  found : ∀ name newname : Buffer, name.IsText 0 s → ∀ d s', rewrite (NM_MAXLEN - 1) t.rules s = some (d, s') →
    (namrepl t name newname).1 = d ∧ IsText (namrepl t name newname).2 0 s'
  syserr : ∀ name newname : Buffer, name.IsText 0 s →
    ((namrepl t name newname).1 = SYSERR ↔ rewrite (NM_MAXLEN - 1) t.rules s = none)
  inside : ∀ name newname : Buffer, name.IsText 0 s → ∀ i ≥ NM_MAXLEN, (namrepl t name newname).2 i = newname i

/-- The names that `nammap` makes substitutions in. -/
def substituted (t : Names) (namdev : Int) (s : List UInt8) : List (List UInt8) := passes (NM_MAXLEN - 1) t.rules namdev t.nnames s

/-- `nammap` substitutes until the name goes to another device, at most `nnames` times. -/
structure Maps (t : Names) (namdev : Int) (s : List UInt8) : Prop where
  found : ∀ name newname tmpname : Buffer, name.IsText 0 s → ∀ d s', resolve (NM_MAXLEN - 1) t.rules namdev t.nnames s = some (d, s') →
    (nammap t name newname namdev tmpname).1 = d ∧ IsText (nammap t name newname namdev tmpname).2 0 s'
  syserr : ∀ name newname tmpname : Buffer, name.IsText 0 s →
    ((nammap t name newname namdev tmpname).1 = SYSERR ↔ resolve (NM_MAXLEN - 1) t.rules namdev t.nnames s = none)

/-- The substitutions in a name and in the names that they lead to. -/
structure Substitutes (t : Names) (namdev : Int) (s : List UInt8) : Prop where
  replaces : ∀ s' ∈ s :: substituted t namdev s, Replaces t s'
  maps : Maps t namdev s

variable {t : Names} {name newname tmpname : Buffer} {namdev : Int} {r : Rule UInt8 Int} {s : List UInt8}

section Rules

/-- A rule of a table that is in order. -/
structure IsEntry (e : Nmentry) (r : Rule UInt8 Int) : Prop where
  terminated : e.Terminated
  rule : e.rule = r
  device : ¬isbaddev r.dest

theorem Names.Ok.entry (hok : t.Ok) (h : r ∈ t.rules) : ∃ e, IsEntry e r := by
  obtain ⟨i, hi, rfl⟩ := List.mem_map.mp h
  exact ⟨t.nametab i, hok.entries i (List.mem_range.mp hi), rfl, hok.devices i (List.mem_range.mp hi)⟩

theorem IsEntry.dest_ne {e : Nmentry} (h : IsEntry e r) : r.dest ≠ SYSERR := by
  intro hs
  exact h.device (hs ▸ Or.inl (by decide))

/-- A new name has no zero byte. -/
theorem apply_not_zero {e : Nmentry} (h : IsEntry e r) (h0 : 0 ∉ s) : 0 ∉ r.apply s := by
  rw [Rule.apply, List.mem_append, not_or]
  exact ⟨h.rule ▸ h.terminated.replacement.1, fun hd => h0 (List.mem_of_mem_drop hd)⟩

end Rules

section Substitution

/-- No rule matches. -/
theorem namrepl_of_none (hok : t.Ok) (hs : name.IsText 0 s) (h : first t.rules s = none) : namrepl t name newname = (SYSERR, newname) := by
  rw [namrepl, (matchLoop_none_iff hok hs).mpr h]

/-- What `namrepl` does when a rule matches, with the length of the name modulo 256. -/
theorem namrepl_of_first (hok : t.Ok) (hs : name.IsText 0 s) (hlen : s.length < NM_MAXLEN) (h : first t.rules s = some r) :
    ∃ e, IsEntry e r ∧ ∀ newname, namrepl t name newname =
      if (r.replacement.length : Int) + (((s.length + 1 : Nat) : Int) % 256 - r.key.length) > 256 then (SYSERR, newname)
      else (r.dest, (newname.copy 0 e.nreplace r.replacement.length).copy r.replacement.length (fun j => name (r.key.length + j))
        (((s.length + 1 : Nat) : Int) % 256 - r.key.length).toNat) := by
  cases hmatch : matchLoop t name t.nnames 0 with
  | none => exact absurd ((matchLoop_none_iff hok hs).mp hmatch) (by rw [h]; exact nofun)
  | some q =>
    obtain ⟨i, plen⟩ := q
    obtain ⟨hlt, hfirst, rfl⟩ := matchLoop_some hok hs hmatch
    rw [h] at hfirst
    obtain rfl := Option.some.inj hfirst
    have hentry : IsEntry (t.nametab i) (t.nametab i).rule := ⟨hok.entries i hlt, rfl, hok.devices i hlt⟩
    have holen : namlen name NM_MAXLEN = ((s.length + 1 : Nat) : Int) := (namlen_text hs).trans (if_pos hlen)
    have hshort : (t.nametab i).rule.replacement.length < NM_MAXLEN := Nat.lt_trans hentry.terminated.short_replacement (by decide)
    have hrlen : namlen (t.nametab i).nreplace NM_MAXLEN = ((t.nametab i).rule.replacement.length + 1 : Int) :=
      (namlen_text hentry.terminated.replacement).trans (if_pos hshort)
    refine ⟨t.nametab i, hentry, fun newname => ?_⟩
    rw [namrepl, hmatch]
    simp only [holen, hrlen, Int.add_sub_cancel, Int.toNat_natCast]
    rfl

/-- The name fits: what stands behind the prefix is copied with the terminator. -/
theorem isText_copies {e : Nmentry} (hentry : IsEntry e r) (hs : name.IsText 0 s) (hkey : r.key <+: s) (newname : Buffer) :
    IsText ((newname.copy 0 e.nreplace r.replacement.length).copy r.replacement.length (fun j => name (r.key.length + j))
      (s.length + 1 - r.key.length)) 0 (r.apply s) := by
  obtain ⟨rest, rfl⟩ := hkey
  have hrest := hs.drop
  have hreplacement : e.nreplace.Holds 0 r.replacement := by
    have hall := hentry.terminated.replacement.2
    rw [hentry.rule] at hall
    exact (holds_append.mp hall).1
  rw [holds_iff_getElem] at hreplacement
  refine ⟨apply_not_zero hentry hs.1, ?_⟩
  rw [Rule.apply, List.drop_left, List.append_assoc, holds_append, holds_iff_getElem, holds_iff_getElem]
  constructor
  · intro i hi
    rw [Nat.zero_add, copy_off (Or.inl hi), copy_start hi, ← hreplacement i hi, Nat.zero_add]
  · intro i hi
    have hread := holds_iff_getElem.mp hrest.2 i hi
    rw [List.length_append, List.length_singleton] at hi
    rw [Nat.zero_add, copy_at (by rw [List.length_append]; omega), ← hread, Nat.zero_add]

/-- What one substitution must come to. -/
theorem rewrite_eq_some_iff {d : Int} {s' : List UInt8} : rewrite (NM_MAXLEN - 1) t.rules s = some (d, s') ↔
    ∃ r, first t.rules s = some r ∧ r.dest = d ∧ r.apply s = s' ∧ (r.apply s).length ≤ NM_MAXLEN - 1 := by
  rw [rewrite, Option.bind_eq_some_iff]
  constructor
  · rintro ⟨r, hr, hif⟩
    split at hif
    · next hfits =>
      cases hif
      exact ⟨r, hr, rfl, rfl, hfits⟩
    · cases hif
  · rintro ⟨r, hr, rfl, rfl, hfits⟩
    exact ⟨r, hr, if_pos hfits⟩

/-- `namrepl` on a name of at most 254 characters, or on one that no rule matches. -/
theorem namrepl_right (hok : t.Ok) (hs : name.IsText 0 s) (h : s.length ≤ 254 ∨ first t.rules s = none) (newname : Buffer) :
    (rewrite (NM_MAXLEN - 1) t.rules s = none ∧ namrepl t name newname = (SYSERR, newname)) ∨
      ∃ d s', rewrite (NM_MAXLEN - 1) t.rules s = some (d, s') ∧ d ≠ SYSERR ∧ (namrepl t name newname).1 = d ∧
        IsText (namrepl t name newname).2 0 s' ∧ ∀ i ≥ NM_MAXLEN, (namrepl t name newname).2 i = newname i := by
  cases hfirst : first t.rules s with
  | none =>
    refine Or.inl ⟨?_, namrepl_of_none hok hs hfirst⟩
    rw [rewrite, hfirst]
    rfl
  | some r =>
    have hlen : s.length ≤ 254 := h.resolve_right (by rw [hfirst]; exact nofun)
    obtain ⟨e, hentry, hrepl⟩ := namrepl_of_first hok hs (Nat.lt_of_le_of_lt hlen (by decide)) hfirst
    have hkey := (first_matches hfirst).2
    have hmod : (((s.length + 1 : Nat) : Int) % 256 - r.key.length) = ((s.length + 1 - r.key.length : Nat) : Int) := by
      have hle := hkey.length_le
      omega
    have happly : (r.apply s).length = r.replacement.length + (s.length - r.key.length) := by
      rw [Rule.apply, List.length_append, List.length_drop]
    have hle := hkey.length_le
    rw [hrepl, hmod, Int.toNat_natCast]
    by_cases hfits : (r.apply s).length ≤ NM_MAXLEN - 1
    · have hfits' : r.replacement.length + (s.length - r.key.length) ≤ 255 := happly ▸ hfits
      have hguard : ¬(r.replacement.length : Int) + ((s.length + 1 - r.key.length : Nat) : Int) > 256 := by omega
      rw [if_neg hguard]
      refine Or.inr ⟨r.dest, r.apply s, rewrite_eq_some_iff.mpr ⟨r, hfirst, rfl, rfl, hfits⟩, hentry.dest_ne, rfl,
        isText_copies hentry hs hkey newname, fun i hi => ?_⟩
      have hi' : 256 ≤ i := hi
      dsimp only
      rw [copy_off (by omega), copy_off (by omega)]
    · have hfits' : ¬r.replacement.length + (s.length - r.key.length) ≤ 255 := happly ▸ hfits
      have hguard : (r.replacement.length : Int) + ((s.length + 1 - r.key.length : Nat) : Int) > 256 := by omega
      rw [if_pos hguard]
      refine Or.inl ⟨?_, rfl⟩
      rw [rewrite, hfirst, Option.bind_some, if_neg hfits]

theorem replaces_of (hok : t.Ok) (h : s.length ≤ 254 ∨ first t.rules s = none) : Replaces t s := by
  constructor
  · intro name newname hs d s' hsome
    rcases namrepl_right hok hs h newname with ⟨hnone, _⟩ | ⟨d', s'', hsome', _, hd, htext, _⟩
    · rw [hnone] at hsome
      cases hsome
    · rw [hsome'] at hsome
      cases hsome
      exact ⟨hd, htext⟩
  · intro name newname hs
    rcases namrepl_right hok hs h newname with ⟨hnone, hfail⟩ | ⟨d', s'', hsome, hne, hd, _⟩
    · rw [hfail]
      exact iff_of_true rfl hnone
    · rw [hd, hsome]
      exact iff_of_false hne nofun
  · intro name newname hs
    rcases namrepl_right hok hs h newname with ⟨_, hfail⟩ | ⟨_, _, _, _, _, _, hinside⟩
    · rw [hfail]
      exact fun _ _ => rfl
    · exact hinside

/-- A name of 255 characters that a rule matches is not substituted as it should be. -/
theorem not_replaces_of_long (hok : t.Ok) (h0 : 0 ∉ s) (hlen : s.length = 255) (hfirst : first t.rules s = some r) : ¬Replaces t s := by
  intro R
  have hs := isText_getD h0
  obtain ⟨e, hentry, hrepl⟩ := namrepl_of_first hok hs (by rw [hlen]; decide) hfirst
  have hshort := hentry.terminated.short_replacement
  have hkey := hentry.terminated.short_key
  rw [hentry.rule] at hshort hkey
  change r.replacement.length < 96 at hshort
  change r.key.length < 64 at hkey
  have hguard : ¬(r.replacement.length : Int) + (((s.length + 1 : Nat) : Int) % 256 - r.key.length) > 256 := by omega
  have hnothing : (((s.length + 1 : Nat) : Int) % 256 - r.key.length).toNat = 0 := by omega
  have hcall := hrepl fun _ => 0
  rw [if_neg hguard, hnothing, copy_zero] at hcall
  by_cases hfits : (r.apply s).length ≤ NM_MAXLEN - 1
  · have htext := (R.found _ (fun _ => 0) hs r.dest (r.apply s) (rewrite_eq_some_iff.mpr ⟨r, hfirst, rfl, rfl, hfits⟩)).2
    rw [hcall] at htext
    dsimp only at htext
    have hlt : r.replacement.length < (r.apply s).length := by
      rw [Rule.apply, List.length_append, List.length_drop]
      omega
    have hne := htext.isString.2 r.replacement.length hlt
    exact hne (copy_off (Or.inr (Nat.le_of_eq (Nat.zero_add _))))
  · have hnone : rewrite (NM_MAXLEN - 1) t.rules s = none := by rw [rewrite, hfirst, Option.bind_some, if_neg hfits]
    have hsyserr := (R.syserr _ (fun _ => 0) hs).mpr hnone
    rw [hcall] at hsyserr
    exact hentry.dest_ne hsyserr

end Substitution

section Iteration

theorem namcpy_text (hs : name.IsText 0 s) (hlen : s.length < NM_MAXLEN) (newname : Buffer) :
    (namcpy newname name NM_MAXLEN).1 = OK ∧ IsText (namcpy newname name NM_MAXLEN).2 0 s := by
  have hcopy := copyUpTo_string (b := newname) (o := 0) hs.isString hlen
  rw [namcpy, hcopy]
  refine ⟨rfl, hs.congr fun i hi => ?_⟩
  rw [Nat.zero_add]
  exact copy_start (Nat.lt_succ_of_le hi)

/-- The names that come up have no zero byte and are not too long. -/
theorem passes_text (hok : t.Ok) {n : Nat} (h0 : 0 ∉ s) (hlen : s.length < NM_MAXLEN) :
    ∀ s' ∈ passes (NM_MAXLEN - 1) t.rules namdev n s, 0 ∉ s' ∧ s'.length < NM_MAXLEN := by
  induction n generalizing s with
  | zero => exact fun s' hs' => absurd hs' List.not_mem_nil
  | succ n ih =>
    intro s' hs'
    rw [passes] at hs'
    rcases List.mem_cons.mp hs' with rfl | hs'
    · exact ⟨h0, hlen⟩
    · split at hs'
      · next d s'' hsome =>
        split at hs'
        · obtain ⟨r, hr, rfl, rfl, hfits⟩ := rewrite_eq_some_iff.mp hsome
          obtain ⟨e, hentry⟩ := hok.entry (first_matches hr).1
          exact ih (apply_not_zero hentry h0) (Nat.lt_of_le_of_lt hfits (by decide)) s' hs'
        · cases hs'
      · cases hs'

/-- The loop of `nammap` substitutes as often as there are iterations left. -/
theorem nammapLoop_right (hok : t.Ok) (hdev : ¬isbaddev namdev) {n : Nat} {tmpname : Buffer} (newname : Buffer)
    (hs : tmpname.IsText 0 s) (h : ∀ s' ∈ passes (NM_MAXLEN - 1) t.rules namdev n s, s'.length ≤ 254 ∨ first t.rules s' = none) :
    (resolve (NM_MAXLEN - 1) t.rules namdev n s = none ∧ (nammapLoop t namdev n tmpname newname).1 = SYSERR) ∨
      ∃ d s', resolve (NM_MAXLEN - 1) t.rules namdev n s = some (d, s') ∧ d ≠ SYSERR ∧
        (nammapLoop t namdev n tmpname newname).1 = d ∧ IsText (nammapLoop t namdev n tmpname newname).2 0 s' := by
  have hself : SYSERR ≠ namdev := by
    rintro rfl
    exact hdev (Or.inl (by decide))
  induction n generalizing s tmpname newname with
  | zero => exact Or.inl ⟨rfl, rfl⟩
  | succ n ih =>
    rw [passes, List.forall_mem_cons] at h
    obtain ⟨hfirst, hrest⟩ := h
    rw [resolve, nammapLoop]
    rcases namrepl_right hok hs hfirst newname with ⟨hnone, hfail⟩ | ⟨d, s', hsome, hne, hd, htext, _⟩
    · rw [hnone, hfail]
      dsimp only
      rw [if_pos hself]
      exact Or.inl ⟨rfl, rfl⟩
    · rw [hsome] at hrest ⊢
      obtain ⟨r, _, _, rfl, hfits⟩ := rewrite_eq_some_iff.mp hsome
      simp only [Option.bind_some, hd] at hrest ⊢
      by_cases hsame : d = namdev
      · rw [if_pos hsame] at hrest ⊢
        rw [if_neg (not_not.mpr hsame)]
        exact ih _ (namcpy_text htext (Nat.lt_of_le_of_lt hfits (by decide)) tmpname).2 hrest
      · rw [if_neg hsame, if_pos hsame]
        exact Or.inr ⟨d, _, rfl, hne, rfl, htext⟩

theorem maps_of (hok : t.Ok) (hdev : ¬isbaddev namdev) (hlen : s.length < NM_MAXLEN)
    (h : ∀ s' ∈ substituted t namdev s, s'.length ≤ 254 ∨ first t.rules s' = none) : Maps t namdev s := by
  have hmap : ∀ name newname tmpname : Buffer, name.IsText 0 s →
      nammap t name newname namdev tmpname = nammapLoop t namdev t.nnames (namcpy tmpname name NM_MAXLEN).2 newname := by
    intro name newname tmpname hs
    rw [nammap]
    simp only [(namcpy_text hs hlen tmpname).1]
    exact if_neg (by decide)
  constructor
  · intro name newname tmpname hs d s' hsome
    rw [hmap name newname tmpname hs]
    rcases nammapLoop_right hok hdev newname (namcpy_text hs hlen tmpname).2 h with
      ⟨hnone, _⟩ | ⟨d', s'', hsome', _, hd, htext⟩
    · rw [hnone] at hsome
      cases hsome
    · rw [hsome'] at hsome
      cases hsome
      exact ⟨hd, htext⟩
  · intro name newname tmpname hs
    rw [hmap name newname tmpname hs]
    rcases nammapLoop_right hok hdev newname (namcpy_text hs hlen tmpname).2 h with
      ⟨hnone, hfail⟩ | ⟨d', s'', hsome, hne, hd, _⟩
    · rw [hfail]
      exact iff_of_true rfl hnone
    · rw [hd, hsome]
      exact iff_of_false hne nofun

end Iteration

/-- For every table that calls of `mount` build and every name that has room with its terminator: the substitutions in the name and in the
names that they lead to are the right ones exactly when none of these has 255 characters and a rule that matches. -/
theorem name_substitution_iff (hbuilt : Built t) (hdev : ¬isbaddev namdev) (h0 : 0 ∉ s) (hlen : s.length < NM_MAXLEN) :
    Substitutes t namdev s ↔ ∀ s' ∈ s :: substituted t namdev s, s'.length ≤ 254 ∨ first t.rules s' = none := by
  have hok := hbuilt.ok
  have htext : ∀ s' ∈ s :: substituted t namdev s, 0 ∉ s' ∧ s'.length < NM_MAXLEN :=
    List.forall_mem_cons.mpr ⟨⟨h0, hlen⟩, passes_text hok h0 hlen⟩
  constructor
  · intro S s' hs'
    obtain ⟨h0', hlen'⟩ := htext s' hs'
    have hlt : s'.length < 256 := hlen'
    by_contra hnot
    rw [not_or] at hnot
    cases hfirst : first t.rules s' with
    | none => exact hnot.2 hfirst
    | some r => exact not_replaces_of_long hok h0' (by omega) hfirst (S.replaces s' hs')
  · intro h
    exact ⟨fun s' hs' => replaces_of hok (h s' hs'), maps_of hok hdev hlen fun s' hs' => h s' (List.mem_cons_of_mem _ hs')⟩

/-- The table with the prefix `/` of `naminit` only. -/
def rootTable : Names := (mount (constant "/") (constant "root:") RFILESYS ⟨fun _ => ⟨fun _ => 0, fun _ => 0, 0⟩, 0⟩).2

theorem rootTable_built : Built rootTable := .mount _ _ _ (.empty _ rfl)

theorem rootTable_rules : rootTable.rules = [⟨chars "/", chars "root:", RFILESYS⟩] := by decide +kernel

/-- A short name in that table. -/
theorem name_substitution_short : Substitutes rootTable NAMESPACE (chars "/etc") := by
  refine (name_substitution_iff rootTable_built (by decide) (by decide) (by decide)).mpr fun s' hs' => Or.inl ?_
  have hpasses : substituted rootTable NAMESPACE (chars "/etc") = [chars "/etc"] := by
    rw [substituted, rootTable_rules]
    decide +kernel
  rw [hpasses] at hs'
  have hlens : ∀ s' ∈ [chars "/etc", chars "/etc"], s'.length ≤ 254 := by decide
  exact hlens s' hs'

/-- A slash and 254 further characters: with `root:` in place of the slash the name is too long, but `namrepl` returns the remote file
system, and leaves the new name as it was behind `root:`. -/
theorem name_substitution_long : rewrite (NM_MAXLEN - 1) rootTable.rules (47 :: List.replicate 254 97) = none ∧
    (namrepl rootTable (fun j => (47 :: List.replicate 254 97).getD j 0) fun _ => 1).1 = RFILESYS ∧
    (namrepl rootTable (fun j => (47 :: List.replicate 254 97).getD j 0) fun _ => 1).2 5 = 1 ∧
    ¬Substitutes rootTable NAMESPACE (47 :: List.replicate 254 97) := by
  have hfirst : first rootTable.rules (47 :: List.replicate 254 97) = some ⟨chars "/", chars "root:", RFILESYS⟩ := by
    rw [rootTable_rules]
    decide +kernel
  have hnone : rewrite (NM_MAXLEN - 1) rootTable.rules (47 :: List.replicate 254 97) = none := by
    rw [rootTable_rules]
    decide +kernel
  refine ⟨hnone, by decide +kernel, by decide +kernel, fun S => ?_⟩
  exact not_replaces_of_long rootTable_built.ok (by decide +kernel) (by decide +kernel) hfirst (S.replaces _ List.mem_cons_self)

end Nam

end Xinu
