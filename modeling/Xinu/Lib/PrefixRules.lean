import Mathlib.Data.List.Infix
import Mathlib.Data.Set.Defs
import Mathlib.Tactic.Common

/-!
# Prefix rules

An ordered list of rules that each replace a prefix. The first rule whose key is a prefix of a name rewrites it, if the new name is not too
long (`rewrite`), and a name that is sent back to `self` is rewritten again (`resolve`). `LongestFirst` says that the first rule is
always one with the longest key. Behind a rule with an empty key no further rule is ever used (`first_append`), so that an ordered list
stays ordered exactly when no new key is appended (`longestFirst_append_iff`).
-/

namespace PrefixRules

variable {α δ : Type*}

/-- A rule: the prefix, what replaces it and where the new name goes. -/
structure Rule (α δ : Type*) where
  key : List α
  replacement : List α
  dest : δ
deriving DecidableEq

/-- The name without the prefix of the rule, behind its replacement. -/
def Rule.apply (r : Rule α δ) (name : List α) : List α := r.replacement ++ name.drop r.key.length

variable [DecidableEq α]

/-- The first rule whose key is a prefix of the name. -/
def first (rules : List (Rule α δ)) (name : List α) : Option (Rule α δ) := rules.find? fun r => r.key <+: name

/-- One substitution: the destination and the new name. -/
def rewrite (limit : Nat) (rules : List (Rule α δ)) (name : List α) : Option (δ × List α) :=
  (first rules name).bind fun r => if (r.apply name).length ≤ limit then some (r.dest, r.apply name) else none

/-- At most `n` substitutions, until a name goes elsewhere. -/
def resolve [DecidableEq δ] (limit : Nat) (rules : List (Rule α δ)) (self : δ) : (n : Nat) → List α → Option (δ × List α)
  | 0, _ => none
  | n + 1, name => (rewrite limit rules name).bind fun (d, name) =>
    if d = self then resolve limit rules self n name else some (d, name)

/-- The names that `n` substitutions are made in. -/
def passes [DecidableEq δ] (limit : Nat) (rules : List (Rule α δ)) (self : δ) : (n : Nat) → List α → List (List α)
  | 0, _ => []
  | n + 1, name => name :: match rewrite limit rules name with
    | some (d, name) => if d = self then passes limit rules self n name else []
    | none => []

/-- The first rule for any of these names is one with the longest key. -/
def LongestFirst (names : Set (List α)) (rules : List (Rule α δ)) : Prop :=
  ∀ name ∈ names, ∀ r, first rules name = some r → ∀ r' ∈ rules, r'.key <+: name → r'.key.length ≤ r.key.length

variable {names : Set (List α)} {rules more : List (Rule α δ)} {name : List α} {r : Rule α δ}

theorem first_matches (h : first rules name = some r) : r ∈ rules ∧ r.key <+: name :=
  ⟨List.mem_of_find?_eq_some h, of_decide_eq_true (List.find?_some (p := fun r : Rule α δ => decide (r.key <+: name)) h)⟩

theorem first_eq_none_iff : first rules name = none ↔ ∀ r ∈ rules, ¬r.key <+: name := by
  simp only [first, List.find?_eq_none, decide_eq_true_eq]

theorem first_cons (r : Rule α δ) : first (r :: rules) name = if r.key <+: name then some r else first rules name := by
  rw [first, List.find?_cons]
  by_cases h : r.key <+: name
  · simp only [h, decide_true, if_true]
  · simp only [h, decide_false, if_false]
    rfl

/-- Behind an empty key no rule is used. -/
theorem first_append (hnil : [] ∈ rules.map Rule.key) : first (rules ++ more) name = first rules name := by
  obtain ⟨r, hr, hkey⟩ := List.mem_map.mp hnil
  rw [first, List.find?_append]
  cases hfirst : first rules name with
  | none => exact absurd (hkey ▸ List.nil_prefix) (first_eq_none_iff.mp hfirst r hr)
  | some r' =>
    rw [first] at hfirst
    rw [hfirst, Option.some_or]

/-- Rules are ordered when no key stands before a longer one that it is a prefix of. -/
theorem longestFirst_of_pairwise (h : rules.Pairwise fun r r' => r.key <+: r'.key → r'.key <+: r.key) : LongestFirst names rules := by
  induction rules with
  | nil => exact fun name _ r _ r' hr' => absurd hr' List.not_mem_nil
  | cons r₀ rules ih =>
    obtain ⟨h₀, h⟩ := List.pairwise_cons.mp h
    intro name hname r hr r' hr' hkey
    rw [first_cons] at hr
    split at hr
    · next hmatch =>
      cases hr
      rcases List.mem_cons.mp hr' with rfl | hr'
      · exact Nat.le_refl _
      · rcases List.prefix_or_prefix_of_prefix hkey hmatch with hle | hle
        · exact hle.length_le
        · exact (h₀ r' hr' hle).length_le
    · next hno =>
      rcases List.mem_cons.mp hr' with rfl | hr'
      · exact absurd hkey hno
      · exact ih h name hname r hr r' hr' hkey

/-- Behind an empty key, ordered rules stay ordered exactly when no new key is added. -/
theorem longestFirst_append_iff (h : LongestFirst names rules) (hnil : [] ∈ rules.map Rule.key)
    (hmore : ∀ r ∈ more, r.key ∈ names) : LongestFirst names (rules ++ more) ↔ ∀ r ∈ more, r.key ∈ rules.map Rule.key := by
  constructor
  · intro hall r hr
    have hsome : (first rules r.key).isSome := by
      rw [Option.isSome_iff_ne_none]
      intro hnone
      obtain ⟨r', hr', hkey⟩ := List.mem_map.mp hnil
      exact first_eq_none_iff.mp hnone r' hr' (hkey ▸ List.nil_prefix)
    obtain ⟨r', hr'⟩ := Option.isSome_iff_exists.mp hsome
    obtain ⟨hmem, hkey⟩ := first_matches hr'
    have hle := hall r.key (hmore r hr) r' ((first_append hnil).trans hr') r (List.mem_append_right _ hr) List.prefix_rfl
    exact List.mem_map.mpr ⟨r', hmem, hkey.eq_of_length_le hle⟩
  · intro hkeys name hname r hr r' hr' hkey
    rw [first_append hnil] at hr
    rcases List.mem_append.mp hr' with hr' | hr'
    · exact h name hname r hr r' hr' hkey
    · obtain ⟨r'', hr'', heq⟩ := List.mem_map.mp (hkeys r' hr')
      rw [← heq]
      exact h name hname r hr r'' hr'' (heq ▸ hkey)

end PrefixRules
