import Xinu.Shell.Parse
import Xinu.Theorems.ShellTokens

/-!
# Commands of the shell

The parser peels `&` and the redirections off the end of the tokens and keeps the number of tokens and the length of their text in step
(`Keeps`). It accepts a line exactly when its tokens have the form of a command, and `addargs` then leaves the argument vector in the stack
of the child.
-/

namespace Xinu

namespace Shell

open Buffer Tokens Alphabet

def amper : Token UInt8 := .symbol SH_AMPER
def less : Token UInt8 := .symbol SH_LESS
def greater : Token UInt8 := .symbol SH_GREATER

/-- A word or a quoted string. -/
def Ordinary (t : Token UInt8) : Prop := toktype t = .SH_TOK_OTHER

instance (t : Token UInt8) : Decidable (Ordinary t) := inferInstanceAs (Decidable (_ = _))

/-- At most one redirection of the input and at most one of the output, in either order. -/
inductive Redirections : List (Token UInt8) → (inname outname : Option (Token UInt8)) → Prop
  | none : Redirections [] none none
  | input (n : Token UInt8) (hn : Ordinary n) : Redirections [less, n] (some n) none
  | output (m : Token UInt8) (hm : Ordinary m) : Redirections [greater, m] none (some m)
  | inputOutput (n m : Token UInt8) (hn : Ordinary n) (hm : Ordinary m) : Redirections [less, n, greater, m] (some n) (some m)
  | outputInput (n m : Token UInt8) (hn : Ordinary n) (hm : Ordinary m) : Redirections [greater, m, less, n] (some n) (some m)

/-- The tokens of a command: a name and arguments, redirections and an optional `&`. -/
structure Command (ts args : List (Token UInt8)) (inname outname : Option (Token UInt8)) (backgnd : Bool) : Prop where
  ne_nil : args ≠ []
  ordinary : ∀ t ∈ args, Ordinary t
  form : ∃ rs, Redirections rs inname outname ∧ ts = args ++ rs ++ if backgnd then [amper] else []

/-- An index in `tokbuf` is that of a name. -/
def IsName (l : Lex) : Option Nat → Option (Token UInt8) → Prop
  | none, none => True
  | some k, some n => l.tokbuf.IsText k n.text
  | _, _ => False

/-- What the variables of the parser say. -/
structure Keeps (l : Lex) (ts : List (Token UInt8)) (c : Cmdline) (u : List (Token UInt8)) (inname outname : Option (Token UInt8))
    (backgnd : Bool) : Prop where
  initial : u <+: ts
  ntok : c.ntok = u.length
  tlen : c.tlen = textLength u
  inname : IsName l c.inname inname
  outname : IsName l c.outname outname
  backgnd : c.backgnd = backgnd

/-- The tokens of a line, in the arrays. -/
structure Tokenized (l : Lex) (ts : List (Token UInt8)) : Prop where
  stored : Stored l ts
  text : ∀ t ∈ ts, 0 ∉ t.text
  symbols : ∀ c, .symbol c ∈ ts → shell.kind c = .symbol

section Parsing

variable {l : Lex} {ts u v w args : List (Token UInt8)} {t r n : Token UInt8} {c c' : Cmdline} {i o : Option (Token UInt8)} {b : Bool}

/-- The entries of a token. -/
theorem Tokenized.entry (h : Tokenized l ts) (hts : ts = v ++ t :: w) :
    l.toktyp v.length = toktype t ∧ l.tok v.length = textLength v ∧ l.tokbuf.IsText (l.tok v.length) t.text := by
  subst hts
  have hlt : v.length < (v ++ t :: w).length := by
    rw [List.length_append, List.length_cons]
    omega
  have hget : (v ++ t :: w)[v.length] = t := by simp
  refine ⟨?_, ?_, ?_⟩
  · rw [h.stored.toktyp v.length hlt, hget]
  · rw [h.stored.tok v.length hlt, List.take_left]
  · have htext := h.stored.isText h.text hlt
    rwa [hget] at htext

theorem Tokenized.toktype_symbol (h : Tokenized l ts) (ht : t ∈ ts) :
    (toktype t = .SH_TOK_AMPER ↔ t = amper) ∧ (toktype t = .SH_TOK_LESS ↔ t = less) ∧ (toktype t = .SH_TOK_GREATER ↔ t = greater) := by
  cases t with
  | symbol c =>
    rcases kind_symbol (h.symbols c ht) with rfl | rfl | rfl <;> decide
  | word w => exact ⟨iff_of_false nofun nofun, iff_of_false nofun nofun, iff_of_false nofun nofun⟩
  | quoted s => exact ⟨iff_of_false nofun nofun, iff_of_false nofun nofun, iff_of_false nofun nofun⟩

/-- The test for `&`. -/
theorem ampersand_keeps (h : Tokenized l ts) (hne : ts ≠ []) : ∃ u b, ts = u ++ (if b then [amper] else []) ∧
    (b = false → ∀ v, ts ≠ v ++ [amper]) ∧ Keeps l ts (ampersand l) u none none b := by
  obtain ⟨u, t, rfl⟩ : ∃ u t, ts = u ++ [t] := ⟨_, _, (List.dropLast_append_getLast hne).symm⟩
  obtain ⟨htyp, _, _⟩ := h.entry (v := u) (t := t) (w := []) rfl
  have hntok : l.ntok = u.length + 1 := by rw [h.stored.ntok, List.length_append, List.length_singleton]
  have hlast : l.ntok - 1 = u.length := by omega
  have hiff := (h.toktype_symbol (t := t) (List.mem_append_right _ List.mem_cons_self)).1
  by_cases hamper : t = amper
  · subst hamper
    have hcond : l.toktyp (l.ntok - 1) = .SH_TOK_AMPER := by rw [hlast, htyp, hiff]
    have htlen : (l.tbindex : Int) - 2 = textLength u := by
      rw [h.stored.tlen, textLength_append]
      change ((textLength u + 2 : Nat) : Int) - 2 = _
      omega
    refine ⟨u, true, rfl, nofun, ?_⟩
    rw [ampersand, if_pos hcond]
    exact ⟨List.prefix_append _ _, hlast, htlen, trivial, trivial, rfl⟩
  · have hcond : ¬l.toktyp (l.ntok - 1) = .SH_TOK_AMPER := by rwa [hlast, htyp, hiff]
    refine ⟨u ++ [t], false, (List.append_nil _).symm, fun _ v hv => ?_, ?_⟩
    · exact hamper (List.cons.inj (List.append_inj_right' hv rfl)).1
    · rw [ampersand, if_neg hcond]
      exact ⟨List.prefix_rfl, h.stored.ntok, congrArg Nat.cast h.stored.tlen, trivial, trivial, rfl⟩

/-- The entries of the last two tokens that are left. -/
theorem Keeps.lastTwo (h : Tokenized l ts) (K : Keeps l ts c (v ++ [r, n]) i o b) :
    c.ntok - 2 = v.length ∧ c.ntok - 1 = v.length + 1 ∧ l.toktyp v.length = toktype r ∧ l.toktyp (v.length + 1) = toktype n ∧
      l.tok v.length = textLength v ∧ l.tokbuf.IsText (l.tok (v.length + 1)) n.text := by
  obtain ⟨w, hw⟩ := K.initial
  have hntok := K.ntok
  rw [List.length_append, List.length_cons, List.length_singleton] at hntok
  obtain ⟨htypr, htokr, _⟩ := h.entry (v := v) (t := r) (w := n :: w) (by rw [← hw]; simp)
  obtain ⟨htypn, _, htextn⟩ := h.entry (v := v ++ [r]) (t := n) (w := w) (by rw [← hw]; simp)
  rw [List.length_append, List.length_singleton] at htypn htextn
  exact ⟨by omega, by omega, htypr, htypn, htokr, htextn⟩

/-- The tokens that are left end with a redirection. -/
def EndsRedirection (u : List (Token UInt8)) : Prop := ∃ v r n, u = v ++ [r, n] ∧ v ≠ [] ∧ (r = less ∨ r = greater)

theorem Keeps.isRedirection_iff (h : Tokenized l ts) (K : Keeps l ts c u i o b) : isRedirection l c ↔ EndsRedirection u := by
  constructor
  · rintro ⟨h3, htyp⟩
    rw [K.ntok] at h3
    obtain ⟨v, n, rfl⟩ : ∃ v n, u = v ++ [n] := ⟨_, _, (List.dropLast_append_getLast (List.ne_nil_of_length_pos (by omega))).symm⟩
    rw [List.length_append, List.length_singleton] at h3
    obtain ⟨v, r, rfl⟩ : ∃ v' r, v = v' ++ [r] := ⟨_, _, (List.dropLast_append_getLast (List.ne_nil_of_length_pos (by omega))).symm⟩
    rw [List.length_append, List.length_singleton] at h3
    rw [List.append_assoc, List.singleton_append] at K ⊢
    obtain ⟨h2, _, hr, _⟩ := K.lastTwo h
    have hmem : r ∈ ts := K.initial.subset (List.mem_append_right _ List.mem_cons_self)
    rw [h2, hr, (h.toktype_symbol hmem).2.1, (h.toktype_symbol hmem).2.2] at htyp
    exact ⟨v, r, n, rfl, List.ne_nil_of_length_pos (by omega), htyp⟩
  · rintro ⟨v, r, n, rfl, hv, hr⟩
    have hpos := List.length_pos_iff.mpr hv
    obtain ⟨h2, _, htyp, _⟩ := K.lastTwo h
    have hntok := K.ntok
    rw [List.length_append, List.length_cons, List.length_singleton] at hntok
    refine ⟨by omega, ?_⟩
    rw [h2, htyp]
    rcases hr with rfl | rfl
    · exact Or.inl rfl
    · exact Or.inr rfl

theorem IsName.eq_none_iff {k : Option Nat} {m : Option (Token UInt8)} (h : IsName l k m) : k = none ↔ m = none := by
  cases k with
  | none =>
    cases m with
    | none => exact iff_of_true rfl rfl
    | some m => exact absurd h id
  | some k =>
    cases m with
    | none => exact absurd h id
    | some m => exact iff_of_false nofun nofun

/-- The first test is the second when no name has been found. -/
theorem redirection1_eq (hin : c.inname = none) (hout : c.outname = none) : redirection1 l c = redirection2 l c := by
  unfold redirection1 redirection2
  split
  · split
    · rfl
    · simp only [hin, hout, ne_eq, not_true_eq_false, if_false]
      split <;> rfl
  · rfl

/-- Without a redirection at the end nothing is peeled off. -/
theorem redirection2_other (h : Tokenized l ts) (K : Keeps l ts c u i o b) (hu : ¬EndsRedirection u) : redirection2 l c = some c := by
  rw [redirection2, if_neg ((K.isRedirection_iff h).not.mpr hu)]

/-- A redirection of the input is peeled off when none was before. -/
theorem redirection2_less (h : Tokenized l ts) (K : Keeps l ts c (v ++ [less, n]) i o b) (hv : v ≠ []) :
    (∃ c', redirection2 l c = some c' ∧ Ordinary n ∧ i = none ∧ Keeps l ts c' v (some n) o b) ∨
      redirection2 l c = none ∧ ¬(Ordinary n ∧ i = none) := by
  have hred := (K.isRedirection_iff h).mpr ⟨v, less, n, rfl, hv, Or.inl rfl⟩
  obtain ⟨h2, h1, htyp, htypn, htok, htext⟩ := K.lastTwo h
  have hless : toktype less = .SH_TOK_LESS := rfl
  rw [redirection2, if_pos hred, h1, h2, htyp, htypn, htok, hless, if_pos rfl]
  by_cases hn : toktype n = .SH_TOK_OTHER
  · rw [if_neg (not_not.mpr hn)]
    by_cases hin : c.inname = none
    · rw [if_neg (not_not.mpr hin)]
      refine Or.inl ⟨_, rfl, hn, K.inname.eq_none_iff.mp hin, ?_⟩
      exact ⟨(List.prefix_append _ _).trans K.initial, rfl, rfl, htext, K.outname, K.backgnd⟩
    · rw [if_pos hin]
      exact Or.inr ⟨rfl, fun hi => hin (K.inname.eq_none_iff.mpr hi.2)⟩
  · rw [if_pos hn]
    exact Or.inr ⟨rfl, fun h => hn h.1⟩

/-- A redirection of the output is peeled off when none was before. -/
theorem redirection2_greater (h : Tokenized l ts) (K : Keeps l ts c (v ++ [greater, n]) i o b) (hv : v ≠ []) :
    (∃ c', redirection2 l c = some c' ∧ Ordinary n ∧ o = none ∧ Keeps l ts c' v i (some n) b) ∨
      redirection2 l c = none ∧ ¬(Ordinary n ∧ o = none) := by
  have hred := (K.isRedirection_iff h).mpr ⟨v, greater, n, rfl, hv, Or.inr rfl⟩
  obtain ⟨h2, h1, htyp, htypn, htok, htext⟩ := K.lastTwo h
  have hgreater : toktype greater ≠ .SH_TOK_LESS := by decide
  rw [redirection2, if_pos hred, h1, h2, htyp, htypn, htok, if_neg hgreater]
  by_cases hn : toktype n = .SH_TOK_OTHER
  · rw [if_neg (not_not.mpr hn)]
    by_cases hout : c.outname = none
    · rw [if_neg (not_not.mpr hout)]
      refine Or.inl ⟨_, rfl, hn, K.outname.eq_none_iff.mp hout, ?_⟩
      exact ⟨(List.prefix_append _ _).trans K.initial, rfl, rfl, K.inname, htext, K.backgnd⟩
    · rw [if_pos hout]
      exact Or.inr ⟨rfl, fun ho => hout (K.outname.eq_none_iff.mpr ho.2)⟩
  · rw [if_pos hn]
    exact Or.inr ⟨rfl, fun h => hn h.1⟩

/-- The loop over the remaining tokens. -/
theorem otherLoop_lt_iff {toktyp : Nat → Toktype} {left k : Nat} :
    otherLoop toktyp left k < k + left ↔ ∃ j, k ≤ j ∧ j < k + left ∧ toktyp j ≠ .SH_TOK_OTHER := by
  induction left generalizing k with
  | zero => exact iff_of_false (Nat.lt_irrefl _) fun ⟨j, h1, h2, _⟩ => absurd h1 (by omega)
  | succ left ih =>
    rw [otherLoop]
    by_cases hk : toktyp k ≠ .SH_TOK_OTHER
    · rw [if_pos hk]
      exact iff_of_true (by omega) ⟨k, Nat.le_refl k, by omega, hk⟩
    · rw [if_neg hk, show k + (left + 1) = k + 1 + left by omega, ih]
      refine exists_congr fun j => ⟨fun ⟨h1, h2⟩ => ⟨by omega, h2⟩, fun ⟨h1, h2, h3⟩ => ⟨?_, h2, h3⟩⟩
      rcases Nat.eq_or_lt_of_le h1 with rfl | hlt
      · exact absurd h3 hk
      · exact hlt

/-- The last test: a token is left and all that are left are ordinary. -/
theorem Keeps.rejected_iff (h : Tokenized l ts) (K : Keeps l ts c u i o b) :
    (c.ntok = 0 ∨ otherLoop l.toktyp c.ntok 0 < c.ntok) ↔ ¬(u ≠ [] ∧ ∀ t ∈ u, Ordinary t) := by
  have hloop : otherLoop l.toktyp c.ntok 0 < c.ntok ↔ ∃ t ∈ u, ¬Ordinary t := by
    have hiff := @otherLoop_lt_iff l.toktyp c.ntok 0
    rw [Nat.zero_add] at hiff
    rw [hiff, K.ntok]
    obtain ⟨w, rfl⟩ := K.initial
    have htyp : ∀ j (hj : j < u.length), l.toktyp j = toktype u[j] := by
      intro j hj
      have hlt : j < (u ++ w).length := by
        rw [List.length_append]
        omega
      rw [h.stored.toktyp j hlt, List.getElem_append_left hj]
    constructor
    · rintro ⟨j, _, hj, hne⟩
      exact ⟨u[j], List.getElem_mem hj, fun ht => hne ((htyp j hj).trans ht)⟩
    · rintro ⟨t, ht, hne⟩
      obtain ⟨j, hj, rfl⟩ := List.getElem_of_mem ht
      exact ⟨j, Nat.zero_le j, hj, fun heq => hne ((htyp j hj).symm.trans heq)⟩
  rw [hloop, K.ntok, List.length_eq_zero_iff]
  constructor
  · rintro (hnil | ⟨t, ht, hne⟩) ⟨hu, hall⟩
    · exact hu hnil
    · exact hne (hall t ht)
  · intro hnot
    by_cases hu : u = []
    · exact Or.inl hu
    · refine Or.inr ?_
      by_contra hall
      exact hnot ⟨hu, fun t ht => by_contra fun hne => hall ⟨t, ht, hne⟩⟩

/-- What the parser does with the tokens in front of `&`. -/
theorem parse_eq (h : Tokenized l ts) (hne : ts ≠ []) (hin : (ampersand l).inname = none) (hout : (ampersand l).outname = none) :
    parse l = (redirection2 l (ampersand l)).bind fun c => (redirection2 l c).bind fun c =>
      if c.ntok = 0 ∨ otherLoop l.toktyp c.ntok 0 < c.ntok then none else some c := by
  have hntok : l.ntok ≠ 0 := by
    rw [h.stored.ntok]
    exact fun h0 => hne (List.length_eq_zero_iff.mp h0)
  rw [parse, if_neg hntok, redirection1_eq hin hout]

/-- The result of the parser. -/
structure Parsed (l : Lex) (c : Cmdline) (args : List (Token UInt8)) (inname outname : Option (Token UInt8)) (backgnd : Bool) : Prop where
  ntok : c.ntok = args.length
  tlen : c.tlen = textLength args
  inname : IsName l c.inname inname
  outname : IsName l c.outname outname
  backgnd : c.backgnd = backgnd

theorem Keeps.parsed (K : Keeps l ts c u i o b) : Parsed l c u i o b := ⟨K.ntok, K.tlen, K.inname, K.outname, K.backgnd⟩

theorem Keeps.names_none (K : Keeps l ts c u none none b) : c.inname = none ∧ c.outname = none :=
  ⟨K.inname.eq_none_iff.mpr rfl, K.outname.eq_none_iff.mpr rfl⟩

/-- What a test for a redirection peels off, with the names before and behind. -/
inductive Peels : List (Token UInt8) → (i o i' o' : Option (Token UInt8)) → Prop
  | nothing (i o : Option (Token UInt8)) : Peels [] i o i o
  | input (n : Token UInt8) (hn : Ordinary n) (o : Option (Token UInt8)) : Peels [less, n] none o (some n) o
  | output (m : Token UInt8) (hm : Ordinary m) (i : Option (Token UInt8)) : Peels [greater, m] i none i (some m)

/-- Two tests peel off at most one redirection of each kind. -/
theorem Peels.redirections {rs rs' : List (Token UInt8)} {i₁ o₁ i₂ o₂ : Option (Token UInt8)} (h : Peels rs none none i₁ o₁)
    (h' : Peels rs' i₁ o₁ i₂ o₂) : Redirections (rs' ++ rs) i₂ o₂ := by
  cases h with
  | nothing =>
    cases h' with
    | nothing => exact .none
    | input n hn => exact .input n hn
    | output m hm => exact .output m hm
  | input n hn =>
    cases h' with
    | nothing => exact .input n hn
    | output m hm => exact .outputInput n m hn hm
  | output m hm =>
    cases h' with
    | nothing => exact .output m hm
    | input n hn => exact .inputOutput n m hn hm

/-- One test for a redirection, for the tokens that are left when it has passed. -/
theorem Keeps.redirection (h : Tokenized l ts) (K : Keeps l ts c u i o b) (hc : redirection2 l c = some c') :
    ∃ v rs i' o', u = v ++ rs ∧ Keeps l ts c' v i' o' b ∧ Peels rs i o i' o' := by
  by_cases hu : EndsRedirection u
  · obtain ⟨v, r, n, rfl, hv, rfl | rfl⟩ := hu
    · rcases redirection2_less h K hv with ⟨c'', hsome, hn, hi, K'⟩ | ⟨hnone, _⟩
      · rw [hc] at hsome
        cases hsome
        subst hi
        exact ⟨v, _, _, _, rfl, K', .input n hn o⟩
      · rw [hc] at hnone
        cases hnone
    · rcases redirection2_greater h K hv with ⟨c'', hsome, hn, ho, K'⟩ | ⟨hnone, _⟩
      · rw [hc] at hsome
        cases hsome
        subst ho
        exact ⟨v, _, _, _, rfl, K', .output n hn i⟩
      · rw [hc] at hnone
        cases hnone
  · rw [redirection2_other h K hu] at hc
    cases hc
    exact ⟨u, [], i, o, (List.append_nil u).symm, K, .nothing i o⟩

/-- What the parser accepts has the form of a command. -/
theorem command_of_parse (h : Tokenized l ts) (hc : parse l = some c) :
    ∃ args i o b, Command ts args i o b ∧ Parsed l c args i o b := by
  have hne : ts ≠ [] := by
    rintro rfl
    have h0 : l.ntok = 0 := h.stored.ntok
    rw [parse, if_pos h0] at hc
    cases hc
  obtain ⟨u, b, hts, _, K⟩ := ampersand_keeps h hne
  rw [parse_eq h hne K.names_none.1 K.names_none.2, Option.bind_eq_some_iff] at hc
  obtain ⟨c₁, hc₁, hc⟩ := hc
  rw [Option.bind_eq_some_iff] at hc
  obtain ⟨c₂, hc₂, hc⟩ := hc
  split at hc
  · cases hc
  · next hlast =>
    cases hc
    obtain ⟨v₁, rs₁, i₁, o₁, rfl, K₁, hrs₁⟩ := K.redirection h hc₁
    obtain ⟨v₂, rs₂, i₂, o₂, rfl, K₂, hrs₂⟩ := K₁.redirection h hc₂
    rw [K₂.rejected_iff h, not_not] at hlast
    refine ⟨v₂, i₂, o₂, b, ⟨hlast.1, hlast.2, rs₂ ++ rs₁, ?_, ?_⟩, K₂.parsed⟩
    · exact hrs₁.redirections hrs₂
    · rw [hts, List.append_assoc v₂]

/-- Tokens that are all ordinary do not end with a redirection. -/
theorem not_endsRedirection (hu : ∀ t ∈ u, Ordinary t) : ¬EndsRedirection u := by
  rintro ⟨v, r, n, rfl, _, hr⟩
  have hord := hu r (List.mem_append_right _ List.mem_cons_self)
  rcases hr with rfl | rfl
  · exact absurd hord (by decide)
  · exact absurd hord (by decide)

/-- The last test passes when ordinary tokens are left. -/
theorem Keeps.accepted (h : Tokenized l ts) (K : Keeps l ts c u i o b) (hne : u ≠ []) (hord : ∀ t ∈ u, Ordinary t) :
    (redirection2 l c).bind (fun c => if c.ntok = 0 ∨ otherLoop l.toktyp c.ntok 0 < c.ntok then none else some c) = some c := by
  rw [redirection2_other h K (not_endsRedirection hord), Option.bind_some, if_neg]
  rw [K.rejected_iff h, not_not]
  exact ⟨hne, hord⟩

/-- A test that must pass. -/
theorem Keeps.peelInput (h : Tokenized l ts) (K : Keeps l ts c (v ++ [less, n]) none o b) (hv : v ≠ []) (hn : Ordinary n) :
    ∃ c', redirection2 l c = some c' ∧ Keeps l ts c' v (some n) o b := by
  rcases redirection2_less h K hv with ⟨c', hsome, _, _, K'⟩ | ⟨_, hnot⟩
  · exact ⟨c', hsome, K'⟩
  · exact absurd ⟨hn, rfl⟩ hnot

theorem Keeps.peelOutput (h : Tokenized l ts) (K : Keeps l ts c (v ++ [greater, n]) i none b) (hv : v ≠ []) (hn : Ordinary n) :
    ∃ c', redirection2 l c = some c' ∧ Keeps l ts c' v i (some n) b := by
  rcases redirection2_greater h K hv with ⟨c', hsome, _, _, K'⟩ | ⟨_, hnot⟩
  · exact ⟨c', hsome, K'⟩
  · exact absurd ⟨hn, rfl⟩ hnot

/-- The tests accept the tokens of a command in front of `&`. -/
theorem Keeps.command (h : Tokenized l ts) {rs : List (Token UInt8)} (K : Keeps l ts c (args ++ rs) none none b) (hne : args ≠ [])
    (hord : ∀ t ∈ args, Ordinary t) (hrs : Redirections rs i o) :
    ∃ c', ((redirection2 l c).bind fun c => (redirection2 l c).bind fun c =>
      if c.ntok = 0 ∨ otherLoop l.toktyp c.ntok 0 < c.ntok then none else some c) = some c' ∧ Keeps l ts c' args i o b := by
  have happend : ∀ t : List (Token UInt8), args ++ t ≠ [] := fun t h => hne (List.append_eq_nil_iff.mp h).1
  cases hrs with
  | none =>
    rw [List.append_nil] at K
    refine ⟨c, ?_, K⟩
    rw [redirection2_other h K (not_endsRedirection hord), Option.bind_some]
    exact K.accepted h hne hord
  | input n hn =>
    obtain ⟨c₁, hc₁, K₁⟩ := K.peelInput h hne hn
    exact ⟨c₁, by rw [hc₁, Option.bind_some]; exact K₁.accepted h hne hord, K₁⟩
  | output m hm =>
    obtain ⟨c₁, hc₁, K₁⟩ := K.peelOutput h hne hm
    exact ⟨c₁, by rw [hc₁, Option.bind_some]; exact K₁.accepted h hne hord, K₁⟩
  | inputOutput n m hn hm =>
    have hsplit : args ++ [less, n, greater, m] = (args ++ [less, n]) ++ [greater, m] := by simp
    rw [hsplit] at K
    obtain ⟨c₁, hc₁, K₁⟩ := K.peelOutput h (happend _) hm
    obtain ⟨c₂, hc₂, K₂⟩ := K₁.peelInput h hne hn
    refine ⟨c₂, ?_, K₂⟩
    rw [hc₁, Option.bind_some, hc₂, Option.bind_some, if_neg]
    rw [K₂.rejected_iff h, not_not]
    exact ⟨hne, hord⟩
  | outputInput n m hn hm =>
    have hsplit : args ++ [greater, m, less, n] = (args ++ [greater, m]) ++ [less, n] := by simp
    rw [hsplit] at K
    obtain ⟨c₁, hc₁, K₁⟩ := K.peelInput h (happend _) hn
    obtain ⟨c₂, hc₂, K₂⟩ := K₁.peelOutput h hne hm
    refine ⟨c₂, ?_, K₂⟩
    rw [hc₁, Option.bind_some, hc₂, Option.bind_some, if_neg]
    rw [K₂.rejected_iff h, not_not]
    exact ⟨hne, hord⟩

/-- In front of `&` stands an ordinary token. -/
theorem Redirections.last {rs : List (Token UInt8)} (h : Redirections rs i o) (hne : args ≠ []) (hord : ∀ t ∈ args, Ordinary t) :
    ∃ v t, args ++ rs = v ++ [t] ∧ Ordinary t := by
  cases h with
  | none =>
    refine ⟨args.dropLast, args.getLast hne, ?_, hord _ (List.getLast_mem hne)⟩
    rw [List.append_nil, List.dropLast_append_getLast hne]
  | input n hn => exact ⟨args ++ [less], n, by simp, hn⟩
  | output m hm => exact ⟨args ++ [greater], m, by simp, hm⟩
  | inputOutput n m hn hm => exact ⟨args ++ [less, n, greater], m, by simp, hm⟩
  | outputInput n m hn hm => exact ⟨args ++ [greater, m, less], n, by simp, hn⟩

/-- A command is accepted. -/
theorem parse_of_command (h : Tokenized l ts) (C : Command ts args i o b) : ∃ c, parse l = some c ∧ Keeps l ts c args i o b := by
  obtain ⟨rs, hrs, hform⟩ := C.form
  have hne : ts ≠ [] := by
    rw [hform]
    intro h0
    exact C.ne_nil (List.append_eq_nil_iff.mp (List.append_eq_nil_iff.mp h0).1).1
  obtain ⟨u, b', hts, hlast, K⟩ := ampersand_keeps h hne
  have hsame : b' = b ∧ u = args ++ rs := by
    rw [hform] at hts hlast
    cases b' with
    | true =>
      cases b with
      | true => exact ⟨rfl, (List.append_cancel_right hts).symm⟩
      | false =>
        obtain ⟨v, t, hv, ht⟩ := hrs.last C.ne_nil C.ordinary
        rw [hv] at hts
        have hend : v ++ [t] = u ++ [amper] := (List.append_nil _).symm.trans hts
        obtain rfl : t = amper := (List.cons.inj (List.append_inj_right' hend rfl)).1
        exact absurd ht (by decide)
    | false =>
      cases b with
      | true => exact absurd rfl (hlast rfl (args ++ rs))
      | false => exact ⟨rfl, by simpa using hts.symm⟩
  obtain ⟨rfl, rfl⟩ := hsame
  obtain ⟨c, hc, Kc⟩ := K.command h C.ne_nil C.ordinary hrs
  refine ⟨c, ?_, Kc⟩
  rw [parse_eq h hne K.names_none.1 K.names_none.2, hc]

end Parsing

section Stack

variable {mem : Buffer} {saddr o argstr : Nat} {procaddr initret dummy w : UInt32} {ws vs : List UInt32} {tok : Nat → Nat}

theorem push_words {s : Nat × Buffer} (h : s.2.Words s.1 ws) (h4 : 4 ≤ s.1) (w : UInt32) :
    (push s w).1 = s.1 - 4 ∧ (push s w).2.Words (s.1 - 4) (w :: ws) := by
  refine ⟨rfl, word_setWord _ _, ?_⟩
  rw [Nat.sub_add_cancel h4]
  exact h.congr fun i hi _ => setWord_off (by omega)

/-- Values that are pushed one after the other. -/
theorem foldl_push_words {s : Nat × Buffer} (h : s.2.Words s.1 ws) (hroom : 4 * vs.length ≤ s.1) :
    (vs.foldl push s).1 = s.1 - 4 * vs.length ∧ (vs.foldl push s).2.Words (s.1 - 4 * vs.length) (vs.reverse ++ ws) := by
  induction vs generalizing s ws with
  | nil => exact ⟨rfl, h⟩
  | cons v vs ih =>
    rw [List.length_cons] at hroom
    obtain ⟨h1, h2⟩ := push_words h (by omega) v
    obtain ⟨h3, h4⟩ := ih (h1 ▸ h2) (by rw [h1]; omega)
    have hplace : s.1 - 4 - 4 * vs.length = s.1 - 4 * (vs.length + 1) := by omega
    rw [h1, hplace] at h3 h4
    rw [List.length_cons, List.reverse_cons, List.append_assoc]
    exact ⟨h3, h4⟩

/-- The stack of a process with two arguments. -/
theorem createStack_two (h : 60 ≤ saddr) (a b : UInt32) : (createStack saddr procaddr initret [a, b] mem).1 = saddr - 60 ∧
    (createStack saddr procaddr initret [a, b] mem).2.Words (saddr - 60)
      ([0x53, initret, a, b, 0, 0] ++ List.replicate 8 0 ++ [procaddr, STACKMAGIC]) := by
  have hpushes : createStack saddr procaddr initret [a, b] mem =
      (procaddr :: (List.replicate 8 0 ++ [0, 0, b, a, initret, 0x53])).foldl push (saddr, mem.setWord saddr STACKMAGIC) := rfl
  have hmagic : (mem.setWord saddr STACKMAGIC).Words saddr [STACKMAGIC] := ⟨word_setWord _ _, trivial⟩
  rw [hpushes]
  exact foldl_push_words hmagic h

/-- The loop over the args vector. -/
theorem vectorLoop_words {left i : Nat} : (vectorLoop tok argstr left i o mem).1 = o + 4 * left ∧
    (vectorLoop tok argstr left i o mem).2.Words o ((List.range' i left).map fun j => UInt32.ofNat (argstr + tok j)) ∧
    ∀ a, a < o ∨ o + 4 * left ≤ a → (vectorLoop tok argstr left i o mem).2 a = mem a := by
  induction left generalizing i o mem with
  | zero => exact ⟨rfl, trivial, fun _ _ => rfl⟩
  | succ left ih =>
    obtain ⟨h1, h2, h3⟩ := @ih (mem.setWord o (UInt32.ofNat (argstr + tok i))) (o + 4) (i + 1)
    rw [vectorLoop]
    refine ⟨by rw [h1]; omega, ⟨?_, h2⟩, fun a ha => ?_⟩
    · refine (word_congr fun a ha hlt => h3 a (Or.inl hlt)).trans (word_setWord _ _)
    · rw [h3 a (by omega)]
      exact setWord_off (by omega)

/-- The search for a value that stands behind others. -/
theorem searchLoop_words {left : Nat} (h : mem.Words o (ws ++ dummy :: vs)) (hne : dummy ∉ ws) (hleft : ws.length < left) :
    searchLoop mem dummy left o = some (o + 4 * ws.length) := by
  induction ws generalizing o left with
  | nil =>
    obtain ⟨n, rfl⟩ : ∃ n, left = n + 1 := ⟨left - 1, by rw [List.length_nil] at hleft; omega⟩
    exact if_pos h.1
  | cons w ws ih =>
    rw [List.length_cons] at hleft ⊢
    obtain ⟨n, rfl⟩ : ∃ n, left = n + 1 := ⟨left - 1, by omega⟩
    have hw : w ≠ dummy := fun h => hne (h ▸ List.mem_cons_self)
    rw [searchLoop, h.1, if_neg hw, ih h.2 (fun h => hne (List.mem_cons_of_mem _ h)) (by omega)]
    congr 1
    omega

/-- `addargs` on a stack in which the dummy argument is found, when the vector and the text fit below it. -/
theorem addargs_found {prstkbase prstklen prstkptr argloc ntok n : Nat} {tokbuf : Buffer}
    (hargloc : (prstkbase - prstklen + 4 + 3) / 4 * 4 = argloc) (hntok : ntok ≠ 0) (hframe : mem.Words prstkptr (ws ++ dummy :: vs))
    (hdummy : dummy ∉ ws) (hroom : argloc + 4 * (ntok + 1) + n ≤ prstkptr) (hleft : ws.length < (prstkbase - prstkptr) / 4) :
    ∃ mem', addargs prstkbase prstklen prstkptr ntok tok n tokbuf dummy mem = (OK, mem') ∧
      mem'.Words prstkptr (ws ++ UInt32.ofNat argloc :: vs) ∧
      mem'.Words argloc ((List.range' 0 ntok).map fun j => UInt32.ofNat (argloc + 4 * (ntok + 1) + tok j)) ∧
      mem'.word (argloc + 4 * ntok) = 0 ∧ ∀ i < n, mem' (argloc + 4 * (ntok + 1) + i) = tokbuf i := by
  obtain ⟨haptr, hvector, hsame⟩ := @vectorLoop_words mem argloc (argloc + 4 * (ntok + 1)) tok ntok 0
  have hguard : ¬(ntok = 0 ∨ (n : Int) < 0) := by omega
  -- the memory when the vector and the text are written
  have hsame' : ∀ a, argloc + 4 * (ntok + 1) + n ≤ a →
      (((vectorLoop tok (argloc + 4 * (ntok + 1)) ntok 0 argloc mem).2.setWord (argloc + 4 * ntok) 0).copy (argloc + 4 * (ntok + 1))
        tokbuf n) a = mem a := by
    intro a ha
    rw [copy_off (by omega), setWord_off (by omega), hsame a (by omega)]
  have hframe' := hframe.congr fun a ha _ => hsame' a (by omega)
  have hsearch := searchLoop_words hframe' hdummy hleft
  rw [words_append, words_cons] at hframe'
  unfold addargs
  rw [if_neg hguard]
  dsimp only
  rw [hargloc, haptr, show argloc + 4 * ntok + 4 = argloc + 4 * (ntok + 1) by omega, Int.toNat_natCast, hsearch]
  refine ⟨_, rfl, ?_, ?_, ?_, fun i hi => ?_⟩
  · rw [words_append, words_cons]
    refine ⟨hframe'.1.congr fun a _ hlt => setWord_off (Or.inl hlt), word_setWord _ _, hframe'.2.2.congr fun a hle _ => ?_⟩
    exact setWord_off (Or.inr hle)
  · refine hvector.congr fun a _ hlt => ?_
    rw [List.length_map, List.length_range'] at hlt
    rw [setWord_off (by omega), copy_off (by omega), setWord_off (by omega)]
  · rw [word_congr fun a _ _ => setWord_off (by omega), word_congr fun a _ _ => copy_off (by omega), word_setWord]
  · rw [setWord_off (by omega), copy_at hi]

/-- Where a command is created: the block for its stack, the addresses that the compiler fixes and the address of the variable of the shell
whose address is the dummy argument. That variable is a word of its own, not at the start of the memory. -/
structure Layout where
  base : Nat
  procaddr : UInt32
  initret : UInt32
  dummy : UInt32
  base_pos : 0 < base
  base_aligned : base % 4 = 0
  fits : base + SHELL_CMDSTK ≤ 4294967296
  dummy_aligned : dummy.toNat % 4 = 0
  dummy_high : SHELL_MAXTOK < dummy.toNat
  dummy_ne : dummy ≠ initret

/-- `prstkbase`: the address that `getstk` returns is that of the last word of the block. -/
def Layout.prstkbase (L : Layout) : Nat := L.base + SHELL_CMDSTK - 4

/-- The stack that `create` makes for a command with `ntok` tokens. -/
def Layout.create (L : Layout) (ntok : Nat) (mem : Buffer) : Nat × Buffer :=
  createStack L.prstkbase L.procaddr L.initret [UInt32.ofNat ntok, L.dummy] mem

/-- `addargs` for that command. -/
def Layout.addargs (L : Layout) (l : Lex) (c : Cmdline) (mem : Buffer) : Int × Buffer :=
  Shell.addargs L.prstkbase SHELL_CMDSTK (L.create c.ntok mem).1 c.ntok l.tok c.tlen l.tokbuf L.dummy (L.create c.ntok mem).2

/-- The stack holds an argument vector: the addresses of the tokens in order, and a null pointer. -/
structure ArgumentVector (mem : Buffer) (argloc : Nat) (args : List (Token UInt8)) : Prop where
  entries : ∀ i (h : i < args.length), mem.IsText (mem.word (argloc + 4 * i)).toNat args[i].text
  null : mem.word (argloc + 4 * args.length) = 0

/-- The dummy argument is none of the words that `create` pushed behind it. -/
theorem Layout.dummy_not_mem (L : Layout) {n : Nat} (hn : n ≤ SHELL_MAXTOK) : L.dummy ∉ [0x53, L.initret, UInt32.ofNat n] := by
  have hhigh : SHELL_MAXTOK < L.dummy.toNat := L.dummy_high
  change n ≤ 32 at hn
  change 32 < L.dummy.toNat at hhigh
  simp only [List.mem_cons, List.not_mem_nil, or_false, not_or]
  refine ⟨fun h53 => ?_, L.dummy_ne, fun hn => ?_⟩
  · have haligned := L.dummy_aligned
    rw [h53] at haligned
    exact absurd haligned (by decide)
  · rw [hn, UInt32.toNat_ofNat'] at hhigh
    omega

theorem textLength_take_le (ts : List (Token UInt8)) (i : Nat) : textLength (ts.take i) ≤ textLength ts := by
  conv_rhs => rw [← List.take_append_drop i ts, textLength_append]
  exact Nat.le_add_right _ _

section Arguments

variable {l : Lex} {ts args : List (Token UInt8)} {c : Cmdline} {i o : Option (Token UInt8)} {b : Bool}

/-- The place of an argument in the text. -/
theorem Keeps.tok_eq (K : Keeps l ts c args i o b) (h : Tokenized l ts) {k : Nat} (hk : k < args.length) :
    l.tok k = textLength (args.take k) := by
  obtain ⟨u, hu⟩ := K.initial
  have hlt : k < ts.length := by
    rw [← hu, List.length_append]
    exact Nat.lt_add_right _ hk
  rw [h.stored.tok k hlt, ← hu, List.take_append_of_le_length (Nat.le_of_lt hk)]

/-- The text of the arguments is at the start of the buffer. -/
theorem Keeps.holds_args (K : Keeps l ts c args i o b) (h : Tokenized l ts) : l.tokbuf.Holds 0 (texts args) := by
  obtain ⟨u, hu⟩ := K.initial
  have hall := h.stored.holds
  rw [← hu, texts_append, holds_append] at hall
  exact hall.1

/-- `addargs` for a command with these tokens, when they fit below the words that `create` pushed. -/
theorem addargs_vector (L : Layout) (h : Tokenized l ts) (K : Keeps l ts c args i o b) (hne : args ≠ [])
    (hntok : args.length ≤ SHELL_MAXTOK) (hroom : 4 * (args.length + 1) + textLength args ≤ SHELL_CMDSTK - 64) (mem : Buffer) :
    (L.addargs l c mem).1 = OK ∧ ArgumentVector (L.addargs l c mem).2 L.base args ∧ (L.addargs l c mem).2.Words (L.create c.ntok mem).1
      ([0x53, L.initret, UInt32.ofNat args.length, UInt32.ofNat L.base, 0, 0] ++ List.replicate 8 0 ++ [L.procaddr, STACKMAGIC]) := by
  have hfits := L.fits
  have hbase := L.base_aligned
  change L.base + 8192 ≤ 4294967296 at hfits
  change 4 * (args.length + 1) + textLength args ≤ 8128 at hroom
  have hprstkbase : L.prstkbase = L.base + 8188 := rfl
  have hpos := L.base_pos
  obtain ⟨hptr, hframe⟩ := @createStack_two mem L.prstkbase L.procaddr L.initret (by omega) (UInt32.ofNat c.ntok) L.dummy
  have hptr' : (L.create c.ntok mem).1 = L.base + 8128 := hptr.trans (by omega)
  have hsplit : ([0x53, L.initret, UInt32.ofNat c.ntok, L.dummy, 0, 0] ++ List.replicate 8 0 ++ [L.procaddr, STACKMAGIC] : List UInt32) =
      [0x53, L.initret, UInt32.ofNat c.ntok] ++ L.dummy :: ([0, 0] ++ List.replicate 8 0 ++ [L.procaddr, STACKMAGIC]) := rfl
  rw [hsplit, ← hptr] at hframe
  have hdummy := L.dummy_not_mem (K.ntok.trans_le hntok)
  have hargloc : (L.prstkbase - SHELL_CMDSTK + 4 + 3) / 4 * 4 = L.base := by
    rw [hprstkbase]
    change (L.base + 8188 - 8192 + 4 + 3) / 4 * 4 = L.base
    omega
  have hpos' : c.ntok ≠ 0 := by
    rw [K.ntok]
    exact fun h0 => hne (List.length_eq_zero_iff.mp h0)
  have hroom' : L.base + 4 * (c.ntok + 1) + textLength args ≤ (L.create c.ntok mem).1 := by
    rw [hptr', K.ntok]
    omega
  have hleft : ([0x53, L.initret, UInt32.ofNat c.ntok] : List UInt32).length < (L.prstkbase - (L.create c.ntok mem).1) / 4 := by
    rw [hptr', hprstkbase]
    change 3 < (L.base + 8188 - (L.base + 8128)) / 4
    omega
  obtain ⟨mem', hcall, hwords, hvector, hnull, htext⟩ :=
    @addargs_found _ _ _ _ l.tok _ _ _ _ c.ntok (textLength args) l.tokbuf hargloc hpos' hframe hdummy hroom' hleft
  have hcall' : L.addargs l c mem = (OK, mem') := by
    rw [Layout.addargs, K.tlen]
    exact hcall
  have hcopied : mem'.Holds (L.base + 4 * (c.ntok + 1)) (texts args) := by
    have hargs := K.holds_args h
    rw [holds_iff_getElem] at hargs ⊢
    intro j hj
    rw [htext j (length_texts args ▸ hj), ← hargs j hj, Nat.zero_add]
  rw [hcall']
  refine ⟨rfl, ⟨fun k hk => ?_, ?_⟩, ?_⟩
  · obtain ⟨u, hu⟩ := K.initial
    have hk' : k < c.ntok := K.ntok ▸ hk
    have hentry : mem'.word (L.base + 4 * k) = UInt32.ofNat (L.base + 4 * (c.ntok + 1) + textLength (args.take k)) := by
      rw [hvector.getElem (by simpa using hk')]
      simp [K.tok_eq h hk]
    have hle := textLength_take_le args k
    have hplace : (mem'.word (L.base + 4 * k)).toNat = L.base + 4 * (c.ntok + 1) + textLength (args.take k) := by
      rw [hentry, UInt32.toNat_ofNat', Nat.mod_eq_of_lt]
      rw [K.ntok]
      omega
    rw [hplace]
    exact isText_of_texts hcopied (fun t ht => h.text t (hu ▸ List.mem_append_left _ ht)) hk
  · rw [← K.ntok]
    exact hnull
  · rw [K.ntok] at hwords ⊢
    exact hwords

end Arguments

end Stack

/-- The shell goes on exactly with the lines that have the form of a command, with its names and its flag, and the arguments are left in the
stack of the child: the vector at the start, with its address in place of the dummy argument behind the count. -/
structure RunsCommands (line : List UInt8) (l : Lex) (ts : List (Token UInt8)) : Prop where
  goes_on : (∃ c, parse l = some c) ↔ ∃ args inname outname backgnd, Command ts args inname outname backgnd
  parsed : ∀ args inname outname backgnd, Command ts args inname outname backgnd →
    ∃ c, parse l = some c ∧ Parsed l c args inname outname backgnd ∧
      ((body line).length ≤ SHELL_BUFLEN → ∀ (L : Layout) (mem : Buffer), (L.addargs l c mem).1 = OK ∧
        ArgumentVector (L.addargs l c mem).2 L.base args ∧ (L.addargs l c mem).2.Words (L.create c.ntok mem).1
          ([0x53, L.initret, UInt32.ofNat args.length, UInt32.ofNat L.base, 0, 0] ++ List.replicate 8 0 ++ [L.procaddr, STACKMAGIC]))

/-- For the tokens that `lexan` returns for a line. -/
theorem shell_runs_commands {line : List UInt8} {tokbuf : Buffer} {tok : Nat → Nat} {toktyp : Nat → Toktype} {l : Lex}
    (h : lexan line tokbuf tok toktyp = some l) : ∃ ts, shell.Lexes (body line) ts ∧ Stored l ts ∧ RunsCommands line l ts := by
  obtain ⟨ts, hts, hmax, hstored, h0⟩ := stored_of_lexan h
  have htokens : Tokenized l ts := ⟨hstored, h0, fun c hc => Lexed.symbols hts c hc⟩
  refine ⟨ts, hts, hstored, ⟨?_, ?_⟩, fun args i o b C => ?_⟩
  · rintro ⟨c, hc⟩
    obtain ⟨args, i, o, b, C, _⟩ := command_of_parse htokens hc
    exact ⟨args, i, o, b, C⟩
  · rintro ⟨args, i, o, b, C⟩
    obtain ⟨c, hc, _⟩ := parse_of_command htokens C
    exact ⟨c, hc⟩
  · obtain ⟨c, hc, K⟩ := parse_of_command htokens C
    refine ⟨c, hc, K.parsed, fun hline L mem => ?_⟩
    obtain ⟨u, hu⟩ := K.initial
    have hlen := hts.length_texts
    have hargs : textLength args ≤ textLength ts := by
      rw [← hu, textLength_append]
      exact Nat.le_add_right _ _
    have hcount : args.length ≤ ts.length := K.initial.length_le
    rw [textLength_eq ts] at hargs
    rw [List.length_nil] at hlen
    change (body line).length ≤ 129 at hline
    change ts.length ≤ 32 at hmax
    exact addargs_vector L htokens K C.ne_nil (hcount.trans hmax) (by change _ ≤ 8128; omega) mem

/-- The line `sort -r < in > out &`. -/
def sortLine : List UInt8 := "sort -r < in > out &\n".toList.map fun c => UInt8.ofNat c.toNat

/-- Memory in which the command can be created. -/
def sortLayout : Layout :=
  ⟨0x80100000, 0x80002000, 0x80003000, 0x9ffff000, by decide, by decide, by decide, by decide, by decide, by decide⟩

/-- The command line is parsed, and its arguments are passed. -/
theorem shell_runs_sort : ∃ l c ts, lexan sortLine (fun _ => 0) (fun _ => 0) (fun _ => .SH_TOK_OTHER) = some l ∧ parse l = some c ∧
    c.backgnd = true ∧ RunsCommands sortLine l ts ∧ ∃ args, (sortLayout.addargs l c fun _ => 0).1 = OK ∧
      ArgumentVector (sortLayout.addargs l c fun _ => 0).2 sortLayout.base args := by
  have hsome : ((lexan sortLine (fun _ => 0) (fun _ => 0) fun _ => .SH_TOK_OTHER).bind parse).map Cmdline.backgnd = some true := by
    decide +kernel
  rw [Option.map_eq_some_iff] at hsome
  obtain ⟨c, hc, hback⟩ := hsome
  rw [Option.bind_eq_some_iff] at hc
  obtain ⟨l, hl, hc⟩ := hc
  obtain ⟨ts, hts, hstored, R⟩ := shell_runs_commands hl
  obtain ⟨args, i, o, b, C⟩ := R.goes_on.mp ⟨c, hc⟩
  obtain ⟨c', hc', _, hpassed⟩ := R.parsed args i o b C
  rw [hc] at hc'
  cases hc'
  obtain ⟨hok, hvector, _⟩ := hpassed (by decide +kernel) sortLayout fun _ => 0
  exact ⟨l, c, ts, hl, hc, hback, R, args, hok, hvector⟩

end Shell

end Xinu
