import Mathlib.Data.List.TakeWhile
import Xinu.Shell.Lexan

/-!
# The tokens of a command line

The test for too many tokens stands in front of the loop that passes over blanks: a line of 32 tokens is refused when a blank or a tab stands
behind the last one. Every other line is cut into its tokens.
-/

namespace Xinu

namespace Shell

open Buffer Tokens Alphabet

/-- The characters of a command line. -/
def shell : Alphabet UInt8 where
  kind c :=
    if c = SH_BLANK ∨ c = SH_TAB then .blank
    else if c = SH_AMPER ∨ c = SH_LESS ∨ c = SH_GREATER then .symbol
    else if c = SH_SQUOTE ∨ c = SH_DQUOTE then .quote
    else .letter
  joins c := c = SH_AMPER

/-- The type of a token. -/
def toktype : Token UInt8 → Toktype
  | .symbol c => if c = SH_AMPER then .SH_TOK_AMPER else if c = SH_LESS then .SH_TOK_LESS else .SH_TOK_GREATER
  | _ => .SH_TOK_OTHER

/-- The characters in front of the end of the line. -/
def Clean (p : List UInt8) : Prop := ∀ c ∈ p, c ≠ NULLCH ∧ c ≠ SH_NEWLINE

/-- The end of the line and what stands behind it. -/
def AtEnd (e : List UInt8) : Prop := ∀ c ∈ e.head?, c = NULLCH ∨ c = SH_NEWLINE

section Loops

variable {c q : UInt8} {p e r s w b : List UInt8} {l l' : Lex} {ts : List (Token UInt8)}

/-- The characters that are blanks. -/
theorem kind_blank : shell.kind c = .blank ↔ c = SH_BLANK ∨ c = SH_TAB := by
  unfold shell
  dsimp only
  split
  · next h => exact iff_of_true rfl h
  · next h =>
    refine iff_of_false ?_ h
    split
    · exact nofun
    · split <;> exact nofun

/-- A symbol is one of the three characters. -/
theorem kind_symbol (h : shell.kind c = .symbol) : c = SH_AMPER ∨ c = SH_LESS ∨ c = SH_GREATER := by
  unfold shell at h
  dsimp only at h
  split at h
  · cases h
  · split at h
    · assumption
    · split at h <;> cases h

/-- A quote is one of the two. -/
theorem kind_quote (h : shell.kind c = .quote) : c = SH_SQUOTE ∨ c = SH_DQUOTE := by
  unfold shell at h
  dsimp only at h
  split at h
  · cases h
  · split at h
    · cases h
    · split at h
      · assumption
      · cases h

/-- All others are letters. -/
theorem kind_letter : shell.kind c = .letter ↔ ¬(c = SH_BLANK ∨ c = SH_TAB) ∧ ¬(c = SH_AMPER ∨ c = SH_LESS ∨ c = SH_GREATER) ∧
    ¬(c = SH_SQUOTE ∨ c = SH_DQUOTE) := by
  unfold shell
  dsimp only
  split
  · next h => exact iff_of_false nofun fun h' => h'.1 h
  · next h1 =>
    split
    · next h => exact iff_of_false nofun fun h' => h'.2.1 h
    · next h2 =>
      split
      · next h => exact iff_of_false nofun fun h' => h'.2.2 h
      · next h3 => exact iff_of_true rfl ⟨h1, h2, h3⟩

theorem clean_append : Clean (p ++ r) ↔ Clean p ∧ Clean r := List.forall_mem_append

theorem clean_cons : Clean (c :: p) ↔ (c ≠ NULLCH ∧ c ≠ SH_NEWLINE) ∧ Clean p := List.forall_mem_cons

/-- The loop over blanks. -/
theorem skip_blanks (hb : ∀ c ∈ b, shell.kind c = .blank) (hp : ∀ c ∈ p.head?, shell.kind c ≠ .blank) : skip (b ++ p) = p := by
  induction b with
  | nil =>
    cases p with
    | nil => rfl
    | cons c p => exact if_neg fun h => hp c rfl (kind_blank.mpr h)
  | cons c b ih =>
    obtain ⟨hc, hb⟩ := List.forall_mem_cons.mp hb
    rw [List.cons_append, skip, if_pos (kind_blank.mp hc), ih hb]

/-- The loop over a quoted string that ends. -/
theorem quoteLoop_quoted (hq : q ∉ s) (hs : Clean s) : quoteLoop q (s ++ q :: p) l = some (p, s.foldl Lex.put l) := by
  induction s generalizing l with
  | nil => exact if_pos rfl
  | cons c s ih =>
    obtain ⟨hc, hs⟩ := clean_cons.mp hs
    have hcq : c ≠ q := fun h => hq (h ▸ List.mem_cons_self)
    have hend : ¬(c = SH_NEWLINE ∨ c = NULLCH) := fun h => h.elim hc.2 hc.1
    rw [List.cons_append, quoteLoop, if_neg hcq, if_neg hend, ih (fun h => hq (List.mem_cons_of_mem _ h)) hs, List.foldl_cons]

/-- The loop over a quoted string that does not end. -/
theorem quoteLoop_unterminated (hq : q ∉ s) (hs : Clean s) (he : AtEnd e) (hqe : q ≠ NULLCH ∧ q ≠ SH_NEWLINE) :
    quoteLoop q (s ++ e) l = none := by
  induction s generalizing l with
  | nil =>
    cases e with
    | nil => rfl
    | cons c e =>
      have hend : c = SH_NEWLINE ∨ c = NULLCH := (he c rfl).symm
      have hcq : c ≠ q := by
        rintro rfl
        exact hend.elim hqe.2 hqe.1
      rw [List.nil_append, quoteLoop, if_neg hcq, if_pos hend]
  | cons c s ih =>
    obtain ⟨hc, hs⟩ := clean_cons.mp hs
    have hcq : c ≠ q := fun h => hq (h ▸ List.mem_cons_self)
    have hend : ¬(c = SH_NEWLINE ∨ c = NULLCH) := fun h => h.elim hc.2 hc.1
    rw [List.cons_append, quoteLoop, if_neg hcq, if_neg hend, ih (fun h => hq (List.mem_cons_of_mem _ h)) hs]

/-- The loop over the letters of a word. -/
theorem wordLoop_word (hw : ∀ c ∈ w, shell.kind c = .letter) (hclean : Clean w)
    (hp : ∀ c ∈ p.head?, shell.kind c ≠ .letter ∨ c = NULLCH ∨ c = SH_NEWLINE) : wordLoop (w ++ p) l = (p, w.foldl Lex.put l) := by
  induction w generalizing l with
  | nil =>
    cases p with
    | nil => rfl
    | cons c p =>
      refine if_pos ?_
      have h := hp c rfl
      rw [Ne, kind_letter, not_and_or, not_and_or, not_not, not_not, not_not] at h
      grind
  | cons c w ih =>
    obtain ⟨hc, hclean⟩ := clean_cons.mp hclean
    obtain ⟨hletter, hw⟩ := List.forall_mem_cons.mp hw
    have hno := kind_letter.mp hletter
    rw [List.cons_append, wordLoop, if_neg (by tauto), ih hw hclean, List.foldl_cons]

end Loops

section Scanning

variable {c q : UInt8} {p p' e r s w b : List UInt8} {l l' : Lex} {t : Token UInt8} {ts : List (Token UInt8)}

/-- Store a token. -/
def Lex.token (l : Lex) (t : Token UInt8) : Lex := (t.text.foldl Lex.put (l.start (toktype t))).count

/-- The characters of a token go into the buffer one after the other. -/
theorem foldl_put (s : List UInt8) (l : Lex) : (s.foldl Lex.put l).ntok = l.ntok ∧ (s.foldl Lex.put l).tbindex = l.tbindex + s.length ∧
    (s.foldl Lex.put l).tok = l.tok ∧ (s.foldl Lex.put l).toktyp = l.toktyp := by
  induction s generalizing l with
  | nil => exact ⟨rfl, rfl, rfl, rfl⟩
  | cons c s ih =>
    obtain ⟨h1, h2, h3, h4⟩ := ih (l.put c)
    refine ⟨h1, h2.trans ?_, h3, h4⟩
    rw [List.length_cons, Lex.put]
    dsimp only
    omega

@[simp] theorem token_ntok (l : Lex) (t : Token UInt8) : (l.token t).ntok = l.ntok + 1 := congrArg (· + 1) (foldl_put t.text _).1

/-- The tokens that the scanner stores on the rest of a line, and when it does: there are not too many of them, and no blanks at the end when
there is no room for more. -/
def Accepts (p : List UInt8) (l l' : Lex) : Prop :=
  ∃ ts, shell.Lexes p ts ∧ l.ntok + ts.length ≤ SHELL_MAXTOK ∧ (l.ntok + ts.length = SHELL_MAXTOK → ¬shell.EndsBlank p) ∧
    l' = ts.foldl Lex.token l

/-- The first token is stored. -/
theorem accepts_token (hlex : ∀ ts, shell.Lexes p ts ↔ ∃ ts', ts = t :: ts' ∧ shell.Lexes p' ts')
    (hblank : shell.EndsBlank p ↔ shell.EndsBlank p') : Accepts p l l' ↔ Accepts p' (l.token t) l' := by
  constructor
  · rintro ⟨ts, hts, hle, heq, rfl⟩
    obtain ⟨ts', rfl, hts'⟩ := (hlex ts).mp hts
    rw [List.length_cons] at hle heq
    refine ⟨ts', hts', ?_, fun h => ?_, rfl⟩
    · rw [token_ntok]
      omega
    · rw [token_ntok] at h
      exact hblank.not.mp (heq (by omega))
  · rintro ⟨ts', hts', hle, heq, rfl⟩
    rw [token_ntok] at hle heq
    refine ⟨t :: ts', (hlex _).mpr ⟨ts', rfl, hts'⟩, ?_, fun h => ?_, rfl⟩
    · rw [List.length_cons]
      omega
    · rw [List.length_cons] at h
      exact hblank.not.mpr (heq (by omega))

/-- The empty line is accepted unless there are too many tokens. -/
theorem accepts_nil : Accepts [] l l' ↔ l.ntok ≤ SHELL_MAXTOK ∧ l' = l := by
  constructor
  · rintro ⟨ts, hts, hle, _, rfl⟩
    obtain rfl := lexes_nil.mp hts
    exact ⟨hle, rfl⟩
  · rintro ⟨hle, rfl⟩
    refine ⟨[], lexes_nil.mpr rfl, hle, fun _ hb => ?_, rfl⟩
    obtain ⟨_, h, _⟩ := hb
    cases h

/-- With room for a token, blanks in front do not matter. -/
theorem accepts_blanks (hn : l.ntok < SHELL_MAXTOK) (hb : ∀ c ∈ b, shell.kind c = .blank) : Accepts (b ++ p) l l' ↔ Accepts p l l' := by
  unfold Accepts
  cases p with
  | nil =>
    refine exists_congr fun ts => ?_
    rw [lexes_blanks hb]
    refine and_congr_right fun hts => ?_
    obtain rfl := lexes_nil.mp hts
    have hne : l.ntok + ([] : List (Token UInt8)).length ≠ SHELL_MAXTOK := Nat.ne_of_lt hn
    simp only [hne, false_imp_iff]
  | cons c p => simp only [lexes_blanks hb, endsBlank_append (List.cons_ne_nil c p)]

/-- Without room for a token only the empty rest of a line is accepted. -/
theorem not_accepts_full (hn : l.ntok = SHELL_MAXTOK) (hp : p ≠ []) : ¬Accepts p l l' := by
  rintro ⟨ts, hts, hle, heq, _⟩
  have hnil : ts = [] := List.length_eq_zero_iff.mp (by omega)
  subst hnil
  exact heq hn (hts.endsBlank.resolve_left hp)

theorem not_accepts (h : ∀ ts, ¬shell.Lexes p ts) : ¬Accepts p l l' := fun ⟨ts, hts, _⟩ => h ts hts

theorem headD_of_atEnd (he : AtEnd e) : e.headD NULLCH = NULLCH ∨ e.headD NULLCH = SH_NEWLINE := by
  cases e with
  | nil => exact Or.inl rfl
  | cons c e => exact he c rfl

/-- A symbol is a token. -/
theorem lexanToken_symbol (hc : shell.kind c = .symbol) : lexanToken c p l = some (p, l.token (.symbol c)) := by
  rcases kind_symbol hc with rfl | rfl | rfl <;> rfl

/-- A string in quotes is a token, and one without its end quote is an error. -/
theorem lexanToken_quote (hq : shell.kind q = .quote) :
    lexanToken q p l = (quoteLoop q p (l.start .SH_TOK_OTHER)).map fun r => (r.1, r.2.count) := by
  rcases kind_quote hq with rfl | rfl <;> rfl

theorem lexanToken_quoted (hq : shell.kind q = .quote) (hs : q ∉ s) (hclean : Clean s) :
    lexanToken q (s ++ q :: p) l = some (p, l.token (.quoted s)) := by
  rw [lexanToken_quote hq, quoteLoop_quoted hs hclean]
  rfl

theorem lexanToken_unterminated (hq : shell.kind q = .quote) (hs : q ∉ s) (hclean : Clean s) (he : AtEnd e) :
    lexanToken q (s ++ e) l = none := by
  have hqe : q ≠ NULLCH ∧ q ≠ SH_NEWLINE := by
    rcases kind_quote hq with rfl | rfl <;> decide
  rw [lexanToken_quote hq, quoteLoop_unterminated hs hclean he hqe]
  rfl

/-- The loop over a word stops in front of what does not belong to it. -/
theorem lexanToken_letters (hw : shell.IsWord (c :: w)) (hclean : Clean w) (hp : shell.Stops p) (he : AtEnd e) :
    lexanToken c (w ++ (p ++ e)) l =
      if (p ++ e).headD NULLCH = SH_SQUOTE ∨ (p ++ e).headD NULLCH = SH_DQUOTE ∨ (p ++ e).headD NULLCH = SH_LESS ∨
        (p ++ e).headD NULLCH = SH_GREATER then none
      else some (p ++ e, l.token (.word (c :: w))) := by
  obtain ⟨hc, hletters⟩ := List.forall_mem_cons.mp hw.letters
  obtain ⟨_, hsymbol, hquote⟩ := kind_letter.mp hc
  obtain ⟨hamper, hless, hgreater⟩ : c ≠ SH_AMPER ∧ c ≠ SH_LESS ∧ c ≠ SH_GREATER := by tauto
  have hstop : ∀ c ∈ (p ++ e).head?, shell.kind c ≠ .letter ∨ c = NULLCH ∨ c = SH_NEWLINE := by
    cases p with
    | nil => exact fun c hc => Or.inr (he c hc)
    | cons c' p =>
      rintro _ ⟨⟩
      exact Or.inl hp
  rw [lexanToken, if_neg hamper, if_neg hless, if_neg hgreater, if_neg hquote, wordLoop_word hletters hclean hstop]
  rfl

/-- A word is a token. -/
theorem lexanToken_word (hw : shell.IsWord (c :: w)) (hclean : Clean w) (hp : shell.Ends p) (he : AtEnd e) :
    lexanToken c (w ++ (p ++ e)) l = some (p ++ e, l.token (.word (c :: w))) := by
  rw [lexanToken_letters hw hclean hp.stops he, if_neg]
  cases p with
  | nil =>
    rcases headD_of_atEnd he with h | h
    · rw [List.nil_append, h]
      decide
    · rw [List.nil_append, h]
      decide
  | cons c' p =>
    change ¬(c' = SH_SQUOTE ∨ c' = SH_DQUOTE ∨ c' = SH_LESS ∨ c' = SH_GREATER)
    rcases hp with hb | ⟨_, hj⟩
    · rcases kind_blank.mp hb with rfl | rfl <;> decide
    · obtain rfl : c' = SH_AMPER := of_decide_eq_true hj
      decide

/-- A word with something else directly behind it is an error. -/
theorem lexanToken_adjoined (hw : shell.IsWord (c :: w)) (hclean : Clean w) (hp : shell.Stops p) (hends : ¬shell.Ends p) (he : AtEnd e) :
    lexanToken c (w ++ (p ++ e)) l = none := by
  rw [lexanToken_letters hw hclean hp he, if_pos]
  cases p with
  | nil => exact absurd trivial hends
  | cons c' p =>
    change c' = SH_SQUOTE ∨ c' = SH_DQUOTE ∨ c' = SH_LESS ∨ c' = SH_GREATER
    cases hkind : shell.kind c' with
    | blank => exact absurd (Or.inl hkind) hends
    | letter => exact absurd hkind hp
    | quote => exact (kind_quote hkind).elim Or.inl fun h => Or.inr (Or.inl h)
    | symbol =>
      rcases kind_symbol hkind with rfl | h
      · exact absurd (Or.inr ⟨hkind, rfl⟩) hends
      · exact Or.inr (Or.inr h)

/-- A turn behind the blanks, when the turns that follow accept what they should. -/
theorem lexanToken_accepts {left : Nat} (hclean : Clean (c :: p)) (he : AtEnd e) (hn : l.ntok < SHELL_MAXTOK)
    (hc : shell.kind c ≠ .blank) (ih : ∀ {p' : List UInt8} {l : Lex}, Clean p' → l.ntok ≤ SHELL_MAXTOK → p'.length ≤ p.length →
      (lexanLoop left (p' ++ e) l = some l' ↔ Accepts p' l l')) :
    ((lexanToken c (p ++ e) l).bind fun r => lexanLoop left r.1 r.2) = some l' ↔ Accepts (c :: p) l l' := by
  have hnext : ∀ t : Token UInt8, (l.token t).ntok ≤ SHELL_MAXTOK := fun t => (token_ntok l t).trans_le hn
  generalize hx : c :: p = x at hclean
  cases first shell x with
  | nil => cases hx
  | blank c p hc' =>
    cases hx
    exact absurd hc' hc
  | symbol c p hc' =>
    cases hx
    rw [lexanToken_symbol hc', Option.bind_some, ih (clean_cons.mp hclean).2 (hnext _) (Nat.le_refl _)]
    exact (accepts_token (fun ts => lexes_symbol hc') (endsBlank_cons_iff hc)).symm
  | quoted q s p' hq hs =>
    cases hx
    have hclean' := clean_append.mp (clean_cons.mp hclean).2
    have hp' := (clean_cons.mp hclean'.2).2
    rw [List.append_assoc, List.cons_append, lexanToken_quoted hq hs hclean'.1, Option.bind_some, ih hp' (hnext _) (by simp; omega)]
    exact (accepts_token (fun ts => lexes_quoted hq hs) (endsBlank_quoted hq)).symm
  | unterminated q s hq hs =>
    cases hx
    rw [lexanToken_unterminated hq hs (clean_cons.mp hclean).2 he]
    exact iff_of_false nofun (not_accepts fun ts => not_lexes_unterminated hq hs)
  | word w p' hw hp' =>
    cases w with
    | nil => exact absurd rfl hw.ne_nil
    | cons c' w =>
      obtain ⟨rfl, rfl⟩ : c = c' ∧ p = w ++ p' := List.cons.inj hx
      have hclean' := clean_append.mp (clean_cons.mp hclean).2
      rw [List.append_assoc]
      by_cases hends : shell.Ends p'
      · rw [lexanToken_word hw hclean'.1 hends he, Option.bind_some, ih hclean'.2 (hnext _) (by simp)]
        have hlex : ∀ ts, shell.Lexes (c :: w ++ p') ts ↔ ∃ ts', ts = .word (c :: w) :: ts' ∧ shell.Lexes p' ts' := by
          intro ts
          rw [lexes_word hw hp']
          exact and_iff_right hends
        exact (accepts_token hlex (endsBlank_word hw)).symm
      · rw [lexanToken_adjoined hw hclean'.1 hp' hends he]
        exact iff_of_false nofun (not_accepts fun ts h => hends ((lexes_word hw hp').mp h).1)

/-- The outer loop stores the tokens of the line, when it accepts them. -/
theorem lexanLoop_eq_some {left : Nat} (hclean : Clean p) (he : AtEnd e) (hn : l.ntok ≤ SHELL_MAXTOK) (hleft : p.length < left) :
    lexanLoop left (p ++ e) l = some l' ↔ Accepts p l l' := by
  induction left generalizing p l with
  | zero => exact absurd hleft (Nat.not_lt_zero _)
  | succ left ih =>
    rw [lexanLoop]
    cases p with
    | nil =>
      rw [List.nil_append, if_pos (headD_of_atEnd he), accepts_nil]
      exact ⟨fun h => ⟨hn, (Option.some.inj h).symm⟩, fun h => congrArg some h.2.symm⟩
    | cons c p =>
      have hc := (clean_cons.mp hclean).1
      have hend : ¬((c :: p ++ e).headD NULLCH = NULLCH ∨ (c :: p ++ e).headD NULLCH = SH_NEWLINE) := fun h => h.elim hc.1 hc.2
      rw [if_neg hend]
      by_cases hfull : l.ntok ≥ SHELL_MAXTOK
      · rw [if_pos hfull]
        exact iff_of_false nofun (not_accepts_full (Nat.le_antisymm hn hfull) (List.cons_ne_nil c p))
      · rw [if_neg hfull]
        have hroom : l.ntok < SHELL_MAXTOK := Nat.not_le.mp hfull
        obtain ⟨b, r, hsplit, hb, hr⟩ := exists_blanks shell (c :: p)
        have hlen : b.length + r.length < left + 1 := by
          rw [← List.length_append, ← hsplit]
          exact hleft
        rw [hsplit] at hclean ⊢
        have hr' : ∀ c ∈ (r ++ e).head?, shell.kind c ≠ .blank := by
          cases r with
          | cons c r => exact hr
          | nil =>
            intro c hc
            rcases he c hc with rfl | rfl <;> decide
        rw [List.append_assoc, skip_blanks hb hr', accepts_blanks hroom hb]
        cases r with
        | nil =>
          rw [accepts_nil, List.nil_append]
          have haccept : some l = some l' ↔ l.ntok ≤ SHELL_MAXTOK ∧ l' = l :=
            ⟨fun h => ⟨hn, (Option.some.inj h).symm⟩, fun h => congrArg some h.2.symm⟩
          cases e with
          | nil => exact haccept
          | cons c e =>
            dsimp only
            rw [if_pos (he c rfl).symm]
            exact haccept
        | cons c' r =>
          rw [List.length_cons] at hlen
          have hclean := (clean_append.mp hclean).2
          have hc' := (clean_cons.mp hclean).1
          have hnotend : ¬(c' = SH_NEWLINE ∨ c' = NULLCH) := fun h => h.elim hc'.2 hc'.1
          rw [List.cons_append]
          dsimp only
          rw [if_neg hnotend]
          exact lexanToken_accepts hclean he hroom (hr c' rfl) fun hp' hn' hlen' => ih hp' hn' (by omega)

end Scanning

section Storing

variable {l l' : Lex} {t : Token UInt8} {ts : List (Token UInt8)} {s : List UInt8}

/-- The length of the text of some tokens, with a terminator behind each. -/
def textLength (ts : List (Token UInt8)) : Nat := (ts.map fun t => t.text.length + 1).sum

/-- The text of some tokens, with a terminator behind each. -/
def texts (ts : List (Token UInt8)) : List UInt8 := ts.flatMap fun t => t.text ++ [NULLCH]

/-- The arrays hold the tokens: one behind the other in the buffer, each at its index and with its type. -/
structure Stored (l : Lex) (ts : List (Token UInt8)) : Prop where
  ntok : l.ntok = ts.length
  tlen : l.tbindex = textLength ts
  holds : l.tokbuf.Holds 0 (texts ts)
  tok : ∀ i < ts.length, l.tok i = textLength (ts.take i)
  toktyp : ∀ i (h : i < ts.length), l.toktyp i = toktype ts[i]

theorem length_texts (ts : List (Token UInt8)) : (texts ts).length = textLength ts := by
  simp [texts, textLength, List.length_flatMap]

theorem texts_append (ts ts' : List (Token UInt8)) : texts (ts ++ ts') = texts ts ++ texts ts' := List.flatMap_append ..

theorem texts_cons (t : Token UInt8) (ts : List (Token UInt8)) : texts (t :: ts) = (t.text ++ [NULLCH]) ++ texts ts := List.flatMap_cons ..

theorem textLength_append (ts ts' : List (Token UInt8)) : textLength (ts ++ ts') = textLength ts + textLength ts' := by
  simp [textLength]

/-- Characters are put behind what the buffer holds. -/
theorem foldl_put_holds (s : List UInt8) (l : Lex) : (s.foldl Lex.put l).tokbuf.Holds l.tbindex s ∧
    ∀ i < l.tbindex, (s.foldl Lex.put l).tokbuf i = l.tokbuf i := by
  induction s generalizing l with
  | nil => exact ⟨trivial, fun _ _ => rfl⟩
  | cons c s ih =>
    obtain ⟨hs, hsame⟩ := ih (l.put c)
    refine ⟨⟨?_, hs⟩, fun i hi => ?_⟩
    · exact (hsame l.tbindex (Nat.lt_succ_self _)).trans (Function.update_self _ _ _)
    · exact (hsame i (Nat.lt_succ_of_lt hi)).trans (Function.update_of_ne (Nat.ne_of_lt hi) _ _)

theorem Stored.nil (tokbuf : Buffer) (tok : Nat → Nat) (toktyp : Nat → Toktype) : Stored ⟨0, 0, tokbuf, tok, toktyp⟩ [] :=
  ⟨rfl, rfl, trivial, nofun, nofun⟩

/-- A token is stored behind the others. -/
theorem Stored.token (h : Stored l ts) (t : Token UInt8) : Stored (l.token t) (ts ++ [t]) := by
  have hbuf : (l.token t).tokbuf = ((t.text ++ [NULLCH]).foldl Lex.put (l.start (toktype t))).tokbuf := by
    rw [List.foldl_append]
    rfl
  obtain ⟨_, hindex, htok, htyp⟩ := foldl_put t.text (l.start (toktype t))
  obtain ⟨hholds, hsame⟩ := foldl_put_holds (t.text ++ [NULLCH]) (l.start (toktype t))
  have hlast : ∀ i < (ts ++ [t]).length, i < ts.length ∨ i = ts.length := by
    intro i hi
    rw [List.length_append, List.length_singleton] at hi
    omega
  constructor
  · rw [token_ntok, h.ntok, List.length_append]
    rfl
  · rw [textLength_append, ← h.tlen]
    have hcount : (l.token t).tbindex = (t.text.foldl Lex.put (l.start (toktype t))).tbindex + 1 := rfl
    rw [hcount, hindex]
    change l.tbindex + t.text.length + 1 = l.tbindex + (t.text.length + 1 + 0)
    omega
  · have hlen : (texts ts).length = l.tbindex := (length_texts ts).trans h.tlen.symm
    have happend : texts (ts ++ [t]) = texts ts ++ (t.text ++ [NULLCH]) := by simp [texts]
    rw [hbuf, happend, holds_append, Nat.zero_add, hlen]
    refine ⟨h.holds.congr fun i hi => ?_, hholds⟩
    rw [Nat.zero_add, hsame i (hlen ▸ hi)]
    rfl
  · intro i hi
    have htok' : (l.token t).tok = Function.update l.tok l.ntok l.tbindex := htok
    rw [htok']
    rcases hlast i hi with hlt | rfl
    · rw [Function.update_of_ne (by rw [h.ntok]; omega), h.tok i hlt, List.take_append_of_le_length (Nat.le_of_lt hlt)]
    · rw [← h.ntok, Function.update_self, h.tlen, h.ntok, List.take_left]
  · intro i hi
    have htyp' : (l.token t).toktyp = Function.update l.toktyp l.ntok (toktype t) := htyp
    rw [htyp']
    rcases hlast i hi with hlt | rfl
    · rw [Function.update_of_ne (by rw [h.ntok]; omega), h.toktyp i hlt, List.getElem_append_left hlt]
    · have hvalue : (ts ++ [t])[ts.length] = t := by simp
      rw [hvalue, ← h.ntok]
      exact Function.update_self _ _ _

/-- Tokens are stored one after the other. -/
theorem Stored.foldl {ts₀ : List (Token UInt8)} (h : Stored l ts₀) (ts : List (Token UInt8)) :
    Stored (ts.foldl Lex.token l) (ts₀ ++ ts) := by
  induction ts generalizing l ts₀ with
  | nil => rwa [List.append_nil]
  | cons t ts ih =>
    have hnext := ih (h.token t)
    rwa [List.append_assoc] at hnext

/-- The text of a token, behind that of the tokens in front of it. -/
theorem isText_of_texts {b : Buffer} {o : Nat} (h : b.Holds o (texts ts)) (h0 : ∀ t ∈ ts, 0 ∉ t.text) {i : Nat} (hi : i < ts.length) :
    b.IsText (o + textLength (ts.take i)) ts[i].text := by
  have hsplit : texts ts = texts (ts.take i) ++ ((ts[i].text ++ [NULLCH]) ++ texts (ts.drop (i + 1))) := by
    have hts : ts = ts.take i ++ ts[i] :: ts.drop (i + 1) := by rw [List.getElem_cons_drop, List.take_append_drop]
    exact (congrArg texts hts).trans (by rw [texts_append, texts_cons])
  rw [hsplit, holds_append, holds_append, length_texts] at h
  exact ⟨h0 _ (List.getElem_mem hi), h.2.1⟩

/-- The text of a token, at its index. -/
theorem Stored.isText (h : Stored l ts) (h0 : ∀ t ∈ ts, 0 ∉ t.text) {i : Nat} (hi : i < ts.length) :
    l.tokbuf.IsText (l.tok i) ts[i].text := by
  have htext := isText_of_texts h.holds h0 hi
  rwa [Nat.zero_add, ← h.tok i hi] at htext

end Storing

/-- The characters of a line in front of its end. -/
def body (line : List UInt8) : List UInt8 := line.takeWhile fun c => c ≠ NULLCH ∧ c ≠ SH_NEWLINE

/-- There are more tokens than the arrays have entries. -/
def TooMany (s : List UInt8) : Prop := ∃ ts r, shell.Lexed s ts r ∧ SHELL_MAXTOK < ts.length

/-- `lexan` refuses a line exactly when it has too many tokens or one of the two faults, and otherwise stores its tokens. -/
structure Tokenizes (line : List UInt8) : Prop where
  syserr : ∀ tokbuf tok toktyp, lexan line tokbuf tok toktyp = none ↔
    TooMany (body line) ∨ shell.Unterminated (body line) ∨ shell.Adjoined (body line)
  stores : ∀ tokbuf tok toktyp l, lexan line tokbuf tok toktyp = some l → ∃ ts, shell.Lexes (body line) ts ∧ Stored l ts ∧
    (∀ i (h : i < ts.length), l.tokbuf.IsText (l.tok i) ts[i].text) ∧ l.tbindex ≤ (body line).length + ts.length

/-- A line of 32 tokens with a blank or a tab at the end. -/
def FullWithBlanks (s : List UInt8) : Prop := ∃ ts, shell.Lexes s ts ∧ ts.length = SHELL_MAXTOK ∧ shell.EndsBlank s

section Lines

variable {line s : List UInt8} {tokbuf : Buffer} {tok : Nat → Nat} {toktyp : Nat → Toktype} {l : Lex} {ts : List (Token UInt8)}

theorem clean_body (line : List UInt8) : Clean (body line) := by
  intro c hc
  have h := List.mem_takeWhile_imp hc
  simpa using h

/-- The rest of a line is at the end of the line. -/
theorem atEnd_rest (line : List UInt8) : ∃ e, line = body line ++ e ∧ AtEnd e := by
  refine ⟨line.dropWhile fun c => c ≠ NULLCH ∧ c ≠ SH_NEWLINE, List.takeWhile_append_dropWhile.symm, fun c hc => ?_⟩
  have h := List.head?_dropWhile_not (fun c : UInt8 => c ≠ NULLCH ∧ c ≠ SH_NEWLINE) line
  rw [Option.mem_def.mp hc] at h
  simpa [or_iff_not_imp_left] using h

/-- What `lexan` accepts, and what it stores. -/
theorem lexan_eq_some : lexan line tokbuf tok toktyp = some l ↔ Accepts (body line) ⟨0, 0, tokbuf, tok, toktyp⟩ l := by
  obtain ⟨e, hline, he⟩ := atEnd_rest line
  have hlen : (body line).length < line.length + 1 := Nat.lt_succ_of_le (List.takeWhile_prefix _).length_le
  have hloop : lexanLoop _ (body line ++ e) ⟨0, 0, tokbuf, tok, toktyp⟩ = some l ↔ _ :=
    lexanLoop_eq_some (clean_body line) he (Nat.zero_le _) hlen
  rw [← hline] at hloop
  exact hloop

/-- A line is without faults exactly when it has a list of at most 32 tokens. -/
theorem faultless_iff : (∃ ts, shell.Lexes s ts ∧ ts.length ≤ SHELL_MAXTOK) ↔ ¬(TooMany s ∨ shell.Unterminated s ∨ shell.Adjoined s) := by
  constructor
  · rintro ⟨ts, hts, hle⟩ (⟨ts', r, hs, hmany⟩ | h | h)
    · exact absurd (hts.length_le hs) (by omega)
    · exact hts.not_unterminated h
    · exact hts.not_adjoined h
  · intro h
    rcases lexed_or shell s with ⟨ts, hts⟩ | hfault
    · refine ⟨ts, hts, Nat.not_lt.mp fun hmany => h (Or.inl ⟨ts, [], hts, hmany⟩)⟩
    · exact absurd (Or.inr hfault) h

/-- A line that `lexan` accepts has a list of at most 32 tokens, and is not full with blanks behind. -/
theorem accepts_iff : (∃ l', Accepts s ⟨0, 0, tokbuf, tok, toktyp⟩ l') ↔
    (∃ ts, shell.Lexes s ts ∧ ts.length ≤ SHELL_MAXTOK) ∧ ¬FullWithBlanks s := by
  constructor
  · rintro ⟨l', ts, hts, hle, hfull, -⟩
    rw [Nat.zero_add] at hle hfull
    refine ⟨⟨ts, hts, hle⟩, ?_⟩
    rintro ⟨ts', hts', hlen, hblank⟩
    rw [hts.unique hts'] at hlen
    exact hfull hlen hblank
  · rintro ⟨⟨ts, hts, hle⟩, hfull⟩
    refine ⟨_, ts, hts, (Nat.zero_add _).trans_le hle, fun hlen hblank => hfull ⟨ts, hts, ?_, hblank⟩, rfl⟩
    rwa [Nat.zero_add] at hlen

/-- The lines that `lexan` refuses. -/
theorem lexan_eq_none_iff : lexan line tokbuf tok toktyp = none ↔
    (TooMany (body line) ∨ shell.Unterminated (body line) ∨ shell.Adjoined (body line)) ∨ FullWithBlanks (body line) := by
  have haccept := @accepts_iff (body line) tokbuf tok toktyp
  rw [faultless_iff, ← not_or] at haccept
  rw [Option.eq_none_iff_forall_ne_some, ← not_iff_not, ← haccept]
  simp only [ne_eq, not_forall, not_not, lexan_eq_some]

/-- The tokens of an accepted line are stored. -/
theorem stored_of_lexan (h : lexan line tokbuf tok toktyp = some l) : ∃ ts, shell.Lexes (body line) ts ∧ ts.length ≤ SHELL_MAXTOK ∧
    Stored l ts ∧ ∀ t ∈ ts, 0 ∉ t.text := by
  obtain ⟨ts, hts, hle, -, rfl⟩ := lexan_eq_some.mp h
  rw [Nat.zero_add] at hle
  refine ⟨ts, hts, hle, (Stored.nil tokbuf tok toktyp).foldl ts, fun t ht h0 => ?_⟩
  exact (clean_body line 0 (Lexed.mem hts t ht 0 h0)).1 rfl

/-- The room a sequence of tokens takes: its characters and a NUL for each. -/
theorem textLength_eq (ts : List (Token UInt8)) : textLength ts = (ts.map fun t => t.text.length).sum + ts.length := by
  induction ts with
  | nil => rfl
  | cons t ts ih =>
    have hcons : textLength (t :: ts) = t.text.length + 1 + textLength ts := List.sum_cons
    rw [hcons, ih, List.map_cons, List.sum_cons, List.length_cons]
    omega

end Lines

/-- For every line: `lexan` cuts it into its tokens, or refuses it for its faults, exactly when it is not one of 32 tokens with a blank or a
tab at the end. -/
theorem lexan_tokenizes_iff (line : List UInt8) : Tokenizes line ↔ ¬FullWithBlanks (body line) := by
  constructor
  · intro T hfull
    have hsyserr := (T.syserr (fun _ => 0) (fun _ => 0) fun _ => .SH_TOK_OTHER).mp (lexan_eq_none_iff.mpr (Or.inr hfull))
    obtain ⟨ts, hts, hlen, _⟩ := hfull
    exact faultless_iff.mp ⟨ts, hts, Nat.le_of_eq hlen⟩ hsyserr
  · intro hfull
    refine ⟨fun tokbuf tok toktyp => lexan_eq_none_iff.trans (or_iff_left hfull), fun tokbuf tok toktyp l h => ?_⟩
    obtain ⟨ts, hts, _, hstored, h0⟩ := stored_of_lexan h
    refine ⟨ts, hts, hstored, fun i hi => hstored.isText h0 hi, ?_⟩
    have hlen := hts.length_texts
    rw [List.length_nil, Nat.add_zero] at hlen
    rw [hstored.tlen, textLength_eq]
    omega

/-- Thirty-two words of one letter with a blank behind each, and the end of the line. -/
def fullLine : List UInt8 := (List.replicate 32 [97, SH_BLANK]).flatten ++ [SH_NEWLINE]

theorem fullLine_body : body fullLine = (List.replicate 32 [97, SH_BLANK]).flatten := by decide +kernel

/-- A line of one-character words has them as its tokens. -/
theorem fullLine_lexes (n : Nat) : shell.Lexes (List.replicate n [97, SH_BLANK]).flatten (List.replicate n (.word [97])) := by
  induction n with
  | zero => exact lexes_nil.mpr rfl
  | succ n ih =>
    have hw : shell.IsWord [97] := ⟨List.cons_ne_nil _ _, List.forall_mem_singleton.mpr (by decide)⟩
    have hblank : shell.kind SH_BLANK = .blank := by decide
    exact .word hw (Or.inl hblank) (.blank hblank ih)

/-- A line of 32 tokens without a fault is refused for the blank behind the last. -/
theorem lexan_refuses_blank : lexan fullLine (fun _ => 0) (fun _ => 0) (fun _ => .SH_TOK_OTHER) = none ∧
    (∃ ts, shell.Lexes (body fullLine) ts ∧ ts.length = 32) ∧
    ¬(TooMany (body fullLine) ∨ shell.Unterminated (body fullLine) ∨ shell.Adjoined (body fullLine)) ∧ ¬Tokenizes fullLine := by
  have hts : shell.Lexes (body fullLine) (List.replicate 32 (.word [97])) := fullLine_body ▸ fullLine_lexes 32
  have hlast : shell.EndsBlank (body fullLine) := by
    rw [fullLine_body]
    exact ⟨SH_BLANK, by decide +kernel, by decide⟩
  have hfull : FullWithBlanks (body fullLine) := ⟨_, hts, List.length_replicate, hlast⟩
  have hnone : lexan fullLine (fun _ => 0) (fun _ => 0) (fun _ => .SH_TOK_OTHER) = none := lexan_eq_none_iff.mpr (Or.inr hfull)
  have hfaultless := faultless_iff.mp ⟨_, hts, Nat.le_of_eq List.length_replicate⟩
  exact ⟨hnone, ⟨_, hts, List.length_replicate⟩, hfaultless, fun T => hfaultless ((T.syserr _ _ _).mp hnone)⟩

end Shell

end Xinu
