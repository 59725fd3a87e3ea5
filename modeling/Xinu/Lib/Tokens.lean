import Mathlib.Algebra.GroupWithZero.Nat
import Mathlib.Data.List.Basic
import Mathlib.Tactic.Common

/-!
# Lines of tokens

A line is made of blanks, symbols of one character, quoted strings and words. A word goes on as long as it can, and directly behind it may
stand a blank or a symbol that `joins`. `Lexed` cuts tokens off a line; a line that is not cut up whole has a string without its closing
quote or a word with something directly behind it that may not stand there (`lexed_or`), and no other cut comes further (`Lexed.extends`).
-/

namespace Tokens

variable {α : Type*}

/-- What a character is. -/
inductive Kind where
  | blank | symbol | quote | letter
deriving DecidableEq

/-- The characters, and those symbols that may stand directly behind a word. -/
structure Alphabet (α : Type*) where
  kind : α → Kind
  joins : α → Bool

/-- A token; of a quoted string, what stands between the quotes. -/
inductive Token (α : Type*) where
  | symbol (c : α)
  | word (w : List α)
  | quoted (s : List α)
deriving DecidableEq

/-- The characters of a token. -/
def Token.text : Token α → List α
  | .symbol c => [c]
  | .word w => w
  | .quoted s => s

@[simp] theorem text_symbol (c : α) : (Token.symbol c).text = [c] := rfl

@[simp] theorem text_word (w : List α) : (Token.word w).text = w := rfl

@[simp] theorem text_quoted (s : List α) : (Token.quoted s).text = s := rfl

namespace Alphabet

variable (A : Alphabet α)

/-- What may stand directly behind a word. -/
def Ends : List α → Prop
  | [] => True
  | c :: _ => A.kind c = .blank ∨ A.kind c = .symbol ∧ A.joins c = true

/-- What stands directly behind a word does not belong to it. -/
def Stops : List α → Prop
  | [] => True
  | c :: _ => A.kind c ≠ .letter

/-- The characters of a word. -/
structure IsWord (w : List α) : Prop where
  ne_nil : w ≠ []
  letters : ∀ c ∈ w, A.kind c = .letter

/-- The tokens that a line begins with, and what stands behind them. -/
inductive Lexed : List α → List (Token α) → List α → Prop
  | nil (p : List α) : Lexed p [] p
  | blank {c : α} {p r : List α} {ts : List (Token α)} (hc : A.kind c = .blank) (h : Lexed p ts r) : Lexed (c :: p) ts r
  | symbol {c : α} {p r : List α} {ts : List (Token α)} (hc : A.kind c = .symbol) (h : Lexed p ts r) :
    Lexed (c :: p) (.symbol c :: ts) r
  | word {w p r : List α} {ts : List (Token α)} (hw : A.IsWord w) (hp : A.Ends p) (h : Lexed p ts r) : Lexed (w ++ p) (.word w :: ts) r
  | quoted {q : α} {s p r : List α} {ts : List (Token α)} (hq : A.kind q = .quote) (hs : q ∉ s) (h : Lexed p ts r) :
    Lexed (q :: (s ++ q :: p)) (.quoted s :: ts) r

/-- The tokens of a whole line. -/
def Lexes (p : List α) (ts : List (Token α)) : Prop := A.Lexed p ts []

/-- Behind some tokens a quoted string begins that does not end. -/
def Unterminated (p : List α) : Prop := ∃ ts q s, A.Lexed p ts (q :: s) ∧ A.kind q = .quote ∧ q ∉ s

/-- Behind some tokens a word begins with something directly behind it that may not stand there. -/
def Adjoined (p : List α) : Prop := ∃ ts w r, A.Lexed p ts (w ++ r) ∧ A.IsWord w ∧ A.Stops r ∧ ¬A.Ends r

/-- The line ends with a blank. -/
def EndsBlank (p : List α) : Prop := ∃ c, p.getLast? = some c ∧ A.kind c = .blank

variable {A} {c q : α} {p r s w : List α} {ts ts' : List (Token α)}

/-- Where a word may end there is no letter. -/
theorem Ends.stops (h : A.Ends p) : A.Stops p := by
  cases p with
  | nil => trivial
  | cons c p =>
    rcases h with h | h
    · exact fun hl => nomatch h.symm.trans hl
    · exact fun hl => nomatch h.1.symm.trans hl

/-- How a line begins. -/
inductive First (A : Alphabet α) : List α → Prop
  | nil : First A []
  | blank (c : α) (p : List α) (hc : A.kind c = .blank) : First A (c :: p)
  | symbol (c : α) (p : List α) (hc : A.kind c = .symbol) : First A (c :: p)
  | word (w p : List α) (hw : A.IsWord w) (hp : A.Stops p) : First A (w ++ p)
  | quoted (q : α) (s p : List α) (hq : A.kind q = .quote) (hs : q ∉ s) : First A (q :: (s ++ q :: p))
  | unterminated (q : α) (s : List α) (hq : A.kind q = .quote) (hs : q ∉ s) : First A (q :: s)

/-- The longest word at the start of a line. -/
theorem exists_letters (A : Alphabet α) (p : List α) : ∃ w r, p = w ++ r ∧ (∀ c ∈ w, A.kind c = .letter) ∧ A.Stops r := by
  induction p with
  | nil => exact ⟨[], [], rfl, nofun, trivial⟩
  | cons c p ih =>
    by_cases hc : A.kind c = .letter
    · obtain ⟨w, r, rfl, hw, hr⟩ := ih
      exact ⟨c :: w, r, rfl, List.forall_mem_cons.mpr ⟨hc, hw⟩, hr⟩
    · exact ⟨[], c :: p, rfl, nofun, hc⟩

/-- Every line begins in one of these ways. -/
theorem first (A : Alphabet α) (p : List α) : First A p := by
  cases p with
  | nil => exact .nil
  | cons c p =>
    cases hc : A.kind c with
    | blank => exact .blank c p hc
    | symbol => exact .symbol c p hc
    | letter =>
      obtain ⟨w, r, rfl, hw, hr⟩ := exists_letters A p
      exact .word (c :: w) r ⟨List.cons_ne_nil _ _, List.forall_mem_cons.mpr ⟨hc, hw⟩⟩ hr
    | quote =>
      by_cases hq : c ∈ p
      · obtain ⟨s, r, rfl, hs⟩ := List.eq_append_cons_of_mem hq
        exact .quoted c s r hc hs
      · exact .unterminated c p hc hq

/-- A word and what stands behind it are determined by the line. -/
theorem word_inj {w' p' : List α} (hw : ∀ c ∈ w, A.kind c = .letter) (hw' : ∀ c ∈ w', A.kind c = .letter) (hp : A.Stops p)
    (hp' : A.Stops p') (h : w ++ p = w' ++ p') : w = w' ∧ p = p' := by
  induction w generalizing w' with
  | nil =>
    cases w' with
    | nil => exact ⟨rfl, h⟩
    | cons c w' =>
      rw [List.nil_append] at h
      subst h
      exact absurd (hw' c List.mem_cons_self) hp
  | cons c w ih =>
    cases w' with
    | nil =>
      rw [List.nil_append] at h
      subst h
      exact absurd (hw c List.mem_cons_self) hp'
    | cons c' w' =>
      obtain ⟨rfl, htail⟩ := List.cons.inj h
      obtain ⟨rfl, rfl⟩ := ih (List.forall_mem_cons.mp hw).2 (List.forall_mem_cons.mp hw').2 htail
      exact ⟨rfl, rfl⟩

/-- So are a quoted string and what stands behind it. -/
theorem quoted_inj {s' p' : List α} (hs : q ∉ s) (hs' : q ∉ s') (h : s ++ q :: p = s' ++ q :: p') : s = s' ∧ p = p' := by
  induction s generalizing s' with
  | nil =>
    cases s' with
    | nil => exact ⟨rfl, (List.cons.inj h).2⟩
    | cons c s' => exact absurd (List.mem_cons.mpr (Or.inl (List.cons.inj h).1)) hs'
  | cons c s ih =>
    cases s' with
    | nil => exact absurd (List.mem_cons.mpr (Or.inl (List.cons.inj h).1.symm)) hs
    | cons c' s' =>
      obtain ⟨rfl, htail⟩ := List.cons.inj h
      obtain ⟨rfl, rfl⟩ := ih (fun h => hs (List.mem_cons_of_mem _ h)) (fun h => hs' (List.mem_cons_of_mem _ h)) htail
      exact ⟨rfl, rfl⟩

/-! ## How a line that is cut up begins -/

/-- The first character decides what the first token is. -/
theorem Lexes.cons_inv (h : A.Lexes (c :: p) ts) : match A.kind c with
    | .blank => A.Lexes p ts
    | .symbol => ∃ ts', ts = .symbol c :: ts' ∧ A.Lexes p ts'
    | .letter => ∃ w p' ts', c :: p = w ++ p' ∧ A.IsWord w ∧ A.Ends p' ∧ ts = .word w :: ts' ∧ A.Lexes p' ts'
    | .quote => ∃ s p' ts', p = s ++ c :: p' ∧ c ∉ s ∧ ts = .quoted s :: ts' ∧ A.Lexes p' ts' := by
  unfold Lexes at h
  generalize hx : c :: p = x at h
  generalize hr : ([] : List α) = r at h
  cases h with
  | nil =>
    rw [← hr] at hx
    cases hx
  | blank hc h =>
    cases hx
    subst hr
    rw [hc]
    exact h
  | symbol hc h =>
    cases hx
    subst hr
    rw [hc]
    exact ⟨_, rfl, h⟩
  | @word w p' _ ts' hw hp h =>
    cases w with
    | nil => exact absurd rfl hw.ne_nil
    | cons c' w =>
      obtain ⟨rfl, rfl⟩ := List.cons.inj hx
      subst hr
      rw [hw.letters c List.mem_cons_self]
      exact ⟨c :: w, p', ts', rfl, hw, hp, rfl, h⟩
  | quoted hq hs h =>
    cases hx
    subst hr
    rw [hq]
    exact ⟨_, _, _, rfl, hs, rfl, h⟩

/-- The empty line has no tokens. -/
theorem lexes_nil : A.Lexes [] ts ↔ ts = [] := by
  constructor
  · intro h
    unfold Lexes at h
    generalize hx : ([] : List α) = x at h
    cases h with
    | nil => rfl
    | blank _ _ => cases hx
    | symbol _ _ => cases hx
    | word hw _ _ => exact absurd (List.append_eq_nil_iff.mp hx.symm).1 hw.ne_nil
    | quoted _ _ _ => cases hx
  · rintro rfl
    exact .nil []

theorem lexes_blank (hc : A.kind c = .blank) : A.Lexes (c :: p) ts ↔ A.Lexes p ts := by
  refine ⟨fun h => ?_, .blank hc⟩
  have hinv := h.cons_inv
  rwa [hc] at hinv

/-- A symbol is a token. -/
theorem lexes_symbol (hc : A.kind c = .symbol) : A.Lexes (c :: p) ts ↔ ∃ ts', ts = .symbol c :: ts' ∧ A.Lexes p ts' := by
  constructor
  · intro h
    have hinv := h.cons_inv
    rwa [hc] at hinv
  · rintro ⟨ts', rfl, h⟩
    exact .symbol hc h

/-- A word is a token, if it may end where it does. -/
theorem lexes_word (hw : A.IsWord w) (hp : A.Stops p) :
    A.Lexes (w ++ p) ts ↔ A.Ends p ∧ ∃ ts', ts = .word w :: ts' ∧ A.Lexes p ts' := by
  constructor
  · intro h
    cases w with
    | nil => exact absurd rfl hw.ne_nil
    | cons c w =>
      have hinv := Lexes.cons_inv (p := w ++ p) h
      rw [hw.letters c List.mem_cons_self] at hinv
      obtain ⟨w', p', ts', heq, hw', hp', rfl, h⟩ := hinv
      obtain ⟨rfl, rfl⟩ := word_inj hw.letters hw'.letters hp hp'.stops heq
      exact ⟨hp', ts', rfl, h⟩
  · rintro ⟨hp, ts', rfl, h⟩
    exact .word hw hp h

/-- A quoted string is a token. -/
theorem lexes_quoted (hq : A.kind q = .quote) (hs : q ∉ s) :
    A.Lexes (q :: (s ++ q :: p)) ts ↔ ∃ ts', ts = .quoted s :: ts' ∧ A.Lexes p ts' := by
  constructor
  · intro h
    have hinv := h.cons_inv
    rw [hq] at hinv
    obtain ⟨s', p', ts', heq, hs', rfl, h⟩ := hinv
    obtain ⟨rfl, rfl⟩ := quoted_inj hs hs' heq
    exact ⟨ts', rfl, h⟩
  · rintro ⟨ts', rfl, h⟩
    exact .quoted hq hs h

theorem not_lexes_unterminated (hq : A.kind q = .quote) (hs : q ∉ s) : ¬A.Lexes (q :: s) ts := by
  intro h
  have hinv := h.cons_inv
  rw [hq] at hinv
  obtain ⟨s', p', _, rfl, _⟩ := hinv
  exact hs (List.mem_append_right s' List.mem_cons_self)

/-! ## Lines that are cut up -/

/-- The tokens of a line begin with those that were cut off it before. -/
theorem Lexed.extends (h : A.Lexed p ts r) (hp : A.Lexes p ts') : ∃ ts'', ts' = ts ++ ts'' ∧ A.Lexes r ts'' := by
  induction h generalizing ts' with
  | nil p => exact ⟨ts', rfl, hp⟩
  | blank hc _ ih => exact ih ((lexes_blank hc).mp hp)
  | symbol hc _ ih =>
    obtain ⟨ts₁, rfl, hp'⟩ := (lexes_symbol hc).mp hp
    obtain ⟨ts₂, rfl, hr⟩ := ih hp'
    exact ⟨ts₂, rfl, hr⟩
  | word hw hend _ ih =>
    obtain ⟨_, ts₁, rfl, hp'⟩ := (lexes_word hw hend.stops).mp hp
    obtain ⟨ts₂, rfl, hr⟩ := ih hp'
    exact ⟨ts₂, rfl, hr⟩
  | quoted hq hs _ ih =>
    obtain ⟨ts₁, rfl, hp'⟩ := (lexes_quoted hq hs).mp hp
    obtain ⟨ts₂, rfl, hr⟩ := ih hp'
    exact ⟨ts₂, rfl, hr⟩

theorem Lexes.not_unterminated (h : A.Lexes p ts) : ¬A.Unterminated p := by
  rintro ⟨ts', q, s, hp, hq, hs⟩
  obtain ⟨ts'', _, hr⟩ := hp.extends h
  exact not_lexes_unterminated hq hs hr

theorem Lexes.not_adjoined (h : A.Lexes p ts) : ¬A.Adjoined p := by
  rintro ⟨ts', w, r, hp, hw, hr, hends⟩
  obtain ⟨ts'', _, hrest⟩ := hp.extends h
  exact hends ((lexes_word hw hr).mp hrest).1

/-- A line has one list of tokens. -/
theorem Lexes.unique (h : A.Lexes p ts) (h' : A.Lexes p ts') : ts' = ts := by
  obtain ⟨ts'', rfl, hr⟩ := Lexed.extends h h'
  rw [lexes_nil.mp hr, List.append_nil]

/-- A line that is not cut up has one of the two faults. -/
theorem lexed_or (A : Alphabet α) (p : List α) : (∃ ts, A.Lexes p ts) ∨ A.Unterminated p ∨ A.Adjoined p := by
  -- a fault behind the first token is one of the line
  have step : ∀ {p p' : List α} (ts₀ : List (Token α)), (∀ {ts r}, A.Lexed p' ts r → A.Lexed p (ts₀ ++ ts) r) →
      (∃ ts, A.Lexes p' ts) ∨ A.Unterminated p' ∨ A.Adjoined p' → (∃ ts, A.Lexes p ts) ∨ A.Unterminated p ∨ A.Adjoined p := by
    intro p p' ts₀ hstep h
    rcases h with ⟨ts, h⟩ | ⟨ts, q, s, h, hq⟩ | ⟨ts, w, r, h, hw⟩
    · exact Or.inl ⟨_, hstep h⟩
    · exact Or.inr (Or.inl ⟨_, q, s, hstep h, hq⟩)
    · exact Or.inr (Or.inr ⟨_, w, r, hstep h, hw⟩)
  induction hn : p.length using Nat.strongRecOn generalizing p with
  | ind n ih =>
    subst hn
    cases first A p with
    | nil => exact Or.inl ⟨[], .nil []⟩
    | blank c p hc => exact step [] (fun h => .blank hc h) (ih _ (Nat.lt_succ_self _) p rfl)
    | symbol c p hc => exact step [.symbol c] (fun h => .symbol hc h) (ih _ (Nat.lt_succ_self _) p rfl)
    | word w p hw hp =>
      by_cases hends : A.Ends p
      · have hlen := List.length_pos_iff.mpr hw.ne_nil
        exact step [.word w] (fun h => .word hw hends h) (ih _ (by rw [List.length_append]; omega) p rfl)
      · exact Or.inr (Or.inr ⟨[], w, p, .nil _, hw, hp, hends⟩)
    | quoted q s p hq hs =>
      exact step [.quoted s] (fun h => .quoted hq hs h)
        (ih _ (by rw [List.length_cons, List.length_append, List.length_cons]; omega) p rfl)
    | unterminated q s hq hs => exact Or.inr (Or.inl ⟨[], q, s, .nil _, hq, hs⟩)

/-- Behind more tokens than a line has nothing is cut off. -/
theorem Lexes.length_le (h : A.Lexes p ts) (hp : A.Lexed p ts' r) : ts'.length ≤ ts.length := by
  obtain ⟨ts'', rfl, _⟩ := hp.extends h
  rw [List.length_append]
  exact Nat.le_add_right _ _

/-- The characters of the tokens are characters of the line. -/
theorem Lexed.mem (h : A.Lexed p ts r) : ∀ t ∈ ts, ∀ c ∈ t.text, c ∈ p := by
  induction h with
  | nil => exact nofun
  | blank _ _ ih => exact fun t ht c hc => List.mem_cons_of_mem _ (ih t ht c hc)
  | symbol _ _ ih =>
    refine List.forall_mem_cons.mpr ⟨fun c hc => ?_, fun t ht c hc => List.mem_cons_of_mem _ (ih t ht c hc)⟩
    rw [List.mem_singleton.mp hc]
    exact List.mem_cons_self
  | word _ _ _ ih =>
    exact List.forall_mem_cons.mpr ⟨fun c hc => List.mem_append_left _ hc, fun t ht c hc => List.mem_append_right _ (ih t ht c hc)⟩
  | quoted _ _ _ ih =>
    refine List.forall_mem_cons.mpr ⟨fun c hc => List.mem_cons_of_mem _ (List.mem_append_left _ hc), fun t ht c hc => ?_⟩
    exact List.mem_cons_of_mem _ (List.mem_append_right _ (List.mem_cons_of_mem _ (ih t ht c hc)))

/-- A token of one character is a symbol. -/
theorem Lexed.symbols (h : A.Lexed p ts r) : ∀ c, .symbol c ∈ ts → A.kind c = .symbol := by
  induction h with
  | nil => exact nofun
  | blank _ _ ih => exact ih
  | symbol hc _ ih =>
    intro c hmem
    rcases List.mem_cons.mp hmem with heq | hmem
    · cases heq
      exact hc
    · exact ih c hmem
  | word _ _ _ ih => exact fun c hmem => ih c ((List.mem_cons.mp hmem).resolve_left nofun)
  | quoted _ _ _ ih => exact fun c hmem => ih c ((List.mem_cons.mp hmem).resolve_left nofun)

/-- The tokens are not longer than the line. -/
theorem Lexed.length_texts (h : A.Lexed p ts r) : (ts.map fun t => t.text.length).sum + r.length ≤ p.length := by
  induction h with
  | nil p => exact Nat.le_of_eq (Nat.zero_add _)
  | blank _ _ ih => exact Nat.le_succ_of_le ih
  | symbol _ _ ih =>
    simp only [List.map_cons, List.sum_cons, List.length_cons, text_symbol, List.length_nil]
    omega
  | word _ _ _ ih =>
    simp only [List.map_cons, List.sum_cons, List.length_append, text_word]
    omega
  | quoted _ _ _ ih =>
    simp only [List.map_cons, List.sum_cons, List.length_cons, List.length_append, text_quoted]
    omega

/-! ## Blanks at the end -/

theorem endsBlank_append (hr : r ≠ []) : A.EndsBlank (p ++ r) ↔ A.EndsBlank r := by
  unfold EndsBlank
  rw [List.getLast?_append_of_ne_nil p hr]

/-- A first character that is no blank does not end the line with one. -/
theorem endsBlank_cons_iff (hc : A.kind c ≠ .blank) : A.EndsBlank (c :: p) ↔ A.EndsBlank p := by
  cases p with
  | nil =>
    refine iff_of_false ?_ fun ⟨_, h, _⟩ => nomatch h
    rintro ⟨c', h, hb⟩
    obtain rfl : c = c' := Option.some.inj h
    exact hc hb
  | cons c' p => exact endsBlank_append (p := [c]) (List.cons_ne_nil _ _)

/-- A token does not end with a blank. -/
theorem endsBlank_word (hw : A.IsWord w) : A.EndsBlank (w ++ p) ↔ A.EndsBlank p := by
  cases p with
  | cons c p => exact endsBlank_append (List.cons_ne_nil _ _)
  | nil =>
    rw [List.append_nil]
    refine iff_of_false ?_ fun ⟨_, h, _⟩ => nomatch h
    rintro ⟨c, h, hb⟩
    cases (hw.letters c (List.mem_of_getLast? h)).symm.trans hb

theorem endsBlank_quoted (hq : A.kind q = .quote) : A.EndsBlank (q :: (s ++ q :: p)) ↔ A.EndsBlank p := by
  have hne : A.kind q ≠ .blank := by
    rw [hq]
    exact nofun
  rw [← List.cons_append, endsBlank_append (List.cons_ne_nil _ _), endsBlank_cons_iff hne]

/-- A line without tokens is empty or ends with a blank. -/
theorem Lexes.endsBlank (h : A.Lexes p []) : p = [] ∨ A.EndsBlank p := by
  induction p with
  | nil => exact Or.inl rfl
  | cons c p ih =>
    refine Or.inr ?_
    have hinv := h.cons_inv
    cases hc : A.kind c with
    | blank =>
      rw [hc] at hinv
      rcases ih hinv with rfl | hb
      · exact ⟨c, rfl, hc⟩
      · obtain ⟨c', hlast, hb⟩ := hb
        exact ⟨c', by rw [List.getLast?_cons, hlast]; rfl, hb⟩
    | symbol =>
      rw [hc] at hinv
      obtain ⟨_, hts, _⟩ := hinv
      cases hts
    | quote =>
      rw [hc] at hinv
      obtain ⟨_, _, _, _, _, hts, _⟩ := hinv
      cases hts
    | letter =>
      rw [hc] at hinv
      obtain ⟨_, _, _, _, _, _, hts, _⟩ := hinv
      cases hts

/-- The blanks at the start of a line. -/
theorem exists_blanks (A : Alphabet α) (p : List α) :
    ∃ b r, p = b ++ r ∧ (∀ c ∈ b, A.kind c = .blank) ∧ ∀ c ∈ r.head?, A.kind c ≠ .blank := by
  induction p with
  | nil => exact ⟨[], [], rfl, nofun, nofun⟩
  | cons c p ih =>
    by_cases hc : A.kind c = .blank
    · obtain ⟨b, r, rfl, hb, hr⟩ := ih
      exact ⟨c :: b, r, rfl, List.forall_mem_cons.mpr ⟨hc, hb⟩, hr⟩
    · refine ⟨[], c :: p, rfl, nofun, ?_⟩
      rintro _ ⟨⟩
      exact hc

theorem lexes_blanks (hb : ∀ c ∈ s, A.kind c = .blank) : A.Lexes (s ++ p) ts ↔ A.Lexes p ts := by
  induction s with
  | nil => rfl
  | cons c s ih =>
    obtain ⟨hc, hb⟩ := List.forall_mem_cons.mp hb
    rw [List.cons_append, lexes_blank hc, ih hb]

end Alphabet

end Tokens
