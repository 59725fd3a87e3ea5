import Xinu.Lib.Buffer

/-!
# Texts in memory

`Holds` says that the bytes from a place on are those of a list, and `IsText` that they are a string: the list has no zero byte and one
stands behind it. Both go by recursion on the list, so that a scanner can be followed character by character.
-/

namespace Buffer

/-- The bytes from a place on. -/
def Holds (b : Buffer) : Nat → List UInt8 → Prop
  | _, [] => True
  | o, c :: s => b o = c ∧ b.Holds (o + 1) s

/-- The string from a place on. -/
def IsText (b : Buffer) (o : Nat) (s : List UInt8) : Prop := 0 ∉ s ∧ b.Holds o (s ++ [0])

/-- The string from a place on, of which at most `left` bytes are read. -/
def text (b : Buffer) : (left o : Nat) → List UInt8
  | 0, _ => []
  | left + 1, o => if b o = 0 then [] else b o :: b.text left (o + 1)

variable {b b' : Buffer} {o : Nat} {s t : List UInt8} {c : UInt8}

@[simp] theorem holds_nil : b.Holds o [] := trivial

@[simp] theorem holds_cons : b.Holds o (c :: s) ↔ b o = c ∧ b.Holds (o + 1) s := Iff.rfl

/-- A text of two parts is held where the parts are, one behind the other. -/
theorem holds_append : b.Holds o (s ++ t) ↔ b.Holds o s ∧ b.Holds (o + s.length) t := by
  induction s generalizing o with
  | nil => simp
  | cons c s ih =>
    have hlen : o + (c :: s).length = o + 1 + s.length := by
      rw [List.length_cons]
      omega
    rw [List.cons_append, holds_cons, holds_cons, ih, and_assoc, hlen]

/-- A text is held when each of its characters is. -/
theorem holds_iff_getElem : b.Holds o s ↔ ∀ i (h : i < s.length), b (o + i) = s[i] := by
  induction s generalizing o with
  | nil => simp
  | cons c s ih =>
    rw [holds_cons, ih]
    constructor
    · rintro ⟨h0, h⟩ i hi
      cases i with
      | zero => exact h0
      | succ i =>
        rw [show o + (i + 1) = o + 1 + i by omega]
        exact h i (Nat.lt_of_succ_lt_succ hi)
    · intro h
      refine ⟨h 0 (Nat.succ_pos _), fun i hi => ?_⟩
      rw [show o + 1 + i = o + (i + 1) by omega]
      exact h (i + 1) (Nat.succ_lt_succ hi)

/-- What a place holds depends on the bytes of the text only. -/
theorem Holds.congr (h : b.Holds o s) (hb : ∀ i < s.length, b' (o + i) = b (o + i)) : b'.Holds o s := by
  rw [holds_iff_getElem] at h ⊢
  intro i hi
  rw [hb i hi, h i hi]

@[simp] theorem isText_nil : b.IsText o [] ↔ b o = 0 := by simp [IsText]

theorem isText_cons : b.IsText o (c :: s) ↔ c ≠ 0 ∧ b o = c ∧ b.IsText (o + 1) s := by
  simp only [IsText, List.mem_cons, not_or, List.cons_append, holds_cons, ne_comm (a := (0 : UInt8))]
  tauto

/-- A string depends on its bytes and its terminator. -/
theorem IsText.congr (h : b.IsText o s) (hb : ∀ i ≤ s.length, b' (o + i) = b (o + i)) : b'.IsText o s := by
  refine ⟨h.1, h.2.congr fun i hi => hb i ?_⟩
  rw [List.length_append, List.length_singleton] at hi
  exact Nat.le_of_lt_succ hi

/-- A string is read, if there is room for it. -/
theorem IsText.text_eq {left : Nat} (h : b.IsText o s) (hlen : s.length ≤ left) : b.text left o = s := by
  induction left generalizing o s with
  | zero => rw [List.length_eq_zero_iff.mp (Nat.le_zero.mp hlen), text]
  | succ left ih =>
    cases s with
    | nil => rw [text, if_pos (isText_nil.mp h)]
    | cons c s =>
      obtain ⟨hc, hread, h⟩ := isText_cons.mp h
      rw [text, hread, if_neg hc, ih h (Nat.le_of_succ_le_succ hlen)]

/-- A text with its `NUL` is a string. -/
theorem IsText.isString (h : b.IsText 0 s) : b.IsString s.length := by
  obtain ⟨h0, h⟩ := h
  rw [holds_iff_getElem] at h
  constructor
  · have hlast := h s.length (by simp)
    rw [List.getElem_append_right (Nat.le_refl _), Nat.zero_add] at hlast
    simpa using hlast
  · intro i hi
    have hread := h i (by rw [List.length_append]; omega)
    rw [List.getElem_append_left hi, Nat.zero_add] at hread
    rw [hread]
    exact fun h => h0 (h ▸ List.getElem_mem hi)

/-- The string behind a prefix. -/
theorem IsText.drop (h : b.IsText o (s ++ t)) : b.IsText (o + s.length) t := by
  obtain ⟨h0, h⟩ := h
  rw [List.append_assoc] at h
  exact ⟨fun ht => h0 (List.mem_append_right s ht), (holds_append.mp h).2⟩

/-- A place holds one string. -/
theorem IsText.unique (h : b.IsText o s) (h' : b.IsText o t) : s = t := by
  induction s generalizing o t with
  | nil =>
    cases t with
    | nil => rfl
    | cons c t => exact absurd ((isText_cons.mp h').2.1.symm.trans (isText_nil.mp h)) (isText_cons.mp h').1
  | cons c s ih =>
    cases t with
    | nil => exact absurd ((isText_cons.mp h).2.1.symm.trans (isText_nil.mp h')) (isText_cons.mp h).1
    | cons c' t =>
      rw [← (isText_cons.mp h).2.1, ← (isText_cons.mp h').2.1, ih (isText_cons.mp h).2.2 (isText_cons.mp h').2.2]

/-- A memory with a string at its start. -/
theorem isText_getD (h : 0 ∉ s) : IsText (fun j => s.getD j 0) 0 s := by
  refine ⟨h, holds_iff_getElem.mpr fun i hi => ?_⟩
  rw [List.length_append, List.length_singleton] at hi
  rw [Nat.zero_add, List.getD_eq_getElem?_getD]
  rcases Nat.lt_or_ge i s.length with hlt | hge
  · rw [List.getElem?_eq_getElem hlt, Option.getD_some, List.getElem_append_left hlt]
  · rw [List.getElem?_eq_none hge, Option.getD_none, List.getElem_append_right hge, List.getElem_singleton]

/-! ## Words -/

/-- The 32-bit values from a place on. -/
def Words (b : Buffer) : Nat → List UInt32 → Prop
  | _, [] => True
  | o, w :: ws => b.word o = w ∧ b.Words (o + 4) ws

variable {ws vs : List UInt32} {w : UInt32}

@[simp] theorem words_cons : b.Words o (w :: ws) ↔ b.word o = w ∧ b.Words (o + 4) ws := Iff.rfl

/-- Words of two parts are held where the parts are, one behind the other. -/
theorem words_append : b.Words o (ws ++ vs) ↔ b.Words o ws ∧ b.Words (o + 4 * ws.length) vs := by
  induction ws generalizing o with
  | nil => simp [Words]
  | cons w ws ih =>
    have hlen : o + 4 * (w :: ws).length = o + 4 + 4 * ws.length := by
      rw [List.length_cons]
      omega
    rw [List.cons_append, words_cons, words_cons, ih, and_assoc, hlen]

/-- Each word is held at its own place. -/
theorem Words.getElem (h : b.Words o ws) {i : Nat} (hi : i < ws.length) : b.word (o + 4 * i) = ws[i] := by
  induction ws generalizing o i with
  | nil => exact absurd hi (Nat.not_lt_zero i)
  | cons w ws ih =>
    cases i with
    | zero => exact h.1
    | succ i =>
      rw [show o + 4 * (i + 1) = o + 4 + 4 * i by omega]
      exact ih h.2 (Nat.lt_of_succ_lt_succ hi)

/-- What a place holds depends on the bytes of the values only. -/
theorem Words.congr (h : b.Words o ws) (hb : ∀ i, o ≤ i → i < o + 4 * ws.length → b' i = b i) : b'.Words o ws := by
  induction ws generalizing o with
  | nil => trivial
  | cons w ws ih =>
    rw [List.length_cons] at hb
    exact ⟨(word_congr fun i h1 h2 => hb i h1 (by omega)).trans h.1, ih h.2 fun i h1 h2 => hb i (by omega) (by omega)⟩

/-- The bytes outside a value that is stored. -/
theorem setWord_off {i : Nat} (h : i < o ∨ o + 4 ≤ i) : b.setWord o w i = b i := copy_off h

end Buffer
