import Xinu.Lib.Bytes

/-!
# Byte buffers

Memory from the start of a buffer on, byte by byte: what lies behind the end of the buffer is memory too, so that a store there
shows. A range of bytes is stored with `copy`; `half` and `word` are the integers that a range holds on a machine that keeps the
low byte first. `copyUpTo` and `copyString` are the two loops that copy a string byte by byte up to its terminator, the one with
a limit and the other without.
-/

/-- Memory from the start of a buffer on. -/
abbrev Buffer := Nat → UInt8

namespace Buffer

variable (b : Buffer)

/-- Store the first `n` bytes of `src` at offset `o`. -/
def copy (o : Nat) (src : Buffer) (n : Nat) : Buffer := fun i => if o ≤ i ∧ i < o + n then src (i - o) else b i

/-- The 16-bit value at an offset. -/
def half (o : Nat) : UInt16 := UInt16.ofNat ((b o).toNat + 256 * (b (o + 1)).toNat)

/-- The 32-bit value at an offset. -/
def word (o : Nat) : UInt32 := Bytes.wordOf (b o) (b (o + 1)) (b (o + 2)) (b (o + 3))

/-- Store a 16-bit value. -/
def setHalf (o : Nat) (v : UInt16) : Buffer := b.copy o (fun q => UInt8.ofNat (v.toNat / 256 ^ q)) 2

/-- Store a 32-bit value. -/
def setWord (o : Nat) (w : UInt32) : Buffer := b.copy o (Bytes.byteOf w) 4

/-- The bytes of a range. -/
def bytes (o n : Nat) : List UInt8 := (List.range n).map fun i => b (o + i)

variable {b}

/-- A byte that was stored. -/
theorem copy_at {o : Nat} {src : Buffer} {n i : Nat} (h : i < n) : b.copy o src n (o + i) = src i := by
  have hi : o ≤ o + i ∧ o + i < o + n := by omega
  simp only [copy, if_pos hi, Nat.add_sub_cancel_left]

/-- The bytes outside the range are kept. -/
theorem copy_off {o : Nat} {src : Buffer} {n i : Nat} (h : i < o ∨ o + n ≤ i) : b.copy o src n i = b i := by
  have hi : ¬(o ≤ i ∧ i < o + n) := by omega
  simp only [copy, if_neg hi]

/-- Nothing is stored by a copy of no bytes. -/
@[simp] theorem copy_zero (o : Nat) (src : Buffer) : b.copy o src 0 = b := by
  funext i
  exact copy_off (by omega)

/-- A copy that is one byte longer. -/
theorem copy_succ (o : Nat) (src : Buffer) (n : Nat) :
    b.copy o src (n + 1) = Function.update (b.copy o src n) (o + n) (src n) := by
  funext i
  rcases eq_or_ne i (o + n) with rfl | hi
  · rw [Function.update_self, copy_at (Nat.lt_succ_self n)]
  · rw [Function.update_of_ne hi]
    simp only [copy]
    have hiff : (o ≤ i ∧ i < o + (n + 1)) ↔ (o ≤ i ∧ i < o + n) := by omega
    simp only [hiff]

/-- The 32-bit value of four bytes that are the same. -/
theorem word_congr {b b' : Buffer} {o : Nat} (h : ∀ i, o ≤ i → i < o + 4 → b i = b' i) : b.word o = b'.word o := by
  rw [word, word, h o (by omega) (by omega), h (o + 1) (by omega) (by omega), h (o + 2) (by omega) (by omega),
    h (o + 3) (by omega) (by omega)]

/-- The 16-bit value of two bytes that are the same. -/
theorem half_congr {b b' : Buffer} {o : Nat} (h : ∀ i, o ≤ i → i < o + 2 → b i = b' i) : b.half o = b'.half o := by
  rw [half, half, h o (by omega) (by omega), h (o + 1) (by omega) (by omega)]

/-- A byte of a range that starts the buffer. -/
theorem copy_start {src : Buffer} {n i : Nat} (h : i < n) : b.copy 0 src n i = src i := by
  have hi := @copy_at b 0 src n i h
  rwa [Nat.zero_add] at hi

/-- The 16-bit values outside the range are kept. -/
theorem half_copy_off {o : Nat} {src : Buffer} {n p : Nat} (h : p + 2 ≤ o ∨ o + n ≤ p) :
    (b.copy o src n).half p = b.half p :=
  half_congr fun _ _ _ => copy_off (by omega)

/-- The 32-bit values outside the range are kept. -/
theorem word_copy_off {o : Nat} {src : Buffer} {n p : Nat} (h : p + 4 ≤ o ∨ o + n ≤ p) :
    (b.copy o src n).word p = b.word p :=
  word_congr fun _ _ _ => copy_off (by omega)

/-- A 16-bit value inside the range is that of the source. -/
theorem half_copy {src : Buffer} {n p : Nat} (h : p + 2 ≤ n) : (b.copy 0 src n).half p = src.half p :=
  half_congr fun _ _ _ => copy_start (by omega)

/-- A 32-bit value inside the range is that of the source. -/
theorem word_copy {src : Buffer} {n p : Nat} (h : p + 4 ≤ n) : (b.copy 0 src n).word p = src.word p :=
  word_congr fun _ _ _ => copy_start (by omega)

/-- A 16-bit value is read back. -/
@[simp] theorem half_setHalf (o : Nat) (v : UInt16) : (b.setHalf o v).half o = v := by
  have h : ∀ q, q < 2 → b.setHalf o v (o + q) = UInt8.ofNat (v.toNat / 256 ^ q) := fun q hq => copy_at hq
  have h0 := h 0 (by omega)
  rw [Nat.add_zero] at h0
  have hv : v.toNat < 2 ^ 16 := v.toNat_lt
  apply UInt16.toNat_inj.mp
  simp only [half, h0, h 1 (by omega), UInt16.toNat_ofNat', UInt8.toNat_ofNat']
  omega

/-- A 32-bit value is read back. -/
@[simp] theorem word_setWord (o : Nat) (w : UInt32) : (b.setWord o w).word o = w := by
  have h : ∀ q, q < 4 → b.setWord o w (o + q) = Bytes.byteOf w q := fun q hq => copy_at hq
  have h0 := h 0 (by omega)
  rw [Nat.add_zero] at h0
  rw [word, h0, h 1 (by omega), h 2 (by omega), h 3 (by omega), Bytes.wordOf_byteOf]

/-! ## Strings -/

/-- The bytes of `src` up to position `n` are a string: position `n` holds its terminator. -/
def IsString (src : Buffer) (n : Nat) : Prop := src n = 0 ∧ ∀ i < n, src i ≠ 0

/-- A string has one length. -/
theorem IsString.unique {src : Buffer} {m n : Nat} (h : src.IsString m) (h' : src.IsString n) : m = n := by
  rcases Nat.lt_trichotomy m n with hlt | rfl | hgt
  · exact absurd h.1 (h'.2 m hlt)
  · rfl
  · exact absurd h'.1 (h.2 n hgt)

/-- Either one of the first `n` bytes ends a string, or none of them is zero. -/
theorem isString_or (src : Buffer) (n : Nat) : (∃ k < n, src.IsString k) ∨ ∀ i < n, src i ≠ 0 := by
  induction n with
  | zero => exact .inr fun i hi => absurd hi (Nat.not_lt_zero i)
  | succ n ih =>
    rcases ih with ⟨k, hk, hs⟩ | hall
    · exact .inl ⟨k, Nat.lt_succ_of_lt hk, hs⟩
    · by_cases h0 : src n = 0
      · exact .inl ⟨n, Nat.lt_succ_self n, h0, hall⟩
      · refine .inr fun i hi => ?_
        rcases Nat.lt_succ_iff_lt_or_eq.mp hi with hlt | rfl
        · exact hall i hlt
        · exact h0

/-- The copy loop with a limit: the byte is stored, then it is tested, and `n` bytes are still allowed. The result is the buffer
and the length of the string, if its terminator was met. -/
def copyUpTo (src : Buffer) (o : Nat) : (n len : Nat) → Buffer → Buffer × Option Nat
  | 0, _, b => (b, none)
  | n + 1, len, b =>
    let b := Function.update b (o + len) (src len)
    if src len = 0 then (b, some len) else copyUpTo src o n (len + 1) b

/-- The copy loop without a limit, over a source that has `n` bytes: `none` when it leaves the source. -/
def copyString (src : Buffer) (o : Nat) : (n len : Nat) → Buffer → Option Buffer
  | 0, _, _ => none
  | n + 1, len, b =>
    let b := Function.update b (o + len) (src len)
    if src len = 0 then some b else copyString src o n (len + 1) b

/-- The loop with a limit, from byte `len` on: a string that ends within the limit is copied with its terminator. -/
theorem copyUpTo_from {src : Buffer} {o k : Nat} (hs : src.IsString k) : ∀ {n len : Nat}, len ≤ k → k < len + n →
    copyUpTo src o n len (b.copy o src len) = (b.copy o src (k + 1), some k) := by
  intro n
  induction n with
  | zero =>
    intro len hlen hk
    omega
  | succ n ih =>
    intro len hlen hk
    simp only [copyUpTo, ← copy_succ]
    rcases Nat.lt_or_eq_of_le hlen with hlt | rfl
    · rw [if_neg (hs.2 len hlt)]
      exact ih hlt (by omega)
    · rw [if_pos hs.1]

/-- A string that ends within the limit is copied with its terminator. -/
theorem copyUpTo_string {src : Buffer} {o k n : Nat} (hs : src.IsString k) (hk : k < n) :
    copyUpTo src o n 0 b = (b.copy o src (k + 1), some k) := by
  have := @copyUpTo_from b src o k hs n 0 (Nat.zero_le k) (by omega)
  rwa [copy_zero] at this

/-- The loop with a limit, from byte `len` on: of a longer string the limit's bytes are copied. -/
theorem copyUpTo_long_from {src : Buffer} {o : Nat} : ∀ {n len : Nat}, (∀ i < len + n, src i ≠ 0) →
    copyUpTo src o n len (b.copy o src len) = (b.copy o src (len + n), none) := by
  intro n
  induction n with
  | zero => exact fun _ => rfl
  | succ n ih =>
    intro len h
    simp only [copyUpTo, ← copy_succ]
    rw [if_neg (h len (by omega)), ih fun i hi => h i (by omega)]
    simp only [Nat.add_assoc, Nat.add_comm 1 n]

/-- Of a longer string the limit's bytes are copied. -/
theorem copyUpTo_long {src : Buffer} {o n : Nat} (h : ∀ i < n, src i ≠ 0) :
    copyUpTo src o n 0 b = (b.copy o src n, none) := by
  have := @copyUpTo_long_from b src o n 0 (by simpa using h)
  rwa [copy_zero, Nat.zero_add] at this

/-- The loop without a limit, from byte `len` on, copies up to the next terminator and stores nothing else. -/
theorem copyString_from {src : Buffer} {o k : Nat} (h0 : src k = 0) : ∀ {n len : Nat} {b : Buffer},
    (∀ i, len ≤ i → i < k → src i ≠ 0) → len ≤ k → k < len + n →
    copyString src o n len b = some fun i => if o + len ≤ i ∧ i ≤ o + k then src (i - o) else b i := by
  intro n
  induction n with
  | zero =>
    intro len b _ hlen hk
    omega
  | succ n ih =>
    intro len b hs hlen hk
    simp only [copyString]
    rcases Nat.lt_or_eq_of_le hlen with hlt | rfl
    · rw [if_neg (hs len (Nat.le_refl len) hlt), ih (fun i hi => hs i (by omega)) hlt (by omega)]
      congr 1
      funext i
      rcases eq_or_ne i (o + len) with rfl | hi
      · rw [if_neg (by omega), if_pos (by omega), Function.update_self, Nat.add_sub_cancel_left]
      · have hiff : (o + (len + 1) ≤ i ∧ i ≤ o + k) ↔ (o + len ≤ i ∧ i ≤ o + k) := by omega
        simp only [hiff, Function.update_of_ne hi]
    · rw [if_pos h0]
      congr 1
      funext i
      rcases eq_or_ne i (o + len) with rfl | hi
      · rw [if_pos (by omega), Function.update_self, Nat.add_sub_cancel_left]
      · rw [if_neg (by omega), Function.update_of_ne hi]

/-- A string is copied with its terminator. -/
theorem copyString_string {src : Buffer} {o k n : Nat} (hs : src.IsString k) (hk : k < n) :
    copyString src o n 0 b = some (b.copy o src (k + 1)) := by
  rw [copyString_from hs.1 (fun i _ hi => hs.2 i hi) (Nat.zero_le k) (by omega)]
  congr 1
  funext i
  have hiff : (o + 0 ≤ i ∧ i ≤ o + k) ↔ (o ≤ i ∧ i < o + (k + 1)) := by omega
  simp only [copy, hiff]

/-- Without a terminator the loop leaves the source. -/
theorem copyString_long {src : Buffer} {o : Nat} : ∀ {n len : Nat} {b : Buffer}, (∀ i < n, src (len + i) ≠ 0) →
    copyString src o n len b = none := by
  intro n
  induction n with
  | zero => exact fun _ => rfl
  | succ n ih =>
    intro len b h
    have h0 := h 0 (Nat.succ_pos n)
    rw [Nat.add_zero] at h0
    simp only [copyString]
    rw [if_neg h0]
    exact ih fun i hi => by simpa [Nat.add_assoc, Nat.add_comm 1 i] using h (i + 1) (by omega)

end Buffer
