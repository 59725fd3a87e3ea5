import Mathlib.Algebra.GroupWithZero.Nat
import Mathlib.Algebra.Ring.Int.Defs
import Mathlib.Logic.Function.Basic
import Mathlib.Data.Fintype.Basic

/-!
# Words in byte arrays

A record made of 32-bit words is kept in memory and on a disk as bytes, the low byte of each word first. `bytes` lays the words
of a record out, `word` reads one back, and each is the inverse of the other. `overlay` writes one array into another at a
displacement.
-/

namespace Bytes

/-- Byte `q` of a word, the low byte first. -/
def byteOf (w : UInt32) (q : Nat) : UInt8 := UInt8.ofNat (w.toNat / 256 ^ q)

/-- The word that four bytes hold, the low byte first. -/
def wordOf (a b c d : UInt8) : UInt32 :=
  UInt32.ofNat (a.toNat + 256 * b.toNat + 65536 * c.toNat + 16777216 * d.toNat)

/-- A word is put together again from its bytes. -/
theorem wordOf_byteOf (w : UInt32) : wordOf (byteOf w 0) (byteOf w 1) (byteOf w 2) (byteOf w 3) = w := by
  apply UInt32.toNat_inj.mp
  have hw : w.toNat < 2 ^ 32 := w.toNat_lt
  simp only [wordOf, byteOf, UInt32.toNat_ofNat', UInt8.toNat_ofNat']
  omega

/-- The bytes of a word are those it was put together from. -/
theorem byteOf_wordOf (a b c d : UInt8) (q : Nat) (hq : q < 4) :
    byteOf (wordOf a b c d) q = if q = 0 then a else if q = 1 then b else if q = 2 then c else d := by
  have ha : a.toNat < 2 ^ 8 := a.toNat_lt
  have hb : b.toNat < 2 ^ 8 := b.toNat_lt
  have hc : c.toNat < 2 ^ 8 := c.toNat_lt
  have hd : d.toNat < 2 ^ 8 := d.toNat_lt
  apply UInt8.toNat_inj.mp
  have hcases : q = 0 ∨ q = 1 ∨ q = 2 ∨ q = 3 := by omega
  rcases hcases with rfl | rfl | rfl | rfl <;>
    simp [wordOf, byteOf, UInt8.toNat_ofNat'] <;> omega

variable {n : Nat}

/-- Word `k` of an array of bytes. -/
def word (b : Fin (4 * n) → UInt8) (k : Fin n) : UInt32 :=
  wordOf (b ⟨4 * k, by omega⟩) (b ⟨4 * k + 1, by omega⟩) (b ⟨4 * k + 2, by omega⟩) (b ⟨4 * k + 3, by omega⟩)

/-- The bytes of an array of words. -/
def bytes (w : Fin n → UInt32) (t : Fin (4 * n)) : UInt8 := byteOf (w ⟨t / 4, by omega⟩) (t % 4)

/-- The words of a record are read back from its bytes. -/
@[simp] theorem word_bytes (w : Fin n → UInt32) : word (bytes w) = w := by
  funext k
  have h0 : 4 * (k : Nat) / 4 = k := by omega
  have h1 : (4 * (k : Nat) + 1) / 4 = k := by omega
  have h2 : (4 * (k : Nat) + 2) / 4 = k := by omega
  have h3 : (4 * (k : Nat) + 3) / 4 = k := by omega
  have m0 : 4 * (k : Nat) % 4 = 0 := by omega
  have m1 : (4 * (k : Nat) + 1) % 4 = 1 := by omega
  have m2 : (4 * (k : Nat) + 2) % 4 = 2 := by omega
  have m3 : (4 * (k : Nat) + 3) % 4 = 3 := by omega
  simp only [word, bytes, h0, h1, h2, h3, m0, m1, m2, m3, Fin.eta]
  exact wordOf_byteOf (w k)

/-- The bytes of a record are those of the words read from them. -/
@[simp] theorem bytes_word (b : Fin (4 * n) → UInt8) : bytes (word b) = b := by
  funext t
  have hm : (t : Nat) % 4 < 4 := Nat.mod_lt _ (by decide)
  simp only [bytes, word]
  rw [byteOf_wordOf _ _ _ _ _ hm]
  have hcases : (t : Nat) % 4 = 0 ∨ (t : Nat) % 4 = 1 ∨ (t : Nat) % 4 = 2 ∨ (t : Nat) % 4 = 3 := by omega
  rcases hcases with h | h | h | h <;> simp only [h] <;> simp <;> congr 1 <;> ext <;> simp <;> omega

/-- A shorter array written into a longer one from position `d` on. -/
def overlay {m n : Nat} (b : Fin n → UInt8) (d : Nat) (x : Fin m → UInt8) (t : Fin n) : UInt8 :=
  if h : d ≤ t ∧ t < d + m then x ⟨t - d, by omega⟩ else b t

/-- What was written is read back at its position. -/
theorem overlay_at {m n : Nat} (b : Fin n → UInt8) (d : Nat) (x : Fin m → UInt8) (t : Fin m) (h : d + t < n) :
    overlay b d x ⟨d + t, h⟩ = x t := by
  have ht : d ≤ d + (t : Nat) ∧ d + (t : Nat) < d + m := ⟨Nat.le_add_right d t, by omega⟩
  rw [overlay, dif_pos ht]
  congr 1
  exact Fin.ext (by simp)

/-- The bytes outside are kept. -/
theorem overlay_off {m n : Nat} (b : Fin n → UInt8) (d : Nat) (x : Fin m → UInt8) (t : Fin n)
    (h : (t : Nat) < d ∨ d + m ≤ t) : overlay b d x t = b t := by
  rw [overlay, dif_neg (by omega)]

/-- Writes to disjoint ranges commute. -/
theorem overlay_comm {l m n : Nat} (b : Fin n → UInt8) {d e : Nat} (x : Fin l → UInt8) (y : Fin m → UInt8)
    (h : d + l ≤ e ∨ e + m ≤ d) : overlay (overlay b d x) e y = overlay (overlay b e y) d x := by
  funext t
  by_cases hx : d ≤ (t : Nat) ∧ (t : Nat) < d + l
  · rw [overlay_off _ e y t (by omega)]
    simp only [overlay, dif_pos hx]
  · have hx' : (t : Nat) < d ∨ d + l ≤ t := by omega
    rw [overlay_off _ d x t hx']
    simp only [overlay, dif_neg hx]

end Bytes
