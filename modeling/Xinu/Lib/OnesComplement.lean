import Mathlib.Algebra.GroupWithZero.Nat
import Mathlib.Algebra.Order.Group.Nat
import Mathlib.Data.List.Range
import Mathlib.Tactic.Common

/-!
# Ones-complement sums

The Internet checksum of RFC 1071: the 16-bit words of a byte sequence, an odd last byte padded with zero, are added with the
carry brought around to the low end after every addition. The carries can also be kept in a wide sum and brought around at the
end, as often as it takes (`sum_eq_carry`); once is enough exactly when the result is a word again.
-/

namespace Xinu.OnesComplement

/-- The 16-bit words of a byte sequence. -/
def words : List UInt8 → List Nat
  | [] => []
  | [a] => [256 * a.toNat]
  | a :: b :: bs => (256 * a.toNat + b.toNat) :: words bs

/-- Bring the carry around to the low end. -/
def carry (s : Nat) : Nat := s % 65536 + s / 65536

/-- Addition with end-around carry. -/
def add (a b : Nat) : Nat := carry (a + b)

/-- The ones-complement sum. -/
def sum (bs : List UInt8) : Nat := (words bs).foldl add 0

/-- The checksum: the complement of the sum. -/
def checksum (bs : List UInt8) : Nat := 65535 - sum bs

/-- The word that a wide sum stands for. -/
def residue (s : Nat) : Nat := if s = 0 then 0 else (s - 1) % 65535 + 1

theorem residue_of_lt {s : Nat} (h : s < 65536) : residue s = s := by
  unfold residue
  split_ifs <;> omega

theorem residue_lt (s : Nat) : residue s < 65536 := by
  unfold residue
  split_ifs <;> omega

/-- Bringing the carry around changes the wide sum, and not the word that it stands for. -/
theorem residue_carry (s : Nat) : residue (carry s) = residue s := by
  obtain ⟨h, l, hl, rfl⟩ : ∃ h l, l < 65536 ∧ s = 65536 * h + l :=
    ⟨s / 65536, s % 65536, Nat.mod_lt _ (by decide), (Nat.div_add_mod s 65536).symm⟩
  have hc : carry (65536 * h + l) = l + h := by
    unfold carry
    omega
  rw [hc]
  unfold residue
  by_cases h0 : l + h = 0
  · rw [if_pos h0, if_pos (by omega)]
  · rw [if_neg h0, if_neg (by omega)]
    omega

theorem residue_add_residue (s t : Nat) : residue (residue s + t) = residue (s + t) := by
  by_cases h0 : s = 0
  · simp [residue, h0]
  · have hs : residue s = (s - 1) % 65535 + 1 := if_neg h0
    rw [hs, residue, residue, if_neg (by omega), if_neg (by omega)]
    omega

/-- Addition with end-around carry, of two words. -/
theorem add_eq {a b : Nat} (ha : a < 65536) (hb : b < 65536) : add a b = residue (a + b) := by
  have hlt : carry (a + b) < 65536 := by
    unfold carry
    omega
  rw [add, ← residue_carry, residue_of_lt hlt]

/-- The words of a byte sequence have sixteen bits. -/
theorem words_lt : ∀ bs : List UInt8, ∀ w ∈ words bs, w < 65536
  | [] => fun w hw => by simp [words] at hw
  | [a] => fun w hw => by
    have ha := a.toNat_lt
    obtain rfl := List.mem_singleton.mp hw
    omega
  | a :: b :: bs => fun w hw => by
    have ha := a.toNat_lt
    have hb := b.toNat_lt
    rcases List.mem_cons.mp hw with rfl | hw
    · omega
    · exact words_lt bs w hw

/-- Adding with the carry brought round at each word gives the residue of the sum. -/
theorem foldl_add (ws : List Nat) : ∀ {c : Nat}, c < 65536 → (∀ w ∈ ws, w < 65536) → ws.foldl add c = residue (c + ws.sum) := by
  induction ws with
  | nil =>
    intro c hc _
    rw [List.foldl_nil, List.sum_nil, Nat.add_zero, residue_of_lt hc]
  | cons w ws ih =>
    intro c hc h
    have hw := add_eq hc (h w List.mem_cons_self)
    rw [List.foldl_cons, ih (hw ▸ residue_lt _) fun v hv => h v (List.mem_cons_of_mem w hv), hw, residue_add_residue,
      List.sum_cons, Nat.add_assoc]

/-- The ones-complement sum by the wide sum of the words. -/
theorem sum_eq (bs : List UInt8) : sum bs = residue (words bs).sum := by
  rw [sum, foldl_add (words bs) (by decide) (words_lt bs), Nat.zero_add]

/-- The carries may be brought around at the end: as soon as the wide sum is a word again, it is the ones-complement sum. -/
theorem sum_eq_carry (bs : List UInt8) (n : Nat) (h : carry^[n] (words bs).sum < 65536) : carry^[n] (words bs).sum = sum bs := by
  have hres : ∀ n, residue (carry^[n] (words bs).sum) = residue (words bs).sum := by
    intro n
    induction n with
    | zero => rfl
    | succ n ih => rw [Function.iterate_succ_apply', residue_carry, ih]
  rw [sum_eq, ← hres n, residue_of_lt h]

end Xinu.OnesComplement
