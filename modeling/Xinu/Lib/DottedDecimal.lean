import Mathlib.Data.List.Basic
import Mathlib.Data.List.Count
import Mathlib.Tactic.Common

/-!
# Dotted decimal

An address in dotted decimal is four numbers of one to three digits, each at most 255, with a dot between them (`IsQuad`). `Cut` is the
wider form that a reader accepts which looks for a dot only among the first four characters of a number: four digits in a row end a
number too, and the next begins behind them (`IsRun`).
-/

namespace Xinu.DottedDecimal

def dot : UInt8 := 46

/-- All characters are decimal digits. -/
def Digits (s : List UInt8) : Prop := ∀ c ∈ s, 48 ≤ c ∧ c ≤ 57

/-- The number that digits add to one that stands before them. -/
def valueFrom (v : Nat) (s : List UInt8) : Nat := s.foldl (fun v c => 10 * v + (c.toNat - 48)) v

/-- The number that digits write. -/
def value (s : List UInt8) : Nat := valueFrom 0 s

/-- A number of an address. -/
structure IsSegment (s : List UInt8) : Prop where
  pos : 1 ≤ s.length
  short : s.length ≤ 3
  digits : Digits s
  small : value s ≤ 255

/-- An address in dotted decimal, the first number in the most significant byte. -/
def IsQuad (s : List UInt8) (ip : Nat) : Prop :=
  ∃ a b c d, IsSegment a ∧ IsSegment b ∧ IsSegment c ∧ IsSegment d ∧ s = a ++ dot :: (b ++ dot :: (c ++ dot :: d)) ∧
    ip = ((value a * 256 + value b) * 256 + value c) * 256 + value d

/-- Four digits of a number that is at most 255. -/
structure IsRun (s : List UInt8) : Prop where
  long : s.length = 4
  digits : Digits s
  small : value s ≤ 255

/-- A number with its dot. -/
def IsDotted (p : List UInt8) : Prop := ∃ a, IsSegment a ∧ p = a ++ [dot]

/-- The string is cut into numbers with a dot or four digits long, and a last number. -/
structure Cut (ps : List (List UInt8)) (q s : List UInt8) : Prop where
  pieces : ∀ p ∈ ps, IsDotted p ∨ IsRun p
  last : IsSegment q
  whole : s = ps.flatten ++ q

/-- The string can be cut so, with a number that is four digits long. -/
def RunsOn (s : List UInt8) : Prop := ∃ ps q, ps.length = 3 ∧ Cut ps q s ∧ ∃ p ∈ ps, IsRun p

/-- The address that pieces add to what stands before them. -/
def address (ip : Nat) (ps : List (List UInt8)) : Nat := ps.foldl (fun ip p => ip * 256 + value (p.filter (· ≠ dot))) ip

section

variable {s p q a : List UInt8} {ps : List (List UInt8)}

theorem digits_nil : Digits [] := nofun

theorem digits_cons {c : UInt8} : Digits (c :: s) ↔ (48 ≤ c ∧ c ≤ 57) ∧ Digits s := List.forall_mem_cons

theorem valueFrom_cons (v : Nat) (c : UInt8) : valueFrom v (c :: s) = valueFrom (10 * v + (c.toNat - 48)) s := List.foldl_cons ..

theorem Digits.not_dot (h : Digits s) : dot ∉ s := fun hd => absurd (h dot hd).1 (by decide)

theorem Digits.filter (h : Digits s) : s.filter (· ≠ dot) = s := by
  rw [List.filter_eq_self]
  intro c hc
  rw [decide_eq_true_eq]
  rintro rfl
  exact h.not_dot hc

/-- One digit is a number. -/
theorem isSegment_digit {c : UInt8} (h0 : 48 ≤ c) (h9 : c ≤ 57) : IsSegment [c] := by
  have hc : c.toNat ≤ 57 := h9
  refine ⟨Nat.le_refl 1, (by decide : 1 ≤ 3), digits_cons.mpr ⟨⟨h0, h9⟩, digits_nil⟩, ?_⟩
  simp only [value, valueFrom, List.foldl_cons, List.foldl_nil]
  omega

theorem filter_dotted (h : Digits a) : (a ++ [dot]).filter (· ≠ dot) = a := by
  rw [List.filter_append, h.filter]
  simp

theorem IsDotted.count (h : IsDotted p) : p.count dot = 1 := by
  obtain ⟨a, ha, rfl⟩ := h
  rw [List.count_append, List.count_eq_zero.mpr ha.digits.not_dot]
  simp

theorem IsRun.count (h : IsRun p) : p.count dot = 0 := List.count_eq_zero.mpr h.digits.not_dot

theorem address_cons (ip : Nat) (p : List UInt8) :
    address ip (p :: ps) = address (ip * 256 + value (p.filter (· ≠ dot))) ps := List.foldl_cons ..

theorem Cut.cons (hp : IsDotted p ∨ IsRun p) (h : Cut ps q s) : Cut (p :: ps) q (p ++ s) :=
  ⟨List.forall_mem_cons.mpr ⟨hp, h.pieces⟩, h.last, by rw [h.whole, List.flatten_cons, List.append_assoc]⟩

theorem Cut.of_cons (h : Cut (p :: ps) q s) : (IsDotted p ∨ IsRun p) ∧ ∃ t, s = p ++ t ∧ Cut ps q t := by
  obtain ⟨hp, hps⟩ := List.forall_mem_cons.mp h.pieces
  refine ⟨hp, ps.flatten ++ q, ?_, hps, h.last, rfl⟩
  rw [h.whole, List.flatten_cons, List.append_assoc]

theorem Cut.of_nil (h : Cut [] q s) : s = q ∧ IsSegment s := by
  have hs : s = q := h.whole
  exact ⟨hs, hs ▸ h.last⟩

/-- An address is three numbers with their dots, and a last number. -/
theorem isQuad_iff {ip : Nat} : IsQuad s ip ↔ ∃ ps q, ps.length = 3 ∧ (∀ p ∈ ps, IsDotted p) ∧ IsSegment q ∧
    s = ps.flatten ++ q ∧ ip = address 0 ps * 256 + value q := by
  have haddress : ∀ {a b c : List UInt8}, Digits a → Digits b → Digits c →
      address 0 [a ++ [dot], b ++ [dot], c ++ [dot]] = (value a * 256 + value b) * 256 + value c := by
    intro a b c ha hb hc
    simp only [address, List.foldl_cons, List.foldl_nil, filter_dotted ha, filter_dotted hb, filter_dotted hc, Nat.zero_mul,
      Nat.zero_add]
  constructor
  · rintro ⟨a, b, c, d, ha, hb, hc, hd, rfl, rfl⟩
    refine ⟨[a ++ [dot], b ++ [dot], c ++ [dot]], d, rfl, ?_, hd, by simp, ?_⟩
    · simp only [List.forall_mem_cons]
      exact ⟨⟨a, ha, rfl⟩, ⟨b, hb, rfl⟩, ⟨c, hc, rfl⟩, nofun⟩
    · rw [haddress ha.digits hb.digits hc.digits]
  · rintro ⟨ps, d, hlen, hps, hd, rfl, rfl⟩
    obtain ⟨p₁, p₂, p₃, rfl⟩ := List.length_eq_three.mp hlen
    simp only [List.forall_mem_cons] at hps
    obtain ⟨⟨a, ha, rfl⟩, ⟨b, hb, rfl⟩, ⟨c, hc, rfl⟩, _⟩ := hps
    refine ⟨a, b, c, d, ha, hb, hc, hd, by simp, ?_⟩
    rw [haddress ha.digits hb.digits hc.digits]

theorem Digits.not_zero (h : Digits s) : 0 ∉ s := fun h0 => absurd (h 0 h0).1 (by decide)

/-- Only digits and dots are cut. -/
theorem Cut.not_zero (h : Cut ps q s) : 0 ∉ s := by
  rw [h.whole, List.mem_append, List.mem_flatten, not_or]
  refine ⟨?_, h.last.digits.not_zero⟩
  rintro ⟨p, hp, h0⟩
  rcases h.pieces p hp with ⟨a, ha, rfl⟩ | hrun
  · rcases List.mem_append.mp h0 with h0 | h0
    · exact ha.digits.not_zero h0
    · exact absurd (List.mem_singleton.mp h0) (by decide)
  · exact hrun.digits.not_zero h0

/-- An address cannot be cut in another way: it has three dots. -/
theorem RunsOn.not_quad (h : RunsOn s) (ip : Nat) : ¬IsQuad s ip := by
  intro hquad
  obtain ⟨ps, q, hlen, hps, hq, rfl, _⟩ := isQuad_iff.mp hquad
  obtain ⟨ps', q', hlen', C, p, hp, hrun⟩ := h
  have hcount := congrArg (List.count dot) C.whole
  obtain ⟨p₁, p₂, p₃, rfl⟩ := List.length_eq_three.mp hlen
  obtain ⟨r₁, r₂, r₃, rfl⟩ := List.length_eq_three.mp hlen'
  have hle : ∀ r ∈ [r₁, r₂, r₃], r.count dot ≤ 1 := by
    intro r hr
    rcases C.pieces r hr with h | h
    · exact Nat.le_of_eq h.count
    · rw [h.count]
      exact Nat.zero_le _
  simp only [List.forall_mem_cons] at hps hle
  obtain ⟨h1, h2, h3, _⟩ := hps
  obtain ⟨hr1, hr2, hr3, _⟩ := hle
  have hzero := hrun.count
  simp only [List.flatten_cons, List.flatten_nil, List.append_nil, List.append_assoc, List.count_append, h1.count, h2.count,
    h3.count, List.count_eq_zero.mpr hq.digits.not_dot, List.count_eq_zero.mpr C.last.digits.not_dot] at hcount
  simp only [List.mem_cons, List.not_mem_nil, or_false] at hp
  rcases hp with rfl | rfl | rfl <;> omega

end

end Xinu.DottedDecimal
