import Xinu.Lib.DottedDecimal
import Xinu.Lib.Text
import Xinu.Net.Dhcp

/-!
# Addresses in dotted decimal

The inner loop of `dot2ip` takes up to four characters of a segment, a dot or the terminator among them. Behind four digits it goes on
with the next segment as it does behind a dot: `dot2ip` accepts the strings that can be cut into three pieces and a last number
(`dot2ip_eq_some_iff`), and among those the ones with a run of four digits are not addresses.
-/

namespace Xinu

namespace Dhcp

open DottedDecimal Buffer

/-- `dot2ip`: what it returns and `*result`. -/
def dot2ipResult (dotted : Nat → UInt8) (result : Nat) : Nat × Nat :=
  match dot2ip dotted with
  | some ipaddr => (OK.toNat, ipaddr)
  | none => (SYSERR32, result)

/-- `dot2ip` accepts the string exactly when it is an address in dotted decimal, and otherwise keeps `*result`. -/
structure Parses (s : List UInt8) : Prop where
  accepts : ∀ dotted : Buffer, dotted.IsText 0 s → ∀ result ip, IsQuad s ip → dot2ipResult dotted result = (OK.toNat, ip)
  rejects : ∀ dotted : Buffer, dotted.IsText 0 s → ∀ result, (∀ ip, ¬IsQuad s ip) → dot2ipResult dotted result = (SYSERR32, result)

section Segments

variable {dotted : Buffer} {left o val v e : Nat} {ch last : UInt8} {s a r : List UInt8}

/-- A digit is not the end of the loop. -/
theorem segmentLoop_digit {c : UInt8} (hc : 48 ≤ c ∧ c ≤ 57) (h : dotted o = c) :
    segmentLoop dotted (left + 1) o ch val = segmentLoop dotted left (o + 1) c (10 * val + (c.toNat - 48)) := by
  have hend : ¬(c = 0 ∨ c = 46) := by
    rintro (rfl | rfl)
    · exact absurd hc.1 (by decide)
    · exact absurd hc.1 (by decide)
  have hdigit : ¬(c < 48 ∨ c > 57) := by
    rintro (hlt | hgt)
    · exact absurd hlt (UInt8.not_lt.mpr hc.1)
    · exact absurd hgt (UInt8.not_lt.mpr hc.2)
  rw [segmentLoop, h, if_neg hend, if_neg hdigit]

/-- A terminator or a dot ends the loop, unless no character stands before it. -/
theorem segmentLoop_stop {c : UInt8} (hc : c = 0 ∨ c = 46) (h : dotted o = c) :
    segmentLoop dotted (left + 1) o ch val = if left + 1 = 4 then none else some (val, c, o + 1) := by
  rw [segmentLoop, h, if_pos hc]

/-- A segment in front of a dot or of the end of the string. -/
theorem segmentLoop_segment {c : UInt8} (hc : c = 0 ∨ c = 46) (ha : Digits a) (h : dotted.Holds o (a ++ [c])) (hlt : a.length < left)
    (hne : left = 4 → a ≠ []) (hle : left ≤ 4) :
    segmentLoop dotted left o ch val = some (valueFrom val a, c, o + a.length + 1) := by
  induction a generalizing left o ch val with
  | nil =>
    obtain ⟨n, rfl⟩ : ∃ n, left = n + 1 := ⟨left - 1, by rw [List.length_nil] at hlt; omega⟩
    rw [segmentLoop_stop hc (holds_cons.mp h).1, if_neg fun h4 => hne h4 rfl]
    rfl
  | cons c' a ih =>
    rw [List.length_cons] at hlt ⊢
    obtain ⟨n, rfl⟩ : ∃ n, left = n + 1 := ⟨left - 1, by omega⟩
    obtain ⟨h0, h⟩ := holds_cons.mp h
    obtain ⟨hc', ha⟩ := digits_cons.mp ha
    rw [segmentLoop_digit hc' h0, ih ha h (by omega) (by omega) (by omega), valueFrom_cons, Nat.add_right_comm o 1, Nat.add_assoc o]

/-- As many digits as the loop takes. -/
theorem segmentLoop_run (ha : Digits a) (h : dotted.Holds o a) (hch : ch ≠ 0 ∨ a ≠ []) :
    ∃ last, last ≠ 0 ∧ segmentLoop dotted a.length o ch val = some (valueFrom val a, last, o + a.length) := by
  induction a generalizing o ch val with
  | nil => exact ⟨ch, hch.resolve_right fun h => h rfl, rfl⟩
  | cons c a ih =>
    obtain ⟨h0, h⟩ := holds_cons.mp h
    obtain ⟨hc, ha⟩ := digits_cons.mp ha
    have hzero : c ≠ 0 := by
      rintro rfl
      exact absurd hc.1 (by decide)
    obtain ⟨last, hlast, hloop⟩ : ∃ last, last ≠ 0 ∧ segmentLoop dotted a.length (o + 1) c (10 * val + (c.toNat - 48)) =
        some (valueFrom (10 * val + (c.toNat - 48)) a, last, o + 1 + a.length) := ih ha h (Or.inl hzero)
    refine ⟨last, hlast, ?_⟩
    rw [List.length_cons, segmentLoop_digit hc h0, hloop, valueFrom_cons, Nat.add_right_comm o 1, Nat.add_assoc o]

/-- The part of a string that the loop takes, with what it comes to behind it. -/
inductive Takes (left val v : Nat) (last : UInt8) : List UInt8 → List UInt8 → Prop
  | string (a : List UInt8) (ha : Digits a) (hlt : a.length < left) (hv : v = valueFrom val a) (hlast : last = 0) :
    Takes left val v last a []
  | dot (a r : List UInt8) (ha : Digits a) (hlt : a.length < left) (hv : v = valueFrom val a) (hlast : last ≠ 0) :
    Takes left val v last (a ++ [DottedDecimal.dot]) r
  | run (a r : List UInt8) (ha : Digits a) (hlen : a.length = left) (hv : v = valueFrom val a) (hlast : last ≠ 0) :
    Takes left val v last a r

theorem Takes.cons {c : UInt8} {p : List UInt8} (hc : 48 ≤ c ∧ c ≤ 57)
    (h : Takes left (10 * val + (c.toNat - 48)) v last p r) : Takes (left + 1) val v last (c :: p) r := by
  cases h with
  | string _ ha hlt hv hlast => exact .string (c :: p) (digits_cons.mpr ⟨hc, ha⟩) (Nat.succ_lt_succ hlt) hv hlast
  | dot a r ha hlt hv hlast => exact .dot (c :: a) r (digits_cons.mpr ⟨hc, ha⟩) (Nat.succ_lt_succ hlt) hv hlast
  | run _ _ ha hlen hv hlast => exact .run (c :: p) r (digits_cons.mpr ⟨hc, ha⟩) (congrArg (· + 1) hlen) hv hlast

/-- What the loop has taken when it comes to an end. -/
theorem takes_of_segmentLoop (h : dotted.IsText o s) (hch : left = 0 → ch ≠ 0)
    (hloop : segmentLoop dotted left o ch val = some (v, last, e)) :
    (left = 4 → dotted o ≠ DottedDecimal.dot ∧ s ≠ []) ∧ ∃ p r, s = p ++ r ∧ Takes left val v last p r ∧
      (last ≠ 0 → e = o + p.length) := by
  induction left generalizing o ch val s with
  | zero =>
    cases hloop
    exact ⟨nofun, [], s, rfl, .run [] s digits_nil rfl rfl (hch rfl), fun _ => rfl⟩
  | succ left ih =>
    cases s with
    | nil =>
      rw [segmentLoop_stop (Or.inl rfl) (isText_nil.mp h)] at hloop
      split at hloop
      · cases hloop
      · next h4 =>
        cases hloop
        exact ⟨fun h => absurd h h4, [], [], rfl, .string [] digits_nil (Nat.succ_pos _) rfl rfl, fun h => absurd rfl h⟩
    | cons c s =>
      obtain ⟨hc0, hread, h⟩ := isText_cons.mp h
      by_cases hdot : c = 46
      · rw [segmentLoop_stop (Or.inr hdot) hread] at hloop
        split at hloop
        · cases hloop
        · next h4 =>
          cases hloop
          subst hdot
          exact ⟨fun h => absurd h h4, [dot], s, rfl, .dot [] s digits_nil (Nat.succ_pos _) rfl (by decide), fun _ => rfl⟩
      · by_cases hdigit : 48 ≤ c ∧ c ≤ 57
        · rw [segmentLoop_digit hdigit hread] at hloop
          obtain ⟨_, p, r, rfl, htakes, he⟩ := ih h (fun _ => hc0) hloop
          refine ⟨fun _ => ⟨hread ▸ hdot, List.cons_ne_nil _ _⟩, c :: p, r, rfl, htakes.cons hdigit, fun h0 => ?_⟩
          rw [he h0, List.length_cons]
          omega
        · have hnot : c < 48 ∨ c > 57 := by
            rw [not_and_or, UInt8.not_le, UInt8.not_le] at hdigit
            exact hdigit
          rw [segmentLoop, hread, if_neg (not_or.mpr ⟨hc0, hdot⟩), if_pos hnot] at hloop
          cases hloop

end Segments

section Strings

variable {dotted : Buffer} {n o ip r : Nat} {s : List UInt8}

theorem dot2ipLoop_of_cut {ps : List (List UInt8)} {q : List UInt8} (h : dotted.IsText o s) (C : Cut ps q s) :
    dot2ipLoop dotted (ps.length + 1) o ip = some (address ip ps * 256 + value q) := by
  induction ps generalizing o ip s with
  | nil =>
    obtain ⟨rfl, hq⟩ := C.of_nil
    have hloop : segmentLoop dotted 4 o 0 0 = some (valueFrom 0 s, 0, o + s.length + 1) :=
      segmentLoop_segment (Or.inl rfl) hq.digits h.2 (Nat.lt_succ_of_le hq.short) (fun _ => List.ne_nil_of_length_pos hq.pos)
        (Nat.le_refl 4)
    have hsmall : ¬valueFrom 0 s > 255 := Nat.not_lt.mpr hq.small
    rw [List.length_nil, dot2ipLoop, hloop, Option.bind_some]
    simp only [if_neg hsmall, if_pos]
    rfl
  | cons p ps ih =>
    obtain ⟨hp, t, rfl, Ct⟩ := C.of_cons
    have ht := h.drop
    have hread : dotted.Holds o p := by
      have hall := h.2
      rw [List.append_assoc] at hall
      exact (holds_append.mp hall).1
    rw [List.length_cons, dot2ipLoop]
    rcases hp with ⟨a, ha, rfl⟩ | hrun
    · have hloop : segmentLoop dotted 4 o 0 0 = some (valueFrom 0 a, dot, o + a.length + 1) :=
        segmentLoop_segment (Or.inr rfl) ha.digits hread (Nat.lt_succ_of_le ha.short)
          (fun _ => List.ne_nil_of_length_pos ha.pos) (Nat.le_refl 4)
      have hsmall : ¬valueFrom 0 a > 255 := Nat.not_lt.mpr ha.small
      rw [List.length_append, List.length_singleton, ← Nat.add_assoc] at ht
      rw [hloop, Option.bind_some]
      simp only [if_neg hsmall]
      rw [ih ht Ct, address_cons, filter_dotted ha.digits]
      rfl
    · have hne : p ≠ [] := List.ne_nil_of_length_pos (by rw [hrun.long]; decide)
      obtain ⟨last, hlast, hloop⟩ : ∃ last, last ≠ 0 ∧
          segmentLoop dotted p.length o 0 0 = some (valueFrom 0 p, last, o + p.length) :=
        segmentLoop_run hrun.digits hread (Or.inr hne)
      have hsmall : ¬valueFrom 0 p > 255 := Nat.not_lt.mpr hrun.small
      rw [hrun.long] at hloop ht
      rw [hloop, Option.bind_some]
      simp only [if_neg hsmall, if_neg hlast]
      rw [ih ht Ct, address_cons, hrun.digits.filter]
      rfl

/-- A segment that is accepted, and whether it is the last. -/
theorem dot2ipLoop_succ (h : dot2ipLoop dotted (n + 1) o ip = some r) :
    ∃ v last e, segmentLoop dotted 4 o 0 0 = some (v, last, e) ∧ v ≤ 255 ∧
      (last = 0 ∧ n = 0 ∧ r = ip * 256 + v ∨ last ≠ 0 ∧ dot2ipLoop dotted n e (ip * 256 + v) = some r) := by
  rw [dot2ipLoop, Option.bind_eq_some_iff] at h
  obtain ⟨⟨v, last, e⟩, hloop, h⟩ := h
  dsimp only at h
  split at h
  · cases h
  · next hv =>
    refine ⟨v, last, e, hloop, Nat.not_lt.mp hv, ?_⟩
    split at h
    · next hlast =>
      split at h
      · next hn =>
        cases h
        exact Or.inl ⟨hlast, hn, rfl⟩
      · cases h
    · next hlast => exact Or.inr ⟨hlast, h⟩

theorem cut_of_dot2ipLoop (h : dotted.IsText o s) (hr : dot2ipLoop dotted n o ip = some r) :
    ∃ ps q, ps.length + 1 = n ∧ Cut ps q s ∧ r = address ip ps * 256 + value q := by
  induction n generalizing o ip s with
  | zero => cases hr
  | succ n ih =>
    obtain ⟨v, last, e, hloop, hv, hend⟩ := dot2ipLoop_succ hr
    obtain ⟨hfirst, p, t, rfl, htakes, he⟩ := takes_of_segmentLoop h (fun h0 => absurd h0 (by decide)) hloop
    obtain ⟨hnotdot, hne⟩ := hfirst rfl
    rcases hend with ⟨hlast, rfl, rfl⟩ | ⟨hlast, hr⟩
    · cases htakes with
      | string _ ha hlt hval =>
        rw [List.append_nil] at hne ⊢
        have hq : IsSegment p := ⟨List.length_pos_iff.mpr hne, Nat.le_of_lt_succ hlt, ha, hval.symm.trans_le hv⟩
        exact ⟨[], p, rfl, ⟨nofun, hq, rfl⟩, by rw [hval]; rfl⟩
      | dot _ _ _ _ _ h0 => exact absurd hlast h0
      | run _ _ _ _ _ h0 => exact absurd hlast h0
    · have ht := h.drop
      rw [← he hlast] at ht
      obtain ⟨ps, q, hlen, C, rfl⟩ := ih ht hr
      cases htakes with
      | string _ _ _ _ h0 => exact absurd h0 hlast
      | dot a _ ha hlt hval =>
        have hane : a ≠ [] := by
          rintro rfl
          exact hnotdot (holds_cons.mp h.2).1
        have ha' : IsSegment a := ⟨List.length_pos_iff.mpr hane, Nat.le_of_lt_succ hlt, ha, hval.symm.trans_le hv⟩
        refine ⟨(a ++ [dot]) :: ps, q, congrArg (· + 1) hlen, C.cons (Or.inl ⟨a, ha', rfl⟩), ?_⟩
        rw [address_cons, filter_dotted ha, hval]
        rfl
      | run _ _ ha hlong hval =>
        refine ⟨p :: ps, q, congrArg (· + 1) hlen, C.cons (Or.inr ⟨hlong, ha, hval.symm.trans_le hv⟩), ?_⟩
        rw [address_cons, ha.filter, hval]
        rfl

/-- `dot2ip` accepts the strings that can be cut. -/
theorem dot2ip_eq_some_iff (h : dotted.IsText 0 s) :
    dot2ip dotted = some r ↔ ∃ ps q, ps.length = 3 ∧ Cut ps q s ∧ r = address 0 ps * 256 + value q := by
  constructor
  · intro hr
    obtain ⟨ps, q, hlen, C, rfl⟩ := cut_of_dot2ipLoop h hr
    exact ⟨ps, q, Nat.succ.inj hlen, C, rfl⟩
  · rintro ⟨ps, q, hlen, C, rfl⟩
    have hloop : dot2ipLoop dotted (ps.length + 1) 0 0 = some (address 0 ps * 256 + value q) := dot2ipLoop_of_cut h C
    rwa [hlen] at hloop

end Strings

/-- For every string: `dot2ip` accepts it exactly when it is an address in dotted decimal, unless it can be cut with a run of four digits
in place of a number and its dot. -/
theorem dot2ip_parses_iff (s : List UInt8) : Parses s ↔ ¬RunsOn s := by
  constructor
  · intro P hrun
    have hnot := hrun.not_quad
    obtain ⟨ps, q, hlen, C, _⟩ := hrun
    have h := isText_getD C.not_zero
    have hsome := (dot2ip_eq_some_iff h).mpr ⟨ps, q, hlen, C, rfl⟩
    have hreject := P.rejects _ h 0 hnot
    rw [dot2ipResult, hsome] at hreject
    have hstatus : OK.toNat = SYSERR32 := congrArg Prod.fst hreject
    exact absurd hstatus (by decide)
  · intro hrun
    have hquad : ∀ (dotted : Buffer), dotted.IsText 0 s → ∀ ip, dot2ip dotted = some ip ↔ IsQuad s ip := by
      intro dotted h ip
      rw [dot2ip_eq_some_iff h, isQuad_iff]
      constructor
      · rintro ⟨ps, q, hlen, C, rfl⟩
        refine ⟨ps, q, hlen, fun p hp => (C.pieces p hp).resolve_right fun hr => hrun ⟨ps, q, hlen, C, p, hp, hr⟩, C.last, C.whole, rfl⟩
      · rintro ⟨ps, q, hlen, hps, hq, hs, rfl⟩
        exact ⟨ps, q, hlen, ⟨fun p hp => Or.inl (hps p hp), hq, hs⟩, rfl⟩
    constructor
    · intro dotted h result ip hip
      rw [dot2ipResult, (hquad dotted h ip).mpr hip]
    · intro dotted h result hnone
      have hreject : dot2ip dotted = none := Option.eq_none_iff_forall_ne_some.mpr fun ip hip => hnone ip ((hquad dotted h ip).mp hip)
      rw [dot2ipResult, hreject]

/-- The string `00011.2.3` is accepted as 1.1.2.3. -/
theorem dot2ip_accepts_run : RunsOn [48, 48, 48, 49, 49, 46, 50, 46, 51] ∧
    dot2ipResult (fun j => [48, 48, 48, 49, 49, 46, 50, 46, 51].getD j 0) 0 = (OK.toNat, 0x01010203) ∧
    (∀ ip, ¬IsQuad [48, 48, 48, 49, 49, 46, 50, 46, 51] ip) ∧ ¬Parses [48, 48, 48, 49, 49, 46, 50, 46, 51] := by
  have hfour : IsRun [48, 48, 48, 49] := ⟨rfl, by simp [Digits], by decide⟩
  have hrun : RunsOn [48, 48, 48, 49, 49, 46, 50, 46, 51] := by
    refine ⟨[[48, 48, 48, 49], [49, 46], [50, 46]], [51], rfl, ⟨?_, isSegment_digit (by decide) (by decide), rfl⟩,
      [48, 48, 48, 49], List.mem_cons_self, hfour⟩
    simp only [List.forall_mem_cons]
    exact ⟨Or.inr hfour, Or.inl ⟨[49], isSegment_digit (by decide) (by decide), rfl⟩,
      Or.inl ⟨[50], isSegment_digit (by decide) (by decide), rfl⟩, nofun⟩
  have hresult : dot2ipResult (fun j => [48, 48, 48, 49, 49, 46, 50, 46, 51].getD j 0) 0 = (OK.toNat, 0x01010203) := by decide
  refine ⟨hrun, hresult, hrun.not_quad, fun P => ?_⟩
  have hreject := P.rejects _ (isText_getD (by decide)) 0 hrun.not_quad
  rw [hresult] at hreject
  exact absurd (congrArg Prod.fst hreject) (by decide)

end Dhcp

end Xinu
