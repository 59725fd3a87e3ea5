import Xinu.Net.DnsNames

/-!
# Questions and names are read back

The loop of `dns_bldq` counts the characters of a label in a byte that it has left open before them. At each label the data area
holds the labels before it in their wire form and a length byte of zero; after the last one it holds the wire form of the name.
-/

namespace Xinu

namespace Dns

open DomainName

/-- The question for a name: the name on the wire, the type and the class. -/
def question (labels : List (List UInt8)) : List UInt8 := wire labels ++ [0, 1, 0, 1]

section

/-- The length byte in front of characters. -/
theorem update_write (base : Nat → UInt8) (p : Nat) (a b : UInt8) (cs : List UInt8) :
    Function.update (write base p (a :: cs)) p b = write base p (b :: cs) := by
  funext j
  by_cases hj : j = p
  · subst hj
    rw [Function.update_self]
    exact (write_add base j (show 0 < (b :: cs).length from Nat.succ_pos _)).symm
  · rw [Function.update_of_ne hj]
    by_cases h1 : j < p
    · rw [write_of_lt h1, write_of_lt h1]
    · obtain ⟨i, rfl⟩ : ∃ i, j = p + (i + 1) := ⟨j - p - 1, by omega⟩
      by_cases h2 : i < cs.length
      · rw [write_add base p (by simpa using h2), write_add base p (by simpa using h2), List.getElem_cons_succ, List.getElem_cons_succ]
      · rw [write_of_ge (by simp; omega), write_of_ge (by simp; omega)]

/-- The characters of a label, `cs` of them copied already. -/
theorem bldqLoop_label (base : Nat → UInt8) (p : Nat) (rest l : List UInt8) : ∀ (cs : List UInt8) (qlen : Nat), dot ∉ l →
    qlen + l.length ≤ DNSDATASIZ →
    bldqLoop (l ++ rest) ⟨write base p (UInt8.ofNat cs.length :: cs), p + 1 + cs.length, p, qlen⟩ =
      bldqLoop rest ⟨write base p (UInt8.ofNat (cs ++ l).length :: (cs ++ l)), p + 1 + (cs ++ l).length, p, qlen + l.length⟩ := by
  induction l with
  | nil =>
    intro cs qlen _ _
    simp
  | cons c l ih =>
    intro cs qlen hdot hroom
    have hc : c ≠ dot := fun h => hdot (h ▸ List.mem_cons_self)
    have hl : dot ∉ l := fun h => hdot (List.mem_cons_of_mem c h)
    rw [List.length_cons] at hroom
    have hq : ¬qlen ≥ DNSDATASIZ := by omega
    have hplace : p + 1 + cs.length = p + (UInt8.ofNat cs.length :: cs).length := by
      rw [List.length_cons]
      omega
    have hchar : Function.update (write base p (UInt8.ofNat cs.length :: cs)) (p + 1 + cs.length) c =
        write base p (UInt8.ofNat cs.length :: (cs ++ [c])) := by
      rw [write_singleton, hplace, write_append, List.cons_append]
    have hcount : write base p (UInt8.ofNat cs.length :: (cs ++ [c])) p + 1 = UInt8.ofNat (cs ++ [c]).length := by
      have hhead := write_add base p (show 0 < (UInt8.ofNat cs.length :: (cs ++ [c])).length from Nat.succ_pos _)
      rw [Nat.add_zero, List.getElem_cons_zero] at hhead
      rw [hhead, List.length_append, List.length_singleton, UInt8.ofNat_add]
      rfl
    have hnext : p + 1 + cs.length + 1 = p + 1 + (cs ++ [c]).length := by
      rw [List.length_append, List.length_singleton, Nat.add_assoc]
    have hrest := ih (cs ++ [c]) (qlen + 1) hl (by omega)
    rw [List.append_assoc, List.singleton_append] at hrest
    rw [List.cons_append, bldqLoop, if_neg hq, if_pos hc]
    simp only [hchar, hcount, update_write, hnext]
    rw [hrest, List.length_cons, Nat.add_assoc qlen, Nat.add_comm 1 l.length]

/-- The characters of a name from the beginning of a label on. -/
theorem bldqLoop_text (labels : List (List UInt8)) : ∀ (l : List UInt8) (base : Nat → UInt8) (p qlen : Nat),
    (∀ l' ∈ l :: labels, dot ∉ l') → qlen + (text (l :: labels)).length ≤ DNSDATASIZ →
      ∃ llptr, bldqLoop (text (l :: labels)) ⟨write base p [0], p + 1, p, qlen⟩ =
        some ⟨write base p (wire (l :: labels)).dropLast, p + 1 + (text (l :: labels)).length, llptr,
          qlen + (text (l :: labels)).length⟩ := by
  induction labels with
  | nil =>
    intro l base p qlen hdot hroom
    have htext : text [l] = l := by simp [text, dotted]
    have hwire : (wire [l]).dropLast = UInt8.ofNat l.length :: l := by
      have hsplit : wire [l] = (UInt8.ofNat l.length :: l) ++ [0] := rfl
      rw [hsplit, List.dropLast_concat]
    rw [htext] at hroom ⊢
    have h := bldqLoop_label base p [] l [] qlen (hdot l List.mem_cons_self) hroom
    rw [List.append_nil, List.nil_append] at h
    exact ⟨p, h.trans (by rw [hwire, bldqLoop])⟩
  | cons l' labels ih =>
    intro l base p qlen hdot hroom
    have htext : text (l :: l' :: labels) = l ++ dot :: text (l' :: labels) := by
      have hne : dotted (l' :: labels) ≠ [] := fun h => List.cons_ne_nil _ _ (dotted_eq_nil_iff.mp h)
      rw [text, dotted_cons, List.dropLast_append_of_ne_nil (List.cons_ne_nil _ _), List.dropLast_cons_of_ne_nil hne, text]
    have hwire : (wire (l :: l' :: labels)).dropLast = UInt8.ofNat l.length :: (l ++ (wire (l' :: labels)).dropLast) := by
      have hne : wire (l' :: labels) ≠ [] := List.cons_ne_nil _ _
      have hsplit : wire (l :: l' :: labels) = (UInt8.ofNat l.length :: l) ++ wire (l' :: labels) := rfl
      rw [hsplit, List.dropLast_append_of_ne_nil hne, List.cons_append]
    have hsize : (text (l :: l' :: labels)).length = l.length + 1 + (text (l' :: labels)).length := by
      rw [htext, List.length_append, List.length_cons]
      omega
    rw [hsize] at hroom
    have h := bldqLoop_label base p (dot :: text (l' :: labels)) l [] qlen (hdot l List.mem_cons_self) (by omega)
    rw [List.nil_append] at h
    have hplace : p + 1 + l.length = p + (UInt8.ofNat l.length :: l).length := by
      rw [List.length_cons]
      omega
    -- the dot leaves a length byte of zero behind the label
    have hdotStep : bldqLoop (dot :: text (l' :: labels))
        ⟨write base p (UInt8.ofNat l.length :: l), p + 1 + l.length, p, qlen + l.length⟩ =
        bldqLoop (text (l' :: labels)) ⟨write (write base p (UInt8.ofNat l.length :: l)) (p + 1 + l.length) [0],
          p + 1 + l.length + 1, p + 1 + l.length, qlen + l.length + 1⟩ := by
      have hq : ¬qlen + l.length ≥ DNSDATASIZ := by omega
      rw [bldqLoop, if_neg hq, if_neg (not_not.mpr rfl)]
      simp only [write_singleton]
    obtain ⟨llptr, hrest⟩ := ih l' (write base p (UInt8.ofNat l.length :: l)) (p + 1 + l.length)
      (qlen + l.length + 1) (fun l'' hl'' => hdot l'' (List.mem_cons_of_mem _ hl'')) (by omega)
    have hjoin : write (write base p (UInt8.ofNat l.length :: l)) (p + 1 + l.length) (wire (l' :: labels)).dropLast =
        write base p (wire (l :: l' :: labels)).dropLast := by
      rw [hplace, write_append, hwire, List.cons_append]
    have hdata : p + 1 + l.length + 1 + (text (l' :: labels)).length = p + 1 + (text (l :: l' :: labels)).length := by omega
    have hqlen : qlen + l.length + 1 + (text (l' :: labels)).length = qlen + (text (l :: l' :: labels)).length := by omega
    refine ⟨llptr, ?_⟩
    rw [htext]
    refine h.trans (hdotStep.trans (hrest.trans ?_))
    rw [hjoin, hdata, hqlen, htext]

/-- A word of one, in network order. -/
theorem put16_one (mem : Nat → UInt8) (o : Nat) : Netpacket.put16 mem o (Netpacket.htons 1) = write mem o [0, 1] := by
  have hlow : UInt8.ofNat (Netpacket.htons 1) = 0 := by decide
  have hhigh : UInt8.ofNat (Netpacket.htons 1 / 256) = 1 := by decide
  have hwrite := write_append mem o [0] [1]
  rw [Netpacket.put16, Netpacket.put8, Netpacket.put8, hlow, hhigh, write_singleton, write_singleton]
  exact hwrite

theorem length_question {labels : List (List UInt8)} (h : labels ≠ []) : (question labels).length = (text labels).length + 6 := by
  rw [question, List.length_append, length_wire, length_dotted h]
  rfl

/-- `dns_bldq` stores the question of the name in the data area, and nothing else. -/
theorem dnsBldq_text {labels : List (List UInt8)} (hne : labels ≠ []) (hdot : ∀ l ∈ labels, dot ∉ l)
    (hsize : (text labels).length + 6 ≤ DNSDATASIZ) (mem : Nat → UInt8) :
    dnsBldq (text labels) mem = some (dnspktData + ((text labels).length + 6), write mem 0 (question labels)) := by
  obtain ⟨l, labels, rfl⟩ := List.exists_cons_of_ne_nil hne
  obtain ⟨llptr, hloop⟩ := bldqLoop_text labels l mem 0 1 hdot (by omega)
  have hwire : (wire (l :: labels)).dropLast ++ [0] = wire (l :: labels) := by
    have hlast : ∀ labels : List (List UInt8), ∃ init, wire labels = init ++ [0] := by
      intro labels
      induction labels with
      | nil => exact ⟨[], rfl⟩
      | cons l labels ih =>
        obtain ⟨init, h⟩ := ih
        exact ⟨UInt8.ofNat l.length :: (l ++ init), by rw [wire, h]; simp⟩
    obtain ⟨init, h⟩ := hlast (l :: labels)
    rw [h, List.dropLast_concat]
  have hlen : (wire (l :: labels)).length = (text (l :: labels)).length + 2 := by
    rw [length_wire, length_dotted hne]
  have hdata : 0 + 1 + (text (l :: labels)).length = 0 + (wire (l :: labels)).dropLast.length := by
    rw [List.length_dropLast, hlen]
    omega
  have hend : Function.update (write mem 0 (wire (l :: labels)).dropLast) (0 + 1 + (text (l :: labels)).length) 0 =
      write mem 0 (wire (l :: labels)) := by
    rw [write_singleton, hdata, write_append, hwire]
  have htype : 0 + 1 + (text (l :: labels)).length + 1 = 0 + (wire (l :: labels)).length := by omega
  have hclass : 0 + 1 + (text (l :: labels)).length + 3 = 0 + (wire (l :: labels) ++ [0, 1]).length := by
    rw [List.length_append, hlen]
    simp only [List.length_cons, List.length_nil]
    omega
  have hall : wire (l :: labels) ++ [0, 1] ++ [0, 1] = question (l :: labels) := by rw [question, List.append_assoc]; rfl
  have hstart : Function.update mem 0 0 = write mem 0 [0] := write_singleton 0 0
  have htotal : dnspktSize - DNSDATASIZ + (1 + (text (l :: labels)).length + 1 + 2 + 2) =
      dnspktData + ((text (l :: labels)).length + 6) := by
    unfold dnspktSize DNSDATASIZ dnspktData
    omega
  rw [dnsBldq, hstart, hloop]
  simp only [Option.bind_eq_bind, Option.bind_some, Option.pure_def, DNS_QT_A, DNS_QC_IN, hend, put16_one, htotal]
  rw [htype, write_append, hclass, write_append, hall]

/-- A packet with a byte sequence at a place. -/
theorem drop_eq_append {rpkt bs : List UInt8} {o : Nat} (h : ∀ j (hj : j < bs.length), rpkt[o + j]? = some bs[j]) :
    ∃ rest, rpkt.drop o = bs ++ rest := by
  refine ⟨(rpkt.drop o).drop bs.length, ?_⟩
  have htake : (rpkt.drop o).take bs.length = bs := by
    refine List.ext_getElem? fun j => ?_
    by_cases hj : j < bs.length
    · rw [List.getElem?_take_of_lt hj, List.getElem?_drop, h j hj, List.getElem?_eq_getElem hj]
    · rw [List.getElem?_eq_none (by rw [List.length_take]; omega), List.getElem?_eq_none (by omega)]
  conv_lhs => rw [← List.take_append_drop bs.length (rpkt.drop o), htake]

end

/-- For every name of labels of 1 to 63 characters that are not dots, as long as the question fits in the data area: `dns_bldq`
writes a question of six bytes more than the name, and nothing else, and returns its size with the header; from a packet with that
question, `dns_getrname` reads the name back and reports two bytes more than it has, and the loop of `dns_geta` over one question
comes to the byte behind the class. -/
theorem dns_question_round_trip (labels : List (List UInt8)) (hne : labels ≠ [])
    (hlabels : ∀ l ∈ labels, 1 ≤ l.length ∧ l.length ≤ 63 ∧ dot ∉ l) (hsize : (text labels).length + 6 ≤ DNSDATASIZ) :
    (question labels).length = (text labels).length + 6 ∧
      (∀ mem, dnsBldq (text labels) mem = some (dnspktData + (question labels).length, write mem 0 (question labels))) ∧
      ∀ (rpkt : List UInt8) (rname : Nat → UInt8),
        (∀ j (h : j < (question labels).length), rpkt[dnspktData + j]? = some (question labels)[j]) →
        (∃ rname', IsString rname' (text labels) ∧
          Settles (fun turns => dnsGetrname rpkt turns dnspktData rname) ((text labels).length + 2, rname')) ∧
        Settles (fun turns => skipQuestions rpkt turns 1 dnspktData) (dnspktData + (question labels).length) := by
  have hdot : ∀ l ∈ labels, dot ∉ l := fun l hl => (hlabels l hl).2.2
  have hlen := length_question hne
  refine ⟨hlen, fun mem => hlen ▸ dnsBldq_text hne hdot hsize mem, fun rpkt rname hrpkt => ?_⟩
  obtain ⟨rest, hdrop⟩ := drop_eq_append hrpkt
  rw [question, List.append_assoc] at hdrop
  have hexp := expands_wire labels dnspktData _ (fun l hl => ⟨(hlabels l hl).1, (hlabels l hl).2.1⟩) hdrop
  have hwire : (wire labels).length = (text labels).length + 2 := by rw [length_wire, length_dotted hne]
  rw [hwire] at hexp
  constructor
  · refine ⟨_, isString_stored rname hne, dnsGetrname_settles.mpr ⟨labels, _, hexp, hne, ?_, ?_⟩⟩
    · unfold DNSDATASIZ at hsize
      unfold rnameSize
      omega
    · rw [Nat.add_sub_cancel_left]
  · refine (skipName_settles (Skips.of_expands hexp)).map fun turns h => ?_
    rw [skipQuestions, h, hlen]
    rfl

/-- The name `a.bc`. -/
theorem dns_question_round_trip_two :
    (question [[97], [98, 99]]).length = (text [[97], [98, 99]]).length + 6 ∧
      (∀ mem, dnsBldq (text [[97], [98, 99]]) mem =
        some (dnspktData + (question [[97], [98, 99]]).length, write mem 0 (question [[97], [98, 99]]))) ∧
      ∀ (rpkt : List UInt8) (rname : Nat → UInt8),
        (∀ j (h : j < (question [[97], [98, 99]]).length), rpkt[dnspktData + j]? = some (question [[97], [98, 99]])[j]) →
        (∃ rname', IsString rname' (text [[97], [98, 99]]) ∧
          Settles (fun turns => dnsGetrname rpkt turns dnspktData rname) ((text [[97], [98, 99]]).length + 2, rname')) ∧
        Settles (fun turns => skipQuestions rpkt turns 1 dnspktData) (dnspktData + (question [[97], [98, 99]]).length) :=
  dns_question_round_trip [[97], [98, 99]] (by decide) (by decide) (by decide)

end Dns

end Xinu
