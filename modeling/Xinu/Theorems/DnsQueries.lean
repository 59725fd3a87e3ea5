import Xinu.Net.DnsLookup
import Xinu.Theorems.DnsQuestions

/-!
# Questions stay inside the packet

The loop of `dns_bldq` makes sure that there is room for each character, and nothing makes sure of the six bytes around the name: a name
of 495 to 499 characters is written past the end of the data area. From 500 characters on `dns_bldq` returns `SYSERR`, which
`dnslookup` takes for the length of the query.
-/

namespace Xinu

namespace Dns

open DomainName

/-- The question for a name has room in the data area. -/
def QuestionFits (dname : List UInt8) : Prop := (question (dname.splitOn dot)).length ≤ DNSDATASIZ

/-- `dnslookup` has a local address and a name server, and registers a slot. -/
structure Registers (retval : Int) (netData : Dhcp.NetData) (u u' : Udp) (slot : Int) : Prop where
  localip : retval ≠ SYSERR
  server : netData.dnsserver ≠ 0
  registered : u.udpRegister netData.dnsserver DNSPORT DNSLPORT = (u', .ret slot)
  valid : slot ≠ SYSERR

/-- `dns_bldq` writes inside the data area and returns `SYSERR` exactly when the question does not fit; a look-up that has registered a
slot then sends nothing, releases the slot and returns `SYSERR`. -/
structure StaysInside (dname : List UInt8) : Prop where
  inside : ∀ data o, DNSDATASIZ ≤ o → (bldq dname data).2 o = data o
  syserr : ∀ data, (bldq dname data).1 = SYSERR32 ↔ ¬QuestionFits dname
  gives_up : (∃ data, (bldq dname data).1 = SYSERR32) → ∀ retval netData currpid turns recv rpkt u u' slot r,
    Registers retval netData u u' slot → dnslookup retval netData currpid turns (some dname) recv rpkt u = some r →
      r.sent = [] ∧ r.released = [slot] ∧ r.value = SYSERR32

section Loop

variable {dname : List UInt8} {q : Question}

/-- The loop comes to the end of a name for which there is room. -/
theorem bldqLoop_of_room (h : q.qlen + dname.length ≤ DNSDATASIZ) : bldqLoop dname q = some (bldqLeft dname q) := by
  induction dname generalizing q with
  | nil => rfl
  | cons c dname ih =>
    rw [List.length_cons] at h
    have hq : ¬q.qlen ≥ DNSDATASIZ := by omega
    unfold bldqLoop bldqLeft
    rw [if_neg hq, if_neg hq]
    split
    · exact ih (by dsimp only; omega)
    · exact ih (by dsimp only; omega)

theorem bldqLoop_of_no_room (hq : q.qlen ≤ DNSDATASIZ) (h : DNSDATASIZ < q.qlen + dname.length) : bldqLoop dname q = none := by
  induction dname generalizing q with
  | nil =>
    rw [List.length_nil] at h
    omega
  | cons c dname ih =>
    rw [List.length_cons] at h
    unfold bldqLoop
    split
    · rfl
    · next hlt =>
      split
      · exact ih (by dsimp only; omega) (by dsimp only; omega)
      · exact ih (by dsimp only; omega) (by dsimp only; omega)

/-- Every character takes a byte. -/
theorem bldqLeft_places (h : q.qlen + dname.length ≤ DNSDATASIZ) :
    (bldqLeft dname q).data = q.data + dname.length ∧ (bldqLeft dname q).qlen = q.qlen + dname.length := by
  induction dname generalizing q with
  | nil => exact ⟨rfl, rfl⟩
  | cons c dname ih =>
    rw [List.length_cons] at h ⊢
    have hq : ¬q.qlen ≥ DNSDATASIZ := by omega
    unfold bldqLeft
    rw [if_neg hq]
    split
    · obtain ⟨h1, h2⟩ := ih (q := { q with
        mem := Function.update (Function.update q.mem q.data c) q.llptr (Function.update q.mem q.data c q.llptr + 1)
        data := q.data + 1, qlen := q.qlen + 1 }) (by dsimp only; omega)
      exact ⟨h1.trans (by dsimp only; omega), h2.trans (by dsimp only; omega)⟩
    · obtain ⟨h1, h2⟩ := ih (q := ⟨Function.update q.mem q.data 0, q.data + 1, q.data, q.qlen + 1⟩) (by dsimp only; omega)
      exact ⟨h1.trans (by dsimp only; omega), h2.trans (by dsimp only; omega)⟩

/-- The loop writes inside the data area. -/
theorem bldqLeft_outside (hdata : q.data = q.qlen) (hl : q.llptr < q.data) {o : Nat} (ho : DNSDATASIZ ≤ o) :
    (bldqLeft dname q).mem o = q.mem o := by
  induction dname generalizing q with
  | nil => rfl
  | cons c dname ih =>
    unfold bldqLeft
    split
    · rfl
    · next hq =>
      have h1 : o ≠ q.data := by omega
      have h2 : o ≠ q.llptr := by omega
      split
      · refine (ih ?_ ?_).trans ?_
        · exact congrArg (· + 1) hdata
        · exact Nat.lt_succ_of_lt hl
        · dsimp only
          rw [Function.update_of_ne h2, Function.update_of_ne h1]
      · refine (ih ?_ ?_).trans ?_
        · exact congrArg (· + 1) hdata
        · exact Nat.lt_succ_self _
        · exact Function.update_of_ne h1 _ _

/-- The variables of `dns_bldq` before the loop. -/
def before (data : Nat → UInt8) : Question := ⟨Function.update data 0 0, 1, 0, 1⟩

end Loop

section Question

variable {dname : List UInt8} {data : Nat → UInt8}

/-- A name of at most 499 characters is followed by a zero byte, the type and the class, whatever room there is. -/
theorem bldq_short (h : dname.length ≤ 499) (data : Nat → UInt8) :
    bldq dname data = (dnspktData + (dname.length + 6), Netpacket.put16 (Netpacket.put16
      (Function.update (bldqLeft dname (before data)).mem (dname.length + 1) 0) (dname.length + 2) (Netpacket.htons DNS_QT_A))
      (dname.length + 4) (Netpacket.htons DNS_QC_IN)) := by
  have hroom : (before data).qlen + dname.length ≤ DNSDATASIZ := by
    change 1 + dname.length ≤ 500
    omega
  obtain ⟨h1, h2⟩ := bldqLeft_places hroom
  have hsome : dnsBldq dname data = some (dnspktSize - DNSDATASIZ + ((bldqLeft dname (before data)).qlen + 1 + 2 + 2),
      Netpacket.put16 (Netpacket.put16
        (Function.update (bldqLeft dname (before data)).mem (bldqLeft dname (before data)).data 0)
        ((bldqLeft dname (before data)).data + 1) (Netpacket.htons DNS_QT_A))
        ((bldqLeft dname (before data)).data + 3) (Netpacket.htons DNS_QC_IN)) := by
    unfold dnsBldq
    rw [show bldqLoop dname { mem := Function.update data 0 0, data := 1, llptr := 0, qlen := 1 } = _ from bldqLoop_of_room hroom]
    rfl
  have hd : (before data).data + dname.length = dname.length + 1 := Nat.add_comm _ _
  have hq : dnspktSize - DNSDATASIZ + ((before data).qlen + dname.length + 1 + 2 + 2) = dnspktData + (dname.length + 6) := by
    change 512 - 500 + (1 + dname.length + 1 + 2 + 2) = 12 + (dname.length + 6)
    omega
  unfold bldq
  rw [hsome]
  simp only [h1, h2, hd, hq]

/-- For a name of 500 or more characters `dns_bldq` returns `SYSERR`. -/
theorem bldq_long (h : 500 ≤ dname.length) (data : Nat → UInt8) :
    bldq dname data = (SYSERR32, (bldqLeft dname (before data)).mem) := by
  have hnone : dnsBldq dname data = none := by
    unfold dnsBldq
    have hloop : bldqLoop dname (before data) = none :=
      bldqLoop_of_no_room (by change 1 ≤ 500; decide) (by change 500 < 1 + dname.length; omega)
    rw [show bldqLoop dname { mem := Function.update data 0 0, data := 1, llptr := 0, qlen := 1 } = _ from hloop]
    rfl
  unfold bldq
  rw [hnone]
  rfl

theorem bldq_syserr_iff : (bldq dname data).1 = SYSERR32 ↔ 500 ≤ dname.length := by
  by_cases h : 500 ≤ dname.length
  · rw [bldq_long h]
    exact iff_of_true rfl h
  · rw [bldq_short (by omega)]
    refine iff_of_false ?_ h
    change 12 + (dname.length + 6) ≠ 4294967295
    omega

/-- The question has six bytes more than the name. -/
theorem questionFits_iff : QuestionFits dname ↔ dname.length ≤ 494 := by
  have hne := List.splitOn_ne_nil dot dname
  have htext : ∀ labels : List (List UInt8), labels ≠ [] → text labels = [dot].intercalate labels := by
    intro labels
    induction labels with
    | nil => exact fun h => absurd rfl h
    | cons l labels ih =>
      intro _
      cases labels with
      | nil => simp [text, dotted, List.intercalate]
      | cons l' labels =>
        have hd : dotted (l' :: labels) ≠ [] := fun h => List.cons_ne_nil _ _ (dotted_eq_nil_iff.mp h)
        have ih' := ih (List.cons_ne_nil _ _)
        rw [text] at ih'
        rw [text, dotted_cons, List.dropLast_append_of_ne_nil (List.cons_ne_nil _ _), List.dropLast_cons_of_ne_nil hd, ih']
        simp [List.intercalate, List.intersperse]
  rw [QuestionFits, length_question hne, htext _ hne, List.intercalate_splitOn]
  change dname.length + 6 ≤ 500 ↔ _
  omega

/-- The last byte of the class. -/
theorem bldq_class (h : dname.length ≤ 499) (data : Nat → UInt8) :
    (bldq dname data).2 (dname.length + 5) = 1 := by
  rw [bldq_short h]
  dsimp only
  rw [Netpacket.put16_apply, if_neg (by omega), if_pos rfl]
  rfl

theorem bldq_inside (h : dname.length ≤ 494 ∨ 500 ≤ dname.length) (data : Nat → UInt8) {o : Nat} (ho : DNSDATASIZ ≤ o) :
    (bldq dname data).2 o = data o := by
  have ho' : 500 ≤ o := ho
  have hleft : (bldqLeft dname (before data)).mem o = data o :=
    (bldqLeft_outside (q := before data) rfl Nat.zero_lt_one ho).trans (Function.update_of_ne (by omega) _ _)
  rcases h with h | h
  · rw [bldq_short (by omega)]
    dsimp only
    rw [Netpacket.put16_of_ne (by omega) (by omega), Netpacket.put16_of_ne (by omega) (by omega),
      Function.update_of_ne (by omega), hleft]
  · rw [bldq_long h]
    exact hleft

end Question

/-! ## A query of length -1 -/

/-- A host with a name server. -/
def servedNet : Dhcp.NetData := ⟨⟨0, 0, 0, 0, 0, true, [], []⟩, 0, 1, 0, []⟩

/-- UDP with a slot registered for the name server. -/
def registeredUdp : Udp := ((Udp.udpInit 0).udpRegister 1 DNSPORT DNSLPORT).1

theorem served_registers : Registers 0 servedNet (Udp.udpInit 0) registeredUdp 0 := ⟨by decide, by decide, rfl, by decide⟩

/-- A turn of the retry loop in which nobody answers. -/
def unanswered : Event := ⟨registeredUdp, true, .timeout, registeredUdp, fun _ => 0⟩

/-- The datagram that is sent with a length of -1: the UDP length says 7, one byte less than the UDP header has. -/
def emptyQuery : Datagram := ⟨1, DNSLPORT, DNSPORT, 7, []⟩

/-- A look-up of a name that is too long, when nobody answers: three datagrams are sent. -/
theorem long_name_sends {dname : List UInt8} (h : 500 ≤ dname.length) :
    ∃ r, dnslookup 0 servedNet 0 0 (some dname) [unanswered, unanswered, unanswered] (fun _ => 0) (Udp.udpInit 0) = some r ∧
      r.sent = [emptyQuery, emptyQuery, emptyQuery] := by
  have hfrom : dnslookup 0 servedNet 0 0 (some dname) [unanswered, unanswered, unanswered] (fun _ => 0) (Udp.udpInit 0) =
      dnslookupFrom servedNet 0 0 dname 0 [unanswered, unanswered, unanswered] (fun _ => 0) registeredUdp := rfl
  rw [hfrom, dnslookupFrom, bldq_long h]
  exact ⟨_, rfl, rfl⟩

/-- A name that is too long is not given up. -/
theorem not_gives_up {dname : List UInt8} (h : 500 ≤ dname.length) : ¬StaysInside dname := by
  intro S
  obtain ⟨r, hr, hsent⟩ := long_name_sends h
  have hnone := (S.gives_up ⟨fun _ => 0, bldq_syserr_iff.mpr h⟩ _ _ _ _ _ _ _ _ _ _ served_registers hr).1
  rw [hsent] at hnone
  cases hnone

/-- A name that leaves too little room is written past the end of the data area. -/
theorem not_inside {dname : List UInt8} (h1 : 495 ≤ dname.length) (h2 : dname.length ≤ 499) : ¬StaysInside dname := by
  intro S
  have hout := S.inside (fun _ => 0) (dname.length + 5) (by change 500 ≤ dname.length + 5; omega)
  rw [bldq_class h2] at hout
  exact absurd hout (by decide)

/-- For every name: the query is built inside the packet, and given up when it does not fit, exactly when the name has at most 494
characters. -/
theorem dns_query_inside_iff (dname : List UInt8) : StaysInside dname ↔ dname.length ≤ 494 := by
  constructor
  · intro S
    by_contra hlen
    rcases Nat.lt_or_ge dname.length 500 with hlt | hge
    · exact not_inside (by omega) (by omega) S
    · exact not_gives_up hge S
  · intro h
    refine ⟨fun data o ho => bldq_inside (Or.inl h) data ho, fun data => ?_, ?_⟩
    · rw [bldq_syserr_iff, questionFits_iff]
      omega
    · rintro ⟨data, hs⟩
      have hge := bldq_syserr_iff.mp hs
      omega

/-- A name of 495 characters is written past the data area, and a look-up of one of 500 sends three datagrams. -/
theorem dns_query_outside :
    ((bldq (List.replicate 495 97) fun _ => 0).2 500 = 1 ∧ (bldq (List.replicate 495 97) fun _ => 0).1 = 513) ∧
      (bldq (List.replicate 500 97) fun _ => 0).1 = SYSERR32 ∧
      (∃ r, dnslookup 0 servedNet 0 0 (some (List.replicate 500 97)) [unanswered, unanswered, unanswered] (fun _ => 0)
        (Udp.udpInit 0) = some r ∧ r.sent = [emptyQuery, emptyQuery, emptyQuery]) ∧
      ¬StaysInside (List.replicate 495 97) ∧ ¬StaysInside (List.replicate 500 97) := by
  have h495 : (List.replicate 495 (97 : UInt8)).length = 495 := List.length_replicate
  have h500 : (List.replicate 500 (97 : UInt8)).length = 500 := List.length_replicate
  have hout : (bldq (List.replicate 495 97) fun _ => 0).2 ((List.replicate 495 (97 : UInt8)).length + 5) = 1 :=
    bldq_class (by omega) fun _ => 0
  rw [h495, show 495 + 5 = 500 from rfl] at hout
  refine ⟨⟨hout, ?_⟩, bldq_syserr_iff.mpr (by omega), long_name_sends (by omega), not_inside (by omega) (by omega),
    not_gives_up (by omega)⟩
  rw [congrArg Prod.fst (bldq_short (by omega) _), h495]
  rfl

end Dns

end Xinu
