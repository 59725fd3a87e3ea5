import Xinu.Net.DnsNames

/-!
# Responses

The records of a response by the format: the names of the questions come to an end, and each answer is a name that expands, a
type, a length and data. `dns_geta` comes to its end, and stays within the response and its name buffer, exactly on the responses
whose records are there; what it returns is then picked from the records whose type is A and whose names begin with the one that
was asked for.
-/

namespace Xinu

namespace Dns

open DomainName

/-- The characters of a string. -/
abbrev CString := {s : List UInt8 // 0 ∉ s}

variable (rpkt : List UInt8)

/-- Two bytes of a response, in host order. -/
def field16 (o : Nat) : Nat := 256 * (rpkt[o]?.getD 0).toNat + (rpkt[o + 1]?.getD 0).toNat

/-- The questions of a response: the number of them, where they begin and where they end. -/
inductive Questions : Nat → Nat → Nat → Prop
  | done {o : Nat} : Questions 0 o o
  | next {n o e e' : Nat} (hname : Skips rpkt o e) (hrest : Questions n (e + (2 + 2)) e') : Questions (n + 1) o e'

/-- An answer: its owner, its type and the first four bytes of its data, in network order, if the response has them. -/
structure Answer where
  owner : List (List UInt8)
  rtype : Nat
  rdata : Option Nat

/-- The answers of a response from an offset on. -/
inductive Answers : List Answer → Nat → Prop
  | done {o : Nat} : Answers [] o
  | next {answers : List Answer} {labels : List (List UInt8)} {o e : Nat} (hname : Expands rpkt o labels e)
      (hlen : e + 10 ≤ rpkt.length) (hrest : Answers answers (e + 8 + (field16 rpkt (e + 8) + 2))) :
      Answers (⟨labels, field16 rpkt e, word32 rpkt (e + 10)⟩ :: answers) o

/-- The records of a response. -/
structure Records (answers : List Answer) : Prop where
  header : 8 ≤ rpkt.length
  sections : ∃ o, Questions rpkt (field16 rpkt qucount) dnspktData o ∧ Answers rpkt answers o
  count : answers.length = field16 rpkt ancount

/-- The record is one of an address, and its owner begins with a name. -/
def Answer.Begins (r : Answer) (dname : List UInt8) : Prop := r.rtype = DNS_QT_A ∧ dname <+: text r.owner

/-- The record is the address of a name. -/
def Answer.IsFor (r : Answer) (dname : List UInt8) : Prop := r.rtype = DNS_QT_A ∧ text r.owner = dname

instance (r : Answer) (dname : List UInt8) : Decidable (r.Begins dname) := by
  unfold Answer.Begins
  infer_instance

/-- The resolver can read the record: its owner has a label and fits in the name buffer, and the address is there if it is used. -/
structure Answer.Fits (r : Answer) (dname : List UInt8) : Prop where
  labels : r.owner ≠ []
  size : (text r.owner).length < rnameSize
  address : r.Begins dname → r.rdata.isSome

/-- The address after one more. -/
def keep (ipmask ipprefix ipaddr tmpip : Nat) : Nat := if ipaddr = 0 ∨ onLocalNet ipmask ipprefix tmpip then tmpip else ipaddr

/-- The addresses of the records whose owners begin with a name. -/
def candidates (dname : List UInt8) (answers : List Answer) : List Nat :=
  (answers.filter fun r => r.Begins dname).map fun r => r.rdata.getD 0

variable {rpkt} {ipmask ipprefix : Nat}

theorem candidates_cons_of_begins {r : Answer} {dname : List UInt8} (h : r.Begins dname) (answers : List Answer) :
    candidates dname (r :: answers) = r.rdata.getD 0 :: candidates dname answers := by
  simp [candidates, h]

theorem candidates_cons_of_not {r : Answer} {dname : List UInt8} (h : ¬r.Begins dname) (answers : List Answer) :
    candidates dname (r :: answers) = candidates dname answers := by
  simp [candidates, h]

theorem word16_eq (o : Nat) : word16 rpkt o = if o + 2 ≤ rpkt.length then some (field16 rpkt o) else none := by
  rw [word16, field16]
  by_cases h1 : o < rpkt.length
  · by_cases h2 : o + 1 < rpkt.length
    · rw [if_pos (by omega), List.getElem?_eq_getElem h1, List.getElem?_eq_getElem h2]
      rfl
    · rw [if_neg (by omega), List.getElem?_eq_getElem h1, List.getElem?_eq_none (by omega)]
      rfl
  · rw [if_neg (by omega), List.getElem?_eq_none (by omega)]
    rfl

/-- The comparison of a string with a buffer, for all of its characters. -/
theorem strncmp_eq_zero (s2 : Nat → UInt8) (s1 : List UInt8) : ∀ {o : Nat}, 0 ∉ s1 →
    (strncmp s1 s2 o s1.length = 0 ↔ ∀ i (h : i < s1.length), s2 (o + i) = s1[i]) := by
  induction s1 with
  | nil =>
    intro o _
    exact iff_of_true rfl fun i h => absurd h (Nat.not_lt_zero i)
  | cons c s1 ih =>
    intro o h0
    have hc : c ≠ 0 := fun h => h0 (h ▸ List.mem_cons_self)
    have hstep : strncmp (c :: s1) s2 o (c :: s1).length =
        if c = s2 o then (if c = 0 then 0 else strncmp s1 s2 (o + 1) s1.length) else c.toNat - (s2 o).toNat := rfl
    rw [hstep]
    by_cases heq : c = s2 o
    · rw [if_pos heq, if_neg hc, ih fun h => h0 (List.mem_cons_of_mem c h)]
      constructor
      · intro h i hi
        cases i with
        | zero => exact heq.symm
        | succ i =>
          have hnext := h i (by simpa using hi)
          rwa [Nat.add_right_comm] at hnext
      · intro h i hi
        have hnext := h (i + 1) (by simpa using hi)
        rwa [← Nat.add_assoc, Nat.add_right_comm] at hnext
    · rw [if_neg heq]
      refine iff_of_false ?_ fun h => heq (h 0 (Nat.succ_pos _)).symm
      intro hz
      exact heq (UInt8.toNat_inj.mp (by omega))

/-- `strncmp` for the length of a name compares with the beginning of the other. -/
theorem strncmp_prefix {rname : Nat → UInt8} {s : List UInt8} (h : IsString rname s) (dname : CString) :
    strncmp dname.1 rname 0 dname.1.length = 0 ↔ dname.1 <+: s := by
  rw [strncmp_eq_zero rname dname.1 dname.2, List.prefix_iff_getElem]
  constructor
  · intro hall
    have hle : dname.1.length ≤ s.length := by
      by_contra hlt
      have hend := hall s.length (by omega)
      have hmem : dname.1[s.length] ∈ dname.1 := List.getElem_mem _
      rw [Nat.zero_add, h.2] at hend
      rw [← hend] at hmem
      exact dname.2 hmem
    refine ⟨hle, fun i hi => ?_⟩
    have hi' := hall i hi
    rw [Nat.zero_add, h.1 i (by omega)] at hi'
    exact hi'.symm
  · rintro ⟨hle, hall⟩ i hi
    rw [Nat.zero_add, h.1 i (by omega), hall i hi]

/-! ## The run -/

/-- The loop over the questions comes to an end where they do. -/
theorem questions_of_skipQuestions {turns : Nat} (n : Nat) : ∀ {o e : Nat}, skipQuestions rpkt turns n o = some e →
    Questions rpkt n o e := by
  induction n with
  | zero =>
    intro o e h
    obtain rfl := Option.some.inj h
    exact .done
  | succ n ih =>
    intro o e h
    rw [skipQuestions, Option.bind_eq_bind, Option.bind_eq_some_iff] at h
    obtain ⟨e', hskip, h⟩ := h
    exact .next (skips_of_skipName turns hskip) (ih h)

theorem skipQuestions_settles {n o e : Nat} (h : Questions rpkt n o e) : Settles (fun turns => skipQuestions rpkt turns n o) e := by
  induction h with
  | done => exact ⟨0, fun _ _ => rfl⟩
  | next hname _ ih =>
    refine (skipName_settles hname).bind ih fun turns hskip hrest => ?_
    rw [skipQuestions, hskip, Option.bind_eq_bind, Option.bind_some, hrest]

/-- A turn of the loop over the answers, once the name is read. -/
theorem answersLoop_succ {turns n o e ipaddr : Nat} {dname : CString} {labels : List (List UInt8)} {rname : Nat → UInt8}
    (hname : dnsGetrname rpkt turns o rname = some (e - o, stored rname 0 labels)) (ho : o ≤ e) (hne : labels ≠ []) :
    answersLoop rpkt ipmask ipprefix turns dname.1 (n + 1) o ipaddr rname =
      if e + 10 ≤ rpkt.length then
        if field16 rpkt e = DNS_QT_A ∧ dname.1 <+: text labels then
          (word32 rpkt (e + 10)).bind fun tmpip => answersLoop rpkt ipmask ipprefix turns dname.1 n
            (e + 8 + (field16 rpkt (e + 8) + 2)) (keep ipmask ipprefix ipaddr tmpip) (stored rname 0 labels)
        else answersLoop rpkt ipmask ipprefix turns dname.1 n (e + 8 + (field16 rpkt (e + 8) + 2)) ipaddr (stored rname 0 labels)
      else none := by
  have hplace : o + (e - o) = e := by omega
  have hcmp := strncmp_prefix (isString_stored rname hne) dname
  rw [answersLoop, hname]
  simp only [Option.bind_eq_bind, Option.bind_some, hplace, word16_eq, hcmp, Option.pure_def]
  by_cases h10 : e + 10 ≤ rpkt.length
  · rw [if_pos h10, if_pos (by omega), if_pos (by omega), Option.bind_some, Option.bind_some]
    by_cases hmatch : field16 rpkt e = DNS_QT_A ∧ dname.1 <+: text labels
    · rw [if_pos hmatch, if_pos hmatch.symm]
      rfl
    · rw [if_neg hmatch, if_neg fun h => hmatch h.symm]
  · rw [if_neg h10, if_neg (by omega : ¬e + 8 + 2 ≤ rpkt.length)]
    by_cases h2 : e + 2 ≤ rpkt.length
    · rw [if_pos h2, Option.bind_some]
      split_ifs
      · cases word32 rpkt (e + 10) <;> rfl
      · rfl
    · rw [if_neg h2]
      rfl

/-- The loop over the answers has read records, and picked one of their addresses. -/
theorem answers_of_answersLoop {turns : Nat} {dname : CString} (n : Nat) : ∀ {o ipaddr v : Nat} {rname : Nat → UInt8},
    answersLoop rpkt ipmask ipprefix turns dname.1 n o ipaddr rname = some v →
      ∃ answers, answers.length = n ∧ Answers rpkt answers o ∧ (∀ r ∈ answers, r.Fits dname.1) := by
  induction n with
  | zero =>
    intro o ipaddr v rname _
    exact ⟨[], rfl, .done, fun r hr => absurd hr List.not_mem_nil⟩
  | succ n ih =>
    intro o ipaddr v rname h
    have hname : ∃ r, dnsGetrname rpkt turns o rname = some r := by
      rw [answersLoop, Option.bind_eq_bind, Option.bind_eq_some_iff] at h
      obtain ⟨r, hr, -⟩ := h
      exact ⟨r, hr⟩
    obtain ⟨r, hr⟩ := hname
    obtain ⟨labels, e, hexp, hne, hsize, rfl⟩ := expands_of_dnsGetrname hr
    rw [answersLoop_succ hr hexp.lt.le hne] at h
    split_ifs at h with h10 hmatch
    · rw [Option.bind_eq_some_iff] at h
      obtain ⟨tmpip, hip, h⟩ := h
      obtain ⟨answers, rfl, hans, hfits⟩ := ih h
      refine ⟨_, rfl, .next hexp h10 hans, fun r hr => ?_⟩
      rcases List.mem_cons.mp hr with rfl | hr
      · exact ⟨hne, hsize, fun _ => by simp only [hip, Option.isSome_some]⟩
      · exact hfits r hr
    · obtain ⟨answers, rfl, hans, hfits⟩ := ih h
      refine ⟨_, rfl, .next hexp h10 hans, fun r hr => ?_⟩
      rcases List.mem_cons.mp hr with rfl | hr
      · exact ⟨hne, hsize, fun hbegins => absurd hbegins hmatch⟩
      · exact hfits r hr

/-- Over records that it can read, the loop comes to its end with one of their addresses. -/
theorem answersLoop_settles (ipmask ipprefix : Nat) {dname : CString} {answers : List Answer} {o : Nat} (h : Answers rpkt answers o) :
    (∀ r ∈ answers, r.Fits dname.1) → ∀ (ipaddr : Nat) (rname : Nat → UInt8),
      Settles (fun turns => answersLoop rpkt ipmask ipprefix turns dname.1 answers.length o ipaddr rname)
        ((candidates dname.1 answers).foldl (keep ipmask ipprefix) ipaddr) := by
  induction h with
  | done => exact fun _ _ _ => ⟨0, fun _ _ => rfl⟩
  | @next answers labels o e hname hlen _ ih =>
    intro hfits ipaddr rname
    obtain ⟨hne, hsize, haddr⟩ := hfits _ List.mem_cons_self
    have hrest := ih fun r hr => hfits r (List.mem_cons_of_mem _ hr)
    have hread : Settles (fun turns => dnsGetrname rpkt turns o rname) (e - o, stored rname 0 labels) :=
      dnsGetrname_settles.mpr ⟨labels, e, hname, hne, hsize, rfl⟩
    by_cases hmatch : field16 rpkt e = DNS_QT_A ∧ dname.1 <+: text labels
    · obtain ⟨tmpip, hip⟩ : ∃ tmpip, word32 rpkt (e + 10) = some tmpip := Option.isSome_iff_exists.mp (haddr hmatch)
      rw [candidates_cons_of_begins (show Answer.Begins ⟨labels, field16 rpkt e, word32 rpkt (e + 10)⟩ dname.1 from hmatch),
        List.foldl_cons]
      simp only [hip, Option.getD_some]
      refine hread.bind (hrest (keep ipmask ipprefix ipaddr tmpip) (stored rname 0 labels)) fun turns hget hloop => ?_
      rw [List.length_cons, answersLoop_succ hget hname.lt.le hne, if_pos hlen, if_pos hmatch, hip, Option.bind_some, hloop]
    · rw [candidates_cons_of_not (show ¬Answer.Begins ⟨labels, field16 rpkt e, word32 rpkt (e + 10)⟩ dname.1 from hmatch)]
      refine hread.bind (hrest ipaddr (stored rname 0 labels)) fun turns hget hloop => ?_
      rw [List.length_cons, answersLoop_succ hget hname.lt.le hne, if_pos hlen, if_neg hmatch, hloop]

/-- A run of `dns_geta` that comes to its end has read the records of the response. -/
theorem records_of_dnsGeta {turns v : Nat} {dname : CString} {rname : Nat → UInt8}
    (h : dnsGeta rpkt ipmask ipprefix turns dname.1 rname = some v) :
    ∃ answers, Records rpkt answers ∧ ∀ r ∈ answers, r.Fits dname.1 := by
  simp only [dnsGeta, Option.bind_eq_bind, Option.bind_eq_some_iff, word16_eq] at h
  obtain ⟨qcount, hq, o, hskip, acount, ha, ipaddr, hloop, -⟩ := h
  split_ifs at hq with h6
  split_ifs at ha with h8
  obtain rfl := Option.some.inj hq
  obtain rfl := Option.some.inj ha
  obtain ⟨answers, hcount, hans, hfits⟩ := answers_of_answersLoop _ hloop
  exact ⟨answers, ⟨h8, ⟨o, questions_of_skipQuestions _ hskip, hans⟩, hcount⟩, hfits⟩

/-- Over records that it can read, `dns_geta` returns the address that it keeps. -/
theorem dnsGeta_settles (ipmask ipprefix : Nat) {answers : List Answer} (h : Records rpkt answers) {dname : CString}
    (hfits : ∀ r ∈ answers, r.Fits dname.1) (rname : Nat → UInt8) :
    Settles (fun turns => dnsGeta rpkt ipmask ipprefix turns dname.1 rname)
      (if (candidates dname.1 answers).foldl (keep ipmask ipprefix) 0 ≠ 0 then
        (candidates dname.1 answers).foldl (keep ipmask ipprefix) 0 else SYSERR32) := by
  obtain ⟨o, hquestions, hanswers⟩ := h.sections
  have h6 : qucount + 2 ≤ rpkt.length := Nat.le_trans (by decide) h.header
  have h8 : ancount + 2 ≤ rpkt.length := h.header
  refine (skipQuestions_settles hquestions).bind (answersLoop_settles ipmask ipprefix hanswers hfits 0 rname) fun turns hskip hloop => ?_
  rw [h.count] at hloop
  rw [dnsGeta, word16_eq, if_pos h6, Option.bind_eq_bind, Option.bind_some, hskip, Option.bind_some, word16_eq, if_pos h8,
    Option.bind_some, hloop]
  rfl

/-- For every response: `dns_geta` comes to its end, within the response and the name buffer, if and only if the records of the
response are there, each owner has a label and fits in the buffer, and the addresses that are used are there; `dns_getrname` does
if and only if the name expands, has a label and fits. -/
theorem dns_response_safe_iff (rpkt : List UInt8) (ipmask ipprefix : Nat) (dname : CString) (rname : Nat → UInt8) :
    ((∃ v, Settles (fun turns => dnsGeta rpkt ipmask ipprefix turns dname.1 rname) v) ↔
      ∃ answers, Records rpkt answers ∧ ∀ r ∈ answers, r.Fits dname.1) ∧
    ∀ son, (∃ r, Settles (fun turns => dnsGetrname rpkt turns son rname) r) ↔
      ∃ labels e, Expands rpkt son labels e ∧ labels ≠ [] ∧ (text labels).length < rnameSize := by
  refine ⟨⟨?_, ?_⟩, fun son => ⟨?_, ?_⟩⟩
  · rintro ⟨v, n, h⟩
    exact records_of_dnsGeta (h n (Nat.le_refl n))
  · rintro ⟨answers, hrecords, hfits⟩
    exact ⟨_, dnsGeta_settles ipmask ipprefix hrecords hfits rname⟩
  · rintro ⟨r, h⟩
    obtain ⟨labels, e, hexp, hne, hsize, -⟩ := dnsGetrname_settles.mp h
    exact ⟨labels, e, hexp, hne, hsize⟩
  · rintro ⟨labels, e, hexp, hne, hsize⟩
    exact ⟨_, dnsGetrname_settles.mpr ⟨labels, e, hexp, hne, hsize, rfl⟩⟩

/-- A response with one answer, whose owner is a pointer to itself. -/
def circularResponse : List UInt8 := [0, 1, 0x81, 0x80, 0, 0, 0, 1, 0, 0, 0, 0, 0xc0, 12, 0, 1, 0, 1, 0, 0, 0, 0, 0, 4, 10, 0, 0, 1]

theorem circularResponse_expands {o e : Nat} {labels : List (List UInt8)} (h : Expands circularResponse o labels e) : o ≠ 12 := by
  induction h with
  | root h =>
    rintro rfl
    exact absurd (Option.some.inj h) (by decide)
  | label h _ h63 =>
    rintro rfl
    obtain rfl := Option.some.inj h
    exact absurd h63 (by decide)
  | pointer h _ h' _ ih =>
    rintro rfl
    obtain rfl := Option.some.inj h
    obtain rfl := Option.some.inj h'
    exact ih rfl

/-- `dns_geta` does not come to its end on that response. -/
theorem dns_response_circular : ¬∀ (rpkt : List UInt8) (ipmask ipprefix : Nat) (dname : CString) (rname : Nat → UInt8),
    ∃ v, Settles (fun turns => dnsGeta rpkt ipmask ipprefix turns dname.1 rname) v := by
  intro hall
  obtain ⟨v, n, h⟩ := hall circularResponse 0 0 ⟨[], List.not_mem_nil⟩ fun _ => 0
  obtain ⟨answers, hrecords, -⟩ := records_of_dnsGeta (h n (Nat.le_refl n))
  obtain ⟨o, hquestions, hanswers⟩ := hrecords.sections
  have hq : field16 circularResponse qucount = 0 := by decide
  have ha : field16 circularResponse ancount = 1 := by decide
  have hcount := hrecords.count
  rw [hq] at hquestions
  rw [ha] at hcount
  cases hquestions
  cases hanswers with
  | done => cases hcount
  | next hname _ _ => exact circularResponse_expands hname rfl

/-! ## The address -/

theorem Settles.unique {α : Type} {f : Nat → Option α} {a b : α} (h : Settles f a) (h' : Settles f b) : a = b := by
  obtain ⟨n, h⟩ := h
  obtain ⟨n', h'⟩ := h'
  have e := h (max n n') (Nat.le_max_left _ _)
  rw [h' (max n n') (Nat.le_max_right _ _)] at e
  exact (Option.some.inj e).symm

theorem Skips.unique {o e e' : Nat} (h : Skips rpkt o e) (h' : Skips rpkt o e') : e = e' :=
  (skipName_settles h).unique (skipName_settles h')

theorem Questions.unique {n o e e' : Nat} (h : Questions rpkt n o e) (h' : Questions rpkt n o e') : e = e' :=
  (skipQuestions_settles h).unique (skipQuestions_settles h')

/-- The answers of a response from an offset on are determined by their number. -/
theorem Answers.unique {answers answers' : List Answer} {o : Nat} (h : Answers rpkt answers o) (h' : Answers rpkt answers' o)
    (hcount : answers.length = answers'.length) : answers = answers' := by
  induction h generalizing answers' with
  | done => exact (List.eq_nil_of_length_eq_zero hcount.symm).symm
  | next hname _ _ ih =>
    cases h' with
    | done => cases hcount
    | next hname' _ hrest' =>
      obtain ⟨rfl, rfl⟩ := hname.unique hname'
      rw [ih hrest' (Nat.succ.inj hcount)]

theorem Records.unique {answers answers' : List Answer} (h : Records rpkt answers) (h' : Records rpkt answers') : answers = answers' := by
  obtain ⟨o, hq, ha⟩ := h.sections
  obtain ⟨o', hq', ha'⟩ := h'.sections
  obtain rfl := hq.unique hq'
  exact ha.unique ha' (h.count.trans h'.count.symm)

/-- The address that `dns_geta` prefers: the last one on the local network, or else the first. -/
def preferred (ipmask ipprefix : Nat) (ips : List Nat) : Option Nat :=
  (ips.filter fun ip => onLocalNet ipmask ipprefix ip).getLast?.or ips.head?

theorem preferred_mem {ips : List Nat} {ip : Nat} (h : preferred ipmask ipprefix ips = some ip) : ip ∈ ips := by
  rcases Option.or_eq_some_iff.mp h with h | ⟨-, h⟩
  · exact (List.mem_filter.mp (List.mem_of_getLast? h)).1
  · exact List.mem_of_head? h

theorem preferred_eq_none (ipmask ipprefix : Nat) {ips : List Nat} : preferred ipmask ipprefix ips = none ↔ ips = [] := by
  constructor
  · intro h
    exact List.head?_eq_none_iff.mp (Option.or_eq_none_iff.mp h).2
  · rintro rfl
    rfl

/-- If there is an address on the local network, the one that is preferred is. -/
theorem preferred_local {ips : List Nat} {ip ip' : Nat} (h : preferred ipmask ipprefix ips = some ip) (hmem : ip' ∈ ips)
    (hlocal : onLocalNet ipmask ipprefix ip') : onLocalNet ipmask ipprefix ip := by
  have hin : ip' ∈ ips.filter fun ip => onLocalNet ipmask ipprefix ip := List.mem_filter.mpr ⟨hmem, by simpa using hlocal⟩
  rcases Option.or_eq_some_iff.mp h with h | ⟨h, -⟩
  · simpa using (List.mem_filter.mp (List.mem_of_getLast? h)).2
  · rw [List.getLast?_eq_none_iff.mp h] at hin
    cases hin

/-- The loop keeps the address that is preferred. -/
theorem foldl_keep (ips : List Nat) (h0 : 0 ∉ ips) : ips.foldl (keep ipmask ipprefix) 0 = (preferred ipmask ipprefix ips).getD 0 := by
  induction ips using List.reverseRecOn with
  | nil => rfl
  | append_singleton ips ip ih =>
    have hips : 0 ∉ ips := fun h => h0 (List.mem_append_left _ h)
    have hzero : ips.foldl (keep ipmask ipprefix) 0 = 0 ↔ ips = [] := by
      rw [ih hips]
      constructor
      · intro h
        rw [← preferred_eq_none ipmask ipprefix]
        cases hp : preferred ipmask ipprefix ips with
        | none => rfl
        | some ip' =>
          rw [hp, Option.getD_some] at h
          exact absurd (h ▸ preferred_mem hp) hips
      · rintro rfl
        rfl
    rw [List.foldl_append, List.foldl_cons, List.foldl_nil, keep]
    by_cases hlocal : onLocalNet ipmask ipprefix ip
    · rw [if_pos (.inr hlocal), preferred, List.filter_append]
      simp [hlocal]
    · have hfilter : (ips ++ [ip]).filter (fun ip => onLocalNet ipmask ipprefix ip) =
          ips.filter fun ip => onLocalNet ipmask ipprefix ip := by
        simp [List.filter_append, hlocal]
      by_cases hnil : ips = []
      · subst hnil
        simp [preferred, hlocal]
      · rw [if_neg (not_or.mpr ⟨mt hzero.mp hnil, hlocal⟩), ih hips, preferred, preferred, hfilter, List.head?_append_of_ne_nil _ hnil]

/-- A response with its records, names of at most 255 bytes and addresses of four. -/
structure WellFormed (rpkt : List UInt8) (answers : List Answer) : Prop where
  records : Records rpkt answers
  names : ∀ r ∈ answers, (wire r.owner).length ≤ 255
  addresses : ∀ r ∈ answers, r.rtype = DNS_QT_A → r.rdata.isSome

/-- The resolver returns the address of the name, one on the local network if there is one, or `SYSERR` if there is none. -/
def AnswersQuestion (rpkt : List UInt8) (ipmask ipprefix : Nat) (answers : List Answer) (dname : CString) (rname : Nat → UInt8) : Prop :=
  ∃ v, Settles (fun turns => dnsGeta rpkt ipmask ipprefix turns dname.1 rname) v ∧
    (v ≠ SYSERR32 → ∃ r ∈ answers, r.IsFor dname.1 ∧ r.rdata = some v ∧
      ((∃ r' ∈ answers, r'.IsFor dname.1 ∧ ∃ ip, r'.rdata = some ip ∧ onLocalNet ipmask ipprefix ip) →
        onLocalNet ipmask ipprefix v)) ∧
    (v = SYSERR32 ↔ ¬∃ r ∈ answers, r.IsFor dname.1)

section

variable {answers : List Answer} {dname : CString}

/-- The address of a name is a candidate. -/
theorem mem_candidates {r : Answer} {ip : Nat} (hr : r ∈ answers) (hfor : r.IsFor dname.1) (hip : r.rdata = some ip) :
    ip ∈ candidates dname.1 answers := by
  have hbegins : r.Begins dname.1 := ⟨hfor.1, hfor.2 ▸ List.prefix_refl _⟩
  refine List.mem_map.mpr ⟨r, List.mem_filter.mpr ⟨hr, by simpa using hbegins⟩, ?_⟩
  rw [hip, Option.getD_some]

/-- The records of a well-formed response fit, the roots among the owners apart. -/
theorem WellFormed.fits (h : WellFormed rpkt answers) (dname : CString) (hroot : ∀ r ∈ answers, r.owner ≠ []) :
    ∀ r ∈ answers, r.Fits dname.1 := by
  intro r hr
  have hsize := h.names r hr
  rw [length_wire, length_dotted (hroot r hr)] at hsize
  exact ⟨hroot r hr, by unfold rnameSize; omega, fun hbegins => h.addresses r hr hbegins.1⟩

/-- What `dns_geta` returns for the records, when no address is zero. -/
theorem dnsGeta_preferred (ipmask ipprefix : Nat) (h : Records rpkt answers) (hfits : ∀ r ∈ answers, r.Fits dname.1)
    (rname : Nat → UInt8) (h0 : 0 ∉ candidates dname.1 answers) :
    Settles (fun turns => dnsGeta rpkt ipmask ipprefix turns dname.1 rname)
      ((preferred ipmask ipprefix (candidates dname.1 answers)).getD SYSERR32) := by
  have hrun := dnsGeta_settles ipmask ipprefix h hfits rname
  rw [foldl_keep _ h0] at hrun
  cases hp : preferred ipmask ipprefix (candidates dname.1 answers) with
  | none =>
    rw [hp] at hrun
    exact hrun
  | some ip =>
    have hne : ip ≠ 0 := fun h => h0 (h ▸ preferred_mem hp)
    rw [hp, Option.getD_some, if_pos hne] at hrun
    exact hrun

end

/-- For every well-formed response, the addresses 0.0.0.0 and 255.255.255.255 apart: the resolver answers the question if and only
if no answer is owned by the root, and the address that it prefers among those of the records whose owners begin with the name is
the address of the name. -/
theorem dns_answers_iff (rpkt : List UInt8) (answers : List Answer) (hwf : WellFormed rpkt answers) (ipmask ipprefix : Nat)
    (dname : CString) (rname : Nat → UInt8) (hproper : ∀ ip ∈ candidates dname.1 answers, ip ≠ 0 ∧ ip ≠ SYSERR32) :
    AnswersQuestion rpkt ipmask ipprefix answers dname rname ↔
      (∀ r ∈ answers, r.owner ≠ []) ∧ ∀ ip, preferred ipmask ipprefix (candidates dname.1 answers) = some ip →
        ∃ r ∈ answers, r.IsFor dname.1 ∧ r.rdata = some ip := by
  have h0 : 0 ∉ candidates dname.1 answers := fun h => (hproper 0 h).1 rfl
  constructor
  · rintro ⟨v, hv, hip, -⟩
    obtain ⟨n, hn⟩ := hv
    obtain ⟨answers', hrecords, hfits⟩ := records_of_dnsGeta (hn n (Nat.le_refl n))
    obtain rfl := hwf.records.unique hrecords
    refine ⟨fun r hr => (hfits r hr).labels, fun ip hp => ?_⟩
    have hrun := dnsGeta_preferred ipmask ipprefix hwf.records hfits rname h0
    rw [hp, Option.getD_some] at hrun
    obtain rfl := Settles.unique ⟨n, hn⟩ hrun
    obtain ⟨r, hr, hfor, hdata, -⟩ := hip (hproper v (preferred_mem hp)).2
    exact ⟨r, hr, hfor, hdata⟩
  · rintro ⟨hroot, hprefer⟩
    have hrun := dnsGeta_preferred ipmask ipprefix hwf.records (hwf.fits dname hroot) rname h0
    refine ⟨_, hrun, ?_⟩
    cases hp : preferred ipmask ipprefix (candidates dname.1 answers) with
    | none =>
      have hnil := (preferred_eq_none _ _).mp hp
      refine ⟨fun hne => absurd rfl hne, iff_of_true rfl ?_⟩
      rintro ⟨r, hr, hfor⟩
      obtain ⟨ip, hip⟩ := Option.isSome_iff_exists.mp (hwf.addresses r hr hfor.1)
      have hmem := mem_candidates hr hfor hip
      rw [hnil] at hmem
      cases hmem
    | some ip =>
      obtain ⟨r, hr, hfor, hdata⟩ := hprefer ip hp
      refine ⟨fun _ => ⟨r, hr, hfor, hdata, ?_⟩, iff_of_false (hproper ip (preferred_mem hp)).2 (not_not.mpr ⟨r, hr, hfor⟩)⟩
      rintro ⟨r', hr', hfor', ip', hip', hlocal⟩
      exact preferred_local hp (mem_candidates hr' hfor' hip') hlocal

/-- A response with one answer, the address 10.0.0.1 of `ab`. -/
def abResponse : List UInt8 :=
  [0, 1, 0x81, 0x80, 0, 0, 0, 1, 0, 0, 0, 0, 2, 97, 98, 0, 0, 1, 0, 1, 0, 0, 0, 0, 0, 4, 10, 0, 0, 1]

theorem abResponse_wellFormed : WellFormed abResponse [⟨[[97, 98]], DNS_QT_A, some 16777226⟩] := by
  have hname : Expands abResponse 12 [[97, 98]] 16 :=
    .label (show abResponse[12]? = some 2 from rfl) (by decide) (by decide) rfl rfl (.root rfl)
  have hanswers : Answers abResponse [⟨[[97, 98]], DNS_QT_A, some 16777226⟩] 12 := .next hname (by decide) .done
  refine ⟨⟨by decide, ⟨12, .done, hanswers⟩, rfl⟩, ?_, ?_⟩
  · intro r hr
    obtain rfl := List.mem_singleton.mp hr
    decide
  · intro r hr _
    obtain rfl := List.mem_singleton.mp hr
    rfl

/-- The question for `ab` is answered there. -/
theorem dns_answers_iff_ab : AnswersQuestion abResponse 0xffffff00 0x0a000000 [⟨[[97, 98]], DNS_QT_A, some 16777226⟩]
    ⟨[97, 98], by decide⟩ fun _ => 0 := by
  refine (dns_answers_iff abResponse _ abResponse_wellFormed 0xffffff00 0x0a000000 ⟨[97, 98], by decide⟩ (fun _ => 0) ?_).mpr ⟨?_, ?_⟩
  · intro ip hip
    obtain rfl : ip = 16777226 := List.mem_singleton.mp hip
    decide
  · intro r hr
    obtain rfl := List.mem_singleton.mp hr
    exact List.cons_ne_nil _ _
  · intro ip hp
    obtain rfl : ip = 16777226 := List.mem_singleton.mp (preferred_mem hp)
    exact ⟨_, List.mem_singleton_self _, ⟨rfl, rfl⟩, rfl⟩

/-- The question for `a` is answered there with the address of `ab`. -/
theorem dns_answers_prefix : ¬∀ (rpkt : List UInt8) (answers : List Answer), WellFormed rpkt answers → ∀ (ipmask ipprefix : Nat)
    (dname : CString) (rname : Nat → UInt8), (∀ r ∈ answers, r.rtype = DNS_QT_A → r.rdata ≠ some 0 ∧ r.rdata ≠ some SYSERR32) →
      AnswersQuestion rpkt ipmask ipprefix answers dname rname := by
  intro hall
  have hproper : ∀ r ∈ [(⟨[[97, 98]], DNS_QT_A, some 16777226⟩ : Answer)],
      r.rtype = DNS_QT_A → r.rdata ≠ some 0 ∧ r.rdata ≠ some SYSERR32 := by
    intro r hr _
    obtain rfl := List.mem_singleton.mp hr
    decide
  obtain ⟨v, hv, hip, -⟩ := hall abResponse _ abResponse_wellFormed 0 0 ⟨[97], by decide⟩ (fun _ => 0) hproper
  have hfits := abResponse_wellFormed.fits ⟨[97], by decide⟩ fun r hr => by
    obtain rfl := List.mem_singleton.mp hr
    exact List.cons_ne_nil _ _
  have hrun := dnsGeta_preferred 0 0 abResponse_wellFormed.records hfits (fun _ => 0) (by decide)
  obtain rfl := hv.unique hrun
  obtain ⟨r, hr, hfor, -⟩ := hip (by decide)
  obtain rfl := List.mem_singleton.mp hr
  exact absurd hfor.2 (by decide)

end Dns

end Xinu
