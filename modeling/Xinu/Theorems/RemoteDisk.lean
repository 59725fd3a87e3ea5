import Xinu.Device.Rds

/-!
# Exchanges of the remote disk

What `rdscomm` accepts as the reply to its request, what `rdsprocess` sends for the requests in its queue, and what a failed
`rdsopen` leaves.
-/

namespace Xinu

namespace Rds

open Remote

/-! ## Replies -/

section Replies

variable (msg : Buffer) (mlen : Nat) (rlen : Int) (seq : UInt32)

/-- A datagram carries the number of the request and its response type. -/
structure Answers (d : Datagram) : Prop where
  whole : 8 ≤ d.msglen rlen
  number : ntohl (d.net_udpdata.word 4) = seq
  type : ntohs (d.net_udpdata.half 0) = ntohs (msg.half 0) ||| MSG_RESPONSE

/-- The law of matching: `rdscomm` returns `OK` only for a datagram of this call that carries the number, the response type and
status 0, and leaves that datagram in the reply buffer; and a status fails the call only if it is that of a datagram of this call
that carries the number and the response type. -/
structure Matched (o : Outcome) (heard : List Arrival) : Prop where
  ok : o.exit.retval = OK → ∃ d, .datagram d ∈ heard ∧ Answers msg rlen seq d ∧ ntohs (d.net_udpdata.half 2) = 0 ∧
    ∀ i : Nat, i < d.msglen rlen → o.reply i = d.net_udpdata i
  badStatus : o.exit = .badStatus → ∃ d, .datagram d ∈ heard ∧ Answers msg rlen seq d ∧ ntohs (d.net_udpdata.half 2) ≠ 0

variable {msg mlen rlen seq}

/-- `rdscomm` returns `OK` from its last statement only. -/
theorem Exit.retval_eq_OK {e : Exit} : e.retval = OK ↔ e = .ok := by
  cases e <;> decide

/-- A number that is not higher is lower or the number itself. -/
theorem not_higher_iff {a b : UInt32} : ¬(!decide (a < b) ∧ a ≠ b) ↔ ¬b < a := by
  simp only [UInt32.lt_iff_toNat_lt, ne_eq, ← UInt32.toNat_inj, Bool.not_eq_eq_eq_not, Bool.not_true, decide_eq_false_iff_not]
  omega

/-- A reply is accepted when it shows the response type and a number that is not higher than that of the request. -/
theorem judge_accept {reply : Buffer} :
    judge msg seq reply = .accept ↔ ¬seq < ntohl (reply.word 4) ∧ isResponse reply msg = true := by
  by_cases hn : !decide (ntohl (reply.word 4) < seq) ∧ ntohl (reply.word 4) ≠ seq
  · rw [judge, if_pos hn]
    exact ⟨nofun, fun h => absurd hn (not_higher_iff.mpr h.1)⟩
  · have hle : ¬seq < ntohl (reply.word 4) := not_higher_iff.mp hn
    rw [judge, if_neg hn]
    cases isResponse reply msg with
    | false => exact ⟨nofun, fun h => absurd h.2 Bool.false_ne_true⟩
    | true => exact ⟨fun _ => ⟨hle, rfl⟩, fun _ => rfl⟩

/-- The number of a message is no part of its type. -/
theorem isResponse_setWord (reply : Buffer) (w : UInt32) : isResponse reply (msg.setWord 4 w) = isResponse reply msg := by
  have h : (msg.setWord 4 w).half 0 = msg.half 0 := Buffer.half_copy_off (by omega)
  rw [isResponse, isResponse, h]

/-- A reply is judged for a message with its number as for the message without it. -/
theorem judge_setWord (w : UInt32) : judge (msg.setWord 4 w) seq = judge msg seq := by
  funext reply
  rw [judge, isResponse_setWord, judge]

/-- A datagram that answers decides, where response types can decide at all. -/
theorem Answers.decides {d : Datagram} (h : Answers msg rlen seq d) {other : Buffer} (ho : isResponse other msg = true)
    (reply : Buffer) (before : List Arrival) : Decides rlen (judge msg seq) reply before d := by
  have hw := h.whole
  refine ⟨by unfold TIMEOUT; omega, by unfold SYSERR; omega, judge_accept.mpr ⟨?_, ?_⟩⟩
  · rw [left_word (by omega), h.number]
    exact UInt32.lt_irrefl seq
  · apply isResponse_of_type ho
    rw [left_half (by omega)]
    exact h.type

/-- With a slot and a local address `rdscomm` exchanges the message with the next number. -/
theorem rdscomm_converse {rdptr : Rdscblk} {net : Net} (hslot : ¬(!rdptr.rd_registered ∧ net.slot = SYSERR))
    (hip : ¬(!net.ipvalid ∧ !net.getlocalip)) (reply : Buffer) :
    let o := rdscomm msg mlen reply rlen rdptr net
    let x := converse ((msg.setWord 4 (htonl rdptr.rd_seq)).bytes 0 mlen) rlen (judge msg rdptr.rd_seq) RD_RETRIES true reply net
    o.exit = .ofEnd x.2.1 x.1 ∧ o.reply = x.2.1 ∧ o.net = x.2.2 := by
  intro o x
  simp only [o, x, rdscomm, if_neg hslot, if_neg hip]
  cases rdptr.rd_registered <;> simp only [if_true, if_false, Bool.false_eq_true, judge_setWord, and_self]

/-- What `rdscomm` can do: it fails before the exchange, or it exchanges the message with the next number. -/
theorem rdscomm_cases (reply : Buffer) (rdptr : Rdscblk) (net : Net) :
    let o := rdscomm msg mlen reply rlen rdptr net
    let x := converse ((msg.setWord 4 (htonl rdptr.rd_seq)).bytes 0 mlen) rlen (judge msg rdptr.rd_seq) RD_RETRIES true reply net
    ((o.exit = .noSlot ∨ o.exit = .noLocalIp) ∧ o.net = net) ∨
      (o.exit = .ofEnd x.2.1 x.1 ∧ o.reply = x.2.1 ∧ o.net = x.2.2) := by
  intro o x
  by_cases hslot : !rdptr.rd_registered ∧ net.slot = SYSERR
  · have ho : o = ⟨.noSlot, msg, reply, rdptr, net⟩ := if_pos hslot
    exact .inl ⟨.inl (by rw [ho]), by rw [ho]⟩
  by_cases hip : !net.ipvalid ∧ !net.getlocalip
  · refine .inl ⟨.inr ?_, ?_⟩ <;> simp only [o, rdscomm, if_neg hslot, if_pos hip]
  · exact .inr (rdscomm_converse hslot hip reply)

/-- The loop does not end with a status unless it accepts a reply. -/
theorem Exit.ofEnd_ne {reply : Buffer} {e : End} (h : ∀ retval, e ≠ .accepted retval) :
    Exit.ofEnd reply e ≠ .ok ∧ Exit.ofEnd reply e ≠ .badStatus := by
  cases e with
  | accepted retval => exact absurd rfl (h retval)
  | _ => simp [Exit.ofEnd]

/-- `rdscomm` ends with a status exactly when the last arrival decides, and then no earlier one answers the request. -/
theorem rdscomm_spec {reply : Buffer} {rdptr : Rdscblk} {net : Net} {heard : List Arrival}
    (h : net.recv = heard ++ (rdscomm msg mlen reply rlen rdptr net).net.recv) :
    let o := rdscomm msg mlen reply rlen rdptr net
    (∃ before d, heard = before ++ [.datagram d] ∧ Decides rlen (judge msg rdptr.rd_seq) reply before d ∧
      o.reply = left reply rlen heard ∧
      o.exit = (if ntohs ((left reply rlen heard).half 2) ≠ 0 then .badStatus else .ok) ∧
      ∀ d', .datagram d' ∈ before → ¬Answers msg rlen rdptr.rd_seq d') ∨
    (o.exit ≠ .ok ∧ o.exit ≠ .badStatus ∧
      ∀ before d, heard = before ++ [.datagram d] → ¬Decides rlen (judge msg rdptr.rd_seq) reply before d) := by
  intro o
  rcases @rdscomm_cases msg mlen rlen reply rdptr net with ⟨hexit, hnet⟩ | ⟨hexit, hreply, hnet⟩
  · rw [hnet] at h
    have hnil : heard = [] := List.self_eq_append_left.mp h
    refine .inr ⟨?_, ?_, fun before d hd => by simp [hnil] at hd⟩
    · rcases hexit with he | he <;> simp [o, he]
    · rcases hexit with he | he <;> simp [o, he]
  · rw [hnet] at h
    rcases converse_spec RD_RETRIES true reply net heard h with ⟨before, d, rfl, hd, hleft, hend, hno⟩ | ⟨hend, hno⟩
    · rw [hleft] at hreply
      rw [hend, hleft] at hexit
      refine .inl ⟨before, d, rfl, hd, hreply, hexit, fun d' hd' ha => ?_⟩
      obtain ⟨pre, post, rfl⟩ := List.append_of_mem hd'
      exact hno pre d' post rfl (ha.decides (judge_accept.mp hd.accept).2 reply pre)
    · obtain ⟨hok, hbad⟩ := Exit.ofEnd_ne hend
      exact .inr ⟨hexit ▸ hok, hexit ▸ hbad, hno⟩

/-- A whole datagram that decides and whose number is not lower answers the request. -/
theorem answers_of_decides {reply : Buffer} {before : List Arrival} {d : Datagram}
    (h : Decides rlen (judge msg seq) reply before d)
    (hw : 8 ≤ d.msglen rlen) (hn : ¬ntohl (d.net_udpdata.word 4) < seq) : Answers msg rlen seq d := by
  obtain ⟨hhigh, hresp⟩ := judge_accept.mp h.accept
  rw [left_word (by omega)] at hhigh
  have htype := type_of_isResponse hresp
  rw [left_half (by omega)] at htype
  refine ⟨hw, ?_, htype⟩
  rw [UInt32.lt_iff_toNat_lt] at hhigh hn
  exact UInt32.toNat_inj.mp (by omega)

/-- The replies are matched to the requests exactly when the last datagram of the call, if the reply buffer behind it shows the
response type and a number that is not higher than that of the request, has a whole number and type and is not a reply to an
earlier request. -/
theorem rdscomm_matches_iff (msg : Buffer) (mlen : Nat) (reply : Buffer) (rlen : Int) (rdptr : Rdscblk) (net : Net)
    (heard : List Arrival) (h : net.recv = heard ++ (rdscomm msg mlen reply rlen rdptr net).net.recv) :
    Matched msg rlen rdptr.rd_seq (rdscomm msg mlen reply rlen rdptr net) heard ↔
      ∀ before d, heard = before ++ [.datagram d] → Decides rlen (judge msg rdptr.rd_seq) reply before d →
        8 ≤ d.msglen rlen ∧ ¬ntohl (d.net_udpdata.word 4) < rdptr.rd_seq := by
  rcases rdscomm_spec h with ⟨before, d, rfl, hd, hreply, hexit, hno⟩ | ⟨hok, hbad, hno⟩
  · constructor
    · intro hm before' d' hheard hd'
      obtain ⟨rfl, hlast⟩ := List.append_inj' hheard rfl
      obtain rfl : d = d' := by simpa using hlast
      -- only the last datagram can be the one that the law speaks of
      have hlast : ∀ e, .datagram e ∈ before ++ [.datagram d] → Answers msg rlen rdptr.rd_seq e → e = d := by
        intro e he ha
        rcases List.mem_append.mp he with he | he
        · exact absurd ha (hno e he)
        · simpa using he
      have hans : Answers msg rlen rdptr.rd_seq d := by
        by_cases hz : ntohs ((left reply rlen (before ++ [.datagram d])).half 2) = 0
        · rw [if_neg (not_not.mpr hz)] at hexit
          obtain ⟨e, he, ha, -⟩ := hm.ok (by rw [hexit]; rfl)
          exact hlast e he ha ▸ ha
        · rw [if_pos hz] at hexit
          obtain ⟨e, he, ha, -⟩ := hm.badStatus hexit
          exact hlast e he ha ▸ ha
      exact ⟨hans.whole, by rw [hans.number]; exact UInt32.lt_irrefl _⟩
    · intro hc
      obtain ⟨hw, hn⟩ := hc before d rfl hd
      have ha := answers_of_decides hd hw hn
      rw [left_half (by omega)] at hexit
      refine ⟨fun hok => ⟨d, by simp, ha, ?_, fun i hi => ?_⟩, fun hbad => ⟨d, by simp, ha, fun hz => ?_⟩⟩
      · by_contra hz
        rw [hexit, if_pos hz] at hok
        exact absurd hok (by decide)
      · rw [hreply]
        exact left_byte hi
      · rw [hexit, if_neg (not_not.mpr hz)] at hbad
        exact absurd hbad (by decide)
  · constructor
    · exact fun _ before d hheard hd => absurd hd (hno before d hheard)
    · intro _
      refine ⟨fun h => ?_, fun h => absurd h hbad⟩
      exact absurd (Exit.retval_eq_OK.mp h) hok

/-- An open device with a registered slot, whose next request has number 5. -/
def sample : Rdscblk := ⟨.RD_OPEN, fun i => [100].getD i 0, 5, true, 0⟩

/-- A network with some arrivals, on which every send succeeds. -/
def arriving (recv : List Arrival) : Net := ⟨0, true, true, [], recv, []⟩

/-- The response with a whole block to a read request, by its number. -/
def readReply (number : UInt8) : Datagram := ⟨596, fun i => [0x01, 0x10, 0, 0, 0, 0, 0, number].getD i 0⟩

theorem rdscomm_matches_reply :
    Matched (header RD_MSG_RREQ fun _ => 0) 588 5
      (rdscomm (header RD_MSG_RREQ fun _ => 0) 76 (fun _ => 0) 588 sample (arriving [.datagram (readReply 5)]))
      [.datagram (readReply 5)] := by
  refine (rdscomm_matches_iff _ 76 (fun _ => 0) 588 sample _ [.datagram (readReply 5)] rfl).mpr ?_
  intro before d hheard _
  obtain ⟨-, hd⟩ := List.append_inj' ((List.nil_append _).trans hheard) rfl
  obtain rfl : readReply 5 = d := by simpa using hd
  decide

/-- A late reply to the request before is taken for the reply to this one. -/
theorem rdscomm_accepts_stale :
    (arriving [.datagram (readReply 4)]).recv = [.datagram (readReply 4)] ++
      (rdscomm (header RD_MSG_RREQ fun _ => 0) 76 (fun _ => 0) 588 sample (arriving [.datagram (readReply 4)])).net.recv ∧
    ¬Matched (header RD_MSG_RREQ fun _ => 0) 588 5
      (rdscomm (header RD_MSG_RREQ fun _ => 0) 76 (fun _ => 0) 588 sample (arriving [.datagram (readReply 4)]))
      [.datagram (readReply 4)] := by
  refine ⟨rfl, fun h => ?_⟩
  obtain ⟨d, hd, ha, -⟩ := h.ok (by decide)
  obtain rfl : d = readReply 4 := by simpa using hd
  exact absurd ha.number (by decide)

end Replies

/-! ## Requests -/

/-- `rdscomm` changes the number and the slot of the control block only, and the number of the message. -/
theorem rdscomm_frame (msg : Buffer) (mlen : Nat) (reply : Buffer) (rlen : Int) (rdptr : Rdscblk) (net : Net) :
    let o := rdscomm msg mlen reply rlen rdptr net
    o.rdptr.rd_state = rdptr.rd_state ∧ o.rdptr.rd_id = rdptr.rd_id ∧ (o.msg = msg ∨ ∃ w, o.msg = msg.setWord 4 w) := by
  intro o
  simp only [o, rdscomm]
  split
  · exact ⟨rfl, rfl, .inl rfl⟩
  · split
    · cases rdptr.rd_registered <;> exact ⟨rfl, rfl, .inl rfl⟩
    · cases rdptr.rd_registered <;> exact ⟨rfl, rfl, .inr ⟨_, rfl⟩⟩

/-- The bytes of a message that are no part of its number are kept by `rdscomm`. -/
theorem rdscomm_msg (msg : Buffer) (mlen : Nat) (reply : Buffer) (rlen : Int) (rdptr : Rdscblk) (net : Net) {i : Nat}
    (hi : i < 4 ∨ 8 ≤ i) : (rdscomm msg mlen reply rlen rdptr net).msg i = msg i := by
  rcases (rdscomm_frame msg mlen reply rlen rdptr net).2.2 with h | ⟨w, h⟩
  · rw [h]
  · rw [h]
    exact Buffer.copy_off (by omega)

/-- The copy of the identifier that does not leave its field copies a string of the field. -/
theorem copyId_some {rd_id b m : Buffer} (h : Buffer.copyString rd_id 8 RD_IDLEN 0 b = some m) :
    ∃ n < RD_IDLEN, rd_id.IsString n ∧ m = b.copy 8 rd_id (n + 1) := by
  rcases Buffer.isString_or rd_id RD_IDLEN with ⟨n, hn, hid⟩ | hlong
  · rw [Buffer.copyString_string hid hn] at h
    exact ⟨n, hn, hid, (Option.some.inj h).symm⟩
  · rw [Buffer.copyString_long fun i hi => by rw [Nat.zero_add]; exact hlong i hi] at h
    cases h

/-- A message carries its request: the type, the identifier of the disk padded with zero bytes, the number of the block in the
order of the network, and the data of a write. -/
structure Carries (t : Turn) (m : Buffer) : Prop where
  type : m.half 0 = htons (if t.bptr.rd_op = .RD_OP_WRITE then RD_MSG_WREQ else RD_MSG_RREQ)
  id : ∃ n < RD_IDLEN, t.rdptr.rd_id.IsString n ∧ ∀ i < RD_IDLEN, m (8 + i) = if i < n then t.rdptr.rd_id i else 0
  block : m.word 72 = htonl t.bptr.rd_blknum
  data : t.bptr.rd_op = .RD_OP_WRITE → ∀ i < RD_BLKSIZ, m (76 + i) = t.bptr.rd_block i

/-- What a message holds besides its number of a block. -/
theorem Turn.request_spec {t : Turn} {msg m : Buffer} (h : t.request msg = some m) :
    m.half 0 = htons (if t.bptr.rd_op = .RD_OP_WRITE then RD_MSG_WREQ else RD_MSG_RREQ) ∧
    (∃ n < RD_IDLEN, t.rdptr.rd_id.IsString n ∧ ∀ i < RD_IDLEN, m (8 + i) = if i < n then t.rdptr.rd_id i else 0) ∧
    m.word 72 = (if t.bptr.rd_op = .RD_OP_WRITE then t.bptr.rd_blknum else msg.word 72) ∧
    (t.bptr.rd_op = .RD_OP_WRITE → ∀ i < RD_BLKSIZ, m (76 + i) = t.bptr.rd_block i) ∧ t.bptr.rd_op ≠ .RD_OP_SYNC := by
  unfold Turn.request at h
  split at h
  case h_1 hop =>
    obtain ⟨n, hn, hid, rfl⟩ := copyId_some h
    obtain ⟨htype, -, hpad, hoff⟩ := header_copy RD_MSG_RREQ msg hn hid
    simp only [hop, reduceCtorEq, if_false, false_implies, ne_eq, not_false_eq_true, and_true]
    exact ⟨htype, ⟨n, hn, hid, hpad⟩, Buffer.word_congr fun i hi _ => hoff i hi⟩
  case h_2 hop =>
    obtain ⟨m', hm', hm⟩ := Option.bind_eq_some_iff.mp h
    obtain ⟨n, hn, hid, rfl⟩ := copyId_some hm'
    obtain ⟨htype, -, hpad, hoff⟩ := header_copy RD_MSG_WREQ (msg.setWord 72 t.bptr.rd_blknum) hn hid
    obtain rfl := Option.some.inj hm
    have hlen : n < 64 := hn
    simp only [hop, reduceCtorEq, if_true, forall_const, ne_eq, not_false_eq_true, and_true]
    refine ⟨(Buffer.half_copy_off (by omega)).trans htype, ⟨n, hn, hid, fun i hi => ?_⟩, ?_, fun i hi => Buffer.copy_at hi⟩
    · have hi' : i < 64 := hi
      rw [Buffer.copy_off (by omega)]
      exact hpad i hi
    · rw [Buffer.word_copy_off (by omega)]
      exact (Buffer.word_congr fun i hi _ => hoff i hi).trans (Buffer.word_setWord 72 _)
  case h_3 => cases h

/-- The number of a block that a message keeps from the requests before: that of the last write, in the order of the machine. -/
def leftover (blk : UInt32) : List Turn → UInt32
  | [] => blk
  | t :: turns => leftover (if t.bptr.rd_op = .RD_OP_WRITE then t.bptr.rd_blknum else blk) turns

/-- One turn leaves the number of a write in the message, and otherwise the number that was there. -/
theorem rdsprocess_blk {p p' : Process} {t t' : Turn} (h : rdsprocess p t = some (p', t')) :
    p'.msg.word 72 = if t.bptr.rd_op = .RD_OP_WRITE then t.bptr.rd_blknum else p.msg.word 72 := by
  have hcomm : ∀ (m : Buffer) (mlen : Nat) (reply : Buffer) (rlen : Int),
      (rdscomm m mlen reply rlen t.rdptr t.net).msg.word 72 = m.word 72 :=
    fun m mlen reply rlen => Buffer.word_congr fun i hi _ => rdscomm_msg _ _ _ _ _ _ (by omega)
  -- A read and a write leave the request that they sent.
  have hsent : ∀ {m : Buffer} {mlen : Nat} {rlen : Int}, t.request p.msg = some m →
      (rdscomm m mlen p.resp rlen t.rdptr t.net).msg.word 72 =
        if t.bptr.rd_op = .RD_OP_WRITE then t.bptr.rd_blknum else p.msg.word 72 :=
    fun hreq => (hcomm _ _ _ _).trans (Turn.request_spec hreq).2.2.1
  unfold rdsprocess at h
  split at h
  case h_1 hop =>
    obtain ⟨m, hm, h⟩ := Option.bind_eq_some_iff.mp h
    dsimp only at h
    split at h
    · cases h
    · obtain ⟨rfl, -⟩ := Prod.mk.inj (Option.some.inj h)
      exact hsent (by rw [Turn.request, hop]; exact hm)
  case h_2 hop =>
    obtain ⟨m, hm, h⟩ := Option.bind_eq_some_iff.mp h
    dsimp only at h
    split at h
    · cases h
    · obtain ⟨rfl, -⟩ := Prod.mk.inj (Option.some.inj h)
      exact hsent (by rw [Turn.request, hop]; exact hm)
  case h_3 hop =>
    obtain ⟨rfl, -⟩ := Prod.mk.inj (Option.some.inj h)
    rw [if_neg (by rw [hop]; decide)]

/-- A run leaves the number of its last write in the message. -/
theorem processed_blk {turns : List Turn} : ∀ {p p' : Process}, processed p turns = some p' →
    p'.msg.word 72 = leftover (p.msg.word 72) turns := by
  induction turns with
  | nil =>
    intro p p' h
    rw [← Option.some.inj h]
    rfl
  | cons t turns ih =>
    intro p p' h
    obtain ⟨⟨q, t'⟩, hq, h⟩ := Option.bind_eq_some_iff.mp h
    rw [ih h, rdsprocess_blk hq]
    rfl

/-- A read or a write of a disk whose identifier is a string of its field has a message. -/
theorem Turn.request_of_string {t : Turn} {n : Nat} (hid : t.rdptr.rd_id.IsString n) (hn : n < RD_IDLEN)
    (hop : t.bptr.rd_op ≠ .RD_OP_SYNC) (msg : Buffer) : ∃ m, t.request msg = some m := by
  cases h : t.bptr.rd_op with
  | RD_OP_READ =>
    simp only [Turn.request, h, readRequest, Buffer.copyString_string hid hn]
    exact ⟨_, rfl⟩
  | RD_OP_WRITE =>
    simp only [Turn.request, h, writeRequest, Buffer.copyString_string hid hn]
    exact ⟨_, rfl⟩
  | RD_OP_SYNC => exact absurd h hop

/-- After any sequence of requests, the message for the next one carries it exactly when, for a read, the number that the last write
left in the message happens to be the network encoding of the block to read and, for a write, the two orders of the number of
the block agree. -/
theorem request_carries_iff (p p' : Process) (turns : List Turn) (t : Turn) (m : Buffer)
    (hrun : processed p turns = some p') (hm : t.request p'.msg = some m) :
    Carries t m ↔ (if t.bptr.rd_op = .RD_OP_WRITE then t.bptr.rd_blknum else leftover (p.msg.word 72) turns) =
      htonl t.bptr.rd_blknum := by
  obtain ⟨htype, hid, hblk, hdata, -⟩ := Turn.request_spec hm
  rw [processed_blk hrun] at hblk
  constructor
  · intro hc
    rw [← hblk]
    exact hc.block
  · intro hc
    exact ⟨htype, hid, hblk.trans hc, hdata⟩

/-- A request that `rdsprocess` finds on the sample device, and a server that answers it. -/
def sampleTurn (op : RdOp) (blknum : UInt32) (type : UInt8) : Turn :=
  ⟨⟨op, blknum, fun _ => 0⟩, sample, arriving [.datagram ⟨84, fun i => [0x01, type, 0, 0, 0, 0, 0, 5].getD i 0⟩]⟩

theorem request_carries_read :
    ∃ p' m, processed ⟨fun _ => 0, fun _ => 0⟩ [sampleTurn .RD_OP_WRITE 0x07000000 0x20] = some p' ∧
      (sampleTurn .RD_OP_READ 7 0x10).request p'.msg = some m ∧ Carries (sampleTurn .RD_OP_READ 7 0x10) m :=
  ⟨_, _, rfl, rfl, (request_carries_iff ⟨fun _ => 0, fun _ => 0⟩ _ [sampleTurn .RD_OP_WRITE 0x07000000 0x20] _ _ rfl rfl).mpr
    (by decide)⟩

/-- Behind a write of block 3 the message for a read of block 7 names block 3, with its bytes in the wrong order. -/
theorem request_names_other_block :
    ∃ p' m, processed ⟨fun _ => 0, fun _ => 0⟩ [sampleTurn .RD_OP_WRITE 3 0x20] = some p' ∧
      (sampleTurn .RD_OP_READ 7 0x10).request p'.msg = some m ∧ m.word 72 = 3 ∧ ¬Carries (sampleTurn .RD_OP_READ 7 0x10) m :=
  ⟨_, _, rfl, rfl, by decide, fun h => absurd h.block (by decide)⟩

/-! ## Opening -/

section Opening

variable {rdptr : Rdscblk} {dvnum : Nat} {diskid msg resp : Buffer} {net : Net}

/-- A device that is not free is not opened. -/
theorem rdsopen_busy (h : rdptr.rd_state ≠ .RD_FREE) : rdsopen rdptr dvnum diskid msg resp net = (SYSERR, rdptr, msg, net) :=
  if_pos h

/-- An identifier that is too long leaves its first bytes in the control block, and the device pending. -/
theorem rdsopen_long (h : rdptr.rd_state = .RD_FREE) (hid : ∀ i < RD_IDLEN, diskid i ≠ 0) :
    rdsopen rdptr dvnum diskid msg resp net =
      (SYSERR, { rdptr with rd_state := .RD_PEND, rd_id := rdptr.rd_id.copy 0 diskid RD_IDLEN }, msg, net) := by
  simp only [rdsopen, h, ne_eq, not_true_eq_false, if_false, Buffer.copyUpTo_long hid]

/-- An empty identifier leaves the device pending. -/
theorem rdsopen_empty (h : rdptr.rd_state = .RD_FREE) (hid : diskid.IsString 0) :
    rdsopen rdptr dvnum diskid msg resp net =
      (SYSERR, { rdptr with rd_state := .RD_PEND, rd_id := rdptr.rd_id.copy 0 diskid 1 }, msg, net) := by
  simp only [rdsopen, h, ne_eq, not_true_eq_false, if_false, Buffer.copyUpTo_string hid (show 0 < RD_IDLEN by decide)]

/-- The open request for an identifier of `n` bytes. -/
def openRequest (diskid : Buffer) (n : Nat) (msg : Buffer) : Buffer := (header RD_MSG_OREQ msg).copy 8 diskid (n + 1)

/-- The exchange of `rdsopen`. -/
def opening (rdptr : Rdscblk) (diskid : Buffer) (n : Nat) (msg resp : Buffer) (net : Net) : Outcome :=
  rdscomm (openRequest diskid n msg) HDR_LEN resp HDR_LEN
    { rdptr with rd_state := .RD_PEND, rd_id := rdptr.rd_id.copy 0 diskid (n + 1) } net

/-- A valid identifier is sent to the server. -/
theorem rdsopen_valid (h : rdptr.rd_state = .RD_FREE) {n : Nat} (hid : diskid.IsString n) (h0 : 0 < n) (hn : n < RD_IDLEN) :
    rdsopen rdptr dvnum diskid msg resp net = checkResponse dvnum (opening rdptr diskid n msg resp net) := by
  obtain ⟨k, rfl⟩ : ∃ k, n = k + 1 := ⟨n - 1, by omega⟩
  simp only [rdsopen, h, ne_eq, not_true_eq_false, if_false, Buffer.copyUpTo_string hid hn,
    Buffer.copyUpTo_string hid (show k + 1 < k + 2 by omega)]
  rfl

/-- The check of the response leaves the device free and returns `SYSERR`, or leaves it open and returns its number. -/
theorem checkResponse_cases (dvnum : Nat) (o : Outcome) :
    (checkResponse dvnum o = (SYSERR, { o.rdptr with rd_state := .RD_FREE }, o.msg, o.net) ∧
      ¬(o.exit = .ok ∧ ntohs (o.reply.half 2) = 0)) ∨
    checkResponse dvnum o = ((dvnum : Int), { o.rdptr with rd_state := .RD_OPEN }, o.msg, o.net) := by
  unfold checkResponse
  split
  · exact .inl ⟨rfl, fun h => by simp_all [Exit.retval, OK, SYSERR]⟩
  · split
    · exact .inl ⟨rfl, fun h => by simp_all [Exit.retval, OK, TIMEOUT]⟩
    · split
      · exact .inl ⟨rfl, fun h => absurd h.2 ‹_›⟩
      · exact .inr rfl

/-- An exchange whose first arrival answers the request with status 0. -/
theorem rdscomm_answered {mlen : Nat} {rlen : Int} {d : Datagram} (ha : Answers msg rlen rdptr.rd_seq d)
    (hr : isResponse d.net_udpdata msg = true) (hz : ntohs (d.net_udpdata.half 2) = 0) (reply : Buffer) :
    let o := rdscomm msg mlen reply rlen rdptr (arriving [.datagram d])
    o.exit = .ok ∧ ntohs (o.reply.half 2) = 0 := by
  intro o
  have hw := ha.whole
  obtain ⟨hexit, hreply, -⟩ : o.exit = _ ∧ o.reply = _ ∧ o.net = _ :=
    rdscomm_converse (by simp [arriving, SYSERR]) (by simp [arriving]) reply
  obtain ⟨hend, hleft⟩ := @converse_first ((msg.setWord 4 (htonl rdptr.rd_seq)).bytes 0 mlen) _ _ _ _
    (ha.decides hr reply []) (arriving [.datagram d]) rfl rfl 2
  rw [show RD_RETRIES = 2 + 1 from rfl] at hexit hreply
  have hstatus : ntohs ((left reply rlen [.datagram d]).half 2) = 0 := by
    rw [← List.nil_append [Arrival.datagram d], left_half (by omega), hz]
  rw [hleft] at hreply
  rw [hend, hleft, Exit.ofEnd, if_neg (not_not.mpr hstatus)] at hexit
  exact ⟨hexit, hreply ▸ hstatus⟩

/-- A free device can be opened with any valid identifier. -/
theorem rdsopen_succeeds (h : rdptr.rd_state = .RD_FREE) {n : Nat} (hid : diskid.IsString n) (h0 : 0 < n) (hn : n < RD_IDLEN)
    (dvnum : Nat) (msg resp : Buffer) : ∃ net, (rdsopen rdptr dvnum diskid msg resp net).1 = dvnum := by
  obtain ⟨d, hd⟩ : ∃ d : Datagram,
    d = ⟨80, ((Buffer.setHalf (fun _ => 0) 0 (htons 0x0130)).setWord 4 (htonl rdptr.rd_seq))⟩ := ⟨_, rfl⟩
  have hlen : d.msglen HDR_LEN = 72 := by rw [hd]; rfl
  have hhalf : d.net_udpdata.half 0 = htons 0x0130 := by
    rw [hd]
    exact (Buffer.half_copy_off (by omega)).trans (Buffer.half_setHalf 0 _)
  have hstatus : d.net_udpdata.half 2 = 0 := by
    rw [hd]
    exact (Buffer.half_copy_off (by omega)).trans (Buffer.half_copy_off (by omega))
  have hword : d.net_udpdata.word 4 = htonl rdptr.rd_seq := by rw [hd]; exact Buffer.word_setWord 4 _
  refine ⟨arriving [.datagram d], ?_⟩
  rw [rdsopen_valid h hid h0 hn]
  obtain ⟨o, ho⟩ : ∃ o, opening rdptr diskid n msg resp (arriving [.datagram d]) = o := ⟨_, rfl⟩
  rw [ho]
  rcases checkResponse_cases dvnum o with ⟨-, hbad⟩ | hgood
  · have htype : (openRequest diskid n msg).half 0 = htons RD_MSG_OREQ :=
      (Buffer.half_copy_off (by omega)).trans (header_spec _ _ _).1
    have hresp : isResponse d.net_udpdata (openRequest diskid n msg) = true := by
      rw [isResponse, hhalf, htype]
      decide
    have hans : Answers (openRequest diskid n msg) HDR_LEN rdptr.rd_seq d :=
      ⟨by omega, by rw [hword, ntohl_htonl], type_of_isResponse hresp⟩
    have hend := @rdscomm_answered { rdptr with rd_state := .RD_PEND, rd_id := rdptr.rd_id.copy 0 diskid (n + 1) }
      (openRequest diskid n msg) HDR_LEN HDR_LEN d hans hresp (by rw [hstatus]; decide) resp
    exact absurd (ho ▸ hend) hbad
  · rw [hgood]

/-- A failed `rdsopen` leaves the device closed, so that it can be opened later; and the identifier is stored in its fields of the
control block and of the message only. -/
structure FailsClosed (rdptr : Rdscblk) (dvnum : Nat) (msg : Buffer) (o : Int × Rdscblk × Buffer × Net) : Prop where
  closed : rdptr.rd_state = .RD_FREE → o.1 = SYSERR → o.2.1.rd_state = .RD_FREE
  reopens : rdptr.rd_state = .RD_FREE → o.1 = SYSERR → ∀ (diskid msg resp : Buffer) (n : Nat), diskid.IsString n → 0 < n →
    n < RD_IDLEN → ∃ net, (rdsopen o.2.1 dvnum diskid msg resp net).1 = dvnum
  block : ∀ i, RD_IDLEN ≤ i → o.2.1.rd_id i = rdptr.rd_id i
  message : ∀ i, HDR_LEN ≤ i → o.2.2.1 i = msg i
  header : o.2.2.1 = msg ∨ o.2.2.1.half 0 = htons RD_MSG_OREQ ∧ o.2.2.1.half 2 = htons 0

/-- The exchange of `rdsopen` leaves the memory behind the identifiers and the other fields of the message. -/
theorem opening_frame (rdptr : Rdscblk) (diskid msg resp : Buffer) (net : Net) {n : Nat} (hn : n < RD_IDLEN) :
    let o := opening rdptr diskid n msg resp net
    (∀ i, RD_IDLEN ≤ i → o.rdptr.rd_id i = rdptr.rd_id i) ∧ (∀ i, HDR_LEN ≤ i → o.msg i = msg i) ∧
      o.msg.half 0 = htons RD_MSG_OREQ ∧ o.msg.half 2 = htons 0 := by
  intro o
  have hlen : n < 64 := hn
  have hbyte : ∀ i, i < 4 ∨ 8 ≤ i → o.msg i = openRequest diskid n msg i := fun i hi => rdscomm_msg _ _ _ _ _ _ hi
  obtain ⟨htype, hstatus, -, hoff⟩ := header_spec RD_MSG_OREQ RD_IDLEN msg
  refine ⟨fun i hi => ?_, fun i hi => ?_, ?_, ?_⟩
  · have hi' : 64 ≤ i := hi
    have hid : o.rdptr.rd_id = rdptr.rd_id.copy 0 diskid (n + 1) := (rdscomm_frame _ _ _ _ _ _).2.1
    rw [hid]
    exact Buffer.copy_off (by omega)
  · have hi' : 72 ≤ i := hi
    rw [hbyte i (by omega), openRequest, Buffer.copy_off (by omega)]
    exact hoff i hi
  · rw [← htype, Buffer.half_congr fun i _ hi => hbyte i (by omega)]
    exact Buffer.half_copy_off (by omega)
  · rw [← hstatus, Buffer.half_congr fun i _ hi => hbyte i (by omega)]
    exact Buffer.half_copy_off (by omega)

/-- A failed `rdsopen` leaves the device closed exactly when the device was not free or the identifier is neither empty nor too
long: the returns behind the checks of the identifier leave it pending. -/
theorem rdsopen_fails_closed_iff (rdptr : Rdscblk) (dvnum : Nat) (diskid msg resp : Buffer) (net : Net) :
    FailsClosed rdptr dvnum msg (rdsopen rdptr dvnum diskid msg resp net) ↔
      rdptr.rd_state ≠ .RD_FREE ∨ ∃ n, 0 < n ∧ n < RD_IDLEN ∧ diskid.IsString n := by
  by_cases hfree : rdptr.rd_state = .RD_FREE
  · constructor
    · intro hc
      rcases Buffer.isString_or diskid RD_IDLEN with ⟨n, hn, hid⟩ | hlong
      · rcases Nat.eq_zero_or_pos n with rfl | h0
        · have := hc.closed hfree (by rw [rdsopen_empty hfree hid])
          rw [rdsopen_empty hfree hid] at this
          cases this
        · exact .inr ⟨n, h0, hn, hid⟩
      · have := hc.closed hfree (by rw [rdsopen_long hfree hlong])
        rw [rdsopen_long hfree hlong] at this
        cases this
    · rintro (hbusy | ⟨n, h0, hn, hid⟩)
      · exact absurd hfree hbusy
      · rw [rdsopen_valid hfree hid h0 hn]
        obtain ⟨hblock, hmsg, htype, hstatus⟩ := opening_frame rdptr diskid msg resp net hn
        rcases checkResponse_cases dvnum (opening rdptr diskid n msg resp net) with ⟨ho, -⟩ | ho
        · rw [ho]
          exact ⟨fun _ _ => rfl, fun _ _ diskid msg resp k hk hk0 hkn => rdsopen_succeeds rfl hk hk0 hkn dvnum msg resp, hblock,
            hmsg, .inr ⟨htype, hstatus⟩⟩
        · rw [ho]
          have hdev : (dvnum : Int) ≠ SYSERR := by unfold SYSERR; omega
          exact ⟨fun _ h => absurd h hdev, fun _ h => absurd h hdev, hblock, hmsg, .inr ⟨htype, hstatus⟩⟩
  · constructor
    · exact fun _ => .inl hfree
    · intro _
      rw [rdsopen_busy hfree]
      exact ⟨fun h => absurd h hfree, fun h => absurd h hfree, fun _ _ => rfl, fun _ _ => rfl, .inl rfl⟩

/-- Behind the refusal of an empty identifier the device stays pending, and every later `rdsopen` fails. -/
theorem rdsopen_empty_stays_pending :
    let o := rdsopen { sample with rd_state := .RD_FREE } 3 (fun _ => 0) (fun _ => 0) (fun _ => 0) (arriving [])
    o.1 = SYSERR ∧ o.2.1.rd_state = .RD_PEND ∧
      ¬FailsClosed { sample with rd_state := .RD_FREE } 3 (fun _ => 0) o := by
  refine ⟨rfl, rfl, fun h => ?_⟩
  exact absurd (h.closed rfl rfl) (by decide)

/-- The identifier of a device that was opened is a string of its field, so that every request has a message. -/
theorem rdsopen_identifies (h : (rdsopen rdptr dvnum diskid msg resp net).1 ≠ SYSERR) :
    ∃ n < RD_IDLEN, (rdsopen rdptr dvnum diskid msg resp net).2.1.rd_id.IsString n := by
  by_cases hfree : rdptr.rd_state = .RD_FREE
  · rcases Buffer.isString_or diskid RD_IDLEN with ⟨n, hn, hid⟩ | hlong
    · rcases Nat.eq_zero_or_pos n with rfl | h0
      · exact absurd (by rw [rdsopen_empty hfree hid]) h
      · rw [rdsopen_valid hfree hid h0 hn] at h ⊢
        have hcopy : (opening rdptr diskid n msg resp net).rdptr.rd_id = rdptr.rd_id.copy 0 diskid (n + 1) :=
          (rdscomm_frame _ _ _ _ _ _).2.1
        refine ⟨n, hn, ?_⟩
        rcases checkResponse_cases dvnum (opening rdptr diskid n msg resp net) with ⟨ho, -⟩ | ho
        · exact absurd (by rw [ho]) h
        · rw [ho]
          change (opening rdptr diskid n msg resp net).rdptr.rd_id.IsString n
          rw [hcopy]
          refine ⟨(Buffer.copy_start (Nat.lt_succ_self n)).trans hid.1, fun i hi => ?_⟩
          rw [Buffer.copy_start (Nat.lt_succ_of_lt hi)]
          exact hid.2 i hi
    · exact absurd (by rw [rdsopen_long hfree hlong]) h
  · exact absurd (by rw [rdsopen_busy hfree]) h

end Opening

end Rds

end Xinu
