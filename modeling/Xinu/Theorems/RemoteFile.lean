import Xinu.Device.Rfs

/-!
# Exchanges of the remote file system

What `rfscomm` accepts as the reply to its request, what `rflread` stores in the caller's buffer, and which file the requests of
`rflread` and `rflwrite` name, whatever the history of their control block.
-/

namespace Xinu

namespace Rfs

open Remote

/-! ## Replies -/

section Replies

variable {msg : Buffer} {mlen : Nat} {rlen : Int} {seq : UInt32}

/-- The law of matching: a length that `rfscomm` returns is that of one datagram of this call, as far as it fits into the buffer.
It has a whole header, it carries the number and the response type of the request, and all its bytes are in the reply buffer. -/
def Matched (msg : Buffer) (rlen : Int) (seq : UInt32) (o : Outcome) (heard : List Arrival) : Prop :=
  0 ≤ o.retval → ∃ d, .datagram d ∈ heard ∧ d.msglen rlen = o.retval ∧ HDR_LEN ≤ o.retval ∧
    ntohl (d.net_udpdata.word 4) = seq ∧ ntohs (d.net_udpdata.half 0) = ntohs (msg.half 0) ||| MSG_RESPONSE ∧
    ∀ i : Nat, i < o.retval → o.reply i = d.net_udpdata i

/-- A reply is accepted when it shows the number and the response type. -/
theorem judge_accept {reply : Buffer} :
    judge msg seq reply = .accept ↔ ntohl (reply.word 4) = seq ∧ isResponse reply msg = true := by
  unfold judge
  by_cases hn : ntohl (reply.word 4) = seq
  · rw [if_neg (not_not.mpr hn)]
    cases isResponse reply msg <;> simp [hn]
  · simp [hn]

/-- A reply is judged for a message with its number as for the message without it. -/
theorem judge_setWord (w : UInt32) : judge (msg.setWord 4 w) seq = judge msg seq := by
  have h : (msg.setWord 4 w).half 0 = msg.half 0 := Buffer.half_copy_off (by omega)
  funext reply
  rw [judge, isResponse, h, judge, isResponse]

/-- What `rfscomm` can do: it fails before the exchange, or it exchanges the message with the next number. -/
theorem rfscomm_cases (reply : Buffer) (data : Rfdata) (net : Net) :
    let o := rfscomm msg mlen reply rlen data net
    let x := converse ((msg.setWord 4 (htonl data.rf_seq)).bytes 0 mlen) rlen (judge msg data.rf_seq) RF_RETRIES true reply net
    (o.retval = SYSERR ∧ o.net = net) ∨ (o.retval = retvalOf x.1 ∧ o.reply = x.2.1 ∧ o.net = x.2.2) := by
  intro o x
  by_cases hslot : !data.rf_registered ∧ net.slot = SYSERR
  · have ho : o = ⟨SYSERR, msg, reply, data, net⟩ := if_pos hslot
    exact .inl ⟨by rw [ho], by rw [ho]⟩
  · right
    simp only [o, x, rfscomm, if_neg hslot]
    cases data.rf_registered <;> simp only [if_true, if_false, Bool.false_eq_true, judge_setWord, and_self]

/-- The loop returns a length only for a reply that it accepts. -/
theorem accepted_of_retval {e : End} (h : 0 ≤ retvalOf e) : ∃ retval, e = .accepted retval := by
  cases e with
  | accepted retval => exact ⟨retval, rfl⟩
  | _ => exact absurd h (by decide)

/-- The replies are matched to the requests exactly when the last datagram of the call, if the reply buffer behind it shows the
number and the response type of the request, has a whole header or less than no bytes. -/
theorem rfscomm_matches_iff (msg : Buffer) (mlen : Nat) (reply : Buffer) (rlen : Int) (data : Rfdata) (net : Net)
    (heard : List Arrival) (h : net.recv = heard ++ (rfscomm msg mlen reply rlen data net).net.recv) :
    Matched msg rlen data.rf_seq (rfscomm msg mlen reply rlen data net) heard ↔
      ∀ before d, heard = before ++ [.datagram d] → Decides rlen (judge msg data.rf_seq) reply before d →
        d.msglen rlen < 0 ∨ HDR_LEN ≤ d.msglen rlen := by
  rcases @rfscomm_cases msg mlen rlen reply data net with ⟨hret, hnet⟩ | ⟨hret, hreply, hnet⟩
  · rw [hnet] at h
    have hnil : heard = [] := List.self_eq_append_left.mp h
    constructor
    · intro _ before d hd
      simp [hnil] at hd
    · intro _ hpos
      rw [hret] at hpos
      exact absurd hpos (by decide)
  · rw [hnet] at h
    rcases converse_spec RF_RETRIES true reply net heard h with ⟨before, d, rfl, hd, hleft, hend, -⟩ | ⟨hend, hno⟩
    · rw [hend] at hret
      rw [hleft] at hreply
      have hlen : (rfscomm msg mlen reply rlen data net).retval = d.msglen rlen := hret
      constructor
      · intro hm before' d' hheard _
        obtain ⟨-, hlast⟩ := List.append_inj' hheard rfl
        obtain rfl : d = d' := by simpa using hlast
        rcases lt_or_ge (d.msglen rlen) 0 with hneg | hpos
        · exact .inl hneg
        · obtain ⟨e, -, -, hwhole, -⟩ := hm (hlen ▸ hpos)
          exact .inr (hlen ▸ hwhole)
      · intro hc hpos
        rw [hlen] at hpos ⊢
        have hwhole : (136 : Int) ≤ d.msglen rlen := (hc before d rfl hd).resolve_left (by omega)
        obtain ⟨hnum, hresp⟩ := judge_accept.mp hd.accept
        rw [left_word (by omega)] at hnum
        have htype := type_of_isResponse hresp
        rw [left_half (by omega)] at htype
        refine ⟨d, by simp, rfl, hwhole, hnum, htype, fun i hi => ?_⟩
        rw [hreply]
        exact left_byte hi
    · constructor
      · exact fun _ before d hheard hd => absurd hd (hno before d hheard)
      · intro _ hpos
        rw [hret] at hpos
        obtain ⟨retval, he⟩ := accepted_of_retval hpos
        exact absurd he (hend retval)

/-- The data of the remote file system after `rfsinit`, with a registered slot and 5 as the next number. -/
def sampleData : Rfdata := ⟨5, 0, true⟩

/-- A network with some arrivals, on which every send succeeds. -/
def arriving (recv : List Arrival) : Net := ⟨0, true, true, [], recv, []⟩

/-- The response to a read request with number 5, of some bytes. -/
def readReply (udplen : UInt16) : Datagram := ⟨udplen, fun i => [0x01, 0x01, 0, 0, 0, 0, 0, 5].getD i 0⟩

theorem rfscomm_matches_reply :
    Matched (header RF_MSG_RREQ fun _ => 0) DATA_LEN 5
      (rfscomm (header RF_MSG_RREQ fun _ => 0) POS_LEN (fun _ => 0) DATA_LEN sampleData (arriving [.datagram (readReply 1176)]))
      [.datagram (readReply 1176)] := by
  refine (rfscomm_matches_iff _ POS_LEN (fun _ => 0) DATA_LEN sampleData _ [.datagram (readReply 1176)] rfl).mpr ?_
  intro before d hheard _
  obtain ⟨-, hd⟩ := List.append_inj' ((List.nil_append _).trans hheard) rfl
  obtain rfl : readReply 1176 = d := by simpa using hd
  decide

/-- A datagram of eight bytes is taken for the reply, and the caller reads the rest of the header from what was in the buffer. -/
theorem rfscomm_accepts_short :
    let o := rfscomm (header RF_MSG_RREQ fun _ => 0) POS_LEN (fun _ => 7) DATA_LEN sampleData
      (arriving [.datagram (readReply 16)])
    (arriving [.datagram (readReply 16)]).recv = [.datagram (readReply 16)] ++ o.net.recv ∧ o.retval = 8 ∧ o.reply 140 = 7 ∧
      ¬Matched (header RF_MSG_RREQ fun _ => 0) DATA_LEN 5 o [.datagram (readReply 16)] := by
  refine ⟨rfl, rfl, rfl, fun h => ?_⟩
  obtain ⟨d, -, -, hwhole, -⟩ := h (by decide)
  exact absurd hwhole (by decide)

end Replies

/-! ## Reading -/

section Reading

variable {s : Files} {minor : Nat} {buff : Buffer} {count : Int} {msg resp : Buffer} {net : Net}

/-- The exchange of `rflread`, if its checks let it come to that. -/
def readExchange (s : Files) (minor : Nat) (count : Int) (msg resp : Buffer) (net : Net) : Option Outcome :=
  if count ≤ 0 ∨ RF_DATALEN < count ∨ (s.rfltab minor).rfstate = .RF_FREE ∨ (s.rfltab minor).rfmode &&& RF_MODE_R = 0 then none
  else
    match readRequest (s.rfltab minor) count msg with
    | .request msg => some (rfscomm msg POS_LEN resp DATA_LEN s.data net)
    | _ => none

/-- What `rflread` can do: it fails before the exchange or behind it and leaves the control block, or it copies as many bytes as the
response says. -/
theorem rflread_cases (s : Files) (minor : Nat) (buff : Buffer) (count : Int) (msg resp : Buffer) (net : Net) :
    (readExchange s minor count msg resp net = none ∧ rflread s minor buff count msg resp net = (SYSERR, s, buff, net)) ∨
    ∃ o, readExchange s minor count msg resp net = some o ∧ 0 < count ∧ count ≤ RF_DATALEN ∧
      (o.failed = true ∧ rflread s minor buff count msg resp net = (SYSERR, { s with data := o.data }, buff, o.net) ∨
      o.failed = false ∧ rflread s minor buff count msg resp net =
        (devcall (ntohl (o.reply.word 140)),
          { s.setSlot minor { s.rfltab minor with rfpos := (s.rfltab minor).rfpos + ntohl (o.reply.word 140) } with
            data := o.data },
          buff.copy 0 (fun i => o.reply (144 + i)) (ntohl (o.reply.word 140)).toNat, o.net)) := by
  unfold readExchange rflread
  by_cases hcount : count ≤ 0 ∨ RF_DATALEN < count
  · exact .inl ⟨if_pos (by tauto), if_pos hcount⟩
  by_cases hfree : (s.rfltab minor).rfstate = .RF_FREE
  · exact .inl ⟨if_pos (by tauto), by rw [if_neg hcount, if_pos hfree]⟩
  by_cases hmode : (s.rfltab minor).rfmode &&& RF_MODE_R = 0
  · exact .inl ⟨if_pos (by tauto), by rw [if_neg hcount, if_neg hfree, if_pos hmode]⟩
  rw [if_neg (by tauto), if_neg hcount, if_neg hfree, if_neg hmode]
  cases readRequest (s.rfltab minor) count msg with
  | request m =>
    right
    refine ⟨_, rfl, by omega, by omega, ?_⟩
    cases hfail : (rfscomm m POS_LEN resp DATA_LEN s.data net).failed with
    | true => exact .inl ⟨rfl, by simp [hfail]⟩
    | false => exact .inr ⟨rfl, by simp [hfail]⟩
  | tooLong => exact .inl ⟨rfl, rfl⟩
  | runaway => exact .inl ⟨rfl, rfl⟩

/-- `rflread` respects the buffer of its caller: it fails and leaves the position, or it returns a number of bytes that is at most
`count` and at most the size of the data area, has stored as many bytes of the response and no others, and has advanced the
position by that number. -/
def Respects (s : Files) (minor : Nat) (buff : Buffer) (count : Int) (o : Option Outcome)
    (r : Int × Files × Buffer × Net) : Prop :=
  (r.1 = SYSERR ∧ (r.2.1.rfltab minor).rfpos = (s.rfltab minor).rfpos) ∨
  ∃ (n : Nat) (x : Outcome), r.1 = n ∧ (n : Int) ≤ count ∧ n ≤ RF_DATALEN ∧ o = some x ∧
    (∀ i < n, r.2.2.1 i = x.reply (144 + i)) ∧ (∀ i, n ≤ i → r.2.2.1 i = buff i) ∧
    (r.2.1.rfltab minor).rfpos = (s.rfltab minor).rfpos + UInt32.ofNat n

/-- `rflread` respects the buffer of its caller exactly when no response that it accepts has a length field above `count`. -/
theorem rflread_respects_iff (s : Files) (minor : Nat) (buff : Buffer) (count : Int) (msg resp : Buffer) (net : Net) :
    Respects s minor buff count (readExchange s minor count msg resp net) (rflread s minor buff count msg resp net) ↔
      ∀ o, readExchange s minor count msg resp net = some o → o.failed = false →
        ((ntohl (o.reply.word 140)).toNat : Int) ≤ count := by
  rcases rflread_cases s minor buff count msg resp net with ⟨hx, hr⟩ | ⟨o, hx, hpos, hmax, hr⟩
  · rw [hx, hr]
    exact ⟨fun _ o ho => by simp at ho, fun _ => .inl ⟨rfl, rfl⟩⟩
  · rw [hx]
    rcases hr with ⟨hfail, hr⟩ | ⟨hfail, hr⟩
    · rw [hr]
      constructor
      · intro _ o' ho' hf
        rw [← Option.some.inj ho', hfail] at hf
        exact absurd hf (by decide)
      · exact fun _ => .inl ⟨rfl, rfl⟩
    · obtain ⟨len, hlen⟩ : ∃ len, len = ntohl (o.reply.word 140) := ⟨_, rfl⟩
      rw [← hlen] at hr
      have hsize : len.toNat < 4294967296 := len.toNat_lt
      have hdata : RF_DATALEN = 1024 := rfl
      constructor
      · intro h o' ho' _
        rw [← Option.some.inj ho', ← hlen]
        rcases h with ⟨-, hsame⟩ | ⟨n, x, hret, hn, -⟩
        · -- the position is the same only if the length is zero
          rw [hr] at hsame
          have hzero : len = 0 := by simpa [Files.setSlot] using hsame
          rw [hzero]
          exact Int.le_of_lt hpos
        · rw [hr] at hret
          have hdev : devcall len = n := hret
          unfold devcall at hdev
          split at hdev <;> omega
      · intro h
        have hle : (len.toNat : Int) ≤ count := by
          rw [hlen]
          exact h o rfl hfail
        right
        rw [hr]
        refine ⟨len.toNat, o, ?_, hle, by omega, rfl, fun i hi => ?_, fun i hi => ?_, ?_⟩
        · rw [devcall, if_pos (by omega)]
        · change buff.copy 0 (fun i => o.reply (144 + i)) len.toNat i = o.reply (144 + i)
          exact Buffer.copy_start hi
        · change buff.copy 0 (fun i => o.reply (144 + i)) len.toNat i = buff i
          exact Buffer.copy_off (by omega)
        · simp [Files.setSlot]

/-- A table whose first control block is open for reading. -/
def sampleFiles : Files :=
  { data := sampleData
    rfltab := fun i => if i = 0 then ⟨.RF_USED, 20, fun i => [97].getD i 0, 0, 1⟩ else ⟨.RF_FREE, 20 + i, fun _ => 0, 0, 0⟩
    opened := fun _ i => [97].getD i 0 }

/-- A whole response to a read request with number 5 and status 0, with a length of 1024. -/
def longReply : Datagram := ⟨1176, (Buffer.setHalf (fun _ => 0) 0 0x0101).setWord 4 (htonl 5) |>.setWord 140 (htonl 1024)⟩

/-- For a caller with a buffer of one byte, 1024 bytes are stored. -/
theorem rflread_overruns :
    let r := rflread sampleFiles 0 (fun _ => 7) 1 (fun _ => 0) (fun _ => 0) (arriving [.datagram longReply])
    r.1 = 1024 ∧ r.2.2.1 1023 = 0 ∧
      ¬Respects sampleFiles 0 (fun _ => 7) 1
        (readExchange sampleFiles 0 1 (fun _ => 0) (fun _ => 0) (arriving [.datagram longReply])) r := by
  refine ⟨by decide, by decide, ?_⟩
  rintro (⟨h, -⟩ | ⟨n, x, h, hn, -⟩)
  · exact absurd h (by decide)
  · rw [show (rflread sampleFiles 0 (fun _ => 7) 1 (fun _ => 0) (fun _ => 0) (arriving [.datagram longReply])).1 = 1024 by decide]
      at h
    omega

end Reading

/-! ## Names -/

section Names

variable {s : Files} {minor : Nat} {rfptr : Rflcblk} {n : Nat}

/-- The name of an open control block is a string of its field, and the mode has bits in its first byte only. -/
structure Rflcblk.Named (rfptr : Rflcblk) (n : Nat) : Prop where
  pos : 0 < n
  lt : n < RF_NAMLEN
  string : rfptr.rfname.IsString n
  mode : rfptr.rfmode.toNat < 256

/-- Inside its field the name is read from the memory of the control block. -/
theorem Rflcblk.memory_name {i : Nat} (h : i < RF_NAMLEN) : rfptr.memory i = rfptr.rfname i := by
  have hi : i < 128 := h
  rw [Rflcblk.memory, Buffer.setWord, Buffer.copy_off (by omega), Buffer.setWord, Buffer.copy_off (by omega)]

/-- The name as a string in the memory of the control block. -/
theorem Rflcblk.Named.memory (h : rfptr.Named n) : rfptr.memory.IsString n := by
  refine ⟨(Rflcblk.memory_name h.lt).trans h.string.1, fun i hi => ?_⟩
  rw [Rflcblk.memory_name (Nat.lt_trans hi h.lt)]
  exact h.string.2 i hi

/-- The second byte of the mode is zero, so that a copy that goes on behind the name ends there at the latest. -/
theorem Rflcblk.Named.memory_mode (h : rfptr.Named n) : rfptr.memory 133 = 0 := by
  have hbyte := @Buffer.copy_at (rfptr.rfname.setWord 128 rfptr.rfpos) 132 (Bytes.byteOf rfptr.rfmode) 4 1 (by omega)
  change rfptr.memory 133 = _ at hbyte
  rw [hbyte, Bytes.byteOf, show rfptr.rfmode.toNat / 256 ^ 1 = 0 from Nat.div_eq_of_lt (by simpa using h.mode)]
  rfl

/-- A request of `rflread` or `rflwrite` names its file: it carries the name that the control block holds, padded with zero
bytes, which is what the open request carried; and the copy of the name has left the other fields of the header, the position
and the length. -/
structure Names (s : Files) (minor : Nat) (type : UInt16) (count : Int) (m : Buffer) : Prop where
  name : ∃ n, (s.rfltab minor).rfname.IsString n ∧ ∀ j < RF_NAMLEN, m (8 + j) = if j < n then (s.rfltab minor).rfname j else 0
  opened : ∀ j < RF_NAMLEN, m (8 + j) = s.opened minor j
  type : m.half 0 = htons type
  status : m.half 2 = htons 0
  pos : m.word 136 = htonl (s.rfltab minor).rfpos
  len : m.word 140 = htonl (UInt32.ofNat count.toNat)

/-- The read request of a named control block. -/
theorem readRequest_spec (h : rfptr.Named n) (count : Int) (msg : Buffer) :
    ∃ m, readRequest rfptr count msg = .request m ∧ (∀ j < RF_NAMLEN, m (8 + j) = if j < n then rfptr.rfname j else 0) ∧
      m.half 0 = htons RF_MSG_RREQ ∧ m.half 2 = htons 0 ∧ m.word 136 = htonl rfptr.rfpos ∧
      m.word 140 = htonl (UInt32.ofNat count.toNat) ∧ ∀ j, POS_LEN ≤ j → m j = msg j := by
  obtain ⟨htype, hstatus, hname, hoff⟩ := header_copy RF_MSG_RREQ msg h.lt h.memory
  have hlt : n < 128 := h.lt
  refine ⟨_, by rw [readRequest, Buffer.copyUpTo_string h.memory h.lt], fun j hj => ?_, ?_, ?_, ?_, ?_, fun j hj => ?_⟩
  · have hj' : j < 128 := hj
    rw [Buffer.setWord, Buffer.copy_off (by omega), Buffer.setWord, Buffer.copy_off (by omega)]
    refine (hname j hj).trans ?_
    rw [Rflcblk.memory_name hj]
  · rw [Buffer.setWord, Buffer.half_copy_off (by omega), Buffer.setWord, Buffer.half_copy_off (by omega)]
    exact htype
  · rw [Buffer.setWord, Buffer.half_copy_off (by omega), Buffer.setWord, Buffer.half_copy_off (by omega)]
    exact hstatus
  · rw [Buffer.setWord, Buffer.word_copy_off (by omega), Buffer.word_setWord]
  · rw [Buffer.word_setWord]
  · have hj' : 144 ≤ j := hj
    rw [Buffer.setWord, Buffer.copy_off (by omega), Buffer.setWord, Buffer.copy_off (by omega)]
    exact hoff j (by unfold RF_NAMLEN; omega)

/-- Behind the name comes another string of the control block, maybe an empty one. -/
theorem Rflcblk.Named.tail (h : rfptr.Named n) :
    ∃ k, n + 1 ≤ k ∧ k ≤ 133 ∧ rfptr.memory k = 0 ∧ ∀ i, n + 1 ≤ i → i < k → rfptr.memory i ≠ 0 := by
  have hlt : n < 128 := h.lt
  rcases Buffer.isString_or (fun i => rfptr.memory (n + 1 + i)) (133 - n) with ⟨k, hk, hs⟩ | hnone
  · refine ⟨n + 1 + k, by omega, by omega, hs.1, fun i hi hik => ?_⟩
    have hne : rfptr.memory (n + 1 + (i - (n + 1))) ≠ 0 := hs.2 (i - (n + 1)) (by omega)
    rwa [show n + 1 + (i - (n + 1)) = i by omega] at hne
  · have hne : rfptr.memory (n + 1 + (132 - n)) ≠ 0 := hnone (132 - n) (by omega)
    rw [show n + 1 + (132 - n) = 133 by omega] at hne
    exact absurd h.memory_mode hne

/-- The two copies of `rflwrite`: from the byte behind the terminator on, the name field holds the string that comes next in the
control block; the copy ends before the data. -/
theorem writeName_spec (h : rfptr.Named n) (msg : Buffer) :
    ∃ a k, Buffer.copyString rfptr.memory 8 (BLOCK_LEN - (n + 1)) (n + 1)
        ((Remote.header RF_MSG_WREQ RF_NAMLEN msg).copy 8 rfptr.memory (n + 1)) = some a ∧
      n + 1 ≤ k ∧ rfptr.memory k = 0 ∧ (∀ i, n + 1 ≤ i → i < k → rfptr.memory i ≠ 0) ∧
      (∀ j < RF_NAMLEN, a (8 + j) = if n + 1 ≤ j ∧ j ≤ k then rfptr.rfname j else if j < n then rfptr.rfname j else 0) ∧
      a.half 0 = htons RF_MSG_WREQ ∧ a.half 2 = htons 0 ∧ ∀ j, POS_LEN ≤ j → a j = msg j := by
  obtain ⟨htype, hstatus, hname, hoff⟩ := header_copy RF_MSG_WREQ msg h.lt h.memory
  obtain ⟨k, hnk, hk, h0, htail⟩ := h.tail
  obtain ⟨b, hb⟩ : ∃ b, b = (Remote.header RF_MSG_WREQ RF_NAMLEN msg).copy 8 rfptr.memory (n + 1) := ⟨_, rfl⟩
  rw [← hb] at htype hstatus ⊢
  have hlt : n < 128 := h.lt
  have hcopy := @Buffer.copyString_from rfptr.memory 8 k h0 (BLOCK_LEN - (n + 1)) (n + 1) b htail hnk
    (by unfold BLOCK_LEN; omega)
  refine ⟨_, k, hcopy, hnk, h0, htail, fun j hj => ?_, ?_, ?_, fun j hj => ?_⟩
  · by_cases hin : n + 1 ≤ j ∧ j ≤ k
    · rw [if_pos (by omega), if_pos hin, Nat.add_sub_cancel_left]
      exact Rflcblk.memory_name hj
    · rw [if_neg (by omega), if_neg hin, hb, hname j hj, Rflcblk.memory_name hj]
  · rw [← htype]
    exact Buffer.half_congr fun i _ hi => if_neg (by omega)
  · rw [← hstatus]
    exact Buffer.half_congr fun i _ hi => if_neg (by omega)
  · have hj' : 144 ≤ j := hj
    rw [if_neg (by omega), hb]
    exact hoff j (by unfold RF_NAMLEN; omega)

/-- The write request of a named control block. -/
theorem writeRequest_spec (h : rfptr.Named n) (buff : Buffer) {count : Int} (hpos : 0 < count) (hmax : count ≤ RF_DATALEN)
    (msg : Buffer) :
    ∃ m k, writeRequest rfptr buff count msg = .request m ∧
      n + 1 ≤ k ∧ rfptr.memory k = 0 ∧ (∀ i, n + 1 ≤ i → i < k → rfptr.memory i ≠ 0) ∧
      (∀ j < RF_NAMLEN, m (8 + j) = if n + 1 ≤ j ∧ j ≤ k then rfptr.rfname j else if j < n then rfptr.rfname j else 0) ∧
      m.half 0 = htons RF_MSG_WREQ ∧ m.half 2 = htons 0 ∧ m.word 136 = htonl rfptr.rfpos ∧
      m.word 140 = htonl (UInt32.ofNat count.toNat) ∧ (∀ j < RF_DATALEN, m (144 + j) = if (j : Int) < count then buff j else 0) ∧
      ∀ j, DATA_LEN ≤ j → m j = msg j := by
  obtain ⟨a, k, hcopy, hnk, h0, htail, hname, htype, hstatus, hoff⟩ := writeName_spec h msg
  have hdata : RF_DATALEN = 1024 := rfl
  obtain ⟨c, hc⟩ : ∃ c, c = count.toNat := ⟨_, rfl⟩
  obtain ⟨b, hb⟩ : ∃ b : Buffer, b = (a.setWord 136 (htonl rfptr.rfpos)).setWord 140 (htonl (UInt32.ofNat c)) := ⟨_, rfl⟩
  have hbout : ∀ i, i < 136 ∨ 144 ≤ i → b i = a i := by
    intro i hi
    rw [hb, Buffer.setWord, Buffer.copy_off (by omega), Buffer.setWord, Buffer.copy_off (by omega)]
  obtain ⟨m, hm⟩ : ∃ m : Buffer, m = (b.copy 144 buff c).copy (144 + c) (fun _ => 0) (RF_DATALEN - c) := ⟨_, rfl⟩
  have hmout : ∀ i, i < 144 ∨ 1168 ≤ i → m i = b i := by
    intro i hi
    rw [hm, Buffer.copy_off (by omega), Buffer.copy_off (by omega)]
  refine ⟨m, k, ?_, hnk, h0, htail, fun j hj => ?_, ?_, ?_, ?_, ?_, fun j hj => ?_, fun j hj => ?_⟩
  · simp only [writeRequest, header, Buffer.copyUpTo_string h.memory h.lt, hcopy, ← hc, ← hb, ← hm]
  · have hj' : j < 128 := hj
    rw [hmout _ (by omega), hbout _ (by omega), hname j hj]
  · rw [Buffer.half_congr fun i _ _ => (hmout i (by omega)).trans (hbout i (by omega)), htype]
  · rw [Buffer.half_congr fun i _ _ => (hmout i (by omega)).trans (hbout i (by omega)), hstatus]
  · rw [Buffer.word_congr fun i _ _ => hmout i (by omega), hb, Buffer.setWord, Buffer.word_copy_off (by omega),
      Buffer.word_setWord]
  · rw [Buffer.word_congr fun i _ _ => hmout i (by omega), hb, Buffer.word_setWord, hc]
  · by_cases hin : (j : Int) < count
    · rw [if_pos hin, hm, Buffer.copy_off (by omega), Buffer.copy_at (by omega)]
    · rw [if_neg hin, hm, show 144 + j = 144 + c + (j - c) by omega, Buffer.copy_at (by omega)]
  · have hj' : 1168 ≤ j := hj
    rw [hmout j (by omega), hbout j (by omega), hoff j (by unfold POS_LEN; omega)]

/-- The loop of `rfsgetmode` sets bits of the first byte only. -/
theorem getmodeLoop_lt {mode : List UInt8} : ∀ {mbits m : UInt32}, mbits.toNat < 2 ^ 8 → getmodeLoop mbits mode = some m →
    m.toNat < 2 ^ 8 := by
  have hor : ∀ a b : UInt32, a.toNat < 2 ^ 8 → b.toNat < 2 ^ 8 → (a ||| b).toNat < 2 ^ 8 := by
    intro a b ha hb
    rw [UInt32.toNat_or]
    exact Nat.or_lt_two_pow ha hb
  induction mode with
  | nil =>
    intro mbits m hlt h
    rw [← Option.some.inj h]
    split
    · exact hor _ _ hlt (by decide)
    · exact hlt
  | cons ch mode ih =>
    intro mbits m hlt h
    unfold getmodeLoop at h
    split at h
    · split at h
      · cases h
      · exact ih (hor _ _ hlt (by decide)) h
    split at h
    · split at h
      · cases h
      · exact ih (hor _ _ hlt (by decide)) h
    split at h
    · split at h
      · cases h
      · exact ih (hor _ _ hlt (by decide)) h
    split at h
    · split at h
      · cases h
      · exact ih (hor _ _ hlt (by decide)) h
    · cases h

/-- Every open control block holds the name that opened it. -/
def Files.Inv (s : Files) : Prop :=
  ∀ i, (s.rfltab i).rfstate = .RF_USED →
    ∃ n, (s.rfltab i).Named n ∧ ∀ j < RF_NAMLEN, s.opened i j = if j < n then (s.rfltab i).rfname j else 0

/-- Another state of the exchanges. -/
theorem Files.Inv.setData (h : s.Inv) (data : Rfdata) : Files.Inv { s with data := data } := h

/-- A control block that is free, or keeps its state, its name and its mode, keeps the invariant. -/
theorem Files.Inv.setSlot (h : s.Inv) (i : Nat) {r : Rflcblk}
    (hr : r.rfstate = .RF_FREE ∨
      r.rfstate = (s.rfltab i).rfstate ∧ r.rfname = (s.rfltab i).rfname ∧ r.rfmode = (s.rfltab i).rfmode) :
    (s.setSlot i r).Inv := by
  intro k hk
  rcases eq_or_ne k i with rfl | hne
  · simp only [Files.setSlot, Function.update_self] at hk ⊢
    rcases hr with hfree | ⟨hstate, hname, hmode⟩
    · rw [hfree] at hk
      cases hk
    · obtain ⟨n, hn, ho⟩ := h k (hstate ▸ hk)
      rw [hname]
      exact ⟨n, ⟨hn.pos, hn.lt, hname ▸ hn.string, hmode ▸ hn.mode⟩, ho⟩
  · simp only [Files.setSlot, Function.update_of_ne hne] at hk ⊢
    exact h k hk

/-- Another position of a control block. -/
theorem Files.Inv.setPos (h : s.Inv) (i : Nat) (pos : UInt32) : (s.setSlot i { s.rfltab i with rfpos := pos }).Inv :=
  h.setSlot i (.inr ⟨rfl, rfl, rfl⟩)

/-- `rfscomm` changes nothing but the number of a message. -/
theorem rfscomm_msg (msg : Buffer) (mlen : Nat) (reply : Buffer) (rlen : Int) (data : Rfdata) (net : Net) {i : Nat}
    (hi : i < 4 ∨ 8 ≤ i) : (rfscomm msg mlen reply rlen data net).msg i = msg i := by
  unfold rfscomm
  split
  · rfl
  · exact Buffer.copy_off (by omega)

/-- The name in an open request is padded with zero bytes. -/
theorem openRequest_name {name : Buffer} (hs : name.IsString n) (hn : n < RF_NAMLEN) (mbits : UInt32) (msg : Buffer) {j : Nat}
    (hj : j < RF_NAMLEN) : openRequest name n mbits msg (8 + j) = if j < n then name j else 0 := by
  have hj' : j < 128 := hj
  rw [openRequest, Buffer.copyUpTo_string hs (Nat.lt_succ_self n), Buffer.setWord, Buffer.copy_off (by omega)]
  exact (header_copy RF_MSG_OREQ msg hn hs).2.2.1 j hj

/-- A control block that is opened with the name of its request. -/
theorem Files.Inv.openSlot (h : s.Inv) (i : Nat) {r : Rflcblk} (hr : r.Named n) {f : Buffer}
    (hf : ∀ j < RF_NAMLEN, f j = if j < n then r.rfname j else 0) (data : Rfdata) :
    Files.Inv { s.setSlot i r with data := data, opened := Function.update s.opened i f } := by
  intro k hk
  rcases eq_or_ne k i with rfl | hne
  · simp only [Files.setSlot, Function.update_self]
    exact ⟨n, hr, hf⟩
  · simp only [Files.setSlot, Function.update_of_ne hne] at hk ⊢
    exact h k hk

/-- `rfsopen` keeps the invariant: it stores into a free control block, and one that it opens holds the name of the request. -/
theorem rfsopen_inv (h : s.Inv) (name : Buffer) (mode : List UInt8) (msg resp : Buffer) (net : Net) :
    (rfsopen s name mode msg resp net).2.1.Inv := by
  unfold rfsopen
  split
  · exact h
  rename_i i hfind
  have hfree : (s.rfltab i).rfstate = .RF_FREE := by simpa using List.find?_some hfind
  rcases Buffer.isString_or name RF_NAMLEN with ⟨n, hn, hs⟩ | hlong
  · simp only [Buffer.copyUpTo_string hs hn]
    rcases n with _ | n
    · exact h.setSlot i (.inl hfree)
    dsimp only
    split
    · exact h.setSlot i (.inl hfree)
    rename_i mbits hmode
    split
    · refine Files.Inv.setData ?_ _
      exact h.setSlot i (.inl hfree)
    · have hname : ∀ j ≤ n + 1, (s.rfltab i).rfname.copy 0 name (n + 1 + 1) j = name j :=
        fun j hj => Buffer.copy_start (by omega)
      have hbits : mbits.toNat < 256 := @getmodeLoop_lt _ 0 mbits (by decide) hmode
      refine h.openSlot i ⟨Nat.succ_pos n, hn, ⟨?_, fun j hj => ?_⟩, hbits⟩ (fun j hj => ?_) _
      · exact (hname (n + 1) (Nat.le_refl _)).trans hs.1
      · exact fun h0 => hs.2 j hj ((hname j (by omega)).symm.trans h0)
      · rw [rfscomm_msg _ _ _ _ _ _ (by omega), openRequest_name hs hn _ _ hj]
        split
        · exact (hname j (by omega)).symm
        · rfl
  · simp only [Buffer.copyUpTo_long hlong]
    exact h.setSlot i (.inl hfree)

/-- `rflread` keeps the invariant. -/
theorem rflread_inv (h : s.Inv) (minor : Nat) (buff : Buffer) (count : Int) (msg resp : Buffer) (net : Net) :
    (rflread s minor buff count msg resp net).2.1.Inv := by
  rcases rflread_cases s minor buff count msg resp net with ⟨-, hr⟩ | ⟨o, -, -, -, ⟨-, hr⟩ | ⟨-, hr⟩⟩
  · rw [hr]
    exact h
  · rw [hr]
    exact h.setData _
  · rw [hr]
    exact (h.setPos minor _).setData _

/-- `rflwrite` returns, and keeps the invariant. -/
theorem rflwrite_inv (h : s.Inv) (minor : Nat) (buff : Buffer) (count : Int) (msg resp : Buffer) (net : Net) :
    ∃ o, rflwrite s minor buff count msg resp net = some o ∧ o.2.1.Inv := by
  unfold rflwrite
  by_cases hcount : count ≤ 0 ∨ RF_DATALEN < count
  · exact ⟨_, if_pos hcount, h⟩
  by_cases hmode : (s.rfltab minor).rfstate = .RF_FREE ∨ (s.rfltab minor).rfmode &&& RF_MODE_W = 0
  · exact ⟨_, by rw [if_neg hcount, if_pos hmode], h⟩
  have hused : (s.rfltab minor).rfstate = .RF_USED := by
    cases hst : (s.rfltab minor).rfstate with
    | RF_FREE => exact absurd (.inl hst) hmode
    | RF_USED => rfl
  obtain ⟨n, hn, -⟩ := h minor hused
  obtain ⟨m, k, hreq, -⟩ := @writeRequest_spec _ n hn buff count (by omega) (by omega) msg
  rw [if_neg hcount, if_neg hmode, hreq]
  dsimp only
  split
  · exact ⟨_, rfl, h.setData _⟩
  · exact ⟨_, rfl, (h.setPos minor _).setData _⟩

/-- Every call returns and keeps the invariant. -/
theorem step_inv (h : s.Inv) (c : Call) : ∃ s', step s c = some s' ∧ s'.Inv := by
  cases c with
  | rfsopen name mode msg resp net => exact ⟨_, rfl, rfsopen_inv h name mode msg resp net⟩
  | rflread minor buff count msg resp net => exact ⟨_, rfl, rflread_inv h minor buff count msg resp net⟩
  | rflwrite minor buff count msg resp net =>
    obtain ⟨o, ho, hinv⟩ := rflwrite_inv h minor buff count msg resp net
    exact ⟨o.2.1, by rw [step, ho]; rfl, hinv⟩
  | rflseek minor pos =>
    refine ⟨_, rfl, ?_⟩
    unfold rflseek
    split
    · exact h
    · exact h.setPos minor pos
  | rflclose minor =>
    refine ⟨_, rfl, ?_⟩
    unfold rflclose
    split
    · exact h
    · exact h.setSlot minor (.inl rfl)
  | rfscontrol msg mlen resp rlen net => exact ⟨_, rfl, h.setData _⟩

/-- Every sequence of calls runs to its end and keeps the invariant. -/
theorem run_inv {calls : List Call} : ∀ {s : Files}, s.Inv → ∃ s', run s calls = some s' ∧ s'.Inv := by
  induction calls with
  | nil => exact fun h => ⟨_, rfl, h⟩
  | cons c calls ih =>
    intro s h
    obtain ⟨s', hs', h'⟩ := step_inv h c
    obtain ⟨t, ht, hinv⟩ := ih h'
    exact ⟨t, by rw [run, hs']; exact ht, hinv⟩

/-- In the table after `rflinit` no control block is open. -/
theorem rflinit_inv (data : Rfdata) (dvnum : Nat → Nat) : (rflinit data dvnum).Inv := by
  intro i hi
  cases hi

/-- The requests of an open control block name its file exactly when the byte behind the terminator of the name is zero or the
name fills its field. -/
theorem Rflcblk.Named.requests_iff (h : (s.rfltab minor).Named n)
    (ho : ∀ j < RF_NAMLEN, s.opened minor j = if j < n then (s.rfltab minor).rfname j else 0) (buff : Buffer) {count : Int}
    (hpos : 0 < count) (hmax : count ≤ RF_DATALEN) (msg : Buffer) :
    ∃ r w, readRequest (s.rfltab minor) count msg = .request r ∧ writeRequest (s.rfltab minor) buff count msg = .request w ∧
      Names s minor RF_MSG_RREQ count r ∧ (∀ j, POS_LEN ≤ j → r j = msg j) ∧
      (∀ j < RF_DATALEN, w (144 + j) = if (j : Int) < count then buff j else 0) ∧ (∀ j, DATA_LEN ≤ j → w j = msg j) ∧
      (Names s minor RF_MSG_WREQ count w ↔ n = 127 ∨ (s.rfltab minor).rfname (n + 1) = 0) := by
  obtain ⟨r, hr, hrname, hrtype, hrstatus, hrpos, hrlen, hroff⟩ := readRequest_spec h count msg
  obtain ⟨w, k, hw, hnk, h0, htail, hwname, hwtype, hwstatus, hwpos, hwlen, hwdata, hwoff⟩ :=
    writeRequest_spec h buff hpos hmax msg
  have hlen : RF_NAMLEN = 128 := rfl
  refine ⟨r, w, hr, hw, ⟨⟨n, h.string, hrname⟩, fun j hj => (hrname j hj).trans (ho j hj).symm, hrtype, hrstatus, hrpos, hrlen⟩,
    hroff, hwdata, hwoff, ?_⟩
  constructor
  · intro hn
    rcases eq_or_ne n 127 with rfl | hne
    · exact .inl rfl
    · right
      have hlt : n + 1 < RF_NAMLEN := by
        have := h.lt
        omega
      have hbyte := (hwname (n + 1) hlt).symm.trans ((hn.opened (n + 1) hlt).trans (ho (n + 1) hlt))
      rw [if_pos ⟨Nat.le_refl _, hnk⟩, if_neg (by omega)] at hbyte
      exact hbyte
  · intro hc
    have hpad : ∀ j < RF_NAMLEN, w (8 + j) = if j < n then (s.rfltab minor).rfname j else 0 := by
      intro j hj
      rw [hwname j hj]
      by_cases hin : n + 1 ≤ j ∧ j ≤ k
      · -- the second copy has stored its terminator only, or nothing inside the field
        have hzero : (s.rfltab minor).rfname (n + 1) = 0 := hc.resolve_left (by omega)
        have hk : k = n + 1 := by
          by_contra hne
          refine htail (n + 1) (Nat.le_refl _) (by omega) ?_
          rw [Rflcblk.memory_name (by omega), hzero]
        obtain rfl : j = n + 1 := by omega
        rw [if_pos hin, hzero, if_neg (by omega)]
      · rw [if_neg hin]
    exact ⟨⟨n, h.string, hpad⟩, fun j hj => (hpad j hj).trans (ho j hj).symm, hwtype, hwstatus, hwpos, hwlen⟩

/-- After any sequence of calls, the requests that `rflread` and `rflwrite` form for an open control block name its file exactly
when the byte behind the terminator of the name in the control block is zero, or the name fills its field. -/
theorem requests_name_file_iff (data : Rfdata) (dvnum : Nat → Nat) (calls : List Call) (s : Files)
    (hrun : run (rflinit data dvnum) calls = some s) (minor : Nat) (hused : (s.rfltab minor).rfstate = .RF_USED) (buff : Buffer)
    (count : Int) (hpos : 0 < count) (hmax : count ≤ RF_DATALEN) (msg : Buffer) :
    ∃ r w, readRequest (s.rfltab minor) count msg = .request r ∧ writeRequest (s.rfltab minor) buff count msg = .request w ∧
      (∀ j, POS_LEN ≤ j → r j = msg j) ∧
      (∀ j < RF_DATALEN, w (144 + j) = if (j : Int) < count then buff j else 0) ∧ (∀ j, DATA_LEN ≤ j → w j = msg j) ∧
      (Names s minor RF_MSG_RREQ count r ∧ Names s minor RF_MSG_WREQ count w ↔
        ∃ n, (s.rfltab minor).rfname.IsString n ∧ (n = 127 ∨ (s.rfltab minor).rfname (n + 1) = 0)) := by
  obtain ⟨s', hs', hinv⟩ := @run_inv calls _ (rflinit_inv data dvnum)
  obtain rfl := Option.some.inj (hs'.symm.trans hrun)
  obtain ⟨n, hn, ho⟩ := hinv minor hused
  obtain ⟨r, w, hr, hw, hread, hroff, hwdata, hwoff, hiff⟩ := hn.requests_iff ho buff hpos hmax msg
  refine ⟨r, w, hr, hw, hroff, hwdata, hwoff, fun h => ⟨n, hn.string, hiff.mp h.2⟩, ?_⟩
  rintro ⟨n', hn', hc⟩
  obtain rfl := hn'.unique hn.string
  exact ⟨hread, hiff.mpr hc⟩

/-- A call that opens a file for reading and writing, with a server that answers the request by its number. -/
def opens (name : List UInt8) (number : UInt8) : Call :=
  .rfsopen (fun i => name.getD i 0) [114, 119] (fun _ => 0) (fun _ => 0)
    (arriving [.datagram ⟨148, fun i => [0x01, 0x03, 0, 0, 0, 0, 0, number].getD i 0⟩])

theorem requests_name_first_file :
    ∃ s r w, run (rflinit ⟨1, 0, true⟩ fun i => i) [opens [97] 1] = some s ∧
      readRequest (s.rfltab 0) 1 (fun _ => 0) = .request r ∧ writeRequest (s.rfltab 0) (fun _ => 0) 1 (fun _ => 0) = .request w ∧
      Names s 0 RF_MSG_RREQ 1 r ∧ Names s 0 RF_MSG_WREQ 1 w := by
  obtain ⟨r, w, hr, hw, -, -, -, hiff⟩ := requests_name_file_iff ⟨1, 0, true⟩ (fun i => i) [opens [97] 1] _ rfl 0 rfl
    (fun _ => 0) 1 (by decide) (by decide) (fun _ => 0)
  refine ⟨_, r, w, rfl, hr, hw, hiff.mpr ⟨1, ⟨rfl, fun i hi => ?_⟩, .inr rfl⟩⟩
  obtain rfl : i = 0 := by omega
  decide

/-- Behind a longer name in the same control block, a write to file a names it with bytes of the earlier name behind. -/
theorem write_names_earlier_file :
    ∃ s w, run (rflinit ⟨1, 0, true⟩ fun i => i) [opens [97, 98, 99, 100] 1, .rflclose 0, opens [97] 2] = some s ∧
      writeRequest (s.rfltab 0) (fun _ => 0) 1 (fun _ => 0) = .request w ∧ w.bytes 8 5 = [97, 0, 99, 100, 0] ∧
      ¬Names s 0 RF_MSG_WREQ 1 w := by
  refine ⟨_, _, rfl, rfl, rfl, fun h => ?_⟩
  exact absurd (h.opened 2 (by decide)) (by decide)

end Names

end Rfs

end Xinu
