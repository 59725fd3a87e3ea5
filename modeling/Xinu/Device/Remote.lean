import Mathlib.Tactic.IntervalCases
import Xinu.Kernel.Queue
import Xinu.Lib.Buffer

/-!
# Exchanges with a remote server

What the drivers of the remote disk and of the remote file system share: the order of bytes on the network, what `udp_recv` leaves
in the caller's buffer, and the network that an exchange meets. A message and a reply buffer are memory from their first byte on.
-/

namespace Xinu

namespace Remote

/-- Swap the bytes of a 16-bit value. -/
def htons (x : UInt16) : UInt16 := ((0xff : UInt16) &&& (x >>> 8)) ||| (((0xff : UInt16) &&& x) <<< 8)

/-- Swap the bytes of a 32-bit value. -/
def htonl (x : UInt32) : UInt32 :=
  ((x >>> 24) &&& (0x000000ff : UInt32)) ||| ((x >>> 8) &&& (0x0000ff00 : UInt32)) |||
    ((x <<< 8) &&& (0x00ff0000 : UInt32)) ||| ((x <<< 24) &&& (0xff000000 : UInt32))

def ntohs (x : UInt16) : UInt16 := ((0xff : UInt16) &&& (x >>> 8)) ||| (((0xff : UInt16) &&& x) <<< 8)

def ntohl (x : UInt32) : UInt32 :=
  ((x >>> 24) &&& (0x000000ff : UInt32)) ||| ((x >>> 8) &&& (0x0000ff00 : UInt32)) |||
    ((x <<< 8) &&& (0x00ff0000 : UInt32)) ||| ((x <<< 24) &&& (0xff000000 : UInt32))

/-- The two swaps undo each other, bit by bit. -/
@[simp] theorem ntohl_htonl (x : UInt32) : ntohl (htonl x) = x := by
  apply UInt32.toBitVec_inj.mp
  simp only [ntohl, htonl, UInt32.toBitVec_or, UInt32.toBitVec_and, UInt32.toBitVec_shiftRight, UInt32.toBitVec_shiftLeft]
  ext i hi
  simp
  interval_cases i <;> simp

/-- A 16-bit value in a variable of type `int16`. -/
def int16 (x : UInt16) : Int := if x.toNat < 32768 then x.toNat else (x.toNat : Int) - 65536

/-- `RD_MSG_RESPONSE` and `RF_MSG_RESPONSE`: the bit that indicates a response. -/
def MSG_RESPONSE : UInt16 := 0x0100

/-- A datagram in the queue of a slot: the length in its UDP header, and its data with the memory behind it. -/
structure Datagram where
  net_udplen : UInt16
  net_udpdata : Buffer

/-- What `udp_recv` returns for a datagram and a buffer of `len` bytes. -/
def Datagram.msglen (d : Datagram) (len : Int) : Int :=
  let msglen : Int := d.net_udplen.toNat - 8
  if len < msglen then len else msglen

/-- What a call of `udp_recv` waits for. -/
inductive Arrival where
  | datagram (d : Datagram)
  | timeout
  | syserr

/-- `udp_recv`: the return value and the caller's buffer. -/
def udpRecv (a : Arrival) (buff : Buffer) (len : Int) : Int × Buffer :=
  match a with
  | .datagram d => (d.msglen len, buff.copy 0 d.net_udpdata (d.msglen len).toNat)
  | .timeout => (TIMEOUT, buff)
  | .syserr => (SYSERR, buff)

/-- The network to come, and what was sent on it: what `udp_register` returns, whether there is a local IP address and whether
`getlocalip` obtains one, the outcomes of the sends (`true` is `OK`), and the arrivals. After the sends of the list the sends
succeed, and after its arrivals nothing arrives. -/
structure Net where
  slot : Int
  ipvalid : Bool
  getlocalip : Bool
  send : List Bool
  recv : List Arrival
  sent : List (List UInt8)

/-- Send a message: whether the call returned something else than `SYSERR`. -/
def Net.udpSend (net : Net) (msg : List UInt8) : Bool × Net :=
  (net.send.headD true, { net with send := net.send.tail, sent := net.sent ++ [msg] })

/-- Receive into a buffer. -/
def Net.udpRecv (net : Net) (buff : Buffer) (len : Int) : Int × Buffer × Net :=
  let (retval, buff) := Remote.udpRecv (net.recv.headD .timeout) buff len
  (retval, buff, { net with recv := net.recv.tail })

/-- The type of a reply answers that of a message; both headers begin with the type. -/
def isResponse (reply msg : Buffer) : Bool :=
  decide (int16 (ntohs (reply.half 0)) = ((ntohs (msg.half 0) ||| MSG_RESPONSE).toNat : Int))

/-- The start of a request: its type, the other fields of the header, and an identifier or a name of `len` zero bytes. -/
def header (type : UInt16) (len : Nat) (msg : Buffer) : Buffer :=
  (((msg.setHalf 0 (htons type)).setHalf 2 (htons 0)).setWord 4 0).copy 8 (fun _ => 0) len

/-- What the loop of an exchange does with a reply. -/
inductive Verdict where
  | accept
  /-- Wait for another reply, with another transmission before or without. -/
  | again (xmit : Bool)
deriving DecidableEq

/-- How the loop of an exchange ends; a reply is accepted with the value that `udp_recv` returned for it. -/
inductive End where
  | cannotSend
  | cannotRead
  | accepted (retval : Int)
  | exhausted
deriving DecidableEq

/-- The loop of an exchange, with some turns to go: send the message, receive a reply and judge it. -/
def converse (msg : List UInt8) (rlen : Int) (judge : Buffer → Verdict) :
    (turns : Nat) → (xmit : Bool) → Buffer → Net → End × Buffer × Net
  | 0, _, reply, net => (.exhausted, reply, net)
  | turns + 1, xmit, reply, net =>
    let (sent, net) := if xmit then net.udpSend msg else (true, net)
    if !sent then (.cannotSend, reply, net)
    else
      let (retval, reply, net) := net.udpRecv reply rlen
      if retval = TIMEOUT then converse msg rlen judge turns true reply net
      else if retval = SYSERR then (.cannotRead, reply, net)
      else
        match judge reply with
        | .accept => (.accepted retval, reply, net)
        | .again xmit => converse msg rlen judge turns xmit reply net

/-! ## Requests -/

/-- The fields of a header: its type, its status, its name, and the memory behind it. -/
theorem header_spec (type : UInt16) (len : Nat) (msg : Buffer) :
    (header type len msg).half 0 = htons type ∧ (header type len msg).half 2 = htons 0 ∧
      (∀ i < len, header type len msg (8 + i) = 0) ∧ ∀ i, 8 + len ≤ i → header type len msg i = msg i := by
  refine ⟨?_, ?_, fun i hi => Buffer.copy_at hi, fun i hi => ?_⟩
  · rw [header, Buffer.half_copy_off (by omega), Buffer.setWord, Buffer.half_copy_off (by omega), Buffer.setHalf,
      Buffer.half_copy_off (by omega), Buffer.half_setHalf]
  · rw [header, Buffer.half_copy_off (by omega), Buffer.setWord, Buffer.half_copy_off (by omega), Buffer.half_setHalf]
  · rw [header, Buffer.copy_off (by omega), Buffer.setWord, Buffer.copy_off (by omega), Buffer.setHalf,
      Buffer.copy_off (by omega), Buffer.setHalf, Buffer.copy_off (by omega)]

/-- A header with a name that was copied into it: the name is padded with zero bytes, and the other fields are as before. -/
theorem header_copy (type : UInt16) {len : Nat} (msg : Buffer) {name : Buffer} {n : Nat} (hn : n < len)
    (hs : name.IsString n) :
    let m := (header type len msg).copy 8 name (n + 1)
    m.half 0 = htons type ∧ m.half 2 = htons 0 ∧ (∀ i < len, m (8 + i) = if i < n then name i else 0) ∧
      ∀ i, 8 + len ≤ i → m i = msg i := by
  intro m
  obtain ⟨htype, hstatus, hzero, hoff⟩ := header_spec type len msg
  refine ⟨(Buffer.half_copy_off (by omega)).trans htype, (Buffer.half_copy_off (by omega)).trans hstatus, fun i hi => ?_,
    fun i hi => (Buffer.copy_off (by omega)).trans (hoff i hi)⟩
  by_cases hin : i < n + 1
  · rw [show m (8 + i) = name i from Buffer.copy_at hin]
    split
    · rfl
    · obtain rfl : i = n := by omega
      exact hs.1
  · rw [show m (8 + i) = header type len msg (8 + i) from Buffer.copy_off (by omega), hzero i hi, if_neg (by omega)]

/-! ## Arrivals -/

/-- The reply buffer behind some arrivals. -/
def left (reply : Buffer) (len : Int) (arrivals : List Arrival) : Buffer :=
  arrivals.foldl (fun b a => (udpRecv a b len).2) reply

/-- The buffer behind one arrival after others. -/
theorem left_concat (reply : Buffer) (len : Int) (before : List Arrival) (a : Arrival) :
    left reply len (before ++ [a]) = (udpRecv a (left reply len before) len).2 := by
  simp only [left, List.foldl_append, List.foldl_cons, List.foldl_nil]

/-- A datagram of some bytes leaves its start in the buffer. -/
theorem udpRecv_byte {d : Datagram} {buff : Buffer} {len : Int} {i : Nat} (h : (i : Int) < d.msglen len) :
    (udpRecv (.datagram d) buff len).2 i = d.net_udpdata i :=
  Buffer.copy_start (by omega)

/-- A 16-bit field inside a datagram is read from it. -/
theorem udpRecv_half {d : Datagram} {buff : Buffer} {len : Int} {o : Nat} (h : (o : Int) + 2 ≤ d.msglen len) :
    (udpRecv (.datagram d) buff len).2.half o = d.net_udpdata.half o :=
  Buffer.half_copy (by omega)

/-- A 32-bit field inside a datagram is read from it. -/
theorem udpRecv_word {d : Datagram} {buff : Buffer} {len : Int} {o : Nat} (h : (o : Int) + 4 ≤ d.msglen len) :
    (udpRecv (.datagram d) buff len).2.word o = d.net_udpdata.word o :=
  Buffer.word_copy (by omega)

/-- A type that answers is the response type. -/
theorem type_of_isResponse {reply msg : Buffer} (h : isResponse reply msg = true) :
    ntohs (reply.half 0) = ntohs (msg.half 0) ||| MSG_RESPONSE := by
  have heq := of_decide_eq_true h
  have h1 := (ntohs (reply.half 0)).toNat_lt
  apply UInt16.toNat_inj.mp
  unfold int16 at heq
  split at heq <;> omega

/-- Where one type answers a message, every response type does. -/
theorem isResponse_of_type {reply reply' msg : Buffer} (h : isResponse reply msg = true)
    (ht : ntohs (reply'.half 0) = ntohs (msg.half 0) ||| MSG_RESPONSE) : isResponse reply' msg = true := by
  have hsame : ntohs (reply'.half 0) = ntohs (reply.half 0) := by rw [ht, type_of_isResponse h]
  unfold isResponse
  rw [hsame]
  exact h

/-- A byte of the last datagram is what the last receive leaves. -/
theorem left_byte {reply : Buffer} {len : Int} {before : List Arrival} {d : Datagram} {i : Nat} (h : (i : Int) < d.msglen len) :
    left reply len (before ++ [.datagram d]) i = d.net_udpdata i := by
  rw [left_concat]
  exact udpRecv_byte h

/-- A 16-bit field of the last datagram is what the last receive leaves. -/
theorem left_half {reply : Buffer} {len : Int} {before : List Arrival} {d : Datagram} {o : Nat}
    (h : (o : Int) + 2 ≤ d.msglen len) : (left reply len (before ++ [.datagram d])).half o = d.net_udpdata.half o := by
  rw [left_concat]
  exact udpRecv_half h

/-- A 32-bit field of the last datagram is what the last receive leaves. -/
theorem left_word {reply : Buffer} {len : Int} {before : List Arrival} {d : Datagram} {o : Nat}
    (h : (o : Int) + 4 ≤ d.msglen len) : (left reply len (before ++ [.datagram d])).word o = d.net_udpdata.word o := by
  rw [left_concat]
  exact udpRecv_word h

/-! ## The loop -/

section Loop

variable {msg : List UInt8} {rlen : Int} {judge : Buffer → Verdict}

/-- A datagram that comes behind some arrivals ends the loop. -/
structure Decides (rlen : Int) (judge : Buffer → Verdict) (reply : Buffer) (before : List Arrival) (d : Datagram) : Prop where
  notTimeout : d.msglen rlen ≠ TIMEOUT
  notSyserr : d.msglen rlen ≠ SYSERR
  accept : judge (left reply rlen (before ++ [.datagram d])) = .accept

/-- What one turn of the loop can do: the message cannot be sent, no reply can be read, a reply is accepted, or the loop goes on,
behind a timeout or a reply that is not accepted. -/
theorem converse_cases (turns : Nat) (xmit : Bool) (reply : Buffer) (net : Net) :
    let o := converse msg rlen judge (turns + 1) xmit reply net
    let r := udpRecv (net.recv.headD .timeout) reply rlen
    (o.1 = .cannotSend ∧ o.2.2.recv = net.recv) ∨
    (r.1 = SYSERR ∧ o.1 = .cannotRead ∧ o.2.2.recv = net.recv.tail) ∨
    (r.1 ≠ TIMEOUT ∧ r.1 ≠ SYSERR ∧ judge r.2 = .accept ∧ o.1 = .accepted r.1 ∧ o.2.1 = r.2 ∧ o.2.2.recv = net.recv.tail) ∨
    ∃ xmit' net', (r.1 = TIMEOUT ∨ r.1 ≠ SYSERR ∧ judge r.2 ≠ .accept) ∧ net'.recv = net.recv.tail ∧
      o = converse msg rlen judge turns xmit' r.2 net' := by
  intro o r
  obtain ⟨net₁, hrecv, ho⟩ : ∃ net₁ : Net, net₁.recv = net.recv ∧ (o = (.cannotSend, reply, net₁) ∨
      o = (let net₂ := { net₁ with recv := net.recv.tail }
        if r.1 = TIMEOUT then converse msg rlen judge turns true r.2 net₂
        else if r.1 = SYSERR then (.cannotRead, r.2, net₂)
        else
          match judge r.2 with
          | .accept => (.accepted r.1, r.2, net₂)
          | .again xmit => converse msg rlen judge turns xmit r.2 net₂)) := by
    cases xmit with
    | true =>
      refine ⟨(net.udpSend msg).2, rfl, ?_⟩
      cases hsend : (net.udpSend msg).1 with
      | false => exact .inl (by simp only [o, converse, if_true, hsend, Bool.not_false])
      | true => exact .inr (by simp only [o, r, converse, if_true, hsend, Bool.not_true]; rfl)
    | false => exact ⟨net, rfl, .inr rfl⟩
  rcases ho with ho | ho
  · exact .inl ⟨by rw [ho], by rw [ho]; exact hrecv⟩
  · by_cases ht : r.1 = TIMEOUT
    · refine .inr (.inr (.inr ⟨true, { net₁ with recv := net.recv.tail }, .inl ht, rfl, ?_⟩))
      rw [ho, if_pos ht]
    by_cases hs : r.1 = SYSERR
    · rw [if_neg ht, if_pos hs] at ho
      exact .inr (.inl ⟨hs, by rw [ho], by rw [ho]⟩)
    rw [if_neg ht, if_neg hs] at ho
    cases hj : judge r.2 with
    | accept =>
      rw [hj] at ho
      exact .inr (.inr (.inl ⟨ht, hs, rfl, by rw [ho], by rw [ho], by rw [ho]⟩))
    | again xmit' =>
      rw [hj] at ho
      exact .inr (.inr (.inr ⟨_, _, .inr ⟨hs, nofun⟩, rfl, ho⟩))

/-- The arrivals of a call behind its first one. -/
theorem heard_cons {recv rest rest' heard : List Arrival} (h : recv = heard ++ rest') (ht : recv.tail = rest ++ rest') :
    heard = [] ∧ rest = [] ∨ heard = recv.headD .timeout :: rest := by
  cases recv with
  | nil =>
    have hnil := List.append_eq_nil_iff.mp h.symm
    have htnil := List.append_eq_nil_iff.mp ht.symm
    exact .inl ⟨hnil.1, htnil.1⟩
  | cons a recv =>
    have hcons : a :: recv = (a :: rest) ++ rest' := by
      rw [List.cons_append, ← ht]
      rfl
    exact .inr (List.append_cancel_right (h.symm.trans hcons))

/-- The loop receives the first arrivals of the network. -/
theorem converse_recv (turns : Nat) : ∀ (xmit : Bool) (reply : Buffer) (net : Net),
    ∃ heard, net.recv = heard ++ (converse msg rlen judge turns xmit reply net).2.2.recv := by
  induction turns with
  | zero => exact fun _ _ _ => ⟨[], rfl⟩
  | succ turns ih =>
    intro xmit reply net
    have htail : ∃ heard, net.recv = heard ++ net.recv.tail := by
      cases net.recv with
      | nil => exact ⟨[], rfl⟩
      | cons a recv => exact ⟨[a], rfl⟩
    rcases @converse_cases msg rlen judge turns xmit reply net with
      ⟨-, h⟩ | ⟨-, -, h⟩ | ⟨-, -, -, -, -, h⟩ | ⟨xmit', net', -, hrecv, h⟩
    · exact ⟨[], by rw [h]; rfl⟩
    · rw [h]
      exact htail
    · rw [h]
      exact htail
    · obtain ⟨heard, hheard⟩ := ih xmit' (udpRecv (net.recv.headD .timeout) reply rlen).2 net'
      obtain ⟨first, hfirst⟩ := htail
      refine ⟨first ++ heard, ?_⟩
      rw [h, List.append_assoc, ← hheard, hrecv]
      exact hfirst

/-- A datagram that decides behind a first arrival. -/
theorem decides_cons {reply : Buffer} {a : Arrival} {before : List Arrival} {d : Datagram} :
    Decides rlen judge reply (a :: before) d ↔ Decides rlen judge (udpRecv a reply rlen).2 before d :=
  ⟨fun h => ⟨h.1, h.2, h.3⟩, fun h => ⟨h.1, h.2, h.3⟩⟩

/-- An arrival that is neither a timeout nor an error is a datagram. -/
theorem arrival_datagram {recv : List Arrival} {reply : Buffer}
    (ht : (udpRecv (recv.headD .timeout) reply rlen).1 ≠ TIMEOUT)
    (hs : (udpRecv (recv.headD .timeout) reply rlen).1 ≠ SYSERR) :
    ∃ d, recv.headD .timeout = .datagram d ∧ recv ≠ [] := by
  cases recv with
  | nil => exact absurd rfl ht
  | cons a recv =>
    cases a with
    | datagram d => exact ⟨d, rfl, List.cons_ne_nil _ _⟩
    | timeout => exact absurd rfl ht
    | syserr => exact absurd rfl hs

/-- A reply is accepted exactly when the last arrival of the call decides, and then no earlier arrival does. -/
theorem converse_spec (turns : Nat) : ∀ (xmit : Bool) (reply : Buffer) (net : Net) (heard : List Arrival),
    net.recv = heard ++ (converse msg rlen judge turns xmit reply net).2.2.recv →
    let o := converse msg rlen judge turns xmit reply net
    (∃ before d, heard = before ++ [.datagram d] ∧ Decides rlen judge reply before d ∧ o.2.1 = left reply rlen heard ∧
      o.1 = .accepted (d.msglen rlen) ∧
      ∀ pre d' post, before = pre ++ .datagram d' :: post → ¬Decides rlen judge reply pre d') ∨
    ((∀ retval, o.1 ≠ .accepted retval) ∧
      ∀ before d, heard = before ++ [.datagram d] → ¬Decides rlen judge reply before d) := by
  induction turns with
  | zero =>
    intro xmit reply net heard hheard
    have hnil : heard = [] := List.self_eq_append_left.mp hheard
    refine .inr ⟨by simp [converse], fun before d h => ?_⟩
    simp [hnil] at h
  | succ turns ih =>
    intro xmit reply net heard hheard o
    rcases @converse_cases msg rlen judge turns xmit reply net with
      ⟨he, hrest⟩ | ⟨hs, he, hrest⟩ | ⟨ht, hs, hacc, he, hreply, hrest⟩ | ⟨xmit', net', hgo, hrecv, he⟩
    · rw [hrest] at hheard
      have hnil : heard = [] := List.self_eq_append_left.mp hheard
      refine .inr ⟨by simp [o, he], fun before d h => ?_⟩
      simp [hnil] at h
    · refine .inr ⟨by simp [o, he], ?_⟩
      rintro before d rfl hd
      rw [hrest] at hheard
      rcases heard_cons hheard (List.nil_append _).symm with ⟨h, -⟩ | h
      · simp at h
      · obtain ⟨rfl, hd'⟩ := List.append_eq_singleton_iff.mp h |>.resolve_right (by simp)
        rw [← List.singleton_inj.mp hd'] at hs
        exact hd.notSyserr hs
    · obtain ⟨d, hd, hne⟩ := arrival_datagram ht hs
      rw [hrest] at hheard
      have hone : heard = [.datagram d] := by
        rcases heard_cons hheard (List.nil_append _).symm with ⟨rfl, -⟩ | h
        · cases hr : net.recv with
          | nil => exact absurd hr hne
          | cons a recv =>
            rw [hr] at hheard
            exact absurd hheard (by simp)
        · rw [h, hd]
      subst hone
      rw [hd] at ht hs hacc he hreply
      exact .inl ⟨[], d, rfl, ⟨ht, hs, hacc⟩, hreply, he, fun pre d' post h => by simp at h⟩
    · obtain ⟨rest, hrest⟩ := @converse_recv msg rlen judge turns xmit' (udpRecv (net.recv.headD .timeout) reply rlen).2 net'
      have hih := ih xmit' _ net' rest hrest
      rw [← he] at hrest hih
      rw [hrecv] at hrest
      -- a first arrival behind which the loop goes on does not decide
      have hfirst : ∀ d, net.recv.headD .timeout = .datagram d → ¬Decides rlen judge reply [] d := by
        intro d hhead hd
        rw [hhead] at hgo
        rcases hgo with ht | ⟨-, hgo⟩
        · exact hd.notTimeout ht
        · exact hgo hd.accept
      rcases heard_cons hheard hrest with ⟨rfl, rfl⟩ | rfl
      · rcases hih with ⟨before, d, h, -⟩ | ⟨hno, -⟩
        · simp at h
        · exact .inr ⟨hno, fun before d h => by simp at h⟩
      · rcases hih with ⟨before, d, rfl, hd, hreply, hexit, hno⟩ | ⟨hexit, hno⟩
        · refine .inl ⟨_ :: before, d, rfl, decides_cons.mpr hd, hreply, hexit, fun pre d' post h hd' => ?_⟩
          cases pre with
          | nil => exact hfirst d' (List.cons.inj h).1 hd'
          | cons a pre =>
            obtain ⟨hhead, hpre⟩ := List.cons.inj h
            rw [← hhead] at hd'
            exact hno pre d' post hpre (decides_cons.mp hd')
        · refine .inr ⟨hexit, fun before d h hd => ?_⟩
          cases before with
          | nil => exact hfirst d (List.cons.inj h).1 hd
          | cons a before =>
            obtain ⟨hhead, hbefore⟩ := List.cons.inj h
            rw [← hhead] at hd
            exact hno before d hbefore (decides_cons.mp hd)

/-- The first arrival is accepted. -/
theorem converse_first {reply : Buffer} {d : Datagram} (hd : Decides rlen judge reply [] d) {net : Net} (hsend : net.send = [])
    (hrecv : net.recv = [.datagram d]) (turns : Nat) :
    (converse msg rlen judge (turns + 1) true reply net).1 = .accepted (d.msglen rlen) ∧
      (converse msg rlen judge (turns + 1) true reply net).2.1 = left reply rlen [.datagram d] := by
  have hv : (udpRecv (.datagram d) reply rlen).1 = d.msglen rlen := rfl
  have hb : (udpRecv (.datagram d) reply rlen).2 = left reply rlen [.datagram d] := rfl
  have hacc : judge (left reply rlen [.datagram d]) = .accept := hd.accept
  simp [converse, Net.udpSend, Net.udpRecv, hsend, hrecv, hv, hb, hacc, hd.notTimeout, hd.notSyserr]

end Loop

end Remote

end Xinu
