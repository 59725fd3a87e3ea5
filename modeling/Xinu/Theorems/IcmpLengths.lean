import Xinu.Net.Bounds
import Xinu.Theorems.UdpLengths

/-!
# Lengths of received ICMP packets

The checksum, the echo reply and `icmp_recv` each take a length from the length field of the IP header, which `ip_in` compares with
nothing. The packets that `ip_in` passes on have a checksum, so the field counts at least two bytes of ICMP; it may still count
less than an ICMP header, or more than the packet structure holds.
-/

namespace Xinu

namespace Ip

open Netpacket hiding IP_HDR_LEN UDP_HDR_LEN ICMP_HDR_LEN

/-- What ICMP sees of a packet, with the memory behind the data area, as far as a length field can reach. -/
def icmpMemory (p : Buf) (pkt : Netpacket) : IcmpPacket :=
  { icmpPacket p pkt with net_icdata := (List.range 65535).map fun j => (pkt (net_icdata + j)).toNat }

/-- `icmp_mkpkt` for data that is in another packet, with the size of the packets. -/
def icmpMkpktIn (nd : Network) (ipid remip type ident seq : Nat) (src : Netpacket) (len : Int) (p : Netpacket) : Option Netpacket :=
  let p := ipHeader nd ((IP_HDR_LEN + ICMP_HDR_LEN + len) % 65536).toNat ipid IP_ICMP remip p
  let p := p.put8 net_ictype type
  let p := p.put8 net_iccode 0
  let p := p.put16 net_iccksum 0x0000
  let p := p.put16 net_icident ident
  let p := p.put16 net_icseq seq
  memcpyIn p net_icdata src net_icdata len

/-- The checksum of `ip_in` accesses the packet structure only, and its length is not negative. -/
def CksumBounded (frame : Netpacket) : Prop :=
  let icmplen : Int := frame.ipNtoh.w16 net_iplen - IP_HDR_LEN
  0 ≤ icmplen ∧ frame.ipNtoh.icmpCksumIn net_ictype icmplen = some (frame.ipNtoh.icmpCksum net_ictype icmplen)

/-- The echo reply that `icmp_in` makes in a buffer reads from the packet and writes to the reply only, and its length is not
negative. -/
def ReplyBounded (nd : Network) (ipid : Nat) (pkt buf : Netpacket) : Prop :=
  let len : Int := pkt.w16 net_iplen - IP_HDR_LEN - ICMP_HDR_LEN
  0 ≤ len ∧ icmpMkpktIn nd ipid (pkt.w32 net_ipsrc) ICMP_ECHOREPLY (pkt.w16 net_icident) (pkt.w16 net_icseq) pkt len buf =
    some (icmpPkt nd ipid (pkt.w32 net_ipsrc) ICMP_ECHOREPLY (pkt.w16 net_icident) (pkt.w16 net_icseq)
      (fun j => pkt (net_icdata + j)) len buf)

/-- The two ends of `icmp_recv` that deliver a packet: one is queued when the call is made, or `recvtime` reports its arrival. -/
inductive Echoes (c : Icmp) (slot len : Int) : Icmp × Next IcmpPoint → Prop
  | queued (pid : Int) (timeout : Nat) (h0 : 0 ≤ slot) (h : slot < ICMP_SLOTS) (hused : (c.icmptab slot).icstate = .ICMP_USED)
      (hcount : (c.icmptab slot).iccount ≠ 0) : Echoes c slot len (c.icmpRecv pid slot len timeout)
  | waited : Echoes c slot len (c.wake slot len OK)

/-- The copy of `icmp_recv` accesses the packet structure and the caller's buffer only, its length is not negative, and what it
stores is what is delivered. -/
def RecvBounded (p : Buf) (pkt : Netpacket) (len : Nat) (c : Icmp) (slot : Int) (out : Icmp × Next IcmpPoint) : Prop :=
  let datalen : Int := pkt.w16 net_iplen - IP_HDR_LEN - ICMP_HDR_LEN
  0 ≤ datalen ∧ ∃ buff, pkt.recvIn datalen len = some buff ∧ buff.length ≤ len ∧
    out.2 = .call (.signal c.netbufsem) (.done buff.length) ∧
      out.1.log = .received slot (icmpMemory p pkt) (buff.map UInt8.toNat) :: c.log

section

variable {frame pkt : Netpacket} {c : Icmp} {slot : Int} {len : Nat} {out : Icmp × Next IcmpPoint} {p : Buf}

/-- The sum of at most one byte is not all-1s. -/
theorem icmpCksum_short {q : Netpacket} {o : Nat} {n : Int} (h : n < 2) : q.icmpCksum o n ≠ 0 := by
  have hcount : (n / 2).toNat = 0 := by omega
  have hbyte := (q (o + 2 * 0)).toNat_lt
  rw [icmpCksum, icmpSum]
  simp only [hcount, sumLoop]
  split_ifs
  · have hmod : (0 + 256 * (q (o + 2 * 0)).toNat) % 2 ^ 32 = 256 * (q (o + 2 * 0)).toNat := by omega
    have hdiv : 256 * (q (o + 2 * 0)).toNat / 65536 = 0 := by omega
    rw [hmod, fold, hdiv]
    omega
  · decide

/-- What is passed on of an ICMP packet is the frame with its headers in host order; its length field counts a checksum. -/
theorem incoming_icmp_eq (h : incoming frame = some pkt) (hicmp : pkt.w8 net_ipproto = IP_ICMP) :
    pkt = frame.ipNtoh.icmpNtoh ∧ 22 ≤ frame.ipNtoh.w16 net_iplen := by
  have hkeep : ∀ q : Netpacket, q.udpNtoh.w8 net_ipproto = q.w8 net_ipproto := fun q => by
    rw [udpNtoh_eq]
    rfl
  unfold incoming at h
  split_ifs at h with h1 h2 h3 h4 h5
  · obtain rfl := Option.some.inj h
    rw [hkeep, h3] at hicmp
    exact absurd hicmp (by decide)
  · refine ⟨(Option.some.inj h).symm, ?_⟩
    by_contra hlt
    refine icmpCksum_short ?_ (not_not.mp h5)
    unfold IP_HDR_LEN
    omega
  · obtain rfl := Option.some.inj h
    exact absurd hicmp h4

/-- The length field in host order. -/
theorem ipNtoh_iplen (frame : Netpacket) : frame.ipNtoh.w16 net_iplen = wire16 frame net_iplen := by
  have hlow : flipIp net_iplen = net_iplen + 1 := by decide
  have hhigh : flipIp (net_iplen + 1) = net_iplen := by decide
  rw [w16, ipNtoh_apply, ipNtoh_apply, hlow, hhigh, wire16]
  omega

/-- The conversion of the message leaves the length field alone. -/
theorem icmpNtoh_iplen (q : Netpacket) : q.icmpNtoh.w16 net_iplen = q.w16 net_iplen := by
  rw [icmpNtoh_eq]
  rfl

/-- Delivery takes the packet at the head of the queue. -/
theorem Echoes.result {len : Int} {q : IcmpPacket} (h : Echoes c slot len out) (hq : (c.icmptab slot).front = some q) :
    out.2 = .call (.signal c.netbufsem)
        (.done (min ((q.net_iplen : Int) - IP_HDR_LEN - ICMP_HDR_LEN).toNat len.toNat : Nat)) ∧
      out.1.log = .received slot q
        (q.net_icdata.take (min ((q.net_iplen : Int) - IP_HDR_LEN - ICMP_HDR_LEN).toNat len.toNat)) :: c.log := by
  cases h with
  | queued pid timeout h0 h hused hcount =>
    unfold Icmp.icmpRecv
    rw [if_neg (by omega), if_neg (not_not.mpr hused), if_neg hcount, Icmp.dequeue, hq]
    exact ⟨rfl, rfl⟩
  | waited =>
    have hOK : ¬OK = uint32 TIMEOUT := by decide
    have hfront : ({ c.icmptab slot with icstate := .ICMP_USED } : Icmpentry).front = some q := hq
    unfold Icmp.wake
    simp only [hOK, ne_eq, not_true_eq_false, if_false]
    rw [Icmp.dequeue]
    simp only [Icmp.setSlot, Function.update_self, hfront]
    exact ⟨trivial, rfl⟩

/-- The bytes that are delivered, also those behind the data area. -/
theorem icmpMemory_take (p : Buf) (pkt : Netpacket) {n : Nat} (h : n ≤ 65535) :
    (icmpMemory p pkt).net_icdata.take n = ((List.range n).map fun j => pkt (net_icdata + j)).map UInt8.toNat := by
  have hmin : min n 65535 = n := Nat.min_eq_left h
  simp only [icmpMemory, ← List.map_take, List.take_range, hmin, List.map_map]
  rfl

/-- The checksum by the length field. -/
theorem cksumBounded_iff (h : 22 ≤ frame.ipNtoh.w16 net_iplen) : CksumBounded frame ↔ frame.ipNtoh.w16 net_iplen ≤ 1500 := by
  obtain ⟨n, hn⟩ : ∃ n : Nat, frame.ipNtoh.w16 net_iplen = n + 20 := ⟨_, (Nat.sub_add_cancel (by omega)).symm⟩
  have hint : (((n + 20 : Nat) : Int) - IP_HDR_LEN) = (n : Int) := by
    unfold IP_HDR_LEN
    omega
  have hin : net_ictype + n ≤ PACKLEN ↔ n + 20 ≤ 1500 := by
    unfold net_ictype PACKLEN
    omega
  rw [CksumBounded, hn, hint, icmpCksumIn_eq (by decide), ← hin]
  refine ⟨fun ⟨_, h⟩ => ?_, fun h => ⟨by omega, if_pos h⟩⟩
  by_contra hout
  rw [if_neg hout] at h
  exact absurd h (by simp)

/-- The echo reply by the length field. -/
theorem replyBounded_iff (nd : Network) (ipid : Nat) (buf : Netpacket) :
    ReplyBounded nd ipid pkt buf ↔ 28 ≤ pkt.w16 net_iplen ∧ pkt.w16 net_iplen ≤ 1500 := by
  have hlow : 0 ≤ (pkt.w16 net_iplen : Int) - IP_HDR_LEN - ICMP_HDR_LEN ↔ 28 ≤ pkt.w16 net_iplen := by
    unfold IP_HDR_LEN ICMP_HDR_LEN
    omega
  have hhigh : (net_icdata : Int) + ((pkt.w16 net_iplen : Int) - IP_HDR_LEN - ICMP_HDR_LEN) ≤ PACKLEN ↔ pkt.w16 net_iplen ≤ 1500 := by
    unfold net_icdata PACKLEN IP_HDR_LEN ICMP_HDR_LEN
    omega
  rw [ReplyBounded, ← hlow, ← hhigh]
  refine and_congr_right fun _ => ?_
  unfold icmpMkpktIn
  simp only
  rw [memcpyIn_eq _ _ (by decide)]
  split_ifs with hin
  · exact iff_of_true rfl hin
  · exact iff_of_false (by simp) hin

/-- The copy of `icmp_recv` by the length field and the length of the buffer. -/
theorem recvBounded_iff (h : Echoes c slot len out) (hq : (c.icmptab slot).front = some (icmpMemory p pkt)) :
    RecvBounded p pkt len c slot out ↔ 28 ≤ pkt.w16 net_iplen ∧ min (pkt.w16 net_iplen - 28) len ≤ 1472 := by
  obtain ⟨hnext, hlog⟩ := h.result hq
  have hlt := w16_lt (p := pkt) net_iplen
  have hlow : 0 ≤ (pkt.w16 net_iplen : Int) - IP_HDR_LEN - ICMP_HDR_LEN ↔ 28 ≤ pkt.w16 net_iplen := by
    unfold IP_HDR_LEN ICMP_HDR_LEN
    omega
  have hmin : min ((pkt.w16 net_iplen : Int) - IP_HDR_LEN - ICMP_HDR_LEN).toNat len = min (pkt.w16 net_iplen - 28) len := by
    unfold IP_HDR_LEN ICMP_HDR_LEN
    omega
  have hin : net_icdata + min (pkt.w16 net_iplen - 28) len ≤ PACKLEN ↔ min (pkt.w16 net_iplen - 28) len ≤ 1472 := by
    unfold net_icdata PACKLEN
    omega
  have hiplen : (icmpMemory p pkt).net_iplen = pkt.w16 net_iplen := rfl
  rw [hiplen, Int.toNat_natCast, hmin] at hnext hlog
  rw [icmpMemory_take p pkt (by omega)] at hlog
  rw [RecvBounded, ← hlow]
  refine and_congr_right fun _ => ?_
  rw [recvIn_eq, hmin, ← hin]
  split_ifs with h
  · refine iff_of_true ⟨_, rfl, ?_, ?_, hlog⟩ h
    · rw [List.length_map, List.length_range]
      exact Nat.min_le_right _ _
    · rw [List.length_map, List.length_range]
      exact hnext
  · refine iff_of_false ?_ h
    rintro ⟨buff, hbuff, -⟩
    cases hbuff

end

/-- For every ICMP packet that `ip_in` passes on: the checksum stays within the packet structure if and only if the IP packet is
within a frame, the echo reply if and only if it also has room for an ICMP header, and `icmp_recv` if and only if it has room for
an ICMP header and what it copies into the caller's buffer is within the data area. -/
theorem icmp_lengths_bounded_iff (others : World → World) (p : Buf) (w : World) (pkt : Netpacket)
    (hin : pkt ∈ passed (ipIn others p) w) (hicmp : pkt.w8 net_ipproto = IP_ICMP) :
    (CksumBounded (w.bufs p) ↔ wire16 (w.bufs p) net_iplen ≤ 1500) ∧
    (∀ (nd : Network) (ipid : Nat) (buf : Netpacket), ReplyBounded nd ipid pkt buf ↔
      28 ≤ wire16 (w.bufs p) net_iplen ∧ wire16 (w.bufs p) net_iplen ≤ 1500) ∧
    ∀ (c : Icmp) (slot : Int) (len : Nat) (out : Icmp × Next IcmpPoint), (c.icmptab slot).front = some (icmpMemory p pkt) →
      Echoes c slot len out → (RecvBounded p pkt len c slot out ↔
        28 ≤ wire16 (w.bufs p) net_iplen ∧ min (wire16 (w.bufs p) net_iplen - 28) len ≤ 1472) := by
  rw [passed_ipIn, Option.mem_toList, Option.filter_eq_some_iff] at hin
  obtain ⟨rfl, h22⟩ := incoming_icmp_eq hin.1 hicmp
  have hfield : (w.bufs p).ipNtoh.icmpNtoh.w16 net_iplen = wire16 (w.bufs p) net_iplen := by
    rw [icmpNtoh_iplen, ipNtoh_iplen]
  refine ⟨?_, fun nd ipid buf => ?_, fun c slot len out hq hout => ?_⟩
  · rw [cksumBounded_iff h22, ipNtoh_iplen]
  · rw [replyBounded_iff, hfield]
  · rw [recvBounded_iff hout hq, hfield]

/-- A broadcast echo request as it stands on the wire behind the Ethernet header, with a length field. -/
def requestFrame (iplen : UInt8) : Netpacket := fun j =>
  ([0x45, 0, 0, iplen, 0, 0, 0, 0, 64, 1, 0x7a, 254 - iplen, 0, 0, 0, 0, 255, 255, 255, 255, 8, 0, 0xf7, 0xff, 0, 0, 0, 0] :
    List UInt8).getD (j - 14) 0

/-- A machine with the frame in its buffer. -/
def requestWorld (iplen : UInt8) : World := receiver (requestFrame iplen) (requestFrame iplen)

/-- `ip_in` passes the frame on, also with a length field that does not count the whole ICMP header. -/
theorem requestFrame_passed {iplen : UInt8} (h : iplen ∈ ([24, 28] : List UInt8)) :
    (requestFrame iplen).ipNtoh.icmpNtoh ∈ passed (ipIn id 0) (requestWorld iplen) ∧
      (requestFrame iplen).ipNtoh.icmpNtoh.w8 net_ipproto = IP_ICMP := by
  have hck : ∀ b ∈ ([24, 28] : List UInt8), (requestFrame b).ipcksum = 0 := by decide +kernel
  have hsum : ∀ b ∈ ([24, 28] : List UInt8), (requestFrame b).ipNtoh.icmpCksum net_ictype
      ((requestFrame b).ipNtoh.w16 net_iplen - IP_HDR_LEN) = 0 := by decide +kernel
  have hdst : ∀ b ∈ ([24, 28] : List UInt8), (requestFrame b).ipNtoh.icmpNtoh.w32 net_ipdst = IP_BCAST := by decide +kernel
  have hvh : (requestFrame iplen).ipNtoh.w8 net_ipvh = IP_VH := rfl
  have hproto : (requestFrame iplen).ipNtoh.w8 net_ipproto = IP_ICMP := rfl
  have hneUdp : ¬IP_ICMP = IP_UDP := by decide
  have hin : incoming (requestFrame iplen) = some (requestFrame iplen).ipNtoh.icmpNtoh := by
    rw [incoming, if_neg (not_not.mpr (hck iplen h)), if_neg (not_not.mpr hvh), hproto, if_neg hneUdp, if_pos rfl,
      if_neg (not_not.mpr (hsum iplen h))]
  refine ⟨?_, rfl⟩
  rw [passed_ipIn, Option.mem_toList, Option.filter_eq_some_iff]
  exact ⟨hin, by simp [accepts, hdst iplen h]⟩

/-- An echo request without data. -/
theorem icmp_lengths_bounded_header :
    CksumBounded (requestFrame 28) ∧
    (∀ (nd : Network) (ipid : Nat) (buf : Netpacket), ReplyBounded nd ipid (requestFrame 28).ipNtoh.icmpNtoh buf) ∧
    ∀ (c : Icmp) (slot : Int) (len : Nat) (out : Icmp × Next IcmpPoint),
      (c.icmptab slot).front = some (icmpMemory 0 (requestFrame 28).ipNtoh.icmpNtoh) → Echoes c slot len out →
        RecvBounded 0 (requestFrame 28).ipNtoh.icmpNtoh len c slot out := by
  have hlen : wire16 ((requestWorld 28).bufs 0) net_iplen = 28 := by decide
  obtain ⟨hcksum, hreply, hrecv⟩ :=
    icmp_lengths_bounded_iff id 0 (requestWorld 28) _ (requestFrame_passed (by decide)).1 (requestFrame_passed (by decide)).2
  refine ⟨hcksum.mpr (by omega), fun nd ipid buf => (hreply nd ipid buf).mpr (by omega), fun c slot len out hfront hout => ?_⟩
  exact (hrecv c slot len out hfront hout).mpr (by omega)

/-- An echo request whose length field is 24 is passed on, and answered with a length of -4. -/
theorem icmp_lengths_negative :
    ¬∀ (others : World → World) (p : Buf) (w : World), ∀ pkt ∈ passed (ipIn others p) w, pkt.w8 net_ipproto = IP_ICMP →
      pkt.w8 net_ictype = ICMP_ECHOREQST → ∀ (nd : Network) (ipid : Nat) (buf : Netpacket), ReplyBounded nd ipid pkt buf := by
  intro hall
  obtain ⟨hin, hicmp⟩ := requestFrame_passed (by decide : (24 : UInt8) ∈ ([24, 28] : List UInt8))
  have hreply := hall id 0 (requestWorld 24) _ hin hicmp rfl (requestWorld 24).netData 0 fun _ => 0
  have hfits := (replyBounded_iff _ _ _).mp hreply
  rw [icmpNtoh_iplen, ipNtoh_iplen] at hfits
  exact absurd hfits.1 (by decide)

end Ip

end Xinu
