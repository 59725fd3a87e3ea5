import Xinu.Net.Datagram

/-!
# Echo messages on the wire

What `icmp_mkpkt` makes a frame of (`Echo`), that whoever passes the frame on finds in it what was sent (`Echo.arrived`), and the reply
that `icmp_in` makes of a request (`Echo.reply`).
-/

namespace Xinu

namespace Ip

open Netpacket hiding IP_HDR_LEN UDP_HDR_LEN ICMP_HDR_LEN

/-- What `icmp_mkpkt` makes a packet of: `p` is what is in the buffer before, and `mac` the Ethernet destination. -/
structure Echo where
  netData : Network
  ipid : Nat
  remip : Nat
  type : Nat
  ident : Nat
  seq : Nat
  buf : Nat → UInt8
  len : Int
  p : Netpacket
  mac : List UInt8

namespace Echo

variable (d : Echo)

/-- The packet that is passed to `ip_out`. -/
def packet : Netpacket :=
  Arp.putHaddr (icmpPkt d.netData d.ipid d.remip d.type d.ident d.seq d.buf d.len d.p) net_ethdst d.mac

/-- The frame that is written. -/
def frame : List UInt8 := (outgoing d.packet).bytes (d.packet.w16 net_iplen + ETH_HDR_LEN)

def data : List Nat := (List.range d.len.toNat).map fun j => (d.buf j).toNat

/-- `ip_out` writes the frame. -/
theorem written_frame (others : World → World) {b : Buf} {w : World} (h : w.bufs b = d.packet) :
    written (ipOut others b) w = [d.frame] := by
  rw [written_ipOut, h, frame]

/-- The reply of `icmp_in` to a request in host order. -/
def reply (netData : Network) (ipid : Nat) (pkt p : Netpacket) (mac : List UInt8) : Echo where
  netData := netData
  ipid := ipid
  remip := pkt.w32 net_ipsrc
  type := ICMP_ECHOREPLY
  ident := pkt.w16 net_icident
  seq := pkt.w16 net_icseq
  buf := fun j => pkt (net_icdata + j)
  len := pkt.w16 net_iplen - IP_HDR_LEN - ICMP_HDR_LEN
  p := p
  mac := mac

/-- What a receiver reads in the packet is what was sent. -/
structure Carries (d : Echo) (r : Netpacket) : Prop where
  src : r.w32 net_ipsrc = d.netData.ipucast % 4294967296
  dst : r.w32 net_ipdst = d.remip % 4294967296
  iplen : r.w16 net_iplen = 28 + d.len.toNat
  type : r.w8 net_ictype = d.type % 256
  ident : r.w16 net_icident = d.ident % 65536
  seq : r.w16 net_icseq = d.seq % 65536
  data : ∀ j < d.len.toNat, r (net_icdata + j) = d.buf j

variable {d} (h0 : 0 ≤ d.len) (h : d.len ≤ 1472)

theorem packet_apply {j : Nat} (hj : 6 ≤ j) :
    d.packet j = icmpPkt d.netData d.ipid d.remip d.type d.ident d.seq d.buf d.len d.p j := by
  rw [packet, Arp.putHaddr, copy_of_outside (Or.inr hj)]

include h0 h

theorem packet_hostOrder : HostOrder d.packet d.len.toNat ∧ d.packet.w8 net_ipproto = IP_ICMP := by
  obtain ⟨h1, h2⟩ := hostOrder_of_header d.len.toNat (by omega) (by decide) fun j hj =>
    icmpPkt_header d.netData d.ipid d.remip d.type d.ident d.seq d.buf d.p h0 h hj
  refine ⟨h1.congr fun j hj => packet_apply (by omega), ?_⟩
  rw [w8, packet_apply (by decide)]
  exact h2

/-- The packet that is built says what it is built of. -/
theorem carries_packet : d.Carries d.packet := by
  have hheader : ∀ o, 6 ≤ o → o + 4 ≤ 34 → d.packet.w32 o =
      (ipHeader d.netData (28 + d.len.toNat) d.ipid IP_ICMP d.remip d.p).w32 o := fun o ho ho' =>
    w32_congr fun i hi => (packet_apply (by omega)).trans
      (icmpPkt_header d.netData d.ipid d.remip d.type d.ident d.seq d.buf d.p h0 h (by omega))
  have hfield : ∀ o, 6 ≤ o → d.packet.w16 o =
      (icmpPkt d.netData d.ipid d.remip d.type d.ident d.seq d.buf d.len d.p).w16 o := fun o ho =>
    w16_congr (packet_apply (by omega)) (packet_apply (by omega))
  obtain ⟨hsrc, hdst⟩ := ipHeader_addresses d.netData (28 + d.len.toNat) d.ipid IP_ICMP d.remip d.p
  refine ⟨(hheader _ (by decide) (by decide)).trans hsrc, (hheader _ (by decide) (by decide)).trans hdst,
    (packet_hostOrder h0 h).1.iplen, ?_, ?_, ?_, ?_⟩
  · rw [w8, packet_apply (by decide), icmpPkt, copy_of_outside (Or.inl (by decide)), put16_of_ne (by decide) (by decide),
      put16_of_ne (by decide) (by decide), put16_of_ne (by decide) (by decide), put8_of_ne (by decide), put8_apply, if_pos rfl,
      UInt8.toNat_ofNat']
  · rw [hfield _ (by decide), icmpPkt, w16_copy_of_lt _ (by decide), w16_put16_of_ne _ (by decide), w16_put16_mod]
  · rw [hfield _ (by decide), icmpPkt, w16_copy_of_lt _ (by decide), w16_put16_mod]
  · intro j hj
    rw [packet_apply (by unfold net_icdata; omega)]
    exact copy_add hj

omit h0 h in
theorem Carries.same {r : Netpacket} (C : d.Carries d.packet) (hpkt : HostOrder d.packet d.len.toNat)
    (hicmp : d.packet.w8 net_ipproto = IP_ICMP) (S : SameFields d.packet r) : d.Carries r := by
  have hsums : checksums d.packet = [24, 25, 36, 37] := by
    rw [checksums, hicmp, if_neg (by decide)]
    rfl
  have htype : r net_ictype = d.packet net_ictype :=
    S.byte hpkt hsums (by decide) (by unfold net_ictype; omega) (by decide)
  refine ⟨(S.w32 hpkt hsums (by decide) (by decide) (by decide)).trans C.src,
    (S.w32 hpkt hsums (by decide) (by decide) (by decide)).trans C.dst,
    (S.w16 hpkt hsums (by decide) (by decide) (by decide)).trans C.iplen, (congrArg UInt8.toNat htype).trans C.type,
    (S.w16 hpkt hsums (by decide) (by decide) (by decide)).trans C.ident,
    (S.w16 hpkt hsums (by decide) (by decide) (by decide)).trans C.seq, fun j hj => ?_⟩
  have hdata : net_icdata = 42 := rfl
  refine (S.byte hpkt hsums (by omega) (by omega) ?_).trans (C.data j hj)
  simp only [List.mem_cons, List.not_mem_nil, or_false]
  omega

/-- What a machine passes on of the frame is what was sent, and for this machine. -/
theorem arrived {others : World → World} {q : Buf} {w : World} {r : Netpacket}
    (hframe : (w.bufs q).bytes d.frame.length = d.frame) (hr : r ∈ passed (demux others q) w) :
    d.Carries r ∧ accepts w.netData r = true := by
  obtain ⟨hpkt, hicmp⟩ := packet_hostOrder h0 h
  obtain ⟨hbytes, hpassed⟩ := passed_frame hpkt others q hframe
  obtain ⟨hin, hsame⟩ := incoming_icmp hpkt hbytes hicmp
  rw [hpassed, hin, Option.mem_toList, Option.filter_eq_some_iff] at hr
  obtain ⟨hr, hacc⟩ := hr
  split_ifs at hr
  obtain rfl := Option.some.inj hr
  exact ⟨(carries_packet h0 h).same hpkt hicmp hsame, hacc⟩

end Echo

/-- The data of a packet as ICMP sees it. -/
theorem Echo.Carries.icdata {d : Echo} {r : Netpacket} (C : d.Carries r) (h : d.len ≤ 1472) (b : Buf) :
    (icmpPacket b r).net_icdata.take d.len.toNat = d.data := by
  rw [icmpPacket, ← List.map_take, List.take_range, Nat.min_eq_left (by omega), Echo.data]
  exact List.map_congr_left fun j hj => congrArg UInt8.toNat (C.data j (List.mem_range.mp hj))

/-- The reply to what was sent has its length, its identification, its number and its data. -/
theorem Echo.Carries.reply {d : Echo} {r : Netpacket} (C : d.Carries r) (netData : Network) (ipid : Nat) (p : Netpacket)
    (mac : List UInt8) : (Echo.reply netData ipid r p mac).len = d.len.toNat ∧ (Echo.reply netData ipid r p mac).data = d.data := by
  have hlen : (Echo.reply netData ipid r p mac).len = d.len.toNat := by
    change (r.w16 net_iplen : Int) - IP_HDR_LEN - ICMP_HDR_LEN = _
    rw [C.iplen]
    unfold IP_HDR_LEN ICMP_HDR_LEN
    omega
  refine ⟨hlen, ?_⟩
  rw [Echo.data, Echo.data, hlen, Int.toNat_natCast]
  exact List.map_congr_left fun j hj => congrArg UInt8.toNat (C.data j (List.mem_range.mp hj))

end Ip

end Xinu
