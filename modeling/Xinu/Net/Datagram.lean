import Xinu.Theorems.Loopback

/-!
# Datagrams on the wire

What `udp_send` and `udp_sendto` make a frame of (`Datagram`), and that whoever passes the frame on finds in it what was sent
(`Datagram.arrived`).
-/

namespace Xinu

namespace Ip

open Netpacket hiding IP_HDR_LEN UDP_HDR_LEN ICMP_HDR_LEN

/-- What `udp_send` and `udp_sendto` make a packet of: `buf` is what is in the buffer before, and `mac` the Ethernet destination. -/
structure Datagram where
  netData : Network
  ident : Nat
  remip : Nat
  locport : Nat
  remport : Nat
  buff : Nat → UInt8
  len : Int
  buf : Netpacket
  mac : List UInt8

namespace Datagram

variable (d : Datagram)

/-- The packet that is passed to `ip_out`. -/
def packet : Netpacket :=
  Arp.putHaddr (udpPkt d.netData d.ident d.remip d.locport d.remport d.buff d.len d.buf) net_ethdst d.mac

/-- The frame that is written. -/
def frame : List UInt8 := (outgoing d.packet).bytes (d.packet.w16 net_iplen + ETH_HDR_LEN)

/-- The data of the caller. -/
def data : List Nat := (List.range d.len.toNat).map fun j => (d.buff j).toNat

/-- `ip_out` writes the frame. -/
theorem written_frame (others : World → World) {p : Buf} {w : World} (h : w.bufs p = d.packet) :
    written (ipOut others p) w = [d.frame] := by
  rw [written_ipOut, h, frame]

end Datagram

/-! ## The fields of a packet that is built -/

section Fields

variable {p q : Netpacket} {len : Nat} {sums : List Nat}

/-- A field of two bytes, read back. -/
theorem w16_put16_mod (o v : Nat) : (p.put16 o v).w16 o = v % 65536 := by
  have h : p.put16 o v = p.put16 o (v % 65536) := by
    funext j
    rw [put16_apply, put16_apply]
    have h1 : UInt8.ofNat v = UInt8.ofNat (v % 65536) := by
      apply UInt8.toNat_inj.mp
      rw [UInt8.toNat_ofNat', UInt8.toNat_ofNat']
      omega
    have h2 : UInt8.ofNat (v / 256) = UInt8.ofNat (v % 65536 / 256) := by
      apply UInt8.toNat_inj.mp
      rw [UInt8.toNat_ofNat', UInt8.toNat_ofNat']
      omega
    rw [h1, h2]
  rw [h]
  exact w16_put16 o (Nat.mod_lt _ (by decide))

/-- A field of four bytes, read back. -/
theorem w32_put32_mod (o v : Nat) : (p.put32 o v).w32 o = v % 4294967296 := by
  have hlow : (p.put32 o v).w16 o = v % 65536 := by
    have hb : ∀ j, j = o ∨ j = o + 1 → (p.put16 o v).put16 (o + 2) (v / 65536) j = p.put16 o v j := fun j hj =>
      put16_of_ne (by omega) (by omega)
    rw [put32, w16, hb o (Or.inl rfl), hb (o + 1) (Or.inr rfl)]
    exact w16_put16_mod o v
  have hhigh : (p.put32 o v).w16 (o + 2) = v / 65536 % 65536 := w16_put16_mod (o + 2) (v / 65536)
  rw [w32, hlow, hhigh]
  omega

theorem w16_congr {o : Nat} (h0 : p o = q o) (h1 : p (o + 1) = q (o + 1)) : p.w16 o = q.w16 o := by
  rw [w16, w16, h0, h1]

/-- Another field is not changed. -/
theorem w16_put16_of_ne {o o' : Nat} (v : Nat) (h : o + 1 < o' ∨ o' + 1 < o) : (p.put16 o' v).w16 o = p.w16 o :=
  w16_congr (put16_of_ne (by omega) (by omega)) (put16_of_ne (by omega) (by omega))

theorem w16_copy_of_lt {o o' n : Nat} (src : Nat → UInt8) (h : o + 1 < o') : (p.copy o' src n).w16 o = p.w16 o :=
  w16_congr (copy_of_outside (Or.inl (by omega))) (copy_of_outside (Or.inl h))

/-- The Ethernet addresses do not matter. -/
theorem HostOrder.congr (h : HostOrder p len) (hpq : ∀ j, 12 ≤ j → q j = p j) : HostOrder q len where
  ethtype := (w16_congr (hpq _ (by decide)) (hpq _ (by decide))).trans h.ethtype
  vh := (congrArg UInt8.toNat (hpq net_ipvh (by decide))).trans h.vh
  iplen := (w16_congr (hpq _ (by decide)) (hpq _ (by decide))).trans h.iplen
  short := h.short

/-- A byte of an IP packet that is none of the checksums arrives as it was sent. -/
theorem SameFields.byte (S : SameFields p q) (h : HostOrder p len) (hs : checksums p = sums) {j : Nat} (hj : 14 ≤ j)
    (hj' : j < 42 + len) (hc : j ∉ sums) : q j = p j := by
  have hlen := h.iplen
  exact S j (by unfold net_ipvh; omega) (by unfold ETH_HDR_LEN; omega) (hs ▸ hc)

/-- A field of the headers is kept that is none of the checksums. -/
theorem SameFields.w16 (S : SameFields p q) (h : HostOrder p len) (hs : checksums p = sums) {o : Nat} (ho : 14 ≤ o)
    (ho' : o + 2 ≤ 42) (hc : ∀ i < 2, o + i ∉ sums) : q.w16 o = p.w16 o :=
  w16_congr (S.byte h hs ho (by omega) (hc 0 (by decide))) (S.byte h hs (by omega) (by omega) (hc 1 (by decide)))

theorem SameFields.w32 (S : SameFields p q) (h : HostOrder p len) (hs : checksums p = sums) {o : Nat} (ho : 14 ≤ o)
    (ho' : o + 4 ≤ 42) (hc : ∀ i < 4, o + i ∉ sums) : q.w32 o = p.w32 o :=
  w32_congr fun i hi => S.byte h hs (by omega) (by omega) (hc i hi)

/-- What the header of a packet says that is built. -/
theorem ipHeader_addresses (nd : Network) (iplen ipid proto remip : Nat) (p : Netpacket) :
    (ipHeader nd iplen ipid proto remip p).w32 net_ipsrc = nd.ipucast % 4294967296 ∧
      (ipHeader nd iplen ipid proto remip p).w32 net_ipdst = remip % 4294967296 := by
  refine ⟨?_, w32_put32_mod net_ipdst remip⟩
  refine (w32_congr fun i hi => put32_of_outside (Or.inl ?_)).trans (w32_put32_mod net_ipsrc nd.ipucast)
  unfold net_ipsrc net_ipdst
  omega

end Fields

namespace Datagram

/-- What a receiver reads in the packet is what was sent. -/
structure Carries (d : Datagram) (r : Netpacket) : Prop where
  src : r.w32 net_ipsrc = d.netData.ipucast % 4294967296
  dst : r.w32 net_ipdst = d.remip % 4294967296
  sport : r.w16 net_udpsport = d.locport % 65536
  dport : r.w16 net_udpdport = d.remport % 65536
  udplen : r.w16 net_udplen = 8 + d.len.toNat
  data : ∀ j < d.len.toNat, r (net_udpdata + j) = d.buff j

variable {d : Datagram} (h0 : 0 ≤ d.len) (h : d.len ≤ 1472)

theorem packet_apply {j : Nat} (hj : 6 ≤ j) :
    d.packet j = udpPkt d.netData d.ident d.remip d.locport d.remport d.buff d.len d.buf j := by
  rw [packet, Arp.putHaddr, copy_of_outside (Or.inr hj)]

include h0 h

theorem packet_hostOrder : HostOrder d.packet d.len.toNat ∧ d.packet.w8 net_ipproto = IP_UDP := by
  obtain ⟨h1, h2⟩ := hostOrder_of_header d.len.toNat (by omega) (by decide) fun j hj =>
    udpPkt_header d.netData d.ident d.remip d.locport d.remport d.buff d.buf h0 h hj
  refine ⟨h1.congr fun j hj => packet_apply (by omega), ?_⟩
  rw [w8, packet_apply (by decide)]
  exact h2

/-- The packet that is built says what it is built of. -/
theorem carries_packet : d.Carries d.packet := by
  have hheader : ∀ o, 6 ≤ o → o + 4 ≤ 34 → d.packet.w32 o =
      (ipHeader d.netData (28 + d.len.toNat) d.ident IP_UDP d.remip d.buf).w32 o := fun o ho ho' =>
    w32_congr fun i hi => (packet_apply (by omega)).trans
      (udpPkt_header d.netData d.ident d.remip d.locport d.remport d.buff d.buf h0 h (by omega))
  have hfield : ∀ o, 6 ≤ o → d.packet.w16 o =
      (udpPkt d.netData d.ident d.remip d.locport d.remport d.buff d.len d.buf).w16 o := fun o ho =>
    w16_congr (packet_apply (by omega)) (packet_apply (by omega))
  obtain ⟨hsrc, hdst⟩ := ipHeader_addresses d.netData (28 + d.len.toNat) d.ident IP_UDP d.remip d.buf
  refine ⟨(hheader _ (by decide) (by decide)).trans hsrc, (hheader _ (by decide) (by decide)).trans hdst, ?_, ?_, ?_, ?_⟩
  · rw [hfield _ (by decide), udpPkt, w16_copy_of_lt _ (by decide), w16_put16_of_ne _ (by decide), w16_put16_of_ne _ (by decide),
      w16_put16_of_ne _ (by decide), w16_put16_mod]
  · rw [hfield _ (by decide), udpPkt, w16_copy_of_lt _ (by decide), w16_put16_of_ne _ (by decide), w16_put16_of_ne _ (by decide),
      w16_put16_mod]
  · rw [hfield _ (by decide), udpPkt, w16_copy_of_lt _ (by decide), w16_put16_of_ne _ (by decide), w16_put16_mod]
    unfold UDP_HDR_LEN
    omega
  · intro j hj
    rw [packet_apply (by unfold net_udpdata; omega)]
    exact copy_add hj

omit h0 h in
/-- The packet may be moved, as long as its fields are the same. -/
theorem Carries.same {r : Netpacket} (C : d.Carries d.packet) (hpkt : HostOrder d.packet d.len.toNat)
    (hudp : d.packet.w8 net_ipproto = IP_UDP) (S : SameFields d.packet r) : d.Carries r := by
  have hsums : checksums d.packet = [24, 25, 40, 41] := by
    rw [checksums, if_pos hudp]
    rfl
  refine ⟨(S.w32 hpkt hsums (by decide) (by decide) (by decide)).trans C.src,
    (S.w32 hpkt hsums (by decide) (by decide) (by decide)).trans C.dst,
    (S.w16 hpkt hsums (by decide) (by decide) (by decide)).trans C.sport,
    (S.w16 hpkt hsums (by decide) (by decide) (by decide)).trans C.dport,
    (S.w16 hpkt hsums (by decide) (by decide) (by decide)).trans C.udplen, fun j hj => ?_⟩
  have hdata : net_udpdata = 42 := rfl
  refine (S.byte hpkt hsums (by omega) (by omega) ?_).trans (C.data j hj)
  simp only [List.mem_cons, List.not_mem_nil, or_false]
  omega

/-- What a machine passes on of the frame is what was sent, and for this machine. -/
theorem arrived {others : World → World} {q : Buf} {w : World} {r : Netpacket}
    (hframe : (w.bufs q).bytes d.frame.length = d.frame) (hr : r ∈ passed (demux others q) w) :
    d.Carries r ∧ accepts w.netData r = true := by
  obtain ⟨hpkt, hudp⟩ := packet_hostOrder h0 h
  obtain ⟨hbytes, hpassed⟩ := passed_frame hpkt others q hframe
  obtain ⟨hin, hsame⟩ := incoming_udp hpkt hbytes hudp
  rw [hpassed, hin, Option.mem_toList, Option.filter_eq_some_iff] at hr
  obtain ⟨hr, hacc⟩ := hr
  obtain rfl := Option.some.inj hr
  exact ⟨(carries_packet h0 h).same hpkt hudp hsame, hacc⟩

end Datagram

end Ip

end Xinu
