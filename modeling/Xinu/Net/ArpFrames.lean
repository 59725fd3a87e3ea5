import Xinu.Net.ArpResolve

/-!
# ARP packets on a wire

What an ARP packet says (`message`), and the packets that `arp_resolve` and `arp_in` write. `netin` reads a packet into a buffer, of
which it fills the first bytes only, and reverses the type of the Ethernet header (`Arrives`); what arrives says what was assembled
(`said_eq`).
-/

namespace Xinu

namespace Arp

open Netpacket
open Ip (Network)

/-- What the fields of an ARP packet say, in host order. -/
structure Message where
  op : Nat
  sndha : List UInt8
  sndpa : Nat
  tarha : List UInt8
  tarpa : Nat
deriving Repr, DecidableEq

def message (pkt : Netpacket) : Message where
  op := pkt.w16 arp_op
  sndha := haddr pkt arp_sndha
  sndpa := pkt.w32 arp_sndpa
  tarha := haddr pkt arp_tarha
  tarpa := pkt.w32 arp_tarpa

/-- What a packet on the wire says. -/
def said (f : Netpacket) : Message := message (arpNtoh f)

/-- `netin` makes this packet of one on the wire. -/
def Arrives (f pktptr : Netpacket) : Prop := ∃ buf : Netpacket, (∀ j < arppacketSize, buf j = f j) ∧ pktptr = buf.ethNtoh

/-! ## Round trip -/

/-- Where `arp_ntoh` finds a byte. -/
def swapped (j : Nat) : Nat :=
  flip16 arp_htype (flip16 arp_ptype (flip16 arp_op (flip32 arp_sndpa (flip32 arp_tarpa j))))

theorem arpNtoh_eq (p : Netpacket) : arpNtoh p = fun j => p (swapped j) := by
  simp only [arpNtoh, swap32_eq, swap16_eq]
  rfl

/-- `arp_ntoh` stays in the part behind the Ethernet header, and undoes itself. -/
theorem swapped_spec : ∀ j < arppacketSize, arp_htype ≤ j →
    arp_htype ≤ swapped j ∧ swapped j < arppacketSize ∧ swapped (swapped j) = j := by
  decide

variable {p q : Netpacket}

theorem message_congr (h : ∀ j < arppacketSize, arp_htype ≤ j → p j = q j) : message p = message q := by
  have hw32 : ∀ o, arp_htype ≤ o → o + 4 ≤ arppacketSize → p.w32 o = q.w32 o := fun o h1 h2 =>
    w32_congr fun i hi => h _ (by omega) (by omega)
  have hhaddr : ∀ o, arp_htype ≤ o → o + ARP_HALEN ≤ arppacketSize → haddr p o = haddr q o := fun o h1 h2 =>
    List.map_congr_left fun j hj => h _ (by have := List.mem_range.mp hj; omega) (by omega)
  have hop : p.w16 arp_op = q.w16 arp_op := by
    rw [w16, w16, h arp_op (by decide) (by decide), h (arp_op + 1) (by decide) (by decide)]
  unfold message
  rw [hop, hhaddr arp_sndha (by decide) (by decide), hw32 arp_sndpa (by decide) (by decide),
    hhaddr arp_tarha (by decide) (by decide), hw32 arp_tarpa (by decide) (by decide)]

/-- What arrives says what was sent. -/
theorem Arrives.message {f pktptr : Netpacket} (h : Arrives f pktptr) : message (arpNtoh pktptr) = said f := by
  obtain ⟨buf, hbuf, rfl⟩ := h
  refine message_congr fun j hj hj' => ?_
  obtain ⟨h1, h2, -⟩ := swapped_spec j hj hj'
  have hout : swapped j ≠ net_ethtype ∧ swapped j ≠ net_ethtype + 1 := by
    have : net_ethtype + 1 < arp_htype := by decide
    omega
  rw [arpNtoh_eq, arpNtoh_eq]
  change buf.ethNtoh (swapped j) = f (swapped j)
  rw [ethNtoh, swap16, put16_of_ne hout.1 hout.2]
  exact hbuf _ h2

/-- The packet that is assembled, before the fields are reversed. -/
def assembled (ethdst ethsrc : List UInt8) (op : Nat) (sndha : List UInt8) (sndpa : Nat) (tarha : List UInt8) (tarpa : Nat) :
    Netpacket :=
  let apkt : Netpacket := fun _ => 0
  let apkt := putHaddr apkt arp_ethdst ethdst
  let apkt := putHaddr apkt arp_ethsrc ethsrc
  let apkt := apkt.put16 arp_ethtype ETH_ARP
  let apkt := apkt.put16 arp_htype ARP_HTYPE
  let apkt := apkt.put16 arp_ptype ARP_PTYPE
  let apkt := apkt.put8 arp_hlen ARP_HALEN
  let apkt := apkt.put8 arp_plen ARP_PALEN
  let apkt := apkt.put16 arp_op op
  let apkt := putHaddr apkt arp_sndha sndha
  let apkt := apkt.put32 arp_sndpa sndpa
  let apkt := putHaddr apkt arp_tarha tarha
  apkt.put32 arp_tarpa tarpa

section Packets

variable {ethdst ethsrc sndha tarha : List UInt8} {op sndpa tarpa : Nat}

/-- `arp_ntoh` finds what was assembled. -/
theorem said_arppacket :
    said (arppacket ethdst ethsrc op sndha sndpa tarha tarpa) = message (assembled ethdst ethsrc op sndha sndpa tarha tarpa) := by
  refine message_congr fun j hj hj' => ?_
  obtain ⟨h1, -, h3⟩ := swapped_spec j hj hj'
  have hout : swapped j ≠ net_ethtype ∧ swapped j ≠ net_ethtype + 1 := by
    have : net_ethtype + 1 < arp_htype := by decide
    omega
  rw [arpNtoh_eq]
  change (arpNtoh (assembled ethdst ethsrc op sndha sndpa tarha tarpa)).ethHton (swapped j) = _
  rw [ethHton, swap16, put16_of_ne hout.1 hout.2, arpNtoh_eq]
  exact congrArg _ h3

/-- A hardware address that is put in a packet. -/
theorem haddr_putHaddr {o : Nat} {ha : List UInt8} (h : ha.length = ARP_HALEN) : haddr (putHaddr p o ha) o = ha := by
  refine List.ext_getElem (by simp [haddr, h]) fun j hj _ => ?_
  have hj' : j < ARP_HALEN := by simpa [haddr] using hj
  simp only [haddr, List.getElem_map, List.getElem_range, putHaddr, copy_add hj']
  rw [List.getD_eq_getElem?_getD, List.getElem?_eq_getElem (h ▸ hj'), Option.getD_some]

theorem putHaddr_of_outside {o j : Nat} {ha : List UInt8} (h : j < o ∨ o + ARP_HALEN ≤ j) : putHaddr p o ha j = p j :=
  copy_of_outside h

theorem haddr_congr {o : Nat} (h : ∀ j, o ≤ j → j < o + ARP_HALEN → p j = q j) : haddr p o = haddr q o :=
  List.map_congr_left fun j hj => h _ (by omega) (by have := List.mem_range.mp hj; omega)

/-- The address and the hardware address of the target, which are assigned last, leave what is before them. -/
theorem target_of_before {j : Nat} (h : j < arp_tarha) : (putHaddr p arp_tarha tarha).put32 arp_tarpa tarpa j = p j := by
  have hle : arp_tarha ≤ arp_tarpa := by decide
  rw [put32_of_outside (Or.inl (by omega)), putHaddr_of_outside (Or.inl h)]

/-- And those of the sender. -/
theorem sender_of_before {j : Nat} (h : j < arp_sndha) : (putHaddr p arp_sndha sndha).put32 arp_sndpa sndpa j = p j := by
  have hle : arp_sndha ≤ arp_sndpa := by decide
  rw [put32_of_outside (Or.inl (by omega)), putHaddr_of_outside (Or.inl h)]

/-- Every field says what it was assigned. -/
theorem message_assembled (hop : op < 65536) (hsndha : sndha.length = ARP_HALEN) (hsndpa : sndpa < 4294967296)
    (htarha : tarha.length = ARP_HALEN) (htarpa : tarpa < 4294967296) :
    message (assembled ethdst ethsrc op sndha sndpa tarha tarpa) = ⟨op, sndha, sndpa, tarha, tarpa⟩ := by
  have hsndpa_put : ∀ (p : Netpacket) (j : Nat), j < arp_sndpa → p.put32 arp_sndpa sndpa j = p j := fun _ _ h =>
    put32_of_outside (Or.inl h)
  unfold assembled message
  simp only
  congr 1
  · rw [w16, target_of_before (by decide), target_of_before (by decide), sender_of_before (by decide),
      sender_of_before (by decide)]
    exact w16_put16 arp_op hop
  · rw [haddr_congr fun j _ h => target_of_before (Nat.lt_of_lt_of_le h (by decide)),
      haddr_congr fun j _ h => hsndpa_put _ j (Nat.lt_of_lt_of_le h (by decide))]
    exact haddr_putHaddr hsndha
  · rw [w32_congr fun i hi => target_of_before (Nat.lt_of_lt_of_le (Nat.add_lt_add_left hi _) (by decide))]
    exact w32_put32 arp_sndpa hsndpa
  · rw [haddr_congr fun j _ h => put32_of_outside (Or.inl (Nat.lt_of_lt_of_le h (by decide)))]
    exact haddr_putHaddr htarha
  · exact w32_put32 arp_tarpa htarpa

/-- The round trip of an ARP packet. -/
theorem said_eq (hop : op < 65536) (hsndha : sndha.length = ARP_HALEN) (hsndpa : sndpa < 4294967296)
    (htarha : tarha.length = ARP_HALEN) (htarpa : tarpa < 4294967296) :
    said (arppacket ethdst ethsrc op sndha sndpa tarha tarpa) = ⟨op, sndha, sndpa, tarha, tarpa⟩ :=
  said_arppacket.trans (message_assembled hop hsndha hsndpa htarha htarpa)

end Packets

/-! ## What is written -/

/-- The addresses are as they are in the source: an IP address has 32 bits, a hardware address six bytes. -/
structure WellFormed (netData : Network) : Prop where
  ipucast : netData.ipucast < 4294967296
  ethucast : netData.ethucast.length = ARP_HALEN

namespace Table

/-- The request of `arp_resolve`. -/
def request (d : Table) (nxthop : Nat) : Netpacket :=
  arppacket d.netData.ethbcast d.netData.ethucast ARP_OP_REQ d.netData.ethucast d.netData.ipucast
    (List.replicate ARP_HALEN 0) nxthop

/-- The reply of `arp_in` to a request in host order. -/
def reply (d : Table) (pkt : Netpacket) : Netpacket :=
  arppacket (haddr pkt arp_sndha) d.netData.ethucast ARP_OP_RPLY d.netData.ethucast d.netData.ipucast
    (haddr pkt arp_sndha) (pkt.w32 arp_sndpa)

variable {d : Table}

theorem said_request (h : WellFormed d.netData) {nxthop : Nat} (hlt : nxthop < 4294967296) : said (d.request nxthop) =
    ⟨ARP_OP_REQ, d.netData.ethucast, d.netData.ipucast, List.replicate ARP_HALEN 0, nxthop⟩ :=
  said_eq (by decide) h.ethucast h.ipucast List.length_replicate hlt

theorem said_reply (h : WellFormed d.netData) (pkt : Netpacket) : said (d.reply pkt) =
    ⟨ARP_OP_RPLY, d.netData.ethucast, d.netData.ipucast, (message pkt).sndha, (message pkt).sndpa⟩ :=
  said_eq (by decide) h.ethucast h.ipucast (by simp [haddr]) (w32_lt _)

end Table

end Arp

end Xinu
