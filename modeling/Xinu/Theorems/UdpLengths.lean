import Xinu.Theorems.Loopback
import Xinu.Net.Udp

/-!
# Lengths of received UDP packets

`udp_recv` and `udp_recvaddr` take the number of bytes to copy from the length field of the UDP header, which nothing on the way
from `ip_in` compares with the frame. The number stays within the packet exactly when the field counts its own header and either
the field or the caller's buffer is within the packet; a smaller field makes the result negative.
-/

namespace Xinu

namespace Ip

open Netpacket hiding IP_HDR_LEN UDP_HDR_LEN ICMP_HDR_LEN

/-- The size of `net_udpdata`. -/
def UDP_DATA : Nat := 1472

/-- What UDP sees of a packet, with the memory behind the data area, as far as a length field can reach. -/
def udpMemory (p : Buf) (pkt : Netpacket) : UdpPacket :=
  { udpPacket p pkt with net_udpdata := (List.range 65535).map fun j => (pkt (net_udpdata + j)).toNat }

/-- A field of two bytes as it stands on the wire. -/
def wire16 (frame : Netpacket) (o : Nat) : Nat := 256 * (frame o).toNat + (frame (o + 1)).toNat

/-- The bytes behind the UDP header in a frame of `size` bytes. -/
def behindHeader (size : Nat) : Nat := size - net_udpdata

/-- The bytes behind the UDP header that the IP length covers. -/
def coveredByIp (frame : Netpacket) (size : Nat) : Nat := min (behindHeader size) (wire16 frame net_iplen - 28)

/-- The two ends of `udp_recv` and `udp_recvaddr` that deliver a packet: one is queued when the call is made, or `recvtime`
reports its arrival. -/
inductive Delivers (u : Udp) (slot len : Int) (addr : Bool) : Udp × Next UdpPoint → Prop
  | queued (pid : Int) (timeout : Nat) (h0 : 0 ≤ slot) (h : slot < UDP_SLOTS) (hused : (u.udptab slot).udstate = .UDP_USED)
      (hcount : (u.udptab slot).udcount ≠ 0) : Delivers u slot len addr (u.recv pid slot len timeout addr)
  | waited : Delivers u slot len addr (u.wake slot len addr OK)

/-- The result is a number of bytes within the buffer, the payload and the data area, and these bytes of the frame are stored. -/
def WithinPacket (frame : Netpacket) (payload len : Nat) (u : Udp) (slot : Int) (out : Udp × Next UdpPoint) : Prop :=
  ∃ (r : Nat) (pkt : UdpPacket) (bytes : List Nat) (sender : Option (Nat × Nat)),
    out.2 = .call (.signal u.netbufsem) (.done r) ∧ out.1.log = .freed pkt :: .delivered slot pkt bytes sender :: u.log ∧
      r ≤ len ∧ r ≤ payload ∧ r ≤ UDP_DATA ∧ bytes = (List.range r).map fun j => (frame (net_udpdata + j)).toNat

/-- The length field counts its own header, and the field or the buffer is within the payload and the data area. -/
def FieldFits (frame : Netpacket) (payload len : Nat) : Prop :=
  8 ≤ wire16 frame net_udplen ∧ (len ≤ min payload UDP_DATA ∨ wire16 frame net_udplen - 8 ≤ min payload UDP_DATA)

section

variable {frame pkt : Netpacket} {u : Udp} {slot : Int} {addr : Bool} {len payload : Nat} {out : Udp × Next UdpPoint} {p : Buf}

/-- What is passed on of a UDP packet is the frame with its headers in host order. -/
theorem incoming_eq (h : incoming frame = some pkt) (hudp : pkt.w8 net_ipproto = IP_UDP) : pkt = frame.ipNtoh.udpNtoh := by
  have hicmp : ∀ q : Netpacket, q.icmpNtoh.w8 net_ipproto = q.w8 net_ipproto := fun q => by
    rw [icmpNtoh_eq]
    rfl
  unfold incoming at h
  split_ifs at h with h1 h2 h3 h4 h5
  · exact (Option.some.inj h).symm
  · obtain rfl := Option.some.inj h
    rw [hicmp] at hudp
    exact absurd hudp h3
  · obtain rfl := Option.some.inj h
    exact absurd hudp h3

/-- The length field in host order. -/
theorem incoming_udplen : (frame.ipNtoh.udpNtoh).w16 net_udplen = wire16 frame net_udplen := by
  have hlow : flipIp (flipUdp net_udplen) = net_udplen + 1 := by decide
  have hhigh : flipIp (flipUdp (net_udplen + 1)) = net_udplen := by decide
  rw [w16, udpNtoh_apply, ipNtoh_apply, udpNtoh_apply, ipNtoh_apply, hlow, hhigh, wire16]
  omega

/-- The payload is not changed. -/
theorem incoming_data (j : Nat) : (frame.ipNtoh.udpNtoh) (net_udpdata + j) = frame (net_udpdata + j) := by
  have hj : 42 ≤ net_udpdata + j := Nat.le_add_right _ _
  rw [udpNtoh_apply, ipNtoh_apply, flipUdp_of_ge (by omega), flipIp_of_ge (by omega)]

theorem wire16_lt (frame : Netpacket) (o : Nat) : wire16 frame o < 65536 := by
  have h1 := (frame o).toNat_lt
  have h2 := (frame (o + 1)).toNat_lt
  unfold wire16
  omega

/-- Delivery takes the packet at the head of the queue. -/
theorem Delivers.result {q : UdpPacket} (h : Delivers u slot len addr out)
    (hq : (u.udptab slot).udqueue (u.udptab slot).udhead = some q) :
    out.2 = .call (.signal u.netbufsem) (.done (min (len : Int) (q.net_udplen - UDP_HDR_LEN))) ∧ ∃ sender,
      out.1.log = .freed q :: .delivered slot q
        (q.net_udpdata.take (min (len : Int) (q.net_udplen - UDP_HDR_LEN)).toNat) sender :: u.log := by
  have hmin : ∀ a b : Int, (if a < b then a else b) = min a b := by
    intro a b
    split_ifs <;> omega
  cases h with
  | queued pid timeout h0 h hused hcount =>
    unfold Udp.recv
    rw [if_neg (by omega), if_neg (not_not.mpr hused), if_neg hcount, Udp.dequeue, hq]
    simp only [hmin]
    exact ⟨trivial, _, rfl⟩
  | waited =>
    have hOK : ¬OK = uint32 TIMEOUT := by decide
    unfold Udp.wake
    simp only [hOK, ne_eq, not_true_eq_false, if_false]
    rw [Udp.dequeue]
    simp only [Udp.setSlot, Function.update_self, hq, hmin]
    exact ⟨trivial, _, rfl⟩

/-- The bytes that are copied are those of the frame, also those behind it. -/
theorem udpMemory_take (p : Buf) (frame : Netpacket) {n : Nat} (h : n ≤ 65535) :
    ((udpMemory p frame.ipNtoh.udpNtoh).net_udpdata.take n) = (List.range n).map fun j => (frame (net_udpdata + j)).toNat := by
  have hmin : min n 65535 = n := Nat.min_eq_left h
  simp only [udpMemory, incoming_data, ← List.map_take, List.take_range, hmin]

/-- A delivery of what `ip_in` has made of a frame. -/
theorem withinPacket_iff (payload : Nat) (h : Delivers u slot len addr out)
    (hq : (u.udptab slot).udqueue (u.udptab slot).udhead = some (udpMemory p frame.ipNtoh.udpNtoh)) :
    WithinPacket frame payload len u slot out ↔ FieldFits frame payload len := by
  obtain ⟨hnext, sender, hlog⟩ := h.result hq
  have hfield : ((udpMemory p frame.ipNtoh.udpNtoh).net_udplen : Int) - UDP_HDR_LEN = wire16 frame net_udplen - 8 := by
    simp only [udpMemory, udpPacket, incoming_udplen, UDP_HDR_LEN]
  rw [hfield] at hnext hlog
  have hlt := wire16_lt frame net_udplen
  unfold FieldFits
  constructor
  · rintro ⟨r, q, bytes, sender', hnext', -, hlen, hpayload, hdata, -⟩
    rw [hnext] at hnext'
    have hr : min (len : Int) (wire16 frame net_udplen - 8) = r := by
      injection hnext' with h1 h2
      injection h2
    omega
  · rintro ⟨h8, hle⟩
    obtain ⟨r, hr⟩ := Int.eq_ofNat_of_zero_le (by omega : 0 ≤ min (len : Int) (wire16 frame net_udplen - 8))
    rw [hr] at hnext hlog
    rw [Int.toNat_natCast, udpMemory_take p frame (by omega)] at hlog
    exact ⟨r, _, _, sender, hnext, hlog, by omega, by omega, by omega, rfl⟩

end

/-- For every UDP packet that `ip_in` passes on, `udp_recv` and `udp_recvaddr` stay within the payload that is present, counted
up to the end of the frame or up to the end of the IP packet, if and only if the length field of the packet does. -/
theorem udp_lengths_bounded_iff (others : World → World) (p : Buf) (w : World) (pkt : Netpacket)
    (hin : pkt ∈ passed (ipIn others p) w) (hudp : pkt.w8 net_ipproto = IP_UDP) (u : Udp) (slot : Int)
    (hq : (u.udptab slot).udqueue (u.udptab slot).udhead = some (udpMemory p pkt)) (size len : Nat) (addr : Bool)
    (out : Udp × Next UdpPoint) (hout : Delivers u slot len addr out) :
    (WithinPacket (w.bufs p) (behindHeader size) len u slot out ↔ FieldFits (w.bufs p) (behindHeader size) len) ∧
      (WithinPacket (w.bufs p) (coveredByIp (w.bufs p) size) len u slot out ↔
        FieldFits (w.bufs p) (coveredByIp (w.bufs p) size) len) := by
  rw [passed_ipIn, Option.mem_toList, Option.filter_eq_some_iff] at hin
  obtain rfl := incoming_eq hin.1 hudp
  exact ⟨withinPacket_iff _ hout hq, withinPacket_iff _ hout hq⟩

/-- A broadcast UDP packet of four bytes, as it stands on the wire behind the Ethernet header, with a length field. -/
def broadcastFrame (udplen : UInt8) : Netpacket := fun j =>
  ([0x45, 0, 0, 32, 0, 0, 0, 0, 64, 17, 0x7a, 0xce, 0, 0, 0, 0, 255, 255, 255, 255, 0x13, 0x88, 0, 53, 0, udplen, 0, 0,
    1, 2, 3, 4] : List UInt8).getD (j - 14) 0

/-- A machine with the frame in its buffer. -/
def broadcastWorld (udplen : UInt8) : World := receiver (broadcastFrame udplen) (broadcastFrame udplen)

/-- UDP with one packet in the queue of every slot. -/
def holding (q : UdpPacket) : Udp where
  udptab := fun _ => { (default : Udpentry) with udstate := .UDP_USED, udcount := 1, udtail := 1, udqueue := fun _ => some q }
  netbufsem := 0
  log := []

/-- `ip_in` passes the frame on, whatever its length field. -/
theorem broadcastFrame_passed {udplen : UInt8} (h : udplen ∈ ([7, 12] : List UInt8)) :
    (broadcastFrame udplen).ipNtoh.udpNtoh ∈ passed (ipIn id 0) (broadcastWorld udplen) ∧
      (broadcastFrame udplen).ipNtoh.udpNtoh.w8 net_ipproto = IP_UDP := by
  have hck : ∀ b ∈ ([7, 12] : List UInt8), (broadcastFrame b).ipcksum = 0 := by decide +kernel
  have hdst : ∀ b ∈ ([7, 12] : List UInt8), (broadcastFrame b).ipNtoh.udpNtoh.w32 net_ipdst = IP_BCAST := by decide +kernel
  have hvh : (broadcastFrame udplen).ipNtoh.w8 net_ipvh = IP_VH := rfl
  have hproto : (broadcastFrame udplen).ipNtoh.w8 net_ipproto = IP_UDP := rfl
  have hin : incoming (broadcastFrame udplen) = some (broadcastFrame udplen).ipNtoh.udpNtoh := by
    rw [incoming, if_neg (not_not.mpr (hck udplen h)), if_neg (not_not.mpr hvh), if_pos hproto]
  refine ⟨?_, rfl⟩
  rw [passed_ipIn, Option.mem_toList, Option.filter_eq_some_iff]
  exact ⟨hin, by simp [accepts, hdst udplen h]⟩

/-- `udp_recv` delivers the packet of four bytes whose field says so. -/
theorem udp_lengths_bounded_four :
    WithinPacket (broadcastFrame 12) (behindHeader 46) 100 (holding (udpMemory 0 (broadcastFrame 12).ipNtoh.udpNtoh)) 0
        ((holding (udpMemory 0 (broadcastFrame 12).ipNtoh.udpNtoh)).recv 3 0 100 0 false) ∧
      WithinPacket (broadcastFrame 12) (coveredByIp (broadcastFrame 12) 46) 100
        (holding (udpMemory 0 (broadcastFrame 12).ipNtoh.udpNtoh)) 0
        ((holding (udpMemory 0 (broadcastFrame 12).ipNtoh.udpNtoh)).recv 3 0 100 0 false) := by
  have hdel : Delivers (holding (udpMemory 0 (broadcastFrame 12).ipNtoh.udpNtoh)) 0 100 false
      ((holding (udpMemory 0 (broadcastFrame 12).ipNtoh.udpNtoh)).recv 3 0 100 0 false) :=
    .queued 3 0 (by decide) (by decide) rfl (by decide)
  obtain ⟨hheader, hip⟩ := udp_lengths_bounded_iff id 0 (broadcastWorld 12) _ (broadcastFrame_passed (by decide)).1
    (broadcastFrame_passed (by decide)).2 _ 0 rfl 46 100 false _ hdel
  exact ⟨hheader.mpr ⟨by decide, .inr (by decide)⟩, hip.mpr ⟨by decide, .inr (by decide)⟩⟩

/-- With the length field 7, `ip_in` passes the packet on and the result is that of an error. -/
theorem udp_lengths_negative :
    ¬∀ (others : World → World) (p : Buf) (w : World), ∀ pkt ∈ passed (ipIn others p) w, pkt.w8 net_ipproto = IP_UDP →
      ∀ (u : Udp) (slot : Int), (u.udptab slot).udqueue (u.udptab slot).udhead = some (udpMemory p pkt) →
        ∀ (size len : Nat) (addr : Bool) (out : Udp × Next UdpPoint), Delivers u slot len addr out →
          WithinPacket (w.bufs p) (behindHeader size) len u slot out := by
  intro hall
  have hout : Delivers (holding (udpMemory 0 (broadcastFrame 7).ipNtoh.udpNtoh)) 0 (100 : Nat) false _ :=
    .queued 3 0 (by decide) (by decide) rfl (by decide)
  obtain ⟨hin, hudp⟩ := broadcastFrame_passed (by decide : (7 : UInt8) ∈ ([7, 12] : List UInt8))
  have hwithin := hall id 0 (broadcastWorld 7) _ hin hudp _ 0 rfl 46 100 false _ hout
  have hfits := (withinPacket_iff (behindHeader 46) hout rfl).mp hwithin
  exact absurd hfits.1 (by decide)

end Ip

end Xinu
