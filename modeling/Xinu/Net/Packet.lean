import Mathlib.Algebra.GroupWithZero.Nat
import Mathlib.Algebra.Ring.Int.Defs
import Mathlib.Logic.Function.Basic
import Mathlib.Tactic.Common

/-!
# Network packets

`struct netpacket` as the memory of a buffer: a field is the bytes at its offset, the low byte first, as the machine has them.
`htons` and `htonl` reverse the bytes of a value. The checksums add the 16-bit words of a packet in network order.
-/

namespace Xinu

/-- The bytes of a buffer, by offset. -/
abbrev Netpacket := Nat → UInt8

namespace Netpacket

/-! ## Fields -/

def net_ethdst : Nat := 0
def net_ethsrc : Nat := 6
def net_ethtype : Nat := 12
def net_ipvh : Nat := 14
def net_iptos : Nat := 15
def net_iplen : Nat := 16
def net_ipid : Nat := 18
def net_ipfrag : Nat := 20
def net_ipttl : Nat := 22
def net_ipproto : Nat := 23
def net_ipcksum : Nat := 24
def net_ipsrc : Nat := 26
def net_ipdst : Nat := 30
def net_udpsport : Nat := 34
def net_udpdport : Nat := 36
def net_udplen : Nat := 38
def net_udpcksum : Nat := 40
def net_udpdata : Nat := 42
def net_ictype : Nat := 34
def net_iccode : Nat := 35
def net_iccksum : Nat := 36
def net_icident : Nat := 38
def net_icseq : Nat := 40
def net_icdata : Nat := 42

def ETH_HDR_LEN : Nat := 14
def ETH_ADDR_LEN : Nat := 6
def ETH_ARP : Nat := 0x0806
def ETH_IP : Nat := 0x0800
def ETH_IPv6 : Nat := 0x86DD
def IP_HDR_LEN : Nat := 20
def UDP_HDR_LEN : Nat := 8
def ICMP_HDR_LEN : Nat := 8
def IP_ICMP : Nat := 1
def IP_UDP : Nat := 17
def IP_BCAST : Nat := 0xffffffff

variable (p : Netpacket)

/-- A field of one byte. -/
def w8 (o : Nat) : Nat := (p o).toNat

/-- A field of two bytes. -/
def w16 (o : Nat) : Nat := (p o).toNat + 256 * (p (o + 1)).toNat

/-- A field of four bytes. -/
def w32 (o : Nat) : Nat := p.w16 o + 65536 * p.w16 (o + 2)

/-- Assign to a field of one byte. -/
def put8 (o v : Nat) : Netpacket := Function.update p o (UInt8.ofNat v)

/-- Assign to a field of two bytes. -/
def put16 (o v : Nat) : Netpacket := (p.put8 o v).put8 (o + 1) (v / 256)

/-- Assign to a field of four bytes. -/
def put32 (o v : Nat) : Netpacket := (p.put16 o v).put16 (o + 2) (v / 65536)

/-- `memcpy` to a part of the packet. -/
def copy (o : Nat) (src : Nat → UInt8) (len : Nat) : Netpacket := fun j => if o ≤ j ∧ j < o + len then src (j - o) else p j

/-- The first bytes of a packet. -/
def bytes (len : Nat) : List UInt8 := (List.range len).map p

/-! ## Byte order -/

/-- `htons`, and `ntohs`. -/
def htons (x : Nat) : Nat := x / 256 % 256 + x % 256 * 256

/-- `htonl`, and `ntohl`. -/
def htonl (x : Nat) : Nat := x / 16777216 % 256 + x / 65536 % 256 * 256 + x / 256 % 256 * 65536 + x % 256 * 16777216

/-- Reverse a field of two bytes. -/
def swap16 (o : Nat) : Netpacket := p.put16 o (htons (p.w16 o))

/-- Reverse a field of four bytes. -/
def swap32 (o : Nat) : Netpacket := p.put32 o (htonl (p.w32 o))

/-- `eth_hton`. -/
def ethHton : Netpacket := p.swap16 net_ethtype

/-- `eth_ntoh`. -/
def ethNtoh : Netpacket := p.swap16 net_ethtype

/-- `ip_ntoh`. -/
def ipNtoh : Netpacket :=
  ((((p.swap16 net_iplen).swap16 net_ipid).swap16 net_ipfrag).swap32 net_ipsrc).swap32 net_ipdst

/-- `ip_hton`. -/
def ipHton : Netpacket :=
  ((((p.swap16 net_iplen).swap16 net_ipid).swap16 net_ipfrag).swap32 net_ipsrc).swap32 net_ipdst

/-- `udp_ntoh`. -/
def udpNtoh : Netpacket := ((p.swap16 net_udpsport).swap16 net_udpdport).swap16 net_udplen

/-- `udp_hton`. -/
def udpHton : Netpacket := ((p.swap16 net_udpsport).swap16 net_udpdport).swap16 net_udplen

/-- `icmp_hton`. -/
def icmpHton : Netpacket := ((p.swap16 net_iccksum).swap16 net_icident).swap16 net_icseq

/-- `icmp_ntoh`. -/
def icmpNtoh : Netpacket := ((p.swap16 net_iccksum).swap16 net_icident).swap16 net_icseq

/-! ## Checksums -/

/-- The loops of `ipcksum` and `icmp_cksum`: add `n` words in network order to a `uint32`. -/
def sumLoop : Nat → (o : Nat) → (cksum : Nat) → Nat
  | 0, _, cksum => cksum
  | n + 1, o, cksum => sumLoop n (o + 2) ((cksum + htons (p.w16 o)) % 2 ^ 32)

/-- Add the carry in, once, and take the ones-complement. -/
def fold (cksum : Nat) : Nat := 65535 - (cksum + cksum / 65536) % 2 ^ 32 % 65536

/-- `ipcksum`: all-1s is replaced by zero. -/
def ipcksum : Nat :=
  let cksum := fold (p.sumLoop 10 net_ipvh 0)
  if cksum = 65535 then 0 else cksum

/-- `icmp_cksum` of `buflen` bytes from an offset on: the sum, before the carry is added in. -/
def icmpSum (o : Nat) (buflen : Int) : Nat :=
  let scount := (buflen / 2).toNat
  let cksum := p.sumLoop scount o 0
  if buflen % 2 ≠ 0 then (cksum + 256 * (p (o + 2 * scount)).toNat) % 2 ^ 32 else cksum

/-- `icmp_cksum`. -/
def icmpCksum (o : Nat) (buflen : Int) : Nat := fold (p.icmpSum o buflen)

/-! ## Fields are bytes -/

variable {p}

@[simp] theorem put8_apply (o v j : Nat) : p.put8 o v j = if j = o then UInt8.ofNat v else p j := by
  simp [put8, Function.update_apply]

theorem put16_apply (o v j : Nat) :
    p.put16 o v j = if j = o then UInt8.ofNat v else if j = o + 1 then UInt8.ofNat (v / 256) else p j := by
  by_cases h : j = o
  · simp [put16, h]
  · simp [put16, h]

theorem put16_of_ne {o v j : Nat} (h : j ≠ o) (h' : j ≠ o + 1) : p.put16 o v j = p j := by
  rw [put16_apply, if_neg h, if_neg h']

theorem put8_of_ne {o v j : Nat} (h : j ≠ o) : p.put8 o v j = p j := by
  rw [put8_apply, if_neg h]

theorem put32_of_outside {o v j : Nat} (h : j < o ∨ o + 4 ≤ j) : p.put32 o v j = p j := by
  rw [put32, put16_of_ne (by omega) (by omega), put16_of_ne (by omega) (by omega)]

theorem copy_of_outside {o j len : Nat} {src : Nat → UInt8} (h : j < o ∨ o + len ≤ j) : p.copy o src len j = p j :=
  if_neg (by omega)

theorem copy_add {o i len : Nat} {src : Nat → UInt8} (h : i < len) : p.copy o src len (o + i) = src i := by
  rw [copy, if_pos (by omega), Nat.add_sub_cancel_left]

/-- A word depends on its four bytes. -/
theorem w32_congr {q : Netpacket} {o : Nat} (h : ∀ i < 4, p (o + i) = q (o + i)) : p.w32 o = q.w32 o := by
  have h0 := h 0 (by decide)
  have h1 := h 1 (by decide)
  have h2 := h 2 (by decide)
  have h3 := h 3 (by decide)
  rw [Nat.add_zero] at h0
  simp only [w32, w16, Nat.add_assoc, h0, h1, h2, h3]

/-- The last value that is assigned stays. -/
theorem put16_put16 (o u v : Nat) : (p.put16 o u).put16 o v = p.put16 o v := by
  funext j
  simp only [put16_apply]
  split_ifs <;> rfl

theorem w16_lt (o : Nat) : p.w16 o < 65536 := by
  have h0 := (p o).toNat_lt
  have h1 := (p (o + 1)).toNat_lt
  unfold w16
  omega

theorem w32_lt (o : Nat) : p.w32 o < 4294967296 := by
  have h0 := w16_lt (p := p) o
  have h1 := w16_lt (p := p) (o + 2)
  unfold w32
  omega

/-- What is assigned is read back. -/
theorem w16_put16 (o : Nat) {v : Nat} (hv : v < 65536) : (p.put16 o v).w16 o = v := by
  simp only [w16, put16_apply, if_true, if_neg (Nat.succ_ne_self o), UInt8.toNat_ofNat']
  omega

/-- A word is read back as it was written. -/
theorem w32_put32 (o : Nat) {v : Nat} (hv : v < 4294967296) : (p.put32 o v).w32 o = v := by
  have h2 : (p.put32 o v).w16 (o + 2) = v / 65536 := w16_put16 (o + 2) (by omega)
  have h0 : (p.put32 o v).w16 o = v % 65536 := by
    have hb0 : p.put32 o v o = UInt8.ofNat v := by
      rw [put32, put16_of_ne (by omega) (by omega), put16_apply, if_pos rfl]
    have hb1 : p.put32 o v (o + 1) = UInt8.ofNat (v / 256) := by
      rw [put32, put16_of_ne (by omega) (by omega), put16_apply, if_neg (Nat.succ_ne_self o), if_pos rfl]
    rw [w16, hb0, hb1, UInt8.toNat_ofNat', UInt8.toNat_ofNat']
    omega
  rw [w32, h0, h2]
  omega

/-- The word that `htons` makes of a field is the bytes in network order. -/
theorem htons_w16 (o : Nat) : htons (p.w16 o) = 256 * (p o).toNat + (p (o + 1)).toNat := by
  have h0 := (p o).toNat_lt
  have h1 := (p (o + 1)).toNat_lt
  unfold htons w16
  omega

/-- Swapping the bytes twice. -/
theorem htons_htons {x : Nat} (hx : x < 65536) : htons (htons x) = x := by
  have hswap : ∀ a b : Nat, a < 256 → b < 256 → htons (256 * a + b) = 256 * b + a := by
    intro a b ha hb
    unfold htons
    omega
  have h := hswap (x / 256) (x % 256) (by omega) (by omega)
  rw [Nat.div_add_mod] at h
  rw [h, hswap _ _ (by omega) (by omega), Nat.div_add_mod]

theorem htons_lt (x : Nat) : htons x < 65536 := by
  unfold htons
  omega

/-- Reverse two bytes. -/
def flip16 (o j : Nat) : Nat := if j = o then o + 1 else if j = o + 1 then o else j

/-- Reverse four bytes. -/
def flip32 (o j : Nat) : Nat :=
  if j = o then o + 3 else if j = o + 1 then o + 2 else if j = o + 2 then o + 1 else if j = o + 3 then o else j

/-- Reversing a field moves bytes. -/
theorem swap16_eq (o : Nat) : p.swap16 o = fun j => p (flip16 o j) := by
  have h0 := (p o).toNat_lt
  have h1 := (p (o + 1)).toNat_lt
  have hlow : UInt8.ofNat (htons (p.w16 o)) = p (o + 1) := by
    apply UInt8.toNat_inj.mp
    rw [UInt8.toNat_ofNat', htons_w16]
    omega
  have hhigh : UInt8.ofNat (htons (p.w16 o) / 256) = p o := by
    apply UInt8.toNat_inj.mp
    rw [UInt8.toNat_ofNat', htons_w16]
    omega
  funext j
  rw [swap16, put16_apply, hlow, hhigh, flip16]
  split_ifs <;> rfl

/-- Reversing a field moves bytes. -/
theorem swap32_eq (o : Nat) : p.swap32 o = fun j => p (flip32 o j) := by
  have h0 := (p o).toNat_lt
  have h1 := (p (o + 1)).toNat_lt
  have h2 := (p (o + 2)).toNat_lt
  have h3 := (p (o + 3)).toNat_lt
  have hb : htonl (p.w32 o) = (p (o + 3)).toNat + 256 * (p (o + 2)).toNat + 65536 * (p (o + 1)).toNat +
      16777216 * (p o).toNat := by
    have e : o + 2 + 1 = o + 3 := rfl
    unfold htonl w32 w16
    rw [e]
    omega
  have e0 : UInt8.ofNat (htonl (p.w32 o)) = p (o + 3) := by
    apply UInt8.toNat_inj.mp
    rw [UInt8.toNat_ofNat', hb]
    omega
  have e1 : UInt8.ofNat (htonl (p.w32 o) / 256) = p (o + 2) := by
    apply UInt8.toNat_inj.mp
    rw [UInt8.toNat_ofNat', hb]
    omega
  have e2 : UInt8.ofNat (htonl (p.w32 o) / 65536) = p (o + 1) := by
    apply UInt8.toNat_inj.mp
    rw [UInt8.toNat_ofNat', hb]
    omega
  have e3 : UInt8.ofNat (htonl (p.w32 o) / 65536 / 256) = p o := by
    apply UInt8.toNat_inj.mp
    rw [UInt8.toNat_ofNat', hb]
    omega
  funext j
  rw [swap32, put32, put16_apply, put16_apply, e0, e1, e2, e3, flip32]
  split_ifs <;> first | rfl | omega

end Netpacket

end Xinu
