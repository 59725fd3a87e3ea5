import Xinu.Kernel.Queue
import Xinu.Net.Packet

/-!
# The ARP cache

The cache of `arp.c` and what its procedures look up and allocate in it.
-/

namespace Xinu

namespace Arp

def ARP_HALEN : Nat := 6
def ARP_PALEN : Nat := 4
def ARP_HTYPE : Nat := 1
def ARP_PTYPE : Nat := 0x0800
def ARP_OP_REQ : Nat := 1
def ARP_OP_RPLY : Nat := 2
def ARP_SIZ : Nat := 16
def ARP_RETRY : Nat := 3
def ARP_TIMEOUT : Nat := 300

/-- The fields of `struct arppacket`, and its size. -/
def arp_ethdst : Nat := 0
def arp_ethsrc : Nat := 6
def arp_ethtype : Nat := 12
def arp_htype : Nat := 14
def arp_ptype : Nat := 16
def arp_hlen : Nat := 18
def arp_plen : Nat := 19
def arp_op : Nat := 20
def arp_sndha : Nat := 22
def arp_sndpa : Nat := 28
def arp_tarha : Nat := 32
def arp_tarpa : Nat := 38
def arppacketSize : Nat := 42

/-- State of an ARP cache entry. -/
inductive ArState where
  | AR_FREE
  | AR_PENDING
  | AR_RESOLVED
deriving Repr, DecidableEq, Inhabited

/-- `struct arpentry`. -/
structure Arpentry where
  arstate : ArState
  arpaddr : Nat
  arpid : Int
  arhaddr : List UInt8
deriving Repr, DecidableEq

/-- What `memset` leaves of an entry. -/
def Arpentry.zero : Arpentry := ⟨.AR_FREE, 0, 0, List.replicate ARP_HALEN 0⟩

instance : Inhabited Arpentry := ⟨Arpentry.zero⟩

/-- `arpcache`. -/
abbrev Cache := Nat → Arpentry

/-- The cache at the start. -/
def Cache.arpInit : Cache := fun _ => Arpentry.zero

/-- The slots in the order in which the loops visit them. -/
def slots : List Nat := List.range ARP_SIZ

/-- The loops that search the cache for an address; entries that are free are skipped. -/
def Cache.search (c : Cache) (addr : Nat) : Option Nat :=
  slots.find? fun i => (c i).arstate ≠ .AR_FREE ∧ (c i).arpaddr = addr

/-- `arp_alloc`: the first free slot, or the first resolved one; it is cleared. -/
def Cache.arpAlloc (c : Cache) : Option (Nat × Cache) :=
  match slots.find? fun i => (c i).arstate = .AR_FREE with
  | some slot => some (slot, Function.update c slot Arpentry.zero)
  | none =>
    match slots.find? fun i => (c i).arstate = .AR_RESOLVED with
    | some slot => some (slot, Function.update c slot Arpentry.zero)
    | none => none

/-- `arp_ntoh`. -/
def arpNtoh (p : Netpacket) : Netpacket :=
  ((((p.swap16 arp_htype).swap16 arp_ptype).swap16 arp_op).swap32 arp_sndpa).swap32 arp_tarpa

/-- `arp_hton`. -/
def arpHton (p : Netpacket) : Netpacket :=
  ((((p.swap16 arp_htype).swap16 arp_ptype).swap16 arp_op).swap32 arp_sndpa).swap32 arp_tarpa

/-- A hardware address in a packet. -/
def haddr (p : Netpacket) (o : Nat) : List UInt8 := (List.range ARP_HALEN).map fun j => p (o + j)

/-- `memcpy` of a hardware address to a packet. -/
def putHaddr (p : Netpacket) (o : Nat) (ha : List UInt8) : Netpacket := p.copy o (fun j => ha.getD j 0) ARP_HALEN

/-- An ARP packet in network order. -/
def arppacket (ethdst ethsrc : List UInt8) (op : Nat) (sndha : List UInt8) (sndpa : Nat) (tarha : List UInt8) (tarpa : Nat) :
    Netpacket :=
  let apkt : Netpacket := fun _ => 0
  let apkt := putHaddr apkt arp_ethdst ethdst
  let apkt := putHaddr apkt arp_ethsrc ethsrc
  let apkt := apkt.put16 arp_ethtype Netpacket.ETH_ARP
  let apkt := apkt.put16 arp_htype ARP_HTYPE
  let apkt := apkt.put16 arp_ptype ARP_PTYPE
  let apkt := apkt.put8 arp_hlen ARP_HALEN
  let apkt := apkt.put8 arp_plen ARP_PALEN
  let apkt := apkt.put16 arp_op op
  let apkt := putHaddr apkt arp_sndha sndha
  let apkt := apkt.put32 arp_sndpa sndpa
  let apkt := putHaddr apkt arp_tarha tarha
  let apkt := apkt.put32 arp_tarpa tarpa
  (arpHton apkt).ethHton

/-! ## What the loops find -/

variable {c c' : Cache} {addr slot : Nat}

/-- The entry that is found is in use for the address. -/
theorem search_some (h : c.search addr = some slot) :
    slot < ARP_SIZ ∧ (c slot).arstate ≠ .AR_FREE ∧ (c slot).arpaddr = addr := by
  have hm := List.mem_range.mp (List.mem_of_find?_eq_some h)
  have hp := List.find?_some h
  simp only [decide_eq_true_eq] at hp
  exact ⟨hm, hp.1, hp.2⟩

/-- No entry is in use for an address that is not found. -/
theorem search_none (h : c.search addr = none) {i : Nat} (hi : i < ARP_SIZ) (hf : (c i).arstate ≠ .AR_FREE) :
    (c i).arpaddr ≠ addr := by
  have hp := List.find?_eq_none.mp h i (List.mem_range.mpr hi)
  simp only [decide_eq_true_eq, not_and] at hp
  exact hp hf

/-- The slot that `arp_alloc` hands out was free or resolved, and is cleared; the others are as they were. -/
theorem arpAlloc_some (h : c.arpAlloc = some (slot, c')) :
    slot < ARP_SIZ ∧ (c slot).arstate ≠ .AR_PENDING ∧ c' = Function.update c slot Arpentry.zero := by
  unfold Cache.arpAlloc at h
  split at h
  · next s hs =>
    obtain ⟨rfl, rfl⟩ := Prod.mk.inj (Option.some.inj h)
    have hstate : (c s).arstate = .AR_FREE := by simpa using List.find?_some hs
    exact ⟨List.mem_range.mp (List.mem_of_find?_eq_some hs), by rw [hstate]; nofun, rfl⟩
  · split at h
    · next s hs =>
      obtain ⟨rfl, rfl⟩ := Prod.mk.inj (Option.some.inj h)
      have hstate : (c s).arstate = .AR_RESOLVED := by simpa using List.find?_some hs
      exact ⟨List.mem_range.mp (List.mem_of_find?_eq_some hs), by rw [hstate]; nofun, rfl⟩
    · cases h

/-- An entry that is pending stays. -/
theorem arpAlloc_pending (h : c.arpAlloc = some (slot, c')) {i : Nat} (hi : (c i).arstate = .AR_PENDING) : c' i = c i := by
  obtain ⟨_, hstate, rfl⟩ := arpAlloc_some h
  have hne : i ≠ slot := by
    rintro rfl
    exact hstate hi
  exact Function.update_of_ne hne _ _

end Arp

end Xinu
