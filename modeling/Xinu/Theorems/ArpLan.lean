import Xinu.Lib.Medium
import Xinu.Net.ArpFrames
import Xinu.Theorems.ArpAnswers

/-!
# Hosts that resolve each other's addresses

Several hosts with ARP on one wire, which may lose, repeat, delay and reorder packets, and may deliver one to any host. A packet is
on the wire from the time at which it is built.
-/

namespace Xinu

namespace Arp

open Ip (Network)

section Owned

variable {ι : Type} (nd : ι → Network)

/-- A host has the address, and this hardware address. -/
def Owned (addr : Nat) (ha : List UInt8) : Prop := ∃ i, addr = (nd i).ipucast ∧ ha = (nd i).ethucast

/-- The request that the reply `f` answers. -/
def Answers (f g : Netpacket) : Prop :=
  (said g).op = ARP_OP_REQ ∧ (said g).tarpa = (said f).sndpa ∧ (said g).sndpa = (said f).tarpa ∧ (said g).sndha = (said f).tarha

/-- The packet says who the sender is. It is a request, or the reply to an older one. -/
structure Accounted (f : Netpacket) (older : List Netpacket) : Prop where
  sender : Owned nd (said f).sndpa (said f).sndha
  kind : (said f).op = ARP_OP_REQ ∨ (said f).op = ARP_OP_RPLY ∧ ∃ g ∈ older, Answers f g

end Owned

namespace Table

variable {d d' : Table} {pktptr : Netpacket}

/-- The senders are those of the packets on record. -/
theorem mem_senders {addr : Nat} {ha : List UInt8} : (addr, ha) ∈ d.senders ↔ .heard addr ha ∈ d.log := by
  rw [senders, List.mem_filterMap]
  constructor
  · rintro ⟨o, ho, h⟩
    cases o with
    | heard sndpa sndha =>
      obtain ⟨rfl, rfl⟩ := Prod.mk.inj (Option.some.inj h)
      exact ho
    | _ => cases h
  · exact fun h => ⟨_, h, rfl⟩

/-- `arp_in` records what it has heard. -/
theorem heard_arpIn {addr : Nat} {ha : List UInt8} (h : .heard addr ha ∈ (d.arpIn pktptr).1.log) :
    .heard addr ha ∈ d.log ∨ addr = (message (arpNtoh pktptr)).sndpa ∧ ha = (message (arpNtoh pktptr)).sndha := by
  rw [← mem_senders, arpIn_senders, List.mem_append, Option.mem_toList, mem_senders] at h
  refine h.symm.imp_right fun h => ?_
  unfold accepted at h
  split at h
  · cases h
  · exact Prod.mk.inj (Option.some.inj h).symm

theorem heard_arpResolve {pid : Int} {nxthop addr : Nat} {ha : List UInt8}
    (h : .heard addr ha ∈ (d.arpResolve pid nxthop).1.log) : .heard addr ha ∈ d.log := by
  rwa [← mem_senders, arpResolve_senders, mem_senders] at h

theorem heard_received {pid msg : Int} {slot nxthop i addr : Nat} {ha : List UInt8}
    (h : .heard addr ha ∈ (d.received pid slot nxthop i msg).1.log) : .heard addr ha ∈ d.log := by
  rwa [← mem_senders, received_senders, mem_senders] at h

/-! ### `NetData` is only read -/

/-- The end of `arp_in` leaves the addresses of the machine alone. -/
theorem netData_arpRequest (pkt : Netpacket) (found : Bool) : (d.arpRequest pkt found).1.netData = d.netData := by
  unfold Table.arpRequest freebuf
  split_ifs
  · rfl
  · rfl
  · rfl
  · split <;> rfl

/-- So does all of it. -/
theorem netData_arpIn : (d.arpIn pktptr).1.netData = d.netData := by
  unfold Table.arpIn
  simp only
  split_ifs
  · rfl
  · split
    · split_ifs
      · rfl
      · exact netData_arpRequest _ _
    · exact netData_arpRequest _ _

/-- So does `arp_resolve`. -/
theorem netData_arpResolve (pid : Int) (nxthop : Nat) : (d.arpResolve pid nxthop).1.netData = d.netData := by
  unfold Table.arpResolve
  simp only
  split_ifs
  · rfl
  · rfl
  · split
    · split_ifs <;> rfl
    · split <;> rfl

theorem netData_received (pid msg : Int) (slot nxthop i : Nat) : (d.received pid slot nxthop i msg).1.netData = d.netData := by
  unfold Table.received
  simp only
  split_ifs <;> rfl

/-! ### Where the routines go on -/

/-- A reply is written for a request for the own address only. -/
theorem arpRequest_routine {pkt : Netpacket} {found : Bool} {f : Point} (h : (d.arpRequest pkt found).2.routine = some f) :
    f = .done 0 ∨ f = .replied ∧ (message pkt).op ≠ ARP_OP_RPLY ∧ (message pkt).tarpa = d.netData.ipucast := by
  unfold Table.arpRequest freebuf at h
  split_ifs at h with h1 h2 h3
  · exact Or.inl (Option.some.inj h).symm
  · exact Or.inl (Option.some.inj h).symm
  · exact Or.inr ⟨(Option.some.inj h).symm, h1, not_not.mp fun hne => h2 (Or.inr hne)⟩
  · split at h
    · exact Or.inl (Option.some.inj h).symm
    · exact Or.inr ⟨(Option.some.inj h).symm, h1, not_not.mp fun hne => h2 (Or.inr hne)⟩

/-- How `arp_in` goes on. -/
theorem arpIn_routine {f : Point} (h : (d.arpIn pktptr).2.routine = some f) : f = .done 0 ∨ f = .informed (arpNtoh pktptr) ∨
    f = .replied ∧ (message (arpNtoh pktptr)).op ≠ ARP_OP_RPLY ∧ (message (arpNtoh pktptr)).tarpa = d.netData.ipucast := by
  unfold Table.arpIn at h
  simp only at h
  split_ifs at h
  · exact Or.inl (Option.some.inj h).symm
  · split at h
    · split_ifs at h
      · exact Or.inr (Or.inl (Option.some.inj h).symm)
      · exact (arpRequest_routine h).imp_right Or.inr
    · exact (arpRequest_routine h).imp_right Or.inr

/-- `arp_resolve` clears the messages before it sends its request. -/
theorem arpResolve_routine {pid : Int} {nxthop : Nat} {f : Point} (h : (d.arpResolve pid nxthop).2.routine = some f) :
    ∃ slot, f = .cleared slot (nxthop % 4294967296) := by
  unfold Table.arpResolve at h
  simp only at h
  split_ifs at h
  · cases h
  · cases h
  · split at h
    · split_ifs at h
      · cases h
      · cases h
    · split at h
      · cases h
      · exact ⟨_, (Option.some.inj h).symm⟩

/-- A timeout sends the request again. -/
theorem received_routine {pid msg : Int} {slot nxthop i : Nat} {f : Point}
    (h : (d.received pid slot nxthop i msg).2.routine = some f) : ∃ j, f = .written slot nxthop j := by
  unfold Table.received at h
  simp only at h
  split_ifs at h
  · exact ⟨_, (Option.some.inj h).symm⟩
  · cases h
  · cases h
  · cases h

end Table

end Arp

open Arp
open Ip (Network)

/-- The packet that a routine builds in an event, to write it. -/
def Machine.arpWrites (m : Machine arp) (e : Event arp) : Option Netpacket :=
  match m.segment e with
  | some (d, .call _ (.cleared _ nxthop)) => some (d.request nxthop)
  | some (d, .call _ .replied) => (m.arpHears e).map d.reply
  | _ => none

/-- Hosts with ARP on one wire. -/
def arpWire : Exchange (Machine arp) (Event arp) Netpacket where
  step m e := m.step e
  sends m e := m.arpWrites e
  Takes fs _ e := ∀ pktptr, e = .op (.arpIn pktptr) → ∃ f ∈ fs, Arrives f pktptr

/-- The host keeps its addresses. -/
def keepsAddress (netData : Network) : Event arp → Bool
  | .op (.configure netData') => decide (netData'.ipucast = netData.ipucast ∧ netData'.ethucast = netData.ethucast)
  | _ => true

section Runs

variable {m m' : Machine arp} {e : Event arp}

/-- Where the routine goes on that runs in an event. -/
inductive GoesOn (m : Machine arp) (e : Event arp) : Point → Prop where
  | cleared (slot nxthop : Nat) (h : nxthop < 4294967296) : GoesOn m e (.cleared slot nxthop)
  | written (slot nxthop i : Nat) : GoesOn m e (.written slot nxthop i)
  | received (slot nxthop i : Nat) : GoesOn m e (.received slot nxthop i)
  | informed (pktptr : Netpacket) (he : e = .op (.arpIn pktptr)) : GoesOn m e (.informed (arpNtoh pktptr))
  | replied (pkt : Netpacket) (he : m.arpHears e = some pkt) (hop : (message pkt).op ≠ ARP_OP_RPLY)
      (haddr : (message pkt).tarpa = m.data.netData.ipucast) : GoesOn m e .replied
  | done (v : Int) : GoesOn m e (.done v)

/-- What a segment leaves of a routine is one of these. -/
theorem goesOn {x : Table × Next Point} {f : Point} (hx : m.segment e = some x) (hf : x.2.routine = some f) : GoesOn m e f := by
  cases e with
  | call c | tick => cases hx
  | op o =>
    obtain rfl := Option.some.inj hx
    cases o with
    | arpResolve nxthop =>
      obtain ⟨slot, rfl⟩ := Table.arpResolve_routine hf
      exact .cleared _ _ (Nat.mod_lt _ (by decide))
    | arpIn pktptr =>
      rcases Table.arpIn_routine hf with rfl | rfl | ⟨rfl, hop, haddr⟩
      · exact .done 0
      · exact .informed pktptr rfl
      · exact .replied _ rfl hop haddr
    | configure netData => cases hf
  | ret | cont =>
    obtain ⟨⟨g, v⟩, hr, rfl⟩ := Option.map_eq_some_iff.mp hx
    cases g with
    | cleared slot nxthop =>
      obtain rfl := Option.some.inj hf
      exact .written _ _ _
    | written slot nxthop i =>
      obtain rfl := Option.some.inj hf
      exact .received _ _ _
    | received slot nxthop i =>
      obtain ⟨j, rfl⟩ := Table.received_routine hf
      exact .written _ _ _
    | informed pkt =>
      rcases Table.arpRequest_routine hf with rfl | ⟨rfl, hop, haddr⟩
      · exact .done 0
      · refine .replied pkt ?_ hop haddr
        simp only [Machine.arpHears, hr]
    | replied =>
      obtain rfl := Option.some.inj hf
      exact .done 0
    | done w => cases hf

variable {ι : Type} {nd : ι → Network} {i : ι} {fs : List Netpacket}

/-- What holds of a host between events, when these packets have been sent. -/
structure OnWire (nd : ι → Network) (i : ι) (m : Machine arp) (fs : List Netpacket) : Prop where
  asking : Asking m
  answers : AnswersHeard m.data.log
  addresses : m.data.netData.ipucast = (nd i).ipucast ∧ m.data.netData.ethucast = (nd i).ethucast
  owned : ∀ addr ha, .heard addr ha ∈ m.data.log → Owned nd addr ha
  informed : ∀ p, ∀ f ∈ routines (m.context p), ∀ pkt, f = Point.informed pkt → ∃ g ∈ fs, said g = message pkt

/-- A packet that `arp_in` processes has been sent. -/
theorem OnWire.hears (W : OnWire nd i m fs) (ht : arpWire.Takes fs m e) {pkt : Netpacket} (h : m.arpHears e = some pkt) :
    ∃ g ∈ fs, said g = message pkt := by
  cases e with
  | op o =>
    cases o with
    | arpIn pktptr =>
      obtain rfl := Option.some.inj h
      obtain ⟨g, hg, harr⟩ := ht pktptr rfl
      exact ⟨g, hg, harr.message.symm⟩
    | arpResolve nxthop => cases h
    | configure netData => cases h
  | call c | tick => cases h
  | ret | cont =>
    simp only [Machine.arpHears] at h
    split at h
    · next pkt' v hr =>
      obtain rfl := Option.some.inj h
      exact W.informed _ _ (Machine.resumed_mem hr) _ rfl
    · cases h

/-- Every event of a host that takes its packets from the wire keeps it. -/
theorem OnWire.step (W : OnWire nd i m fs) (hg : Grounded (Accounted nd) fs) (htold : m.Told e = true)
    (hkeep : keepsAddress (nd i) e = true) (ht : arpWire.Takes fs m e) (hs : m.step e = some m') : OnWire nd i m' fs := by
  refine ⟨W.asking.step hs, W.asking.heard hs htold W.answers, ?_, fun addr ha => ?_, ?_⟩
  · refine arp_segment_cases (P := fun d => d.netData.ipucast = _ ∧ d.netData.ethucast = _) hs W.addresses (fun nxthop _ => ?_)
      (fun pktptr _ => ?_) (fun netData he => ?_) (fun slot nxthop n msg _ => ?_)
    · rw [Table.netData_arpResolve]
      exact W.addresses
    · rw [Table.netData_arpIn]
      exact W.addresses
    · subst he
      exact of_decide_eq_true hkeep
    · rw [Table.netData_received]
      exact W.addresses
  · refine arp_segment_cases (P := fun d => .heard addr ha ∈ d.log → _) hs (W.owned addr ha) (fun nxthop _ h => ?_)
      (fun pktptr he h => ?_) (fun netData _ => W.owned addr ha) (fun slot nxthop n msg _ h => ?_)
    · exact W.owned addr ha (Table.heard_arpResolve h)
    · rcases Table.heard_arpIn h with h | ⟨rfl, rfl⟩
      · exact W.owned addr ha h
      · obtain ⟨g, hmem, harr⟩ := ht pktptr he
        obtain ⟨l₁, l₂, -, hacc⟩ := hg.of_mem hmem
        rw [harr.message]
        exact hacc.sender
    · exact W.owned addr ha (Table.heard_received h)
  · refine Machine.step_owned (R := fun _ _ f => ∀ pkt, f = Point.informed pkt → ∃ g ∈ fs, said g = message pkt) hs
      (W.asking.leaf _) W.informed (fun x f hx hf pkt hpkt => ?_) (fun x _ p _ f hf => W.informed p f hf) fun d st hx => ?_
    · subst hpkt
      cases goesOn hx hf with
      | informed pktptr he =>
        obtain ⟨g, hmem, harr⟩ := ht pktptr he
        exact ⟨g, hmem, harr.message.symm⟩
    · exact (W.asking.segment hx).stop st rfl

/-- The data after an event that ends a segment. -/
theorem data_of_segment {x : Table × Next Point} (hs : m.step e = some m') (hx : m.segment e = some x) : m'.data = x.1 := by
  rw [Machine.segment_data hs, hx]
  rfl

theorem OnWire.wellFormed (hnd : ∀ j, WellFormed (nd j)) (W : OnWire nd i m fs) : WellFormed m.data.netData :=
  ⟨W.addresses.1 ▸ (hnd i).ipucast, W.addresses.2 ▸ (hnd i).ethucast⟩

/-- What a host sends is accounted for. -/
theorem OnWire.writes (hnd : ∀ j, WellFormed (nd j)) (W : OnWire nd i m fs) (W' : OnWire nd i m' fs)
    (hg : Grounded (Accounted nd) fs) (ht : arpWire.Takes fs m e) (hs : m.step e = some m') {f : Netpacket}
    (hf : m.arpWrites e = some f) : Accounted nd f fs := by
  have hwf := W'.wellFormed hnd
  have hown : Owned nd m'.data.netData.ipucast m'.data.netData.ethucast := ⟨i, W'.addresses⟩
  unfold Machine.arpWrites at hf
  split at hf
  · next d c slot nxthop hx =>
    obtain rfl := Option.some.inj hf
    obtain rfl := data_of_segment hs hx
    cases goesOn hx rfl with
    | cleared _ _ hlt =>
      have hsaid := Table.said_request hwf hlt
      exact ⟨hsaid ▸ hown, Or.inl (hsaid ▸ rfl)⟩
  · next d c hx =>
    obtain ⟨pkt, hpkt, rfl⟩ := Option.map_eq_some_iff.mp hf
    obtain rfl := data_of_segment hs hx
    cases goesOn hx rfl with
    | replied pkt' hpkt' hop haddr =>
      obtain rfl := Option.some.inj (hpkt.symm.trans hpkt')
      have hsaid := Table.said_reply hwf pkt
      obtain ⟨g, hmem, hgsaid⟩ := W.hears ht hpkt
      obtain ⟨l₁, l₂, -, hacc⟩ := hg.of_mem hmem
      -- what the host takes for a request is one
      have hreq : (said g).op = ARP_OP_REQ := hacc.kind.resolve_right fun h => hop (hgsaid ▸ h.1)
      refine ⟨hsaid ▸ hown, Or.inr ⟨hsaid ▸ rfl, g, hmem, hreq, ?_, ?_, ?_⟩⟩
      · rw [hsaid, hgsaid, haddr, W.addresses.1]
        exact W'.addresses.1.symm
      · rw [hsaid, hgsaid]
      · rw [hsaid, hgsaid]
  · cases hf

/-- A host at the start. -/
theorem onWire_boot (nd : ι → Network) (i : ι) (osem netbufsem : Int) (minheap maxheap : Nat) (fs : List Netpacket) :
    OnWire nd i (boot arp (Table.init (nd i) osem netbufsem) minheap maxheap) fs where
  asking := asking_boot (nd i) osem netbufsem minheap maxheap
  answers := AnswersHeard.nil
  addresses := ⟨rfl, rfl⟩
  owned := nofun
  informed := nofun

/-- Every event of a host keeps what holds of it, and sends what is accounted for. -/
theorem onWire_keeps [DecidableEq ι] (hnd : ∀ j, WellFormed (nd j)) :
    arpWire.Keeps (fun i m e => m.Told e = true ∧ keepsAddress (nd i) e = true) (OnWire nd) (Accounted nd) where
  mono i m f fs W := ⟨W.asking, W.answers, W.addresses, W.owned, fun p g hg pkt hpkt => by
    obtain ⟨h, hmem, hsaid⟩ := W.informed p g hg pkt hpkt
    exact ⟨h, List.mem_cons_of_mem _ hmem, hsaid⟩⟩
  step i m e m' fs W hg hok ht hs := W.step hg hok.1 hok.2 ht hs
  sends i m e m' f fs W hg hok ht hs hf := W.writes hnd (W.step hg hok.1 hok.2 ht hs) hg ht hs hf

/-- Every hardware address that was returned is that of the host with the address. -/
theorem OnWire.answered (W : OnWire nd i m fs) {pid : Int} {nxthop : Nat} {mac : List UInt8}
    (h : .answered pid nxthop mac ∈ m.data.log) : Owned nd nxthop mac := by
  obtain ⟨l₁, l₂, hlog⟩ := List.append_of_mem h
  refine W.owned nxthop mac ?_
  rw [hlog]
  exact List.mem_append_right _ (List.mem_cons_of_mem _ (W.answers l₁ l₂ pid nxthop mac hlog))

end Runs

/-- Hosts at the start; nothing has been sent. -/
def arpHosts {ι : Type} (nd : ι → Network) (osem netbufsem : ι → Int) (minheap maxheap : ι → Nat) :
    Medium ι (Machine arp) Netpacket where
  party i := boot arp (Table.init (nd i) (osem i) (netbufsem i)) (minheap i) (maxheap i)
  sent := []

/-- An item of a script: a packet arrives that has been sent, by its number, or something else happens. -/
def arpScript : Nat ⊕ Event arp → List Netpacket → Machine arp → Option (Event arp)
  | .inl k, fs, _ => fs[k]?.map fun f => .op (.arpIn f.ethNtoh)
  | .inr (.op (.arpIn _)), _, _ => none
  | .inr e, _, _ => some e

/-- A script takes from the wire what was put there. -/
theorem takes_arpScript : ∀ s fs m e, arpScript s fs m = some e → arpWire.Takes fs m e := by
  rintro s fs m e hscript pktptr rfl
  rcases s with k | e
  · obtain ⟨f, hf, he⟩ := Option.map_eq_some_iff.mp hscript
    obtain rfl := Op.arpIn.inj (Event.op.inj he)
    exact ⟨f, List.mem_of_getElem? hf, f, fun _ _ => rfl, rfl⟩
  · cases e with
    | op o => cases o <;> cases hscript
    | call | tick | ret | cont => cases hscript

/-- The machines at 10.0.0.2 and 10.0.0.1. -/
def arpPair (i : Bool) : Network :=
  if i then { arpNetwork with ipucast := 0x0A000001, ethucast := [2, 0, 0, 0, 0, 1] } else arpNetwork

end Xinu
