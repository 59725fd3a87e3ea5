import Xinu.Net.ArpResolve

/-!
# The ARP cache in every run

An entry is created where none is in use for its address, and is in use for that address until its slot is freed or handed out
again. Only `arp_in` resolves an entry or changes its hardware address, and it does so for every packet from the address.
-/

namespace Xinu

namespace Arp

/-- The entry of the slot is a new one. -/
def Obs.creates (slot : Nat) : Obs → Bool
  | .created s => decide (s = slot)
  | _ => false

/-- The hardware address of a packet from the address. -/
def Obs.heardFrom (addr : Nat) : Obs → Option (List UInt8)
  | .heard sndpa sndha => if sndpa = addr then some sndha else none
  | _ => none

/-- The sender that a record names. -/
def Obs.sender : Obs → Option (Nat × List UInt8)
  | .heard sndpa sndha => some (sndpa, sndha)
  | _ => none

/-- The sender of a packet, unless `arp_in` rejects it. -/
def accepted (pkt : Netpacket) : Option (Nat × List UInt8) :=
  if pkt.w16 arp_htype ≠ ARP_HTYPE ∨ pkt.w16 arp_ptype ≠ ARP_PTYPE then none else some (pkt.w32 arp_sndpa, haddr pkt arp_sndha)

/-- The hardware addresses that packets from the address have carried since the entry of the slot was created. -/
def heardSince (slot addr : Nat) (log : List Obs) : List (List UInt8) := since (Obs.creates slot) (Obs.heardFrom addr) log

namespace Table

/-- What holds of the cache: entries in use are in the table, there is one for an address, and a resolved one holds the hardware
address of the last packet from its address. -/
structure Sound (d : Table) : Prop where
  range : ∀ i, (d.arpcache i).arstate ≠ .AR_FREE → i < ARP_SIZ
  unique : ∀ i j, (d.arpcache i).arstate ≠ .AR_FREE → (d.arpcache j).arstate ≠ .AR_FREE →
    (d.arpcache i).arpaddr = (d.arpcache j).arpaddr → i = j
  latest : ∀ i, (d.arpcache i).arstate = .AR_RESOLVED →
    (heardSince i (d.arpcache i).arpaddr d.log).getLast? = some (d.arpcache i).arhaddr

variable {d d' : Table} {slot addr : Nat} {e : Arpentry} {ha : List UInt8}

/-- One entry changes, with records that do not concern the others in use. -/
theorem Sound.change (H : d.Sound) (slot : Nat) (e : Arpentry) (os : List Obs) (hslot : e.arstate ≠ .AR_FREE → slot < ARP_SIZ)
    (htab : d'.arpcache = Function.update d.arpcache slot e) (hlog : d'.log = os ++ d.log)
    (hother : ∀ i ≠ slot, (d.arpcache i).arstate ≠ .AR_FREE →
      ∀ o ∈ os, o.creates i = false ∧ o.heardFrom (d.arpcache i).arpaddr = none)
    (huniq : e.arstate ≠ .AR_FREE → ∀ i ≠ slot, (d.arpcache i).arstate ≠ .AR_FREE → (d.arpcache i).arpaddr ≠ e.arpaddr)
    (hlatest : e.arstate = .AR_RESOLVED → (heardSince slot e.arpaddr (os ++ d.log)).getLast? = some e.arhaddr) : d'.Sound := by
  have hself : d'.arpcache slot = e := by rw [htab, Function.update_self]
  have hne : ∀ i, i ≠ slot → d'.arpcache i = d.arpcache i := fun i hi => by rw [htab, Function.update_of_ne hi]
  refine ⟨fun i hi => ?_, fun i j hi hj ha => ?_, fun i hi => ?_⟩
  · by_cases h : i = slot
    · subst h
      rw [hself] at hi
      exact hslot hi
    · rw [hne i h] at hi
      exact H.range i hi
  · by_cases h1 : i = slot
    · by_cases h2 : j = slot
      · rw [h1, h2]
      · subst h1
        rw [hself] at hi ha
        rw [hne j h2] at hj ha
        exact absurd ha.symm (huniq hi j h2 hj)
    · by_cases h2 : j = slot
      · subst h2
        rw [hself] at hj ha
        rw [hne i h1] at hi ha
        exact absurd ha (huniq hj i h1 hi)
      · rw [hne i h1] at hi ha
        rw [hne j h2] at hj ha
        exact H.unique i j hi hj ha
  · by_cases h : i = slot
    · subst h
      rw [hself] at hi ⊢
      rw [hlog]
      exact hlatest hi
    · rw [hne i h] at hi ⊢
      have hf : (d.arpcache i).arstate ≠ .AR_FREE := by
        rw [hi]
        nofun
      rw [hlog, heardSince, since_append (hother i h hf)]
      exact H.latest i hi

/-- Records that concern no entry in use. -/
theorem Sound.log (H : d.Sound) (os : List Obs) (htab : d'.arpcache = d.arpcache) (hlog : d'.log = os ++ d.log)
    (hother : ∀ i, (d.arpcache i).arstate ≠ .AR_FREE →
      ∀ o ∈ os, o.creates i = false ∧ o.heardFrom (d.arpcache i).arpaddr = none) : d'.Sound := by
  refine ⟨fun i hi => ?_, fun i j hi hj ha => ?_, fun i hi => ?_⟩
  · rw [htab] at hi
    exact H.range i hi
  · rw [htab] at hi hj ha
    exact H.unique i j hi hj ha
  · rw [htab] at hi ⊢
    have hf : (d.arpcache i).arstate ≠ .AR_FREE := by
      rw [hi]
      nofun
    rw [hlog, heardSince, since_append (hother i hf)]
    exact H.latest i hi

/-- An entry is freed. -/
theorem Sound.free (H : d.Sound) (slot : Nat) : (d.setSlot slot { d.arpcache slot with arstate := .AR_FREE }).Sound := by
  refine H.change slot { d.arpcache slot with arstate := .AR_FREE } [] (fun h => absurd rfl h) rfl rfl
    (fun _ _ _ o ho => ?_) (fun h => absurd rfl h) (fun h => ?_)
  · cases ho
  · cases h

/-- A new entry, for an address that none is in use for. -/
theorem Sound.create (H : d.Sound) {cache : Cache} (hfree : d.arpcache.search addr = none)
    (halloc : d.arpcache.arpAlloc = some (slot, cache)) (e : Arpentry) (os : List Obs) (he : e.arpaddr = addr)
    (htab : d'.arpcache = Function.update cache slot e) (hlog : d'.log = os ++ .created slot :: d.log)
    (hos : ∀ o ∈ os, o = .heard addr e.arhaddr) (hres : e.arstate = .AR_RESOLVED → os ≠ []) : d'.Sound := by
  obtain ⟨hslot, -, rfl⟩ := arpAlloc_some halloc
  rw [Function.update_idem] at htab
  have hlog' : d'.log = (os ++ [.created slot]) ++ d.log := by
    rw [hlog, List.append_assoc]
    rfl
  have haddr : ∀ i, (d.arpcache i).arstate ≠ .AR_FREE → (d.arpcache i).arpaddr ≠ addr := fun i hi =>
    search_none hfree (H.range i hi) hi
  refine H.change slot e _ (fun _ => hslot) htab hlog' (fun i hi hf o ho => ?_) (fun _ i _ hf => he ▸ haddr i hf) (fun hr => ?_)
  · rcases List.mem_append.mp ho with ho | ho
    · rw [hos o ho]
      exact ⟨rfl, if_neg fun h => haddr i hf h.symm⟩
    · rw [List.mem_singleton.mp ho]
      exact ⟨decide_eq_false fun h => hi h.symm, rfl⟩
  · obtain ⟨o, os', rfl⟩ := List.exists_cons_of_ne_nil (hres hr)
    rw [hos o List.mem_cons_self]
    have hpick : (Obs.heard addr e.arhaddr).heardFrom e.arpaddr = some e.arhaddr := if_pos he.symm
    rw [List.cons_append, List.cons_append, heardSince, since_some rfl hpick]
    exact List.getLast?_concat

/-- The entry of an address takes the hardware address of a packet from it. -/
theorem Sound.hear (H : d.Sound) (hfound : d.arpcache.search addr = some slot)
    (htab : d'.arpcache = Function.update d.arpcache slot e) (hlog : d'.log = .heard addr e.arhaddr :: d.log)
    (he : e.arpaddr = addr) : d'.Sound := by
  obtain ⟨hslot, hstate, haddr⟩ := search_some hfound
  have hne : ∀ i ≠ slot, (d.arpcache i).arstate ≠ .AR_FREE → (d.arpcache i).arpaddr ≠ addr := fun i hi hf h =>
    hi (H.unique i slot hf hstate (h.trans haddr.symm))
  refine H.change slot e [.heard addr e.arhaddr] (fun _ => hslot) htab hlog (fun i hi hf o ho => ?_)
    (fun _ i hi hf => he ▸ hne i hi hf) (fun _ => ?_)
  · rw [List.mem_singleton.mp ho]
    exact ⟨rfl, if_neg fun h => hne i hi hf h.symm⟩
  · have hpick : (Obs.heard addr e.arhaddr).heardFrom e.arpaddr = some e.arhaddr := if_pos he.symm
    rw [List.singleton_append, heardSince, since_some rfl hpick]
    exact List.getLast?_concat

/-! ## Segments -/

/-- A request changes nothing when its address is in the table. -/
theorem arpRequest_found (d : Table) (pkt : Netpacket) : (d.arpRequest pkt true).1 = d := by
  unfold arpRequest freebuf
  split_ifs with h1 h2 h3
  · rfl
  · rfl
  · rfl
  · exact absurd rfl h3

/-- The end of `arp_in` for a sender that is not in the cache. -/
theorem Sound.arpRequest (H : d.Sound) (pkt : Netpacket) (hfree : d.arpcache.search (pkt.w32 arp_sndpa) = none) :
    ((d.arpRequest pkt false).1.note (.heard (pkt.w32 arp_sndpa) (haddr pkt arp_sndha))).Sound := by
  have hignored : (d.note (.heard (pkt.w32 arp_sndpa) (haddr pkt arp_sndha))).Sound := by
    refine H.log [.heard (pkt.w32 arp_sndpa) (haddr pkt arp_sndha)] rfl rfl (fun i hi o ho => ?_)
    rw [List.mem_singleton.mp ho]
    exact ⟨rfl, if_neg fun h => search_none hfree (H.range i hi) hi h.symm⟩
  unfold Table.arpRequest freebuf
  split_ifs with h1 h2 h3
  · exact hignored
  · exact hignored
  · exact hignored
  · split
    · exact hignored
    · next slot cache halloc =>
      refine H.create hfree halloc ⟨.AR_RESOLVED, pkt.w32 arp_sndpa, (cache slot).arpid, haddr pkt arp_sndha⟩
        [.heard (pkt.w32 arp_sndpa) (haddr pkt arp_sndha)] rfl rfl rfl (fun o ho => ?_) (fun _ => List.cons_ne_nil _ _)
      exact List.mem_singleton.mp ho

/-- A packet that arrives leaves the table sound. -/
theorem Sound.arpIn (H : d.Sound) (pktptr : Netpacket) : (d.arpIn pktptr).1.Sound := by
  unfold Table.arpIn
  simp only
  split_ifs
  · exact H
  · split
    · next slot hfound =>
      obtain ⟨-, -, haddr⟩ := search_some hfound
      split_ifs
      · exact H.hear hfound rfl rfl haddr
      · rw [arpRequest_found]
        exact H.hear hfound rfl rfl haddr
    · next hfree => exact H.arpRequest _ hfree

/-- An answer is recorded. -/
theorem Sound.answered (H : d.Sound) (pid : Int) (nxthop : Nat) (mac : List UInt8) : (d.note (.answered pid nxthop mac)).Sound := by
  refine H.log [.answered pid nxthop mac] rfl rfl (fun i _ o ho => ?_)
  rw [List.mem_singleton.mp ho]
  exact ⟨rfl, rfl⟩

/-- So does the first part of `arp_resolve`. -/
theorem Sound.arpResolve (H : d.Sound) (pid : Int) (nxthop : Nat) : (d.arpResolve pid nxthop).1.Sound := by
  unfold Table.arpResolve
  simp only
  split_ifs
  · exact H
  · exact H
  · split
    · split_ifs
      · exact H.answered _ _ _
      · exact H
    · next hfree =>
      split
      · exact H
      · next slot cache halloc =>
        refine H.create hfree halloc { cache slot with arstate := .AR_PENDING, arpaddr := nxthop % 4294967296, arpid := pid } []
          rfl rfl rfl (fun o ho => ?_) (fun h => ?_)
        · cases ho
        · cases h

/-- So does what `arp_resolve` does with the message it gets. -/
theorem Sound.received (H : d.Sound) (pid : Int) (slot nxthop i : Nat) (msg : Int) : (d.received pid slot nxthop i msg).1.Sound := by
  unfold Table.received
  simp only
  split_ifs
  · exact H
  · exact H.free slot
  · exact H
  · exact H.answered _ _ _

/-- The table at the start. -/
theorem Sound.init (netData : Ip.Network) (osem netbufsem : Int) : (Table.init netData osem netbufsem).Sound := by
  have hfree : ∀ i, ((Table.init netData osem netbufsem).arpcache i).arstate = .AR_FREE := fun _ => rfl
  refine ⟨fun i hi => absurd (hfree i) hi, fun i j hi => absurd (hfree i) hi, fun i hi => ?_⟩
  rw [hfree i] at hi
  cases hi

/-- What the processing of a packet may change of the cache: the entry of its sender, and a slot that `arp_alloc` hands out for it. -/
structure Hears (d : Table) (addr : Nat) (d' : Table) : Prop where
  haddr : ∀ i, (d'.arpcache i).arhaddr ≠ (d.arpcache i).arhaddr → (d'.arpcache i).arpaddr = addr
  pending : ∀ i, (d.arpcache i).arstate = .AR_PENDING → (d.arpcache i).arpaddr ≠ addr → d'.arpcache i = d.arpcache i

/-- The cache is as it was. -/
theorem Hears.same (htab : d'.arpcache = d.arpcache) : d.Hears addr d' := by
  refine ⟨fun i hi => ?_, fun i _ _ => by rw [htab]⟩
  rw [htab] at hi
  exact absurd rfl hi

/-- The entry of the sender changes. -/
theorem hears_update (htab : d'.arpcache = Function.update d.arpcache slot e) (hd : (d.arpcache slot).arpaddr = addr)
    (he : e.arpaddr = addr) : d.Hears addr d' := by
  refine ⟨fun i hi => ?_, fun i _ hi => ?_⟩
  · by_cases h : i = slot
    · rw [htab, h, Function.update_self]
      exact he
    · rw [htab, Function.update_of_ne h] at hi
      exact absurd rfl hi
  · have hne : i ≠ slot := by
      rintro rfl
      exact hi hd
    rw [htab, Function.update_of_ne hne]

/-- A new entry. -/
theorem hears_create {cache : Cache} (halloc : d.arpcache.arpAlloc = some (slot, cache))
    (htab : d'.arpcache = Function.update cache slot e) (he : e.arpaddr = addr) : d.Hears addr d' := by
  obtain ⟨-, hstate, rfl⟩ := arpAlloc_some halloc
  rw [Function.update_idem] at htab
  refine ⟨fun i hi => ?_, fun i hp _ => ?_⟩
  · by_cases h : i = slot
    · rw [htab, h, Function.update_self]
      exact he
    · rw [htab, Function.update_of_ne h] at hi
      exact absurd rfl hi
  · have hne : i ≠ slot := by
      rintro rfl
      exact hstate hp
    rw [htab, Function.update_of_ne hne]

/-- Behind a packet, the entries of its sender have the address it told. -/
theorem arpIn_hears (d : Table) (pktptr : Netpacket) : d.Hears ((arpNtoh pktptr).w32 arp_sndpa) (d.arpIn pktptr).1 := by
  unfold Table.arpIn
  simp only
  split_ifs
  · exact Hears.same rfl
  · split
    · next slot hfound =>
      obtain ⟨-, -, haddr⟩ := search_some hfound
      split_ifs
      · exact hears_update rfl haddr haddr
      · rw [arpRequest_found]
        exact hears_update rfl haddr haddr
    · unfold Table.arpRequest freebuf
      split_ifs with h1 h2 h3
      · exact Hears.same rfl
      · exact Hears.same rfl
      · exact Hears.same rfl
      · split
        · exact Hears.same rfl
        · next slot cache halloc => exact hears_create halloc rfl rfl

/-- `arp_resolve` leaves the entries that are pending as they are until it times out. -/
theorem arpResolve_pending (d : Table) (pid : Int) (nxthop : Nat) {i : Nat} (hi : (d.arpcache i).arstate = .AR_PENDING) :
    (d.arpResolve pid nxthop).1.arpcache i = d.arpcache i := by
  unfold Table.arpResolve
  simp only
  split_ifs
  · rfl
  · rfl
  · split
    · split_ifs <;> rfl
    · split
      · rfl
      · next slot cache halloc =>
        obtain ⟨-, hstate, -⟩ := arpAlloc_some halloc
        have hne : i ≠ slot := by
          rintro rfl
          exact hstate hi
        exact (Function.update_of_ne hne _ _).trans (arpAlloc_pending halloc hi)

/-- The message changes no entry but that of the caller, and that one only on a timeout. -/
theorem received_cache (d : Table) (pid : Int) (slot nxthop n : Nat) (msg : Int) {i : Nat} (hi : i ≠ slot ∨ int32 msg ≠ TIMEOUT) :
    (d.received pid slot nxthop n msg).1.arpcache i = d.arpcache i := by
  unfold Table.received
  simp only
  split_ifs with h1
  · rfl
  · exact Function.update_of_ne (hi.resolve_right fun h => h h1) _ _
  · rfl
  · rfl

/-! ### The records of what was heard -/

/-- The senders that the records name. -/
def senders (d : Table) : List (Nat × List UInt8) := d.log.filterMap Obs.sender

/-- A request is not a sender. -/
theorem arpRequest_senders (d : Table) (pkt : Netpacket) (found : Bool) : (d.arpRequest pkt found).1.senders = d.senders := by
  unfold Table.arpRequest freebuf
  split_ifs
  · rfl
  · rfl
  · rfl
  · split <;> rfl

/-- `arp_in` records the sender of a packet that it does not reject. -/
theorem arpIn_senders (d : Table) (pktptr : Netpacket) :
    (d.arpIn pktptr).1.senders = (accepted (arpNtoh pktptr)).toList ++ d.senders := by
  unfold Table.arpIn accepted
  simp only
  split_ifs
  · rfl
  · split
    · split_ifs
      · rfl
      · rw [arpRequest_found]
        rfl
    · exact congrArg (_ :: ·) (arpRequest_senders d _ false)

/-- Nor is `arp_resolve`. -/
theorem arpResolve_senders (d : Table) (pid : Int) (nxthop : Nat) : (d.arpResolve pid nxthop).1.senders = d.senders := by
  unfold Table.arpResolve
  simp only
  split_ifs
  · rfl
  · rfl
  · split
    · split_ifs <;> rfl
    · split <;> rfl

theorem received_senders (d : Table) (pid : Int) (slot nxthop n : Nat) (msg : Int) :
    (d.received pid slot nxthop n msg).1.senders = d.senders := by
  unfold Table.received
  simp only
  split_ifs <;> rfl

end Table

end Arp

open Arp

/-- The sender of the packet that `arp_in` is called with in an event, unless it rejects it. -/
def Machine.arpAccepts : Event arp → Option (Nat × List UInt8)
  | .op (.arpIn pktptr) => accepted (arpNtoh pktptr)
  | _ => none

/-- The packet, in host order, that `arp_in` processes in an event. -/
def Machine.arpHears (m : Machine arp) : Event arp → Option Netpacket
  | .op (.arpIn pktptr) => some (arpNtoh pktptr)
  | e =>
    match m.resumed e with
    | some (.informed pkt, _) => some pkt
    | _ => none

/-- What one event does to the cache: `arp_alloc` hands out no slot of a pending entry, `arp_in` changes the hardware address of
the entry of its sender only, and a pending entry changes when a packet from its address is processed, or when an `arp_resolve`
that was handed its slot times out. What is recorded as heard are the senders of the packets that `arp_in` does not reject. -/
structure ArpStep (m : Machine arp) (e : Event arp) (m' : Machine arp) : Prop where
  alloc : ∀ slot cache, m.data.arpcache.arpAlloc = some (slot, cache) →
    ∀ i, (m.data.arpcache i).arstate = .AR_PENDING → cache i = m.data.arpcache i
  haddr : ∀ pkt, m.arpHears e = some pkt → ∀ i, (m'.data.arpcache i).arhaddr ≠ (m.data.arpcache i).arhaddr →
    (m'.data.arpcache i).arpaddr = pkt.w32 arp_sndpa
  pending : ∀ i, (m.data.arpcache i).arstate = .AR_PENDING → m'.data.arpcache i = m.data.arpcache i ∨
    (∃ pkt, m.arpHears e = some pkt ∧ (m.data.arpcache i).arpaddr = pkt.w32 arp_sndpa) ∨
      ∃ nxthop n msg, m.resumed e = some (.received i nxthop n, msg) ∧ int32 msg = TIMEOUT
  heard : m'.data.senders = (Machine.arpAccepts e).toList ++ m.data.senders

section Runs

variable {m m' : Machine arp} {e : Event arp}

/-- Every event that changes the data is one of these. -/
theorem arp_segment_cases {P : Table → Prop} (hs : m.step e = some m') (hquiet : P m.data)
    (hresolve : ∀ nxthop, e = .op (.arpResolve nxthop) → P (m.data.arpResolve m.k.currpid nxthop).1)
    (hin : ∀ pktptr, e = .op (.arpIn pktptr) → P (m.data.arpIn pktptr).1)
    (hconf : ∀ netData, e = .op (.configure netData) → P { m.data with netData := netData })
    (hrecv : ∀ slot nxthop n msg, m.resumed e = some (.received slot nxthop n, msg) →
      P (m.data.received m.k.currpid slot nxthop n msg).1) : P m'.data := by
  rw [Machine.segment_data hs]
  cases hx : m.segment e with
  | none => exact hquiet
  | some x =>
    cases e with
    | call c | tick => cases hx
    | op o =>
      obtain rfl := Option.some.inj hx
      cases o with
      | arpResolve nxthop => exact hresolve nxthop rfl
      | arpIn pktptr => exact hin pktptr rfl
      | configure netData => exact hconf netData rfl
    | ret | cont =>
      obtain ⟨⟨f, v⟩, hr, rfl⟩ := Option.map_eq_some_iff.mp hx
      cases f with
      | received slot nxthop n => exact hrecv slot nxthop n v hr
      | informed pkt =>
        rw [Option.map_some, Option.getD_some, Table.arpRequest_found]
        exact hquiet
      | cleared | written | replied | done => exact hquiet

/-- An event in which `arp_resolve` goes on processes no packet. -/
theorem arpHears_received {slot nxthop n : Nat} {msg : Int} (hr : m.resumed e = some (.received slot nxthop n, msg)) :
    m.arpHears e = none := by
  cases e with
  | op o => cases hr
  | call c | tick => cases hr
  | ret | cont => simp only [Machine.arpHears, hr]

/-- What one event adds to the senders that were heard. -/
theorem arp_senders (hs : m.step e = some m') : m'.data.senders = (Machine.arpAccepts e).toList ++ m.data.senders := by
  cases e with
  | op o =>
    rw [Machine.segment_data hs]
    cases o with
    | arpResolve nxthop => exact m.data.arpResolve_senders _ nxthop
    | arpIn pktptr => exact m.data.arpIn_senders pktptr
    | configure netData => rfl
  | call | tick | ret | cont =>
    refine arp_segment_cases (P := fun d => d.senders = m.data.senders) hs rfl (fun _ _ => ?_) (fun _ h => ?_) (fun _ _ => rfl) ?_
    · exact m.data.arpResolve_senders _ _
    · cases h
    · exact fun slot nxthop n msg _ => m.data.received_senders _ slot nxthop n msg

/-- Every event does to the table what it says. -/
theorem arp_step (hs : m.step e = some m') : ArpStep m e m' := by
  refine ⟨fun slot cache halloc i hi => arpAlloc_pending halloc hi, ?_, ?_, arp_senders hs⟩
  · intro pkt hpkt i
    refine arp_segment_cases (P := fun d => (d.arpcache i).arhaddr ≠ _ → (d.arpcache i).arpaddr = _) hs ?_ ?_ ?_ ?_ ?_
    · exact fun h => absurd rfl h
    · rintro nxthop rfl
      cases hpkt
    · rintro pktptr rfl
      obtain rfl := Option.some.inj hpkt
      exact (m.data.arpIn_hears pktptr).haddr i
    · exact fun netData _ h => absurd rfl h
    · intro slot nxthop n msg hr
      rw [arpHears_received hr] at hpkt
      cases hpkt
  · intro i hi
    refine arp_segment_cases (P := fun d => d.arpcache i = m.data.arpcache i ∨ _) hs (Or.inl rfl) ?_ ?_ ?_ ?_
    · exact fun nxthop _ => Or.inl (m.data.arpResolve_pending _ nxthop hi)
    · rintro pktptr rfl
      by_cases haddr : (m.data.arpcache i).arpaddr = (arpNtoh pktptr).w32 arp_sndpa
      · exact Or.inr (Or.inl ⟨_, rfl, haddr⟩)
      · exact Or.inl ((m.data.arpIn_hears pktptr).pending i hi haddr)
    · exact fun netData _ => Or.inl rfl
    · intro slot nxthop n msg hr
      by_cases h : i ≠ slot ∨ int32 msg ≠ TIMEOUT
      · exact Or.inl (m.data.received_cache _ slot nxthop n msg h)
      · obtain ⟨rfl, hmsg⟩ := not_or.mp h |>.imp not_not.mp not_not.mp
        exact Or.inr (Or.inr ⟨nxthop, n, msg, hr, hmsg⟩)

theorem sound_step (hs : m.step e = some m') (H : m.data.Sound) : m'.data.Sound :=
  arp_segment_cases hs H (fun nxthop _ => H.arpResolve _ nxthop) (fun pktptr _ => H.arpIn pktptr)
    (fun _ _ => H.log [] rfl rfl (fun _ _ _ ho => nomatch ho))
    (fun slot nxthop n msg _ => H.received _ slot nxthop n msg)

end Runs

/-- In every run the cache is in order, and every event does to it what `ArpStep` says. -/
theorem arp_cache (netData : Ip.Network) (osem netbufsem : Int) (minheap maxheap : Nat) {m : Machine arp}
    (r : Machine.Reach (fun _ _ => True) (boot arp (Table.init netData osem netbufsem) minheap maxheap) m) :
    m.data.Sound ∧ ∀ e m', m.step e = some m' → ArpStep m e m' := by
  refine ⟨?_, fun e m' hs => arp_step hs⟩
  induction r with
  | refl => exact Table.Sound.init netData osem netbufsem
  | step e _ _ hs ih => exact sound_step hs ih

/-- A network with this machine at 10.0.0.2. -/
def arpNetwork : Ip.Network where
  ipucast := 0x0A000002
  ipbcast := 0x0A0000FF
  ipmask := 0xFFFFFF00
  ipprefix := 0x0A000000
  iprouter := 0x0A000003
  ipvalid := true
  ethucast := [2, 0, 0, 0, 0, 2]
  ethbcast := [255, 255, 255, 255, 255, 255]

/-- The reply of the machine at 10.0.0.1. -/
def arpReply : Netpacket :=
  arppacket [2, 0, 0, 0, 0, 2] [2, 0, 0, 0, 0, 1] ARP_OP_RPLY [2, 0, 0, 0, 0, 1] 0x0A000001 [2, 0, 0, 0, 0, 2] 0x0A000002

/-- Process 2, of the higher priority, asks for 10.0.0.1 and waits for the answer; process 1 runs. -/
def arpAsked : List (Event arp) :=
  [.call (.semcreate 32), .cont, .call (.semcreate 32), .cont, .call (.create 400 20), .cont, .call (.create 400 30), .cont,
    .call (.resume 1), .call (.resume 2), .op (.arpResolve 0x0A000001), .cont, .cont, .cont]

/-- The cache in a run in which the answer comes. -/
theorem arp_cache_reply :
    ∃ m, Machine.Reach (fun _ _ => True) (boot arp (Table.init arpNetwork 0 1) 4096 1048576) m ∧
      m.data.log = [.answered 2 0x0A000001 [2, 0, 0, 0, 0, 1], .heard 0x0A000001 [2, 0, 0, 0, 0, 1], .created 0] ∧
      m.data.Sound ∧ ∀ e m', m.step e = some m' → ArpStep m e m' := by
  obtain ⟨m, r, hf⟩ := Machine.reach_of_evaluates Forcing.arpMachine (fun _ _ => True)
    (boot arp (Table.init arpNetwork 0 1) 4096 1048576) (arpAsked ++ [.op (.arpIn arpReply), .cont, .cont])
    (fun m => decide (m.data.log =
      [.answered 2 0x0A000001 [2, 0, 0, 0, 0, 1], .heard 0x0A000001 [2, 0, 0, 0, 0, 1], .created 0])) (by decide +kernel)
  exact ⟨m, r, of_decide_eq_true hf, arp_cache arpNetwork 0 1 4096 1048576 r⟩

end Xinu
