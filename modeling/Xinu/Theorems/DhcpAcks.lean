import Xinu.Theorems.DhcpSlot

/-!
# DHCP acknowledgements

`getlocalip` takes a message for an acknowledgement when the last message type that its strides meet is not that of an offer and the
third byte of the options is 5. In every run in which that says of each message what its options do, and in which the boot server
of an acknowledgement is found, the network is configured from the first acknowledgement and from nothing else.
-/

namespace Xinu

namespace Dhcp

open Netpacket Tagged

/-- The bytes of a datagram that the client receives. -/
def payload (net_udplen : Nat) (net_udpdata : Nat → UInt8) : List UInt8 := bytes net_udpdata (min dhcpmsgSize (net_udplen - 8))

/-- A message with options whose type is that of an acknowledgement, for a transaction. -/
def Acks (xid : Nat) (r : Received) : Prop := ∃ net_udplen net_udpdata items rest, r = .datagram net_udplen net_udpdata ∧
  (payload net_udplen net_udpdata).drop dc_opt = area items rest ∧ w32 net_udpdata dc_xid = xid ∧ valueOf 53 items = some [5]

/-- The transaction identifier of the client. -/
def State.xid (s : State) : Nat := htonl (w32 s.netData.ethaddr 0)

/-- The boot server that is taken from a message: the name in the message if it is an address, or else what the strides meet as the
identifier of a server, within the length of the message that was sent last. -/
def bootServer (e : Event) (s : State) : Option Nat :=
  (dot2ip fun j => (e.arrived s).dmsg_rvc (sname + j)).or
    (((Dhcp.stops (e.arrived s).dmsg_rvc s.len.toNat).find? fun p => (e.arrived s).dmsg_rvc p = DHCP_SERVER_ID).map fun p =>
      htonl ((e.arrived s).dmsg_rvc.w32 (p + 2)))

/-- The message is taken for what it is, and the boot server is found if it is an acknowledgement. -/
structure Recognised (xid : Nat) (e : Event) (s : State) : Prop where
  acks : Acks xid e.received ↔ Taken e s
  boots : Taken e s → (bootServer e s).isSome

/-- The network as it is configured from a message. -/
def configured (n : NetData) (e : Event) (s : State) (bootserver : Nat) : NetData :=
  { n.assign (e.options s) (htonl ((e.arrived s).dmsg_rvc.w32 dc_yip)) with
    bootserver := bootserver
    bootfile := (List.range NETBOOTFILE).map fun j => (e.arrived s).dmsg_rvc (bootfile + j) }

variable {slot : Int} {e : Event} {s : State} {xid : Nat} {recv : List Event} {r : Run}

/-- The end of the inner loop, for a message that has arrived. -/
theorem configure_eq (slot : Int) (e : Event) (s : State) :
    ((configure slot (e.options s) (e.arrived s)).exit = some .faulted ∧ bootServer e s = none) ∨
      ∃ bootserver, bootServer e s = some bootserver ∧
        (configure slot (e.options s) (e.arrived s)).state.netData = configured s.netData e s bootserver ∧
        (configure slot (e.options s) (e.arrived s)).exit = some (.returned (htonl ((e.arrived s).dmsg_rvc.w32 dc_yip))) := by
  unfold configure bootServer
  dsimp only [State.udpRelease]
  have hlen : (e.arrived s).len = s.len := rfl
  rw [hlen, dhcpGetOptVal_mem]
  cases hname : dot2ip fun j => (e.arrived s).dmsg_rvc (sname + j) with
  | some bootserver => exact .inr ⟨bootserver, rfl, rfl, rfl⟩
  | none =>
    cases hid : (Dhcp.stops (e.arrived s).dmsg_rvc s.len.toNat).find? fun p => (e.arrived s).dmsg_rvc p = DHCP_SERVER_ID with
    | none => exact .inl ⟨rfl, rfl⟩
    | some p => exact .inr ⟨_, rfl, rfl, rfl⟩

/-- The condition on a run: each outcome that it comes to is recognised. -/
def RecognisesAll (recv : List Event) (s : State) : Prop :=
  ∀ slot udp, s.udp.udpRegister 0 UDP_DHCP_SPORT UDP_DHCP_CPORT = (udp, .ret slot) → slot ≠ SYSERR →
    ∀ used e post, recv = used ++ e :: post → used.length < 3 * DHCP_RETRY → Continues slot used (started udp s) →
      Recognised s.xid e (after slot used (started udp s))

/-- The network is configured upon the first acknowledgement, and from nothing else. -/
structure AcceptsAck (recv : List Event) (s : State) : Prop where
  returns : ∀ r, getlocalip recv s = some r →
    (∃ used e slot udp bootserver, recv = used ++ e :: r.rest ∧ Acks s.xid e.received ∧ (∀ e ∈ used, ¬Acks s.xid e.received) ∧
      s.udp.udpRegister 0 UDP_DHCP_SPORT UDP_DHCP_CPORT = (udp, .ret slot) ∧
      bootServer e (after slot used (started udp s)) = some bootserver ∧
      r.state.netData = configured s.netData e (after slot used (started udp s)) bootserver ∧
      r.exit = some (.returned r.state.netData.ipucast)) ∨
    ∃ used, recv = used ++ r.rest ∧ (∀ e ∈ used, ¬Acks s.xid e.received) ∧ r.state.netData = s.netData ∧
      r.exit = some (.returned SYSERR32)
  waits : getlocalip recv s = none → ∀ e ∈ recv, ¬Acks s.xid e.received

/-- Turns that go on, and are recognised, are none of an acknowledgement. -/
theorem not_acks_of_continues {used : List Event} (hgoes : Continues slot used s)
    (hcond : ∀ init e post, used = init ++ e :: post → Continues slot init s → Recognised xid e (after slot init s)) :
    (∀ e ∈ used, ¬Acks xid e.received) ∧ (after slot used s).netData = s.netData := by
  induction used generalizing s with
  | nil => exact ⟨fun e he => absurd he List.not_mem_nil, rfl⟩
  | cons e used ih =>
    obtain ⟨hexit, hgoes⟩ := hgoes
    obtain ⟨-, -, htaken, hstate⟩ := turn_goes hexit
    have hnet := (kept_of_goes hstate).1
    obtain ⟨hrest, hnet'⟩ := ih hgoes fun init e' post hsplit hinit =>
      hcond (e :: init) e' post (by rw [hsplit]; rfl) ⟨hexit, hinit⟩
    refine ⟨fun e' he' => ?_, hnet'.trans hnet⟩
    rcases List.mem_cons.mp he' with rfl | he'
    · exact fun hacks => htaken ((hcond [] e' used rfl trivial).acks.mp hacks)
    · exact hrest e' he'

theorem udpRegister_ret (u : Udp) (remip remport locport : Nat) : ∃ v, (u.udpRegister remip remport locport).2 = .ret v := by
  rw [Udp.udpRegister]
  split
  · exact ⟨_, rfl⟩
  · split
    · exact ⟨_, rfl⟩
    · exact ⟨_, rfl⟩

/-- In every run whose messages are recognised, `getlocalip` configures the network and returns an address upon the first
acknowledgement, from nothing else, and not through a missing option. -/
theorem dhcp_accepts_acks (recv : List Event) (s : State) (hcond : RecognisesAll recv s) : AcceptsAck recv s := by
  obtain ⟨slot, hslot⟩ := udpRegister_ret s.udp 0 UDP_DHCP_SPORT UDP_DHCP_CPORT
  obtain ⟨udp, hudp⟩ : ∃ udp, (s.udp.udpRegister 0 UDP_DHCP_SPORT UDP_DHCP_CPORT).1 = udp := ⟨_, rfl⟩
  have hreg : s.udp.udpRegister 0 UDP_DHCP_SPORT UDP_DHCP_CPORT = (udp, .ret slot) := Prod.ext hudp hslot
  by_cases herror : slot = SYSERR
  · have hrun : getlocalip recv s = some ⟨⟨some (.returned SYSERR32), [], { s with udp := udp }⟩, recv⟩ := by
      rw [getlocalip, hreg]
      exact if_pos herror
    refine ⟨fun r hr => .inr ⟨[], ?_⟩, fun hnone => ?_⟩
    · rw [hrun] at hr
      obtain rfl := Option.some.inj hr
      exact ⟨rfl, fun e he => absurd he List.not_mem_nil, rfl, rfl⟩
    · rw [hrun] at hnone
      cases hnone
  · have hrecognised := hcond slot udp hreg herror
    have hgo : ∀ used, used.length ≤ 3 * DHCP_RETRY → (∃ post, recv = used ++ post) → Continues slot used (started udp s) →
        (∀ e ∈ used, ¬Acks s.xid e.received) ∧ (after slot used (started udp s)).netData = s.netData := by
      rintro used hlen ⟨post, rfl⟩ hgoes
      refine not_acks_of_continues hgoes fun init e post' hsplit hinit => ?_
      refine hrecognised init e (post' ++ post) (by rw [hsplit]; simp) ?_ hinit
      rw [hsplit, List.length_append, List.length_cons] at hlen
      omega
    refine ⟨fun r hr => ?_, fun hnone => ?_⟩
    · rw [getlocalip_eq recv hreg herror] at hr
      rcases retryLoop_run DHCP_RETRY hr with ⟨hexit, used, hlen, hsplit, hgoes, hstate⟩ | ⟨used, e, hlen, hends⟩
      · obtain ⟨hacks, hnet⟩ := hgo used (Nat.le_of_eq hlen) ⟨_, hsplit⟩ hgoes
        refine .inr ⟨used, hsplit, hacks, ?_, hexit⟩
        rw [hstate]
        exact hnet
      · obtain ⟨hacks, hnet⟩ := hgo used (Nat.le_of_lt hlen) ⟨_, hends.split⟩ hends.goes
        have hturn := hrecognised used e r.rest hends.split hlen hends.goes
        rcases turn_ends (hends.exit ▸ hends.ends) with ⟨-, htaken, hexit, hstate⟩ | ⟨htaken, hconfigure⟩
        · refine .inr ⟨used ++ [e], ?_, ?_, ?_, ?_⟩
          · rw [hends.split, List.append_assoc]
            rfl
          · intro e' he'
            rcases List.mem_append.mp he' with he' | he'
            · exact hacks e' he'
            · obtain rfl := List.mem_singleton.mp he'
              exact fun h => htaken (hturn.acks.mp h)
          · rw [hends.state, (kept_of_goes hstate).1, hnet]
          · rw [← hends.exit, hexit]
        · left
          rw [hends.state, ← hends.exit, hconfigure]
          rcases configure_eq slot e (after slot used (started udp s)) with ⟨-, hnone⟩ | ⟨bootserver, hboot, hconf, hexit⟩
          · have hboots := hturn.boots htaken
            rw [hnone] at hboots
            cases hboots
          · rw [hconf, hexit, hnet]
            exact ⟨used, e, slot, udp, bootserver, hends.split, hturn.acks.mpr htaken, hacks, hreg, hboot, rfl, rfl⟩
    · rw [getlocalip_eq recv hreg herror] at hnone
      obtain ⟨hgoes, hlen⟩ := retryLoop_none DHCP_RETRY hnone
      exact (hgo recv (Nat.le_of_lt hlen) ⟨[], (List.append_nil recv).symm⟩ hgoes).1

/-! ## Messages that begin with their type -/

section

variable {net_udplen : Nat} {net_udpdata : Nat → UInt8} {items : List Item} {rest : List UInt8}

theorem length_payload : (payload net_udplen net_udpdata).length = min dhcpmsgSize (net_udplen - 8) := by
  rw [payload, bytes, List.length_map, List.length_range]

theorem payload_getElem {j : Nat} (h : j < (payload net_udplen net_udpdata).length) :
    (payload net_udplen net_udpdata)[j]? = some (net_udpdata j) := by
  rw [length_payload] at h
  rw [payload, bytes, List.getElem?_map, List.getElem?_range h]
  rfl

/-- The length of a datagram that is received, and its bytes in the buffer. -/
theorem arrived_datagram (hr : e.received = .datagram net_udplen net_udpdata) (h : (payload net_udplen net_udpdata).length ≠ 0) :
    e.inlen s = (payload net_udplen net_udpdata).length ∧
      ∀ j < (payload net_udplen net_udpdata).length, (e.arrived s).dmsg_rvc j = net_udpdata j := by
  have hlen : e.inlen s = (payload net_udplen net_udpdata).length := by
    rw [length_payload] at h ⊢
    rw [Event.inlen, hr, udpRecv]
    simp only [UDP_HDR_LEN]
    omega
  refine ⟨hlen, fun j hj => ?_⟩
  have hrvc : (e.arrived s).dmsg_rvc = s.dmsg_rvc.copy 0 net_udpdata (e.inlen s).toNat := by
    rw [Event.arrived, Event.inlen, hr]
    rfl
  rw [hrvc, hlen, Int.toNat_natCast]
  have hcopy : s.dmsg_rvc.copy 0 net_udpdata (payload net_udplen net_udpdata).length (0 + j) = net_udpdata j := copy_add hj
  rwa [Nat.zero_add] at hcopy

/-- A message that begins with its type, and in which the strides meet no other, is taken for what it is. -/
theorem acks_iff_taken {t : UInt8} {f : Tagged.Field} (hf : f.code = 53) (hv : f.value = [t])
    (hr : e.received = .datagram net_udplen net_udpdata)
    (harea : (payload net_udplen net_udpdata).drop dc_opt = area (.field f :: items) rest)
    (hxid : s.dmsg_snd.w32 dc_xid = xid) (honly : ∀ p ∈ e.stops s, (e.arrived s).dmsg_rvc p = 53 → p = dc_opt) :
    Acks xid e.received ↔ Taken e s := by
  have hfield : (payload net_udplen net_udpdata).drop dc_opt = 53 :: 1 :: t :: area items rest := by
    rw [harea, ← hf]
    simp [area, Item.bytes, hv]
  have hlen := congrArg List.length hfield
  rw [List.length_drop, List.length_cons, List.length_cons, List.length_cons] at hlen
  have hn : dc_opt + 3 ≤ (payload net_udplen net_udpdata).length := by omega
  obtain ⟨hinlen, hbytes⟩ := arrived_datagram (s := s) hr (by omega)
  have hbyte : ∀ i < 3, (e.arrived s).dmsg_rvc (dc_opt + i) = ([53, 1, t].getD i 0) := by
    intro i hi
    have hget := getElem?_of_drop hfield i
    rw [payload_getElem (by omega)] at hget
    rw [hbytes _ (by omega)]
    rcases (by omega : i = 0 ∨ i = 1 ∨ i = 2) with rfl | rfl | rfl
    · exact Option.some.inj hget
    · exact Option.some.inj hget
    · exact Option.some.inj hget
  have hword : (e.arrived s).dmsg_rvc.w32 dc_xid = w32 net_udpdata dc_xid :=
    w32_congr fun i hi => hbytes _ (Nat.lt_of_lt_of_le (Nat.add_lt_add_left hi dc_xid) (Nat.le_trans (by decide) hn))
  have hmem : dc_opt ∈ e.stops s := by
    have hlt : dc_opt < (e.inlen s).toNat - 1 := by
      rw [hinlen, Int.toNat_natCast]
      omega
    rw [Event.stops, Dhcp.stops, walk_of_lt _ hlt]
    exact List.mem_cons_self
  have hlast : last (fun p => (e.arrived s).dmsg_rvc p = 53) (e.stops s) = some dc_opt := by
    refine (last_eq_some_iff (stops_pairwise _ _) _).mpr ⟨hmem, decide_eq_true (hbyte 0 (by decide)), fun q hq h => ?_⟩
    rw [honly q hq (by simpa using h)]
  have hoffer : Offers e s ↔ t = 2 := by
    have ht : (e.arrived s).dmsg_rvc (dc_opt + 2) = t := hbyte 2 (by decide)
    rw [Offers, hlast, ← ht]
    constructor
    · rintro ⟨p, hp, hbyte⟩
      obtain rfl := Option.some.inj hp
      exact hbyte
    · exact fun h => ⟨dc_opt, rfl, h⟩
  constructor
  · rintro ⟨_, _, items', rest', hr', harea', hxid', hvalue⟩
    obtain ⟨rfl, rfl⟩ := Received.datagram.inj (hr.symm.trans hr')
    obtain rfl := area_injective (harea.symm.trans harea')
    rw [valueOf, if_pos hf, hv] at hvalue
    obtain rfl := (List.cons.inj (Option.some.inj hvalue)).1
    refine ⟨⟨?_, ?_, ?_⟩, fun h => absurd (hoffer.mp h) (by decide), hbyte 2 (by decide)⟩
    · rw [hinlen]
      exact fun h => absurd h (by unfold TIMEOUT; omega)
    · rw [hinlen]
      exact fun h => absurd h (by unfold SYSERR; omega)
    · rw [hword, hxid', hxid]
  · rintro ⟨hheard, -, hthird⟩
    refine ⟨_, _, _, _, hr, harea, ?_, ?_⟩
    · rw [← hword, hheard.xid, hxid]
    · have ht : t = 5 := (hbyte 2 (by decide)).symm.trans hthird
      rw [valueOf, if_pos hf, hv, ht]

end

/-! ## Two acknowledgements -/

/-- A message with a zero header. -/
def messageOf (options : List UInt8) : Event :=
  ⟨.datagram (dc_opt + options.length + 8) fun j => if j < dc_opt then 0 else options.getD (j - dc_opt) 0, freshUdp⟩

/-- An acknowledgement with the identifier of the server. -/
def ackMessage : Event := messageOf [53, 1, 5, 54, 4, 10, 0, 0, 1, 255]

/-- An acknowledgement with the subnet mask before the message type. -/
def maskedAck : Event := messageOf [1, 4, 255, 255, 255, 0, 53, 1, 5, 255]

theorem messageOf_drop (options : List UInt8) (h : dc_opt + options.length ≤ dhcpmsgSize) :
    (payload (dc_opt + options.length + 8) fun j => if j < dc_opt then 0 else options.getD (j - dc_opt) 0).drop dc_opt = options := by
  have hlen : min dhcpmsgSize (dc_opt + options.length + 8 - 8) - dc_opt = options.length := by omega
  rw [payload, drop_bytes, hlen]
  refine List.ext_getElem (by simp) fun i h₁ h₂ => ?_
  simp [List.getElem?_eq_getElem h₂]

/-- What arrives with such a message. -/
theorem messageOf_arrived (options : List UInt8) (h : dc_opt + options.length ≤ dhcpmsgSize) (s : State) :
    (messageOf options).inlen s = (dc_opt + options.length : Nat) ∧
      ∀ i < options.length, ((messageOf options).arrived s).dmsg_rvc (dc_opt + i) = options.getD i 0 := by
  have hlen : (payload (dc_opt + options.length + 8) fun j => if j < dc_opt then 0 else options.getD (j - dc_opt) 0).length =
      dc_opt + options.length := by
    rw [length_payload]
    omega
  have hpos : dc_opt + options.length ≠ 0 := by
    unfold dc_opt
    omega
  obtain ⟨hinlen, hbytes⟩ := arrived_datagram (e := messageOf options) (s := s) rfl (by rw [hlen]; exact hpos)
  rw [hlen] at hinlen hbytes
  refine ⟨hinlen, fun i hi => ?_⟩
  rw [hbytes _ (by omega), if_neg (by omega), Nat.add_sub_cancel_left]

/-- The strides stay in the options of such a message. -/
theorem messageOf_stop {options : List UInt8} (h : dc_opt + options.length ≤ dhcpmsgSize) {s : State} {p : Nat}
    (hp : p ∈ (messageOf options).stops s) :
    ∃ i < options.length, p = dc_opt + i ∧ ((messageOf options).arrived s).dmsg_rvc p = options.getD i 0 := by
  obtain ⟨hinlen, hbytes⟩ := messageOf_arrived options h s
  obtain ⟨hle, hlt⟩ := stop_bounds hp
  rw [hinlen, Int.toNat_natCast] at hlt
  obtain ⟨i, rfl⟩ : ∃ i, p = dc_opt + i := ⟨p - dc_opt, by omega⟩
  exact ⟨i, by omega, rfl, hbytes i (by omega)⟩

theorem freshState_xid : (started freshUdp freshState).dmsg_snd.w32 dc_xid = 0 := (dhcpBldDisc_xid _ _).trans rfl

/-- The boot server of that acknowledgement is the server. -/
theorem ackMessage_boots (slot : Int) : (bootServer ackMessage (after slot [] (started freshUdp freshState))).isSome := by
  obtain ⟨-, hbytes⟩ : _ ∧ ∀ i < 10, (ackMessage.arrived (started freshUdp freshState)).dmsg_rvc (dc_opt + i) =
    ([53, 1, 5, 54, 4, 10, 0, 0, 1, 255] : List UInt8).getD i 0 := messageOf_arrived [53, 1, 5, 54, 4, 10, 0, 0, 1, 255] (by decide) _
  have hlimit : (after slot [] (started freshUdp freshState)).len.toNat - 1 = dc_opt + 9 := rfl
  have hstride : lengthStride (ackMessage.arrived (started freshUdp freshState)).dmsg_rvc dc_opt = 2 := by
    rw [lengthStride, hbytes 1 (by decide)]
    rfl
  have hmem : dc_opt + 3 ∈ Dhcp.stops (ackMessage.arrived (started freshUdp freshState)).dmsg_rvc
      (after slot [] (started freshUdp freshState)).len.toNat := by
    rw [Dhcp.stops, hlimit, walk_of_lt _ (by omega), hstride, walk_of_lt _ (by omega)]
    simp
  have hfind : ((Dhcp.stops (ackMessage.arrived (started freshUdp freshState)).dmsg_rvc
      (after slot [] (started freshUdp freshState)).len.toNat).find? fun p =>
        (ackMessage.arrived (started freshUdp freshState)).dmsg_rvc p = DHCP_SERVER_ID).isSome :=
    List.find?_isSome.mpr ⟨dc_opt + 3, hmem, decide_eq_true (hbytes 3 (by decide))⟩
  rw [bootServer, Option.isSome_or, Option.isSome_map]
  exact (Bool.or_eq_true _ _).mpr (.inr hfind)

/-- The network is configured from that acknowledgement. -/
theorem dhcp_accepts_acks_server : AcceptsAck [ackMessage] freshState := by
  refine dhcp_accepts_acks _ _ fun slot udp hreg hslot used e post hsplit _ _ => ?_
  obtain ⟨rfl, -⟩ := Prod.mk.inj (freshState_register.symm.trans hreg)
  obtain ⟨rfl, rfl⟩ : used = [] ∧ e = ackMessage := by
    cases used with
    | nil => exact ⟨rfl, (List.cons.inj hsplit).1.symm⟩
    | cons e' used => exact absurd (List.cons.inj hsplit).2.symm (by simp)
  have harea : ([53, 1, 5, 54, 4, 10, 0, 0, 1, 255] : List UInt8) = area (.field ⟨53, [5], by decide, by decide, by decide⟩ ::
      [.field ⟨54, [10, 0, 0, 1], by decide, by decide, by decide⟩]) [] := rfl
  have hdrop := (messageOf_drop [53, 1, 5, 54, 4, 10, 0, 0, 1, 255] (by decide)).trans harea
  refine ⟨acks_iff_taken rfl rfl rfl hdrop freshState_xid fun p hp h53 => ?_, fun _ => ackMessage_boots slot⟩
  obtain ⟨i, hi, rfl, hbyte⟩ := messageOf_stop (by decide) hp
  have hfirst : ∀ i < 10, ([53, 1, 5, 54, 4, 10, 0, 0, 1, 255] : List UInt8).getD i 0 = 53 → i = 0 := by decide
  rw [hfirst i hi (hbyte.symm.trans h53), Nat.add_zero]

/-- The other one is passed over. -/
theorem maskedAck_goes (slot : Int) (udp : Udp) : (turn slot maskedAck (started udp freshState)).exit = none := by
  obtain ⟨hinlen, hbytes⟩ : maskedAck.inlen (started udp freshState) = (250 : Nat) ∧
    ∀ i < 10, (maskedAck.arrived (started udp freshState)).dmsg_rvc (dc_opt + i) =
      ([1, 4, 255, 255, 255, 0, 53, 1, 5, 255] : List UInt8).getD i 0 :=
    messageOf_arrived [1, 4, 255, 255, 255, 0, 53, 1, 5, 255] (by decide) _
  have hoffer : ¬Offers maskedAck (started udp freshState) := by
    rintro ⟨p, hp, htwo⟩
    obtain ⟨hmem, hcode, -⟩ := (last_eq_some_iff (stops_pairwise _ _) _).mp hp
    obtain ⟨i, hi, rfl, hbyte⟩ := messageOf_stop (by decide) hmem
    have h53 : ([1, 4, 255, 255, 255, 0, 53, 1, 5, 255] : List UInt8).getD i 0 = 53 := hbyte.symm.trans (of_decide_eq_true hcode)
    have htype : ∀ i < 10, ([1, 4, 255, 255, 255, 0, 53, 1, 5, 255] : List UInt8).getD i 0 = 53 → i = 6 := by decide
    obtain rfl := htype i hi h53
    rw [Nat.add_assoc, hbytes 8 (by decide)] at htwo
    exact absurd htwo (by decide)
  have hturn := turn_turns slot maskedAck (started udp freshState)
  generalize turn slot maskedAck (started udp freshState) = t at hturn
  cases hturn with
  | ignored _ _ _ => rfl
  | failed herror =>
    rw [hinlen] at herror
    exact absurd herror (by decide)
  | requested _ _ _ => rfl
  | refused _ h _ => exact absurd h hoffer
  | taken htaken => exact absurd ((hbytes 2 (by decide)).symm.trans htaken.third) (by decide)

/-- The network is not configured from it. -/
theorem dhcp_accepts_acks_masked : ¬∀ (recv : List Event) (s : State), (∀ e ∈ recv, ∀ net_udplen net_udpdata,
    e.received = .datagram net_udplen net_udpdata → ∃ items rest, (payload net_udplen net_udpdata).drop dc_opt = area items rest) →
      AcceptsAck recv s := by
  intro hall
  have hdrop := messageOf_drop [1, 4, 255, 255, 255, 0, 53, 1, 5, 255] (by decide)
  have hitems : ([1, 4, 255, 255, 255, 0, 53, 1, 5, 255] : List UInt8) =
      area [.field ⟨1, [255, 255, 255, 0], by decide, by decide, by decide⟩, .field ⟨53, [5], by decide, by decide, by decide⟩] [] := rfl
  have hacks : Acks freshState.xid maskedAck.received := ⟨_, _, _, _, rfl, hdrop.trans hitems, rfl, rfl⟩
  have haccepts := hall [maskedAck] freshState fun e he net_udplen net_udpdata hr => by
    obtain rfl := List.mem_singleton.mp he
    obtain ⟨rfl, rfl⟩ := Received.datagram.inj hr
    exact ⟨_, _, hdrop.trans hitems⟩
  have hnone : getlocalip [maskedAck] freshState = none := by
    rw [getlocalip_eq _ freshState_register (by decide)]
    have hloop : recvLoop 0 3 [maskedAck] (started freshUdp freshState) = none := by
      rw [recvLoop, maskedAck_goes]
      rfl
    rw [DHCP_RETRY, retryLoop, hloop]
    rfl
  exact haccepts.waits hnone maskedAck (List.mem_singleton_self _) hacks

end Dhcp

end Xinu
