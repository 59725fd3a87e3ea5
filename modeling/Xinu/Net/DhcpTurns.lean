import Xinu.Net.DhcpMessages
import Xinu.Net.DhcpWalks

/-!
# The turns of the DHCP client

A turn of the inner loop of `getlocalip` ignores what arrives, gives up, answers an offer or takes a message for an
acknowledgement. A run is turns that go on, and then either one that does not, or the end of the retries.
-/

namespace Xinu

namespace Dhcp

open Tagged

/-- What the call of `udp_recv` returns. -/
def Event.inlen (e : Event) (s : State) : Int := (udpRecv e.received s.dmsg_rvc).1

/-- The state when it has returned. -/
def Event.arrived (e : Event) (s : State) : State := { s with dmsg_rvc := (udpRecv e.received s.dmsg_rvc).2, udp := e.udp }

/-- A message has arrived, and it answers a request of the client. -/
structure Heard (e : Event) (s : State) : Prop where
  noTimeout : e.inlen s ≠ TIMEOUT
  noError : e.inlen s ≠ SYSERR
  xid : (e.arrived s).dmsg_rvc.w32 dc_xid = s.dmsg_snd.w32 dc_xid

/-- The places of the options in the message that has arrived. -/
def Event.stops (e : Event) (s : State) : List Nat := Dhcp.stops (e.arrived s).dmsg_rvc (e.inlen s).toNat

/-- The last message type that the strides meet is that of an offer. -/
def Offers (e : Event) (s : State) : Prop :=
  ∃ p, last (fun p => (e.arrived s).dmsg_rvc p = 53) (e.stops s) = some p ∧ (e.arrived s).dmsg_rvc (p + 2) = 2

/-- The strides meet the identifier of a server. -/
def Identifies (e : Event) (s : State) : Prop := ∃ p ∈ e.stops s, (e.arrived s).dmsg_rvc p = DHCP_SERVER_ID

/-- The message is taken for an acknowledgement: it is not an offer, and the third byte of its options is 5. -/
structure Taken (e : Event) (s : State) : Prop where
  heard : Heard e s
  noOffer : ¬Offers e s
  third : (e.arrived s).dmsg_rvc (dc_opt + 2) = 5

/-- The options of the message that has arrived. -/
def Event.options (e : Event) (s : State) : Options := Id.run (Dhcp.options (mem (e.arrived s).dmsg_rvc) (e.inlen s).toNat)

/-- The state with the answer to an offer. -/
def Event.answered (e : Event) (s : State) : State :=
  let r := dhcpBldReq s.netData.ethaddr s.dmsg_snd (e.arrived s).dmsg_rvc (e.inlen s).toNat
  { e.arrived s with len := r.1, dmsg_snd := r.2 }

/-- What a turn can do. -/
inductive Turns (slot : Int) (e : Event) (s : State) : Turn → Prop
  | ignored (h : e.inlen s ≠ SYSERR) (hoffer : ¬(Heard e s ∧ Offers e s)) (htaken : ¬Taken e s) :
      Turns slot e s ⟨none, [], e.arrived s⟩
  | failed (h : e.inlen s = SYSERR) : Turns slot e s ⟨some (.returned SYSERR32), [], e.arrived s⟩
  | requested (h : Heard e s) (hoffer : Offers e s) (hid : Identifies e s) :
      Turns slot e s ⟨none, [(e.answered s).dmsg_snd.bytes (e.answered s).len.toNat], e.answered s⟩
  | refused (h : Heard e s) (hoffer : Offers e s) (hid : ¬Identifies e s) :
      Turns slot e s ⟨some (.returned SYSERR32), [], e.answered s⟩
  | taken (h : Taken e s) : Turns slot e s (configure slot (e.options s) (e.arrived s))

variable {slot : Int} {e : Event} {s : State}

theorem find_stops_eq_none {b : Dhcpmsg} {n : Nat} {key : UInt8} :
    (stops b n).find? (fun p => b p = key) = none ↔ ¬∃ p ∈ stops b n, b p = key := by
  rw [List.find?_eq_none]
  simp

theorem dhcpGetOptVal_eq_none {b : Dhcpmsg} {n : Nat} {key : UInt8} :
    Id.run (dhcpGetOptVal (mem b) n key) = none ↔ ¬∃ p ∈ stops b n, b p = key := by
  rw [dhcpGetOptVal_mem, Option.map_eq_none_iff, find_stops_eq_none]

/-- The message type that the loop has is that of an offer. -/
theorem offers_iff : Offers e s ↔ (e.options s).msgtype = 2 := by
  have hget := Options.get_foldl_take (e.arrived s).dmsg_rvc (e.stops s) ⟨0, 0, 0, 0, 0⟩ (show (53 : UInt8) ∈ codes by decide)
  have htype : (e.options s).msgtype = ((last (fun p => (e.arrived s).dmsg_rvc p = 53) (e.stops s)).map fun p =>
      datum (e.arrived s).dmsg_rvc 53 (p + 2)).getD 0 := by
    rw [Event.options, options_mem]
    exact hget
  rw [htype, Offers]
  cases last (fun p => (e.arrived s).dmsg_rvc p = 53) (e.stops s) with
  | none =>
    refine iff_of_false ?_ (show ¬0 = 2 by decide)
    rintro ⟨p, hp, -⟩
    cases hp
  | some p =>
    have hdatum : datum (e.arrived s).dmsg_rvc 53 (p + 2) = ((e.arrived s).dmsg_rvc (p + 2)).toNat := if_pos rfl
    rw [Option.map_some, Option.getD_some, hdatum]
    constructor
    · rintro ⟨q, hq, hbyte⟩
      obtain rfl := Option.some.inj hq
      rw [hbyte]
      rfl
    · intro hbyte
      exact ⟨p, rfl, UInt8.toNat_inj.mp hbyte⟩

theorem answered_len (e : Event) (s : State) : (e.answered s).len = SYSERR ↔ ¬Identifies e s := by
  have hlen : (e.answered s).len = if Id.run (dhcpGetOptVal (mem (e.arrived s).dmsg_rvc) (e.inlen s).toNat DHCP_SERVER_ID) = none then
      SYSERR else 258 := dhcpBldReq_len _ _ _ _
  rw [hlen]
  by_cases h : ¬Identifies e s
  · rw [if_pos (dhcpGetOptVal_eq_none.mpr h)]
    exact iff_of_true rfl h
  · rw [if_neg (mt dhcpGetOptVal_eq_none.mp h)]
    exact iff_of_false (by decide) h

/-- A turn does one of these. -/
theorem turn_turns (slot : Int) (e : Event) (s : State) : Turns slot e s (turn slot e s) := by
  have hturn : turn slot e s = if e.inlen s = TIMEOUT then ⟨none, [], e.arrived s⟩
      else if e.inlen s = SYSERR then ⟨some (.returned SYSERR32), [], e.arrived s⟩
      else message slot (e.inlen s) (e.arrived s) := rfl
  have hmessage : message slot (e.inlen s) (e.arrived s) =
      if (e.arrived s).dmsg_rvc.w32 dc_xid ≠ s.dmsg_snd.w32 dc_xid then ⟨none, [], e.arrived s⟩
      else if (e.options s).msgtype = 2 then
        if (e.answered s).len = SYSERR then ⟨some (.returned SYSERR32), [], e.answered s⟩
        else ⟨none, [(e.answered s).dmsg_snd.bytes (e.answered s).len.toNat], e.answered s⟩
      else if (e.arrived s).dmsg_rvc (dc_opt + 2) ≠ 5 then ⟨none, [], e.arrived s⟩
      else configure slot (e.options s) (e.arrived s) := rfl
  rw [hturn, hmessage]
  by_cases htimeout : e.inlen s = TIMEOUT
  · rw [if_pos htimeout]
    refine .ignored ?_ (fun h => h.1.noTimeout htimeout) fun h => h.heard.noTimeout htimeout
    rw [htimeout]
    decide
  · rw [if_neg htimeout]
    by_cases herror : e.inlen s = SYSERR
    · rw [if_pos herror]
      exact .failed herror
    · rw [if_neg herror]
      by_cases hxid : (e.arrived s).dmsg_rvc.w32 dc_xid = s.dmsg_snd.w32 dc_xid
      · have hheard : Heard e s := ⟨htimeout, herror, hxid⟩
        rw [if_neg (not_not.mpr hxid)]
        by_cases hoffer : Offers e s
        · rw [if_pos (offers_iff.mp hoffer)]
          by_cases hid : Identifies e s
          · rw [if_neg fun h => (answered_len e s).mp h hid]
            exact .requested hheard hoffer hid
          · rw [if_pos ((answered_len e s).mpr hid)]
            exact .refused hheard hoffer hid
        · rw [if_neg (mt offers_iff.mpr hoffer)]
          by_cases hthird : (e.arrived s).dmsg_rvc (dc_opt + 2) = 5
          · rw [if_neg (not_not.mpr hthird)]
            exact .taken ⟨hheard, hoffer, hthird⟩
          · rw [if_pos hthird]
            exact .ignored herror (fun h => hoffer h.2) fun h => hthird h.third
      · rw [if_pos hxid]
        exact .ignored herror (fun h => hxid h.1.xid) fun h => hxid h.heard.xid

theorem configure_exit (slot : Int) (v : Options) (s : State) : (configure slot v s).exit.isSome := by
  unfold configure
  dsimp only
  split
  · rfl
  · split
    · rfl
    · rfl

/-- A turn that goes on has ignored what arrived, or answered an offer. -/
theorem turn_goes (h : (turn slot e s).exit = none) :
    e.inlen s ≠ SYSERR ∧ (Heard e s → Offers e s → Identifies e s) ∧ ¬Taken e s ∧
    ((turn slot e s).state = e.arrived s ∨ (turn slot e s).state = e.answered s) := by
  have hturn := turn_turns slot e s
  generalize turn slot e s = t at h hturn
  cases hturn with
  | ignored herror hoffer htaken => exact ⟨herror, fun hheard ho => absurd ⟨hheard, ho⟩ hoffer, htaken, .inl rfl⟩
  | failed _ => cases h
  | requested hheard hoffer hid => exact ⟨hheard.noError, fun _ _ => hid, fun htaken => htaken.noOffer hoffer, .inr rfl⟩
  | refused _ _ _ => cases h
  | taken _ => exact absurd (configure_exit slot (e.options s) (e.arrived s)) (by rw [h]; decide)

/-- A turn that does not go on has given up, or taken a message for an acknowledgement. -/
theorem turn_ends (h : (turn slot e s).exit.isSome) :
    ((e.inlen s = SYSERR ∨ (Heard e s ∧ Offers e s ∧ ¬Identifies e s)) ∧ ¬Taken e s ∧
      (turn slot e s).exit = some (.returned SYSERR32) ∧
      ((turn slot e s).state = e.arrived s ∨ (turn slot e s).state = e.answered s)) ∨
    (Taken e s ∧ turn slot e s = configure slot (e.options s) (e.arrived s)) := by
  have hturn := turn_turns slot e s
  generalize turn slot e s = t at h hturn
  cases hturn with
  | ignored _ _ _ => cases h
  | failed herror => exact .inl ⟨.inl herror, fun htaken => htaken.heard.noError herror, rfl, .inl rfl⟩
  | requested _ _ _ => cases h
  | refused hheard hoffer hid =>
    exact .inl ⟨.inr ⟨hheard, hoffer, hid⟩, fun htaken => htaken.noOffer hoffer, rfl, .inr rfl⟩
  | taken htaken => exact .inr ⟨htaken, rfl⟩

/-- What arrives, and the answer to an offer, change the buffers only. -/
theorem kept_of_goes {s' : State} (h : s' = e.arrived s ∨ s' = e.answered s) :
    s'.netData = s.netData ∧ s'.released = s.released ∧ s'.udp = e.udp := by
  rcases h with rfl | rfl
  · exact ⟨rfl, rfl, rfl⟩
  · exact ⟨rfl, rfl, rfl⟩

/-! ## Runs -/

/-- The state behind turns. -/
def after (slot : Int) (used : List Event) (s : State) : State := used.foldl (fun s e => (turn slot e s).state) s

/-- Each of the turns goes on. -/
def Continues (slot : Int) : List Event → State → Prop
  | [], _ => True
  | e :: used, s => (turn slot e s).exit = none ∧ Continues slot used (turn slot e s).state

/-- A run that ends with a turn. -/
structure Ends (slot : Int) (recv : List Event) (s : State) (used : List Event) (e : Event) (r : Run) : Prop where
  split : recv = used ++ e :: r.rest
  goes : Continues slot used s
  exit : (turn slot e (after slot used s)).exit = r.exit
  ends : r.exit.isSome
  state : r.state = (turn slot e (after slot used s)).state

variable {recv : List Event}

theorem continues_append {used used' : List Event} : Continues slot (used ++ used') s ↔
    Continues slot used s ∧ Continues slot used' (after slot used s) := by
  induction used generalizing s with
  | nil => exact (and_iff_right trivial).symm
  | cons e used ih =>
    show _ ∧ Continues slot (used ++ used') _ ↔ (_ ∧ _) ∧ Continues slot used' (after slot used _)
    rw [ih, and_assoc]

theorem after_append (slot : Int) (used used' : List Event) (s : State) :
    after slot (used ++ used') s = after slot used' (after slot used s) := List.foldl_append

/-- The turns of the inner loop. -/
theorem recvLoop_run (j : Nat) : ∀ {recv : List Event} {s : State} {r : Run}, recvLoop slot j recv s = some r →
    (r.exit = none ∧ ∃ used, used.length = j ∧ recv = used ++ r.rest ∧ Continues slot used s ∧ r.state = after slot used s) ∨
      ∃ used e, used.length < j ∧ Ends slot recv s used e r := by
  induction j with
  | zero =>
    intro recv s r h
    obtain rfl := Option.some.inj h
    exact .inl ⟨rfl, [], rfl, rfl, trivial, rfl⟩
  | succ j ih =>
    intro recv s r h
    cases recv with
    | nil => cases h
    | cons e recv =>
      rw [recvLoop] at h
      by_cases hexit : (turn slot e s).exit.isSome
      · rw [if_pos hexit] at h
        obtain rfl := Option.some.inj h
        exact .inr ⟨[], e, Nat.succ_pos j, rfl, trivial, rfl, hexit, rfl⟩
      · have hnone : (turn slot e s).exit = none := by simpa using hexit
        rw [if_neg hexit, Option.map_eq_some_iff] at h
        obtain ⟨r', hr', rfl⟩ := h
        rcases ih hr' with ⟨hgo, used, rfl, rfl, hused, hstate⟩ | ⟨used, e', hlen, hends⟩
        · exact .inl ⟨hgo, e :: used, rfl, rfl, ⟨hnone, hused⟩, hstate⟩
        · exact .inr ⟨e :: used, e', Nat.succ_lt_succ hlen, by rw [hends.split]; rfl, ⟨hnone, hends.goes⟩, hends.exit, hends.ends,
            hends.state⟩

/-- An inner loop that is still waiting has gone on with every outcome. -/
theorem recvLoop_none (j : Nat) : ∀ {recv : List Event} {s : State}, recvLoop slot j recv s = none →
    Continues slot recv s ∧ recv.length < j := by
  induction j with
  | zero =>
    intro recv s h
    cases h
  | succ j ih =>
    intro recv s h
    cases recv with
    | nil => exact ⟨trivial, Nat.succ_pos j⟩
    | cons e recv =>
      rw [recvLoop] at h
      by_cases hexit : (turn slot e s).exit.isSome
      · rw [if_pos hexit] at h
        cases h
      · have hnone : (turn slot e s).exit = none := by simpa using hexit
        rw [if_neg hexit, Option.map_eq_none_iff] at h
        obtain ⟨hgoes, hlen⟩ := ih h
        exact ⟨⟨hnone, hgoes⟩, Nat.succ_lt_succ hlen⟩

/-- The turns of the outer loop. -/
theorem retryLoop_run (i : Nat) : ∀ {recv : List Event} {s : State} {r : Run}, retryLoop slot i recv s = some r →
    (r.exit = some (.returned SYSERR32) ∧ ∃ used, used.length = 3 * i ∧ recv = used ++ r.rest ∧ Continues slot used s ∧
      r.state = (after slot used s).udpRelease slot) ∨ ∃ used e, used.length < 3 * i ∧ Ends slot recv s used e r := by
  induction i with
  | zero =>
    intro recv s r h
    obtain rfl := Option.some.inj h
    exact .inl ⟨rfl, [], rfl, rfl, trivial, rfl⟩
  | succ i ih =>
    intro recv s r h
    rw [retryLoop, Option.bind_eq_some_iff] at h
    obtain ⟨r₁, hr₁, h⟩ := h
    rcases recvLoop_run 3 hr₁ with ⟨hgo, used, hlen, rfl, hused, hstate⟩ | ⟨used, e, hlen, hends⟩
    · rw [if_neg (by rw [hgo]; decide), Option.map_eq_some_iff] at h
      obtain ⟨r', hr', rfl⟩ := h
      rw [hstate] at hr'
      rcases ih hr' with ⟨hexit, used', hlen', hrest, hused', hstate'⟩ | ⟨used', e, hlen', hends⟩
      · refine .inl ⟨hexit, used ++ used', ?_, ?_, continues_append.mpr ⟨hused, hused'⟩, ?_⟩
        · rw [List.length_append, hlen, hlen']
          omega
        · rw [hrest, List.append_assoc]
        · rw [after_append]
          exact hstate'
      · refine .inr ⟨used ++ used', e, ?_, ?_, continues_append.mpr ⟨hused, hends.goes⟩, ?_, hends.ends, ?_⟩
        · rw [List.length_append, hlen]
          omega
        · rw [hends.split, List.append_assoc]
        · rw [after_append]
          exact hends.exit
        · rw [after_append]
          exact hends.state
    · rw [if_pos hends.ends] at h
      obtain rfl := Option.some.inj h
      exact .inr ⟨used, e, by omega, hends.split, hends.goes, hends.exit, hends.ends, hends.state⟩

/-- A call that is still waiting has gone on with every outcome. -/
theorem retryLoop_none (i : Nat) : ∀ {recv : List Event} {s : State}, retryLoop slot i recv s = none →
    Continues slot recv s ∧ recv.length < 3 * i := by
  induction i with
  | zero =>
    intro recv s h
    cases h
  | succ i ih =>
    intro recv s h
    cases hr₁ : recvLoop slot 3 recv s with
    | none =>
      obtain ⟨hgoes, hlen⟩ := recvLoop_none 3 hr₁
      exact ⟨hgoes, by omega⟩
    | some r₁ =>
      rw [retryLoop, hr₁, Option.bind_some] at h
      by_cases hexit : r₁.exit.isSome
      · rw [if_pos hexit] at h
        cases h
      · rw [if_neg hexit, Option.map_eq_none_iff] at h
        obtain ⟨hgoes, hlen⟩ := ih h
        rcases recvLoop_run 3 hr₁ with ⟨-, used, hused, rfl, hgoes', hstate⟩ | ⟨used, e, -, hends⟩
        · rw [hstate] at hgoes
          refine ⟨continues_append.mpr ⟨hgoes', hgoes⟩, ?_⟩
          rw [List.length_append, hused]
          omega
        · exact absurd hends.ends hexit

end Dhcp

end Xinu
