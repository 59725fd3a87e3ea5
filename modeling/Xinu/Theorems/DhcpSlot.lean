import Xinu.Net.DhcpTurns
import Xinu.Theorems.UdpQueues
import Xinu.Theorems.UdpSlots

/-!
# The UDP slot of the DHCP client

`getlocalip` calls `udp_release` with the slot that it has registered unless it gives up, in a turn in which `udp_recv` fails or an
offer has no identifier of a server. When the other processes leave the slot alone, the ports can be registered again in the first
case, and never in the second.
-/

namespace Xinu

namespace Dhcp

/-- The turn gives up without releasing the slot: `udp_recv` fails, or an offer does not identify a server. -/
def Leaks (e : Event) (s : State) : Prop := e.inlen s = SYSERR ∨ (Heard e s ∧ Offers e s ∧ ¬Identifies e s)

/-- The state when the first request has been built. -/
def started (udp : Udp) (s : State) : State :=
  { s with udp := udp, dmsg_snd := (dhcpBldDisc s.netData.ethaddr s.dmsg_snd).2, len := 250 }

/-- The slot is registered for the ports of the client, and no other is; its queue holds packets. -/
structure Holding (slot : Int) (u : Udp) : Prop where
  used : (u.udptab slot).udstate ≠ .UDP_FREE
  address : (u.udptab slot).address = (0, UDP_DHCP_SPORT, UDP_DHCP_CPORT)
  alone : ∀ i, (u.udptab i).udstate ≠ .UDP_FREE → (u.udptab i).address = (0, UDP_DHCP_SPORT, UDP_DHCP_CPORT) → i = slot
  queue : ∃ l, (u.udptab slot).Holds l

/-- `udp_register` for the ports of the client returns a slot. -/
def CanRegister (u : Udp) : Prop := (u.udpRegister 0 UDP_DHCP_SPORT UDP_DHCP_CPORT).2 ≠ .ret SYSERR

variable {slot : Int} {e : Event} {s : State} {u udp : Udp} {recv : List Event} {r : Run}

theorem configure_released (slot : Int) (v : Options) (s : State) : (configure slot v s).state.released = s.released ++ [slot] ∧
    (configure slot v s).state.udp = (s.udp.udpRelease slot).1 := by
  unfold configure
  dsimp only
  split
  · exact ⟨rfl, rfl⟩
  · split
    · exact ⟨rfl, rfl⟩
    · exact ⟨rfl, rfl⟩

/-- A turn that does not go on releases the slot if it does not leak. -/
theorem turn_releases (h : (turn slot e s).exit.isSome) :
    (Leaks e s ∧ (turn slot e s).state.released = s.released ∧ (turn slot e s).state.udp = e.udp) ∨
      (¬Leaks e s ∧ (turn slot e s).state.released = s.released ++ [slot] ∧
        (turn slot e s).state.udp = (e.udp.udpRelease slot).1) := by
  rcases turn_ends h with ⟨hleaks, -, -, hstate⟩ | ⟨htaken, hturn⟩
  · exact .inl ⟨hleaks, (kept_of_goes hstate).2⟩
  · rw [hturn]
    refine .inr ⟨?_, configure_released slot (e.options s) (e.arrived s)⟩
    rintro (herror | ⟨-, hoffer, -⟩)
    · exact htaken.heard.noError herror
    · exact htaken.noOffer hoffer

/-- A turn that leaks does not go on. -/
theorem Leaks.ends (h : Leaks e s) (slot : Int) : (turn slot e s).exit.isSome := by
  by_contra hexit
  obtain ⟨herror, hid, -⟩ := turn_goes (Option.not_isSome_iff_eq_none.mp hexit)
  rcases h with h | ⟨hheard, hoffer, h⟩
  · exact herror h
  · exact h (hid hheard hoffer)

/-- Turns that go on release nothing, and leave UDP as the last of them finds it. -/
theorem after_goes {used : List Event} (h : Continues slot used s) : (after slot used s).released = s.released ∧
    (used ≠ [] → ∃ e ∈ used, (after slot used s).udp = e.udp) := by
  induction used generalizing s with
  | nil => exact ⟨rfl, fun h => absurd rfl h⟩
  | cons e used ih =>
    obtain ⟨hexit, hused⟩ := h
    obtain ⟨-, -, -, hstate⟩ := turn_goes hexit
    obtain ⟨-, hreleased, hudp⟩ := kept_of_goes hstate
    obtain ⟨hreleased', hudp'⟩ := ih hused
    refine ⟨hreleased'.trans hreleased, fun _ => ?_⟩
    cases used with
    | nil => exact ⟨e, List.mem_cons_self, hudp⟩
    | cons e' used =>
      obtain ⟨e'', he'', h⟩ := hudp' (List.cons_ne_nil e' used)
      exact ⟨e'', List.mem_cons_of_mem e he'', h⟩

/-- A call that has registered a slot is the retries from the first request on. -/
theorem getlocalip_eq (recv : List Event) (hreg : s.udp.udpRegister 0 UDP_DHCP_SPORT UDP_DHCP_CPORT = (udp, .ret slot))
    (hslot : slot ≠ SYSERR) : getlocalip recv s = retryLoop slot DHCP_RETRY recv (started udp s) := by
  rw [getlocalip, hreg]
  dsimp only
  rw [getlocalipFrom, if_neg hslot]
  dsimp only
  rw [dhcpBldDisc_len, if_neg (by decide)]
  rfl

/-! ## The table -/

theorem mem_udpSlots_ne {i : Int} (h : i ∈ udpSlots) : i ≠ SYSERR := by
  obtain ⟨n, -, rfl⟩ := List.mem_map.mp h
  exact fun h => by cases h

/-- What `udp_register` looks for: a slot in use with the same addresses. -/
theorem any_registered (u : Udp) : udpSlots.any (fun i => decide ((u.udptab i).udstate ≠ .UDP_FREE) &&
    decide (UDP_DHCP_SPORT % 65536 = (u.udptab i).udremport) && decide (UDP_DHCP_CPORT % 65536 = (u.udptab i).udlocport) &&
    decide (0 % 4294967296 = (u.udptab i).udremip)) ↔
      ∃ i ∈ udpSlots, (u.udptab i).udstate ≠ .UDP_FREE ∧ (u.udptab i).address = (0, UDP_DHCP_SPORT, UDP_DHCP_CPORT) := by
  have hport : UDP_DHCP_SPORT % 65536 = UDP_DHCP_SPORT ∧ UDP_DHCP_CPORT % 65536 = UDP_DHCP_CPORT := by decide
  simp only [List.any_eq_true, Bool.and_eq_true, decide_eq_true_eq, hport.1, hport.2, Nat.zero_mod, Udpentry.address, Prod.mk.injEq]
  constructor
  · rintro ⟨i, hi, ⟨⟨hused, h2⟩, h3⟩, h1⟩
    exact ⟨i, hi, hused, h1.symm, h2.symm, h3.symm⟩
  · rintro ⟨i, hi, hused, h1, h2, h3⟩
    exact ⟨i, hi, ⟨⟨hused, h2.symm⟩, h3.symm⟩, h1.symm⟩

/-- The ports of the client can be registered if no slot in use has them and one is free. -/
theorem canRegister_iff (u : Udp) : CanRegister u ↔
    (¬∃ i ∈ udpSlots, (u.udptab i).udstate ≠ .UDP_FREE ∧ (u.udptab i).address = (0, UDP_DHCP_SPORT, UDP_DHCP_CPORT)) ∧
      ∃ i ∈ udpSlots, (u.udptab i).udstate = .UDP_FREE := by
  rw [CanRegister, Udp.udpRegister, ← any_registered]
  split_ifs with hany
  · exact iff_of_false (fun h => h rfl) fun h => h.1 hany
  · cases hfind : udpSlots.find? (fun i => decide ((u.udptab i).udstate = .UDP_FREE)) with
    | none =>
      refine iff_of_false (fun h => h rfl) ?_
      rintro ⟨-, i, hi, hfree⟩
      exact List.find?_eq_none.mp hfind i hi (decide_eq_true hfree)
    | some i =>
      have hi := List.mem_of_find?_eq_some hfind
      have hfree : (u.udptab i).udstate = .UDP_FREE := by simpa using List.find?_some hfind
      exact iff_of_true (fun h => mem_udpSlots_ne hi (Next.ret.inj h)) ⟨hany, i, hi, hfree⟩

/-- The slot that is registered is one of the table. -/
theorem mem_of_udpRegister (hreg : u.udpRegister 0 UDP_DHCP_SPORT UDP_DHCP_CPORT = (udp, .ret slot)) (hslot : slot ≠ SYSERR) :
    slot ∈ udpSlots := by
  rw [Udp.udpRegister] at hreg
  split_ifs at hreg with hany
  · exact absurd (Next.ret.inj (Prod.mk.inj hreg).2).symm hslot
  · cases hfind : udpSlots.find? (fun i => decide ((u.udptab i).udstate = .UDP_FREE)) with
    | none =>
      rw [hfind] at hreg
      exact absurd (Next.ret.inj (Prod.mk.inj hreg).2).symm hslot
    | some i =>
      rw [hfind] at hreg
      obtain rfl := Next.ret.inj (Prod.mk.inj hreg).2
      exact List.mem_of_find?_eq_some hfind

/-- A slot that is held is free once it is released. -/
theorem Holding.udpRelease (H : Holding slot u) (hi : slot ∈ udpSlots) : ((u.udpRelease slot).1.udptab slot).udstate = .UDP_FREE := by
  obtain ⟨l, hl⟩ := H.queue
  have hdrain := hl.drain.1
  have hsome : none ∉ ((u.udptab slot).drain (u.udptab slot).udcount.toNat).2 := by
    rw [hdrain]
    simp
  have hrange : ¬(slot < 0 ∨ slot ≥ UDP_SLOTS) := by
    obtain ⟨n, hn, rfl⟩ := List.mem_map.mp hi
    have hlt : n < 6 := List.mem_range.mp hn
    have h6 : UDP_SLOTS = 6 := rfl
    rw [h6, Int.ofNat_eq_natCast]
    omega
  rw [Udp.udpRelease, if_neg hrange, if_neg H.used]
  dsimp only
  rw [if_neg hsome]
  have hself : ∀ (tab : Int → Udpentry) (entry : Udpentry), (Function.update tab slot entry slot).udstate = entry.udstate := by
    intro tab entry
    rw [Function.update_self]
  split
  · exact hself _ _
  · exact hself _ _

/-- The ports can be registered again once the slot is released, and not before. -/
theorem Holding.canRegister (H : Holding slot u) (hi : slot ∈ udpSlots) : CanRegister (u.udpRelease slot).1 ∧ ¬CanRegister u := by
  have hfree := H.udpRelease hi
  refine ⟨(canRegister_iff _).mpr ⟨?_, slot, hi, hfree⟩, fun h => ((canRegister_iff u).mp h).1 ⟨slot, hi, H.used, H.address⟩⟩
  rintro ⟨i, -, hused, haddress⟩
  rcases Udp.udpRelease_slots (u := u) slot with hsame | ⟨haddresses, hstates⟩
  · exact H.used ((hsame.free slot).mp hfree)
  · rw [haddresses] at haddress
    have hi := H.alone i (fun h => hused ((hstates i).mpr (.inr h))) haddress
    exact hused ((hstates i).mpr (.inl hi))

/-- For every run that has registered a slot and returns: it has released the slot, and nothing else, if and only if its last turn
does not give up because `udp_recv` fails or an offer does not identify a server. With the slot left alone by the other processes,
the ports can be registered again then, and only then. -/
theorem dhcp_slot_released_iff (recv : List Event) (s : State) {slot : Int} {udp : Udp} {r : Run}
    (hreg : s.udp.udpRegister 0 UDP_DHCP_SPORT UDP_DHCP_CPORT = (udp, .ret slot)) (hslot : slot ≠ SYSERR)
    (hr : getlocalip recv s = some r) :
    (r.state.released = s.released ++ [slot] ↔
      ¬∃ used e, recv = used ++ e :: r.rest ∧ Leaks e (after slot used (started udp s))) ∧
    ((∀ e ∈ recv, Holding slot e.udp) → (CanRegister r.state.udp ↔
      ¬∃ used e, recv = used ++ e :: r.rest ∧ Leaks e (after slot used (started udp s)))) := by
  have hi := mem_of_udpRegister hreg hslot
  rw [getlocalip_eq recv hreg hslot] at hr
  have hsame : (started udp s).released = s.released := rfl
  rcases retryLoop_run DHCP_RETRY hr with ⟨-, used, hlen, rfl, hgoes, hstate⟩ | ⟨used, e, -, hends⟩
  · -- the retries are over: the last turn went on
    obtain ⟨hreleased, hudp⟩ := after_goes hgoes
    obtain ⟨e, he, hudp⟩ := hudp fun h => absurd (h ▸ hlen) (by decide)
    have hcond : ¬∃ used' e, used ++ r.rest = used' ++ e :: r.rest ∧ Leaks e (after slot used' (started udp s)) := by
      rintro ⟨used', e, hsplit, hleaks⟩
      have hused : used = used' ++ [e] := by
        rw [List.append_cons] at hsplit
        exact List.append_cancel_right hsplit
      rw [hused, continues_append] at hgoes
      have hexit := hleaks.ends slot
      rw [hgoes.2.1] at hexit
      cases hexit
    rw [hstate]
    refine ⟨iff_of_true ?_ hcond, fun H => iff_of_true ?_ hcond⟩
    · show (after slot used (started udp s)).released ++ [slot] = _
      rw [hreleased, hsame]
    · show CanRegister ((after slot used (started udp s)).udp.udpRelease slot).1
      rw [hudp]
      exact ((H e (List.mem_append_left _ he)).canRegister hi).1
  · have hcond : (∃ used e, recv = used ++ e :: r.rest ∧ Leaks e (after slot used (started udp s))) ↔
        Leaks e (after slot used (started udp s)) := by
      constructor
      · rintro ⟨used', e', hsplit, hleaks⟩
        rw [hends.split, List.append_cons, List.append_cons used'] at hsplit
        obtain ⟨rfl, h⟩ := List.append_inj' (List.append_cancel_right hsplit) rfl
        obtain rfl := List.singleton_inj.mp h
        exact hleaks
      · exact fun hleaks => ⟨used, e, hends.split, hleaks⟩
    have hmem : e ∈ recv := hends.split ▸ List.mem_append_right _ List.mem_cons_self
    obtain ⟨hreleased, -⟩ := after_goes hends.goes
    rw [hcond, hends.state]
    rcases turn_releases (hends.exit ▸ hends.ends) with ⟨hleaks, hreleased', hudp⟩ | ⟨hleaks, hreleased', hudp⟩
    · rw [hreleased', hudp, hreleased, hsame]
      exact ⟨iff_of_false (by simp) (not_not.mpr hleaks), fun H => iff_of_false ((H e hmem).canRegister hi).2 (not_not.mpr hleaks)⟩
    · rw [hreleased', hudp, hreleased, hsame]
      exact ⟨iff_of_true rfl hleaks, fun H => iff_of_true ((H e hmem).canRegister hi).1 hleaks⟩

/-- A call at the start of the system, when no slot is in use. -/
def freshState : State where
  netData := ⟨⟨0, 0, 0, 0, 0, false, [], []⟩, 0, 0, 0, []⟩
  udp := Udp.udpInit 0
  released := []
  dmsg_snd := fun _ => 0
  dmsg_rvc := fun _ => 0
  len := 0

/-- UDP with the first slot registered by that call. -/
def freshUdp : Udp := (freshState.udp.udpRegister 0 UDP_DHCP_SPORT UDP_DHCP_CPORT).1

theorem freshState_register : freshState.udp.udpRegister 0 UDP_DHCP_SPORT UDP_DHCP_CPORT = (freshUdp, .ret 0) := rfl

/-- The registered slot is held, and no other slot is in use. -/
theorem freshUdp_holding : Holding 0 freshUdp where
  used := by decide
  address := rfl
  alone := by
    intro i hused _
    by_contra hi
    have hfree : freshUdp.udptab i = (Udp.udpInit 0).udptab i := Function.update_of_ne hi _ _
    rw [hfree] at hused
    exact hused rfl
  queue := ⟨[], ⟨by decide, by decide, by decide, by decide⟩, rfl⟩

/-- The slot is released when every call of `udp_recv` times out, and the ports can be registered again. -/
theorem dhcp_slot_released_timeouts :
    ∃ r, getlocalip (List.replicate 15 ⟨.timeout, freshUdp⟩) freshState = some r ∧ r.state.released = [0] ∧ CanRegister r.state.udp := by
  have hrun := getlocalip_eq (List.replicate 15 ⟨.timeout, freshUdp⟩) freshState_register (by decide)
  obtain ⟨r, hr⟩ : ∃ r, retryLoop 0 DHCP_RETRY (List.replicate 15 ⟨.timeout, freshUdp⟩) (started freshUdp freshState) = some r :=
    ⟨_, rfl⟩
  obtain ⟨hreleased, hagain⟩ := dhcp_slot_released_iff _ freshState freshState_register (by decide) (hrun.trans hr)
  have hgoes : ¬∃ used e, List.replicate 15 ⟨.timeout, freshUdp⟩ = used ++ e :: r.rest ∧
      Leaks e (after 0 used (started freshUdp freshState)) := by
    rintro ⟨used, e, hsplit, hleaks⟩
    have he : e = ⟨.timeout, freshUdp⟩ := List.eq_of_mem_replicate (hsplit ▸ List.mem_append_right _ List.mem_cons_self)
    subst he
    rcases hleaks with h | ⟨h, -⟩
    · exact absurd h (show TIMEOUT ≠ SYSERR by decide)
    · exact h.noTimeout rfl
  refine ⟨r, hrun.trans hr, hreleased.mpr hgoes, (hagain fun e he => ?_).mpr hgoes⟩
  rw [List.eq_of_mem_replicate he]
  exact freshUdp_holding

/-- The slot is not released when `udp_recv` fails. -/
theorem dhcp_slot_kept : ¬∀ (recv : List Event) (s : State) (slot : Int) (udp : Udp) (r : Run),
    s.udp.udpRegister 0 UDP_DHCP_SPORT UDP_DHCP_CPORT = (udp, .ret slot) → slot ≠ SYSERR → getlocalip recv s = some r →
      r.state.released = s.released ++ [slot] := by
  intro hall
  have hrun := getlocalip_eq [⟨.syserr, freshUdp⟩] freshState_register (by decide)
  obtain ⟨r, hr, hreleased⟩ : ∃ r, retryLoop 0 DHCP_RETRY [⟨.syserr, freshUdp⟩] (started freshUdp freshState) = some r ∧
      r.state.released = [] := ⟨_, rfl, rfl⟩
  have hkept := hall _ freshState 0 freshUdp r freshState_register (by decide) (hrun.trans hr)
  rw [hreleased] at hkept
  cases hkept

end Dhcp

end Xinu
