import Xinu.Net.Checksum
import Xinu.Net.Ip

/-!
# Loopback and the wire

What `ip_send` passes to `ip_local` is the packet itself; what `ip_in` passes on is made of the bytes that `ip_out` wrote. The
conversions undo each other byte by byte, the IP checksum is right at every receiver, and the ICMP checksum is right unless the
carry of its sum carries.
-/

namespace Xinu

namespace Ip

open Netpacket hiding IP_HDR_LEN UDP_HDR_LEN ICMP_HDR_LEN
open Prog

/-! ## What is passed on and what is written -/

/-- The packet that is passed to `ip_local`. -/
def Event.passed : Event → Option Netpacket
  | .locally _ pkt => some pkt
  | _ => none

/-- The frame that is written. -/
def Event.written : Event → Option (List UInt8)
  | .wrote frame => some frame
  | _ => none

/-- The packets that a run passes to `ip_local`. -/
def passed {α : Type} (x : M α) (w : World) : List Netpacket := (x.events w).filterMap Event.passed

/-- The frames that a run writes. -/
def written {α : Type} (x : M α) (w : World) : List (List UInt8) := (x.events w).filterMap Event.written

/-- An event that neither passes a packet to `ip_local` nor writes a frame. -/
def Event.Quiet (e : Event) : Prop := e.passed = none ∧ e.written = none

/-- A world in which a buffer has other contents. -/
def World.put (w : World) (p : Buf) (pkt : Netpacket) : World := { w with bufs := Function.update w.bufs p pkt }

@[simp] theorem World.put_bufs (w : World) (p : Buf) (pkt : Netpacket) : (w.put p pkt).bufs p = pkt := by
  simp [World.put]

@[simp] theorem World.put_netData (w : World) (p : Buf) (pkt : Netpacket) : (w.put p pkt).netData = w.netData := rfl

section

variable {α β : Type} {k : α → M β} {w : World} {p : Buf} (others : World → World)

theorem passed_load_bind (f : Netpacket → α) : passed (load p f >>= k) w = passed (k (f (w.bufs p))) w := by
  have h : load p f w = (some (f (w.bufs p)), w, [.used p]) := rfl
  rw [passed, events_bind h]
  rfl

theorem passed_store_bind {k : Unit → M β} (f : Netpacket → Netpacket) :
    passed (store p f >>= k) w = passed (k ()) (w.put p (f (w.bufs p))) := by
  have h : store p f w = (some (), w.put p (f (w.bufs p)), [.used p]) := rfl
  rw [passed, events_bind h]
  rfl

theorem passed_get_bind {k : World → M β} : passed (get >>= k) w = passed (k w) w := by
  have h : (get : M World) w = (some w, w, []) := rfl
  rw [passed, events_bind h]
  rfl

theorem written_load_bind (f : Netpacket → α) : written (load p f >>= k) w = written (k (f (w.bufs p))) w := by
  have h : load p f w = (some (f (w.bufs p)), w, [.used p]) := rfl
  rw [written, events_bind h]
  rfl

theorem written_store_bind {k : Unit → M β} (f : Netpacket → Netpacket) :
    written (store p f >>= k) w = written (k ()) (w.put p (f (w.bufs p))) := by
  have h : store p f w = (some (), w.put p (f (w.bufs p)), [.used p]) := rfl
  rw [written, events_bind h]
  rfl

theorem passed_of_quiet {x : M α} (h : Emits Event.Quiet x) : passed x w = [] :=
  List.filterMap_eq_nil_iff.mpr fun e he => (h w e he).1

theorem written_of_quiet {x : M α} (h : Emits Event.Quiet x) : written x w = [] :=
  List.filterMap_eq_nil_iff.mpr fun e he => (h w e he).2

theorem passed_bind_quiet {x : M α} (h : ∀ a, Emits Event.Quiet (k a)) : passed (x >>= k) w = passed x w := by
  generalize hx : x w = r
  obtain ⟨_ | a, w', t⟩ := r
  · have hbind : (x >>= k) w = Prog.bind x k w := rfl
    rw [passed, passed, events, events, hbind, Prog.bind, hx]
  · have hk := passed_of_quiet (w := w') (h a)
    rw [passed] at hk
    rw [passed, passed, events_bind hx, List.filterMap_append, hk, List.append_nil, events, hx]

theorem written_write_bind {k : Int → M β} (frame : List UInt8) :
    written (write others frame >>= k) w = frame :: written (k (others w).retval) (others w) := by
  have h : write others frame w = (some (others w).retval, others w, [.wrote frame, .switched w (others w)]) := rfl
  rw [written, events_bind h]
  rfl

/-! ## Procedures that pass nothing on -/

theorem load_quiet (p : Buf) (f : Netpacket → α) : Emits Event.Quiet (load p f) :=
  Emits.bind (Emits.emit ⟨rfl, rfl⟩) fun _ => Emits.bind Emits.get fun _ => Emits.pure _

theorem store_quiet (p : Buf) (f : Netpacket → Netpacket) : Emits Event.Quiet (store p f) :=
  Emits.bind (Emits.emit ⟨rfl, rfl⟩) fun _ => Emits.modify _

theorem resched_quiet : Emits Event.Quiet (resched others) := Emits.change fun _ => ⟨rfl, rfl⟩

theorem send_quiet (pid : Int) : Emits Event.Quiet (send others pid) :=
  Emits.bind (Emits.emit ⟨rfl, rfl⟩) fun _ => resched_quiet others

theorem freebuf_quiet (p : Buf) : Emits Event.Quiet (freebuf others p) :=
  Emits.bind (Emits.change fun _ => ⟨rfl, rfl⟩) fun _ => resched_quiet others

theorem getbuf_quiet : Emits Event.Quiet (getbuf others) := by
  refine Emits.bind (resched_quiet others) fun _ => Emits.bind Emits.get fun w => ?_
  cases w.pool with
  | nil => exact Emits.stuck
  | cons p pool => exact Emits.bind (Emits.modify _) fun _ => Emits.pure _

/-- What `udp_in` and `icmp_in` do once they store a packet. -/
theorem queued_quiet {p : Buf} {place : Place} {c : Prop} [Decidable c] {g g' : World → World} (pid : Int) :
    Emits Event.Quiet (do
      if c then do
        Prog.change g (.queued p place)
        send others pid
      else Prog.change g' (.queued p place)) := by
  have hchange : ∀ g : World → World, Emits Event.Quiet (Prog.change g (.queued p place)) :=
    fun g => Emits.change fun _ => ⟨rfl, rfl⟩
  exact Emits.ite (Emits.bind (hchange g) fun _ => send_quiet others pid) (hchange g')

theorem udpIn_quiet (p : Buf) : Emits Event.Quiet (udpIn others p) := by
  refine Emits.bind (load_quiet p _) fun pkt => Emits.bind Emits.get fun w => ?_
  cases udpSlots.find? (fun i => decide ((w.udptab i).udstate ≠ .UDP_FREE) && (w.udptab i).accepts pkt &&
      decide ((w.udptab i).udcount < UDP_QSIZ)) with
  | none => exact freebuf_quiet others p
  | some i => exact queued_quiet others _

theorem ipEnqueue_quiet (p : Buf) : Emits Event.Quiet (ipEnqueue others p) := by
  refine Emits.bind Emits.get fun w => Emits.ite ?_ ?_
  · exact Emits.bind (freebuf_quiet others p) fun _ => Emits.pure _
  · exact Emits.bind (Emits.change fun _ => ⟨rfl, rfl⟩) fun _ => Emits.bind (resched_quiet others) fun _ => Emits.pure _

theorem icmpMkpkt_quiet (remip type ident seq : Nat) {buf : M (Nat → UInt8)} (hbuf : Emits Event.Quiet buf) (len : Int) :
    Emits Event.Quiet (icmpMkpkt others remip type ident seq buf len) :=
  Emits.bind (getbuf_quiet others) fun q => Emits.bind Emits.get fun _ => Emits.bind hbuf fun _ =>
    Emits.bind (store_quiet q _) fun _ => Emits.bind (Emits.modify _) fun _ => Emits.pure _

theorem icmpIn_quiet (p : Buf) : Emits Event.Quiet (icmpIn others p) := by
  have hfree := freebuf_quiet others p
  refine Emits.bind (load_quiet p _) fun pkt => Emits.ite hfree (Emits.ite ?_ ?_)
  · refine Emits.bind (load_quiet p _) fun icseq => ?_
    refine Emits.bind (icmpMkpkt_quiet others _ _ _ _ (load_quiet p _) _) fun reply => ?_
    exact Emits.bind (ipEnqueue_quiet others reply) fun _ => hfree
  · exact Emits.ite hfree (Emits.bind Emits.get fun w => Emits.ite hfree (queued_quiet others _))

/-! ## What the procedures pass on -/

/-- `ip_local` is passed its packet. -/
theorem passed_ipLocal (p : Buf) (w : World) : passed (ipLocal others p) w = [w.bufs p] := by
  have hemit : (Prog.emit (.locally p (w.bufs p)) : M Unit) w = (some (), w, [.locally p (w.bufs p)]) := rfl
  have hrest : Emits Event.Quiet (do
      let proto ← load p (·.w8 net_ipproto)
      if proto = IP_UDP then udpIn others p
      else if proto = IP_ICMP then icmpIn others p
      else freebuf others p) :=
    Emits.bind (load_quiet p _) fun _ => Emits.ite (udpIn_quiet others p)
      (Emits.ite (icmpIn_quiet others p) (freebuf_quiet others p))
  have hnone := passed_of_quiet (w := w) hrest
  unfold ipLocal
  rw [passed_load_bind, id, passed, events_bind hemit, List.filterMap_append]
  exact congrArg (w.bufs p :: ·) hnone

theorem passed_freebuf (p : Buf) (w : World) : passed (freebuf others p) w = [] := passed_of_quiet (freebuf_quiet others p)

/-- The packets that a machine takes. -/
def accepts (nd : Network) (pkt : Netpacket) : Bool :=
  pkt.w32 net_ipdst = IP_BCAST ∨
    if nd.ipvalid = false then pkt.w8 net_ipproto = IP_UDP
    else pkt.w32 net_ipdst = nd.ipucast ∨ pkt.w32 net_ipdst = nd.ipbcast

/-- What `ip_in` makes of a packet, unless its checks drop it. -/
def incoming (pkt : Netpacket) : Option Netpacket :=
  if pkt.ipcksum ≠ 0 then none
  else if pkt.ipNtoh.w8 net_ipvh ≠ IP_VH then none
  else if pkt.ipNtoh.w8 net_ipproto = IP_UDP then some pkt.ipNtoh.udpNtoh
  else if pkt.ipNtoh.w8 net_ipproto = IP_ICMP then
    if pkt.ipNtoh.icmpCksum net_ictype (pkt.ipNtoh.w16 net_iplen - IP_HDR_LEN) ≠ 0 then none else some pkt.ipNtoh.icmpNtoh
  else some pkt.ipNtoh

theorem passed_ipAccept (p : Buf) (w : World) :
    passed (ipAccept others p) w = if accepts w.netData (w.bufs p) then [w.bufs p] else [] := by
  have hlocal := passed_ipLocal others p w
  have hfree := passed_freebuf others p w
  unfold ipAccept
  rw [passed_get_bind, passed_load_bind]
  by_cases hb : (w.bufs p).w32 net_ipdst = IP_BCAST
  · rw [if_pos hb, hlocal, if_pos (by simp [accepts, hb])]
  · rw [if_neg hb]
    by_cases hv : w.netData.ipvalid = false
    · rw [if_pos hv, passed_load_bind]
      by_cases hu : (w.bufs p).w8 net_ipproto = IP_UDP
      · rw [if_pos hu, hlocal, if_pos (by simp [accepts, hv, hu])]
      · rw [if_neg hu, hfree, if_neg (by simp [accepts, hv, hu, hb])]
    · rw [if_neg hv]
      by_cases hd : (w.bufs p).w32 net_ipdst = w.netData.ipucast ∨ (w.bufs p).w32 net_ipdst = w.netData.ipbcast
      · rw [if_pos (by tauto), hlocal, if_pos (by simp [accepts, hv, hd])]
      · rw [if_neg (by tauto), hfree, if_neg (by simp [accepts, hv, hd, hb])]

/-- `ip_in` passes on what it makes of the packet, when it takes it. -/
theorem passed_ipIn (p : Buf) (w : World) :
    passed (ipIn others p) w = ((incoming (w.bufs p)).filter (accepts w.netData)).toList := by
  have hfree := fun w' => passed_freebuf others p w'
  have haccept : ∀ (w' : World) pkt, w'.bufs p = pkt → w'.netData = w.netData →
      passed (ipAccept others p) w' = ((some pkt).filter (accepts w.netData)).toList := by
    intro w' pkt hpkt hnd
    rw [passed_ipAccept, hpkt, hnd]
    cases h : accepts w.netData pkt <;> simp [Option.filter, h]
  unfold ipIn incoming
  rw [passed_load_bind]
  by_cases hck : (w.bufs p).ipcksum ≠ 0
  · rw [if_pos hck, if_pos hck, hfree]
    rfl
  · rw [if_neg hck, if_neg hck, passed_store_bind, passed_load_bind, World.put_bufs]
    split_ifs with hvh hudp hicmp hsum
    · exact hfree _
    · rw [passed_load_bind, World.put_bufs, if_pos hudp, passed_store_bind, World.put_bufs]
      exact haccept _ _ (World.put_bufs _ _ _) rfl
    · rw [passed_load_bind, World.put_bufs, if_neg hudp, if_pos hicmp, passed_load_bind, passed_load_bind, World.put_bufs,
        if_pos hsum]
      exact hfree _
    · rw [passed_load_bind, World.put_bufs, if_neg hudp, if_pos hicmp, passed_load_bind, passed_load_bind, World.put_bufs,
        if_neg hsum, passed_store_bind, World.put_bufs]
      exact haccept _ _ (World.put_bufs _ _ _) rfl
    · rw [passed_load_bind, World.put_bufs, if_neg hudp, if_neg hicmp]
      exact haccept _ _ (World.put_bufs _ _ _) rfl

/-- The demultiplexing hands an IP packet to `ip_in`. -/
theorem passed_demux (p : Buf) {w : World} (h : (w.bufs p).ethNtoh.w16 net_ethtype = ETH_IP) :
    passed (demux others p) w = ((incoming (w.bufs p).ethNtoh).filter (accepts w.netData)).toList := by
  have hne : ¬ETH_IP = ETH_ARP := by decide
  unfold demux
  rw [passed_store_bind, passed_load_bind, World.put_bufs, h, if_neg hne, if_pos rfl, passed_ipIn, World.put_bufs,
    World.put_netData]

/-- The loopback branches of `ip_send` pass the packet on as it is. -/
theorem passed_ipSend (p : Buf) {w : World}
    (h : (w.bufs p).w32 net_ipdst &&& 0xff000000 = 0x7f000000 ∨ (w.bufs p).w32 net_ipdst = w.netData.ipucast) :
    passed (ipSend others p) w = [w.bufs p] := by
  have hlocal : passed (do ipLocal others p; pure OK) w = [w.bufs p] := by
    rw [passed_bind_quiet fun _ => Emits.pure _, passed_ipLocal]
  unfold ipSend
  rw [passed_load_bind, passed_get_bind]
  by_cases hnet : (w.bufs p).w32 net_ipdst &&& 0xff000000 = 0x7f000000
  · rw [if_pos hnet, hlocal]
  · rw [if_neg hnet, if_pos (h.resolve_left hnet), hlocal]

/-- `ip_out` writes the converted packet. -/
theorem written_ipOut (p : Buf) (w : World) :
    written (ipOut others p) w = [(outgoing (w.bufs p)).bytes ((w.bufs p).w16 net_iplen + ETH_HDR_LEN)] := by
  have hquiet : ∀ retval : Int, Emits Event.Quiet (do
      freebuf others p
      if retval = SYSERR then pure SYSERR else pure OK) := fun retval =>
    Emits.bind (freebuf_quiet others p) fun _ => Emits.ite (Emits.pure _) (Emits.pure _)
  unfold ipOut
  rw [written_load_bind, written_store_bind, written_load_bind, written_write_bind, written_of_quiet (hquiet _),
    World.put_bufs]

end

/-! ## What the receiver makes of the frame -/

/-- The first part of `outgoing`: the encapsulated protocol in network order. -/
def encapsulated (pkt : Netpacket) : Netpacket :=
  if pkt.w8 net_ipproto = IP_UDP then (pkt.put16 net_udpcksum 0).udpHton
  else if pkt.w8 net_ipproto = IP_ICMP then
    let zeroed := pkt.icmpHton.put16 net_iccksum 0
    zeroed.put16 net_iccksum (htons (zeroed.icmpCksum net_ictype (pkt.icmpHton.w16 net_iplen - IP_HDR_LEN)))
  else pkt

/-- The bytes of the checksums. -/
def checksums (pkt : Netpacket) : List Nat :=
  [24, 25] ++ if pkt.w8 net_ipproto = IP_UDP then [40, 41] else [36, 37]

/-- The header fields, the checksums apart, and the payload are the same. -/
def SameFields (pkt pkt' : Netpacket) : Prop :=
  ∀ j, net_ipvh ≤ j → j < ETH_HDR_LEN + pkt.w16 net_iplen → j ∉ checksums pkt → pkt' j = pkt j

/-- An IP packet in host order, with the header of a protocol and a payload that fits in a frame. -/
structure HostOrder (pkt : Netpacket) (len : Nat) : Prop where
  ethtype : pkt.w16 net_ethtype = ETH_IP
  vh : pkt.w8 net_ipvh = IP_VH
  iplen : pkt.w16 net_iplen = 28 + len
  short : len ≤ 1472

/-- The sum of the words of an ICMP message in network order, the checksum apart. -/
def messageSum (pkt : Netpacket) : Nat :=
  let len := pkt.w16 net_iplen - 28
  pkt.word net_ictype + pkt.w16 net_icident + pkt.w16 net_icseq + pkt.wordSum (len / 2) net_icdata +
    if len % 2 = 0 then 0 else 256 * (pkt (net_icdata + 2 * (len / 2))).toNat

section

variable {pkt r : Netpacket} {len : Nat}

theorem outgoing_eq (pkt : Netpacket) : outgoing pkt =
    (((encapsulated pkt).ipHton.put16 net_ipcksum 0).put16 net_ipcksum
      (htons ((encapsulated pkt).ipHton.put16 net_ipcksum 0).ipcksum)).ethHton := rfl

theorem outgoing_apply {j : Nat} (h : net_ipvh ≤ j) (h24 : j ≠ net_ipcksum) (h25 : j ≠ net_ipcksum + 1) :
    outgoing pkt j = encapsulated pkt (flipIp j) := by
  rw [outgoing_eq, ethHton_apply h, put16_of_ne h24 h25, put16_of_ne h24 h25, ipHton_apply]

/-- The conversion of the encapsulated protocol leaves the IP header alone. -/
theorem encapsulated_header {j : Nat} (h : j < 34) : encapsulated pkt j = pkt j := by
  have hudp := (flipUdp_header j (by omega)).2.2.2.1 h
  have hicmp := (flipIcmp_header j (by omega)).2.2.2.1 h
  have h36 : j ≠ net_iccksum ∧ j ≠ net_iccksum + 1 ∧ j ≠ net_udpcksum ∧ j ≠ net_udpcksum + 1 := by
    unfold net_iccksum net_udpcksum
    omega
  unfold encapsulated
  split_ifs
  · rw [udpHton_apply, hudp, put16_of_ne h36.2.2.1 h36.2.2.2]
  · simp only
    rw [put16_of_ne h36.1 h36.2.1, put16_of_ne h36.1 h36.2.1, icmpHton_apply, hicmp]
  · rfl

/-- The type of the frame arrives. -/
theorem received_ethtype (h : HostOrder pkt len) {q : Netpacket} (hq : ∀ j < 14, q j = outgoing pkt j) :
    q.ethNtoh.w16 net_ethtype = ETH_IP := by
  have hid : ∀ j < 14, flipIp j = j := by decide
  have hback : ∀ j, net_ethtype ≤ j → j < 14 → flip16 net_ethtype (flip16 net_ethtype j) = j := by decide
  have hin : ∀ j, net_ethtype ≤ j → j < 14 → flip16 net_ethtype j < 14 := by decide
  have hbyte : ∀ j, net_ethtype ≤ j → j < 14 → q.ethNtoh j = pkt j := by
    intro j hj hj'
    rw [ethNtoh, swap16_apply, hq _ (hin j hj hj'), outgoing_eq, ethHton, swap16_apply, hback j hj hj',
      put16_of_ne (by unfold net_ipcksum; omega) (by unfold net_ipcksum; omega),
      put16_of_ne (by unfold net_ipcksum; omega) (by unfold net_ipcksum; omega), ipHton_apply, hid j hj',
      encapsulated_header (by omega)]
  rw [w16, hbyte net_ethtype (by decide) (by decide), hbyte (net_ethtype + 1) (by decide) (by decide)]
  exact h.ethtype

/-- A conversion of an encapsulated header moves bytes within that header. -/
theorem flip_inside {f : Nat → Nat} (hhead : ∀ j < 42, f j < 42 ∧ (f j < 34 ↔ j < 34) ∧ (j < 34 → f j = j))
    (hge : ∀ j, 42 ≤ j → f j = j) {j n : Nat} (hj : net_ipvh ≤ j) (hj' : j < ETH_HDR_LEN + n) (hn : 28 ≤ n)
    (h24 : j ≠ net_ipcksum) (h25 : j ≠ net_ipcksum + 1) :
    net_ipvh ≤ f j ∧ f j < ETH_HDR_LEN + n ∧ f j ≠ net_ipcksum ∧ f j ≠ net_ipcksum + 1 := by
  unfold net_ipvh net_ipcksum ETH_HDR_LEN at *
  by_cases h42 : j < 42
  · obtain ⟨hlt, hiff, hid⟩ := hhead j h42
    by_cases hip : j < 34
    · rw [hid hip]
      omega
    · have := mt hiff.mp hip
      omega
  · rw [hge j (by omega)]
    omega

/-- The sum of the message, before its checksum is stored. -/
theorem messageSum_eq (h : HostOrder pkt len) :
    (pkt.icmpHton.put16 net_iccksum 0).icmpSum net_ictype (8 + len : Nat) = messageSum pkt := by
  have hshort := h.short
  have hsub : pkt.w16 net_iplen - 28 = len := by
    rw [h.iplen]
    omega
  have hhead : ∀ j < 36, (pkt.icmpHton.put16 net_iccksum 0) j = pkt j := by
    intro j hj
    rw [put16_of_ne (by unfold net_iccksum; omega) (by unfold net_iccksum; omega), icmpHton_apply]
    exact congrArg pkt ((by decide : ∀ j < 36, flipIcmp j = j) j hj)
  have hrest : ∀ j, 38 ≤ j → (pkt.icmpHton.put16 net_iccksum 0) j = pkt (flipIcmp j) := by
    intro j hj
    rw [put16_of_ne (by unfold net_iccksum; omega) (by unfold net_iccksum; omega), icmpHton_apply]
  have hzero : (pkt.icmpHton.put16 net_iccksum 0).word 36 = 0 := word_put16_self (p := pkt.icmpHton) 36 (v := 0) (by decide)
  have hdata : (pkt.icmpHton.put16 net_iccksum 0).wordSum (len / 2) 42 = pkt.wordSum (len / 2) 42 :=
    wordSum_congr _ fun j hj _ => by rw [hrest j (by omega), flipIcmp_of_ge hj]
  have hlast : (pkt.icmpHton.put16 net_iccksum 0) (34 + 2 * (len / 2 + 4)) = pkt (42 + 2 * (len / 2)) := by
    rw [hrest _ (by omega), flipIcmp_of_ge (by omega)]
    exact congrArg pkt (by omega)
  have htype : (pkt.icmpHton.put16 net_iccksum 0).word 34 = pkt.word 34 := by
    rw [word, word, hhead 34 (by decide), hhead 35 (by decide)]
  have hident : (pkt.icmpHton.put16 net_iccksum 0).word 38 = pkt.w16 38 := by
    rw [word, w16, hrest 38 (by decide), hrest 39 (by decide)]
    exact Nat.add_comm _ _
  have hseq : (pkt.icmpHton.put16 net_iccksum 0).word 40 = pkt.w16 40 := by
    rw [word, w16, hrest 40 (by decide), hrest 41 (by decide)]
    exact Nat.add_comm _ _
  have hhalf : (8 + len) / 2 = len / 2 + 4 := by omega
  have hodd : (8 + len) % 2 = len % 2 := by omega
  rw [net_ictype, icmpSum_eq _ _ (by omega), hhalf, hodd, hlast, wordSum, wordSum, wordSum, wordSum, htype, hzero, hident, hseq,
    hdata, messageSum, hsub, net_ictype, net_icident, net_icseq, net_icdata]
  omega

variable (h : HostOrder pkt len)
variable (hr : ∀ j, net_ipvh ≤ j → j < ETH_HDR_LEN + pkt.w16 net_iplen → r j = outgoing pkt j)

include h hr

/-- The checksum of the IP header is right. -/
theorem received_ipcksum : r.ipcksum = 0 := by
  have hlen := h.iplen
  rw [← ipcksum_put16 (encapsulated pkt).ipHton]
  refine ipcksum_congr fun j hj hj' => ?_
  rw [hr j hj (by unfold ETH_HDR_LEN; omega), outgoing_eq, ethHton_apply hj]

/-- The IP header is in host order again, and the message is as it was sent. -/
theorem received_ipNtoh {j : Nat} (hj : net_ipvh ≤ j) (hj' : j < ETH_HDR_LEN + pkt.w16 net_iplen) (h24 : j ≠ net_ipcksum)
    (h25 : j ≠ net_ipcksum + 1) : r.ipNtoh j = encapsulated pkt j := by
  have hlen := h.iplen
  have hin : net_ipvh ≤ flipIp j ∧ flipIp j < ETH_HDR_LEN + pkt.w16 net_iplen ∧ flipIp j ≠ net_ipcksum ∧
      flipIp j ≠ net_ipcksum + 1 := by
    by_cases hhead : j < 34
    · obtain ⟨-, hlt, hge, heq24, heq25⟩ := flipIp_header j hhead
      exact ⟨hge hj, by unfold ETH_HDR_LEN; omega, mt heq24.mp h24, mt heq25.mp h25⟩
    · rw [flipIp_of_ge (by omega)]
      exact ⟨hj, hj', h24, h25⟩
  rw [ipNtoh_apply, hr _ hin.1 hin.2.1, outgoing_apply hin.1 hin.2.2.1 hin.2.2.2, flipIp_flipIp]

/-- The IP header arrives as it was. -/
theorem received_header {j : Nat} (hj : net_ipvh ≤ j) (hj' : j < 34) (h24 : j ≠ net_ipcksum) (h25 : j ≠ net_ipcksum + 1) :
    r.ipNtoh j = pkt j := by
  have hlen := h.iplen
  rw [received_ipNtoh h hr hj (by unfold ETH_HDR_LEN; omega) h24 h25, encapsulated_header hj']

theorem received_fields : r.ipNtoh.w8 net_ipvh = IP_VH ∧ r.ipNtoh.w8 net_ipproto = pkt.w8 net_ipproto ∧
    r.ipNtoh.w16 net_iplen = pkt.w16 net_iplen := by
  have hbyte : ∀ j, 14 ≤ j → j < 24 → r.ipNtoh j = pkt j := fun j hj hj' =>
    received_header h hr hj (by omega) (by unfold net_ipcksum; omega) (by unfold net_ipcksum; omega)
  refine ⟨?_, ?_, ?_⟩
  · rw [w8, hbyte net_ipvh (by decide) (by decide)]
    exact h.vh
  · rw [w8, w8, hbyte net_ipproto (by decide) (by decide)]
  · rw [w16, w16, hbyte net_iplen (by decide) (by decide), hbyte (net_iplen + 1) (by decide) (by decide)]

/-- A UDP packet passes the checks, and has the fields it was sent with. -/
theorem incoming_udp (hudp : pkt.w8 net_ipproto = IP_UDP) : incoming r = some r.ipNtoh.udpNtoh ∧
    SameFields pkt r.ipNtoh.udpNtoh := by
  obtain ⟨hvh, hproto, -⟩ := received_fields h hr
  have hlen := h.iplen
  refine ⟨?_, fun j hj hj' hne => ?_⟩
  · rw [incoming, if_neg (not_not.mpr (received_ipcksum h hr)), if_neg (not_not.mpr hvh), if_pos (hproto.trans hudp)]
  · rw [checksums, if_pos hudp] at hne
    simp only [List.cons_append, List.nil_append, List.mem_cons, List.not_mem_nil, or_false, not_or] at hne
    obtain ⟨h24, h25, h40, h41⟩ := hne
    have hin := flip_inside (fun j hj => ⟨(flipUdp_header j hj).2.1, (flipUdp_header j hj).2.2.1, (flipUdp_header j hj).2.2.2.1⟩)
      (fun j hj => flipUdp_of_ge (by omega)) hj hj' (by omega) h24 h25
    rw [udpNtoh_apply, received_ipNtoh h hr hin.1 hin.2.1 hin.2.2.1 hin.2.2.2, encapsulated, if_pos hudp, udpHton_apply,
      flipUdp_flipUdp]
    exact put16_of_ne h40 h41

/-- The sum of the message in network order, with its checksum. -/
theorem received_icmpSum (hicmp : pkt.w8 net_ipproto = IP_ICMP) :
    messageSum pkt < 2 ^ 30 ∧
      r.ipNtoh.icmpSum net_ictype (r.ipNtoh.w16 net_iplen - IP_HDR_LEN) = messageSum pkt + fold (messageSum pkt) := by
  have hneUdp : ¬IP_ICMP = IP_UDP := by decide
  have hshort := h.short
  have hiplen := h.iplen
  have hlen : ∀ n : Nat, n = 28 + len → (n : Int) - IP_HDR_LEN = ((8 + len : Nat) : Int) := by
    intro n hn
    unfold IP_HDR_LEN
    omega
  have hhton : pkt.icmpHton.w16 net_iplen = 28 + len := by
    rw [icmpHton_eq, ← h.iplen]
    rfl
  obtain ⟨s, hs, hsum⟩ := icmpSum_put16 pkt.icmpHton (n := 8 + len) (by omega) (by omega)
  have hms : s = messageSum pkt := by
    rw [← messageSum_eq h]
    exact (hsum 0 (by decide)).symm
  have hfold : fold s < 65536 := Nat.lt_succ_of_le (Nat.sub_le _ _)
  have henc : encapsulated pkt = pkt.icmpHton.put16 net_iccksum (htons (fold s)) := by
    rw [encapsulated, hicmp, if_neg hneUdp, if_pos rfl, hhton, hlen _ rfl]
    simp only
    rw [icmpCksum, messageSum_eq h, put16_put16, hms]
  refine ⟨hms ▸ hs, ?_⟩
  rw [(received_fields h hr).2.2, hlen _ h.iplen, ← hms, ← hsum (fold s) hfold, ← henc]
  refine icmpSum_congr (by omega) fun j hj hj' => ?_
  unfold net_ictype at hj hj'
  exact received_ipNtoh h hr (by unfold net_ipvh; omega) (by unfold ETH_HDR_LEN; omega) (by unfold net_ipcksum; omega)
    (by unfold net_ipcksum; omega)

/-- An ICMP packet passes the checks, and has the fields it was sent with, when the carry of its sum does not carry. -/
theorem incoming_icmp (hicmp : pkt.w8 net_ipproto = IP_ICMP) :
    incoming r = (if NoCarry (messageSum pkt) then some r.ipNtoh.icmpNtoh else none) ∧ SameFields pkt r.ipNtoh.icmpNtoh := by
  obtain ⟨hvh, hproto, -⟩ := received_fields h hr
  have hlen := h.iplen
  have hneUdp : ¬IP_ICMP = IP_UDP := by decide
  obtain ⟨hsmall, hsum⟩ := received_icmpSum h hr hicmp
  refine ⟨?_, fun j hj hj' hne => ?_⟩
  · rw [incoming, if_neg (not_not.mpr (received_ipcksum h hr)), if_neg (not_not.mpr hvh), hproto, hicmp, if_neg hneUdp,
      if_pos rfl, icmpCksum, hsum, fold_add_fold hsmall]
    by_cases hc : NoCarry (messageSum pkt)
    · rw [if_pos hc, if_pos hc, if_neg (by decide)]
    · rw [if_neg hc, if_neg hc, if_pos (by decide)]
  · rw [checksums, hicmp, if_neg hneUdp] at hne
    simp only [List.cons_append, List.nil_append, List.mem_cons, List.not_mem_nil, or_false, not_or] at hne
    obtain ⟨h24, h25, h36, h37⟩ := hne
    have hin := flip_inside (fun j hj => ⟨(flipIcmp_header j hj).2.1, (flipIcmp_header j hj).2.2.1, (flipIcmp_header j hj).2.2.2.1⟩)
      (fun j hj => flipIcmp_of_ge (by omega)) hj hj' (by omega) h24 h25
    have hsum : ¬flipIcmp j = net_iccksum ∧ ¬flipIcmp j = net_iccksum + 1 := by
      by_cases hhead : j < 42
      · have := (flipIcmp_header j hhead).2.2.2.2
        unfold net_iccksum
        omega
      · rw [flipIcmp_of_ge (by omega)]
        exact ⟨h36, h37⟩
    rw [icmpNtoh_eq]
    simp only
    rw [received_ipNtoh h hr hin.1 hin.2.1 hin.2.2.1 hin.2.2.2, encapsulated, hicmp, if_neg hneUdp, if_pos rfl]
    rw [put16_of_ne hsum.1 hsum.2, put16_of_ne hsum.1 hsum.2, icmpHton_apply, flipIcmp_flipIcmp]

end

/-! ## The packets that are built -/

/-- A packet that `udp_send` and `udp_sendto` build, or `icmp_mkpkt` for an echo, in a buffer with any contents. -/
inductive Built : Netpacket → Prop
  | udp (nd : Network) (ipid remip locport remport : Nat) (buff : Nat → UInt8) (len : Int) (p : Netpacket) (h0 : 0 ≤ len)
      (h : len ≤ 1472) : Built (udpPkt nd ipid remip locport remport buff len p)
  | icmp (nd : Network) (ipid remip type ident seq : Nat) (buf : Nat → UInt8) (len : Int) (p : Netpacket)
      (ht : type = ICMP_ECHOREQST ∨ type = ICMP_ECHOREPLY) (h0 : 0 ≤ len) (h : len ≤ 1472) :
      Built (icmpPkt nd ipid remip type ident seq buf len p)

/-- The IP header of a packet that is built. -/
theorem ipHeader_fields (nd : Network) (iplen ipid proto remip : Nat) (p : Netpacket) (hlen : iplen < 65536)
    (hproto : proto < 256) :
    let q := ipHeader nd iplen ipid proto remip p
    q.w16 net_ethtype = ETH_IP ∧ q.w8 net_ipvh = IP_VH ∧ q.w16 net_iplen = iplen ∧ q.w8 net_ipproto = proto := by
  have hbyte : ∀ v : Nat, v % 256 + 256 * (v / 256 % 256) = v % 65536 := by
    intro v
    omega
  refine ⟨?_, ?_, ?_, ?_⟩
  all_goals
    simp [ipHeader, w16, w8, put32, put16_apply, net_ethtype, net_ipvh, net_iptos, net_iplen, net_ipid, net_ipfrag, net_ipttl,
      net_ipproto, net_ipcksum, net_ipsrc, net_ipdst, Arp.putHaddr, ETH_IP, IP_VH, hbyte]
  · exact hlen
  · exact hproto

/-- A packet that begins with such a header. -/
theorem hostOrder_of_header {pkt p : Netpacket} {nd : Network} {ipid proto remip : Nat} (len : Nat) (hlen : len ≤ 1472)
    (hproto : proto < 256) (h : ∀ j < 34, pkt j = ipHeader nd (28 + len) ipid proto remip p j) :
    HostOrder pkt len ∧ pkt.w8 net_ipproto = proto := by
  obtain ⟨h1, h2, h3, h4⟩ := ipHeader_fields nd (28 + len) ipid proto remip p (by omega) hproto
  have hword : ∀ o, o + 1 < 34 → pkt.w16 o = (ipHeader nd (28 + len) ipid proto remip p).w16 o := by
    intro o ho
    rw [w16, w16, h o (by omega), h (o + 1) ho]
  have hbyte : ∀ o, o < 34 → pkt.w8 o = (ipHeader nd (28 + len) ipid proto remip p).w8 o := by
    intro o ho
    rw [w8, w8, h o ho]
  refine ⟨⟨?_, ?_, ?_, hlen⟩, ?_⟩
  · rw [hword _ (by decide), h1]
  · rw [hbyte _ (by decide), h2]
  · rw [hword _ (by decide), h3]
  · rw [hbyte _ (by decide), h4]

/-- The packet that is built begins with the IP header. -/
theorem udpPkt_header (nd : Network) (ipid remip locport remport : Nat) (buff : Nat → UInt8) {len : Int} (p : Netpacket)
    (h0 : 0 ≤ len) (h : len ≤ 1472) {j : Nat} (hj : j < 34) :
    udpPkt nd ipid remip locport remport buff len p j = ipHeader nd (28 + len.toNat) ipid IP_UDP remip p j := by
  have hiplen : (((net_udpdata : Int) + len - ETH_HDR_LEN) % 65536).toNat = 28 + len.toNat := by
    unfold net_udpdata ETH_HDR_LEN
    omega
  have hput : ∀ o, 34 ≤ o → ∀ (q : Netpacket) v, q.put16 o v j = q j := fun o ho q v => put16_of_ne (by omega) (by omega)
  rw [udpPkt, copy_of_outside (.inl (by unfold net_udpdata; omega)), hput net_udpcksum (by decide), hput net_udplen (by decide),
    hput net_udpdport (by decide), hput net_udpsport (by decide), hiplen]

/-- The packet that is built begins with the IP header. -/
theorem icmpPkt_header (nd : Network) (ipid remip type ident seq : Nat) (buf : Nat → UInt8) {len : Int} (p : Netpacket)
    (h0 : 0 ≤ len) (h : len ≤ 1472) {j : Nat} (hj : j < 34) :
    icmpPkt nd ipid remip type ident seq buf len p j = ipHeader nd (28 + len.toNat) ipid IP_ICMP remip p j := by
  have hiplen : ((IP_HDR_LEN + ICMP_HDR_LEN + len) % 65536).toNat = 28 + len.toNat := by
    unfold IP_HDR_LEN ICMP_HDR_LEN
    omega
  have hput : ∀ o, 34 ≤ o → ∀ (q : Netpacket) v, q.put16 o v j = q j := fun o ho q v => put16_of_ne (by omega) (by omega)
  have hput8 : ∀ o, 34 ≤ o → ∀ (q : Netpacket) v, q.put8 o v j = q j := fun o ho q v => by rw [put8_apply, if_neg (by omega)]
  rw [icmpPkt, copy_of_outside (.inl (by unfold net_icdata; omega)), hput net_icseq (by decide), hput net_icident (by decide),
    hput net_iccksum (by decide), hput8 net_iccode (by decide), hput8 net_ictype (by decide), hiplen]

/-- The packet that is built is in host order. -/
theorem Built.hostOrder {pkt : Netpacket} (h : Built pkt) :
    ∃ len, HostOrder pkt len ∧ (pkt.w8 net_ipproto = IP_UDP ∨ pkt.w8 net_ipproto = IP_ICMP) := by
  cases h with
  | udp nd ipid remip locport remport buff len p h0 h =>
    obtain ⟨h1, h2⟩ := hostOrder_of_header len.toNat (by omega) (by decide) fun j hj =>
      udpPkt_header nd ipid remip locport remport buff p h0 h hj
    exact ⟨_, h1, .inl h2⟩
  | icmp nd ipid remip type ident seq buf len p ht h0 h =>
    obtain ⟨h1, h2⟩ := hostOrder_of_header len.toNat (by omega) (by decide) fun j hj =>
      icmpPkt_header nd ipid remip type ident seq buf p h0 h hj
    exact ⟨_, h1, .inr h2⟩

/-! ## Loopback agrees with the wire -/

/-- A machine that takes the packet: it is broadcast, or the machine knows its own address. -/
def Addressed (nd : Network) (pkt : Netpacket) : Prop :=
  pkt.w32 net_ipdst = IP_BCAST ∨ nd.ipvalid = true ∧ (pkt.w32 net_ipdst = nd.ipucast ∨ pkt.w32 net_ipdst = nd.ipbcast)

/-- The branches of `ip_send` that loop a packet back. -/
def LoopsBack (nd : Network) (pkt : Netpacket) : Prop :=
  pkt.w32 net_ipdst &&& 0xff000000 = 0x7f000000 ∨ pkt.w32 net_ipdst = nd.ipucast

/-- The packet that is looped back and the packet that arrives over the network, at any receiver whose buffer begins with the
frame, agree; a receiver that the packet is addressed to does not drop it. -/
structure LoopbackAgrees (pkt : Netpacket) : Prop where
  loopback : ∀ (others : World → World) p w, w.bufs p = pkt → LoopsBack w.netData pkt → passed (ipSend others p) w = [pkt]
  wire : ∀ (others : World → World) p w, w.bufs p = pkt → ∃ frame, written (ipOut others p) w = [frame] ∧
    ∀ (others' : World → World) q w', (w'.bufs q).bytes frame.length = frame →
      (∀ pkt' ∈ passed (demux others' q) w', SameFields pkt pkt') ∧
        (Addressed w'.netData pkt → passed (demux others' q) w' ≠ [])

section

variable {pkt : Netpacket} {len : Nat}

/-- A packet that is addressed to a machine is taken by it, if the address arrives. -/
theorem accepts_of_addressed {nd : Network} {pkt' : Netpacket} (h : Addressed nd pkt) (hdst : pkt'.w32 net_ipdst = pkt.w32 net_ipdst) :
    accepts nd pkt' = true := by
  rw [accepts, hdst]
  rcases h with h | ⟨hvalid, h⟩
  · simp [h]
  · simp [hvalid, h]

/-- The destination is a field. -/
theorem SameFields.dst {pkt' : Netpacket} (h : SameFields pkt pkt') (hpkt : HostOrder pkt len) :
    pkt'.w32 net_ipdst = pkt.w32 net_ipdst := by
  have hlen := hpkt.iplen
  have hbyte : ∀ j, 30 ≤ j → j < 34 → pkt' j = pkt j := by
    intro j hj hj'
    refine h j (by unfold net_ipvh; omega) (by unfold ETH_HDR_LEN; omega) fun hmem => ?_
    unfold checksums at hmem
    split_ifs at hmem <;> simp at hmem <;> omega
  rw [w32, w32, w16, w16, w16, w16, hbyte net_ipdst (by decide) (by decide), hbyte (net_ipdst + 1) (by decide) (by decide),
    hbyte (net_ipdst + 2) (by decide) (by decide), hbyte (net_ipdst + 2 + 1) (by decide) (by decide)]

/-- A buffer that begins with the bytes of a packet. -/
theorem bytes_eq {p q : Netpacket} {n : Nat} (h : p.bytes n = q.bytes n) {j : Nat} (hj : j < n) : p j = q j :=
  List.map_inj_left.mp h j (List.mem_range.mpr hj)

/-- What a receiver passes on of the frame. -/
theorem passed_frame (hpkt : HostOrder pkt len) (others : World → World) (q : Buf) {w : World}
    (hframe : (w.bufs q).bytes ((outgoing pkt).bytes (pkt.w16 net_iplen + ETH_HDR_LEN)).length =
      (outgoing pkt).bytes (pkt.w16 net_iplen + ETH_HDR_LEN)) :
    (∀ j, net_ipvh ≤ j → j < ETH_HDR_LEN + pkt.w16 net_iplen → (w.bufs q).ethNtoh j = outgoing pkt j) ∧
      passed (demux others q) w = ((incoming (w.bufs q).ethNtoh).filter (accepts w.netData)).toList := by
  have hlen := hpkt.iplen
  have hlength : ((outgoing pkt).bytes (pkt.w16 net_iplen + ETH_HDR_LEN)).length = pkt.w16 net_iplen + ETH_HDR_LEN := by
    simp [bytes]
  rw [hlength] at hframe
  have hbyte : ∀ j < pkt.w16 net_iplen + ETH_HDR_LEN, w.bufs q j = outgoing pkt j := fun j hj => bytes_eq hframe hj
  refine ⟨fun j hj hj' => ?_, passed_demux others q (received_ethtype hpkt fun j hj => hbyte j (by omega))⟩
  rw [ethNtoh_apply hj, hbyte j (by omega)]

/-- A packet whose frame is not dropped. -/
theorem loopbackAgrees_of_incoming (hpkt : HostOrder pkt len) (h : ∀ r : Netpacket,
    (∀ j, net_ipvh ≤ j → j < ETH_HDR_LEN + pkt.w16 net_iplen → r j = outgoing pkt j) →
      ∃ pkt', incoming r = some pkt' ∧ SameFields pkt pkt') : LoopbackAgrees pkt := by
  refine ⟨fun others p w hw hloop => ?_, fun others p w hw => ⟨_, written_ipOut others p w, fun others' q w' hframe => ?_⟩⟩
  · subst hw
    exact passed_ipSend others p hloop
  · rw [hw] at hframe
    obtain ⟨hr, hpassed⟩ := passed_frame hpkt others' q hframe
    obtain ⟨pkt', hin, hsame⟩ := h _ hr
    rw [hpassed, hin]
    refine ⟨fun pkt'' hmem => ?_, fun haddr => ?_⟩
    · obtain ⟨rfl, -⟩ : pkt' = pkt'' ∧ _ := by simpa [Option.filter_eq_some_iff] using hmem
      exact hsame
    · have htakes := accepts_of_addressed haddr (hsame.dst hpkt)
      simp [Option.filter, htakes]

/-- A machine with one buffer, whose address is the destination of a packet. -/
def receiver (pkt buf : Netpacket) : World where
  bufs := fun _ => buf
  pool := []
  netData := ⟨pkt.w32 net_ipdst, 0, 0, 0, 0, true, [], []⟩
  udptab := default
  icmptab := default
  arpcache := default
  ipoqueue := ⟨0, 0, 0, fun _ => none⟩
  currpid := 0
  udpIdent := 0
  udptoIdent := 0
  ipident := 0
  arriving := fun _ => 0
  retval := 0
  clock := 0

/-- A packet whose frame every receiver drops. -/
theorem not_loopbackAgrees (hpkt : HostOrder pkt len) (h : ∀ r : Netpacket,
    (∀ j, net_ipvh ≤ j → j < ETH_HDR_LEN + pkt.w16 net_iplen → r j = outgoing pkt j) → incoming r = none) :
    ¬LoopbackAgrees pkt := by
  intro hagrees
  obtain ⟨frame, hwritten, hwire⟩ := hagrees.wire id 0 (receiver pkt pkt) rfl
  obtain rfl : (outgoing pkt).bytes (pkt.w16 net_iplen + ETH_HDR_LEN) = frame := by
    simpa [written_ipOut, receiver] using hwritten
  have hframe : ((receiver pkt (outgoing pkt)).bufs 0).bytes ((outgoing pkt).bytes (pkt.w16 net_iplen + ETH_HDR_LEN)).length =
      (outgoing pkt).bytes (pkt.w16 net_iplen + ETH_HDR_LEN) := by
    simp [receiver, bytes]
  obtain ⟨hr, hpassed⟩ := passed_frame hpkt id 0 hframe
  refine (hwire id 0 _ hframe).2 (.inr ⟨rfl, .inl rfl⟩) ?_
  rw [hpassed, h _ hr]
  rfl

end

/-- The conversions to host order undo those to network order, for every packet. A packet that is built is looped back as it
arrives over the network if and only if it is a UDP packet or the carry of the sum of its words does not carry. -/
theorem loopback_agrees (pkt : Netpacket) (h : Built pkt) :
    (∀ p : Netpacket, p.ipHton.ipNtoh = p ∧ p.udpHton.udpNtoh = p ∧ p.icmpHton.icmpNtoh = p) ∧
      (LoopbackAgrees pkt ↔ pkt.w8 net_ipproto = IP_UDP ∨ NoCarry (messageSum pkt)) := by
  refine ⟨fun p => ⟨ipNtoh_ipHton p, udpNtoh_udpHton p, icmpNtoh_icmpHton p⟩, ?_⟩
  obtain ⟨len, hpkt, hudp | hicmp⟩ := h.hostOrder
  · refine ⟨fun _ => .inl hudp, fun _ => loopbackAgrees_of_incoming hpkt fun r hr => ?_⟩
    exact ⟨_, incoming_udp hpkt hr hudp⟩
  · have hne : ¬pkt.w8 net_ipproto = IP_UDP := by
      rw [hicmp]
      decide
    rw [or_iff_right hne]
    constructor
    · intro hagrees
      by_contra hcarry
      exact not_loopbackAgrees hpkt (fun r hr => (incoming_icmp hpkt hr hicmp).1.trans (if_neg hcarry)) hagrees
    · intro hcarry
      exact loopbackAgrees_of_incoming hpkt fun r hr =>
        ⟨_, (incoming_icmp hpkt hr hicmp).1.trans (if_pos hcarry), (incoming_icmp hpkt hr hicmp).2⟩

/-- A UDP packet with four bytes of data. -/
theorem loopback_agrees_udp :
    LoopbackAgrees (udpPkt (receiver (fun _ => 0) fun _ => 0).netData 7 0x7f000001 5000 53 (fun j => UInt8.ofNat j) 4 fun _ => 0) :=
  (loopback_agrees _ (.udp _ _ _ _ _ _ 4 _ (by decide) (by decide))).2.mpr (.inl (by decide))

/-- An echo request whose sum is `0x1ffff`. -/
def carryingRequest : Netpacket :=
  icmpPkt (receiver (fun _ => 0) fun _ => 0).netData 0 0xc0a80002 8 0xffff 0xf800 (fun _ => 0) 0 fun _ => 0

/-- The request is built by `icmp_mkpkt`, and the machine that it is addressed to drops it. -/
theorem loopback_carry : ¬∀ pkt, Built pkt → LoopbackAgrees pkt := by
  intro hall
  have hbuilt : Built carryingRequest := .icmp _ _ _ _ _ _ _ _ _ (.inl rfl) (by decide) (by decide)
  have hcarry : ¬NoCarry (messageSum carryingRequest) := by decide
  obtain ⟨len, hpkt, -⟩ := hbuilt.hostOrder
  exact not_loopbackAgrees hpkt (fun r hr => (incoming_icmp hpkt hr (by decide)).1.trans (if_neg hcarry)) (hall _ hbuilt)

end Ip

end Xinu
