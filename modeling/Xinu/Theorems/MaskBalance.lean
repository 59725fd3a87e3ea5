import Xinu.Net.Masks
import Xinu.Theorems.Loopback

/-!
# The interrupt mask of the output path

Every procedure of the output path but `ip_send` comes back with the mask that it was entered with, also when `ip_send`, which it
calls, does not: it restores what it saved itself. `ip_send` leaves interrupts disabled when there is no next hop for the packet
or the next hop is not resolved.
-/

namespace Xinu

namespace Ip

open Netpacket hiding IP_HDR_LEN UDP_HDR_LEN ICMP_HDR_LEN
open Masked

namespace WithMask

variable {μ : Type} {off m : μ} {netbufpool : Bool} {others : World → World} {p : Buf}

/-! ## Forgetting the mask -/

theorem getbuf_erases : ErasesBy some (getbuf off true others) (Ip.getbuf others) := by
  refine ErasesBy.disable fun m => ?_
  rw [if_neg Bool.noConfusion]
  exact (Erases.lift _).tail fun p => ErasesBy.restore (ErasesBy.pure some p)

theorem freebuf_erases : Erases (freebuf off others p) (Ip.freebuf others p) := ErasesBy.critical (Erases.lift _)

theorem send_erases (pid : Int) : Erases (send off others pid) (Ip.send others pid) := ErasesBy.critical (Erases.lift _)

theorem write_erases (frame : List UInt8) : Erases (write off others frame) (Ip.write others frame) :=
  ErasesBy.critical (Erases.lift _)

theorem recvtime_erases : Erases (recvtime off others) (Ip.recvtime others) := ErasesBy.critical (Erases.lift _)

/-- `recvclr` changes nothing that the output path looks at. -/
theorem recvclr_erases {α : Type} {f : Unit → MaskedM μ α} {y : M α} (hf : Erases (f ()) y) : Erases (recvclr off >>= f) y := by
  intro c
  exact hf c

/-- A procedure followed by the restore. -/
theorem restore_erases {x : MaskedM μ Unit} {y : M Unit} (h : Erases x y) : Erases (x >>= fun _ => restore m) y :=
  h.tail fun _ _ => ⟨rfl, rfl, rfl⟩

/-- A procedure followed by the restore and a return. -/
theorem restore_pure_erases {α β : Type} {x : MaskedM μ α} {y : M α} (h : Erases x y) (v : α → β) :
    Erases (x >>= fun a => restore m >>= fun _ => pure (v a)) (y >>= fun a => pure (v a)) :=
  h.bind fun a => ErasesBy.restore (Erases.pure (v a))

/-- The loop of `arp_resolve`. -/
theorem arpTries_erases (apkt : List UInt8) (i : Nat) : ∀ msg, Erases (arpTries off others apkt i msg) (Ip.arpTries others apkt i msg) := by
  induction i with
  | zero => exact fun msg => Erases.pure msg
  | succ i ih =>
    intro msg
    refine (write_erases apkt).bind fun _ => recvtime_erases.bind fun msg => ?_
    exact ErasesBy.ite (ih msg) (Erases.pure msg)

/-- `arp_resolve`, on each of its paths. -/
theorem arpResolve_erases (nxthop : Nat) : Erases (arpResolve off others nxthop p) (Ip.arpResolve others nxthop p) := by
  refine (Erases.lift _).bind fun w => ?_
  have hbcast : Erases (do lift (store p fun pkt => Arp.putHaddr pkt net_ethdst w.netData.ethbcast); pure OK : MaskedM μ Int)
      (do store p fun pkt => Arp.putHaddr pkt net_ethdst w.netData.ethbcast; pure OK) :=
    (Erases.lift _).bind fun _ => Erases.pure _
  refine ErasesBy.ite hbcast (ErasesBy.ite hbcast (ErasesBy.disable fun m => ?_))
  simp only [id]
  cases w.arpcache.search nxthop with
  | some i => exact ErasesBy.ite (restore_pure_erases (Erases.lift _) fun _ => OK) (ErasesBy.restore (Erases.pure _))
  | none =>
    cases w.arpcache.arpAlloc with
    | none => exact ErasesBy.restore (Erases.pure _)
    | some r =>
      refine (Erases.lift _).bind fun _ => recvclr_erases ((arpTries_erases _ _ _).bind fun msg => ?_)
      refine ErasesBy.ite (ErasesBy.restore (Erases.pure _)) (ErasesBy.ite ?_ ?_)
      · exact restore_pure_erases (Erases.lift _) fun _ => TIMEOUT
      · exact (Erases.lift _).bind fun w => restore_pure_erases (Erases.lift _) fun _ => OK

/-- `udp_in` stores its packet or frees it under the mask. -/
theorem udpIn_erases : Erases (udpIn off others p) (Ip.udpIn others p) := by
  refine ErasesBy.disable fun m => (Erases.lift _).bind fun pkt => (Erases.lift _).bind fun w => ?_
  simp only [id]
  cases udpSlots.find? (fun i => decide ((w.udptab i).udstate ≠ .UDP_FREE) && (w.udptab i).accepts pkt &&
      decide ((w.udptab i).udcount < UDP_QSIZ)) with
  | none => exact restore_erases freebuf_erases
  | some i =>
    refine ErasesBy.ite ?_ (restore_erases (Erases.lift _))
    exact (Erases.lift _).bind fun _ => restore_erases (send_erases _)

theorem ipEnqueue_erases : Erases (ipEnqueue off others p) (Ip.ipEnqueue others p) := by
  refine ErasesBy.disable fun m => (Erases.lift _).bind fun w => ErasesBy.ite ?_ ?_
  · exact restore_pure_erases freebuf_erases fun _ => SYSERR
  · refine (Erases.lift _).bind fun _ => ?_
    exact restore_pure_erases (ErasesBy.critical (Erases.lift _)) fun _ => OK

theorem icmpMkpkt_erases (remip type ident seq : Nat) (buf : M (Nat → UInt8)) (len : Int) :
    ErasesBy some (icmpMkpkt off true others remip type ident seq buf len) (Ip.icmpMkpkt others remip type ident seq buf len) := by
  refine getbuf_erases.bind fun q => ?_
  refine (Erases.lift _).bind fun w => (Erases.lift _).bind fun data => (Erases.lift _).bind fun _ => ?_
  exact (Erases.lift _).bind fun _ => ErasesBy.pure some q

/-- `icmp_in`, with the reply to a request under the same mask. -/
theorem icmpIn_erases : Erases (icmpIn off true others p) (Ip.icmpIn others p) := by
  have hfree : ∀ m : μ, Erases (freebuf off others p >>= fun _ => restore m) (Ip.freebuf others p) :=
    fun m => restore_erases freebuf_erases
  refine ErasesBy.disable fun m => (Erases.lift _).bind fun pkt => ErasesBy.ite (hfree m) (ErasesBy.ite ?_ ?_)
  · refine (Erases.lift _).bind fun icseq => (icmpMkpkt_erases _ _ _ _ _ _).bind fun reply => ?_
    exact ipEnqueue_erases.bind fun _ => hfree m
  · refine ErasesBy.ite (hfree m) ((Erases.lift _).bind fun w => ErasesBy.ite (hfree m) ?_)
    refine ErasesBy.ite ?_ (restore_erases (Erases.lift _))
    exact (Erases.lift _).bind fun _ => restore_erases (send_erases _)

theorem ipLocal_erases : Erases (ipLocal off true others p) (Ip.ipLocal others p) := by
  refine (Erases.lift _).bind fun pkt => (Erases.lift _).bind fun _ => (Erases.lift _).bind fun proto => ?_
  exact ErasesBy.ite udpIn_erases (ErasesBy.ite icmpIn_erases freebuf_erases)

theorem ipOut_erases : Erases (ipOut off others p) (Ip.ipOut others p) := by
  refine (Erases.lift _).bind fun pktlen => (Erases.lift _).bind fun _ => (Erases.lift _).bind fun frame => ?_
  refine (write_erases _).bind fun retval => freebuf_erases.bind fun _ => ?_
  exact ErasesBy.ite (Erases.pure _) (Erases.pure _)

/-- Without the mask, `ip_send` is the program on the state alone. -/
theorem ipSend_erases : Erases (ipSend off true others p) (Ip.ipSend others p) := by
  have hlocal : ∀ m : μ, Erases (ipLocal off true others p >>= fun _ => restore m >>= fun _ => pure OK : MaskedM μ Int)
      (Ip.ipLocal others p >>= fun _ => pure OK) := fun m => restore_pure_erases ipLocal_erases fun _ => OK
  have hout : ∀ m : μ, Erases (ipOut off others p >>= fun retval => restore m >>= fun _ => pure retval : MaskedM μ Int)
      (Ip.ipOut others p) := fun m => ipOut_erases.tail fun v => ErasesBy.restore (Erases.pure v)
  have hfail : Erases (freebuf off others p >>= fun _ => pure SYSERR : MaskedM μ Int) (Ip.freebuf others p >>= fun _ => pure SYSERR) :=
    freebuf_erases.bind fun _ => Erases.pure _
  refine ErasesBy.disable fun m => (Erases.lift _).bind fun dest => (Erases.lift _).bind fun w => ?_
  refine ErasesBy.ite (hlocal m) (ErasesBy.ite (hlocal m) (ErasesBy.ite ?_ ?_))
  · exact (Erases.lift _).bind fun _ => hout m
  · refine ErasesBy.ite hfail ((arpResolve_erases _).bind fun retval => ErasesBy.ite hfail (hout m))

/-- `udp_send`, which makes its packet under the mask. -/
theorem udpSend_erases (slot : Int) (buff : Nat → UInt8) (len : Int) :
    Erases (udpSend off true others slot buff len) (Ip.udpSend others slot buff len) := by
  have hfail : ∀ m : μ, Erases (restore m >>= fun _ => pure SYSERR : MaskedM μ Int) (pure SYSERR) :=
    fun m => ErasesBy.restore (Erases.pure _)
  refine ErasesBy.disable fun m => ErasesBy.ite (hfail m) ((Erases.lift _).bind fun w => ?_)
  refine ErasesBy.ite (hfail m) (ErasesBy.ite (hfail m) (getbuf_erases.bind fun q => ?_))
  refine (Erases.lift _).bind fun w' => (Erases.lift _).bind fun _ => (Erases.lift _).bind fun _ => ?_
  exact ipSend_erases.bind fun _ => ErasesBy.restore (Erases.pure _)

/-- `udp_sendto` is like it. -/
theorem udpSendto_erases (slot : Int) (remip remport : Nat) (buff : Nat → UInt8) (len : Int) :
    Erases (udpSendto off true others slot remip remport buff len) (Ip.udpSendto others slot remip remport buff len) := by
  have hfail : ∀ m : μ, Erases (restore m >>= fun _ => pure SYSERR : MaskedM μ Int) (pure SYSERR) :=
    fun m => ErasesBy.restore (Erases.pure _)
  refine ErasesBy.disable fun m => ErasesBy.ite (hfail m) ((Erases.lift _).bind fun w => ?_)
  refine ErasesBy.ite (hfail m) (getbuf_erases.bind fun q => ?_)
  refine (Erases.lift _).bind fun w' => (Erases.lift _).bind fun _ => (Erases.lift _).bind fun _ => ?_
  exact ipSend_erases.bind fun _ => ErasesBy.restore (Erases.pure _)

theorem icmpSend_erases (remip type ident seq : Nat) (buf : Nat → UInt8) (len : Int) :
    Erases (icmpSend off true others remip type ident seq buf len) (Ip.icmpSend others remip type ident seq buf len) := by
  refine ErasesBy.disable fun m => (icmpMkpkt_erases _ _ _ _ _ _).bind fun q => ?_
  exact ipSend_erases.tail fun v => ErasesBy.restore (Erases.pure v)

/-! ## The mask -/

theorem freebuf_balanced : Balanced (freebuf off others p) := Balanced.critical off _

/-- A return behind a restore. -/
theorem restore_leaves {α β : Type} (x : MaskedM μ α) (v : α → β) : Leaves m (x >>= fun a => restore m >>= fun _ => pure (v a)) :=
  Leaves.bind fun a => Leaves.restore (v a)

/-- `arp_resolve` restores the mask at each exit behind its `disable`. -/
theorem arpResolve_balanced (nxthop : Nat) (p : Buf) : Balanced (arpResolve off others nxthop p) := by
  refine Balanced.bind (Balanced.lift _) fun w => ?_
  have hbcast : Balanced (do lift (store p fun pkt => Arp.putHaddr pkt net_ethdst w.netData.ethbcast); pure OK : MaskedM μ Int) :=
    (Balanced.lift _).bind fun _ => Balanced.pure _
  refine Balanced.ite hbcast (Balanced.ite hbcast (Balanced.disable fun m => ?_))
  cases w.arpcache.search nxthop with
  | some i => exact Leaves.ite (restore_leaves _ fun _ => OK) (Leaves.restore _)
  | none =>
    cases w.arpcache.arpAlloc with
    | none => exact Leaves.restore _
    | some r =>
      refine Leaves.bind fun _ => Leaves.bind fun _ => Leaves.bind fun msg => Leaves.ite (Leaves.restore _) (Leaves.ite ?_ ?_)
      · exact restore_leaves _ fun _ => TIMEOUT
      · exact Leaves.bind fun w => restore_leaves _ fun _ => OK

/-- `udp_send` restores the mask at each exit, whatever `ip_send` leaves. -/
theorem udpSend_balanced (slot : Int) (buff : Nat → UInt8) (len : Int) :
    Balanced (udpSend off netbufpool others slot buff len) := by
  refine Balanced.disable fun m => Leaves.ite (Leaves.restore _) (Leaves.bind fun w => Leaves.ite (Leaves.restore _)
    (Leaves.ite (Leaves.restore _) (Leaves.bind fun q => ?_)))
  cases q with
  | none => exact Leaves.restore _
  | some q => exact Leaves.bind fun _ => Leaves.bind fun _ => Leaves.bind fun _ => restore_leaves _ fun _ => OK

/-- `udp_sendto` restores the mask at each exit, whatever `ip_send` leaves. -/
theorem udpSendto_balanced (slot : Int) (remip remport : Nat) (buff : Nat → UInt8) (len : Int) :
    Balanced (udpSendto off netbufpool others slot remip remport buff len) := by
  refine Balanced.disable fun m => Leaves.ite (Leaves.restore _) (Leaves.bind fun w => Leaves.ite (Leaves.restore _)
    (Leaves.bind fun q => ?_))
  cases q with
  | none => exact Leaves.restore _
  | some q => exact Leaves.bind fun _ => Leaves.bind fun _ => Leaves.bind fun _ => restore_leaves _ fun _ => OK

/-- `icmp_mkpkt` does not return `SYSERR`. -/
theorem icmpMkpkt_isSome (remip type ident seq : Nat) (buf : M (Nat → UInt8)) (len : Int) :
    Prog.Triple (fun _ => True) (icmpMkpkt off netbufpool others remip type ident seq buf len) fun q _ _ => q ≠ none := by
  intro c _ q c' t h
  obtain ⟨r, c₁, t₁, t₂, -, h2, rfl⟩ := Prog.bind_eq_some h
  cases r with
  | none => exact absurd (congrArg Prod.fst h2) (by simp [Prog.stuck])
  | some r =>
    obtain ⟨w, c₂, t₃, t₄, -, h3, rfl⟩ := Prog.bind_eq_some h2
    obtain ⟨data, c₃, t₅, t₆, -, h4, rfl⟩ := Prog.bind_eq_some h3
    obtain ⟨u, c₄, t₇, t₈, -, h5, rfl⟩ := Prog.bind_eq_some h4
    obtain ⟨u', c₅, t₉, t₁₀, -, h6, rfl⟩ := Prog.bind_eq_some h5
    have e : some (some r) = some q := congrArg Prod.fst h6
    exact Option.some.inj e ▸ Option.some_ne_none r

/-- `icmp_send` does not come to the exit without a restore. -/
theorem icmpSend_balanced (remip type ident seq : Nat) (buf : Nat → UInt8) (len : Int) :
    Balanced (icmpSend off netbufpool others remip type ident seq buf len) := by
  intro m c hc v c' t h
  obtain ⟨a, c₁, t₁, t₂, h1, h2, rfl⟩ := Prog.bind_eq_some h
  have e : c.mask = a := Option.some.inj (congrArg Prod.fst h1)
  obtain ⟨q, c₂, t₃, t₄, h3, h4, rfl⟩ := Prog.bind_eq_some h2
  have hq := icmpMkpkt_isSome remip type ident seq (pure buf) len c₁ trivial q c₂ t₃ h3
  cases q with
  | none => exact absurd rfl hq
  | some q =>
    rw [← hc, e]
    exact restore_leaves (m := a) (ipSend off netbufpool others q) (fun v => v) c₂ trivial v c' t₄ h4

/-- There is no next hop, or ARP does not resolve it. -/
def Unresolved (others : World → World) (nxthop : Nat) (p : Buf) (w : World) : Prop :=
  nxthop = 0 ∨ ∃ retval, (Ip.arpResolve others nxthop p w).1 = some retval ∧ retval ≠ OK

/-- A packet that has to be forwarded and cannot be. -/
def Unrouted (others : World → World) (p : Buf) (w : World) : Prop :=
  let dest := (w.bufs p).w32 net_ipdst
  ¬dest &&& 0xff000000 = 0x7f000000 ∧ ¬dest = w.netData.ipucast ∧ ¬(dest = IP_BCAST ∨ dest = w.netData.ipbcast) ∧
    Unresolved others (nextHop w.netData dest) p w

/-- The end of `ip_send` restores the mask when the packet is sent, and leaves interrupts disabled otherwise. -/
theorem ipForward_mask (mask : μ) (nxthop : Nat) (p : Buf) (w : World) :
    Prog.Triple (fun c => c = ⟨w, off⟩) (ipForward off others mask nxthop p) fun _ c _ =>
      (Unresolved others nxthop p w → c.mask = off) ∧ (¬Unresolved others nxthop p w → c.mask = mask) := by
  have hfail : Balanced (freebuf off others p >>= fun _ => pure SYSERR : MaskedM μ Int) :=
    freebuf_balanced.bind fun _ => Balanced.pure _
  rintro c rfl v c' t h
  unfold ipForward at h
  by_cases h0 : nxthop = 0
  · rw [if_pos h0] at h
    exact ⟨fun _ => hfail off _ rfl v c' t h, fun hres => absurd (Or.inl h0) hres⟩
  · rw [if_neg h0] at h
    obtain ⟨retval, c₁, t₁, t₂, h1, h2, rfl⟩ := Prog.bind_eq_some h
    have hmask : c₁.mask = off := arpResolve_balanced nxthop p off _ rfl retval c₁ t₁ h1
    have harp : (Ip.arpResolve others nxthop p w).1 = some retval := by
      have herase : Erases (arpResolve off others nxthop p) (Ip.arpResolve others nxthop p) := arpResolve_erases nxthop
      have hvalue := (herase ⟨w, off⟩).1
      rw [h1] at hvalue
      simpa using hvalue.symm
    have hiff : Unresolved others nxthop p w ↔ retval ≠ OK := by
      constructor
      · rintro (hz | ⟨r, hr, hne⟩)
        · exact absurd hz h0
        · rw [harp] at hr
          exact Option.some.inj hr ▸ hne
      · exact fun hne => .inr ⟨retval, harp, hne⟩
    by_cases hok : retval ≠ OK
    · rw [if_pos hok] at h2
      exact ⟨fun _ => hfail off c₁ hmask v c' t₂ h2, fun hres => absurd (hiff.mpr hok) hres⟩
    · rw [if_neg hok] at h2
      refine ⟨fun hres => absurd (hiff.mp hres) hok, fun _ => ?_⟩
      exact restore_leaves (ipOut off others p) (fun v => v) c₁ trivial v c' t₂ h2

/-- What `ip_send` leaves in the mask. -/
theorem ipSend_mask (p : Buf) (w : World) (mask : μ) :
    Prog.Triple (fun c => c = ⟨w, mask⟩) (ipSend off netbufpool others p) fun _ c _ =>
      (Unrouted others p w → c.mask = off) ∧ (¬Unrouted others p w → c.mask = mask) := by
  rintro c rfl v c' t h
  obtain ⟨m, c₁, t₁, t₂, h1, h2, rfl⟩ := Prog.bind_eq_some h
  obtain rfl : mask = m := Option.some.inj (congrArg Prod.fst h1)
  obtain rfl : (⟨w, off⟩ : Cpu World μ) = c₁ := congrArg (fun r => r.2.1) h1
  obtain ⟨dest, c₂, t₃, t₄, h3, h4, rfl⟩ := Prog.bind_eq_some h2
  obtain rfl : (w.bufs p).w32 net_ipdst = dest := Option.some.inj (congrArg Prod.fst h3)
  obtain rfl : (⟨w, off⟩ : Cpu World μ) = c₂ := congrArg (fun r => r.2.1) h3
  obtain ⟨w', c₃, t₅, t₆, h5, h6, rfl⟩ := Prog.bind_eq_some h4
  obtain rfl : w = w' := Option.some.inj (congrArg Prod.fst h5)
  obtain rfl : (⟨w, off⟩ : Cpu World μ) = c₃ := congrArg (fun r => r.2.1) h5
  have hleaves : ∀ {x : MaskedM μ Int}, Leaves mask x → x ⟨w, off⟩ = (some v, c', t₆) → c'.mask = mask :=
    fun hx h => hx _ trivial v c' t₆ h
  unfold Unrouted
  split_ifs at h6 with hnet hlocal hbcast
  · exact ⟨fun hun => absurd hnet hun.1, fun _ => hleaves (restore_leaves _ fun _ => OK) h6⟩
  · exact ⟨fun hun => absurd hlocal hun.2.1, fun _ => hleaves (restore_leaves _ fun _ => OK) h6⟩
  · exact ⟨fun hun => absurd hbcast hun.2.2.1, fun _ => hleaves (Leaves.bind fun _ => restore_leaves _ fun v => v) h6⟩
  · obtain ⟨hoff, hon⟩ := ipForward_mask mask _ p w _ rfl v c' t₆ h6
    exact ⟨fun hun => hoff hun.2.2.2, fun hun => hon fun hres => hun ⟨hnet, hlocal, hbcast, hres⟩⟩

/-- `ip_send` comes back with the mask it was entered with if and only if interrupts were disabled already, or the packet is
delivered here, broadcast, or forwarded to a next hop that is resolved. The other procedures of the output path always do. -/
theorem masks_balanced_iff {μ : Type} (off : μ) (netbufpool : Bool) (others : World → World) :
    (∀ (p : Buf) (w : World) (mask : μ), Prog.Triple (fun c => c = ⟨w, mask⟩) (ipSend off netbufpool others p) fun _ c _ =>
      (c.mask = mask ↔ mask = off ∨ ¬Unrouted others p w)) ∧
    (∀ remip type ident seq buf len, Balanced (icmpSend off netbufpool others remip type ident seq buf len)) ∧
    (∀ nxthop p, Balanced (arpResolve off others nxthop p)) ∧
    (∀ slot buff len, Balanced (udpSend off netbufpool others slot buff len)) ∧
    ∀ slot remip remport buff len, Balanced (udpSendto off netbufpool others slot remip remport buff len) := by
  refine ⟨fun p w mask c hc v c' t h => ?_, icmpSend_balanced, arpResolve_balanced, udpSend_balanced, udpSendto_balanced⟩
  obtain ⟨hoff, hon⟩ := ipSend_mask p w mask c hc v c' t h
  by_cases hun : Unrouted others p w
  · rw [hoff hun]
    exact ⟨fun h => .inl h.symm, fun h => (h.resolve_right (not_not.mpr hun)).symm⟩
  · rw [hon hun]
    exact iff_of_true rfl (.inr hun)

/-- A machine without a router, and a packet to 8.8.8.8. -/
def strandedWorld : World :=
  { receiver (fun _ => 1) (fun j => if 30 ≤ j ∧ j < 34 then 8 else 0) with
    netData := ⟨0xc0a80002, 0xc0a800ff, 0xffffff00, 0xc0a80000, 0, true, [], []⟩ }

/-- `ip_send` leaves interrupts disabled when there is no route. -/
theorem masks_unbalanced : ¬∀ {μ : Type} (off : μ) (netbufpool : Bool) (others : World → World) (p : Buf),
    Balanced (ipSend off netbufpool others p) := by
  intro hall
  have hbalanced := hall false true id 0 true ⟨strandedWorld, true⟩ rfl SYSERR ⟨_, false⟩ _ rfl
  exact Bool.noConfusion hbalanced

end WithMask

end Ip

end Xinu
