import Xinu.Net.Udp
import Xinu.Kernel.Accounting
import Xinu.Kernel.Runs

/-!
# The slots of UDP in every run

`udp_recv` and `udp_recvaddr` mark their slot as used when they go on behind the wait, whatever has happened to it meanwhile.
In every run in which no slot is released on which a process waits, a free slot stays free until `udp_register` returns it, and
no two slots in use have the same addresses.
-/

namespace Xinu

open Kernel

/-- The addresses of a slot. -/
def Udpentry.address (e : Udpentry) : Nat × Nat × Nat := (e.udremip, e.udremport, e.udlocport)

/-- The slot that a routine will mark as used. -/
def UdpPoint.slot : UdpPoint → Option Int
  | .cleared slot .. | .waited slot .. => some slot
  | .done _ => none

/-- The same slots are free, with the same addresses. -/
structure SameSlots (u u' : Udp) : Prop where
  address : ∀ s, (u'.udptab s).address = (u.udptab s).address
  free : ∀ s, (u'.udptab s).udstate = .UDP_FREE ↔ (u.udptab s).udstate = .UDP_FREE

namespace SameSlots

variable {u u' u'' : Udp} {i : Int} {e : Udpentry}

theorem refl (u : Udp) : SameSlots u u := ⟨fun _ => rfl, fun _ => Iff.rfl⟩

theorem trans (H : SameSlots u u') (H' : SameSlots u' u'') : SameSlots u u'' :=
  ⟨fun s => (H'.address s).trans (H.address s), fun s => (H'.free s).trans (H.free s)⟩

/-- One entry changes, but neither its addresses nor whether it is free. -/
theorem entry (htab : u'.udptab = Function.update u.udptab i e) (ha : e.address = (u.udptab i).address)
    (hf : e.udstate = .UDP_FREE ↔ (u.udptab i).udstate = .UDP_FREE) : SameSlots u u' := by
  refine ⟨fun s => ?_, fun s => ?_⟩
  · by_cases hs : s = i
    · rw [htab, hs, Function.update_self, ha]
    · rw [htab, Function.update_of_ne hs]
  · by_cases hs : s = i
    · rw [htab, hs, Function.update_self, hf]
    · rw [htab, Function.update_of_ne hs]

end SameSlots

namespace Udp

variable {u : Udp}

theorem udpIn_slots (pkt : UdpPacket) : SameSlots u (u.udpIn pkt).1 := by
  unfold udpIn
  split
  · exact ⟨fun _ => rfl, fun _ => Iff.rfl⟩
  · next i hi =>
    have hu : (u.udptab i).udstate ≠ .UDP_FREE := by
      have := List.find?_some hi
      simp only [Bool.and_eq_true, decide_eq_true_eq] at this
      exact this.1.1
    simp only
    split
    · exact SameSlots.entry (i := i) rfl rfl (by simp [hu])
    · exact SameSlots.entry (i := i) rfl rfl Iff.rfl

theorem dequeue_slots (slot len : Int) (addr : Bool) : SameSlots u (u.dequeue slot len addr).1 := by
  unfold dequeue
  simp only
  split
  · refine SameSlots.entry (i := slot) rfl ?_ ?_
    · split <;> rfl
    · split <;> rfl
  · exact SameSlots.entry (i := slot) rfl rfl Iff.rfl

theorem recv_slots (pid slot len : Int) (timeout : Nat) (addr : Bool) :
    SameSlots u (u.recv pid slot len timeout addr).1 := by
  unfold recv
  split
  · exact SameSlots.refl u
  · split
    · exact SameSlots.refl u
    · next hs =>
      split
      · exact SameSlots.entry (i := slot) rfl rfl (by simp [not_not.mp hs])
      · exact dequeue_slots slot len addr

/-- A receiver that goes on marks its slot, which is not free. -/
theorem wake_slots {slot : Int} (hs : (u.udptab slot).udstate ≠ .UDP_FREE) (len : Int) (addr : Bool) (msg : Int) :
    SameSlots u (u.wake slot len addr msg).1 := by
  have H : SameSlots u (u.setSlot slot { u.udptab slot with udstate := .UDP_USED }) :=
    SameSlots.entry (i := slot) rfl rfl (by simp [hs])
  unfold wake
  simp only
  split
  · exact H
  · split
    · exact H
    · exact H.trans (dequeue_slots slot len addr)

theorem drain_fields (n : Nat) (e : Udpentry) :
    (e.drain n).1.address = e.address ∧ (e.drain n).1.udstate = e.udstate := by
  induction n generalizing e with
  | zero => exact ⟨rfl, rfl⟩
  | succ n ih => exact ih e.advance

/-- `udp_release` frees its slot, or changes nothing of this. -/
theorem udpRelease_slots (slot : Int) : SameSlots u (u.udpRelease slot).1 ∨
    (∀ s, ((u.udpRelease slot).1.udptab s).address = (u.udptab s).address) ∧
      ∀ s, ((u.udpRelease slot).1.udptab s).udstate = .UDP_FREE ↔ s = slot ∨ (u.udptab s).udstate = .UDP_FREE := by
  have hd := drain_fields (u.udptab slot).udcount.toNat (u.udptab slot)
  have hfreed : ∀ {u' : Udp}, u'.udptab = Function.update u.udptab slot
      { ((u.udptab slot).drain (u.udptab slot).udcount.toNat).1 with udstate := .UDP_FREE } →
      (∀ s, (u'.udptab s).address = (u.udptab s).address) ∧
        ∀ s, (u'.udptab s).udstate = .UDP_FREE ↔ s = slot ∨ (u.udptab s).udstate = .UDP_FREE := by
    intro u' htab
    refine ⟨fun s => ?_, fun s => ?_⟩
    · by_cases hs : s = slot
      · rw [htab, hs, Function.update_self]
        exact hd.1
      · rw [htab, Function.update_of_ne hs]
    · by_cases hs : s = slot
      · rw [htab, hs, Function.update_self]
        simp
      · rw [htab, Function.update_of_ne hs]
        simp [hs]
  unfold udpRelease
  split
  · exact Or.inl (SameSlots.refl u)
  · split
    · exact Or.inl (SameSlots.refl u)
    · simp only
      split
      · exact Or.inl (SameSlots.entry (i := slot) rfl hd.1 (by rw [hd.2]))
      · split
        · exact Or.inr (hfreed rfl)
        · exact Or.inr (hfreed rfl)

/-- `udp_register` returns a free slot and gives it addresses that no slot in use has, or changes nothing. -/
theorem udpRegister_slots (remip remport locport : Nat) : SameSlots u (u.udpRegister remip remport locport).1 ∨
    ∃ i e, (u.udpRegister remip remport locport).2 = .ret i ∧ (u.udptab i).udstate = .UDP_FREE ∧
      (u.udpRegister remip remport locport).1.udptab = Function.update u.udptab i e ∧ e.udstate ≠ .UDP_FREE ∧
      ∀ s ∈ udpSlots, (u.udptab s).udstate ≠ .UDP_FREE → (u.udptab s).address ≠ e.address := by
  unfold udpRegister
  simp only
  split
  · exact Or.inl (SameSlots.refl u)
  · next hany =>
    split
    · exact Or.inl (SameSlots.refl u)
    · next i hi =>
      refine Or.inr ⟨i, _, rfl, ?_, rfl, by simp, fun s hs hu ha => hany ?_⟩
      · have := List.find?_some hi
        simpa using this
      · obtain ⟨h1, h2⟩ := Prod.mk.inj ha
        obtain ⟨h2, h3⟩ := Prod.mk.inj h2
        refine List.any_eq_true.mpr ⟨s, hs, ?_⟩
        simp only [Bool.and_eq_true, decide_eq_true_eq]
        exact ⟨⟨⟨hu, h2.symm⟩, h3.symm⟩, h1.symm⟩

end Udp

/-- No two slots in use have the same addresses. -/
def UdpSlots (u : Udp) : Prop := ∀ s ∈ udpSlots, ∀ t ∈ udpSlots, s ≠ t → (u.udptab s).udstate ≠ .UDP_FREE →
  (u.udptab t).udstate ≠ .UDP_FREE → (u.udptab s).address ≠ (u.udptab t).address

namespace Machine

variable (m : Machine udp)

/-- No slot is released on which a process waits. -/
def Vacant : Event udp → Bool
  | .op (.udpRelease slot) => pids.all (fun p => (routines (m.context p)).all (fun f => decide (f.slot ≠ some slot)))
  | _ => true

/-- Nobody waits on a free slot. -/
def Attended : Prop := ∀ p, ∀ f ∈ routines (m.context p), ∀ slot ∈ f.slot, (m.data.udptab slot).udstate ≠ .UDP_FREE

/-- The event is a call of `udp_register` that returns the slot. -/
def Registers (e : Event udp) (s : Int) : Prop :=
  ∃ remip remport locport, e = .op (.udpRegister remip remport locport) ∧
    (Udp.udpRegister m.data remip remport locport).2 = .ret s

end Machine

section

variable {m m' : Machine udp} {e : Event udp} {u : Udp}

theorem UdpSlots.same (D : UdpSlots m.data) (H : SameSlots m.data u) : UdpSlots u := by
  intro s hs t ht hne h1 h2
  rw [H.address, H.address]
  exact D s hs t ht hne (fun e => h1 ((H.free s).mpr e)) (fun e => h2 ((H.free t).mpr e))

/-- What a segment does to the slots: nothing, or it registers or releases one. -/
theorem udp_follows_slots {l : List (Frame UdpPoint)} {x : Udp × Next UdpPoint} (W : m.Attended)
    (hx : Machine.Follows m e l x) :
    SameSlots m.data x.1 ∨
    (∃ i en, m.Registers e i ∧ x.2.routine = none ∧ (m.data.udptab i).udstate = .UDP_FREE ∧
      x.1.udptab = Function.update m.data.udptab i en ∧ en.udstate ≠ .UDP_FREE ∧
      ∀ s ∈ udpSlots, (m.data.udptab s).udstate ≠ .UDP_FREE → (m.data.udptab s).address ≠ en.address) ∨
    ∃ slot, e = .op (.udpRelease slot) ∧ (∀ s, (x.1.udptab s).address = (m.data.udptab s).address) ∧
      ∀ s, (x.1.udptab s).udstate = .UDP_FREE ↔ s = slot ∨ (m.data.udptab s).udstate = .UDP_FREE := by
  cases hx with
  | enter o h =>
    cases o with
    | udpIn pkt => exact Or.inl (Udp.udpIn_slots pkt)
    | udpRegister remip remport locport =>
      rcases Udp.udpRegister_slots (u := m.data) remip remport locport with H | ⟨i, en, h1, h2, h3, h4, h5⟩
      · exact Or.inl H
      · refine Or.inr (Or.inl ⟨i, en, ⟨remip, remport, locport, rfl, h1⟩, ?_, h2, h3, h4, h5⟩)
        show (Udp.udpRegister m.data remip remport locport).2.routine = none
        rw [h1]
        rfl
    | udpRecv slot len timeout => exact Or.inl (Udp.recv_slots _ slot len timeout false)
    | udpRecvaddr slot len timeout => exact Or.inl (Udp.recv_slots _ slot len timeout true)
    | udpRelease slot =>
      rcases Udp.udpRelease_slots (u := m.data) slot with H | ⟨h1, h2⟩
      · exact Or.inl H
      · exact Or.inr (Or.inr ⟨slot, rfl, h1, h2⟩)
  | @callback f l h =>
    have hf : f ∈ routines (m.context m.k.currpid) := by
      rw [show m.context m.k.currpid = _ from h]
      exact List.mem_cons_self
    cases f with
    | cleared => exact Or.inl (SameSlots.refl _)
    | done => exact Or.inl (SameSlots.refl _)
    | waited slot len addr => exact Or.inl (Udp.wake_slots (W _ _ hf slot rfl) len addr 0)
  | @client v f l h =>
    have hf : f ∈ routines (m.context m.k.currpid) := by
      rw [show m.context m.k.currpid = _ from h]
      exact List.mem_cons_self
    cases f with
    | cleared => exact Or.inl (SameSlots.refl _)
    | done => exact Or.inl (SameSlots.refl _)
    | waited slot len addr => exact Or.inl (Udp.wake_slots (W _ _ hf slot rfl) len addr v)

theorem dequeue_point {slot len : Int} {addr : Bool} : ∀ f ∈ (u.dequeue slot len addr).2.routine, f.slot = none := by
  unfold Udp.dequeue
  simp only
  split
  · simp [Next.routine]
  · simp [Next.routine, UdpPoint.slot]

/-- A routine goes on only at a slot that is not free. -/
theorem udp_follows_point {l : List (Frame UdpPoint)} {x : Udp × Next UdpPoint} (W : m.Attended)
    (hx : Machine.Follows m e l x) : ∀ f ∈ x.2.routine, ∀ slot ∈ f.slot, (x.1.udptab slot).udstate ≠ .UDP_FREE := by
  have hnone : ∀ {x : Udp × Next UdpPoint}, (∀ f ∈ x.2.routine, f.slot = none) →
      ∀ f ∈ x.2.routine, ∀ slot ∈ f.slot, (x.1.udptab slot).udstate ≠ .UDP_FREE := by
    intro x hx f hf slot hs
    rw [hx f hf] at hs
    cases hs
  have hrecv : ∀ pid slot len timeout addr, ∀ f ∈ (Udp.recv m.data pid slot len timeout addr).2.routine, ∀ s ∈ f.slot,
      ((Udp.recv m.data pid slot len timeout addr).1.udptab s).udstate ≠ .UDP_FREE := by
    intro pid slot len timeout addr
    unfold Udp.recv
    split
    · exact hnone (by simp [Next.routine])
    · split
      · exact hnone (by simp [Next.routine])
      · split
        · intro f hf s hs
          obtain rfl : _ = f := Option.some.inj hf
          obtain rfl : slot = s := Option.some.inj hs
          simp [Udp.setSlot]
        · exact hnone dequeue_point
  have hwake : ∀ slot len addr msg, ∀ f ∈ (Udp.wake m.data slot len addr msg).2.routine, f.slot = none := by
    intro slot len addr msg
    unfold Udp.wake
    simp only
    split
    · simp [Next.routine]
    · split
      · simp [Next.routine]
      · exact dequeue_point
  cases hx with
  | enter o h =>
    cases o with
    | udpIn pkt =>
      refine hnone ?_
      show ∀ f ∈ (Udp.udpIn m.data pkt).2.routine, f.slot = none
      unfold Udp.udpIn
      split
      · simp [Next.routine, UdpPoint.slot]
      · simp only
        split <;> simp [Next.routine, UdpPoint.slot]
    | udpRegister remip remport locport =>
      refine hnone ?_
      show ∀ f ∈ (Udp.udpRegister m.data remip remport locport).2.routine, f.slot = none
      unfold Udp.udpRegister
      simp only
      split
      · simp [Next.routine]
      · split <;> simp [Next.routine]
    | udpRecv slot len timeout => exact hrecv _ slot len timeout false
    | udpRecvaddr slot len timeout => exact hrecv _ slot len timeout true
    | udpRelease slot =>
      refine hnone ?_
      show ∀ f ∈ (Udp.udpRelease m.data slot).2.routine, f.slot = none
      unfold Udp.udpRelease
      split
      · simp [Next.routine]
      · split
        · simp [Next.routine]
        · simp only
          split
          · simp [Next.routine]
          · split <;> simp [Next.routine, UdpPoint.slot]
  | @callback f l h =>
    have hf : f ∈ routines (m.context m.k.currpid) := by
      rw [show m.context m.k.currpid = _ from h]
      exact List.mem_cons_self
    cases f with
    | cleared slot len timeout addr =>
      intro f' hf' s hs
      obtain rfl : _ = f' := Option.some.inj hf'
      exact W _ _ hf s hs
    | done => exact hnone (by simp [Next.routine])
    | waited slot len addr => exact hnone (hwake slot len addr 0)
  | @client v f l h =>
    have hf : f ∈ routines (m.context m.k.currpid) := by
      rw [show m.context m.k.currpid = _ from h]
      exact List.mem_cons_self
    cases f with
    | cleared slot len timeout addr =>
      intro f' hf' s hs
      obtain rfl : _ = f' := Option.some.inj hf'
      exact W _ _ hf s hs
    | done => exact hnone (by simp [Next.routine])
    | waited slot len addr => exact hnone (hwake slot len addr v)

/-- A segment keeps the slots, if it releases none on which a process waits. -/
theorem udp_segment_slots {h : Kernel QLists} {l : List (Frame UdpPoint)} {x : Udp × Next UdpPoint} (St : Steady m h)
    (hv : m.Vacant e = true) (D : UdpSlots m.data) (W : m.Attended) (hx : Machine.Follows m e l x) (hd : m'.data = x.1)
    (hf : ∀ p, ∀ f ∈ routines (m'.context p), f ∈ routines (m.context p) ∨ f ∈ x.2.routine) :
    UdpSlots m'.data ∧ m'.Attended := by
  have hpoint := udp_follows_point W hx
  -- a routine that goes on at a new point needs no more; one that waits elsewhere does
  have hold : (∀ p, ∀ f ∈ routines (m.context p), ∀ slot ∈ f.slot, (x.1.udptab slot).udstate ≠ .UDP_FREE) → m'.Attended := by
    intro ho p f hp slot hs
    rw [hd]
    rcases hf p f hp with hp | hp
    · exact ho p f hp slot hs
    · exact hpoint f hp slot hs
  rw [hd]
  rcases udp_follows_slots W hx with H | ⟨i, en, _, _, h2, h3, h4, h5⟩ | ⟨slot, he, h1, h2⟩
  · exact ⟨D.same H, hold (fun p f hp slot hs e => W p f hp slot hs ((H.free slot).mp e))⟩
  · have hother : ∀ s, s ≠ i → x.1.udptab s = m.data.udptab s := by
      intro s hs
      rw [h3, Function.update_of_ne hs]
    have hself : x.1.udptab i = en := by
      rw [h3, Function.update_self]
    refine ⟨fun s hs t ht hne hu1 hu2 => ?_, hold (fun p f hp slot hs => ?_)⟩
    · by_cases hsi : s = i
      · have hti : t ≠ i := fun e => hne (hsi.trans e.symm)
        rw [hother t hti] at hu2 ⊢
        rw [hsi, hself]
        exact Ne.symm (h5 t ht hu2)
      · rw [hother s hsi] at hu1 ⊢
        by_cases hti : t = i
        · rw [hti, hself]
          exact h5 s hs hu1
        · rw [hother t hti] at hu2 ⊢
          exact D s hs t ht hne hu1 hu2
    · have hu := W p f hp slot hs
      rw [hother slot (fun e => hu (e ▸ h2))]
      exact hu
  · subst he
    refine ⟨fun s hs t ht hne hu1 hu2 => ?_, hold (fun p f hp s hs hfree => ?_)⟩
    · rw [h1 s, h1 t]
      exact D s hs t ht hne (fun e => hu1 ((h2 s).mpr (Or.inr e))) (fun e => hu2 ((h2 t).mpr (Or.inr e)))
    · rcases (h2 s).mp hfree with rfl | e
      · -- nobody waits on the slot that is released
        by_cases hpid : IsPid p
        · have := List.all_eq_true.mp (List.all_eq_true.mp hv p (mem_pids.mpr hpid)) f hp
          exact absurd hs (of_decide_eq_true this)
        · rw [St.freed p (St.inv.outside p hpid)] at hp
          cases hp
      · exact W p f hp s hs e

/-- An event keeps the slots. -/
theorem udp_step_slots {h : Kernel QLists} (St : Steady m h) (hv : m.Vacant e = true) (hs : m.step e = some m')
    (D : UdpSlots m.data) (W : m.Attended) : UdpSlots m'.data ∧ m'.Attended := by
  cases Machine.step_segment hs with
  | quiet hd hf =>
    refine ⟨hd ▸ D, fun p f hp slot hslot => ?_⟩
    rw [hd]
    exact W p f (hf p ▸ hp) slot hslot
  | killed pid hd hf =>
    refine ⟨hd ▸ D, fun p f hp slot hslot => ?_⟩
    rw [hd]
    rw [hf p] at hp
    split at hp
    · cases hp
    · exact W p f hp slot hslot
  | stopped l d s hx hd hf =>
    exact udp_segment_slots St hv D W hx hd (fun p f hp => Or.inl (hf p ▸ hp))
  | library l x hx hd hf =>
    refine udp_segment_slots St hv D W hx hd (fun p f hp => ?_)
    rw [hf p] at hp
    split at hp
    · next hpc =>
      rcases List.mem_append.mp hp with hp | hp
      · exact Or.inr (Option.mem_toList.mp hp)
      · exact Or.inl (hpc ▸ hx.routines_sub f hp)
    · exact Or.inl hp

/-- A free slot is in use after an event only if `udp_register` returns it. -/
theorem udp_step_registers (W : m.Attended) (hs : m.step e = some m') {s : Int}
    (h0 : (m.data.udptab s).udstate = .UDP_FREE) (h1 : (m'.data.udptab s).udstate ≠ .UDP_FREE) : m.Registers e s := by
  have hx : ∀ {l : List (Frame UdpPoint)} {x : Udp × Next UdpPoint}, Machine.Follows m e l x → m'.data = x.1 →
      m.Registers e s := by
    intro l x hx hd
    rw [hd] at h1
    rcases udp_follows_slots W hx with H | ⟨i, en, hr, _, _, h3, _, _⟩ | ⟨slot, _, _, h2⟩
    · exact absurd ((H.free s).mpr h0) h1
    · by_cases hsi : s = i
      · rw [hsi]
        exact hr
      · rw [h3, Function.update_of_ne hsi] at h1
        exact absurd h0 h1
    · exact absurd ((h2 s).mpr (Or.inr h0)) h1
  cases Machine.step_segment hs with
  | quiet hd => exact absurd h0 (hd ▸ h1)
  | killed pid hd => exact absurd h0 (hd ▸ h1)
  | stopped l d st hx' hd => exact hx hx' hd
  | library l x hx' hd => exact hx hx' hd

end

/-- In every run in which no slot is released on which a process waits, no two slots in use have the same addresses, and a free
slot stays free until `udp_register` returns it. -/
theorem udp_slots (netbufsem : Int) (minheap maxheap : Nat) {m : Machine udp}
    (r : Machine.Reach (fun m e => m.Lawful e ∧ m.Vacant e = true) (boot udp (Udp.udpInit netbufsem) minheap maxheap) m) :
    UdpSlots m.data ∧ ∀ e m' s, m.Lawful e → m.Vacant e = true → m.step e = some m' →
      (m.data.udptab s).udstate = .UDP_FREE → (m'.data.udptab s).udstate ≠ .UDP_FREE → m.Registers e s := by
  have hrun : ∃ h, Steady m h ∧ UdpSlots m.data ∧ m.Attended := by
    induction r with
    | refl =>
      refine ⟨_, boot_steady _ minheap maxheap, fun s _ t _ _ h1 => absurd rfl h1, fun p f hp => ?_⟩
      cases hp
    | step e _ hok hs ih =>
      obtain ⟨h, St, D, W⟩ := ih
      obtain ⟨h', St', _⟩ := step_does St hs hok.1
      exact ⟨h', St', udp_step_slots St hok.2 hs D W⟩
  obtain ⟨h, St, D, W⟩ := hrun
  exact ⟨D, fun e m' s _ _ hs h0 h1 => udp_step_registers W hs h0 h1⟩

/-- A process registers two ports, waits for a packet on one of them until the time is over, and releases the slot. -/
def udpReleased : List (Event udp) :=
  [.call (.create 400 20), .cont, .call (.resume 1), .op (.udpRegister 0 0 9), .op (.udpRegister 0 0 10),
    .op (.udpRecv 0 10 1), .cont, .cont, .tick, .cont, .cont, .op (.udpRelease 0)]

/-- The slots in a run in which a slot is released after a process has waited on it. -/
theorem udp_slots_released :
    ∃ m, Machine.Reach (fun m e => m.Lawful e ∧ m.Vacant e = true) (boot udp (Udp.udpInit 0) 4096 1048576) m ∧
      (m.data.udptab 0).udstate = .UDP_FREE ∧ UdpSlots m.data := by
  obtain ⟨m, r, hf⟩ := Machine.reach_of_evaluates Forcing.udpMachine (fun m e => m.Lawful e ∧ m.Vacant e = true)
    (boot udp (Udp.udpInit 0) 4096 1048576) udpReleased (fun m => decide ((m.data.udptab 0).udstate = .UDP_FREE))
    (by decide +kernel)
  exact ⟨m, r, of_decide_eq_true hf, (udp_slots 0 4096 1048576 r).1⟩

/-- A slot is released while a process waits on it, and then its time is over. -/
def udpReleasedEarly : List (Event udp) :=
  [.call (.create 400 20), .cont, .call (.resume 1), .op (.udpRegister 0 0 9), .op (.udpRecv 0 10 1), .cont, .cont,
    .op (.udpRelease 0), .tick, .cont]

/-- The process marks the free slot as used. -/
theorem udp_slots_released_early :
    ∃ m, Machine.Reach Machine.Lawful (boot udp (Udp.udpInit 0) 4096 1048576) m ∧ (m.data.udptab 0).udstate = .UDP_FREE ∧
      ∃ m', m.step .cont = some m' ∧ (m'.data.udptab 0).udstate ≠ .UDP_FREE ∧ ¬m.Registers .cont 0 := by
  obtain ⟨m, r, hf⟩ := Machine.reach_of_evaluates Forcing.udpMachine Machine.Lawful (boot udp (Udp.udpInit 0) 4096 1048576)
    udpReleasedEarly
    (fun m => decide ((m.data.udptab 0).udstate = .UDP_FREE) &&
      (m.step .cont).any (fun m' : Machine udp => decide ((m'.data.udptab 0).udstate ≠ .UDP_FREE)))
    (by decide +kernel)
  rw [Bool.and_eq_true, decide_eq_true_eq, Option.any_eq_true] at hf
  obtain ⟨h0, m', hs, h1⟩ := hf
  refine ⟨m, r, h0, m', hs, of_decide_eq_true h1, ?_⟩
  rintro ⟨_, _, _, he, _⟩
  cases he

end Xinu
