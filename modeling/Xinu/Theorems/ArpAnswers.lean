import Xinu.Theorems.ArpCache

/-!
# What `arp_resolve` returns

`arp_resolve` takes any message for the notice that its entry is resolved, and does not look at the entry before it returns the
hardware address; on the message `SYSERR` it leaves the entry as it is. Where neither happens, every hardware address that is
returned was heard, and an `arp_resolve` that fails leaves no entry behind that waits.
-/

namespace Xinu

namespace Arp

/-- The process waits in the entry for the hardware address. -/
def Arpentry.Awaits (e : Arpentry) (nxthop : Nat) (pid : Int) : Prop :=
  e.arstate = .AR_PENDING ∧ e.arpaddr = nxthop ∧ e.arpid = pid

instance (e : Arpentry) (nxthop : Nat) (pid : Int) : Decidable (e.Awaits nxthop pid) :=
  inferInstanceAs (Decidable (_ ∧ _ ∧ _))

/-- Every answer was heard before in a packet from the address. -/
def AnswersHeard (log : List Obs) : Prop :=
  ∀ l₁ l₂ pid nxthop mac, log = l₁ ++ .answered pid nxthop mac :: l₂ → .heard nxthop mac ∈ l₂

theorem AnswersHeard.nil : AnswersHeard [] := by
  intro l₁ l₂ pid nxthop mac h
  exact absurd h.symm (List.append_ne_nil_of_right_ne_nil _ (List.cons_ne_nil _ _))

/-- A record keeps the law when its answer, if it is one, was heard. -/
theorem AnswersHeard.cons {log : List Obs} {o : Obs} (H : AnswersHeard log)
    (ho : ∀ pid nxthop mac, o = .answered pid nxthop mac → .heard nxthop mac ∈ log) : AnswersHeard (o :: log) := by
  intro l₁ l₂ pid nxthop mac h
  cases l₁ with
  | nil =>
    obtain ⟨h1, rfl⟩ := List.cons.inj h
    exact ho pid nxthop mac h1
  | cons o' l₁ => exact H l₁ l₂ pid nxthop mac (List.cons.inj h).2

/-- The slot and the address of an `arp_resolve` in progress. -/
def Point.asks : Point → Option (Nat × Nat)
  | .cleared slot nxthop | .written slot nxthop _ | .received slot nxthop _ => some (slot, nxthop)
  | .informed _ | .replied | .done _ => none

namespace Table

variable {d : Table} {slot : Nat}

/-- The hardware address of an entry that is resolved was heard. -/
theorem Sound.heard (H : d.Sound) (hr : (d.arpcache slot).arstate = .AR_RESOLVED) :
    .heard (d.arpcache slot).arpaddr (d.arpcache slot).arhaddr ∈ d.log := by
  obtain ⟨o, ho, hpick⟩ := mem_since (List.mem_of_getLast? (H.latest slot hr))
  cases o with
  | heard sndpa sndha =>
    simp only [Obs.heardFrom, Option.ite_none_right_eq_some, Option.some.injEq] at hpick
    obtain ⟨rfl, rfl⟩ := hpick
    exact ho
  | created s | answered p a mac => cases hpick

/-- The entry of the slot is the only one in which the process waits for the address. -/
def Sole (d : Table) (pid : Int) (f : Point) : Prop :=
  ∀ slot nxthop, f.asks = some (slot, nxthop) → ∀ j, (d.arpcache j).Awaits nxthop pid → j = slot

/-- The entries in which other processes wait are old ones. -/
def Others (d : Table) (pid : Int) (d' : Table) : Prop :=
  ∀ j, (d'.arpcache j).arstate = .AR_PENDING → (d'.arpcache j).arpid ≠ pid → d'.arpcache j = d.arpcache j

theorem Others.sole {d' : Table} {pid p : Int} {f : Point} (h : d.Others pid d') (hp : p ≠ pid) (H : d.Sole p f) : d'.Sole p f := by
  intro slot nxthop hf j hj
  obtain ⟨hstate, haddr, hpid⟩ := hj
  have hsame := h j hstate (hpid ▸ hp)
  rw [hsame] at hstate haddr hpid
  exact H slot nxthop hf j ⟨hstate, haddr, hpid⟩

/-! ## Segments -/

/-- The records of `arp_in` are no answers. -/
theorem arpRequest_heard (H : AnswersHeard d.log) (pkt : Netpacket) (found : Bool) : AnswersHeard (d.arpRequest pkt found).1.log := by
  unfold Table.arpRequest freebuf
  split_ifs
  · exact H
  · exact H
  · exact H
  · split
    · exact H
    · exact H.cons nofun

/-- A packet that arrives keeps the law. -/
theorem arpIn_heard (H : AnswersHeard d.log) (pktptr : Netpacket) : AnswersHeard (d.arpIn pktptr).1.log := by
  unfold Table.arpIn
  simp only
  split_ifs
  · exact H
  · split
    · split_ifs
      · exact H.cons nofun
      · rw [arpRequest_found]
        exact H.cons nofun
    · exact (arpRequest_heard H _ _).cons nofun

/-- What `arp_resolve` finds in the cache was heard. -/
theorem arpResolve_heard (S : d.Sound) (H : AnswersHeard d.log) (pid : Int) (nxthop : Nat) :
    AnswersHeard (d.arpResolve pid nxthop).1.log := by
  unfold Table.arpResolve
  simp only
  split_ifs
  · exact H
  · exact H
  · split
    · next i hfound =>
      obtain ⟨-, -, haddr⟩ := search_some hfound
      split_ifs with hr
      · refine H.cons fun pid' nxthop' mac h => ?_
        obtain ⟨-, rfl, rfl⟩ := Obs.answered.inj h
        exact haddr ▸ S.heard hr
      · exact H
    · split
      · exact H
      · exact H.cons nofun

/-- An answer is heard when the entry is resolved for the address. -/
theorem received_heard (S : d.Sound) (H : AnswersHeard d.log) (pid : Int) (nxthop i : Nat) (msg : Int)
    (hok : int32 msg ≠ TIMEOUT → int32 msg ≠ SYSERR →
      (d.arpcache slot).arstate = .AR_RESOLVED ∧ (d.arpcache slot).arpaddr = nxthop) :
    AnswersHeard (d.received pid slot nxthop i msg).1.log := by
  unfold Table.received
  simp only
  split_ifs with h1 h2 h3
  · exact H
  · exact H
  · exact H
  · obtain ⟨hr, haddr⟩ := hok h1 h3
    refine H.cons fun pid' nxthop' mac h => ?_
    obtain ⟨-, rfl, rfl⟩ := Obs.answered.inj h
    exact haddr ▸ S.heard hr

/-- The cache is as it was. -/
theorem Others.same {d' : Table} (htab : d'.arpcache = d.arpcache) (pid : Int) : d.Others pid d' := by
  intro j _ _
  rw [htab]

/-- One entry changes, which does not wait, or for this process. -/
theorem Others.update {d' : Table} {e : Arpentry} {pid : Int} (htab : d'.arpcache = Function.update d.arpcache slot e)
    (he : e.arstate = .AR_PENDING → e.arpid = pid) : d.Others pid d' := by
  intro j hj hpid
  rw [htab] at hj hpid ⊢
  by_cases h : j = slot
  · rw [h, Function.update_self] at hj hpid
    exact absurd (he hj) hpid
  · exact Function.update_of_ne h _ _

/-- What a segment of `arp_resolve` or `arp_in` does that the process runs. -/
structure Segment (d : Table) (pid : Int) (x : Table × Next Point) : Prop where
  others : d.Others pid x.1
  sole : ∀ f, x.2.routine = some f → x.1.Sole pid f
  kill : ∀ p f, x.2 ≠ .call (.kill p) f
  callback : ∀ f, x.2 ≠ .callback f
  stop : ∀ st, x.2 ≠ .stop st

variable {d' : Table} {pid : Int}

/-- The segment ends with the routine. -/
theorem Segment.ret (h : d.Others pid d') (v : Int) : d.Segment pid (d', .ret v) := ⟨h, nofun, nofun, nofun, nofun⟩

/-- The routine ends, and the cache is as it was. -/
theorem Segment.same (v : Int) (htab : d'.arpcache = d.arpcache) : d.Segment pid (d', .ret v) := Segment.ret (Others.same htab pid) v

/-- The segment ends with a system call. -/
theorem Segment.call {c : Call} {f : Point} (h : d.Others pid d') (hsole : d'.Sole pid f) (hk : ∀ p, c ≠ .kill p) :
    d.Segment pid (d', .call c f) := by
  refine ⟨h, fun g hg => ?_, fun p g hc => ?_, nofun, nofun⟩
  · obtain rfl := Option.some.inj hg
    exact hsole
  · exact hk p (Next.call.inj hc).1

/-- A routine of `arp_in` waits in no entry. -/
theorem sole_of_asks {f : Point} (hf : f.asks = none) : d.Sole pid f := by
  intro slot nxthop h
  rw [hf] at h
  cases h

theorem freebuf_segment (h : d.Others pid d') : d.Segment pid d'.freebuf := Segment.call h (sole_of_asks rfl) nofun

/-- The end of `arp_in`; the new entry is resolved. -/
theorem arpRequest_segment (h : d.Others pid d') (pkt : Netpacket) : d.Segment pid (d'.arpRequest pkt true) := by
  unfold Table.arpRequest
  split_ifs with h1 h2 h3
  · exact freebuf_segment h
  · exact freebuf_segment h
  · exact Segment.call h (sole_of_asks rfl) nofun
  · exact absurd rfl h3

/-- `arp_resolve` for an address that is not in the table, up to its call. -/
theorem arpRequest_new (d : Table) (pid : Int) (pkt : Netpacket) (o : Obs) :
    d.Segment pid ((d.arpRequest pkt false).1.note o, (d.arpRequest pkt false).2) := by
  have hsame : d.Others pid (d.note o) := Others.same rfl pid
  unfold Table.arpRequest
  split_ifs with h1 h2 h3
  · exact Segment.call hsame (sole_of_asks rfl) nofun
  · exact Segment.call hsame (sole_of_asks rfl) nofun
  · cases h3
  · split
    · exact Segment.call hsame (sole_of_asks rfl) nofun
    · next s cache halloc =>
      obtain ⟨-, -, rfl⟩ := arpAlloc_some halloc
      exact Segment.call (Others.update (Function.update_idem _ _ _) nofun) (sole_of_asks rfl) nofun

/-- No entry begins to wait in `arp_in`. -/
theorem arpIn_segment (d : Table) (pid : Int) (pktptr : Netpacket) : d.Segment pid (d.arpIn pktptr) := by
  unfold Table.arpIn
  simp only
  split_ifs
  · exact freebuf_segment (Others.same rfl pid)
  · split
    · next s hfound =>
      split_ifs with hp
      · exact Segment.call (Others.update rfl nofun) (sole_of_asks rfl) nofun
      · refine arpRequest_segment ?_ _
        refine Others.update (e := ⟨(d.arpcache s).arstate, (d.arpcache s).arpaddr, (d.arpcache s).arpid,
          haddr (arpNtoh pktptr) arp_sndha⟩) rfl fun h => absurd h hp
    · exact arpRequest_new d pid _ _

/-- The new entry of `arp_resolve` waits for the process that calls it, and is the only one for its address. -/
theorem arpResolve_segment (S : d.Sound) (pid : Int) (nxthop : Nat) : d.Segment pid (d.arpResolve pid nxthop) := by
  have S' := S.arpResolve pid nxthop
  revert S'
  unfold Table.arpResolve
  simp only
  split_ifs
  · exact fun _ => Segment.same _ rfl
  · exact fun _ => Segment.same _ rfl
  · split
    · split_ifs
      · exact fun _ => Segment.same _ rfl
      · exact fun _ => Segment.same _ rfl
    · split
      · exact fun _ => Segment.same _ rfl
      · next s cache halloc =>
        intro S'
        obtain ⟨-, -, rfl⟩ := arpAlloc_some halloc
        refine Segment.call (Others.update (Function.update_idem _ _ _) fun _ => rfl) (fun slot addr hf j hj => ?_) nofun
        obtain ⟨rfl, rfl⟩ := Prod.mk.inj (Option.some.inj hf)
        obtain ⟨hstate, haddr, -⟩ := hj
        refine S'.unique j s (by rw [hstate]; nofun) ?_ ?_
        · simp [note, setSlot]
        · simpa [note, setSlot] using haddr

theorem received_syserr {slot nxthop i : Nat} {msg : Int} (hmsg : int32 msg = SYSERR) :
    d.received pid slot nxthop i msg = (d, .ret SYSERR) := by
  simp only [Table.received, hmsg]
  rfl

/-- The failures of `arp_resolve` once it waits: the entry of its slot is freed, or left as it is on the message `SYSERR`. -/
theorem received_ret {slot nxthop i : Nat} {msg v : Int} (h : d.received pid slot nxthop i msg = (d', .ret v)) (hv : v ≠ OK) :
    d' = d.setSlot slot { d.arpcache slot with arstate := .AR_FREE } ∨ int32 msg = SYSERR ∧ d' = d := by
  unfold Table.received at h
  simp only at h
  split_ifs at h with h1 h2 h3
  · cases (Prod.mk.inj h).2
  · exact Or.inl (Prod.mk.inj h).1.symm
  · exact Or.inr ⟨h3, (Prod.mk.inj h).1.symm⟩
  · exact absurd (Next.ret.inj (Prod.mk.inj h).2).symm hv

/-- `arp_resolve` behind the message it gets. -/
theorem received_segment (slot nxthop i : Nat) (msg : Int) (H : d.Sole pid (.received slot nxthop i)) :
    d.Segment pid (d.received pid slot nxthop i msg) := by
  unfold Table.received
  simp only
  split_ifs
  · exact Segment.call (Others.same rfl pid) H nofun
  · refine Segment.ret (Others.update rfl fun h => ?_) _
    cases h
  · exact Segment.same _ rfl
  · exact Segment.same _ rfl

end Table

end Arp

open Arp

/-- When `arp_resolve` takes a message for the notice that its entry is resolved, the entry of its slot is resolved, and for its
address. -/
def Machine.Told (m : Machine arp) (e : Event arp) : Bool :=
  match m.resumed e with
  | some (.received slot nxthop _, msg) =>
    decide (int32 msg = TIMEOUT ∨ int32 msg = SYSERR ∨
      (m.data.arpcache slot).arstate = .AR_RESOLVED ∧ (m.data.arpcache slot).arpaddr = nxthop)
  | _ => true

/-- `arp_resolve` receives the message `SYSERR` while it waits in the entry of its slot. -/
def Machine.Stranded (m : Machine arp) (e : Event arp) : Bool :=
  match m.resumed e with
  | some (.received slot nxthop _, msg) =>
    decide (int32 msg = SYSERR ∧ (m.data.arpcache slot).Awaits nxthop m.k.currpid)
  | _ => false

/-- Where `arp_resolve` returns `SYSERR` or `TIMEOUT` after it has created an entry, none is left in which the process waits for the
address. -/
def Machine.Clears (m : Machine arp) (e : Event arp) : Prop :=
  ∀ slot nxthop i msg d v, m.resumed e = some (.received slot nxthop i, msg) → m.segment e = some (d, .ret v) → v ≠ OK →
    ∀ j, ¬(d.arpcache j).Awaits nxthop m.k.currpid

section Runs

variable {m m' : Machine arp} {e : Event arp}

/-- What holds between events. -/
structure Asking (m : Machine arp) : Prop where
  sound : m.data.Sound
  leaf : ∀ p, Leaf (m.context p)
  sole : ∀ p, ∀ f ∈ routines (m.context p), m.data.Sole p f

/-- Every segment of every event. -/
theorem Asking.segment (I : Asking m) {x : Table × Next Point} (hx : m.segment e = some x) :
    m.data.Segment m.k.currpid x := by
  have hsame : m.data.Others m.k.currpid m.data := Table.Others.same rfl _
  cases e with
  | call c | tick => cases hx
  | op o =>
    obtain rfl := Option.some.inj hx
    cases o with
    | arpResolve nxthop => exact Table.arpResolve_segment I.sound _ nxthop
    | arpIn pktptr => exact Table.arpIn_segment _ _ pktptr
    | configure netData => exact Table.Segment.same OK rfl
  | ret | cont =>
    obtain ⟨⟨f, v⟩, hr, rfl⟩ := Option.map_eq_some_iff.mp hx
    have hsole := I.sole _ f (Machine.resumed_mem hr)
    cases f with
    | cleared slot nxthop => exact Table.Segment.call hsame hsole nofun
    | written slot nxthop i => exact Table.Segment.call hsame hsole nofun
    | received slot nxthop i => exact Table.received_segment slot nxthop i v hsole
    | informed pkt => exact Table.arpRequest_segment hsame pkt
    | replied => exact Table.freebuf_segment hsame
    | done w => exact Table.Segment.same w rfl

/-- Every event keeps the invariant. -/
theorem Asking.step (I : Asking m) (hs : m.step e = some m') : Asking m' := by
  refine ⟨sound_step hs I.sound, Machine.leaf_step hs I.leaf ⟨fun d f hx => ?_, fun d pid f hx => ?_⟩, ?_⟩
  · exact (I.segment hx).callback f rfl
  · exact (I.segment hx).kill pid f rfl
  · refine Machine.step_owned hs (I.leaf _) I.sole (fun x f hx hf => ?_) (fun x hx p hp f hf => ?_) fun d st hx => ?_
    · exact (I.segment hx).sole f hf
    · exact (I.segment hx).others.sole hp (I.sole p f hf)
    · exact (I.segment hx).stop st rfl

theorem asking_boot (netData : Ip.Network) (osem netbufsem : Int) (minheap maxheap : Nat) :
    Asking (boot arp (Table.init netData osem netbufsem) minheap maxheap) :=
  ⟨Table.Sound.init netData osem netbufsem, fun _ => Leaf.nil, fun _ _ hf => nomatch hf⟩

theorem asking_run (netData : Ip.Network) (osem netbufsem : Int) (minheap maxheap : Nat) {ok : Machine arp → Event arp → Prop}
    (r : Machine.Reach ok (boot arp (Table.init netData osem netbufsem) minheap maxheap) m) : Asking m := by
  induction r with
  | refl => exact asking_boot netData osem netbufsem minheap maxheap
  | step e _ _ hs ih => exact ih.step hs

/-- An `arp_resolve` that fails leaves an entry in which it waits exactly when it receives `SYSERR` while it does. -/
theorem Asking.clears (I : Asking m) : m.Clears e ↔ m.Stranded e = false := by
  constructor
  · intro h
    unfold Machine.Stranded
    split
    · next slot nxthop i msg hr =>
      refine decide_eq_false fun ⟨hsys, haw⟩ => ?_
      have hseg : m.segment e = some (m.data, .ret SYSERR) :=
        (Machine.segment_resumed hr).trans (congrArg some (Table.received_syserr hsys))
      exact h slot nxthop i msg m.data SYSERR hr hseg (by decide) slot haw
    · rfl
  · intro h slot nxthop i msg d v hr hseg hv j hj
    have hsole := I.sole _ _ (Machine.resumed_mem hr) slot nxthop rfl
    rw [Machine.segment_resumed hr] at hseg
    rcases Table.received_ret (Option.some.inj hseg) hv with rfl | ⟨hsys, rfl⟩
    · by_cases hjs : j = slot
      · rw [hjs] at hj
        simp [Table.setSlot, Arpentry.Awaits] at hj
      · simp only [Table.setSlot, Function.update_of_ne hjs] at hj
        exact hjs (hsole j hj)
    · simp only [Machine.Stranded, hr, decide_eq_false_iff_not] at h
      exact h ⟨hsys, hsole j hj ▸ hj⟩

/-- The answers stay heard. -/
theorem Asking.heard (I : Asking m) (hs : m.step e = some m') (htold : m.Told e = true) (H : AnswersHeard m.data.log) :
    AnswersHeard m'.data.log := by
  refine arp_segment_cases (P := fun d => AnswersHeard d.log) hs H (fun nxthop _ => ?_) (fun pktptr _ => ?_) (fun _ _ => H)
    (fun slot nxthop i msg hr => ?_)
  · exact Table.arpResolve_heard I.sound H _ nxthop
  · exact Table.arpIn_heard H pktptr
  · refine Table.received_heard I.sound H _ nxthop i msg fun h1 h2 => ?_
    simp only [Machine.Told, hr, decide_eq_true_eq] at htold
    exact (htold.resolve_left h1).resolve_left h2

end Runs

end Xinu
