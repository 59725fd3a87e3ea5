import Xinu.Kernel.Storage
import Xinu.Message.PortRuns

/-!
# The nodes of the ports

Behind `ptinit` every node is on the free list, on the list of a port in use, or on the list of a port that is being reset or deleted,
which `_ptclear` has not yet spliced into the free list.
-/

namespace Xinu

open Port

/-- The machine when `ptinit`, the first routine that is called, has returned or has stopped the processor. -/
def ptinited (maxmsgs : Int) (minheap maxheap : Nat) : Option (Machine ports) :=
  ((boot ports Ports.init minheap maxheap).step (.op (.ptinit maxmsgs))).bind fun m => m.step .cont

/-- The node that `ptinit` links as number `k`, when `getmem` has returned `buf`. -/
def Port.nodeAt (buf k : Nat) : Nat := (buf + nodeSize * k) % 4294967296

/-- `ptcreate` has taken the port and calls `semcreate`; no other process runs in between. -/
def Machine.Making (m : Machine ports) (p : Int) : Prop :=
  ∃ x c, Point.gotssem p c ∈ routines (m.context x) ∨ Point.gotrsem p c ∈ routines (m.context x)

/-- `_ptclear` calls the procedure for the messages of the port. -/
def Machine.Disposing (m : Machine ports) (p : Int) : Prop :=
  ∃ x newstate walk, Point.disposing p newstate walk ∈ routines (m.context x)

/-- `_ptclear` is behind the splice. -/
def Machine.Releasing (m : Machine ports) (p : Int) : Prop :=
  ∃ x newstate, Point.released p newstate ∈ routines (m.context x) ∨ Point.cleared p newstate ∈ routines (m.context x)

/-- The nodes on the lists `own`, of which `own none` is the free list, are the `n` nodes from `buf` on. -/
structure Machine.Conserved (m : Machine ports) (own : Option Int → List (Nat × Nat)) (buf n : Nat) : Prop where
  free : m.data.Linked m.data.ptfree (own none)
  alloc : ∀ p, (m.data.porttab p).ptstate = .PT_ALLOC → ¬m.Making p → m.data.Queue p (own (some p))
  limbo : ∀ p, (m.data.porttab p).ptstate = .PT_LIMBO → own (some p) = [] ∨ m.data.Queue p (own (some p))
  disposing : ∀ p, m.Disposing p → (m.data.porttab p).ptstate = .PT_LIMBO ∧ m.data.Queue p (own (some p))
  releasing : ∀ p, m.Releasing p → (m.data.porttab p).ptstate = .PT_LIMBO ∧ own (some p) = []
  rest : ∀ p, (m.data.porttab p).ptstate = .PT_FREE ∨ m.Making p → own (some p) = []
  spread : Table.Spread fun i => (own i).map Prod.fst
  nodes : ∀ a, (∃ i, a ∈ (own i).map Prod.fst) ↔ ∃ k < n, a = nodeAt buf k
  distinct : ∀ j k, j < n → k < n → nodeAt buf j = nodeAt buf k → j = k

section Lists

variable {m : Machine ports} {own own' : Option Int → List (Nat × Nat)} {st : Int → Stage} {loc : Int → Int × Nat} {p : Int}
  {f : Point} {σ : Stage}

/-- The stage of a port that a routine on some stack works on. -/
theorem PortsOk.at_stage (I : PortsOk m own st loc) {x : Int} (hf : f ∈ routines (m.context x)) (hs : f.stage = some (p, σ)) :
    m.data.At p (own (some p)) σ := by
  obtain ⟨i, hi⟩ := List.getElem?_of_mem (List.mem_reverse.mpr hf)
  obtain ⟨hp, hst, _⟩ := (I.frames x i f hi).2 p σ hs
  exact hst ▸ I.sound.port p hp

/-- A port that is being made is on the stack. -/
theorem PortsOk.making_of_stage (I : PortsOk m own st loc) {c : Int} (h : st p = .making c ∨ st p = .half c) : m.Making p := by
  rcases h with h | h
  · obtain ⟨v, l, hstk, _⟩ := (I.making p c).1 h
    refine ⟨m.k.currpid, c, Or.inl ?_⟩
    rw [show m.context m.k.currpid = _ from hstk]
    exact List.mem_cons_self
  · obtain ⟨v, l, hstk, _⟩ := (I.making p c).2 h
    refine ⟨m.k.currpid, c, Or.inr ?_⟩
    rw [show m.context m.k.currpid = _ from hstk]
    exact List.mem_cons_self

/-- What the invariant of the ports says about the nodes. -/
theorem PortsOk.conserved (I : PortsOk m own' st loc) (K : SameNodes own own') {buf n : Nat}
    (hown : (own none).map Prod.fst = List.range' buf n nodeSize) (hnone : ∀ p, own (some p) = [])
    (hfit : buf + nodeSize * n ≤ 4294967296) : m.Conserved own' buf n := by
  have hnode : ∀ k, k < n → nodeAt buf k = buf + nodeSize * k := by
    intro k hk
    refine Nat.mod_eq_of_lt ?_
    unfold nodeSize at hfit ⊢
    omega
  have hgood : ∀ p, (m.data.porttab p).ptstate ≠ .PT_FREE → isbadport p = false := by
    intro p hp
    by_contra hb
    exact hp (I.sound.outside p (eq_true_of_ne_false hb))
  refine ⟨I.sound.free, fun p ha hm => ?_, fun p hl => ?_, ?_, ?_, fun p hp => ?_, I.sound.spread, fun a => ?_, fun j k hj hk e => ?_⟩
  · have hat := I.sound.port p (hgood p (by rw [ha]; nofun))
    cases hst : st p with
    | live =>
      rw [hst] at hat
      exact hat.2.1
    | making c => exact absurd (I.making_of_stage (Or.inl hst)) hm
    | half c => exact absurd (I.making_of_stage (Or.inr hst)) hm
    | idle =>
      rw [hst] at hat
      rw [hat.1] at ha
      cases ha
    | disposing | released | cleared =>
      rw [hst] at hat
      rw [hat.1.state] at ha
      cases ha
  · have hat := I.sound.port p (hgood p (by rw [hl]; nofun))
    cases hst : st p with
    | idle | live | making | half =>
      rw [hst] at hat
      rw [hat.1] at hl
      cases hl
    | disposing =>
      rw [hst] at hat
      exact Or.inr hat.2.1
    | released | cleared =>
      rw [hst] at hat
      exact Or.inl hat.2.1
  · rintro p ⟨x, newstate, walk, hf⟩
    have hat := I.at_stage hf rfl
    exact ⟨hat.1.state, hat.2.1⟩
  · rintro p ⟨x, newstate, hf | hf⟩
    · have hat := I.at_stage hf rfl
      exact ⟨hat.1.state, hat.2.1⟩
    · have hat := I.at_stage hf rfl
      exact ⟨hat.1.state, hat.2.1⟩
  · rcases hp with hp | ⟨x, c, hf | hf⟩
    · by_cases hb : isbadport p = true
      · rw [K.outside p hb, hnone]
      · exact (I.sound.is_idle (eq_false_of_ne_true hb) hp).2
    · exact (I.at_stage hf rfl).2.1
    · exact (I.at_stage hf rfl).2.1
  · rw [K.mem a]
    constructor
    · rintro ⟨_ | p, ha⟩
      · rw [hown, List.mem_range'] at ha
        obtain ⟨k, hk, rfl⟩ := ha
        exact ⟨k, hk, (hnode k hk).symm⟩
      · rw [hnone] at ha
        cases ha
    · rintro ⟨k, hk, rfl⟩
      refine ⟨none, ?_⟩
      rw [hown, List.mem_range']
      exact ⟨k, hk, hnode k hk⟩
  · rw [hnode j hj, hnode k hk] at e
    unfold nodeSize at e
    omega

end Lists

section Start

variable {maxmsgs : Int} {minheap maxheap : Nat} {m₀ m : Machine ports}

/-- `getmem` returns at once, to the same process. -/
theorem call_getmem (k : Kernel QueueTab) (n : Nat) :
    (k.call (.getmem n)).1.currpid = k.currpid ∧ (k.call (.getmem n)).1.status = k.status ∧
      ((k.call (.getmem n)).2 = .ret SYSERR ∨
        ∃ a heap, k.heap.getmem (n % 4294967296) = (some a, heap) ∧ (k.call (.getmem n)).2 = .ret (a : Nat)) := by
  rcases h : k.heap.getmem (n % 4294967296) with ⟨_ | a, heap⟩
  · simp [Kernel.call, h]
  · simp [Kernel.call, h]

/-- `ptinit` that has returned has got a block from `getmem`, and no process is inside a routine. -/
theorem ptinited_cases (h : ptinited maxmsgs minheap maxheap = some m₀) (hrun : m₀.k.status = .running) :
    Machine.Reach Machine.Lawful (boot ports Ports.init minheap maxheap) m₀ ∧ (∀ x, routines (m₀.context x) = []) ∧
      ∃ a heap, (sysinit minheap maxheap).heap.getmem (uint32 (int32 maxmsgs * nodeSize)) = (some a, heap) ∧
        int32 a ≠ SYSERR ∧ m₀.data = (Ports.init.gotnodes (int32 maxmsgs) a).1 := by
  obtain ⟨m₁, h1, h2⟩ := Option.bind_eq_some_iff.mp h
  have hx : (boot ports Ports.init minheap maxheap).Follows (.op (.ptinit maxmsgs)) [] _ := .enter _ rfl
  have hm : m₁ = (boot ports Ports.init minheap maxheap).enterCall (.getmem (uint32 (int32 maxmsgs * nodeSize)))
      [.client (.gotnodes (int32 maxmsgs))] := hx.step h1
  obtain ⟨hcur, _, hv⟩ := call_getmem (sysinit minheap maxheap) (uint32 (int32 maxmsgs * nodeSize))
  have hcur' : m₁.k.currpid = NULLPROC := by
    rw [hm]
    exact hcur
  have hother : ∀ x, x ≠ NULLPROC → m₁.context x = [] := fun x hne => by
    rw [hm]
    exact Machine.enterCall_of_ne _ _ hne
  have hsize : uint32 (int32 maxmsgs * nodeSize) % 4294967296 = uint32 (int32 maxmsgs * nodeSize) := by
    unfold uint32
    omega
  rw [hsize] at hv
  -- the call has returned `v` to `ptinit`
  have hstk : ∀ v, ((sysinit minheap maxheap).call (.getmem (uint32 (int32 maxmsgs * nodeSize)))).2 = .ret v →
      m₁.stack = [.kernel (.ret v), .client (.gotnodes (int32 maxmsgs))] := by
    intro v hv
    have hself := Machine.enterCall_self (m := boot ports Ports.init minheap maxheap)
      (.getmem (uint32 (int32 maxmsgs * nodeSize))) [.client (.gotnodes (int32 maxmsgs))]
    rw [← hv, Machine.stack, hcur', hm]
    exact hself
  have hnext : ∀ v, ((sysinit minheap maxheap).call (.getmem (uint32 (int32 maxmsgs * nodeSize)))).2 = .ret v →
      m₀ = m₁.follow [] (Ports.init.gotnodes (int32 maxmsgs) v) := by
    intro v hv
    have hx' : m₁.Follows .cont [] _ := .client (hstk v hv)
    have hdata : m₁.data = Ports.init := by
      rw [hm]
      rfl
    have he := hx'.step h2
    rw [hdata] at he
    exact he
  have hissued : ∀ v, ((sysinit minheap maxheap).call (.getmem (uint32 (int32 maxmsgs * nodeSize)))).2 = .ret v →
      m₁.issued .cont = none := by
    intro v hv
    have hx' : m₁.Follows .cont [] _ := .client (hstk v hv)
    have hnext : (ports.resume m₁.data m₁.k.currpid (.gotnodes (int32 maxmsgs)) v).2 = _ := Ports.gotnodes_next _ _ _
    rw [hx'.issued]
    rcases hy : ports.resume m₁.data m₁.k.currpid (.gotnodes (int32 maxmsgs)) v with ⟨d, y⟩
    rw [hy] at hnext
    obtain rfl : y = _ := hnext
    split <;> rfl
  have hreach : Machine.Reach Machine.Lawful (boot ports Ports.init minheap maxheap) m₀ := by
    refine (Machine.Reach.refl.step _ ?_ h1).step .cont ?_ h2
    · rintro c ⟨⟩
      exact Kernel.lawful_iff.mp ⟨fun _ => rfl, rfl⟩
    · intro c hc
      rcases hv with hv | ⟨a, heap, _, hv⟩ <;>
      · rw [hissued _ hv] at hc
        cases hc
  have hfollow : ∀ v, m₀ = m₁.follow [] (Ports.init.gotnodes (int32 maxmsgs) v) → int32 v ≠ SYSERR ∧
      m₀.data = (Ports.init.gotnodes (int32 maxmsgs) v).1 ∧ m₀.context = Function.update m₁.context m₁.k.currpid [] := by
    intro v he
    have hnext := Ports.gotnodes_next Ports.init (int32 maxmsgs) v
    rcases hx : Ports.init.gotnodes (int32 maxmsgs) v with ⟨d, y⟩
    rw [hx] at he hnext
    split at hnext
    · obtain rfl : y = _ := hnext
      rw [he] at hrun
      cases hrun
    · next hsys =>
      obtain rfl : y = _ := hnext
      exact ⟨hsys, congrArg Machine.data he, congrArg Machine.context he⟩
  rcases hv with hv | ⟨a, heap, hget, hv⟩
  · exact absurd rfl (hfollow _ (hnext _ hv)).1
  · obtain ⟨hsys, hdata, hctx⟩ := hfollow _ (hnext _ hv)
    refine ⟨hreach, fun x => ?_, a, heap, hget, hsys, hdata⟩
    rw [hctx, hcur']
    by_cases hx : x = NULLPROC
    · rw [hx, Function.update_self]
      rfl
    · rw [Function.update_of_ne hx, hother x hx]
      rfl

end Start

/-- In every run behind `ptinit` in which user code leaves the semaphores of the ports alone, no node is lost or on two lists, exactly
when the size of the nodes does not wrap round. -/
theorem port_nodes_conserved {maxmsgs : Int} (hn : 1 ≤ maxmsgs) (hmsgs : maxmsgs ≤ 2147483647) {minheap maxheap : Nat}
    (hpos : 0 < minheap) (hlt : minheap < maxheap) (hmax : maxheap < 4294967296) (hmin8 : minheap % 8 = 0) (hmax8 : maxheap % 8 = 0)
    {m₀ : Machine ports} (h0 : ptinited maxmsgs minheap maxheap = some m₀) (hrun : m₀.k.status = .running) :
    (∀ m, Machine.Reach (fun m e => m.Lawful e ∧ m.PortsAlone e = true) m₀ m →
      ∃ own, m.Conserved own m₀.data.ptfree maxmsgs.toNat) ↔ maxmsgs < 536870912 := by
  obtain ⟨hreach, hctx, a, heap, hget, hsys, hdata⟩ := ptinited_cases h0 hrun
  have hint : int32 maxmsgs = maxmsgs := int32_of_range (by omega) hmsgs
  rw [hint] at hget hdata
  have h8 : (nodeSize : Int) = 8 := rfl
  constructor
  · intro h
    obtain ⟨own, C⟩ := h m₀ .refl
    by_contra hle
    rcases lt_or_eq_of_le (not_lt.mp hle) with hgt | heq
    · -- the node after 536870912 others is the first one again
      have h01 := C.distinct 0 536870912 (by omega) (by omega) (by unfold nodeAt nodeSize; omega)
      cases h01
    · have hzero : uint32 (maxmsgs * nodeSize) = 0 := by
        rw [← heq]
        rfl
      rw [hzero] at hget
      cases hget
  · intro hfit m r
    have hsize : uint32 (maxmsgs * nodeSize) = 8 * maxmsgs.toNat := by
      rw [h8]
      unfold uint32
      omega
    rw [hsize] at hget
    obtain ⟨hbuf, hend⟩ : 0 < a ∧ a + 8 * maxmsgs.toNat < 4294967296 := by
      rcases (stores_boot hpos hlt hmax hmin8 hmax8).getmem (n := 8 * maxmsgs.toNat) (by omega) with e | ⟨a', h', e, H⟩
      · rw [e] at hget
        cases hget
      · obtain rfl : a' = a := Option.some.inj (Prod.mk.inj (e.symm.trans hget)).1
        have hr : 0 < a' ∧ a' + roundmb (8 * maxmsgs.toNat) < 4294967296 := H.range List.mem_cons_self
        have hround : 8 * maxmsgs.toNat ≤ roundmb (8 * maxmsgs.toNat) := by
          unfold roundmb
          omega
        omega
    rw [Ports.gotnodes_init hn (by omega)] at hdata
    obtain ⟨own, S, hown, hnone⟩ := Ports.started_sound hn hbuf (show (a : Int) + 8 * maxmsgs ≤ 4294967296 by omega)
    obtain ⟨_, h, St, T⟩ := reach_invariant (I := fun _ => True) (fun _ _ hl => hl) (boot_steady _ minheap maxheap)
      (allTracked_boot minheap maxheap) trivial (fun _ _ _ _ _ _ _ _ _ _ _ _ => trivial) hreach
    have I : PortsOk m₀ own (fun _ => .idle) fun _ => (0, 0) := PortsOk.idle (hdata ▸ S) hctx
    obtain ⟨own', st, loc, I', K⟩ := I.reach St T r
    have hfree : m₀.data.ptfree = a := by
      rw [hdata]
      rfl
    rw [hfree]
    exact ⟨own', I'.conserved K hown hnone (by unfold nodeSize; omega)⟩

theorem port_nodes_conserved_two : ∃ m₀, ptinited 2 16384 1048576 = some m₀ ∧
    ∀ m, Machine.Reach (fun m e => m.Lawful e ∧ m.PortsAlone e = true) m₀ m → ∃ own, m.Conserved own m₀.data.ptfree 2 := by
  obtain ⟨m₀, h0, hrun⟩ := (Option.any_eq_true _ _).mp
    (show (ptinited 2 16384 1048576).any (fun m => decide (m.k.status = .running)) = true by decide +kernel)
  exact ⟨m₀, h0, (port_nodes_conserved (by decide) (by decide) (by decide) (by decide) (by decide) (by decide) (by decide) h0
    (of_decide_eq_true hrun)).mpr (by decide)⟩

/-- The last node that `ptinit` links is the end of the list. -/
theorem linkNodes_last {n curr : Nat} (node : Nat → Ptnode) (hcurr : curr < 4294967296) :
    (Ports.linkNodes n curr node (nodeAt curr n)).ptnext = NULL := by
  induction n generalizing curr node with
  | zero =>
    have hself : nodeAt curr 0 = curr := Nat.mod_eq_of_lt hcurr
    rw [hself]
    simp only [Ports.linkNodes, Function.update_self]
  | succ n ih =>
    have hnext : nodeAt curr (n + 1) = nodeAt ((curr + nodeSize) % 4294967296) n := by
      unfold nodeAt nodeSize
      omega
    rw [hnext, Ports.linkNodes]
    exact ih _ (Nat.mod_lt _ (by decide))

/-- With 536870913 nodes `getmem` is called for 8 bytes, and the free list comes back to its first node, which is then its end. -/
theorem port_nodes_wrap : ∃ m₀, ptinited 536870913 16384 1048576 = some m₀ ∧ m₀.k.status = .running ∧
    (m₀.data.node m₀.data.ptfree).ptnext = NULL ∧ ∀ own, ¬m₀.Conserved own m₀.data.ptfree 536870913 := by
  obtain ⟨m₀, h0, hrun⟩ := (Option.any_eq_true _ _).mp
    (show (ptinited 536870913 16384 1048576).any (fun m => decide (m.k.status = .running)) = true by decide +kernel)
  obtain ⟨_, hctx, a, _, _, hsys, hdata⟩ := ptinited_cases h0 (of_decide_eq_true hrun)
  have hint : int32 536870913 = 536870913 := by decide
  rw [hint, Ports.gotnodes_tables _ hsys] at hdata
  have hlt : uint32 a < 4294967296 := by
    unfold uint32
    omega
  have hlink : (m₀.data.node m₀.data.ptfree).ptnext = NULL := by
    have hwrap : nodeAt (uint32 a) 536870912 = uint32 a := by
      unfold nodeAt nodeSize
      omega
    have hlast := linkNodes_last (n := 536870912) Ports.init.node hlt
    rw [hwrap] at hlast
    rw [hdata]
    exact hlast
  refine ⟨m₀, h0, of_decide_eq_true hrun, hlink, fun own C => ?_⟩
  have hports : ∀ p, own (some p) = [] := by
    intro p
    refine C.rest p (Or.inl ?_)
    rw [hdata]
    dsimp only
    split <;> rfl
  have hfree : m₀.data.ptfree = uint32 a := by rw [hdata]
  obtain ⟨i, hi⟩ := (C.nodes (nodeAt (uint32 a) 1)).mpr ⟨1, by decide, by rw [hfree]⟩
  cases i with
  | some p =>
    rw [hports] at hi
    cases hi
  | none =>
    have hl := C.free
    by_cases hnull : m₀.data.ptfree = NULL
    · rw [hl.null_iff.mp hnull] at hi
      cases hi
    · obtain ⟨l, hown, hrest⟩ := hl.pop hnull
      rw [hown, hrest.null_iff.mp hlink, hfree] at hi
      have hone := List.mem_singleton.mp hi
      unfold nodeAt nodeSize at hone
      omega

end Xinu
