import Xinu.Message.PortUnits

/-!
# The epochs of a port

`PortsFlow` holds in every state of a run in which nobody is removed inside a routine of the ports and `ptseq` does not come round
(`PortsUsed`): the messages of every port in use are counted (`Flow`), what `wait` has returned to a routine is what the port says now
(`Told`), and `ptcreate` has got semaphores that nobody uses (`Untried`).
-/

namespace Xinu

open Port

namespace Port

/-- Behind a call of `semcreate`. -/
def Point.makes : Point → Bool
  | .gotssem _ _ | .gotrsem _ _ => true
  | _ => false

/-- `_ptclear` works on the port. -/
def Stage.clears : Stage → Bool
  | .disposing _ _ | .released _ | .cleared _ => true
  | _ => false

/-- What holds of the semaphores that `semcreate` has returned to `ptcreate`. -/
def Untried (k : Kernel QueueTab) (d : Ports) : Point → Int → Prop
  | .gotssem _ c, v => isbadsem v = false → Settled k v c
  | .gotrsem p c, v =>
    (isbadsem v = false → Settled k v 0) ∧ (isbadsem (d.porttab p).ptssem = false → Settled k (d.porttab p).ptssem c)
  | _, _ => True

end Port

/-- No routine in progress has seen the sequence number of the port. -/
def Machine.Unseen (m : Machine ports) (p seq : Int) : Prop :=
  ∀ x, ∀ f ∈ routines (m.context x), Point.sends p seq f = false ∧ Point.receives p seq f = false

/-- The tables of the ports behind an event. -/
def Machine.dataAfter (m : Machine ports) (e : Event ports) : Ports := ((m.segment e).map Prod.fst).getD m.data

/-- `ptseq` of no port comes round to a number that a routine in progress has seen. -/
def Machine.SeqFresh (m : Machine ports) (e : Event ports) : Bool :=
  (List.range NPORTS.toNat).all fun p =>
    decide (((m.dataAfter e).porttab p).ptseq = (m.data.porttab p).ptseq) ||
      pids.all fun x => (routines (m.context x)).all fun f =>
        !Point.sends p ((m.dataAfter e).porttab p).ptseq f && !Point.receives p ((m.dataAfter e).porttab p).ptseq f

/-- User code leaves the semaphores of the ports alone, nobody is removed inside a routine of the ports, the sequence numbers are new,
and no semaphore is signalled more often than its count can hold. -/
structure Machine.PortsUsed (m : Machine ports) (e : Event ports) : Prop where
  lawful : m.Lawful e
  alone : m.PortsAlone e = true
  spares : ∀ pid ∈ m.removes e, routines (m.context pid) = []
  fresh : m.SeqFresh e = true
  fits : CountsFit m.k.log

instance (m : Machine ports) (e : Event ports) : Decidable (m.PortsUsed e) :=
  decidable_of_iff (m.Lawful e ∧ m.PortsAlone e = true ∧ (∀ pid ∈ m.removes e, routines (m.context pid) = []) ∧ m.SeqFresh e = true ∧
      CountsFit m.k.log)
    ⟨fun ⟨h1, h2, h3, h4, h5⟩ => ⟨h1, h2, h3, h4, h5⟩, fun h => ⟨h.lawful, h.alone, h.spares, h.fresh, h.fits⟩⟩

/-- The messages of the ports in use are counted. -/
structure PortsFlow (m : Machine ports) (own : Option Int → List (Nat × Nat)) (st : Int → Stage) (loc : Int → Int × Nat) : Prop where
  ok : PortsOk m own st loc
  flow : ∀ p, isbadport p = false → st p = .live → Flow m p
  told : Replied m Point.waits fun _ => Told m.data st
  untried : Answered m Point.makes Untried
  clearing : ∀ p, isbadport p = false → (st p).clears = true → m.Unseen p (m.data.porttab p).ptseq

section Step

variable {m m' : Machine ports} {e : Event ports} {h h' : Kernel QLists} {own own' : Option Int → List (Nat × Nat)} {st st' : Int → Stage}
  {loc loc' : Int → Int × Nat} {p v : Int} {x : Ports × Next Point} {f : Point} {d : Ports} {l : List (Frame Point)}

/-- Where a sequence number changes, nobody has seen the new one. -/
theorem Machine.PortsUsed.unseen (U : m.PortsUsed e) (St : Steady m h) (hp : isbadport p = false)
    (hne : ((m.dataAfter e).porttab p).ptseq ≠ (m.data.porttab p).ptseq) : m.Unseen p ((m.dataAfter e).porttab p).ptseq := by
  intro x f hf
  obtain ⟨h0, hN⟩ := Ports.isbadport_iff.mp hp
  have hx : x ∈ pids := by
    by_contra hout
    rw [St.freed x (St.inv.outside x (fun hpid => hout (mem_pids.mpr hpid)))] at hf
    cases hf
  have hall := List.all_eq_true.mp U.fresh p.toNat (List.mem_range.mpr (by omega))
  rw [Int.toNat_of_nonneg h0, Bool.or_eq_true, decide_eq_true_eq] at hall
  have hmine := List.all_eq_true.mp (List.all_eq_true.mp (hall.resolve_left hne) x hx) f hf
  simpa using hmine

theorem Machine.Unseen.frames (hu : m.Unseen p v) : m.frames (Point.sends p v) = 0 ∧ m.frames (Point.receives p v) = 0 := by
  constructor <;>
  · refine List.sum_eq_zero fun n hn => ?_
    obtain ⟨q, _, rfl⟩ := List.mem_map.mp hn
    refine List.countP_eq_zero.mpr fun f hf => ?_
    have := hu q f hf
    simp [this]

/-- A piece of a routine that does not begin to wait for the port. -/
theorem Machine.Unseen.follows (hu : m.Unseen p v) (hx : m.Follows e l x)
    (hf : ∀ q, routines (m'.context q) = if q = m.k.currpid then x.2.routine.toList ++ routines l else routines (m.context q))
    (hnew : ∀ g, x.2.routine = some g → Point.sends p v g = false ∧ Point.receives p v g = false) : m'.Unseen p v := by
  intro q f hm
  rw [hf q] at hm
  split at hm
  · rcases List.mem_append.mp hm with hm | hm
    · exact hnew f (Option.mem_toList.mp hm)
    · exact hu _ f (hx.routines_sub f hm)
  · exact hu q f hm

theorem Machine.Unseen.congr (hu : m.Unseen p v)
    (hf : ∀ q, routines (m'.context q) = routines (m.context q) ∨ routines (m'.context q) = []) : m'.Unseen p v := by
  intro q f hm
  rcases hf q with h | h
  · exact hu q f (h ▸ hm)
  · rw [h] at hm
    cases hm

/-- A port that has just come into use: nobody waits, and its queue is empty. -/
theorem Port.Flow.start {n : Int} (hu : m.Unseen p (m.data.porttab p).ptseq) (hq : m.data.queued p = 0) (hfit : CountsFit m.k.log)
    (hused : ∀ s, isbadsem s = false → s = (m.data.porttab p).ptssem ∨ s = (m.data.porttab p).ptrsem → (m.k.semtab s).sstate = .S_USED)
    (hr : isbadsem (m.data.porttab p).ptrsem = false → Settled m.k (m.data.porttab p).ptrsem 0)
    (hs : isbadsem (m.data.porttab p).ptssem = false → Settled m.k (m.data.porttab p).ptssem n)
    (hn : n = m.data.count p ∨ n = (m.data.porttab p).ptmaxcnt) : Flow m p := by
  obtain ⟨h1, h2⟩ := hu.frames
  have kept : ∀ {s c : Int} (P : Point → Bool), isbadsem s = false → s = (m.data.porttab p).ptssem ∨ s = (m.data.porttab p).ptrsem →
      Settled m.k s c → Kept m s P := fun P hg how hS =>
    ⟨hg, hused _ hg how, fun c hm => hfit _ c hm, fun q hw => absurd hw (hS.waits q)⟩
  refine ⟨fun hg => ⟨kept _ hg (Or.inr rfl) (hr hg), ?_⟩, fun hg => ⟨kept _ hg (Or.inl rfl) (hs hg), n, hn, ?_⟩, ?_, fun _ => hq⟩
  · rw [Machine.units, (hr hg).count, h2, hq]
    rfl
  · rw [Machine.units, (hs hg).count, h1, hq]
    omega
  · rw [hq]
    decide

/-! ## What the pieces of the routines end with -/

/-- A routine that goes on does not begin to wait. -/
theorem Port.resume_not_waits {g : Point} (pid : Int) (hg : (ports.resume d pid f v).2.routine = some g) : g.waits = false := by
  have hrelease : ∀ (b : Ports) (q : Int) (newstate : PtState), (b.release q newstate).2.routine = some g → g.waits = false := by
    intro b q newstate hg
    rw [(release_next b q newstate).1] at hg
    obtain rfl := Option.some.inj hg
    rfl
  cases f with
  | gotnodes n =>
    change (d.gotnodes n v).2.routine = some g at hg
    rw [Ports.gotnodes_next] at hg
    split at hg <;> cases hg
  | gotrsem | sent | received | cleared => cases hg
  | gotssem q c =>
    obtain rfl := Option.some.inj hg
    rfl
  | sendwaited q seq msg =>
    change (d.sendwaited q seq msg v).2.routine = some g at hg
    unfold Ports.sendwaited at hg
    simp only at hg
    split at hg
    · cases hg
    · split at hg
      · cases hg
      · obtain rfl := Option.some.inj hg
        rfl
  | recvwaited q seq =>
    change (d.recvwaited q seq v).2.routine = some g at hg
    unfold Ports.recvwaited at hg
    simp only at hg
    split at hg
    · cases hg
    · split at hg
      · cases hg
      · obtain rfl := Option.some.inj hg
        rfl
  | disposing q newstate walk =>
    change (d.disposing q newstate walk).2.routine = some g at hg
    unfold Ports.disposing at hg
    simp only at hg
    split at hg
    · obtain rfl := Option.some.inj hg
      rfl
    · exact hrelease _ _ _ hg
  | released q newstate =>
    change (d.released q newstate).2.routine = some g at hg
    unfold Ports.released at hg
    simp only at hg
    split at hg <;>
    · obtain rfl := Option.some.inj hg
      rfl

/-- What a routine ends its first piece with, when it goes on. -/
theorem Port.enter_routine {g : Point} (d : Ports) (pid : Int) (o : Op) (hg : (ports.enter d pid o).2.routine = some g) :
    (∃ q, isbadport q = false ∧ (d.porttab q).ptstate = .PT_ALLOC ∧
        ((∃ msg, ports.enter d pid o = (d, .call (.wait (d.porttab q).ptssem) (.sendwaited q (d.porttab q).ptseq msg))) ∨
          ports.enter d pid o = (d, .call (.wait (d.porttab q).ptrsem) (.recvwaited q (d.porttab q).ptseq)))) ∨
      (∃ q newstate, ((∃ w, g = .disposing q newstate w) ∨ g = .released q newstate) ∧
        ((ports.enter d pid o).1.porttab q).ptseq = int32 ((d.porttab q).ptseq + 1)) ∨
      (∃ q c, g = .gotssem q c) ∨ ∃ n, g = .gotnodes n := by
  have hreset : ∀ portid newstate, (d.ptreset portid newstate).2.routine = some g →
      ∃ q newstate', ((∃ w, g = .disposing q newstate' w) ∨ g = .released q newstate') ∧
        ((d.ptreset portid newstate).1.porttab q).ptseq = int32 ((d.porttab q).ptseq + 1) := by
    intro portid newstate hg
    by_cases h : isbadport (int32 portid) = true ∨ (d.porttab (int32 portid)).ptstate ≠ .PT_ALLOC
    · unfold Ports.ptreset at hg
      simp only at hg
      rw [if_pos h] at hg
      cases hg
    · obtain ⟨_, hseq, hnext⟩ := ptreset_next d portid newstate h
      refine ⟨int32 portid, newstate, ?_, hseq⟩
      rcases hnext with ⟨w, hx⟩ | ⟨n, hx⟩
      · rw [hx] at hg
        exact Or.inl ⟨w, (Option.some.inj hg).symm⟩
      · rw [hx] at hg
        exact Or.inr (Option.some.inj hg).symm
  cases o with
  | ptinit n =>
    obtain rfl := Option.some.inj hg
    exact Or.inr (Or.inr (Or.inr ⟨_, rfl⟩))
  | ptcreate count =>
    change (d.ptcreate count).2.routine = some g at hg
    rcases ptcreate_next d count with hx | ⟨q, c, hx⟩
    · rw [hx] at hg
      cases hg
    · rw [hx] at hg
      exact Or.inr (Or.inr (Or.inl ⟨q, c, (Option.some.inj hg).symm⟩))
  | ptsend portid msg =>
    change (d.ptsend portid msg).2.routine = some g at hg
    by_cases h : isbadport (int32 portid) = true ∨ (d.porttab (int32 portid)).ptstate ≠ .PT_ALLOC
    · unfold Ports.ptsend at hg
      simp only at hg
      rw [if_pos h] at hg
      cases hg
    · have hx : ports.enter d pid (.ptsend portid msg) = (d, .call (.wait (d.porttab (int32 portid)).ptssem)
          (.sendwaited (int32 portid) (d.porttab (int32 portid)).ptseq (msg % 4294967296))) := if_neg h
      rw [not_or, not_not] at h
      exact Or.inl ⟨_, eq_false_of_ne_true h.1, h.2, Or.inl ⟨_, hx⟩⟩
  | ptrecv portid =>
    change (d.ptrecv portid).2.routine = some g at hg
    by_cases h : isbadport (int32 portid) = true ∨ (d.porttab (int32 portid)).ptstate ≠ .PT_ALLOC
    · unfold Ports.ptrecv at hg
      simp only at hg
      rw [if_pos h] at hg
      cases hg
    · have hx : ports.enter d pid (.ptrecv portid) = (d, .call (.wait (d.porttab (int32 portid)).ptrsem)
          (.recvwaited (int32 portid) (d.porttab (int32 portid)).ptseq)) := if_neg h
      rw [not_or, not_not] at h
      exact Or.inl ⟨_, eq_false_of_ne_true h.1, h.2, Or.inr hx⟩
  | ptreset portid => exact Or.inr (Or.inl (hreset portid .PT_ALLOC hg))
  | ptdelete portid => exact Or.inr (Or.inl (hreset portid .PT_FREE hg))

theorem Port.waits_of_seen {g : Point} {seq : Int} (h : Point.sends p seq g = true ∨ Point.receives p seq g = true) :
    g.waits = true ∧ g.port = some p := by
  have hport : g.port = some p := by
    by_contra hne
    have := sends_other seq hne
    simp [this] at h
  cases g with
  | sendwaited q s msg | recvwaited q s => exact ⟨rfl, hport⟩
  | _ => rcases h with h | h <;> cases h

/-- A routine begins to wait only for a port in use. -/
theorem Port.waits_alloc (hx : m.Follows e l x) {g : Point} (hg : x.2.routine = some g) {seq : Int}
    (hw : Point.sends p seq g = true ∨ Point.receives p seq g = true) : (x.1.porttab p).ptstate = .PT_ALLOC := by
  obtain ⟨hwait, hport⟩ := waits_of_seen hw
  rcases hx.enter_or_resume with ⟨o, rfl, rfl⟩ | ⟨f, v, hr, rfl⟩
  · rcases enter_routine m.data m.k.currpid o hg with ⟨q, _, ha, ⟨msg, hx⟩ | hx⟩ | ⟨q, n, ⟨w, rfl⟩ | rfl, _⟩ | ⟨q, c, rfl⟩ | ⟨n, rfl⟩
    · rw [hx] at hg ⊢
      obtain rfl := Option.some.inj hg
      rwa [← Option.some.inj hport]
    · rw [hx] at hg ⊢
      obtain rfl := Option.some.inj hg
      rwa [← Option.some.inj hport]
    all_goals cases hwait
  · rw [resume_not_waits _ hg] at hwait
    cases hwait

theorem Port.Ports.Turn.comes_live (t : m.data.Turn st v ((m.resumed e).map Prod.fst) x st') (hp : st' p = .live) :
    st p = .live ∨ ∃ w, x.2 = .ret w ∧
      ((∃ c, (m.resumed e).map Prod.fst = some (.gotrsem p c)) ∨ (m.resumed e).map Prod.fst = some (.cleared p .PT_ALLOC)) := by
  generalize (m.resumed e).map Prod.fst = o at t ⊢
  cases t with
  | ret | sem | stop => exact Or.inl hp
  | @making _ q | @half _ q | @disposing _ _ q | @released _ _ q | @cleared _ q =>
    by_cases hq : p = q
    · rw [hq, Function.update_self] at hp
      cases hp
    · rw [Function.update_of_ne hq] at hp
      exact Or.inl hp
  | @made _ q c =>
    by_cases hq : p = q
    · exact Or.inr ⟨_, rfl, Or.inl ⟨c, by rw [hq]⟩⟩
    · rw [Function.update_of_ne hq] at hp
      exact Or.inl hp
  | @done _ q newstate =>
    by_cases hq : p = q
    · rw [hq, Function.update_self] at hp
      split at hp
      · next hn => exact Or.inr ⟨_, rfl, Or.inr (by rw [hq, hn])⟩
      · cases hp
    · rw [Function.update_of_ne hq] at hp
      exact Or.inl hp

/-- The port is cleared from now on, or it has been before. -/
theorem Port.Ports.Turn.comes_clearing {o : Option Point} (t : m.data.Turn st v o x st')
    (hst : ∀ g ∈ o, ∀ q σ, g.stage = some (q, σ) → st q = σ) (hp : (st' p).clears = true) :
    (st p).clears = true ∨ o = none ∧ ∃ g, x.2.routine = some g ∧ g.stage = some (p, st' p) := by
  cases t with
  | ret | sem | stop => exact Or.inl hp
  | @making _ q | @half _ q | @made _ q =>
    by_cases hq : p = q
    · rw [hq, Function.update_self] at hp
      cases hp
    · rw [Function.update_of_ne hq] at hp
      exact Or.inl hp
  | @done _ q newstate =>
    by_cases hq : p = q
    · rw [hq, Function.update_self] at hp
      split at hp <;> cases hp
    · rw [Function.update_of_ne hq] at hp
      exact Or.inl hp
  | @disposing _ _ q newstate walk _ _ hw | @released _ _ q newstate _ _ hw =>
    by_cases hq : p = q
    · subst hq
      rcases hw with ⟨rfl, _⟩ | ⟨w, rfl⟩
      · exact Or.inr ⟨rfl, _, rfl, by rw [Function.update_self]; rfl⟩
      · rw [hst _ rfl _ _ rfl]
        exact Or.inl rfl
    · rw [Function.update_of_ne hq] at hp
      exact Or.inl hp
  | @cleared _ q newstate =>
    by_cases hq : p = q
    · subst hq
      rw [hst _ rfl _ _ rfl]
      exact Or.inl rfl
    · rw [Function.update_of_ne hq] at hp
      exact Or.inl hp

/-- Only a routine that goes on stops the processor: `ptinit` and `ptsend` without memory, and `ptrecv` at an empty queue. -/
theorem Port.stops {s : Status} (hx : m.segment e = some (d, .stop s)) : s = .panicked ∨
    s = .faulted ∧ ∃ q seq v, m.resumed e = some (.recvwaited q seq, v) ∧ v ≠ SYSERR ∧ (m.data.porttab q).ptstate = .PT_ALLOC ∧
      (m.data.porttab q).ptseq = seq ∧ (m.data.porttab q).pthead = NULL := by
  have hresume : ∀ f v, ports.resume m.data m.k.currpid f v = (d, .stop s) → s = .panicked ∨
      s = .faulted ∧ ∃ q seq, f = .recvwaited q seq ∧ v ≠ SYSERR ∧ (m.data.porttab q).ptstate = .PT_ALLOC ∧
        (m.data.porttab q).ptseq = seq ∧ (m.data.porttab q).pthead = NULL := by
    intro f v hx
    have hrelease : ∀ (b : Ports) (q : Int) (newstate : PtState), (b.release q newstate).2 ≠ .stop s := by
      intro b q newstate
      rw [(release_next b q newstate).1]
      nofun
    cases f with
    | gotnodes n =>
      have hnext := congrArg Prod.snd hx
      change (m.data.gotnodes n v).2 = .stop s at hnext
      rw [Ports.gotnodes_next] at hnext
      split at hnext
      · exact Or.inl (Next.stop.inj hnext).symm
      · cases hnext
    | gotssem | gotrsem | sent | received | cleared => cases hx
    | sendwaited q seq msg =>
      change m.data.sendwaited q seq msg v = _ at hx
      unfold Ports.sendwaited at hx
      simp only at hx
      split at hx
      · cases hx
      · split at hx
        · exact Or.inl (Next.stop.inj (congrArg Prod.snd hx)).symm
        · cases hx
    | recvwaited q seq =>
      change m.data.recvwaited q seq v = _ at hx
      unfold Ports.recvwaited at hx
      simp only at hx
      split at hx
      · cases hx
      · next h =>
        rw [not_or, not_or, not_not, not_not] at h
        split at hx
        · next hnull => exact Or.inr ⟨(Next.stop.inj (congrArg Prod.snd hx)).symm, q, seq, rfl, h.1, h.2.1, h.2.2, hnull⟩
        · cases hx
    | disposing q newstate walk =>
      have hnext := congrArg Prod.snd hx
      change (m.data.disposing q newstate walk).2 = .stop s at hnext
      unfold Ports.disposing at hnext
      simp only at hnext
      split at hnext
      · cases hnext
      · exact absurd hnext (hrelease _ _ _)
    | released q newstate =>
      change m.data.released q newstate = _ at hx
      unfold Ports.released at hx
      simp only at hx
      split at hx <;> cases hx
  cases e with
  | op o =>
    have hreset : ∀ portid newstate, (m.data.ptreset portid newstate).2 ≠ .stop s := by
      intro portid newstate
      by_cases h : isbadport (int32 portid) = true ∨ (m.data.porttab (int32 portid)).ptstate ≠ .PT_ALLOC
      · unfold Ports.ptreset
        simp only
        rw [if_pos h]
        nofun
      · obtain ⟨_, _, hnext⟩ := ptreset_next m.data portid newstate h
        rcases hnext with ⟨w, hx⟩ | ⟨n, hx⟩ <;>
        · rw [hx]
          nofun
    have hnext : (ports.enter m.data m.k.currpid o).2 = .stop s := congrArg Prod.snd (Option.some.inj hx)
    cases o with
    | ptinit n => cases hnext
    | ptcreate count =>
      change (m.data.ptcreate count).2 = _ at hnext
      rcases ptcreate_next m.data count with hc | ⟨q, c, hc⟩ <;>
      · rw [hc] at hnext
        cases hnext
    | ptsend portid msg =>
      change (m.data.ptsend portid msg).2 = _ at hnext
      unfold Ports.ptsend at hnext
      simp only at hnext
      split at hnext <;> cases hnext
    | ptrecv portid =>
      change (m.data.ptrecv portid).2 = _ at hnext
      unfold Ports.ptrecv at hnext
      simp only at hnext
      split at hnext <;> cases hnext
    | ptreset portid => exact absurd hnext (hreset portid .PT_ALLOC)
    | ptdelete portid => exact absurd hnext (hreset portid .PT_FREE)
  | call c | tick => cases hx
  | ret | cont =>
    obtain ⟨⟨f, v⟩, hr, hf⟩ := Option.map_eq_some_iff.mp hx
    rcases hresume f v hf with h | ⟨h, q, seq, rfl, hrest⟩
    · exact Or.inl h
    · exact Or.inr ⟨h, q, seq, v, hr, hrest⟩

/-- While the processor runs on, no piece of a routine has stopped it. -/
theorem Port.not_stopped (hs : m.step e = some m') (hrun : m'.k.status = .running) (s : Status) : m.segment e ≠ some (d, .stop s) := by
  intro hx
  rw [Machine.step_stop hs hx] at hrun
  obtain rfl : s = .running := hrun
  rcases stops hx with h | ⟨h, _⟩ <;> cases h

/-- A port in use. -/
theorem PortsOk.inUse (I : PortsOk m own st loc) (hp : isbadport p = false) (hst : st p = .live) : InUse m.data p := by
  have hat := I.sound.port p hp
  rw [hst] at hat
  obtain ⟨_, _, hlist, hsized⟩ := hat
  have hrange := hsized.range
  have hmax := hsized.maxcnt
  refine ⟨fun hg _ => I.sems.two p (by rw [hst]; rfl) (held_live hp hst hg (Or.inl rfl)), hrange, by omega, ?_⟩
  rw [Ports.queued, hlist, List.length_append]
  omega

/-- What a piece of a routine does to a port that is in use before and after it. -/
theorem PortsFlow.deal (I : PortsFlow m own st loc) (hs : m.step e = some m') (ha : m.PortsAlone e = true) (hx : m.Follows e l x)
    (hrun : m'.k.status = .running) (hp : isbadport p = false) (hst : st p = .live) (hnext : (x.1.porttab p).ptstate = .PT_ALLOC) :
    Ports.Deal m.data p ((m.resumed e).map Prod.fst) x := by
  have hm := I.ok.making_resumed hs
  have hseg := hx.segment
  rcases hx.enter_or_resume with ⟨o, rfl, rfl⟩ | ⟨f, v, hr, rfl⟩
  · refine I.ok.sound.enter_deal I.ok.sems (fun q c => ⟨fun h => (nomatch (hm q c).1 h), fun h => (nomatch (hm q c).2 h)⟩) hp hst ?_ hnext
    rintro n rfl
    cases ha
  · have hI := I.ok.resumed hx
    rw [hr] at hm hI ⊢
    obtain ⟨hn, hstage⟩ := hI f rfl
    refine I.ok.sound.resume_deal I.ok.sems (fun hf q c => ⟨fun h => ?_, fun h => ?_⟩) hp hst
      (fun q σ hσ => ⟨(hstage q σ hσ).1, (hstage q σ hσ).2.1⟩) hn (fun hw => I.told.resumed hr hw) fun b s hb => ?_
    · obtain rfl := Option.some.inj ((hm q c).1 h)
      cases hf
    · obtain rfl := Option.some.inj ((hm q c).2 h)
      cases hf
    · rw [hb] at hseg
      exact not_stopped hs hrun s hseg

theorem Port.int32_succ_ne (n : Int) : int32 (n + 1) ≠ n := by
  unfold int32
  omega

theorem Port.int32_of_good {s : Int} (h : isbadsem s = false) : int32 s = s := by
  obtain ⟨h1, h2⟩ := isbadsem_iff.mp h
  have hN : NSEM = 100 := rfl
  exact int32_of_range (by omega) (by omega)

/-- A port comes into use, when `ptcreate` or `ptreset` returns. -/
theorem PortsFlow.opens (I : PortsFlow m own st loc) (hs : m.step e = some m') (U : m.PortsUsed e) (St : Steady m h)
    (hx : m.Follows e l x) (hd : m'.data = x.1)
    (hf : ∀ q, routines (m'.context q) = if q = m.k.currpid then x.2.routine.toList ++ routines l else routines (m.context q))
    (I' : PortsOk m' own' st' loc') (t : m.data.Turn st v ((m.resumed e).map Prod.fst) x st') (hp : isbadport p = false)
    (hst : st p ≠ .live) (hlive : st' p = .live) :
    Flow m' p ∧ m'.Unseen p (m'.data.porttab p).ptseq ∧ ∃ w, x.2 = .ret w := by
  obtain ⟨w, hret, how⟩ := (t.comes_live hlive).resolve_left hst
  have hseg := hx.segment
  have hk : m'.k = m.k := segment_ret hs (by rw [hseg, ← hret])
  have hafter : m.dataAfter e = x.1 := by rw [Machine.dataAfter, hseg]; rfl
  have hkeep : m.Unseen p (x.1.porttab p).ptseq → m'.Unseen p (m'.data.porttab p).ptseq := by
    intro hu
    rw [hd]
    refine hu.follows hx hf fun g hg => ?_
    rw [hret] at hg
    cases hg
  have hused : ∀ s, isbadsem s = false → s = (m'.data.porttab p).ptssem ∨ s = (m'.data.porttab p).ptrsem →
      (m'.k.semtab s).sstate = .S_USED := fun s hg how => I'.sems.used p s (held_live hp hlive hg how)
  have hfit : CountsFit m'.k.log := by
    rw [hk]
    exact U.fits
  rcases hx.enter_or_resume with ⟨o, rfl, rfl⟩ | ⟨f, v', hr, rfl⟩
  · rcases how with ⟨c, h⟩ | h <;> cases h
  · rw [hr] at how
    rcases how with ⟨c, h⟩ | h
    · -- `ptcreate` returns: the port has a new sequence number
      obtain rfl := Option.some.inj h
      have hself : (m'.data.porttab p) = { m.data.porttab p with
          ptrsem := int32 v', pthead := NULL, pttail := NULL, ptseq := int32 ((m.data.porttab p).ptseq + 1)
          ptmaxcnt := (c % 65536).toNat } := by
        rw [hd]
        exact Function.update_self _ _ _
      have hu : m'.Unseen p (m'.data.porttab p).ptseq := by
        refine hkeep ?_
        have hne : ((m.dataAfter e).porttab p).ptseq ≠ (m.data.porttab p).ptseq := by
          rw [hafter, ← hd, hself]
          exact int32_succ_ne _
        exact hafter ▸ U.unseen St hp hne
      have hq : m'.data.queued p = 0 := by
        rw [hd, Ports.queued, show (ports.resume m.data m.k.currpid (.gotrsem p c) v').1.enqueued p = [] from Function.update_self _ _ _,
          show (ports.resume m.data m.k.currpid (.gotrsem p c) v').1.dequeued p = [] from Function.update_self _ _ _]
        rfl
      have hcount : m'.data.count p = c := by
        rw [hd]
        exact Function.update_self _ _ _
      obtain ⟨hr0, hsc⟩ : (isbadsem v' = false → Port.Settled m.k v' 0) ∧
          (isbadsem (m.data.porttab p).ptssem = false → Port.Settled m.k (m.data.porttab p).ptssem c) := I.untried.resumed hr rfl
      have hnew := I.ok.new_sem hs hx hr (Or.inr rfl)
      refine ⟨.start hu hq hfit hused (fun hg => ?_) (fun hg => ?_) (Or.inl hcount.symm), hu, w, hret⟩
      · rw [hself] at hg ⊢
        rcases hnew with rfl | ⟨hv, _⟩
        · cases hg
        · rw [int32_of_good hv, hk]
          exact hr0 hv
      · rw [hself] at hg ⊢
        rw [hk]
        exact hsc hg
    · -- `ptreset` returns: it has reset both semaphores
      obtain rfl := Option.some.inj h
      obtain ⟨_, hσ, _⟩ := (I.ok.resumed hx (.cleared p .PT_ALLOC) (by rw [hr]; rfl)).2 p _ rfl
      have hself : m'.data.porttab p = { m.data.porttab p with ptstate := .PT_ALLOC } := by
        rw [hd]
        exact Function.update_self _ _ _
      have hu : m'.Unseen p (m'.data.porttab p).ptseq := by
        refine hkeep ?_
        rw [← hd, hself]
        exact I.clearing p hp (by rw [hσ]; rfl)
      have hat := I.ok.sound.port p hp
      rw [hσ] at hat
      have hheld : ∀ s, isbadsem s = false → s = (m.data.porttab p).ptssem ∨ s = (m.data.porttab p).ptrsem → Port.Held m.data st p s := by
        intro s hg how
        refine ⟨hp, hg, ?_⟩
        rw [hσ]
        rcases how with rfl | rfl <;> simp [Stage.holds]
      refine ⟨.start hu ?_ hfit hused (fun hg => ?_) (fun hg => ?_) (Or.inr rfl), hu, w, hret⟩
      · obtain ⟨h1, h2⟩ := hat.1.quiet
        rw [hd, Ports.queued, show (ports.resume m.data m.k.currpid (.cleared p .PT_ALLOC) v').1.enqueued p = [] from h1,
          show (ports.resume m.data m.k.currpid (.cleared p .PT_ALLOC) v').1.dequeued p = [] from h2]
        rfl
      · rw [hself] at hg ⊢
        rw [hk]
        exact I.ok.sems.receivers p hσ (hheld _ hg (Or.inr rfl))
      · rw [hself] at hg ⊢
        rw [hk]
        exact I.ok.sems.senders p (Or.inr hσ) (hheld _ hg (Or.inl rfl))

/-- `wait` returns `SYSERR` only for an identifier that is none. -/
theorem Port.call_wait {k : Kernel QueueTab} {t : Int} (hused : isbadsem t = false → (k.semtab t).sstate = .S_USED) :
    (k.call (.wait t)).2 = .ret (answer t) := by
  change (k.wait t).2 = _
  unfold Kernel.wait answer
  by_cases hbad : isbadsem t = true
  · rw [if_pos hbad, if_pos hbad]
  · rw [if_neg hbad, if_neg hbad, if_neg (by rw [hused (eq_false_of_ne_true hbad)]; nofun)]
    simp only
    split <;> rfl

/-- What `wait` returns to a routine that begins to wait. -/
theorem PortsFlow.tells (I : PortsFlow m own st loc) (hs : m.step e = some m') (hx : m.Follows e l x)
    {c : Call} {g : Point} (hc : x.2 = .call c g) (hw : g.waits = true)
    (hdeal : ∀ p, isbadport p = false → st' p = .live → Ports.Deal m.data p ((m.resumed e).map Prod.fst) x) :
    ∃ w, (m.k.call c).2 = .ret w ∧ Told x.1 st' g w := by
  have hg : x.2.routine = some g := by rw [hc]; rfl
  have hm := I.ok.making_resumed hs
  -- the routine is at the beginning of `ptsend` or of `ptrecv`
  obtain ⟨t, rfl, hused⟩ : ∃ t, c = .wait t ∧ (isbadsem t = false → (m.k.semtab t).sstate = .S_USED) := by
    rcases hx.enter_or_resume with ⟨o, rfl, rfl⟩ | ⟨f, v, hr, rfl⟩
    · have hlive : ∀ q, (m.data.porttab q).ptstate = .PT_ALLOC → isbadport q = false ∧ st q = .live := fun q ha =>
        I.ok.sound.is_live ha fun c => ⟨fun h => (nomatch (hm q c).1 h), fun h => (nomatch (hm q c).2 h)⟩
      rcases enter_routine m.data m.k.currpid o hg with ⟨q, _, ha, ⟨msg, hx'⟩ | hx'⟩ | ⟨q, n, ⟨w, rfl⟩ | rfl, _⟩ | ⟨q, c, rfl⟩ | ⟨n, rfl⟩
      · rw [hx'] at hc
        obtain ⟨rfl, _⟩ := Next.call.inj hc
        obtain ⟨hp, hst⟩ := hlive q ha
        exact ⟨_, rfl, fun hgood => I.ok.sems.used q _ (held_live hp hst hgood (Or.inl rfl))⟩
      · rw [hx'] at hc
        obtain ⟨rfl, _⟩ := Next.call.inj hc
        obtain ⟨hp, hst⟩ := hlive q ha
        exact ⟨_, rfl, fun hgood => I.ok.sems.used q _ (held_live hp hst hgood (Or.inr rfl))⟩
      all_goals cases hw
    · rw [resume_not_waits _ hg] at hw
      cases hw
  refine ⟨_, call_wait hused, fun p hp hst => ?_⟩
  cases hdeal p hp hst with
  | idle hsame _ _ hnone =>
    obtain ⟨h1, h2⟩ := hnone g hg
    rw [hsame.entry, h1, h2]
    exact ⟨nofun, nofun⟩
  | asksSend _ hx' =>
    rw [hx'] at hc ⊢
    obtain ⟨h1, rfl⟩ := Next.call.inj hc
    exact ⟨fun _ => (by rw [Call.wait.inj h1]), nofun⟩
  | asksReceive _ hx' =>
    rw [hx'] at hc ⊢
    obtain ⟨h1, rfl⟩ := Next.call.inj hc
    exact ⟨nofun, fun _ => (by rw [Call.wait.inj h1])⟩
  | sends _ _ hx' | receives _ _ hx' =>
    rw [hx'] at hc
    obtain ⟨h1, _⟩ := Next.call.inj hc
    cases h1

theorem Port.Ports.Turn.half_of {o : Option Point} {q c : Int} {c' : Call} (t : d.Turn st v o x st')
    (hc : x.2 = .call c' (.gotrsem q c)) : o = some (.gotssem q c) := by
  cases t with
  | half =>
    obtain ⟨_, h⟩ := Next.call.inj hc
    obtain ⟨rfl, rfl⟩ := Point.gotrsem.inj h
    rfl
  | sem _ _ hg =>
    obtain ⟨_, rfl⟩ := Next.call.inj hc
    cases hg.1
  | making | released | cleared =>
    obtain ⟨_, h⟩ := Next.call.inj hc
    cases h
  | ret | made | disposing | done | stop => cases hc

/-- Only `_ptclear` calls a procedure of the user. -/
theorem Port.Ports.Turn.callback_of {o : Option Point} {g : Point} (t : d.Turn st v o x st') (hc : x.2 = .callback g) :
    ∃ q newstate walk, g = .disposing q newstate walk := by
  cases t with
  | disposing =>
    obtain rfl := Next.callback.inj hc
    exact ⟨_, _, _, rfl⟩
  | ret | sem | making | half | made | released | cleared | done | stop => cases hc

/-- What `semcreate` returns to `ptcreate`. -/
theorem PortsFlow.creates (I : PortsFlow m own st loc) (hs : m.step e = some m') (U : m.PortsUsed e) (St : Steady m h) (T : AllTracked h)
    (H : Handles m.k m'.k (m.issued e)) (hx : m.Follows e l x) (S' : x.1.Sound own' st')
    (t : m.data.Turn st v ((m.resumed e).map Prod.fst) x st') {c : Call} {g : Point} (hc : x.2 = .call c g) (hg : g.makes = true) :
    (m.k.call c).1.currpid = m.k.currpid ∧ ∃ w, (m.k.call c).2 = .ret w ∧ Untried (m.k.call c).1 x.1 g w := by
  have hroutine : x.2.routine = some g := by rw [hc]; rfl
  have hcr := t.creates (fun q c => I.ok.making_resumed hs q c)
  obtain ⟨q, W⟩ := (t.works fun g hg q σ hσ => ((I.ok.resumed hx g hg).2 q σ hσ).1).resolve_left fun h => by
    have hnone := (h.2 g hroutine).1
    cases g with
    | gotssem | gotrsem => cases hnone
    | _ => cases hg
  have hstage := W.routine g hroutine
  have hat := S'.port q W.good
  -- the semaphore that is created
  have hnew : ∀ n : Int, int32 n = n → (m.k.call (.semcreate n)).1.currpid = m.k.currpid ∧
      ∃ w, (m.k.call (.semcreate n)).2 = .ret w ∧ (isbadsem w = false → Port.Settled (m.k.call (.semcreate n)).1 w n) := by
    intro n hn
    obtain ⟨h1, w, h2, h3⟩ := St.semcreate_new T U.fits hn
    refine ⟨h1, w, h2, fun hgood => ?_⟩
    rcases h3 with rfl | ⟨_, _, hsem, _, hwaits⟩
    · cases hgood
    · exact ⟨congrArg Sentry.scount hsem, hwaits⟩
  cases g with
  | gotssem q' n =>
    obtain ⟨rfl, hn⟩ := Prod.mk.inj (Option.some.inj hstage)
    rw [← hn] at hat
    obtain ⟨_, _, h1, h2⟩ := hat
    obtain ⟨rfl, _⟩ := Next.call.inj (hc.symm.trans ((hcr q' n).1 hn.symm))
    exact hnew n (int32_of_range (by omega) h2)
  | gotrsem q' n =>
    obtain ⟨rfl, hn⟩ := Prod.mk.inj (Option.some.inj hstage)
    have hcall := (hcr q' n).2 hn.symm
    obtain ⟨rfl, _⟩ := Next.call.inj (hc.symm.trans hcall)
    obtain ⟨hcur, w, hw, hsettled⟩ := hnew 0 rfl
    refine ⟨hcur, w, hw, hsettled, fun hgood => ?_⟩
    have hfrom := t.half_of hcall
    obtain ⟨⟨f, w₀⟩, hr, rfl⟩ := Option.map_eq_some_iff.mp hfrom
    have hsegment : x = ports.resume m.data m.k.currpid (.gotssem q' n) w₀ :=
      Option.some.inj (hx.segment.symm.trans (Machine.segment_resumed hr))
    have hself : (x.1.porttab q').ptssem = int32 w₀ := by
      rw [hsegment]
      exact congrArg Ptentry.ptssem (Ports.setEntry_self m.data q' { m.data.porttab q' with ptssem := int32 w₀ })
    rw [hself] at hgood ⊢
    have hnewsem := I.ok.new_sem hs hx hr (Or.inl rfl)
    have hold : isbadsem w₀ = false → Port.Settled m.k w₀ n := I.untried.resumed hr rfl
    obtain ⟨hused, _⟩ := hnewsem.stored hgood
    rcases hnewsem with rfl | ⟨hv, _⟩
    · cases hgood
    · rw [int32_of_good hv] at hused ⊢
      have hk : m'.k = (m.k.call (.semcreate 0)).1 := by
        obtain ⟨d, y⟩ := x
        obtain rfl : y = .call (.semcreate 0) (.gotrsem q' n) := hcall
        exact (follow_call hx hs).1
      rw [← hk]
      refine H.settled _ _ hv hused (fun c hi => ?_) (hold hv)
      obtain ⟨d, y⟩ := x
      obtain rfl : y = .call (.semcreate 0) (.gotrsem q' n) := hcall
      rw [hx.issued] at hi
      obtain rfl := Option.some.inj hi
      rfl
  | _ => cases hg

/-- While `_ptclear` works on a port, nobody has seen its sequence number. -/
theorem PortsFlow.clears (I : PortsFlow m own st loc) (U : m.PortsUsed e) (St : Steady m h) (hx : m.Follows e l x) (hd : m'.data = x.1)
    (hf : ∀ q, routines (m'.context q) = if q = m.k.currpid then x.2.routine.toList ++ routines l else routines (m.context q))
    (S' : x.1.Sound own' st') (t : m.data.Turn st v ((m.resumed e).map Prod.fst) x st') (hp : isbadport p = false)
    (hst : (st' p).clears = true) : m'.Unseen p (m'.data.porttab p).ptseq := by
  have hafter : m.dataAfter e = x.1 := by rw [Machine.dataAfter, hx.segment]; rfl
  have hlimbo : (x.1.porttab p).ptstate = .PT_LIMBO := by
    have hat := S'.port p hp
    cases hσ : st' p with
    | idle | making | half | live =>
      rw [hσ] at hst
      cases hst
    | disposing | released | cleared =>
      rw [hσ] at hat
      exact hat.1.state
  have hu : m.Unseen p (x.1.porttab p).ptseq := by
    by_cases hseq : (x.1.porttab p).ptseq = (m.data.porttab p).ptseq
    · rw [hseq]
      refine I.clearing p hp ((t.comes_clearing (fun g hg q σ hσ => ((I.ok.resumed hx g hg).2 q σ hσ).2.1) hst).resolve_right ?_)
      -- `ptreset` and `ptdelete` change the number
      rintro ⟨hnone, g, hg, hstage⟩
      rcases hx.enter_or_resume with ⟨o, rfl, rfl⟩ | ⟨f, v, hr, rfl⟩
      · rcases enter_routine m.data m.k.currpid o hg with ⟨q, _, _, ⟨msg, hx'⟩ | hx'⟩ | ⟨q, n, how, hq⟩ | ⟨q, c, rfl⟩ | ⟨n, rfl⟩
        · rw [hx'] at hg
          obtain rfl := Option.some.inj hg
          cases hstage
        · rw [hx'] at hg
          obtain rfl := Option.some.inj hg
          cases hstage
        · have hpq : q = p := by
            rcases how with ⟨w, rfl⟩ | rfl <;> exact (Prod.mk.inj (Option.some.inj hstage)).1
          rw [hpq, hseq] at hq
          exact int32_succ_ne _ hq.symm
        · rw [← (Prod.mk.inj (Option.some.inj hstage)).2] at hst
          cases hst
        · cases hstage
      · rw [hr] at hnone
        cases hnone
    · have := U.unseen St hp (hafter ▸ hseq)
      rwa [hafter] at this
  rw [hd]
  refine hu.follows hx hf fun g hg => ?_
  by_contra hne
  have halloc := waits_alloc (p := p) hx hg (by
    rw [not_and_or] at hne
    exact hne.imp eq_true_of_ne_false eq_true_of_ne_false)
  rw [hlimbo] at halloc
  cases halloc

/-- A piece of a routine runs. -/
theorem PortsFlow.library (I : PortsFlow m own st loc) (hs : m.step e = some m') (U : m.PortsUsed e) (hrun : m'.k.status = .running)
    (St : Steady m h) (T : AllTracked h) (St' : Steady m' h') (D : Does m e h m' h') (hx : m.Follows e l x) (hd : m'.data = x.1)
    (hf : ∀ q, routines (m'.context q) = if q = m.k.currpid then x.2.routine.toList ++ routines l else routines (m.context q)) :
    ∃ own' st' loc', PortsFlow m' own' st' loc' := by
  have H := handles D St St'
  obtain ⟨v, own', st', hv, t, S', _⟩ := I.ok.turn hs U.alone hx
  obtain ⟨loc', I'⟩ := I.ok.library hs St H hx hd hf hv t S'
  have hseg := hx.segment
  have hstop : ∀ d s, x ≠ (d, .stop s) := by
    rintro d s rfl
    exact not_stopped hs hrun s hseg
  have hstop' : ∀ d s, m.segment e ≠ some (d, .stop s) := fun d s => not_stopped hs hrun s
  -- a port in use has been in use, or nobody has seen its number
  have hports : ∀ p, isbadport p = false → st' p = .live → st p = .live ∧ Ports.Deal m.data p ((m.resumed e).map Prod.fst) x ∨
      Flow m' p ∧ m'.Unseen p (m'.data.porttab p).ptseq ∧ ∃ w, x.2 = .ret w := by
    intro p hp hst'
    by_cases hst : st p = .live
    · refine Or.inl ⟨hst, I.deal hs U.alone hx hrun hp hst ?_⟩
      have hat := S'.port p hp
      rw [hst'] at hat
      exact hat.1
    · exact Or.inr (I.opens hs U St hx hd hf I' t hp hst hst')
  have hdeal : ∀ c g, x.2 = .call c g → ∀ p, isbadport p = false → st' p = .live →
      Ports.Deal m.data p ((m.resumed e).map Prod.fst) x := by
    intro c g hc p hp hst'
    rcases hports p hp hst' with ⟨_, h⟩ | ⟨_, _, w, h⟩
    · exact h
    · rw [h] at hc
      cases hc
  refine ⟨own', st', loc', I', fun p hp hst' => ?_, ?_, ?_, fun p hp hst' => I.clears U St hx hd hf S' t hp hst'⟩
  · rcases hports p hp hst' with ⟨hst, h⟩ | ⟨h, _⟩
    · refine (I.flow p hp hst).segment hs St T St' D hseg hstop h hd (I.ok.inUse hp hst) ?_ ?_ U.spares
      · rw [← hd]
        exact (I'.inUse hp hst').queued
      · rintro s hgood how c rfl
        exact Machine.PortsAlone.untouched U.alone I.ok.sound (held_live hp hst hgood how)
    · exact h
  · refine I.told.step hs St.stackOk (fun d c f hc hw => ?_) (fun q f v hq hm htold p hp hst' => ?_) (fun d f hc => ?_) hstop'
    · obtain rfl := Option.some.inj (hseg.symm.trans hc)
      have h := I.tells hs hx rfl hw (hdeal c f rfl)
      rwa [← hd] at h
    · rcases hports p hp hst' with ⟨hst, h⟩ | ⟨_, h, _⟩
      · have huse := h.use
        rw [hd, huse.ssem, huse.rsem, huse.seq]
        exact htold p hp hst
      · obtain ⟨h1, h2⟩ := h q f (by rw [hf q, if_neg hq]; exact hm)
        rw [h1, h2]
        exact ⟨nofun, nofun⟩
    · obtain rfl := Option.some.inj (hseg.symm.trans hc)
      obtain ⟨_, _, _, rfl⟩ := t.callback_of rfl
      rfl
  · refine I.untried.step hs St.stackOk (fun d c f hc hw => ?_) (fun d f hc => ?_) hstop'
    · obtain rfl := Option.some.inj (hseg.symm.trans hc)
      exact I.creates hs U St T H hx S' t rfl hw
    · obtain rfl := Option.some.inj (hseg.symm.trans hc)
      obtain ⟨_, _, _, rfl⟩ := t.callback_of rfl
      rfl

/-- Nothing happens to the library. -/
theorem PortsFlow.idle (I : PortsFlow m own st loc) (hs : m.step e = some m') (U : m.PortsUsed e) (St : Steady m h) (T : AllTracked h)
    (St' : Steady m' h') (D : Does m e h m' h') (hd : m'.data = m.data) (hn : m.segment e = none)
    (hf : ∀ q, routines (m'.context q) = routines (m.context q) ∨ routines (m'.context q) = []) : PortsFlow m' own st loc := by
  have hstop : ∀ d s, m.segment e ≠ some (d, .stop s) := by
    rw [hn]
    nofun
  refine ⟨I.ok.quiet hs U.alone (handles D St St') hd hf hn, fun p hp hst => ?_, ?_, ?_, fun p hp hst => ?_⟩
  · refine (I.flow p hp hst).quiet hs St T St' D hn hd (I.ok.inUse hp hst) ?_ U.spares
    rintro s hgood how c rfl
    exact Machine.PortsAlone.untouched U.alone I.ok.sound (held_live hp hst hgood how)
  · refine I.told.step hs St.stackOk ?_ (fun q f v _ _ htold => hd ▸ htold) ?_ hstop
    · rw [hn]
      nofun
    · rw [hn]
      nofun
  · refine I.untried.step hs St.stackOk ?_ ?_ hstop
    · rw [hn]
      nofun
    · rw [hn]
      nofun
  · rw [hd]
    exact (I.clearing p hp hst).congr hf

/-- Every event keeps the messages counted. -/
theorem PortsFlow.step (I : PortsFlow m own st loc) (hs : m.step e = some m') (U : m.PortsUsed e) (hrun : m'.k.status = .running)
    (St : Steady m h) (T : AllTracked h) (St' : Steady m' h') (D : Does m e h m' h') : ∃ own' st' loc', PortsFlow m' own' st' loc' := by
  cases Machine.step_segment hs with
  | quiet hd hf hn => exact ⟨own, st, loc, I.idle hs U St T St' D hd hn fun q => Or.inl (hf q)⟩
  | killed pid hd hf hn =>
    refine ⟨own, st, loc, I.idle hs U St T St' D hd hn fun q => ?_⟩
    rw [hf q]
    split
    · exact Or.inr rfl
    · exact Or.inl rfl
  | library l x hx hd hf => exact I.library hs U hrun St T St' D hx hd hf
  | stopped l d s hx => exact absurd hx.segment (not_stopped hs hrun s)

/-- A routine that `ptrecv` has brought past `wait` finds a message. -/
theorem PortsFlow.not_faulted (I : PortsFlow m own st loc) (hs : m.step e = some m') (St : Steady m h) (T : AllTracked h) :
    m.segment e ≠ some (d, .stop .faulted) := by
  intro hx
  rcases stops hx with hbad | ⟨_, p, seq, v, hr, hv, ha, rfl, hnull⟩
  · cases hbad
  have hm := I.ok.making_resumed hs
  obtain ⟨hp, hst⟩ := I.ok.sound.is_live ha fun c => by
    obtain ⟨h1, h2⟩ := hm p c
    rw [hr] at h1 h2
    exact ⟨fun h => (nomatch h1 h), fun h => (nomatch h2 h)⟩
  have hans := (I.told.resumed hr rfl p hp hst).2 (decide_eq_true ⟨rfl, rfl⟩)
  have hgood : isbadsem (m.data.porttab p).ptrsem = false := by
    by_contra hbad
    rw [answer, eq_true_of_ne_false hbad] at hans
    exact hv hans
  obtain ⟨K, hu⟩ := (I.flow p hp hst).receive hgood
  have hle := leaves_le_units K hs St T
  have hone : m.leaves (Point.receives p (m.data.porttab p).ptseq) e = 1 := by
    rw [Machine.leaves, hr]
    simp [Point.receives]
  have hat := I.ok.sound.port p hp
  rw [hst] at hat
  obtain ⟨_, hqueue, hlist, _⟩ := hat
  rw [hqueue.linked.null_iff.mp hnull] at hlist
  rw [hu, hone, Ports.queued, hlist, List.length_append] at hle
  simp at hle

end Step

/-- In every state that is reached while the processor runs, the messages are counted. -/
theorem PortsFlow.reach {m₀ m : Machine ports} {h₀ : Kernel QLists} {own : Option Int → List (Nat × Nat)} {st : Int → Stage}
    {loc : Int → Int × Nat} (I : PortsFlow m₀ own st loc) (St : Steady m₀ h₀) (T : AllTracked h₀)
    (r : Machine.Reach Machine.PortsUsed m₀ m) :
    (m.k.status = .running → ∃ own' st' loc', PortsFlow m own' st' loc') ∧ ∃ h, Steady m h ∧ AllTracked h := by
  refine reach_invariant (I := fun m => m.k.status = .running → ∃ own' st' loc', PortsFlow m own' st' loc')
    (fun m e U => U.lawful) St T (fun _ => ⟨own, st, loc, I⟩) ?_ r
  intro m m' e h h' U hs St T St' D I hrun
  obtain ⟨own', st', loc', I⟩ := I (Machine.step_effect hs).1
  exact I.step hs U hrun St T St' D

/-- Before the first call of `ptcreate`. -/
theorem PortsFlow.boot {n : Int} {buf : Nat} (hn : 1 ≤ n) (hbuf : 0 < buf) (hfit : buf + 8 * n ≤ 4294967296) (minheap maxheap : Nat) :
    ∃ own, PortsFlow (boot ports (Ports.started n buf) minheap maxheap) own (fun _ => .idle) fun _ => (0, 0) := by
  obtain ⟨own, S, _⟩ := Ports.started_sound hn hbuf hfit
  refine ⟨own, PortsOk.idle S fun _ => rfl, fun p _ hst => (by cases hst), ⟨fun p => List.isChain_nil, fun p f hm => (by cases hm),
    fun p r f l hp => (by cases hp)⟩, ⟨fun p => List.isChain_nil, fun p f hm => (by cases hm), fun p r f l hp => (by cases hp)⟩,
    fun p _ hst => (by cases hst)⟩

end Xinu
