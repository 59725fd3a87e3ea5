import Xinu.Message.PortSemaphores

/-!
# The ports in every run

`PortsOk` holds in every state of a run in which user code leaves the semaphores of the ports alone: the tables are in order, the
routine that works on a port is where its stage says, and the nodes are the same as before.
-/

namespace Xinu

open Port

/-- User code leaves the semaphores of the ports to the library, and does not call `ptinit` again. -/
def Machine.PortsAlone (m : Machine ports) : Event ports → Bool
  | .call c => (List.range NPORTS.toNat).all fun p =>
    decide ((m.data.porttab p).ptstate = .PT_FREE) ||
      [(m.data.porttab p).ptssem, (m.data.porttab p).ptrsem].all fun s => isbadsem s || !c.touches s
  | .op (.ptinit _) => false
  | _ => true

/-- The ports have come to the stages `st`, and the routine that works on a port is at the place `loc` on the stacks. -/
structure PortsOk (m : Machine ports) (own : Option Int → List (Nat × Nat)) (st : Int → Stage) (loc : Int → Int × Nat) :
    Prop where
  sound : m.data.Sound own st
  sems : Sems m.k m.data st
  frames : ∀ x i f, (routines (m.context x)).reverse[i]? = some f → (∀ n, f ≠ .gotnodes n) ∧
    ∀ p σ, f.stage = some (p, σ) → isbadport p = false ∧ st p = σ ∧ loc p = (x, i)
  making : ∀ p c, (st p = .making c → ∃ v l, m.stack = .kernel (.ret v) :: .client (.gotssem p c) :: l ∧ NewSem m.k m.data st v) ∧
    (st p = .half c → ∃ v l, m.stack = .kernel (.ret v) :: .client (.gotrsem p c) :: l ∧ NewSem m.k m.data st v)

section Step

variable {m m' : Machine ports} {e : Event ports} {h h' : Kernel QLists} {own : Option Int → List (Nat × Nat)} {st : Int → Stage}
  {loc : Int → Int × Nat} {p q s : Int}

/-- A port that holds a semaphore is in use. -/
theorem Port.Held.in_use {d : Ports} (hh : Held d st p s) (S : d.Sound own st) :
    (d.porttab p).ptstate ≠ .PT_FREE ∧ s ∈ [(d.porttab p).ptssem, (d.porttab p).ptrsem] := by
  have hat := S.port p hh.port
  have hm := hh.holds
  cases hst : st p with
  | idle | making c =>
    rw [hst] at hm
    cases hm
  | half c =>
    rw [hst] at hm hat
    refine ⟨by rw [hat.1]; nofun, ?_⟩
    rw [List.mem_singleton.mp hm]
    simp
  | live =>
    rw [hst] at hm hat
    exact ⟨by rw [hat.1]; nofun, hm⟩
  | disposing newstate w =>
    rw [hst] at hm hat
    exact ⟨by rw [hat.1.state]; nofun, hm⟩
  | released newstate =>
    rw [hst] at hm hat
    refine ⟨by rw [hat.1.state]; nofun, ?_⟩
    rw [Stage.holds] at hm
    split at hm
    · exact hm
    · exact List.mem_cons_of_mem _ hm
  | cleared newstate =>
    rw [hst] at hm hat
    refine ⟨by rw [hat.1.state]; nofun, ?_⟩
    rw [Stage.holds] at hm
    split at hm
    · exact hm
    · cases hm

/-- User code makes no call for a semaphore of a port. -/
theorem Machine.PortsAlone.untouched {c : Call} (ha : m.PortsAlone (.call c) = true) (S : m.data.Sound own st)
    (hh : Port.Held m.data st p s) : c.touches s = false := by
  obtain ⟨hused, hm⟩ := hh.in_use S
  obtain ⟨h0, hN⟩ := Ports.isbadport_iff.mp hh.port
  have hmem : p.toNat ∈ List.range NPORTS.toNat := List.mem_range.mpr (by omega)
  have hall := List.all_eq_true.mp ha p.toNat hmem
  rw [Int.toNat_of_nonneg h0] at hall
  have hs := List.all_eq_true.mp ((Bool.or_eq_true _ _).mp hall |>.resolve_left (by simpa using hused)) s hm
  simpa [hh.good] using hs

/-- The routine that goes on works on a port that has come to the stage of it. -/
theorem PortsOk.resumed (I : PortsOk m own st loc) {l : List (Frame Point)} {x : Ports × Next Point} (hx : m.Follows e l x) :
    ∀ g ∈ (m.resumed e).map Prod.fst, (∀ n, g ≠ .gotnodes n) ∧ ∀ p σ, g.stage = some (p, σ) →
      isbadport p = false ∧ st p = σ ∧ loc p = (m.k.currpid, (routines l).length) := by
  intro g hg
  refine I.frames m.k.currpid (routines l).length g ?_
  rw [hx.routines_stack, Option.mem_def.mp hg]
  simp

/-- What `semcreate` has returned to `ptcreate`. -/
theorem PortsOk.new_sem (I : PortsOk m own st loc) (hs : m.step e = some m') {l : List (Frame Point)} {x : Ports × Next Point}
    (hx : m.Follows e l x) {f : Point} {v : Int} (hr : m.resumed e = some (f, v)) {p c : Int}
    (hf : f = .gotssem p c ∨ f = .gotrsem p c) : NewSem m.k m.data st v := by
  have hmem : f ∈ (m.resumed e).map Prod.fst := by
    rw [hr]
    rfl
  rcases hf with rfl | rfl
  · obtain ⟨_, hst, _⟩ := (I.resumed hx _ hmem).2 p _ rfl
    obtain ⟨w, l', hstk, hw⟩ := (I.making p c).1 hst
    rw [Machine.step_resumes hs hstk] at hr
    obtain ⟨_, rfl⟩ := Prod.mk.inj (Option.some.inj hr)
    exact hw
  · obtain ⟨_, hst, _⟩ := (I.resumed hx _ hmem).2 p _ rfl
    obtain ⟨w, l', hstk, hw⟩ := (I.making p c).2 hst
    rw [Machine.step_resumes hs hstk] at hr
    obtain ⟨_, rfl⟩ := Prod.mk.inj (Option.some.inj hr)
    exact hw

/-- No port is being made, unless `ptcreate` goes on. -/
theorem PortsOk.making_resumed (I : PortsOk m own st loc) (hs : m.step e = some m') (p c : Int) :
    (st p = .making c → (m.resumed e).map Prod.fst = some (.gotssem p c)) ∧
      (st p = .half c → (m.resumed e).map Prod.fst = some (.gotrsem p c)) := by
  refine ⟨fun h => ?_, fun h => ?_⟩
  · obtain ⟨w, l, hstk, _⟩ := (I.making p c).1 h
    rw [Machine.step_resumes hs hstk]
    rfl
  · obtain ⟨w, l, hstk, _⟩ := (I.making p c).2 h
    rw [Machine.step_resumes hs hstk]
    rfl

/-- Nothing happens to the library. -/
theorem PortsOk.quiet (I : PortsOk m own st loc) (hs : m.step e = some m') (ha : m.PortsAlone e = true) (H : Handles m.k m'.k (m.issued e))
    (hd : m'.data = m.data) (hf : ∀ p, routines (m'.context p) = routines (m.context p) ∨ routines (m'.context p) = [])
    (hn : m.segment e = none) : PortsOk m' own st loc := by
  have hno : ∀ p c, st p ≠ .making c ∧ st p ≠ .half c := by
    have hr := Machine.resumed_none hn
    intro p c
    obtain ⟨h1, h2⟩ := I.making_resumed hs p c
    rw [hr] at h1 h2
    refine ⟨fun h => ?_, fun h => ?_⟩
    · cases h1 h
    · cases h2 h
  refine ⟨hd ▸ I.sound, hd ▸ I.sems.quiet H (Ports.SameSems.refl _) (fun c hc q s hh => ?_), fun x i f hi => ?_,
    fun p c => ⟨fun h => absurd h (hno p c).1, fun h => absurd h (hno p c).2⟩⟩
  · rcases issued_cases hc with rfl | ⟨d, f, hx⟩
    · exact Machine.PortsAlone.untouched ha I.sound hh
    · rw [hn] at hx
      cases hx
  · rcases hf x with h | h
    · exact I.frames x i f (h ▸ hi)
    · rw [h] at hi
      cases hi

/-- A system call of the library. -/
theorem follow_call {l : List (Frame Point)} {d : Ports} {c : Call} {g : Point} (hx : m.Follows e l (d, .call c g))
    (hs : m.step e = some m') : m'.k = (m.k.call c).1 ∧ m'.context m.k.currpid = .kernel (m.k.call c).2 :: .client g :: l := by
  rw [hx.step hs]
  exact ⟨rfl, Machine.enterCall_self _ _⟩

/-- The frames after a piece of a routine. -/
theorem PortsOk.frames_next (I : PortsOk m own st loc) {l : List (Frame Point)} {x : Ports × Next Point} (hx : m.Follows e l x)
    (hf : ∀ p, routines (m'.context p) =
      if p = m.k.currpid then x.2.routine.toList ++ routines l else routines (m.context p)) {st' : Int → Stage} {v : Int}
    (t : m.data.Turn st v ((m.resumed e).map Prod.fst) x st') :
    ∃ loc' : Int → Int × Nat, ∀ y i f, (routines (m'.context y)).reverse[i]? = some f → (∀ n, f ≠ .gotnodes n) ∧
      ∀ p σ, f.stage = some (p, σ) → isbadport p = false ∧ st' p = σ ∧ loc' p = (y, i) := by
  have htop := I.resumed hx
  -- a frame is the new one, or one that was there, below the one that goes on
  have hold : ∀ y i f, (routines (m'.context y)).reverse[i]? = some f →
      (routines (m.context y)).reverse[i]? = some f ∧ (y, i) ≠ (m.k.currpid, (routines l).length) ∨
        (y, i) = (m.k.currpid, (routines l).length) ∧ x.2.routine = some f := by
    intro y i f hi
    rw [hf y] at hi
    split at hi
    · next hy =>
      subst hy
      rw [List.reverse_append] at hi
      by_cases hlt : i < (routines l).length
      · rw [List.getElem?_append_left (by simpa using hlt)] at hi
        refine Or.inl ⟨?_, fun e => absurd (Prod.mk.inj e).2 (Nat.ne_of_lt hlt)⟩
        rw [hx.routines_stack, List.reverse_append, List.getElem?_append_left (by simpa using hlt)]
        exact hi
      · rw [List.getElem?_append_right (by simpa using hlt), List.length_reverse] at hi
        have hmem := List.mem_of_getElem? hi
        rw [List.mem_reverse, Option.mem_toList] at hmem
        rw [hmem] at hi
        have hzero : i - (routines l).length = 0 := by
          by_contra hne
          obtain ⟨j, hj⟩ := Nat.exists_eq_succ_of_ne_zero hne
          rw [hj] at hi
          cases hi
        exact Or.inr ⟨by rw [Prod.mk.injEq]; exact ⟨rfl, by omega⟩, hmem⟩
    · next hy => exact Or.inl ⟨hi, fun e => hy (Prod.mk.inj e).1⟩
  rcases t.works (fun g hg p σ hs => ((htop g hg).2 p σ hs).1) with ⟨rfl, hnew⟩ | ⟨p, W⟩
  · refine ⟨loc, fun y i f hi => ?_⟩
    rcases hold y i f hi with ⟨h, _⟩ | ⟨_, h⟩
    · exact I.frames y i f h
    · obtain ⟨h1, h2⟩ := hnew f h
      refine ⟨h2, fun p σ hs => ?_⟩
      rw [h1] at hs
      cases hs
  · refine ⟨Function.update loc p (m.k.currpid, (routines l).length), fun y i f hi => ?_⟩
    rcases hold y i f hi with ⟨h, hne⟩ | ⟨he, h⟩
    · obtain ⟨h1, h2⟩ := I.frames y i f h
      refine ⟨h1, fun q σ hs => ?_⟩
      obtain ⟨hq, hst, hloc⟩ := h2 q σ hs
      have hqp : q ≠ p := by
        rintro rfl
        obtain ⟨hn1, hn2⟩ := stage_ne hs
        rcases W.mine with hw | hw | ⟨g, hg, τ, hw⟩
        · exact hn1 (hst.symm.trans hw)
        · exact hn2 (hst.symm.trans hw)
        · exact hne (hloc.symm.trans ((htop g hg).2 q τ hw).2.2)
      rw [Function.update_of_ne hqp, W.others q hqp]
      exact ⟨hq, hst, hloc⟩
    · have hstage := W.routine f h
      refine ⟨?_, fun q σ hs => ?_⟩
      · rintro n rfl
        cases hstage
      · rw [hstage] at hs
        obtain ⟨rfl, rfl⟩ := Prod.mk.inj (Option.some.inj hs)
        rw [Function.update_self]
        exact ⟨W.good, rfl, he.symm⟩

/-- A piece of a routine runs. -/
theorem PortsOk.library (I : PortsOk m own st loc) (hs : m.step e = some m') (St : Steady m h) (H : Handles m.k m'.k (m.issued e))
    {l : List (Frame Point)} {x : Ports × Next Point} (hx : m.Follows e l x) (hd : m'.data = x.1)
    (hf : ∀ p, routines (m'.context p) =
      if p = m.k.currpid then x.2.routine.toList ++ routines l else routines (m.context p)) {v : Int}
    (hv : ∀ p c, (m.resumed e).map Prod.fst = some (.gotssem p c) ∨ (m.resumed e).map Prod.fst = some (.gotrsem p c) →
      NewSem m.k m.data st v) {own' : Option Int → List (Nat × Nat)} {st' : Int → Stage}
    (t : m.data.Turn st v ((m.resumed e).map Prod.fst) x st') (S' : x.1.Sound own' st') :
    ∃ loc', PortsOk m' own' st' loc' := by
  obtain ⟨loc', hframes⟩ := I.frames_next hx hf t
  have hmaxcnt : ∀ p, isbadport p = false → (st p = .live ∨ ∃ newstate w, st p = .disposing newstate w) →
      (m.data.porttab p).ptmaxcnt ≤ 65535 := by
    intro p hp hst
    have hsized : m.data.Sized p := by
      have hat := I.sound.port p hp
      rcases hst with hst | ⟨newstate, w, hst⟩
      · rw [hst] at hat
        exact hat.2.2.2
      · rw [hst] at hat
        exact hat.1.sized
    rw [hsized.maxcnt]
    omega
  have hsems : Sems m'.k x.1 st' := by
    refine t.sems I.sems (hx.issued ▸ H) St.sim St.inv (fun c g hc => ?_) (fun g hg p σ hs => ?_) hv hmaxcnt
    · obtain ⟨d, n⟩ := x
      obtain rfl : n = .call c g := hc
      exact (follow_call hx hs).1
    · obtain ⟨h1, h2, _⟩ := (I.resumed hx g hg).2 p σ hs
      exact ⟨h1, h2⟩
  -- what `semcreate` returns
  have hcreated : ∀ n g, x.2 = .call (.semcreate n) g →
      ∃ w, m'.stack = .kernel (.ret w) :: .client g :: l ∧ NewSem m'.k m'.data st' w := by
    intro n g hc
    have hheld := fun q s => t.held_used (q := q) (s := s) I.sems hc hv
    obtain ⟨d, y⟩ := x
    obtain rfl : y = .call (.semcreate n) g := hc
    obtain ⟨hk, hctx⟩ := follow_call hx hs
    obtain ⟨hpid, w, hw, hnew⟩ := semcreate_value St.sim St.inv n
    have hcur : m'.k.currpid = m.k.currpid := by
      rw [hk]
      exact hpid
    refine ⟨w, ?_, ?_⟩
    · rw [Machine.stack, hcur, hctx, ← hw]
      rfl
    · rw [hd]
      refine NewSem.created ?_ (fun q s hh => hheld q s hh)
      rw [hk]
      exact hnew
  have hcr := t.creates (fun q c => I.making_resumed hs q c)
  refine ⟨loc', hd ▸ S', hd ▸ hsems, hframes, fun p c => ⟨fun h => ?_, fun h => ?_⟩⟩
  · obtain ⟨w, hstk, hw⟩ := hcreated _ _ ((hcr p c).1 h)
    exact ⟨w, l, hstk, hw⟩
  · obtain ⟨w, hstk, hw⟩ := hcreated _ _ ((hcr p c).2 h)
    exact ⟨w, l, hstk, hw⟩

/-- Every piece of a routine is one of the turns. -/
theorem PortsOk.turn (I : PortsOk m own st loc) (hs : m.step e = some m') (ha : m.PortsAlone e = true)
    {l : List (Frame Point)} {x : Ports × Next Point} (hx : m.Follows e l x) :
    ∃ v own' st', (∀ p c, (m.resumed e).map Prod.fst = some (.gotssem p c) ∨ (m.resumed e).map Prod.fst = some (.gotrsem p c) →
      NewSem m.k m.data st v) ∧ m.data.Turn st v ((m.resumed e).map Prod.fst) x st' ∧ x.1.Sound own' st' ∧
      SameNodes own own' := by
  have hm := I.making_resumed hs
  rcases hx.enter_or_resume with ⟨o, rfl, rfl⟩ | ⟨f, v, hr, rfl⟩
  · have hnone : ∀ p c, st p ≠ .making c ∧ st p ≠ .half c := fun p c =>
      ⟨fun h => (nomatch (hm p c).1 h), fun h => (nomatch (hm p c).2 h)⟩
    obtain ⟨own', st', t, S', K⟩ := I.sound.enter_turn m.k.currpid 0 hnone (o := o) (by rintro n rfl; cases ha)
    exact ⟨0, own', st', nofun, t, S', K⟩
  · have hI := I.resumed hx
    have hnew := fun (p c : Int) => I.new_sem hs hx hr (p := p) (c := c)
    rw [hr] at hm hI ⊢
    obtain ⟨hn, hst⟩ := hI f rfl
    obtain ⟨own', st', t, S', K⟩ := I.sound.resume_turn m.k.currpid v (f := f)
      (fun p σ hs => ⟨(hst p σ hs).1, (hst p σ hs).2.1⟩)
      (fun p c => ⟨fun h => Option.some.inj ((hm p c).1 h), fun h => Option.some.inj ((hm p c).2 h)⟩) hn
    exact ⟨v, own', st', fun p c h => hnew p c (h.imp Option.some.inj Option.some.inj), t, S', K⟩

/-- Every event keeps the ports in order. -/
theorem PortsOk.step (I : PortsOk m own st loc) (hs : m.step e = some m') (ha : m.PortsAlone e = true) (St : Steady m h)
    (St' : Steady m' h') (D : Does m e h m' h') : ∃ own' st' loc', PortsOk m' own' st' loc' ∧ SameNodes own own' := by
  have H := handles D St St'
  cases Machine.step_segment hs with
  | quiet hd hf hn => exact ⟨own, st, loc, I.quiet hs ha H hd (fun p => Or.inl (hf p)) hn, SameNodes.refl own⟩
  | killed pid hd hf hn =>
    refine ⟨own, st, loc, I.quiet hs ha H hd (fun p => ?_) hn, SameNodes.refl own⟩
    rw [hf p]
    split
    · exact Or.inr rfl
    · exact Or.inl rfl
  | library l x hx hd hf =>
    obtain ⟨v, own', st', hv, t, S', K⟩ := I.turn hs ha hx
    obtain ⟨loc', I'⟩ := I.library hs St H hx hd hf hv t S'
    exact ⟨own', st', loc', I', K⟩
  | stopped l d s hx hd hf =>
    obtain ⟨v, own', st', hv, t, S', K⟩ := I.turn hs ha hx
    have hcr := t.creates (fun q c => I.making_resumed hs q c)
    obtain ⟨rfl, rfl⟩ := t.stopped
    refine ⟨own', st', loc, ⟨hd ▸ S', ?_, fun x i f hi => I.frames x i f (hf x ▸ hi), fun p c => ⟨fun h => ?_, fun h => ?_⟩⟩, K⟩
    · rw [hd]
      refine I.sems.quiet H (Ports.SameSems.refl _) (fun c hc => ?_)
      rw [hx.issued] at hc
      cases hc
    · cases (hcr p c).1 h
    · cases (hcr p c).2 h

end Step

/-- The ports remain in order in every state that is reached, with the same nodes. -/
theorem PortsOk.reach {m₀ m : Machine ports} {h₀ : Kernel QLists} {own : Option Int → List (Nat × Nat)} {st : Int → Stage}
    {loc : Int → Int × Nat} (I : PortsOk m₀ own st loc) (St : Steady m₀ h₀) (T : AllTracked h₀)
    (r : Machine.Reach (fun m e => m.Lawful e ∧ m.PortsAlone e = true) m₀ m) :
    ∃ own' st' loc', PortsOk m own' st' loc' ∧ SameNodes own own' := by
  refine (reach_invariant (I := fun m => ∃ own' st' loc', PortsOk m own' st' loc' ∧ SameNodes own own') (fun m e hok => hok.1) St T
    ⟨own, st, loc, I, SameNodes.refl own⟩ ?_ r).1
  rintro m m' e h h' ⟨_, ha⟩ hs St _ St' D ⟨own', st', loc', I', K⟩
  obtain ⟨own'', st'', loc'', I'', K'⟩ := I'.step hs ha St St' D
  exact ⟨own'', st'', loc'', I'', K.trans K'⟩

/-- Before the first call of `ptcreate` no port holds a semaphore. -/
theorem PortsOk.idle {m : Machine ports} {own : Option Int → List (Nat × Nat)} (S : m.data.Sound own fun _ => .idle)
    (hf : ∀ x, routines (m.context x) = []) : PortsOk m own (fun _ => .idle) fun _ => (0, 0) := by
  have hnone : ∀ p s, ¬Port.Held m.data (fun _ => .idle) p s := fun p s hh => by cases hh.holds
  refine ⟨S, ⟨fun p s hh => absurd hh (hnone p s), fun p _ s hh => absurd hh (hnone p s), fun p _ hh => absurd hh (hnone p _),
    fun p _ hh => absurd hh (hnone p _), fun p _ hh => absurd hh (hnone p _)⟩, fun x i f hi => ?_, fun p c => ⟨nofun, nofun⟩⟩
  rw [hf x] at hi
  cases hi

/-- The ports are in order in every state that is reached. -/
theorem reach_portsOk {n : Int} {buf : Nat} (hn : 1 ≤ n) (hbuf : 0 < buf) (hfit : buf + 8 * n ≤ 4294967296) (minheap maxheap : Nat)
    {m : Machine ports}
    (r : Machine.Reach (fun m e => m.Lawful e ∧ m.PortsAlone e = true) (boot ports (Ports.started n buf) minheap maxheap) m) :
    ∃ own st loc, PortsOk m own st loc := by
  obtain ⟨own, S, _⟩ := Ports.started_sound hn hbuf hfit
  have I : PortsOk (boot ports (Ports.started n buf) minheap maxheap) own (fun _ => .idle) fun _ => (0, 0) :=
    PortsOk.idle S fun _ => rfl
  obtain ⟨own', st, loc, I', _⟩ := I.reach (boot_steady _ minheap maxheap) (allTracked_boot minheap maxheap) r
  exact ⟨own', st, loc, I'⟩

end Xinu
