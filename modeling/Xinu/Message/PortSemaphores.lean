import Xinu.Kernel.Resets
import Xinu.Message.PortNodes

/-!
# The semaphores of the ports

Which semaphores the ports hold, and what holds of them (`Sems`), when user code does not use them (`PortsAlone`).
-/

namespace Xinu

namespace Port

/-- The semaphores that a port holds. -/
def Stage.holds (e : Ptentry) : Stage → List Int
  | .idle | .making _ => []
  | .half _ => [e.ptssem]
  | .live | .disposing _ _ => [e.ptssem, e.ptrsem]
  | .released newstate => if newstate = .PT_ALLOC then [e.ptssem, e.ptrsem] else [e.ptrsem]
  | .cleared newstate => if newstate = .PT_ALLOC then [e.ptssem, e.ptrsem] else []

/-- The port holds the semaphore. -/
structure Held (d : Ports) (st : Int → Stage) (p s : Int) : Prop where
  port : isbadport p = false
  good : isbadsem s = false
  holds : s ∈ (st p).holds (d.porttab p)

/-- The semaphore has the count, and nobody waits for it. -/
structure Settled (k : Kernel QueueTab) (s n : Int) : Prop where
  count : (k.semtab s).scount = n
  waits : ∀ q, ¬k.Waits s q

/-- What holds of the semaphores of the ports. -/
structure Sems (k : Kernel QueueTab) (d : Ports) (st : Int → Stage) : Prop where
  used : ∀ p s, Held d st p s → (k.semtab s).sstate = .S_USED
  apart : ∀ p q s, Held d st p s → Held d st q s → p = q
  two : ∀ p, (st p).holds (d.porttab p) = [(d.porttab p).ptssem, (d.porttab p).ptrsem] → Held d st p (d.porttab p).ptssem →
    (d.porttab p).ptssem ≠ (d.porttab p).ptrsem
  senders : ∀ p, st p = .released .PT_ALLOC ∨ st p = .cleared .PT_ALLOC → Held d st p (d.porttab p).ptssem →
    Settled k (d.porttab p).ptssem (d.porttab p).ptmaxcnt
  receivers : ∀ p, st p = .cleared .PT_ALLOC → Held d st p (d.porttab p).ptrsem → Settled k (d.porttab p).ptrsem 0

/-- The semaphore that `semcreate` has returned is no other port's. -/
def NewSem (k : Kernel QueueTab) (d : Ports) (st : Int → Stage) (v : Int) : Prop :=
  v = SYSERR ∨ isbadsem v = false ∧ (k.semtab v).sstate = .S_USED ∧ ∀ q, ¬Held d st q v

/-- What an event, in which the system call `o` is made, does to semaphores in use. -/
structure Handles (k k' : Kernel QueueTab) (o : Option Call) : Prop where
  used : ∀ s, isbadsem s = false → (k.semtab s).sstate = .S_USED → (∀ c ∈ o, c ≠ .semdelete s) → (k'.semtab s).sstate = .S_USED
  settled : ∀ s n, isbadsem s = false → (k.semtab s).sstate = .S_USED → (∀ c ∈ o, c.touches s = false) → Settled k s n →
    Settled k' s n

theorem handles {m m' : Machine ports} {e : Event ports} {h h' : Kernel QLists} (D : Does m e h m' h') (St : Steady m h)
    (St' : Steady m' h') : Handles m.k m'.k (m.issued e) := by
  refine ⟨fun s hs hu hd => D.keepsUsed St St' hs hu hd, fun s n hs hu hc hn => ?_⟩
  have I := D.semIdle St St' hs hu hc (fun pid _ => hn.waits pid)
  refine ⟨?_, fun q hw => hn.waits q ((I.waits q).mp hw)⟩
  rw [I.entry]
  exact hn.count

theorem Handles.refl (k : Kernel QueueTab) (o : Option Call) : Handles k k o := ⟨fun _ _ hu _ => hu, fun _ _ _ _ _ hn => hn⟩

section Sems

variable {k k' : Kernel QueueTab} {d b : Ports} {st st' : Int → Stage} {o : Option Call} {p q s : Int}

theorem Held.congr (h : Held b st' q s) (hst : st' q = st q) (h1 : (b.porttab q).ptssem = (d.porttab q).ptssem)
    (h2 : (b.porttab q).ptrsem = (d.porttab q).ptrsem) : Held d st q s := by
  refine ⟨h.port, h.good, ?_⟩
  have hm := h.holds
  rw [hst] at hm
  cases hq : st q with
  | idle | making | half | live | disposing | released | cleared =>
    rw [hq] at hm
    simpa only [Stage.holds, h1, h2] using hm

/-- A routine works on one port, and makes no call for the semaphores of the others. -/
theorem Sems.next (S : Sems k d st) (H : Handles k k' o)
    (hother : ∀ q, q ≠ p → st' q = st q ∧ (b.porttab q).ptssem = (d.porttab q).ptssem ∧
      (b.porttab q).ptrsem = (d.porttab q).ptrsem ∧ (b.porttab q).ptmaxcnt = (d.porttab q).ptmaxcnt)
    (htouch : ∀ c ∈ o, ∀ q s, q ≠ p → Held d st q s → c.touches s = false)
    (hused : ∀ s, Held b st' p s → (k'.semtab s).sstate = .S_USED)
    (hapart : ∀ s, Held b st' p s → ∀ q, q ≠ p → ¬Held d st q s)
    (htwo : (st' p).holds (b.porttab p) = [(b.porttab p).ptssem, (b.porttab p).ptrsem] → Held b st' p (b.porttab p).ptssem →
      (b.porttab p).ptssem ≠ (b.porttab p).ptrsem)
    (hsend : st' p = .released .PT_ALLOC ∨ st' p = .cleared .PT_ALLOC → Held b st' p (b.porttab p).ptssem →
      Settled k' (b.porttab p).ptssem (b.porttab p).ptmaxcnt)
    (hrecv : st' p = .cleared .PT_ALLOC → Held b st' p (b.porttab p).ptrsem → Settled k' (b.porttab p).ptrsem 0) :
    Sems k' b st' := by
  have hback : ∀ q s, q ≠ p → Held b st' q s → Held d st q s := fun q s hq hh =>
    hh.congr (hother q hq).1 (hother q hq).2.1 (hother q hq).2.2.1
  have hsettled : ∀ q s n, q ≠ p → Held d st q s → Settled k s n → Settled k' s n := fun q s n hq hh hn =>
    H.settled s n hh.good (S.used q s hh) (fun c hc => htouch c hc q s hq hh) hn
  refine ⟨fun q s hh => ?_, fun q q' s hh hh' => ?_, fun q hl hh => ?_, fun q hs hh => ?_, fun q hs hh => ?_⟩
  · by_cases hq : q = p
    · subst hq
      exact hused s hh
    · have hd := hback q s hq hh
      refine H.used s hh.good (S.used q s hd) (fun c hc e => ?_)
      have ht := htouch c hc q s hq hd
      rw [e] at ht
      simp [Call.touches] at ht
  · by_cases hq : q = p
    · by_cases hq' : q' = p
      · exact hq.trans hq'.symm
      · subst hq
        exact absurd (hback q' s hq' hh') (hapart s hh q' hq')
    · by_cases hq' : q' = p
      · subst hq'
        exact absurd (hback q s hq hh) (hapart s hh' q hq)
      · exact S.apart q q' s (hback q s hq hh) (hback q' s hq' hh')
  · by_cases hq : q = p
    · subst hq
      exact htwo hl hh
    · obtain ⟨h1, h2, h3, _⟩ := hother q hq
      have hd := hback q _ hq hh
      rw [h2] at hd ⊢
      rw [h3]
      refine S.two q ?_ hd
      rw [h1, h2, h3] at hl
      rw [← hl]
      cases st q <;> simp only [Stage.holds, h2, h3]
  · by_cases hq : q = p
    · subst hq
      exact hsend hs hh
    · obtain ⟨h1, h2, h3, h4⟩ := hother q hq
      have hd := hback q _ hq hh
      rw [h1] at hs
      rw [h2] at hd ⊢
      rw [h4]
      exact hsettled q _ _ hq hd (S.senders q hs hd)
  · by_cases hq : q = p
    · subst hq
      exact hrecv hs hh
    · obtain ⟨h1, h2, h3, h4⟩ := hother q hq
      have hd := hback q _ hq hh
      rw [h1] at hs
      rw [h3] at hd ⊢
      exact hsettled q _ _ hq hd (S.receivers q hs hd)

/-- No port goes to another stage, and no call is made for a semaphore of a port. -/
theorem Sems.quiet (S : Sems k d st) (H : Handles k k' o) (hs : Ports.SameSems d b)
    (htouch : ∀ c ∈ o, ∀ q s, Held d st q s → c.touches s = false) : Sems k' b st := by
  have hbad : ∀ s, ¬Held b st (-1) s := fun s hh => by cases hh.port
  exact S.next (p := -1) H (fun q _ => ⟨rfl, hs q⟩) (fun c hc q s _ hh => htouch c hc q s hh)
    (fun s hh => absurd hh (hbad s)) (fun s hh => absurd hh (hbad s)) (fun _ hh => absurd hh (hbad _))
    (fun _ hh => absurd hh (hbad _)) (fun _ hh => absurd hh (hbad _))

/-- A semaphore that another port holds is not one of this port's. -/
theorem Sems.touches_other {t : Int} {c : Call} (S : Sems k d st) (hp : isbadport p = false) (hl : t ∈ (st p).holds (d.porttab p))
    (hc : ∀ s, c.touches s = decide (t = s)) (hq : q ≠ p) (hh : Held d st q s) : c.touches s = false := by
  rw [hc s, decide_eq_false_iff_not]
  rintro rfl
  exact hq (S.apart q p t hh ⟨hp, hh.good, hl⟩)

end Sems

/-! ## What a piece of a routine does with them -/

/-- A piece of a routine works on the port. -/
structure Works (st : Int → Stage) (f : Option Point) (y : Next Point) (st' : Int → Stage) (p : Int) : Prop where
  good : isbadport p = false
  others : ∀ q, q ≠ p → st' q = st q
  mine : st p = .idle ∨ st p = .live ∨ ∃ g ∈ f, ∃ σ, g.stage = some (p, σ)
  routine : ∀ g, y.routine = some g → g.stage = some (p, st' p)

section Turn

open Ports

variable {k k' : Kernel QueueTab} {d b : Ports} {st st' : Int → Stage} {f : Option Point} {x : Ports × Next Point} {p q v : Int}
  {σ : Stage}

/-- No routine works on a port that is idle or live. -/
theorem stage_ne {g : Point} (h : g.stage = some (p, σ)) : σ ≠ .idle ∧ σ ≠ .live := by
  cases g <;> simp only [Point.stage, reduceCtorEq, Option.some.injEq, Prod.mk.injEq] at h <;> rw [← h.2] <;> exact ⟨nofun, nofun⟩

theorem Ports.Turn.stopped {s : Status} (t : Turn d st v f (b, .stop s) st') : b = d ∧ st' = st := by
  cases t
  exact ⟨rfl, rfl⟩

theorem Works.update {g : Point} {y : Next Point} (hp : isbadport p = false) (hy : y.routine = some g)
    (hm : st p = .idle ∨ st p = .live ∨ ∃ g ∈ f, ∃ σ, g.stage = some (p, σ)) (hs : g.stage = some (p, σ)) :
    Works st f y (Function.update st p σ) p := by
  refine ⟨hp, fun q hq => Function.update_of_ne hq _ _, hm, fun g' hg' => ?_⟩
  obtain rfl := Option.some.inj (hy.symm.trans hg')
  rw [Function.update_self]
  exact hs

/-- A piece of a routine works on the port of the routine, or on one that nobody else works on. -/
theorem Ports.Turn.works (t : Turn d st v f x st') (hf : ∀ g ∈ f, ∀ p σ, g.stage = some (p, σ) → isbadport p = false) :
    (st' = st ∧ ∀ g, x.2.routine = some g → g.stage = none ∧ ∀ n, g ≠ .gotnodes n) ∨ ∃ p, Works st f x.2 st' p := by
  cases t with
  | ret | stop => exact Or.inl ⟨rfl, nofun⟩
  | sem _ _ hg =>
    refine Or.inl ⟨rfl, ?_⟩
    rintro g ⟨⟩
    exact hg
  | making _ hp hst => exact Or.inr ⟨_, Works.update hp rfl (Or.inl hst) rfl⟩
  | half | cleared => exact Or.inr ⟨_, Works.update (hf _ rfl _ _ rfl) rfl (Or.inr (Or.inr ⟨_, rfl, _, rfl⟩)) rfl⟩
  | made | done =>
    exact Or.inr ⟨_, hf _ rfl _ _ rfl, fun q hq => Function.update_of_ne hq _ _, Or.inr (Or.inr ⟨_, rfl, _, rfl⟩), nofun⟩
  | disposing _ hp hw | released _ hp hw =>
    refine Or.inr ⟨_, Works.update hp rfl ?_ rfl⟩
    rcases hw with ⟨_, hst⟩ | ⟨w, rfl⟩
    · exact Or.inr (Or.inl hst)
    · exact Or.inr (Or.inr ⟨_, rfl, _, rfl⟩)

/-- A port is being made only while its piece of `ptcreate` calls `semcreate`. -/
def Creates (st : Int → Stage) (y : Next Point) : Prop :=
  ∀ q c, (st q = .making c → y = .call (.semcreate c) (.gotssem q c)) ∧ (st q = .half c → y = .call (.semcreate 0) (.gotrsem q c))

/-- No port is being made. -/
theorem Creates.none {y : Next Point} (h : ∀ q c, st q ≠ .making c ∧ st q ≠ .half c) : Creates st y :=
  fun q c => ⟨fun e => absurd e (h q c).1, fun e => absurd e (h q c).2⟩

theorem Creates.update {y : Next Point} (h : ∀ q, q ≠ p → ∀ c, st q ≠ .making c ∧ st q ≠ .half c)
    (h1 : ∀ c, σ = .making c → y = .call (.semcreate c) (.gotssem p c))
    (h2 : ∀ c, σ = .half c → y = .call (.semcreate 0) (.gotrsem p c)) : Creates (Function.update st p σ) y := by
  intro q c
  by_cases hq : q = p
  · subst hq
    rw [Function.update_self]
    exact ⟨h1 c, h2 c⟩
  · rw [Function.update_of_ne hq]
    exact ⟨fun e => absurd e (h q hq c).1, fun e => absurd e (h q hq c).2⟩

theorem Ports.Turn.creates (t : Turn d st v f x st') (hm : ∀ q c, (st q = .making c → f = some (.gotssem q c)) ∧
    (st q = .half c → f = some (.gotrsem q c))) : Creates st' x.2 := by
  have hnone : (∀ g ∈ f, g.stage = none) → ∀ q c, st q ≠ .making c ∧ st q ≠ .half c := by
    intro hf q c
    refine ⟨fun e => ?_, fun e => ?_⟩
    · cases hf _ ((hm q c).1 e)
    · cases hf _ ((hm q c).2 e)
  have hothers : ∀ p : Int, (∀ g ∈ f, ∃ σ, g.stage = some (p, σ)) → ∀ q, q ≠ p → ∀ c, st q ≠ .making c ∧ st q ≠ .half c := by
    intro p hf q hq c
    refine ⟨fun e => ?_, fun e => ?_⟩
    · obtain ⟨σ, h⟩ := hf _ ((hm q c).1 e)
      exact hq (Prod.mk.inj (Option.some.inj h)).1
    · obtain ⟨σ, h⟩ := hf _ ((hm q c).2 e)
      exact hq (Prod.mk.inj (Option.some.inj h)).1
  have hback : ∀ {p : Int} {newstate : PtState}, (f = none ∧ st p = .live ∨ ∃ w, f = some (.disposing p newstate w)) →
      ∀ g ∈ f, ∃ σ, g.stage = some (p, σ) := by
    rintro p newstate (⟨rfl, _⟩ | ⟨w, rfl⟩) g hg
    · cases hg
    · obtain rfl := Option.some.inj hg
      exact ⟨_, rfl⟩
  cases t with
  | ret hf | stop hf | sem hf => exact Creates.none (hnone hf)
  | @making _ p =>
    refine Creates.update (hothers p nofun) (fun c e => ?_) nofun
    rw [Stage.making.inj e]
  | @half _ p =>
    refine Creates.update (hothers p (by rintro g ⟨⟩; exact ⟨_, rfl⟩)) nofun (fun c e => ?_)
    rw [Stage.half.inj e]
  | @made _ p | @cleared _ p => exact Creates.update (hothers p (by rintro g ⟨⟩; exact ⟨_, rfl⟩)) nofun nofun
  | @done _ p =>
    refine Creates.update (hothers p (by rintro g ⟨⟩; exact ⟨_, rfl⟩)) (fun c e => ?_) (fun c e => ?_)
    all_goals
      split at e <;> cases e
  | @disposing _ _ p _ _ _ _ hw | @released _ _ p _ _ _ hw => exact Creates.update (hothers p (hback hw)) nofun nofun

/-- What the semaphore is that `ptcreate` stores. -/
theorem NewSem.stored (h : NewSem k d st v) (hs : isbadsem (int32 v) = false) :
    (k.semtab (int32 v)).sstate = .S_USED ∧ ∀ q, ¬Held d st q (int32 v) := by
  rcases h with rfl | ⟨hv, hu, hq⟩
  · cases hs
  · obtain ⟨h1, h2⟩ := isbadsem_iff.mp hv
    have hN : NSEM = 100 := rfl
    rw [int32_of_range (by omega) (by omega)]
    exact ⟨hu, hq⟩

/-- The port goes to a stage in which it holds no other semaphores. -/
theorem Sems.shrink {o : Option Call} (S : Sems k d st) (H : Handles k k' o) (hs : SameSems d b) (hp : isbadport p = false)
    (hsub : ∀ s ∈ σ.holds (d.porttab p), s ∈ (st p).holds (d.porttab p))
    (htwo : σ.holds (d.porttab p) = [(d.porttab p).ptssem, (d.porttab p).ptrsem] →
      (st p).holds (d.porttab p) = [(d.porttab p).ptssem, (d.porttab p).ptrsem])
    (hcall : ∀ c ∈ o, (∀ s, c.touches s = false) ∨ ∃ t ∈ (st p).holds (d.porttab p), (∀ s, c.touches s = decide (t = s)) ∧
      (c = .semdelete t → Held d st p t → t ∉ σ.holds (d.porttab p)))
    (hsend : σ = .released .PT_ALLOC ∨ σ = .cleared .PT_ALLOC → Held d st p (d.porttab p).ptssem →
      Settled k' (d.porttab p).ptssem (d.porttab p).ptmaxcnt)
    (hrecv : σ = .cleared .PT_ALLOC → Held d st p (d.porttab p).ptrsem → Settled k' (d.porttab p).ptrsem 0) :
    Sems k' b (Function.update st p σ) := by
  obtain ⟨hs1, hs2, hs3⟩ := hs p
  have hholds : σ.holds (b.porttab p) = σ.holds (d.porttab p) := by
    cases σ <;> simp only [Stage.holds, hs1, hs2]
  have hback : ∀ s, Held b (Function.update st p σ) p s → s ∈ σ.holds (d.porttab p) ∧ Held d st p s := by
    intro s hh
    have hm := hh.holds
    rw [Function.update_self, hholds] at hm
    exact ⟨hm, hp, hh.good, hsub s hm⟩
  refine S.next (p := p) H (fun q hq => ⟨Function.update_of_ne hq _ _, hs q⟩) (fun c hc q s hq hh => ?_) (fun s hh => ?_)
    (fun s hh q hq hh' => hq (S.apart q p s hh' (hback s hh).2)) ?_ ?_ ?_
  · rcases hcall c hc with hc' | ⟨t, ht, hc', _⟩
    · exact hc' s
    · exact S.touches_other hp ht hc' hq hh
  · obtain ⟨hm, hd⟩ := hback s hh
    refine H.used s hh.good (S.used p s hd) (fun c hc e => ?_)
    subst e
    have htouch : (Call.semdelete s).touches s = true := decide_eq_true rfl
    rcases hcall _ hc with hc' | ⟨t, ht, hc', hdel⟩
    · rw [hc' s] at htouch
      cases htouch
    · rw [hc' s] at htouch
      obtain rfl : t = s := of_decide_eq_true htouch
      exact hdel rfl hd hm
  · rw [Function.update_self, hholds, hs1, hs2]
    intro hl hh
    have hd := hback _ hh
    exact S.two p (htwo hl) hd.2
  · rw [Function.update_self, hs1, hs3]
    exact fun hσ hh => hsend hσ (hback _ hh).2
  · rw [Function.update_self, hs2]
    exact fun hσ hh => hrecv hσ (hback _ hh).2

/-- `ptcreate` stores a semaphore. -/
theorem Sems.grow {o : Option Call} (S : Sems k d st) (H : Handles k k' o) (hnew : NewSem k d st v)
    (hother : ∀ q, q ≠ p → (b.porttab q).ptssem = (d.porttab q).ptssem ∧ (b.porttab q).ptrsem = (d.porttab q).ptrsem ∧
      (b.porttab q).ptmaxcnt = (d.porttab q).ptmaxcnt)
    (hcall : ∀ c ∈ o, ∀ s, c.touches s = false)
    (hback : ∀ s, Held b (Function.update st p σ) p s → Held d st p s ∨ s = int32 v)
    (htwo : σ.holds (b.porttab p) = [(b.porttab p).ptssem, (b.porttab p).ptrsem] → isbadsem (b.porttab p).ptssem = false →
      Held d st p (b.porttab p).ptssem ∧ (b.porttab p).ptrsem = int32 v)
    (hσ : ∀ newstate, σ ≠ .released newstate ∧ σ ≠ .cleared newstate) : Sems k' b (Function.update st p σ) := by
  refine S.next (p := p) H (fun q hq => ⟨Function.update_of_ne hq _ _, hother q hq⟩) (fun c hc q s _ _ => hcall c hc s)
    (fun s hh => ?_) (fun s hh q hq hh' => ?_) ?_ ?_ ?_
  · refine H.used s hh.good ?_ (fun c hc e => ?_)
    · rcases hback s hh with hd | rfl
      · exact S.used p s hd
      · exact (hnew.stored hh.good).1
    · have ht := hcall c hc s
      rw [e] at ht
      simp [Call.touches] at ht
  · rcases hback s hh with hd | rfl
    · exact hq (S.apart q p s hh' hd)
    · exact (hnew.stored hh.good).2 q hh'
  · rw [Function.update_self]
    intro hl hh e
    obtain ⟨hd, hr⟩ := htwo hl hh.good
    rw [e, hr] at hd
    exact (hnew.stored hd.good).2 p hd
  · rw [Function.update_self]
    exact fun e => absurd e (by simp [hσ])
  · rw [Function.update_self]
    exact fun e => absurd e (hσ _).2

/-- The semaphore that `semcreate` returns is no port's. -/
theorem NewSem.created {w : Int} (hw : w = SYSERR ∨ isbadsem w = false ∧ (k.semtab w).sstate = .S_FREE ∧ (k'.semtab w).sstate = .S_USED)
    (hheld : ∀ q s, Held b st' q s → (k.semtab s).sstate = .S_USED) : NewSem k' b st' w := by
  rcases hw with rfl | ⟨h1, h2, h3⟩
  · exact Or.inl rfl
  · refine Or.inr ⟨h1, h3, fun q hh => ?_⟩
    have := hheld q w hh
    rw [h2] at this
    cases this

/-- `semreset` leaves the count, and nobody waits. -/
theorem settled_semreset {h : Kernel QLists} (Si : Sim k h) (I : Inv h) {s n : Int} (hs : isbadsem s = false)
    (hu : (k.semtab s).sstate = .S_USED) (hn : 0 ≤ n ∧ n ≤ 2147483647) : Settled (k.semreset s n).1 s n := by
  have hid : int32 n = n := int32_of_range (by omega) hn.2
  obtain ⟨he, hw⟩ := semreset_done Si I hs hu (n := n) (by omega)
  refine ⟨?_, hw⟩
  rw [he]
  exact hid

/-- The call that releases the processes at a semaphore of a port. -/
theorem freeing_touches (newstate : PtState) (t n s : Int) : (freeing newstate t n).touches s = decide (t = s) := by
  unfold freeing
  split <;> rfl

theorem freeing_alloc (t n : Int) : freeing .PT_ALLOC t n = .semreset t n := rfl

theorem call_semreset (k : Kernel QueueTab) (t n : Int) : (k.call (.semreset t n)).1 = (k.semreset t n).1 := rfl

theorem freeing_semdelete {newstate : PtState} {t n s : Int} (h : freeing newstate t n = .semdelete s) : newstate ≠ .PT_ALLOC := by
  rintro rfl
  cases h

/-- `ptsend` and `ptrecv` call `wait` or `signal` for a port in use. -/
theorem Sems.asked {t : Int} {c : Call} (S : Sems k d st) (H : Handles k k' (some c)) (hs : SameSems d b) (hp : isbadport p = false)
    (hst : st p = .live) (ht : t = (d.porttab p).ptssem ∨ t = (d.porttab p).ptrsem) (hc : c = .wait t ∨ c = .signal t) :
    Sems k' b st := by
  have hid : st = Function.update st p .live := by rw [← hst, Function.update_eq_self]
  have hholds : ∀ e, (st p).holds e = [e.ptssem, e.ptrsem] := by
    intro e
    rw [hst]
    rfl
  rw [hid]
  refine S.shrink H hs hp (by rw [hst]; exact fun _ hm => hm) (fun _ => hholds _) ?_ nofun nofun
  rintro c' ⟨⟩
  refine Or.inr ⟨t, ?_, ?_, ?_⟩
  · rw [hholds]
    rcases ht with rfl | rfl <;> simp
  · intro s
    rcases hc with rfl | rfl <;> rfl
  · rcases hc with rfl | rfl <;> nofun

/-- `ptcreate` stores the first semaphore, and calls `semcreate` for the second one. -/
theorem Sems.half {c : Int} (S : Sems k d st) (H : Handles k k' (some (.semcreate 0))) (hnew : NewSem k d st v)
    (hs : SameSems (d.setEntry p { d.porttab p with ptssem := int32 v }) b) : Sems k' b (Function.update st p (.half c)) := by
  have hself : (b.porttab p).ptssem = int32 v := by
    rw [(hs p).1, setEntry_self]
  refine S.grow H hnew (fun q hq => ?_) ?_ (fun s hh => Or.inr ?_) nofun (fun _ => ⟨nofun, nofun⟩)
  · have h := hs q
    rwa [setEntry_of_ne d _ hq] at h
  · rintro c ⟨⟩ s
    rfl
  · have hm := hh.holds
    rw [Function.update_self] at hm
    rw [← hself]
    exact List.mem_singleton.mp hm

/-- `ptcreate` stores the second semaphore. -/
theorem Sems.made {c : Int} (S : Sems k d st) (H : Handles k k' none) (hnew : NewSem k d st v) (hp : isbadport p = false)
    (hst : st p = .half c)
    (hs : SameSems (d.setEntry p { d.porttab p with ptrsem := int32 v, ptmaxcnt := (c % 65536).toNat }) b) :
    Sems k' b (Function.update st p .live) := by
  have h1 : (b.porttab p).ptssem = (d.porttab p).ptssem := by
    rw [(hs p).1, setEntry_self]
  have h2 : (b.porttab p).ptrsem = int32 v := by
    rw [(hs p).2.1, setEntry_self]
  have hheld : ∀ s, isbadsem s = false → s = (d.porttab p).ptssem → Held d st p s := by
    rintro s hg rfl
    refine ⟨hp, hg, ?_⟩
    rw [hst]
    exact List.mem_singleton_self _
  refine S.grow H hnew (fun q hq => ?_) nofun (fun s hh => ?_) (fun _ hg => ⟨hheld _ hg h1, h2⟩) (fun _ => ⟨nofun, nofun⟩)
  · have h := hs q
    rwa [setEntry_of_ne d _ hq] at h
  · have hm := hh.holds
    rw [Function.update_self, Stage.holds, h1, h2] at hm
    rcases List.mem_cons.mp hm with hm | hm
    · exact Or.inl (hheld s hh.good hm)
    · exact Or.inr (List.mem_singleton.mp hm)

/-- `ptreset` resets the semaphore for sending of a port in use, and `ptdelete` deletes it. -/
theorem Sems.released {newstate : PtState} {h : Kernel QLists} (S : Sems k d st) (Si : Sim k h) (I : Inv h)
    (H : Handles k k' (some (freeing newstate (d.porttab p).ptssem (d.porttab p).ptmaxcnt)))
    (hk : k' = (k.call (freeing newstate (d.porttab p).ptssem (d.porttab p).ptmaxcnt)).1) (hs : SameSems d b)
    (hp : isbadport p = false) (hholds : (st p).holds (d.porttab p) = [(d.porttab p).ptssem, (d.porttab p).ptrsem])
    (hn : (d.porttab p).ptmaxcnt ≤ 65535) : Sems k' b (Function.update st p (.released newstate)) := by
  refine S.shrink H hs hp (fun s hm => ?_) (fun _ => hholds) ?_ (fun hσ hh => ?_) nofun
  · rw [hholds]
    rw [Stage.holds] at hm
    split at hm
    · exact hm
    · exact List.mem_cons_of_mem _ hm
  · rintro c ⟨⟩
    refine Or.inr ⟨_, by rw [hholds]; simp, freeing_touches _ _ _, fun e hh hm => ?_⟩
    rw [Stage.holds, if_neg (freeing_semdelete e)] at hm
    exact S.two p hholds hh (List.mem_singleton.mp hm)
  · obtain rfl : newstate = .PT_ALLOC := by simpa using hσ
    rw [hk, freeing_alloc, call_semreset]
    exact settled_semreset Si I hh.good (S.used p _ hh) ⟨by omega, by omega⟩

/-- Then the semaphore for receiving. The other one keeps what the reset left. -/
theorem Sems.cleared {newstate : PtState} {h : Kernel QLists} (S : Sems k d st) (Si : Sim k h) (I : Inv h)
    (H : Handles k k' (some (freeing newstate (d.porttab p).ptrsem 0)))
    (hk : k' = (k.call (freeing newstate (d.porttab p).ptrsem 0)).1) (hs : SameSems d b) (hp : isbadport p = false)
    (hst : st p = .released newstate) : Sems k' b (Function.update st p (.cleared newstate)) := by
  have hholds : (st p).holds (d.porttab p) =
      if newstate = .PT_ALLOC then [(d.porttab p).ptssem, (d.porttab p).ptrsem] else [(d.porttab p).ptrsem] := by
    rw [hst]
    rfl
  refine S.shrink H hs hp (fun s hm => ?_) (fun hl => ?_) ?_ (fun hσ hh => ?_) (fun hσ hh => ?_)
  · rw [hholds]
    rw [Stage.holds] at hm
    split at hm
    · next hn => rwa [if_pos hn]
    · cases hm
  · rw [Stage.holds] at hl
    split at hl
    · next hn => rw [hholds, if_pos hn]
    · cases hl
  · rintro c ⟨⟩
    refine Or.inr ⟨(d.porttab p).ptrsem, ?_, freeing_touches _ _ _, fun e _ hm => ?_⟩
    · rw [hholds]
      split <;> simp
    · rw [Stage.holds, if_neg (freeing_semdelete e)] at hm
      cases hm
  · obtain rfl : newstate = .PT_ALLOC := by simpa using hσ
    rw [if_pos rfl] at hholds
    refine H.settled _ _ hh.good (S.used p _ hh) ?_ (S.senders p (Or.inl hst) hh)
    rintro c ⟨⟩
    rw [freeing_touches, decide_eq_false_iff_not]
    exact fun e => S.two p hholds hh e.symm
  · obtain rfl : newstate = .PT_ALLOC := by simpa using hσ
    rw [hk, freeing_alloc, call_semreset]
    exact settled_semreset Si I hh.good (S.used p _ hh) ⟨by omega, by omega⟩

/-- The reset or deleted port is in use again, or free. -/
theorem Sems.done {newstate : PtState} (S : Sems k d st) (H : Handles k k' none) (hs : SameSems d b) (hp : isbadport p = false)
    (hst : st p = .cleared newstate) : Sems k' b (Function.update st p (if newstate = .PT_ALLOC then .live else .idle)) := by
  have hholds : (st p).holds (d.porttab p) = if newstate = .PT_ALLOC then [(d.porttab p).ptssem, (d.porttab p).ptrsem] else [] := by
    rw [hst]
    rfl
  by_cases hn : newstate = .PT_ALLOC
  · rw [if_pos hn] at hholds ⊢
    exact S.shrink H hs hp (by rw [hholds]; exact fun _ hm => hm) (fun _ => hholds) nofun nofun nofun
  · rw [if_neg hn]
    exact S.shrink H hs hp nofun nofun nofun nofun nofun

/-- What a piece of a routine does with the semaphores of the ports. -/
theorem Ports.Turn.sems {h : Kernel QLists} (t : Turn d st v f x st') (S : Sems k d st)
    (H : Handles k k' (Machine.issued.nextCall (C := ports) x))
    (Si : Sim k h) (I : Inv h) (hk : ∀ c g, x.2 = .call c g → k' = (k.call c).1)
    (hf : ∀ g ∈ f, ∀ p σ, g.stage = some (p, σ) → isbadport p = false ∧ st p = σ)
    (hv : ∀ p c, f = some (.gotssem p c) ∨ f = some (.gotrsem p c) → NewSem k d st v)
    (hmax : ∀ p, isbadport p = false → (st p = .live ∨ ∃ newstate w, st p = .disposing newstate w) →
      (d.porttab p).ptmaxcnt ≤ 65535) : Sems k' x.1 st' := by
  -- a port holds both semaphores until its queue has been walked through
  have hlive : ∀ {p : Int} {newstate : PtState}, (f = none ∧ st p = .live ∨ ∃ w, f = some (.disposing p newstate w)) →
      ∀ e, (st p).holds e = [e.ptssem, e.ptrsem] := by
    rintro p newstate (⟨_, h⟩ | ⟨w, rfl⟩) e
    · rw [h]
      rfl
    · rw [(hf _ rfl _ _ rfl).2]
      rfl
  cases t with
  | ret hf hs => exact S.quiet H hs nofun
  | stop hf => exact S.quiet H (SameSems.refl d) nofun
  | sem _ hs _ hp hst ht hc => exact S.asked H hs hp hst ht hc
  | making hs hp hst =>
    refine S.shrink H hs hp nofun nofun ?_ nofun nofun
    rintro c ⟨⟩
    exact Or.inl fun _ => rfl
  | @half _ p c hs => exact S.half H (hv p c (Or.inl rfl)) hs
  | @made _ p c hs =>
    obtain ⟨hp, hst⟩ := hf _ rfl _ _ rfl
    exact S.made H (hv p c (Or.inr rfl)) hp hst hs
  | disposing hs hp hw =>
    exact S.shrink H hs hp (by rw [hlive hw]; exact fun _ hm => hm) (fun _ => hlive hw _) nofun nofun nofun
  | @released _ _ p newstate hs hp hw =>
    have hn : (d.porttab p).ptmaxcnt ≤ 65535 := by
      refine hmax p hp ?_
      rcases hw with ⟨_, h⟩ | ⟨w, rfl⟩
      · exact Or.inl h
      · exact Or.inr ⟨_, _, (hf _ rfl _ _ rfl).2⟩
    exact S.released Si I H (hk _ _ rfl) hs hp (hlive hw _) hn
  | cleared hs =>
    obtain ⟨hp, hst⟩ := hf _ rfl _ _ rfl
    exact S.cleared Si I H (hk _ _ rfl) hs hp hst
  | done hs =>
    obtain ⟨hp, hst⟩ := hf _ rfl _ _ rfl
    exact S.done H hs hp hst

/-- Where `ptcreate` calls `semcreate`, all semaphores that the ports hold have been in use before. -/
theorem Ports.Turn.held_used {c : Int} {g : Point} (t : Turn d st v f x st') (S : Sems k d st) (hc : x.2 = .call (.semcreate c) g)
    (hv : ∀ p c, f = some (.gotssem p c) ∨ f = some (.gotrsem p c) → NewSem k d st v) {s : Int} (hh : Held x.1 st' q s) :
    (k.semtab s).sstate = .S_USED := by
  have hfree : ∀ {newstate : PtState} {t n : Int}, freeing newstate t n ≠ .semcreate c := by
    intro newstate t n
    unfold freeing
    split <;> nofun
  cases t with
  | sem _ _ _ _ _ _ hsem =>
    obtain ⟨rfl, _⟩ := Next.call.inj hc
    rcases hsem with e | e <;> cases e
  | @making b p _ hs =>
    by_cases hq : q = p
    · have hm := hh.holds
      rw [hq, Function.update_self] at hm
      cases hm
    · exact S.used q s (hh.congr (Function.update_of_ne hq _ _) (hs q).1 (hs q).2.1)
  | @half b p c hs =>
    by_cases hq : q = p
    · have hm := hh.holds
      rw [hq, Function.update_self] at hm
      obtain rfl := List.mem_singleton.mp hm
      have hself : (b.porttab p).ptssem = int32 v := by
        rw [(hs p).1, setEntry_self]
      have hg := hh.good
      dsimp only at hg ⊢
      rw [hself] at hg ⊢
      exact ((hv p c (Or.inl rfl)).stored hg).1
    · have h := hs q
      rw [setEntry_of_ne d _ hq] at h
      exact S.used q s (hh.congr (Function.update_of_ne hq _ _) h.1 h.2.1)
  | released | cleared => exact absurd (Next.call.inj hc).1 hfree
  | ret | stop | made | disposing | done => cases hc

end Turn

end Port

end Xinu
