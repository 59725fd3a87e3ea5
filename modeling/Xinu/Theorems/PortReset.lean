import Xinu.Kernel.Evaluation
import Xinu.Message.PortRuns

/-!
# Ports after `ptreset`

When `ptreset` returns, the procedure has been called for every message that was queued, in order, and the port is as `ptcreate` makes
it, but for its size: `ptmaxcnt` has 16 bits, and the semaphore of the senders is reset to what it keeps of the argument of `ptcreate`.
-/

namespace Xinu

open Port

/-- The port is as `ptcreate` with this argument makes it. -/
structure Port.Clean (k : Kernel QueueTab) (d : Ports) (p count : Int) : Prop where
  state : (d.porttab p).ptstate = .PT_ALLOC
  empty : (d.porttab p).pthead = NULL ∧ (d.porttab p).pttail = NULL
  senders : isbadsem (d.porttab p).ptssem = false ∧ (k.semtab (d.porttab p).ptssem).sstate = .S_USED ∧
    Settled k (d.porttab p).ptssem count
  receivers : isbadsem (d.porttab p).ptrsem = false ∧ (k.semtab (d.porttab p).ptrsem).sstate = .S_USED ∧
    Settled k (d.porttab p).ptrsem 0

/-- The messages that a port held when it was reset or deleted. -/
theorem ptreset_doomed {d : Ports} {portid : Int} {newstate : PtState} (hp : isbadport (int32 portid) = false)
    (hs : (d.porttab (int32 portid)).ptstate = .PT_ALLOC) :
    (d.ptreset portid newstate).1.doomed (int32 portid) = (d.clearing (int32 portid)).doomed (int32 portid) := by
  have hok : ¬(isbadport (int32 portid) = true ∨ (d.porttab (int32 portid)).ptstate ≠ .PT_ALLOC) := by simp [hp, hs]
  unfold Ports.ptreset
  simp only
  rw [if_neg hok]
  unfold Ports.ptclear Ports.release
  simp only
  split_ifs <;> rfl

/-- A routine that goes on leaves the record of the messages that a port held. -/
theorem resume_doomed (d : Ports) (pid : Int) (f : Point) (v : Int) : (ports.resume d pid f v).1.doomed = d.doomed := by
  cases f with
  | sent | received => rfl
  | gotnodes n =>
    change (d.gotnodes n v).1.doomed = _
    unfold Ports.gotnodes
    simp only
    split <;> rfl
  | gotssem p c => rfl
  | gotrsem p c => rfl
  | sendwaited p seq msg =>
    change (d.sendwaited p seq msg v).1.doomed = _
    unfold Ports.sendwaited
    simp only
    split_ifs
    · rfl
    · rfl
    · obtain ⟨_, _, _, _, _, _, _, h, _⟩ := Ports.enqueue_fields d p msg
      exact h
  | recvwaited p seq =>
    change (d.recvwaited p seq v).1.doomed = _
    unfold Ports.recvwaited
    simp only
    split_ifs <;> rfl
  | disposing p newstate walk =>
    change (d.disposing p newstate walk).1.doomed = _
    unfold Ports.disposing Ports.release
    simp only
    split_ifs <;> rfl
  | released p newstate =>
    change (d.released p newstate).1.doomed = _
    unfold Ports.released
    simp only
    split <;> rfl
  | cleared p newstate =>
    change (d.cleared p newstate).1.doomed = _
    unfold Ports.cleared
    simp only
    split <;> rfl

/-- The record changes only when the port is in use, and `ptreset` or `ptdelete` is called for it. -/
theorem enter_doomed (d : Ports) (pid : Int) (o : Op) (p : Int) : (ports.enter d pid o).1.doomed p = d.doomed p ∨
    (d.porttab p).ptstate = .PT_ALLOC ∧ ∃ portid, p = int32 portid ∧ (o = .ptreset portid ∨ o = .ptdelete portid) := by
  have hreset : ∀ (portid : Int) (newstate : PtState), (d.ptreset portid newstate).1.doomed p = d.doomed p ∨
      (d.porttab p).ptstate = .PT_ALLOC ∧ p = int32 portid := by
    intro portid newstate
    by_cases hok : isbadport (int32 portid) = true ∨ (d.porttab (int32 portid)).ptstate ≠ .PT_ALLOC
    · refine Or.inl ?_
      unfold Ports.ptreset
      simp only
      rw [if_pos hok]
    · by_cases hp : p = int32 portid
      · rw [not_or, not_not] at hok
        exact Or.inr ⟨hp ▸ hok.2, hp⟩
      · refine Or.inl ?_
        unfold Ports.ptreset
        simp only
        rw [if_neg hok]
        unfold Ports.ptclear Ports.release
        simp only
        split_ifs <;> exact Function.update_of_ne hp _ _
  cases o with
  | ptinit n => exact Or.inl rfl
  | ptcreate count =>
    refine Or.inl ?_
    change (d.ptcreate count).1.doomed p = _
    unfold Ports.ptcreate
    simp only
    split
    · rfl
    · split <;> rfl
  | ptsend portid msg =>
    refine Or.inl ?_
    change (d.ptsend portid msg).1.doomed p = _
    unfold Ports.ptsend
    simp only
    split <;> rfl
  | ptrecv portid =>
    refine Or.inl ?_
    change (d.ptrecv portid).1.doomed p = _
    unfold Ports.ptrecv
    simp only
    split <;> rfl
  | ptreset portid =>
    rcases hreset portid .PT_ALLOC with h | ⟨h1, h2⟩
    · exact Or.inl h
    · exact Or.inr ⟨h1, portid, h2, Or.inl rfl⟩
  | ptdelete portid =>
    rcases hreset portid .PT_FREE with h | ⟨h1, h2⟩
    · exact Or.inl h
    · exact Or.inr ⟨h1, portid, h2, Or.inr rfl⟩

/-- Between the call and the return of `ptreset` the record stays. -/
theorem step_doomed {m m' : Machine ports} {e : Event ports} (hs : m.step e = some m') (p : Int) :
    m'.data.doomed p = m.data.doomed p ∨ (m.data.porttab p).ptstate = .PT_ALLOC ∧
      ∃ portid, p = int32 portid ∧ (e = .op (.ptreset portid) ∨ e = .op (.ptdelete portid)) := by
  have hx : ∀ {l : List (Frame Point)} {x : Ports × Next Point}, m.Follows e l x → m'.data = x.1 →
      m'.data.doomed p = m.data.doomed p ∨ (m.data.porttab p).ptstate = .PT_ALLOC ∧
        ∃ portid, p = int32 portid ∧ (e = .op (.ptreset portid) ∨ e = .op (.ptdelete portid)) := by
    intro l x hx hd
    rw [hd]
    rcases hx.enter_or_resume with ⟨o, rfl, rfl⟩ | ⟨f, v, _, rfl⟩
    · rcases enter_doomed m.data m.k.currpid o p with h | ⟨h1, portid, h2, h3⟩
      · exact Or.inl h
      · exact Or.inr ⟨h1, portid, h2, h3.imp (congrArg Event.op) (congrArg Event.op)⟩
    · exact Or.inl (congrFun (resume_doomed _ _ _ _) p)
  cases Machine.step_segment hs with
  | quiet hd | killed pid hd => exact Or.inl (by rw [hd])
  | library l x hx' hd => exact hx hx' hd
  | stopped l d s hx' hd => exact hx hx' hd

section Run

variable {m m' : Machine ports} {e : Event ports} {own : Option Int → List (Nat × Nat)} {st : Int → Stage} {loc : Int → Int × Nat} {p : Int}

/-- A call of `ptreset` that is accepted takes the queue of the port. -/
theorem PortsOk.reset_queue (I : PortsOk m own st loc) {portid : Int} (hs : m.step (.op (.ptreset portid)) = some m')
    (hp : isbadport (int32 portid) = false) (ha : (m.data.porttab (int32 portid)).ptstate = .PT_ALLOC) :
    ∃ l, m.data.Linked (m.data.porttab (int32 portid)).pthead l ∧ m'.data.doomed (int32 portid) = l.map Prod.snd := by
  have hm := I.making_resumed hs
  obtain ⟨_, hlive⟩ := I.sound.is_live ha fun c => ⟨fun h => (nomatch (hm _ c).1 h), fun h => (nomatch (hm _ c).2 h)⟩
  have hat := I.sound.port _ hp
  rw [hlive] at hat
  refine ⟨_, hat.2.1.linked, ?_⟩
  have hd : m'.data = (m.data.ptreset portid .PT_ALLOC).1 := Machine.segment_data hs
  rw [hd, ptreset_doomed hp ha]
  exact (Ports.clearing_limbo hat (Or.inl rfl)).2.2.1

/-- The port when `ptreset` returns. -/
theorem PortsOk.reset_return (I : PortsOk m own st loc) (hs : m.step e = some m') {v : Int}
    (hr : m.resumed e = some (.cleared p .PT_ALLOC, v)) : m'.k = m.k ∧ m'.data.disposed p = m'.data.doomed p ∧
      (Port.Clean m'.k m'.data p (m'.data.count p) ↔ m.data.count p ≤ 65535 ∧ isbadsem (m.data.porttab p).ptssem = false ∧
        isbadsem (m.data.porttab p).ptrsem = false) := by
  have hseg := Machine.segment_resumed hr
  have hk : m'.k = m.k := segment_ret hs hseg
  have hd : m'.data = m.data.setEntry p { m.data.porttab p with ptstate := .PT_ALLOC } := by
    rw [Machine.segment_data hs, hseg]
    rfl
  obtain ⟨l, x, hx⟩ : ∃ l x, m.Follows e l x := by
    cases Machine.step_segment hs with
    | quiet _ _ hn | killed _ _ _ hn =>
      rw [hseg] at hn
      cases hn
    | library l x hx | stopped l d s hx => exact ⟨l, _, hx⟩
  obtain ⟨hp, hst, _⟩ := (I.resumed hx (.cleared p .PT_ALLOC) (by rw [hr]; rfl)).2 p _ rfl
  have hat := I.sound.port p hp
  rw [hst] at hat
  obtain ⟨hlimbo, _, hdone, hnull⟩ := hat
  have hholds : (st p).holds (m.data.porttab p) = [(m.data.porttab p).ptssem, (m.data.porttab p).ptrsem] := by
    rw [hst]
    rfl
  have hsend : isbadsem (m.data.porttab p).ptssem = false → Port.Held m.data st p (m.data.porttab p).ptssem := fun hg =>
    ⟨hp, hg, by rw [hholds]; simp⟩
  have hrecv : isbadsem (m.data.porttab p).ptrsem = false → Port.Held m.data st p (m.data.porttab p).ptrsem := fun hg =>
    ⟨hp, hg, by rw [hholds]; simp⟩
  have hmax := hlimbo.sized.maxcnt
  have hrange := hlimbo.sized.range
  refine ⟨hk, hd ▸ hdone, ?_⟩
  rw [hk, hd]
  have hself := Ports.setEntry_self m.data p { m.data.porttab p with ptstate := .PT_ALLOC }
  refine ⟨fun C => ?_, fun ⟨hc, hg1, hg2⟩ => ?_⟩
  · obtain ⟨_, _, ⟨hg1, _, hn⟩, hg2, _⟩ := C
    rw [hself] at hg1 hg2 hn
    have hcount := hn.count.symm.trans (I.sems.senders p (Or.inr hst) (hsend hg1)).count
    rw [hmax] at hcount
    have hcount : m.data.count p = _ := hcount
    exact ⟨by omega, hg1, hg2⟩
  · have hcount : ((m.data.porttab p).ptmaxcnt : Int) = m.data.count p := by
      rw [hmax]
      omega
    have h1 := I.sems.senders p (Or.inr hst) (hsend hg1)
    rw [hcount] at h1
    refine ⟨by rw [hself], by rw [hself]; exact hnull rfl, ?_, ?_⟩
    · rw [hself]
      exact ⟨hg1, I.sems.used p _ (hsend hg1), h1⟩
    · rw [hself]
      exact ⟨hg2, I.sems.used p _ (hrecv hg2), I.sems.receivers p hst (hrecv hg2)⟩

end Run

/-- In every run in which user code leaves the semaphores of the ports alone: `ptreset` calls the procedure for the messages that
the port holds at the call, in order; and when it returns, the port is as `ptcreate` has made it exactly when `ptcreate` has got two
semaphores and was called with less than 65536. -/
theorem port_reset (n : Int) (buf : Nat) (hn : 1 ≤ n) (hbuf : 0 < buf) (hfit : buf + 8 * n ≤ 4294967296) (minheap maxheap : Nat)
    {m m' : Machine ports} {e : Event ports}
    (r : Machine.Reach (fun m e => m.Lawful e ∧ m.PortsAlone e = true) (boot ports (Ports.started n buf) minheap maxheap) m)
    (hs : m.step e = some m') :
    (∀ portid, e = .op (.ptreset portid) → isbadport (int32 portid) = false →
      (m.data.porttab (int32 portid)).ptstate = .PT_ALLOC →
      ∃ l, m.data.Linked (m.data.porttab (int32 portid)).pthead l ∧ m'.data.doomed (int32 portid) = l.map Prod.snd) ∧
    (∀ p, m'.data.doomed p = m.data.doomed p ∨ (m.data.porttab p).ptstate = .PT_ALLOC ∧
      ∃ portid, p = int32 portid ∧ (e = .op (.ptreset portid) ∨ e = .op (.ptdelete portid))) ∧
    ∀ p v, m.resumed e = some (.cleared p .PT_ALLOC, v) →
      (m'.data.disposed p = m'.data.doomed p ∧ Port.Clean m'.k m'.data p (m'.data.count p) ↔
        m.data.count p ≤ 65535 ∧ isbadsem (m.data.porttab p).ptssem = false ∧ isbadsem (m.data.porttab p).ptrsem = false) := by
  obtain ⟨own, st, loc, I⟩ := reach_portsOk hn hbuf hfit minheap maxheap r
  refine ⟨fun portid he hp ha => ?_, step_doomed hs, fun p v hr => ?_⟩
  · subst he
    exact I.reset_queue hs hp ha
  · obtain ⟨_, hd, hiff⟩ := I.reset_return hs hr
    exact ⟨fun h => hiff.mp h.2, fun h => ⟨hd, hiff.mpr h⟩⟩

/-- The entries of the tables of the kernel that the two runs use. -/
def evaluatePorts : Forcing (Machine ports) := Forcing.machine ⟨[0], [0, 1], []⟩ (Forcing.id _) (Forcing.id _)

/-- A port for 5 messages holds one and is reset. -/
def resetFive : List (Event ports) :=
  [.op (.ptcreate 5), .cont, .cont, .op (.ptsend 0 7), .cont, .cont, .op (.ptreset 0), .ret, .cont]

theorem port_reset_five :
    ∃ m m' : Machine ports, m.resumed .cont = some (.cleared 0 .PT_ALLOC, OK) ∧ m.step .cont = some m' ∧
      m'.data.doomed 0 = [7] ∧ m'.data.disposed 0 = [7] ∧ Port.Clean m'.k m'.data 0 5 := by
  obtain ⟨m, r, hf⟩ := Machine.reach_of_evaluates evaluatePorts (fun m e => m.Lawful e ∧ m.PortsAlone e = true)
    (boot ports (Ports.started 2 8192) 16384 1048576) resetFive
    (fun m => decide (m.resumed .cont = some (.cleared 0 .PT_ALLOC, OK)) && (m.step .cont).isSome &&
      decide (m.data.count 0 = 5) && decide (m.data.doomed 0 = [7]) && !isbadsem (m.data.porttab 0).ptssem &&
      !isbadsem (m.data.porttab 0).ptrsem) (by decide +kernel)
  simp only [Bool.and_eq_true, decide_eq_true_eq, Bool.not_eq_true'] at hf
  obtain ⟨⟨⟨⟨⟨hr, hsome⟩, hc⟩, hd⟩, h1⟩, h2⟩ := hf
  obtain ⟨m', hs⟩ := Option.isSome_iff_exists.mp hsome
  have hseg := Machine.segment_resumed hr
  have hdata : m'.data = (m.data.cleared 0 .PT_ALLOC).1 := by
    rw [Machine.segment_data hs, hseg]
    rfl
  have hcount : m'.data.count 0 = 5 := by
    rw [hdata]
    exact hc
  have hdoomed : m'.data.doomed 0 = [7] := by
    rw [hdata]
    exact hd
  obtain ⟨_, _, hret⟩ := port_reset 2 8192 (by decide) (by decide) (by decide) 16384 1048576 r hs
  obtain ⟨hdisp, hclean⟩ := (hret 0 OK hr).mpr ⟨by omega, h1, h2⟩
  exact ⟨m, m', hr, hs, hdoomed, hdisp.trans hdoomed, hcount ▸ hclean⟩

/-- A port for 65536 messages is reset. -/
def resetLarge : List (Event ports) := [.op (.ptcreate 65536), .cont, .cont, .op (.ptreset 0), .cont]

/-- Behind the reset nobody can send to the port. -/
theorem port_reset_large :
    ∃ m m' : Machine ports,
      Machine.Reach (fun m e => m.Lawful e ∧ m.PortsAlone e = true) (boot ports (Ports.started 2 8192) 16384 1048576) m ∧
      m.resumed .cont = some (.cleared 0 .PT_ALLOC, OK) ∧ m.step .cont = some m' ∧ m'.data.count 0 = 65536 ∧
      (m'.k.semtab (m'.data.porttab 0).ptssem).scount = 0 ∧ ¬Port.Clean m'.k m'.data 0 (m'.data.count 0) := by
  obtain ⟨m, r, hf⟩ := Machine.reach_of_evaluates evaluatePorts (fun m e => m.Lawful e ∧ m.PortsAlone e = true)
    (boot ports (Ports.started 2 8192) 16384 1048576) resetLarge
    (fun m => decide (m.resumed .cont = some (.cleared 0 .PT_ALLOC, OK)) &&
      (m.step .cont).any fun m' : Machine ports =>
        decide (m'.data.count 0 = 65536) && decide ((m'.k.semtab (m'.data.porttab 0).ptssem).scount = 0))
    (by decide +kernel)
  simp only [Bool.and_eq_true, decide_eq_true_eq, Option.any_eq_true] at hf
  obtain ⟨hr, m', hs, hcount, hsem⟩ := hf
  refine ⟨m, m', r, hr, hs, hcount, hsem, fun C => ?_⟩
  have := C.senders.2.2.count
  rw [hsem, hcount] at this
  cases this

end Xinu
