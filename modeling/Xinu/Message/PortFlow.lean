import Xinu.Kernel.Prompt
import Xinu.Message.PortRuns

/-!
# The flow of messages through a port

`ptseq` changes whenever a port is made, reset or deleted. The routines behind `wait` that have seen its value belong to the port as it
is now, and while it is in use, they and the counts of its two semaphores say how many messages are in its queue (`Flow`): a routine
that `ptrecv` has brought past `wait` finds a message.
-/

namespace Xinu

namespace Port

/-- Behind the call of `wait` in `ptsend`, and in `ptrecv`, for the port with the sequence number. -/
def Point.sends (p seq : Int) : Point → Bool
  | .sendwaited q s _ => decide (q = p ∧ s = seq)
  | _ => false

def Point.receives (p seq : Int) : Point → Bool
  | .recvwaited q s => decide (q = p ∧ s = seq)
  | _ => false

/-- Behind a call of `wait`. -/
def Point.waits : Point → Bool
  | .sendwaited _ _ _ | .recvwaited _ _ => true
  | _ => false

/-- The port that a routine goes on with. -/
def Point.port : Point → Option Int
  | .gotssem p _ | .gotrsem p _ | .sendwaited p _ _ | .recvwaited p _ | .disposing p _ _ | .released p _ | .cleared p _ => some p
  | .gotnodes _ | .sent | .received _ => none

namespace Ports

/-- The number of messages in the queue of a port. -/
def queued (d : Ports) (p : Int) : Int := (d.enqueued p).length - (d.dequeued p).length

section Same

variable {d b : Ports} {p q : Int}

theorem SamePort.refl (d : Ports) (p : Int) : SamePort d d p := ⟨rfl, rfl, rfl, rfl, rfl, rfl⟩

theorem SamePort.trans {a : Ports} (h : SamePort d b p) (h' : SamePort b a p) : SamePort d a p :=
  ⟨h'.entry.trans h.entry, h'.count.trans h.count, h'.enqueued.trans h.enqueued, h'.dequeued.trans h.dequeued,
    h'.doomed.trans h.doomed, h'.disposed.trans h.disposed⟩

theorem SamePort.queued (h : SamePort d b p) : b.queued p = d.queued p := by
  rw [Ports.queued, Ports.queued, h.enqueued, h.dequeued]

/-- Only the entry of one port is written, and what is recorded for it. -/
theorem samePort_setEntry (e : Ptentry) (h : p ≠ q) : SamePort d (d.setEntry q e) p :=
  ⟨Function.update_of_ne h _ _, rfl, rfl, rfl, rfl, rfl⟩

theorem samePort_release (newstate : PtState) (h : p ≠ q) : SamePort d (d.release q newstate).1 p := by
  unfold Ports.release
  simp only
  split
  · exact samePort_setEntry _ h
  · exact SamePort.refl d p

theorem samePort_dispose (newstate : PtState) (walk : Nat) (h : p ≠ q) : SamePort d (d.dispose q newstate walk).1 p :=
  ⟨rfl, rfl, rfl, rfl, rfl, Function.update_of_ne h _ _⟩

/-- A routine that goes on with one port leaves the others alone. -/
theorem resume_same (pid v : Int) (f : Point) (hf : ∀ n, f ≠ .gotnodes n) (hp : f.port ≠ some p) :
    SamePort d (ports.resume d pid f v).1 p := by
  have hne : ∀ {q : Int}, f.port = some q → p ≠ q := by
    rintro q hq rfl
    exact hp hq
  cases f with
  | gotnodes n => exact absurd rfl (hf n)
  | sent | received => exact SamePort.refl d p
  | gotssem q c => exact samePort_setEntry _ (hne rfl)
  | gotrsem q c =>
    have h := hne (q := q) rfl
    exact ⟨Function.update_of_ne h _ _, Function.update_of_ne h _ _, Function.update_of_ne h _ _, Function.update_of_ne h _ _, rfl, rfl⟩
  | sendwaited q seq msg =>
    have h := hne (q := q) rfl
    change SamePort d (d.sendwaited q seq msg v).1 p
    unfold Ports.sendwaited
    simp only
    split
    · exact SamePort.refl d p
    · split
      · exact SamePort.refl d p
      · obtain ⟨_, _, htab, henq, _, hcount, hdeq, hdoom, hdisp⟩ := enqueue_fields d q msg
        refine ⟨?_, by rw [hcount], ?_, by rw [hdeq], by rw [hdoom], by rw [hdisp]⟩
        · rw [htab, Function.update_of_ne h]
        · rw [henq, Function.update_of_ne h]
  | recvwaited q seq =>
    have h := hne (q := q) rfl
    change SamePort d (d.recvwaited q seq v).1 p
    unfold Ports.recvwaited
    simp only
    split
    · exact SamePort.refl d p
    · split
      · exact SamePort.refl d p
      · exact ⟨Function.update_of_ne h _ _, rfl, rfl, Function.update_of_ne h _ _, rfl, rfl⟩
  | disposing q newstate walk =>
    have h := hne (q := q) rfl
    change SamePort d (d.disposing q newstate walk).1 p
    unfold Ports.disposing
    simp only
    split
    · exact samePort_dispose _ _ h
    · exact SamePort.trans (b := d.splice q) ⟨rfl, rfl, rfl, rfl, rfl, rfl⟩ (samePort_release newstate h)
  | released q newstate =>
    change SamePort d (d.released q newstate).1 p
    unfold Ports.released
    simp only
    split <;> exact SamePort.refl d p
  | cleared q newstate =>
    have h := hne (q := q) rfl
    change SamePort d (d.cleared q newstate).1 p
    unfold Ports.cleared
    simp only
    split <;> exact ⟨Function.update_of_ne h _ _, rfl, rfl, rfl, rfl, rfl⟩

/-- `ptreset` and `ptdelete` leave the other ports alone. -/
theorem ptreset_same (portid : Int) (newstate : PtState) (h : p ≠ int32 portid) : SamePort d (d.ptreset portid newstate).1 p := by
  unfold Ports.ptreset
  simp only
  split
  · exact SamePort.refl d p
  · have hc : SamePort d (d.clearing (int32 portid)) p := ⟨Function.update_of_ne h _ _, rfl, Function.update_of_ne h _ _,
      Function.update_of_ne h _ _, Function.update_of_ne h _ _, Function.update_of_ne h _ _⟩
    have hclear : d.ptclear (int32 portid) newstate =
        if (d.porttab (int32 portid)).pthead ≠ NULL then
          (d.clearing (int32 portid)).dispose (int32 portid) newstate (d.porttab (int32 portid)).pthead
        else (d.clearing (int32 portid)).release (int32 portid) newstate := rfl
    rw [hclear]
    split
    · exact hc.trans (samePort_dispose _ _ h)
    · exact hc.trans (samePort_release _ h)

/-- `ptcreate` takes a port that is not in use. -/
theorem ptcreate_same (count : Int) (hnext : isbadport d.ptnextid = false) (h : (d.porttab p).ptstate ≠ .PT_FREE) :
    SamePort d (d.ptcreate count).1 p := by
  unfold Ports.ptcreate
  simp only
  split
  · exact SamePort.refl d p
  · rcases hl : ptcreateLoop d.porttab NPORTS.toNat d.ptnextid with ⟨_ | q, np⟩
    · exact ⟨rfl, rfl, rfl, rfl, rfl, rfl⟩
    · obtain ⟨_, hfree⟩ := ptcreateLoop_spec hl hnext
      have hne : p ≠ q := by
        rintro rfl
        exact h (hfree p rfl).2
      exact ⟨Function.update_of_ne hne _ _, rfl, rfl, rfl, rfl, rfl⟩

end Same

/-- What a piece of a routine does to a port in use: nothing, or it begins or ends a wait to send or to receive. -/
inductive Deal (d : Ports) (p : Int) (f : Option Point) (x : Ports × Next Point) : Prop where
  | idle (hs : SamePort d x.1 p)
      (hc : ∀ c g, x.2 = .call c g → ∀ t, isbadsem t = false → t = (d.porttab p).ptssem ∨ t = (d.porttab p).ptrsem → c.touches t = false)
      (hf : ∀ g ∈ f, (isbadsem (d.porttab p).ptssem = false → g.sends p (d.porttab p).ptseq = false) ∧
        (isbadsem (d.porttab p).ptrsem = false → g.receives p (d.porttab p).ptseq = false))
      (hg : ∀ g, x.2.routine = some g → g.sends p (d.porttab p).ptseq = false ∧ g.receives p (d.porttab p).ptseq = false)
  | asksSend {msg : Nat} (hf : f = none) (hx : x = (d, .call (.wait (d.porttab p).ptssem) (.sendwaited p (d.porttab p).ptseq msg)))
  | asksReceive (hf : f = none) (hx : x = (d, .call (.wait (d.porttab p).ptrsem) (.recvwaited p (d.porttab p).ptseq)))
  | sends {msg : Nat} (hf : f = some (.sendwaited p (d.porttab p).ptseq msg)) (hgood : isbadsem (d.porttab p).ptssem = false)
      (hx : x = (d.enqueue p msg, .call (.signal (d.porttab p).ptrsem) .sent))
  | receives (hf : f = some (.recvwaited p (d.porttab p).ptseq)) (hgood : isbadsem (d.porttab p).ptrsem = false)
      (hx : x = (d.dequeue p, .call (.signal (d.porttab p).ptssem) (.received (d.node (d.porttab p).pthead).ptmsg)))

end Ports

/-- The value that `wait` returns. -/
def answer (t : Int) : Int := if isbadsem t then SYSERR else OK

/-- What `wait` returns to a routine of a port that is as the routine has seen it. -/
def Told (d : Ports) (st : Int → Stage) (f : Point) (v : Int) : Prop :=
  ∀ p, isbadport p = false → st p = .live → (f.sends p (d.porttab p).ptseq = true → v = answer (d.porttab p).ptssem) ∧
    (f.receives p (d.porttab p).ptseq = true → v = answer (d.porttab p).ptrsem)

section Deals

open Ports

variable {k : Kernel QueueTab} {d : Ports} {own : Option Int → List (Nat × Nat)} {st st' : Int → Stage} {p q v pid : Int} {f : Point}
  {t s : Int}

/-- A semaphore that another port holds. -/
theorem Sems.ne_other (S : Sems k d st) (hh : Held d st p s) (hq : q ≠ p) (hgood : isbadport q = false)
    (ht : t ∈ (st q).holds (d.porttab q)) : t ≠ s := by
  rintro rfl
  exact hq (S.apart q p t ⟨hgood, hh.good, ht⟩ hh)

/-- The semaphores of a port in use. -/
theorem held_live (hp : isbadport p = false) (hst : st p = .live) (hs : isbadsem s = false)
    (h : s = (d.porttab p).ptssem ∨ s = (d.porttab p).ptrsem) : Held d st p s := by
  refine ⟨hp, hs, ?_⟩
  rw [hst]
  rcases h with rfl | rfl <;> simp [Stage.holds]

/-- The call that begins or ends a wait for another port, or releases the processes that wait for it. -/
theorem touches_other {c : Call} (hc : ∀ s, c.touches s = decide (t = s)) (h : t ≠ s) : c.touches s = false := by
  rw [hc]
  exact decide_eq_false h

theorem sends_other (seq : Int) (h : f.port ≠ some p) : f.sends p seq = false ∧ f.receives p seq = false := by
  cases f with
  | sendwaited q s msg | recvwaited q s =>
    have hne : q ≠ p := fun e => h (congrArg some e)
    simp [Point.sends, Point.receives, hne]
  | _ => exact ⟨rfl, rfl⟩

/-- What the first piece of `ptcreate` ends with. -/
theorem ptcreate_next (d : Ports) (count : Int) :
    (d.ptcreate count).2 = .ret SYSERR ∨ ∃ q c, (d.ptcreate count).2 = .call (.semcreate c) (.gotssem q c) := by
  unfold Ports.ptcreate
  simp only
  split
  · exact Or.inl rfl
  · split
    · exact Or.inl rfl
    · exact Or.inr ⟨_, _, rfl⟩

theorem release_next (d : Ports) (q : Int) (newstate : PtState) :
    (d.release q newstate).2 = .call (freeing newstate (d.porttab q).ptssem (d.porttab q).ptmaxcnt) (.released q newstate) ∧
      ((d.release q newstate).1.porttab q).ptstate = (d.porttab q).ptstate ∧
      ((d.release q newstate).1.porttab q).ptseq = (d.porttab q).ptseq := by
  unfold Ports.release freeing
  simp only
  split
  · exact ⟨rfl, by simp only [setEntry_self], by simp only [setEntry_self]⟩
  · exact ⟨rfl, rfl, rfl⟩

/-- What the first piece of `ptreset` and `ptdelete` ends with. -/
theorem ptreset_next (d : Ports) (portid : Int) (newstate : PtState)
    (h : ¬(isbadport (int32 portid) = true ∨ (d.porttab (int32 portid)).ptstate ≠ .PT_ALLOC)) :
    ((d.ptreset portid newstate).1.porttab (int32 portid)).ptstate = .PT_LIMBO ∧
      ((d.ptreset portid newstate).1.porttab (int32 portid)).ptseq = int32 ((d.porttab (int32 portid)).ptseq + 1) ∧
      ((∃ w, (d.ptreset portid newstate).2 = .callback (.disposing (int32 portid) newstate w)) ∨
        ∃ n, (d.ptreset portid newstate).2 =
          .call (freeing newstate (d.porttab (int32 portid)).ptssem n) (.released (int32 portid) newstate)) := by
  have hx : d.ptreset portid newstate = if (d.porttab (int32 portid)).pthead ≠ NULL then
      (d.clearing (int32 portid)).dispose (int32 portid) newstate (d.porttab (int32 portid)).pthead
      else (d.clearing (int32 portid)).release (int32 portid) newstate := by
    unfold Ports.ptreset
    simp only
    rw [if_neg h]
    rfl
  have hself : (d.clearing (int32 portid)).porttab (int32 portid) = { d.porttab (int32 portid) with
    ptstate := .PT_LIMBO, ptseq := int32 ((d.porttab (int32 portid)).ptseq + 1) } := Function.update_self _ _ _
  rw [hx]
  split
  · exact ⟨congrArg Ptentry.ptstate hself, congrArg Ptentry.ptseq hself, Or.inl ⟨_, rfl⟩⟩
  · obtain ⟨h1, h2, h3⟩ := release_next (d.clearing (int32 portid)) (int32 portid) newstate
    rw [hself] at h1 h2 h3
    exact ⟨h2, h3, Or.inr ⟨_, h1⟩⟩

/-- The call for a semaphore of another port. -/
theorem Ports.Deal.other {x : Ports × Next Point} {g : Option Point} (M : Sems k d st) (hp : isbadport p = false) (hst : st p = .live)
    (hs : SamePort d x.1 p) (hq : q ≠ p) (hgood : isbadport q = false) (hg : ∀ f ∈ g, f.port = some q)
    (hy : ∀ f, x.2.routine = some f → f.port = some q ∨ f.port = none)
    (hc : ∀ c f, x.2 = .call c f → ∃ t ∈ (st q).holds (d.porttab q), ∀ s, c.touches s = decide (t = s)) : Deal d p g x := by
  have hne : ∀ f : Point, f.port = some q ∨ f.port = none → f.port ≠ some p := by
    rintro f (h | h)
    · rw [h]
      exact fun e => hq (Option.some.inj e)
    · rw [h]
      nofun
  refine .idle hs (fun c f hx s hs hown => ?_) (fun f hf => ?_) (fun f hf => sends_other _ (hne f (hy f hf)))
  · obtain ⟨t, ht, htouch⟩ := hc c f hx
    exact touches_other htouch (M.ne_other (held_live hp hst hs hown) hq hgood ht)
  · have h := sends_other (d.porttab p).ptseq (hne f (Or.inl (hg f hf)))
    exact ⟨fun _ => h.1, fun _ => h.2⟩

/-- A piece of a routine that makes no call and is not behind a wait. -/
theorem Ports.Deal.ret {b : Ports} {g : Option Point} {w : Int} (hs : SamePort d b p) (hg : ∀ f ∈ g, f.port ≠ some p) :
    Deal d p g (b, .ret w) := by
  refine .idle hs nofun (fun f hf => ?_) nofun
  have h := sends_other (d.porttab p).ptseq (hg f hf)
  exact ⟨fun _ => h.1, fun _ => h.2⟩

/-- The entry of a port in use says so. -/
theorem Ports.Sound.alloc (S : d.Sound own st) (hp : isbadport p = false) (hst : st p = .live) : (d.porttab p).ptstate = .PT_ALLOC := by
  have hat := S.port p hp
  rw [hst] at hat
  exact hat.1

/-- `ptreset` and `ptdelete` of another port. A port that is still in use afterwards is not the one they were called for. -/
theorem Ports.Sound.ptreset_deal (S : d.Sound own st) (M : Sems k d st) (hm : ∀ p c, st p ≠ .making c ∧ st p ≠ .half c)
    (hp : isbadport p = false) (hst : st p = .live) {portid : Int} {newstate : PtState}
    (ha : ((d.ptreset portid newstate).1.porttab p).ptstate = .PT_ALLOC) : Deal d p none (d.ptreset portid newstate) := by
  by_cases h : isbadport (int32 portid) = true ∨ (d.porttab (int32 portid)).ptstate ≠ .PT_ALLOC
  · unfold Ports.ptreset
    simp only
    rw [if_pos h]
    exact .ret (SamePort.refl d p) nofun
  · obtain ⟨hlimbo, _, hnext⟩ := ptreset_next d portid newstate h
    have hq : int32 portid ≠ p := by
      rintro rfl
      rw [hlimbo] at ha
      cases ha
    rw [not_or, not_not] at h
    obtain ⟨hgood, hlive⟩ := S.is_live h.2 (hm _)
    refine .other M hp hst (ptreset_same portid newstate (Ne.symm hq)) hq hgood nofun (fun f hf => ?_) (fun c f hc => ?_)
    · rcases hnext with ⟨w, hx⟩ | ⟨n, hx⟩ <;>
      · rw [hx] at hf
        obtain rfl := Option.some.inj hf
        exact Or.inl rfl
    · rcases hnext with ⟨w, hx⟩ | ⟨n, hx⟩
      · rw [hx] at hc
        cases hc
      · rw [hx] at hc
        obtain ⟨rfl, _⟩ := Next.call.inj hc
        refine ⟨_, ?_, freeing_touches _ _ _⟩
        rw [hlive]
        exact List.mem_cons_self

/-- A piece of a routine that begins. -/
theorem Ports.Sound.enter_deal (S : d.Sound own st) (M : Sems k d st) (hm : ∀ p c, st p ≠ .making c ∧ st p ≠ .half c)
    (hp : isbadport p = false) (hst : st p = .live) {o : Op} (ho : ∀ n, o ≠ .ptinit n)
    (ha : ((ports.enter d pid o).1.porttab p).ptstate = .PT_ALLOC) : Deal d p none (ports.enter d pid o) := by
  cases o with
  | ptinit n => exact absurd rfl (ho n)
  | ptcreate count =>
    have hsame : SamePort d (d.ptcreate count).1 p := ptcreate_same count S.next (by rw [S.alloc hp hst]; nofun)
    refine .idle hsame (fun c g hx t _ _ => ?_) nofun (fun g hg => ?_)
    · rcases ptcreate_next d count with h | ⟨q, n, h⟩
      · rw [show (ports.enter d pid (.ptcreate count)).2 = _ from h] at hx
        cases hx
      · rw [show (ports.enter d pid (.ptcreate count)).2 = _ from h] at hx
        obtain ⟨rfl, _⟩ := Next.call.inj hx
        rfl
    · rcases ptcreate_next d count with h | ⟨q, n, h⟩
      · rw [show (ports.enter d pid (.ptcreate count)).2 = _ from h] at hg
        cases hg
      · rw [show (ports.enter d pid (.ptcreate count)).2 = _ from h] at hg
        obtain rfl := Option.some.inj hg
        exact ⟨rfl, rfl⟩
  | ptsend portid msg =>
    change Deal d p none (d.ptsend portid msg)
    unfold Ports.ptsend
    simp only
    split
    · exact .ret (SamePort.refl d p) nofun
    · next h =>
      rw [not_or, not_not] at h
      by_cases hq : int32 portid = p
      · rw [hq]
        exact .asksSend rfl rfl
      · obtain ⟨hgood, hlive⟩ := S.is_live h.2 (hm _)
        refine .other M hp hst (SamePort.refl d p) hq hgood nofun (fun f hf => ?_) (fun c f hc => ?_)
        · obtain rfl := Option.some.inj hf
          exact Or.inl rfl
        · obtain ⟨rfl, _⟩ := Next.call.inj hc
          refine ⟨_, ?_, fun s => rfl⟩
          rw [hlive]
          exact List.mem_cons_self
  | ptrecv portid =>
    change Deal d p none (d.ptrecv portid)
    unfold Ports.ptrecv
    simp only
    split
    · exact .ret (SamePort.refl d p) nofun
    · next h =>
      rw [not_or, not_not] at h
      by_cases hq : int32 portid = p
      · rw [hq]
        exact .asksReceive rfl rfl
      · obtain ⟨hgood, hlive⟩ := S.is_live h.2 (hm _)
        refine .other M hp hst (SamePort.refl d p) hq hgood nofun (fun f hf => ?_) (fun c f hc => ?_)
        · obtain rfl := Option.some.inj hf
          exact Or.inl rfl
        · obtain ⟨rfl, _⟩ := Next.call.inj hc
          refine ⟨_, ?_, fun s => rfl⟩
          rw [hlive]
          exact List.mem_cons_of_mem _ List.mem_cons_self
  | ptreset portid => exact S.ptreset_deal M hm hp hst ha
  | ptdelete portid => exact S.ptreset_deal M hm hp hst ha

/-- `ptsend` behind `wait`. It sends to the port only if the semaphore is good, since `wait` fails otherwise. -/
theorem Ports.Sound.sendwaited_deal {seq : Int} {msg : Nat} (S : d.Sound own st) (M : Sems k d st)
    (hm : ∀ p c, st p ≠ .making c ∧ st p ≠ .half c) (hp : isbadport p = false) (hst : st p = .live)
    (ht : Told d st (.sendwaited q seq msg) v) (hstop : ∀ b s, d.sendwaited q seq msg v ≠ (b, .stop s)) :
    Deal d p (some (.sendwaited q seq msg)) (d.sendwaited q seq msg v) := by
  have hsame : q ≠ p → SamePort d (d.sendwaited q seq msg v).1 p := fun hq =>
    resume_same 0 v (.sendwaited q seq msg) (by rintro n ⟨⟩) fun e => hq (Option.some.inj e)
  revert hsame hstop
  unfold Ports.sendwaited
  simp only
  split
  · next h =>
    intro _ _
    refine .idle (SamePort.refl d p) (by rintro c g ⟨⟩) ?_ (by rintro g ⟨⟩)
    rintro g ⟨⟩
    refine ⟨fun hs => ?_, fun _ => rfl⟩
    -- `wait` has not failed, since the semaphore is good
    by_contra hg
    obtain ⟨rfl, rfl⟩ := of_decide_eq_true (eq_true_of_ne_false hg)
    have hv := (ht q hp hst).1 (eq_true_of_ne_false hg)
    rw [answer, hs] at hv
    rcases h with h | h | h
    · rw [h] at hv
      cases hv
    · exact h (S.alloc hp hst)
    · exact h rfl
  · next h =>
    rw [not_or, not_or, not_not, not_not] at h
    obtain ⟨hv, hs, hseq⟩ := h
    split
    · exact fun hstop _ => absurd rfl (hstop d .panicked)
    · intro _ hsame
      by_cases hq : q = p
      · subst hq
        subst hseq
        refine .sends rfl ?_ rfl
        by_contra hbad
        have hans := (ht q hp hst).1 (decide_eq_true ⟨rfl, rfl⟩)
        rw [answer, eq_true_of_ne_false hbad] at hans
        exact hv hans
      · obtain ⟨hgood, hlive⟩ := S.is_live hs (hm q)
        refine .other M hp hst (hsame hq) hq hgood (by rintro g ⟨⟩; rfl) ?_ ?_
        · rintro g ⟨⟩
          exact Or.inr rfl
        · rintro c g ⟨⟩
          refine ⟨_, ?_, fun s => rfl⟩
          rw [hlive]
          exact List.mem_cons_of_mem _ List.mem_cons_self

/-- `ptrecv` behind `wait`. -/
theorem Ports.Sound.recvwaited_deal {seq : Int} (S : d.Sound own st) (M : Sems k d st)
    (hm : ∀ p c, st p ≠ .making c ∧ st p ≠ .half c) (hp : isbadport p = false) (hst : st p = .live)
    (ht : Told d st (.recvwaited q seq) v) (hstop : ∀ b s, d.recvwaited q seq v ≠ (b, .stop s)) :
    Deal d p (some (.recvwaited q seq)) (d.recvwaited q seq v) := by
  have hsame : q ≠ p → SamePort d (d.recvwaited q seq v).1 p := fun hq =>
    resume_same 0 v (.recvwaited q seq) (by rintro n ⟨⟩) fun e => hq (Option.some.inj e)
  revert hsame hstop
  unfold Ports.recvwaited
  simp only
  split
  · next h =>
    intro _ _
    refine .idle (SamePort.refl d p) (by rintro c g ⟨⟩) ?_ (by rintro g ⟨⟩)
    rintro g ⟨⟩
    refine ⟨fun _ => rfl, fun hs => ?_⟩
    by_contra hg
    obtain ⟨rfl, rfl⟩ := of_decide_eq_true (eq_true_of_ne_false hg)
    have hv := (ht q hp hst).2 (eq_true_of_ne_false hg)
    rw [answer, hs] at hv
    rcases h with h | h | h
    · rw [h] at hv
      cases hv
    · exact h (S.alloc hp hst)
    · exact h rfl
  · next h =>
    rw [not_or, not_or, not_not, not_not] at h
    obtain ⟨hv, hs, hseq⟩ := h
    split
    · exact fun hstop _ => absurd rfl (hstop d .faulted)
    · intro _ hsame
      by_cases hq : q = p
      · subst hq
        subst hseq
        refine .receives rfl ?_ rfl
        by_contra hbad
        have hans := (ht q hp hst).2 (decide_eq_true ⟨rfl, rfl⟩)
        rw [answer, eq_true_of_ne_false hbad] at hans
        exact hv hans
      · obtain ⟨hgood, hlive⟩ := S.is_live hs (hm q)
        refine .other M hp hst (hsame hq) hq hgood (by rintro g ⟨⟩; rfl) ?_ ?_
        · rintro g ⟨⟩
          exact Or.inr rfl
        · rintro c g ⟨⟩
          refine ⟨_, ?_, fun s => rfl⟩
          rw [hlive]
          exact List.mem_cons_self

/-- The walk through the queue of another port that is reset or deleted. -/
theorem disposing_deal {newstate : PtState} {walk : Nat} (M : Sems k d st) (hp : isbadport p = false) (hst : st p = .live)
    (hq : q ≠ p) (hgood : isbadport q = false) (ht : (d.porttab q).ptssem ∈ (st q).holds (d.porttab q)) :
    Deal d p (some (.disposing q newstate walk)) (d.disposing q newstate walk) := by
  have hsame : SamePort d (d.disposing q newstate walk).1 p :=
    resume_same 0 0 (.disposing q newstate walk) (by rintro n ⟨⟩) fun e => hq (Option.some.inj e)
  revert hsame
  unfold Ports.disposing
  simp only
  split
  · intro hsame
    refine .other M hp hst hsame hq hgood (by rintro g ⟨⟩; rfl) ?_ (by rintro c g ⟨⟩)
    rintro g ⟨⟩
    exact Or.inl rfl
  · intro hsame
    have hnext := (release_next (d.splice q) q newstate).1
    refine .other M hp hst hsame hq hgood (by rintro g ⟨⟩; rfl) (fun g hg => ?_) (fun c g hc => ?_)
    · rw [hnext] at hg
      obtain rfl := Option.some.inj hg
      exact Or.inl rfl
    · rw [hnext] at hc
      obtain ⟨rfl, _⟩ := Next.call.inj hc
      exact ⟨_, ht, freeing_touches _ _ _⟩

/-- The second semaphore of another port that is reset or deleted. -/
theorem released_deal {newstate : PtState} (M : Sems k d st) (hp : isbadport p = false) (hst : st p = .live)
    (hq : q ≠ p) (hgood : isbadport q = false) (ht : (d.porttab q).ptrsem ∈ (st q).holds (d.porttab q)) :
    Deal d p (some (.released q newstate)) (d.released q newstate) := by
  have hx : d.released q newstate = (d, .call (freeing newstate (d.porttab q).ptrsem 0) (.cleared q newstate)) := by
    unfold Ports.released freeing
    split <;> rfl
  rw [hx]
  refine .other M hp hst (SamePort.refl d p) hq hgood (by rintro g ⟨⟩; rfl) ?_ ?_
  · rintro g ⟨⟩
    exact Or.inl rfl
  · rintro c g ⟨⟩
    exact ⟨_, ht, freeing_touches _ _ _⟩

/-- A piece of a routine that goes on. -/
theorem Ports.Sound.resume_deal (S : d.Sound own st) (M : Sems k d st) (hm : f.stage = none → ∀ p c, st p ≠ .making c ∧ st p ≠ .half c)
    (hp : isbadport p = false) (hst : st p = .live) (hf : ∀ q σ, f.stage = some (q, σ) → isbadport q = false ∧ st q = σ)
    (hn : ∀ n, f ≠ .gotnodes n) (ht : f.waits = true → Told d st f v) (hrun : ∀ b s, ports.resume d pid f v ≠ (b, .stop s)) :
    Deal d p (some f) (ports.resume d pid f v) := by
  -- a routine that makes, resets or deletes a port works on another one
  have hother : ∀ {q : Int} {σ : Stage}, f.stage = some (q, σ) → q ≠ p ∧ isbadport q = false ∧ st q = σ := by
    intro q σ hs
    obtain ⟨h1, h2⟩ := hf q σ hs
    refine ⟨?_, h1, h2⟩
    rintro rfl
    exact (stage_ne hs).2 (h2.symm.trans hst)
  cases f with
  | gotnodes n => exact absurd rfl (hn n)
  | sent => exact .ret (SamePort.refl d p) (by rintro g ⟨⟩ ⟨⟩)
  | received msg => exact .ret (SamePort.refl d p) (by rintro g ⟨⟩ ⟨⟩)
  | gotssem q c =>
    obtain ⟨hq, hgood, hσ⟩ := hother rfl
    have hport : (Point.gotssem q c).port ≠ some p := fun e => hq (Option.some.inj e)
    refine .idle (resume_same pid v (.gotssem q c) hn hport) ?_ (by rintro g ⟨⟩; exact ⟨fun _ => rfl, fun _ => rfl⟩) ?_
    · rintro c g hx t _ _
      obtain ⟨rfl, _⟩ := Next.call.inj hx
      rfl
    · rintro g ⟨⟩
      exact ⟨rfl, rfl⟩
  | gotrsem q c =>
    obtain ⟨hq, _, _⟩ := hother rfl
    have hport : (Point.gotrsem q c).port ≠ some p := fun e => hq (Option.some.inj e)
    exact .ret (resume_same pid v (.gotrsem q c) hn hport) (by rintro g ⟨⟩; exact hport)
  | sendwaited q seq msg => exact S.sendwaited_deal M (hm rfl) hp hst (ht rfl) hrun
  | recvwaited q seq => exact S.recvwaited_deal M (hm rfl) hp hst (ht rfl) hrun
  | disposing q newstate walk =>
    obtain ⟨hq, hgood, hσ⟩ := hother rfl
    exact disposing_deal M hp hst hq hgood (by rw [hσ]; exact List.mem_cons_self)
  | released q newstate =>
    obtain ⟨hq, hgood, hσ⟩ := hother rfl
    refine released_deal M hp hst hq hgood ?_
    rw [hσ, Stage.holds]
    split <;> simp
  | cleared q newstate =>
    obtain ⟨hq, _, _⟩ := hother rfl
    have hport : (Point.cleared q newstate).port ≠ some p := fun e => hq (Option.some.inj e)
    exact .ret (resume_same pid v (.cleared q newstate) hn hport) (by rintro g ⟨⟩; exact hport)

end Deals

end Port

end Xinu
