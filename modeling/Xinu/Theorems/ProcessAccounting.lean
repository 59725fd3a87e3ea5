import Mathlib.Algebra.Order.BigOperators.Group.List
import Mathlib.Algebra.Order.Group.Nat
import Xinu.Kernel.Accounting
import Xinu.Kernel.Runs
import Xinu.Kernel.Evaluation

/-!
# Process accounting in every run

`kill` counts its victim out and notifies the parent before it frees the entry, so other processes run in between. In every
run in which no process is killed that a call of `kill` in progress names, in which a victim is not in the middle of a `kill`
when its entry is freed, and in which `create` does not fail behind the allocation of the stack, `prcount` and the calls of
`kill` in progress add up to the entries in use, every stack is returned once, by the `kill` of its process, and no `kill` goes
on for a process that has ended.
-/

namespace Xinu

open Kernel

/-- The victim of a call of `kill` in progress. -/
def Frame.victim {F : Type} : Frame F → Option Int
  | .kernel (.kill p _) => some p
  | _ => none

/-- The calls of `kill` in progress on a stack, for victims that satisfy `P`. -/
def killsIn {F : Type} (P : Int → Bool) (l : List (Frame F)) : Nat := l.countP (fun f => f.victim.any P)

/-- The calls of `kill` in progress, for victims that satisfy `P`. -/
def Machine.kills {C : Client} (m : Machine C) (P : Int → Bool) : Nat := (pids.map (fun x => killsIn P (m.context x))).sum

/-- The phase of a process agrees with its entry and the number of calls of `kill` in progress for it. -/
def Phase.Fits (e : Procent) (n : Nat) : Phase → Prop
  | .free => e.prstate = .PR_FREE ∧ n = 0
  | .alive a l => e.prstate ≠ .PR_FREE ∧ (e.prstkbase = a ∧ e.prstklen = l) ∧ n = 0
  | .dying a l => e.prstate ≠ .PR_FREE ∧ (e.prstkbase = a ∧ e.prstklen = l) ∧ n = 1
  | .returned => False

/-- The processes are accounted for. -/
structure Accounting {C : Client} {Q : Type} (m : Machine C) (k : Kernel Q) : Prop where
  count : k.prcount + m.kills (fun _ => true) = k.used
  stack : ∀ p, p ≠ NULLPROC → ∃ ph, life p k.log = some ph ∧ ph.Fits (k.proctab p) (m.kills (fun v => v == p))

/-- `create` gets no stack, or makes a process with it. -/
def Kernel.completes {Q : Type} (k : Kernel Q) (ssize : Nat) (priority : Int) : Bool :=
  (k.heap.getstk (stkSize (ssize % 4294967296))).1.isNone ||
    (newpidLoop k.proctab NPROC.toNat k.nextpid).1.isSome && decide (1 ≤ int16 priority)

namespace Machine

variable {C : Client} (m : Machine C)

/-- The system call does not kill a process that a `kill` in progress names, and does not lose a stack. -/
def apart : Call → Bool
  | .kill p => !m.k.accepts p || decide (m.kills (fun v => v == p) = 0)
  | .create ssize priority => m.k.completes ssize priority
  | _ => true

/-- The victim of a `kill` that is about to free it is not in the middle of another one. -/
def endsAlone : Bool :=
  match m.stack with
  | .kernel (.kill p i) :: rest =>
    decide (i < 3) || decide (killsIn (fun _ => true) (if p = m.k.currpid then rest else m.context p) = 0)
  | _ => true

/-- The condition on an event. -/
def Separate (e : Event C) : Prop := (∀ c ∈ m.issued e, m.apart c = true) ∧ m.endsAlone = true

instance (e : Event C) : Decidable (m.Separate e) :=
  inferInstanceAs (Decidable ((∀ c ∈ m.issued e, m.apart c = true) ∧ m.endsAlone = true))

end Machine

section Frames

variable {F : Type} {P : Int → Bool}

theorem killsIn_cons (f : Frame F) (l : List (Frame F)) :
    killsIn P (f :: l) = killsIn P l + if f.victim.any P = true then 1 else 0 := List.countP_cons

theorem killsIn_cons_other {f : Frame F} (hf : f.victim = none) (l : List (Frame F)) : killsIn P (f :: l) = killsIn P l := by
  rw [killsIn_cons, hf]
  rfl

theorem killsIn_cons_kill (p : Int) (i : Nat) (l : List (Frame F)) :
    killsIn P (.kernel (.kill p i) :: l) = killsIn P l + if P p = true then 1 else 0 := killsIn_cons _ _

theorem killsIn_eq_zero_of {l : List (Frame F)} (h : killsIn (fun _ => true) l = 0) (P : Int → Bool) : killsIn P l = 0 := by
  rw [killsIn, List.countP_eq_zero] at h ⊢
  intro f hf hP
  cases hv : f.victim with
  | none =>
    rw [hv] at hP
    cases hP
  | some v => exact h f hf (by rw [hv]; rfl)

theorem killsIn_pos {l : List (Frame F)} {p : Int} {i : Nat} (hm : .kernel (.kill p i) ∈ l) (hP : P p = true) :
    0 < killsIn P l :=
  List.countP_pos_iff.mpr ⟨_, hm, hP⟩

end Frames

section

variable {C : Client} {m m' : Machine C} {e : Event C} {h h' : Kernel QLists} {P : Int → Bool}

theorem Machine.Base.killsIn {l : List (Frame C.F)} (hl : Machine.Base m l) : killsIn P l = killsIn P m.stack := by
  cases hl with
  | user => rfl
  | callback hs =>
    rw [hs]
    exact (killsIn_cons_other rfl l).symm
  | client hs =>
    rw [hs]
    exact ((killsIn_cons_other rfl _).trans (killsIn_cons_other rfl l)).symm
  | ret hs =>
    rw [hs]
    exact (killsIn_cons_other rfl l).symm

theorem Machine.Calls.killsIn {c : Call} {d : C.Data} {l rest : List (Frame C.F)} (hr : Machine.Calls m e c d l rest) :
    killsIn P rest = killsIn P m.stack := by
  cases hr with
  | user => rfl
  | client hx => exact (killsIn_cons_other rfl l).trans hx.base.killsIn

theorem Machine.Ends.killsIn {d : C.Data} {l rest : List (Frame C.F)} (hr : Machine.Ends m e d l rest) :
    killsIn P rest = killsIn P m.stack := by
  cases hr with
  | user _ hs => exact (Machine.Base.ret hs).killsIn
  | ret hx => exact hx.base.killsIn
  | callback hx => exact (killsIn_cons_other rfl l).trans hx.base.killsIn

/-- The stack of one process changes. -/
theorem kills_update (m' : Machine C) {p : Int} (hp : IsPid p) {l : List (Frame C.F)} (hc : m'.context = Function.update m.context p l) :
    m'.kills P + killsIn P (m.context p) = m.kills P + killsIn P l := by
  rw [Machine.kills, hc]
  exact sum_map_update pids_nodup (killsIn P) m.context (mem_pids.mpr hp) l

theorem kills_same {p : Int} (hp : IsPid p) {l : List (Frame C.F)} (hc : m'.context = Function.update m.context p l)
    (hl : killsIn P l = killsIn P (m.context p)) : m'.kills P = m.kills P := by
  have := kills_update m' (P := P) hp hc
  omega

theorem kills_pos {x p : Int} (hx : IsPid x) {i : Nat} (hm : .kernel (.kill p i) ∈ m.context x) (hP : P p = true) :
    0 < m.kills P := by
  refine Nat.lt_of_lt_of_le (killsIn_pos hm hP) ?_
  exact List.single_le_sum (by simp) _ (List.mem_map.mpr ⟨x, mem_pids.mpr hx, rfl⟩)

/-- Nothing changes in which processes there are. -/
theorem Accounting.same (A : Accounting m h) (hk : ∀ P, m'.kills P = m.kills P) (H : SameLives h h') : Accounting m' h' := by
  refine ⟨?_, fun p hp => ?_⟩
  · rw [hk, H.prcount, used_congr H.free]
    exact A.count
  · obtain ⟨ph, h1, h2⟩ := A.stack p hp
    refine ⟨ph, (H.life p).trans h1, ?_⟩
    rw [hk]
    cases ph with
    | free => exact ⟨(H.free p).mpr h2.1, h2.2⟩
    | alive a l | dying a l =>
      obtain ⟨hf, ⟨h3, h4⟩, hn⟩ := h2
      exact ⟨fun e => hf ((H.free p).mp e), ⟨(H.stack p).1.trans h3, (H.stack p).2.trans h4⟩, hn⟩
    | returned => exact h2

/-- `create` makes a process. -/
theorem Accounting.created (A : Accounting m h) {p : Int} {saddr ssize : Nat} {priority : Int} (hp : IsPid p)
    (hf : (h.proctab p).prstate = .PR_FREE) (h0 : p ≠ NULLPROC) (hk : ∀ P, m'.kills P = m.kills P)
    (H : SameLives (h.addProc p saddr ssize priority) h') : Accounting m' h' := by
  have hself : (h.addProc p saddr ssize priority).proctab p = { h.proctab p with
      prstate := .PR_SUSP, prprio := priority, prstkbase := saddr, prstklen := ssize, prsem := -1, prparent := h.currpid,
      prhasmsg := false } := Function.update_self _ _ _
  have hother : ∀ x, x ≠ p → (h.addProc p saddr ssize priority).proctab x = h.proctab x :=
    fun x hx => Function.update_of_ne hx _ _
  refine Accounting.same (m := m) ⟨?_, fun x hx => ?_⟩ hk H
  · have hused : (h.addProc p saddr ssize priority).used = h.used + 1 := by
      refine used_add hp hf (fun x => ?_) (by rw [hself]; simp)
      by_cases hx : x = p
      · rw [hx]
        simp [hf]
      · rw [hother x hx]
        simp [hx]
    have hc := A.count
    have hpr : (h.addProc p saddr ssize priority).prcount = h.prcount + 1 := rfl
    rw [hused, hpr]
    omega
  · obtain ⟨ph, h1, h2⟩ := A.stack x hx
    by_cases hxp : x = p
    · subst hxp
      cases ph with
      | free =>
        refine ⟨.alive saddr ssize, ?_, ?_⟩
        · show (life x h.log).bind (fun ph => ph.next x (.created x saddr ssize)) = _
          rw [h1]
          simp [Phase.next]
        · rw [hself]
          exact ⟨by simp, ⟨rfl, rfl⟩, h2.2⟩
      | alive | dying => exact absurd hf h2.1
      | returned => exact h2.elim
    · refine ⟨ph, (life_other (Ne.symm hxp) (Or.inl ⟨_, _, rfl⟩) _).trans h1, ?_⟩
      rw [hother x hxp]
      exact h2

/-- `kill` accepts its argument. -/
theorem Accounting.killing (A : Accounting m h) {p : Int} (h0 : p ≠ NULLPROC) (hf : (h.proctab p).prstate ≠ .PR_FREE)
    (hn : m.kills (fun v => v == p) = 0) (hk : ∀ P, m'.kills P = m.kills P + if P p = true then 1 else 0)
    (H : SameLives ({ h with prcount := h.prcount - 1 }.note (.killing p)) h') : Accounting m' h' := by
  refine Accounting.same (m := m') (h := { h with prcount := h.prcount - 1 }.note (.killing p)) ⟨?_, fun x hx => ?_⟩
    (fun _ => rfl) H
  · rw [hk]
    have hc := A.count
    show h.prcount - 1 + _ = ((h.used : Nat) : Int)
    simp only [if_true]
    omega
  · obtain ⟨ph, h1, h2⟩ := A.stack x hx
    rw [hk]
    by_cases hxp : x = p
    · subst hxp
      cases ph with
      | free => exact absurd h2.1 hf
      | alive a l =>
        refine ⟨.dying a l, ?_, h2.1, h2.2.1, ?_⟩
        · show (life x h.log).bind (fun ph => ph.next x (.killing x)) = _
          rw [h1]
          simp [Phase.next]
        · rw [hn]
          simp
      | dying a l =>
        have hone := h2.2.2
        rw [hn] at hone
        cases hone
      | returned => exact h2.elim
    · refine ⟨ph, (life_other (Ne.symm hxp) (Or.inr (Or.inl rfl)) _).trans h1, ?_⟩
      rw [if_neg (by simpa using Ne.symm hxp), Nat.add_zero]
      exact h2

/-- The last part of `kill`. -/
theorem Accounting.killEnd (A : Accounting m h) {p : Int} (hp : IsPid p) (h0 : p ≠ NULLPROC)
    (hpos : 0 < m.kills (fun v => v == p)) (hk : ∀ P, m.kills P = m'.kills P + if P p = true then 1 else 0)
    (F : Freed p (h.freeStack p) h') : Accounting m' h' := by
  obtain ⟨ph, h1, h2⟩ := A.stack p h0
  -- a call of `kill` is in progress for `p`, so `p` is dying
  obtain ⟨a, l, rfl⟩ : ∃ a l, ph = .dying a l := by
    cases ph with
    | free => exact absurd h2.2 (by omega)
    | alive => exact absurd h2.2.2 (by omega)
    | dying a l => exact ⟨a, l, rfl⟩
    | returned => exact h2.elim
  have hself : (h'.proctab p).prstate = .PR_FREE := (F.free p).mpr (Or.inl rfl)
  have hlife : life p h'.log = some .free := by
    rw [F.life p]
    show ((life p h.log).bind _).bind _ = _
    rw [h1]
    simp [Phase.next, h2.2.1.1, h2.2.1.2]
  refine ⟨?_, fun x hx => ?_⟩
  · have hused : h.used = h'.used + 1 := used_add hp hself F.free h2.1
    have hc := A.count
    have hpr : h'.prcount = h.prcount := F.prcount
    rw [hk] at hc
    simp only [if_true] at hc
    rw [hpr]
    omega
  · by_cases hxp : x = p
    · subst hxp
      have hone := h2.2.2
      rw [hk] at hone
      simp only [beq_self_eq_true, if_true] at hone
      exact ⟨.free, hlife, hself, by omega⟩
    · obtain ⟨phx, h3, h4⟩ := A.stack x hx
      have hlifex : life x h'.log = life x h.log := by
        rw [F.life x, life_other (Ne.symm hxp) (Or.inr (Or.inr (Or.inr rfl)))]
        exact life_other (Ne.symm hxp) (Or.inr (Or.inr (Or.inl ⟨_, _, rfl⟩))) _
      have hfree : (h'.proctab x).prstate = .PR_FREE ↔ (h.proctab x).prstate = .PR_FREE := by
        rw [F.free x]
        simp [hxp]
        rfl
      rw [hk, if_neg (by simpa using Ne.symm hxp), Nat.add_zero] at h4
      refine ⟨phx, hlifex.trans h3, ?_⟩
      cases phx with
      | free => exact ⟨hfree.mpr h4.1, h4.2⟩
      | alive a l | dying a l =>
        obtain ⟨hf, ⟨h5, h6⟩, hn⟩ := h4
        exact ⟨fun e => hf (hfree.mp e), ⟨(F.stack x).1.trans h5, (F.stack x).2.trans h6⟩, hn⟩
      | returned => exact h4

/-- A system call other than `kill` leaves no call of `kill` in progress. -/
theorem call_victim {k : Kernel QueueTab} {c : Call} {F : Type} (hc : ∀ p, c = .kill p → k.accepts p = false) :
    (Frame.kernel (F := F) (k.call c).2).victim = none := by
  rcases call_resume k c with ⟨v, e⟩ | ⟨p, _, e⟩ | ⟨_, e⟩ | ⟨d, _, e⟩ | ⟨p, hp, e, hb, h0⟩
  · rw [e]
    rfl
  · rw [e]
    rfl
  · rw [e]
    rfl
  · rw [e]
    rfl
  · have := hc p hp
    simp [Kernel.accepts, hb, h0] at this

theorem Call.kinds_vital {c : Call} (h1 : ∀ p, c ≠ .kill p) (h2 : ∀ ssize prio, c ≠ .create ssize prio) :
    ∀ κ ∈ c.kinds, κ.vital = false := by
  cases c with
  | kill p => exact absurd rfl (h1 p)
  | create ssize prio => exact absurd rfl (h2 ssize prio)
  | _ => simp [Call.kinds, Kind.vital]

/-- A call of `create` that loses no stack. -/
theorem create_lives {k : Kernel QueueTab} {ssize : Nat} {priority : Int} (S : Sim k h)
    (hc : k.completes ssize priority = true) (S' : Sim (k.create ssize priority).1 h') :
    SameLives h h' ∧ (k.heap.getstk (stkSize (ssize % 4294967296))).1 = none ∨
      ∃ p saddr, (k.heap.getstk (stkSize (ssize % 4294967296))).1 = some saddr ∧ IsPid p ∧ (h.proctab p).prstate = .PR_FREE ∧
        SameLives (h.addProc p saddr (stkSize (ssize % 4294967296)) (int16 priority)) h' ∧
        (k.create ssize priority).1.log = .created p saddr (stkSize (ssize % 4294967296)) :: k.log := by
  obtain ⟨L, R, rfl⟩ := S
  rcases create_cases k ssize priority with ⟨np, e⟩ | ⟨saddr, heap, pid, np, hg, hn, hprio, e⟩
  · rw [e] at S'
    refine Or.inl ⟨?_, ?_⟩
    · exact SameLives.of_sim S' rfl rfl rfl
    · -- otherwise a process would have been made
      by_contra hsome
      rw [Kernel.completes, Bool.or_eq_true, Bool.and_eq_true] at hc
      rcases hc with hc | ⟨h1, h2⟩
      · exact hsome (Option.isNone_iff_eq_none.mp hc)
      · obtain ⟨saddr, hs⟩ := Option.ne_none_iff_exists'.mp hsome
        obtain ⟨pid, hp⟩ := Option.isSome_iff_exists.mp h1
        have hcreate : (k.create ssize priority).2 = .ret pid := by
          unfold Kernel.create
          rcases hg : k.heap.getstk (stkSize (ssize % 4294967296)) with ⟨o, heap⟩
          rw [hg] at hs
          obtain rfl : o = some saddr := hs
          rcases hn : newpidLoop k.proctab NPROC.toNat k.nextpid with ⟨o', np'⟩
          rw [hn] at hp
          obtain rfl : o' = some pid := hp
          simp only [hg, Kernel.newpid, hn]
          rw [if_neg (by have := of_decide_eq_true h2; omega)]
        rw [e] at hcreate
        have hpid : pid = SYSERR := (Resume.ret.inj hcreate).symm
        have := (newpidLoop_spec (show newpidLoop k.proctab NPROC.toNat k.nextpid = (some pid, _) from Prod.ext hp rfl)).1.1
        rw [hpid] at this
        exact absurd this (by decide)
  · obtain ⟨hp, hf⟩ := newpidLoop_spec hn
    rw [e] at S'
    exact Or.inr ⟨pid, saddr, by rw [hg], hp, hf, SameLives.of_sim S' rfl rfl rfl, by rw [e]; rfl⟩

/-- A system call keeps the account. -/
theorem call_accounting {c : Call} {d : C.Data} {l rest : List (Frame C.F)} (A : Accounting m h) (St : Steady m h)
    (hr : Machine.Calls m e c d l rest) (hc : m.apart c = true) (a : Acts c.kinds h h') (S' : Sim (m.k.call c).1 h') :
    Accounting ({ m with data := d }.enterCall c rest) h' := by
  have hcurr : IsPid m.k.currpid := St.currpid_eq ▸ St.inv.currpid
  have hproc := St.sim.fields.1
  have hnone : (∀ p, c = .kill p → m.k.accepts p = false) → ∀ P, ({ m with data := d }.enterCall c rest).kills P = m.kills P := by
    intro hk P
    refine kills_same (m := m) hcurr rfl ?_
    exact (killsIn_cons_other (call_victim hk) rest).trans hr.killsIn
  by_cases hk : ∃ p, c = .kill p
  · obtain ⟨p, rfl⟩ := hk
    cases ha : m.k.accepts p with
    | false =>
      have hkill : m.k.call (.kill p) = (m.k, .ret SYSERR) := kill_refused ha
      rw [hkill] at S'
      refine A.same (hnone (fun q e => by obtain rfl := Call.kill.inj e; exact ha)) (SameLives.of_sim S' ?_ ?_ ?_)
      · exact St.sim.fields.2.2.2.2.2.2.1
      · exact hproc
      · exact St.sim.fields.2.2.2.2.1
    | true =>
      obtain ⟨hp, hf, h0⟩ := Kernel.accepts_iff.mp ha
      obtain ⟨hres, H⟩ := kill_lives St.sim St.inv ha S'
      have hn : m.kills (fun v => v == p) = 0 := by
        simpa [Machine.apart, ha] using hc
      refine A.killing h0 (hproc ▸ hf) hn (fun P => ?_) H
      have hu := kills_update (m := m) ({ m with data := d }.enterCall (.kill p) rest) (P := P) hcurr rfl
      have hframe : (Frame.kernel (m.k.call (.kill p)).2 :: rest) = .kernel (.kill p 0) :: rest := by
        rw [Kernel.call, hres]
      rw [hframe, killsIn_cons_kill, hr.killsIn] at hu
      have hstk : killsIn P m.stack = killsIn P (m.context m.k.currpid) := rfl
      omega
  · have hsame := hnone (fun p e => absurd ⟨p, e⟩ hk)
    by_cases hcr : ∃ ssize prio, c = .create ssize prio
    · obtain ⟨ssize, prio, rfl⟩ := hcr
      rcases create_lives St.sim hc S' with ⟨H, _⟩ | ⟨p, saddr, _, hp, hf, H, _⟩
      · exact A.same hsame H
      · have h0 : p ≠ NULLPROC := St.inv.ne_null (by rw [hf]; exact ⟨by decide, by decide⟩)
        exact A.created hp hf h0 hsame H
    · refine A.same hsame (a.sameLives St.inv (Call.kinds_vital (fun p e => hk ⟨p, e⟩) (fun x y e => hcr ⟨x, y, e⟩)))

/-- An event that meets the condition keeps the account. -/
theorem Does.accounting (d : Does m e h m' h') (St : Steady m h) (St' : Steady m' h') (hsep : m.Separate e)
    (A : Accounting m h) : Accounting m' h' := by
  have hcurr : IsPid m.k.currpid := St.currpid_eq ▸ St.inv.currpid
  cases d with
  | call c d l rest hi hr hk a => exact call_accounting A St hr (hsep.1 c hi) a St'.sim
  | inside d l rest hr hk => exact A.same (fun P => kills_same (m := m) hcurr rfl hr.killsIn) (SameLives.refl h)
  | stop d s l hx => exact A.same (fun _ => rfl) (SameLives.table (l := []) rfl rfl rfl (by simp))
  | tick he t a =>
    have t' := Act.plain t
    exact A.same (fun _ => rfl) ((t'.sameLives St.inv rfl).trans (a.sameLives (t'.inv St.inv) (by simp [Kind.vital])))
  | back r v rest hs hr hk =>
    refine A.same (fun P => kills_same (m := m) hcurr rfl ?_) (SameLives.refl h)
    have hv : (Frame.kernel (F := C.F) r).victim = none := by
      rcases hr with ⟨p, rfl⟩ | ⟨rfl, _⟩ <;> rfl
    rw [killsIn_cons_other rfl, show m.context m.k.currpid = _ from hs, killsIn_cons_other hv]
  | take r rest hs hr hk =>
    refine A.same (fun P => kills_same (m := m) hcurr rfl ?_) ?_
    · have hv : (Frame.kernel (F := C.F) r).victim = none := by
        rcases hr with rfl | ⟨rfl, _⟩ <;> rfl
      rw [killsIn_cons_other rfl, show m.context m.k.currpid = _ from hs, killsIn_cons_other hv]
    · exact SameLives.entry (l := [_]) rfl rfl rfl (by simp [Obs.lifeless]) Iff.rfl ⟨rfl, rfl⟩
  | closed pid i rest hs hi hk =>
    refine A.same (fun P => kills_same (m := m) hcurr rfl ?_) (SameLives.refl h)
    rw [killsIn_cons_kill, show m.context m.k.currpid = _ from hs, killsIn_cons_kill]
  | killEnd pid i rest hs hi hk a he =>
    have hs' : m.context m.k.currpid = .kernel (.kill pid i) :: rest := hs
    obtain ⟨hp, h0⟩ := St.stackOk.victim (hs ▸ List.mem_cons_self : Frame.kernel (.kill pid i) ∈ m.stack)
    have halone : killsIn (fun _ => true) (if pid = m.k.currpid then rest else m.context pid) = 0 := by
      have := hsep.2
      simpa [Machine.endsAlone, hs, hi] using this
    have hpos : 0 < m.kills (fun v => v == pid) := by
      refine kills_pos hcurr (hs' ▸ List.mem_cons_self : Frame.kernel (.kill pid i) ∈ m.context m.k.currpid) ?_
      exact beq_self_eq_true pid
    refine A.killEnd hp h0 hpos (fun P => ?_) (a.isFreed ((Act.plain (Change.stkfreed pid)).inv St.inv))
    have h1 := kills_update (m := m)
      ({ m with k := m.k.killEnd pid }.setStack m.k.currpid (.kernel (.ret OK) :: rest)) (P := P) hcurr rfl
    have h2 := kills_update (m := { m with k := m.k.killEnd pid }.setStack m.k.currpid (.kernel (.ret OK) :: rest))
      (({ m with k := m.k.killEnd pid }.setStack m.k.currpid (.kernel (.ret OK) :: rest)).setStack pid []) (P := P)
      hp rfl
    rw [hs', killsIn_cons_kill, killsIn_cons_other rfl] at h1
    have hvict : killsIn P (({ m with k := m.k.killEnd pid }.setStack m.k.currpid (.kernel (.ret OK) :: rest)).context pid) = 0 := by
      by_cases hpc : pid = m.k.currpid
      · rw [if_pos hpc] at halone
        rw [hpc, Machine.setStack_self, killsIn_cons_other rfl]
        exact killsIn_eq_zero_of halone P
      · rw [if_neg hpc] at halone
        rw [Machine.setStack_of_ne _ hpc]
        exact killsIn_eq_zero_of halone P
    have hnil : killsIn P ([] : List (Frame C.F)) = 0 := rfl
    omega

end

/-- After `sysinit` there is the null process. -/
theorem boot_accounting {C : Client} (data : C.Data) (minheap maxheap : Nat) :
    Accounting (boot C data minheap maxheap) ((sysinit minheap maxheap).abst QLists.none) := by
  have hstate : ∀ p, ((sysinit minheap maxheap).proctab p).prstate = if p = NULLPROC then .PR_CURR else .PR_FREE := by
    intro p
    simp only [sysinit]
    split <;> rfl
  have hkills : ∀ P, (boot C data minheap maxheap).kills P = 0 := by
    intro P
    simp [Machine.kills, boot, killsIn]
  refine ⟨?_, fun p hp => ⟨.free, rfl, ?_, hkills _⟩⟩
  · have hused : ((sysinit minheap maxheap).abst QLists.none).used = pids.countP (fun p => decide (p = NULLPROC)) := by
      refine List.countP_congr (fun p _ => ?_)
      have hs : (((sysinit minheap maxheap).abst QLists.none).proctab p).prstate =
          if p = NULLPROC then .PR_CURR else .PR_FREE := hstate p
      rw [hs]
      by_cases h0 : p = NULLPROC <;> simp [h0]
    have hone : pids.countP (fun p => decide (p = NULLPROC)) = 1 := by decide
    rw [hused, hkills, hone]
    rfl
  · exact (hstate p).trans (if_neg hp)

/-- Two processes are created and one of them kills the other, which wakes the parent of both. -/
def killOnce : List (Event Client.none) :=
  [.call (.create 400 20), .cont, .call (.resume 1), .call (.create 400 10), .cont, .call (.create 400 10), .cont,
    .call .receive, .cont, .call (.kill 2), .cont, .cont, .call .receive, .cont, .cont, .cont, .cont, .cont]

/-- The same, but the parent kills the process that is being killed once more while it is notified. -/
def killTwice : List (Event Client.none) :=
  [.call (.create 400 20), .cont, .call (.resume 1), .call (.create 400 10), .cont, .call (.create 400 10), .cont,
    .call .receive, .cont, .call (.kill 2), .cont, .cont, .call (.kill 2), .cont, .cont, .cont, .cont, .cont,
    .call .receive, .cont, .cont, .call .receive, .cont, .cont, .cont, .cont]

end Xinu
