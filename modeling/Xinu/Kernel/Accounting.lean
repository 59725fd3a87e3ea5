import Xinu.Kernel.Refinement

/-!
# The lives of processes

`create` gives a process an entry and a stack, `kill` accepts it as its victim, returns the stack and frees the entry. What
the kernel records of the process in an entry is a sequence of such lives (`life`). `SameLives` says that a step changes
nothing of this.
-/

namespace Xinu

open Kernel

/-! ## Sums over the process table -/

/-- The indices of the process table. -/
def pids : List Int := (List.range NPROC.toNat).map Int.ofNat

/-- The process IDs in a list. -/
theorem mem_pids {p : Int} : p ∈ pids ↔ IsPid p := by
  have hN : NPROC = 100 := rfl
  rw [pids, List.mem_map, IsPid, hN]
  constructor
  · rintro ⟨n, hn, rfl⟩
    have := List.mem_range.mp hn
    simp only [Int.ofNat_eq_natCast]
    omega
  · intro hp
    exact ⟨p.toNat, List.mem_range.mpr (by omega), by simp only [Int.ofNat_eq_natCast]; omega⟩

theorem pids_nodup : pids.Nodup :=
  List.nodup_range.map (fun _ _ e => Int.ofNat.inj e)

/-- A sum over a table, one entry of which changes. -/
theorem sum_map_update {α : Type} {l : List Int} (hl : l.Nodup) (f : α → Nat) (c : Int → α) {p : Int} (hp : p ∈ l) (v : α) :
    (l.map (fun x => f (Function.update c p v x))).sum + f (c p) = (l.map (fun x => f (c x))).sum + f v := by
  induction l with
  | nil => cases hp
  | cons y l ih =>
    obtain ⟨hy, hl⟩ := List.nodup_cons.mp hl
    rw [List.map_cons, List.map_cons, List.sum_cons, List.sum_cons]
    by_cases hpy : p = y
    · subst hpy
      have hsame : l.map (fun x => f (Function.update c p v x)) = l.map (fun x => f (c x)) := by
        refine List.map_congr_left (fun x hx => ?_)
        have hne : x ≠ p := fun e => hy (e ▸ hx)
        rw [Function.update_of_ne hne]
      rw [hsame, Function.update_self]
      omega
    · have := ih hl ((List.mem_cons.mp hp).resolve_left hpy)
      rw [Function.update_of_ne (Ne.symm hpy)]
      omega

/-- A count over a table, when one entry begins to count. -/
theorem countP_insert {l : List Int} (hl : l.Nodup) {P P' : Int → Bool} {p : Int} (hp : p ∈ l) (h0 : P p = false)
    (h1 : P' p = true) (hP : ∀ x, x ≠ p → P' x = P x) : l.countP P' = l.countP P + 1 := by
  induction l with
  | nil => cases hp
  | cons y l ih =>
    obtain ⟨hy, hl⟩ := List.nodup_cons.mp hl
    rw [List.countP_cons, List.countP_cons]
    by_cases hpy : p = y
    · subst hpy
      have hsame : l.countP P' = l.countP P := by
        refine List.countP_congr (fun x hx => ?_)
        rw [hP x (fun e => hy (e ▸ hx))]
      rw [hsame, h0, h1]
      simp
    · rw [ih hl ((List.mem_cons.mp hp).resolve_left hpy), hP y (Ne.symm hpy)]
      omega

/-- The number of entries in use. -/
def Kernel.used {Q : Type} (k : Kernel Q) : Nat := pids.countP (fun p => decide ((k.proctab p).prstate ≠ .PR_FREE))

theorem used_congr {Q Q' : Type} {k : Kernel Q} {k' : Kernel Q'}
    (h : ∀ x, (k'.proctab x).prstate = .PR_FREE ↔ (k.proctab x).prstate = .PR_FREE) : k'.used = k.used := by
  refine List.countP_congr (fun x _ => ?_)
  simp only [decide_eq_true_eq, ne_eq, h x]

/-- One entry is in use in addition. -/
theorem used_add {Q Q' : Type} {k : Kernel Q} {k' : Kernel Q'} {p : Int} (hp : IsPid p)
    (hf : (k.proctab p).prstate = .PR_FREE)
    (h : ∀ x, (k.proctab x).prstate = .PR_FREE ↔ x = p ∨ (k'.proctab x).prstate = .PR_FREE)
    (hu : (k'.proctab p).prstate ≠ .PR_FREE) : k'.used = k.used + 1 := by
  refine countP_insert pids_nodup (mem_pids.mpr hp) (by simp [hf]) (by simp [hu]) (fun x hx => ?_)
  simp [h x, hx]

/-! ## Lives -/

/-- How far the process in an entry is in its life. -/
inductive Phase where
  | free
  | alive (stkbase stklen : Nat)
  /-- A `kill` has accepted it. -/
  | dying (stkbase stklen : Nat)
  /-- Its stack is returned. -/
  | returned
deriving Repr, DecidableEq

/-- What may happen next to the process in the entry `p`. -/
def Phase.next (p : Int) (ph : Phase) : Obs → Option Phase
  | .created q a n => if q = p then (if ph = .free then some (.alive a n) else none) else some ph
  | .killing q =>
    if q = p then
      match ph with
      | .alive a n => some (.dying a n)
      | _ => none
    else some ph
  | .stkfreed q a n => if q = p then (if ph = .dying a n then some .returned else none) else some ph
  | .freed q => if q = p then (if ph = .returned then some .free else none) else some ph
  | _ => some ph

/-- The phase of the process in the entry `p` after what is recorded; `none` when a stack was returned that is not the one
the process got, or returned twice, or a process was killed twice or after its end, or an entry was given away that was not
free. -/
def life (p : Int) : List Obs → Option Phase
  | [] => some .free
  | o :: l => (life p l).bind (fun ph => ph.next p o)

/-- The records that concern no life. -/
def Obs.lifeless : Obs → Bool
  | .created .. | .killing _ | .stkfreed .. | .freed _ => false
  | _ => true

/-- Records of other things do not count. -/
theorem life_append {l : List Obs} (hl : ∀ o ∈ l, o.lifeless = true) (p : Int) (log : List Obs) :
    life p (l ++ log) = life p log := by
  induction l with
  | nil => rfl
  | cons o l ih =>
    have ho := hl o List.mem_cons_self
    have hnext : ∀ ph : Phase, ph.next p o = some ph := by
      intro ph
      cases o with
      | created | killing | stkfreed | freed => cases ho
      | _ => rfl
    rw [List.cons_append, life, ih (fun o ho => hl o (List.mem_cons_of_mem _ ho))]
    cases life p log with
    | none => rfl
    | some ph => exact hnext ph

/-- A record about another process. -/
theorem life_other {p q : Int} (hq : q ≠ p) {o : Obs} (ho : (∃ a n, o = .created q a n) ∨ o = .killing q ∨
    (∃ a n, o = .stkfreed q a n) ∨ o = .freed q) (log : List Obs) : life p (o :: log) = life p log := by
  have hnext : ∀ ph : Phase, ph.next p o = some ph := by
    intro ph
    rcases ho with ⟨a, n, rfl⟩ | rfl | ⟨a, n, rfl⟩ | rfl <;> exact if_neg hq
  rw [life]
  cases life p log with
  | none => rfl
  | some ph => exact hnext ph

/-- Nothing changes in which processes there are. -/
structure SameLives (h g : Kernel QLists) : Prop where
  prcount : g.prcount = h.prcount
  free : ∀ x, (g.proctab x).prstate = .PR_FREE ↔ (h.proctab x).prstate = .PR_FREE
  stack : ∀ x, (g.proctab x).prstkbase = (h.proctab x).prstkbase ∧ (g.proctab x).prstklen = (h.proctab x).prstklen
  life : ∀ x, life x g.log = life x h.log

namespace SameLives

variable {h g g' : Kernel QLists} {p : Int} {e : Procent}

theorem refl (h : Kernel QLists) : SameLives h h := ⟨rfl, fun _ => Iff.rfl, fun _ => ⟨rfl, rfl⟩, fun _ => rfl⟩

theorem trans (H : SameLives h g) (H' : SameLives g g') : SameLives h g' :=
  ⟨H'.prcount.trans H.prcount, fun x => (H'.free x).trans (H.free x),
    fun x => ⟨(H'.stack x).1.trans (H.stack x).1, (H'.stack x).2.trans (H.stack x).2⟩,
    fun x => (H'.life x).trans (H.life x)⟩

/-- A step that leaves the process table alone. -/
theorem table {l : List Obs} (hc : g.prcount = h.prcount) (hproc : g.proctab = h.proctab) (hlog : g.log = l ++ h.log)
    (hl : ∀ o ∈ l, o.lifeless = true) : SameLives h g := by
  refine ⟨hc, fun x => by rw [hproc], fun x => by rw [hproc]; exact ⟨rfl, rfl⟩, fun x => ?_⟩
  rw [hlog, life_append hl]

/-- A step that changes an entry in use, but not its stack. -/
theorem entry {l : List Obs} (hc : g.prcount = h.prcount) (hproc : g.proctab = Function.update h.proctab p e)
    (hlog : g.log = l ++ h.log) (hl : ∀ o ∈ l, o.lifeless = true)
    (hs : e.prstate = .PR_FREE ↔ (h.proctab p).prstate = .PR_FREE)
    (hstk : e.prstkbase = (h.proctab p).prstkbase ∧ e.prstklen = (h.proctab p).prstklen) : SameLives h g := by
  have hother : ∀ x, x ≠ p → g.proctab x = h.proctab x := by
    intro x hx
    rw [hproc, Function.update_of_ne hx]
  have hself : g.proctab p = e := by
    rw [hproc, Function.update_self]
  refine ⟨hc, fun x => ?_, fun x => ?_, fun x => by rw [hlog, life_append hl]⟩
  · by_cases hx : x = p
    · rw [hx, hself]
      exact hs
    · rw [hother x hx]
  · by_cases hx : x = p
    · rw [hx, hself]
      exact hstk
    · rw [hother x hx]
      exact ⟨rfl, rfl⟩

/-- Rescheduling makes and frees no process. -/
theorem resched (I : Inv0 h) : SameLives h h.resched := by
  have R := I.resched_only
  refine ⟨R.prcount, fun x => ?_, fun x => ?_, fun x => by rw [R.log]⟩
  · rcases R.state x with hs | ⟨hs | hs, hs' | hs'⟩
    · rw [hs]
    all_goals simp [hs, hs']
  · rw [R.proc x]
    exact ⟨rfl, rfl⟩

end SameLives

section Steps

variable {h g : Kernel QLists} {κ : Kind} {b : Bool} {ks : List Kind} {p : Int}

/-- The kinds of steps that change which processes there are. -/
def Kind.vital : Kind → Bool
  | .created | .killing _ | .stkfreed | .killed _ => true
  | _ => false

/-- A step of another kind makes and frees no process. -/
theorem Change.sameLives (c : Change h κ b g) (I : Inv h) (hκ : κ.vital = false) : SameLives h g := by
  have hcurr : (h.proctab h.currpid).prstate ≠ .PR_FREE := by
    rw [I.running]
    decide
  have hused : ∀ {q : Int} {p : Int}, p ∈ h.queuetab.ids q → (h.proctab p).prstate ≠ .PR_FREE :=
    fun hm => (I.state_of_mem hm).1
  cases c with
  | created | killing | stkfreed | freed | freedReady | freedAsleep | freedWaiting | freedSelf => cases hκ
  | aux | stop | deferStart | deferStop | resched => exact SameLives.table (l := []) rfl rfl rfl (by simp)
  | tick | passed | signalled | flushedNone | semcreated | semreset | semdeleted =>
    exact SameLives.table (l := [_]) rfl rfl rfl (by simp [Obs.lifeless])
  | releasedNone => exact SameLives.table (l := [_, _]) rfl rfl rfl (by simp [Obs.lifeless])
  | ready p hs => exact SameLives.entry (p := p) (l := []) rfl rfl rfl (by simp) (by simp [hs]) ⟨rfl, rfl⟩
  | resumed p hs => exact SameLives.entry (p := p) (l := []) rfl rfl rfl (by simp) (by simp [hs]) ⟨rfl, rfl⟩
  | suspend p hs => exact SameLives.entry (p := p) (l := []) rfl rfl rfl (by simp) (by simp [hs]) ⟨rfl, rfl⟩
  | suspendSelf | receive => exact SameLives.entry (l := []) rfl rfl rfl (by simp) (by simp [hcurr]) ⟨rfl, rfl⟩
  | chprio p => exact SameLives.entry (p := p) (l := []) rfl rfl rfl (by simp) Iff.rfl ⟨rfl, rfl⟩
  | deposit p => exact SameLives.entry (p := p) (l := [_]) rfl rfl rfl (by simp [Obs.lifeless]) Iff.rfl ⟨rfl, rfl⟩
  | depositRecv p msg hm hs =>
    have H : SameLives h (h.deposit p msg) :=
      SameLives.entry (p := p) (l := [_]) rfl rfl rfl (by simp [Obs.lifeless]) Iff.rfl ⟨rfl, rfl⟩
    have hst := deposit_state h p msg p
    exact H.trans (SameLives.entry (p := p) (l := []) rfl rfl rfl (by simp) (by simp [hst, hs]) ⟨rfl, rfl⟩)
  | depositRectim p msg hm hs =>
    have H : SameLives h (h.deposit p msg) :=
      SameLives.entry (p := p) (l := [_]) rfl rfl rfl (by simp [Obs.lifeless]) Iff.rfl ⟨rfl, rfl⟩
    have hst := deposit_state h p msg p
    exact H.trans (SameLives.entry (p := p) (l := [_]) rfl rfl rfl (by simp [Obs.lifeless]) (by simp [hst, hs]) ⟨rfl, rfl⟩)
  | take => exact SameLives.entry (l := [_]) rfl rfl rfl (by simp [Obs.lifeless]) Iff.rfl ⟨rfl, rfl⟩
  | sleep st d hst =>
    refine SameLives.entry (l := [_]) rfl rfl rfl (by simp [Obs.lifeless]) ?_ ⟨rfl, rfl⟩
    rcases hst with ⟨rfl, _⟩ | ⟨rfl, _⟩ <;> simp [hcurr]
  | blocked => exact SameLives.entry (l := [_]) rfl rfl rfl (by simp [Obs.lifeless]) (by simp [hcurr]) ⟨rfl, rfl⟩
  | woken p rest hq =>
    exact SameLives.entry (p := p) (l := [_]) rfl rfl rfl (by simp [Obs.lifeless])
      (by simp [hused (hq ▸ List.mem_cons_self)]) ⟨rfl, rfl⟩
  | released s p rest hs hu hc hq =>
    exact SameLives.entry (p := p) (l := [_, _]) rfl rfl rfl (by simp [Obs.lifeless])
      (by simp [hused (hq ▸ List.mem_cons_self)]) ⟨rfl, rfl⟩
  | flushed s p rest hs hu hq =>
    exact SameLives.entry (p := p) (l := [_]) rfl rfl rfl (by simp [Obs.lifeless])
      (by simp [hused (hq ▸ List.mem_cons_self)]) ⟨rfl, rfl⟩

theorem Act.sameLives (a : Act h κ g) (I : Inv h) (hκ : κ.vital = false) : SameLives h g := by
  cases a with
  | plain c => exact c.sameLives I hκ
  | sched c => exact (c.sameLives I hκ).trans (SameLives.resched (c.settled I).toInv0)

theorem Acts.sameLives (a : Acts ks h g) (I : Inv h) (hks : ∀ κ ∈ ks, κ.vital = false) : SameLives h g := by
  induction a with
  | refl => exact SameLives.refl h
  | tail a hκ c ih => exact ih.trans (c.sameLives (a.inv I) (hks _ hκ))

/-- The entry of the process `p` becomes free. -/
structure Freed (p : Int) (h g : Kernel QLists) : Prop where
  prcount : g.prcount = h.prcount
  free : ∀ x, (g.proctab x).prstate = .PR_FREE ↔ x = p ∨ (h.proctab x).prstate = .PR_FREE
  stack : ∀ x, (g.proctab x).prstkbase = (h.proctab x).prstkbase ∧ (g.proctab x).prstklen = (h.proctab x).prstklen
  life : ∀ x, life x g.log = life x (.freed p :: h.log)

/-- Freeing an entry, with the record of it. -/
theorem Freed.entry {l : List Obs} (hc : g.prcount = h.prcount)
    (hproc : g.proctab = Function.update h.proctab p { h.proctab p with prstate := .PR_FREE })
    (hlog : g.log = .freed p :: (l ++ h.log)) (hl : ∀ o ∈ l, o.lifeless = true) : Freed p h g := by
  refine ⟨hc, fun x => ?_, fun x => ?_, fun x => ?_⟩
  · by_cases hx : x = p
    · rw [hproc, hx, Function.update_self]
      simp
    · rw [hproc, Function.update_of_ne hx]
      simp [hx]
  · by_cases hx : x = p
    · rw [hproc, hx, Function.update_self]
      exact ⟨rfl, rfl⟩
    · rw [hproc, Function.update_of_ne hx]
      exact ⟨rfl, rfl⟩
  · rw [hlog, Xinu.life, life_append hl]
    rfl

theorem Change.isFreed (c : Change h (.killed p) b g) : Freed p h g := by
  cases c with
  | freed | freedReady | freedSelf => exact Freed.entry (l := []) rfl rfl rfl (by simp)
  | freedAsleep | freedWaiting => exact Freed.entry (l := [_]) rfl rfl rfl (by simp [Obs.lifeless])

/-- The last step of `kill`. -/
theorem Act.isFreed (a : Act h (.killed p) g) (I : Inv h) : Freed p h g := by
  cases a with
  | plain c => exact c.isFreed
  | sched c =>
    have F := c.isFreed
    have R := SameLives.resched (c.settled I).toInv0
    exact ⟨R.prcount.trans F.prcount, fun x => (R.free x).trans (F.free x),
      fun x => ⟨(R.stack x).1.trans (F.stack x).1, (R.stack x).2.trans (F.stack x).2⟩, fun x => (R.life x).trans (F.life x)⟩

end Steps

/-! ## The calls that change which processes there are -/

section Calls

variable {k : Kernel QueueTab} {h h' : Kernel QLists} {p : Int}

/-- The kernel with queues as lists has the processes of the one that represents it. -/
theorem SameLives.of_sim {g : Kernel QLists} (S : Sim k h) (hc : k.prcount = g.prcount) (hproc : k.proctab = g.proctab)
    (hlog : k.log = g.log) : SameLives g h := by
  obtain ⟨L, _, rfl⟩ := S
  exact SameLives.table (l := []) hc hproc hlog (by simp)

/-- `kill` accepts its argument. -/
def Kernel.accepts {Q : Type} (k : Kernel Q) (p : Int) : Bool := !k.isbadpid p && decide (p ≠ NULLPROC)

theorem Kernel.accepts_iff {Q : Type} {k : Kernel Q} :
    k.accepts p = true ↔ IsPid p ∧ (k.proctab p).prstate ≠ .PR_FREE ∧ p ≠ NULLPROC := by
  rw [Kernel.accepts, Bool.and_eq_true, Bool.not_eq_true', decide_eq_true_eq, isbadpid_eq_false, and_assoc]

/-- A refused `kill` changes nothing. -/
theorem kill_refused {Q : Type} [QueueOps Q] {k : Kernel Q} (ha : k.accepts p = false) : k.kill p = (k, .ret SYSERR) := by
  have hb : (k.isbadpid p || decide (p = NULLPROC)) = true := by
    rw [Kernel.accepts, Bool.and_eq_false_iff] at ha
    rcases ha with ha | ha
    · simp only [Bool.not_eq_false'] at ha
      simp [ha]
    · simp [not_not.mp (of_decide_eq_false ha)]
  unfold Kernel.kill
  rw [hb, Bool.true_or, if_pos rfl]

/-- The first part of `kill` counts the process out and records it. -/
theorem kill_lives (S : Sim k h) (I : Inv h) (ha : k.accepts p = true) (S' : Sim (k.kill p).1 h') :
    (k.kill p).2 = .kill p 0 ∧ SameLives ({ h with prcount := h.prcount - 1 }.note (.killing p)) h' := by
  obtain ⟨hp, hs, h0⟩ := Kernel.accepts_iff.mp ha
  have hb : ¬(k.isbadpid p || decide (p = NULLPROC) || decide ((k.proctab p).prstate = .PR_FREE)) = true := by
    simp [isbadpid_eq_false.mpr ⟨hp, hs⟩, h0, hs]
  have hs' : (h.proctab p).prstate ≠ .PR_FREE := by
    obtain ⟨L, R, rfl⟩ := S
    exact hs
  have I₁ := (Act.plain (Change.killing (h := h) p hs' h0)).inv I
  have S₁ : Sim ({ k with prcount := k.prcount - 1 }.note (.killing p))
      ({ h with prcount := h.prcount - 1 }.note (.killing p)) := by
    obtain ⟨L, R, rfl⟩ := S
    exact ⟨L, R, rfl⟩
  unfold Kernel.kill at S' ⊢
  rw [if_neg hb] at S' ⊢
  simp only at S' ⊢
  split at S'
  · next hc =>
    rw [if_pos hc]
    obtain ⟨L, R, rfl⟩ := S
    exact ⟨rfl, SameLives.of_sim S' rfl rfl rfl⟩
  · next hc =>
    rw [if_neg hc]
    obtain ⟨h₂, S₂, a⟩ := send_refines S₁ I₁ _ _
    obtain ⟨L₂, _, rfl⟩ := S₂
    exact ⟨rfl, (a.sameLives I₁ (by simp [Kind.vital])).trans (SameLives.of_sim S' rfl rfl rfl)⟩

end Calls

end Xinu
