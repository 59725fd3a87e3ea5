import Xinu.Kernel.Accounting
import Xinu.Kernel.Mailbox
import Xinu.Kernel.Runs

/-!
# Who created whom

Process identifiers are used again, so a process is named by its identifier and by how many processes had the identifier before
(`Kin`). The creator of a process is recorded when `create` runs; the kernel itself keeps the creator's identifier only, in
`prparent`. `KnowsKin` says how the two are related in every state.
-/

namespace Xinu

open Kernel

/-- The process that was created, if this is the record of a creation. -/
def Obs.birth : Obs → Option Int
  | .created p _ _ => some p
  | _ => none

/-- The process that got a message, if this is the record of one. -/
def Obs.receiver : Obs → Option Int
  | .sent p _ => some p
  | _ => none

/-- How many processes had the identifier. -/
def lives (p : Int) (log : List Obs) : Nat := log.countP (fun o => o.birth == some p)

/-- What was recorded since the process with this identifier was created. -/
def sinceBirth (p : Int) (log : List Obs) : List Obs := log.takeWhile (fun o => o.birth != some p)

/-- What was recorded before that. -/
def beforeBirth (p : Int) (log : List Obs) : List Obs := (log.dropWhile (fun o => o.birth != some p)).tail

section Log

variable {l log : List Obs} {o : Obs} {p q : Int}

/-- Records of other things do not count. -/
theorem lives_append (hl : ∀ o ∈ l, o.birth = none) (p : Int) : lives p (l ++ log) = lives p log := by
  have h0 : l.countP (fun o => o.birth == some p) = 0 := by
    refine List.countP_eq_zero.mpr (fun o ho => ?_)
    rw [hl o ho]
    simp
  rw [lives, List.countP_append, h0, Nat.zero_add]
  rfl

theorem beforeBirth_append (hl : ∀ o ∈ l, o.birth = none) (p : Int) : beforeBirth p (l ++ log) = beforeBirth p log := by
  have h0 : ∀ o ∈ l, (o.birth != some p) = true := fun o ho => by
    rw [hl o ho]
    rfl
  rw [beforeBirth, List.dropWhile_append_of_pos h0]
  rfl

theorem beforeBirth_cons_self (ho : o.birth = some p) : beforeBirth p (o :: log) = log := by
  rw [beforeBirth, List.dropWhile_cons_of_neg (by simp [ho])]
  rfl

theorem beforeBirth_cons_of_ne (ho : o.birth ≠ some p) : beforeBirth p (o :: log) = beforeBirth p log := by
  rw [beforeBirth, List.dropWhile_cons_of_pos (by simpa using ho)]
  rfl

theorem lives_cons_self (ho : o.birth = some p) : lives p (o :: log) = lives p log + 1 :=
  List.countP_cons_of_pos (by simp [ho])

theorem lives_cons_of_ne (ho : o.birth ≠ some p) : lives p (o :: log) = lives p log :=
  List.countP_cons_of_neg (by simpa using ho)

/-- The processes with the identifier `q` were created since `p` was, or before. -/
theorem lives_split (hq : ∀ o ∈ log, o.birth = some p → q ≠ p) :
    lives q log = lives q (sinceBirth p log) + lives q (beforeBirth p log) := by
  induction log with
  | nil => rfl
  | cons o log ih =>
    by_cases ho : o.birth = some p
    · have hne : o.birth ≠ some q := by
        rw [ho]
        intro e
        exact hq o List.mem_cons_self ho (Option.some.inj e).symm
      have hs : sinceBirth p (o :: log) = [] := List.takeWhile_cons_of_neg (by simp [ho])
      rw [hs, beforeBirth_cons_self ho, lives_cons_of_ne hne]
      exact (Nat.zero_add _).symm
    · have hs : sinceBirth p (o :: log) = o :: sinceBirth p log := List.takeWhile_cons_of_pos (by simpa using ho)
      have ih' := ih (fun o' ho' => hq o' (List.mem_cons_of_mem _ ho'))
      rw [hs, beforeBirth_cons_of_ne ho]
      by_cases hoq : o.birth = some q
      · rw [lives_cons_self hoq, lives_cons_self hoq, ih']
        omega
      · rw [lives_cons_of_ne hoq, lives_cons_of_ne hoq, ih']

end Log

/-! ## The record of a run -/

/-- A message that `kill` sent: who was killed, who had created it, and who got the message. -/
structure Notice where
  victim : Int
  creator : Int × Nat
  receiver : Int × Nat
deriving Repr, DecidableEq

/-- How many processes had an identifier, and the creator of the last one. -/
structure Kin where
  lives : Int → Nat
  creator : Int → Int × Nat
  notices : List Notice

namespace Machine

variable {C : Client}

/-- The process that the event's call of `create` makes. -/
def newborn (m : Machine C) (e : Event C) : Option Int :=
  match m.issued e with
  | some (.create ssize priority) =>
    match (m.k.create ssize priority).2 with
    | .ret v => if v = SYSERR then none else some v
    | _ => none
  | _ => none

/-- The processes that got a message on the way from `m` to `m'`. -/
def receivers (m m' : Machine C) : List Int := (m'.k.log.take (m'.k.log.length - m.k.log.length)).filterMap Obs.receiver

end Machine

namespace Kin

def boot : Kin := { lives := fun _ => 0, creator := fun _ => (NULLPROC, 0), notices := [] }

/-- A process is created by the current one. -/
def bear (g : Kin) (pid currpid : Int) : Kin :=
  { g with
    lives := Function.update g.lives pid (g.lives pid + 1)
    creator := Function.update g.creator pid (currpid, g.lives currpid) }

/-- `kill` has sent a message. -/
def notify (g : Kin) (pid : Int) (receivers : List Int) : Kin :=
  { g with notices := receivers.map (fun q => ⟨pid, g.creator pid, (q, g.lives q)⟩) ++ g.notices }

/-- What an event adds to the record. -/
def next {C : Client} (g : Kin) (m : Machine C) (e : Event C) (m' : Machine C) : Kin :=
  match m.issued e with
  | some (.kill pid) => g.notify pid (m.receivers m')
  | _ =>
    match m.newborn e with
    | some pid => g.bear pid m.k.currpid
    | none => g

end Kin

/-- A run, with its record. -/
inductive Machine.Lineage {C : Client} (ok : Machine C → Event C → Prop) (m : Machine C) : Kin → Machine C → Prop where
  | refl : Lineage ok m Kin.boot m
  | step {g : Kin} {m₁ m₂ : Machine C} (e : Event C) :
      Lineage ok m g m₁ → ok m₁ e → m₁.step e = some m₂ → Lineage ok m (g.next m₁ e m₂) m₂

/-- Every run has a record. -/
theorem Machine.Reach.lineage {C : Client} {ok : Machine C → Event C → Prop} {m m' : Machine C} (r : Machine.Reach ok m m') :
    ∃ g, Machine.Lineage ok m g m' := by
  induction r with
  | refl => exact ⟨Kin.boot, .refl⟩
  | step e _ hok hs ih =>
    obtain ⟨g, l⟩ := ih
    exact ⟨_, l.step e hok hs⟩

/-! ## The kernel's own record -/

/-- What the kernel knows of the record: the creator's identifier is in `prparent`, and it had as many lives before as were
recorded when the process was created. -/
structure KnowsKin {Q : Type} (g : Kin) (k : Kernel Q) : Prop where
  lives : ∀ p, g.lives p = Xinu.lives p k.log
  creator : ∀ p, g.creator p = ((k.proctab p).prparent, Xinu.lives (k.proctab p).prparent (beforeBirth p k.log))
  other : ∀ p, ∀ o ∈ k.log, o.birth = some p → (k.proctab p).prparent ≠ p

section KnowsKin

variable {Q Q' : Type} {r : Kin} {k : Kernel Q} {k' : Kernel Q'}

/-- What is known depends on the process table and the log. -/
theorem KnowsKin.congr (T : KnowsKin r k) (hproc : k'.proctab = k.proctab) (hlog : k'.log = k.log) : KnowsKin r k' := by
  refine ⟨fun p => ?_, fun p => ?_, fun p o ho hb => ?_⟩
  · rw [hlog]
    exact T.lives p
  · rw [hproc, hlog]
    exact T.creator p
  · rw [hproc]
    rw [hlog] at ho
    exact T.other p o ho hb

/-- Messages are no part of it. -/
theorem KnowsKin.notify (T : KnowsKin r k) (pid : Int) (l : List Int) : KnowsKin (r.notify pid l) k :=
  ⟨T.lives, T.creator, T.other⟩

/-- `create` makes a process, in an entry that is not the current one. -/
theorem KnowsKin.bear (T : KnowsKin r k) {pid : Int} (hp : pid ≠ k.currpid) (saddr ssize : Nat) (priority : Int) :
    KnowsKin (r.bear pid k.currpid) (k.addProc pid saddr ssize priority) := by
  have hself : ((k.addProc pid saddr ssize priority).proctab pid).prparent = k.currpid := by
    change (Function.update k.proctab pid _ pid).prparent = _
    rw [Function.update_self]
  have hother : ∀ p, p ≠ pid → (k.addProc pid saddr ssize priority).proctab p = k.proctab p :=
    fun p hne => Function.update_of_ne hne _ _
  have hlog : (k.addProc pid saddr ssize priority).log = .created pid saddr ssize :: k.log := rfl
  have hb : (Obs.created pid saddr ssize).birth = some pid := rfl
  have hbn : ∀ p, p ≠ pid → (Obs.created pid saddr ssize).birth ≠ some p :=
    fun p hne e => hne (Option.some.inj e).symm
  refine ⟨fun p => ?_, fun p => ?_, fun p o ho hob => ?_⟩
  · rw [hlog]
    by_cases hne : p = pid
    · subst hne
      rw [lives_cons_self hb, ← T.lives]
      exact Function.update_self _ _ _
    · rw [lives_cons_of_ne (hbn p hne), ← T.lives]
      exact Function.update_of_ne hne _ _
  · rw [hlog]
    by_cases hne : p = pid
    · subst hne
      rw [hself, beforeBirth_cons_self hb, ← T.lives]
      exact Function.update_self _ _ _
    · rw [hother p hne, beforeBirth_cons_of_ne (hbn p hne), ← T.creator]
      exact Function.update_of_ne hne _ _
  · by_cases hne : p = pid
    · subst hne
      rw [hself]
      exact Ne.symm hp
    · rw [hother p hne]
      rcases List.mem_cons.mp ho with rfl | ho
      · exact absurd hob (hbn p hne)
      · exact T.other p o ho hob

/-- The parent of a process is the process that created it if its entry was not given away since. -/
theorem KnowsKin.creator_eq_iff (T : KnowsKin r k) (p : Int) :
    r.creator p = ((k.proctab p).prparent, r.lives (k.proctab p).prparent) ↔
      ∀ o ∈ sinceBirth p k.log, o.birth ≠ some (k.proctab p).prparent := by
  rw [T.creator, T.lives, lives_split (T.other p), Prod.mk.injEq]
  have h0 : Xinu.lives (k.proctab p).prparent (sinceBirth p k.log) = 0 ↔
      ∀ o ∈ sinceBirth p k.log, o.birth ≠ some (k.proctab p).prparent := by
    rw [Xinu.lives, List.countP_eq_zero]
    simp
  rw [← h0]
  omega

end KnowsKin

/-- The same processes with the same parents. -/
structure SameKin (h g : Kernel QLists) : Prop where
  parent : ∀ p, (g.proctab p).prparent = (h.proctab p).prparent
  log : ∃ l, g.log = l ++ h.log ∧ ∀ o ∈ l, o.birth = none

section SameKin

variable {h g g' : Kernel QLists} {κ : Kind} {b : Bool} {ks : List Kind} {p : Int} {e : Procent}

namespace SameKin

theorem refl (h : Kernel QLists) : SameKin h h := ⟨fun _ => rfl, [], rfl, by simp⟩

/-- One step after another. -/
theorem trans (H : SameKin h g) (H' : SameKin g g') : SameKin h g' := by
  obtain ⟨l, e, hl⟩ := H.log
  obtain ⟨l', e', hl'⟩ := H'.log
  refine ⟨fun p => (H'.parent p).trans (H.parent p), l' ++ l, by rw [e', e, List.append_assoc], fun o ho => ?_⟩
  rcases List.mem_append.mp ho with ho | ho
  · exact hl' o ho
  · exact hl o ho

/-- The table is kept. -/
theorem table {l : List Obs} (hproc : g.proctab = h.proctab) (hlog : g.log = l ++ h.log) (hl : ∀ o ∈ l, o.birth = none) :
    SameKin h g := ⟨fun p => by rw [hproc], l, hlog, hl⟩

/-- An entry of the table is changed. -/
theorem entry {l : List Obs} (hproc : g.proctab = Function.update h.proctab p e) (he : e.prparent = (h.proctab p).prparent)
    (hlog : g.log = l ++ h.log) (hl : ∀ o ∈ l, o.birth = none) : SameKin h g := by
  refine ⟨fun x => ?_, l, hlog, hl⟩
  rw [hproc]
  by_cases hx : x = p
  · subst hx
    rw [Function.update_self, he]
  · rw [Function.update_of_ne hx]

theorem resched (I : Inv0 h) : SameKin h h.resched :=
  ⟨fun p => by rw [I.resched_only.proc p], [], I.resched_only.log, by simp⟩

end SameKin

/-- Only `create` makes a process or gives one a parent. -/
theorem Change.sameKin (c : Change h κ b g) (hκ : κ ≠ .created) : SameKin h g := by
  cases c with
  | created => exact absurd rfl hκ
  | aux | stop | deferStart | deferStop | resched => exact SameKin.table (l := []) rfl rfl (by simp)
  | killing | stkfreed | tick | passed | signalled | flushedNone | semcreated | semreset | semdeleted =>
    exact SameKin.table (l := [_]) rfl rfl (by simp [Obs.birth])
  | releasedNone => exact SameKin.table (l := [_, _]) rfl rfl (by simp [Obs.birth])
  | ready | resumed | suspend | suspendSelf | chprio | receive => exact SameKin.entry (l := []) rfl rfl rfl (by simp)
  | deposit | take | sleep | woken | blocked | flushed | freed | freedReady | freedSelf =>
    exact SameKin.entry (l := [_]) rfl rfl rfl (by simp [Obs.birth])
  | released | freedAsleep | freedWaiting => exact SameKin.entry (l := [_, _]) rfl rfl rfl (by simp [Obs.birth])
  | depositRecv p msg =>
    have H : SameKin h (h.deposit p msg) := SameKin.entry (l := [_]) rfl rfl rfl (by simp [Obs.birth])
    exact H.trans (SameKin.entry (l := []) rfl rfl rfl (by simp))
  | depositRectim p msg =>
    have H : SameKin h (h.deposit p msg) := SameKin.entry (l := [_]) rfl rfl rfl (by simp [Obs.birth])
    exact H.trans (SameKin.entry (l := [_]) rfl rfl rfl (by simp [Obs.birth]))

theorem Act.sameKin (a : Act h κ g) (I : Inv h) (hκ : κ ≠ .created) : SameKin h g := by
  cases a with
  | plain c => exact c.sameKin hκ
  | sched c => exact (c.sameKin hκ).trans (SameKin.resched (c.settled I).toInv0)

theorem Acts.sameKin (a : Acts ks h g) (I : Inv h) (hks : .created ∉ ks) : SameKin h g := by
  induction a with
  | refl => exact SameKin.refl h
  | tail a hκ c ih => exact ih.trans (c.sameKin (a.inv I) (fun e => hks (e ▸ hκ)))

/-- The record stays right in a step in which nobody is born. -/
theorem KnowsKin.same {r : Kin} (T : KnowsKin r h) (S : SameKin h g) : KnowsKin r g := by
  obtain ⟨l, hlog, hl⟩ := S.log
  refine ⟨fun p => ?_, fun p => ?_, fun p o ho hb => ?_⟩
  · rw [hlog, lives_append hl]
    exact T.lives p
  · rw [hlog, beforeBirth_append hl, S.parent]
    exact T.creator p
  · rw [S.parent]
    rw [hlog] at ho
    rcases List.mem_append.mp ho with ho | ho
    · rw [hl o ho] at hb
      cases hb
    · exact T.other p o ho hb

end SameKin

end Xinu
