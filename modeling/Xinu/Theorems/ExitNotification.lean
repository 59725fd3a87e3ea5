import Xinu.Kernel.Kinship
import Xinu.Kernel.Evaluation

/-!
# Exit notifications

`kill` sends its message to the process in the entry `prparent`. In every run in which no call of `kill` sends one to an entry
that was given to a new process after the victim was created, the message goes to the process that created the victim. A call
that does reaches a stranger.
-/

namespace Xinu

open Kernel

/-- The process that `kill` sends its message to: none when it refuses its argument, when it stops the processor, and when
`send` fails. -/
def Kernel.notified {Q : Type} (k : Kernel Q) (pid : Int) : Option Int :=
  if k.accepts pid && decide (1 < k.prcount - 1) && !k.refuses (k.proctab pid).prparent then some (k.proctab pid).prparent
  else none

/-- A system call is no `kill` that notifies an entry which was given away since the victim was created. -/
def Kernel.keepsParent {Q : Type} (k : Kernel Q) : Call → Bool
  | .kill pid => (k.notified pid).all (fun q => (sinceBirth pid k.log).all (fun o => o.birth != some q))
  | _ => true

/-- The condition on an event. -/
def Machine.ParentKept {C : Client} (m : Machine C) (e : Event C) : Prop := ∀ c ∈ m.issued e, m.k.keepsParent c = true

instance {C : Client} (m : Machine C) (e : Event C) : Decidable (m.ParentKept e) :=
  inferInstanceAs (Decidable (∀ c ∈ m.issued e, m.k.keepsParent c = true))

section Kill

variable {Q : Type} {k : Kernel Q} {pid : Int}

theorem Kernel.notified_parent {q : Int} (h : k.notified pid = some q) : q = (k.proctab pid).prparent := by
  unfold Kernel.notified at h
  split at h
  · exact (Option.some.inj h).symm
  · cases h

theorem receiver_none {l : List Obs} (hl : ∀ o ∈ l, o.mailless = true) : l.filterMap Obs.receiver = [] := by
  refine List.filterMap_eq_nil_iff.mpr (fun o ho => ?_)
  have h := hl o ho
  cases o with
  | sent => cases h
  | _ => rfl

/-- What `kill` records of messages. -/
theorem kill_log [QueueOps Q] (k : Kernel Q) (pid : Int) :
    ∃ l : List Obs, (k.kill pid).1.log = l ++ k.log ∧ l.filterMap Obs.receiver = (k.notified pid).toList := by
  by_cases ha : k.accepts pid = true
  · obtain ⟨hp, hs, h0⟩ := Kernel.accepts_iff.mp ha
    have hb : ¬(k.isbadpid pid || decide (pid = NULLPROC) || decide ((k.proctab pid).prstate = .PR_FREE)) = true := by
      simp [isbadpid_eq_false.mpr ⟨hp, hs⟩, h0, hs]
    unfold Kernel.kill
    rw [if_neg hb]
    simp only
    split
    · next hc =>
      have hn : k.notified pid = none := by
        have hc' : ¬1 < k.prcount - 1 := Int.not_lt.mpr hc
        simp [Kernel.notified, hc']
      exact ⟨[.killing pid], rfl, by rw [hn]; rfl⟩
    · next hc =>
      have hc' : 1 < k.prcount - 1 := Int.not_le.mp hc
      by_cases hr : k.refuses (k.proctab pid).prparent = true
      · have hn : k.notified pid = none := by
          simp [Kernel.notified, hr]
        refine ⟨[.killing pid], ?_, by rw [hn]; rfl⟩
        exact congrArg (fun x : Kernel Q × Resume => x.1.log)
          (send_refused (k := { k with prcount := k.prcount - 1 }.note (.killing pid)) hr pid.toNat)
      · have hr' : k.refuses (k.proctab pid).prparent = false := eq_false_of_ne_true hr
        have hn : k.notified pid = some (k.proctab pid).prparent := by
          simp [Kernel.notified, ha, hc', hr']
        obtain ⟨_, l, hl, hm⟩ :=
          send_accepted (k := { k with prcount := k.prcount - 1 }.note (.killing pid)) hr' pid.toNat
        refine ⟨l ++ [.sent (k.proctab pid).prparent (pid.toNat % 4294967296), .killing pid], ?_, ?_⟩
        · refine hl.trans ?_
          rw [List.append_assoc]
          rfl
        · rw [hn, List.filterMap_append, receiver_none hm]
          rfl
  · have hn : k.notified pid = none := by
      simp [Kernel.notified, ha]
    refine ⟨[], ?_, by rw [hn]; rfl⟩
    rw [kill_refused (eq_false_of_ne_true ha)]
    rfl

end Kill

section Step

variable {C : Client} {m m' : Machine C} {e : Event C} {h h' : Kernel QLists} {g : Kin} {pid : Int}

/-- The messages that a call of `kill` sends. -/
theorem receivers_kill (hs : m.step e = some m') (hi : m.issued e = some (.kill pid)) :
    m.receivers m' = (m.k.notified pid).toList := by
  have hk : m'.k = (m.k.kill pid).1 := by
    cases (Machine.step_effect hs).2 with
    | call c d l rest hi' hl hr =>
      obtain rfl := Option.some.inj (hi'.symm.trans hi)
      rfl
    | inside d l rest hl hr hn =>
      rw [hn] at hi
      cases hi
    | stop d s l hx =>
      rw [hx.issued] at hi
      cases hi
    | tick hu he =>
      subst he
      cases hi
    | proceed r rest hstk hr he =>
      subst he
      rw [Machine.issued_cont_kernel hstk hr] at hi
      cases hi
  obtain ⟨l, hlog, hl⟩ := kill_log m.k pid
  rw [Machine.receivers, hk, hlog, List.length_append, Nat.add_sub_cancel, List.take_left, hl]

/-- What a call of `kill` adds to the messages. -/
theorem next_kill (hs : m.step e = some m') (hi : m.issued e = some (.kill pid)) :
    (g.next m e m').notices =
      (m.k.notified pid).toList.map (fun q => ⟨pid, g.creator pid, (q, g.lives q)⟩) ++ g.notices := by
  rw [Kin.next, hi, ← receivers_kill hs hi]
  rfl

/-- What an event adds to the messages of `kill`: the creators of the victims get them if the condition is met, and only
then. -/
theorem KnowsKin.notices (T : KnowsKin g m.k) (hs : m.step e = some m') :
    ∃ l, (g.next m e m').notices = l ++ g.notices ∧ (m.ParentKept e ↔ ∀ n ∈ l, n.creator = n.receiver) := by
  by_cases hc : ∃ pid, m.issued e = some (.kill pid)
  · obtain ⟨pid, hi⟩ := hc
    refine ⟨_, next_kill hs hi, ?_⟩
    rw [Machine.ParentKept, hi]
    simp only [Option.mem_def, Option.some.injEq, forall_eq', Kernel.keepsParent]
    cases hn : m.k.notified pid with
    | none => simp
    | some q =>
      obtain rfl := Kernel.notified_parent hn
      simpa using (T.creator_eq_iff pid).symm
  · have hn : (g.next m e m').notices = g.notices := by
      unfold Kin.next
      split
      · next pid hi => exact absurd ⟨pid, hi⟩ hc
      · split <;> rfl
    refine ⟨[], hn, ?_⟩
    have hok : m.ParentKept e := by
      intro c hi
      cases c with
      | kill pid => exact absurd ⟨pid, hi⟩ hc
      | _ => rfl
    simp [hok]

/-- An event that makes no process. -/
theorem KnowsKin.next_same (T : KnowsKin g m.k) (St : Steady m h) (St' : Steady m' h') (S : SameKin h h')
    (hn : m.newborn e = none) : KnowsKin (g.next m e m') m'.k := by
  obtain ⟨hproc, _, _, _, hlog, _⟩ := St.sim.fields
  obtain ⟨hproc', _, _, _, hlog', _⟩ := St'.sim.fields
  have T' : KnowsKin g m'.k := ((T.congr hproc.symm hlog.symm).same S).congr hproc' hlog'
  unfold Kin.next
  split
  · exact T'.notify _ _
  · rw [hn]
    exact T'

theorem newborn_none (hi : m.issued e = none) : m.newborn e = none := by
  rw [Machine.newborn, hi]

/-- What the kernel knows of the record stays right. -/
theorem KnowsKin.step (T : KnowsKin g m.k) (St : Steady m h) (St' : Steady m' h') (d : Does m e h m' h') :
    KnowsKin (g.next m e m') m'.k := by
  cases d with
  | call c d l rest hi hr hk a =>
    by_cases hc : ∃ ssize priority, c = .create ssize priority
    · obtain ⟨ssize, priority, rfl⟩ := hc
      change KnowsKin _ (m.k.create ssize priority).1
      rcases create_cases m.k ssize priority with ⟨np, hcr⟩ | ⟨saddr, heap, pid, np, _, hn, _, hcr⟩
      · have hnew : m.newborn e = none := by
          simp only [Machine.newborn, hi, hcr, if_true]
        simp only [Kin.next, hi, hnew, hcr]
        exact T.congr rfl rfl
      · obtain ⟨hp, hf⟩ := newpidLoop_spec hn
        have hpid : pid ≠ SYSERR := by
          have := hp.1
          rw [SYSERR]
          omega
        have hcurr : pid ≠ m.k.currpid := by
          rintro rfl
          obtain ⟨hproc, hcur, _⟩ := St.sim.fields
          rw [hproc, hcur, St.inv.running] at hf
          cases hf
        have hnew : m.newborn e = some pid := by
          simp only [Machine.newborn, hi, hcr, if_neg hpid]
        simp only [Kin.next, hi, hnew, hcr]
        have T' : KnowsKin g { m.k with heap := heap, nextpid := np } := T.congr rfl rfl
        exact T'.bear hcurr _ _ _
    · have hn : m.newborn e = none := by
        rw [Machine.newborn, hi]
        cases c with
        | create ssize priority => exact absurd ⟨ssize, priority, rfl⟩ hc
        | _ => rfl
      have hks : .created ∉ c.kinds := by
        cases c with
        | create ssize priority => exact absurd ⟨ssize, priority, rfl⟩ hc
        | _ => simp [Call.kinds]
      exact T.next_same St St' (a.sameKin St.inv hks) hn
  | inside d l rest hr hk hi => exact T.next_same St St' (SameKin.refl h) (newborn_none hi)
  | stop d s l hx =>
    refine T.next_same St St' ((Change.stop s).sameKin (by simp)) (newborn_none ?_)
    rw [hx.issued]
    rfl
  | tick he t a =>
    subst he
    have I₁ := (Act.plain t).inv St.inv
    exact T.next_same St St' ((t.sameKin (by simp)).trans (a.sameKin I₁ (by simp))) (newborn_none rfl)
  | back r v rest hs hr hk he =>
    subst he
    refine T.next_same St St' (SameKin.refl h) (newborn_none (Machine.issued_cont_kernel hs (fun v => ?_)))
    rcases hr with ⟨p, rfl⟩ | ⟨rfl, _⟩ <;> simp
  | take r rest hs hr hk he =>
    subst he
    have S : SameKin h h.takeMsg := SameKin.entry (l := [_]) rfl rfl rfl (by simp [Obs.birth])
    refine T.next_same St St' S (newborn_none (Machine.issued_cont_kernel hs (fun v => ?_)))
    rcases hr with rfl | ⟨rfl, _⟩ <;> simp
  | closed pid i rest hs hi hk he =>
    subst he
    exact T.next_same St St' (SameKin.refl h) (newborn_none (Machine.issued_cont_kernel hs (by simp)))
  | killEnd pid i rest hs hi hk a he =>
    subst he
    exact T.next_same St St' ((Acts.killEnd a).sameKin St.inv (by simp))
      (newborn_none (Machine.issued_cont_kernel hs (by simp)))

end Step

/-- The record of the first state. -/
theorem KnowsKin.boot (minheap maxheap : Nat) : KnowsKin Kin.boot (sysinit minheap maxheap) := by
  have hparent : ∀ p, ((sysinit minheap maxheap).proctab p).prparent = NULLPROC := by
    intro p
    simp only [sysinit]
    split <;> rfl
  refine ⟨fun p => rfl, fun p => ?_, fun p o ho => ?_⟩
  · rw [hparent]
    rfl
  · cases ho

/-- What the kernel knows of the record is right in every state that is reached. -/
theorem Machine.Lineage.known {C : Client} {data : C.Data} {minheap maxheap : Nat} {ok : Machine C → Event C → Prop}
    (hlaw : ∀ m e, ok m e → m.Lawful e) {g : Kin} {m : Machine C}
    (r : Machine.Lineage ok (boot C data minheap maxheap) g m) : KnowsKin g m.k ∧ ∃ h, Steady m h := by
  induction r with
  | refl => exact ⟨KnowsKin.boot minheap maxheap, _, boot_steady data minheap maxheap⟩
  | step e _ hok hs ih =>
    obtain ⟨T, h, St⟩ := ih
    obtain ⟨h', St', d⟩ := step_does St hs (hlaw _ _ hok)
    exact ⟨T.step St St' d, h', St'⟩

/-- In every run in which no call of `kill` notifies an entry that was given away since the victim was created, every message
that `kill` sends goes to the process that created the victim. -/
theorem exit_notification {C : Client} (data : C.Data) (minheap maxheap : Nat) {g : Kin} {m : Machine C}
    (r : Machine.Lineage (fun m e => m.Lawful e ∧ m.ParentKept e) (boot C data minheap maxheap) g m) :
    ∀ n ∈ g.notices, n.creator = n.receiver := by
  induction r with
  | refl => simp [Kin.boot]
  | step e r hok hs ih =>
    obtain ⟨l, hl, hiff⟩ := (r.known (fun _ _ hok => hok.1)).1.notices hs
    rw [hl]
    intro n hn
    rcases List.mem_append.mp hn with hn | hn
    · exact hiff.mp hok.2 n hn
    · exact ih n hn

/-- Process 1 creates process 2. -/
def parentAndChild : List (Event Client.none) :=
  [.call (.create 400 20), .cont, .call (.resume 1), .call (.create 400 10), .cont]

/-- Process 1 kills process 2, which it created, and gets the message. -/
theorem exit_notification_parent :
    ∃ g m, Machine.Lineage (fun m e => m.Lawful e ∧ m.ParentKept e) (boot Client.none () 4096 1048576) g m ∧
      (∃ n ∈ g.notices, n.victim = 2 ∧ n.receiver.1 = 1) ∧ ∀ n ∈ g.notices, n.creator = n.receiver := by
  obtain ⟨m, r, hf⟩ := Machine.reach_of_evaluates Forcing.plain (fun m e => m.Lawful e ∧ m.ParentKept e)
    (boot Client.none () 4096 1048576) parentAndChild
    (fun m => decide (m.Lawful (.call (.kill 2)) ∧ m.ParentKept (.call (.kill 2))) && decide (m.k.notified 2 = some 1) &&
      (m.step (.call (.kill 2))).isSome) (by decide +kernel)
  simp only [Bool.and_eq_true, decide_eq_true_eq] at hf
  obtain ⟨⟨hok, hn⟩, hsome⟩ := hf
  obtain ⟨m', hs⟩ := Option.isSome_iff_exists.mp hsome
  obtain ⟨g, l⟩ := r.lineage
  have l' := l.step _ hok hs
  refine ⟨_, _, l', ⟨⟨2, g.creator 2, (1, g.lives 1)⟩, ?_, rfl, rfl⟩,
    exit_notification (C := Client.none) () 4096 1048576 l'⟩
  rw [next_kill hs rfl, hn]
  exact List.mem_cons_self

/-- Process 1 kills itself and leaves a child. The null process calls `create` until the entry of process 1 is used again: all
but the last call fail, because they ask for priority 0. -/
def orphanAndStranger : List (Event Client.none) :=
  parentAndChild ++ [.call (.kill 1), .cont, .cont, .cont, .cont, .cont] ++
    (List.replicate 97 [.call (.create 400 0), .cont]).flatten ++ [.call (.create 400 10), .cont]

/-- A process is told of the end of a process that it did not create. -/
theorem exit_notification_stranger :
    ∃ g m, Machine.Lineage Machine.Lawful (boot Client.none () 4096 1048576) g m ∧
      ∃ n ∈ g.notices, n.creator ≠ n.receiver := by
  obtain ⟨m, r, hf⟩ := Machine.reach_of_evaluates (Forcing.machine ⟨[0, 1, 2], [], [4096, 1048176]⟩ (Forcing.id _)
      (Forcing.id _)) Machine.Lawful (boot Client.none () 4096 1048576) orphanAndStranger
    (fun m => decide (m.Lawful (.call (.kill 2))) && !decide (m.ParentKept (.call (.kill 2))) &&
      (m.step (.call (.kill 2))).isSome) (by decide +kernel)
  simp only [Bool.and_eq_true, Bool.not_eq_true', decide_eq_true_eq, decide_eq_false_iff_not] at hf
  obtain ⟨⟨hok, hkept⟩, hsome⟩ := hf
  obtain ⟨m', hs⟩ := Option.isSome_iff_exists.mp hsome
  obtain ⟨g, lin⟩ := r.lineage
  obtain ⟨l, hl, hiff⟩ := (lin.known (fun _ _ hok => hok)).1.notices hs
  obtain ⟨n, hn, hne⟩ : ∃ n ∈ l, n.creator ≠ n.receiver := by
    simpa [hiff] using hkept
  exact ⟨_, m', lin.step _ hok hs, n, by rw [hl]; exact List.mem_append_left _ hn, hne⟩

end Xinu
