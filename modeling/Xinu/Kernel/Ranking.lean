import Xinu.Kernel.Clock

/-!
# Priorities

`Ranked`: the ready list is sorted by key, and the keys are the priorities. `Top`: no ready process has a higher priority than
the current one. Rescheduling turns the first into both (`Ranked.resched`), and every step but `chprio` keeps `Ranked`, and
`Top` up to a pending attempt to reschedule (`ranking_stable`).
-/

namespace Xinu

open Kernel

/-- The ready list is in the order of the keys its processes were inserted with. -/
def Sorted (h : Kernel QLists) : Prop :=
  (h.queuetab.ids readylist).Pairwise (fun p q => h.queuetab.key q ≤ h.queuetab.key p)

structure Ranked (h : Kernel QLists) : Prop where
  keys : ∀ p ∈ h.queuetab.ids readylist, h.queuetab.key p = (h.proctab p).prprio
  sorted : (h.queuetab.ids readylist).Pairwise (fun p q => h.queuetab.key q ≤ h.queuetab.key p)

/-- The current process has the highest priority. -/
def Top (h : Kernel QLists) : Prop :=
  ∀ p ∈ h.queuetab.ids readylist, (h.proctab p).prprio ≤ (h.proctab h.currpid).prprio

/-- The process is current or ready. -/
def Kernel.Eligible {Q : Type} (k : Kernel Q) (p : Int) : Prop :=
  (k.proctab p).prstate = .PR_CURR ∨ (k.proctab p).prstate = .PR_READY

/-- Rescheduling is deferred, and was attempted. -/
def Pending (h : Kernel QLists) : Prop := 0 < h.ndefers ∧ h.attempt = true

/-- What holds between steps, and before a step reschedules. -/
def Ranking (b : Bool) (h : Kernel QLists) : Prop := Ranked h ∧ (b = true ∨ Top h ∨ Pending h)

/-- `g` has at most the ready processes of `h`, with their priorities and keys. -/
structure Fewer (h g : Kernel QLists) : Prop where
  ids : (g.queuetab.ids readylist).Sublist (h.queuetab.ids readylist)
  key : ∀ p ∈ g.queuetab.ids readylist, g.queuetab.key p = h.queuetab.key p
  prio : ∀ p, p ∈ g.queuetab.ids readylist ∨ p = h.currpid → (g.proctab p).prprio = (h.proctab p).prprio

section Ranking

variable {h g : Kernel QLists} {κ : Kind} {b : Bool} {p : Int}

theorem Sorted.fewer (S : Sorted h) (f : Fewer h g) : Sorted g := by
  refine (S.sublist f.ids).imp_of_mem (fun {p q} hp hq hpq => ?_)
  rw [f.key p hp, f.key q hq]
  exact hpq

theorem Ranked.fewer (R : Ranked h) (f : Fewer h g) : Ranked g := by
  refine ⟨fun p hp => ?_, Sorted.fewer R.sorted f⟩
  rw [f.key p hp, f.prio p (Or.inl hp)]
  exact R.keys p (f.ids.subset hp)

theorem Top.fewer (T : Top h) (f : Fewer h g) (hc : g.currpid = h.currpid) : Top g := by
  intro p hp
  rw [hc, f.prio p (Or.inl hp), f.prio _ (Or.inr rfl)]
  exact T p (f.ids.subset hp)

theorem Ranking.fewer (R : Ranking false h) (f : Fewer h g) (hc : g.currpid = h.currpid)
    (hd : g.ndefers = h.ndefers ∧ g.attempt = h.attempt) : Ranking b g := by
  refine ⟨R.1.fewer f, Or.inr ?_⟩
  rcases R.2 with e | T | P
  · cases e
  · exact Or.inl (T.fewer f hc)
  · exact Or.inr ⟨by rw [hd.1]; exact P.1, by rw [hd.2]; exact P.2⟩

/-- Inserting into a list that is sorted by decreasing key, behind the entries with the same key. -/
theorem insert_sorted {key key' : Int → Int} {l : List Int} {k : Int} (hs : l.Pairwise (fun p q => key q ≤ key p))
    (hk : ∀ q ∈ l, key' q = key q) (hp : key' p = k) :
    (l.takeWhile (fun x => decide (k ≤ key x)) ++ p :: l.dropWhile (fun x => decide (k ≤ key x))).Pairwise
      (fun p q => key' q ≤ key' p) := by
  induction l with
  | nil => simp
  | cons x l ih =>
    obtain ⟨hx, hl⟩ := List.pairwise_cons.mp hs
    have hkx := hk x List.mem_cons_self
    have hkl : ∀ q ∈ l, key' q = key q := fun q hq => hk q (List.mem_cons_of_mem _ hq)
    by_cases hc : k ≤ key x
    · rw [List.takeWhile_cons_of_pos (by simpa using hc), List.dropWhile_cons_of_pos (by simpa using hc)]
      refine List.pairwise_cons.mpr ⟨fun q hq => ?_, ih hl hkl⟩
      rw [hkx]
      have hmem : q = p ∨ q ∈ l := by
        rcases List.mem_append.mp hq with hq | hq
        · exact Or.inr (List.takeWhile_subset _ hq)
        · exact (List.mem_cons.mp hq).imp id (fun hq => List.dropWhile_subset _ hq)
      rcases hmem with rfl | hq
      · rw [hp]
        exact hc
      · rw [hkl q hq]
        exact hx q hq
    · rw [List.takeWhile_cons_of_neg (by simpa using hc), List.dropWhile_cons_of_neg (by simpa using hc)]
      refine List.pairwise_cons.mpr ⟨fun q hq => ?_, hs.imp_of_mem (fun {a c} ha hc' hac => ?_)⟩
      · rw [hp]
        rcases List.mem_cons.mp hq with rfl | hq
        · rw [hkx]
          omega
        · rw [hkl q hq]
          have := hx q hq
          omega
      · rw [hk a ha, hk c hc']
        exact hac

/-- Those behind the place have a smaller key. -/
theorem lt_of_mem_dropWhile {key : Int → Int} {l : List Int} {k : Int} (hs : l.Pairwise (fun p q => key q ≤ key p)) :
    ∀ q ∈ l.dropWhile (fun x => decide (k ≤ key x)), key q < k := by
  induction l with
  | nil => nofun
  | cons x l ih =>
    obtain ⟨hx, hl⟩ := List.pairwise_cons.mp hs
    by_cases hc : k ≤ key x
    · rw [List.dropWhile_cons_of_pos (by simpa using hc)]
      exact ih hl
    · rw [List.dropWhile_cons_of_neg (by simpa using hc)]
      intro q hq
      rcases List.mem_cons.mp hq with rfl | hq
      · omega
      · have := hx q hq
        omega

theorem makeReady_key_self : (h.makeReady p).queuetab.key p = (h.proctab p).prprio := Function.update_self _ _ _

theorem makeReady_key_of_ne {q : Int} (hq : q ≠ p) : (h.makeReady p).queuetab.key q = h.queuetab.key q :=
  Function.update_of_ne hq _ _

theorem QLists.insert_ids (L : QLists) (p q k : Int) : (L.insert p q k).ids q =
    (L.ids q).takeWhile (fun x => decide (k ≤ L.key x)) ++ p :: (L.ids q).dropWhile (fun x => decide (k ≤ L.key x)) := by
  simp [QLists.insert]

theorem makeReady_ids : (h.makeReady p).queuetab.ids readylist =
    (h.queuetab.ids readylist).takeWhile (fun x => decide ((h.proctab p).prprio ≤ h.queuetab.key x)) ++
      p :: (h.queuetab.ids readylist).dropWhile (fun x => decide ((h.proctab p).prprio ≤ h.queuetab.key x)) :=
  h.queuetab.insert_ids p readylist _

/-- Making a process ready that is not keeps the order. -/
theorem Sorted.makeReady (S : Sorted h) (hp : p ∉ h.queuetab.ids readylist) : Sorted (h.makeReady p) := by
  unfold Sorted
  rw [makeReady_ids]
  exact insert_sorted S (fun q hq => makeReady_key_of_ne (ne_of_mem_of_not_mem hq hp)) makeReady_key_self

/-- Making a process ready that is not. -/
theorem Ranked.makeReady (R : Ranked h) (hp : p ∉ h.queuetab.ids readylist) : Ranked (h.makeReady p) := by
  refine ⟨fun q hq => ?_, Sorted.makeReady R.sorted hp⟩
  by_cases hqp : q = p
  · subst hqp
    rw [makeReady_key_self, makeReady_self]
  · have hm : q ∈ h.queuetab.ids readylist := by
      have := (QLists.put_insert h.queuetab p readylist (h.proctab p).prprio).perm.mem_iff.mp hq
      exact (List.mem_cons.mp this).resolve_left hqp
    rw [makeReady_key_of_ne hqp, makeReady_other h hqp]
    exact R.keys q hm

/-- The first process on the ready list has the largest key. -/
theorem Sorted.first {rest : List Int} (S : Sorted h) (hr : h.queuetab.ids readylist = p :: rest) {q : Int}
    (hq : q ∈ h.queuetab.ids readylist) : h.queuetab.key q ≤ h.queuetab.key p := by
  unfold Sorted at S
  rw [hr] at S hq
  rcases List.mem_cons.mp hq with rfl | hq
  · exact Int.le_refl _
  · exact (List.pairwise_cons.mp S).1 q hq

/-- The context switch keeps the order of those that stay ready. -/
theorem Sorted.switch (S : Sorted h) (I : Inv0 h) (hno : ∀ p, (h.proctab p).prstate ≠ .PR_CURR) : Sorted h.switch := by
  obtain ⟨p, rest, hr⟩ := I.ready_nonempty hno
  have hids : h.switch.queuetab.ids readylist = (h.queuetab.ids readylist).erase p := by
    rw [Inv0.switch_eq hr]
    rfl
  have hkey : h.switch.queuetab.key = h.queuetab.key := by
    rw [Inv0.switch_eq hr]
    rfl
  unfold Sorted
  rw [hids, hkey]
  exact S.sublist List.erase_sublist

/-- Rescheduling keeps the order of the ready list. -/
theorem Sorted.resched (S : Sorted h) (T : Settled true h) : Sorted h.resched := by
  have I := T.toInv0
  rcases Int.lt_or_eq_of_le I.defers with hd | hd
  · rw [resched_deferred hd]
    exact S
  by_cases hc : (h.proctab h.currpid).prstate = .PR_CURR
  · by_cases hp : (h.proctab h.currpid).prprio > QueueOps.firstkey h.queuetab readylist
    · rw [resched_stay hd.symm hc hp]
      exact S
    · rw [resched_preempt hd.symm I.currpid hc hp]
      obtain ⟨I', hno⟩ := I.preempted hc
      exact (S.makeReady (I.not_mem (by rw [homeOf, hc]) _)).switch I' hno
  · rw [resched_away hd.symm hc]
    exact S.switch I (I.no_curr hc)

/-- The context switch picks a process of the highest priority. -/
theorem Ranked.switch (R : Ranked h) (I : Inv0 h) (hno : ∀ p, (h.proctab p).prstate ≠ .PR_CURR) :
    Ranked h.switch ∧ Top h.switch := by
  obtain ⟨p, rest, hr⟩ := I.ready_nonempty hno
  have hids : h.switch.queuetab.ids readylist = rest := by
    rw [Inv0.switch_eq hr]
    show (h.queuetab.ids readylist).erase p = rest
    rw [hr, List.erase_cons_head]
  have hprio : ∀ q, (h.switch.proctab q).prprio = (h.proctab q).prprio := fun q => by rw [(I.switch_only hno).proc q]
  have hcurr : h.switch.currpid = p := by
    rw [Inv0.switch_eq hr]
    rfl
  have hkey : h.switch.queuetab.key = h.queuetab.key := by
    rw [Inv0.switch_eq hr]
    rfl
  have hsub : rest.Sublist (h.queuetab.ids readylist) := hr ▸ List.sublist_cons_self p rest
  refine ⟨R.fewer ⟨hids ▸ hsub, fun q _ => by rw [hkey], fun q _ => hprio q⟩, fun q hq => ?_⟩
  rw [hids] at hq
  rw [hcurr, hprio, hprio, ← R.keys q (hsub.subset hq), ← R.keys p (hr ▸ List.mem_cons_self)]
  exact Sorted.first R.sorted hr (hsub.subset hq)

theorem firstkey_cons {L : QLists} {rest : List Int} (hr : L.ids readylist = p :: rest) :
    QueueOps.firstkey L readylist = L.key p := by
  simp only [QueueOps.firstkey, hr]

/-- A current process that beats the first process on the ready list beats them all. -/
theorem Ranked.beats (R : Ranked h) (hp : (h.proctab h.currpid).prprio > QueueOps.firstkey h.queuetab readylist) {q : Int}
    (hq : q ∈ h.queuetab.ids readylist) : (h.proctab q).prprio < (h.proctab h.currpid).prprio := by
  rcases hr : h.queuetab.ids readylist with _ | ⟨p, rest⟩
  · rw [hr] at hq
    cases hq
  · rw [firstkey_cons hr] at hp
    have hle : h.queuetab.key q ≤ h.queuetab.key p := Sorted.first R.sorted hr hq
    rw [← R.keys q hq]
    omega

theorem Ranked.top (R : Ranked h) (hp : (h.proctab h.currpid).prprio > QueueOps.firstkey h.queuetab readylist) : Top h :=
  fun _ hq => (R.beats hp hq).le

/-- Rescheduling leaves the current process on top, unless it is deferred. -/
theorem Ranked.resched (R : Ranked h) (T : Settled true h) : Ranking false h.resched := by
  have I := T.toInv0
  rcases Int.lt_or_eq_of_le I.defers with hd | hd
  · rw [resched_deferred hd]
    exact ⟨⟨R.keys, R.sorted⟩, Or.inr (Or.inr ⟨hd, rfl⟩)⟩
  by_cases hc : (h.proctab h.currpid).prstate = .PR_CURR
  · by_cases hp : (h.proctab h.currpid).prprio > QueueOps.firstkey h.queuetab readylist
    · rw [resched_stay hd.symm hc hp]
      exact ⟨R, Or.inr (Or.inl (R.top hp))⟩
    · rw [resched_preempt hd.symm I.currpid hc hp]
      obtain ⟨I', hno⟩ := I.preempted hc
      obtain ⟨R', T'⟩ := (R.makeReady (I.not_mem (by rw [homeOf, hc]) _)).switch I' hno
      exact ⟨R', Or.inr (Or.inl T')⟩
  · rw [resched_away hd.symm hc]
    obtain ⟨R', T'⟩ := R.switch I (I.no_curr hc)
    exact ⟨R', Or.inr (Or.inl T')⟩

/-- The processes that are current or ready are so behind `resched`. -/
theorem Inv0.resched_eligible {h : Kernel QLists} (I : Inv0 h) (p : Int) : h.resched.Eligible p ↔ h.Eligible p := by
  rcases I.resched_only.state p with hs | ⟨h1, h2⟩
  · unfold Kernel.Eligible
    rw [hs]
  · exact ⟨fun _ => h1, fun _ => h2⟩

/-! ## Steps that make no process ready -/

theorem prprio_update {f : Int → Procent} {e : Procent} (he : e.prprio = (f p).prprio) (q : Int) :
    (Function.update f p e q).prprio = (f q).prprio := by
  by_cases hq : q = p
  · subst hq
    rw [Function.update_self, he]
  · rw [Function.update_of_ne hq]

/-- The keys on other lists than a delta list. -/
theorem QLists.insertd_key {L : QLists} {q x d : Int} (hx : x ∉ L.ids q) (hp : x ≠ p) : (L.insertd p q d).key x = L.key x := by
  have happ := QLists.deltaCut_append L.key d (L.ids q)
  unfold QLists.insertd
  rcases hcut : QLists.deltaCut L.key d (L.ids q) with ⟨a, b, k'⟩
  rw [hcut] at happ
  simp only at happ ⊢
  cases b with
  | nil => exact Function.update_of_ne hp _ _
  | cons y ys =>
    have hy : x ≠ y := fun e => hx (by rw [← happ, e]; simp)
    simp only [QLists.setKey_key]
    rw [Function.update_of_ne hy, Function.update_of_ne hp]
    rfl

theorem QLists.after_mem {l : List Int} {y : Int} (h : QLists.after p l = some y) : y ∈ l := by
  induction l with
  | nil => cases h
  | cons x l ih =>
    unfold QLists.after at h
    split at h
    · exact List.mem_cons_of_mem _ (List.mem_of_mem_head? h)
    · exact List.mem_cons_of_mem _ (ih h)

theorem QLists.passKey_key {L : QLists} {q x : Int} (hx : x ∉ L.ids q) : (L.passKey q p).key x = L.key x := by
  unfold QLists.passKey
  split
  · rfl
  · next y hy => exact Function.update_of_ne (ne_of_mem_of_not_mem (QLists.after_mem hy) hx).symm _ _

theorem QLists.decFirst_key {L : QLists} {q x : Int} (hx : x ∉ L.ids q) : (L.decFirst q).key x = L.key x := by
  unfold QLists.decFirst
  split
  · rfl
  · next y rest hl => exact Function.update_of_ne (fun e => hx (by rw [hl, e]; simp)) _ _

theorem Inv0.ready_not_asleep (I : Inv0 h) (hp : p ∈ h.queuetab.ids readylist) : p ∉ h.queuetab.ids sleepq :=
  fun hm => readylist_ne_sleepq (I.disj hp hm)

theorem Inv0.ready_ne_current (I : Inv h) (hp : p ∈ h.queuetab.ids readylist) : p ≠ h.currpid :=
  fun e => (I.state_of_mem hp).2 (e ▸ I.running)

/-- A step that leaves the lists, the keys and the priorities alone. -/
theorem Fewer.same (hq : g.queuetab = h.queuetab) (hprio : ∀ q, (g.proctab q).prprio = (h.proctab q).prprio) : Fewer h g :=
  ⟨by rw [hq], fun _ _ => by rw [hq], fun q _ => hprio q⟩

/-- A step that takes a process off its list. -/
theorem Fewer.getitem {L : QLists} (hL : L.ids readylist = h.queuetab.ids readylist)
    (hk : ∀ q ∈ h.queuetab.ids readylist, L.key q = h.queuetab.key q) (hq : g.queuetab = L.getitem p)
    (hprio : ∀ q, (g.proctab q).prprio = (h.proctab q).prprio) : Fewer h g := by
  have hsub : (g.queuetab.ids readylist).Sublist (h.queuetab.ids readylist) := by
    rw [hq, ← hL]
    exact List.erase_sublist
  refine ⟨hsub, fun q hm => ?_, fun q _ => hprio q⟩
  rw [hq]
  exact hk q (hsub.subset hm)

theorem Fewer.refl (h : Kernel QLists) : Fewer h h := Fewer.same rfl (fun _ => rfl)

theorem Inv0.erase_not_mem (I : Inv0 h) (q : Int) : p ∉ (h.queuetab.getitem p).ids q := (I.nodup q).not_mem_erase

/-- The kinds of steps that never change a priority. -/
def Kind.ranks : Kind → Bool
  | .chprio .. => false
  | _ => true

/-- What a step other than `chprio` does to the ready list: processes leave it, or one process that was elsewhere comes, and the
processor is rescheduled. -/
theorem Change.ready_list (c : Change h κ b g) (I : Inv h) (hκ : κ.ranks = true) :
    Fewer h g ∨ b = true ∧ ∃ f p, Fewer h f ∧ p ∉ f.queuetab.ids readylist ∧ g = f.makeReady p := by
  have hready := fun q (hq : q ∈ h.queuetab.ids readylist) => I.ready_not_asleep hq
  have hpass : ∀ p, (h.queuetab.passKey sleepq p).ids readylist = h.queuetab.ids readylist := fun p => by
    rw [QLists.passKey_ids]
  cases c with
  | aux | stop | killing | stkfreed | passed | signalled | releasedNone | flushedNone | semcreated | semreset
  | semdeleted | deferStart | deferStop | resched => exact Or.inl (Fewer.same rfl (fun _ => rfl))
  | created p saddr ssize priority hp hf =>
    have hne : ∀ q, q ∈ h.queuetab.ids readylist ∨ q = h.currpid → q ≠ p := by
      rintro q (hq | hq) rfl
      · exact (I.state_of_mem hq).1 hf
      · have := I.running
        rw [← hq, hf] at this
        cases this
    exact Or.inl ⟨List.Sublist.refl _, fun _ _ => rfl, fun q hq =>
      congrArg Procent.prprio (Function.update_of_ne (hne q hq) _ _)⟩
  | ready p hs hh => exact Or.inr ⟨rfl, h, p, Fewer.refl h, I.not_mem hh _, rfl⟩
  | resumed p hs => exact Or.inr ⟨rfl, h, p, Fewer.refl h, I.not_mem (homeOf_susp hs) _, rfl⟩
  | suspend p hs => exact Or.inl (Fewer.getitem rfl (fun _ _ => rfl) rfl (prprio_update rfl))
  | suspendSelf | receive | take => exact Or.inl (Fewer.same rfl (prprio_update rfl))
  | chprio => cases hκ
  | deposit p msg => exact Or.inl (Fewer.same rfl (prprio_update rfl))
  | depositRecv p msg hm hs =>
    have hout : p ∉ (h.deposit p msg).queuetab.ids readylist := I.not_mem (by rw [homeOf, hs]) _
    exact Or.inr ⟨rfl, h.deposit p msg, p, Fewer.same rfl (prprio_update rfl), hout, rfl⟩
  | depositRectim p msg hm hs =>
    refine Or.inr ⟨rfl, (h.deposit p msg).leaveSleep p, p,
      Fewer.getitem (hpass p) (fun q hq => QLists.passKey_key (hready q hq)) rfl (prprio_update rfl), ?_, rfl⟩
    change p ∉ ((h.queuetab.passKey sleepq p).ids readylist).erase p
    rw [hpass]
    exact I.erase_not_mem readylist
  | sleep st d =>
    have hprio : ∀ q, ((h.sleepFor st d).proctab q).prprio = (h.proctab q).prprio := prprio_update rfl
    have hids : (h.sleepFor st d).queuetab.ids readylist = h.queuetab.ids readylist :=
      (QLists.put_insertd _ _ _ _).other _ readylist_ne_sleepq
    refine Or.inl ⟨by rw [hids], fun q hq => ?_, fun q _ => hprio q⟩
    rw [hids] at hq
    exact QLists.insertd_key (hready q hq) (Inv0.ready_ne_current I hq)
  | tick =>
    have hids : ((h.note .tick).setQueues (h.queuetab.decFirst sleepq)).queuetab.ids readylist = h.queuetab.ids readylist :=
      congrFun (QLists.decFirst_ids _ _) readylist
    refine Or.inl ⟨by rw [hids], fun q hq => ?_, fun _ _ => rfl⟩
    rw [hids] at hq
    exact QLists.decFirst_key (hready q hq)
  | woken p =>
    exact Or.inr ⟨rfl, (h.getitem p).note (.woken p), p, Fewer.getitem rfl (fun _ _ => rfl) rfl (fun _ => rfl),
      I.erase_not_mem readylist, rfl⟩
  | released s p =>
    exact Or.inr ⟨rfl, ((h.raise s).getitem p).note (.released s p), p,
      Fewer.getitem rfl (fun _ _ => rfl) rfl (fun _ => rfl), I.erase_not_mem readylist, rfl⟩
  | flushed s p =>
    exact Or.inr ⟨rfl, ((h.setCount s (int32 ((h.semtab s).scount + 1))).getitem p).note (.flushed s p), p,
      Fewer.getitem rfl (fun _ _ => rfl) rfl (fun _ => rfl), I.erase_not_mem readylist, rfl⟩
  | blocked s hs =>
    have hids : (h.blockOn s).queuetab.ids readylist = h.queuetab.ids readylist :=
      (QLists.put_enqueue _ _ _).other _ (squeue_ne hs).1.symm
    have hprio : ∀ q, ((h.blockOn s).proctab q).prprio = (h.proctab q).prprio := prprio_update rfl
    exact Or.inl ⟨by rw [hids], fun _ _ => rfl, fun q _ => hprio q⟩
  | freed | freedSelf => exact Or.inl (Fewer.same rfl (prprio_update rfl))
  | freedReady p | freedWaiting p => exact Or.inl (Fewer.getitem rfl (fun _ _ => rfl) rfl (prprio_update rfl))
  | freedAsleep p =>
    exact Or.inl (Fewer.getitem (hpass p) (fun q hq => QLists.passKey_key (hready q hq)) rfl (prprio_update rfl))

/-- What a step does to the deferral of rescheduling, unless it reschedules. -/
theorem Change.deferral (c : Change h κ b g) : b = true ∨
    g.currpid = h.currpid ∧ (g.ndefers = h.ndefers ∧ g.attempt = h.attempt ∨ g = h.deferStart ∨
      g = { h with ndefers := h.ndefers - 1 } ∧ 0 < h.ndefers ∧ b = (decide (h.ndefers = 1) && h.attempt)) := by
  cases c with
  | deferStart => exact Or.inr ⟨rfl, Or.inr (Or.inl rfl)⟩
  | deferStop b hd hb => exact Or.inr ⟨rfl, Or.inr (Or.inr ⟨rfl, hd, hb⟩)⟩
  | resched | ready | resumed | suspendSelf | depositRecv | depositRectim | receive | sleep | woken | blocked | released
  | flushed | freedSelf => exact Or.inl rfl
  | _ => exact Or.inr ⟨rfl, Or.inl ⟨rfl, rfl⟩⟩

/-- An attempt that is pending stays so, up to the last `DEFER_STOP`, which reschedules. -/
theorem Change.pending (c : Change h κ b g) (P : Pending h) : b = true ∨ Pending g := by
  obtain ⟨h1, h2⟩ := P
  rcases c.deferral with hb | ⟨_, ⟨hn, ha⟩ | rfl | ⟨rfl, hd, hb⟩⟩
  · exact Or.inl hb
  · exact Or.inr ⟨by omega, ha.trans h2⟩
  · refine Or.inr ⟨by simp only [Kernel.deferStart]; omega, ?_⟩
    simp only [Kernel.deferStart, if_neg (show h.ndefers ≠ 0 by omega)]
    exact h2
  · by_cases h1 : h.ndefers = 1
    · refine Or.inl (hb.trans ?_)
      rw [h1, h2]
      rfl
    · exact Or.inr ⟨by simp only; omega, h2⟩

/-- Every step but `chprio` keeps the ranking. -/
theorem Change.ranking (c : Change h κ b g) (I : Inv h) (hκ : κ.ranks = true) (R : Ranking false h) : Ranking b g := by
  rcases c.ready_list I hκ with f | ⟨rfl, f, p, hf, hp, rfl⟩
  · refine ⟨R.1.fewer f, ?_⟩
    rcases R.2 with e | T | P
    · cases e
    · rcases c.deferral with hb | ⟨hc, _⟩
      · exact Or.inl hb
      · exact Or.inr (Or.inl (T.fewer f hc))
    · exact (c.pending P).imp id Or.inr
  · exact ⟨(R.1.fewer hf).makeReady hp, Or.inl rfl⟩

/-- Every step keeps the order of the ready list. -/
theorem Change.sorted (c : Change h κ b g) (I : Inv h) (S : Sorted h) : Sorted g := by
  by_cases hκ : κ.ranks = true
  · rcases c.ready_list I hκ with f | ⟨_, f, p, hf, hp, rfl⟩
    · exact S.fewer f
    · exact (S.fewer hf).makeReady hp
  · -- `chprio` does not touch the list
    cases c with
    | chprio => exact S
    | _ => exact absurd rfl hκ

theorem sorted_stable : Stable (fun _ => True) (fun _ => Sorted) := ⟨fun I _ c S => c.sorted I S, fun T S => S.resched T⟩

/-- The keys are the priorities from step to step, but for `chprio`. -/
theorem ranked_stable : Stable (fun κ => κ.ranks = true) (fun _ => Ranked) := by
  refine ⟨fun I hκ c R => ?_, fun T R => (R.resched T).1⟩
  rcases c.ready_list I hκ with f | ⟨_, f, p, hf, hp, rfl⟩
  · exact R.fewer f
  · exact (R.fewer hf).makeReady hp

/-- The ranking holds from step to step, but for `chprio`. -/
theorem ranking_stable : Stable (fun κ => κ.ranks = true) Ranking :=
  ⟨fun I hκ c R => c.ranking I hκ R, fun T R => R.1.resched T⟩

end Ranking

end Xinu
