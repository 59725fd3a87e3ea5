import Xinu.Kernel.Semaphores
import Xinu.Kernel.Accounting
import Xinu.Kernel.Libraries
import Xinu.Kernel.Mailbox
import Xinu.Kernel.Runs

/-!
# Semaphores that a library keeps to itself

What an event does to the count of a semaphore and to the processes that wait for it (`SemIdle`), and what follows for a
semaphore that only a library uses: the count and the routines behind a `wait` for it change together (`Kept.step`).
-/

namespace Xinu

open Kernel

/-! ## Who waits -/

namespace Kernel

variable {Q : Type}

/-- The process waits for the semaphore. -/
def Waits (k : Kernel Q) (s p : Int) : Prop := (k.proctab p).prstate = .PR_WAIT ∧ (k.proctab p).prsem = s

instance (k : Kernel Q) (s p : Int) : Decidable (k.Waits s p) :=
  inferInstanceAs (Decidable (_ ∧ _))

/-- Nobody begins to wait. -/
structure NoWaits (k k' : Kernel Q) : Prop where
  waits : ∀ s p, k'.Waits s p → k.Waits s p

end Kernel

section NoWaits

variable {Q : Type}

theorem Kernel.NoWaits.refl (k : Kernel Q) : k.NoWaits k := ⟨fun _ _ h => h⟩

theorem Kernel.NoWaits.trans {k k' k'' : Kernel Q} (h : k.NoWaits k') (h' : k'.NoWaits k'') : k.NoWaits k'' :=
  ⟨fun s p hw => h.waits s p (h'.waits s p hw)⟩

theorem noWaits_of_eq {k k' : Kernel Q} (h : k'.proctab = k.proctab) : k.NoWaits k' := by
  refine ⟨fun s p hw => ?_⟩
  rwa [Kernel.Waits, h] at hw

/-- A process that is put in another state does not wait. -/
theorem noWaits_setState (k : Kernel Q) (p : Int) {st : PrState} (hst : st ≠ .PR_WAIT) : k.NoWaits (k.setState p st) := by
  refine ⟨fun s x hw => ?_⟩
  simp only [Kernel.Waits, Kernel.setState, Kernel.setProc] at hw
  by_cases hx : x = p
  · rw [hx, Function.update_self] at hw
    exact absurd hw.1 hst
  · rwa [Function.update_of_ne hx] at hw

variable [QueueOps Q]

theorem insert_proctab (k : Kernel Q) (p q key : Int) : (k.insert p q key).2.proctab = k.proctab := by
  unfold Kernel.insert
  split <;> rfl

theorem noWaits_switch (k : Kernel Q) : k.NoWaits k.switch := by
  have h : k.NoWaits { k with currpid := (k.dequeue readylist).1, preempt := QUANTUM, queuetab := (k.dequeue readylist).2.queuetab } :=
    noWaits_of_eq rfl
  exact h.trans (noWaits_setState _ _ (by decide))

/-- Rescheduling makes nobody wait. -/
theorem noWaits_resched (k : Kernel Q) : k.NoWaits k.resched := by
  unfold Kernel.resched
  split_ifs
  · exact noWaits_of_eq rfl
  · exact NoWaits.refl k
  · refine NoWaits.trans ?_ (noWaits_switch _)
    exact (noWaits_setState k _ (by decide)).trans (noWaits_of_eq (insert_proctab _ _ _ _))
  · exact noWaits_switch k

theorem noWaits_ready (k : Kernel Q) (p : Int) : k.NoWaits (k.ready p).2 := by
  unfold Kernel.ready
  split
  · exact NoWaits.refl k
  · refine NoWaits.trans ?_ (noWaits_resched _)
    exact (noWaits_setState k p (by decide)).trans (noWaits_of_eq (insert_proctab _ _ _ _))

/-- Nor does the end of a deferral. -/
theorem noWaits_deferStop (k : Kernel Q) : k.NoWaits k.deferStop := by
  unfold Kernel.deferStop
  split
  · exact NoWaits.refl k
  · simp only
    split
    · refine NoWaits.trans ?_ (noWaits_resched _)
      exact noWaits_of_eq rfl
    · exact noWaits_of_eq rfl

/-- A unit makes nobody wait. -/
theorem noWaits_signalOne (k : Kernel Q) (s : Int) : k.NoWaits (k.signalOne s) := by
  unfold Kernel.signalOne
  simp only
  split
  · refine NoWaits.trans ?_ (noWaits_ready _ _)
    exact noWaits_of_eq rfl
  · exact noWaits_of_eq rfl

theorem noWaits_signalLoop (s : Int) (n : Nat) (k : Kernel Q) : k.NoWaits (signalLoop s n k) := by
  induction n generalizing k with
  | zero => exact NoWaits.refl k
  | succ n ih => exact (noWaits_signalOne k s).trans (ih _)

theorem noWaits_signal (k : Kernel Q) (s : Int) : k.NoWaits (k.signal s).1 := by
  unfold Kernel.signal
  split_ifs
  · exact NoWaits.refl k
  · exact NoWaits.refl k
  · exact noWaits_signalOne k s

/-- Nor do several. -/
theorem noWaits_signaln (k : Kernel Q) (s n : Int) : k.NoWaits (k.signaln s n).1 := by
  unfold Kernel.signaln
  simp only
  split_ifs
  · exact NoWaits.refl k
  · exact NoWaits.refl k
  · refine NoWaits.trans ?_ (noWaits_deferStop _)
    refine NoWaits.trans ?_ (noWaits_signalLoop s _ k.deferStart)
    exact noWaits_of_eq rfl

/-- Only the caller of `wait` begins to wait. -/
theorem wait_waits (k : Kernel Q) (s : Int) {t p : Int} (hw : (k.wait s).1.Waits t p) :
    k.Waits t p ∨ p = k.currpid := by
  by_cases hp : p = k.currpid
  · exact Or.inr hp
  refine Or.inl ?_
  unfold Kernel.wait at hw
  split_ifs at hw with h1 h2
  · exact hw
  · exact hw
  · simp only at hw
    split at hw
    · have h3 := (noWaits_resched _).waits _ _ hw
      have hproc : ∀ (k' : Kernel Q) (q : Int), (k'.enqueue k'.currpid q).2.proctab = k'.proctab := by
        intro k' q
        unfold Kernel.enqueue
        split <;> rfl
      simpa [Kernel.Waits, Kernel.note, hproc, Kernel.setProc, Kernel.setSem, Function.update_of_ne hp] using h3
    · exact hw

end NoWaits

/-! ## The count -/

section Count

variable {Q : Type} [QueueOps Q] {k : Kernel Q} {s : Int}

/-- `wait` takes one off the count. -/
theorem wait_entry (hs : isbadsem s = false) (hu : (k.semtab s).sstate = .S_USED) :
    (k.wait s).1.semtab s = ⟨.S_USED, int32 ((k.semtab s).scount - 1)⟩ := by
  have hentry : (Function.update k.semtab s { k.semtab s with scount := int32 ((k.semtab s).scount - 1) }) s =
      ⟨.S_USED, int32 ((k.semtab s).scount - 1)⟩ := by
    rw [Function.update_self, ← hu]
  have hsem : ∀ (k' : Kernel Q) (p q : Int), (k'.enqueue p q).2.semtab = k'.semtab := by
    intro k' p q
    unfold Kernel.enqueue
    split <;> rfl
  unfold Kernel.wait
  rw [if_neg (by simp [hs]), if_neg (by simp [hu])]
  simp only
  split
  · rw [resched_semtab, Kernel.note, hsem]
    exact hentry
  · exact hentry

/-- `wait` raises no count. -/
theorem wait_fits (s t : Int) (hf : CountFits t k.log) : CountFits t (k.wait s).1.log := by
  have hlog : ∀ (k' : Kernel Q) (p q : Int), (k'.enqueue p q).2.log = k'.log := by
    intro k' p q
    unfold Kernel.enqueue
    split <;> rfl
  unfold Kernel.wait
  split_ifs
  · exact hf
  · exact hf
  · simp only
    split
    · intro c hm
      rw [resched_log, Kernel.note, hlog] at hm
      exact hf c ((List.mem_cons.mp hm).resolve_left (by simp))
    · intro c hm
      exact hf c ((List.mem_cons.mp hm).resolve_left (by simp))

/-- A unit adds one to the count. -/
theorem signalOne_entry (k : Kernel Q) (s : Int) :
    (k.signalOne s).semtab s = { k.semtab s with scount := int32 ((k.semtab s).scount + 1) } := by
  unfold Kernel.signalOne
  simp only
  split
  · rw [ready_semtab]
    exact Function.update_self _ _ _
  · exact Function.update_self _ _ _

/-- It fits if the count was not the largest. -/
theorem signalOne_fits (hf : CountFits s k.log) (hc : (k.semtab s).scount < MAXCOUNT) :
    CountFits s (k.signalOne s).log := by
  unfold Kernel.signalOne
  simp only
  split
  · intro c hm
    rw [ready_log] at hm
    rcases List.mem_cons.mp hm with e | hm
    · cases e
    rcases List.mem_cons.mp hm with e | hm
    · obtain ⟨_, rfl⟩ := Obs.signalled.inj e
      exact hc
    · exact hf c hm
  · intro c hm
    rcases List.mem_cons.mp hm with e | hm
    · obtain ⟨_, rfl⟩ := Obs.signalled.inj e
      exact hc
    · exact hf c hm

/-- The loop of `signaln` raises the count by the number of its iterations, as long as it fits. -/
theorem signalLoop_entry (n : Nat) (hlow : -2147483648 ≤ (k.semtab s).scount) (hc : (k.semtab s).scount + n ≤ MAXCOUNT)
    (hf : CountFits s k.log) : (signalLoop s n k).semtab s = { k.semtab s with scount := (k.semtab s).scount + n } ∧
      CountFits s (signalLoop s n k).log := by
  induction n generalizing k with
  | zero => exact ⟨by simp [signalLoop], hf⟩
  | succ n ih =>
    have hM : MAXCOUNT = 2147483647 := rfl
    have h1 : int32 ((k.semtab s).scount + 1) = (k.semtab s).scount + 1 := int32_of_range (by omega) (by omega)
    have hentry := signalOne_entry k s
    rw [h1] at hentry
    have hcount : ((k.signalOne s).semtab s).scount = (k.semtab s).scount + 1 := by rw [hentry]
    obtain ⟨h2, h3⟩ := ih (k := k.signalOne s) (by omega) (by omega) (signalOne_fits hf (by omega))
    refine ⟨?_, h3⟩
    rw [signalLoop, h2, hentry]
    simp only [Sentry.mk.injEq, true_and]
    omega

/-- The end of a deferral leaves the semaphores alone. -/
theorem deferStop_semtab (k : Kernel Q) : k.deferStop.semtab = k.semtab := by
  unfold Kernel.deferStop
  split
  · rfl
  · simp only
    split
    · rw [resched_semtab]
    · rfl

/-- It records nothing. -/
theorem deferStop_log (k : Kernel Q) : k.deferStop.log = k.log := by
  unfold Kernel.deferStop
  split
  · rfl
  · simp only
    split
    · rw [resched_log]
    · rfl

/-- `signaln` adds its units to the count. -/
theorem signaln_entry {n : Int} (hs : isbadsem s = false) (hu : (k.semtab s).sstate = .S_USED)
    (hlow : -2147483648 ≤ (k.semtab s).scount) (hn : 0 ≤ n) (hc : (k.semtab s).scount + n ≤ MAXCOUNT)
    (hn' : n ≤ MAXCOUNT) (hf : CountFits s k.log) :
    (k.signaln s n).1.semtab s = ⟨.S_USED, (k.semtab s).scount + n⟩ ∧ CountFits s (k.signaln s n).1.log := by
  have hint : int32 n = n := int32_of_range (by omega) (by simpa [MAXCOUNT] using hn')
  have hnat : (n.toNat : Int) = n := Int.toNat_of_nonneg hn
  obtain ⟨h1, h2⟩ := signalLoop_entry (k := k.deferStart) (s := s) n.toNat hlow (by rw [hnat]; exact hc) hf
  unfold Kernel.signaln
  simp only [hint]
  have hneg : ¬n < 0 := by omega
  rw [if_neg (by simp [hs, hneg]), if_neg (by simp [hu])]
  refine ⟨?_, ?_⟩
  · rw [deferStop_semtab, h1, hnat]
    show Sentry.mk (k.semtab s).sstate _ = _
    rw [hu]
    rfl
  · rw [deferStop_log]
    exact h2

/-- `signal` adds one. -/
theorem signal_entry (hs : isbadsem s = false) (hu : (k.semtab s).sstate = .S_USED)
    (hlow : -2147483648 ≤ (k.semtab s).scount) (hc : (k.semtab s).scount + 1 ≤ MAXCOUNT) (hf : CountFits s k.log) :
    (k.signal s).1.semtab s = ⟨.S_USED, (k.semtab s).scount + 1⟩ ∧ CountFits s (k.signal s).1.log := by
  obtain ⟨h1, h2⟩ := signalLoop_entry (k := k) (s := s) 1 hlow hc hf
  unfold Kernel.signal
  rw [if_neg (by simp [hs]), if_neg (by simp [hu])]
  refine ⟨?_, h2⟩
  rw [show k.signalOne s = signalLoop s 1 k from rfl, h1, ← hu]
  rfl

end Count

/-! ## Events -/

/-- The call concerns the semaphore. -/
def Call.touches (s : Int) : Call → Bool
  | .wait t | .signal t | .signaln t _ | .semreset t _ | .semdelete t => decide (t = s)
  | _ => false

/-- By how much the call raises the count. -/
def Call.signals (s : Int) : Call → Int
  | .signal t => if t = s then 1 else 0
  | .signaln t n => if t = s then n else 0
  | _ => 0

theorem Call.touches_of_kinds {s : Int} {c : Call} (h : Kind.sem s ∈ c.kinds) : c.touches s = true := by
  cases c <;> simp [Call.kinds, Call.touches] at h ⊢ <;> exact h.symm

/-- Steps that are none of the semaphore's leave it alone, as long as they do not create it. -/
theorem Acts.sameSem {ks : List Kind} {h g : Kernel QLists} {s : Int} (a : Acts ks h g) (I : Inv h) (hs : isbadsem s = false)
    (hu : .semcreated ∈ ks → (h.semtab s).sstate = .S_USED) (hsem : .sem s ∉ ks) (hk : ∀ p, .killed p ∉ ks) :
    SameSem s h g := by
  induction a with
  | refl => exact SameSem.refl s h
  | @tail h₁ h₂ κ a hκ b ih =>
    have I₁ := a.inv I
    have hsame : ∀ {g : Kernel QLists} {b : Bool}, Change h₁ κ b g → SameSem s h₁ g := by
      intro g b c
      rcases c.sameSem_or I₁ hs with S | rfl | ⟨rfl, hf⟩ | ⟨p, rfl, _⟩
      · exact S
      · exact absurd hκ hsem
      · rw [ih.entry, hu hκ] at hf
        cases hf
      · exact absurd hκ (hk p)
    cases b with
    | plain c => exact ih.trans (hsame c)
    | sched c => exact ih.trans ((hsame c).trans (SameSem.resched (c.settled I₁).toInv0 hs))

/-- The number of processes that wait for the semaphore. -/
def Kernel.waiters {Q : Type} (k : Kernel Q) (s : Int) : Nat := pids.countP (fun p => decide (k.Waits s p))

section Steady

variable {C : Client} {m m' : Machine C} {e : Event C} {h h' : Kernel QLists} {s : Int}

theorem Steady.waits_iff (St : Steady m h) (hs : isbadsem s = false) (p : Int) :
    m.k.Waits s p ↔ p ∈ h.queuetab.ids (squeue s) := by
  rw [St.inv.mem, homeOf_squeue hs, Kernel.Waits, St.sim.fields.1]

/-- As many processes wait as are on the queue. -/
theorem Steady.waiters_eq (St : Steady m h) (hs : isbadsem s = false) :
    m.k.waiters s = (h.queuetab.ids (squeue s)).length := by
  have hperm : (pids.filter (fun p => decide (m.k.Waits s p))).Perm (h.queuetab.ids (squeue s)) := by
    refine (List.perm_ext_iff_of_nodup (pids_nodup.filter _) (St.inv.nodup _)).mpr (fun p => ?_)
    rw [List.mem_filter, mem_pids, decide_eq_true_eq, St.waits_iff hs]
    exact ⟨And.right, fun hm => ⟨St.inv.isPid_of_mem hm, hm⟩⟩
  rw [Kernel.waiters, List.countP_eq_length_filter, hperm.length_eq]

/-- A count below zero is the number of processes that wait. -/
theorem Steady.waiters_count (St : Steady m h) (hs : isbadsem s = false) (T : Tracked s h)
    (hfit : CountFits s m.k.log) (hu : (m.k.semtab s).sstate = .S_USED) :
    (m.k.waiters s : Int) = max 0 (-(m.k.semtab s).scount) := by
  obtain ⟨_, _, hsem, _, hlog, _⟩ := St.sim.fields
  obtain ⟨σ, Tr⟩ := T (hlog ▸ hfit)
  rw [hsem] at hu ⊢
  rw [St.waiters_eq hs, Tr.waiting]
  have hcount := Tr.count (Tr.is_used hu)
  by_cases hw : σ.waiting = []
  · rw [hw, List.length_nil] at hcount ⊢
    omega
  · rw [Tr.low hw, List.length_nil] at hcount
    omega

theorem Kernel.waiters_le {Q : Type} (k : Kernel Q) (s : Int) : k.waiters s ≤ 100 := by
  have h1 := List.countP_le_length (p := fun p => decide (k.Waits s p)) (l := pids)
  have h2 : pids.length = 100 := by decide
  rw [Kernel.waiters]
  omega

/-- What does not concern a semaphore leaves its entry and those that wait for it alone. -/
structure SemIdle (m m' : Machine C) (s : Int) : Prop where
  entry : m'.k.semtab s = m.k.semtab s
  waits : ∀ p, m'.k.Waits s p ↔ m.k.Waits s p
  fits : CountFits s m.k.log → CountFits s m'.k.log

/-- A step that does not touch a semaphore leaves those who wait for it. -/
theorem SameSem.idle (S : SameSem s h h') (St : Steady m h) (St' : Steady m' h') (hs : isbadsem s = false) :
    SemIdle m m' s := by
  obtain ⟨_, _, hsem, _, hlog, _⟩ := St.sim.fields
  obtain ⟨_, _, hsem', _, hlog', _⟩ := St'.sim.fields
  refine ⟨?_, fun p => ?_, fun hf c hm => ?_⟩
  · rw [hsem, hsem']
    exact S.entry
  · rw [St.waits_iff hs, St'.waits_iff hs, S.ids]
  · rw [hlog'] at hm
    exact hf c (hlog ▸ S.signalled c hm)

/-- The end of `kill` does not concern the semaphore, unless the victim waits for it. -/
theorem Act.sameSem_killed {pid : Int} (a : Act (h.freeStack pid) (.killed pid) h') (I : Inv h) (hs : isbadsem s = false)
    (hw : ¬h.Waits s pid) : SameSem s h h' := by
  have I' : Inv (h.freeStack pid) := (Act.plain (Change.stkfreed pid)).inv I
  have S : SameSem s h (h.freeStack pid) := SameSem.frame [_] rfl (by simp [semEvent]) rfl rfl
  have hsame : ∀ {g : Kernel QLists} {b : Bool}, Change (h.freeStack pid) (.killed pid) b g → SameSem s h g := by
    intro g b c
    rcases c.sameSem_or I' hs with S' | e | ⟨e, _⟩ | ⟨p, e, hp⟩
    · exact S.trans S'
    · cases e
    · cases e
    · obtain rfl := Kind.killed.inj e
      exact absurd hp hw
  cases a with
  | plain c => exact hsame c
  | sched c => exact (hsame c).trans (SameSem.resched (c.settled I').toInv0 hs)

/-- An event that makes no call for the semaphore and removes no process that waits for it. -/
theorem Does.semIdle (D : Does m e h m' h') (St : Steady m h) (St' : Steady m' h') (hs : isbadsem s = false)
    (hu : (m.k.semtab s).sstate = .S_USED) (hc : ∀ c ∈ m.issued e, c.touches s = false)
    (hr : ∀ pid ∈ m.removes e, ¬m.k.Waits s pid) : SemIdle m m' s := by
  have hu' : (h.semtab s).sstate = .S_USED := by
    rw [← St.sim.fields.2.2.1]
    exact hu
  refine SameSem.idle ?_ St St' hs
  cases D with
  | call c d l rest hi hr hk a =>
    have hnot := hc c hi
    refine a.sameSem St.inv hs (fun _ => hu') (fun hm => ?_) (fun p => c.kinds_killed p)
    rw [Call.touches_of_kinds hm] at hnot
    cases hnot
  | inside | back | closed => exact SameSem.refl s h
  | stop => exact SameSem.frame [] rfl (by simp) rfl rfl
  | tick he t a =>
    have S : SameSem s h _ := (Acts.single (Act.plain t) (List.mem_singleton_self _)).sameSem St.inv hs (by simp) (by simp) (by simp)
    exact S.trans (a.sameSem ((Act.plain t).inv St.inv) hs (by simp) (by simp) (by simp))
  | take => exact SameSem.frame [_] rfl (by simp [semEvent]) rfl rfl
  | killEnd pid i rest hstk hi hk a he =>
    have hrem : m.removes e = some pid := by simp only [he, Machine.removes, hstk, if_neg hi]
    refine a.sameSem_killed St.inv hs ?_
    rw [Kernel.Waits, ← St.sim.fields.1]
    exact hr pid hrem

end Steady

/-! ## The routines behind a `wait` -/

section Frames

variable {C : Client} {m m' : Machine C} {e : Event C} {P : C.F → Bool}

/-- The number of routines in progress at the points `P`. -/
def Machine.frames (m : Machine C) (P : C.F → Bool) : Nat := (pids.map (fun p => (routines (m.context p)).countP P)).sum

/-- Whether the event goes on at one of the points. -/
def Machine.leaves (m : Machine C) (P : C.F → Bool) (e : Event C) : Nat :=
  ((m.resumed e).map Prod.fst).toList.countP P

/-- Whether the segment that the event runs ends at one of the points. -/
def Machine.enters (m : Machine C) (P : C.F → Bool) (e : Event C) : Nat :=
  ((m.segment e).bind (fun x => x.2.routine)).toList.countP P

theorem frames_congr (h : ∀ p, routines (m'.context p) = routines (m.context p)) : m'.frames P = m.frames P := by
  unfold Machine.frames
  congr 1
  exact List.map_congr_left (fun p _ => by rw [h p])

/-- The routines of one process change. -/
theorem frames_change {p : Int} {l : List C.F} (hp : IsPid p)
    (h : ∀ q, routines (m'.context q) = if q = p then l else routines (m.context q)) :
    m'.frames P + (routines (m.context p)).countP P = m.frames P + l.countP P := by
  have hupd : (fun q => (routines (m'.context q)).countP P) =
      fun q => (fun l : List C.F => l.countP P) (Function.update (fun q => routines (m.context q)) p l q) := by
    funext q
    rw [h q]
    by_cases hq : q = p
    · rw [if_pos hq, hq, Function.update_self]
    · rw [if_neg hq, Function.update_of_ne hq]
  rw [Machine.frames, hupd]
  exact sum_map_update pids_nodup (fun l : List C.F => l.countP P) (fun q => routines (m.context q)) (mem_pids.mpr hp) l

/-- The routine that goes on was on the stack, above the others. -/
theorem Machine.Follows.routines_eq {l : List (Frame C.F)} {x : C.Data × Next C.F} (hx : Machine.Follows m e l x) :
    routines (m.context m.k.currpid) = ((m.resumed e).map Prod.fst).toList ++ routines l := by
  cases hx with
  | enter o h => rfl
  | callback h | client h =>
    simp only [Machine.resumed, h, Option.map_some]
    rw [show m.context m.k.currpid = _ from h]
    rfl

theorem leaves_enters_none (hn : m.segment e = none) : m.leaves P e = 0 ∧ m.enters P e = 0 :=
  ⟨by simp [Machine.leaves, Machine.resumed_none hn], by simp [Machine.enters, hn]⟩

/-- The routine that goes on is one of the current process. -/
theorem leaves_le (hs : m.step e = some m') : m.leaves P e ≤ (routines (m.context m.k.currpid)).countP P := by
  have hfollows : ∀ {l : List (Frame C.F)} {x : C.Data × Next C.F}, Machine.Follows m e l x →
      m.leaves P e ≤ (routines (m.context m.k.currpid)).countP P := by
    intro l x hx
    rw [hx.routines_eq, List.countP_append]
    exact Nat.le_add_right _ _
  cases Machine.step_segment hs with
  | quiet hd hf hn | killed pid hd hf hn => rw [(leaves_enters_none hn).1]; exact Nat.zero_le _
  | library l x hx => exact hfollows hx
  | stopped l d st hx => exact hfollows hx

/-- What an event does to the number of routines at the points, unless it stops the processor. -/
theorem step_frames (hs : m.step e = some m') (hp : IsPid m.k.currpid)
    (hrem : ∀ pid ∈ m.removes e, (routines (m.context pid)).countP P = 0)
    (hrun : ∀ d st, m.segment e ≠ some (d, .stop st)) : m'.frames P + m.leaves P e = m.frames P + m.enters P e := by
  cases Machine.step_segment hs with
  | quiet hd hf hn =>
    obtain ⟨h1, h2⟩ := leaves_enters_none (P := P) hn
    rw [h1, h2, frames_congr hf]
  | killed pid hd hf hn hr =>
    obtain ⟨h1, h2⟩ := leaves_enters_none (P := P) hn
    have h0 := hrem pid hr
    have hsame : m'.frames P = m.frames P := by
      unfold Machine.frames
      congr 1
      refine List.map_congr_left (fun p _ => ?_)
      rw [hf p]
      split
      · next hpp => rw [hpp, h0, List.countP_nil]
      · rfl
    rw [h1, h2, hsame]
  | library l x hx hd hf =>
    have h1 := frames_change (P := P) hp hf
    rw [hx.routines_eq, List.countP_append, List.countP_append] at h1
    rw [Machine.leaves, Machine.enters, hx.segment, Option.bind_some]
    omega
  | stopped l d st hx => exact absurd hx.segment (hrun d st)

/-- What the routines in progress hold. -/
def Machine.collect {β : Type} (m : Machine C) (g : C.F → Option β) : List β :=
  pids.flatMap (fun p => (routines (m.context p)).filterMap g)

theorem collect_congr {β : Type} {g : C.F → Option β}
    (h : ∀ p, (routines (m'.context p)).filterMap g = (routines (m.context p)).filterMap g) : m'.collect g = m.collect g := by
  unfold Machine.collect
  exact List.flatMap_congr (fun p _ => h p)

/-- A table of lists with the list of one process in front. -/
theorem flatMap_front {β : Type} {l : List Int} {p : Int} (hp : p ∈ l) (t : Int → List β) :
    (l.flatMap t).Perm (t p ++ (l.erase p).flatMap t) := by
  rw [← List.flatMap_cons]
  exact (List.perm_cons_erase hp).flatMap_right t

/-- What an event does to what the routines hold, unless it stops the processor. -/
theorem step_collect {β : Type} {g : C.F → Option β} (hs : m.step e = some m') (hp : IsPid m.k.currpid)
    (hrem : ∀ pid ∈ m.removes e, (routines (m.context pid)).filterMap g = [])
    (hrun : ∀ d st, m.segment e ≠ some (d, .stop st)) :
    ∃ R, (m.collect g).Perm ((((m.resumed e).map Prod.fst).bind g).toList ++ R) ∧
      (m'.collect g).Perm ((((m.segment e).bind (fun x => x.2.routine)).bind g).toList ++ R) := by
  have hquiet : m.segment e = none → m'.collect g = m.collect g → _ := fun hn he =>
    (⟨m.collect g, by simp [Machine.resumed_none hn], by simp [hn, he]⟩ :
      ∃ R, (m.collect g).Perm ((((m.resumed e).map Prod.fst).bind g).toList ++ R) ∧
        (m'.collect g).Perm ((((m.segment e).bind (fun x => x.2.routine)).bind g).toList ++ R))
  cases Machine.step_segment hs with
  | quiet hd hf hn => exact hquiet hn (collect_congr (fun p => by rw [hf p]))
  | killed pid hd hf hn hr =>
    refine hquiet hn (collect_congr (fun p => ?_))
    rw [hf p]
    split
    · next hpp => rw [hpp, hrem pid hr, List.filterMap_nil]
    · rfl
  | library l x hx hd hf =>
    have hpid := mem_pids.mpr hp
    have hother : (pids.erase m.k.currpid).flatMap (fun p => (routines (m'.context p)).filterMap g) =
        (pids.erase m.k.currpid).flatMap (fun p => (routines (m.context p)).filterMap g) := by
      refine List.flatMap_congr (fun p hm => ?_)
      rw [hf p, if_neg (fun e => (pids_nodup.mem_erase_iff.mp hm).1 e)]
    have hopt : ∀ o : Option C.F, (o.toList ++ routines l).filterMap g = (o.bind g).toList ++ (routines l).filterMap g := by
      intro o
      rw [List.filterMap_append]
      cases o with
      | none => rfl
      | some f => cases hg : g f <;> simp [hg]
    refine ⟨(routines l).filterMap g ++
      (pids.erase m.k.currpid).flatMap (fun p => (routines (m.context p)).filterMap g), ?_, ?_⟩
    · refine (flatMap_front hpid _).trans ?_
      rw [hx.routines_eq, hopt, List.append_assoc]
    · refine (flatMap_front hpid _).trans ?_
      rw [hother, hf m.k.currpid, if_pos rfl, hopt, List.append_assoc, hx.segment, Option.bind_some]
  | stopped l d st hx => exact absurd hx.segment (hrun d st)

end Frames

/-! ## Semaphores of a library -/

/-- By how much the call lowers the count. -/
def Call.waits (s : Int) : Call → Int
  | .wait t => if t = s then 1 else 0
  | _ => 0

section Kept

variable {C : Client} {m m' : Machine C} {e : Event C} {h h' : Kernel QLists} {s : Int} {P : C.F → Bool}

/-- By how much the event raises the count. -/
def Machine.signals (m : Machine C) (s : Int) (e : Event C) : Int := ((m.issued e).map (Call.signals s)).getD 0

/-- By how much the event lowers the count. -/
def Machine.waits (m : Machine C) (s : Int) (e : Event C) : Int := ((m.issued e).map (Call.waits s)).getD 0

/-- The semaphore is in use, and whoever waits for it does so in a routine of the library at one of the points `P`. -/
structure Kept (m : Machine C) (s : Int) (P : C.F → Bool) : Prop where
  good : isbadsem s = false
  used : (m.k.semtab s).sstate = .S_USED
  fits : CountFits s m.k.log
  behind : ∀ p, m.k.Waits s p → 0 < (routines (m.context p)).countP P

/-- The event leaves the semaphore to the library: user code does not use it, the library waits for it at the points `P`, does
not reset it, and keeps its count small, and no process at one of the points is removed. -/
structure Machine.Private (m : Machine C) (s : Int) (P : C.F → Bool) (e : Event C) : Prop where
  user : ∀ c, e = .call c → c.touches s = false
  flush : ∀ c ∈ m.issued e, c ≠ .semdelete s ∧ ∀ n, c ≠ .semreset s n
  wait : ∀ d f, m.segment e = some (d, .call (.wait s) f) → P f = true
  low : 0 ≤ m.signals s e
  high : m.signals s e ≤ MAXCOUNT ∧ (m.k.semtab s).scount + m.signals s e ≤ MAXCOUNT
  spare : ∀ pid ∈ m.removes e, (routines (m.context pid)).countP P = 0

theorem Steady.current_not_waiting (St : Steady m h) : ¬m.k.Waits s m.k.currpid := by
  intro hw
  have hst := hw.1
  rw [St.sim.fields.1, St.currpid_eq, St.inv.running] at hst
  cases hst

theorem Steady.currpid_isPid (St : Steady m h) : IsPid m.k.currpid := by
  rw [St.currpid_eq]
  exact St.inv.currpid

/-- A process that waits stays where it is. -/
theorem Kept.routines_waiting (K : Kept m s P) (hs : m.step e = some m') (St : Steady m h) (priv : m.Private s P e) {p : Int}
    (hw : m.k.Waits s p) : routines (m'.context p) = routines (m.context p) := by
  have hcur : p ≠ m.k.currpid := fun e => St.current_not_waiting (e ▸ hw)
  cases Machine.step_segment hs with
  | quiet hd hf => exact hf p
  | killed pid hd hf hn hr =>
    have hne : p ≠ pid := by
      rintro rfl
      have := K.behind p hw
      rw [priv.spare p hr] at this
      exact absurd this (by decide)
    rw [hf p, if_neg hne]
  | library l x hx hd hf => rw [hf p, if_neg hcur]
  | stopped l d st hx hd hf => exact hf p

theorem Kept.low (K : Kept m s P) (St : Steady m h) (T : Tracked s h) : -100 ≤ (m.k.semtab s).scount := by
  have h1 := St.waiters_count K.good T K.fits K.used
  have h2 := m.k.waiters_le s
  omega

/-- The library's semaphore after an event. -/
theorem Kept.step (K : Kept m s P) (hs : m.step e = some m') (St : Steady m h) (T : Tracked s h) (St' : Steady m' h')
    (D : Does m e h m' h') (priv : m.Private s P e) :
    Kept m' s P ∧ (m'.k.semtab s).scount = (m.k.semtab s).scount + m.signals s e - m.waits s e := by
  have hlow := K.low St T
  have hidle : (∀ c ∈ m.issued e, c.touches s = false) → Kept m' s P ∧
      (m'.k.semtab s).scount = (m.k.semtab s).scount + m.signals s e - m.waits s e := by
    intro hc
    have I := D.semIdle St St' K.good K.used hc (fun pid hr hw => by
      have := K.behind pid hw
      rw [priv.spare pid hr] at this
      exact absurd this (by decide))
    refine ⟨⟨K.good, by rw [I.entry]; exact K.used, I.fits K.fits, fun p hw => ?_⟩, ?_⟩
    · have hw' := (I.waits p).mp hw
      rw [K.routines_waiting hs St priv hw']
      exact K.behind p hw'
    · have h0 : m.signals s e = 0 ∧ m.waits s e = 0 := by
        cases hi : m.issued e with
        | none => simp [Machine.signals, Machine.waits, hi]
        | some c =>
          have := hc c hi
          cases c <;> simp_all [Machine.signals, Machine.waits, Call.signals, Call.waits, Call.touches]
      rw [I.entry, h0.1, h0.2]
      omega
  by_cases htouch : ∃ c, m.issued e = some c ∧ c.touches s = true
  swap
  · refine hidle (fun c hc => ?_)
    by_contra hne
    exact htouch ⟨c, hc, by simpa using hne⟩
  obtain ⟨c, hi, ht⟩ := htouch
  cases (Machine.step_effect hs).2 with
  | inside d l rest hl hr hi' => rw [hi] at hi'; cases hi'
  | stop d st l hx => rw [hx.issued] at hi; cases hi
  | tick hu he => rw [he] at hi; cases hi
  | proceed r rest hstk hr he =>
    rw [he, Machine.issued_cont_kernel hstk hr] at hi
    cases hi
  | call c' d l rest hi' hl hr =>
    obtain rfl : c' = c := Option.some.inj (hi'.symm.trans hi)
    have hM : MAXCOUNT = 2147483647 := rfl
    have hwaiting : ∀ p, m.k.Waits s p → 0 < (routines ((Machine.enterCall { m with data := d } c' rest).context p)).countP P := by
      intro p hw
      rw [K.routines_waiting hs St priv hw]
      exact K.behind p hw
    have hsig : m.signals s e = c'.signals s ∧ m.waits s e = c'.waits s := by
      simp [Machine.signals, Machine.waits, hi]
    have hhigh := priv.high
    have hlow' := priv.low
    rw [hsig.1] at hhigh hlow'
    rw [hsig.1, hsig.2]
    cases c' with
    | wait t =>
      obtain rfl : t = s := of_decide_eq_true ht
      have hentry := wait_entry (k := m.k) K.good K.used
      rw [int32_of_range (by omega) (by simp only [Call.signals] at hhigh; omega)] at hentry
      refine ⟨⟨K.good, congrArg Sentry.sstate hentry, wait_fits t t K.fits, fun p hw => ?_⟩, ?_⟩
      · rcases wait_waits m.k t hw with hw | rfl
        · exact hwaiting p hw
        · cases hr with
          | user he =>
            have := priv.user _ he
            rw [ht] at this
            cases this
          | @client _ f _ hx =>
            have hPf := priv.wait d f hx.segment
            rw [show (Machine.enterCall { m with data := d } (.wait t) (.client f :: l)).context m.k.currpid = _ from
              Machine.enterCall_self _ _]
            rw [Machine.routines_kernel, Machine.routines_client, List.countP_cons_of_pos hPf]
            omega
      · refine (congrArg Sentry.scount hentry).trans ?_
        simp [Call.signals, Call.waits]
    | signal t =>
      obtain rfl : t = s := of_decide_eq_true ht
      simp only [Call.signals, if_true] at hhigh hlow'
      obtain ⟨h1, h2⟩ := signal_entry (k := m.k) K.good K.used (by omega) hhigh.2 K.fits
      refine ⟨⟨K.good, congrArg Sentry.sstate h1, h2, fun p hw => hwaiting p ((noWaits_signal m.k t).waits t p hw)⟩, ?_⟩
      refine (congrArg Sentry.scount h1).trans ?_
      simp [Call.signals, Call.waits]
    | signaln t n =>
      obtain rfl : t = s := of_decide_eq_true ht
      simp only [Call.signals, if_true] at hhigh hlow'
      obtain ⟨h1, h2⟩ := signaln_entry (k := m.k) K.good K.used (by omega) hlow' hhigh.2 hhigh.1 K.fits
      refine ⟨⟨K.good, congrArg Sentry.sstate h1, h2, fun p hw => hwaiting p ((noWaits_signaln m.k t n).waits t p hw)⟩, ?_⟩
      refine (congrArg Sentry.scount h1).trans ?_
      simp [Call.signals, Call.waits]
    | semreset t n =>
      obtain rfl : t = s := of_decide_eq_true ht
      exact absurd rfl ((priv.flush _ hi).2 n)
    | semdelete t =>
      obtain rfl : t = s := of_decide_eq_true ht
      exact absurd rfl (priv.flush _ hi).1
    | _ => cases ht

/-- `semcount` returns the count. -/
theorem Kept.semcount (K : Kept m s P) : m.k.semcount s = (m.k, .ret (m.k.semtab s).scount) := by
  unfold Kernel.semcount
  rw [if_neg (by simp [K.good, K.used])]

/-- The routines at the points are at least the processes that wait, and those of the current process. -/
theorem Kept.waiters_add_le (K : Kept m s P) (St : Steady m h) :
    m.k.waiters s + (routines (m.context m.k.currpid)).countP P ≤ m.frames P := by
  have hcount : ∀ l : List Int, l.Nodup → m.k.currpid ∈ l →
      l.countP (fun p => decide (m.k.Waits s p)) + (routines (m.context m.k.currpid)).countP P ≤
        (l.map (fun p => (routines (m.context p)).countP P)).sum := by
    have hle : ∀ l : List Int, l.countP (fun p => decide (m.k.Waits s p)) ≤
        (l.map (fun p => (routines (m.context p)).countP P)).sum := by
      intro l
      induction l with
      | nil => exact Nat.le_refl 0
      | cons p l ih =>
        rw [List.countP_cons, List.map_cons, List.sum_cons]
        split
        · next hw =>
          have := K.behind p (of_decide_eq_true hw)
          omega
        · omega
    intro l hnd hm
    induction l with
    | nil => cases hm
    | cons p l ih =>
      obtain ⟨hp, hnd⟩ := List.nodup_cons.mp hnd
      rw [List.countP_cons, List.map_cons, List.sum_cons]
      rcases List.mem_cons.mp hm with rfl | hm
      · have hnw : decide (m.k.Waits s m.k.currpid) = false := decide_eq_false St.current_not_waiting
        rw [hnw]
        have := hle l
        simp only [Bool.false_eq_true, if_false]
        omega
      · have := ih hnd hm
        split
        · next hw =>
          have := K.behind p (of_decide_eq_true hw)
          omega
        · omega
  exact hcount pids pids_nodup (mem_pids.mpr St.currpid_isPid)

/-- The units of the semaphore that are left or held at the points: those of the current process are among them. -/
theorem Kept.units (K : Kept m s P) (St : Steady m h) (T : Tracked s h) :
    ((routines (m.context m.k.currpid)).countP P : Int) ≤ (m.k.semtab s).scount + m.frames P := by
  have h1 := St.waiters_count K.good T K.fits K.used
  have h2 := K.waiters_add_le St
  omega

end Kept

/-! ## Segments of the library -/

/-- By how much the call at the end of a segment raises the count. -/
def Next.signals {F : Type} (s : Int) : Next F → Int
  | .call c _ => c.signals s
  | _ => 0

/-- By how much the call at the end of a segment lowers the count. -/
def Next.waits {F : Type} (s : Int) : Next F → Int
  | .call c _ => c.waits s
  | _ => 0

section Segments

variable {C : Client} {m m' : Machine C} {e : Event C} {h h' : Kernel QLists} {s : Int} {P : C.F → Bool}

/-- The system call at the end of a segment. -/
theorem segment_issued {x : C.Data × Next C.F} (hx : m.segment e = some x) : m.issued e = Machine.issued.nextCall x := by
  cases e with
  | op o =>
    obtain rfl := Option.some.inj hx
    rfl
  | call c | tick => cases hx
  | ret | cont =>
    simp only [Machine.segment, Machine.resumed] at hx
    split at hx
    · next hstk =>
      obtain rfl := Option.some.inj hx
      simp only [Machine.issued, hstk]
    · cases hx

theorem segment_signals {x : C.Data × Next C.F} (hx : m.segment e = some x) :
    m.signals s e = x.2.signals s ∧ m.waits s e = x.2.waits s ∧ m.enters P e = x.2.routine.toList.countP P := by
  have hi := segment_issued hx
  obtain ⟨d, v | ⟨c, f⟩ | f | st⟩ := x <;>
    simp [Machine.signals, Machine.waits, Machine.enters, hi, hx, Machine.issued.nextCall, Next.signals, Next.waits,
      Next.routine]

/-- A segment that returns leaves the kernel as it is. -/
theorem segment_ret (hs : m.step e = some m') {d : C.Data} {v : Int} (hx : m.segment e = some (d, .ret v)) : m'.k = m.k := by
  have hi := segment_issued hx
  cases (Machine.step_effect hs).2 with
  | call c d l rest hc =>
    rw [hi] at hc
    cases hc
  | inside d l rest => rfl
  | stop d st l hf =>
    rw [hf.segment] at hx
    cases hx
  | tick hu he =>
    subst he
    cases hx
  | proceed r rest hstk hr he =>
    subst he
    simp only [Machine.segment, Machine.resumed, hstk] at hx
    split at hx
    · next heq => exact absurd (Frame.kernel.inj (List.cons.inj heq).1) (hr _)
    · cases hx

/-- A system call is made by user code, or at the end of a segment. -/
theorem issued_cases {c : Call} (hc : m.issued e = some c) : e = .call c ∨ ∃ d f, m.segment e = some (d, .call c f) := by
  have hnext : ∀ x : C.Data × Next C.F, Machine.issued.nextCall x = some c → ∃ d f, x = (d, .call c f) := by
    rintro ⟨d, v | ⟨c', f⟩ | f | st⟩ hx
    · cases hx
    · obtain rfl := Option.some.inj hx
      exact ⟨d, f, rfl⟩
    · cases hx
    · cases hx
  cases e with
  | call c' => exact Or.inl (by rw [Option.some.inj hc])
  | op o =>
    obtain ⟨d, f, hx⟩ := hnext _ hc
    exact Or.inr ⟨d, f, congrArg some hx⟩
  | tick => cases hc
  | ret | cont =>
    simp only [Machine.issued] at hc
    split at hc
    · next hstk =>
      obtain ⟨d, f, hx⟩ := hnext _ hc
      refine Or.inr ⟨d, f, ?_⟩
      simp only [Machine.segment, Machine.resumed, hstk, Option.map_some, hx]
    · cases hc

/-- A call that does not concern the semaphore. -/
theorem Call.untouched {s : Int} {c : Call} (h : c.touches s = false) : c.signals s = 0 ∧ c.waits s = 0 := by
  cases c <;> simp_all [Call.touches, Call.signals, Call.waits]

/-- A library whose segments leave the semaphore in use and wait for it at the points `P` keeps it to itself. -/
theorem Machine.private_of_segments (huser : ∀ c, e = .call c → c.touches s = false)
    (hspare : ∀ pid ∈ m.removes e, (routines (m.context pid)).countP P = 0) (hcount : (m.k.semtab s).scount ≤ MAXCOUNT)
    (hcalls : ∀ d c f, m.segment e = some (d, .call c f) →
      (c ≠ .semdelete s ∧ ∀ n, c ≠ .semreset s n) ∧ (c = .wait s → P f = true))
    (hsignals : ∀ x, m.segment e = some x →
      0 ≤ x.2.signals s ∧ x.2.signals s ≤ MAXCOUNT ∧ (m.k.semtab s).scount + x.2.signals s ≤ MAXCOUNT) :
    m.Private s P e := by
  have hM : (0 : Int) ≤ MAXCOUNT := by decide
  have hsig : 0 ≤ m.signals s e ∧ m.signals s e ≤ MAXCOUNT ∧ (m.k.semtab s).scount + m.signals s e ≤ MAXCOUNT := by
    cases hx : m.segment e with
    | some x =>
      rw [(segment_signals (P := P) hx).1]
      exact hsignals x hx
    | none =>
      have h0 : m.signals s e = 0 := by
        cases hc : m.issued e with
        | none => simp [Machine.signals, hc]
        | some c =>
          rcases issued_cases hc with he | ⟨d, f, hx'⟩
          · simp [Machine.signals, hc, (Call.untouched (huser c he)).1]
          · rw [hx] at hx'
            cases hx'
      rw [h0, Int.add_zero]
      exact ⟨Int.le_refl 0, hM, hcount⟩
  refine ⟨huser, fun c hc => ?_, fun d f hx => (hcalls d _ f hx).2 rfl, hsig.1, hsig.2, hspare⟩
  rcases issued_cases hc with he | ⟨d, f, hx⟩
  · have := huser c he
    constructor
    · rintro rfl
      simp [Call.touches] at this
    · rintro n rfl
      simp [Call.touches] at this
  · exact (hcalls d c f hx).1

/-- The units of the semaphore that are left or held at the points `P`. -/
def Machine.units (m : Machine C) (s : Int) (P : C.F → Bool) : Int := (m.k.semtab s).scount + m.frames P

/-- What a segment of the library does to the units. -/
theorem Kept.units_segment (K : Kept m s P) (hs : m.step e = some m') (St : Steady m h) (T : Tracked s h) (St' : Steady m' h')
    (D : Does m e h m' h') (priv : m.Private s P e) {x : C.Data × Next C.F} (hx : m.segment e = some x)
    (hrun : ∀ d st, x ≠ (d, .stop st)) :
    Kept m' s P ∧ m'.units s P = m.units s P + x.2.signals s - x.2.waits s + x.2.routine.toList.countP P - m.leaves P e := by
  obtain ⟨K', hcount⟩ := K.step hs St T St' D priv
  have hframes := step_frames hs St.currpid_isPid priv.spare (fun d st e' => hrun d st (Option.some.inj (hx.symm.trans e')))
  obtain ⟨h1, h2, h3⟩ := segment_signals (s := s) (P := P) hx
  refine ⟨K', ?_⟩
  rw [Machine.units, Machine.units, hcount, h1, h2, ← h3]
  omega

/-- What other events do to the units. -/
theorem Kept.units_quiet (K : Kept m s P) (hs : m.step e = some m') (St : Steady m h) (T : Tracked s h) (St' : Steady m' h')
    (D : Does m e h m' h') (priv : m.Private s P e) (hn : m.segment e = none) :
    Kept m' s P ∧ m'.units s P = m.units s P := by
  obtain ⟨K', hcount⟩ := K.step hs St T St' D priv
  have hframes := step_frames hs St.currpid_isPid priv.spare (fun d st e' => by rw [hn] at e'; cases e')
  have hr := Machine.resumed_none hn
  have h0 : m.signals s e = 0 ∧ m.waits s e = 0 := by
    cases e with
    | op o => cases hn
    | call c => exact Call.untouched (priv.user c rfl)
    | tick => exact ⟨rfl, rfl⟩
    | ret | cont =>
      simp only [Machine.resumed] at hr
      split at hr
      · cases hr
      · next hstk => simp [Machine.signals, Machine.waits, Machine.issued]
  have hz := leaves_enters_none (P := P) hn
  refine ⟨K', ?_⟩
  rw [Machine.units, Machine.units, hcount]
  omega

end Segments

/-! ## Runs -/

section Runs

variable {C : Client}

theorem tracked_boot (s : Int) (minheap maxheap : Nat) : Tracked s ((sysinit minheap maxheap).abst QLists.none) := by
  refine fun _ => ⟨.init, rfl, rfl, ?_, fun hu => ?_, fun hu => ?_, fun hw => absurd rfl hw, fun _ => rfl⟩
  · exact ⟨fun hu => (by cases hu), fun hu => (by cases hu)⟩
  · cases hu
  · cases hu

/-- Every semaphore is a counting semaphore. -/
def AllTracked (h : Kernel QLists) : Prop := ∀ s, isbadsem s = false → Tracked s h

theorem allTracked_stable : Stable (fun _ => True) (fun _ => AllTracked) := by
  constructor
  · intro h g κ b I hκ c H s hs
    exact (tracked_stable hs).change I hκ c (H s hs)
  · intro g T H s hs
    exact (tracked_stable hs).sched T (H s hs)

/-- A semaphore that has been created before any process is inside the library. -/
theorem kept_boot {m : Machine C} {s n : Int} (minheap maxheap : Nat) (hctx : ∀ p, m.context p = [])
    (hproc : m.k.proctab = (sysinit minheap maxheap).proctab) (hfits : CountFits s m.k.log) (hs : isbadsem s = false)
    (hsem : m.k.semtab s = ⟨.S_USED, n⟩) (P : C.F → Bool) : Kept m s P ∧ m.frames P = 0 := by
  refine ⟨⟨hs, by rw [hsem], hfits, fun p hw => ?_⟩, ?_⟩
  · have hp := hw.1
    rw [hproc] at hp
    simp only [sysinit] at hp
    split at hp <;> cases hp
  · refine List.sum_eq_zero (fun n hn => ?_)
    obtain ⟨p, _, rfl⟩ := List.mem_map.mp hn
    rw [hctx p]
    rfl

theorem allTracked_boot (minheap maxheap : Nat) : AllTracked ((sysinit minheap maxheap).abst QLists.none) :=
  fun s _ => tracked_boot s minheap maxheap

/-- A system call of a process in user code, which has returned. -/
theorem Steady.after_call {m : Machine C} {h : Kernel QLists} (St : Steady m h) (T : AllTracked h) {c : Call}
    (hlaw : m.k.Lawful c) (hrun : m.k.status = .running) (hidle : m.stack = []) :
    ∃ h', Steady { m with k := (m.k.call c).1 } h' ∧ AllTracked h' := by
  have hs : m.step (.call c) = some (m.enterCall c []) := by
    simp only [Machine.step, hrun, hidle, userMode, and_self, if_true]
  obtain ⟨h', St', D⟩ := step_does St hs (fun c' hc => Option.some.inj hc ▸ hlaw)
  refine ⟨h', ⟨St'.sim, St'.inv, St'.defers, St'.counts, St.frames, fun p hp => ?_⟩,
    D.keeps allTracked_stable (fun _ _ H s hs => (H s hs).takeMsg) St.inv T⟩
  by_cases hc : p = m.k.currpid
  · rw [hc]
    exact hidle
  · have := St'.freed p hp
    rwa [Machine.enterCall_of_ne c [] hc] at this

/-- The semaphore that `semcreate` returns was not in use, and nobody waits for it. -/
theorem Steady.semcreate_new {m : Machine C} {h : Kernel QLists} (St : Steady m h) (T : AllTracked h) (hfit : CountsFit m.k.log)
    {n : Int} (hn : int32 n = n) :
    (m.k.semcreate n).1.currpid = m.k.currpid ∧ ∃ v, (m.k.semcreate n).2 = .ret v ∧
      (v = SYSERR ∨ isbadsem v = false ∧ (m.k.semtab v).sstate = .S_FREE ∧ (m.k.semcreate n).1.semtab v = ⟨.S_USED, n⟩ ∧
        CountFits v (m.k.semcreate n).1.log ∧ ∀ q, ¬(m.k.semcreate n).1.Waits v q) := by
  unfold Kernel.semcreate
  simp only [hn]
  split
  · exact ⟨rfl, SYSERR, rfl, Or.inl rfl⟩
  · have hnext : 0 ≤ m.k.nextsem ∧ m.k.nextsem < NSEM := by
      obtain ⟨L, R, rfl⟩ := St.sim
      exact St.inv.nextsem
    rcases hl : newsemLoop m.k.semtab NSEM.toNat m.k.nextsem with ⟨_ | s, ns⟩
    · exact ⟨rfl, SYSERR, rfl, Or.inl rfl⟩
    · obtain ⟨hs, hfree⟩ := (newsemLoop_spec hl hnext).2 s rfl
      have hfits : CountFits s m.k.log := fun c hm => hfit s c hm
      refine ⟨rfl, s, rfl, Or.inr ⟨hs, hfree, Function.update_self _ _ _, fun c hm => ?_, fun q hw => ?_⟩⟩
      · rcases List.mem_cons.mp hm with e | hm
        · cases e
        · exact hfits c hm
      · have hw' : m.k.Waits s q := hw
        obtain ⟨_, _, hsem, _, hlog, _⟩ := St.sim.fields
        obtain ⟨σ, K⟩ := T s hs (hlog ▸ hfits)
        have hunused : σ.used = false := by
          by_contra hu
          have := K.used.mpr (by simpa using hu)
          rw [← hsem, hfree] at this
          cases this
        have hm := (St.waits_iff hs q).mp hw'
        rw [K.waiting, K.idle hunused] at hm
        cases hm

/-- What every event keeps, given what holds of the kernel between events, holds in every state that is reached. -/
theorem reach_invariant {ok : Machine C → Event C → Prop} {m₀ m : Machine C} {h₀ : Kernel QLists} {I : Machine C → Prop}
    (hlaw : ∀ m e, ok m e → m.Lawful e) (h0 : Steady m₀ h₀) (hT0 : AllTracked h₀) (hI0 : I m₀)
    (hstep : ∀ (m m' : Machine C) (e : Event C) (h h' : Kernel QLists), ok m e → m.step e = some m' → Steady m h →
      AllTracked h → Steady m' h' → Does m e h m' h' → I m → I m')
    (r : Machine.Reach ok m₀ m) : I m ∧ ∃ h, Steady m h ∧ AllTracked h := by
  induction r with
  | refl => exact ⟨hI0, h₀, h0, hT0⟩
  | step e _ hok hs ih =>
    obtain ⟨hI, h, St, T⟩ := ih
    obtain ⟨h', St', D⟩ := step_does St hs (hlaw _ e hok)
    refine ⟨hstep _ _ e h h' hok hs St T St' D hI, h', St', ?_⟩
    exact D.keeps allTracked_stable (fun _ _ H s hs => (H s hs).takeMsg) St.inv T

end Runs

end Xinu
