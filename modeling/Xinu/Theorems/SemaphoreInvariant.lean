import Xinu.Kernel.Histories
import Xinu.Theorems.ProcessLists

/-!
# Semaphores in every run

The count of a semaphore and its queue agree in every reachable state, the processes that `signal` and `signaln` release are
those that have waited longest, and every wait that goes through, at once or because a signal releases it, uses a unit of its
own of the count that was assigned or of a signal. `SemaphoreStep` says which calls the history is about: a call of `wait` that
is to return `OK` is recorded there, at once or when it blocks, and one that blocks returns only after it was released.
-/

namespace Xinu

open Kernel

/-- The entry of the semaphore `s`, its queue and its history agree. -/
structure SemaphoreOk (k : Kernel QueueTab) (s : Int) : Prop where
  idle : (k.semtab s).sstate = .S_USED → 0 ≤ (k.semtab s).scount → k.queuetab.toList (squeue s) = []
  busy : (k.semtab s).sstate = .S_USED → (k.semtab s).scount < 0 →
    ((k.queuetab.toList (squeue s)).length : Int) = -(k.semtab s).scount
  waiting : ∀ p ∈ k.queuetab.toList (squeue s), (k.proctab p).prstate = .PR_WAIT ∧ (k.proctab p).prsem = s
  free : (k.semtab s).sstate = .S_FREE → k.queuetab.toList (squeue s) = []
  /-- The queue holds the waits that are not over, in the order of the calls, and what is positive of the count are the units
  that no wait has used. -/
  state : ∃ σ, Semaphore.after (semHistory s k.log) = some σ ∧ k.queuetab.toList (squeue s) = σ.waiting ∧
    ((k.semtab s).sstate = .S_USED → (σ.free.length : Int) = max 0 (k.semtab s).scount)
  /-- Whoever a signal released had waited longest. -/
  fifo : ∀ p l₁ l₂, semHistory s k.log = l₂ ++ .release p :: l₁ →
    ∃ σ, Semaphore.after l₁ = some σ ∧ σ.waiting.head? = some p
  /-- At every point of the past, the waits that had gone through since the count was assigned had used different units, the
  first of those there had been. -/
  units : ∀ l₁ l₂, semHistory s k.log = l₂ ++ l₁ → ∃ σ, Semaphore.after l₁ = some σ ∧
    σ.grants.map Prod.fst = Semaphore.granted l₁ ∧ (σ.grants.map Prod.snd).Nodup ∧
    σ.grants.map Prod.snd ++ σ.free = Semaphore.tokens σ.given σ.signals

/-- What an event does to the semaphore `s`: its system call, and the records `new` that it adds to the history. -/
structure SemaphoreStep {C : Client} (s : Int) (m : Machine C) (e : Event C) (new : List (Semaphore.Ev Int))
    (m' : Machine C) : Prop where
  history : semHistory s m'.k.log = new ++ semHistory s m.k.log
  /-- `wait` refuses exactly what is no semaphore, and then changes nothing. -/
  refused : ∀ t, m.issued e = some (.wait t) → isbadsem t = true ∨ (m.k.semtab t).sstate = .S_FREE →
    m'.k = m.k ∧ m'.Returns m.k.currpid SYSERR
  /-- A wait goes through at once when the count is positive. -/
  passed : m.issued e = some (.wait s) → (m.k.semtab s).sstate = .S_USED → 0 < (m.k.semtab s).scount →
    new = [.pass m.k.currpid] ∧ m'.k.currpid = m.k.currpid ∧ m'.Returns m.k.currpid OK
  /-- Else its caller waits; it is to return `OK` when it runs again. -/
  blocked : m.issued e = some (.wait s) → (m.k.semtab s).sstate = .S_USED → (m.k.semtab s).scount ≤ 0 →
    new = [.block m.k.currpid] ∧ m'.k.Waits s m.k.currpid ∧ m'.Returns m.k.currpid OK
  signal : m.issued e = some (.signal s) → (m.k.semtab s).sstate = .S_USED → new.count .signal = 1
  signaln : ∀ n, m.issued e = some (.signaln s n) → (m.k.semtab s).sstate = .S_USED → 0 ≤ int32 n →
    (new.count .signal : Int) = int32 n
  semreset : ∀ n, m.issued e = some (.semreset s n) → (m.k.semtab s).sstate = .S_USED → 0 ≤ int32 n →
    new.head? = some (.reset (int32 n).toNat)
  semdelete : m.issued e = some (.semdelete s) → (m.k.semtab s).sstate = .S_USED → new.head? = some .delete
  semcreate : ∀ n, m.issued e = some (.semcreate n) → m'.Returns m.k.currpid s → new = [.create (int32 n).toNat]
  /-- Nothing is recorded but what the system call does, and the victim of a `kill`. -/
  only : ∀ ev ∈ new, (∃ c, m.issued e = some c ∧ c.adds s m.k.currpid ev) ∨
    ∃ pid, m.removes e = some pid ∧ ev = .cancel pid
  /-- A process that waits does not run: its wait does not return before it is released, flushed or killed. -/
  still : ∀ p, m.k.Waits s p → p ≠ m.k.currpid ∧ (m'.context p = m.context p ∨ m.removes e = some p ∧ m'.context p = []) ∧
    (m'.k.Waits s p ∨ .release p ∈ new ∨ .flush p ∈ new ∨ .cancel p ∈ new)

theorem Steady.semaphoreOk {C : Client} {m : Machine C} {h : Kernel QLists} (St : Steady m h) {s : Int}
    (hs : isbadsem s = false) {σ : Semaphore.State Int} (T : Tracks h s σ) : SemaphoreOk m.k s := by
  obtain ⟨hproc, _, hsem, _, hlog, _⟩ := St.sim.fields
  have hlist : m.k.queuetab.toList (squeue s) = σ.waiting := (St.sim.toList_eq (isHead_squeue hs)).trans T.waiting
  refine ⟨fun hu hc => ?_, fun hu hc => ?_, fun p hp => ?_, fun hf => ?_, ⟨σ, ?_, hlist, fun hu => ?_⟩, fun p l₁ l₂ e => ?_,
    fun l₁ l₂ e => ?_⟩
  · rw [hsem] at hu hc
    rw [hlist, T.empty hu hc]
  · rw [hsem] at hu hc ⊢
    rw [hlist, (T.used_of_waiting (T.nonempty hu hc)).2.2, Int.neg_neg]
  · rw [hlist, ← T.waiting, St.inv.mem] at hp
    rw [hproc]
    exact (homeOf_squeue hs).mp hp
  · rw [hsem] at hf
    refine hlist.trans (T.idle ?_)
    by_contra hn
    have := T.used.mpr (by simpa using hn)
    rw [hf] at this
    cases this
  · rw [hlog]
    exact T.after
  · rw [hsem] at hu ⊢
    have hcount := T.count (T.is_used hu)
    by_cases hw : σ.waiting = []
    · rw [hw, List.length_nil] at hcount
      omega
    · rw [T.low hw] at hcount ⊢
      simp only [List.length_nil] at hcount ⊢
      omega
  · exact Semaphore.release_head (e ▸ hlog ▸ T.after)
  · obtain ⟨σ₁, h1⟩ := Semaphore.after_suffix (e ▸ hlog ▸ T.after)
    have B := Semaphore.after_balanced h1
    exact ⟨σ₁, h1, B.waits, B.tokens_nodup, B.units⟩

section

variable {C : Client} {m m' : Machine C} {e : Event C} {h h' : Kernel QLists} {s : Int}

theorem Steady.waits_of_mem (St : Steady m h) (hs : isbadsem s = false) {σ : Semaphore.State Int} (T : Tracks h s σ) (p : Int) :
    m.k.Waits s p ↔ p ∈ σ.waiting := by
  rw [St.waits_iff hs, T.waiting]

/-- The range of a count in use. -/
theorem Steady.count_range (St : Steady m h) {σ : Semaphore.State Int} (T : Tracks h s σ)
    (hu : (m.k.semtab s).sstate = .S_USED) :
    int32 ((m.k.semtab s).scount - 1) = (m.k.semtab s).scount - 1 := by
  obtain ⟨_, _, hsem, _⟩ := St.sim.fields
  rw [hsem] at hu ⊢
  obtain ⟨h1, h2⟩ := T.low_count St.inv.toInv0 hu
  exact int32_of_range (by omega) (by omega)

/-- What an event does to a semaphore. -/
theorem Does.semaphoreStep (D : Does m e h m' h') (St : Steady m h) (St' : Steady m' h') (hstep : m.step e = some m')
    (hs : isbadsem s = false) {σ σ' : Semaphore.State Int} (T : Tracks h s σ) (T' : Tracks h' s σ') :
    ∃ new, SemaphoreStep s m e new m' := by
  obtain ⟨new, hnew, honly⟩ := D.adds St St' hs
  have hafter : Semaphore.after (semHistory s m.k.log) = some σ := St.sim.fields.2.2.2.2.1 ▸ T.after
  have hafter' : Semaphore.after (new ++ semHistory s m.k.log) = some σ' := hnew ▸ St'.sim.fields.2.2.2.2.1 ▸ T'.after
  -- the records of a call
  have hcall : ∀ {c : Call} {l : List (Semaphore.Ev Int)}, m.issued e = some c →
      semHistory s (m.k.call c).1.log = l ++ semHistory s m.k.log → new = l := by
    intro c l hi hl
    rw [(D.call_enters hi).1, hl] at hnew
    exact (List.append_cancel_right hnew).symm
  have hreturns : ∀ {c : Call} {v : Int}, m.issued e = some c → (m.k.call c).2 = .ret v → m'.Returns m.k.currpid v := by
    intro c v hi hv
    obtain ⟨rest, hr⟩ := (D.call_enters hi).2
    exact ⟨rest, hv ▸ hr⟩
  refine ⟨new, hnew, fun t hi hbad => ?_, fun hi hu hc => ?_, fun hi hu hc => ?_, fun hi hu => ?_, fun n hi hu hn => ?_,
    fun n hi hu hn => ?_, fun hi hu => ?_, fun n hi hr => ?_, honly, fun p hw => ⟨?_, ?_, ?_⟩⟩
  · have hwait : m.k.call (.wait t) = (m.k, .ret SYSERR) := wait_refused hbad
    exact ⟨(D.call_enters hi).1.trans (congrArg Prod.fst hwait), hreturns hi (congrArg Prod.snd hwait)⟩
  · have hrange := St.count_range T hu
    obtain ⟨h1, h2, h3⟩ := wait_passed hs hu (by omega)
    exact ⟨hcall hi h1, (congrArg Kernel.currpid (D.call_enters hi).1).trans h2, hreturns hi h3⟩
  · have hrange := St.count_range T hu
    obtain ⟨h1, h2⟩ := wait_blocked hs hu (by omega)
    obtain rfl := hcall (l := [.block m.k.currpid]) hi h1
    refine ⟨rfl, ?_, hreturns hi h2⟩
    rw [St'.waits_of_mem hs T']
    obtain ⟨σ₁, e1, e2⟩ := Option.bind_eq_some_iff.mp
      (show (Semaphore.after (semHistory s m.k.log)).bind _ = some σ' from hafter')
    simp only [Semaphore.State.step] at e2
    split at e2
    · obtain rfl := Option.some.inj e2
      exact List.mem_append_right _ (List.mem_singleton_self _)
    · cases e2
  · obtain ⟨l, h1, h2, _⟩ := signal_history hs hu
    rw [hcall hi h1, h2]
  · obtain ⟨l, h1, h2, _⟩ := signaln_history hs hu hn
    rw [hcall hi h1, h2]
  · obtain ⟨l, h1, _⟩ := semreset_history hs hu hn
    rw [hcall hi h1]
    rfl
  · obtain ⟨l, h1, _⟩ := semdelete_history hs hu
    rw [hcall hi h1]
    rfl
  · obtain ⟨rest, hr⟩ := hr
    obtain ⟨rest', hr'⟩ := (D.call_enters hi).2
    have hv : (m.k.call (.semcreate n)).2 = .ret s :=
      Frame.kernel.inj (List.cons.inj (hr'.symm.trans hr)).1
    rcases semcreate_history (k := m.k) hs n with ⟨_, hne⟩ | ⟨h1, _⟩
    · exact absurd hv hne
    · exact hcall hi h1
  · rintro rfl
    exact St.current_not_waiting hw
  · exact Machine.step_context hstep (fun hp => St.current_not_waiting (hp ▸ hw))
  · rw [St'.waits_of_mem hs T']
    exact Semaphore.after_waiting hafter hafter' ((St.waits_of_mem hs T p).mp hw)

end

/-- In every reachable state every semaphore's entry, queue and history agree, as long as no count has been raised past the
largest integer, and every event does to the semaphore what `SemaphoreStep` says. -/
theorem semaphore_invariant {C : Client} (data : C.Data) (minheap maxheap : Nat) {m : Machine C}
    (r : Machine.Reach Machine.Lawful (boot C data minheap maxheap) m) (hfit : CountsFit m.k.log) {s : Int}
    (hs : isbadsem s = false) : SemaphoreOk m.k s ∧ ∀ e m', m.Lawful e → m.step e = some m' → CountsFit m'.k.log →
      ∃ new, SemaphoreStep s m e new m' := by
  obtain ⟨h, St, H⟩ := reach_keeps (fun _ _ hok => hok) (tracked_stable hs) (fun _ _ H => H.takeMsg)
    (boot_steady data minheap maxheap) (tracked_boot s minheap maxheap) r
  obtain ⟨σ, T⟩ := H (fun c hm => hfit s c (St.sim.fields.2.2.2.2.1 ▸ hm))
  refine ⟨St.semaphoreOk hs T, fun e m' hlaw hstep hfit' => ?_⟩
  obtain ⟨h', St', D⟩ := step_does St hstep hlaw
  obtain ⟨σ', T'⟩ := D.keeps (tracked_stable hs) (fun _ _ H => H.takeMsg) St.inv H
    (fun c hm => hfit' s c (St'.sim.fields.2.2.2.2.1 ▸ hm))
  exact D.semaphoreStep St St' hstep hs T T'

/-- A process waits twice on a semaphore of count one, blocks the second time, and is released. -/
def waitTwice : List (Event Client.none) :=
  [.call (.semcreate 1), .cont, .call (.create 400 20), .cont, .call (.resume 1), .call (.wait 0), .cont, .call (.wait 0),
    .cont, .call (.signal 0)]

/-- The invariant in a run in which a wait goes through, another blocks, and a signal releases it. -/
theorem semaphore_invariant_wait_twice :
    ∃ m, Machine.Reach Machine.Lawful (boot Client.none () 4096 1048576) m ∧ CountsFit m.k.log ∧
      semHistory 0 m.k.log = [.release 1, .signal, .block 1, .pass 1, .create 1] ∧ SemaphoreOk m.k 0 ∧
      ∀ e m', m.Lawful e → m.step e = some m' → CountsFit m'.k.log → ∃ new, SemaphoreStep 0 m e new m' := by
  obtain ⟨m, r, hf⟩ := Machine.reach_of_evaluates Forcing.plain Machine.Lawful (boot Client.none () 4096 1048576) waitTwice
    (fun m => decide (CountsFit m.k.log ∧ semHistory 0 m.k.log = [.release 1, .signal, .block 1, .pass 1, .create 1]))
    (by decide +kernel)
  obtain ⟨hfit, hist⟩ := of_decide_eq_true hf
  exact ⟨m, r, hfit, hist, semaphore_invariant () 4096 1048576 r hfit (s := 0) (by decide)⟩

end Xinu
