import Xinu.Kernel.Sleepers
import Xinu.Theorems.ProcessLists

/-!
# Sleeping processes in every run

A process that calls `sleepms` or `recvtime` is woken in the handling of the tick that ends its delay, neither earlier nor
later, in every run in which no clock tick arrives while a process sleeps that called `recvtime` with a delay of zero.
`clkhandler` tests whether the key it has decremented is zero, so a tick that finds a key of zero passes it by.
-/

namespace Xinu

open Kernel

/-- Whoever has gone to sleep and not been woken or taken out is on `sleepq`, and nobody else is. Nobody sleeps past the end of its
delay, and whoever was woken was woken in the handling of the tick that ended its delay. A delay of zero ends at the first tick. -/
structure SleepLaw (k : Kernel QueueTab) : Prop where
  asleep : ∀ p ∈ k.queuetab.toList sleepq, ∃ d n, nap p k.log = some (d, n) ∧ (n : Int) < max d 1
  napping : ∀ p, nap p k.log ≠ none → p ∈ k.queuetab.toList sleepq
  woken : ∀ p l₁ l₂, k.log = l₂ ++ .woken p :: l₁ → (∃ d n, nap p l₁ = some (d, n) ∧ (n : Int) = max d 1) ∧ InTick l₁

/-- No clock tick arrives while a process is on `sleepq` whose delay was zero. -/
def Machine.NoZeroNap {C : Client} (m : Machine C) : Event C → Prop
  | .tick => ∀ p ∈ m.k.queuetab.toList sleepq, nap p m.k.log ≠ some (0, 0)
  | _ => True

instance {C : Client} (m : Machine C) (e : Event C) : Decidable (m.NoZeroNap e) :=
  match e with
  | .tick => inferInstanceAs (Decidable (∀ p ∈ m.k.queuetab.toList sleepq, nap p m.k.log ≠ some (0, 0)))
  | .call _ | .op _ | .ret | .cont => isTrue trivial

theorem Call.kinds_clock (c : Call) : ∀ κ ∈ c.kinds, κ ≠ .tick ∧ κ ≠ .woken := by
  cases c <;> simp [Call.kinds]

section

variable {C : Client} {m m' : Machine C} {e : Event C} {h h' : Kernel QLists}

/-- An event keeps the delta list in order, if no delay of zero meets a tick. -/
theorem Does.sleepers (d : Does m e h m' h') (St : Steady m h) (hz : m.NoZeroNap e) (H : Sleepers Early h.queuetab h.log) :
    Sleepers Early h'.queuetab h'.log := by
  cases d with
  | call c d l rest hi hr hk a => exact sleepers_stable.acts St.inv c.kinds_clock a H
  | inside | back | closed | stop => exact H
  | tick he t a hw =>
    subst he
    have hD : Due h := H.not_due (fun p hp => by
      have hp' : p ∈ m.k.queuetab.toList sleepq := St.sim.toList_eq isHead_sleepq ▸ hp
      exact St.sim.fields.2.2.2.2.1 ▸ hz p hp')
    cases t with
    | tick =>
      have H₁ := H.tick hD (St.inv.nodup _)
      have H₂ := sleepers_clock_stable.acts ((Act.plain Change.tick).inv St.inv) (fun _ hκ => hκ) a ⟨H₁, trivial⟩
      exact H₂.1.early (hw hD)
  | take => exact H.note rfl
  | killEnd pid i rest hs hi hk a => exact sleepers_stable.acts St.inv (by simp) (Acts.killEnd a) H

end

/-- The law of sleeping in every reachable state. -/
theorem sleep_law {C : Client} (data : C.Data) (minheap maxheap : Nat) {m : Machine C}
    (r : Machine.Reach (fun m e => m.Lawful e ∧ m.NoZeroNap e) (boot C data minheap maxheap) m) : SleepLaw m.k := by
  have hrun : ∃ h, Steady m h ∧ Sleepers Early h.queuetab h.log := by
    induction r with
    | refl =>
      refine ⟨_, boot_steady data minheap maxheap, fun p hp => ?_, fun x hx => ?_, trivial, fun p hp => absurd rfl hp⟩
      · cases hp
      · cases hx
    | step e _ hok hs ih =>
      obtain ⟨h, St, H⟩ := ih
      obtain ⟨h', St', d⟩ := step_does St hs hok.1
      exact ⟨h', St', d.sleepers St hok.2 H⟩
  obtain ⟨h, St, H⟩ := hrun
  have hlog := St.sim.fields.2.2.2.2.1
  refine ⟨fun p hp => ?_, fun p hp => ?_, fun p l₁ l₂ e => ?_⟩
  · rw [St.sim.toList_eq isHead_sleepq] at hp
    obtain ⟨x, hx⟩ := Delta.exists_time h.queuetab.key 0 hp
    obtain ⟨d, n, h1, _, _, h4⟩ := H.due _ hx
    refine ⟨d, n, hlog ▸ h1, ?_⟩
    rcases h4 with h4 | ⟨rfl, rfl⟩
    · omega
    · decide
  · rw [St.sim.toList_eq isHead_sleepq]
    exact H.napping p (hlog ▸ hp)
  · rw [hlog] at e
    exact Punctual.of_split (e ▸ H.punctual)

/-- A process sleeps for two ticks. -/
def sleepTwo : List (Event Client.none) :=
  [.call (.create 400 20), .cont, .call (.resume 1), .call (.sleepms 2), .cont, .tick, .tick]

/-- The law in a run in which a process sleeps for two ticks and is woken. -/
theorem sleep_law_two_ticks :
    ∃ m, Machine.Reach (fun m e => m.Lawful e ∧ m.NoZeroNap e) (boot Client.none () 4096 1048576) m ∧
      Obs.woken 1 ∈ m.k.log ∧ SleepLaw m.k := by
  obtain ⟨m, r, hf⟩ := Machine.reach_of_evaluates Forcing.plain (fun m e => m.Lawful e ∧ m.NoZeroNap e)
    (boot Client.none () 4096 1048576) sleepTwo (fun m => decide (Obs.woken 1 ∈ m.k.log))
    (by decide +kernel)
  exact ⟨m, r, of_decide_eq_true hf, sleep_law () 4096 1048576 r⟩

/-- A process that calls `recvtime` with a delay of zero is still on `sleepq` after the first tick. -/
theorem sleep_law_recvtime_zero :
    ∃ m, Machine.Reach Machine.Lawful (boot Client.none () 4096 1048576) m ∧ ¬SleepLaw m.k := by
  obtain ⟨m, r, hf⟩ := Machine.reach_of_evaluates Forcing.plain Machine.Lawful (boot Client.none () 4096 1048576)
    [.call (.create 400 20), .cont, .call (.resume 1), .call (.recvtime 0), .cont, .tick]
    (fun m => decide (1 ∈ m.k.queuetab.toList sleepq) && decide (nap 1 m.k.log = some (0, 1)))
    (by decide +kernel)
  simp only [Bool.and_eq_true, decide_eq_true_eq] at hf
  refine ⟨m, r, fun H => ?_⟩
  obtain ⟨d, n, h1, h2⟩ := H.asleep 1 hf.1
  rw [hf.2] at h1
  obtain ⟨rfl, rfl⟩ := Prod.mk.inj (Option.some.inj h1)
  revert h2
  decide

end Xinu
