import Xinu.Kernel.Clock
import Xinu.Kernel.DeltaLists

/-!
# Sleeping processes

The log says how long ago a sleeping process went to sleep and for how long (`nap`). `Sleepers` says that the keys on the delta
list are the time that is left, and that every process that was woken was woken at the end of its delay. `Sleepers Early`
holds between events: nobody on the delta list is due. In the clock interrupt, behind the tick, `Sleepers Ticked` holds:
everybody has slept for a tick at least, and who is due is at the front.
-/

namespace Xinu

open Kernel

/-- The delay the process asked for when it went to sleep and the clock ticks since, while it sleeps. -/
def nap (p : Int) : List Obs → Option (Int × Nat)
  | [] => none
  | .slept q d :: l => if q = p then some (d, 0) else nap p l
  | .tick :: l => (nap p l).map (fun x => (x.1, x.2 + 1))
  | .woken q :: l => if q = p then none else nap p l
  | .unslept q :: l => if q = p then none else nap p l
  | _ :: l => nap p l

/-- Nothing but wakeups has been recorded since the last clock tick. -/
def InTick : List Obs → Prop
  | .tick :: _ => True
  | .woken _ :: l => InTick l
  | _ => False

/-- Every process that was woken was woken at the end of its delay, and at the first tick when the delay was zero, in the
handling of that tick. -/
def Punctual : List Obs → Prop
  | [] => True
  | .woken p :: l => ((∃ d n, nap p l = some (d, n) ∧ (n : Int) = max d 1) ∧ InTick l) ∧ Punctual l
  | _ :: l => Punctual l

/-- The records that concern no sleeping process. -/
def Obs.still : Obs → Bool
  | .slept .. | .tick | .woken _ | .unslept _ => false
  | _ => true

theorem nap_still {p : Int} {o : Obs} (ho : o.still = true) (l : List Obs) : nap p (o :: l) = nap p l := by
  cases o with
  | slept | tick | woken | unslept => cases ho
  | _ => rfl

theorem punctual_still {o : Obs} (ho : o.still = true) {l : List Obs} (H : Punctual l) : Punctual (o :: l) := by
  cases o with
  | slept | tick | woken | unslept => cases ho
  | _ => exact H

theorem Punctual.of_split {p : Int} {l₁ l₂ : List Obs} (H : Punctual (l₂ ++ .woken p :: l₁)) :
    (∃ d n, nap p l₁ = some (d, n) ∧ (n : Int) = max d 1) ∧ InTick l₁ := by
  induction l₂ with
  | nil => exact H.1
  | cons o l₂ ih =>
    refine ih ?_
    cases o with
    | woken q => exact H.2
    | _ => exact H

/-- Between events: the time is not over, or it is zero and there has been no tick. -/
def Early (d : Int) (n : Nat) : Prop := n < d ∨ n = 0 ∧ d = 0

/-- Behind the tick of the clock interrupt. -/
def Ticked (_ : Int) (n : Nat) : Prop := 1 ≤ n

/-- The delta list holds what is left of every delay, and `ok` holds of every delay and the time since. Nobody else sleeps. -/
structure Sleepers (ok : Int → Nat → Prop) (L : QLists) (log : List Obs) : Prop where
  nonneg : ∀ p ∈ L.ids sleepq, 0 ≤ L.key p
  due : ∀ x ∈ Delta.times L.key 0 (L.ids sleepq), ∃ d n, nap x.1 log = some (d, n) ∧ x.2 = d - n ∧ d ≤ MAXKEY ∧ ok d n
  punctual : Punctual log
  napping : ∀ p, nap p log ≠ none → p ∈ L.ids sleepq

namespace Sleepers

variable {ok ok' : Int → Nat → Prop} {L L' : QLists} {log : List Obs} {p : Int}

theorem undisturbed (H : Sleepers ok L log) (u : Undisturbed L L') : Sleepers ok L' log := by
  refine ⟨fun p hp => ?_, fun x hx => ?_, H.punctual, fun p hp => ?_⟩
  · rw [u.ids] at hp
    rw [u.key p hp]
    exact H.nonneg p hp
  · rw [u.ids, Delta.times_congr u.key] at hx
    exact H.due x hx
  · rw [u.ids]
    exact H.napping p hp

theorem note (H : Sleepers ok L log) {o : Obs} (ho : o.still = true) : Sleepers ok L (o :: log) := by
  refine ⟨H.nonneg, fun x hx => ?_, punctual_still ho H.punctual, fun p hp => H.napping p (nap_still ho log ▸ hp)⟩
  rw [nap_still ho]
  exact H.due x hx

theorem time_le (H : Sleepers ok L log) {x : Int × Int} (hx : x ∈ Delta.times L.key 0 (L.ids sleepq)) :
    0 ≤ x.2 ∧ x.2 ≤ MAXKEY := by
  obtain ⟨d, n, _, e, hd, _⟩ := H.due x hx
  exact ⟨Delta.times_ge H.nonneg x hx, by omega⟩

/-- The key of an entry is at most its time. -/
theorem key_le (H : Sleepers ok L log) {A B : List Int} (hl : L.ids sleepq = A ++ p :: B) :
    0 ≤ (A.map L.key).sum ∧ (A.map L.key).sum + L.key p ≤ MAXKEY := by
  have hA : 0 ≤ (A.map L.key).sum := Delta.sum_nonneg (fun q hq => H.nonneg q (by rw [hl]; simp [hq]))
  refine ⟨hA, ?_⟩
  have hx : (p, 0 + (A.map L.key).sum + L.key p) ∈ Delta.times L.key 0 (L.ids sleepq) := by
    rw [hl, Delta.times_append, Delta.times]
    simp
  have := (H.time_le hx).2
  simp only at this
  omega

/-- The keys that `passKey` leaves. -/
theorem passKey_key (H : Sleepers ok L log) (hn : (L.ids sleepq).Nodup) {A B : List Int} (hl : L.ids sleepq = A ++ p :: B) :
    (∀ q ∈ A, (L.passKey sleepq p).key q = L.key q) ∧ Delta.Shifted L.key (L.passKey sleepq p).key (L.key p) B := by
  refine ⟨(QLists.passKey_spec hn hl).1, QLists.passKey_shifted hn hl fun x xs e => ?_⟩
  subst e
  have hM : MAXKEY = 2147483647 := rfl
  have hm : MINKEY = -2147483648 := rfl
  have hA := (H.key_le hl).1
  have hb := (H.key_le (A := A ++ [p]) (p := x) (B := xs) (by rw [hl]; simp)).2
  have hx := H.nonneg x (by rw [hl]; simp)
  have hp := H.nonneg p (by rw [hl]; simp)
  simp only [List.map_append, List.map_cons, List.map_nil, List.sum_append, List.sum_cons, List.sum_nil] at hb
  constructor <;> omega

/-- A process is taken off the delta list before its time. -/
theorem leave (H : Sleepers ok L log) (hn : (L.ids sleepq).Nodup) (hp : p ∈ L.ids sleepq) :
    Sleepers ok ((L.passKey sleepq p).getitem p) (.unslept p :: log) := by
  obtain ⟨A, B, hl⟩ := List.append_of_mem hp
  obtain ⟨hA, hB⟩ := H.passKey_key hn hl
  have hn' := hl ▸ hn
  obtain ⟨_, hpB, hdisj⟩ := List.nodup_append.mp hn'
  have hpA : p ∉ A := fun hm => hdisj p hm p List.mem_cons_self rfl
  have hpass := QLists.passKey_ids L sleepq p
  have hids : ((L.passKey sleepq p).getitem p).ids sleepq = A ++ B :=
    QLists.getitem_ids (by rw [hpass]; exact hn) (by rw [hpass]; exact hl)
  have hne : ∀ q ∈ A ++ B, q ≠ p := by
    intro q hq e
    rw [e] at hq
    exact (List.mem_append.mp hq).elim hpA (List.nodup_cons.mp hpB).1
  refine ⟨fun q hq => ?_, fun x hx => ?_, H.punctual, fun q hq => ?_⟩
  · rw [hids] at hq
    show 0 ≤ (L.passKey sleepq p).key q
    have hold : ∀ q ∈ A ++ B, 0 ≤ L.key q := fun q hq => H.nonneg q (by
      rw [hl]
      exact (List.mem_append.mp hq).elim (fun h => List.mem_append_left _ h)
        (fun h => List.mem_append_right _ (List.mem_cons_of_mem _ h)))
    rcases List.mem_append.mp hq with hq' | hq'
    · rw [hA q hq']
      exact hold q hq
    · cases B with
      | nil => cases hq'
      | cons x B =>
        rcases List.mem_cons.mp hq' with rfl | hq''
        · rw [hB.1]
          have := hold q hq
          have := H.nonneg p (by rw [hl]; simp)
          omega
        · rw [hB.2 q hq'']
          exact hold q hq
  · rw [hids] at hx
    have hx' := Delta.times_remove hA hB x hx
    rw [← hl] at hx'
    obtain ⟨d, n, h1, h2⟩ := H.due x hx'
    refine ⟨d, n, ?_, h2⟩
    rw [nap, if_neg (fun e => hne x.1 (Delta.mem_of_time hx) e.symm)]
    exact h1
  · rw [nap] at hq
    split at hq
    · exact absurd rfl hq
    · next hpq =>
      have hm := H.napping q hq
      rw [hl, List.mem_append, List.mem_cons] at hm
      rw [hids, List.mem_append]
      exact hm.imp_right fun h => h.resolve_left (Ne.symm hpq)

/-- A process goes to sleep. -/
theorem sleep (H : Sleepers Early L log) (hn : (L.ids sleepq).Nodup) (hp : p ∉ L.ids sleepq) {d : Int} (h0 : 0 ≤ d)
    (h1 : d ≤ MAXKEY) : Sleepers Early (L.insertd p sleepq d) (.slept p d :: log) := by
  have hk : ∀ x ∈ L.ids sleepq, 0 ≤ L.key x ∧ L.key x ≤ MAXKEY := by
    intro x hx
    obtain ⟨A, B, hl⟩ := List.append_of_mem hx
    have := H.key_le hl
    exact ⟨H.nonneg x hx, by omega⟩
  obtain ⟨A, B, hi⟩ := QLists.insertd_spec hk hn hp h0 h1
  have hnapping : ∀ q, nap q (.slept p d :: log) ≠ none → q ∈ (L.insertd p sleepq d).ids sleepq := by
    intro q hq
    rw [hi.new, List.mem_append, List.mem_cons]
    rw [nap] at hq
    split at hq
    · next hpq => exact Or.inr (Or.inl hpq.symm)
    · have hm := H.napping q hq
      rw [hi.old, List.mem_append] at hm
      exact hm.imp_right Or.inr
  refine ⟨fun q hq => (hi.keys hk h1 q hq).1, fun x hx => ?_, H.punctual, hnapping⟩
  have hrest : x ∈ Delta.times L.key 0 (L.ids sleepq) →
      ∃ d' n, nap x.1 (.slept p d :: log) = some (d', n) ∧ x.2 = d' - n ∧ d' ≤ MAXKEY ∧ Early d' n := by
    intro hx
    have hne : p ≠ x.1 := fun e => hp (e ▸ Delta.mem_of_time hx)
    rw [nap, if_neg hne]
    exact H.due x hx
  rw [hi.old_times] at hrest
  rw [hi.times] at hx
  rcases List.mem_append.mp hx with hx | hx
  · exact hrest (List.mem_append_left _ hx)
  · rcases List.mem_cons.mp hx with rfl | hx
    · refine ⟨d, 0, by simp [nap], by simp, h1, ?_⟩
      by_cases hd : d = 0
      · exact Or.inr ⟨rfl, hd⟩
      · exact Or.inl (by omega)
    · exact hrest (List.mem_append_right _ hx)

/-- A tick, when nobody is due before it. -/
theorem tick (H : Sleepers Early L log) (hD : ∀ p rest, L.ids sleepq = p :: rest → 0 < L.key p ∧ L.key p ≤ MAXKEY)
    (hn : (L.ids sleepq).Nodup) : Sleepers Ticked (L.decFirst sleepq) (.tick :: log) := by
  have hM : MAXKEY = 2147483647 := rfl
  have hshift : Delta.Shifted L.key (L.decFirst sleepq).key (-1) (L.ids sleepq) := by
    unfold QLists.decFirst
    rcases hl : L.ids sleepq with _ | ⟨p, rest⟩
    · trivial
    · obtain ⟨h1, h2⟩ := hD p rest hl
      have hp := (List.nodup_cons.mp (hl ▸ hn)).1
      simp only [QLists.setKey_key]
      refine ⟨?_, fun q hq => Function.update_of_ne (ne_of_mem_of_not_mem hq hp) _ _⟩
      rw [Function.update_self, int32_of_range (by omega) (by omega)]
      omega
  have hids := congrFun (QLists.decFirst_ids L sleepq) sleepq
  refine ⟨fun q hq => ?_, fun x hx => ?_, H.punctual, fun q hq => ?_⟩
  · rw [hids] at hq
    rcases hl : L.ids sleepq with _ | ⟨p, rest⟩
    · rw [hl] at hq
      cases hq
    · rw [hl] at hshift hq
      rcases List.mem_cons.mp hq with rfl | hq'
      · rw [hshift.1]
        have := (hD q rest hl).1
        omega
      · rw [hshift.2 q hq']
        exact H.nonneg q (by rw [hl]; exact hq)
  · rw [hids, hshift.times_eq, Delta.times_add] at hx
    obtain ⟨y, hy, rfl⟩ := List.mem_map.mp hx
    obtain ⟨d, n, h1, h2, h3, _⟩ := H.due y hy
    refine ⟨d, n + 1, ?_, ?_, h3, Nat.le_add_left 1 n⟩
    · simp only [nap, h1, Option.map_some]
    · simp only
      omega
  · rw [hids]
    exact H.napping q fun hnone => hq (by rw [nap, hnone, Option.map_none])

/-- The first process is woken when its time is over. -/
theorem wake (H : Sleepers Ticked L log) {rest : List Int} (hn : (L.ids sleepq).Nodup) (hl : L.ids sleepq = p :: rest)
    (hk : L.key p ≤ 0) (ht : InTick log) : Sleepers Ticked (L.getitem p) (.woken p :: log) := by
  have hp0 : L.key p = 0 := by
    have := H.nonneg p (by rw [hl]; simp)
    omega
  have hpr : p ∉ rest := (List.nodup_cons.mp (hl ▸ hn)).1
  have hids : (L.getitem p).ids sleepq = rest := by
    show (L.ids sleepq).erase p = rest
    rw [hl, List.erase_cons_head]
  have htimes : Delta.times L.key 0 (L.ids sleepq) = (p, 0) :: Delta.times L.key 0 rest := by
    rw [hl, Delta.times, hp0]
    rfl
  refine ⟨fun q hq => ?_, fun x hx => ?_, ⟨?_, H.punctual⟩, fun q hq => ?_⟩
  · rw [hids] at hq
    exact H.nonneg q (by rw [hl]; exact List.mem_cons_of_mem _ hq)
  · rw [hids] at hx
    have hne : p ≠ x.1 := fun e => hpr (e ▸ Delta.mem_of_time hx)
    rw [nap, if_neg hne]
    exact H.due x (by rw [htimes]; exact List.mem_cons_of_mem _ hx)
  · obtain ⟨d, n, h1, h2, _, h4⟩ := H.due (p, 0) (by rw [htimes]; exact List.mem_cons_self)
    have h4' : 1 ≤ n := h4
    simp only at h2
    exact ⟨⟨d, n, h1, by omega⟩, ht⟩
  · rw [nap] at hq
    split at hq
    · exact absurd rfl hq
    · next hpq =>
      have hm := H.napping q hq
      rw [hl] at hm
      rw [hids]
      exact (List.mem_cons.mp hm).resolve_left (Ne.symm hpq)

/-- When nobody is due any more, everybody's time is not over. -/
theorem early (H : Sleepers Ticked L log) (hA : ∀ p rest, L.ids sleepq = p :: rest → 0 < L.key p) : Sleepers Early L log := by
  refine ⟨H.nonneg, fun x hx => ?_, H.punctual, H.napping⟩
  obtain ⟨d, n, h1, h2, h3, _⟩ := H.due x hx
  have hpos : 0 < x.2 := by
    rcases hl : L.ids sleepq with _ | ⟨p, rest⟩
    · rw [hl] at hx
      cases hx
    · have hp := hA p rest hl
      rw [hl, Delta.times] at hx
      rcases List.mem_cons.mp hx with rfl | hx
      · simp only
        omega
      · have := Delta.times_ge (fun q hq => H.nonneg q (by rw [hl]; exact List.mem_cons_of_mem _ hq)) x hx
        omega
  exact ⟨d, n, h1, h2, h3, Or.inl (by omega)⟩

/-- When nobody sleeps for no time at all, nobody is due. -/
theorem not_due (H : Sleepers Early L log) (hz : ∀ p ∈ L.ids sleepq, nap p log ≠ some (0, 0)) (p : Int) (rest : List Int)
    (hl : L.ids sleepq = p :: rest) : 0 < L.key p ∧ L.key p ≤ MAXKEY := by
  have hx : (p, L.key p) ∈ Delta.times L.key 0 (L.ids sleepq) := by
    rw [hl, Delta.times]
    simp
  obtain ⟨d, n, h1, h2, h3, h4⟩ := H.due _ hx
  simp only at h1 h2
  refine ⟨?_, by omega⟩
  rcases h4 with h4 | ⟨rfl, rfl⟩
  · omega
  · exact absurd h1 (hz p (by rw [hl]; simp))

end Sleepers

/-! ## The steps of the kernel -/

section Steps

variable {h g : Kernel QLists} {κ : Kind} {b : Bool} {ok : Int → Nat → Prop}

theorem Sleepers.notes {L : QLists} {log : List Obs} (H : Sleepers ok L log) {l : List Obs} (hl : ∀ o ∈ l, o.still = true) :
    Sleepers ok L (l ++ log) := by
  induction l with
  | nil => exact H
  | cons o l ih => exact (ih (fun o ho => hl o (List.mem_cons_of_mem _ ho))).note (hl o List.mem_cons_self)

/-- What the steps that leave the delta list alone record. -/
theorem Change.log_still (c : Change h κ b g) (hκ : κ.still = true) :
    ∃ l : List Obs, (∀ o ∈ l, o.still = true) ∧ g.log = l ++ h.log := by
  cases c with
  | aux | stop | deferStart | deferStop | resched | ready | resumed | suspend | suspendSelf | chprio | receive =>
    exact ⟨[], by simp, rfl⟩
  | created | killing | take | passed | blocked | signalled | flushed | flushedNone | semcreated | semreset
  | semdeleted => exact ⟨[_], by simp [Obs.still], rfl⟩
  | released | releasedNone => exact ⟨[_, _], by simp [Obs.still], rfl⟩
  | _ => cases hκ

theorem Change.sleepers_still (c : Change h κ b g) (I : Inv h) (hκ : κ.still = true) (H : Sleepers ok h.queuetab h.log) :
    Sleepers ok g.queuetab g.log := by
  obtain ⟨l, hl, e⟩ := c.log_still hκ
  rw [e]
  exact (H.undisturbed (c.undisturbed I hκ)).notes hl

/-- Every step but those of the clock keeps the delta list. -/
theorem Change.sleepers (c : Change h κ b g) (I : Inv h) (hκ : κ ≠ .tick ∧ κ ≠ .woken)
    (H : Sleepers Early h.queuetab h.log) : Sleepers Early g.queuetab g.log := by
  by_cases hs : κ.still = true
  · exact c.sleepers_still I hs H
  have hmem : ∀ {p : Int}, (h.proctab p).prstate = .PR_SLEEP ∨ (h.proctab p).prstate = .PR_RECTIM →
      p ∈ h.queuetab.ids sleepq := fun {p} hp => (I.mem p _).mpr ((homeOf_sleepq (I.sem p)).mpr hp)
  cases c with
  | stkfreed p => exact H.note rfl
  | deposit p msg => exact H.note rfl
  | depositRecv p msg hm hp =>
    have hout := I.not_asleep (p := p) (by rw [hp]; decide) (by rw [hp]; decide)
    exact (H.undisturbed (Undisturbed.insert hout _)).note rfl
  | depositRectim p msg hm hp =>
    have H' := (H.note (o := .sent p msg) rfl).leave (I.nodup _) (hmem (Or.inr hp))
    have hout : p ∉ ((h.queuetab.passKey sleepq p).getitem p).ids sleepq := by
      show p ∉ ((h.queuetab.passKey sleepq p).ids sleepq).erase p
      rw [QLists.passKey_ids]
      exact (I.nodup sleepq).not_mem_erase
    exact H'.undisturbed (Undisturbed.insert hout _)
  | sleep st d hst h1 h2 hb => exact H.sleep (I.nodup _) (I.not_mem I.currpid_home _) h1 h2
  | freed p | freedSelf => exact H.note rfl
  | freedReady p h0 hp =>
    exact (H.undisturbed (Undisturbed.getitem (I.not_asleep (by rw [hp]; decide) (by rw [hp]; decide)))).note rfl
  | freedAsleep p hp => exact (H.leave (I.nodup _) (hmem hp)).note rfl
  | freedWaiting p s hp =>
    exact ((H.undisturbed (Undisturbed.getitem (I.not_asleep (p := p) (by rw [hp]; decide) (by rw [hp]; decide)))).note
      (o := .unwaited s p) rfl).note rfl
  | tick => exact absurd rfl hκ.1
  | woken => exact absurd rfl hκ.2
  | _ => exact absurd rfl hs

theorem Change.log_quiet (c : Change h .quiet b g) : g.log = h.log := by
  cases c <;> rfl

/-- The steps of the clock interrupt behind the tick. -/
theorem Change.sleepers_clock (c : Change h κ b g) (I : Inv h) (hκ : κ ∈ [Kind.quiet, .woken])
    (H : Sleepers Ticked h.queuetab h.log ∧ InTick h.log) : Sleepers Ticked g.queuetab g.log ∧ InTick g.log := by
  simp only [List.mem_cons, List.not_mem_nil, or_false] at hκ
  rcases hκ with rfl | rfl
  · exact ⟨c.sleepers_still I rfl H.1, c.log_quiet ▸ H.2⟩
  · cases c with
    | woken p rest hl hk =>
      have H' := H.1.wake (I.nodup _) hl hk H.2
      refine ⟨H'.undisturbed (Undisturbed.insert ?_ _), H.2⟩
      exact (I.nodup sleepq).not_mem_erase

theorem sleepers_resched (I : Inv0 h) (H : Sleepers ok h.queuetab h.log) : Sleepers ok h.resched.queuetab h.resched.log := by
  rw [I.resched_only.log]
  exact H.undisturbed (Undisturbed.resched I)

/-- Between events the delta list is in order from step to step, but for the clock. -/
theorem sleepers_stable : Stable (fun κ => κ ≠ .tick ∧ κ ≠ .woken) (fun _ h => Sleepers Early h.queuetab h.log) :=
  ⟨fun I hκ c H => c.sleepers I hκ H, fun T H => sleepers_resched T.toInv0 H⟩

/-- The same in the clock interrupt, behind the tick. -/
theorem sleepers_clock_stable : Stable (fun κ => κ ∈ [.quiet, .woken])
    (fun _ h => Sleepers Ticked h.queuetab h.log ∧ InTick h.log) :=
  ⟨fun I hκ c H => c.sleepers_clock I hκ H, fun T H =>
    ⟨sleepers_resched T.toInv0 H.1, T.toInv0.resched_only.log ▸ H.2⟩⟩

end Steps

end Xinu
