import Xinu.Message.PortFlow

/-!
# Counting the messages of a port

`Flow` holds of every port in use, in every run in which nobody is removed inside a routine of the ports and `ptseq` does not come
round to a value that a routine in progress has seen.
-/

namespace Xinu

open Port

/-- The semaphores of a port in use count: that of the receivers the messages in the queue, with the routines behind `wait`, and that of
the senders the room in the queue. Without the latter, nothing is sent. -/
structure Port.Flow (m : Machine ports) (p : Int) : Prop where
  receive : isbadsem (m.data.porttab p).ptrsem = false →
    Kept m (m.data.porttab p).ptrsem (Point.receives p (m.data.porttab p).ptseq) ∧
      m.units (m.data.porttab p).ptrsem (Point.receives p (m.data.porttab p).ptseq) = m.data.queued p
  send : isbadsem (m.data.porttab p).ptssem = false →
    Kept m (m.data.porttab p).ptssem (Point.sends p (m.data.porttab p).ptseq) ∧
      ∃ n : Int, (n = m.data.count p ∨ n = (m.data.porttab p).ptmaxcnt) ∧
        m.units (m.data.porttab p).ptssem (Point.sends p (m.data.porttab p).ptseq) + m.data.queued p = n
  bound : m.data.queued p ≤ MAXCOUNT
  unsent : isbadsem (m.data.porttab p).ptssem = true → m.data.queued p = 0

namespace Port

section Deals

open Ports

variable {d : Ports} {p : Int} {f : Option Point} {x : Ports × Next Point}

theorem queued_enqueue (d : Ports) (p : Int) (msg : Nat) : (d.enqueue p msg).queued p = d.queued p + 1 := by
  obtain ⟨_, _, _, henq, _, _, hdeq, _, _⟩ := enqueue_fields d p msg
  rw [Ports.queued, Ports.queued, henq, hdeq, Function.update_self, List.length_append, List.length_singleton]
  omega

theorem queued_dequeue (d : Ports) (p : Int) : (d.dequeue p).queued p = d.queued p - 1 := by
  obtain ⟨_, _, _, hdeq⟩ := dequeue_fields d p
  have henq : (d.dequeue p).enqueued = d.enqueued := rfl
  rw [Ports.queued, Ports.queued, hdeq, henq, Function.update_self, List.length_append, List.length_singleton]
  omega

/-- The semaphores, the sequence number and the size of a port in use remain. -/
structure SameUse (d b : Ports) (p : Int) : Prop where
  ssem : (b.porttab p).ptssem = (d.porttab p).ptssem
  rsem : (b.porttab p).ptrsem = (d.porttab p).ptrsem
  seq : (b.porttab p).ptseq = (d.porttab p).ptseq
  maxcnt : (b.porttab p).ptmaxcnt = (d.porttab p).ptmaxcnt
  count : b.count p = d.count p

theorem Ports.SamePort.use {b : Ports} (h : SamePort d b p) : SameUse d b p :=
  ⟨by rw [h.entry], by rw [h.entry], by rw [h.entry], by rw [h.entry], h.count⟩

theorem Ports.Deal.use (h : Deal d p f x) : SameUse d x.1 p := by
  cases h with
  | idle hs => exact hs.use
  | asksSend hf hx | asksReceive hf hx =>
    rw [hx]
    exact (SamePort.refl d p).use
  | @sends msg hf hgood hx =>
    rw [hx]
    obtain ⟨_, _, htab, _, _, hcount, _, _, _⟩ := enqueue_fields d p msg
    refine ⟨?_, ?_, ?_, ?_, congrFun hcount p⟩ <;>
    · rw [htab, Function.update_self]
      split <;> rfl
  | receives hf hgood hx =>
    rw [hx]
    obtain ⟨_, _, htab, _⟩ := dequeue_fields d p
    refine ⟨?_, ?_, ?_, ?_, rfl⟩ <;>
    · rw [htab, Function.update_self]
      split <;> rfl

/-- What a piece of a routine does to one of the semaphores, and to the routines behind `wait` for it. -/
structure Gain (t : Int) (P : Point → Bool) (f : Option Point) (x : Ports × Next Point) (n : Int) : Prop where
  calls : ∀ c g, x.2 = .call c g → (c ≠ .semdelete t ∧ ∀ n, c ≠ .semreset t n) ∧ (c = .wait t → P g = true)
  gain : x.2.signals t - x.2.waits t + x.2.routine.toList.countP P - f.toList.countP P = n
  signals : 0 ≤ x.2.signals t ∧ x.2.signals t ≤ 1 ∧ (x.2.signals t = 1 → n = 1)

/-- The call is not for the semaphore. -/
theorem Gain.untouched {t : Int} {P : Point → Bool} (hc : ∀ c g, x.2 = .call c g → c.touches t = false)
    (hf : f.toList.countP P = 0) (hg : x.2.routine.toList.countP P = 0) : Gain t P f x 0 := by
  have hzero : x.2.signals t = 0 ∧ x.2.waits t = 0 := by
    obtain ⟨b, v | ⟨c, g⟩ | g | s⟩ := x
    · exact ⟨rfl, rfl⟩
    · exact Call.untouched (hc c g rfl)
    · exact ⟨rfl, rfl⟩
    · exact ⟨rfl, rfl⟩
  refine ⟨fun c g hx => ?_, ?_, ?_⟩
  · have h := hc c g hx
    refine ⟨⟨?_, fun n => ?_⟩, ?_⟩ <;>
    · rintro rfl
      simp [Call.touches] at h
  · rw [hzero.1, hzero.2, hf, hg]
    rfl
  · rw [hzero.1]
    exact ⟨Int.le_refl 0, by decide, fun h => absurd h (by decide)⟩

theorem countP_toList_eq_zero {P : Point → Bool} {o : Option Point} (h : ∀ g ∈ o, P g = false) : o.toList.countP P = 0 := by
  cases o with
  | none => rfl
  | some g => simp [h g rfl]

/-- The semaphore of the senders gains what the queue loses. -/
theorem Ports.Deal.sender (h : Deal d p f x) (hgood : isbadsem (d.porttab p).ptssem = false)
    (hne : (d.porttab p).ptrsem ≠ (d.porttab p).ptssem) :
    Gain (d.porttab p).ptssem (Point.sends p (d.porttab p).ptseq) f x (d.queued p - x.1.queued p) := by
  cases h with
  | idle hs hc hf hg =>
    rw [hs.queued, Int.sub_self]
    exact .untouched (fun c g hx => hc c g hx _ hgood (Or.inl rfl)) (countP_toList_eq_zero fun g hm => (hf g hm).1 hgood)
      (countP_toList_eq_zero fun g hm => (hg g hm).1)
  | @asksSend msg hf hx =>
    subst hf hx
    refine ⟨?_, ?_, ?_⟩
    · rintro c g ⟨⟩
      exact ⟨by simp, fun _ => decide_eq_true ⟨rfl, rfl⟩⟩
    · simp [Next.signals, Next.waits, Next.routine, Call.signals, Call.waits, Point.sends]
    · simp [Next.signals, Call.signals]
  | asksReceive hf hx =>
    subst hf hx
    rw [Int.sub_self]
    refine .untouched ?_ rfl rfl
    rintro c g ⟨⟩
    exact touches_other (fun _ => rfl) hne
  | @sends msg hf hgood' hx =>
    subst hf hx
    rw [queued_enqueue]
    refine ⟨?_, ?_, ?_⟩
    · rintro c g ⟨⟩
      simp
    · simp [Next.signals, Next.waits, Next.routine, Call.signals, Call.waits, Point.sends, hne]
    · simp [Next.signals, Call.signals, hne]
  | receives hf hgood' hx =>
    subst hf hx
    rw [queued_dequeue]
    refine ⟨?_, ?_, ?_⟩
    · rintro c g ⟨⟩
      simp
    · simp [Next.signals, Next.waits, Next.routine, Call.signals, Call.waits, Point.sends]
    · simp [Next.signals, Call.signals]

/-- The semaphore of the receivers gains what the queue gains. -/
theorem Ports.Deal.receiver (h : Deal d p f x) (hgood : isbadsem (d.porttab p).ptrsem = false)
    (hne : (d.porttab p).ptssem ≠ (d.porttab p).ptrsem) :
    Gain (d.porttab p).ptrsem (Point.receives p (d.porttab p).ptseq) f x (x.1.queued p - d.queued p) := by
  cases h with
  | idle hs hc hf hg =>
    rw [hs.queued, Int.sub_self]
    exact .untouched (fun c g hx => hc c g hx _ hgood (Or.inr rfl)) (countP_toList_eq_zero fun g hm => (hf g hm).2 hgood)
      (countP_toList_eq_zero fun g hm => (hg g hm).2)
  | @asksSend msg hf hx =>
    subst hf hx
    rw [Int.sub_self]
    refine .untouched ?_ rfl rfl
    rintro c g ⟨⟩
    exact touches_other (fun _ => rfl) hne
  | asksReceive hf hx =>
    subst hf hx
    refine ⟨?_, ?_, ?_⟩
    · rintro c g ⟨⟩
      exact ⟨by simp, fun _ => decide_eq_true ⟨rfl, rfl⟩⟩
    · simp [Next.signals, Next.waits, Next.routine, Call.signals, Call.waits, Point.receives]
    · simp [Next.signals, Call.signals]
  | @sends msg hf hgood' hx =>
    subst hf hx
    rw [queued_enqueue]
    refine ⟨?_, ?_, ?_⟩
    · rintro c g ⟨⟩
      simp
    · simp [Next.signals, Next.waits, Next.routine, Call.signals, Call.waits, Point.receives]
    · simp [Next.signals, Call.signals]
  | receives hf hgood' hx =>
    subst hf hx
    rw [queued_dequeue]
    refine ⟨?_, ?_, ?_⟩
    · rintro c g ⟨⟩
      simp
    · simp [Next.signals, Next.waits, Next.routine, Call.signals, Call.waits, Point.receives, hne]
    · simp [Next.signals, Call.signals, hne]

end Deals

section Flow

variable {m m' : Machine ports} {e : Event ports} {h h' : Kernel QLists} {p : Int} {x : Ports × Next Point}

/-- A port in use has a size, two different semaphores, and no fewer than no messages. -/
structure InUse (d : Ports) (p : Int) : Prop where
  apart : isbadsem (d.porttab p).ptssem = false → isbadsem (d.porttab p).ptrsem = false →
    (d.porttab p).ptssem ≠ (d.porttab p).ptrsem
  count : 0 ≤ d.count p ∧ d.count p ≤ MAXCOUNT
  maxcnt : (d.porttab p).ptmaxcnt ≤ 65535
  queued : 0 ≤ d.queued p

theorem InUse.ne {d : Ports} (U : InUse d p) (h : isbadsem (d.porttab p).ptssem = false ∨ isbadsem (d.porttab p).ptrsem = false) :
    (d.porttab p).ptssem ≠ (d.porttab p).ptrsem := by
  intro e
  rcases h with h | h
  · exact U.apart h (e ▸ h) e
  · exact U.apart (e ▸ h) h e

/-- The units of a semaphore of the port are no fewer than those of the routine that goes on. -/
theorem leaves_le_units {s : Int} {P : Point → Bool} (K : Kept m s P) (hs : m.step e = some m') (St : Steady m h) (T : AllTracked h) :
    (m.leaves P e : Int) ≤ m.units s P := by
  have h1 := leaves_le (P := P) (e := e) hs
  have h2 := K.units St (T s K.good)
  rw [Machine.units]
  omega

/-- A piece of a routine keeps the count of a semaphore of the port. -/
theorem Gain.units {s n : Int} {P : Point → Bool} (G : Gain s P ((m.resumed e).map Prod.fst) x n) (K : Kept m s P)
    (hs : m.step e = some m') (St : Steady m h) (T : AllTracked h) (St' : Steady m' h') (D : Does m e h m' h')
    (hx : m.segment e = some x) (hrun : ∀ d st, x ≠ (d, .stop st)) (huser : ∀ c, e = .call c → c.touches s = false)
    (hspare : ∀ pid ∈ m.removes e, routines (m.context pid) = []) (hmax : m.units s P ≤ MAXCOUNT ∧ m.units s P + n ≤ MAXCOUNT) :
    Kept m' s P ∧ m'.units s P = m.units s P + n := by
  have hle : (m.k.semtab s).scount ≤ m.units s P := by
    rw [Machine.units]
    omega
  have hM : MAXCOUNT = 2147483647 := rfl
  have hsig := G.signals
  have priv : m.Private s P e := by
    refine Machine.private_of_segments huser (fun pid hp => by rw [hspare pid hp]; rfl) (by omega) (fun d c f hc => ?_) fun y hy => ?_
    · rw [hx] at hc
      exact G.calls c f (congrArg Prod.snd (Option.some.inj hc))
    · obtain rfl := Option.some.inj (hx.symm.trans hy)
      refine ⟨hsig.1, by omega, ?_⟩
      by_cases hone : x.2.signals s = 1
      · have := hsig.2.2 hone
        omega
      · omega
  obtain ⟨K', hu⟩ := K.units_segment hs St (T s K.good) St' D priv hx hrun
  refine ⟨K', ?_⟩
  have hg := G.gain
  rw [hu, Machine.leaves]
  omega

/-- A piece of a routine, when the port is in use before and after it. -/
theorem Flow.segment (F : Flow m p) (hs : m.step e = some m') (St : Steady m h) (T : AllTracked h) (St' : Steady m' h')
    (D : Does m e h m' h') (hx : m.segment e = some x) (hrun : ∀ d st, x ≠ (d, .stop st))
    (deal : Ports.Deal m.data p ((m.resumed e).map Prod.fst) x) (hd : m'.data = x.1) (U : InUse m.data p) (hq : 0 ≤ x.1.queued p)
    (huser : ∀ s, isbadsem s = false → s = (m.data.porttab p).ptssem ∨ s = (m.data.porttab p).ptrsem →
      ∀ c, e = .call c → c.touches s = false)
    (hspare : ∀ pid ∈ m.removes e, routines (m.context pid) = []) : Flow m' p := by
  have hM : MAXCOUNT = 2147483647 := rfl
  have huse := deal.use
  have hcap : ∀ n : Int, (n = m.data.count p ∨ n = (m.data.porttab p).ptmaxcnt) → n ≤ MAXCOUNT := by
    have h1 := U.count
    have h2 := U.maxcnt
    omega
  have hq0 := U.queued
  -- the routine that puts a message into the queue has been let past `wait`
  have hbound : x.1.queued p ≤ MAXCOUNT := by
    cases deal with
    | idle hsame =>
      rw [hsame.queued]
      exact F.bound
    | asksSend _ hx' | asksReceive _ hx' =>
      rw [hx']
      exact F.bound
    | @sends msg hf hgood hx' =>
      obtain ⟨K, n, hn, hu⟩ := F.send hgood
      have hle := leaves_le_units K hs St T
      have hone : m.leaves (Point.sends p (m.data.porttab p).ptseq) e = 1 := by
        rw [Machine.leaves, hf]
        simp [Point.sends]
      rw [hx', queued_enqueue]
      have := hcap n hn
      omega
    | receives _ _ hx' =>
      rw [hx', queued_dequeue]
      have := F.bound
      omega
  have hunsent : isbadsem (m.data.porttab p).ptssem = true → x.1.queued p = 0 := by
    intro hbad
    have h0 := F.unsent hbad
    cases deal with
    | idle hsame => rw [hsame.queued, h0]
    | asksSend _ hx' | asksReceive _ hx' => rw [hx', h0]
    | sends _ hgood =>
      rw [hgood] at hbad
      cases hbad
    | receives _ _ hx' =>
      rw [hx', queued_dequeue] at hq
      omega
  refine ⟨fun hg => ?_, fun hg => ?_, by rw [hd]; exact hbound, by rw [hd, huse.ssem]; exact hunsent⟩
  · rw [hd, huse.rsem] at hg ⊢
    rw [huse.seq]
    obtain ⟨K, hu⟩ := F.receive hg
    have hF := F.bound
    obtain ⟨K', hu'⟩ := (deal.receiver hg (U.ne (Or.inr hg))).units K hs St T St' D hx hrun (huser _ hg (Or.inr rfl)) hspare (by omega)
    exact ⟨K', by omega⟩
  · rw [hd, huse.ssem] at hg ⊢
    rw [huse.seq, huse.maxcnt, huse.count]
    obtain ⟨K, n, hn, hu⟩ := F.send hg
    have hle := hcap n hn
    obtain ⟨K', hu'⟩ := (deal.sender hg (Ne.symm (U.ne (Or.inl hg)))).units K hs St T St' D hx hrun (huser _ hg (Or.inl rfl)) hspare
      (by omega)
    exact ⟨K', n, hn, by omega⟩

/-- An event in which no piece of a routine runs. -/
theorem Flow.quiet (F : Flow m p) (hs : m.step e = some m') (St : Steady m h) (T : AllTracked h) (St' : Steady m' h')
    (D : Does m e h m' h') (hn : m.segment e = none) (hd : m'.data = m.data) (U : InUse m.data p)
    (huser : ∀ s, isbadsem s = false → s = (m.data.porttab p).ptssem ∨ s = (m.data.porttab p).ptrsem →
      ∀ c, e = .call c → c.touches s = false)
    (hspare : ∀ pid ∈ m.removes e, routines (m.context pid) = []) : Flow m' p := by
  have hM : MAXCOUNT = 2147483647 := rfl
  have hq0 := U.queued
  have priv : ∀ {s : Int} {P : Point → Bool}, isbadsem s = false → s = (m.data.porttab p).ptssem ∨ s = (m.data.porttab p).ptrsem →
      m.units s P ≤ MAXCOUNT → m.Private s P e := by
    intro s P hg how hmax
    rw [Machine.units] at hmax
    refine Machine.private_of_segments (huser s hg how) (fun pid hp => by rw [hspare pid hp]; rfl) (by omega) ?_ ?_
    · intro d c f hc
      rw [hn] at hc
      cases hc
    · intro y hy
      rw [hn] at hy
      cases hy
  refine ⟨fun hg => ?_, fun hg => ?_, by rw [hd]; exact F.bound, by rw [hd]; exact F.unsent⟩
  · rw [hd] at hg ⊢
    obtain ⟨K, hu⟩ := F.receive hg
    obtain ⟨K', hu'⟩ := K.units_quiet hs St (T _ hg) St' D (priv hg (Or.inr rfl) (by rw [hu]; exact F.bound)) hn
    exact ⟨K', hu'.trans hu⟩
  · rw [hd] at hg ⊢
    obtain ⟨K, n, hn', hu⟩ := F.send hg
    have hle : m.units (m.data.porttab p).ptssem (Point.sends p (m.data.porttab p).ptseq) ≤ MAXCOUNT := by
      have h1 := U.count
      have h2 := U.maxcnt
      omega
    obtain ⟨K', hu'⟩ := K.units_quiet hs St (T _ hg) St' D (priv hg (Or.inl rfl) hle) hn
    exact ⟨K', n, hn', by rw [hu']; exact hu⟩

end Flow

end Port

end Xinu
