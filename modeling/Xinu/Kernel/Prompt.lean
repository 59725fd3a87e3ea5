import Xinu.Kernel.Counting
import Mathlib.Data.List.Chain

/-!
# Calls that return at once

The value that a system call returns may be fixed when it is made, though the process runs again much later (`Replied.step`). A call
that does not block, such as `semcreate`, returns before anything else happens: whoever is behind it is the current process, and what
holds of the value that it returns still does (`Answered.step`). Where the call does not change the kernel either, as `semcount`, the
value is a function of the state (`Prompt.step`).
-/

namespace Xinu

section Prompt

variable {C : Client} {m m' : Machine C} {e : Event C} {Q : C.F → Bool}
  {R R' : Int → C.F → Int → Prop} {W : Kernel QueueTab → C.Data → C.F → Int → Prop} {V : Kernel QueueTab → C.Data → C.F → Int}

/-- Above a routine at one of the points there is a system call that has returned. -/
def Above {F : Type} (Q : F → Bool) (a b : Frame F) : Prop := ∀ f, b = .client f → Q f = true → ∃ v, a = .kernel (.ret v)

/-- No routine at one of the points is on top. -/
def Clean {F : Type} (Q : F → Bool) (l : List (Frame F)) : Prop := ∀ f ∈ l.head?, ∀ g, f = .client g → Q g = false

/-- To a routine of a process at one of the points `Q` a value is returned of which `R` holds. -/
structure Replied (m : Machine C) (Q : C.F → Bool) (R : Int → C.F → Int → Prop) : Prop where
  chain : ∀ p, (m.context p).IsChain (Above Q)
  calls : ∀ p f, .callback f ∈ m.context p → Q f = false
  top : ∀ p r f l, m.context p = .kernel r :: .client f :: l → Q f = true → ∃ v, r = .ret v ∧ R p f v

/-- A routine at one of the points `Q` belongs to the current process, and the value that is returned to it is one of which `W`
holds. -/
structure Answered (m : Machine C) (Q : C.F → Bool) (W : Kernel QueueTab → C.Data → C.F → Int → Prop) : Prop where
  chain : ∀ p, (m.context p).IsChain (Above Q)
  calls : ∀ p f, .callback f ∈ m.context p → Q f = false
  top : ∀ p r f l, m.context p = .kernel r :: .client f :: l → Q f = true →
    p = m.k.currpid ∧ ∃ v, r = .ret v ∧ W m.k m.data f v

/-- A routine at one of the points `Q` belongs to the current process, and the value that is returned to it is what `V` says
now. -/
structure Prompt (m : Machine C) (Q : C.F → Bool) (V : Kernel QueueTab → C.Data → C.F → Int) : Prop where
  chain : ∀ p, (m.context p).IsChain (Above Q)
  calls : ∀ p f, .callback f ∈ m.context p → Q f = false
  top : ∀ p r f l, m.context p = .kernel r :: .client f :: l → Q f = true → p = m.k.currpid ∧ r = .ret (V m.k m.data f)

theorem Clean.cons {F : Type} {Q : F → Bool} {l : List (Frame F)} (hl : Clean Q l) (h : l.IsChain (Above Q)) (a : Frame F) :
    (a :: l).IsChain (Above Q) := by
  refine h.cons (fun b hb g hg hQ => ?_)
  rw [hl b hb g hg] at hQ
  cases hQ

theorem clean_of_userMode {F : Type} {Q : F → Bool} {l : List (Frame F)} (h : userMode l = true) : Clean Q l := by
  intro f hf g hg
  subst hg
  cases l with
  | nil => cases hf
  | cons a l =>
    obtain rfl : a = .client g := Option.some.inj hf
    cases h

/-- Under a frame that is no returned system call. -/
theorem clean_below {F : Type} {Q : F → Bool} {a : Frame F} {l : List (Frame F)} (h : (a :: l).IsChain (Above Q))
    (ha : ∀ v, a ≠ .kernel (.ret v)) : Clean Q l := by
  intro f hf g hg
  by_contra hQ
  obtain ⟨v, hv⟩ := (List.isChain_cons.mp h).1 f hf g hg (by simpa using hQ)
  exact ha v hv

/-- What is below a segment of the library. -/
theorem Machine.Follows.clean {l : List (Frame C.F)} {x : C.Data × Next C.F} (hx : Machine.Follows m e l x)
    (h : m.stack.IsChain (Above Q)) : l.IsChain (Above Q) ∧ Clean Q l := by
  cases hx with
  | enter o hu => exact ⟨h, clean_of_userMode hu⟩
  | callback hs =>
    rw [hs] at h
    exact ⟨(List.isChain_cons.mp h).2, clean_below h (fun v => nofun)⟩
  | client hs =>
    rw [hs] at h
    have h' := (List.isChain_cons.mp h).2
    exact ⟨(List.isChain_cons.mp h').2, clean_below h' (fun v => nofun)⟩

/-- What is returned to a routine that goes on at one of the points. -/
theorem Replied.resumed (I : Replied m Q R) {f : C.F} {v : Int} (h : m.resumed e = some (f, v)) (hQ : Q f = true) :
    R m.k.currpid f v := by
  have hctx : m.context m.k.currpid = m.stack := rfl
  cases e with
  | ret =>
    simp only [Machine.resumed] at h
    split at h
    · next g l hstk =>
      obtain ⟨rfl, _⟩ := Prod.mk.inj (Option.some.inj h)
      have := I.calls m.k.currpid g (by rw [hctx, hstk]; exact List.mem_cons_self)
      rw [hQ] at this
      cases this
    · cases h
  | cont =>
    simp only [Machine.resumed] at h
    split at h
    · next w g l hstk =>
      obtain ⟨rfl, rfl⟩ := Prod.mk.inj (Option.some.inj h)
      obtain ⟨v, hv, hR⟩ := I.top _ _ _ l (hctx.trans hstk) hQ
      rw [Resume.ret.inj hv]
      exact hR
    · cases h
  | _ => cases h

/-- What is left of the stack when a segment ends was there before. -/
theorem Machine.Base.sub {l : List (Frame C.F)} (h : Machine.Base m l) : ∀ x ∈ l, x ∈ m.context m.k.currpid := by
  intro x hx
  show x ∈ m.stack
  cases h with
  | user => exact hx
  | callback hs | ret hs =>
    rw [hs]
    exact List.mem_cons_of_mem _ hx
  | client hs =>
    rw [hs]
    exact List.mem_cons_of_mem _ (List.mem_cons_of_mem _ hx)

/-- The stack of the current process becomes `l`, and the others remain or become empty. -/
theorem Replied.update (I : Replied m Q R) {l : List (Frame C.F)}
    (hctx : ∀ p, m'.context p = [] ∨ m'.context p = if p = m.k.currpid then l else m.context p)
    (hkeep : ∀ p f v, p ≠ m.k.currpid → f ∈ routines (m.context p) → R p f v → R' p f v)
    (hl : l.IsChain (Above Q)) (hcb : ∀ f, .callback f ∈ l → Q f = false)
    (htop : ∀ r f l', l = .kernel r :: .client f :: l' → Q f = true → ∃ v, r = .ret v ∧ R' m.k.currpid f v) :
    Replied m' Q R' := by
  constructor
  · intro p
    rcases hctx p with h | h
    · rw [h]
      exact List.isChain_nil
    · rw [h]
      split
      · exact hl
      · exact I.chain p
  · intro p f hm
    rcases hctx p with h | h
    · rw [h] at hm
      cases hm
    · rw [h] at hm
      split at hm
      · exact hcb f hm
      · exact I.calls p f hm
  · intro p r f l' hp hQ
    rcases hctx p with h | h
    · rw [h] at hp
      cases hp
    · rw [h] at hp
      split at hp
      · next hc =>
        rw [hc]
        exact htop r f l' hp hQ
      · next hc =>
        obtain ⟨v, hv, hR⟩ := I.top p r f l' hp hQ
        refine ⟨v, hv, hkeep p f v hc ?_ hR⟩
        rw [hp]
        exact List.mem_cons_self

theorem update_context {context : Int → List (Frame C.F)} {q : Int} {l : List (Frame C.F)} (p : Int) :
    Function.update context q l p = if p = q then l else context p := by
  by_cases hp : p = q
  · rw [hp, Function.update_self, if_pos rfl]
  · rw [Function.update_of_ne hp, if_neg hp]

/-- A stack that a segment leaves to user code has no returned system call on top. -/
theorem Kills.not_ret {F : Type} {l l' : List (Frame F)} (hk : Kills l) {v : Int} (h : l = .kernel (.ret v) :: l') : False := by
  obtain ⟨pid, i, e, _⟩ := hk (.ret v) (h ▸ List.mem_cons_self)
  cases e

/-- A system call, the value of which is fixed when it is made at one of the points. -/
theorem Replied.call (I : Replied m Q R) {c : Call} {d : C.Data} {l rest : List (Frame C.F)} (hl : Machine.Base m l)
    (hr : Machine.Calls m e c d l rest) (hu : e = .call c → userMode m.stack = true)
    (hQ : ∀ d c f, m.segment e = some (d, .call c f) → Q f = true → ∃ v, (m.k.call c).2 = .ret v ∧ R' m.k.currpid f v)
    (hkeep : ∀ p f v, p ≠ m.k.currpid → f ∈ routines (m.context p) → R p f v → R' p f v) :
    Replied ({ m with data := d }.enterCall c rest) Q R' := by
  have hchain : m.stack.IsChain (Above Q) := I.chain _
  have hold : ∀ f, .callback f ∈ l → Q f = false := fun f hm => I.calls _ f (hl.sub _ hm)
  refine I.update (l := .kernel (m.k.call c).2 :: rest) (fun p => Or.inr (update_context p)) hkeep ?_ ?_ ?_
  · cases hr with
    | user he => exact (clean_of_userMode (hu he)).cons hchain _
    | @client _ f _ hx =>
      obtain ⟨h1, h2⟩ := hx.clean hchain
      refine (h2.cons h1 _).cons (fun b hb g hg hQf => ?_)
      obtain rfl : b = .client f := (Option.some.inj hb).symm
      obtain rfl := Frame.client.inj hg
      obtain ⟨v, hv, _⟩ := hQ d c f hx.segment hQf
      exact ⟨v, congrArg Frame.kernel hv⟩
  · intro f hm
    have hm' := (List.mem_cons.mp hm).resolve_left (by simp)
    cases hr with
    | user he => exact hold f hm'
    | client hx => exact hold f ((List.mem_cons.mp hm').resolve_left (by simp))
  · intro r f l' e' hQf
    obtain ⟨e1, e2⟩ := List.cons.inj e'
    cases hr with
    | user he =>
      have hu' := hu he
      rw [e2] at hu'
      cases hu'
    | @client _ f' _ hx =>
      obtain rfl := Frame.client.inj (List.cons.inj e2).1
      obtain ⟨v, hv, hR⟩ := hQ d c f' hx.segment hQf
      exact ⟨v, (Frame.kernel.inj e1).symm.trans hv, hR⟩

/-- A segment of the library that ends without a system call. -/
theorem Replied.inside (I : Replied m Q R) {d : C.Data} {l rest : List (Frame C.F)} (hl : Machine.Base m l)
    (hr : Machine.Ends m e d l rest) (hk : StackOk m.stack)
    (hkeep : ∀ p f v, p ≠ m.k.currpid → f ∈ routines (m.context p) → R p f v → R' p f v)
    (hcb : ∀ d f, m.segment e = some (d, .callback f) → Q f = false) :
    Replied ({ m with data := d }.setStack m.k.currpid rest) Q R' := by
  have hchain : m.stack.IsChain (Above Q) := I.chain _
  have hold : ∀ f, .callback f ∈ l → Q f = false := fun f hm => I.calls _ f (hl.sub _ hm)
  have hrest : rest.IsChain (Above Q) := by
    cases hr with
    | user he hstk hne =>
      rw [hstk] at hchain
      exact (List.isChain_cons.mp hchain).2
    | ret hx => exact (hx.clean hchain).1
    | callback hx => exact (hx.clean hchain).2.cons (hx.clean hchain).1 _
  refine I.update (l := rest) (fun p => Or.inr (update_context p)) hkeep hrest ?_ ?_
  · intro f hm
    cases hr with
    | user he hstk hne => exact hold f hm
    | ret hx => exact hold f hm
    | @callback _ g _ hx =>
      rcases List.mem_cons.mp hm with e' | hm
      · exact Frame.callback.inj e' ▸ hcb d g hx.segment
      · exact hold f hm
  · intro r f l' e' hQf
    rw [e'] at hrest
    obtain ⟨v, hv⟩ := (List.isChain_cons.mp hrest).1 _ rfl f rfl hQf
    rw [hv] at e'
    exact ((hr.kills (hl.kills hk)).not_ret e').elim

/-- The clock interrupts user code. -/
theorem Replied.tick (I : Replied m Q R) (hu : userMode m.stack = true)
    (hkeep : ∀ p f v, p ≠ m.k.currpid → f ∈ routines (m.context p) → R p f v → R' p f v) :
    Replied { m with k := m.k.clockInterrupt } Q R' := by
  refine I.update (l := m.stack) (fun p => Or.inr ?_) hkeep (I.chain _) (fun f hm => I.calls _ f hm) ?_
  · show m.context p = _
    split
    · next hp => rw [hp]; rfl
    · rfl
  · intro r f l' e' hQf
    rw [e'] at hu
    cases r <;> simp [userMode] at hu
    obtain ⟨v, hv, _⟩ := I.top _ _ f l' e' hQf
    cases hv

/-- A later segment of a system call, which is not one made at the points. -/
theorem Replied.proceed (I : Replied m Q R) {r : Resume} {rest : List (Frame C.F)} (hstk : m.stack = .kernel r :: rest)
    (hr : ∀ v, r ≠ .ret v) (hkeep : ∀ p f v, p ≠ m.k.currpid → f ∈ routines (m.context p) → R p f v → R' p f v) :
    Replied (m.goOn r rest) Q R' := by
  have hchain : m.stack.IsChain (Above Q) := I.chain _
  rw [hstk] at hchain
  have hclean : Clean Q rest := clean_below hchain (fun v e => hr v (Frame.kernel.inj e))
  have hrest : rest.IsChain (Above Q) := (List.isChain_cons.mp hchain).2
  refine I.update (l := .kernel (m.k.proceed r).2 :: rest) (fun p => ?_) hkeep (hclean.cons hrest _) ?_ ?_
  · cases r with
    | kill pid i =>
      by_cases h3 : i < 3
      · rw [show m.goOn (.kill pid i) rest = _ from if_pos h3]
        exact Or.inr (update_context p)
      · rw [show m.goOn (.kill pid i) rest = _ from if_neg h3]
        by_cases hp : p = pid
        · exact Or.inl (by rw [hp]; exact Function.update_self _ _ _)
        · exact Or.inr ((Function.update_of_ne hp _ _).trans (update_context p))
    | _ => exact Or.inr (update_context p)
  · intro f hm
    refine I.calls m.k.currpid f ?_
    rw [show m.context m.k.currpid = _ from hstk]
    exact List.mem_cons_of_mem _ ((List.mem_cons.mp hm).resolve_left (by simp))
  · intro r' f l' e' hQf
    have hr' := (List.cons.inj e').2
    have := hclean (.client f) (by rw [hr']; rfl) f rfl
    rw [hQf] at this
    cases this

/-- Every event keeps it, when the values of the calls made at the points are fixed, and what holds of them remains true of other
processes. -/
theorem Replied.step (I : Replied m Q R) (hs : m.step e = some m') (hk : StackOk m.stack)
    (hQ : ∀ d c f, m.segment e = some (d, .call c f) → Q f = true → ∃ v, (m.k.call c).2 = .ret v ∧ R' m.k.currpid f v)
    (hkeep : ∀ p f v, p ≠ m.k.currpid → f ∈ routines (m.context p) → R p f v → R' p f v)
    (hcb : ∀ d f, m.segment e = some (d, .callback f) → Q f = false)
    (hrun : ∀ d st, m.segment e ≠ some (d, .stop st)) : Replied m' Q R' := by
  cases (Machine.step_effect hs).2 with
  | call c d l rest hi hl hr =>
    refine I.call hl hr (fun he => ?_) hQ hkeep
    subst he
    simp only [Machine.step] at hs
    split at hs
    · next hu => exact hu.2
    · cases hs
  | inside d l rest hl hr hi => exact I.inside hl hr hk hkeep hcb
  | stop d st l hx => exact absurd hx.segment (hrun d st)
  | tick hu he => exact I.tick hu hkeep
  | proceed r rest hstk hr he => exact I.proceed hstk hr hkeep

theorem Answered.replied (I : Answered m Q W) : Replied m Q fun p f v => p = m.k.currpid ∧ W m.k m.data f v :=
  ⟨I.chain, I.calls, fun p r f l hp hQ => by
    obtain ⟨hcur, v, hv, hW⟩ := I.top p r f l hp hQ
    exact ⟨v, hv, hcur, hW⟩⟩

/-- What is returned to a routine that goes on at one of the points. -/
theorem Answered.resumed (I : Answered m Q W) {f : C.F} {v : Int} (h : m.resumed e = some (f, v)) (hQ : Q f = true) :
    W m.k m.data f v := (I.replied.resumed h hQ).2

/-- Every event keeps it, when the calls made at the points do not block. -/
theorem Answered.step (I : Answered m Q W) (hs : m.step e = some m') (hk : StackOk m.stack)
    (hQ : ∀ d c f, m.segment e = some (d, .call c f) → Q f = true →
      (m.k.call c).1.currpid = m.k.currpid ∧ ∃ v, (m.k.call c).2 = .ret v ∧ W (m.k.call c).1 d f v)
    (hcb : ∀ d f, m.segment e = some (d, .callback f) → Q f = false)
    (hrun : ∀ d st, m.segment e ≠ some (d, .stop st)) : Answered m' Q W := by
  have J : Replied m' Q fun p f v => p = m'.k.currpid ∧ W m'.k m'.data f v := by
    refine I.replied.step hs hk (fun d c f hx hQf => ?_) (fun p f v hp _ hR => absurd hR.1 hp) hcb hrun
    obtain ⟨hcur, v, hv, hW⟩ := hQ d c f hx hQf
    obtain ⟨hd, hk', _⟩ := Machine.segment_call hs hx hv hcur
    refine ⟨v, hv, ?_, ?_⟩
    · rw [hk']
      exact hcur.symm
    · rw [hd, hk']
      exact hW
  refine ⟨J.chain, J.calls, fun p r f l hp hQf => ?_⟩
  obtain ⟨v, hv, hcur, hW⟩ := J.top p r f l hp hQf
  exact ⟨hcur, v, hv, hW⟩

theorem Prompt.answered (I : Prompt m Q V) : Answered m Q (fun k d f v => v = V k d f) :=
  ⟨I.chain, I.calls, fun p r f l hp hQ => ⟨(I.top p r f l hp hQ).1, _, (I.top p r f l hp hQ).2, rfl⟩⟩

/-- What is returned to a routine that goes on at one of the points. -/
theorem Prompt.resumed (I : Prompt m Q V) {f : C.F} {v : Int} (h : m.resumed e = some (f, v)) (hQ : Q f = true) :
    v = V m.k m.data f := I.answered.resumed h hQ

/-- Every event keeps it, when the calls made at the points neither change the kernel nor block. -/
theorem Prompt.step (I : Prompt m Q V) (hs : m.step e = some m') (hk : StackOk m.stack)
    (hQ : ∀ d c f, m.segment e = some (d, .call c f) → Q f = true → m.k.call c = (m.k, .ret (V m.k d f)))
    (hcb : ∀ d f, m.segment e = some (d, .callback f) → Q f = false)
    (hrun : ∀ d st, m.segment e ≠ some (d, .stop st)) : Prompt m' Q V := by
  have A := I.answered.step hs hk (fun d c f hx hQf => by rw [hQ d c f hx hQf]; exact ⟨rfl, _, rfl, rfl⟩) hcb hrun
  refine ⟨A.chain, A.calls, fun p r f l hp hQf => ?_⟩
  obtain ⟨hcur, v, rfl, rfl⟩ := A.top p r f l hp hQf
  exact ⟨hcur, rfl⟩

end Prompt

end Xinu
