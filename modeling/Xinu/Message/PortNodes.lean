import Xinu.Lib.Segment
import Xinu.Lib.Spread
import Xinu.Message.Port

/-!
# The nodes and the states of the ports

A port goes from one stage to the next while `ptcreate`, `ptreset` or `ptdelete` works on it (`Stage`). `Sound` says what the tables
hold at every stage: every node is on the free list or on the list of one port, and the list of a port in state `PT_ALLOC` carries
the messages that were sent and not yet received. The theorems behind it are about one piece of a routine each.
-/

namespace Xinu

namespace Port

open Table

/-- How far a routine has come that makes, resets or deletes a port. -/
inductive Stage where
  | idle
  | making (count : Int)
  | half (count : Int)
  | live
  | disposing (newstate : PtState) (walk : Nat)
  | released (newstate : PtState)
  | cleared (newstate : PtState)
deriving DecidableEq

/-- The port that a routine works on, and the stage of it. -/
def Point.stage : Point → Option (Int × Stage)
  | .gotssem p count => some (p, .making count)
  | .gotrsem p count => some (p, .half count)
  | .disposing p newstate walk => some (p, .disposing newstate walk)
  | .released p newstate => some (p, .released newstate)
  | .cleared p newstate => some (p, .cleared newstate)
  | _ => none

/-- The same nodes are on the lists, and what is no port has the same list. -/
structure SameNodes (own own' : Option Int → List (Nat × Nat)) : Prop where
  mem : ∀ a, (∃ i, a ∈ (own' i).map Prod.fst) ↔ ∃ i, a ∈ (own i).map Prod.fst
  outside : ∀ p, isbadport p = true → own' (some p) = own (some p)

theorem SameNodes.refl (own : Option Int → List (Nat × Nat)) : SameNodes own own := ⟨fun _ => Iff.rfl, fun _ _ => rfl⟩

theorem SameNodes.trans {own own' own'' : Option Int → List (Nat × Nat)} (h : SameNodes own own') (h' : SameNodes own' own'') :
    SameNodes own own'' :=
  ⟨fun a => (h'.mem a).trans (h.mem a), fun p hp => (h'.outside p hp).trans (h.outside p hp)⟩

namespace Ports

variable (d : Ports)

/-- From `a` on, the nodes of `l` are linked, with their messages. -/
def Linked (a : Nat) (l : List (Nat × Nat)) : Prop :=
  Seg (fun a => (d.node a).ptnext) (fun a => (d.node a).ptmsg) NULL a l NULL

/-- The list of the port. -/
structure Queue (p : Int) (l : List (Nat × Nat)) : Prop where
  linked : d.Linked (d.porttab p).pthead l
  tail : (d.porttab p).pttail = (l.getLast?.map Prod.fst).getD NULL

/-- The size with which the port was made, and what `ptmaxcnt` keeps of it. -/
structure Sized (p : Int) : Prop where
  maxcnt : (d.porttab p).ptmaxcnt = (d.count p % 65536).toNat
  range : 0 ≤ d.count p ∧ d.count p ≤ 2147483647

/-- A port that is being reset or deleted. -/
structure Limbo (p : Int) (newstate : PtState) : Prop where
  state : (d.porttab p).ptstate = .PT_LIMBO
  sized : d.Sized p
  quiet : d.enqueued p = [] ∧ d.dequeued p = []
  newstate : newstate = .PT_ALLOC ∨ newstate = .PT_FREE

/-- What the tables hold of a port at a stage, when its list is `l`. -/
def At (p : Int) (l : List (Nat × Nat)) : Stage → Prop
  | .idle => (d.porttab p).ptstate = .PT_FREE ∧ l = []
  | .making count | .half count => (d.porttab p).ptstate = .PT_ALLOC ∧ l = [] ∧ 0 ≤ count ∧ count ≤ 2147483647
  | .live =>
    (d.porttab p).ptstate = .PT_ALLOC ∧ d.Queue p l ∧ d.enqueued p = d.dequeued p ++ l.map Prod.snd ∧ d.Sized p
  | .disposing newstate walk =>
    d.Limbo p newstate ∧ d.Queue p l ∧ d.doomed p = l.map Prod.snd ∧
      ∃ l₁ v l₂, l = l₁ ++ (walk, v) :: l₂ ∧ d.disposed p = l₁.map Prod.snd ++ [v]
  | .released newstate | .cleared newstate =>
    d.Limbo p newstate ∧ l = [] ∧ d.disposed p = d.doomed p ∧
      (newstate = .PT_ALLOC → (d.porttab p).pthead = NULL ∧ (d.porttab p).pttail = NULL)

/-- The tables are in order, when the nodes are on the lists `own` (that of no port is the free list) and the ports have come to
the stages `st`. -/
structure Sound (own : Option Int → List (Nat × Nat)) (st : Int → Stage) : Prop where
  free : d.Linked d.ptfree (own none)
  spread : Spread (fun i => (own i).map Prod.fst)
  port : ∀ p, isbadport p = false → d.At p (own (some p)) (st p)
  outside : ∀ p, isbadport p = true → (d.porttab p).ptstate = .PT_FREE
  next : isbadport d.ptnextid = false

end Ports

section Lists

variable {d b : Ports} {a p q : Nat} {l l' : List (Nat × Nat)} {x : Nat × Nat}

theorem Ports.Linked.frame (h : d.Linked a l) (hn : ∀ x ∈ l, b.node x.1 = d.node x.1) : b.Linked a l :=
  Seg.frame h (fun x hx => by rw [hn x hx]) (fun x hx => by rw [hn x hx])

/-- The last node of a list. -/
theorem last_snoc (l : List (Nat × Nat)) (x : Nat × Nat) : ((l ++ [x]).getLast?.map Prod.fst).getD NULL = x.1 := by
  rw [List.getLast?_append]
  rfl

theorem Ports.Linked.last_eq_null (h : d.Linked a l) : (l.getLast?.map Prod.fst).getD NULL = NULL ↔ l = [] := by
  rcases List.eq_nil_or_concat l with rfl | ⟨l, x, rfl⟩
  · exact ⟨fun _ => rfl, fun _ => rfl⟩
  · rw [List.concat_eq_append, last_snoc]
    refine ⟨fun e => ?_, fun e => by simp at e⟩
    exact absurd e (Seg.ne_nil h x (by simp))

theorem Ports.Linked.null_iff (h : d.Linked a l) : a = NULL ↔ l = [] := by
  cases l with
  | nil => exact ⟨fun _ => rfl, fun _ => h⟩
  | cons x l => exact ⟨fun e => absurd (h.1.symm.trans e) h.2.1, fun e => by cases e⟩

theorem Ports.Linked.pop (h : d.Linked a l) (ha : a ≠ NULL) :
    ∃ l', l = (a, (d.node a).ptmsg) :: l' ∧ d.Linked (d.node a).ptnext l' := by
  obtain ⟨v, l', rfl, hv, hl⟩ := Seg.cons_of_ne h ha
  exact ⟨l', by rw [← hv], hl⟩

end Lists

namespace Ports

/-- What the tables say about a port is the same. -/
structure SamePort (d b : Ports) (p : Int) : Prop where
  entry : b.porttab p = d.porttab p
  count : b.count p = d.count p
  enqueued : b.enqueued p = d.enqueued p
  dequeued : b.dequeued p = d.dequeued p
  doomed : b.doomed p = d.doomed p
  disposed : b.disposed p = d.disposed p

theorem setEntry_self (d : Ports) (p : Int) (e : Ptentry) : (d.setEntry p e).porttab p = e := Function.update_self _ _ _

theorem setEntry_of_ne (d : Ports) {p q : Int} (e : Ptentry) (hq : q ≠ p) : (d.setEntry p e).porttab q = d.porttab q :=
  Function.update_of_ne hq _ _

section Frame

variable {d b : Ports} {p q : Int} {l : List (Nat × Nat)} {σ : Stage}

/-- A queue whose port and nodes are as they were. -/
theorem Queue.frame (h : d.Queue p l) (hs : b.porttab p = d.porttab p) (hn : ∀ x ∈ l, b.node x.1 = d.node x.1) :
    b.Queue p l := by
  constructor
  · rw [hs]
    exact h.linked.frame hn
  · rw [hs]
    exact h.tail

theorem Sized.same (h : d.Sized p) (hs : (b.porttab p).ptmaxcnt = (d.porttab p).ptmaxcnt) (hc : b.count p = d.count p) :
    b.Sized p :=
  ⟨by rw [hs, hc]; exact h.maxcnt, by rw [hc]; exact h.range⟩

theorem Limbo.same {newstate : PtState} (h : d.Limbo p newstate) (S : SamePort d b p) : b.Limbo p newstate :=
  ⟨by rw [S.entry]; exact h.state, h.sized.same (by rw [S.entry]) S.count, by rw [S.enqueued, S.dequeued]; exact h.quiet,
    h.newstate⟩

/-- A port that is as it was, with its nodes. -/
theorem At.frame (h : d.At p l σ) (S : SamePort d b p) (hn : ∀ x ∈ l, b.node x.1 = d.node x.1) : b.At p l σ := by
  cases σ with
  | idle | making | half =>
    simp only [At, S.entry]
    exact h
  | live =>
    obtain ⟨h1, h2, h3, h4⟩ := h
    exact ⟨by rw [S.entry]; exact h1, h2.frame S.entry hn, by rw [S.enqueued, S.dequeued]; exact h3,
      h4.same (by rw [S.entry]) S.count⟩
  | disposing newstate walk =>
    obtain ⟨h1, h2, h3, h4⟩ := h
    exact ⟨h1.same S, h2.frame S.entry hn, by rw [S.doomed]; exact h3, by rw [S.disposed]; exact h4⟩
  | released newstate | cleared newstate =>
    obtain ⟨h1, h2, h3, h4⟩ := h
    exact ⟨h1.same S, h2, by rw [S.disposed, S.doomed]; exact h3, by rw [S.entry]; exact h4⟩

end Frame

section Change

variable {d b : Ports} {own : Option Int → List (Nat × Nat)} {st : Int → Stage} {p : Int} {l g : List (Nat × Nat)} {σ : Stage}

theorem map_moved (i j : Option Int) (l l' : List (Nat × Nat)) :
    (fun k => (moved own i j l l' k).map Prod.fst) = moved (fun k => (own k).map Prod.fst) i j (l.map Prod.fst) (l'.map Prod.fst) := by
  funext k
  simp only [moved, Function.update_apply]
  split_ifs <;> rfl

/-- A routine works on one port, its list and the free list. -/
theorem Sound.change (S : d.Sound own st) (hp : isbadport p = false) (hat : b.At p l σ) (hfree : b.Linked b.ptfree g)
    (hperm : ((l ++ g).map Prod.fst).Perm ((own (some p) ++ own none).map Prod.fst))
    (hsame : ∀ q, q ≠ p → SamePort d b q)
    (hnode : ∀ a, a ∉ (own (some p) ++ own none).map Prod.fst → b.node a = d.node a)
    (hnext : isbadport b.ptnextid = false) :
    b.Sound (moved own (some p) none l g) (Function.update st p σ) ∧ SameNodes own (moved own (some p) none l g) := by
  have hne : some p ≠ none := nofun
  have hgood : ∀ q, isbadport q = true → q ≠ p := by
    rintro q hq rfl
    rw [hp] at hq
    cases hq
  refine ⟨⟨?_, ?_, fun q hq => ?_, fun q hq => ?_, hnext⟩, fun a => ?_, fun q hq => ?_⟩
  · rw [moved_right]
    exact hfree
  · rw [map_moved]
    refine S.spread.move hne ?_
    rw [List.map_append, List.map_append] at hperm
    exact hperm
  · by_cases hqp : q = p
    · subst hqp
      rw [moved_left hne, Function.update_self]
      exact hat
    · rw [moved_of_ne (fun e => hqp (Option.some.inj e)) (Option.some_ne_none q), Function.update_of_ne hqp]
      refine (S.port q hq).frame (hsame q hqp) (fun x hx => hnode x.1 (fun hm => ?_))
      have hx' : x.1 ∈ (own (some q)).map Prod.fst := List.mem_map_of_mem hx
      rw [List.map_append] at hm
      rcases List.mem_append.mp hm with hm | hm
      · exact S.spread.apart (some q) (some p) (by simpa using hqp) _ hx' hm
      · exact S.spread.apart (some q) none nofun _ hx' hm
  · rw [(hsame q (hgood q hq)).entry]
    exact S.outside q hq
  · rw [List.map_append, List.map_append] at hperm
    have h : (∃ i, a ∈ moved (fun k => (own k).map Prod.fst) (some p) none (l.map Prod.fst) (g.map Prod.fst) i) ↔ _ :=
      moved_mem hne hperm a
    rw [← map_moved] at h
    exact h
  · exact moved_of_ne (fun e => hgood q hq (Option.some.inj e)) (Option.some_ne_none q)

/-- A routine works on one port and leaves the lists alone. -/
theorem Sound.keep (S : d.Sound own st) (hp : isbadport p = false) (hat : b.At p (own (some p)) σ) (hfree : b.ptfree = d.ptfree)
    (hsame : ∀ q, q ≠ p → SamePort d b q) (hnode : b.node = d.node) (hnext : isbadport b.ptnextid = false) :
    b.Sound (moved own (some p) none (own (some p)) (own none)) (Function.update st p σ) ∧
      SameNodes own (moved own (some p) none (own (some p)) (own none)) := by
  refine S.change hp hat ?_ (List.Perm.refl _) hsame (fun a _ => congrFun hnode a) hnext
  rw [hfree]
  exact S.free.frame (fun x _ => congrFun hnode x.1)

/-- Nothing that matters changes. -/
theorem Sound.same (S : d.Sound own st) (hsame : ∀ q, SamePort d b q) (hfree : b.ptfree = d.ptfree) (hnode : b.node = d.node)
    (hnext : isbadport b.ptnextid = false) : b.Sound own st := by
  refine ⟨?_, S.spread, fun q hq => (S.port q hq).frame (hsame q) (fun x _ => congrFun hnode x.1), fun q hq => ?_, hnext⟩
  · rw [hfree]
    exact S.free.frame (fun x _ => congrFun hnode x.1)
  · rw [(hsame q).entry]
    exact S.outside q hq

/-- The free list and the list of a port have no node in common. -/
theorem Sound.nodup (S : d.Sound own st) (p : Int) : ((own (some p) ++ own none).map Prod.fst).Nodup := by
  rw [List.map_append]
  exact List.nodup_append.mpr ⟨S.spread.nodup (some p), S.spread.nodup none,
    fun x hx y hy e => S.spread.apart (some p) none nofun x hx (e ▸ hy)⟩

/-- The port is in use, and no routine works on it. -/
theorem Sound.is_live (S : d.Sound own st) (hs : (d.porttab p).ptstate = .PT_ALLOC)
    (hm : ∀ c, st p ≠ .making c ∧ st p ≠ .half c) : isbadport p = false ∧ st p = .live := by
  have hp : isbadport p = false := by
    by_contra hb
    have := S.outside p (eq_true_of_ne_false hb)
    rw [hs] at this
    cases this
  refine ⟨hp, ?_⟩
  have hat := S.port p hp
  cases h : st p with
  | live => rfl
  | making c => exact absurd h (hm c).1
  | half c => exact absurd h (hm c).2
  | idle =>
    rw [h] at hat
    have := hat.1
    rw [hs] at this
    cases this
  | disposing | released | cleared =>
    rw [h] at hat
    have := hat.1.state
    rw [hs] at this
    cases this

end Change

section Lists

variable {d : Ports} {own : Option Int → List (Nat × Nat)} {st : Int → Stage} {p : Int} {node : Nat → Ptnode} {t c : Nat}

/-- Linking a node to another one. -/
theorem next_link (node : Nat → Ptnode) (t c : Nat) :
    (fun a => (Function.update node t { node t with ptnext := c } a).ptnext) = Function.update (fun a => (node a).ptnext) t c := by
  funext a
  by_cases ha : a = t
  · rw [ha, Function.update_self, Function.update_self]
  · rw [Function.update_of_ne ha, Function.update_of_ne ha]

theorem msg_link (node : Nat → Ptnode) (t c : Nat) :
    (fun a => (Function.update node t { node t with ptnext := c } a).ptmsg) = fun a => (node a).ptmsg := by
  funext a
  by_cases ha : a = t
  · rw [ha, Function.update_self]
  · rw [Function.update_of_ne ha]

/-- The list of a port with a node behind its end. -/
theorem Queue.snoc {b : Ports} {l : List (Nat × Nat)} {a msg : Nat} (h : d.Queue p l) (hnd : (l.map Prod.fst).Nodup)
    (ha : a ≠ NULL) (hout : a ∉ l.map Prod.fst) (hnode : b.node =
      if (d.porttab p).pttail = NULL then Function.update d.node a ⟨msg, NULL⟩
      else Function.update (Function.update d.node a ⟨msg, NULL⟩) (d.porttab p).pttail
        { Function.update d.node a ⟨msg, NULL⟩ (d.porttab p).pttail with ptnext := a })
    (hentry : b.porttab p = if (d.porttab p).pttail = NULL then { d.porttab p with pttail := a, pthead := a }
      else { d.porttab p with pttail := a }) : b.Queue p (l ++ [(a, msg)]) := by
  have htail := h.tail
  refine ⟨?_, ?_⟩
  · by_cases hnull : (d.porttab p).pttail = NULL
    · obtain rfl := h.linked.last_eq_null.mp (htail ▸ hnull)
      rw [if_pos hnull] at hnode hentry
      rw [hentry]
      refine ⟨rfl, ha, ?_, ?_⟩
      · simp only [hnode, Function.update_self]
      · simp only [hnode, Function.update_self]
        exact seg_nil.mpr rfl
    · rw [if_neg hnull] at hnode hentry
      rcases List.eq_nil_or_concat l with rfl | ⟨l, x, rfl⟩
      · exact absurd htail hnull
      · rw [List.concat_eq_append] at htail h hnd hout ⊢
        rw [last_snoc] at htail
        have hax : a ≠ x.1 := fun e => hout (by simp [e])
        rw [Linked, hentry, hnode, htail, next_link, msg_link]
        refine seg_append.mpr ⟨a, ?_, ?_⟩
        · have hl : Seg (fun y => (Function.update d.node a ⟨msg, NULL⟩ y).ptnext)
              (fun y => (Function.update d.node a ⟨msg, NULL⟩ y).ptmsg) NULL (d.porttab p).pthead (l ++ [x]) NULL := by
            have hne : ∀ y ∈ l ++ [x], Function.update d.node a ⟨msg, NULL⟩ y.1 = d.node y.1 := fun y hy =>
              Function.update_of_ne (fun e => hout (by rw [← e]; exact List.mem_map_of_mem hy)) _ _
            exact Seg.frame h.linked (fun y hy => by rw [hne y hy]) (fun y hy => by rw [hne y hy])
          exact hl.relink hnd
        · refine ⟨rfl, ha, ?_, ?_⟩
          · simp only [Function.update_self]
          · rw [Function.update_of_ne hax]
            simp only [Function.update_self]
            exact seg_nil.mpr rfl
  · rw [last_snoc, hentry]
    split <;> rfl

/-- What `ptsend` writes when it enqueues a message. -/
theorem enqueue_fields (d : Ports) (p : Int) (msg : Nat) :
    (d.enqueue p msg).ptfree = (d.node d.ptfree).ptnext ∧
      (d.enqueue p msg).node = (if (d.porttab p).pttail = NULL then Function.update d.node d.ptfree ⟨msg, NULL⟩
        else Function.update (Function.update d.node d.ptfree ⟨msg, NULL⟩) (d.porttab p).pttail
          { Function.update d.node d.ptfree ⟨msg, NULL⟩ (d.porttab p).pttail with ptnext := d.ptfree }) ∧
      (d.enqueue p msg).porttab = Function.update d.porttab p
        (if (d.porttab p).pttail = NULL then { d.porttab p with pttail := d.ptfree, pthead := d.ptfree }
        else { d.porttab p with pttail := d.ptfree }) ∧
      (d.enqueue p msg).enqueued = Function.update d.enqueued p (d.enqueued p ++ [msg]) ∧
      (d.enqueue p msg).ptnextid = d.ptnextid ∧ (d.enqueue p msg).count = d.count ∧
      (d.enqueue p msg).dequeued = d.dequeued ∧ (d.enqueue p msg).doomed = d.doomed ∧
      (d.enqueue p msg).disposed = d.disposed := by
  unfold enqueue
  simp only
  split <;> exact ⟨rfl, rfl, rfl, rfl, rfl, rfl, rfl, rfl, rfl⟩

/-- `ptsend` puts a message behind those that are there. -/
theorem Sound.enqueue (S : d.Sound own st) (hp : isbadport p = false) (hst : st p = .live) (hfree : d.ptfree ≠ NULL) (msg : Nat) :
    ∃ own', (d.enqueue p msg).Sound own' st ∧ SameNodes own own' := by
  obtain ⟨hptf, hnode, htab, henq, hnext, hcount, hdeq, hdoom, hdisp⟩ := enqueue_fields d p msg
  obtain ⟨free, hown, hrest⟩ := S.free.pop hfree
  have hat := S.port p hp
  rw [hst] at hat
  obtain ⟨h1, h2, h3, h4⟩ := hat
  have hnd := S.nodup p
  rw [hown, List.map_append] at hnd
  obtain ⟨hndl, hndf, hdisj⟩ := List.nodup_append.mp hnd
  have hout : d.ptfree ∉ (own (some p)).map Prod.fst := fun hm => hdisj _ hm _ (by simp) rfl
  have hentry : (d.enqueue p msg).porttab p = _ := (congrFun htab p).trans (Function.update_self _ _ _)
  -- only the new node and the last one of the port are written
  have hkeep : ∀ a, a ≠ d.ptfree → a ∉ (own (some p)).map Prod.fst → (d.enqueue p msg).node a = d.node a := by
    intro a hne hm
    rw [hnode]
    split
    · exact Function.update_of_ne hne _ _
    · next hnull =>
      have hlast : a ≠ (d.porttab p).pttail := by
        rintro rfl
        rcases List.eq_nil_or_concat (own (some p)) with e | ⟨l, x, e⟩
        · have ht := h2.tail
          rw [e] at ht
          exact hnull ht
        · have ht := h2.tail
          rw [e, List.concat_eq_append, last_snoc] at ht
          exact hm (by rw [e, List.concat_eq_append, ht]; simp)
      rw [Function.update_of_ne hlast, Function.update_of_ne hne]
  have hfst : ∀ x ∈ free, x.1 ≠ d.ptfree ∧ x.1 ∉ (own (some p)).map Prod.fst := by
    intro x hx
    have hmem : x.1 ∈ free.map Prod.fst := List.mem_map_of_mem hx
    refine ⟨fun e => (List.nodup_cons.mp hndf).1 ?_, fun hm => hdisj _ hm _ (List.mem_cons_of_mem _ hmem) rfl⟩
    exact e ▸ hmem
  have hst' : st = Function.update st p .live := by rw [← hst, Function.update_eq_self]
  refine ⟨moved own (some p) none (own (some p) ++ [(d.ptfree, msg)]) free, ?_⟩
  rw [hst']
  refine S.change (l := own (some p) ++ [(d.ptfree, msg)]) (g := free) hp ?_ ?_ ?_ (fun q hq => ?_) (fun a ha => ?_)
    (by rw [hnext]; exact S.next)
  · refine ⟨?_, h2.snoc hndl hfree hout hnode hentry, ?_, h4.same ?_ (by rw [hcount])⟩
    · rw [hentry]
      split <;> exact h1
    · rw [henq, hdeq, Function.update_self, h3, List.map_append, List.append_assoc]
      rfl
    · rw [hentry]
      split <;> rfl
  · rw [hptf]
    exact hrest.frame (fun x hx => hkeep x.1 (hfst x hx).1 (hfst x hx).2)
  · simp only [hown, List.append_assoc, List.singleton_append, List.map_append, List.map_cons]
    exact List.Perm.refl _
  · refine ⟨?_, by rw [hcount], ?_, by rw [hdeq], by rw [hdoom], by rw [hdisp]⟩
    · rw [htab, Function.update_of_ne hq]
    · rw [henq, Function.update_of_ne hq]
  · rw [hown] at ha
    refine hkeep a (fun e => ha ?_) (fun hm => ha ?_)
    · simp [e]
    · rw [List.map_append]
      exact List.mem_append_left _ hm

/-- What `ptrecv` writes when it dequeues one. -/
theorem dequeue_fields (d : Ports) (p : Int) :
    (d.dequeue p).ptfree = (d.porttab p).pthead ∧
      (d.dequeue p).node = Function.update d.node (d.porttab p).pthead { d.node (d.porttab p).pthead with ptnext := d.ptfree } ∧
      (d.dequeue p).porttab = Function.update d.porttab p
        (if (d.porttab p).pthead = (d.porttab p).pttail then { d.porttab p with pthead := NULL, pttail := NULL }
        else { d.porttab p with pthead := (d.node (d.porttab p).pthead).ptnext }) ∧
      (d.dequeue p).dequeued =
        Function.update d.dequeued p (d.dequeued p ++ [(d.node (d.porttab p).pthead).ptmsg]) :=
  ⟨rfl, rfl, rfl, rfl⟩

/-- `ptrecv` takes the first message, and the node becomes free. -/
theorem Sound.dequeue (S : d.Sound own st) (hp : isbadport p = false) (hst : st p = .live)
    (hhead : (d.porttab p).pthead ≠ NULL) : ∃ own', (d.dequeue p).Sound own' st ∧ SameNodes own own' := by
  obtain ⟨hptf, hnode, htab, hdeq⟩ := dequeue_fields d p
  have hat := S.port p hp
  rw [hst] at hat
  obtain ⟨h1, h2, h3, h4⟩ := hat
  obtain ⟨l, hown, hrest⟩ := h2.linked.pop hhead
  have htail := h2.tail
  have hnd := S.nodup p
  rw [hown, List.map_append] at hnd
  obtain ⟨hndl, hndf, hdisj⟩ := List.nodup_append.mp hnd
  have hheadl : (d.porttab p).pthead ∉ l.map Prod.fst := (List.nodup_cons.mp hndl).1
  have hentry : (d.dequeue p).porttab p = _ := (congrFun htab p).trans (Function.update_self _ _ _)
  have hkeep : ∀ a, a ≠ (d.porttab p).pthead → (d.dequeue p).node a = d.node a := by
    intro a ha
    rw [hnode]
    exact Function.update_of_ne ha _ _
  have hl : ∀ x ∈ l, x.1 ≠ (d.porttab p).pthead := fun x hx e => hheadl (e ▸ List.mem_map_of_mem hx)
  -- the node is the last one exactly when it is the only one
  have hlast : (d.porttab p).pthead = (d.porttab p).pttail ↔ l = [] := by
    rw [htail, hown]
    rcases List.eq_nil_or_concat l with rfl | ⟨l, x, rfl⟩
    · exact ⟨fun _ => rfl, fun _ => rfl⟩
    · rw [List.concat_eq_append, ← List.cons_append, last_snoc]
      refine ⟨fun e => absurd e.symm (hl x (by simp)), fun e => ?_⟩
      simp at e
  have hst' : st = Function.update st p .live := by rw [← hst, Function.update_eq_self]
  refine ⟨moved own (some p) none l (((d.porttab p).pthead, (d.node (d.porttab p).pthead).ptmsg) :: own none), ?_⟩
  rw [hst']
  refine S.change hp ?_ ?_ ?_ (fun q hq => ?_) (fun a ha => hkeep a (fun e => ha ?_)) S.next
  · refine ⟨?_, ⟨?_, ?_⟩, ?_, h4.same ?_ rfl⟩
    · rw [hentry]
      split <;> exact h1
    · rw [hentry]
      split
      · next he =>
        obtain rfl := hlast.mp he
        exact seg_nil.mpr rfl
      · exact hrest.frame (fun x hx => hkeep x.1 (hl x hx))
    · rw [hentry]
      split
      · next he =>
        obtain rfl := hlast.mp he
        rfl
      · next he =>
        rcases List.eq_nil_or_concat l with rfl | ⟨l, x, rfl⟩
        · exact absurd (hlast.mpr rfl) he
        · change (d.porttab p).pttail = _
          rw [htail, hown, List.concat_eq_append, ← List.cons_append, last_snoc, last_snoc]
    · rw [hdeq, Function.update_self, List.append_assoc]
      refine h3.trans ?_
      rw [hown]
      rfl
    · rw [hentry]
      split <;> rfl
  · rw [hptf]
    refine ⟨rfl, hhead, ?_, ?_⟩
    · simp only [hnode, Function.update_self]
    · simp only [hnode, Function.update_self]
      refine Seg.frame S.free (fun x hx => ?_) (fun x hx => ?_)
      all_goals
        have hne : x.1 ≠ (d.porttab p).pthead := fun e => hdisj _ List.mem_cons_self _ (List.mem_map_of_mem hx) e.symm
        rw [Function.update_of_ne hne]
  · simp only [hown, List.map_append, List.map_cons, List.cons_append]
    exact List.perm_middle
  · exact ⟨(congrFun htab q).trans (Function.update_of_ne hq _ _), rfl, rfl,
      (congrFun hdeq q).trans (Function.update_of_ne hq _ _), rfl, rfl⟩
  · rw [hown]
    simp [e]

/-- The whole list of a port goes into the free list. -/
theorem splice_linked {b : Ports} {l : List (Nat × Nat)} (h : d.Queue p l) (hl : l ≠ []) (hfree : d.Linked d.ptfree (own none))
    (hnd : ((l ++ own none).map Prod.fst).Nodup)
    (hnode : b.node = Function.update d.node (d.porttab p).pttail { d.node (d.porttab p).pttail with ptnext := d.ptfree }) :
    b.Linked (d.porttab p).pthead (l ++ own none) := by
  rcases List.eq_nil_or_concat l with rfl | ⟨l, x, rfl⟩
  · exact absurd rfl hl
  · have htail := h.tail
    have hlink := h.linked
    rw [List.concat_eq_append] at hlink htail hnd ⊢
    rw [last_snoc] at htail
    rw [List.map_append] at hnd
    obtain ⟨hndl, hndf, hdisj⟩ := List.nodup_append.mp hnd
    rw [Linked, hnode, htail, next_link, msg_link]
    refine seg_append.mpr ⟨d.ptfree, Seg.relink hlink hndl, Seg.frame hfree (fun y hy => ?_) (fun _ _ => rfl)⟩
    exact Function.update_of_ne (fun e => hdisj x.1 (by simp) y.1 (List.mem_map_of_mem hy) e.symm) _ _

end Lists

/-- The ports have the same semaphores and sizes. -/
def SameSems (d b : Ports) : Prop :=
  ∀ q, (b.porttab q).ptssem = (d.porttab q).ptssem ∧ (b.porttab q).ptrsem = (d.porttab q).ptrsem ∧
    (b.porttab q).ptmaxcnt = (d.porttab q).ptmaxcnt

/-- The call that releases the processes at a semaphore of a port. -/
def freeing (newstate : PtState) (sem count : Int) : Call := if newstate = .PT_ALLOC then .semreset sem count else .semdelete sem

/-- What a piece of a routine does: it goes on at `f` with `v`, if it is not the first piece, and takes the ports from the stages `st`
to others. -/
inductive Turn (d : Ports) (st : Int → Stage) (v : Int) : Option Point → Ports × Next Point → (Int → Stage) → Prop where
  | ret {f : Option Point} {b : Ports} {w : Int} (hf : ∀ g ∈ f, g.stage = none) (hs : SameSems d b) : Turn d st v f (b, .ret w) st
  | sem {f : Option Point} {b : Ports} {c : Call} {g : Point} {p t : Int} (hf : ∀ g ∈ f, g.stage = none) (hs : SameSems d b)
      (hg : g.stage = none ∧ ∀ n, g ≠ .gotnodes n) (hp : isbadport p = false) (hst : st p = .live)
      (ht : t = (d.porttab p).ptssem ∨ t = (d.porttab p).ptrsem) (hc : c = .wait t ∨ c = .signal t) :
      Turn d st v f (b, .call c g) st
  | making {b : Ports} {p c : Int} (hs : SameSems d b) (hp : isbadport p = false) (hst : st p = .idle) :
      Turn d st v none (b, .call (.semcreate c) (.gotssem p c)) (Function.update st p (.making c))
  | half {b : Ports} {p c : Int} (hs : SameSems (d.setEntry p { d.porttab p with ptssem := int32 v }) b) :
      Turn d st v (some (.gotssem p c)) (b, .call (.semcreate 0) (.gotrsem p c)) (Function.update st p (.half c))
  | made {b : Ports} {p c : Int} (hs : SameSems (d.setEntry p { d.porttab p with ptrsem := int32 v, ptmaxcnt := (c % 65536).toNat }) b) :
      Turn d st v (some (.gotrsem p c)) (b, .ret p) (Function.update st p .live)
  | disposing {f : Option Point} {b : Ports} {p : Int} {newstate : PtState} {walk : Nat} (hs : SameSems d b)
      (hp : isbadport p = false) (hf : f = none ∧ st p = .live ∨ ∃ w, f = some (.disposing p newstate w)) :
      Turn d st v f (b, .callback (.disposing p newstate walk)) (Function.update st p (.disposing newstate walk))
  | released {f : Option Point} {b : Ports} {p : Int} {newstate : PtState} (hs : SameSems d b) (hp : isbadport p = false)
      (hf : f = none ∧ st p = .live ∨ ∃ w, f = some (.disposing p newstate w)) :
      Turn d st v f (b, .call (freeing newstate (d.porttab p).ptssem (d.porttab p).ptmaxcnt) (.released p newstate))
        (Function.update st p (.released newstate))
  | cleared {b : Ports} {p : Int} {newstate : PtState} (hs : SameSems d b) :
      Turn d st v (some (.released p newstate)) (b, .call (freeing newstate (d.porttab p).ptrsem 0) (.cleared p newstate))
        (Function.update st p (.cleared newstate))
  | done {b : Ports} {p : Int} {newstate : PtState} (hs : SameSems d b) :
      Turn d st v (some (.cleared p newstate)) (b, .ret OK)
        (Function.update st p (if newstate = .PT_ALLOC then .live else .idle))
  | stop {f : Option Point} {s : Status} (hf : ∀ g ∈ f, g.stage = none) : Turn d st v f (d, .stop s) st

section Turns

variable {d b : Ports} {own : Option Int → List (Nat × Nat)} {st : Int → Stage} {p pid v : Int} {σ : Stage} {l : List (Nat × Nat)}

theorem SameSems.refl (d : Ports) : SameSems d d := fun _ => ⟨rfl, rfl, rfl⟩

/-- The entry of one port is written. -/
theorem SameSems.entry {e : Ptentry} (htab : b.porttab = Function.update d.porttab p e) (h1 : e.ptssem = (d.porttab p).ptssem)
    (h2 : e.ptrsem = (d.porttab p).ptrsem) (h3 : e.ptmaxcnt = (d.porttab p).ptmaxcnt) : SameSems d b := by
  intro q
  rw [htab]
  by_cases hq : q = p
  · subst hq
    rw [Function.update_self]
    exact ⟨h1, h2, h3⟩
  · rw [Function.update_of_ne hq]
    exact ⟨rfl, rfl, rfl⟩

theorem isbadport_iff : isbadport p = false ↔ 0 ≤ p ∧ p < NPORTS := by
  simp [isbadport]

/-- The entry that `ptcreate` finds is free. -/
theorem ptcreateLoop_spec {porttab : Int → Ptentry} {n : Nat} {x y : Int} {r : Option Int}
    (h : ptcreateLoop porttab n x = (r, y)) (hx : isbadport x = false) :
    isbadport y = false ∧ ∀ p ∈ r, isbadport p = false ∧ (porttab p).ptstate = .PT_FREE := by
  have hN : NPORTS = 30 := rfl
  induction n generalizing x with
  | zero =>
    obtain ⟨rfl, rfl⟩ := Prod.mk.inj h
    exact ⟨hx, by simp⟩
  | succ n ih =>
    have hnext : isbadport (if x + 1 ≥ NPORTS then 0 else x + 1) = false := by
      rw [isbadport_iff] at hx ⊢
      split <;> omega
    unfold ptcreateLoop at h
    simp only at h
    split at h
    · next hf =>
      obtain ⟨rfl, rfl⟩ := Prod.mk.inj h
      exact ⟨hnext, by simpa using ⟨hx, hf⟩⟩
    · exact ih h hnext

/-- A port that is not in use is idle. -/
theorem Sound.is_idle (S : d.Sound own st) (hp : isbadport p = false) (hs : (d.porttab p).ptstate = .PT_FREE) :
    st p = .idle ∧ own (some p) = [] := by
  have hat := S.port p hp
  cases h : st p with
  | idle =>
    rw [h] at hat
    exact ⟨rfl, hat.2⟩
  | making c | half c | live =>
    rw [h] at hat
    have := hat.1
    rw [hs] at this
    cases this
  | disposing | released | cleared =>
    rw [h] at hat
    have := hat.1.state
    rw [hs] at this
    cases this

/-- `ptcreate` takes a free port. -/
theorem Sound.ptcreate_turn (S : d.Sound own st) (count : Int) :
    ∃ own' st', Turn d st v none (d.ptcreate count) st' ∧ (d.ptcreate count).1.Sound own' st' ∧ SameNodes own own' := by
  unfold Ports.ptcreate
  simp only
  split
  · exact ⟨own, st, .ret nofun (SameSems.refl d), S, SameNodes.refl own⟩
  · next hc =>
    rcases hl : ptcreateLoop d.porttab NPORTS.toNat d.ptnextid with ⟨_ | p, np⟩
    · have hnp := (ptcreateLoop_spec hl S.next).1
      exact ⟨own, st, .ret nofun (fun _ => ⟨rfl, rfl, rfl⟩),
        S.same (fun _ => ⟨rfl, rfl, rfl, rfl, rfl, rfl⟩) rfl rfl hnp, SameNodes.refl own⟩
    · obtain ⟨hnp, hfree⟩ := ptcreateLoop_spec hl S.next
      obtain ⟨hp, hs⟩ := hfree p rfl
      obtain ⟨hidle, hown⟩ := S.is_idle hp hs
      refine ⟨_, _, .making (SameSems.entry rfl rfl rfl rfl) hp hidle, S.keep hp ?_ rfl (fun q hq => ?_) rfl hnp⟩
      · have hr := int32_range count
        exact ⟨congrArg Ptentry.ptstate (Function.update_self p _ d.porttab), hown, by omega, hr.2⟩
      · exact ⟨Function.update_of_ne hq _ _, rfl, rfl, rfl, rfl, rfl⟩

/-- It stores its first semaphore. -/
theorem Sound.gotssem_turn (S : d.Sound own st) {c : Int} (hp : isbadport p = false) (hst : st p = .making c) :
    ∃ own' st', Turn d st v (some (.gotssem p c)) (d.gotssem p c v) st' ∧ (d.gotssem p c v).1.Sound own' st' ∧ SameNodes own own' := by
  have hat := S.port p hp
  rw [hst] at hat
  refine ⟨_, _, .half (SameSems.refl _), S.keep hp ?_ rfl (fun q hq => ?_) rfl S.next⟩
  · obtain ⟨h1, h2, h3⟩ := hat
    refine ⟨?_, h2, h3⟩
    change (Function.update d.porttab p _ p).ptstate = _
    rw [Function.update_self]
    exact h1
  · exact ⟨Function.update_of_ne hq _ _, rfl, rfl, rfl, rfl, rfl⟩

/-- It stores its second semaphore, and the port is in use. -/
theorem Sound.gotrsem_turn (S : d.Sound own st) {c : Int} (hp : isbadport p = false) (hst : st p = .half c) :
    ∃ own' st', Turn d st v (some (.gotrsem p c)) (d.gotrsem p c v) st' ∧ (d.gotrsem p c v).1.Sound own' st' ∧ SameNodes own own' := by
  have hat := S.port p hp
  rw [hst] at hat
  obtain ⟨h1, h2, h3⟩ := hat
  have hself : (d.gotrsem p c v).1.porttab p = { d.porttab p with
      ptrsem := int32 v, pthead := NULL, pttail := NULL, ptseq := int32 ((d.porttab p).ptseq + 1)
      ptmaxcnt := (c % 65536).toNat } := Function.update_self _ _ _
  have hcount : (d.gotrsem p c v).1.count p = c := Function.update_self _ _ _
  have henq : (d.gotrsem p c v).1.enqueued p = [] := Function.update_self _ _ _
  have hdeq : (d.gotrsem p c v).1.dequeued p = [] := Function.update_self _ _ _
  refine ⟨_, _, .made (fun q => ?_), S.keep hp ?_ rfl (fun q hq => ?_) rfl S.next⟩
  · by_cases hq : q = p
    · simp [setEntry, hq]
    · simp [setEntry, Function.update_of_ne hq]
  · rw [h2]
    refine ⟨by rw [hself]; exact h1, ⟨?_, by rw [hself]; rfl⟩, by rw [henq, hdeq]; rfl, ⟨by rw [hself, hcount], by rwa [hcount]⟩⟩
    rw [hself]
    exact seg_nil.mpr rfl
  · exact ⟨Function.update_of_ne hq _ _, Function.update_of_ne hq _ _, Function.update_of_ne hq _ _,
      Function.update_of_ne hq _ _, rfl, rfl⟩

/-- `ptsend` waits or fails. -/
theorem Sound.ptsend_turn (S : d.Sound own st) (hm : ∀ p c, st p ≠ .making c ∧ st p ≠ .half c) (portid : Int) (msg : Nat) :
    ∃ own' st', Turn d st v none (d.ptsend portid msg) st' ∧ (d.ptsend portid msg).1.Sound own' st' ∧ SameNodes own own' := by
  unfold Ports.ptsend
  simp only
  split
  · exact ⟨own, st, .ret nofun (SameSems.refl d), S, SameNodes.refl own⟩
  · next h =>
    rw [not_or, not_not] at h
    obtain ⟨hp, hlive⟩ := S.is_live h.2 (hm _)
    exact ⟨own, st, .sem nofun (SameSems.refl d) ⟨rfl, nofun⟩ hp hlive (Or.inl rfl) (Or.inl rfl), S, SameNodes.refl own⟩

/-- `ptrecv` waits or fails. -/
theorem Sound.ptrecv_turn (S : d.Sound own st) (hm : ∀ p c, st p ≠ .making c ∧ st p ≠ .half c) (portid : Int) :
    ∃ own' st', Turn d st v none (d.ptrecv portid) st' ∧ (d.ptrecv portid).1.Sound own' st' ∧ SameNodes own own' := by
  unfold Ports.ptrecv
  simp only
  split
  · exact ⟨own, st, .ret nofun (SameSems.refl d), S, SameNodes.refl own⟩
  · next h =>
    rw [not_or, not_not] at h
    obtain ⟨hp, hlive⟩ := S.is_live h.2 (hm _)
    exact ⟨own, st, .sem nofun (SameSems.refl d) ⟨rfl, nofun⟩ hp hlive (Or.inr rfl) (Or.inl rfl), S, SameNodes.refl own⟩

/-- Behind `wait`, `ptsend` takes a node from the free list, or fails. -/
theorem Sound.sendwaited_turn (S : d.Sound own st) (hm : ∀ p c, st p ≠ .making c ∧ st p ≠ .half c) (seq : Int) (msg : Nat) :
    ∃ own' st', Turn d st v (some (.sendwaited p seq msg)) (d.sendwaited p seq msg v) st' ∧
      (d.sendwaited p seq msg v).1.Sound own' st' ∧ SameNodes own own' := by
  have hf : ∀ g ∈ some (Point.sendwaited p seq msg), g.stage = none := by
    rintro g ⟨⟩
    rfl
  unfold Ports.sendwaited
  simp only
  split
  · exact ⟨own, st, .ret hf (SameSems.refl d), S, SameNodes.refl own⟩
  · next h =>
    rw [not_or, not_or, not_not] at h
    obtain ⟨hp, hlive⟩ := S.is_live h.2.1 (hm _)
    split
    · exact ⟨own, st, .stop hf, S, SameNodes.refl own⟩
    · next hfree =>
      obtain ⟨own', S'⟩ := S.enqueue hp hlive hfree msg
      have hsems : SameSems d (d.enqueue p msg) := by
        refine SameSems.entry (enqueue_fields d p msg).2.2.1 ?_ ?_ ?_
        all_goals split <;> rfl
      exact ⟨own', st, .sem hf hsems ⟨rfl, nofun⟩ hp hlive (Or.inr rfl) (Or.inr rfl), S'⟩

/-- Behind `wait`, `ptrecv` gives a node back, or fails. -/
theorem Sound.recvwaited_turn (S : d.Sound own st) (hm : ∀ p c, st p ≠ .making c ∧ st p ≠ .half c) (seq : Int) :
    ∃ own' st', Turn d st v (some (.recvwaited p seq)) (d.recvwaited p seq v) st' ∧
      (d.recvwaited p seq v).1.Sound own' st' ∧ SameNodes own own' := by
  have hf : ∀ g ∈ some (Point.recvwaited p seq), g.stage = none := by
    rintro g ⟨⟩
    rfl
  unfold Ports.recvwaited
  simp only
  split
  · exact ⟨own, st, .ret hf (SameSems.refl d), S, SameNodes.refl own⟩
  · next h =>
    rw [not_or, not_or, not_not] at h
    obtain ⟨hp, hlive⟩ := S.is_live h.2.1 (hm _)
    split
    · exact ⟨own, st, .stop hf, S, SameNodes.refl own⟩
    · next hhead =>
      obtain ⟨own', S'⟩ := S.dequeue hp hlive hhead
      have hsems : SameSems d (d.dequeue p) := by
        refine SameSems.entry (dequeue_fields d p).2.2.1 ?_ ?_ ?_
        all_goals split <;> rfl
      exact ⟨own', st, .sem hf hsems ⟨rfl, nofun⟩ hp hlive (Or.inl rfl) (Or.inr rfl), S'⟩

/-- The queue is empty, and the processes that wait to send are released. -/
theorem Limbo.release {newstate : PtState} (h : d.Limbo p newstate) (hd : d.disposed p = d.doomed p) :
    d.release p newstate = ((d.release p newstate).1,
        .call (freeing newstate (d.porttab p).ptssem (d.porttab p).ptmaxcnt) (.released p newstate)) ∧
      (d.release p newstate).1.At p [] (.released newstate) ∧ SameSems d (d.release p newstate).1 ∧
      (∀ q, q ≠ p → SamePort d (d.release p newstate).1 q) ∧ (d.release p newstate).1.node = d.node ∧
      (d.release p newstate).1.ptfree = d.ptfree ∧ (d.release p newstate).1.ptnextid = d.ptnextid := by
  unfold Ports.release freeing
  simp only
  split
  · have hself : ({ d with porttab := Function.update d.porttab p { d.porttab p with pttail := NULL, pthead := NULL } } : Ports).porttab
        p = { d.porttab p with pttail := NULL, pthead := NULL } := Function.update_self _ _ _
    refine ⟨rfl, ⟨⟨?_, h.sized.same ?_ rfl, h.quiet, h.newstate⟩, rfl, hd, fun _ => ?_⟩, SameSems.entry rfl rfl rfl rfl, fun q hq => ?_,
      rfl, rfl, rfl⟩
    · rw [setEntry, hself]
      exact h.state
    · rw [setEntry, hself]
    · rw [setEntry, hself]
      exact ⟨rfl, rfl⟩
    · exact ⟨Function.update_of_ne hq _ _, rfl, rfl, rfl, rfl, rfl⟩
  · next hne =>
    exact ⟨rfl, ⟨h, rfl, hd, fun e => absurd e hne⟩, SameSems.refl d, fun q _ => ⟨rfl, rfl, rfl, rfl, rfl, rfl⟩, rfl, rfl, rfl⟩

/-- The tables when a routine begins to clear a port. -/
def clearing (d : Ports) (p : Int) : Ports :=
  { d with
    doomed := Function.update d.doomed p ((d.enqueued p).drop (d.dequeued p).length)
    disposed := Function.update d.disposed p []
    enqueued := Function.update d.enqueued p []
    dequeued := Function.update d.dequeued p [] }.setEntry p
    { d.porttab p with ptstate := .PT_LIMBO, ptseq := int32 ((d.porttab p).ptseq + 1) }

/-- `_ptclear` puts a port in limbo with the messages it has. -/
theorem clearing_limbo {newstate : PtState} (hat : d.At p l .live) (hn : newstate = .PT_ALLOC ∨ newstate = .PT_FREE) :
    (d.clearing p).Limbo p newstate ∧ (d.clearing p).Queue p l ∧ (d.clearing p).doomed p = l.map Prod.snd ∧
      (d.clearing p).disposed p = [] ∧ (∀ q, q ≠ p → SamePort d (d.clearing p) q) ∧ SameSems d (d.clearing p) := by
  obtain ⟨h1, h2, h3, h4⟩ := hat
  have hself : (d.clearing p).porttab p = { d.porttab p with
    ptstate := .PT_LIMBO, ptseq := int32 ((d.porttab p).ptseq + 1) } := Function.update_self _ _ _
  have hdoom : (d.clearing p).doomed p = (d.enqueued p).drop (d.dequeued p).length := Function.update_self _ _ _
  refine ⟨⟨by rw [hself], h4.same (by rw [hself]) rfl, ⟨Function.update_self _ _ _, Function.update_self _ _ _⟩, hn⟩,
    ⟨by rw [hself]; exact h2.linked, by rw [hself]; exact h2.tail⟩, ?_, Function.update_self _ _ _, fun q hq => ?_,
    SameSems.entry rfl rfl rfl rfl⟩
  · rw [hdoom, h3, List.drop_left]
  · exact ⟨Function.update_of_ne hq _ _, rfl, Function.update_of_ne hq _ _, Function.update_of_ne hq _ _,
      Function.update_of_ne hq _ _, Function.update_of_ne hq _ _⟩

/-- `ptreset` and `ptdelete` begin to clear a port, or fail. -/
theorem Sound.ptreset_turn (S : d.Sound own st) (hm : ∀ p c, st p ≠ .making c ∧ st p ≠ .half c) (portid : Int)
    {newstate : PtState} (hn : newstate = .PT_ALLOC ∨ newstate = .PT_FREE) :
    ∃ own' st', Turn d st v none (d.ptreset portid newstate) st' ∧ (d.ptreset portid newstate).1.Sound own' st' ∧ SameNodes own own' := by
  unfold Ports.ptreset
  simp only
  split
  · exact ⟨own, st, .ret nofun (SameSems.refl d), S, SameNodes.refl own⟩
  · next h =>
    rw [not_or, not_not] at h
    generalize int32 portid = p at h ⊢
    obtain ⟨hp, hlive⟩ := S.is_live h.2 (hm _)
    have hat := S.port p hp
    rw [hlive] at hat
    obtain ⟨hlimbo, hqueue, hdoom, hdisp, hsame, hsems⟩ := clearing_limbo hat hn
    have hself : (d.clearing p).porttab p = { d.porttab p with
      ptstate := .PT_LIMBO, ptseq := int32 ((d.porttab p).ptseq + 1) } := Function.update_self _ _ _
    have hclear : d.ptclear p newstate = if (d.porttab p).pthead ≠ NULL then (d.clearing p).dispose p newstate (d.porttab p).pthead
        else (d.clearing p).release p newstate := rfl
    rw [hclear]
    split
    · next hhead =>
      refine ⟨_, _, .disposing hsems hp (Or.inl ⟨rfl, hlive⟩), S.keep hp ?_ rfl (fun q hq => ?_) rfl S.next⟩
      · obtain ⟨l, hown, _⟩ := hat.2.1.linked.pop hhead
        rw [hown] at hqueue hdoom ⊢
        refine ⟨⟨hlimbo.state, hlimbo.sized.same rfl rfl, hlimbo.quiet, hlimbo.newstate⟩, ⟨hqueue.linked, hqueue.tail⟩, hdoom, [],
          _, l, rfl, ?_⟩
        change Function.update (d.clearing p).disposed p _ p = _
        rw [Function.update_self, hdisp]
        rfl
      · have hs := hsame q hq
        exact ⟨hs.entry, hs.count, hs.enqueued, hs.dequeued, hs.doomed, (Function.update_of_ne hq _ _).trans hs.disposed⟩
    · next hhead =>
      have hnull : own (some p) = [] := hat.2.1.linked.null_iff.mp (not_not.mp hhead)
      rw [hnull] at hdoom
      obtain ⟨hx, hat', hsems', hsame', hnode, hfree, hnext⟩ := hlimbo.release (hdisp.trans hdoom.symm)
      rw [hx]
      refine ⟨_, _, ?_, S.keep hp (hnull ▸ hat') hfree (fun q hq => ?_) hnode (hnext ▸ S.next)⟩
      · rw [hself]
        refine .released (fun q => ?_) hp (Or.inl ⟨rfl, hlive⟩)
        exact ⟨(hsems' q).1.trans (hsems q).1, (hsems' q).2.1.trans (hsems q).2.1, (hsems' q).2.2.trans (hsems q).2.2⟩
      · have h1 := hsame q hq
        have h2 := hsame' q hq
        exact ⟨h2.entry.trans h1.entry, h2.count.trans h1.count, h2.enqueued.trans h1.enqueued, h2.dequeued.trans h1.dequeued,
          h2.doomed.trans h1.doomed, h2.disposed.trans h1.disposed⟩

/-- The nodes behind the one whose message has been disposed of. -/
theorem Linked.behind {a walk w : Nat} {l₁ l₂ : List (Nat × Nat)} (h : d.Linked a (l₁ ++ (walk, w) :: l₂)) :
    d.Linked (d.node walk).ptnext l₂ := by
  obtain ⟨c, _, hc⟩ := seg_append.mp h
  exact hc.2.2.2

/-- The walk through the queue goes on, or its nodes are given back. -/
theorem Sound.disposing_turn (S : d.Sound own st) {newstate : PtState} {walk : Nat} (hp : isbadport p = false)
    (hst : st p = .disposing newstate walk) :
    ∃ own' st', Turn d st v (some (.disposing p newstate walk)) (d.disposing p newstate walk) st' ∧
      (d.disposing p newstate walk).1.Sound own' st' ∧ SameNodes own own' := by
  have hat := S.port p hp
  rw [hst] at hat
  obtain ⟨hlimbo, hqueue, hdoom, l₁, w, l₂, hown, hdisp⟩ := hat
  have hrest := hqueue.linked
  rw [hown] at hrest
  have hrest := hrest.behind
  unfold Ports.disposing
  simp only
  split
  · next hnext =>
    obtain ⟨l₃, hl₂, _⟩ := hrest.pop hnext
    refine ⟨_, _, .disposing (SameSems.refl d) hp (Or.inr ⟨walk, rfl⟩), S.keep hp ?_ rfl (fun q hq => ?_) rfl S.next⟩
    · refine ⟨⟨hlimbo.state, hlimbo.sized.same rfl rfl, hlimbo.quiet, hlimbo.newstate⟩, ⟨hqueue.linked, hqueue.tail⟩, hdoom,
        l₁ ++ [(walk, w)], (d.node (d.node walk).ptnext).ptmsg, l₃, ?_, ?_⟩
      · rw [hown, hl₂, List.append_assoc]
        rfl
      · change Function.update d.disposed p _ p = _
        rw [Function.update_self, hdisp, List.map_append]
        rfl
    · exact ⟨rfl, rfl, rfl, rfl, rfl, Function.update_of_ne hq _ _⟩
  · next hnext =>
    have hl₂ : l₂ = [] := hrest.null_iff.mp (not_not.mp hnext)
    have hne : own (some p) ≠ [] := by
      rw [hown]
      simp
    have hdone : d.disposed p = d.doomed p := by
      rw [hdisp, hdoom, hown, hl₂, List.map_append]
      rfl
    have hlimbo' : (d.splice p).Limbo p newstate := ⟨hlimbo.state, hlimbo.sized.same rfl rfl, hlimbo.quiet, hlimbo.newstate⟩
    obtain ⟨hx, hat', hsems, hsame, hnode, hfree, hnp⟩ := hlimbo'.release hdone
    rw [hx]
    refine ⟨_, _, .released hsems hp (Or.inr ⟨walk, rfl⟩),
      S.change (l := []) (g := own (some p) ++ own none) hp hat' ?_ (List.Perm.refl _) (fun q hq => ?_) (fun a ha => ?_)
        (hnp ▸ S.next)⟩
    · rw [hfree]
      exact (splice_linked hqueue hne S.free (S.nodup p) (b := d.splice p) rfl).frame (fun x _ => congrFun hnode x.1)
    · have h := hsame q hq
      exact ⟨h.entry, h.count, h.enqueued, h.dequeued, h.doomed, h.disposed⟩
    · rw [hnode]
      refine Function.update_of_ne (fun e => ha ?_) _ _
      rcases List.eq_nil_or_concat (own (some p)) with e' | ⟨l, x, e'⟩
      · exact absurd e' hne
      · have ht := hqueue.tail
        rw [e', List.concat_eq_append, last_snoc] at ht
        rw [e, ht, e', List.concat_eq_append]
        simp

/-- The second semaphore of a port that is cleared. -/
theorem Sound.released_turn (S : d.Sound own st) {newstate : PtState} (hp : isbadport p = false)
    (hst : st p = .released newstate) :
    ∃ own' st', Turn d st v (some (.released p newstate)) (d.released p newstate) st' ∧
      (d.released p newstate).1.Sound own' st' ∧ SameNodes own own' := by
  have hat := S.port p hp
  rw [hst] at hat
  have hx : d.released p newstate = (d, .call (freeing newstate (d.porttab p).ptrsem 0) (.cleared p newstate)) := by
    unfold Ports.released freeing
    split <;> rfl
  rw [hx]
  exact ⟨_, _, .cleared (SameSems.refl d), S.keep hp hat rfl (fun _ _ => ⟨rfl, rfl, rfl, rfl, rfl, rfl⟩) rfl S.next⟩

/-- A cleared port is in use again, or free. -/
theorem Sound.cleared_turn (S : d.Sound own st) {newstate : PtState} (hp : isbadport p = false)
    (hst : st p = .cleared newstate) :
    ∃ own' st', Turn d st v (some (.cleared p newstate)) (d.cleared p newstate) st' ∧
      (d.cleared p newstate).1.Sound own' st' ∧ SameNodes own own' := by
  have hat := S.port p hp
  rw [hst] at hat
  obtain ⟨hlimbo, hown, hdone, hnull⟩ := hat
  have htab : (d.cleared p newstate).1.porttab = Function.update d.porttab p { d.porttab p with ptstate := newstate } := by
    unfold Ports.cleared
    simp only
    split <;> rfl
  have hself : (d.cleared p newstate).1.porttab p = { d.porttab p with ptstate := newstate } := by
    rw [htab, Function.update_self]
  have hother : (d.cleared p newstate).1.count = d.count ∧ (d.cleared p newstate).1.enqueued = d.enqueued ∧
      (d.cleared p newstate).1.dequeued = d.dequeued ∧ (d.cleared p newstate).1.doomed = d.doomed ∧
      (d.cleared p newstate).1.disposed = d.disposed ∧ (d.cleared p newstate).1.node = d.node ∧
      (d.cleared p newstate).1.ptfree = d.ptfree := by
    unfold Ports.cleared
    simp only
    split <;> exact ⟨rfl, rfl, rfl, rfl, rfl, rfl, rfl⟩
  obtain ⟨h1, h2, h3, h4, h5, h6, h7⟩ := hother
  refine ⟨_, _, .done (SameSems.entry htab rfl rfl rfl), S.keep hp ?_ h7 (fun q hq => ?_) h6 ?_⟩
  · rw [hown]
    split
    · next hn =>
      obtain ⟨hhead, htail⟩ := hnull hn
      refine ⟨by rw [hself, hn], ⟨?_, ?_⟩, ?_, hlimbo.sized.same (by rw [hself]) (by rw [h1])⟩
      · rw [hself]
        exact seg_nil.mpr hhead
      · rw [hself]
        exact htail
      · rw [h2, h3, hlimbo.quiet.1, hlimbo.quiet.2]
        rfl
    · next hn =>
      exact ⟨by rw [hself]; exact hlimbo.newstate.resolve_left hn, rfl⟩
  · exact ⟨by rw [htab, Function.update_of_ne hq], by rw [h1], by rw [h2], by rw [h3], by rw [h4], by rw [h5]⟩
  · unfold Ports.cleared
    simp only
    split
    · exact S.next
    · exact hp

/-- The first piece of a routine. -/
theorem Sound.enter_turn (S : d.Sound own st) (pid v : Int) (hm : ∀ p c, st p ≠ .making c ∧ st p ≠ .half c)
    {o : Op} (ho : ∀ n, o ≠ .ptinit n) :
    ∃ own' st', Turn d st v none (ports.enter d pid o) st' ∧ (ports.enter d pid o).1.Sound own' st' ∧ SameNodes own own' := by
  cases o with
  | ptinit n => exact absurd rfl (ho n)
  | ptcreate count => exact S.ptcreate_turn count
  | ptsend portid msg => exact S.ptsend_turn hm portid msg
  | ptrecv portid => exact S.ptrecv_turn hm portid
  | ptreset portid => exact S.ptreset_turn hm portid (Or.inl rfl)
  | ptdelete portid => exact S.ptreset_turn hm portid (Or.inr rfl)

/-- A later piece. -/
theorem Sound.resume_turn (S : d.Sound own st) (pid v : Int) {f : Point} (hf : ∀ p σ, f.stage = some (p, σ) → isbadport p = false ∧ st p = σ)
    (hm : ∀ p c, (st p = .making c → f = .gotssem p c) ∧ (st p = .half c → f = .gotrsem p c)) (hn : ∀ n, f ≠ .gotnodes n) :
    ∃ own' st', Turn d st v (some f) (ports.resume d pid f v) st' ∧ (ports.resume d pid f v).1.Sound own' st' ∧ SameNodes own own' := by
  have hquiet : f.stage = none → ∀ p c, st p ≠ .making c ∧ st p ≠ .half c := by
    intro hs p c
    refine ⟨fun e => ?_, fun e => ?_⟩
    · rw [(hm p c).1 e] at hs
      cases hs
    · rw [(hm p c).2 e] at hs
      cases hs
  cases f with
  | gotnodes n => exact absurd rfl (hn n)
  | gotssem p c =>
    obtain ⟨hp, hst⟩ := hf p _ rfl
    exact S.gotssem_turn hp hst
  | gotrsem p c =>
    obtain ⟨hp, hst⟩ := hf p _ rfl
    exact S.gotrsem_turn hp hst
  | sendwaited p seq msg => exact S.sendwaited_turn (hquiet rfl) seq msg
  | sent => exact ⟨own, st, .ret (by rintro g ⟨⟩; rfl) (SameSems.refl d), S, SameNodes.refl own⟩
  | recvwaited p seq => exact S.recvwaited_turn (hquiet rfl) seq
  | received msg => exact ⟨own, st, .ret (by rintro g ⟨⟩; rfl) (SameSems.refl d), S, SameNodes.refl own⟩
  | disposing p newstate walk =>
    obtain ⟨hp, hst⟩ := hf p _ rfl
    exact S.disposing_turn hp hst
  | released p newstate =>
    obtain ⟨hp, hst⟩ := hf p _ rfl
    exact S.released_turn hp hst
  | cleared p newstate =>
    obtain ⟨hp, hst⟩ := hf p _ rfl
    exact S.cleared_turn hp hst

end Turns

/-! ## The first state -/

/-- The tables as `ptinit` leaves them, with `n` nodes from `buf` on. -/
def started (n : Int) (buf : Nat) : Ports :=
  { init with
    ptfree := buf
    porttab := fun p => if isbadport p then init.porttab p else { init.porttab p with ptstate := .PT_FREE, ptseq := 0 }
    node := linkNodes (n - 1).toNat buf init.node }

/-- Linking the nodes writes no address below them. -/
theorem linkNodes_below {n curr a : Nat} (node : Nat → Ptnode) (ha : a < curr) (hfit : curr + nodeSize * n < 4294967296) :
    linkNodes n curr node a = node a := by
  unfold nodeSize at hfit
  induction n generalizing curr node with
  | zero => exact Function.update_of_ne (by omega) _ _
  | succ n ih =>
    have hmod : (curr + nodeSize) % 4294967296 = curr + 8 := Nat.mod_eq_of_lt (by unfold nodeSize; omega)
    rw [linkNodes, hmod, ih _ (by omega) (by omega)]
    exact Function.update_of_ne (by omega) _ _

/-- The loop of `ptinit` links the nodes one after the other. -/
theorem linkNodes_linked {n curr : Nat} (node : Nat → Ptnode) (hpos : 0 < curr) (hfit : curr + nodeSize * n < 4294967296) :
    ∃ l : List (Nat × Nat), l.map Prod.fst = List.range' curr (n + 1) nodeSize ∧
      Seg (fun a => (linkNodes n curr node a).ptnext) (fun a => (linkNodes n curr node a).ptmsg) NULL curr l NULL := by
  induction n generalizing curr node with
  | zero =>
    refine ⟨[(curr, (node curr).ptmsg)], rfl, rfl, Nat.pos_iff_ne_zero.mp hpos, ?_, ?_⟩
    · simp only [linkNodes, Function.update_self]
    · simp only [linkNodes, Function.update_self]
      exact seg_nil.mpr rfl
  | succ n ih =>
    have hfit' : curr + 8 * (n + 1) < 4294967296 := hfit
    have hmod : (curr + nodeSize) % 4294967296 = curr + nodeSize := Nat.mod_eq_of_lt (by unfold nodeSize; omega)
    have hnode : linkNodes (n + 1) curr node =
        linkNodes n (curr + nodeSize) (Function.update node curr { node curr with ptnext := curr + nodeSize }) := by
      rw [linkNodes, hmod]
    have hfit'' : curr + nodeSize + nodeSize * n < 4294967296 := by
      unfold nodeSize
      omega
    have hself := linkNodes_below (n := n) (a := curr) (Function.update node curr { node curr with ptnext := curr + nodeSize })
      (by unfold nodeSize; omega) hfit''
    rw [Function.update_self] at hself
    obtain ⟨l, hl, hseg⟩ := ih (Function.update node curr { node curr with ptnext := curr + nodeSize })
      (Nat.add_pos_left hpos _) hfit''
    refine ⟨(curr, (node curr).ptmsg) :: l, ?_, rfl, Nat.pos_iff_ne_zero.mp hpos, ?_, ?_⟩
    · rw [List.map_cons, hl]
      rfl
    · simp only [hnode, hself]
    · rw [hnode]
      simp only [hself]
      exact hseg

/-- `ptinit` behind a call of `getmem` that has not failed. -/
theorem gotnodes_tables (d : Ports) {n : Int} {buf : Nat} (hsys : int32 buf ≠ SYSERR) :
    (d.gotnodes n buf).1 = { d with
      ptfree := uint32 buf
      porttab := fun p => if isbadport p then d.porttab p else { d.porttab p with ptstate := .PT_FREE, ptseq := 0 }
      ptnextid := 0
      node := linkNodes (int32 (n - 1)).toNat (uint32 buf) d.node } := by
  unfold Ports.gotnodes
  simp only
  rw [if_neg hsys]

/-- `ptinit` stops the processor when `getmem` has failed. -/
theorem gotnodes_next (d : Ports) (n buf : Int) :
    (d.gotnodes n buf).2 = if int32 buf = SYSERR then .stop .panicked else .ret OK := by
  unfold Ports.gotnodes
  simp only
  split <;> rfl

/-- `ptinit` called before any other routine, with memory for its nodes. -/
theorem gotnodes_init {n : Int} {buf : Nat} (hn : 1 ≤ n) (hfit : buf + 8 * n ≤ 4294967296) :
    (init.gotnodes n buf).1 = started n buf := by
  have hb : uint32 buf = buf := by
    unfold uint32
    omega
  have hsys : int32 buf ≠ SYSERR := by
    unfold int32 SYSERR
    omega
  have hcount : int32 (n - 1) = n - 1 := int32_of_range (by omega) (by omega)
  rw [gotnodes_tables _ hsys, hb, hcount]
  rfl

/-- Behind `ptinit` all nodes are on the free list. -/
theorem started_sound {n : Int} {buf : Nat} (hn : 1 ≤ n) (hbuf : 0 < buf) (hfit : buf + 8 * n ≤ 4294967296) :
    ∃ own, (started n buf).Sound own (fun _ => .idle) ∧ (own none).map Prod.fst = List.range' buf n.toNat nodeSize ∧
      ∀ p, own (some p) = [] := by
  obtain ⟨l, hl, hseg⟩ := linkNodes_linked (n := (n - 1).toNat) init.node hbuf (by unfold nodeSize; omega)
  have hcount : (n - 1).toNat + 1 = n.toNat := by omega
  have hfree : ∀ p, ((started n buf).porttab p).ptstate = .PT_FREE := by
    intro p
    change (if isbadport p then init.porttab p else _).ptstate = _
    split <;> rfl
  refine ⟨fun i => if i = none then l else [], ⟨hseg, ⟨fun i => ?_, fun i j hij x hx => ?_⟩, fun p _ => ⟨hfree p, rfl⟩,
    fun p _ => hfree p, rfl⟩, hcount ▸ hl, fun p => rfl⟩
  · split
    · rw [hl]
      exact List.nodup_range' nodeSize (by decide)
    · exact List.nodup_nil
  · split at hx
    · next hi =>
      rw [if_neg (fun e => hij (hi.trans e.symm))]
      simp
    · cases hx

end Ports

end Port

end Xinu
