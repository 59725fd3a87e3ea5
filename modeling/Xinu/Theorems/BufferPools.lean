import Xinu.Kernel.Prompt
import Xinu.Kernel.Nesting
import Xinu.Memory.PoolChains

/-!
# The buffer pools in every run

The free chain of a pool is as long as the count of its semaphore says, with the processes that `signal` has released and that have
not taken their buffer yet (`buffer_pools`).
-/

namespace Xinu

namespace Bufpool

open Table Blocks

/-! ## Events -/

/-- Inside `mkbufpool`. -/
def Point.making : Point → Bool
  | .gotmem _ _ | .gotsem _ _ _ _ | .undone => true
  | .waited _ | .signalled => false

/-- Behind the call of `wait` for the pool. -/
def Point.takes (p : Int) : Point → Bool
  | .waited q => decide (q = p)
  | _ => false

/-- A pool fits in the block it is made of. -/
theorem newPool_fits {buf : Nat} {bufsiz numbufs : Int} {h : Heap} {bs : List (Nat × Nat)} (hsz : Sizes bufsiz numbufs)
    (hs : h.Stores ((newPool buf bufsiz numbufs).block :: bs)) : (newPool buf bufsiz numbufs).Fits := by
  have hbytes := (newPool_bytes buf hsz).2
  obtain ⟨hpos, htop⟩ := hs.range List.mem_cons_self
  obtain ⟨h1, h2, h3, h4⟩ := hsz
  have hbufs : BP_MAXN = 2048 := rfl
  have hsize : 0 < (newPool buf bufsiz numbufs).size := by
    simp only [newPool, bpidSize]
    omega
  have hnum : 1 ≤ (newPool buf bufsiz numbufs).numbufs ∧ (newPool buf bufsiz numbufs).numbufs ≤ 2048 := by
    simp only [newPool]
    omega
  have hround := (roundmb_spec (n := (newPool buf bufsiz numbufs).block.2)
    (Nat.mul_ne_zero (by omega) (by omega)) (by omega)).1
  refine ⟨hsize, ?_, hnum, hpos, ?_⟩
  · change (newPool buf bufsiz numbufs).block.2 ≤ _
    omega
  · change _ + (newPool buf bufsiz numbufs).block.2 < _
    exact Nat.lt_of_le_of_lt (Nat.add_le_add_left hround _) htop

/-- All pools below `n` are made. -/
def Complete (d : Bufpools) (n : Int) : Prop := ∀ p, 0 ≤ p → p < n → (d.made p).isSome

/-- A semaphore that nobody has used. -/
structure NewSem (k : Kernel QueueTab) (d : Bufpools) (sem n : Int) : Prop where
  good : isbadsem sem = false
  entry : k.semtab sem = ⟨.S_USED, n⟩
  fits : CountFits sem k.log
  idle : ∀ q, ¬k.Waits sem q
  fresh : ∀ p, (d.made p).isSome → (d.buftab p).bpsem ≠ sem

/-- What holds inside `mkbufpool`, and of what has been returned to it. -/
def Making (k : Kernel QueueTab) (d : Bufpools) : Point → Int → Prop
  | .gotmem bufsiz numbufs, buf =>
    Sizes bufsiz numbufs ∧ d.nbpools < NBPOOLS ∧ Complete d d.nbpools ∧
      (int32 buf = SYSERR ∨ k.heap.Stores ((newPool (uint32 buf) bufsiz numbufs).block :: d.blocks))
  | .gotsem p buf bufsiz numbufs, sem =>
    (Sizes bufsiz numbufs ∧ 0 ≤ p ∧ d.nbpools = p + 1 ∧ Complete d p ∧ d.made p = none) ∧
      (d.buftab p).bpnext = buf ∧ k.heap.Stores ((newPool buf bufsiz numbufs).block :: d.blocks) ∧
      (sem = SYSERR ∨ NewSem k d sem numbufs)
  | .undone, _ => 0 < d.nbpools ∧ Complete d (d.nbpools - 1) ∧ d.made (d.nbpools - 1) = none
  | _, _ => True

end Bufpool

open Bufpool

namespace Machine

variable (m : Machine pools)

/-- User code does not use the semaphores of the pools, and no process is removed that waits for a buffer or has been released and
has not taken it. -/
def PoolsAlone (e : Event pools) : Bool :=
  (match e with
    | .call c => (List.range 20).all fun p => !(m.data.made p).isSome || !c.touches (m.data.buftab p).bpsem
    | _ => true) &&
  (match m.removes e with
    | some pid => (routines (m.context pid)).all fun f => match f with | .waited _ => false | _ => true
    | none => true)

/-- `freebuf` is called for a buffer that a caller has. -/
def FreesHeld (e : Event pools) : Bool :=
  match e with
  | .op (.freebuf bufaddr) => m.data.held.any fun x => decide (x.2 = Heap.sub32 bufaddr bpidSize)
  | _ => true

end Machine

/-- What holds between events. -/
structure Pooled (m : Machine pools) : Prop where
  sound : m.data.Sound
  stores : m.k.heap.Stores m.data.blocks
  leaf : ∀ p, Leaf (m.context p)
  answered : Answered m Point.making Making
  complete : (∀ p, ∀ f ∈ routines (m.context p), f.making = false) → Complete m.data m.data.nbpools
  users : ∀ q p, .waited p ∈ routines (m.context q) → (m.data.made p).isSome
  kept : ∀ p, (m.data.made p).isSome → Kept m (m.data.buftab p).bpsem (Point.takes p)
  count : ∀ p l, (m.data.made p).isSome → Table.Chain m.data.word NULL (m.data.buftab p).bpnext l →
    (l.length : Int) = m.units (m.data.buftab p).bpsem (Point.takes p)

section Step

variable {m m' : Machine pools} {e : Event pools} {h h' : Kernel QLists} {x : Bufpools × Next Point}

/-- Whoever is inside `mkbufpool` is the current process, and goes on next. -/
theorem Pooled.resumes (I : Pooled m) (hs : m.step e = some m') {q : Int} {f : Point} (hf : f ∈ routines (m.context q))
    (hm : f.making = true) : ∃ v, m.resumed e = some (f, v) := by
  rcases I.leaf q with hnil | ⟨r, f', l', hl, hl', _⟩
  · rw [hnil] at hf
    cases hf
  · rw [hl, Machine.routines_kernel, Machine.routines_client, hl', List.mem_singleton] at hf
    subst hf
    obtain ⟨rfl, v, rfl, _⟩ := I.answered.top q r f l' hl hm
    have hstk : m.stack = .kernel (.ret v) :: .client f :: l' := hl
    cases e with
    | cont => exact ⟨v, by simp only [Machine.resumed, hstk]⟩
    | call c | op o | tick | ret =>
      simp only [Machine.step, hstk, userMode] at hs
      split at hs <;> simp_all

/-- In an event that does not go on inside `mkbufpool` all pools are made. -/
theorem Pooled.complete_of (I : Pooled m) (hs : m.step e = some m') (hr : ∀ f v, m.resumed e = some (f, v) → f.making = false) :
    Complete m.data m.data.nbpools := by
  refine I.complete fun q f hf => ?_
  by_contra hm
  obtain ⟨v, hv⟩ := I.resumes hs hf (by simpa using hm)
  exact hm (hr f v hv)

/-- By how much a segment changes the units of the semaphore of the pool. -/
def poolGain (s p : Int) (leaves : Nat) (n : Next Point) : Int :=
  n.signals s - n.waits s + n.routine.toList.countP (Point.takes p) - leaves

/-- The system call, made inside `mkbufpool`, returns at once, and what holds there does then. -/
structure Told (k : Kernel QueueTab) (d : Bufpools) (c : Call) (f : Point) : Prop where
  currpid : (k.call c).1.currpid = k.currpid
  stores : (k.call c).1.heap.Stores d.blocks
  value : ∃ v, (k.call c).2 = .ret v ∧ Making (k.call c).1 d f v

/-- What a segment asks of the kernel, and what it does to the pools. -/
structure PoolSegment (k : Kernel QueueTab) (d : Bufpools) (leaves : Int → Nat) (x : Bufpools × Next Point) : Prop where
  sound : x.1.Sound
  complete : (∀ f, x.2.routine = some f → f.making = false) → Complete x.1 x.1.nbpools
  users : ∀ p, x.2.routine = some (.waited p) → (d.made p).isSome
  calls : ∀ c f, x.2 = .call c f →
    (∃ p, (d.made p).isSome ∧ c = .wait (d.buftab p).bpsem ∧ f = .waited p) ∨
      (∃ p, (d.made p).isSome ∧ c = .signal (d.buftab p).bpsem ∧ f = .signalled) ∨
      (f.making = true ∧ ((∃ n, c = .getmem n) ∨ (∃ n, c = .semcreate n) ∨ ∃ a n, c = .freemem a n))
  told : ∀ c f, x.2 = .call c f → f.making = true → Told k x.1 c f
  callback : ∀ f, x.2 ≠ .callback f
  stop : ∀ st, x.2 ≠ .stop st
  stores : k.heap.Stores d.blocks → k.heap.Stores x.1.blocks
  old : ∀ p, (d.made p).isSome → x.1.made p = d.made p ∧ (x.1.buftab p).bpsem = (d.buftab p).bpsem
  count : ∀ p l, (d.made p).isSome → Table.Chain x.1.word NULL (x.1.buftab p).bpnext l →
    ∃ l₀, Table.Chain d.word NULL (d.buftab p).bpnext l₀ ∧
      (l.length : Int) = l₀.length + poolGain (d.buftab p).bpsem p (leaves p) x.2
  new : x.1.made = d.made ∨ ∃ p g, d.made p = none ∧ x.1.made = Function.update d.made p (some g) ∧
    NewSem k d (x.1.buftab p).bpsem g.numbufs ∧ Table.Chain x.1.word NULL (x.1.buftab p).bpnext g.slots ∧ x.2 = .ret p

variable {k : Kernel QueueTab} {d : Bufpools} {leaves : Int → Nat}

namespace PoolSegment

variable {n : Next Point}

/-- A segment that leaves the pools alone. -/
theorem idle (H : d.Sound) (hc : (∀ f, n.routine = some f → f.making = false) → Complete d d.nbpools)
    (hu : ∀ p, n.routine = some (.waited p) → (d.made p).isSome)
    (hcalls : ∀ c f, n = .call c f → (∃ p, (d.made p).isSome ∧ c = .wait (d.buftab p).bpsem ∧ f = .waited p) ∨
      (f.making = true ∧ ((∃ n, c = .getmem n) ∨ (∃ n, c = .semcreate n) ∨ ∃ a n, c = .freemem a n)))
    (ht : ∀ c f, n = .call c f → f.making = true → Told k d c f) (hcb : ∀ f, n ≠ .callback f) (hst : ∀ st, n ≠ .stop st)
    (hgain : ∀ p, (d.made p).isSome → poolGain (d.buftab p).bpsem p (leaves p) n = 0) : PoolSegment k d leaves (d, n) := by
  refine ⟨H, hc, hu, fun c f h => ?_, ht, hcb, hst, id, fun p _ => ⟨rfl, rfl⟩, fun p l hp hl => ⟨l, hl, ?_⟩, Or.inl rfl⟩
  · exact (hcalls c f h).imp_right Or.inr
  · rw [hgain p hp, Int.add_zero]

/-- A segment that returns. -/
theorem ret (H : d.Sound) (hc : Complete d d.nbpools) (hl : ∀ p, leaves p = 0) (v : Int) : PoolSegment k d leaves (d, .ret v) := by
  refine idle H (fun _ => hc) nofun (fun c f h => (by cases h)) (fun c f h _ => (by cases h)) nofun nofun fun p _ => ?_
  simp [poolGain, Next.signals, Next.waits, Next.routine, hl p]

end PoolSegment

/-- What `mkbufpool` may ask of the heap. -/
theorem told_getmem (hst : k.heap.Stores d.blocks) {bufsiz numbufs : Int} (hsz : Sizes bufsiz numbufs) (hlt : d.nbpools < NBPOOLS)
    (hc : Complete d d.nbpools) : Told k d (.getmem (uint32 (numbufs * (bufsiz + bpidSize)))) (.gotmem bufsiz numbufs) := by
  obtain ⟨hn, hle⟩ := newPool_bytes 0 hsz
  have hbytes : uint32 (numbufs * (bufsiz + bpidSize)) % 4294967296 = (newPool 0 bufsiz numbufs).block.2 := by
    unfold uint32
    omega
  rcases hst.getmem (n := (newPool 0 bufsiz numbufs).block.2) (by omega) with e | ⟨a, h', e, H'⟩
  · refine ⟨?_, ?_, SYSERR, ?_, hsz, hlt, hc, Or.inl rfl⟩ <;> simp only [Kernel.call, hbytes, e]
    exact hst
  · have hlt' := (H'.range List.mem_cons_self).2
    have hid : uint32 (a : Int) = a := by
      unfold uint32
      omega
    refine ⟨?_, ?_, a, ?_, hsz, hlt, hc, Or.inr ?_⟩ <;> simp only [Kernel.call, hbytes, e]
    · exact H'.mono (List.sublist_cons_self _ _).subperm
    · rw [hid]
      exact H'

/-- It gives back the block it got. -/
theorem told_freemem {buf : Nat} {bufsiz numbufs : Int} (hst : k.heap.Stores ((newPool buf bufsiz numbufs).block :: d.blocks))
    (hsz : Sizes bufsiz numbufs) (hp : 0 < d.nbpools) (hc : Complete d (d.nbpools - 1)) (hnone : d.made (d.nbpools - 1) = none) :
    Told k d (.freemem buf (uint32 (numbufs * (bufsiz + bpidSize)))) .undone := by
  obtain ⟨hn, hle⟩ := newPool_bytes buf hsz
  have hbytes : uint32 (numbufs * (bufsiz + bpidSize)) % 4294967296 = (newPool buf bufsiz numbufs).block.2 := by
    unfold uint32
    omega
  have hbuf : buf % 4294967296 = (newPool buf bufsiz numbufs).block.1 := by
    have := (hst.range List.mem_cons_self).2
    exact Nat.mod_eq_of_lt (Nat.lt_of_le_of_lt (Nat.le_add_right _ _) this)
  have H' := hst.freemem List.mem_cons_self
  rw [List.erase_cons_head] at H'
  refine ⟨rfl, ?_, _, rfl, hp, hc, hnone⟩
  simp only [Kernel.call, hbytes, hbuf]
  exact H'

/-- What is returned by `semcreate` is the identifier of a semaphore that was not in use. -/
def CreatesNew (k : Kernel QueueTab) : Prop := ∀ n, int32 n = n →
  (k.semcreate n).1.currpid = k.currpid ∧ ∃ v, (k.semcreate n).2 = .ret v ∧
    (v = SYSERR ∨ isbadsem v = false ∧ (k.semtab v).sstate = .S_FREE ∧ (k.semcreate n).1.semtab v = ⟨.S_USED, n⟩ ∧
      CountFits v (k.semcreate n).1.log ∧ ∀ q, ¬(k.semcreate n).1.Waits v q)

/-- It may ask for a semaphore, and gets one that no pool has. -/
theorem told_semcreate {p : Int} {buf : Nat} {bufsiz numbufs : Int}
    (hst : k.heap.Stores ((newPool buf bufsiz numbufs).block :: d.blocks)) (hnew : CreatesNew k)
    (hused : ∀ q, (d.made q).isSome → (k.semtab (d.buftab q).bpsem).sstate = .S_USED)
    (hW : Sizes bufsiz numbufs ∧ 0 ≤ p ∧ d.nbpools = p + 1 ∧ Complete d p ∧ d.made p = none) (hbuf : (d.buftab p).bpnext = buf) :
    Told k d (.semcreate numbufs) (.gotsem p buf bufsiz numbufs) := by
  have hbufs : BP_MAXN = 2048 := rfl
  have hheap : (k.call (.semcreate numbufs)).1.heap = k.heap := call_heap k rfl
  obtain ⟨hcur, v, hv, hres⟩ := hnew numbufs (int32_of_range (by have := hW.1.2.2; omega) (by have := hW.1.2.2; omega))
  refine ⟨hcur, ?_, v, hv, hW, hbuf, ?_, hres.imp_right fun ⟨h1, h2, h3, h4, h5⟩ => ⟨h1, h3, h4, h5, fun q hq he => ?_⟩⟩
  · rw [hheap]
    exact hst.mono (List.sublist_cons_self _ _).subperm
  · rw [hheap]
    exact hst
  · have := hused q hq
    rw [he, h2] at this
    cases this

/-- `mkbufpool` up to its first call. -/
theorem mkbufpool_segment (H : d.Sound) (hc : Complete d d.nbpools) (hst : k.heap.Stores d.blocks)
    (hl : ∀ p, leaves p = 0) (bufsiz numbufs : Int) : PoolSegment k d leaves (d.mkbufpool bufsiz numbufs) := by
  unfold Bufpools.mkbufpool
  simp only
  split_ifs with hargs
  · exact PoolSegment.ret H hc hl _
  · have hmin : BP_MINB = 8 := rfl
    have hmax : BP_MAXB = 8192 := rfl
    have hsz : Sizes ((int32 bufsiz + 3) / 4 * 4) (int32 numbufs) := ⟨by omega, by omega, by omega, by omega⟩
    refine PoolSegment.idle H (fun _ => hc) nofun (fun c f h => ?_) (fun c f h _ => ?_) nofun nofun fun p _ => ?_
    · obtain ⟨rfl, rfl⟩ := Next.call.inj h
      exact Or.inr ⟨rfl, Or.inl ⟨_, rfl⟩⟩
    · obtain ⟨rfl, rfl⟩ := Next.call.inj h
      exact told_getmem hst hsz (by omega) hc
    · simp [poolGain, Next.signals, Call.signals, Next.waits, Call.waits, Next.routine, Point.takes, hl p]

/-- `getbuf` waits for the semaphore of a pool that is made. -/
theorem getbuf_segment (H : d.Sound) (hc : Complete d d.nbpools)
    (hl : ∀ p, leaves p = 0) (poolid : Int) : PoolSegment k d leaves (d.getbuf poolid) := by
  unfold Bufpools.getbuf
  simp only
  split_ifs with hr
  · exact PoolSegment.ret H hc hl _
  · have hm : (d.made (int32 poolid)).isSome := hc _ (by omega) (by omega)
    refine PoolSegment.idle H (fun _ => hc) (fun p h => ?_) (fun c f h => ?_) (fun c f h hm => ?_) nofun nofun fun p hp => ?_
    · obtain rfl := Point.waited.inj (Option.some.inj h)
      exact hm
    · obtain ⟨rfl, rfl⟩ := Next.call.inj h
      exact Or.inl ⟨_, hm, rfl, rfl⟩
    · obtain ⟨rfl, rfl⟩ := Next.call.inj h
      cases hm
    · by_cases hne : int32 poolid = p
      · simp [poolGain, Next.signals, Call.signals, Next.waits, Call.waits, Next.routine, Point.takes, hl p, hne]
      · have hsem := H.sems _ _ hm hp hne
        simp [poolGain, Next.signals, Call.signals, Next.waits, Call.waits, Next.routine, Point.takes, hl p, hne, hsem]

/-- `freebuf` up to its call of `signal`. -/
theorem freebuf_segment (H : d.Sound) (hc : Complete d d.nbpools)
    (hl : ∀ p, leaves p = 0) {bufaddr : Nat} {p : Int} (hheld : (p, Heap.sub32 bufaddr bpidSize) ∈ d.held) :
    PoolSegment k d leaves (d.freebuf bufaddr) := by
  have hm := (H.held p _ hheld).1
  obtain ⟨g, hg⟩ := Option.isSome_iff_exists.mp hm
  obtain ⟨l, hl₀, _⟩ := H.pool p g hg
  obtain ⟨S, hchain⟩ := H.insert hg hheld hl₀
  rw [H.freebuf_held hheld]
  refine ⟨S, fun _ => hc, nofun, fun c f h => ?_, fun c f h hm => ?_, nofun, nofun, id, fun q _ => ⟨rfl, ?_⟩,
    fun q l' hq hl' => ?_, Or.inl rfl⟩
  · obtain ⟨rfl, rfl⟩ := Next.call.inj h
    exact Or.inr (Or.inl ⟨p, hm, rfl, rfl⟩)
  · obtain ⟨rfl, rfl⟩ := Next.call.inj h
    cases hm
  · by_cases hqp : q = p
    · rw [hqp]
      simp [Bufpools.insert, Bufpools.setEntry]
    · exact congrArg Bpentry.bpsem (Function.update_of_ne hqp _ _)
  · by_cases hqp : q = p
    · subst hqp
      refine ⟨l, hl₀, ?_⟩
      rw [hl'.unique hchain]
      simp [poolGain, Next.signals, Call.signals, Next.waits, Call.waits, Next.routine, Point.takes, hl q]
    · obtain ⟨l₁, hc₁, hc₂⟩ := H.other_chain (t := d.insert p (Heap.sub32 bufaddr bpidSize)) hg (H.held_slot hg hheld) hq hqp
        rfl (Function.update_of_ne hqp _ _)
      refine ⟨l₁, hc₁, ?_⟩
      have hsem := H.sems _ _ hm hq (Ne.symm hqp)
      rw [hl'.unique hc₂]
      simp [poolGain, Next.signals, Call.signals, Next.waits, Call.waits, Next.routine, Point.takes, hl q, hsem]

/-- `getbuf` takes a buffer that is there. -/
theorem waited_segment (H : d.Sound) (hc : Complete d d.nbpools) {p : Int}
    (hl : ∀ q, leaves q = [Point.waited p].countP (Point.takes q)) (hm : (d.made p).isSome)
    (hpos : ∀ l, Table.Chain d.word NULL (d.buftab p).bpnext l → 1 ≤ l.length) :
    PoolSegment k d leaves (d.waited p) := by
  obtain ⟨g, hg⟩ := Option.isSome_iff_exists.mp hm
  obtain ⟨l₀, hl₀, _⟩ := H.pool p g hg
  obtain ⟨a, l, rfl⟩ := List.exists_cons_of_length_pos (hpos l₀ hl₀)
  obtain ⟨S, hchain⟩ := H.unlink hg hl₀
  have hhead : (d.buftab p).bpnext = a := hl₀.1
  have hne : a ≠ NULL := hl₀.2.1
  have hslot := (H.nodup hg hl₀).2 a List.mem_cons_self
  have heq : d.waited p = (d.unlink p a, .ret (a + bpidSize : Nat)) := by simp only [Bufpools.waited, hhead, if_neg hne]
  rw [heq]
  refine ⟨S, fun _ => hc, nofun, fun c f h => (by cases h), fun c f h _ => (by cases h), nofun, nofun, id,
    fun q _ => ⟨rfl, ?_⟩, fun q l' hq hl' => ?_, Or.inl rfl⟩
  · by_cases hqp : q = p
    · rw [hqp]
      simp [Bufpools.unlink, Bufpools.setEntry, Bufpools.setWord]
    · exact congrArg Bpentry.bpsem (Function.update_of_ne hqp _ _)
  · by_cases hqp : q = p
    · subst hqp
      refine ⟨a :: l, hl₀, ?_⟩
      rw [hl'.unique hchain, hl q]
      simp [poolGain, Next.signals, Next.waits, Next.routine, Point.takes]
    · obtain ⟨l₁, hc₁, hc₂⟩ := H.other_chain (t := d.unlink p a) hg hslot hq hqp rfl (Function.update_of_ne hqp _ _)
      refine ⟨l₁, hc₁, ?_⟩
      rw [hl'.unique hc₂, hl q]
      simp [poolGain, Next.signals, Next.waits, Next.routine, Point.takes, Ne.symm hqp]

/-- `mkbufpool` enters the block in the next entry of the table. -/
theorem gotmem_segment (H : d.Sound) (hl : ∀ p, leaves p = 0) (hnew : CreatesNew k)
    (hused : ∀ q, (d.made q).isSome → (k.semtab (d.buftab q).bpsem).sstate = .S_USED) {bufsiz numbufs : Int}
    {buf : Int} (hW : Making k d (.gotmem bufsiz numbufs) buf) :
    PoolSegment k d leaves (d.gotmem bufsiz numbufs buf) := by
  obtain ⟨hsz, hlt, hc, hst⟩ := hW
  unfold Bufpools.gotmem
  split_ifs with hv
  · exact PoolSegment.ret H hc hl _
  · have hnone : d.made d.nbpools = none := by
      by_contra hne
      obtain ⟨g, hg⟩ := Option.ne_none_iff_exists'.mp hne
      have := (H.range _ g hg).2
      omega
    have hold : ∀ q, (d.made q).isSome → q ≠ d.nbpools := by
      rintro q hq rfl
      rw [hnone] at hq
      cases hq
    have hfew := H.few
    have S := H.entry (t := { d with nbpools := d.nbpools + 1 }.setEntry d.nbpools
      { d.buftab d.nbpools with bpnext := uint32 buf, bpsize := bufsiz }) hnone rfl rfl rfl rfl
      (fun q hq => ?_) ⟨by simp only [Bufpools.setEntry]; omega, by simp only [Bufpools.setEntry]; omega⟩
    · refine ⟨S, fun hm => ?_, fun _ h => (by cases h), fun c f h => ?_, fun c f h _ => ?_, fun _ h => (by cases h),
        fun _ h => (by cases h), id, fun q hq => ⟨rfl, ?_⟩, fun q l hq hl' => ⟨l, ?_, ?_⟩, Or.inl rfl⟩
      · have hmk := hm _ rfl
        cases hmk
      · obtain ⟨rfl, rfl⟩ := Next.call.inj h
        exact Or.inr (Or.inr ⟨rfl, Or.inr (Or.inl ⟨_, rfl⟩)⟩)
      · obtain ⟨rfl, rfl⟩ := Next.call.inj h
        refine told_semcreate (hst.resolve_left hv) hnew (fun q hq => ?_) ⟨hsz, by omega, rfl, hc, hnone⟩
          (by simp only [Bufpools.setEntry, Function.update_self])
        exact (congrArg (fun e : Bpentry => (k.semtab e.bpsem).sstate) (Function.update_of_ne (hold q hq) _ _)).trans (hused q hq)
      · exact congrArg Bpentry.bpsem (Function.update_of_ne (hold q hq) _ _)
      · have hent : (Function.update d.buftab d.nbpools { d.buftab d.nbpools with bpnext := uint32 buf, bpsize := bufsiz }) q =
            d.buftab q := Function.update_of_ne (hold q hq) _ _
        rw [← hent]
        exact hl'
      · simp [poolGain, Next.signals, Call.signals, Next.waits, Call.waits, Next.routine, Point.takes, hl q]
    · obtain ⟨g, hg⟩ := Option.isSome_iff_exists.mp hq
      have := (H.range q g hg).2
      simp only [Bufpools.setEntry]
      omega

/-- The return of a `mkbufpool` that got no semaphore. -/
theorem undone_segment (H : d.Sound) (hl : ∀ p, leaves p = 0) {v : Int} (hW : Making k d .undone v) :
    PoolSegment k d leaves ({ d with nbpools := d.nbpools - 1 }, .ret SYSERR) := by
  obtain ⟨hpos, hc, hnone⟩ := hW
  have hfew := H.few
  have S := H.entry (t := { d with nbpools := d.nbpools - 1 }) (e := d.buftab (d.nbpools - 1)) hnone
    (Function.update_eq_self _ _).symm rfl rfl rfl (fun q hq => ?_) ⟨by simp only; omega, by simp only; omega⟩
  · refine ⟨S, fun _ => hc, fun _ h => (by cases h), fun _ _ h => (by cases h), fun _ _ h => (by cases h), fun _ h => (by cases h),
      fun _ h => (by cases h), id, fun p _ => ⟨rfl, rfl⟩, fun p l hp hl' => ⟨l, hl', ?_⟩, Or.inl rfl⟩
    simp [poolGain, Next.signals, Next.waits, Next.routine, hl p]
  · obtain ⟨g, hg⟩ := Option.isSome_iff_exists.mp hq
    have hlt := (H.range q g hg).2
    have hne : q ≠ d.nbpools - 1 := by
      rintro rfl
      rw [hnone] at hq
      cases hq
    simp only
    omega

/-- `mkbufpool` builds the chain when it has a semaphore, and gives the block back when it has none. -/
theorem gotsem_segment (H : d.Sound) (hl : ∀ p, leaves p = 0) {p : Int} {buf : Nat} {bufsiz numbufs sem : Int}
    (hW : Making k d (.gotsem p buf bufsiz numbufs) sem) : PoolSegment k d leaves (d.gotsem p buf bufsiz numbufs sem) := by
  obtain ⟨⟨hsz, hp0, hnb, hc, hnone⟩, hbuf, hstores, hsem⟩ := hW
  have hfits := newPool_fits hsz hstores
  obtain ⟨hb1, hb2, hn1, hn2⟩ := id hsz
  have hold : ∀ q, (d.made q).isSome → q ≠ p := by
    rintro q hq rfl
    rw [hnone] at hq
    cases hq
  have hfew := H.few
  have hN : BP_MAXN = 2048 := rfl
  have S := H.entry (t := d.setEntry p { d.buftab p with bpsem := int32 sem }) hnone rfl rfl rfl rfl
    (fun q hq => by
      obtain ⟨g, hg⟩ := Option.isSome_iff_exists.mp hq
      exact (H.range q g hg).2) hfew
  have hent : ∀ q, (d.made q).isSome → (d.setEntry p { d.buftab p with bpsem := int32 sem }).buftab q = d.buftab q :=
    fun q hq => Function.update_of_ne (hold q hq) _ _
  have hself : (d.setEntry p { d.buftab p with bpsem := int32 sem }).buftab p = { d.buftab p with bpsem := int32 sem } :=
    Function.update_self _ _ _
  have hgain : ∀ q, poolGain (d.buftab q).bpsem q (leaves q) (.ret p) = 0 := fun q => by
    simp [poolGain, Next.signals, Next.waits, Next.routine, hl q]
  unfold Bufpools.gotsem
  simp only
  split_ifs with hv
  · refine ⟨S, fun hm => ?_, fun q h => (by cases h), fun c f h => ?_, fun c f h _ => ?_,
      fun f h => (by cases h), fun st h => (by cases h), id, fun q hq => ⟨rfl, ?_⟩,
      fun q l hq hl' => ⟨l, ?_, ?_⟩, Or.inl rfl⟩
    · have hmk := hm _ rfl
      cases hmk
    · obtain ⟨rfl, rfl⟩ := Next.call.inj h
      exact Or.inr (Or.inr ⟨rfl, Or.inr (Or.inr ⟨_, _, rfl⟩)⟩)
    · obtain ⟨rfl, rfl⟩ := Next.call.inj h
      have hp : (d.setEntry p { d.buftab p with bpsem := int32 sem }).nbpools - 1 = p := by
        simp only [Bufpools.setEntry]
        omega
      exact told_freemem hstores hsz (by simp only [Bufpools.setEntry]; omega) (hp.symm ▸ hc) (hp.symm ▸ hnone)
    · rw [hent q hq]
    · rw [hent q hq] at hl'
      exact hl'
    · simp [poolGain, Next.signals, Call.signals, Next.waits, Call.waits, Next.routine, Point.takes, hl q]
  · have hsem' : NewSem k d sem numbufs := by
      refine hsem.resolve_left ?_
      rintro rfl
      exact hv (by decide)
    have hgood : 0 ≤ sem ∧ sem < NSEM := isbadsem_iff.mp hsem'.good
    have hS : NSEM = 100 := rfl
    have hid : int32 sem = sem := int32_of_range (by omega) (by omega)
    obtain ⟨S', hchain⟩ := S.make (g := newPool buf bufsiz numbufs)
      (t := { (d.setEntry p { d.buftab p with bpsem := int32 sem }) with
        word := Bufpools.link (bufsiz + bpidSize).toNat (numbufs.toNat - 1) buf d.word
        made := Function.update d.made p (some (newPool buf bufsiz numbufs)) })
      hnone ⟨hp0, by simp only [Bufpools.setEntry]; omega⟩ hfits (fun q g' hq a ha => H.apart_of_stores hstores hfits hq ha)
      (fun q hq => by
        rw [hent q hq, hself, hid]
        exact hsem'.fresh q hq) (by rw [hself]; exact hbuf) rfl rfl rfl rfl rfl
    refine ⟨S', fun _ q h1 h2 => ?_, fun q h => (by cases h), fun c f h => (by cases h), fun c f h _ => (by cases h),
      fun f h => (by cases h), fun st h => (by cases h), fun _ => ?_, fun q hq => ⟨?_, ?_⟩, fun q l hq hl' => ?_,
      Or.inr ?_⟩
    · by_cases hq : q = p
      · rw [hq]
        simp
      · have h2' : q < d.nbpools := h2
        exact (congrArg Option.isSome (Function.update_of_ne hq _ _)).trans (hc q h1 (by omega))
    · exact hstores.mono (Bufpools.blocks_make hp0 rfl)
    · exact Function.update_of_ne (hold q hq) _ _
    · exact congrArg Bpentry.bpsem (hent q hq)
    · obtain ⟨g', hg'⟩ := Option.isSome_iff_exists.mp hq
      obtain ⟨l₀, hl₀, hperm⟩ := H.pool q g' hg'
      refine ⟨l₀, hl₀, ?_⟩
      rw [hgain q, Int.add_zero]
      have hg : (⟨buf, (bufsiz + bpidSize).toNat, numbufs.toNat - 1 + 1⟩ : Pool) = newPool buf bufsiz numbufs := by
        rw [newPool, Nat.sub_add_cancel (by omega)]
      have hl₁ := hl₀.frame (f := Bufpools.link (bufsiz + bpidSize).toNat (numbufs.toNat - 1) buf d.word) fun a ha =>
        link_of_not_mem d.word (hg ▸ fun hs => H.apart_of_stores hstores hfits hg' hs (hperm.subset (List.mem_append_left _ ha)))
      rw [hent q hq] at hl'
      rw [hl'.unique hl₁]
    · refine ⟨p, newPool buf bufsiz numbufs, hnone, rfl, ?_, hchain, rfl⟩
      have hnum : ((newPool buf bufsiz numbufs).numbufs : Int) = numbufs := Int.toNat_of_nonneg (by omega)
      rw [hself, hid, hnum]
      exact hsem'

/-- Behind the call of `wait` the chain is not empty. -/
theorem Pooled.chain_pos (I : Pooled m) (St : Steady m h) (T : AllTracked h) {p v : Int} (hr : m.resumed e = some (.waited p, v))
    {l : List Nat} (hc : Table.Chain m.data.word NULL (m.data.buftab p).bpnext l) : 1 ≤ l.length := by
  have hm := I.users _ _ (Machine.resumed_mem hr)
  have K := I.kept p hm
  have h1 := I.count p l hm hc
  have h2 := K.units St (T _ K.good)
  have h3 : 1 ≤ (routines (m.context m.k.currpid)).countP (Point.takes p) :=
    List.countP_pos_iff.mpr ⟨_, Machine.resumed_mem hr, decide_eq_true rfl⟩
  rw [Machine.units] at h1
  omega

/-- Every segment of the library is one of these. -/
theorem Pooled.segment (I : Pooled m) (hs : m.step e = some m') (hfree : m.FreesHeld e = true) (hfit : CountsFit m.k.log)
    (St : Steady m h) (T : AllTracked h) {x : Bufpools × Next Point} (hx : m.segment e = some x) :
    PoolSegment m.k m.data (fun p => m.leaves (Point.takes p) e) x := by
  cases e with
  | call c | tick => cases hx
  | op o =>
    obtain rfl := Option.some.inj hx
    have hc := I.complete_of hs nofun
    have hl : ∀ p, m.leaves (Point.takes p) (.op o) = 0 := fun p => rfl
    cases o with
    | mkbufpool bufsiz numbufs => exact mkbufpool_segment I.sound hc I.stores hl _ _
    | getbuf poolid => exact getbuf_segment I.sound hc hl _
    | freebuf bufaddr =>
      obtain ⟨x, hmem, hx⟩ := List.any_eq_true.mp hfree
      have ha : x.2 = Heap.sub32 bufaddr bpidSize := of_decide_eq_true hx
      have hheld : (x.1, Heap.sub32 bufaddr bpidSize) ∈ m.data.held := ha ▸ hmem
      dsimp only
      exact freebuf_segment I.sound hc hl hheld
  | ret | cont =>
    obtain ⟨⟨f, v⟩, hr, rfl⟩ := Option.map_eq_some_iff.mp hx
    have hleaves : ∀ p, ∀ e, m.resumed e = some (f, v) → m.leaves (Point.takes p) e = [f].countP (Point.takes p) := by
      intro p e h
      rw [Machine.leaves, h]
      rfl
    have hl : ∀ p, m.leaves (Point.takes p) _ = [f].countP (Point.takes p) := fun p => hleaves p _ hr
    have hcomplete : f.making = false → Complete m.data m.data.nbpools := fun hm =>
      I.complete_of hs fun f' v' h => by
        obtain ⟨rfl, -⟩ := Prod.mk.inj (Option.some.inj (hr.symm.trans h))
        exact hm
    cases f with
    | gotmem bufsiz numbufs =>
      exact gotmem_segment I.sound hl (fun n hn => St.semcreate_new T hfit hn) (fun q hq => (I.kept q hq).used)
        (I.answered.resumed hr rfl)
    | gotsem p buf bufsiz numbufs => exact gotsem_segment I.sound hl (I.answered.resumed hr rfl)
    | undone => exact undone_segment I.sound hl (I.answered.resumed hr rfl)
    | waited p =>
      have hm := I.users _ _ (Machine.resumed_mem hr)
      exact waited_segment I.sound (hcomplete rfl) hl hm fun l hc => I.chain_pos St T hr hc
    | signalled => exact PoolSegment.ret I.sound (hcomplete rfl) hl _

/-- The pools keep their semaphores to themselves. -/
theorem Pooled.private (I : Pooled m) (halone : m.PoolsAlone e = true)
    (hseg : ∀ x, m.segment e = some x → PoolSegment m.k m.data (fun p => m.leaves (Point.takes p) e) x) {p : Int}
    (hp : (m.data.made p).isSome) : m.Private (m.data.buftab p).bpsem (Point.takes p) e := by
  obtain ⟨g, hg⟩ := Option.isSome_iff_exists.mp hp
  obtain ⟨l, hl, hperm⟩ := I.sound.pool p g hg
  have hlen := hperm.length_eq
  rw [List.length_append, Pool.length_slots] at hlen
  have hnum := (I.sound.fits p g hg).numbufs.2
  have hcount := I.count p l hp hl
  have hmax : MAXCOUNT = 2147483647 := rfl
  rw [Machine.units] at hcount
  simp only [Machine.PoolsAlone, Bool.and_eq_true] at halone
  refine Machine.private_of_segments (fun c hc => ?_) (fun pid hr => ?_) (by omega) (fun d c f hx => ?_) (fun x hx => ?_)
  · subst hc
    obtain ⟨h1, h2⟩ := I.sound.range p g hg
    have hN : NBPOOLS = 20 := rfl
    have hfew := I.sound.few.2
    have hall := List.all_eq_true.mp halone.1 p.toNat (List.mem_range.mpr (by omega))
    rw [Int.toNat_of_nonneg h1] at hall
    simpa [hp] using hall
  · have hall := halone.2
    rw [show m.removes e = some pid from hr] at hall
    simp only [List.all_eq_true] at hall
    refine List.countP_eq_zero.mpr fun f hf => ?_
    have := hall f hf
    cases f with
    | waited q => cases this
    | _ => simp [Point.takes]
  · rcases (hseg _ hx).calls c f rfl with ⟨q, hq, rfl, rfl⟩ | ⟨q, hq, rfl, rfl⟩ | ⟨_, ⟨n, rfl⟩ | ⟨n, rfl⟩ | ⟨a, n, rfl⟩⟩
    · refine ⟨⟨fun h => (by cases h), fun n h => by cases h⟩, fun he => ?_⟩
      by_contra hne
      have hqp : q ≠ p := fun e => hne (decide_eq_true e)
      exact I.sound.sems q p hq hp hqp (Call.wait.inj he)
    · exact ⟨⟨fun h => (by cases h), fun n h => by cases h⟩, fun h => by cases h⟩
    · exact ⟨⟨fun h => (by cases h), fun n h => by cases h⟩, fun h => by cases h⟩
    · exact ⟨⟨fun h => (by cases h), fun n h => by cases h⟩, fun h => by cases h⟩
    · exact ⟨⟨fun h => (by cases h), fun n h => by cases h⟩, fun h => by cases h⟩
  · have hsig : 0 ≤ x.2.signals (m.data.buftab p).bpsem ∧ x.2.signals (m.data.buftab p).bpsem ≤ 1 := by
      cases hn : x.2 with
      | call c f =>
        rcases (hseg _ hx).calls c f hn with ⟨q, hq, rfl, rfl⟩ | ⟨q, hq, rfl, rfl⟩ | ⟨_, ⟨n, rfl⟩ | ⟨n, rfl⟩ | ⟨a, n, rfl⟩⟩
        · exact ⟨Int.le_refl 0, Int.one_nonneg⟩
        · simp only [Next.signals, Call.signals]
          split <;> omega
        · exact ⟨Int.le_refl 0, Int.one_nonneg⟩
        · exact ⟨Int.le_refl 0, Int.one_nonneg⟩
        · exact ⟨Int.le_refl 0, Int.one_nonneg⟩
      | _ => exact ⟨Int.le_refl 0, by simp only [Next.signals]; omega⟩
    omega

/-- A segment is not the end of `kill`. -/
theorem removes_of_segment (hx : m.segment e = some x) : m.removes e = none := by
  cases e with
  | cont =>
    simp only [Machine.segment, Machine.resumed] at hx
    split at hx
    · next hstk => simp only [Machine.removes, hstk]
    · cases hx
  | _ => rfl

/-- The blocks of the pools remain handed out. -/
theorem PoolSegment.stores_step (S : PoolSegment m.k m.data leaves x) (hs : m.step e = some m') (hx : m.segment e = some x)
    (H : m.k.heap.Stores m.data.blocks) : m'.k.heap.Stores x.1.blocks := by
  have H' := S.stores H
  refine step_stores hs H' ⟨fun c he => ?_, fun pid hp => ?_⟩ (fun d c f hc => ?_)
  · subst he
    cases hx
  · rw [removes_of_segment hx] at hp
    cases hp
  · obtain rfl := Option.some.inj (hx.symm.trans hc)
    rcases S.calls c f rfl with ⟨p, _, rfl, _⟩ | ⟨p, _, rfl, _⟩ | ⟨hm, _⟩
    · exact call_stores H' rfl
    · exact call_stores H' rfl
    · exact (S.told c f rfl hm).stores

/-- No call of the library is `kill`, and it calls no procedure of the user. -/
theorem PoolSegment.inner (hseg : ∀ x, m.segment e = some x → PoolSegment m.k m.data leaves x) : m.Inner e := by
  refine ⟨fun d f hx => (hseg _ hx).callback f rfl, fun d pid f hx => ?_⟩
  rcases (hseg _ hx).calls _ f rfl with ⟨p, _, h, _⟩ | ⟨p, _, h, _⟩ | ⟨_, ⟨n, h⟩ | ⟨n, h⟩ | ⟨a, n, h⟩⟩ <;> cases h

/-- The semaphore of the pool is kept, and its count agrees with the list of the pool. -/
def Machine.Counted (m : Machine pools) (p : Int) : Prop :=
  Kept m (m.data.buftab p).bpsem (Point.takes p) ∧
    ∀ l, Table.Chain m.data.word NULL (m.data.buftab p).bpnext l → (l.length : Int) = m.units (m.data.buftab p).bpsem (Point.takes p)

/-- An event outside the library. -/
theorem Pooled.counted_quiet (I : Pooled m) (hs : m.step e = some m') (St : Steady m h) (T : AllTracked h) (St' : Steady m' h')
    (D : Does m e h m' h') {p : Int} (hp : (m.data.made p).isSome) (priv : m.Private (m.data.buftab p).bpsem (Point.takes p) e)
    (hn : m.segment e = none) : m'.Counted p := by
  have hdata := Machine.segment_data hs
  rw [hn] at hdata
  have hdata' : m'.data = m.data := hdata
  have K := I.kept p hp
  obtain ⟨K', hu⟩ := K.units_quiet hs St (T _ K.good) St' D priv hn
  rw [Machine.Counted, hdata', hu]
  exact ⟨K', fun l hl => I.count p l hp hl⟩

/-- A segment, for the pools that were there. -/
theorem Pooled.counted_segment (I : Pooled m) (hs : m.step e = some m') (St : Steady m h) (T : AllTracked h) (St' : Steady m' h')
    (D : Does m e h m' h') {p : Int} (hp : (m.data.made p).isSome) (priv : m.Private (m.data.buftab p).bpsem (Point.takes p) e)
    (hx : m.segment e = some x) (S : PoolSegment m.k m.data (fun p => m.leaves (Point.takes p) e) x) : m'.Counted p := by
  have hdata := Machine.segment_data hs
  rw [hx] at hdata
  have hdata' : m'.data = x.1 := hdata
  have K := I.kept p hp
  obtain ⟨K', hu⟩ := K.units_segment hs St (T _ K.good) St' D priv hx (fun d st h => S.stop st (congrArg Prod.snd h))
  rw [Machine.Counted, hdata', (S.old p hp).2]
  refine ⟨K', fun l hl => ?_⟩
  obtain ⟨l₀, hl₀, hlen⟩ := S.count p l hp hl
  rw [hlen, hu, I.count p l₀ hp hl₀, poolGain]
  omega

/-- The pool that `mkbufpool` returns: nobody has used its semaphore yet. -/
theorem Pooled.counted_new (I : Pooled m) (hs : m.step e = some m') (St : Steady m h) (hx : m.segment e = some x) {p : Int} {g : Pool}
    (hnone : m.data.made p = none) (N : NewSem m.k m.data (x.1.buftab p).bpsem g.numbufs)
    (hchain : Table.Chain x.1.word NULL (x.1.buftab p).bpnext g.slots) (hret : x.2 = .ret p)
    (hrun : ∀ d st, m.segment e ≠ some (d, .stop st)) : m'.Counted p := by
  have hdata := Machine.segment_data hs
  rw [hx] at hdata
  have hdata' : m'.data = x.1 := hdata
  have hk : m'.k = m.k := segment_ret hs (d := x.1) (v := p) (hx.trans (by rw [← hret]))
  rw [Machine.Counted, hdata']
  refine ⟨⟨N.good, by rw [hk, N.entry], hk ▸ N.fits, fun q hw => (N.idle q (hk ▸ hw)).elim⟩, fun l hl => ?_⟩
  have hframes := step_frames (P := Point.takes p) hs St.currpid_isPid
    (fun pid hp => by rw [removes_of_segment hx] at hp; cases hp) hrun
  have hzero : m.frames (Point.takes p) = 0 := by
    refine List.sum_eq_zero fun n hn => ?_
    obtain ⟨q, _, rfl⟩ := List.mem_map.mp hn
    refine List.countP_eq_zero.mpr fun f hf ht => ?_
    cases f with
    | waited q' =>
      obtain rfl : q' = p := of_decide_eq_true ht
      have := I.users q q' hf
      rw [hnone] at this
      cases this
    | _ => cases ht
  have henters : m.enters (Point.takes p) e = 0 := by
    rw [(segment_signals (s := 0) hx).2.2, hret]
    rfl
  have hlen : l.length = g.numbufs := by rw [hl.unique hchain, Pool.length_slots]
  rw [Machine.units, hk, N.entry, hlen]
  simp only
  omega

/-- Every pool that there is behind an event. -/
theorem Pooled.counted (I : Pooled m) (hs : m.step e = some m') (halone : m.PoolsAlone e = true) (St : Steady m h) (T : AllTracked h)
    (St' : Steady m' h') (D : Does m e h m' h')
    (hseg : ∀ x, m.segment e = some x → PoolSegment m.k m.data (fun p => m.leaves (Point.takes p) e) x) {p : Int}
    (hp : (m'.data.made p).isSome) : m'.Counted p := by
  have hdata := Machine.segment_data hs
  cases hx : m.segment e with
  | none =>
    rw [hx] at hdata
    rw [show m'.data = m.data from hdata] at hp
    exact I.counted_quiet hs St T St' D hp (I.private halone hseg hp) hx
  | some x =>
    rw [hx] at hdata
    have S := hseg x hx
    by_cases hmade : (m.data.made p).isSome
    · exact I.counted_segment hs St T St' D hmade (I.private halone hseg hmade) hx S
    · rw [show m'.data = x.1 from hdata] at hp
      rcases S.new with hsame | ⟨p', g, hnone, hnew, N, hchain, hret⟩
      · exact absurd (hsame ▸ hp) hmade
      · by_cases hpp : p = p'
        · subst hpp
          exact I.counted_new hs St hx hnone N hchain hret fun d st hx => (hseg _ hx).stop st rfl
        · rw [hnew, Function.update_of_ne hpp] at hp
          exact absurd hp hmade

/-- The table is complete again when no process makes a pool. -/
theorem Pooled.complete_step (I : Pooled m) (hs : m.step e = some m')
    (hseg : ∀ x, m.segment e = some x → PoolSegment m.k m.data (fun p => m.leaves (Point.takes p) e) x)
    (hm : ∀ p, ∀ f ∈ routines (m'.context p), f.making = false) : Complete m'.data m'.data.nbpools := by
  have hdata := Machine.segment_data hs
  cases hx : m.segment e with
  | none =>
    rw [hx] at hdata
    rw [show m'.data = m.data from hdata]
    refine I.complete_of hs (fun f v hr => ?_)
    rw [Machine.resumed_none hx] at hr
    cases hr
  | some x =>
    rw [hx] at hdata
    rw [show m'.data = x.1 from hdata]
    refine (hseg x hx).complete (fun f hr => hm m.k.currpid f ?_)
    cases Machine.step_segment hs with
    | quiet hd hf hn | killed pid hd hf hn =>
      rw [hx] at hn
      cases hn
    | library l x' hx' hd hf =>
      obtain rfl := Option.some.inj (hx'.segment.symm.trans hx)
      rw [hf, if_pos rfl]
      exact List.mem_append_left _ (Option.mem_toList.mpr hr)
    | stopped l d st hx' hd hf => exact absurd rfl ((hseg _ hx'.segment).stop st)

/-- Every event keeps what holds between events. -/
theorem Pooled.step (I : Pooled m) (hs : m.step e = some m') (halone : m.PoolsAlone e = true) (hfree : m.FreesHeld e = true)
    (hsp : m.Spares m.data.blocks e) (hfit : CountsFit m.k.log) (St : Steady m h) (T : AllTracked h) (St' : Steady m' h')
    (D : Does m e h m' h') : Pooled m' := by
  have hseg : ∀ x, m.segment e = some x → PoolSegment m.k m.data (fun p => m.leaves (Point.takes p) e) x :=
    fun x hx => I.segment hs hfree hfit St T hx
  have hrun : ∀ d st, m.segment e ≠ some (d, .stop st) := fun d st hx => (hseg _ hx).stop st rfl
  have hleaf := Machine.leaf_step hs I.leaf (PoolSegment.inner hseg)
  have hanswered : Answered m' Point.making Making := by
    refine I.answered.step hs St.stackOk (fun d c f hx hm => ?_) (fun d f hx => ((hseg _ hx).callback f rfl).elim) hrun
    obtain ⟨hcur, _, hv⟩ := (hseg _ hx).told c f rfl hm
    exact ⟨hcur, hv⟩
  have hold : ∀ x, m.segment e = some x → ∀ q, (m.data.made q).isSome → (x.1.made q).isSome := by
    intro x hx q hq
    rw [((hseg x hx).old q hq).1]
    exact hq
  have husers : ∀ q, ∀ f ∈ routines (m'.context q), ∀ p, f = .waited p → (m'.data.made p).isSome := by
    refine Machine.step_owned (R := fun d _ f => ∀ p, f = Point.waited p → (d.made p).isSome) hs (I.leaf _)
      (fun q f hf p hp => I.users q p (hp ▸ hf)) (fun x f hx hr p hp => ?_) (fun x hx q _ f hf p hp => ?_) hrun
    · exact hold x hx p ((hseg x hx).users p (hp ▸ hr))
    · exact hold x hx p (I.users q p (hp ▸ hf))
  have hdata := Machine.segment_data hs
  have hheap : m'.data.Sound ∧ m'.k.heap.Stores m'.data.blocks := by
    cases hx : m.segment e with
    | none =>
      rw [hx] at hdata
      rw [show m'.data = m.data from hdata]
      exact ⟨I.sound, step_stores hs I.stores hsp (fun d c f hc => by rw [hx] at hc; cases hc)⟩
    | some x =>
      rw [hx] at hdata
      rw [show m'.data = x.1 from hdata]
      exact ⟨(hseg x hx).sound, (hseg x hx).stores_step hs hx I.stores⟩
  have hcounted : ∀ p, (m'.data.made p).isSome → m'.Counted p := fun p hp => I.counted hs halone St T St' D hseg hp
  exact ⟨hheap.1, hheap.2, hleaf, hanswered, I.complete_step hs hseg, fun q p hm => husers q _ hm p rfl,
    fun p hp => (hcounted p hp).1, fun p l hp hl => (hcounted p hp).2 l hl⟩

end Step

/-! ## Runs -/

/-- The processes that have been released from the semaphore of the pool, and are not past the call of `wait` in `getbuf`. -/
def Machine.released (m : Machine pools) (p : Int) : Nat :=
  pids.countP fun q => decide (.waited p ∈ routines (m.context q)) && !decide (m.k.Waits (m.data.buftab p).bpsem q)

/-- The current process goes on until the routine returns, with what it returns. -/
def Machine.poolFinish : Nat → Machine pools → Option (Int × Machine pools)
  | 0, _ => none
  | n + 1, m =>
    match m.segment .cont, m.step .cont with
    | some (_, .ret v), some m' => some (v, m')
    | _, some m' => poolFinish n m'
    | _, none => none

/-- The current process calls `mkbufpool`, which makes at most three system calls, none of which blocks. -/
def Machine.mkbufpool (bufsiz numbufs : Int) (m : Machine pools) : Option (Int × Machine pools) :=
  match (m.data.mkbufpool bufsiz numbufs).2, m.step (.op (.mkbufpool bufsiz numbufs)) with
  | .ret v, some m' => some (v, m')
  | _, some m' => m'.poolFinish 3
  | _, none => none

/-- The free chain consists of `numbufs` slots of `size` bytes, which do not overlap, in a block that the heap has handed out. -/
def Built (m : Machine pools) (p : Int) (size numbufs : Nat) : Prop :=
  ∃ buf l, Table.Chain m.data.word NULL (m.data.buftab p).bpnext l ∧ l.length = numbufs ∧
    l.Pairwise (fun a b => a + size ≤ b) ∧ (∀ a ∈ l, buf ≤ a ∧ a + size ≤ buf + numbufs * size) ∧
    m.k.heap.Stores [(buf, numbufs * size)]

/-- What the pools promise. -/
structure PoolsConserved (m : Machine pools) : Prop where
  /-- Every slot is on the free chain or with one caller, and the length of the chain is known from the semaphore. -/
  pool : ∀ p g, m.data.made p = some g → g.slots.Nodup ∧ ∃ l, Table.Chain m.data.word NULL (m.data.buftab p).bpnext l ∧
    (l ++ heldIn m.data.held p).Perm g.slots ∧
    (l.length : Int) = max 0 (m.k.semtab (m.data.buftab p).bpsem).scount + m.released p
  /-- A pool that `mkbufpool` makes. -/
  make : ∀ bufsiz numbufs p m', m.mkbufpool bufsiz numbufs = some (p, m') → p ≠ SYSERR →
    Built m' p ((int32 bufsiz + 3) / 4 * 4 + bpidSize).toNat (int32 numbufs).toNat
  /-- `getbuf` unlinks no null pointer. -/
  get : ∀ e p v, m.resumed e = some (.waited p, v) → (m.data.buftab p).bpnext ≠ NULL
  /-- `freebuf` returns a buffer to the pool that it was taken from. -/
  free : ∀ p a, (p, a) ∈ m.data.held → m.data.freebuf (a + bpidSize) =
    (m.data.insert p a, .call (.signal (m.data.buftab p).bpsem) .signalled)

/-- The calls are lawful, the semaphores of the pools are left to them, only buffers that callers have are freed, the memory that is
returned otherwise is none of the pools', and no count has been raised past the largest integer. -/
structure Machine.PoolsUsed (m : Machine pools) (e : Event pools) : Prop where
  lawful : m.Lawful e
  alone : m.PoolsAlone e = true
  frees : m.FreesHeld e = true
  spares : m.Spares m.data.blocks e
  fits : CountsFit m.k.log

section Runs

variable {m m' : Machine pools} {e : Event pools} {h h' : Kernel QLists}

/-- A process is in one routine at most. -/
theorem Pooled.countP_takes (I : Pooled m) (q p : Int) :
    (routines (m.context q)).countP (Point.takes p) = if .waited p ∈ routines (m.context q) then 1 else 0 := by
  rcases I.leaf q with hnil | ⟨r, f, l, hl, hl', _⟩
  · rw [hnil]
    rfl
  · rw [hl, Machine.routines_kernel, Machine.routines_client, hl', List.countP_singleton]
    cases f with
    | waited q' => simp [Point.takes, eq_comm]
    | _ => simp [Point.takes]

/-- Whoever is behind the call of `wait` waits, or has been released. -/
theorem Pooled.frames_takes (I : Pooled m) {p : Int} (hp : (m.data.made p).isSome) :
    m.frames (Point.takes p) = m.k.waiters (m.data.buftab p).bpsem + m.released p := by
  have hsum : ∀ l : List Int, (l.map fun q => (routines (m.context q)).countP (Point.takes p)).sum =
      l.countP (fun q => decide (m.k.Waits (m.data.buftab p).bpsem q)) +
        l.countP (fun q => decide (.waited p ∈ routines (m.context q)) && !decide (m.k.Waits (m.data.buftab p).bpsem q)) := by
    intro l
    induction l with
    | nil => rfl
    | cons q l ih =>
      have hin : m.k.Waits (m.data.buftab p).bpsem q → .waited p ∈ routines (m.context q) := by
        intro hw
        by_contra hno
        have := (I.kept p hp).behind q hw
        rw [I.countP_takes, if_neg hno] at this
        omega
      rw [List.map_cons, List.sum_cons, ih, I.countP_takes, List.countP_cons, List.countP_cons]
      by_cases hw : m.k.Waits (m.data.buftab p).bpsem q
      · simp [hw, hin hw]
        omega
      · by_cases hm : .waited p ∈ routines (m.context q)
        · simp [hw, hm]
          omega
        · simp [hw, hm]
  exact hsum pids

/-- The list of a pool and the buffers held are its slots, and the count agrees with the list. -/
theorem Pooled.pool (I : Pooled m) (St : Steady m h) (T : AllTracked h) {p : Int} {g : Pool} (hg : m.data.made p = some g) :
    g.slots.Nodup ∧ ∃ l, Table.Chain m.data.word NULL (m.data.buftab p).bpnext l ∧ (l ++ heldIn m.data.held p).Perm g.slots ∧
      (l.length : Int) = max 0 (m.k.semtab (m.data.buftab p).bpsem).scount + m.released p := by
  have hp : (m.data.made p).isSome := by
    rw [hg]
    rfl
  obtain ⟨l, hl, hperm⟩ := I.sound.pool p g hg
  refine ⟨Pool.slots_nodup (I.sound.fits p g hg).size, l, hl, hperm, ?_⟩
  have K := I.kept p hp
  have hwait := St.waiters_count K.good (T _ K.good) K.fits K.used
  rw [I.count p l hp hl, Machine.units, I.frames_takes hp]
  omega

/-- A process whose `wait` has returned finds a buffer. -/
theorem Pooled.get (I : Pooled m) (St : Steady m h) (T : AllTracked h) {p v : Int} (hr : m.resumed e = some (.waited p, v)) :
    (m.data.buftab p).bpnext ≠ NULL := by
  obtain ⟨g, hg⟩ := Option.isSome_iff_exists.mp (I.users _ _ (Machine.resumed_mem hr))
  obtain ⟨l, hl, _⟩ := I.sound.pool p g hg
  intro hnull
  have hpos := I.chain_pos St T hr hl
  rw [hl.head_eq_nil.mp hnull] at hpos
  cases hpos

/-- `freebuf` of a buffer that is held inserts it and signals. -/
theorem Pooled.free (I : Pooled m) {p : Int} {a : Nat} (ha : (p, a) ∈ m.data.held) :
    m.data.freebuf (a + bpidSize) = (m.data.insert p a, .call (.signal (m.data.buftab p).bpsem) .signalled) := by
  obtain ⟨g, hg⟩ := Option.isSome_iff_exists.mp (I.sound.held p a ha).1
  have hin := Pool.slot_inside (I.sound.held_slot hg ha)
  have htop := (I.sound.fits p g hg).top
  have hsub : Heap.sub32 (a + bpidSize) bpidSize = a := by
    unfold Heap.sub32 bpidSize
    omega
  have h := I.sound.freebuf_held (by rw [hsub]; exact ha)
  rw [h, hsub]

theorem Pooled.next (I : Pooled m) (hs : m.step e = some m') (hok : m.PoolsUsed e) (St : Steady m h) (T : AllTracked h) :
    Pooled m' ∧ ∃ h', Steady m' h' ∧ AllTracked h' := by
  obtain ⟨h', St', D⟩ := step_does St hs hok.lawful
  refine ⟨I.step hs hok.alone hok.frees hok.spares hok.fits St T St' D, h', St', ?_⟩
  exact D.keeps allTracked_stable (fun _ _ H s hs => (H s hs).takeMsg) St.inv T

/-- The run of a call ends where a segment returns. -/
theorem Machine.poolFinish_ret {n : Nat} {v w : Int} {d : Bufpools} (h : m.poolFinish (n + 1) = some (v, m'))
    (hx : m.segment .cont = some (d, .ret w)) : v = w ∧ m.step .cont = some m' := by
  cases hs : m.step .cont with
  | none =>
    simp only [Machine.poolFinish, hx, hs] at h
    cases h
  | some m₁ =>
    simp only [Machine.poolFinish, hx, hs] at h
    obtain ⟨rfl, rfl⟩ := Prod.mk.inj (Option.some.inj h)
    exact ⟨rfl, rfl⟩

/-- It goes on where a segment calls the kernel. -/
theorem Machine.poolFinish_call {n : Nat} {v : Int} {d : Bufpools} {c : Call} {f : Point}
    (h : m.poolFinish (n + 1) = some (v, m')) (hx : m.segment .cont = some (d, .call c f)) :
    ∃ m₁, m.step .cont = some m₁ ∧ m₁.poolFinish n = some (v, m') := by
  cases hs : m.step .cont with
  | none =>
    simp only [Machine.poolFinish, hx, hs] at h
    cases h
  | some m₁ =>
    simp only [Machine.poolFinish, hx, hs] at h
    exact ⟨m₁, rfl, h⟩

/-- The calls that `mkbufpool` makes raise no count. -/
theorem getmem_fits {k : Kernel QueueTab} (h : CountsFit k.log) (n : Nat) : CountsFit (k.call (.getmem n)).1.log := by
  simp only [Kernel.call]
  split <;> exact h

/-- `semcreate` keeps the counts in their bounds. -/
theorem semcreate_fits {k : Kernel QueueTab} (h : CountsFit k.log) (n : Int) : CountsFit (k.call (.semcreate n)).1.log := by
  simp only [Kernel.call, Kernel.semcreate]
  split
  · exact h
  · split
    · exact h
    · intro s c hm
      rcases List.mem_cons.mp hm with e | hm
      · cases e
      · exact h s c hm

/-- What `mkbufpool` builds when it has a semaphore. -/
theorem Pooled.built (I : Pooled m) {p : Int} {buf : Nat} {bufsiz numbufs sem : Int} (hs : m.step e = some m')
    (hr : m.resumed e = some (.gotsem p buf bufsiz numbufs, sem)) (hx : m.segment e = some (m.data.gotsem p buf bufsiz numbufs sem))
    (hv : int32 sem ≠ SYSERR) : Built m' p (bufsiz + bpidSize).toNat numbufs.toNat := by
  have hmaking := I.answered.resumed hr rfl
  have hl : ∀ q, m.leaves (Point.takes q) e = 0 := fun q => by
    rw [Machine.leaves, hr]
    rfl
  have S := gotsem_segment I.sound hl hmaking
  obtain ⟨d', hseg, hmade⟩ : ∃ d', m.data.gotsem p buf bufsiz numbufs sem = (d', .ret p) ∧
      d'.made = Function.update m.data.made p (some (newPool buf bufsiz numbufs)) := ⟨_, if_neg hv, rfl⟩
  rw [hseg] at S hx
  have hdata : m'.data = d' := by
    rw [Machine.segment_data hs, hx]
    rfl
  obtain ⟨⟨_, _, _, _, hnone⟩, _, hstores, _⟩ := hmaking
  have hself : d'.made p = some (newPool buf bufsiz numbufs) := by
    rw [hmade, Function.update_self]
  rcases S.new with hsame | ⟨p', g, _, hmade', _, hchain, hret⟩
  · have h : d'.made = m.data.made := hsame
    rw [h, hnone] at hself
    cases hself
  · obtain rfl : p = p' := Next.ret.inj hret
    have hg : d'.made p = some g := (congrFun hmade' p).trans (Function.update_self _ _ _)
    obtain rfl := Option.some.inj (hself.symm.trans hg)
    refine ⟨buf, _, hdata ▸ hchain, Pool.length_slots _, Pool.slots_apart (newPool buf bufsiz numbufs),
      fun a ha => Pool.slot_inside ha, ?_⟩
    rw [segment_ret hs hx]
    exact hstores.mono (List.singleton_sublist.mpr List.mem_cons_self).subperm

/-- A segment inside `mkbufpool` that makes a system call. -/
theorem Pooled.goes (I : Pooled m) (hs : m.step e = some m') (hok : m.PoolsUsed e) (St : Steady m h) (T : AllTracked h)
    {d : Bufpools} {c : Call} {f : Point} (hx : m.segment e = some (d, .call c f)) (hf : f.making = true) :
    m'.data = d ∧ m'.k = (m.k.call c).1 ∧ ∃ v l, m'.stack = .kernel (.ret v) :: .client f :: l := by
  obtain ⟨hcur, _, v, hv, _⟩ := (I.segment hs hok.frees hok.fits St T hx).told c f rfl hf
  obtain ⟨hd, hk, l, hl⟩ := Machine.segment_call hs hx hv hcur
  exact ⟨hd, hk, v, l, hl⟩

/-- Going on inside the library is within the rules. -/
theorem poolsUsed_cont {v : Int} {f : Point} {l : List (Frame Point)} (hstk : m.stack = .kernel (.ret v) :: .client f :: l)
    (hlaw : m.Lawful .cont) (hfit : CountsFit m.k.log) : m.PoolsUsed .cont := by
  have hrem : m.removes .cont = none := by simp only [Machine.removes, hstk]
  refine ⟨hlaw, ?_, rfl, ⟨fun c he => (by cases he), fun pid hp => ?_⟩, hfit⟩
  · simp only [Machine.PoolsAlone, hrem, Bool.and_self]
  · rw [hrem] at hp
    cases hp

/-- A successful call of `mkbufpool` builds the chain. -/
theorem Pooled.make (I : Pooled m) (St : Steady m h) (T : AllTracked h) (hfit : CountsFit m.k.log) {bufsiz numbufs p : Int}
    (hrun : m.mkbufpool bufsiz numbufs = some (p, m')) (hp : p ≠ SYSERR) :
    Built m' p ((int32 bufsiz + 3) / 4 * 4 + bpidSize).toNat (int32 numbufs).toNat := by
  have hfirst : m.data.mkbufpool bufsiz numbufs = (m.data, .ret SYSERR) ∨ ∃ n, m.data.mkbufpool bufsiz numbufs =
      (m.data, .call (.getmem n) (.gotmem ((int32 bufsiz + 3) / 4 * 4) (int32 numbufs))) := by
    unfold Bufpools.mkbufpool
    simp only
    split_ifs
    · exact Or.inl rfl
    · exact Or.inr ⟨_, rfl⟩
  cases hs : m.step (.op (.mkbufpool bufsiz numbufs)) with
  | none =>
    rcases hfirst with h0 | ⟨n, h0⟩ <;> simp only [Machine.mkbufpool, h0, hs] at hrun <;> cases hrun
  | some m₁ =>
    rcases hfirst with h0 | ⟨n, h0⟩
    · simp only [Machine.mkbufpool, h0, hs] at hrun
      exact absurd (Prod.mk.inj (Option.some.inj hrun)).1.symm hp
    simp only [Machine.mkbufpool, h0, hs] at hrun
    -- behind the call of `getmem`
    have hx : m.segment (.op (.mkbufpool bufsiz numbufs)) = some (m.data, .call (.getmem n) _) := congrArg some h0
    have hok : m.PoolsUsed (.op (.mkbufpool bufsiz numbufs)) := by
      refine ⟨fun c hc => ?_, rfl, rfl, ⟨fun c he => (by cases he), fun pid hp => (by cases hp)⟩, hfit⟩
      rw [segment_issued hx] at hc
      obtain rfl := Option.some.inj hc
      exact ⟨fun _ => rfl, fun q h => (by cases h)⟩
    obtain ⟨I₁, h₁, St₁, T₁⟩ := I.next hs hok St T
    obtain ⟨hd₁, hk₁, v, l₁, hstk₁⟩ := I.goes hs hok St T hx rfl
    have hfit₁ : CountsFit m₁.k.log := by
      rw [hk₁]
      exact getmem_fits hfit n
    obtain ⟨hr₁, hx₁, -⟩ := Machine.cont_client hstk₁
    by_cases hv : int32 v = SYSERR
    · have hret : m₁.segment .cont = some (m₁.data, .ret SYSERR) := hx₁.trans (congrArg some (if_pos hv))
      exact absurd (Machine.poolFinish_ret hrun hret).1 hp
    -- behind the call of `semcreate`
    have hcall : m₁.segment .cont = some (_, .call (.semcreate (int32 numbufs)) _) := hx₁.trans (congrArg some (if_neg hv))
    obtain ⟨m₂, hs₁, hrun₂⟩ := Machine.poolFinish_call hrun hcall
    have hok₁ : m₁.PoolsUsed .cont := by
      refine poolsUsed_cont hstk₁ (fun c hc => ?_) hfit₁
      rw [segment_issued hcall] at hc
      obtain rfl := Option.some.inj hc
      exact ⟨fun _ => rfl, fun q h => (by cases h)⟩
    obtain ⟨I₂, h₂, St₂, T₂⟩ := I₁.next hs₁ hok₁ St₁ T₁
    obtain ⟨hd₂, hk₂, sem, l₂, hstk₂⟩ := I₁.goes hs₁ hok₁ St₁ T₁ hcall rfl
    obtain ⟨hr₂, hx₂, -⟩ := Machine.cont_client hstk₂
    by_cases hv₂ : int32 sem = SYSERR
    · have hcall₂ : m₂.segment .cont = some (_, .call (.freemem _ _) .undone) := hx₂.trans (congrArg some (if_pos hv₂))
      obtain ⟨m₃, hs₂, hrun₃⟩ := Machine.poolFinish_call hrun₂ hcall₂
      have hok₂ : m₂.PoolsUsed .cont := by
        refine poolsUsed_cont hstk₂ (fun c hc => ?_) (by rw [hk₂]; exact semcreate_fits hfit₁ _)
        rw [segment_issued hcall₂] at hc
        obtain rfl := Option.some.inj hc
        exact ⟨fun _ => rfl, fun q h => (by cases h)⟩
      obtain ⟨-, -, w, l₃, hstk₃⟩ := I₂.goes hs₂ hok₂ St₂ T₂ hcall₂ rfl
      obtain ⟨-, hx₃, -⟩ := Machine.cont_client hstk₃
      exact absurd (Machine.poolFinish_ret hrun₃ hx₃).1 hp
    · have hret : m₂.segment .cont = some (_, .ret _) := hx₂.trans (congrArg some (if_neg hv₂))
      obtain ⟨rfl, hs₂⟩ := Machine.poolFinish_ret hrun₂ hret
      exact I₂.built hs₂ hr₂ hx₂ hv₂

end Runs

/-- What holds between events holds when the pools have been initialized. -/
theorem pooled_boot {minheap maxheap : Nat} (hpos : 0 < minheap) (hlt : minheap < maxheap) (hmax : maxheap < 4294967296)
    (hmin8 : minheap % 8 = 0) (hmax8 : maxheap % 8 = 0) : Pooled (boot pools Bufpools.bufinit minheap maxheap) := by
  have hnone : ∀ p, ¬(Bufpools.bufinit.made p).isSome := fun p h => (by cases h)
  refine ⟨Bufpools.Sound.bufinit, ?_, fun p => Leaf.nil, ⟨fun p => List.isChain_nil, fun p f hm => (by cases hm),
    fun p r f l hp => (by cases hp)⟩, fun _ p h1 h2 => ?_, fun q p hm => (by cases hm), fun p hp => (hnone p hp).elim,
    fun p l hp => (hnone p hp).elim⟩
  · exact stores_boot hpos hlt hmax hmin8 hmax8
  · have h2' : p < 0 := h2
    omega

namespace Forcing

def poolData : Forcing Bufpools where
  app d f := int.app d.nbpools fun n => (table [0] bpentry).app d.buftab fun t => (table [4096, 4108] nat).app d.word fun w =>
    f { d with nbpools := n, buftab := t, word := w }
  app_eq d f := by simp only [app_eq]
where
  bpentry : Forcing Bpentry :=
    { app := fun e f => nat.app e.bpnext fun a => int.app e.bpsem fun s => int.app e.bpsize fun n => f ⟨a, s, n⟩
      app_eq := fun e f => by simp only [app_eq] }

/-- How to evaluate a machine with buffer pools. -/
def poolMachine : Forcing (Machine pools) := machine ⟨[0, 1, 2], [0], [4096, 4120]⟩ (id _) poolData

end Forcing

/-- The null process takes both buffers of a pool, a process waits for one, and the null process frees the first. -/
def poolOfTwo : List (Event pools) :=
  [.op (.mkbufpool 8 2), .cont, .cont, .op (.getbuf 0), .cont, .op (.getbuf 0), .cont, .call (.create 400 20), .cont,
    .call (.resume 1), .op (.getbuf 0), .cont, .op (.freebuf 4100)]

/-- The rules, where no process ends and user code frees no memory. -/
def Machine.poolsUsed (m : Machine pools) (e : Event pools) : Prop :=
  m.Lawful e ∧ m.PoolsAlone e = true ∧ m.FreesHeld e = true ∧ (match e with | .call c => c.keepsHeap | _ => true) = true ∧
    m.removes e = none ∧ CountsFit m.k.log

instance (m : Machine pools) (e : Event pools) : Decidable (m.poolsUsed e) := inferInstanceAs (Decidable (_ ∧ _))

/-- An event that passes the check is one of the allowed ones. -/
theorem Machine.poolsUsed.used {m : Machine pools} {e : Event pools} (h : m.poolsUsed e) : m.PoolsUsed e := by
  obtain ⟨h1, h2, h3, h4, h5, h6⟩ := h
  refine ⟨h1, h2, h3, ⟨fun c he => ?_, fun pid hp => ?_⟩, h6⟩
  · subst he
    exact Or.inl h4
  · rw [h5] at hp
    cases hp

end Xinu
