import Xinu.Kernel.Immediate
import Xinu.Kernel.Refinement
import Xinu.Lib.Search
import Xinu.Memory.Bufpool
import Xinu.Memory.Release
import Xinu.Message.Port

/-!
# Calls that fail

What `create`, `mkbufpool` and `ptcreate` have done when they return an error: each of them allocates from two tables, and the second
allocation can fail after the first.
-/

namespace Xinu

open Kernel Blocks

/-! ## A failed `create` -/

/-- Every entry is tried. -/
theorem newpidLoop_none {proctab : Int → Procent} {n : Nat} {x : Int} (h : (newpidLoop proctab n x).1 = none) :
    ∀ i : Nat, i < n → (proctab ((x + i) % NPROC)).prstate ≠ .PR_FREE := by
  induction n generalizing x with
  | zero => exact fun i hi => absurd hi (Nat.not_lt_zero i)
  | succ n ih =>
    unfold newpidLoop at h
    simp only at h
    split at h
    · cases h
    · next hx =>
      intro i hi
      cases i with
      | zero => simpa using hx
      | succ i =>
        have hnext := ih h i (Nat.lt_of_succ_lt_succ hi)
        have hmod : (x % NPROC + 1 + i) % NPROC = (x + (i + 1 : Nat)) % NPROC := by
          unfold NPROC
          omega
        rwa [hmod] at hnext

/-- `newpid` finds an entry exactly when one is free. -/
theorem newpidLoop_isSome (proctab : Int → Procent) (x : Int) :
    (newpidLoop proctab NPROC.toNat x).1.isSome ↔ ∃ p, IsPid p ∧ (proctab p).prstate = .PR_FREE := by
  constructor
  · intro hs
    obtain ⟨p, hp⟩ := Option.isSome_iff_exists.mp hs
    obtain ⟨hpid, hf⟩ := newpidLoop_spec (Prod.ext hp rfl)
    exact ⟨p, hpid, hf⟩
  · rintro ⟨p, ⟨h1, h2⟩, hf⟩
    by_contra hno
    have hpos := newpidLoop_none (Option.not_isSome_iff_eq_none.mp hno) ((p - x) % NPROC).toNat (by unfold NPROC; omega)
    have hmod : (x + (((p - x) % NPROC).toNat : Int)) % NPROC = p := by
      unfold NPROC at h2 ⊢
      omega
    rw [hmod] at hpos
    exact hpos hf

/-- The stack has been allocated when `create` finds no process entry or a priority below 1. -/
def CreateLeaks {Q : Type} (k : Kernel Q) (l : List (Nat × Nat)) (ssize : Nat) (priority : Int) : Prop :=
  roundmb (stkSize (ssize % 4294967296)) ≠ 0 ∧ (∃ x ∈ l, roundmb (stkSize (ssize % 4294967296)) ≤ x.2) ∧
    (int16 priority < 1 ∨ ∀ p, IsPid p → (k.proctab p).prstate ≠ .PR_FREE)

/-- What a `create` that fails has to leave as it was. -/
def CreateKeeps {Q : Type} (k : Kernel Q) (l : List (Nat × Nat)) (ssize : Nat) (priority : Int) : Prop :=
  (k.create ssize priority).2 = .ret SYSERR →
    (k.create ssize priority).1.heap.Free l ∧
      (k.create ssize priority).1.heap.memlist.mlength = k.heap.memlist.mlength ∧
      (k.create ssize priority).1.proctab = k.proctab ∧ (k.create ssize priority).1.prcount = k.prcount

/-- `create` returns an error, with the heap that `getstk` left, when there is no stack, no entry, or no priority. -/
theorem create_fails {Q : Type} (k : Kernel Q) (ssize : Nat) (priority : Int) :
    (k.create ssize priority).2 = .ret SYSERR ↔ (k.heap.getstk (stkSize (ssize % 4294967296))).1 = none ∨
      int16 priority < 1 ∨ ∀ p, IsPid p → (k.proctab p).prstate ≠ .PR_FREE := by
  rcases hg : k.heap.getstk (stkSize (ssize % 4294967296)) with ⟨_ | saddr, heap⟩
  · simp only [Kernel.create, hg, true_or]
  · have hfree := newpidLoop_isSome k.proctab k.nextpid
    rcases hn : newpidLoop k.proctab NPROC.toNat k.nextpid with ⟨_ | pid, np⟩
    · rw [hn] at hfree
      have hno : ∀ p, IsPid p → (k.proctab p).prstate ≠ .PR_FREE := fun p hp hf => by cases hfree.mpr ⟨p, hp, hf⟩
      have hres : (k.create ssize priority).2 = .ret SYSERR := by simp only [Kernel.create, hg, Kernel.newpid, hn]
      exact ⟨fun _ => Or.inr (Or.inr hno), fun _ => hres⟩
    · obtain ⟨hpid, hf⟩ := newpidLoop_spec hn
      have hres : (k.create ssize priority).2 = .ret (if int16 priority < 1 then SYSERR else pid) := by
        simp only [Kernel.create, hg, Kernel.newpid, hn]
        split <;> rfl
      rw [hres]
      constructor
      · intro h
        by_cases hp : int16 priority < 1
        · exact Or.inr (Or.inl hp)
        · rw [if_neg hp] at h
          have hneg : pid = -1 := Resume.ret.inj h
          have := hpid.1
          omega
      · rintro (h | hp | hall)
        · cases h
        · rw [if_pos hp]
        · exact absurd hf (hall pid hpid)

/-- On every well-formed free list a failed `create` leaves everything as it was exactly when it had not allocated a stack: no block
is large enough, or the size rounds to zero, or what fails is neither the priority nor `newpid`. -/
theorem failed_create {Q : Type} {k : Kernel Q} {l : List (Nat × Nat)} {ssize : Nat} {priority : Int} (H : k.heap.WellFormed l)
    (hmax : k.heap.maxheap < 2 ^ 32) : CreateKeeps k l ssize priority ↔ ¬CreateLeaks k l ssize priority := by
  have h32 : k.heap.maxheap < 4294967296 := hmax
  have hle := H.list.total_le
  have hfails := create_fails k ssize priority
  have hkeeps : (k.create ssize priority).2 = .ret SYSERR →
      (k.create ssize priority).1.heap = (k.heap.getstk (stkSize (ssize % 4294967296))).2 ∧
      (k.create ssize priority).1.proctab = k.proctab ∧ (k.create ssize priority).1.prcount = k.prcount := by
    intro hret
    rcases create_cases k ssize priority with ⟨np, e⟩ | ⟨saddr, heap, pid, np, hg, hn, hp, e⟩
    · rw [e]
      exact ⟨rfl, rfl, rfl⟩
    · rw [e] at hret
      have hneg : pid = -1 := Resume.ret.inj hret
      have := (newpidLoop_spec hn).1.1
      omega
  rcases Heap.getstk_cases H.free H.list h32 (stkSize (ssize % 4294967296)) with
    ⟨e, hno⟩ | ⟨l₁, x, l₂, h', hn0, hl, _, hfit, e, hf, ht, _, _⟩
  · constructor
    · rintro _ ⟨hr, ⟨x, hx, hfit⟩, _⟩
      rcases hno with h0 | hall
      · rw [h0] at hr
        exact hr rfl
      · exact absurd hfit (Nat.not_le.mpr (hall x hx))
    · intro _ hret
      obtain ⟨h1, h2, h3⟩ := hkeeps hret
      rw [h1, e]
      exact ⟨H.free, rfl, h2, h3⟩
  · rw [e] at hfails hkeeps
    have hx := H.list.pos x (by simp [hl])
    have htot := H.total
    rw [hl, total_append, total_cons] at htot hle
    rw [Heap.sub32_of_le (by omega) (by omega)] at ht
    constructor
    · rintro hk ⟨hr, _, hbad⟩
      have hret := hfails.mpr (Or.inr hbad)
      have hlen := (hk hret).2.1
      rw [(hkeeps hret).1, ht] at hlen
      omega
    · intro hno hret
      obtain ⟨h1, h2, h3⟩ := hkeeps hret
      have hzero : roundmb (stkSize (ssize % 4294967296)) = 0 := by
        by_contra hr
        exact hno ⟨hr, ⟨x, by simp [hl], hfit⟩, (hfails.mp hret).resolve_left nofun⟩
      have hcut : Heap.cutBack x 0 = [x] := if_neg (by omega)
      rw [hzero, hcut, List.append_assoc, List.singleton_append, ← hl] at hf
      rw [h1]
      exact ⟨hf, by rw [ht, hzero]; rfl, h2, h3⟩

/-- The heap at boot: the stack of the null process has been cut off the end. -/
theorem boot_wellFormed : (sysinit 64 65536).heap.WellFormed [(64, 57280)] := by
  have hnext : (sysinit 64 65536).heap.memlist.mnext = 64 := rfl
  have hend : ((sysinit 64 65536).heap.mem 64).mnext = NULL := rfl
  refine ⟨⟨hnext, ?_, ?_, hend⟩, ⟨?_, ?_, ?_, ?_, ?_⟩, ?_⟩
  all_goals decide

/-- At boot there is no block for a stack of 65000 bytes. -/
theorem failed_create_boot :
    ((sysinit 64 65536).create 65000 20).2 = .ret SYSERR ∧ ((sysinit 64 65536).create 65000 20).1.heap.Free [(64, 57280)] ∧
      ((sysinit 64 65536).create 65000 20).1.heap.memlist.mlength = 57280 ∧
      ((sysinit 64 65536).create 65000 20).1.proctab = (sysinit 64 65536).proctab := by
  have hret : ((sysinit 64 65536).create 65000 20).2 = .ret SYSERR := by decide
  have hno : ¬CreateLeaks (sysinit 64 65536) [(64, 57280)] 65000 20 := fun h => absurd h.2.1 (by decide)
  obtain ⟨hfree, hlen, hproc, _⟩ := (failed_create boot_wellFormed (by decide)).mpr hno hret
  exact ⟨hret, hfree, hlen, hproc⟩

/-- With priority 0 `create` returns an error, and 1024 bytes of the heap are lost. -/
theorem create_leaks_stack : ¬CreateKeeps (sysinit 64 65536) [(64, 57280)] 1024 0 := by
  intro hk
  have hlen := (hk (by decide)).2.1
  exact absurd hlen (by decide)

/-! ## A failed `mkbufpool` -/

section Bufpool

open Bufpool

/-- The request that `mkbufpool` makes of the heap does not wrap round. -/
theorem pool_request {bufsiz numbufs : Int} (h : Sizes bufsiz numbufs) :
    uint32 (numbufs * (bufsiz + bpidSize)) % 4294967296 = uint32 (numbufs * (bufsiz + bpidSize)) ∧
      uint32 (numbufs * (bufsiz + bpidSize)) ≤ 4294967288 := by
  obtain ⟨hn, hle⟩ := newPool_bytes 0 h
  unfold uint32
  omega

/-- `mkbufpool` when there is no semaphore: the block goes back, and the heap is as it was. -/
theorem gotsem_error {k : Kernel QueueTab} {d : Bufpools} {l : List (Nat × Nat)} (pid p : Int) {bufsiz numbufs : Int} {buf : Nat}
    {h : Heap} (H : h.WellFormed l) (hmin : 0 < h.minheap) (hmax : h.maxheap < 4294967296) (hsz : Sizes bufsiz numbufs)
    (hg : h.getmem (uint32 (numbufs * (bufsiz + bpidSize))) = (some buf, k.heap)) (hbuf : buf < 4294967296) :
    ∃ h', pools.execute pid 1 k (pools.resume d pid (.gotsem p buf bufsiz numbufs) SYSERR) =
        some ({ k with heap := h' }, { d.setEntry p { d.buftab p with bpsem := SYSERR } with nbpools := d.nbpools - 1 }, SYSERR) ∧
      h'.Free l ∧ h'.memlist.mlength = h.memlist.mlength := by
  obtain ⟨hmod, hle⟩ := pool_request hsz
  obtain ⟨h', he, H', ht, _⟩ := H.undo_getmem hmin hmax hle hg
  have hcall : k.call (.freemem buf (uint32 (numbufs * (bufsiz + bpidSize)))) = ({ k with heap := h' }, .ret OK) := by
    simp only [Kernel.call, hmod, Nat.mod_eq_of_lt hbuf, he, if_true]
  have hseg : pools.resume d pid (.gotsem p buf bufsiz numbufs) SYSERR =
      (d.setEntry p { d.buftab p with bpsem := SYSERR }, .call (.freemem buf (uint32 (numbufs * (bufsiz + bpidSize)))) .undone) := rfl
  refine ⟨h', ?_, H'.free, ht⟩
  rw [hseg, Client.execute_call (by rw [hcall]) (by rw [hcall]) (by rw [hcall]), hcall]
  rfl

/-- `mkbufpool` returns, and when it returns an error the free list, `memlist.mlength`, the semaphores and `nbpools` are as they
were. -/
theorem failed_mkbufpool {k : Kernel QueueTab} {d : Bufpools} {l : List (Nat × Nat)} (H : k.heap.WellFormed l)
    (hmin : 0 < k.heap.minheap) (hmax : k.heap.maxheap < 2 ^ 32) (hsem : 0 ≤ k.nextsem ∧ k.nextsem < NSEM) (hnb : 0 ≤ d.nbpools)
    (pid bufsiz numbufs : Int) :
    ∃ k' d' v, pools.execute pid 3 k (pools.enter d pid (.mkbufpool bufsiz numbufs)) = some (k', d', v) ∧
      (v = SYSERR → k'.heap.Free l ∧ k'.heap.memlist.mlength = k.heap.memlist.mlength ∧ k'.semtab = k.semtab ∧
        d'.nbpools = d.nbpools) := by
  have h32 : k.heap.maxheap < 4294967296 := hmax
  change ∃ k' d' v, pools.execute pid 3 k (d.mkbufpool bufsiz numbufs) = some (k', d', v) ∧ _
  unfold Bufpools.mkbufpool
  simp only
  split_ifs with hargs
  · exact ⟨k, d, SYSERR, Client.execute_ret, fun _ => ⟨H.free, rfl, rfl, rfl⟩⟩
  have hsz : Sizes ((int32 bufsiz + 3) / 4 * 4) (int32 numbufs) := by
    have h1 : BP_MINB = 8 := rfl
    have h2 : BP_MAXB = 8192 := rfl
    exact ⟨by omega, by omega, by omega, by omega⟩
  generalize (int32 bufsiz + 3) / 4 * 4 = bufsiz at hsz
  generalize int32 numbufs = numbufs at hsz
  obtain ⟨hmod, hle⟩ := pool_request hsz
  rcases Heap.getmem_cases H.free H.list h32 (uint32 (numbufs * (bufsiz + bpidSize))) with
    ⟨e, _⟩ | ⟨l₁, x, l₂, h', _, hl, _, hfit, e, _⟩
  · -- no memory
    have hcall : k.call (.getmem (uint32 (numbufs * (bufsiz + bpidSize)))) = (k, .ret SYSERR) := by
      simp only [Kernel.call, hmod, e]
    rw [Client.execute_call (by rw [hcall]) (by rw [hcall]) (by rw [hcall]), hcall]
    exact ⟨k, d, SYSERR, Client.execute_ret, fun _ => ⟨H.free, rfl, rfl, rfl⟩⟩
  have hup := H.list.upper x (by simp [hl])
  have hpos := H.list.pos x (by simp [hl])
  have hal := H.list.aligned x (by simp [hl])
  have hcall : k.call (.getmem (uint32 (numbufs * (bufsiz + bpidSize)))) = ({ k with heap := h' }, .ret x.1) := by
    simp only [Kernel.call, hmod, e]
  rw [Client.execute_call (by rw [hcall]) (by rw [hcall]) (by rw [hcall]), hcall]
  have hid : uint32 (x.1 : Int) = x.1 := by
    unfold uint32
    omega
  have hne : ¬int32 (x.1 : Int) = SYSERR := by
    unfold int32 SYSERR
    omega
  set d₁ := { d with nbpools := d.nbpools + 1 }.setEntry d.nbpools { d.buftab d.nbpools with bpnext := x.1, bpsize := bufsiz } with hd₁
  have hseg : pools.resume d pid (.gotmem bufsiz numbufs) x.1 =
      (d₁, .call (.semcreate numbufs) (.gotsem d.nbpools x.1 bufsiz numbufs)) := by
    simp only [Bufpools.gotmem, if_neg hne, hid, hd₁]
  have hnum : int32 numbufs = numbufs := int32_of_range (by have := hsz.2.2.1; omega)
    (by have := hsz.2.2.2; simp only [BP_MAXN] at this; omega)
  rw [hseg]
  rcases hs : newsemLoop k.semtab NSEM.toNat k.nextsem with ⟨_ | s, ns⟩
  · -- no semaphore
    have hcall₂ : ({ k with heap := h' } : Kernel QueueTab).call (.semcreate numbufs) =
        ({ k with heap := h', nextsem := ns }, .ret SYSERR) := by
      simp only [Kernel.call, Kernel.semcreate, hnum, if_neg (show ¬numbufs < 0 by have := hsz.2.2.1; omega), hs]
    rw [Client.execute_call (by rw [hcall₂]) (by rw [hcall₂]) (by rw [hcall₂]), hcall₂]
    obtain ⟨h'', hex, hfree, ht⟩ := gotsem_error (k := { k with heap := h', nextsem := ns }) (d := d₁) pid
      d.nbpools H hmin h32 hsz e (by omega)
    refine ⟨_, _, _, hex, fun _ => ⟨hfree, ht, rfl, ?_⟩⟩
    simp only [hd₁, Bufpools.setEntry]
    omega
  · -- the pool is made
    obtain ⟨hgood, _⟩ := (newsemLoop_spec hs hsem).2 s rfl
    have hcall₂ : ({ k with heap := h' } : Kernel QueueTab).call (.semcreate numbufs) =
        ((({ k with heap := h', nextsem := ns } : Kernel QueueTab).setSem s ⟨.S_USED, numbufs⟩).note (.semcreated s numbufs),
          .ret s) := by
      simp only [Kernel.call, Kernel.semcreate, hnum, if_neg (show ¬numbufs < 0 by have := hsz.2.2.1; omega), hs]
    rw [Client.execute_call (by rw [hcall₂]) (by rw [hcall₂]; rfl) (by rw [hcall₂]; rfl), hcall₂]
    have hs0 := isbadsem_iff.mp hgood
    have hNS : NSEM = 100 := rfl
    have hne₂ : ¬int32 s = SYSERR := by
      unfold int32 SYSERR
      omega
    have hret : (pools.resume d₁ pid (.gotsem d.nbpools x.1 bufsiz numbufs) s).2 = .ret d.nbpools := by
      simp only [Bufpools.gotsem, if_neg hne₂]
    rcases hr : pools.resume d₁ pid (.gotsem d.nbpools x.1 bufsiz numbufs) s with ⟨d', nx⟩
    rw [hr] at hret
    obtain rfl : nx = .ret d.nbpools := hret
    refine ⟨_, d', d.nbpools, Client.execute_ret, fun hv => ?_⟩
    rw [hv] at hnb
    exact absurd hnb (by decide)

/-- A pool of one buffer, with no semaphore left. -/
theorem failed_mkbufpool_no_semaphore :
    ∃ k' d', pools.execute 0 3 { (sysinit 64 65536) with semtab := fun _ => ⟨.S_USED, 0⟩ }
        (pools.enter Bufpools.bufinit 0 (.mkbufpool 8 1)) = some (k', d', SYSERR) ∧
      k'.heap.Free [(64, 57280)] ∧ k'.heap.memlist.mlength = 57280 ∧ k'.semtab = (fun _ => ⟨.S_USED, 0⟩) ∧ d'.nbpools = 0 := by
  obtain ⟨k', d', v, he, hv⟩ := failed_mkbufpool (k := { (sysinit 64 65536) with semtab := fun _ => ⟨.S_USED, 0⟩ })
    (d := Bufpools.bufinit) boot_wellFormed (by decide) (by decide) (by decide) (by decide) 0 8 1
  have hret : (pools.execute 0 3 { (sysinit 64 65536) with semtab := fun _ => ⟨.S_USED, 0⟩ }
      (pools.enter Bufpools.bufinit 0 (.mkbufpool 8 1))).map (fun r => r.2.2) = some SYSERR := by decide +kernel
  rw [he] at hret
  obtain rfl : v = SYSERR := Option.some.inj hret
  exact ⟨k', d', he, hv rfl⟩

end Bufpool

/-! ## A failed `ptcreate` -/

section Port

open Port

theorem ptcreateLoop_eq (porttab : Int → Ptentry) (n : Nat) (x : Int) :
    Ports.ptcreateLoop porttab n x = Table.search NPORTS (fun p => (porttab p).ptstate = .PT_FREE) n x := by
  induction n generalizing x with
  | zero => rfl
  | succ n ih =>
    unfold Ports.ptcreateLoop Table.search
    simp only [ih]

theorem newsemLoop_eq (semtab : Int → Sentry) (n : Nat) (x : Int) :
    newsemLoop semtab n x = Table.search NSEM (fun s => (semtab s).sstate = .S_FREE) n x := by
  induction n generalizing x with
  | zero => rfl
  | succ n ih =>
    unfold newsemLoop Table.search
    simp only [ih]

/-- `semcreate` returns a semaphore that was free, or there is none. -/
theorem semcreate_cases {k : Kernel QueueTab} (hsem : 0 ≤ k.nextsem ∧ k.nextsem < NSEM) {n : Int} (h0 : 0 ≤ n) (hn : int32 n = n) :
    ∃ ns, (0 ≤ ns ∧ ns < NSEM) ∧
      ((k.call (.semcreate n) = ({ k with nextsem := ns }, .ret SYSERR) ∧
          ∀ s, isbadsem s = false → (k.semtab s).sstate ≠ .S_FREE) ∨
        ∃ s, isbadsem s = false ∧ (k.semtab s).sstate = .S_FREE ∧
          k.call (.semcreate n) = (({ k with nextsem := ns }.setSem s ⟨.S_USED, n⟩).note (.semcreated s n), .ret s)) := by
  have hneg : ¬n < 0 := by omega
  have hall := Table.search_isSome (fun s => (k.semtab s).sstate = .S_FREE) hsem
  rcases hs : newsemLoop k.semtab NSEM.toNat k.nextsem with ⟨_ | s, ns⟩
  · have hr := (newsemLoop_spec hs hsem).1
    rw [← newsemLoop_eq, hs] at hall
    refine ⟨ns, hr, Or.inl ⟨by simp only [Kernel.call, Kernel.semcreate, hn, if_neg hneg, hs], fun s hg hf => ?_⟩⟩
    cases hall.mpr ⟨s, isbadsem_iff.mp hg, hf⟩
  · obtain ⟨hr, hspec⟩ := newsemLoop_spec hs hsem
    obtain ⟨hg, hf⟩ := hspec s rfl
    exact ⟨ns, hr, Or.inr ⟨s, hg, hf, by simp only [Kernel.call, Kernel.semcreate, hn, if_neg hneg, hs]⟩⟩

/-- What `ptcreate` has to do: to return a port that has two semaphores of its own with the counts `count` and 0 and an empty queue,
or to return an error and leave the states of the ports and the semaphores as they were. -/
def AllOrNothing (k : Kernel QueueTab) (d : Ports) (count : Int) (k' : Kernel QueueTab) (d' : Ports) (v : Int) : Prop :=
  (v ≠ SYSERR → (0 ≤ v ∧ v < NPORTS) ∧ (d.porttab v).ptstate = .PT_FREE ∧ (d'.porttab v).ptstate = .PT_ALLOC ∧
    (d'.porttab v).pthead = NULL ∧ (d'.porttab v).pttail = NULL ∧
    isbadsem (d'.porttab v).ptssem = false ∧ isbadsem (d'.porttab v).ptrsem = false ∧
    (d'.porttab v).ptssem ≠ (d'.porttab v).ptrsem ∧
    (k.semtab (d'.porttab v).ptssem).sstate = .S_FREE ∧ (k.semtab (d'.porttab v).ptrsem).sstate = .S_FREE ∧
    k'.semtab (d'.porttab v).ptssem = ⟨.S_USED, int32 count⟩ ∧ k'.semtab (d'.porttab v).ptrsem = ⟨.S_USED, 0⟩) ∧
  (v = SYSERR → (∀ p, (d'.porttab p).ptstate = (d.porttab p).ptstate) ∧ k'.semtab = k.semtab)

/-- Two semaphores are free, or the call is rejected before it asks for one. -/
def TwoSemaphores (k : Kernel QueueTab) (d : Ports) (count : Int) : Prop :=
  int32 count < 0 ∨ (∀ p, 0 ≤ p ∧ p < NPORTS → (d.porttab p).ptstate ≠ .PT_FREE) ∨
    ∃ s t, s ≠ t ∧ isbadsem s = false ∧ isbadsem t = false ∧ (k.semtab s).sstate = .S_FREE ∧ (k.semtab t).sstate = .S_FREE

/-- `ptcreate` behind its loop: whatever the two calls of `semcreate` return goes into the entry, and the port is returned. -/
theorem ptcreate_execute {k k₁ k₂ : Kernel QueueTab} (d : Ports) (pid p : Int) {c s t : Int}
    (h₁ : k.call (.semcreate c) = (k₁, .ret s)) (hcur₁ : k₁.currpid = k.currpid) (hst₁ : k₁.status = k.status)
    (h₂ : k₁.call (.semcreate 0) = (k₂, .ret t)) (hcur₂ : k₂.currpid = k₁.currpid) (hst₂ : k₂.status = k₁.status) :
    ∃ d', ports.execute pid 3 k (d, .call (.semcreate c) (.gotssem p c)) = some (k₂, d', p) ∧
      d'.porttab p = { d.porttab p with
        ptssem := int32 s, ptrsem := int32 t, pthead := NULL, pttail := NULL, ptseq := int32 ((d.porttab p).ptseq + 1),
        ptmaxcnt := (c % 65536).toNat } ∧
      ∀ q, q ≠ p → d'.porttab q = d.porttab q := by
  rw [Client.execute_call (by rw [h₁]) (by rw [h₁, hcur₁]) (by rw [h₁, hst₁]), h₁]
  change ∃ d', ports.execute pid 2 k₁ (d.gotssem p c s) = _ ∧ _
  unfold Ports.gotssem
  rw [Client.execute_call (by rw [h₂]) (by rw [h₂, hcur₂]) (by rw [h₂, hst₂]), h₂]
  refine ⟨((d.gotssem p c s).1.gotrsem p c t).1, Client.execute_ret, ?_, fun q hq => ?_⟩
  · simp [Ports.gotssem, Ports.gotrsem, Ports.setEntry]
  · simp [Ports.gotssem, Ports.gotrsem, Ports.setEntry, Function.update_of_ne hq]

/-- `ptcreate` returns, and is all or nothing exactly when it is rejected or two semaphores are free. -/
theorem ptcreate_all_or_nothing {k : Kernel QueueTab} {d : Ports} (hsem : 0 ≤ k.nextsem ∧ k.nextsem < NSEM)
    (hport : 0 ≤ d.ptnextid ∧ d.ptnextid < NPORTS) (pid count : Int) :
    ∃ k' d' v, ports.execute pid 3 k (ports.enter d pid (.ptcreate count)) = some (k', d', v) ∧
      (AllOrNothing k d count k' d' v ↔ TwoSemaphores k d count) := by
  change ∃ k' d' v, ports.execute pid 3 k (d.ptcreate count) = some (k', d', v) ∧ _
  unfold Ports.ptcreate
  simp only
  split_ifs with hneg
  · exact ⟨k, d, SYSERR, Client.execute_ret, fun _ => Or.inl hneg, fun _ => ⟨fun h => absurd rfl h, fun _ => ⟨fun _ => rfl, rfl⟩⟩⟩
  have hfind := Table.search_isSome (fun p => (d.porttab p).ptstate = .PT_FREE) hport
  rw [← ptcreateLoop_eq] at hfind
  rcases hl : Ports.ptcreateLoop d.porttab NPORTS.toNat d.ptnextid with ⟨_ | p, np⟩
  · -- no port
    rw [hl] at hfind
    have hall : ∀ p, 0 ≤ p ∧ p < NPORTS → (d.porttab p).ptstate ≠ .PT_FREE := fun p hp hf => by cases hfind.mpr ⟨p, hp, hf⟩
    exact ⟨k, _, SYSERR, Client.execute_ret, fun _ => Or.inr (Or.inl hall),
      fun _ => ⟨fun h => absurd rfl h, fun _ => ⟨fun _ => rfl, rfl⟩⟩⟩
  obtain ⟨hp, hpf, _⟩ := Table.search_some ((ptcreateLoop_eq _ _ _).symm.trans hl) hport
  have hv : p ≠ SYSERR := by
    rintro rfl
    exact absurd hp.1 (by decide)
  have hbad : isbadsem (int32 SYSERR) = true := by decide
  have hid : ∀ s, isbadsem s = false → int32 s = s := by
    intro s hs
    have := isbadsem_iff.mp hs
    have hN : NSEM = 100 := rfl
    exact int32_of_range (by omega) (by omega)
  have hc : int32 (int32 count) = int32 count := int32_of_range (int32_range count).1 (int32_range count).2
  obtain ⟨ns₁, hr₁, hcase₁⟩ := semcreate_cases hsem (show 0 ≤ int32 count by omega) hc
  set d₁ := { d with ptnextid := np }.setEntry p { d.porttab p with ptstate := .PT_ALLOC } with hd₁
  have hstate : (d₁.porttab p).ptstate = .PT_ALLOC := by simp [hd₁, Ports.setEntry]
  rcases hcase₁ with ⟨hcall₁, hnone⟩ | ⟨s, hs, hsf, hcall₁⟩
  · -- no semaphore at all
    obtain ⟨ns₂, _, hcase₂⟩ := semcreate_cases (k := { k with nextsem := ns₁ }) hr₁ (Int.le_refl 0) rfl
    rcases hcase₂ with ⟨hcall₂, _⟩ | ⟨t, ht, htf, _⟩
    swap
    · exact absurd htf (hnone t ht)
    obtain ⟨d', hex, hself, _⟩ := ptcreate_execute d₁ pid p hcall₁ rfl rfl hcall₂ rfl rfl
    refine ⟨_, d', p, hex, fun hok => ?_, fun htwo => ?_⟩
    · have := (hok.1 hv).2.2.2.2.2.1
      rw [hself, hbad] at this
      cases this
    · rcases htwo with h | h | ⟨a, _, _, ha, _, haf, _⟩
      · exact absurd h hneg
      · exact absurd hpf (h p hp)
      · exact absurd haf (hnone a ha)
  · obtain ⟨ns₂, _, hcase₂⟩ := semcreate_cases
      (k := ({ k with nextsem := ns₁ }.setSem s ⟨.S_USED, int32 count⟩).note (.semcreated s (int32 count))) hr₁ (Int.le_refl 0) rfl
    rcases hcase₂ with ⟨hcall₂, hnone⟩ | ⟨t, ht, htf, hcall₂⟩
    · -- no second semaphore
      obtain ⟨d', hex, hself, _⟩ := ptcreate_execute d₁ pid p hcall₁ rfl rfl hcall₂ rfl rfl
      refine ⟨_, d', p, hex, fun hok => ?_, fun htwo => ?_⟩
      · have := (hok.1 hv).2.2.2.2.2.2.1
        rw [hself, hbad] at this
        cases this
      · have hother : ∀ a, a ≠ s → isbadsem a = false → (k.semtab a).sstate ≠ .S_FREE := by
          intro a hne ha haf
          have heq : Function.update k.semtab s ⟨.S_USED, int32 count⟩ a = k.semtab a := Function.update_of_ne hne _ _
          exact hnone a ha ((congrArg Sentry.sstate heq).trans haf)
        rcases htwo with h | h | ⟨a, b, hab, ha, hb, haf, hbf⟩
        · exact absurd h hneg
        · exact absurd hpf (h p hp)
        · by_cases has : a = s
          · exact absurd hbf (hother b (fun e => hab (has.trans e.symm)) hb)
          · exact absurd haf (hother a has ha)
    · -- both semaphores
      have hts : t ≠ s := by
        rintro rfl
        have heq : Function.update k.semtab t ⟨.S_USED, int32 count⟩ t = ⟨.S_USED, int32 count⟩ := Function.update_self _ _ _
        exact absurd ((congrArg Sentry.sstate heq).symm.trans htf) nofun
      have heq : Function.update k.semtab s ⟨.S_USED, int32 count⟩ t = k.semtab t := Function.update_of_ne hts _ _
      have htf' : (k.semtab t).sstate = .S_FREE := (congrArg Sentry.sstate heq).symm.trans htf
      obtain ⟨d', hex, hself, _⟩ := ptcreate_execute d₁ pid p hcall₁ rfl rfl hcall₂ rfl rfl
      rw [hid s hs, hid t ht] at hself
      refine ⟨_, d', p, hex, fun _ => Or.inr (Or.inr ⟨s, t, Ne.symm hts, hs, ht, hsf, htf'⟩), fun _ => ⟨fun _ => ?_, fun h => absurd h hv⟩⟩
      rw [hself]
      refine ⟨hp, hpf, hstate, rfl, rfl, hs, ht, Ne.symm hts, hsf, htf', ?_, Function.update_self _ _ _⟩
      exact (Function.update_of_ne (Ne.symm hts) _ _).trans (Function.update_self _ _ _)

/-- At boot, where all semaphores are free. -/
theorem ptcreate_all_or_nothing_boot :
    ∃ k' d', ports.execute 0 3 (sysinit 64 65536) (ports.enter Ports.init 0 (.ptcreate 5)) = some (k', d', 0) ∧
      AllOrNothing (sysinit 64 65536) Ports.init 5 k' d' 0 := by
  obtain ⟨k', d', v, hex, hiff⟩ := ptcreate_all_or_nothing (k := sysinit 64 65536) (d := Ports.init) (by decide) (by decide) 0 5
  have htwo : TwoSemaphores (sysinit 64 65536) Ports.init 5 :=
    Or.inr (Or.inr ⟨0, 1, by decide, by decide, by decide, by decide, by decide⟩)
  have hret : (ports.execute 0 3 (sysinit 64 65536) (ports.enter Ports.init 0 (.ptcreate 5))).map (fun r => r.2.2) = some 0 := by
    decide +kernel
  rw [hex] at hret
  obtain rfl : v = 0 := Option.some.inj hret
  exact ⟨k', d', hex, hiff.mpr htwo⟩

/-- A kernel with one semaphore left. -/
def oneSemaphore : Kernel QueueTab := { (sysinit 64 65536) with semtab := fun s => if s = 7 then ⟨.S_FREE, 0⟩ else ⟨.S_USED, 0⟩ }

/-- With one semaphore left `ptcreate` returns a port whose second semaphore is `SYSERR`. -/
theorem ptcreate_with_one_semaphore :
    ∃ k' d', ports.execute 0 3 oneSemaphore (ports.enter Ports.init 0 (.ptcreate 5)) = some (k', d', 0) ∧
      ¬AllOrNothing oneSemaphore Ports.init 5 k' d' 0 := by
  have hsome : ((ports.execute 0 3 oneSemaphore (ports.enter Ports.init 0 (.ptcreate 5))).map fun r =>
      (r.2.2, (r.2.1.porttab 0).ptrsem)) = some (0, SYSERR) := by decide +kernel
  obtain ⟨⟨k', d', v⟩, hex, hr⟩ := Option.map_eq_some_iff.mp hsome
  obtain ⟨rfl, hsem⟩ := Prod.mk.inj hr
  refine ⟨k', d', hex, fun hok => ?_⟩
  have hgood := (hok.1 (by decide)).2.2.2.2.2.2.1
  rw [hsem] at hgood
  exact absurd hgood (by decide)

end Port

end Xinu
