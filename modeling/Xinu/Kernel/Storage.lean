import Xinu.Kernel.Counting
import Xinu.Memory.Allocation
import Mathlib.Data.List.Perm.Subperm

/-!
# The heap in every run

Only `create`, `getmem`, `freemem` and `kill` use the heap. While memory is returned only by a library that obtained it, the blocks
that the library has are blocks handed out (`Stores`), and a block that `getmem` hands out overlaps none of them.
-/

namespace Xinu

open Kernel Blocks

section Heap

variable {Q : Type} [QueueOps Q] (k : Kernel Q)

theorem insert_heap (p q key : Int) : (k.insert p q key).2.heap = k.heap := by
  unfold Kernel.insert
  split <;> rfl

theorem insertd_heap (p q key : Int) : (k.insertd p q key).2.heap = k.heap := by
  unfold Kernel.insertd
  split <;> rfl

theorem enqueue_heap (p q : Int) : (k.enqueue p q).2.heap = k.heap := by
  unfold Kernel.enqueue
  split <;> rfl

/-- Rescheduling does not touch the free list. -/
theorem resched_heap : k.resched.heap = k.heap := by
  unfold Kernel.resched
  split_ifs
  · rfl
  · rfl
  · exact insert_heap _ _ _ _
  · rfl

/-- The end of a deferral does not touch the free list. -/
theorem deferStop_heap : k.deferStop.heap = k.heap := by
  unfold Kernel.deferStop
  split
  · rfl
  · simp only
    split
    · exact resched_heap _
    · rfl

theorem ready_heap (p : Int) : (k.ready p).2.heap = k.heap := by
  unfold Kernel.ready
  split
  · rfl
  · exact (resched_heap _).trans (insert_heap _ _ _ _)

theorem unsleep_heap (p : Int) : (k.unsleep p).heap = k.heap := by
  unfold Kernel.unsleep
  split_ifs <;> rfl

/-- Sending does not touch the free list, whichever state the receiver is in. -/
theorem send_heap (p : Int) (msg : Nat) : (k.send p msg).1.heap = k.heap := by
  unfold Kernel.send
  split_ifs
  · rfl
  · rfl
  · simp only
    split
    · exact ready_heap _ _
    · exact (ready_heap _ _).trans (unsleep_heap _ _)
    · rfl

theorem signalOne_heap (s : Int) : (k.signalOne s).heap = k.heap := by
  unfold Kernel.signalOne
  simp only
  split
  · exact ready_heap _ _
  · rfl

theorem signalLoop_heap (s : Int) (n : Nat) : (signalLoop s n k).heap = k.heap := by
  induction n generalizing k with
  | zero => rfl
  | succ n ih => exact (ih _).trans (signalOne_heap k s)

/-- The loop of `semreset` does not touch the free list. -/
theorem resetLoop_heap (s : Int) (n : Nat) : (resetLoop s n k).heap = k.heap := by
  induction n generalizing k with
  | zero => rfl
  | succ n ih =>
    unfold resetLoop
    simp only
    split
    · rfl
    · exact (ih _).trans (ready_heap _ _)

/-- The loop of `semdelete` does not touch the free list. -/
theorem deleteLoop_heap (s : Int) (n : Nat) : (deleteLoop s n k).heap = k.heap := by
  induction n generalizing k with
  | zero => rfl
  | succ n ih =>
    unfold deleteLoop
    simp only
    split
    · exact (ih _).trans (ready_heap _ _)
    · rfl

/-- Waking processes does not touch the free list. -/
theorem wakeupLoop_heap (n : Nat) : (wakeupLoop n k).heap = k.heap := by
  induction n generalizing k with
  | zero => rfl
  | succ n ih =>
    unfold wakeupLoop
    split
    · exact (ih _).trans (ready_heap _ _)
    · rfl

theorem wakeup_heap : k.wakeup.heap = k.heap := (deferStop_heap _).trans (wakeupLoop_heap _ _)

theorem countTick_heap : k.countTick.heap = k.heap := by
  obtain ⟨_, _, h⟩ := countTick_eq k
  rw [h]
  rfl

/-- A tick of the delta list does not touch the free list. -/
theorem tickSleepers_heap : k.tickSleepers.heap = k.heap := by
  unfold Kernel.tickSleepers
  split
  · rfl
  · simp only
    split
    · exact wakeup_heap _
    · rfl

theorem tickPreempt_heap : k.tickPreempt.heap = k.heap := by
  unfold Kernel.tickPreempt
  simp only
  split
  · exact resched_heap _
  · rfl

theorem clockInterrupt_heap : k.clockInterrupt.heap = k.heap := by
  refine (deferStop_heap _).trans ((tickPreempt_heap _).trans ((tickSleepers_heap _).trans (countTick_heap _)))

end Heap

/-- The system call allocates or frees memory. -/
def Call.usesHeap : Call → Bool
  | .create _ _ | .getmem _ | .freemem _ _ => true
  | _ => false

section Heap

variable {Q : Type} [QueueOps Q] (k : Kernel Q)

/-! The system calls that are not about memory leave the free list as it is. -/

theorem resume_heap (p : Int) : (k.resume p).1.heap = k.heap := by
  unfold Kernel.resume
  split_ifs
  · rfl
  · rfl
  · exact ready_heap _ _

/-- `suspend` keeps the stack of its process. -/
theorem suspend_heap (p : Int) : (k.suspend p).1.heap = k.heap := by
  unfold Kernel.suspend
  split
  · rfl
  · split
    · rfl
    · exact resched_heap _
    · rfl

/-- `kill` returns no memory before the three closes. -/
theorem kill_heap (p : Int) : (k.kill p).1.heap = k.heap := by
  unfold Kernel.kill
  split
  · rfl
  · simp only
    split
    · rfl
    · exact send_heap _ _ _

/-- Blocking keeps the stack. -/
theorem wait_heap (s : Int) : (k.wait s).1.heap = k.heap := by
  unfold Kernel.wait
  split_ifs
  · rfl
  · rfl
  · simp only
    split
    · exact (resched_heap _).trans (enqueue_heap _ _ _)
    · rfl

theorem signal_heap (s : Int) : (k.signal s).1.heap = k.heap := by
  unfold Kernel.signal
  split_ifs
  · rfl
  · rfl
  · exact signalOne_heap _ _

/-- Releasing processes needs no memory. -/
theorem signaln_heap (s n : Int) : (k.signaln s n).1.heap = k.heap := by
  unfold Kernel.signaln
  simp only
  split_ifs
  · rfl
  · rfl
  · exact (deferStop_heap _).trans (signalLoop_heap _ _ _)

omit [QueueOps Q] in
theorem semcreate_heap (n : Int) : (k.semcreate n).1.heap = k.heap := by
  unfold Kernel.semcreate
  simp only
  split
  · rfl
  · split <;> rfl

theorem semreset_heap (s n : Int) : (k.semreset s n).1.heap = k.heap := by
  unfold Kernel.semreset
  simp only
  split
  · rfl
  · exact (deferStop_heap _).trans (resetLoop_heap _ _ _)

theorem semdelete_heap (s : Int) : (k.semdelete s).1.heap = k.heap := by
  unfold Kernel.semdelete
  split_ifs
  · rfl
  · rfl
  · exact (deferStop_heap _).trans (deleteLoop_heap _ _ _)

theorem receive_heap : k.receive.1.heap = k.heap := by
  unfold Kernel.receive
  split
  · rfl
  · exact resched_heap _

/-- Waiting with a timeout keeps the stack, too. -/
theorem recvtime_heap (d : Int) : (k.recvtime d).1.heap = k.heap := by
  unfold Kernel.recvtime
  simp only
  split_ifs
  · rfl
  · rfl
  · exact insertd_heap _ _ _ _
  · exact (resched_heap _).trans (insertd_heap _ _ _ _)

/-- Sleeping keeps it. -/
theorem sleepms_heap (d : Int) : (k.sleepms d).1.heap = k.heap := by
  unfold Kernel.sleepms
  simp only
  split_ifs
  · rfl
  · exact resched_heap _
  · exact insertd_heap _ _ _ _
  · exact (resched_heap _).trans (insertd_heap _ _ _ _)

/-- A system call that does not allocate or free memory leaves the free list as it is. -/
theorem call_heap {c : Call} (hc : c.usesHeap = false) : (k.call c).1.heap = k.heap := by
  cases c with
  | create ssize priority | getmem n | freemem a n => cases hc
  | resume p => exact resume_heap k p
  | suspend p => exact suspend_heap k p
  | ready p => exact ready_heap _ _
  | resched | yield => exact resched_heap _
  | kill p => exact kill_heap k p
  | wait s => exact wait_heap k s
  | signal s => exact signal_heap k s
  | signaln s n => exact signaln_heap k s n
  | semcreate n => exact semcreate_heap k n
  | semreset s n => exact semreset_heap k s n
  | semdelete s => exact semdelete_heap k s
  | semcount s =>
    change (k.semcount s).1.heap = k.heap
    unfold Kernel.semcount
    split <;> rfl
  | send p msg => exact send_heap _ _ _
  | receive => exact receive_heap k
  | recvtime d => exact recvtime_heap k d
  | recvclr =>
    change k.recvclr.1.heap = k.heap
    unfold Kernel.recvclr
    split <;> rfl
  | sleepms d => exact sleepms_heap k d
  | chprio p prio =>
    change (k.chprio p prio).1.heap = k.heap
    unfold Kernel.chprio
    split <;> rfl

/-- Only the end of `kill`, behind the three closes, returns memory. -/
theorem proceed_heap {r : Resume} (hr : ∀ pid i, r = .kill pid i → i < 3) : (k.proceed r).1.heap = k.heap := by
  cases r with
  | kill pid i =>
    have hi := hr pid i rfl
    simp only [Kernel.proceed, if_pos hi]
  | recvtime =>
    unfold Kernel.proceed
    simp only
    split <;> rfl
  | ret v | suspend pid | receive => rfl

end Heap

/-! ## Blocks that a library has -/

/-- The blocks, given by address and requested size, are among those handed out. -/
def Heap.Stores (h : Heap) (bs : List (Nat × Nat)) : Prop :=
  ∃ lo hi l blocks, 0 < lo ∧ hi < 4294967296 ∧ h.Ledger lo hi l blocks ∧ bs.Subperm blocks

namespace Heap.Stores

variable {h : Heap} {bs bs' : List (Nat × Nat)} {b : Nat × Nat} {n : Nat}

theorem mono (H : h.Stores bs) (hb : bs'.Subperm bs) : h.Stores bs' := by
  obtain ⟨lo, hi, l, blocks, h0, hhi, L, hs⟩ := H
  exact ⟨lo, hi, l, blocks, h0, hhi, L, hb.trans hs⟩

/-- No two of the blocks overlap. -/
theorem apart (H : h.Stores bs) : (bs.map rounded).Pairwise Apart := by
  obtain ⟨lo, hi, l, blocks, _, _, L, hs⟩ := H
  have hall := (List.pairwise_append.mp (L.tiles.apart L.pos)).2.1
  obtain ⟨bs', hperm, hsub⟩ := hs
  exact (hall.sublist (hsub.map rounded)).perm (hperm.map rounded) fun h => Apart.symm h

/-- The blocks are no null pointers, and do not reach the end of the address space. -/
theorem range (H : h.Stores bs) (hb : b ∈ bs) : 0 < b.1 ∧ b.1 + roundmb b.2 < 4294967296 := by
  obtain ⟨lo, hi, l, blocks, h0, hhi, L, hs⟩ := H
  have hin := L.block (hs.subset hb)
  omega

/-- `getmem` fails and changes nothing, or hands out one more block. -/
theorem getmem (H : h.Stores bs) (hn : n ≤ 4294967288) :
    h.getmem n = (none, h) ∨ ∃ a h', h.getmem n = (some a, h') ∧ h'.Stores ((a, n) :: bs) := by
  obtain ⟨lo, hi, l, blocks, h0, hhi, L, hs⟩ := H
  rcases L.getmem hhi hn with e | ⟨a, h', l', e, L'⟩
  · exact Or.inl e
  · exact Or.inr ⟨a, h', e, lo, hi, l', _, h0, hhi, L', (List.subperm_cons _).mpr hs⟩

/-- `getstk` leaves the blocks handed out. -/
theorem getstk (H : h.Stores bs) (hn : n ≤ 4294967288) : (h.getstk n).2.Stores bs := by
  obtain ⟨lo, hi, l, blocks, h0, hhi, L, hs⟩ := H
  rcases L.getstk hhi hn with e | ⟨b, h', l', e, L'⟩
  · rw [e]
    exact ⟨lo, hi, l, blocks, h0, hhi, L, hs⟩
  · rw [e]
    exact ⟨lo, hi, l', _, h0, hhi, L', hs.cons_right _⟩

/-- `freemem` takes one of the blocks back. -/
theorem freemem (H : h.Stores bs) (hb : b ∈ bs) : (h.freemem b.1 b.2).2.Stores (bs.erase b) := by
  obtain ⟨lo, hi, l, blocks, h0, hhi, L, hs⟩ := H
  obtain ⟨h', l', e, L'⟩ := L.freemem h0 hhi (hs.subset hb)
  rw [e]
  exact ⟨lo, hi, l', _, h0, hhi, L', hs.erase b⟩

end Heap.Stores

theorem stores_boot {minheap maxheap : Nat} (hpos : 0 < minheap) (hlt : minheap < maxheap) (hmax : maxheap < 4294967296)
    (hmin8 : minheap % 8 = 0) (hmax8 : maxheap % 8 = 0) : (sysinit minheap maxheap).heap.Stores [] := by
  have h0 : (Heap.meminit minheap maxheap).Stores [] :=
    ⟨minheap, maxheap, _, [], hpos, hmax, Heap.Ledger.init hpos hlt hmax hmin8 hmax8, List.Subperm.refl _⟩
  have hn : NULLSTK ≤ 4294967288 := by decide
  exact h0.getstk hn

/-- The system call returns no memory, and asks for no more than there may be. -/
def Call.keepsHeap : Call → Bool
  | .create ssize _ => decide (Kernel.stkSize (ssize % 4294967296) ≤ 4294967288)
  | .getmem nbytes => decide (nbytes % 4294967296 ≤ 4294967288)
  | .freemem _ _ => false
  | _ => true

/-- Every call but those that are meant to release memory keeps the blocks in use. -/
theorem call_stores {k : Kernel QueueTab} {bs : List (Nat × Nat)} {c : Call} (H : k.heap.Stores bs) (hc : c.keepsHeap = true) :
    (k.call c).1.heap.Stores bs := by
  by_cases hu : c.usesHeap = true
  · cases c with
    | create ssize priority =>
      have hn := of_decide_eq_true hc
      have H' := H.getstk hn
      change (k.create ssize priority).1.heap.Stores bs
      rcases create_cases k ssize priority with ⟨np, e⟩ | ⟨saddr, heap, pid, np, hg, _, _, e⟩
      · rw [e]
        exact H'
      · rw [e]
        rw [hg] at H'
        exact H'
    | getmem n =>
      have hn := of_decide_eq_true hc
      rcases H.getmem hn with e | ⟨a, h', e, H'⟩
      · simp only [Kernel.call, e]
        exact H
      · simp only [Kernel.call, e]
        exact H'.mono (List.sublist_cons_self _ _).subperm
    | freemem a n => cases hc
    | _ => cases hu
  · rw [call_heap k (by simpa using hu)]
    exact H

section Step

variable {C : Client} {m m' : Machine C} {e : Event C} {bs : List (Nat × Nat)}

/-- The end of `kill` returns the stack of its victim, and nothing else. -/
theorem killEnd_heap {Q : Type} [QueueOps Q] (k : Kernel Q) (pid : Int) :
    (k.killEnd pid).heap = (k.heap.freestk (k.proctab pid).prstkbase (k.proctab pid).prstklen).2 := by
  have hstk : (k.freeStack pid).heap = (k.heap.freestk (k.proctab pid).prstkbase (k.proctab pid).prstklen).2 := rfl
  rw [← hstk]
  unfold Kernel.killEnd killSwitch
  split
  · exact resched_heap _
  · exact unsleep_heap _ _
  · exact unsleep_heap _ _
  · rfl
  · rfl
  · rfl

/-- What an event does to the heap: a system call, the stack of a process that ends, or nothing. -/
theorem step_heap (hs : m.step e = some m') :
    m'.k.heap = m.k.heap ∨ (∃ c, m.issued e = some c ∧ m'.k.heap = (m.k.call c).1.heap) ∨
      ∃ pid, m.removes e = some pid ∧
        m'.k.heap = (m.k.heap.freestk (m.k.proctab pid).prstkbase (m.k.proctab pid).prstklen).2 := by
  cases (Machine.step_effect hs).2 with
  | call c d l rest hi => exact Or.inr (Or.inl ⟨c, hi, rfl⟩)
  | inside d l rest => exact Or.inl rfl
  | stop d s l hx => exact Or.inl rfl
  | tick hu he => exact Or.inl (clockInterrupt_heap _)
  | proceed r rest hstk hr he =>
    subst he
    by_cases hkill : ∃ pid i, r = .kill pid i ∧ ¬i < 3
    · obtain ⟨pid, i, rfl, hi⟩ := hkill
      refine Or.inr (Or.inr ⟨pid, by simp [Machine.removes, hstk, hi], ?_⟩)
      have hgo : (m.goOn (.kill pid i) rest).k.heap = (m.k.proceed (.kill pid i)).1.heap := by
        rw [show m.goOn (.kill pid i) rest = _ from if_neg hi]
        rfl
      rw [hgo, Kernel.proceed, if_neg hi]
      exact killEnd_heap _ _
    · have h3 : ∀ pid i, r = .kill pid i → i < 3 := by
        intro pid i hk
        by_contra hi
        exact hkill ⟨pid, i, hk, hi⟩
      have hheap : (m.goOn r rest).k.heap = (m.k.proceed r).1.heap := by
        cases r with
        | kill pid i => rw [show m.goOn (.kill pid i) rest = _ from if_pos (h3 pid i rfl)]
        | _ => rfl
      exact Or.inl (hheap.trans (proceed_heap _ h3))

/-- The memory that user code returns, and the stack of a process that ends, is none of the blocks. -/
structure Machine.Spares (m : Machine C) (bs : List (Nat × Nat)) (e : Event C) : Prop where
  user : ∀ c, e = .call c → c.keepsHeap = true ∨ (m.k.call c).1.heap.Stores bs
  ends : ∀ pid ∈ m.removes e, (m.k.heap.freestk (m.k.proctab pid).prstkbase (m.k.proctab pid).prstklen).2.Stores bs

/-- The blocks remain handed out. -/
theorem step_stores (hs : m.step e = some m') (H : m.k.heap.Stores bs) (hsp : m.Spares bs e)
    (hcall : ∀ d c f, m.segment e = some (d, .call c f) → (m.k.call c).1.heap.Stores bs) : m'.k.heap.Stores bs := by
  rcases step_heap hs with hh | ⟨c, hc, hh⟩ | ⟨pid, hr, hh⟩
  · rw [hh]
    exact H
  · rw [hh]
    rcases issued_cases hc with he | ⟨d, f, hx⟩
    · rcases hsp.user c he with hk | hk
      · exact call_stores H hk
      · exact hk
    · exact hcall d c f hx
  · rw [hh]
    exact hsp.ends pid hr

end Step

end Xinu
