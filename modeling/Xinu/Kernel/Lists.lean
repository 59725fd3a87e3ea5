import Mathlib.Data.Int.Interval
import Xinu.Kernel.Queue

/-!
# Queues as lists

The abstract implementation of the queues: a list of processes for every queue and a key for every process. `Rep qt L` says
the table `qt` represents the lists `L`; every operation on the table keeps it (`Rep.enqueue` to `Rep.decFirst`), provided a
process that is inserted is on no list and a process that is removed is on one.
-/

namespace Xinu

/-- The queues as lists of processes, with one key per process. -/
structure QLists where
  ids : Int → List Int
  key : Int → Int

namespace QLists

variable (L : QLists)

def setIds (q : Int) (l : List Int) : QLists := { L with ids := Function.update L.ids q l }
def setKey (p k : Int) : QLists := { L with key := Function.update L.key p k }

@[simp] theorem setIds_ids (q : Int) (l : List Int) : (L.setIds q l).ids = Function.update L.ids q l := rfl
@[simp] theorem setIds_key (q : Int) (l : List Int) : (L.setIds q l).key = L.key := rfl
@[simp] theorem setKey_ids (p k : Int) : (L.setKey p k).ids = L.ids := rfl
@[simp] theorem setKey_key (p k : Int) : (L.setKey p k).key = Function.update L.key p k := rfl

/-- Where `insertd` cuts a delta list: the processes it passes, the processes behind, and what is left of the delay. -/
def deltaCut (key : Int → Int) : Int → List Int → List Int × List Int × Int
  | k, [] => ([], [], k)
  | k, x :: l =>
    if key x ≤ k then
      let (a, b, k') := deltaCut key (int32 (k - key x)) l
      (x :: a, b, k')
    else ([], x :: l, k)

/-- A process is taken out of its list. -/
def getitem (p : Int) : QLists := { L with ids := fun q => (L.ids q).erase p }

/-- The first process is taken off the list. -/
def getfirst (q : Int) : Int × QLists :=
  match L.ids q with
  | [] => (EMPTY, L)
  | p :: _ => (p, L.getitem p)

/-- The process behind `p` on the list `l`. -/
def after (p : Int) : List Int → Option Int
  | [] => none
  | x :: l => if x = p then l.head? else after p l

/-- A process is inserted by its key, behind those with the same key. -/
def insert (p q k : Int) : QLists :=
  (L.setIds q ((L.ids q).takeWhile (fun x => decide (k ≤ L.key x)) ++
    p :: (L.ids q).dropWhile (fun x => decide (k ≤ L.key x)))).setKey p k

/-- A process is inserted by its delay, and the key behind it is made smaller. -/
def insertd (p q k : Int) : QLists :=
  let (a, b, k') := deltaCut L.key k (L.ids q)
  let L' := (L.setIds q (a ++ p :: b)).setKey p k'
  match b with
  | [] => L'
  | x :: _ => L'.setKey x (int32 (L.key x - k'))

/-- The key of a process is added to that of its successor. -/
def passKey (q p : Int) : QLists :=
  match after p (L.ids q) with
  | none => L
  | some x => L.setKey x (int32 (L.key x + L.key p))

/-- The first key is made smaller by one. -/
def decFirst (q : Int) : QLists :=
  match L.ids q with
  | [] => L
  | p :: _ => L.setKey p (int32 (L.key p - 1))

end QLists

instance : QueueOps QLists where
  isempty L q := (L.ids q).isEmpty
  firstid L q := (L.ids q).headD (queuetail q)
  firstkey L q := match L.ids q with
    | [] => MINKEY
    | p :: _ => L.key p
  enqueue L p q := L.setIds q (L.ids q ++ [p])
  getitem := QLists.getitem
  getfirst := QLists.getfirst
  dequeue := QLists.getfirst
  insert := QLists.insert
  insertd := QLists.insertd
  passKey := QLists.passKey
  decFirst := QLists.decFirst

/-- `q` is the identifier of a queue that `newqueue` hands out. -/
def IsHead (q : Int) : Prop := NPROC ≤ q ∧ q < NQENT - 1 ∧ (q - NPROC) % 2 = 0

/-- `p` is the index of an entry of the process table. -/
def IsPid (p : Int) : Prop := 0 ≤ p ∧ p < NPROC

instance (p : Int) : Decidable (IsPid p) := inferInstanceAs (Decidable (_ ∧ _))
instance (q : Int) : Decidable (IsHead q) := inferInstanceAs (Decidable (_ ∧ _))

theorem IsHead.not_bad {q : Int} (h : IsHead q) : isbadqid q = false := by
  simp only [isbadqid, Bool.or_eq_false_iff, decide_eq_false_iff_not]
  exact ⟨by have := h.1; omega, by have := h.2.1; omega⟩

/-- There are `NPROC` processes. -/
theorem pids_length_le {l : List Int} (hn : l.Nodup) (hp : ∀ p ∈ l, IsPid p) : l.length ≤ NPROC.toNat := by
  have hsub : l.toFinset ⊆ Finset.Ico 0 NPROC := by
    intro p hm
    obtain ⟨h1, h2⟩ := hp p (List.mem_toFinset.mp hm)
    simp [h1, h2]
  have hc := Finset.card_le_card hsub
  rw [List.toFinset_card_of_nodup hn, Int.card_Ico] at hc
  omega

/-- The table `qt` represents the lists `L`. -/
structure Rep (qt : QueueTab) (L : QLists) : Prop where
  linked : ∀ q, IsHead q → Table.Linked (fun i => (qt i).qnext) (fun i => (qt i).qprev) (q :: L.ids q ++ [queuetail q])
  tailkey : ∀ q, IsHead q → (qt (queuetail q)).qkey = MINKEY
  key : ∀ p, IsPid p → (qt p).qkey = L.key p
  range : ∀ q p, p ∈ L.ids q → IsPid p
  heads : ∀ q, ¬IsHead q → L.ids q = []
  nodup : ∀ q, (L.ids q).Nodup
  disj : ∀ q q' p, p ∈ L.ids q → p ∈ L.ids q' → q = q'

namespace Rep

variable {qt qt' : QueueTab} {L : QLists} {q pid : Int}

theorem isHead_of_mem (h : Rep qt L) {p : Int} (hp : p ∈ L.ids q) : IsHead q := by
  by_contra hq
  rw [h.heads q hq] at hp
  exact List.not_mem_nil hp

/-- The nodes of a queue, sentinels included, are different from one another. -/
theorem nodes_nodup (h : Rep qt L) (hq : IsHead q) : (q :: L.ids q ++ [queuetail q]).Nodup := by
  have hr : ∀ p ∈ L.ids q, p < NPROC := fun p hp => (h.range q p hp).2
  have hq1 := hq.1
  simp only [List.cons_append, List.nodup_cons, List.mem_append, List.mem_singleton, not_or, queuetail]
  refine ⟨⟨fun hm => ?_, by omega⟩, List.nodup_append.mpr ⟨h.nodup q, List.nodup_singleton _, ?_⟩⟩
  · have := hr q hm
    omega
  · intro p hp y hy
    have := hr p hp
    rw [List.mem_singleton] at hy
    omega

/-- Different queues share no node. -/
theorem nodes_disjoint (h : Rep qt L) {q' : Int} (hq : IsHead q) (hq' : IsHead q') (hne : q' ≠ q) :
    ∀ i ∈ q' :: L.ids q' ++ [queuetail q'], i ∉ q :: L.ids q ++ [queuetail q] := by
  obtain ⟨h1, h2, h3⟩ := hq
  obtain ⟨h1', h2', h3'⟩ := hq'
  intro i hi hi'
  simp only [List.cons_append, List.mem_cons, List.mem_append, List.not_mem_nil, or_false, queuetail] at hi hi'
  rcases hi with rfl | hi | rfl <;> rcases hi' with hi' | hi' | hi'
  all_goals first
    | omega
    | exact hne (h.disj _ _ _ hi hi')
    | exact absurd (h.range _ _ hi).2 (by omega)
    | exact absurd (h.range _ _ hi').2 (by omega)

/-- A process is not a sentinel. -/
theorem pid_not_node {L : QLists} {q pid : Int} (hp : IsPid pid) (hq : IsHead q) (hf : pid ∉ L.ids q) :
    pid ∉ q :: L.ids q ++ [queuetail q] := by
  have h1 := hq.1
  have h2 := hp.2
  simp only [List.cons_append, List.mem_cons, List.mem_append, List.not_mem_nil, or_false, queuetail, not_or]
  exact ⟨by omega, hf, by omega⟩

end Rep

/-- The first half of a cut list, with its last node brought out. -/
theorem cons_eq_dropLast (q : Int) (A : List Int) : q :: A = (q :: A).dropLast ++ [A.getLastD q] := by
  cases A with
  | nil => rfl
  | cons a A =>
    rw [List.getLastD_cons, ← List.getLast_eq_getLastD]
    exact (List.dropLast_append_getLast (by simp)).symm

/-- The second half of a cut list, with its first node brought out. -/
theorem append_eq_headD (t : Int) (B : List Int) : B ++ [t] = B.headD t :: (B ++ [t]).tail := by
  cases B <;> rfl

/-- The nodes of a queue cut in two: the node before the cut and the node behind it. -/
theorem nodes_cut (q t : Int) (A B : List Int) :
    q :: (A ++ B) ++ [t] = (q :: A).dropLast ++ A.getLastD q :: B.headD t :: (B ++ [t]).tail := by
  have h : q :: (A ++ B) ++ [t] = (q :: A) ++ (B ++ [t]) := by simp
  rw [h, append_eq_headD t B]
  conv_lhs => rw [cons_eq_dropLast q A]
  simp

/-- The nodes of a queue around one of its processes. -/
theorem nodes_cut_cons (q t p : Int) (A B : List Int) :
    q :: (A ++ p :: B) ++ [t] = (q :: A).dropLast ++ A.getLastD q :: p :: B.headD t :: (B ++ [t]).tail := by
  have h : q :: (A ++ p :: B) ++ [t] = (q :: A) ++ p :: (B ++ [t]) := by simp
  rw [h, append_eq_headD t B]
  conv_lhs => rw [cons_eq_dropLast q A]
  simp

namespace Rep

variable {qt qt' : QueueTab} {L : QLists} {q pid : Int}

/-- The seam of a cut queue: the neighbours at the cut point to each other. -/
theorem seam (h : Rep qt L) (hq : IsHead q) {A B : List Int} (hAB : L.ids q = A ++ B) :
    (qt (A.getLastD q)).qnext = B.headD (queuetail q) ∧ (qt (B.headD (queuetail q))).qprev = A.getLastD q := by
  have hl := h.linked q hq
  rw [hAB, nodes_cut] at hl
  exact hl.seam

/-- Linking a process that is on no list between two neighbours of a queue. -/
theorem link (h : Rep qt L) (hq : IsHead q) (hp : IsPid pid) (hf : ∀ q', pid ∉ L.ids q') {A B : List Int}
    (hAB : L.ids q = A ++ B) {K : Int → Int}
    (hn : (fun i => (qt' i).qnext) = Function.update (Function.update (fun i => (qt i).qnext) pid
      (B.headD (queuetail q))) (A.getLastD q) pid)
    (hv : (fun i => (qt' i).qprev) = Function.update (Function.update (fun i => (qt i).qprev) pid (A.getLastD q))
      (B.headD (queuetail q)) pid)
    (hk : ∀ p, IsPid p → (qt' p).qkey = K p) (ht : ∀ i, NPROC ≤ i → (qt' i).qkey = (qt i).qkey) :
    Rep qt' { ids := Function.update L.ids q (A ++ pid :: B), key := K } := by
  have hd := h.nodes_nodup hq
  have hpn := pid_not_node hp hq (hf q)
  have hl := h.linked q hq
  have hx : A.getLastD q ∈ q :: L.ids q ++ [queuetail q] := by rw [hAB, nodes_cut]; simp
  have hy : B.headD (queuetail q) ∈ q :: L.ids q ++ [queuetail q] := by rw [hAB, nodes_cut]; simp
  refine ⟨?_, ?_, hk, ?_, ?_, ?_, ?_⟩
  · intro q' hq'
    rw [hn, hv]
    by_cases e : q' = q
    · subst e
      rw [hAB, nodes_cut] at hl hd hpn
      have := Table.Linked.insert hl hd hpn
      simp only [Function.update_self]
      rw [nodes_cut_cons]
      exact this
    · have hdj := h.nodes_disjoint hq hq' e
      have hpid : ∀ i ∈ q' :: L.ids q' ++ [queuetail q'], i ≠ pid := fun i hi =>
        ne_of_mem_of_not_mem hi (pid_not_node hp hq' (hf q'))
      simp only [Function.update_of_ne e]
      refine (h.linked q' hq').frame (fun i hi => ?_) (fun i hi => ?_)
      · rw [Function.update_of_ne (ne_of_mem_of_not_mem hx (hdj i hi)).symm, Function.update_of_ne (hpid i hi)]
      · rw [Function.update_of_ne (ne_of_mem_of_not_mem hy (hdj i hi)).symm, Function.update_of_ne (hpid i hi)]
  · intro q' hq'
    have := hq'.1
    rw [ht _ (by unfold queuetail; omega), h.tailkey q' hq']
  · intro q' p hm
    by_cases e : q' = q
    · subst e
      simp only [Function.update_self, List.mem_append, List.mem_cons] at hm
      rcases hm with hm | rfl | hm
      · exact h.range q' p (by simp [hAB, hm])
      · exact hp
      · exact h.range q' p (by simp [hAB, hm])
    · simp only [Function.update_of_ne e] at hm
      exact h.range q' p hm
  · intro q' hq'
    have e : q' ≠ q := fun e => hq' (e ▸ hq)
    simp only [Function.update_of_ne e]
    exact h.heads q' hq'
  · intro q'
    by_cases e : q' = q
    · subst e
      simp only [Function.update_self]
      have hnd := h.nodup q'
      have hnf := hf q'
      rw [hAB] at hnd hnf
      exact (List.nodup_middle).mpr (List.nodup_cons.mpr ⟨hnf, hnd⟩)
    · simp only [Function.update_of_ne e]
      exact h.nodup q'
  · intro q1 q2 p h1 h2
    have key : ∀ q', p ∈ Function.update L.ids q (A ++ pid :: B) q' → (p = pid ∧ q' = q) ∨ p ∈ L.ids q' := by
      intro q' hm
      by_cases e : q' = q
      · subst e
        simp only [Function.update_self, List.mem_append, List.mem_cons] at hm
        rcases hm with hm | rfl | hm
        · exact Or.inr (by simp [hAB, hm])
        · exact Or.inl ⟨rfl, rfl⟩
        · exact Or.inr (by simp [hAB, hm])
      · rw [Function.update_of_ne e] at hm
        exact Or.inr hm
    rcases key q1 h1 with ⟨rfl, rfl⟩ | h1' <;> rcases key q2 h2 with ⟨h2a, rfl⟩ | h2'
    · rfl
    · exact absurd h2' (hf q2)
    · exact absurd (h2a ▸ h1') (hf q1)
    · exact h.disj q1 q2 p h1' h2'

/-- Unlinking a process from the queue it is on. Its own links may take any value. -/
theorem unlink (h : Rep qt L) {A B : List Int} (hAB : L.ids q = A ++ pid :: B)
    (hn : ∀ i, i ≠ pid → (qt' i).qnext = Function.update (fun i => (qt i).qnext) (A.getLastD q) (B.headD (queuetail q)) i)
    (hv : ∀ i, i ≠ pid → (qt' i).qprev = Function.update (fun i => (qt i).qprev) (B.headD (queuetail q)) (A.getLastD q) i)
    (hk : ∀ i, (qt' i).qkey = (qt i).qkey) : Rep qt' (L.getitem pid) := by
  have hm : pid ∈ L.ids q := by simp [hAB]
  have hq := h.isHead_of_mem hm
  have hd := h.nodes_nodup hq
  have hl := h.linked q hq
  have hother : ∀ q', q' ≠ q → pid ∉ L.ids q' := fun q' e hm' => e (h.disj _ _ _ hm' hm)
  have hpA : pid ∉ A := by
    have := h.nodup q
    rw [hAB] at this
    intro hA
    exact (List.nodup_append.mp this).2.2 pid hA pid (by simp) rfl
  have hids : (L.getitem pid).ids q = A ++ B := by
    show (L.ids q).erase pid = _
    rw [hAB, List.erase_append_right _ hpA, List.erase_cons_head]
  have hids' : ∀ q', q' ≠ q → (L.getitem pid).ids q' = L.ids q' := fun q' e => List.erase_of_not_mem (hother q' e)
  have hcut := nodes_cut_cons q (queuetail q) pid A B
  have hx : A.getLastD q ∈ q :: L.ids q ++ [queuetail q] := by rw [hAB, hcut]; simp
  have hy : B.headD (queuetail q) ∈ q :: L.ids q ++ [queuetail q] := by rw [hAB, hcut]; simp
  have hsub : ∀ q' p, p ∈ (L.getitem pid).ids q' → p ∈ L.ids q' := fun q' p hp => List.mem_of_mem_erase hp
  refine ⟨?_, ?_, ?_, ?_, ?_, ?_, ?_⟩
  · intro q' hq'
    by_cases e : q' = q
    · subst e
      rw [hAB, hcut] at hl hd
      have hpn : pid ∉ (q' :: A).dropLast ++ A.getLastD q' :: B.headD (queuetail q') :: (B ++ [queuetail q']).tail := by
        have := (List.nodup_append.mp hd).2.2
        intro hmem
        simp only [List.mem_append, List.mem_cons] at hmem
        have hnd := (List.nodup_append.mp hd).2.1
        simp only [List.nodup_cons, List.mem_cons, not_or] at hnd
        rcases hmem with hmem | rfl | hmem
        · exact this pid hmem pid (by simp) rfl
        · exact hnd.1.1 rfl
        · exact hmem.elim hnd.2.1.1 hnd.2.1.2
      rw [hids, nodes_cut]
      exact (Table.Linked.remove hl hd).frame (fun i hi => hn i (ne_of_mem_of_not_mem hi hpn))
        (fun i hi => hv i (ne_of_mem_of_not_mem hi hpn))
    · have hdj := h.nodes_disjoint hq hq' e
      have hpid : ∀ i ∈ q' :: L.ids q' ++ [queuetail q'], i ≠ pid := fun i hi =>
        ne_of_mem_of_not_mem hi (pid_not_node (h.range q pid hm) hq' (hother q' e))
      rw [hids' q' e]
      refine (h.linked q' hq').frame (fun i hi => ?_) (fun i hi => ?_)
      · rw [hn i (hpid i hi), Function.update_of_ne (ne_of_mem_of_not_mem hx (hdj i hi)).symm]
      · rw [hv i (hpid i hi), Function.update_of_ne (ne_of_mem_of_not_mem hy (hdj i hi)).symm]
  · intro q' hq'
    rw [hk, h.tailkey q' hq']
  · intro p hp
    rw [hk, h.key p hp]
    rfl
  · exact fun q' p hp => h.range q' p (hsub q' p hp)
  · intro q' hq'
    show (L.ids q').erase pid = []
    rw [h.heads q' hq', List.erase_nil]
  · exact fun q' => (h.nodup q').erase pid
  · exact fun q1 q2 p h1 h2 => h.disj q1 q2 p (hsub q1 p h1) (hsub q2 p h2)

end Rep

/-! ## The fields after an assignment -/

namespace QueueTab

variable (qt : QueueTab) (i v j : Int)

@[simp] theorem setNext_qnext : (setNext qt i v j).qnext = Function.update (fun j => (qt j).qnext) i v j := by
  by_cases h : j = i <;> simp [setNext, h]

@[simp] theorem setNext_qprev : (setNext qt i v j).qprev = (qt j).qprev := by
  by_cases h : j = i <;> simp [setNext, h]

@[simp] theorem setNext_qkey : (setNext qt i v j).qkey = (qt j).qkey := by
  by_cases h : j = i <;> simp [setNext, h]

@[simp] theorem setPrev_qnext : (setPrev qt i v j).qnext = (qt j).qnext := by
  by_cases h : j = i <;> simp [setPrev, h]

@[simp] theorem setPrev_qprev : (setPrev qt i v j).qprev = Function.update (fun j => (qt j).qprev) i v j := by
  by_cases h : j = i <;> simp [setPrev, h]

@[simp] theorem setPrev_qkey : (setPrev qt i v j).qkey = (qt j).qkey := by
  by_cases h : j = i <;> simp [setPrev, h]

@[simp] theorem setKey_qnext : (setKey qt i v j).qnext = (qt j).qnext := by
  by_cases h : j = i <;> simp [setKey, h]

@[simp] theorem setKey_qprev : (setKey qt i v j).qprev = (qt j).qprev := by
  by_cases h : j = i <;> simp [setKey, h]

@[simp] theorem setKey_qkey : (setKey qt i v j).qkey = Function.update (fun j => (qt j).qkey) i v j := by
  by_cases h : j = i <;> simp [setKey, h]

end QueueTab

/-! ## The operations on the table keep the representation -/

namespace Rep

open QueueTab

variable {qt : QueueTab} {L : QLists} {q pid : Int}

theorem firstid_eq (h : Rep qt L) (hq : IsHead q) : QueueTab.firstid qt q = (L.ids q).headD (queuetail q) :=
  (h.seam hq (List.nil_append (L.ids q)).symm).1

/-- A queue is empty in the table when its list is. -/
theorem isempty_eq (h : Rep qt L) (hq : IsHead q) : QueueTab.isempty qt q = (L.ids q).isEmpty := by
  unfold QueueTab.isempty
  rw [h.firstid_eq hq]
  cases hl : L.ids q with
  | nil =>
    have := hq.1
    exact decide_eq_true (by simp only [List.headD_nil, queuetail]; omega)
  | cons p l =>
    have := (h.range q p (by simp [hl])).2
    exact decide_eq_false (by simp only [List.headD_cons]; omega)

/-- The first key in the table is that of the first process. -/
theorem firstkey_eq (h : Rep qt L) (hq : IsHead q) : QueueTab.firstkey qt q = QueueOps.firstkey L q := by
  unfold QueueTab.firstkey
  rw [h.firstid_eq hq]
  show _ = match L.ids q with | [] => MINKEY | p :: _ => L.key p
  cases hl : L.ids q with
  | nil => exact h.tailkey q hq
  | cons p l => exact h.key p (h.range q p (by simp [hl]))

/-- A process goes to the end of the list. -/
theorem enqueue (h : Rep qt L) (hq : IsHead q) (hp : IsPid pid) (hf : ∀ q', pid ∉ L.ids q') :
    Rep (QueueTab.enqueue qt pid q) (L.setIds q (L.ids q ++ [pid])) := by
  obtain ⟨_, hx⟩ := h.seam hq (List.append_nil (L.ids q)).symm
  simp only [List.headD_nil] at hx
  refine h.link hq hp hf (List.append_nil (L.ids q)).symm ?_ ?_ ?_ ?_
  · funext i
    simp [QueueTab.enqueue, hx]
  · funext i
    simp [QueueTab.enqueue, hx]
  · intro p hpid
    simpa [QueueTab.enqueue] using h.key p hpid
  · intro i _
    simp [QueueTab.enqueue]

/-- The neighbours of a process on a queue are what its links say. -/
theorem neighbours (h : Rep qt L) {A B : List Int} (hAB : L.ids q = A ++ pid :: B) :
    (qt pid).qprev = A.getLastD q ∧ (qt pid).qnext = B.headD (queuetail q) := by
  have hq : IsHead q := h.isHead_of_mem (p := pid) (by simp [hAB])
  have h1 := (h.seam hq hAB).2
  have h2 := (h.seam hq (A := A ++ [pid]) (B := B) (by simp [hAB])).1
  simp only [List.headD_cons] at h1
  rw [List.getLastD_concat] at h2
  exact ⟨h1, h2⟩

theorem getitem (h : Rep qt L) (hm : pid ∈ L.ids q) : Rep (QueueTab.getitem qt pid) (L.getitem pid) := by
  obtain ⟨A, B, hAB⟩ := List.append_of_mem hm
  obtain ⟨h1, h2⟩ := h.neighbours hAB
  refine h.unlink hAB (fun i _ => ?_) (fun i _ => ?_) (fun i => ?_)
  · simp [QueueTab.getitem, h1, h2]
  · simp [QueueTab.getitem, h1, h2]
  · simp [QueueTab.getitem]

theorem getfirst (h : Rep qt L) (hq : IsHead q) :
    (QueueTab.getfirst qt q).1 = (L.getfirst q).1 ∧ Rep (QueueTab.getfirst qt q).2 (L.getfirst q).2 := by
  unfold QueueTab.getfirst QLists.getfirst
  rw [h.isempty_eq hq, h.firstid_eq hq]
  cases hl : L.ids q with
  | nil => exact ⟨rfl, h⟩
  | cons p l => exact ⟨rfl, h.getitem (q := q) (by simp [hl])⟩

/-- `dequeue` does the same. -/
theorem dequeue (h : Rep qt L) (hq : IsHead q) :
    (QueueTab.dequeue qt q).1 = (L.getfirst q).1 ∧ Rep (QueueTab.dequeue qt q).2 (L.getfirst q).2 := by
  unfold QueueTab.dequeue QueueTab.getfirst QLists.getfirst
  rw [hq.not_bad, h.isempty_eq hq, h.firstid_eq hq]
  cases hl : L.ids q with
  | nil => exact ⟨rfl, h⟩
  | cons p l =>
    refine ⟨rfl, ?_⟩
    have hAB : L.ids q = [] ++ p :: l := by simp [hl]
    obtain ⟨h1, h2⟩ := h.neighbours hAB
    refine h.unlink hAB (fun i hi => ?_) (fun i hi => ?_) (fun i => ?_)
    · simp [QueueTab.getitem, h1, h2, Function.update_of_ne hi, List.getLastD]
    · simp [QueueTab.getitem, h1, h2, Function.update_of_ne hi, List.getLastD]
    · simp [QueueTab.getitem]

/-! ### Insertion by key -/

/-- The loop of `insert`, started at a suffix of the queue, stops at the first process with a smaller key. The tail stops
it: its key is `MINKEY`. -/
theorem insertPos_eq (h : Rep qt L) (hq : IsHead q) {k : Int} (hk : MINKEY < k) {A B : List Int} {n : Nat}
    (hAB : L.ids q = A ++ B) (hn : B.length < n) :
    QueueTab.insertPos qt k n (B.headD (queuetail q)) =
      (B.dropWhile (fun x => decide (k ≤ L.key x))).headD (queuetail q) := by
  induction B generalizing A n with
  | nil =>
    obtain ⟨n, rfl⟩ : ∃ m, n = m + 1 := ⟨n - 1, by simp at hn; omega⟩
    have ht := h.tailkey q hq
    simp only [List.headD_nil, List.dropWhile_nil, insertPos, ht]
    rw [if_neg (by omega)]
  | cons x B ih =>
    obtain ⟨n, rfl⟩ : ∃ m, n = m + 1 := ⟨n - 1, by simp at hn; omega⟩
    have hx := h.key x (h.range q x (by simp [hAB]))
    have hnx := (h.neighbours hAB).2
    simp only [List.headD_cons, insertPos, hx, hnx, List.dropWhile_cons]
    by_cases hc : k ≤ L.key x
    · rw [if_pos hc, ih (A := A ++ [x]) (by simp [hAB]) (by simpa using hn)]
      simp [hc]
    · rw [if_neg hc]
      simp [hc]

/-- A queue holds at most every process. -/
theorem length_le (h : Rep qt L) : (L.ids q).length ≤ NPROC.toNat := pids_length_le (h.nodup q) (h.range q)

/-- A queue is shorter than the queue table. -/
theorem length_lt (h : Rep qt L) : (L.ids q).length < NQENT.toNat := by
  have h0 := h.length_le (q := q)
  have h1 := NPROC_pos
  have h2 := NSEM_pos
  unfold NQENT
  omega

theorem insert (h : Rep qt L) (hq : IsHead q) (hp : IsPid pid) (hf : ∀ q', pid ∉ L.ids q') {k : Int} (hk : MINKEY < k) :
    Rep (QueueTab.insert qt pid q k) (L.insert pid q k) := by
  have hAB : L.ids q = (L.ids q).takeWhile (fun x => decide (k ≤ L.key x)) ++
      (L.ids q).dropWhile (fun x => decide (k ≤ L.key x)) := (List.takeWhile_append_dropWhile).symm
  have hpos := h.insertPos_eq hq hk (n := NQENT.toNat) (List.nil_append (L.ids q)).symm h.length_lt
  rw [← h.firstid_eq hq] at hpos
  have hseam := (h.seam hq hAB).2
  have hpid := hp.2
  refine h.link hq hp hf hAB ?_ ?_ ?_ ?_
  · funext i
    simp only [QueueTab.insert, hpos, hseam, setNext_qnext, setPrev_qnext, setKey_qnext]
  · funext i
    simp only [QueueTab.insert, hpos, hseam, setNext_qprev, setPrev_qprev, setKey_qprev]
  · intro p hp'
    by_cases e : p = pid
    · subst e
      simp [QueueTab.insert]
    · simpa [QueueTab.insert, Function.update_of_ne e] using h.key p hp'
  · intro i hi
    have e : i ≠ pid := by omega
    simp [QueueTab.insert, Function.update_of_ne e]

/-! ### Delta lists -/

/-- Changing the key of a process. -/
theorem setKey (h : Rep qt L) (hp : IsPid pid) (k : Int) : Rep (QueueTab.setKey qt pid k) (L.setKey pid k) := by
  have hpid := hp.2
  refine ⟨?_, ?_, ?_, h.range, h.heads, h.nodup, h.disj⟩
  · intro q hq
    simp only [setKey_qnext, setKey_qprev]
    exact h.linked q hq
  · intro q hq
    have := hq.1
    have e : queuetail q ≠ pid := by unfold queuetail; omega
    simpa [Function.update_of_ne e] using h.tailkey q hq
  · intro p hp'
    by_cases e : p = pid
    · subst e
      simp
    · simpa [Function.update_of_ne e] using h.key p hp'

end Rep

namespace QLists

/-- Cutting a delta list keeps all of it. -/
theorem deltaCut_append (key : Int → Int) (k : Int) (l : List Int) :
    (deltaCut key k l).1 ++ (deltaCut key k l).2.1 = l := by
  induction l generalizing k with
  | nil => rfl
  | cons x l ih =>
    unfold deltaCut
    split
    · simp [ih]
    · rfl

end QLists

namespace Rep

open QueueTab QLists

variable {qt : QueueTab} {L : QLists} {q pid : Int}

/-- The loop of `insertd`, started at a suffix of the queue, stops where `deltaCut` cuts it. -/
theorem insertdPos_eq (h : Rep qt L) (hq : IsHead q) {k : Int} {A B : List Int} {n : Nat} (hAB : L.ids q = A ++ B)
    (hn : B.length < n) :
    QueueTab.insertdPos qt q n (A.getLastD q) (B.headD (queuetail q)) k =
      ((A ++ (deltaCut L.key k B).1).getLastD q, (deltaCut L.key k B).2.1.headD (queuetail q),
        (deltaCut L.key k B).2.2) := by
  induction B generalizing A n k with
  | nil =>
    obtain ⟨n, rfl⟩ : ∃ m, n = m + 1 := ⟨n - 1, by simp at hn; omega⟩
    simp [insertdPos, deltaCut]
  | cons x B ih =>
    obtain ⟨n, rfl⟩ : ∃ m, n = m + 1 := ⟨n - 1, by simp at hn; omega⟩
    have hr := h.range q x (by simp [hAB])
    have hne : x ≠ queuetail q := by
      have h1 := hr.2
      have h2 := hq.1
      unfold queuetail
      omega
    have hnx := (h.neighbours hAB).2
    simp only [List.headD_cons, insertdPos, h.key x hr, hnx, deltaCut]
    by_cases hc : L.key x ≤ k
    · rw [if_pos ⟨hne, hc⟩, if_pos hc]
      have := ih (A := A ++ [x]) (n := n) (k := int32 (k - L.key x)) (by simp [hAB]) (by simpa using hn)
      rw [List.getLastD_concat] at this
      rw [this]
      simp
    · rw [if_neg (fun hh => hc hh.2), if_neg hc]
      simp

theorem insertd (h : Rep qt L) (hq : IsHead q) (hp : IsPid pid) (hf : ∀ q', pid ∉ L.ids q') {k : Int} :
    Rep (QueueTab.insertd qt pid q k) (L.insertd pid q k) := by
  have hpos := h.insertdPos_eq hq (n := NQENT.toNat) (k := k) (List.nil_append (L.ids q)).symm h.length_lt
  have hfst : (qt q).qnext = (L.ids q).headD (queuetail q) := h.firstid_eq hq
  rw [← hfst] at hpos
  have hAB := (deltaCut_append L.key k (L.ids q)).symm
  unfold QueueTab.insertd QLists.insertd
  rw [show List.getLastD [] q = q from rfl] at hpos
  rw [hpos]
  obtain ⟨a, b, k', hcut⟩ : ∃ a b k', deltaCut L.key k (L.ids q) = (a, b, k') := ⟨_, _, _, rfl⟩
  rw [hcut] at hAB ⊢
  simp only [List.nil_append]
  have hlink : Rep (setPrev (setNext (QueueTab.setKey (setPrev (setNext qt pid (b.headD (queuetail q))) pid
      (a.getLastD q)) pid k') (a.getLastD q) pid) (b.headD (queuetail q)) pid)
      ((L.setIds q (a ++ pid :: b)).setKey pid k') := by
    have hpid := hp.2
    refine h.link hq hp hf hAB ?_ ?_ ?_ ?_
    · funext i
      simp only [setNext_qnext, setPrev_qnext, setKey_qnext]
    · funext i
      simp only [setNext_qprev, setPrev_qprev, setKey_qprev]
    · intro p hp'
      by_cases e : p = pid
      · subst e
        simp
      · simpa [Function.update_of_ne e] using h.key p hp'
    · intro i hi
      have e : i ≠ pid := by omega
      simp [Function.update_of_ne e]
  cases hb : b with
  | nil =>
    subst hb
    simpa using hlink
  | cons x b' =>
    subst hb
    have hx : x ∈ L.ids q := by simp [hAB]
    have hr := h.range q x hx
    have hne : x ≠ queuetail q := by
      have h1 := hr.2
      have h2 := hq.1
      unfold queuetail
      omega
    have hxp : x ≠ pid := ne_of_mem_of_not_mem hx (hf q)
    have hkx := h.key x hr
    have := hlink.setKey hr (int32 (L.key x - k'))
    simpa [hne, Function.update_of_ne hxp, hkx] using this

/-- The process behind another is the one its link names. -/
theorem after_eq {A B : List Int} (hA : pid ∉ A) : after pid (A ++ pid :: B) = B.head? := by
  induction A with
  | nil => simp [after]
  | cons x A ih =>
    simp only [List.mem_cons, not_or] at hA
    have e : x ≠ pid := fun e => hA.1 e.symm
    simp [after, e, ih hA.2]

theorem passKey (h : Rep qt L) (hm : pid ∈ L.ids q) : Rep (QueueTab.passKey qt pid) (L.passKey q pid) := by
  obtain ⟨A, B, hAB⟩ := List.append_of_mem hm
  have hA : pid ∉ A := by
    have := h.nodup q
    rw [hAB] at this
    intro hA
    exact (List.nodup_append.mp this).2.2 pid hA pid (by simp) rfl
  have hnx := (h.neighbours hAB).2
  unfold QueueTab.passKey QLists.passKey
  rw [hnx, hAB, after_eq hA]
  cases B with
  | nil =>
    have h2 := (h.isHead_of_mem hm).1
    rw [if_neg (by simp only [List.headD_nil, queuetail]; omega)]
    exact h
  | cons x B =>
    have hr := h.range q x (by simp [hAB])
    have hlt : (x :: B).headD (queuetail q) < NPROC := hr.2
    rw [if_pos hlt]
    simp only [List.headD_cons, List.head?_cons, h.key x hr, h.key pid (h.range q pid hm)]
    exact h.setKey hr _

theorem decFirst (h : Rep qt L) (hq : IsHead q) (hne : L.ids q ≠ []) :
    Rep (QueueTab.decFirst qt q) (L.decFirst q) := by
  unfold QueueTab.decFirst QLists.decFirst
  rw [h.firstid_eq hq]
  cases hl : L.ids q with
  | nil => exact absurd hl hne
  | cons p l =>
    have hr := h.range q p (by simp [hl])
    simp only [List.headD_cons, h.key p hr]
    exact h.setKey hr _

/-! ### Reading a queue -/

theorem toList_eq (h : Rep qt L) (hq : IsHead q) : QueueTab.toList qt q = L.ids q := by
  refine (h.linked q hq).walk_eq (fun p hp => ?_) ?_ h.length_le
  · have := (h.range q p hp).2
    exact decide_eq_false (by omega)
  · have := hq.1
    exact decide_eq_true (by unfold queuetail; omega)

end Rep

end Xinu
