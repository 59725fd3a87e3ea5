import Xinu.Kernel.DeltaLists
import Xinu.Theorems.ProcessLists

/-!
# The algebra of delta lists

The sum of the keys up to a process is the time it is due. `insertd` gives the new process the sum it asks for, behind every
process that is due by then, and `unsleep` takes a process out; both leave the sums of the others. The arithmetic of `insertd`
never overflows. The addition of `unsleep` does not if the sums fit in 32 bits, and where it does, the sums are kept as 32-bit
numbers.
-/

namespace Xinu

open Kernel

namespace QueueTab

variable (qt : QueueTab)

/-- The processes on a list with the sums of the keys up to them. -/
def sums (q : Int) : List (Int × Int) := Delta.times (fun p => (qt p).qkey) 0 (qt.toList q)

/-- The result of an operation on `int32` that does not overflow. -/
def fits (x : Int) : Option Int := if MINKEY ≤ x ∧ x ≤ MAXKEY then some x else none

/-- The loop of `insertd`, stopped by an overflow. -/
def insertdPosFits (q : Int) : Nat → Int → Int → Int → Option (Int × Int × Int)
  | 0, prev, next, key => some (prev, next, key)
  | n + 1, prev, next, key =>
    if next ≠ queuetail q ∧ (qt next).qkey ≤ key then
      (fits (key - (qt next).qkey)).bind (fun key => insertdPosFits q n next (qt next).qnext key)
    else some (prev, next, key)

/-- `insertd`, stopped by an overflow. -/
def insertdFits (pid q key : Int) : Option QueueTab :=
  (insertdPosFits qt q NQENT.toNat q (qt q).qnext key).bind fun (prev, next, key) =>
    let qt := setNext qt pid next
    let qt := setPrev qt pid prev
    let qt := setKey qt pid key
    let qt := setNext qt prev pid
    let qt := setPrev qt next pid
    if next ≠ queuetail q then (fits ((qt next).qkey - key)).map (setKey qt next) else some qt

/-- The addition of `unsleep`, stopped by an overflow. -/
def passKeyFits (pid : Int) : Option QueueTab :=
  let pidnext := (qt pid).qnext
  if pidnext < NPROC then (fits ((qt pidnext).qkey + (qt pid).qkey)).map (setKey qt pidnext) else some qt

end QueueTab

/-- The queues are lists, and the keys on the list `q` are not negative. -/
structure DeltaList (qt : QueueTab) (q : Int) : Prop where
  lists : ∃ L, Rep qt L
  head : IsHead q
  keys : ∀ p ∈ qt.toList q, 0 ≤ (qt p).qkey ∧ (qt p).qkey ≤ MAXKEY

/-- What `insertd` does to a delta list. -/
structure InsertsAt (qt : QueueTab) (pid q d : Int) : Prop where
  list : DeltaList (qt.insertd pid q d) q
  sums : ∃ before behind, qt.sums q = before ++ behind ∧ (qt.insertd pid q d).sums q = before ++ (pid, d) :: behind ∧
    (∀ x ∈ before, x.2 ≤ d) ∧ ∀ x ∈ behind, d < x.2
  tail : (qt.insertd pid q d (queuetail q)).qkey = (qt (queuetail q)).qkey
  fits : qt.insertdFits pid q d = some (qt.insertd pid q d)

/-- What `unsleep` does to a delta list: the other sums are kept as 32-bit numbers, and if all sums fit in 32 bits they are
kept, the keys are not negative and nothing overflows. -/
structure Removes (k : Kernel QueueTab) (pid q : Int) : Prop where
  lists : ∃ L, Rep (k.unsleep pid).queuetab L
  sums : ∃ before s behind, k.queuetab.sums q = before ++ (pid, s) :: behind ∧
    ((k.unsleep pid).queuetab.sums q).map (fun x => (x.1, int32 x.2)) = (before ++ behind).map (fun x => (x.1, int32 x.2)) ∧
    ((∀ x ∈ k.queuetab.sums q, x.2 ≤ MAXKEY) → (k.unsleep pid).queuetab.sums q = before ++ behind ∧
      DeltaList (k.unsleep pid).queuetab q ∧ k.queuetab.passKeyFits pid = some (k.queuetab.passKey pid))

namespace Rep

open QueueTab

variable {qt : QueueTab} {L : QLists} {q pid d : Int}

/-- The sums on a list, read from the lists that the table represents. -/
theorem sums_eq (R : Rep qt L) (hq : IsHead q) : qt.sums q = Delta.times L.key 0 (L.ids q) := by
  rw [sums, R.toList_eq hq]
  exact Delta.times_congr fun p hp => R.key p (R.range q p hp)

theorem deltaList_iff (R : Rep qt L) (hq : IsHead q) : DeltaList qt q ↔ ∀ p ∈ L.ids q, 0 ≤ L.key p ∧ L.key p ≤ MAXKEY := by
  have hkey : ∀ p ∈ L.ids q, (qt p).qkey = L.key p := fun p hp => R.key p (R.range q p hp)
  refine ⟨fun D p hp => ?_, fun h => ⟨⟨L, R⟩, hq, fun p hp => ?_⟩⟩
  · have := D.keys p (by rw [R.toList_eq hq]; exact hp)
    rw [hkey p hp] at this
    exact this
  · rw [R.toList_eq hq] at hp
    rw [hkey p hp]
    exact h p hp

end Rep

namespace QueueTab

theorem fits_eq {x : Int} (h1 : MINKEY ≤ x) (h2 : x ≤ MAXKEY) : fits x = some (int32 x) := by
  rw [fits, if_pos ⟨h1, h2⟩, int32_of_range h1 h2]

end QueueTab

section

open QueueTab

variable {qt : QueueTab} {L : QLists} {q pid d : Int}

/-- The loop of `insertd`, started at a suffix of the list, does not overflow. -/
theorem insertdPosFits_eq (R : Rep qt L) {A B : List Int} (hAB : L.ids q = A ++ B)
    (hk : ∀ p ∈ B, 0 ≤ L.key p ∧ L.key p ≤ MAXKEY) {n : Nat} {prev key : Int} (h0 : 0 ≤ key) (h1 : key ≤ MAXKEY) :
    insertdPosFits qt q n prev (B.headD (queuetail q)) key =
      some (insertdPos qt q n prev (B.headD (queuetail q)) key) := by
  have hm : MINKEY = -2147483648 := rfl
  have hM : MAXKEY = 2147483647 := rfl
  induction B generalizing A n prev key with
  | nil =>
    cases n with
    | zero => rfl
    | succ n => simp [insertdPosFits, insertdPos]
  | cons x B ih =>
    cases n with
    | zero => rfl
    | succ n =>
      have hx := hk x List.mem_cons_self
      have hkx := R.key x (R.range q x (by simp [hAB]))
      have hnx := (R.neighbours hAB).2
      simp only [List.headD_cons, insertdPosFits, insertdPos, hkx, hnx]
      by_cases hc : x ≠ queuetail q ∧ L.key x ≤ key
      · have hc2 := hc.2
        have h32 : int32 (key - L.key x) = key - L.key x := int32_of_range (by omega) (by omega)
        rw [if_pos hc, if_pos hc, fits_eq (by omega) (by omega)]
        exact ih (A := A ++ [x]) (by simp [hAB]) (fun p hp => hk p (List.mem_cons_of_mem _ hp)) (by omega) (by omega)
      · rw [if_neg hc, if_neg hc]

/-- Nothing in `insertd` overflows. -/
theorem insertdFits_eq (R : Rep qt L) (hq : IsHead q) (hf : pid ∉ L.ids q)
    (hk : ∀ p ∈ L.ids q, 0 ≤ L.key p ∧ L.key p ≤ MAXKEY) (h0 : 0 ≤ d) (h1 : d ≤ MAXKEY) :
    qt.insertdFits pid q d = some (qt.insertd pid q d) := by
  have hm : MINKEY = -2147483648 := rfl
  have hloop : insertdPosFits qt q NQENT.toNat q ((L.ids q).headD (queuetail q)) d =
      some (insertdPos qt q NQENT.toNat q ((L.ids q).headD (queuetail q)) d) :=
    insertdPosFits_eq R (List.nil_append (L.ids q)).symm hk h0 h1
  have hpos := R.insertdPos_eq hq (n := NQENT.toNat) (k := d) (List.nil_append (L.ids q)).symm R.length_lt
  obtain ⟨hsum, hk0, hlt⟩ := QLists.deltaCut_spec (fun x hx => (hk x hx).1) h0 h1
  have happ := QLists.deltaCut_append L.key d (L.ids q)
  rw [show List.getLastD [] q = q from rfl] at hpos
  unfold insertdFits QueueTab.insertd
  rw [show (qt q).qnext = (L.ids q).headD (queuetail q) from R.firstid_eq hq, hloop, hpos, Option.bind_some]
  rcases hcut : QLists.deltaCut L.key d (L.ids q) with ⟨A, B, k'⟩
  rw [hcut] at hk0 hlt happ
  simp only [List.nil_append] at hk0 hlt happ ⊢
  by_cases ht : B.headD (queuetail q) = queuetail q
  · rw [if_neg (not_not.mpr ht), if_neg (not_not.mpr ht)]
  · rw [if_pos ht, if_pos ht]
    cases B with
    | nil => exact absurd rfl ht
    | cons x B =>
      have hx : x ∈ L.ids q := by rw [← happ]; simp
      have hxp : x ≠ pid := ne_of_mem_of_not_mem hx hf
      have hkx := R.key x (R.range q x hx)
      have hlx := hlt x B rfl
      have hMx := (hk x hx).2
      simp only [List.headD_cons, setPrev_qkey, setNext_qkey, setKey_qkey, Function.update_of_ne hxp, hkx]
      rw [fits_eq (by omega) (by omega)]
      rfl

/-- The addition of `unsleep` does not overflow if the sum behind the process fits. -/
theorem passKeyFits_eq (R : Rep qt L) {A B : List Int} (hAB : L.ids q = A ++ pid :: B)
    (hB : ∀ x xs, B = x :: xs → MINKEY ≤ L.key x + L.key pid ∧ L.key x + L.key pid ≤ MAXKEY) :
    qt.passKeyFits pid = some (qt.passKey pid) := by
  have hnx := (R.neighbours hAB).2
  have hkp := R.key pid (R.range q pid (by simp [hAB]))
  unfold passKeyFits passKey
  simp only [hnx]
  by_cases ht : B.headD (queuetail q) < NPROC
  · rw [if_pos ht, if_pos ht]
    cases B with
    | nil =>
      have := (R.isHead_of_mem (p := pid) (q := q) (by simp [hAB])).1
      simp only [List.headD_nil, queuetail] at ht
      omega
    | cons x B =>
      have hkx := R.key x (R.range q x (by simp [hAB]))
      obtain ⟨b1, b2⟩ := hB x B rfl
      simp only [List.headD_cons, hkx, hkp]
      rw [fits_eq b1 b2]
      rfl
  · rw [if_neg ht, if_neg ht]

/-- `insertd` on a delta list. -/
theorem insertsAt_of_rep (R : Rep qt L) (hq : IsHead q) (hp : IsPid pid) (hf : ∀ q', pid ∉ L.ids q')
    (hk : ∀ p ∈ L.ids q, 0 ≤ L.key p ∧ L.key p ≤ MAXKEY) (h0 : 0 ≤ d) (h1 : d ≤ MAXKEY) : InsertsAt qt pid q d := by
  have R' : Rep (qt.insertd pid q d) (L.insertd pid q d) := R.insertd hq hp hf
  obtain ⟨A, B, hi⟩ := QLists.insertd_spec hk (R.nodup q) (hf q) h0 h1
  have hold : ∀ x ∈ A ++ B, 0 ≤ L.key x := fun x hx => (hk x (hi.old ▸ hx)).1
  have hsum := hi.sum
  have hn := hi.nonneg
  refine ⟨(R'.deltaList_iff hq).mpr (hi.keys hk h1), ⟨Delta.times L.key 0 A, Delta.times L.key (A.map L.key).sum B, ?_, ?_,
    fun x hx => ?_, fun x hx => ?_⟩, ?_, insertdFits_eq R hq (hf q) hk h0 h1⟩
  · rw [R.sums_eq hq, hi.old_times]
  · rw [R'.sums_eq hq, hi.times]
  · have := Delta.times_le (fun y hy => hold y (List.mem_append_left _ hy)) x hx
    omega
  · cases B with
    | nil => cases hx
    | cons y B =>
      have hlt := hi.lt y B rfl
      have hge : ∀ z ∈ B, 0 ≤ L.key z := fun z hz => hold z (by simp [hz])
      rcases List.mem_cons.mp hx with rfl | hx
      · simp only
        omega
      · have := Delta.times_ge hge x hx
        omega
  · rw [R'.tailkey q hq, R.tailkey q hq]

/-- A sum that is congruent stays so when a key is added. -/
theorem int32_add_congr (a b c : Int) (h : int32 a = int32 b) : int32 (a + c) = int32 (b + c) := by
  unfold int32 at h ⊢
  omega

/-- The queues after `unsleep`. -/
theorem unsleep_queuetab {k : Kernel QueueTab} (hb : k.isbadpid pid = false)
    (hs : (k.proctab pid).prstate = .PR_SLEEP ∨ (k.proctab pid).prstate = .PR_RECTIM) :
    (k.unsleep pid).queuetab = (k.queuetab.passKey pid).getitem pid := by
  have hst : ¬((k.proctab pid).prstate ≠ .PR_SLEEP ∧ (k.proctab pid).prstate ≠ .PR_RECTIM) := fun h => hs.elim h.1 h.2
  rw [unsleep, if_neg (by rw [hb]; decide), if_neg hst]
  rfl

/-- `unsleep` on a delta list. -/
theorem removes_of_rep {k : Kernel QueueTab} (R : Rep k.queuetab L) (hmem : pid ∈ L.ids q)
    (hk : ∀ p ∈ L.ids q, 0 ≤ L.key p ∧ L.key p ≤ MAXKEY)
    (hst : (k.proctab pid).prstate = .PR_SLEEP ∨ (k.proctab pid).prstate = .PR_RECTIM) : Removes k pid q := by
  have hq := R.isHead_of_mem hmem
  have hb : k.isbadpid pid = false :=
    isbadpid_eq_false.mpr ⟨R.range q pid hmem, fun e => by rw [e] at hst; rcases hst with hst | hst <;> cases hst⟩
  have hqt := unsleep_queuetab hb hst
  obtain ⟨A, B, hl⟩ := List.append_of_mem hmem
  have hpass := QLists.passKey_ids L q pid
  have R' : Rep (k.unsleep pid).queuetab ((L.passKey q pid).getitem pid) := by
    rw [hqt]
    exact (R.passKey hmem).getitem (by rw [hpass]; exact hmem)
  have hids : ((L.passKey q pid).getitem pid).ids q = A ++ B :=
    QLists.getitem_ids (by rw [hpass]; exact R.nodup q) (by rw [hpass]; exact hl)
  obtain ⟨hA, hB⟩ := QLists.passKey_spec (R.nodup q) hl
  have hold : k.queuetab.sums q = Delta.times L.key 0 A ++ (pid, 0 + (A.map L.key).sum + L.key pid) ::
      Delta.times L.key (0 + (A.map L.key).sum + L.key pid) B := by
    rw [R.sums_eq hq, hl, Delta.times_around]
  have hnew : (k.unsleep pid).queuetab.sums q = Delta.times (L.passKey q pid).key 0 (A ++ B) := by
    rw [R'.sums_eq hq, hids]
    rfl
  have hsumA : (A.map (L.passKey q pid).key) = A.map L.key := List.map_congr_left hA
  refine ⟨⟨_, R'⟩, Delta.times L.key 0 A, _, Delta.times L.key (0 + (A.map L.key).sum + L.key pid) B, hold, ?_, fun hs => ?_⟩
  · -- the key of the process behind is the sum of the two keys, as a 32-bit number
    rw [hnew, Delta.times_append, Delta.times_congr hA, hsumA, List.map_append, List.map_append]
    congr 1
    cases B with
    | nil => rfl
    | cons x B =>
      obtain ⟨h1, h2⟩ := hB x B rfl
      have hx : int32 (0 + (A.map L.key).sum + (L.passKey q pid).key x) =
          int32 (0 + (A.map L.key).sum + L.key pid + L.key x) := by
        rw [h1]
        unfold int32
        omega
      rw [Delta.times, Delta.times, List.map_cons, List.map_cons, hx, Delta.times_congr h2,
        Delta.map_times_congr int32_add_congr hx]
  · -- the sums fit, so the sum of the two keys does
    have hbound : ∀ x xs, B = x :: xs → MINKEY ≤ L.key x + L.key pid ∧ L.key x + L.key pid ≤ MAXKEY := by
      rintro x xs rfl
      have hm : MINKEY = -2147483648 := rfl
      have hsum : 0 ≤ (A.map L.key).sum := Delta.sum_nonneg fun y hy => (hk y (by rw [hl]; simp [hy])).1
      have hx := (hk x (by rw [hl]; simp)).1
      have hp := (hk pid hmem).1
      have hfit := hs (x, 0 + (A.map L.key).sum + L.key pid + L.key x) (by rw [hold, Delta.times]; simp)
      simp only at hfit
      constructor <;> omega
    refine ⟨?_, (R'.deltaList_iff hq).mpr ?_, passKeyFits_eq R hl hbound⟩
    · rw [hnew, Delta.times_without hA (QLists.passKey_shifted (R.nodup q) hl hbound)]
    · rw [hids]
      exact QLists.passKey_keys (R.nodup q) hl hk hbound

end

/-- `insertd` gives a process the sum it asks for, behind every process whose sum is at most that, and `unsleep` takes a process
out. Both leave the sums of the others, and the keys that are not negative. -/
theorem delta_list_algebra (k : Kernel QueueTab) (q : Int) (D : DeltaList k.queuetab q) :
    (∀ pid d, IsPid pid → (∀ q', IsHead q' → pid ∉ k.queuetab.toList q') → 0 ≤ d → d ≤ MAXKEY →
      InsertsAt k.queuetab pid q d) ∧
    (∀ pid, pid ∈ k.queuetab.toList q → (k.proctab pid).prstate = .PR_SLEEP ∨ (k.proctab pid).prstate = .PR_RECTIM →
      Removes k pid q) := by
  obtain ⟨L, R⟩ := D.lists
  have hq := D.head
  have hk := (R.deltaList_iff hq).mp D
  refine ⟨fun pid d hp hout h0 h1 => ?_, fun pid hm hs => ?_⟩
  · refine insertsAt_of_rep R hq hp (fun q' hm => ?_) hk h0 h1
    have hq' := R.isHead_of_mem hm
    exact hout q' hq' (by rw [R.toList_eq hq']; exact hm)
  · rw [R.toList_eq hq] at hm
    exact removes_of_rep R hm hk hs

/-- A process sleeps for five ticks and another one for nine, after one of them. -/
def asleepTwo : List (Event Client.none) :=
  [.call (.create 400 20), .cont, .call (.resume 1), .call (.sleepms 5), .cont, .call (.create 400 20), .cont, .call (.resume 2),
    .call (.sleepms 9), .cont, .tick]

/-- The delta list with processes that are due in four and in eight ticks: one is put in front of them, or the first is taken out. -/
theorem delta_list_algebra_four : ∃ k : Kernel QueueTab, k.queuetab.sums sleepq = [(1, 4), (2, 8)] ∧
    InsertsAt k.queuetab 3 sleepq 2 ∧ Removes k 1 sleepq := by
  obtain ⟨m, r, hf⟩ := Machine.reach_of_evaluates Forcing.plain Machine.Lawful (boot Client.none () 4096 1048576) asleepTwo
    (fun m => decide (m.k.queuetab.sums sleepq = [(1, 4), (2, 8)]) && decide (m.k.queuetab.toList sleepq = [1, 2]) &&
      decide ((m.k.queuetab 1).qkey = 4) && decide ((m.k.queuetab 2).qkey = 4) && decide ((m.k.proctab 1).prstate = .PR_SLEEP) &&
      decide ((m.k.proctab 3).prstate = .PR_FREE))
    (by decide +kernel)
  simp only [Bool.and_eq_true, decide_eq_true_eq] at hf
  obtain ⟨⟨⟨⟨⟨hsums, hlist⟩, hkey₁⟩, hkey₂⟩, hs₁⟩, hs₃⟩ := hf
  obtain ⟨h, St⟩ := reach_steady (fun _ _ hok => hok) (boot_steady (C := Client.none) () 4096 1048576) r
  obtain ⟨L, R, _⟩ := St.sim
  have D : DeltaList m.k.queuetab sleepq := by
    refine ⟨⟨L, R⟩, isHead_sleepq, fun p hp => ?_⟩
    rw [hlist, List.mem_pair] at hp
    rcases hp with rfl | rfl
    · rw [hkey₁]
      decide
    · rw [hkey₂]
      decide
  obtain ⟨hins, hrem⟩ := delta_list_algebra m.k sleepq D
  refine ⟨m.k, hsums, hins 3 2 (by decide) (fun q hq => ?_) (by decide) (by decide), hrem 1 (by rw [hlist]; simp) (Or.inl hs₁)⟩
  exact St.placed.elsewhere 3 (by decide) (by rw [hs₃]; simp) q hq

end Xinu
