import Xinu.Kernel.Lists
import Xinu.Lib.Delta

/-!
# Delta lists in the queues

What `insertd` and the removal of a process leave of a list whose keys are delays relative to the process before. No result of
`insertd` overflows, whatever the delays on the list add up to: the loop only takes keys off the new delay. The sum that a
removal makes can overflow.
-/

namespace Xinu

namespace QLists

variable {L : QLists} {q p d : Int} {A B : List Int}

/-- What `insertd` finds. -/
theorem deltaCut_spec {key : Int → Int} {l : List Int} (hk : ∀ p ∈ l, 0 ≤ key p) {k : Int} (h0 : 0 ≤ k) (h1 : k ≤ MAXKEY) :
    ((deltaCut key k l).1.map key).sum + (deltaCut key k l).2.2 = k ∧ 0 ≤ (deltaCut key k l).2.2 ∧
      ∀ x xs, (deltaCut key k l).2.1 = x :: xs → (deltaCut key k l).2.2 < key x := by
  have hM : MAXKEY = 2147483647 := rfl
  induction l generalizing k with
  | nil => exact ⟨by simp [deltaCut], h0, fun x xs e => by cases e⟩
  | cons y l ih =>
    have hy := hk y List.mem_cons_self
    unfold deltaCut
    by_cases hc : key y ≤ k
    · have h32 : int32 (k - key y) = k - key y := int32_of_range (by omega) (by omega)
      obtain ⟨i1, i2, i3⟩ := ih (k := k - key y) (fun p hp => hk p (List.mem_cons_of_mem _ hp)) (by omega) (by omega)
      rw [if_pos hc, h32]
      rcases hd : deltaCut key (k - key y) l with ⟨a, b, k'⟩
      rw [hd] at i1 i2 i3
      refine ⟨?_, i2, i3⟩
      simp only [List.map_cons, List.sum_cons] at i1 ⊢
      omega
    · simp only [if_neg hc]
      refine ⟨by simp, h0, fun x xs e => ?_⟩
      obtain ⟨rfl, _⟩ := List.cons.inj e
      omega

/-- `L'` is `L` with the process `p` put between `A` and `B` on the list `q`, with the delay `d`. -/
structure Inserted (L L' : QLists) (q p d : Int) (A B : List Int) : Prop where
  old : L.ids q = A ++ B
  new : L'.ids q = A ++ p :: B
  kept : ∀ x ∈ A, L'.key x = L.key x
  sum : (A.map L.key).sum + L'.key p = d
  nonneg : 0 ≤ L'.key p
  lt : ∀ x xs, B = x :: xs → L'.key p < L.key x
  shifted : Delta.Shifted L.key L'.key (-L'.key p) B

theorem insertd_spec (hk : ∀ x ∈ L.ids q, 0 ≤ L.key x ∧ L.key x ≤ MAXKEY) (hn : (L.ids q).Nodup) (hp : p ∉ L.ids q)
    (h0 : 0 ≤ d) (h1 : d ≤ MAXKEY) : ∃ A B, Inserted L (L.insertd p q d) q p d A B := by
  have hM : MAXKEY = 2147483647 := rfl
  obtain ⟨hsum, hk0, hlt⟩ := deltaCut_spec (fun x hx => (hk x hx).1) h0 h1
  have happ := deltaCut_append L.key d (L.ids q)
  unfold insertd
  rcases hcut : deltaCut L.key d (L.ids q) with ⟨A, B, k'⟩
  rw [hcut] at hsum hk0 hlt happ
  simp only at hsum hk0 hlt happ ⊢
  rw [← happ] at hn hp hk
  obtain ⟨_, hbn, hdisj⟩ := List.nodup_append.mp hn
  have hpA : p ∉ A := fun hm => hp (List.mem_append_left _ hm)
  have hpB : p ∉ B := fun hm => hp (List.mem_append_right _ hm)
  have hupd : ∀ x, x ≠ p → Function.update L.key p k' x = L.key x := fun x hx => Function.update_of_ne hx _ _
  have hself : Function.update L.key p k' p = k' := Function.update_self _ _ _
  cases B with
  | nil =>
    refine ⟨A, [], happ.symm, Function.update_self _ _ _, fun x hx => hupd x (ne_of_mem_of_not_mem hx hpA), ?_, ?_,
      fun x xs e => (List.cons_ne_nil x xs e.symm).elim, trivial⟩
    · simp only [setKey_key, setIds_key, hself]
      exact hsum
    · simp only [setKey_key, setIds_key, hself]
      exact hk0
  | cons x B =>
    have hxA : x ∉ A := fun hm => hdisj x hm x List.mem_cons_self rfl
    have hxp : x ≠ p := fun e => hpB (by simp [e])
    have hxB : x ∉ B := (List.nodup_cons.mp hbn).1
    have hkx := (hk x (by simp)).2
    have hlx := hlt x B rfl
    have h32 : int32 (L.key x - k') = L.key x + -k' := by
      rw [int32_of_range (by omega) (by omega)]
      omega
    have hnew : Function.update (Function.update L.key p k') x (int32 (L.key x - k')) p = k' := by
      rw [Function.update_of_ne hxp.symm, hself]
    refine ⟨A, x :: B, happ.symm, Function.update_self _ _ _, fun y hy => ?_, ?_, ?_, ?_, ?_, fun y hy => ?_⟩
    · simp only [setKey_key, setIds_key]
      rw [Function.update_of_ne (ne_of_mem_of_not_mem hy hxA)]
      exact hupd y (ne_of_mem_of_not_mem hy hpA)
    · simp only [setKey_key, setIds_key, hnew]
      exact hsum
    · simp only [setKey_key, setIds_key, hnew]
      exact hk0
    · intro y ys e
      simp only [setKey_key, setIds_key, hnew]
      exact hlt y ys e
    · simp only [setKey_key, setIds_key, hnew, Function.update_self]
      exact h32
    · simp only [setKey_key, setIds_key]
      rw [Function.update_of_ne (ne_of_mem_of_not_mem hy hxB)]
      exact hupd y (fun e => hpB (by simp [← e, hy]))

namespace Inserted

variable {L' : QLists}

/-- The times behind an insertion are those before it, and the new one. -/
theorem times (h : Inserted L L' q p d A B) : Delta.times L'.key 0 (L'.ids q) =
    Delta.times L.key 0 A ++ (p, d) :: Delta.times L.key (A.map L.key).sum B := by
  have hsum := h.sum
  rw [h.new, Delta.times_insert h.kept h.shifted, Int.zero_add, hsum]

theorem old_times (h : Inserted L L' q p d A B) : Delta.times L.key 0 (L.ids q) =
    Delta.times L.key 0 A ++ Delta.times L.key (A.map L.key).sum B := by
  rw [h.old, Delta.times_append, Int.zero_add]

/-- The keys stay in range. -/
theorem keys (h : Inserted L L' q p d A B) (hk : ∀ x ∈ L.ids q, 0 ≤ L.key x ∧ L.key x ≤ MAXKEY) (h1 : d ≤ MAXKEY) :
    ∀ x ∈ L'.ids q, 0 ≤ L'.key x ∧ L'.key x ≤ MAXKEY := by
  rw [h.old] at hk
  have hA : 0 ≤ (A.map L.key).sum := Delta.sum_nonneg fun x hx => (hk x (List.mem_append_left _ hx)).1
  have hsum := h.sum
  have h0 := h.nonneg
  intro x hx
  rw [h.new] at hx
  rcases List.mem_append.mp hx with hx | hx
  · rw [h.kept x hx]
    exact hk x (List.mem_append_left _ hx)
  rcases List.mem_cons.mp hx with rfl | hx
  · exact ⟨h0, by omega⟩
  · cases B with
    | nil => cases hx
    | cons y B =>
      have hy := hk y (by simp)
      have hlt := h.lt y B rfl
      rcases List.mem_cons.mp hx with rfl | hx'
      · rw [h.shifted.1]
        constructor <;> omega
      · rw [h.shifted.2 x hx']
        exact hk x (by simp [hx'])

end Inserted

/-- The list without one of its processes. -/
theorem getitem_ids (hn : (L.ids q).Nodup) (hl : L.ids q = A ++ p :: B) : (L.getitem p).ids q = A ++ B := by
  rw [hl] at hn
  have hpA : p ∉ A := fun hm => (List.nodup_append.mp hn).2.2 p hm p List.mem_cons_self rfl
  show (L.ids q).erase p = A ++ B
  rw [hl, List.erase_append_right _ hpA, List.erase_cons_head]

/-- The keys that `passKey` leaves. -/
theorem passKey_spec (hn : (L.ids q).Nodup) (hl : L.ids q = A ++ p :: B) :
    (∀ x ∈ A, (L.passKey q p).key x = L.key x) ∧ ∀ x xs, B = x :: xs →
      (L.passKey q p).key x = int32 (L.key x + L.key p) ∧ ∀ y ∈ xs, (L.passKey q p).key y = L.key y := by
  rw [hl] at hn
  have hpA : p ∉ A := fun hm => (List.nodup_append.mp hn).2.2 p hm p List.mem_cons_self rfl
  unfold passKey
  rw [hl, Rep.after_eq hpA]
  cases B with
  | nil => exact ⟨fun _ _ => rfl, fun x xs e => (List.cons_ne_nil x xs e.symm).elim⟩
  | cons z B =>
    obtain ⟨_, hpB, hdisj⟩ := List.nodup_append.mp hn
    have hzB : z ∉ B := (List.nodup_cons.mp (List.nodup_cons.mp hpB).2).1
    simp only [List.head?_cons, setKey_key]
    refine ⟨fun y hy => Function.update_of_ne (hdisj y hy z (by simp)) _ _, fun x xs e => ?_⟩
    obtain ⟨rfl, rfl⟩ := List.cons.inj e
    exact ⟨Function.update_self _ _ _, fun y hy => Function.update_of_ne (ne_of_mem_of_not_mem hy hzB) _ _⟩

/-- Where the sum of the two keys does not overflow, the time of the process behind is kept. -/
theorem passKey_shifted (hn : (L.ids q).Nodup) (hl : L.ids q = A ++ p :: B)
    (hB : ∀ x xs, B = x :: xs → MINKEY ≤ L.key x + L.key p ∧ L.key x + L.key p ≤ MAXKEY) :
    Delta.Shifted L.key (L.passKey q p).key (L.key p) B := by
  obtain ⟨_, h⟩ := passKey_spec hn hl
  cases B with
  | nil => trivial
  | cons x B =>
    obtain ⟨h1, h2⟩ := h x B rfl
    obtain ⟨b1, b2⟩ := hB x B rfl
    exact ⟨h1.trans (int32_of_range b1 b2), h2⟩

/-- The keys of the others stay in range. -/
theorem passKey_keys (hn : (L.ids q).Nodup) (hl : L.ids q = A ++ p :: B) (hk : ∀ x ∈ L.ids q, 0 ≤ L.key x ∧ L.key x ≤ MAXKEY)
    (hB : ∀ x xs, B = x :: xs → MINKEY ≤ L.key x + L.key p ∧ L.key x + L.key p ≤ MAXKEY) :
    ∀ x ∈ A ++ B, 0 ≤ (L.passKey q p).key x ∧ (L.passKey q p).key x ≤ MAXKEY := by
  have hA := (passKey_spec hn hl).1
  have hS := passKey_shifted hn hl hB
  rw [hl] at hk
  have hp := hk p (by simp)
  intro x hx
  rcases List.mem_append.mp hx with hx | hx
  · rw [hA x hx]
    exact hk x (by simp [hx])
  · cases B with
    | nil => cases hx
    | cons y B =>
      have hy := hk y (by simp)
      have hb := (hB y B rfl).2
      rcases List.mem_cons.mp hx with rfl | hx'
      · rw [hS.1]
        constructor <;> omega
      · rw [hS.2 x hx']
        exact hk x (by simp [hx'])

end QLists

end Xinu
