import Mathlib.Algebra.GroupWithZero.Nat
import Mathlib.Algebra.Ring.Int.Defs
import Mathlib.Algebra.BigOperators.Group.List.Basic

/-!
# Delta lists

A list of entries whose keys are times relative to the entry before. `times` gives the absolute times. Inserting an entry,
with its key taken off that of the entry behind it, and removing one, with its key added, leave the times of the others as they
are; taking one off the first key takes one off every time.
-/

namespace Delta

variable {ι : Type} {key key' : ι → Int} {t : Int} {A B l : List ι} {p : ι}

/-- The entries with their times, where `t` is the time of the entry before. -/
def times (key : ι → Int) : Int → List ι → List (ι × Int)
  | _, [] => []
  | t, p :: l => (p, t + key p) :: times key (t + key p) l

theorem times_append (key : ι → Int) (t : Int) (A B : List ι) :
    times key t (A ++ B) = times key t A ++ times key (t + (A.map key).sum) B := by
  induction A generalizing t with
  | nil => simp [times]
  | cons p A ih => simp [times, ih, Int.add_assoc]

theorem times_congr (h : ∀ p ∈ l, key' p = key p) : times key' t l = times key t l := by
  induction l generalizing t with
  | nil => rfl
  | cons p l ih =>
    rw [times, times, h p List.mem_cons_self, ih (fun q hq => h q (List.mem_cons_of_mem _ hq))]

theorem map_fst_times (key : ι → Int) (t : Int) (l : List ι) : (times key t l).map Prod.fst = l := by
  induction l generalizing t with
  | nil => rfl
  | cons p l ih => simp [times, ih]

/-- Every entry has a time. -/
theorem exists_time (key : ι → Int) (t : Int) (hp : p ∈ l) : ∃ x, (p, x) ∈ times key t l := by
  rw [← map_fst_times key t l] at hp
  obtain ⟨⟨q, x⟩, hx, rfl⟩ := List.mem_map.mp hp
  exact ⟨x, hx⟩

theorem mem_of_time {x : ι × Int} (hx : x ∈ times key t l) : x.1 ∈ l := by
  rw [← map_fst_times key t l]
  exact List.mem_map_of_mem hx

/-- No entry is due before the one before it. -/
theorem times_ge (hk : ∀ p ∈ l, 0 ≤ key p) : ∀ x ∈ times key t l, t ≤ x.2 := by
  induction l generalizing t with
  | nil => exact fun x hx => by cases hx
  | cons p l ih =>
    intro x hx
    have hp := hk p List.mem_cons_self
    rcases List.mem_cons.mp hx with rfl | hx
    · simp only
      omega
    · have := ih (fun q hq => hk q (List.mem_cons_of_mem _ hq)) x hx
      omega

/-- The delays of a delta list add up to no less than nothing. -/
theorem sum_nonneg (hk : ∀ p ∈ l, 0 ≤ key p) : 0 ≤ (l.map key).sum := by
  induction l with
  | nil => simp
  | cons p l ih =>
    have hp := hk p List.mem_cons_self
    have := ih (fun q hq => hk q (List.mem_cons_of_mem _ hq))
    simp only [List.map_cons, List.sum_cons]
    omega

/-- No entry is due after the last one. -/
theorem times_le (hk : ∀ p ∈ l, 0 ≤ key p) : ∀ x ∈ times key t l, x.2 ≤ t + (l.map key).sum := by
  induction l generalizing t with
  | nil => exact fun x hx => by cases hx
  | cons p l ih =>
    have hk' : ∀ q ∈ l, 0 ≤ key q := fun q hq => hk q (List.mem_cons_of_mem _ hq)
    have hp := hk p List.mem_cons_self
    intro x hx
    simp only [List.map_cons, List.sum_cons]
    rcases List.mem_cons.mp hx with rfl | hx
    · have := sum_nonneg hk'
      simp only
      omega
    · have := ih hk' x hx
      omega

/-- The keys of `l` are those before, but for the first, to which `c` was added. -/
def Shifted (key key' : ι → Int) (c : Int) : List ι → Prop
  | [] => True
  | p :: l => key' p = key p + c ∧ ∀ q ∈ l, key' q = key q

/-- Adding to the first key is adding to the time of the entry before. -/
theorem Shifted.times_eq {c : Int} (h : Shifted key key' c l) : times key' t l = times key (t + c) l := by
  cases l with
  | nil => rfl
  | cons p l =>
    rw [times, times, h.1, times_congr h.2]
    have : t + (key p + c) = t + c + key p := by omega
    rw [this]

/-- Moving the start moves all times. -/
theorem times_add (key : ι → Int) (t c : Int) (l : List ι) :
    times key (t + c) l = (times key t l).map (fun x => (x.1, x.2 + c)) := by
  induction l generalizing t with
  | nil => rfl
  | cons p l ih =>
    have : t + c + key p = t + key p + c := by omega
    simp [times, this, ih]

/-- Inserting an entry leaves the times of the others. -/
theorem times_insert (hA : ∀ q ∈ A, key' q = key q) (hB : Shifted key key' (-key' p) B) :
    times key' t (A ++ p :: B) =
      times key t A ++ (p, t + (A.map key).sum + key' p) :: times key (t + (A.map key).sum) B := by
  have hsum : A.map key' = A.map key := List.map_congr_left hA
  rw [times_append, times_congr hA, times, hsum, hB.times_eq]
  have : t + (A.map key).sum + key' p + -key' p = t + (A.map key).sum := by omega
  rw [this]

/-- The times of the entries around one of them. -/
theorem times_around (key : ι → Int) (t : Int) (A B : List ι) (p : ι) : times key t (A ++ p :: B) =
    times key t A ++ (p, t + (A.map key).sum + key p) :: times key (t + (A.map key).sum + key p) B := by
  rw [times_append, times]

/-- The times without an entry whose key went to the one behind it. -/
theorem times_without (hA : ∀ q ∈ A, key' q = key q) (hB : Shifted key key' (key p) B) :
    times key' t (A ++ B) = times key t A ++ times key (t + (A.map key).sum + key p) B := by
  have hsum : A.map key' = A.map key := List.map_congr_left hA
  rw [times_append, times_congr hA, hsum, hB.times_eq]

/-- Removing an entry leaves the times of the others. -/
theorem times_remove (hA : ∀ q ∈ A, key' q = key q) (hB : Shifted key key' (key p) B) :
    ∀ x ∈ times key' t (A ++ B), x ∈ times key t (A ++ p :: B) := by
  intro x hx
  rw [times_without hA hB] at hx
  rw [times_around]
  rcases List.mem_append.mp hx with hx | hx
  · exact List.mem_append_left _ hx
  · exact List.mem_append_right _ (List.mem_cons_of_mem _ hx)

/-- Times that are read through a map that respects addition depend on the image of the time before only. -/
theorem map_times_congr {γ : Type} {f : Int → γ} (hf : ∀ a b c, f a = f b → f (a + c) = f (b + c)) {s : Int} (h : f s = f t)
    (l : List ι) : (times key s l).map (fun x => (x.1, f x.2)) = (times key t l).map (fun x => (x.1, f x.2)) := by
  induction l generalizing s t with
  | nil => rfl
  | cons p l ih => rw [times, times, List.map_cons, List.map_cons, hf s t (key p) h, ih (hf s t (key p) h)]

end Delta
