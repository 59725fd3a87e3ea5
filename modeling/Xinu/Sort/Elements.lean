import Xinu.Sort.Qsort

/-!
# The elements of the array

The memory from the start of the array on as cells of `es` bytes. The byte loops of `qsexc` and `qstexc` exchange and rotate cells, column by
column, also when two of their pointers are the same.
-/

namespace Xinu

namespace Qsort

open Cells

variable {es : Nat} {α : Type*}

/-- The cells of a block. -/
def Block.elements (es : Nat) (b : Block) : Nat → Fin es → UInt8 := fun k t => b.mem (b.base + es * k + t)

/-- The bytes at one place of the cells. -/
def column (E : Nat → Fin es → α) (t : Fin es) : Nat → α := fun k => E k t

/-- From the column `t` on, the cells are changed by a function, column by column. -/
def Changes (g : (Nat → UInt8) → Nat → UInt8) (t : Nat) (E E' : Nat → Fin es → UInt8) : Prop :=
  ∀ k (u : Fin es), E' k u = if t ≤ u then g (column E u) k else E k u

/-- A place in a cell is a place in one cell only. -/
theorem place_inj {k k' u u' : Nat} (hu : u < es) (hu' : u' < es) (h : es * k + u = es * k' + u') : k = k' ∧ u = u' := by
  have hdiv : ∀ m v, v < es → (es * m + v) / es = m ∧ (es * m + v) % es = v := by
    intro m v hv
    rw [Nat.mul_add_div (Nat.zero_lt_of_lt hv), Nat.div_eq_of_lt hv, Nat.mul_add_mod, Nat.mod_eq_of_lt hv]
    exact ⟨Nat.add_zero m, rfl⟩
  have h1 := hdiv k u hu
  have h2 := hdiv k' u' hu'
  rw [h] at h1
  exact ⟨h1.1.symm.trans h2.1, h1.2.symm.trans h2.2⟩

variable {b : Block} {n i j k t : Nat}

/-- A cell of the array lies in the block. -/
theorem place_lt (hsize : b.size = n * es) (hi : i < n) (ht : t < es) : b.base ≤ b.base + es * i + t ∧
    b.base + es * i + t < b.base + b.size := by
  have hmul : es * (i + 1) ≤ n * es := by
    rw [Nat.mul_comm n es]
    exact Nat.mul_le_mul_left es hi
  rw [Nat.mul_succ] at hmul
  omega

theorem load_place (hsize : b.size = n * es) (hi : i < n) (ht : t < es) :
    b.load (b.base + es * i + t) = some (b.elements es i ⟨t, ht⟩) := if_pos (place_lt hsize hi ht)

theorem store_place (hsize : b.size = n * es) (hi : i < n) (ht : t < es) (c : UInt8) : ∃ b', b.store (b.base + es * i + t) c = some b' ∧
    b'.base = b.base ∧ b'.size = b.size ∧ ∀ k (u : Fin es), b'.elements es k u =
      if (u : Nat) = t then Function.update (column (b.elements es) u) i c k else b.elements es k u := by
  refine ⟨_, if_pos (place_lt hsize hi ht), rfl, rfl, fun k u => ?_⟩
  change Function.update b.mem (b.base + es * i + t) c (b.base + es * k + u) = _
  by_cases hu : (u : Nat) = t
  · rw [if_pos hu]
    by_cases hk : k = i
    · rw [hk, hu, Function.update_self, Function.update_self]
    · rw [Function.update_of_ne hk, Function.update_of_ne]
      · rfl
      · intro h
        exact hk (@place_inj es k i u t u.isLt ht (by omega)).1
  · rw [if_neg hu, Function.update_of_ne]
    · rfl
    · intro h
      exact hu (@place_inj es k i u t u.isLt ht (by omega)).2

/-- One column, and then the others. -/
theorem Changes.step {g : (Nat → UInt8) → Nat → UInt8} {E E₁ E' : Nat → Fin es → UInt8}
    (h1 : ∀ k (u : Fin es), E₁ k u = if (u : Nat) = t then g (column E u) k else E k u) (h : Changes g (t + 1) E₁ E') :
    Changes g t E E' := by
  intro k u
  rw [h k u]
  rcases Nat.lt_trichotomy u t with hlt | heq | hgt
  · rw [if_neg (by omega), h1, if_neg (by omega), if_neg (by omega)]
  · rw [if_neg (by omega), h1, if_pos heq, if_pos (by omega)]
  · have hcol : column E₁ u = column E u := by
      funext m
      exact (h1 m u).trans (if_neg (by omega))
    rw [if_pos (by omega), if_pos (by omega), hcol]

/-- The loop of `qsexc` from a column on. -/
theorem qsexcLoop_changes {m : Nat} (hsize : b.size = n * es) (hi : i < n) (hj : j < n) (hm : t + m = es) :
    ∃ b', qsexcLoop m (b.base + es * i + t) (b.base + es * j + t) b = some b' ∧ b'.base = b.base ∧ b'.size = b.size ∧
      Changes (fun f => swap f i j) t (b.elements es) (b'.elements es) := by
  induction m generalizing b t with
  | zero =>
    refine ⟨b, rfl, rfl, rfl, fun k u => ?_⟩
    have hu := u.isLt
    rw [if_neg (by omega)]
  | succ m ih =>
    have ht : t < es := by omega
    obtain ⟨b₁, hs₁, hb₁, hz₁, hE₁⟩ := store_place (b := b) hsize hi ht (b.elements es j ⟨t, ht⟩)
    obtain ⟨b₂, hs₂, hb₂, hz₂, hE₂⟩ := store_place (b := b₁) (hz₁.trans hsize) hj ht (b.elements es i ⟨t, ht⟩)
    obtain ⟨b', hrun, hb', hz', hE'⟩ := @ih b₂ (t + 1) (hz₂.trans (hz₁.trans hsize)) (by omega)
    rw [hb₁] at hs₂
    rw [hb₂, hb₁] at hrun
    refine ⟨b', ?_, hb'.trans (hb₂.trans hb₁), hz'.trans (hz₂.trans hz₁), Changes.step (fun k u => ?_) hE'⟩
    · rw [qsexcLoop]
      simp only [load_place hsize hi ht, load_place hsize hj ht, hs₁, hs₂, Option.bind_eq_bind, Option.bind_some]
      exact hrun
    · rw [hE₂]
      by_cases hu : (u : Nat) = t
      · rw [if_pos hu, if_pos hu]
        obtain rfl : u = ⟨t, ht⟩ := Fin.ext hu
        have hcol : column (b₁.elements es) ⟨t, ht⟩ = Function.update (column (b.elements es) ⟨t, ht⟩) i (b.elements es j ⟨t, ht⟩) := by
          funext m
          exact (hE₁ m ⟨t, ht⟩).trans (if_pos rfl)
        rw [hcol]
        rfl
      · rw [if_neg hu, if_neg hu, hE₁, if_neg hu]

/-- The loop of `qstexc` from a column on. -/
theorem qstexcLoop_changes {m : Nat} (hsize : b.size = n * es) (hi : i < n) (hj : j < n) (hk : k < n) (hm : t + m = es) :
    ∃ b', qstexcLoop m (b.base + es * i + t) (b.base + es * j + t) (b.base + es * k + t) b = some b' ∧ b'.base = b.base ∧
      b'.size = b.size ∧ Changes (fun f => rotate f i j k) t (b.elements es) (b'.elements es) := by
  induction m generalizing b t with
  | zero =>
    refine ⟨b, rfl, rfl, rfl, fun k u => ?_⟩
    have hu := u.isLt
    rw [if_neg (by omega)]
  | succ m ih =>
    have ht : t < es := by omega
    obtain ⟨b₁, hs₁, hb₁, hz₁, hE₁⟩ := store_place (b := b) hsize hi ht (b.elements es k ⟨t, ht⟩)
    have hl₁ := load_place (b := b₁) (hz₁.trans hsize) hj ht
    obtain ⟨b₂, hs₂, hb₂, hz₂, hE₂⟩ := store_place (b := b₁) (hz₁.trans hsize) hk ht (b₁.elements es j ⟨t, ht⟩)
    obtain ⟨b₃, hs₃, hb₃, hz₃, hE₃⟩ := store_place (b := b₂) (hz₂.trans (hz₁.trans hsize)) hj ht (b.elements es i ⟨t, ht⟩)
    obtain ⟨b', hrun, hb', hz', hE'⟩ := @ih b₃ (t + 1) (hz₃.trans (hz₂.trans (hz₁.trans hsize))) (by omega)
    rw [hb₁] at hs₂ hl₁
    rw [hb₂, hb₁] at hs₃
    rw [hb₃, hb₂, hb₁] at hrun
    refine ⟨b', ?_, hb'.trans (hb₃.trans (hb₂.trans hb₁)), hz'.trans (hz₃.trans (hz₂.trans hz₁)), Changes.step (fun m u => ?_) hE'⟩
    · rw [qstexcLoop]
      simp only [load_place hsize hi ht, load_place hsize hk ht, hs₁, hl₁, hs₂, hs₃, Option.bind_eq_bind, Option.bind_some]
      exact hrun
    · rw [hE₃]
      by_cases hu : (u : Nat) = t
      · rw [if_pos hu, if_pos hu]
        obtain rfl : u = ⟨t, ht⟩ := Fin.ext hu
        have hcol₁ : column (b₁.elements es) ⟨t, ht⟩ = Function.update (column (b.elements es) ⟨t, ht⟩) i (b.elements es k ⟨t, ht⟩) := by
          funext m
          exact (hE₁ m ⟨t, ht⟩).trans (if_pos rfl)
        have hcol₂ : column (b₂.elements es) ⟨t, ht⟩ =
            Function.update (column (b₁.elements es) ⟨t, ht⟩) k (column (b₁.elements es) ⟨t, ht⟩ j) := by
          funext m
          exact (hE₂ m ⟨t, ht⟩).trans (if_pos rfl)
        rw [hcol₂, hcol₁]
        rfl
      · rw [if_neg hu, if_neg hu, hE₂, if_neg hu, hE₁, if_neg hu]

/-- All columns of a change that is made column by column. -/
theorem Changes.eq {G : (Nat → Fin es → UInt8) → Nat → Fin es → UInt8} {g : (Nat → UInt8) → Nat → UInt8}
    {E E' : Nat → Fin es → UInt8} (h : Changes g 0 E E') (hG : ∀ u, column (G E) u = g (column E u)) : E' = G E := by
  funext k u
  rw [h k u, if_pos (Nat.zero_le _), ← hG u]
  rfl

theorem column_update (E : Nat → Fin es → α) (k : Nat) (x : Fin es → α) (u : Fin es) :
    column (Function.update E k x) u = Function.update (column E u) k (x u) := by
  funext m
  by_cases hm : m = k
  · subst hm
    rw [column, Function.update_self, Function.update_self]
  · rw [column, Function.update_of_ne hm, Function.update_of_ne hm, column]

/-- `qsexc` on two elements of the array. -/
theorem qsexc_swap (hsize : b.size = n * es) (hi : i < n) (hj : j < n) : ∃ b', qsexc es (b.base + es * i) (b.base + es * j) b = some b' ∧
    b'.base = b.base ∧ b'.size = b.size ∧ b'.elements es = swap (b.elements es) i j := by
  obtain ⟨b', hrun, hb, hz, hE⟩ := @qsexcLoop_changes es b n i j 0 es hsize hi hj (Nat.zero_add es)
  refine ⟨b', hrun, hb, hz, hE.eq (G := fun E => swap E i j) fun u => ?_⟩
  rw [swap, column_update, column_update]
  rfl

/-- `qstexc` on three elements of the array. -/
theorem qstexc_rotate (hsize : b.size = n * es) (hi : i < n) (hj : j < n) (hk : k < n) :
    ∃ b', qstexc es (b.base + es * i) (b.base + es * j) (b.base + es * k) b = some b' ∧ b'.base = b.base ∧ b'.size = b.size ∧
      b'.elements es = rotate (b.elements es) i j k := by
  obtain ⟨b', hrun, hb, hz, hE⟩ := @qstexcLoop_changes es b n i j k 0 es hsize hi hj hk (Nat.zero_add es)
  refine ⟨b', hrun, hb, hz, hE.eq (G := fun E => rotate E i j k) fun u => ?_⟩
  have hj' : Function.update (b.elements es) i (b.elements es k) j u =
      Function.update (column (b.elements es) u) i (b.elements es k u) j := congrFun (column_update _ i _ u) j
  simp only [rotate, column_update, hj']
  rfl

/-- The comparison of two elements of the array. -/
theorem compare_elements {cmp : (Fin es → UInt8) → (Fin es → UInt8) → Int} (hsize : b.size = n * es) (hi : i < n) (hj : j < n) :
    compare cmp b (b.base + es * i) (b.base + es * j) = some (cmp (b.elements es i) (b.elements es j)) := by
  have helement : ∀ k, k < n → b.element es (b.base + es * k) = some (b.elements es k) := by
    intro k hk
    have hmul : es * (k + 1) ≤ n * es := by
      rw [Nat.mul_comm n es]
      exact Nat.mul_le_mul_left es hk
    rw [Nat.mul_succ] at hmul
    exact if_pos (by omega)
  rw [compare, helement i hi, helement j hj]
  rfl

end Qsort

end Xinu
