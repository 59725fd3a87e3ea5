import Mathlib.Data.List.GetD
import Xinu.Lfs.Layout

/-!
# Blocks that come into memory

The accesses of `lfsetup` to the blocks of a file: an index block or a data block of the file is read, or one from a free list is
added to the file.
-/

namespace Xinu

namespace Lfs

open Table

namespace View

variable {S N : Nat} {x : OneFile} {L : Layout} {P : Prop} {i n y : Int32} {rest l : List Int32}

/-- An index block that is not in memory, or not dirty, is on the disk as it is. -/
theorem index_eq (V : View S N x L P) (hc : x.lf.lfibdirty = false) (hi : i ∈ L.iarea x.lf.lfdirptr) : L.ix i = lfibget x.disk i := by
  refine (V.icached i hi).resolve_right fun h => ?_
  rw [hc] at h
  cases h.1

theorem data_eq (V : View S N x L False) (hc : x.lf.lfdbdirty = false) (hn : n ∈ L.darea x.lf.lfdirptr) :
    L.dat n = x.disk.sector n := by
  refine (V.dcached n hn).resolve_right fun h => ?_
  rw [hc] at h
  rcases h.1 with h | h
  · cases h
  · exact h

/-- The index block in memory. -/
theorem block_eq (V : View S N x L P) (h : x.lf.lfinum ∈ L.ilist (some x.lf.lfdirptr)) : x.lf.lfiblock = L.ix x.lf.lfinum := by
  rcases V.index with ⟨hnull, _⟩ | ⟨_, hblock⟩
  · exact absurd hnull (V.irange _ (List.mem_append_left _ h)).ne_null
  · exact hblock

theorem imp {P' : Prop} (V : View S N x L P) (h : P → P') : View S N x L P' :=
  ⟨V.good, V.inodup, V.irange, V.dnodup, V.drange, V.ifree, V.dfree, V.file, V.icached,
    fun n hn => (V.dcached n hn).imp id fun hc => ⟨hc.1.imp id h, hc.2⟩, V.index, V.data, V.pos⟩

/-- An index block of the file is read. -/
theorem loadIndex (V : View S N x L P) (hc : x.lf.lfibdirty = false) (hi : i ∈ L.ilist (some x.lf.lfdirptr)) :
    View S N { x with lf := { x.lf with lfiblock := lfibget x.disk i, lfinum := i } } L P ∧
      Frame S N x { x with lf := { x.lf with lfiblock := lfibget x.disk i, lfinum := i } } L L := by
  have hall := fun j (hj : j ∈ L.iarea x.lf.lfdirptr) => V.index_eq hc hj
  exact ⟨⟨V.good, V.inodup, V.irange, V.dnodup, V.drange, V.ifree, V.dfree, V.file, fun j hj => Or.inl (hall j hj), V.dcached,
    Or.inr ⟨hi, (hall i (List.mem_append_left _ hi)).symm⟩, V.data, V.pos⟩,
    Frame.of_disk rfl rfl rfl rfl rfl rfl (fun _ _ _ => rfl) (fun _ _ _ => rfl)⟩

/-- The data block in memory is forgotten. -/
theorem dropData (V : View S N x L False) (hc : x.lf.lfdbdirty = false) :
    View S N { x with lf := { x.lf with lfdnum := LF_DNULL } } L False ∧
      Frame S N x { x with lf := { x.lf with lfdnum := LF_DNULL } } L L := by
  exact ⟨⟨V.good, V.inodup, V.irange, V.dnodup, V.drange, V.ifree, V.dfree, V.file, V.icached,
    fun n hn => Or.inl (V.data_eq hc hn), V.index, Or.inl ⟨rfl, hc⟩, V.pos⟩,
    Frame.of_disk rfl rfl rfl rfl rfl rfl (fun _ _ _ => rfl) (fun _ _ _ => rfl)⟩

/-- A data block of the file is read. -/
theorem loadData (V : View S N x L False) (hc : x.lf.lfdbdirty = false) (hn : n ∈ L.dlist (some x.lf.lfdirptr)) (b : Nat) :
    View S N { x with lf := { x.lf with lfdblock := (x.disk.read x.lf.lfdblock n).2, lfdbdirty := false, lfdnum := n, lfbyte := b } }
        L False ∧
      Frame S N x { x with lf := { x.lf with
        lfdblock := (x.disk.read x.lf.lfdblock n).2, lfdbdirty := false, lfdnum := n, lfbyte := b } } L L := by
  have hall := fun m (hm : m ∈ L.darea x.lf.lfdirptr) => V.data_eq hc hm
  have hread : (x.disk.read x.lf.lfdblock n).2 = L.dat n := by
    rw [read_eq V.good, hall n (List.mem_append_left _ hn)]
  exact ⟨⟨V.good, V.inodup, V.irange, V.dnodup, V.drange, V.ifree, V.dfree, V.file, V.icached, fun m hm => Or.inl (hall m hm),
    V.index, Or.inr ⟨hn, hread⟩, V.pos⟩, Frame.of_disk rfl rfl rfl rfl rfl rfl (fun _ _ _ => rfl) (fun _ _ _ => rfl)⟩

/-- The byte pointer is set. -/
theorem setByte (V : View S N x L P) (b : Nat) : View S N { x with lf := { x.lf with lfbyte := b } } L P ∧
    Frame S N x { x with lf := { x.lf with lfbyte := b } } L L :=
  ⟨⟨V.good, V.inodup, V.irange, V.dnodup, V.drange, V.ifree, V.dfree, V.file, V.icached, V.dcached, V.index, V.data, V.pos⟩,
    Frame.of_disk rfl rfl rfl rfl rfl rfl (fun _ _ _ => rfl) (fun _ _ _ => rfl)⟩

end View

/-! ## New blocks -/

section New

variable {S N : Nat} {x : OneFile} {L : Layout} {P : Prop} {i n y : Int32} {rest l : List Int32} {f : Fin 20}
  {own : Option (Fin 20) → List Int32}

/-- The lists when the first block of the free list has gone to the end of that of a file. -/
def grown (own : Option (Fin 20) → List Int32) (f : Fin 20) (n : Int32) (rest : List Int32) : Option (Fin 20) → List Int32 :=
  moved own (some f) none (own (some f) ++ [n]) rest

theorem grown_self : grown own f n rest (some f) = own (some f) ++ [n] := moved_left (Option.some_ne_none f)

theorem grown_free : grown own f n rest none = rest := moved_right

theorem grown_of_ne {g : Fin 20} (hg : g ≠ f) (n : Int32) (rest : List Int32) : grown own f n rest (some g) = own (some g) :=
  moved_of_ne (fun e => hg (Option.some.inj e)) (Option.some_ne_none g)

theorem grown_area (hfree : own none = n :: rest) :
    grown own f n rest (some f) ++ grown own f n rest none = own (some f) ++ own none := by
  rw [grown_self, grown_free, hfree, List.append_assoc]
  rfl

/-- The first index block on the free list. -/
theorem View.free_index (V : View S N x L P) (hfree : L.ilist none = i :: rest) :
    Chain L.next LF_INULL (L.next i) rest ∧ i ∉ L.ilist (some x.lf.lfdirptr) ∧ i ∉ rest ∧ i ∈ L.iarea x.lf.lfdirptr := by
  have hchain := V.ifree
  have hnd := V.inodup
  have hmem : i ∈ L.iarea x.lf.lfdirptr := by
    rw [Layout.iarea, hfree]
    exact List.mem_append_right _ List.mem_cons_self
  rw [Layout.iarea, hfree] at hnd
  obtain ⟨_, hnd', hdisj⟩ := List.nodup_append.mp hnd
  rw [hfree] at hchain
  obtain ⟨rfl, hrest⟩ := hchain.pop
  exact ⟨hrest, fun h => hdisj _ h _ List.mem_cons_self rfl, (List.nodup_cons.mp hnd').1, hmem⟩

theorem View.free_data (V : View S N x L P) (hfree : L.dlist none = n :: rest) :
    Chain L.nextdb LF_DNULL (L.nextdb n) rest ∧ n ∉ L.dlist (some x.lf.lfdirptr) ∧ n ∉ rest ∧ n ∈ L.darea x.lf.lfdirptr := by
  have hchain := V.dfree
  have hnd := V.dnodup
  have hmem : n ∈ L.darea x.lf.lfdirptr := by
    rw [Layout.darea, hfree]
    exact List.mem_append_right _ List.mem_cons_self
  rw [Layout.darea, hfree] at hnd
  obtain ⟨_, hnd', hdisj⟩ := List.nodup_append.mp hnd
  rw [hfree] at hchain
  obtain ⟨rfl, hrest⟩ := hchain.pop
  exact ⟨hrest, fun h => hdisj _ h _ List.mem_cons_self rfl, (List.nodup_cons.mp hnd').1, hmem⟩

/-! ### Index blocks -/

/-- The layout when an empty file has got an index block. -/
def Layout.first (L : Layout) (f : Fin 20) (i : Int32) (rest : List Int32) : Layout :=
  { L with ix := Function.update L.ix i (lfibclear 0), ilist := grown L.ilist f i rest }

/-- The directory and the control block. -/
def OneFile.first (x : OneFile) (i next : Int32) : OneFile where
  disk := x.disk
  dir := { x.dir with
    lfd_ifree := next
    lfd_files := Function.update x.dir.lfd_files x.lf.lfdirptr { x.ld with ld_ilist := i } }
  lf := { x.lf with lfiblock := lfibclear 0, lfinum := i, lfibdirty := true }

theorem OneFile.first_ld (x : OneFile) (i next : Int32) : (x.first i next).ld = { x.ld with ld_ilist := i } :=
  Function.update_self _ _ _

/-- An empty file gets its first index block. -/
theorem View.first (V : View S N x L P) (hc : x.lf.lfibdirty = false) (hempty : L.ilist (some x.lf.lfdirptr) = [])
    (hfree : L.ilist none = i :: rest) :
    View S N (x.first i (L.next i)) (L.first x.lf.lfdirptr i rest) P ∧
      Frame S N x (x.first i (L.next i)) L (L.first x.lf.lfdirptr i rest) := by
  obtain ⟨hrest, _, hnot, harea⟩ := V.free_index hfree
  have hidx := V.irange i harea
  have hmine : grown L.ilist x.lf.lfdirptr i rest (some x.lf.lfdirptr) = [i] := by rw [grown_self, hempty, List.nil_append]
  have hall : (L.first x.lf.lfdirptr i rest).iarea x.lf.lfdirptr = L.iarea x.lf.lfdirptr := grown_area hfree
  have hix : ∀ j, j ≠ i → (L.first x.lf.lfdirptr i rest).ix j = L.ix j := fun j hj => Function.update_of_ne hj _ _
  have hself : (L.first x.lf.lfdirptr i rest).ix i = lfibclear 0 := Function.update_self _ _ _
  have hld := x.first_ld i (L.next i)
  have hdl : L.dlist (some x.lf.lfdirptr) = [] := by
    have h := V.file.blocks
    rw [hempty, List.length_nil, Nat.mul_zero, Nat.le_zero] at h
    exact List.length_eq_zero_iff.mp h
  have hfile : (L.first x.lf.lfdirptr i rest).FileOk (x.first i (L.next i)).ld x.lf.lfdirptr := by
    rw [hld]
    refine ⟨?_, fun k j hk => ?_, ?_, V.file.size⟩
    · change Chain _ LF_INULL i (grown L.ilist x.lf.lfdirptr i rest (some x.lf.lfdirptr))
      rw [hmine]
      exact ⟨rfl, hidx.ne_null, congrArg Lfiblk.ib_next hself⟩
    · change (grown L.ilist x.lf.lfdirptr i rest (some x.lf.lfdirptr))[k]? = some j at hk
      rw [hmine] at hk
      obtain ⟨rfl, rfl⟩ : k = 0 ∧ i = j := by
        cases k with
        | zero => exact ⟨rfl, Option.some.inj hk⟩
        | succ k => cases hk
      rw [hself]
      refine ⟨rfl, fun j => ?_⟩
      change LF_DNULL = (L.dlist (some x.lf.lfdirptr)).getD _ _
      rw [hdl]
      rfl
    · change (L.dlist (some x.lf.lfdirptr)).length ≤ _
      rw [hdl]
      exact Nat.zero_le _
  refine ⟨⟨V.good, hall ▸ V.inodup, fun j hj => V.irange j (hall ▸ hj), V.dnodup, V.drange, ?_, V.dfree, hfile, fun j hj => ?_,
    V.dcached, Or.inr ⟨?_, hself.symm⟩, V.data, ?_⟩, ?_⟩
  · change Chain _ LF_INULL _ (grown L.ilist x.lf.lfdirptr i rest none)
    rw [grown_free]
    refine hrest.frame fun j hj => congrArg Lfiblk.ib_next (hix j ?_)
    rintro rfl
    exact hnot hj
  · by_cases he : j = i
    · exact Or.inr ⟨rfl, he.symm⟩
    · rw [hix j he]
      exact Or.inl (V.index_eq hc (hall ▸ hj))
  · change i ∈ grown L.ilist x.lf.lfdirptr i rest (some x.lf.lfdirptr)
    rw [hmine]
    exact List.mem_singleton_self i
  · rw [hld]
    exact V.pos
  · refine ⟨rfl, rfl, rfl, rfl, rfl, rfl, fun g hg => Function.update_of_ne hg _ _, by rw [hld], fun g hg => grown_of_ne hg i rest,
      fun _ _ => rfl, ?_, List.Perm.refl _, fun j _ hj => ⟨hix j ?_, rfl⟩, fun _ _ _ => ⟨rfl, rfl⟩⟩
    · rw [hall]
    · rintro rfl
      exact hj harea

/-- The layout when a file has got an index block behind the block `y`. -/
def Layout.extend (L : Layout) (f : Fin 20) (y i : Int32) (rest : List Int32) : Layout :=
  { L with
    ix := Function.update (Function.update L.ix y { L.ix y with ib_next := i }) i (lfibclear ((L.ix y).ib_offset + LF_IDATA))
    ilist := grown L.ilist f i rest }

/-- The disk, the directory and the control block. -/
def OneFile.extend (x : OneFile) (i next : Int32) : OneFile where
  disk := (lfibput x.disk x.lf.lfinum { x.lf.lfiblock with ib_next := i }).2
  dir := { x.dir with lfd_ifree := next }
  lf := { x.lf with
    lfiblock := lfibclear (x.lf.lfiblock.ib_offset + LF_IDATA), lfinum := i, lfibdirty := true, lfdnum := LF_DNULL }

theorem Layout.extend_new (L : Layout) (f : Fin 20) (y i : Int32) (rest : List Int32) :
    (L.extend f y i rest).ix i = lfibclear ((L.ix y).ib_offset + LF_IDATA) := Function.update_self _ _ _

theorem Layout.extend_last (L : Layout) (f : Fin 20) (rest : List Int32) (h : y ≠ i) :
    (L.extend f y i rest).ix y = { L.ix y with ib_next := i } := by
  rw [Layout.extend]
  simp only [Function.update_of_ne h, Function.update_self]

theorem Layout.extend_other (L : Layout) (f : Fin 20) (rest : List Int32) {j : Int32} (hi : j ≠ i) (hy : j ≠ y) :
    (L.extend f y i rest).ix j = L.ix j := by
  rw [Layout.extend]
  simp only [Function.update_of_ne hi, Function.update_of_ne hy]

/-- The index blocks of the file, with the new one. -/
theorem Layout.extend_mine (i : Int32) (rest : List Int32) (hlast : L.ilist (some f) = l ++ [y]) :
    (L.extend f y i rest).ilist (some f) = l ++ [y] ++ [i] := by
  have h : (L.extend f y i rest).ilist (some f) = L.ilist (some f) ++ [i] := @grown_self i rest f _
  rw [h, hlast]

/-- The last block of the file is not the free one. -/
theorem View.last_ne (V : View S N x L False) (hlast : L.ilist (some x.lf.lfdirptr) = l ++ [x.lf.lfinum])
    (hfree : L.ilist none = i :: rest) : x.lf.lfinum ≠ i := by
  rintro rfl
  refine (V.free_index hfree).2.1 ?_
  rw [hlast]
  simp

/-- The file's chain: the link of the last block is written, and the new block has none. -/
theorem View.extend_chain (V : View S N x L False) (hlast : L.ilist (some x.lf.lfdirptr) = l ++ [x.lf.lfinum])
    (hfree : L.ilist none = i :: rest) :
    Chain (L.extend x.lf.lfdirptr x.lf.lfinum i rest).next LF_INULL x.ld.ld_ilist (l ++ [x.lf.lfinum] ++ [i]) := by
  obtain ⟨_, hout, _, hmemi⟩ := V.free_index hfree
  have hnd : (l ++ [x.lf.lfinum] ++ [i]).Nodup := by
    have h : (L.ilist (some x.lf.lfdirptr) ++ L.ilist none).Nodup := V.inodup
    rw [← grown_area (f := x.lf.lfdirptr) hfree, grown_self, hlast] at h
    exact (List.nodup_append.mp h).1
  have hold := V.file.chain
  rw [hlast] at hold
  have hold' : Chain (Function.update L.next i LF_INULL) LF_INULL x.ld.ld_ilist (l ++ [x.lf.lfinum]) :=
    hold.update (by rw [← hlast]; exact hout) LF_INULL
  refine (hold'.snoc (Function.update_self _ _ _) (V.irange i hmemi).ne_null hnd).frame fun j _ => ?_
  by_cases hj : j = x.lf.lfinum
  · rw [hj, Function.update_self]
    exact congrArg Lfiblk.ib_next (L.extend_last _ _ (V.last_ne hlast hfree))
  · rw [Function.update_of_ne hj]
    by_cases hj' : j = i
    · rw [hj', Function.update_self]
      exact congrArg Lfiblk.ib_next (L.extend_new _ _ _ _)
    · rw [Function.update_of_ne hj']
      exact congrArg Lfiblk.ib_next (L.extend_other _ _ hj' hj)

/-- The new block stands for the bytes behind those of the last one, and names no data blocks. -/
theorem View.extend_index (V : View S N x L False) (hlast : L.ilist (some x.lf.lfdirptr) = l ++ [x.lf.lfinum])
    (hfull : (L.dlist (some x.lf.lfdirptr)).length = 16 * (l.length + 1)) (hsmall : 8192 * (l.length + 1) < 2 ^ 32)
    (hfree : L.ilist none = i :: rest) {k : Nat} {j : Int32} (hk : (l ++ [x.lf.lfinum] ++ [i])[k]? = some j) :
    ((L.extend x.lf.lfdirptr x.lf.lfinum i rest).ix j).ib_offset.toNat = 8192 * k ∧
      ∀ b : Fin 16, ((L.extend x.lf.lfdirptr x.lf.lfinum i rest).ix j).ib_dba b =
        (L.dlist (some x.lf.lfdirptr)).getD (16 * k + b) LF_DNULL := by
  have hyi := V.last_ne hlast hfree
  rw [List.getElem?_append] at hk
  split at hk
  · obtain ⟨h1, h2⟩ := V.file.index k j (hlast ▸ hk)
    have hji : j ≠ i := by
      rintro rfl
      exact (V.free_index hfree).2.1 (hlast ▸ List.mem_of_getElem? hk)
    by_cases hj : j = x.lf.lfinum
    · subst hj
      rw [L.extend_last _ _ hyi]
      exact ⟨h1, h2⟩
    · rw [L.extend_other _ _ hji hj]
      exact ⟨h1, h2⟩
  · have hlen : (l ++ [x.lf.lfinum]).length = l.length + 1 := by simp
    obtain ⟨hk0, rfl⟩ : k - (l ++ [x.lf.lfinum]).length = 0 ∧ i = j := by
      cases hz : k - (l ++ [x.lf.lfinum]).length with
      | zero =>
        rw [hz] at hk
        exact ⟨rfl, Option.some.inj hk⟩
      | succ m =>
        rw [hz] at hk
        cases hk
    have hk' : k = l.length + 1 := by omega
    subst hk'
    rw [L.extend_new]
    refine ⟨?_, fun j => ?_⟩
    · have h := (V.file.index l.length x.lf.lfinum (by rw [hlast]; simp)).1
      change ((L.ix x.lf.lfinum).ib_offset + LF_IDATA).toNat = _
      have hid : LF_IDATA.toNat = 8192 := rfl
      rw [UInt32.toNat_add, h, hid]
      omega
    · change LF_DNULL = (L.dlist (some x.lf.lfdirptr)).getD _ _
      rw [List.getD_eq_default]
      omega

/-- What the directory says of the file is true with the new block. -/
theorem View.extend_file (V : View S N x L False) (hlast : L.ilist (some x.lf.lfdirptr) = l ++ [x.lf.lfinum])
    (hfull : (L.dlist (some x.lf.lfdirptr)).length = 16 * (l.length + 1)) (hsmall : 8192 * (l.length + 1) < 2 ^ 32)
    (hfree : L.ilist none = i :: rest) : (L.extend x.lf.lfdirptr x.lf.lfinum i rest).FileOk x.ld x.lf.lfdirptr := by
  have hmine := Layout.extend_mine i rest hlast
  refine ⟨?_, fun k j hk => ?_, ?_, V.file.size⟩
  · rw [hmine]
    exact V.extend_chain hlast hfree
  · rw [hmine] at hk
    exact V.extend_index hlast hfull hsmall hfree hk
  · change (L.dlist (some x.lf.lfdirptr)).length ≤ _
    rw [hmine, hfull]
    simp only [List.length_append, List.length_singleton]
    omega

/-- A file whose index blocks are full gets one more. -/
theorem View.extend (V : View S N x L False) (R : Room S N) (hc : x.lf.lfdbdirty = false)
    (hlast : L.ilist (some x.lf.lfdirptr) = l ++ [x.lf.lfinum])
    (hfull : (L.dlist (some x.lf.lfdirptr)).length = 16 * (l.length + 1)) (hsmall : 8192 * (l.length + 1) < 2 ^ 32)
    (hfree : L.ilist none = i :: rest) :
    View S N (x.extend i (L.next i)) (L.extend x.lf.lfdirptr x.lf.lfinum i rest) False ∧
      Frame S N x (x.extend i (L.next i)) L (L.extend x.lf.lfdirptr x.lf.lfinum i rest) := by
  obtain ⟨hrest, _, hnot, hmemi⟩ := V.free_index hfree
  have hmemy : x.lf.lfinum ∈ L.iarea x.lf.lfdirptr := by
    rw [Layout.iarea, hlast]
    simp
  have hblock : x.lf.lfiblock = L.ix x.lf.lfinum := by
    refine V.block_eq ?_
    rw [hlast]
    simp
  have hyi := V.last_ne hlast hfree
  have hidy := V.irange _ hmemy
  have hall : (L.extend x.lf.lfdirptr x.lf.lfinum i rest).iarea x.lf.lfdirptr = L.iarea x.lf.lfdirptr := grown_area hfree
  have hix : ∀ j, j ≠ i → j ≠ x.lf.lfinum → (L.extend x.lf.lfdirptr x.lf.lfinum i rest).ix j = L.ix j := fun j hj hjy =>
    L.extend_other _ _ hj hjy
  have hput : ∀ j, IsIndex S j → j ≠ x.lf.lfinum →
      lfibget (lfibput x.disk x.lf.lfinum { x.lf.lfiblock with ib_next := i }).2 j = lfibget x.disk j := fun j hj hne =>
    hidy.get_put_of_ne hj R V.good hne _
  refine ⟨⟨lfibput_bad V.good _ _, hall ▸ V.inodup, fun j hj => V.irange j (hall ▸ hj), V.dnodup, V.drange, ?_, V.dfree,
    V.extend_file hlast hfull hsmall hfree, fun j hj => ?_, fun n hn => Or.inl ?_, Or.inr ⟨?_, ?_⟩, Or.inl ⟨rfl, hc⟩, V.pos⟩, ?_⟩
  · change Chain _ LF_INULL _ (grown L.ilist x.lf.lfdirptr i rest none)
    rw [grown_free]
    refine hrest.frame fun j hj => congrArg Lfiblk.ib_next (hix j ?_ ?_)
    · rintro rfl
      exact hnot hj
    · rintro rfl
      have h := V.inodup
      rw [Layout.iarea, hlast, hfree] at h
      exact (List.nodup_append.mp h).2.2 _ (by simp) _ (List.mem_cons_of_mem _ hj) rfl
  · by_cases he : j = i
    · exact Or.inr ⟨rfl, he.symm⟩
    · refine Or.inl ?_
      by_cases hj' : j = x.lf.lfinum
      · rw [hj', L.extend_last _ _ hyi]
        change _ = lfibget (lfibput x.disk _ _).2 _
        rw [hidy.get_put R V.good, hblock]
      · rw [hix j he hj']
        refine Eq.trans ?_ (hput j (V.irange j (hall ▸ hj)) hj').symm
        refine (V.icached j (hall ▸ hj)).resolve_right fun h => hj' h.2.symm
  · refine (V.data_eq hc hn).trans ?_
    exact ((V.drange n hn).put hidy R V.good _).symm
  · change i ∈ (L.extend x.lf.lfdirptr x.lf.lfinum i rest).ilist (some x.lf.lfdirptr)
    rw [Layout.extend_mine i rest hlast]
    simp
  · change lfibclear (x.lf.lfiblock.ib_offset + LF_IDATA) = _
    rw [hblock]
    exact (L.extend_new _ _ _ _).symm
  · refine ⟨rfl, rfl, rfl, rfl, rfl, rfl, fun _ _ => rfl, rfl, fun g hg => grown_of_ne hg i rest, fun _ _ => rfl, ?_, List.Perm.refl _,
      fun j hj hn => ?_, fun n hn _ => ⟨rfl, hn.put hidy R V.good _⟩⟩
    · rw [hall]
    · have hji : j ≠ i := by
        rintro rfl
        exact hn hmemi
      have hjy : j ≠ x.lf.lfinum := by
        rintro rfl
        exact hn hmemy
      exact ⟨hix j hji hjy, hput j hj hjy⟩

/-! ### Data blocks -/

/-- The layout when a file has got a data block, with its number in the entry `j` of the index block `y`. -/
def Layout.append (L : Layout) (f : Fin 20) (y : Int32) (j : Fin 16) (n : Int32) (rest : List Int32) : Layout :=
  { L with
    ix := Function.update L.ix y { L.ix y with ib_dba := Function.update (L.ix y).ib_dba j n }
    dat := Function.update L.dat n dfill
    dlist := grown L.dlist f n rest }

/-- The directory and the control block. -/
def OneFile.append (x : OneFile) (j : Fin 16) (n next : Int32) (b : Nat) : OneFile where
  disk := x.disk
  dir := { x.dir with lfd_dfree := next }
  lf := { x.lf with
    lfdblock := dfill, lfdnum := n, lfbyte := b, lfibdirty := true
    lfiblock := { x.lf.lfiblock with ib_dba := Function.update x.lf.lfiblock.ib_dba j n } }

theorem Layout.append_self (L : Layout) (f : Fin 20) (y : Int32) (j : Fin 16) (n : Int32) (rest : List Int32) :
    (L.append f y j n rest).ix y = { L.ix y with ib_dba := Function.update (L.ix y).ib_dba j n } := Function.update_self _ _ _

theorem Layout.append_other (L : Layout) (f : Fin 20) (j : Fin 16) (n : Int32) (rest : List Int32) (h : i ≠ y) :
    (L.append f y j n rest).ix i = L.ix i := Function.update_of_ne h _ _

/-- No link of an index block is written. -/
theorem Layout.append_next (L : Layout) (f : Fin 20) (y : Int32) (j : Fin 16) (n : Int32) (rest : List Int32) :
    (L.append f y j n rest).next = L.next := by
  funext i
  by_cases hi : i = y
  · rw [hi, Layout.next, L.append_self]
    rfl
  · exact congrArg Lfiblk.ib_next (L.append_other _ _ _ _ hi)

/-- One block more behind a list leaves the other places as they were. -/
theorem getD_snoc (l : List Int32) (n : Int32) {k : Nat} (hk : k ≠ l.length) :
    (l ++ [n]).getD k LF_DNULL = l.getD k LF_DNULL := by
  by_cases hlt : k < l.length
  · exact List.getD_append _ _ _ _ hlt
  · have hout : (l ++ [n]).length ≤ k := by
      rw [List.length_append, List.length_singleton]
      omega
    rw [List.getD_eq_default _ _ hout, List.getD_eq_default _ _ (Nat.le_of_not_lt hlt)]

/-- The index block of the position names the new data block, and the others name what they did. -/
theorem View.append_index {k m : Nat} {j : Fin 16} (V : View S N x L False) (hk : (L.ilist (some x.lf.lfdirptr))[k]? = some x.lf.lfinum)
    (hlen : (L.dlist (some x.lf.lfdirptr)).length = 16 * k + j) (hm : (L.ilist (some x.lf.lfdirptr))[m]? = some i) :
    ((L.append x.lf.lfdirptr x.lf.lfinum j n rest).ix i).ib_offset.toNat = 8192 * m ∧
      ∀ q : Fin 16, ((L.append x.lf.lfdirptr x.lf.lfinum j n rest).ix i).ib_dba q =
        (L.dlist (some x.lf.lfdirptr) ++ [n]).getD (16 * m + q) LF_DNULL := by
  obtain ⟨h1, h2⟩ := V.file.index m i hm
  by_cases hi : i = x.lf.lfinum
  · obtain rfl : m = k := by
      subst hi
      exact (List.getElem?_inj (List.getElem?_eq_some_iff.mp hm).1 (List.nodup_append.mp V.inodup).1).mp (hm.trans hk.symm)
    subst hi
    rw [L.append_self]
    refine ⟨h1, fun q => ?_⟩
    by_cases hq : q = j
    · subst hq
      rw [← hlen, List.getD_append_right _ _ _ _ (Nat.le_refl _), Nat.sub_self]
      exact Function.update_self _ _ _
    · rw [getD_snoc _ _ (fun e => hq (Fin.ext (by omega))), ← h2 q]
      exact Function.update_of_ne hq _ _
  · rw [L.append_other _ _ _ _ hi]
    refine ⟨h1, fun q => ?_⟩
    have hmk : m ≠ k := by
      rintro rfl
      exact hi (Option.some.inj (hm.symm.trans hk))
    rw [getD_snoc _ _ (by omega)]
    exact h2 q

/-- What the directory says of the file is true with the new block. -/
theorem View.append_file {k : Nat} {j : Fin 16} (V : View S N x L False) (hk : (L.ilist (some x.lf.lfdirptr))[k]? = some x.lf.lfinum)
    (hlen : (L.dlist (some x.lf.lfdirptr)).length = 16 * k + j) :
    (L.append x.lf.lfdirptr x.lf.lfinum j n rest).FileOk x.ld x.lf.lfdirptr := by
  have hmine : (L.append x.lf.lfdirptr x.lf.lfinum j n rest).dlist (some x.lf.lfdirptr) = L.dlist (some x.lf.lfdirptr) ++ [n] :=
    @grown_self n rest _ L.dlist
  refine ⟨L.append_next _ _ _ _ _ ▸ V.file.chain, fun m i hm => ?_, ?_, ?_⟩
  · rw [hmine]
    exact V.append_index hk hlen hm
  · have hklt := (List.getElem?_eq_some_iff.mp hk).1
    change _ ≤ 16 * (L.ilist (some x.lf.lfdirptr)).length
    rw [hmine, List.length_append, List.length_singleton]
    omega
  · have hsize := V.file.size
    rw [hmine, List.length_append, List.length_singleton]
    omega

/-- A file gets a data block behind its last one. -/
theorem View.append {k : Nat} {j : Fin 16} (V : View S N x L False) (hd : x.lf.lfdbdirty = false)
    (hk : (L.ilist (some x.lf.lfdirptr))[k]? = some x.lf.lfinum)
    (hlen : (L.dlist (some x.lf.lfdirptr)).length = 16 * k + j) (hfree : L.dlist none = n :: rest) (b : Nat) :
    View S N (x.append j n (L.nextdb n) b) (L.append x.lf.lfdirptr x.lf.lfinum j n rest) True ∧
      Frame S N x (x.append j n (L.nextdb n) b) L (L.append x.lf.lfdirptr x.lf.lfinum j n rest) := by
  obtain ⟨hrest, _, hnot, hmemn⟩ := V.free_data hfree
  have hmemy : x.lf.lfinum ∈ L.ilist (some x.lf.lfdirptr) := List.mem_of_getElem? hk
  have hblock := V.block_eq hmemy
  have hmine : grown L.dlist x.lf.lfdirptr n rest (some x.lf.lfdirptr) = L.dlist (some x.lf.lfdirptr) ++ [n] := grown_self
  have hall : (L.append x.lf.lfdirptr x.lf.lfinum j n rest).darea x.lf.lfdirptr = L.darea x.lf.lfdirptr := grown_area hfree
  have hix : ∀ i, i ≠ x.lf.lfinum → (L.append x.lf.lfdirptr x.lf.lfinum j n rest).ix i = L.ix i := fun i hi =>
    L.append_other _ _ _ _ hi
  have hdat : ∀ m, m ≠ n → (L.append x.lf.lfdirptr x.lf.lfinum j n rest).dat m = L.dat m := fun m hm =>
    Function.update_of_ne hm _ _
  refine ⟨⟨V.good, V.inodup, V.irange, hall ▸ V.dnodup, fun m hm => V.drange m (hall ▸ hm), L.append_next _ _ _ _ _ ▸ V.ifree, ?_,
    V.append_file hk hlen, fun i hi => ?_, fun m hm => ?_, Or.inr ⟨hmemy, ?_⟩, Or.inr ⟨?_, ?_⟩, V.pos⟩, ?_⟩
  · change Chain _ LF_DNULL _ (grown L.dlist x.lf.lfdirptr n rest none)
    rw [grown_free]
    refine hrest.frame fun m hm => congrArg Sector.nextdb (hdat m ?_)
    rintro rfl
    exact hnot hm
  · by_cases he : i = x.lf.lfinum
    · exact Or.inr ⟨rfl, he.symm⟩
    · rw [hix i he]
      exact Or.inl ((V.icached i hi).resolve_right fun h => he h.2.symm)
  · by_cases he : m = n
    · exact Or.inr ⟨Or.inr trivial, he.symm⟩
    · rw [hdat m he]
      exact Or.inl (V.data_eq hd (hall ▸ hm))
  · change ({ x.lf.lfiblock with ib_dba := Function.update x.lf.lfiblock.ib_dba j n } : Lfiblk) = _
    rw [hblock]
    exact (L.append_self _ _ _ _ _).symm
  · change n ∈ grown L.dlist x.lf.lfdirptr n rest (some x.lf.lfdirptr)
    rw [hmine]
    simp
  · exact (Function.update_self (f := L.dat) n dfill).symm
  · refine ⟨rfl, rfl, rfl, rfl, rfl, rfl, fun _ _ => rfl, rfl, fun _ _ => rfl, fun g hg => grown_of_ne hg n rest, List.Perm.refl _, ?_,
      fun i _ hi => ⟨hix i ?_, rfl⟩, fun m _ hm => ⟨hdat m ?_, rfl⟩⟩
    · rw [hall]
    · rintro rfl
      exact hi (List.mem_append_left _ hmemy)
    · rintro rfl
      exact hm hmemn

end New

end Lfs

end Xinu
