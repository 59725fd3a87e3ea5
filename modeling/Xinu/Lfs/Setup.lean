import Xinu.Lfs.Blocks
import Xinu.Lfs.Image

/-!
# `lfsetup`

The block of the current position comes into memory: the index blocks are gone along from the first one, and at the end of the file
an index block and a data block are added. The routine returns unless it needs a block that the free lists do not have, and only
behind the last data block does it need one.
-/

namespace Xinu

namespace Lfs

/-- A routine has worked on the open file `d` and on the free lists. The position, the size and the data blocks of the file are
kept. Before the end of the file the directory is as much on the disk as it was. -/
structure Sets (S N : Nat) (d : Fin 6) (s s' : Lfs) (L L' : Layout) (P : Prop) : Prop where
  view : View S N (s'.one d) L' P
  frame : Frame S N (s.one d) (s'.one d) L L'
  others : ∀ e, e ≠ d → s'.lfltab e = s.lfltab e
  present : s'.lf_dirpresent = s.lf_dirpresent
  pos : (s'.lfltab d).lfpos = (s.lfltab d).lfpos
  size : (s'.file d).ld_size = (s.file d).ld_size
  kept : ∀ (k : Nat) (n : Int32), (L.dlist (some (s.lfltab d).lfdirptr))[k]? = some n →
    (L'.dlist (some (s.lfltab d).lfdirptr))[k]? = some n ∧ L'.dat n = L.dat n
  valid : lfscheck s.lf_dir = OK → lfscheck s'.lf_dir = OK
  saved : Saved s → (s.lfltab d).lfpos.toNat < (s.file d).ld_size.toNat → Saved s'

section Setup

variable {S N : Nat} {d : Fin 6} {s s' t : Lfs} {L L' L₁ : Layout} {P Q : Prop}

theorem one_setEntry (lf : Lflcblk) : (s.setEntry d lf).one d = ⟨s.disk, s.lf_dir, lf⟩ := by
  simp only [one, setEntry, Function.update_self]

theorem setEntry_self (lf : Lflcblk) : (s.setEntry d lf).lfltab d = lf := Function.update_self _ _ _

theorem setEntry_dir (lf : Lflcblk) : (s.setEntry d lf).lf_dir = s.lf_dir := rfl

theorem setEntry_of_ne {e : Fin 6} (he : e ≠ d) (lf : Lflcblk) : (s.setEntry d lf).lfltab e = s.lfltab e :=
  Function.update_of_ne he _ _

theorem Sets.refl (V : View S N (s.one d) L P) : Sets S N d s s L L P :=
  ⟨V, Frame.refl _ _, fun _ _ => rfl, rfl, rfl, rfl, fun _ _ h => ⟨h, rfl⟩, id, fun h _ => h⟩

theorem Sets.dirptr (h : Sets S N d s s' L L' P) : (s'.lfltab d).lfdirptr = (s.lfltab d).lfdirptr := h.frame.dirptr

theorem Sets.imp (h : Sets S N d s s' L L' P) (hP : P → Q) : Sets S N d s s' L L' Q :=
  ⟨h.view.imp hP, h.frame, h.others, h.present, h.pos, h.size, h.kept, h.valid, h.saved⟩

theorem Sets.trans (h : Sets S N d s t L L₁ P) (h' : Sets S N d t s' L₁ L' Q) : Sets S N d s s' L L' Q := by
  have hf := h.dirptr
  refine ⟨h'.view, h.frame.trans h'.frame, fun e he => (h'.others e he).trans (h.others e he), h'.present.trans h.present,
    h'.pos.trans h.pos, h'.size.trans h.size, fun k n hk => ?_, h'.valid ∘ h.valid,
    fun hs hlt => h'.saved (h.saved hs hlt) (by rw [h.pos, h.size]; exact hlt)⟩
  obtain ⟨h1, h2⟩ := h.kept k n hk
  obtain ⟨h3, h4⟩ := h'.kept k n (hf ▸ h1)
  exact ⟨hf ▸ h3, h4.trans h2⟩

/-- The disk, the directory and the control block are replaced. -/
theorem Sets.of_one {x' : OneFile} (hone : s'.one d = x') (V : View S N x' L' P) (F : Frame S N (s.one d) x' L L')
    (hothers : ∀ e, e ≠ d → s'.lfltab e = s.lfltab e) (hpresent : s'.lf_dirpresent = s.lf_dirpresent)
    (hpos : x'.lf.lfpos = (s.lfltab d).lfpos) (hsize : x'.ld.ld_size = (s.file d).ld_size)
    (hkept : ∀ (k : Nat) (n : Int32), (L.dlist (some (s.lfltab d).lfdirptr))[k]? = some n →
      (L'.dlist (some (s.lfltab d).lfdirptr))[k]? = some n ∧ L'.dat n = L.dat n)
    (hvalid : lfscheck s.lf_dir = OK → lfscheck s'.lf_dir = OK)
    (hsaved : Saved s → (s.lfltab d).lfpos.toNat < (s.file d).ld_size.toNat → Saved s') : Sets S N d s s' L L' P := by
  subst hone
  exact ⟨V, F, hothers, hpresent, hpos, hsize, hkept, hvalid, hsaved⟩

/-- The same when the layout stays as it is. -/
theorem Sets.of_same {x' : OneFile} (hone : s'.one d = x') (h : View S N x' L P ∧ Frame S N (s.one d) x' L L)
    (hothers : ∀ e, e ≠ d → s'.lfltab e = s.lfltab e) (hpresent : s'.lf_dirpresent = s.lf_dirpresent)
    (hpos : x'.lf.lfpos = (s.lfltab d).lfpos) (hsize : x'.ld.ld_size = (s.file d).ld_size) (hdir : s'.lf_dir = s.lf_dir)
    (hsaved : Saved s → Saved s') : Sets S N d s s' L L P :=
  Sets.of_one hone h.1 h.2 hothers hpresent hpos hsize (fun _ _ hk => ⟨hk, rfl⟩) (hdir ▸ id) fun hs _ => hsaved hs

/-! ## `lfflush` -/

/-- A dirty block in memory is one of the file. -/
theorem View.dirty_data {x : OneFile} (V : View S N x L P) (hd : x.lf.lfdbdirty = true) : IsData S N x.lf.lfdnum := by
  refine V.drange _ (List.mem_append_left _ (V.data.resolve_left fun h => ?_).1)
  rw [hd] at h
  cases h.2

theorem View.dirty_index {x : OneFile} (V : View S N x L P) (hd : x.lf.lfibdirty = true) : IsIndex S x.lf.lfinum := by
  refine V.irange _ (List.mem_append_left _ (V.index.resolve_left fun h => ?_).1)
  rw [hd] at h
  cases h.2

/-- Blocks have been written. The layout and the directory in memory are as they were. -/
structure Writes (S N : Nat) (d : Fin 6) (s t : Lfs) (L : Layout) : Prop where
  sets : Sets S N d s t L L False
  dir : t.lf_dir = s.lf_dir
  saved : Saved s → Saved t

theorem Writes.refl (V : View S N (s.one d) L False) : Writes S N d s s L := ⟨Sets.refl V, rfl, id⟩

theorem Writes.of_same {x' : OneFile} (hone : t.one d = x') (h : View S N x' L False ∧ Frame S N (s.one d) x' L L)
    (hothers : ∀ e, e ≠ d → t.lfltab e = s.lfltab e) (hpresent : t.lf_dirpresent = s.lf_dirpresent)
    (hpos : x'.lf.lfpos = (s.lfltab d).lfpos) (hsize : x'.ld.ld_size = (s.file d).ld_size) (hdir : t.lf_dir = s.lf_dir)
    (hsaved : Saved s → Saved t) : Writes S N d s t L :=
  ⟨Sets.of_same hone h hothers hpresent hpos hsize hdir hsaved, hdir, hsaved⟩

theorem Writes.trans (h : Writes S N d s t L) (h' : Writes S N d t s' L) : Writes S N d s s' L :=
  ⟨h.sets.trans h'.sets, h'.dir.trans h.dir, h'.saved ∘ h.saved⟩

/-- The directory is written when it is dirty. -/
theorem writeDir_spec (V : View S N (s.one d) L False) (R : Room S N) (ht : t = if s.lf_dirdirty then s.writeDir else s) :
    Writes S N d s t L ∧ t.lfltab d = s.lfltab d ∧ t.lf_dirdirty = false := by
  by_cases hd : s.lf_dirdirty = true
  · rw [if_pos hd] at ht
    subst ht
    exact ⟨Writes.of_same rfl (V.writeDir R _) (fun _ _ => rfl) rfl rfl rfl rfl fun hs => Saved.writeDir V.good hs.valid, rfl, rfl⟩
  · rw [if_neg hd] at ht
    subst ht
    exact ⟨Writes.refl V, rfl, Bool.eq_false_iff.mpr hd⟩

/-- The data block is written when it is dirty. -/
theorem flushData_spec (V : View S N (s.one d) L False) (R : Room S N)
    (ht : t = if (s.lfltab d).lfdbdirty then s.flushData d else s) :
    Writes S N d s t L ∧ t.lfltab d = { s.lfltab d with lfdbdirty := false } ∧ t.lf_dirdirty = s.lf_dirdirty := by
  cases hd : (s.lfltab d).lfdbdirty with
  | true =>
    rw [if_pos hd] at ht
    subst ht
    refine ⟨Writes.of_same (one_setEntry _) (V.flushData R hd) (fun e he => setEntry_of_ne he _) rfl rfl rfl rfl fun hs =>
      hs.frame (write_of_ne V.good _ ?_) rfl rfl, setEntry_self _, rfl⟩
    exact (V.dirty_data hd).ne_dir.symm
  | false =>
    rw [if_neg (by rw [hd]; decide)] at ht
    subst ht
    refine ⟨Writes.refl V, ?_, rfl⟩
    rw [← hd]

/-- The index block is written when it is dirty. -/
theorem flushIndex_spec (V : View S N (s.one d) L False) (R : Room S N)
    (ht : t = if (s.lfltab d).lfibdirty then s.flushIndex d else s) :
    Writes S N d s t L ∧ t.lfltab d = { s.lfltab d with lfibdirty := false } ∧ t.lf_dirdirty = s.lf_dirdirty := by
  cases hd : (s.lfltab d).lfibdirty with
  | true =>
    rw [if_pos hd] at ht
    subst ht
    refine ⟨Writes.of_same (one_setEntry _) (V.flushIndex R hd) (fun e he => setEntry_of_ne he _) rfl rfl rfl rfl fun hs =>
      hs.frame (lfibput_sector V.good ?_ _) rfl rfl, setEntry_self _, rfl⟩
    exact ((V.dirty_index hd).sect_ne_dir R).symm
  | false =>
    rw [if_neg (by rw [hd]; decide)] at ht
    subst ht
    refine ⟨Writes.refl V, ?_, rfl⟩
    rw [← hd]

/-- Nothing is dirty behind `lfflush`. -/
theorem lfflush_spec (V : View S N (s.one d) L False) (R : Room S N) (hu : s.used d) :
    Writes S N d s (s.lfflush d).2 L ∧
      (s.lfflush d).2.lfltab d = { s.lfltab d with lfibdirty := false, lfdbdirty := false } ∧ (s.lfflush d).2.lf_dirdirty = false := by
  have hfree : ¬(s.lfltab d).lfstate = .LF_FREE := by
    intro h
    rw [used, h] at hu
    cases hu
  obtain ⟨h1, htab, hdirty⟩ := writeDir_spec V R rfl
  obtain ⟨h2, htab', hdirty'⟩ := flushData_spec h1.sets.view R rfl
  obtain ⟨h3, htab'', hdirty''⟩ := flushIndex_spec h2.sets.view R rfl
  rw [lfflush, if_neg hfree]
  refine ⟨(h1.trans h2).trans h3, ?_, (hdirty''.trans hdirty').trans hdirty⟩
  rw [htab'', htab', htab]

/-- The beginning of `lfsetup` and `lftruncate`: what is dirty is written. -/
theorem flush_spec (V : View S N (s.one d) L False) (R : Room S N) (hu : s.used d)
    (ht : t = if (s.lfltab d).lfibdirty || (s.lfltab d).lfdbdirty then (s.lfflush d).2 else s) :
    Sets S N d s t L L False ∧ t.lfltab d = { s.lfltab d with lfibdirty := false, lfdbdirty := false } ∧ t.lf_dir = s.lf_dir := by
  by_cases hd : ((s.lfltab d).lfibdirty || (s.lfltab d).lfdbdirty) = true
  · rw [if_pos hd] at ht
    subst ht
    obtain ⟨h1, htab, _⟩ := lfflush_spec V R hu
    exact ⟨h1.sets, htab, h1.dir⟩
  · rw [if_neg hd] at ht
    subst ht
    rw [Bool.not_eq_true, Bool.or_eq_false_iff] at hd
    obtain ⟨hib, hdb⟩ := hd
    refine ⟨Sets.refl V, ?_, rfl⟩
    cases hlf : t.lfltab d
    rw [hlf] at hib hdb
    cases hib
    cases hdb
    rfl

/-! ## Index blocks -/

/-- A block on the free list is on the disk as it is. -/
theorem View.free_index_eq {x : OneFile} {i : Int32} (V : View S N x L P) (hi : i ∈ L.ilist none) : L.ix i = lfibget x.disk i := by
  refine (V.icached i (List.mem_append_right _ hi)).resolve_right ?_
  rintro ⟨hd, rfl⟩
  rcases V.index with ⟨_, hc⟩ | ⟨hmem, _⟩
  · rw [hd] at hc
    cases hc
  · exact (List.nodup_append.mp V.inodup).2.2 _ hmem _ hi rfl

/-- `lfiballoc` takes the first block of the free list, if there is one. -/
theorem lfiballoc_spec (V : View S N (s.one d) L P) : L.ilist none = [] ∧ s.lfiballoc = .error .noIndexBlocks ∨
    ∃ i rest, L.ilist none = i :: rest ∧
      s.lfiballoc = .ok (i, { s with lf_dir := { s.lf_dir with lfd_ifree := L.next i } }.writeDir) := by
  have hchain : Table.Chain L.next LF_INULL s.lf_dir.lfd_ifree (L.ilist none) := V.ifree
  cases hfree : L.ilist none with
  | nil =>
    refine Or.inl ⟨rfl, ?_⟩
    rw [hfree] at hchain
    exact if_pos hchain
  | cons i rest =>
    refine Or.inr ⟨i, rest, rfl, ?_⟩
    rw [hfree] at hchain
    obtain ⟨he, hne, _⟩ := hchain
    have hget : L.ix i = lfibget s.disk i := V.free_index_eq (hfree ▸ List.mem_cons_self)
    rw [lfiballoc, he, if_neg hne, Layout.next, hget]

/-- The file has an index block for the position, or it is the first position behind its blocks. -/
def Within (L : Layout) (f : Fin 20) (pos : UInt32) : Prop :=
  pos.toNat / 8192 < (L.ilist (some f)).length ∨
    (L.ilist (some f)).length = pos.toNat / 8192 ∧ (L.dlist (some f)).length = 16 * (pos.toNat / 8192)

/-- The index block number `k` of the file is in memory, and the data block is not dirty. -/
structure At (S N : Nat) (d : Fin 6) (s : Lfs) (L : Layout) (k : Nat) : Prop where
  view : View S N (s.one d) L False
  clean : (s.lfltab d).lfdbdirty = false
  here : (L.ilist (some (s.lfltab d).lfdirptr))[k]? = some (s.lfltab d).lfinum

/-- An index block of the file is read. -/
theorem loadIndex_spec {k : Nat} {i : Int32} (V : View S N (s.one d) L False) (hib : (s.lfltab d).lfibdirty = false)
    (hdb : (s.lfltab d).lfdbdirty = false) (hk : (L.ilist (some (s.lfltab d).lfdirptr))[k]? = some i) :
    Sets S N d s (s.loadIndex d i) L L False ∧ At S N d (s.loadIndex d i) L k ∧ ((s.loadIndex d i).lfltab d).lfibdirty = false := by
  have h := V.loadIndex hib (List.mem_of_getElem? hk)
  have hsets : Sets S N d s (s.loadIndex d i) L L False :=
    Sets.of_same (one_setEntry _) h (fun e he => setEntry_of_ne he _) rfl rfl rfl rfl fun hs => hs.frame rfl rfl rfl
  have htab : (s.loadIndex d i).lfltab d = { s.lfltab d with lfiblock := lfibget s.disk i, lfinum := i } := setEntry_self _
  refine ⟨hsets, ⟨hsets.view, ?_, ?_⟩, ?_⟩
  · rw [htab]
    exact hdb
  · rw [htab]
    exact hk
  · rw [htab]
    exact hib

/-- The file needs an index block for the position, and there is no free one. -/
def NoIndex (L : Layout) (f : Fin 20) (pos : UInt32) : Prop := L.ilist none = [] ∧ (L.ilist (some f)).length ≤ pos.toNat / 8192

/-- The file needs a data block for the position, and there is no free one. -/
def NoData (L : Layout) (f : Fin 20) (pos : UInt32) : Prop := L.dlist none = [] ∧ (L.dlist (some f)).length ≤ pos.toNat / 512

/-- What the routines that go along the index blocks leave: the block number `k` in memory, or they panic. -/
def Found (S N : Nat) (d : Fin 6) (s : Lfs) (L : Layout) (k : Nat → Lfs → Prop) (result : Except Fault Lfs) : Prop :=
  (result = .error .noIndexBlocks ∧ NoIndex L (s.lfltab d).lfdirptr (s.lfltab d).lfpos) ∨
    ∃ s' L' m, result = .ok s' ∧ Sets S N d s s' L L' False ∧ At S N d s' L' m ∧ L'.dlist = L.dlist ∧
      (L'.ilist (some (s.lfltab d).lfdirptr)).length = max (L.ilist (some (s.lfltab d).lfdirptr)).length (m + 1) ∧
      Within L' (s.lfltab d).lfdirptr (s.lfltab d).lfpos ∧ k m s'

/-- The block number `k` is one of the list. -/
theorem length_eq_max {l : List Int32} {k : Nat} {i : Int32} (h : l[k]? = some i) : l.length = max l.length (k + 1) :=
  (Nat.max_eq_left (List.getElem?_eq_some_iff.mp h).1).symm

/-- An index block at or before the position is in memory behind the first part of `lfsetup`. -/
theorem firstIndex_spec (V : View S N (s.one d) L False) (R : Room S N) (hib : (s.lfltab d).lfibdirty = false)
    (hdb : (s.lfltab d).lfdbdirty = false) (hin : Within L (s.lfltab d).lfdirptr (s.lfltab d).lfpos) :
    Found S N d s L (fun k s' => k ≤ (s.lfltab d).lfpos.toNat / 8192 ∧
      ((s'.lfltab d).lfibdirty = false ∨ k = (s.lfltab d).lfpos.toNat / 8192)) (s.firstIndex d) := by
  have hchain : Table.Chain L.next LF_INULL (s.file d).ld_ilist (L.ilist (some (s.lfltab d).lfdirptr)) := V.file.chain
  -- the file has an index block, and the first one is read
  have hload : (s.file d).ld_ilist ≠ LF_INULL →
      Found S N d s L (fun k s' => k ≤ (s.lfltab d).lfpos.toNat / 8192 ∧
        ((s'.lfltab d).lfibdirty = false ∨ k = (s.lfltab d).lfpos.toNat / 8192)) (.ok (s.loadIndex d (s.file d).ld_ilist)) := by
    intro hne
    cases hl : L.ilist (some (s.lfltab d).lfdirptr) with
    | nil =>
      rw [hl] at hchain
      exact absurd hchain hne
    | cons a l =>
      rw [hl] at hchain
      obtain ⟨h1, h2, h3⟩ := loadIndex_spec (k := 0) (i := (s.file d).ld_ilist) V hib hdb (by rw [hl, hchain.1]; rfl)
      exact Or.inr ⟨_, L, 0, rfl, h1, h2, rfl, hl ▸ (Nat.max_eq_left (Nat.succ_pos _)).symm, hin, Nat.zero_le _, Or.inl h3⟩
  unfold firstIndex
  simp only
  by_cases hnum : (s.lfltab d).lfinum = LF_INULL
  · rw [if_pos hnum]
    by_cases hlist : (s.file d).ld_ilist = LF_INULL
    · rw [if_pos hlist]
      have hnil : L.ilist (some (s.lfltab d).lfdirptr) = [] := hchain.head_eq_nil.mp hlist
      have hdl : (L.dlist (some (s.lfltab d).lfdirptr)).length = 0 := by
        have h : _ ≤ 16 * (L.ilist (some (s.lfltab d).lfdirptr)).length := V.file.blocks
        rw [hnil] at h
        exact Nat.le_zero.mp h
      have hzero : (s.lfltab d).lfpos.toNat / 8192 = 0 := by
        rcases hin with h | ⟨h, _⟩
        · rw [hnil] at h
          cases h
        · rw [← h, hnil]
          rfl
      rcases lfiballoc_spec V with ⟨hfree, he⟩ | ⟨i, rest, hfree, he⟩
      · rw [he]
        refine Or.inl ⟨rfl, hfree, ?_⟩
        rw [hnil]
        exact Nat.zero_le _
      · rw [he]
        obtain ⟨V₁, F₁⟩ := V.writeDir R ({ s.lf_dir with lfd_ifree := L.next i } : Lfdir).bytes
        obtain ⟨V₂, F₂⟩ := V₁.first hib hnil hfree
        have hsize := congrArg Ldentry.ld_size (OneFile.first_ld
          ⟨(s.disk.write ({ s.lf_dir with lfd_ifree := L.next i } : Lfdir).bytes LF_AREA_DIR).2, s.lf_dir, s.lfltab d⟩ i (L.next i))
        have hmine : (L.first (s.lfltab d).lfdirptr i rest).ilist (some (s.lfltab d).lfdirptr) = [i] := by
          rw [Layout.first]
          simp only [grown_self, hnil, List.nil_append]
        refine Or.inr ⟨_, L.first (s.lfltab d).lfdirptr i rest, 0, rfl, Sets.of_one (one_setEntry _) V₂ (F₁.trans F₂)
          (fun e he => setEntry_of_ne he _) rfl rfl ?_ (fun k n hk => ⟨hk, rfl⟩) id fun _ hlt => absurd hlt ?_,
          ⟨?_, ?_, ?_⟩, rfl, ?_, ?_, Nat.zero_le _, Or.inr hzero.symm⟩
        · exact hsize
        · -- the entry is not on the disk yet, and the file is empty
          have h : (s.file d).ld_size.toNat ≤ 512 * (L.dlist (some (s.lfltab d).lfdirptr)).length := V.file.size
          omega
        · rw [one_setEntry]
          exact V₂
        · rw [setEntry_self]
          exact hdb
        · rw [setEntry_self]
          change (Layout.ilist _ (some (s.lfltab d).lfdirptr))[0]? = _
          rw [hmine]
          rfl
        · rw [hmine, hnil]
          rfl
        · refine Or.inl ?_
          rw [hmine, hzero]
          exact Nat.zero_lt_one
    · rw [if_neg hlist]
      exact hload hlist
  · rw [if_neg hnum]
    obtain ⟨hmem, hblock⟩ := V.index.resolve_left fun h => hnum h.1
    obtain ⟨k, hk⟩ := List.mem_iff_getElem?.mp hmem
    have hoff : ((s.lfltab d).lfiblock).ib_offset.toNat = 8192 * k := by
      have h := (V.file.index k _ hk).1
      rw [← hblock] at h
      exact h
    by_cases hlt : (s.lfltab d).lfpos < (s.lfltab d).lfiblock.ib_offset
    · rw [if_pos hlt]
      refine hload fun h => ?_
      have hnil : L.ilist (some (s.lfltab d).lfdirptr) = [] := hchain.head_eq_nil.mp h
      change _ ∈ L.ilist (some (s.lfltab d).lfdirptr) at hmem
      rw [hnil] at hmem
      cases hmem
    · rw [if_neg hlt]
      rw [UInt32.lt_iff_toNat_lt] at hlt
      exact Or.inr ⟨s, L, k, rfl, Sets.refl V, ⟨V, hdb, hk⟩, rfl, length_eq_max hk, hin, by omega, Or.inl hib⟩

theorem Found.trans {k : Nat → Lfs → Prop} {result : Except Fault Lfs} (h : Sets S N d s t L L False) (hf : Found S N d t L k result) :
    Found S N d s L k result := by
  unfold Found at hf ⊢
  rw [h.dirptr, h.pos] at hf
  rcases hf with he | ⟨s', L', m, he, hs, ha, hd, hl, hw, hk⟩
  · exact Or.inl he
  · exact Or.inr ⟨s', L', m, he, h.trans hs, ha, hd, hl, hw, hk⟩

/-- The file gets one more index block behind the last one. -/
theorem extend_spec {k : Nat} {i : Int32} {rest : List Int32} (A : At S N d s L k) (R : Room S N)
    (hlen : (L.ilist (some (s.lfltab d).lfdirptr)).length = k + 1)
    (hfull : (L.dlist (some (s.lfltab d).lfdirptr)).length = 16 * (k + 1)) (hsmall : 8192 * (k + 1) < 2 ^ 32)
    (hfree : L.ilist none = i :: rest)
    (ht : t = { s with lf_dir := { s.lf_dir with lfd_ifree := L.next i } }.writeDir)
    (hs' : s' = { t with disk := (lfibput t.disk (s.lfltab d).lfinum { (s.lfltab d).lfiblock with ib_next := i }).2 }.setEntry d
      { s.lfltab d with
        lfiblock := lfibclear ((s.lfltab d).lfiblock.ib_offset + LF_IDATA), lfinum := i, lfibdirty := true, lfdnum := LF_DNULL }) :
    ∃ L', Sets S N d s s' L L' False ∧ At S N d s' L' (k + 1) ∧ L'.dlist = L.dlist ∧
      (L'.ilist (some (s.lfltab d).lfdirptr)).length = k + 2 := by
  have hlast : L.ilist (some (s.lfltab d).lfdirptr) =
      (L.ilist (some (s.lfltab d).lfdirptr)).take k ++ [(s.lfltab d).lfinum] := by
    obtain ⟨hlt, hget⟩ := List.getElem?_eq_some_iff.mp A.here
    rw [← hget, List.take_append_getElem hlt, List.take_of_length_le (Nat.le_of_eq hlen)]
  have htake : ((L.ilist (some (s.lfltab d).lfdirptr)).take k).length = k := by
    rw [List.length_take, hlen]
    omega
  obtain ⟨V₁, F₁⟩ := A.view.writeDir R ({ s.lf_dir with lfd_ifree := L.next i } : Lfdir).bytes
  obtain ⟨V₂, F₂⟩ := V₁.extend R A.clean hlast (by rw [htake]; exact hfull) (by rw [htake]; exact hsmall) hfree
  subst hs' ht
  have hmine : (L.extend (s.lfltab d).lfdirptr (s.lfltab d).lfinum i rest).ilist (some (s.lfltab d).lfdirptr) =
      L.ilist (some (s.lfltab d).lfdirptr) ++ [i] := by
    simp only [Layout.extend, grown_self]
  refine ⟨L.extend (s.lfltab d).lfdirptr (s.lfltab d).lfinum i rest, Sets.of_one (one_setEntry _) V₂ (F₁.trans F₂)
    (fun e he => setEntry_of_ne he _) rfl rfl rfl (fun k n hk => ⟨hk, rfl⟩) id fun hs _ => Saved.written hs.valid ?_,
    ⟨?_, ?_, ?_⟩, rfl, ?_⟩
  · have hb : ({ s with lf_dir := { s.lf_dir with lfd_ifree := L.next i } } : Lfs).writeDir.disk.bad = false := V₁.good
    exact (lfibput_sector hb ((A.view.irange _ (List.mem_append_left _ (List.mem_of_getElem? A.here))).sect_ne_dir R).symm _).trans
      (write_self A.view.good _ _)
  · rw [one_setEntry]
    exact V₂
  · rw [setEntry_self]
    exact A.clean
  · rw [setEntry_self]
    change (Layout.ilist _ (some (s.lfltab d).lfdirptr))[k + 1]? = _
    rw [hmine, ← hlen, List.getElem?_concat_length]
  · rw [hmine, List.length_append, hlen]
    rfl

/-- The data block in memory is forgotten. -/
theorem dropData_spec {k : Nat} (A : At S N d s L k) :
    Sets S N d s (s.setEntry d { s.lfltab d with lfdnum := LF_DNULL }) L L False ∧
      At S N d (s.setEntry d { s.lfltab d with lfdnum := LF_DNULL }) L k ∧
      ((s.setEntry d { s.lfltab d with lfdnum := LF_DNULL }).lfltab d).lfibdirty = (s.lfltab d).lfibdirty := by
  have hsets : Sets S N d s (s.setEntry d { s.lfltab d with lfdnum := LF_DNULL }) L L False :=
    Sets.of_same (one_setEntry _) (A.view.dropData A.clean) (fun e he => setEntry_of_ne he _) rfl rfl rfl rfl fun hs =>
      hs.frame rfl rfl rfl
  refine ⟨hsets, ⟨hsets.view, ?_, ?_⟩, ?_⟩
  · rw [setEntry_self]
    exact A.clean
  · rw [setEntry_self]
    exact A.here
  · rw [setEntry_self]

/-- The loop of `lfsetup` stops at the index block of the position. The induction is on the number of steps that are left. -/
theorem nextIndex_spec (R : Room S N) {n k K : Nat} (A : At S N d s L k) (hK : (s.lfltab d).lfpos.toNat / 8192 = K)
    (hin : Within L (s.lfltab d).lfdirptr (s.lfltab d).lfpos) (hk : k ≤ K) (hn : K - k < n)
    (hib : (s.lfltab d).lfibdirty = false ∨ k = K) : Found S N d s L (fun m _ => m = K) (nextIndex n s d) := by
  induction n generalizing s L k with
  | zero => exact absurd hn (Nat.not_lt_zero _)
  | succ n ih =>
    have hblock : (s.lfltab d).lfiblock = L.ix (s.lfltab d).lfinum := A.view.block_eq (List.mem_of_getElem? A.here)
    have hoff : (s.lfltab d).lfiblock.ib_offset.toNat = 8192 * k := by
      rw [hblock]
      exact (A.view.file.index k _ A.here).1
    have hcond : (s.lfltab d).lfpos &&& ~~~LF_IMASK > (s.lfltab d).lfiblock.ib_offset ↔ k < K := by
      rw [gt_iff_lt, UInt32.lt_iff_toNat_lt, and_not_imask, hoff]
      omega
    have hpos : (s.lfltab d).lfpos.toNat < 2 ^ 32 := UInt32.toNat_lt _
    unfold nextIndex
    simp only
    by_cases hlt : k < K
    · rw [if_pos (hcond.mpr hlt)]
      have hdrop : Table.Chain L.next LF_INULL (s.lfltab d).lfiblock.ib_next
          ((L.ilist (some (s.lfltab d).lfdirptr)).drop (k + 1)) := by
        rw [hblock]
        exact A.view.file.chain.drop A.here
      by_cases hnull : (s.lfltab d).lfiblock.ib_next = LF_INULL
      · -- the last index block of the file: one more is allocated
        rw [if_pos hnull]
        have hlen : (L.ilist (some (s.lfltab d).lfdirptr)).length = k + 1 := by
          have h1 := List.drop_eq_nil_iff.mp (hdrop.head_eq_nil.mp hnull)
          have h2 : k < (L.ilist (some (s.lfltab d).lfdirptr)).length := (List.getElem?_eq_some_iff.mp A.here).1
          omega
        obtain ⟨hlast, hfull⟩ : k + 1 = K ∧ (L.dlist (some (s.lfltab d).lfdirptr)).length = 16 * (k + 1) := by
          rcases hin with h | ⟨h1, h2⟩
          · omega
          · exact ⟨by omega, by omega⟩
        rcases lfiballoc_spec A.view with ⟨hfree, he⟩ | ⟨i, rest, hfree, he⟩
        · rw [he]
          refine Or.inl ⟨rfl, hfree, ?_⟩
          omega
        · rw [he]
          obtain ⟨L₁, h1, h2, h3, h4⟩ := extend_spec A R hlen hfull (by omega) hfree rfl rfl
          have hin' : Within L₁ (s.lfltab d).lfdirptr (s.lfltab d).lfpos := Or.inl (by omega)
          have hfound := ih h2 (by rw [h1.pos, hK]) (by rw [h1.dirptr, h1.pos]; exact hin') (by omega) (by omega) (Or.inr hlast)
          unfold Found at hfound
          rw [h1.dirptr, h1.pos] at hfound
          rcases hfound with ⟨_, _, hle⟩ | ⟨s', L', m, he', hs, ha, hd, hl, hw, rfl⟩
          · omega
          · refine Or.inr ⟨s', L', m, he', h1.trans hs, ha, hd.trans h3, ?_, hw, rfl⟩
            rw [hl, h4, hlen]
            omega
      · -- the next index block is read, and the data block forgotten
        rw [if_neg hnull]
        have hnext : (L.ilist (some (s.lfltab d).lfdirptr))[k + 1]? = some (s.lfltab d).lfiblock.ib_next := by
          cases hd : (L.ilist (some (s.lfltab d).lfdirptr)).drop (k + 1) with
          | nil => exact absurd (hdrop.head_eq_nil.mpr hd) hnull
          | cons y l =>
            rw [hd] at hdrop
            have h : ((L.ilist (some (s.lfltab d).lfdirptr)).drop (k + 1))[0]? = (L.ilist (some (s.lfltab d).lfdirptr))[k + 1]? :=
              List.getElem?_drop
            rw [hd] at h
            rw [hdrop.1]
            exact h.symm
        obtain ⟨h1, h2, h3⟩ := loadIndex_spec A.view (hib.resolve_right (Nat.ne_of_lt hlt)) A.clean hnext
        obtain ⟨h4, h5, h6⟩ := dropData_spec h2
        refine Found.trans (h1.trans h4) (ih h5 (by rw [h4.pos, h1.pos, hK]) ?_ (by omega) (by omega) (Or.inl (h6.trans h3)))
        rw [h4.dirptr, h1.dirptr, h4.pos, h1.pos]
        exact hin
    · rw [if_neg (fun h => hlt (hcond.mp h))]
      exact Or.inr ⟨s, L, k, rfl, Sets.refl A.view, A, rfl, length_eq_max A.here, hin, by omega⟩

/-! ## The data block -/

/-- `lfdballoc` takes the first block of the free list, if there is one. -/
theorem lfdballoc_spec (V : View S N (s.one d) L False) (hd : (s.lfltab d).lfdbdirty = false) (b : Sector) :
    L.dlist none = [] ∧ s.lfdballoc b = .error .noDataBlocks ∨
      ∃ n rest, L.dlist none = n :: rest ∧
        s.lfdballoc b = .ok (n, dfill, { s with lf_dir := { s.lf_dir with lfd_dfree := L.nextdb n } }.writeDir) := by
  have hchain : Table.Chain L.nextdb LF_DNULL s.lf_dir.lfd_dfree (L.dlist none) := V.dfree
  cases hfree : L.dlist none with
  | nil =>
    refine Or.inl ⟨rfl, ?_⟩
    rw [hfree] at hchain
    exact if_pos hchain
  | cons n rest =>
    refine Or.inr ⟨n, rest, rfl, ?_⟩
    rw [hfree] at hchain
    obtain ⟨he, hne, _⟩ := hchain
    have hdat : L.dat n = s.disk.sector n := V.data_eq hd (List.mem_append_right _ (hfree ▸ List.mem_cons_self))
    have hgood : s.disk.bad = false := V.good
    have hok : ¬OK = SYSERR := by decide
    rw [lfdballoc, he, if_neg hne, read_eq hgood]
    simp only [if_neg hok, Layout.nextdb, hdat]

/-- The file gets one more data block behind the last one. -/
theorem append_spec {k : Nat} {j : Fin 16} {n : Int32} {rest : List Int32} (A : At S N d s L k) (R : Room S N)
    (hlen : (L.dlist (some (s.lfltab d).lfdirptr)).length = 16 * k + j) (hfree : L.dlist none = n :: rest) (b : Nat)
    (ht : t = { s with lf_dir := { s.lf_dir with lfd_dfree := L.nextdb n } }.writeDir)
    (hs' : s' = t.setEntry d { s.lfltab d with
      lfdblock := dfill, lfdnum := n, lfbyte := b, lfibdirty := true
      lfiblock := { (s.lfltab d).lfiblock with ib_dba := Function.update (s.lfltab d).lfiblock.ib_dba j n } }) :
    ∃ L', Sets S N d s s' L L' True ∧ L'.ilist = L.ilist ∧
      (L'.dlist (some (s.lfltab d).lfdirptr)).length = 16 * k + j + 1 ∧
      (L'.dlist (some (s.lfltab d).lfdirptr))[16 * k + (j : Nat)]? = some (s'.lfltab d).lfdnum ∧ (s'.lfltab d).lfbyte = b := by
  obtain ⟨V₁, F₁⟩ := A.view.writeDir R ({ s.lf_dir with lfd_dfree := L.nextdb n } : Lfdir).bytes
  obtain ⟨V₂, F₂⟩ := V₁.append A.clean A.here hlen hfree b
  obtain ⟨_, hout, _, _⟩ := V₁.free_data hfree
  subst hs' ht
  have hmine : (L.append (s.lfltab d).lfdirptr (s.lfltab d).lfinum j n rest).dlist (some (s.lfltab d).lfdirptr) =
      L.dlist (some (s.lfltab d).lfdirptr) ++ [n] := by
    simp only [Layout.append, grown_self]
  refine ⟨L.append (s.lfltab d).lfdirptr (s.lfltab d).lfinum j n rest, Sets.of_one (one_setEntry _) V₂ (F₁.trans F₂)
    (fun e he => setEntry_of_ne he _) rfl rfl rfl (fun k m hk => ?_) id fun hs _ => Saved.written hs.valid (write_self A.view.good _ _),
    rfl, ?_, ?_, ?_⟩
  · rw [hmine, List.getElem?_append_left (List.getElem?_eq_some_iff.mp hk).1]
    refine ⟨hk, Function.update_of_ne ?_ _ _⟩
    rintro rfl
    exact hout (List.mem_of_getElem? hk)
  · rw [hmine, List.length_append, hlen]
    rfl
  · rw [hmine, setEntry_self, ← hlen, List.getElem?_concat_length]
  · rw [setEntry_self]

/-- The data block of the position is in memory, and the byte pointer is at its byte. -/
theorem loadData_spec (R : Room S N) {K : Nat} (A : At S N d s L K) (hK : (s.lfltab d).lfpos.toNat / 8192 = K)
    (hpos : (s.lfltab d).lfpos.toNat ≤ 512 * (L.dlist (some (s.lfltab d).lfdirptr)).length) :
    (s.loadData d = .error .noDataBlocks ∧ NoData L (s.lfltab d).lfdirptr (s.lfltab d).lfpos) ∨
      ∃ s' L', s.loadData d = .ok s' ∧
        Sets S N d s s' L L' ((L.dlist (some (s.lfltab d).lfdirptr)).length ≤ (s.lfltab d).lfpos.toNat / 512) ∧ L'.ilist = L.ilist ∧
        (L'.dlist (some (s.lfltab d).lfdirptr)).length =
          max (L.dlist (some (s.lfltab d).lfdirptr)).length ((s.lfltab d).lfpos.toNat / 512 + 1) ∧
        (L'.dlist (some (s.lfltab d).lfdirptr))[(s.lfltab d).lfpos.toNat / 512]? = some (s'.lfltab d).lfdnum ∧
        (s'.lfltab d).lfbyte = (s.lfltab d).lfpos.toNat % 512 := by
  have hblock : (s.lfltab d).lfiblock = L.ix (s.lfltab d).lfinum := A.view.block_eq (List.mem_of_getElem? A.here)
  have hj : 16 * K + (dindex (s.lfltab d).lfpos : Nat) = (s.lfltab d).lfpos.toNat / 512 := by
    rw [dindex_val]
    omega
  have hdba : (s.lfltab d).lfiblock.ib_dba (dindex (s.lfltab d).lfpos) =
      (L.dlist (some (s.lfltab d).lfdirptr)).getD ((s.lfltab d).lfpos.toNat / 512) LF_DNULL := by
    rw [hblock, ← hj]
    exact (A.view.file.index K _ A.here).2 _
  have hbyte := and_dmask (s.lfltab d).lfpos
  unfold loadData
  simp only [hbyte]
  by_cases hlt : (s.lfltab d).lfpos.toNat / 512 < (L.dlist (some (s.lfltab d).lfdirptr)).length
  · -- the data block is there
    have hget := List.getElem?_eq_getElem hlt
    rw [List.getD_eq_getElem?_getD, hget, Option.getD_some] at hdba
    have hmem := List.mem_of_getElem? hget
    have hne := (A.view.drange _ (List.mem_append_left _ hmem)).ne_null
    rw [hdba, if_neg hne]
    by_cases hnum : (L.dlist (some (s.lfltab d).lfdirptr))[(s.lfltab d).lfpos.toNat / 512] ≠ (s.lfltab d).lfdnum
    · rw [if_pos hnum]
      obtain ⟨V, F⟩ := A.view.loadData A.clean hmem ((s.lfltab d).lfpos.toNat % 512)
      refine Or.inr ⟨_, L, rfl, Sets.of_same (one_setEntry _) ⟨V.imp False.elim, F⟩ (fun e he => setEntry_of_ne he _) rfl rfl rfl rfl
        fun hs => hs.frame rfl rfl rfl, rfl, length_eq_max hget, ?_, ?_⟩
      · rw [setEntry_self, hget]
      · rw [setEntry_self]
    · rw [if_neg hnum]
      obtain ⟨V, F⟩ := A.view.setByte ((s.lfltab d).lfpos.toNat % 512)
      refine Or.inr ⟨_, L, rfl, Sets.of_same (one_setEntry _) ⟨V.imp False.elim, F⟩ (fun e he => setEntry_of_ne he _) rfl rfl rfl rfl
        fun hs => hs.frame rfl rfl rfl, rfl, length_eq_max hget, ?_, ?_⟩
      · rw [setEntry_self, hget]
        exact congrArg some (not_not.mp hnum)
      · rw [setEntry_self]
  · -- the position is behind the last data block
    rw [List.getD_eq_default _ _ (Nat.le_of_not_lt hlt)] at hdba
    rw [hdba, if_pos rfl]
    rcases lfdballoc_spec A.view A.clean (s.lfltab d).lfdblock with ⟨hfree, he⟩ | ⟨n, rest, hfree, he⟩
    · rw [he]
      exact Or.inl ⟨rfl, hfree, Nat.le_of_not_lt hlt⟩
    · rw [he]
      obtain ⟨L', h1, hl, hlen, h2, h3⟩ := append_spec A R (j := dindex (s.lfltab d).lfpos) (by omega) hfree
        ((s.lfltab d).lfpos.toNat % 512) rfl rfl
      refine Or.inr ⟨_, L', rfl, h1.imp fun _ => Nat.le_of_not_lt hlt, hl, ?_, ?_, h3⟩
      · omega
      · rw [← hj]
        exact h2

/-! ## The whole routine -/

/-- The data block of the position is in memory, and the byte pointer is at its byte. -/
structure Ready (d : Fin 6) (s : Lfs) (L : Layout) : Prop where
  block : (L.dlist (some (s.lfltab d).lfdirptr))[(s.lfltab d).lfpos.toNat / 512]? = some (s.lfltab d).lfdnum
  byte : (s.lfltab d).lfbyte = (s.lfltab d).lfpos.toNat % 512

/-- The position is behind the last data block of the file. -/
def Behind (d : Fin 6) (s : Lfs) (L : Layout) : Prop :=
  (L.dlist (some (s.lfltab d).lfdirptr)).length ≤ (s.lfltab d).lfpos.toNat / 512

/-- The position is in the file, so an index block is there for it or comes next. -/
theorem View.within {x : OneFile} (V : View S N x L P) : Within L x.lf.lfdirptr x.lf.lfpos := by
  have h1 := V.pos
  have h2 := V.file.size
  have h3 := V.file.blocks
  by_cases h : x.lf.lfpos.toNat / 8192 < (L.ilist (some x.lf.lfdirptr)).length
  · exact Or.inl h
  · exact Or.inr ⟨by omega, by omega⟩

/-- The blocks for the position are there. -/
structure Reaches (L L' : Layout) (f : Fin 20) (pos : UInt32) : Prop where
  index : (L'.ilist (some f)).length = max (L.ilist (some f)).length (pos.toNat / 8192 + 1)
  data : (L'.dlist (some f)).length = max (L.dlist (some f)).length (pos.toNat / 512 + 1)

/-- What `lfsetup` leaves: the block of the position is in memory, or the routine has panicked because the free lists lack a block
that it needs. -/
def Prepared (S N : Nat) (d : Fin 6) (s : Lfs) (L : Layout) (result : Except Fault Lfs) : Prop :=
  (result = .error .noIndexBlocks ∧ NoIndex L (s.lfltab d).lfdirptr (s.lfltab d).lfpos) ∨
    (result = .error .noDataBlocks ∧ NoData L (s.lfltab d).lfdirptr (s.lfltab d).lfpos ∧
      ¬NoIndex L (s.lfltab d).lfdirptr (s.lfltab d).lfpos) ∨
    ∃ s' L', result = .ok s' ∧ Sets S N d s s' L L' (Behind d s L) ∧ Ready d s' L' ∧
      Reaches L L' (s.lfltab d).lfdirptr (s.lfltab d).lfpos

/-- The file has got an index block when it needed one. -/
theorem Frame.not_noIndex {x x' : OneFile} {pos : UInt32} (F : Frame S N x x' L L')
    (hl : (L'.ilist (some x.lf.lfdirptr)).length = max (L.ilist (some x.lf.lfdirptr)).length (pos.toNat / 8192 + 1)) :
    ¬NoIndex L x.lf.lfdirptr pos := by
  rintro ⟨hfree, hle⟩
  have h := F.iperm.length_eq
  rw [Layout.iarea, Layout.iarea, hfree, List.append_nil, List.length_append, hl] at h
  omega

/-- `lfsetup` takes the block of the position into memory, or panics. -/
theorem lfsetup_spec (V : View S N (s.one d) L False) (R : Room S N) (hu : s.used d) : Prepared S N d s L (s.lfsetup d) := by
  obtain ⟨h1, htab, _⟩ := flush_spec V R hu rfl
  unfold lfsetup
  simp only
  generalize (if (s.lfltab d).lfibdirty || (s.lfltab d).lfdbdirty then (s.lfflush d).2 else s) = t at h1 htab ⊢
  have hib : (t.lfltab d).lfibdirty = false := by rw [htab]
  have hdb : (t.lfltab d).lfdbdirty = false := by rw [htab]
  have hfirst := firstIndex_spec h1.view R hib hdb h1.view.within
  unfold Found at hfirst
  rw [h1.dirptr, h1.pos] at hfirst
  rcases hfirst with ⟨he, hno⟩ | ⟨u, L₁, k, he, h2, A, hd, hl, hin, hk, hclean⟩
  · rw [he]
    exact Or.inl ⟨rfl, hno⟩
  · rw [he]
    have hlt : (s.lfltab d).lfpos.toNat < 2 ^ 32 := UInt32.toNat_lt _
    have hptr := h2.dirptr.trans h1.dirptr
    have hpos := h2.pos.trans h1.pos
    have hnext := nextIndex_spec R (n := 524289) A rfl (by rw [hptr, hpos]; exact hin) (by rw [hpos]; exact hk)
      (by rw [hpos]; omega) (by rw [hpos]; exact hclean)
    unfold Found at hnext
    rw [hptr, hpos] at hnext
    rcases hnext with ⟨he', hfree, hle⟩ | ⟨v, L₂, m, he', h3, A', hd', hl', _, rfl⟩
    · -- no index block was allocated before
      simp only [he']
      have hperm := (h1.frame.trans h2.frame).iperm.length_eq
      change (L₁.iarea (s.lfltab d).lfdirptr).length = (L.iarea (s.lfltab d).lfdirptr).length at hperm
      rw [Layout.iarea, Layout.iarea, hfree, List.append_nil, List.length_append] at hperm
      have hwithin : Within L (s.lfltab d).lfdirptr (s.lfltab d).lfpos := V.within
      have hsame : (L₁.ilist (some (s.lfltab d).lfdirptr)).length = (L.ilist (some (s.lfltab d).lfdirptr)).length := by
        rcases hwithin with h | ⟨h, _⟩ <;> omega
      exact Or.inl ⟨rfl, List.length_eq_zero_iff.mp (by omega), hsame ▸ hle⟩
    · simp only [he']
      have hsets := (h1.trans h2).trans h3
      have hdl : L₂.dlist = L.dlist := hd'.trans hd
      have hilen : (L₂.ilist (some (s.lfltab d).lfdirptr)).length =
          max (L.ilist (some (s.lfltab d).lfdirptr)).length ((s.lfltab d).lfpos.toNat / 8192 + 1) := by omega
      have hno : ¬NoIndex L (s.lfltab d).lfdirptr (s.lfltab d).lfpos := hsets.frame.not_noIndex hilen
      have hsize : (v.lfltab d).lfpos.toNat ≤ 512 * (L₂.dlist (some (v.lfltab d).lfdirptr)).length :=
        A'.view.pos.trans A'.view.file.size
      have hload := loadData_spec R A' (by rw [hsets.pos]) hsize
      rw [hsets.dirptr, hsets.pos, NoData, hdl] at hload
      rcases hload with ⟨he'', hnone⟩ | ⟨s', L', he'', h4, hil, hdlen, hblock, hbyte⟩
      · rw [he'']
        exact Or.inr (Or.inl ⟨rfl, hnone, hno⟩)
      · refine Or.inr (Or.inr ⟨s', L', he'', (hsets.trans h4), ⟨?_, ?_⟩, ⟨?_, hdlen⟩⟩)
        · rw [h4.dirptr, h4.pos, hsets.dirptr, hsets.pos]
          exact hblock
        · rw [h4.pos, hsets.pos]
          exact hbyte
        · rw [hil]
          exact hilen

/-- The same for a routine that calls `lfsetup` when the byte pointer is beyond the data block. -/
theorem prepare_spec (V : View S N (s.one d) L False) (R : Room S N) (hu : s.used d)
    (hready : (s.lfltab d).lfbyte < 512 → Ready d s L) : Prepared S N d s L (s.prepare d) := by
  unfold prepare
  by_cases h : (s.lfltab d).lfbyte ≥ LF_BLKSIZ
  · rw [if_pos h]
    exact lfsetup_spec V R hu
  · rw [if_neg h]
    have hr := hready (Nat.lt_of_not_le h)
    have hblocks : (L.dlist (some (s.lfltab d).lfdirptr)).length ≤ 16 * (L.ilist (some (s.lfltab d).lfdirptr)).length := V.file.blocks
    have hlen := (List.getElem?_eq_some_iff.mp hr.block).1
    exact Or.inr (Or.inr ⟨s, L, rfl, Sets.refl (V.imp False.elim), hr, by omega, by omega⟩)

end Setup

end Lfs

end Xinu
