import Xinu.Lfs.Setup

/-!
# Reading and writing characters

`lflputc` replaces or appends the byte at the position, `lflgetc` reads it, and both advance the position by one.
-/

namespace Xinu

namespace Lfs

/-- The byte number `p` of a file. -/
def Layout.byteAt (L : Layout) (f : Fin 20) (p : Nat) : UInt8 :=
  L.dat ((L.dlist (some f)).getD (p / 512) LF_DNULL) ⟨p % 512, Nat.mod_lt _ (by decide)⟩

section Characters

variable {S N : Nat} {d : Fin 6} {s s' t : Lfs} {L L' L₁ : Layout} {P : Prop} {x : OneFile} {ch : UInt8}

/-- The data blocks of the disk are few enough for the sizes of files to be 32-bit numbers. -/
theorem length_le_of_data {l : List Int32} (hnd : l.Nodup) (h : ∀ n ∈ l, IsData S N n) : l.length ≤ N - S - 1 := by
  have hmap : (l.map fun n => n.toInt.toNat).Nodup := by
    refine List.Nodup.map_on (fun m hm n hn e => Int32.toInt_inj.mp ?_) hnd
    have h1 := (h m hm).1
    have h2 := (h n hn).1
    omega
  have hsub : (l.map fun n => n.toInt.toNat) ⊆ List.range' (S + 1) (N - S - 1) := by
    intro k hk
    obtain ⟨n, hn, rfl⟩ := List.mem_map.mp hk
    obtain ⟨h1, h2⟩ := h n hn
    rw [List.mem_range'_1]
    omega
  have hlen := (List.subperm_of_subset hmap hsub).length_le
  rwa [List.length_map, List.length_range'] at hlen

theorem View.size_small (V : View S N x L P) (R : Room S N) : 512 * (L.dlist (some x.lf.lfdirptr)).length < 2 ^ 32 := by
  have h := length_le_of_data (S := S) (N := N) (List.nodup_append.mp V.dnodup).1 fun n hn => V.drange n (List.mem_append_left _ hn)
  have hN := R.small
  omega

/-! ## One character -/

/-- The end of `lflputc`. -/
def OneFile.put (x : OneFile) (ch : UInt8) : OneFile where
  disk := x.disk
  dir :=
    if x.lf.lfpos ≥ x.ld.ld_size then
      { x.dir with lfd_files := Function.update x.dir.lfd_files x.lf.lfdirptr { x.ld with ld_size := x.ld.ld_size + 1 } }
    else x.dir
  lf := { x.lf with
    lfdblock := fun i => if (i : Nat) = x.lf.lfbyte then ch else x.lf.lfdblock i
    lfbyte := x.lf.lfbyte + 1, lfpos := x.lf.lfpos + 1, lfdbdirty := true }

theorem OneFile.put_ld (x : OneFile) (ch : UInt8) :
    (x.put ch).ld = { x.ld with ld_size := if x.lf.lfpos ≥ x.ld.ld_size then x.ld.ld_size + 1 else x.ld.ld_size } := by
  rw [OneFile.put, OneFile.ld]
  split
  · exact Function.update_self _ _ _
  · rfl

theorem putByte_one (s : Lfs) (d : Fin 6) (ch : UInt8) : (s.putByte d ch).one d = (s.one d).put ch := by
  unfold putByte
  rw [one_setEntry]
  unfold OneFile.put
  change (⟨_, _, _⟩ : OneFile) = ⟨_, if (s.lfltab d).lfpos ≥ (s.file d).ld_size then _ else _, _⟩
  split
  · rfl
  · rfl

/-- The layout when the data block in memory has another content. -/
def Layout.write (L : Layout) (n : Int32) (b : Sector) : Layout := { L with dat := Function.update L.dat n b }

/-- The position behind the byte is in the blocks of the file, and the size is at least it. -/
theorem View.put_size (V : View S N x L P) (R : Room S N)
    (hblock : (L.dlist (some x.lf.lfdirptr))[x.lf.lfpos.toNat / 512]? = some x.lf.lfdnum) (ch : UInt8) :
    (x.put ch).lf.lfpos.toNat = x.lf.lfpos.toNat + 1 ∧
      (x.put ch).ld.ld_size.toNat = max x.ld.ld_size.toNat (x.lf.lfpos.toNat + 1) ∧
      x.lf.lfpos.toNat + 1 ≤ 512 * (L.dlist (some x.lf.lfdirptr)).length := by
  have hlen := (List.getElem?_eq_some_iff.mp hblock).1
  have hsmall := V.size_small R
  have hpos := V.pos
  have hone : (1 : UInt32).toNat = 1 := rfl
  refine ⟨?_, ?_, by omega⟩
  · change (x.lf.lfpos + 1).toNat = _
    rw [UInt32.toNat_add, hone]
    omega
  · rw [OneFile.put_ld]
    simp only [ge_iff_le, UInt32.le_iff_toNat_le]
    split
    · rw [UInt32.toNat_add, hone]
      omega
    · omega

/-- A byte is written to the data block in memory. -/
theorem View.put (V : View S N x L P) (R : Room S N)
    (hblock : (L.dlist (some x.lf.lfdirptr))[x.lf.lfpos.toNat / 512]? = some x.lf.lfdnum) (ch : UInt8) :
    View S N (x.put ch) (L.write x.lf.lfdnum (x.put ch).lf.lfdblock) False ∧
      Frame S N x (x.put ch) L (L.write x.lf.lfdnum (x.put ch).lf.lfdblock) := by
  have hmem := List.mem_of_getElem? hblock
  have harea : x.lf.lfdnum ∈ L.darea x.lf.lfdirptr := List.mem_append_left _ hmem
  have hsize := V.file.size
  obtain ⟨hnext, hnew, hroom⟩ := V.put_size R hblock ch
  have hself : (L.write x.lf.lfdnum (x.put ch).lf.lfdblock).dat x.lf.lfdnum = (x.put ch).lf.lfdblock := Function.update_self _ _ _
  have hdat : ∀ n, n ≠ x.lf.lfdnum → (L.write x.lf.lfdnum (x.put ch).lf.lfdblock).dat n = L.dat n := fun n hn =>
    Function.update_of_ne hn _ _
  refine ⟨⟨V.good, V.inodup, V.irange, V.dnodup, V.drange, ?_, ?_, ⟨?_, V.file.index, V.file.blocks, ?_⟩, V.icached, fun n hn => ?_,
    V.index, Or.inr ⟨hmem, hself.symm⟩, ?_⟩, ?_⟩
  · have hdir : (x.put ch).dir.lfd_ifree = x.dir.lfd_ifree := by
      rw [OneFile.put]
      split <;> rfl
    rw [hdir]
    exact V.ifree
  · have hdir : (x.put ch).dir.lfd_dfree = x.dir.lfd_dfree := by
      rw [OneFile.put]
      split <;> rfl
    rw [hdir]
    refine V.dfree.frame fun n hn => congrArg Sector.nextdb (hdat n ?_)
    rintro rfl
    exact (List.nodup_append.mp V.dnodup).2.2 _ hmem _ hn rfl
  · rw [OneFile.put_ld]
    exact V.file.chain
  · rw [hnew]
    change _ ≤ 512 * (L.dlist (some x.lf.lfdirptr)).length
    omega
  · by_cases he : n = x.lf.lfdnum
    · exact Or.inr ⟨Or.inl rfl, he.symm⟩
    · rw [hdat n he]
      exact Or.inl ((V.dcached n hn).resolve_right fun h => he h.2.symm)
  · rw [hnew, hnext]
    exact Nat.le_max_right _ _
  · have hfiles : ∀ g, g ≠ x.lf.lfdirptr → (x.put ch).dir.lfd_files g = x.dir.lfd_files g := by
      intro g hg
      rw [OneFile.put]
      split
      · exact Function.update_of_ne hg _ _
      · rfl
    have hnum : (x.put ch).dir.lfd_nfiles = x.dir.lfd_nfiles := by
      rw [OneFile.put]
      split <;> rfl
    refine ⟨rfl, rfl, rfl, rfl, rfl, hnum, hfiles, by rw [OneFile.put_ld], fun _ _ => rfl, fun _ _ => rfl, List.Perm.refl _,
      List.Perm.refl _, fun _ _ _ => ⟨rfl, rfl⟩, fun n _ hn => ⟨hdat n ?_, rfl⟩⟩
    rintro rfl
    exact hn harea

/-! ## What a call leaves -/

/-- The file has the blocks that its size needs, and no more. -/
structure Layout.Tight (L : Layout) (ld : Ldentry) (f : Fin 20) : Prop where
  index : (L.ilist (some f)).length = (ld.ld_size.toNat + 8191) / 8192
  data : (L.dlist (some f)).length = (ld.ld_size.toNat + 511) / 512

/-- A call has worked on the open file `d`. -/
structure Acts (S N : Nat) (d : Fin 6) (s s' : Lfs) (L L' : Layout) : Prop where
  view : View S N (s'.one d) L' False
  frame : Frame S N (s.one d) (s'.one d) L L'
  others : ∀ e, e ≠ d → s'.lfltab e = s.lfltab e
  present : s'.lf_dirpresent = s.lf_dirpresent
  ready : (s'.lfltab d).lfbyte < 512 → Ready d s' L'
  tight : L.Tight (s.file d) (s.lfltab d).lfdirptr → L'.Tight (s'.file d) (s.lfltab d).lfdirptr
  valid : lfscheck s.lf_dir = OK → lfscheck s'.lf_dir = OK
  saved : Saved s → Saved s'

theorem Acts.dirptr (h : Acts S N d s s' L L') : (s'.lfltab d).lfdirptr = (s.lfltab d).lfdirptr := h.frame.dirptr

theorem Acts.used (h : Acts S N d s s' L L') (hu : s.used d) : s'.used d := h.frame.state.trans hu

theorem Acts.refl (V : View S N (s.one d) L False) (hready : (s.lfltab d).lfbyte < 512 → Ready d s L) : Acts S N d s s L L :=
  ⟨V, Frame.refl _ _, fun _ _ => rfl, rfl, hready, id, id, id⟩

theorem Acts.trans (h : Acts S N d s t L L₁) (h' : Acts S N d t s' L₁ L') : Acts S N d s s' L L' :=
  ⟨h'.view, h.frame.trans h'.frame, fun e he => (h'.others e he).trans (h.others e he), h'.present.trans h.present, h'.ready,
    fun T => h.dirptr ▸ h'.tight (h.dirptr.symm ▸ h.tight T), h'.valid ∘ h.valid, h'.saved ∘ h.saved⟩

/-- The bytes of the file are the same behind `lfsetup`. -/
theorem Sets.byteAt (h : Sets S N d s t L L₁ P) {p : Nat}
    (hp : p / 512 < (L.dlist (some (s.lfltab d).lfdirptr)).length) :
    L₁.byteAt (s.lfltab d).lfdirptr p = L.byteAt (s.lfltab d).lfdirptr p := by
  obtain ⟨h1, h2⟩ := h.kept _ _ (List.getElem?_eq_getElem hp)
  rw [Layout.byteAt, Layout.byteAt, List.getD_eq_getElem?_getD, List.getD_eq_getElem?_getD, h1, List.getElem?_eq_getElem hp,
    Option.getD_some, h2]

/-- A position is in the block that is in memory exactly when that block is its one. -/
theorem Ready.getD_eq (h : Ready d s L) (hnd : (L.dlist (some (s.lfltab d).lfdirptr)).Nodup) {p : Nat}
    (hp : p / 512 < (L.dlist (some (s.lfltab d).lfdirptr)).length) :
    (L.dlist (some (s.lfltab d).lfdirptr)).getD (p / 512) LF_DNULL = (s.lfltab d).lfdnum ↔
      p / 512 = (s.lfltab d).lfpos.toNat / 512 := by
  rw [List.getD_eq_getElem?_getD, List.getElem?_eq_getElem hp, Option.getD_some]
  constructor
  · intro he
    refine (List.getElem?_inj hp hnd).mp ?_
    rw [h.block, List.getElem?_eq_getElem hp, he]
  · intro he
    refine Option.some.inj ?_
    rw [← h.block, ← List.getElem?_eq_getElem hp, he]

/-- The fields that `putByte` leaves. -/
theorem putByte_frame (s : Lfs) (d : Fin 6) (ch : UInt8) : (∀ e, e ≠ d → (s.putByte d ch).lfltab e = s.lfltab e) ∧
    (s.putByte d ch).lf_dirpresent = s.lf_dirpresent ∧ lfscheck (s.putByte d ch).lf_dir = lfscheck s.lf_dir := by
  refine ⟨fun e he => ?_, ?_, ?_⟩
  · unfold putByte
    rw [setEntry_of_ne he]
    split <;> rfl
  · unfold putByte setEntry
    simp only
    split <;> rfl
  · unfold putByte setEntry
    simp only
    split <;> rfl

/-- A byte behind the end of the file makes the directory dirty. -/
theorem putByte_saved (s : Lfs) (d : Fin 6) (ch : UInt8) (hv : lfscheck s.lf_dir = OK)
    (h : (s.lfltab d).lfpos.toNat < (s.file d).ld_size.toNat → Saved s) : Saved (s.putByte d ch) := by
  by_cases hlt : (s.lfltab d).lfpos.toNat < (s.file d).ld_size.toNat
  · have hge : ¬(s.lfltab d).lfpos ≥ (s.file d).ld_size := by
      rw [ge_iff_le, UInt32.le_iff_toNat_le]
      omega
    refine (h hlt).frame ?_ ?_ ?_ <;>
    · unfold putByte
      simp only [if_neg hge]
      rfl
  · have hge : (s.lfltab d).lfpos ≥ (s.file d).ld_size := by
      rw [ge_iff_le, UInt32.le_iff_toNat_le]
      omega
    refine Saved.dirty ?_ ?_
    · rw [(putByte_frame s d ch).2.2]
      exact hv
    · unfold putByte setEntry
      simp only [if_pos hge]

/-- The byte at the position is replaced or appended. -/
theorem putByte_spec (V : View S N (s.one d) L P) (R : Room S N) (hr : Ready d s L) (ch : UInt8) :
    ∃ L', View S N ((s.putByte d ch).one d) L' False ∧ Frame S N (s.one d) ((s.putByte d ch).one d) L L' ∧
      (((s.putByte d ch).lfltab d).lfbyte < 512 → Ready d (s.putByte d ch) L') ∧ L'.ilist = L.ilist ∧ L'.dlist = L.dlist ∧
      ((s.putByte d ch).lfltab d).lfpos.toNat = (s.lfltab d).lfpos.toNat + 1 ∧
      ((s.putByte d ch).file d).ld_size.toNat = max (s.file d).ld_size.toNat ((s.lfltab d).lfpos.toNat + 1) ∧
      ∀ p, p / 512 < (L.dlist (some (s.lfltab d).lfdirptr)).length → L'.byteAt (s.lfltab d).lfdirptr p =
        if p = (s.lfltab d).lfpos.toNat then ch else L.byteAt (s.lfltab d).lfdirptr p := by
  obtain ⟨V', F⟩ := V.put R hr.block ch
  obtain ⟨hpos, hsize, _⟩ := V.put_size R hr.block ch
  have hnd : (L.dlist (some (s.lfltab d).lfdirptr)).Nodup := (List.nodup_append.mp V.dnodup).1
  have hone := putByte_one s d ch
  have htab : (s.putByte d ch).lfltab d = ((s.one d).put ch).lf := congrArg OneFile.lf hone
  have hfile : (s.putByte d ch).file d = ((s.one d).put ch).ld := congrArg OneFile.ld hone
  have hblock : (s.lfltab d).lfdblock = _ := (V.data.resolve_left fun h => (V.drange _ (List.mem_append_left _
    (List.mem_of_getElem? hr.block))).ne_null h.1).2
  refine ⟨L.write (s.lfltab d).lfdnum ((s.one d).put ch).lf.lfdblock, hone ▸ V', hone ▸ F, fun hlt => ?_, rfl, rfl, ?_, ?_,
    fun p hp => ?_⟩
  · have hbyte : (s.lfltab d).lfbyte + 1 < 512 := by
      rw [htab] at hlt
      exact hlt
    have hmod := hr.byte
    have hpos' : ((s.one d).put ch).lf.lfpos.toNat = (s.lfltab d).lfpos.toNat + 1 := hpos
    refine ⟨?_, ?_⟩
    · rw [htab, hpos', show ((s.lfltab d).lfpos.toNat + 1) / 512 = (s.lfltab d).lfpos.toNat / 512 by omega]
      exact hr.block
    · rw [htab, hpos']
      change (s.lfltab d).lfbyte + 1 = _
      omega
  · rw [htab]
    exact hpos
  · rw [hfile]
    exact hsize
  · have hmod := hr.byte
    have hiff := hr.getD_eq hnd hp
    rw [Layout.byteAt, Layout.byteAt]
    change Function.update L.dat (s.lfltab d).lfdnum _ ((L.dlist (some (s.lfltab d).lfdirptr)).getD (p / 512) LF_DNULL) _ = _
    by_cases he : p / 512 = (s.lfltab d).lfpos.toNat / 512
    · rw [hiff.mpr he, Function.update_self]
      change (if p % 512 = (s.lfltab d).lfbyte then ch else (s.lfltab d).lfdblock _) = _
      rw [hblock]
      congr 1
      rw [hmod, eq_iff_iff]
      omega
    · rw [Function.update_of_ne (fun h => he (hiff.mp h)), if_neg (fun h => he (congrArg (· / 512) h))]

/-- A file that has the blocks for the position behind its last byte is tight. -/
theorem Reaches.tight {ld ld' : Ldentry} {f : Fin 20} {pos : UInt32} (h : Reaches L L' f pos) (T : L.Tight ld f)
    (hpos : pos.toNat ≤ ld.ld_size.toNat) (hsize : ld'.ld_size.toNat = max ld.ld_size.toNat (pos.toNat + 1)) : L'.Tight ld' f := by
  have h1 := h.index
  have h2 := h.data
  rw [T.index] at h1
  rw [T.data] at h2
  constructor <;> omega

/-- The file has got a data block when it needed one. -/
theorem Frame.not_noData {x x' : OneFile} {pos : UInt32} (F : Frame S N x x' L L')
    (hl : (L'.dlist (some x.lf.lfdirptr)).length = max (L.dlist (some x.lf.lfdirptr)).length (pos.toNat / 512 + 1)) :
    ¬NoData L x.lf.lfdirptr pos := by
  rintro ⟨hfree, hle⟩
  have h := F.dperm.length_eq
  rw [Layout.darea, Layout.darea, hfree, List.append_nil, List.length_append, hl] at h
  omega

/-- `lflputc` replaces or appends the byte at the position, or it panics because the free lists lack a block that it needs. -/
theorem lflputc_spec (V : View S N (s.one d) L False) (R : Room S N) (hu : s.used d)
    (hready : (s.lfltab d).lfbyte < 512 → Ready d s L) (ch : UInt8) :
    (s.lflputc d ch = .error .noIndexBlocks ∧ NoIndex L (s.lfltab d).lfdirptr (s.lfltab d).lfpos) ∨
    (s.lflputc d ch = .error .noDataBlocks ∧ NoData L (s.lfltab d).lfdirptr (s.lfltab d).lfpos ∧
      ¬NoIndex L (s.lfltab d).lfdirptr (s.lfltab d).lfpos) ∨
      ∃ s' L', s.lflputc d ch = .ok (OK, s') ∧ Acts S N d s s' L L' ∧ ¬NoIndex L (s.lfltab d).lfdirptr (s.lfltab d).lfpos ∧
        ¬NoData L (s.lfltab d).lfdirptr (s.lfltab d).lfpos ∧ (s'.lfltab d).lfpos.toNat = (s.lfltab d).lfpos.toNat + 1 ∧
        (s'.file d).ld_size.toNat = max (s.file d).ld_size.toNat ((s.lfltab d).lfpos.toNat + 1) ∧
        ∀ p, p < (s'.file d).ld_size.toNat → L'.byteAt (s.lfltab d).lfdirptr p =
          if p = (s.lfltab d).lfpos.toNat then ch else L.byteAt (s.lfltab d).lfdirptr p := by
  have hin : (s.lfltab d).lfpos.toNat ≤ (s.file d).ld_size.toNat := V.pos
  have hpos : ¬(s.lfltab d).lfpos > (s.file d).ld_size := by
    rw [gt_iff_lt, UInt32.lt_iff_toNat_lt]
    exact Nat.not_lt_of_le hin
  unfold lflputc
  rw [if_neg (not_not.mpr hu), if_neg hpos]
  rcases prepare_spec V R hu hready with ⟨he, hno⟩ | ⟨he, hno⟩ | ⟨t, L₁, he, h1, hr, hreach⟩
  · rw [he]
    exact Or.inl ⟨rfl, hno⟩
  · rw [he]
    exact Or.inr (Or.inl ⟨rfl, hno⟩)
  · rw [he]
    obtain ⟨L', V', F', hready', hil, hdl, h3, h4, h5⟩ := putByte_spec h1.view R hr ch
    obtain ⟨hothers, hpresent, hvalid⟩ := putByte_frame t d ch
    have hreach' : Reaches L L' (s.lfltab d).lfdirptr (s.lfltab d).lfpos := ⟨hil ▸ hreach.index, hdl ▸ hreach.data⟩
    have hsize₁ : ((t.putByte d ch).file d).ld_size.toNat = max (s.file d).ld_size.toNat ((s.lfltab d).lfpos.toNat + 1) := by
      rw [h4, h1.pos, h1.size]
    have hacts : Acts S N d s (t.putByte d ch) L L' :=
      ⟨V', h1.frame.trans F', fun e he => (hothers e he).trans (h1.others e he), hpresent.trans h1.present, hready',
        fun T => hreach'.tight T hin hsize₁, fun hv => hvalid.trans (h1.valid hv),
        fun hs => putByte_saved t d ch (h1.valid hs.valid) fun hlt => h1.saved hs (by rw [← h1.pos, ← h1.size]; exact hlt)⟩
    refine Or.inr (Or.inr ⟨t.putByte d ch, L', rfl, hacts, h1.frame.not_noIndex hreach.index, h1.frame.not_noData hreach.data,
      by rw [h3, h1.pos], hsize₁, fun p hp => ?_⟩)
    have hsize : (s.file d).ld_size.toNat ≤ 512 * (L.dlist (some (s.lfltab d).lfdirptr)).length := V.file.size
    have hlt : (t.lfltab d).lfpos.toNat / 512 < (L₁.dlist (some (t.lfltab d).lfdirptr)).length :=
      (List.getElem?_eq_some_iff.mp hr.block).1
    have hsize' : (t.file d).ld_size.toNat ≤ 512 * (L₁.dlist (some (t.lfltab d).lfdirptr)).length := h1.view.file.size
    rw [h4] at hp
    have h := h5 p (by omega)
    rw [h1.pos, h1.size] at hp
    rw [h1.dirptr, h1.pos] at h
    rw [h]
    split
    · rfl
    · exact h1.byteAt (by omega)

/-- The byte at the position is read. -/
theorem getByte_spec (V : View S N (s.one d) L False) (hr : Ready d s L)
    (hlt : (s.lfltab d).lfpos.toNat < (s.file d).ld_size.toNat) :
    (s.getByte d).1 = ((L.byteAt (s.lfltab d).lfdirptr (s.lfltab d).lfpos.toNat).toNat : Int) ∧
      Acts S N d s (s.getByte d).2 L L ∧ ((s.getByte d).2.lfltab d).lfpos.toNat = (s.lfltab d).lfpos.toNat + 1 ∧
      (s.getByte d).2.lf_dir = s.lf_dir := by
  have hbyte := hr.byte
  have hone : (1 : UInt32).toNat = 1 := rfl
  have hsmall : (s.file d).ld_size.toNat < 2 ^ 32 := UInt32.toNat_lt _
  have hpos : ((s.lfltab d).lfpos + 1).toNat = (s.lfltab d).lfpos.toNat + 1 := by
    rw [UInt32.toNat_add, hone]
    omega
  have hblock : (s.lfltab d).lfdblock = L.dat (s.lfltab d).lfdnum := (V.data.resolve_left fun h => (V.drange _ (List.mem_append_left _
    (List.mem_of_getElem? hr.block))).ne_null h.1).2
  refine ⟨?_, ⟨?_, ?_, fun e he => setEntry_of_ne he _, rfl, fun hb => ?_, fun T => ?_, id, fun hs => hs.frame rfl rfl rfl⟩, ?_, rfl⟩
  · have hb : (s.lfltab d).lfbyte < 512 := by omega
    unfold getByte
    simp only [Layout.byteAt, List.getD_eq_getElem?_getD, hr.block, Option.getD_some, hblock, hbyte]
    exact dif_pos (hbyte ▸ hb)
  · unfold getByte
    rw [one_setEntry]
    exact ⟨V.good, V.inodup, V.irange, V.dnodup, V.drange, V.ifree, V.dfree, V.file, V.icached, V.dcached, V.index, V.data,
      (Nat.le_of_eq hpos).trans hlt⟩
  · unfold getByte
    rw [one_setEntry]
    exact Frame.of_disk rfl rfl rfl rfl rfl rfl (fun _ _ _ => rfl) (fun _ _ _ => rfl)
  · unfold getByte at hb ⊢
    rw [setEntry_self] at hb
    have hb' : (s.lfltab d).lfbyte + 1 < 512 := hb
    refine ⟨?_, ?_⟩
    · rw [setEntry_self]
      simp only
      rw [hpos, show ((s.lfltab d).lfpos.toNat + 1) / 512 = (s.lfltab d).lfpos.toNat / 512 by omega]
      exact hr.block
    · rw [setEntry_self]
      simp only
      omega
  · unfold getByte file
    rw [setEntry_self]
    exact T
  · unfold getByte
    rw [setEntry_self]
    exact hpos

/-- `lflgetc` reports the end of the file at it, and reads the byte at the position before it. The files are as they were. -/
theorem lflgetc_spec (V : View S N (s.one d) L False) (R : Room S N) (hu : s.used d)
    (hready : (s.lfltab d).lfbyte < 512 → Ready d s L) :
    (s.lfltab d).lfpos.toNat = (s.file d).ld_size.toNat ∧ s.lflgetc d = .ok (EOF, s) ∨
      ∃ s' L', s.lflgetc d = .ok (((L.byteAt (s.lfltab d).lfdirptr (s.lfltab d).lfpos.toNat).toNat : Int), s') ∧
        Acts S N d s s' L L' ∧ (s.lfltab d).lfpos.toNat < (s.file d).ld_size.toNat ∧
        (s'.lfltab d).lfpos.toNat = (s.lfltab d).lfpos.toNat + 1 ∧ (s'.file d).ld_size = (s.file d).ld_size ∧
        ∀ p, p < (s.file d).ld_size.toNat → L'.byteAt (s.lfltab d).lfdirptr p = L.byteAt (s.lfltab d).lfdirptr p := by
  have hin : (s.lfltab d).lfpos.toNat ≤ (s.file d).ld_size.toNat := V.pos
  have hsize : (s.file d).ld_size.toNat ≤ 512 * (L.dlist (some (s.lfltab d).lfdirptr)).length := V.file.size
  unfold lflgetc
  rw [if_neg (not_not.mpr hu)]
  by_cases hlt : (s.lfltab d).lfpos ≥ (s.file d).ld_size
  · rw [if_pos hlt]
    rw [ge_iff_le, UInt32.le_iff_toNat_le] at hlt
    exact Or.inl ⟨Nat.le_antisymm hin hlt, rfl⟩
  · rw [if_neg hlt]
    rw [ge_iff_le, UInt32.le_iff_toNat_le] at hlt
    have hblocks : (L.dlist (some (s.lfltab d).lfdirptr)).length ≤ 16 * (L.ilist (some (s.lfltab d).lfdirptr)).length := V.file.blocks
    rcases prepare_spec V R hu hready with ⟨_, _, hb⟩ | ⟨_, ⟨_, hb⟩, _⟩ | ⟨t, L₁, he, h1, hr, hreach⟩
    · omega
    · omega
    · rw [he]
      have hahead : ¬Behind d s L := by
        unfold Behind
        omega
      obtain ⟨h2, h3, h4, h5⟩ := getByte_spec (h1.view.imp hahead) hr (by rw [h1.pos, h1.size]; omega)
      have hbyte : ∀ p, p < (s.file d).ld_size.toNat → L₁.byteAt (s.lfltab d).lfdirptr p = L.byteAt (s.lfltab d).lfdirptr p :=
        fun p hp => h1.byteAt (by omega)
      rw [h1.dirptr, h1.pos, hbyte _ (by omega)] at h2
      have hsame : ((t.getByte d).2.file d).ld_size = (s.file d).ld_size := by
        rw [← h1.size, file, file, h5, h3.dirptr]
      refine Or.inr ⟨(t.getByte d).2, L₁, ?_, ⟨h3.view, h1.frame.trans h3.frame, fun e he => (h3.others e he).trans (h1.others e he),
        h3.present.trans h1.present, h3.ready, fun T => hreach.tight T hin (by rw [hsame]; omega), h3.valid ∘ h1.valid,
        fun hs => h3.saved (h1.saved hs (by omega))⟩, by omega, by rw [h4, h1.pos], hsame, hbyte⟩
      rw [← h2]

end Characters

end Lfs

end Xinu
