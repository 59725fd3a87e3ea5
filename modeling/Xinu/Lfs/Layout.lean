import Xinu.Lfs.FileSystem
import Xinu.Lfs.IndexBlock
import Xinu.Lib.Chain
import Xinu.Lib.Spread

/-!
# Where the files are

A disk of `N` sectors with `S` sectors of index blocks. `Layout` names the blocks of every file and those on the free lists, with
their contents, where a block that an open file has in memory counts as it is there. `View` says what holds of one open file and the
free lists; the theorems behind it are about one access to the disk each.
-/

namespace Xinu

namespace Lfs

open Table

/-! ## Areas of the disk -/

/-- There is an index block and a data block, and the size of the disk in bytes is a 32-bit number. -/
structure Room (S N : Nat) : Prop where
  index : 1 ≤ S
  data : S + 2 ≤ N
  small : N < 8388608

def IsIndex (S : Nat) (i : Int32) : Prop := 0 ≤ i.toInt ∧ i.toInt < 7 * S

def IsData (S N : Nat) (n : Int32) : Prop := S + 1 ≤ n.toInt ∧ n.toInt < N

section Areas

variable {S N : Nat} {i j n : Int32} {disk : Disk}

theorem IsIndex.eq_ofNat (h : IsIndex S i) (R : Room S N) : ∃ m : Nat, m < 7 * S ∧ m < 2 ^ 31 ∧ i = Int32.ofNat m := by
  obtain ⟨h0, h1⟩ := h
  have hS := R.data
  have hN := R.small
  refine ⟨i.toInt.toNat, by omega, by omega, Int32.toInt_inj.mp ?_⟩
  rw [Int32.toInt_ofNat_of_lt (by omega), Int.toNat_of_nonneg h0]

theorem IsIndex.ne_null (h : IsIndex S i) : i ≠ LF_INULL := by
  rintro rfl
  exact absurd h.1 (by decide)

theorem IsData.ne_null (h : IsData S N n) : n ≠ LF_DNULL := by
  rintro rfl
  have h1 : (S : Int) + 1 ≤ -1 := h.1
  omega

theorem IsData.ne_dir (h : IsData S N n) : n ≠ LF_AREA_DIR := by
  rintro rfl
  have h1 : (S : Int) + 1 ≤ 0 := h.1
  omega

/-- The sector of an index block is between the directory and the data blocks. -/
theorem IsIndex.sect (h : IsIndex S i) (R : Room S N) : 1 ≤ (ib2sect i).toInt ∧ (ib2sect i).toInt ≤ S := by
  obtain ⟨m, hm, hlt, rfl⟩ := h.eq_ofNat R
  rw [ib2sect_ofNat hlt, Int32.toInt_ofNat_of_lt (by omega)]
  omega

theorem IsIndex.sect_ne_dir (h : IsIndex S i) (R : Room S N) : ib2sect i ≠ LF_AREA_DIR := by
  intro e
  have h1 := (h.sect R).1
  rw [e] at h1
  exact absurd h1 (by decide)

theorem IsIndex.sect_ne_data (h : IsIndex S i) (hn : IsData S N n) (R : Room S N) : ib2sect i ≠ n := by
  rintro rfl
  have h1 := (h.sect R).2
  have h2 := hn.1
  omega

theorem IsIndex.get_put (h : IsIndex S i) (R : Room S N) (hb : disk.bad = false) (b : Lfiblk) :
    lfibget (lfibput disk i b).2 i = b := by
  obtain ⟨m, _, hlt, rfl⟩ := h.eq_ofNat R
  exact lfibget_lfibput hb hlt b

theorem IsIndex.get_put_of_ne (h : IsIndex S i) (hj : IsIndex S j) (R : Room S N) (hb : disk.bad = false) (hne : j ≠ i) (b : Lfiblk) :
    lfibget (lfibput disk i b).2 j = lfibget disk j := by
  obtain ⟨m, _, hlt, rfl⟩ := h.eq_ofNat R
  obtain ⟨k, _, hlt', rfl⟩ := hj.eq_ofNat R
  exact lfibget_lfibput_of_ne hb hlt hlt' (fun e => hne (congrArg Int32.ofNat e)) b

theorem IsData.put (h : IsData S N n) (hi : IsIndex S i) (R : Room S N) (hb : disk.bad = false) (b : Lfiblk) :
    (lfibput disk i b).2.sector n = disk.sector n :=
  lfibput_sector hb (fun e => hi.sect_ne_data h R e.symm) b

theorem write_self (hb : disk.bad = false) (x : Sector) (n : Int32) : (disk.write x n).2.sector n = x := by
  rw [Disk.write_eq hb]
  exact Function.update_self _ _ _

theorem write_of_ne (hb : disk.bad = false) (x : Sector) (hne : j ≠ n) : (disk.write x n).2.sector j = disk.sector j := by
  rw [Disk.write_eq hb]
  exact Function.update_of_ne hne _ _

theorem write_bad (hb : disk.bad = false) (x : Sector) (n : Int32) : (disk.write x n).2.bad = false := by
  rw [Disk.write_eq hb]
  exact hb

theorem read_eq (hb : disk.bad = false) (x : Sector) (n : Int32) : disk.read x n = (OK, disk.sector n) := by
  rw [Disk.read, hb]
  rfl

end Areas

/-! ## Positions -/

section Positions

variable (pos : UInt32)

theorem and_dmask : (pos &&& LF_DMASK).toNat = pos.toNat % 512 := by
  rw [UInt32.toNat_and]
  exact Nat.and_two_pow_sub_one_eq_mod pos.toNat 9

theorem and_imask : (pos &&& LF_IMASK).toNat = pos.toNat % 8192 := by
  rw [UInt32.toNat_and]
  exact Nat.and_two_pow_sub_one_eq_mod pos.toNat 13

theorem and_not_imask : (pos &&& ~~~LF_IMASK).toNat = pos.toNat / 8192 * 8192 := by
  have hmask : (~~~LF_IMASK).toNat = (2 ^ 19 - 1) <<< 13 := by decide
  have hval : pos.toNat / 8192 * 8192 = (pos.toNat >>> 13) <<< 13 := by
    rw [Nat.shiftLeft_eq, Nat.shiftRight_eq_div_pow]
  rw [UInt32.toNat_and, hmask, hval]
  refine Nat.eq_of_testBit_eq fun i => ?_
  rw [Nat.testBit_and, Nat.testBit_shiftLeft, Nat.testBit_shiftLeft, Nat.testBit_shiftRight, Nat.testBit_two_pow_sub_one]
  by_cases hi : 13 ≤ i
  · rw [Nat.add_sub_cancel' hi]
    by_cases hlt : i < 32
    · simp [hi, show i - 13 < 19 by omega]
    · have hzero : pos.toNat.testBit i = false :=
        Nat.testBit_lt_two_pow (Nat.lt_of_lt_of_le pos.toNat_lt (Nat.pow_le_pow_right (by decide) (by omega)))
      simp [hzero]
  · simp [hi]

theorem dindex_val : (dindex pos : Nat) = pos.toNat % 8192 / 512 := by
  have hshift : ((pos &&& LF_IMASK) >>> 9).toNat = pos.toNat % 8192 / 512 := by
    rw [UInt32.toNat_shiftRight, and_imask, Nat.shiftRight_eq_div_pow]
    rfl
  change ((pos &&& LF_IMASK) >>> 9).toNat % 16 = _
  omega

end Positions

/-! ## Layouts -/

/-- The blocks with their contents, and the lists of them: that of a file, or the free list (`none`). -/
structure Layout where
  ix : Int32 → Lfiblk
  dat : Int32 → Sector
  ilist : Option (Fin 20) → List Int32
  dlist : Option (Fin 20) → List Int32

namespace Layout

variable (L : Layout)

def next (i : Int32) : Int32 := (L.ix i).ib_next

def nextdb (n : Int32) : Int32 := (L.dat n).nextdb

/-- The index blocks and the data blocks that a change of the file can touch. -/
def iarea (f : Fin 20) : List Int32 := L.ilist (some f) ++ L.ilist none

def darea (f : Fin 20) : List Int32 := L.dlist (some f) ++ L.dlist none

/-- The index blocks of a file hold its data blocks in order, as many as its size needs. -/
structure FileOk (ld : Ldentry) (f : Fin 20) : Prop where
  chain : Chain L.next LF_INULL ld.ld_ilist (L.ilist (some f))
  index : ∀ k i, (L.ilist (some f))[k]? = some i → (L.ix i).ib_offset.toNat = 8192 * k ∧
    ∀ j : Fin 16, (L.ix i).ib_dba j = (L.dlist (some f)).getD (16 * k + j) LF_DNULL
  blocks : (L.dlist (some f)).length ≤ 16 * (L.ilist (some f)).length
  size : ld.ld_size.toNat ≤ 512 * (L.dlist (some f)).length

end Layout

/-- What a routine that works on one open file uses: the disk, the directory and the control block. -/
structure OneFile where
  disk : Disk
  dir : Lfdir
  lf : Lflcblk

/-- The directory entry of the file. -/
def OneFile.ld (x : OneFile) : Ldentry := x.dir.lfd_files x.lf.lfdirptr

/-- The part of the file system that belongs to the open file `d`. -/
def one (s : Lfs) (d : Fin 6) : OneFile := ⟨s.disk, s.lf_dir, s.lfltab d⟩

/-- What holds of an open file and of the free lists. The data block in memory may differ from the disk when it is dirty, or when `P`
holds. -/
structure View (S N : Nat) (x : OneFile) (L : Layout) (P : Prop) : Prop where
  good : x.disk.bad = false
  inodup : (L.iarea x.lf.lfdirptr).Nodup
  irange : ∀ i ∈ L.iarea x.lf.lfdirptr, IsIndex S i
  dnodup : (L.darea x.lf.lfdirptr).Nodup
  drange : ∀ n ∈ L.darea x.lf.lfdirptr, IsData S N n
  ifree : Chain L.next LF_INULL x.dir.lfd_ifree (L.ilist none)
  dfree : Chain L.nextdb LF_DNULL x.dir.lfd_dfree (L.dlist none)
  file : L.FileOk x.ld x.lf.lfdirptr
  icached : ∀ i ∈ L.iarea x.lf.lfdirptr, L.ix i = lfibget x.disk i ∨ x.lf.lfibdirty = true ∧ x.lf.lfinum = i
  dcached : ∀ n ∈ L.darea x.lf.lfdirptr, L.dat n = x.disk.sector n ∨ (x.lf.lfdbdirty = true ∨ P) ∧ x.lf.lfdnum = n
  index : x.lf.lfinum = LF_INULL ∧ x.lf.lfibdirty = false ∨
    x.lf.lfinum ∈ L.ilist (some x.lf.lfdirptr) ∧ x.lf.lfiblock = L.ix x.lf.lfinum
  data : x.lf.lfdnum = LF_DNULL ∧ x.lf.lfdbdirty = false ∨
    x.lf.lfdnum ∈ L.dlist (some x.lf.lfdirptr) ∧ x.lf.lfdblock = L.dat x.lf.lfdnum
  pos : x.lf.lfpos.toNat ≤ x.ld.ld_size.toNat

/-- Nothing changes but the file and the free lists. -/
structure Frame (S N : Nat) (x x' : OneFile) (L L' : Layout) : Prop where
  state : x'.lf.lfstate = x.lf.lfstate
  dev : x'.lf.lfdev = x.lf.lfdev
  dirptr : x'.lf.lfdirptr = x.lf.lfdirptr
  mode : x'.lf.lfmode = x.lf.lfmode
  lfname : x'.lf.lfname = x.lf.lfname
  nfiles : x'.dir.lfd_nfiles = x.dir.lfd_nfiles
  files : ∀ g, g ≠ x.lf.lfdirptr → x'.dir.lfd_files g = x.dir.lfd_files g
  name : x'.ld.ld_name = x.ld.ld_name
  ilists : ∀ g, g ≠ x.lf.lfdirptr → L'.ilist (some g) = L.ilist (some g)
  dlists : ∀ g, g ≠ x.lf.lfdirptr → L'.dlist (some g) = L.dlist (some g)
  iperm : (L'.iarea x.lf.lfdirptr).Perm (L.iarea x.lf.lfdirptr)
  dperm : (L'.darea x.lf.lfdirptr).Perm (L.darea x.lf.lfdirptr)
  ix : ∀ i, IsIndex S i → i ∉ L.iarea x.lf.lfdirptr → L'.ix i = L.ix i ∧ lfibget x'.disk i = lfibget x.disk i
  dat : ∀ n, IsData S N n → n ∉ L.darea x.lf.lfdirptr → L'.dat n = L.dat n ∧ x'.disk.sector n = x.disk.sector n

namespace Frame

variable {S N : Nat} {x x' y : OneFile} {L L' L₁ : Layout}

/-- Only blocks of the file and of the free lists are written, and fields of the control block that say what is in memory. -/
theorem of_disk (hstate : x'.lf.lfstate = x.lf.lfstate) (hdev : x'.lf.lfdev = x.lf.lfdev) (hptr : x'.lf.lfdirptr = x.lf.lfdirptr)
    (hmode : x'.lf.lfmode = x.lf.lfmode) (hname : x'.lf.lfname = x.lf.lfname) (hdir : x'.dir = x.dir)
    (hix : ∀ i, IsIndex S i → i ∉ L.iarea x.lf.lfdirptr → lfibget x'.disk i = lfibget x.disk i)
    (hdat : ∀ n, IsData S N n → n ∉ L.darea x.lf.lfdirptr → x'.disk.sector n = x.disk.sector n) : Frame S N x x' L L := by
  refine ⟨hstate, hdev, hptr, hmode, hname, by rw [hdir], fun _ _ => by rw [hdir], ?_, fun _ _ => rfl, fun _ _ => rfl, List.Perm.refl _,
    List.Perm.refl _, fun i hi hn => ⟨rfl, hix i hi hn⟩, fun n hn hm => ⟨rfl, hdat n hn hm⟩⟩
  rw [OneFile.ld, OneFile.ld, hdir, hptr]

theorem refl (x : OneFile) (L : Layout) : Frame S N x x L L :=
  of_disk rfl rfl rfl rfl rfl rfl (fun _ _ _ => rfl) (fun _ _ _ => rfl)

theorem trans (F : Frame S N x y L L₁) (F' : Frame S N y x' L₁ L') : Frame S N x x' L L' := by
  have hf := F.dirptr
  refine ⟨F'.state.trans F.state, F'.dev.trans F.dev, F'.dirptr.trans hf, F'.mode.trans F.mode, F'.lfname.trans F.lfname,
    F'.nfiles.trans F.nfiles, fun g hg => ?_, F'.name.trans F.name, fun g hg => ?_, fun g hg => ?_, ?_, ?_, fun i hi hn => ?_,
    fun n hn hm => ?_⟩
  · exact (F'.files g (hf ▸ hg)).trans (F.files g hg)
  · exact (F'.ilists g (hf ▸ hg)).trans (F.ilists g hg)
  · exact (F'.dlists g (hf ▸ hg)).trans (F.dlists g hg)
  · exact (hf ▸ F'.iperm).trans F.iperm
  · exact (hf ▸ F'.dperm).trans F.dperm
  · obtain ⟨h1, h2⟩ := F.ix i hi hn
    obtain ⟨h3, h4⟩ := F'.ix i hi (fun h => hn (F.iperm.subset (hf ▸ h)))
    exact ⟨h3.trans h1, h4.trans h2⟩
  · obtain ⟨h1, h2⟩ := F.dat n hn hm
    obtain ⟨h3, h4⟩ := F'.dat n hn (fun h => hm (F.dperm.subset (hf ▸ h)))
    exact ⟨h3.trans h1, h4.trans h2⟩

end Frame

/-! ## Writing to the disk -/

namespace View

variable {S N : Nat} {x : OneFile} {L : Layout} {P : Prop}

/-- The directory is written to the disk. -/
theorem writeDir (V : View S N x L P) (R : Room S N) (b : Sector) :
    View S N { x with disk := (x.disk.write b LF_AREA_DIR).2 } L P ∧
      Frame S N x { x with disk := (x.disk.write b LF_AREA_DIR).2 } L L := by
  have hget : ∀ i, IsIndex S i → lfibget (x.disk.write b LF_AREA_DIR).2 i = lfibget x.disk i := fun i hi =>
    lfibget_write V.good (hi.sect_ne_dir R) _
  have hsect : ∀ n, IsData S N n → (x.disk.write b LF_AREA_DIR).2.sector n = x.disk.sector n := fun n hn =>
    write_of_ne V.good _ hn.ne_dir
  refine ⟨⟨write_bad V.good _ _, V.inodup, V.irange, V.dnodup, V.drange, V.ifree, V.dfree, V.file, fun i hi => ?_, fun n hn => ?_,
    V.index, V.data, V.pos⟩, Frame.of_disk rfl rfl rfl rfl rfl rfl (fun i hi _ => hget i hi) (fun n hn _ => hsect n hn)⟩
  · rw [hget i (V.irange i hi)]
    exact V.icached i hi
  · rw [hsect n (V.drange n hn)]
    exact V.dcached n hn

/-- The data block in memory is written to the disk. -/
theorem flushData (V : View S N x L P) (R : Room S N) (hd : x.lf.lfdbdirty = true) :
    View S N { x with disk := (x.disk.write x.lf.lfdblock x.lf.lfdnum).2, lf := { x.lf with lfdbdirty := false } } L P ∧
      Frame S N x { x with disk := (x.disk.write x.lf.lfdblock x.lf.lfdnum).2, lf := { x.lf with lfdbdirty := false } } L L := by
  obtain ⟨hmem, hblock⟩ : x.lf.lfdnum ∈ L.dlist (some x.lf.lfdirptr) ∧ x.lf.lfdblock = L.dat x.lf.lfdnum := by
    refine V.data.resolve_left (fun h => ?_)
    rw [hd] at h
    cases h.2
  have harea : x.lf.lfdnum ∈ L.darea x.lf.lfdirptr := List.mem_append_left _ hmem
  have hget : ∀ i, IsIndex S i → lfibget (x.disk.write x.lf.lfdblock x.lf.lfdnum).2 i = lfibget x.disk i := fun i hi =>
    lfibget_write V.good (hi.sect_ne_data (V.drange _ harea) R) _
  have hsect : ∀ n, n ≠ x.lf.lfdnum → (x.disk.write x.lf.lfdblock x.lf.lfdnum).2.sector n = x.disk.sector n := fun n hn =>
    write_of_ne V.good _ hn
  refine ⟨⟨write_bad V.good _ _, V.inodup, V.irange, V.dnodup, V.drange, V.ifree, V.dfree, V.file, fun i hi => ?_, fun n hn => ?_,
    V.index, Or.inr ⟨hmem, hblock⟩, V.pos⟩, Frame.of_disk rfl rfl rfl rfl rfl rfl (fun i hi _ => hget i hi) (fun n _ hm => ?_)⟩
  · rw [hget i (V.irange i hi)]
    exact V.icached i hi
  · by_cases he : n = x.lf.lfdnum
    · rw [he, write_self V.good]
      exact Or.inl hblock.symm
    · rw [hsect n he]
      exact (V.dcached n hn).imp id fun h => absurd h.2.symm he
  · refine hsect n fun e => hm ?_
    rw [e]
    exact harea

/-- The index block in memory is written to the disk. -/
theorem flushIndex (V : View S N x L P) (R : Room S N) (hd : x.lf.lfibdirty = true) :
    View S N { x with disk := (lfibput x.disk x.lf.lfinum x.lf.lfiblock).2, lf := { x.lf with lfibdirty := false } } L P ∧
      Frame S N x { x with disk := (lfibput x.disk x.lf.lfinum x.lf.lfiblock).2, lf := { x.lf with lfibdirty := false } } L L := by
  obtain ⟨hmem, hblock⟩ : x.lf.lfinum ∈ L.ilist (some x.lf.lfdirptr) ∧ x.lf.lfiblock = L.ix x.lf.lfinum := by
    refine V.index.resolve_left (fun h => ?_)
    rw [hd] at h
    cases h.2
  have harea : x.lf.lfinum ∈ L.iarea x.lf.lfdirptr := List.mem_append_left _ hmem
  have hidx := V.irange _ harea
  have hget : ∀ i, IsIndex S i → i ≠ x.lf.lfinum → lfibget (lfibput x.disk x.lf.lfinum x.lf.lfiblock).2 i = lfibget x.disk i :=
    fun i hi hne => hidx.get_put_of_ne hi R V.good hne _
  have hsect : ∀ n, IsData S N n → (lfibput x.disk x.lf.lfinum x.lf.lfiblock).2.sector n = x.disk.sector n := fun n hn =>
    hn.put hidx R V.good _
  refine ⟨⟨lfibput_bad V.good _ _, V.inodup, V.irange, V.dnodup, V.drange, V.ifree, V.dfree, V.file, fun i hi => ?_, fun n hn => ?_,
    Or.inr ⟨hmem, hblock⟩, V.data, V.pos⟩, Frame.of_disk rfl rfl rfl rfl rfl rfl (fun i hi hn => ?_) (fun n hn _ => hsect n hn)⟩
  · by_cases he : i = x.lf.lfinum
    · rw [he, hidx.get_put R V.good]
      exact Or.inl hblock.symm
    · rw [hget i (V.irange i hi) he]
      exact (V.icached i hi).imp id fun h => absurd h.2.symm he
  · rw [hsect n (V.drange n hn)]
    exact V.dcached n hn
  · refine hget i hi fun e => hn ?_
    rw [e]
    exact harea

end View

end Lfs

end Xinu
