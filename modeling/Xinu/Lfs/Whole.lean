import Xinu.Lfs.Names
import Xinu.Lfs.Truncate

/-!
# The whole file system

What holds of all files and open files together: the index blocks are shared out among the free list and the files, and so are the
data blocks, and a block that is not on the disk as it should be is in memory with one open file, which is marked as dirty.
`Whole.view` is the part of it that belongs to one open file, and `Whole.acts` puts it together again behind a call.
-/

namespace Xinu

namespace Lfs

open Table

/-- The entry of the directory is in use. -/
def IsFile (dir : Lfdir) (f : Fin 20) : Prop := (f : Int) < dir.lfd_nfiles.toInt

/-- The name of a file. -/
def fileName (dir : Lfdir) (f : Fin 20) : List UInt8 := fieldName (dir.lfd_files f).ld_name

/-- What holds of an open file. -/
structure Opened (s : Lfs) (L : Layout) (d : Fin 6) : Prop where
  file : IsFile s.lf_dir (s.lfltab d).lfdirptr
  index : (s.lfltab d).lfinum = LF_INULL ∧ (s.lfltab d).lfibdirty = false ∨
    (s.lfltab d).lfinum ∈ L.ilist (some (s.lfltab d).lfdirptr) ∧ (s.lfltab d).lfiblock = L.ix (s.lfltab d).lfinum
  data : (s.lfltab d).lfdnum = LF_DNULL ∧ (s.lfltab d).lfdbdirty = false ∨
    (s.lfltab d).lfdnum ∈ L.dlist (some (s.lfltab d).lfdirptr) ∧ (s.lfltab d).lfdblock = L.dat (s.lfltab d).lfdnum
  pos : (s.lfltab d).lfpos.toNat ≤ (s.file d).ld_size.toNat
  ready : (s.lfltab d).lfbyte < 512 → Ready d s L
  name : fieldName (s.lfltab d).lfname = fileName s.lf_dir (s.lfltab d).lfdirptr

/-- What holds of the file system. -/
structure Whole (S N : Nat) (s : Lfs) (L : Layout) : Prop where
  good : s.disk.bad = false
  nfiles : 0 ≤ s.lf_dir.lfd_nfiles.toInt ∧ s.lf_dir.lfd_nfiles.toInt ≤ 20
  index : Splits (IsIndex S) L.ilist
  data : Splits (IsData S N) L.dlist
  ifree : Chain L.next LF_INULL s.lf_dir.lfd_ifree (L.ilist none)
  dfree : Chain L.nextdb LF_DNULL s.lf_dir.lfd_dfree (L.dlist none)
  file : ∀ f, IsFile s.lf_dir f → L.FileOk (s.lf_dir.lfd_files f) f ∧ L.Tight (s.lf_dir.lfd_files f) f
  nofile : ∀ f, ¬IsFile s.lf_dir f → L.ilist (some f) = [] ∧ L.dlist (some f) = []
  icached : ∀ i, IsIndex S i →
    L.ix i = lfibget s.disk i ∨ ∃ d, s.used d ∧ (s.lfltab d).lfibdirty = true ∧ (s.lfltab d).lfinum = i
  dcached : ∀ n, IsData S N n →
    L.dat n = s.disk.sector n ∨ ∃ d, s.used d ∧ (s.lfltab d).lfdbdirty = true ∧ (s.lfltab d).lfdnum = n
  opened : ∀ d, s.used d → Opened s L d
  apart : ∀ d e, s.used d → s.used e → (s.lfltab d).lfdirptr = (s.lfltab e).lfdirptr → d = e
  names : ∀ f g, IsFile s.lf_dir f → IsFile s.lf_dir g → fileName s.lf_dir f = fileName s.lf_dir g → f = g

section

variable {S N : Nat} {s s' : Lfs} {L L' : Layout} {d e : Fin 6} {f : Fin 20} {i n : Int32}

/-- The lists of a file and the free list have no block in common. -/
theorem nodup_area {P : Int32 → Prop} {own : Option (Fin 20) → List Int32} (h : Splits P own) (f : Fin 20) :
    (own (some f) ++ own none).Nodup :=
  List.nodup_append.mpr ⟨h.nodup _, h.nodup _, fun x hx _ hy e => h.apart _ _ (Option.some_ne_none f) x hx (e ▸ hy)⟩

theorem not_mem_area {P : Int32 → Prop} {own : Option (Fin 20) → List Int32} (h : Splits P own) {f g : Fin 20} (hg : g ≠ f)
    (hn : n ∈ own (some g)) : n ∉ own (some f) ++ own none := by
  rw [List.mem_append]
  rintro (hf | hf)
  · exact hg (Option.some.inj (h.unique hn hf))
  · exact Option.some_ne_none g (h.unique hn hf)

theorem mem_area {P : Int32 → Prop} {own : Option (Fin 20) → List Int32} (h : Splits P own)
    (hn : n ∈ own (some f) ++ own none) : P n :=
  (h.mem n).mpr ((List.mem_append.mp hn).elim (fun h => ⟨_, h⟩) fun h => ⟨_, h⟩)

/-- A call keeps the names. -/
theorem Acts.fileName (A : Acts S N d s s' L L') (g : Fin 20) : Lfs.fileName s'.lf_dir g = Lfs.fileName s.lf_dir g := by
  by_cases hg : g = (s.lfltab d).lfdirptr
  · have hname : (s'.file d).ld_name = (s.file d).ld_name := A.frame.name
    rw [file, A.dirptr, ← hg, file, ← hg] at hname
    rw [Lfs.fileName, Lfs.fileName, hname]
  · have hfile : s'.lf_dir.lfd_files g = s.lf_dir.lfd_files g := A.frame.files g hg
    rw [Lfs.fileName, Lfs.fileName, hfile]

/-- The same entries are open. -/
theorem Acts.used_iff (A : Acts S N d s s' L L') (hu : s.used d) (e : Fin 6) : s'.used e ↔ s.used e := by
  by_cases he : e = d
  · subst he
    exact iff_of_true (A.used hu) hu
  · rw [Lfs.used, Lfs.used, A.others e he]

/-- The entries are open on the same files. -/
theorem Acts.dirptrs (A : Acts S N d s s' L L') (e : Fin 6) : (s'.lfltab e).lfdirptr = (s.lfltab e).lfdirptr := by
  by_cases he : e = d
  · rw [he, A.dirptr]
  · rw [A.others e he]

theorem Acts.isFile_iff (A : Acts S N d s s' L L') (g : Fin 20) : IsFile s'.lf_dir g ↔ IsFile s.lf_dir g := by
  have hnum : s'.lf_dir.lfd_nfiles = s.lf_dir.lfd_nfiles := A.frame.nfiles
  rw [IsFile, IsFile, hnum]

namespace Whole

/-- A dirty block is one of the open file that has it in memory. -/
theorem dirty_index (W : Whole S N s L) (hu : s.used d) (hd : (s.lfltab d).lfibdirty = true) :
    (s.lfltab d).lfinum ∈ L.ilist (some (s.lfltab d).lfdirptr) := by
  refine ((W.opened d hu).index.resolve_left fun h => ?_).1
  rw [hd] at h
  cases h.2

theorem dirty_data (W : Whole S N s L) (hu : s.used d) (hd : (s.lfltab d).lfdbdirty = true) :
    (s.lfltab d).lfdnum ∈ L.dlist (some (s.lfltab d).lfdirptr) := by
  refine ((W.opened d hu).data.resolve_left fun h => ?_).1
  rw [hd] at h
  cases h.2

/-- The part of one open file. -/
theorem view (W : Whole S N s L) (hu : s.used d) : View S N (s.one d) L False := by
  have O := W.opened d hu
  refine ⟨W.good, nodup_area W.index _, fun i hi => mem_area W.index hi, nodup_area W.data _, fun n hn => mem_area W.data hn, W.ifree,
    W.dfree, (W.file _ O.file).1, fun i hi => ?_, fun n hn => ?_, O.index, O.data, O.pos⟩
  · refine (W.icached i (mem_area W.index hi)).imp id ?_
    rintro ⟨e, he, hd, rfl⟩
    have hmem := W.dirty_index he hd
    by_cases hptr : (s.lfltab e).lfdirptr = (s.lfltab d).lfdirptr
    · obtain rfl := W.apart e d he hu hptr
      exact ⟨hd, rfl⟩
    · exact absurd hi (not_mem_area W.index hptr hmem)
  · refine (W.dcached n (mem_area W.data hn)).imp id ?_
    rintro ⟨e, he, hd, rfl⟩
    have hmem := W.dirty_data he hd
    by_cases hptr : (s.lfltab e).lfdirptr = (s.lfltab d).lfdirptr
    · obtain rfl := W.apart e d he hu hptr
      exact ⟨Or.inl hd, rfl⟩
    · exact absurd hn (not_mem_area W.data hptr hmem)

/-- The index blocks of another file are as they were. -/
theorem acts_ix (W : Whole S N s L) (A : Acts S N d s s' L L') (hf : f ≠ (s.lfltab d).lfdirptr) (hi : i ∈ L.ilist (some f)) :
    L'.ix i = L.ix i :=
  (A.frame.ix i ((W.index.mem i).mpr ⟨_, hi⟩) (not_mem_area W.index hf hi)).1

/-- So are its data blocks. -/
theorem acts_dat (W : Whole S N s L) (A : Acts S N d s s' L L') (hf : f ≠ (s.lfltab d).lfdirptr) (hn : n ∈ L.dlist (some f)) :
    L'.dat n = L.dat n :=
  (A.frame.dat n ((W.data.mem n).mpr ⟨_, hn⟩) (not_mem_area W.data hf hn)).1

/-- What the directory says of a file stays true: for the file of the call it is part of its view, and the others keep their blocks. -/
theorem acts_file (W : Whole S N s L) (hu : s.used d) (A : Acts S N d s s' L L') (hf : IsFile s.lf_dir f) :
    L'.FileOk (s'.lf_dir.lfd_files f) f ∧ L'.Tight (s'.lf_dir.lfd_files f) f := by
  by_cases he : f = (s.lfltab d).lfdirptr
  · subst he
    have hld : s'.lf_dir.lfd_files (s.lfltab d).lfdirptr = s'.file d := by rw [Lfs.file, A.dirptr]
    rw [hld]
    exact ⟨A.dirptr ▸ A.view.file, A.tight (W.file _ (W.opened d hu).file).2⟩
  · obtain ⟨K, T⟩ := W.file f hf
    have hfile : s'.lf_dir.lfd_files f = s.lf_dir.lfd_files f := A.frame.files f he
    have hi : L'.ilist (some f) = L.ilist (some f) := A.frame.ilists f he
    have hd : L'.dlist (some f) = L.dlist (some f) := A.frame.dlists f he
    rw [hfile]
    refine ⟨⟨?_, fun k i hk => ?_, ?_, ?_⟩, ?_, ?_⟩
    · rw [hi]
      exact K.chain.frame fun i hm => congrArg Lfiblk.ib_next (W.acts_ix A he hm)
    · rw [hi] at hk
      rw [W.acts_ix A he (List.mem_of_getElem? hk), hd]
      exact K.index k i hk
    · rw [hi, hd]
      exact K.blocks
    · rw [hd]
      exact K.size
    · rw [hi]
      exact T.index
    · rw [hd]
      exact T.data

/-- An index block that differs from the disk is in memory with one open file. -/
theorem acts_icached (W : Whole S N s L) (hu : s.used d) (A : Acts S N d s s' L L') (hi : IsIndex S i) :
    L'.ix i = lfibget s'.disk i ∨ ∃ e, s'.used e ∧ (s'.lfltab e).lfibdirty = true ∧ (s'.lfltab e).lfinum = i := by
  by_cases hm : i ∈ L.iarea (s.lfltab d).lfdirptr
  · exact (A.view.icached i (A.dirptr ▸ A.frame.iperm.symm.subset hm)).imp id fun h => ⟨d, A.used hu, h⟩
  · obtain ⟨h1, h2⟩ := A.frame.ix i hi hm
    rw [h1, show lfibget s'.disk i = lfibget s.disk i from h2]
    refine (W.icached i hi).imp id ?_
    rintro ⟨e, he, hd, rfl⟩
    have hne : e ≠ d := by
      rintro rfl
      exact hm (List.mem_append_left _ (W.dirty_index he hd))
    refine ⟨e, (A.used_iff hu e).mpr he, ?_⟩
    rw [A.others e hne]
    exact ⟨hd, rfl⟩

/-- And so is a data block. -/
theorem acts_dcached (W : Whole S N s L) (hu : s.used d) (A : Acts S N d s s' L L') (hn : IsData S N n) :
    L'.dat n = s'.disk.sector n ∨ ∃ e, s'.used e ∧ (s'.lfltab e).lfdbdirty = true ∧ (s'.lfltab e).lfdnum = n := by
  by_cases hm : n ∈ L.darea (s.lfltab d).lfdirptr
  · exact (A.view.dcached n (A.dirptr ▸ A.frame.dperm.symm.subset hm)).imp id fun h => ⟨d, A.used hu, h.1.resolve_right id, h.2⟩
  · obtain ⟨h1, h2⟩ := A.frame.dat n hn hm
    rw [h1, show s'.disk.sector n = s.disk.sector n from h2]
    refine (W.dcached n hn).imp id ?_
    rintro ⟨e, he, hd, rfl⟩
    have hne : e ≠ d := by
      rintro rfl
      exact hm (List.mem_append_left _ (W.dirty_data he hd))
    refine ⟨e, (A.used_iff hu e).mpr he, ?_⟩
    rw [A.others e hne]
    exact ⟨hd, rfl⟩

/-- The open file of the call. -/
theorem acts_mine (W : Whole S N s L) (hu : s.used d) (A : Acts S N d s s' L L') : Opened s' L' d := by
  have O := W.opened d hu
  refine ⟨?_, A.view.index, A.view.data, A.view.pos, A.ready, ?_⟩
  · rw [A.dirptr, A.isFile_iff]
    exact O.file
  · rw [A.dirptr, A.fileName, show (s'.lfltab d).lfname = (s.lfltab d).lfname from A.frame.lfname]
    exact O.name

/-- Another open file. It is open on another file of the directory, and its control block is not written. -/
theorem acts_other (W : Whole S N s L) (hu : s.used d) (A : Acts S N d s s' L L') (he : s.used e) (hne : e ≠ d) : Opened s' L' e := by
  have E := W.opened e he
  have hg : (s.lfltab e).lfdirptr ≠ (s.lfltab d).lfdirptr := fun h => hne (W.apart e d he hu h)
  have hlf := A.others e hne
  have hfile : s'.lf_dir.lfd_files (s.lfltab e).lfdirptr = s.lf_dir.lfd_files (s.lfltab e).lfdirptr := A.frame.files _ hg
  have hi : L'.ilist (some (s.lfltab e).lfdirptr) = L.ilist (some (s.lfltab e).lfdirptr) := A.frame.ilists _ hg
  have hd : L'.dlist (some (s.lfltab e).lfdirptr) = L.dlist (some (s.lfltab e).lfdirptr) := A.frame.dlists _ hg
  refine ⟨?_, ?_, ?_, ?_, fun hb => ?_, ?_⟩
  · rw [hlf, A.isFile_iff]
    exact E.file
  · rw [hlf, hi]
    exact E.index.imp id fun h => ⟨h.1, h.2.trans (W.acts_ix A hg h.1).symm⟩
  · rw [hlf, hd]
    exact E.data.imp id fun h => ⟨h.1, h.2.trans (W.acts_dat A hg h.1).symm⟩
  · have hld : s'.file e = s.file e := by rw [Lfs.file, hlf, hfile, Lfs.file]
    rw [hlf, hld]
    exact E.pos
  · rw [hlf] at hb
    have r := E.ready hb
    constructor
    · rw [hlf, hd]
      exact r.block
    · rw [hlf]
      exact r.byte
  · rw [hlf, A.fileName]
    exact E.name

/-- A call on the open file `d` keeps the whole. -/
theorem acts (W : Whole S N s L) (hu : s.used d) (A : Acts S N d s s' L L') : Whole S N s' L' := by
  have hnum : s'.lf_dir.lfd_nfiles = s.lf_dir.lfd_nfiles := A.frame.nfiles
  refine ⟨A.view.good, hnum ▸ W.nfiles, ?_, ?_, A.view.ifree, A.view.dfree, fun g hg => W.acts_file hu A ((A.isFile_iff g).mp hg),
    fun g hg => ?_, fun i hi => W.acts_icached hu A hi, fun n hn => W.acts_dcached hu A hn, fun e he => ?_,
    fun e e' he he' h => ?_, fun g g' hg hg' h => ?_⟩
  · refine W.index.exchange (Option.some_ne_none (s.lfltab d).lfdirptr) (fun o ho ho' => ?_) A.frame.iperm
    obtain ⟨g, rfl⟩ := Option.ne_none_iff_exists'.mp ho'
    exact A.frame.ilists g fun e => ho (congrArg some e)
  · refine W.data.exchange (Option.some_ne_none (s.lfltab d).lfdirptr) (fun o ho ho' => ?_) A.frame.dperm
    obtain ⟨g, rfl⟩ := Option.ne_none_iff_exists'.mp ho'
    exact A.frame.dlists g fun e => ho (congrArg some e)
  · have hno : ¬IsFile s.lf_dir g := fun h => hg ((A.isFile_iff g).mpr h)
    have he : g ≠ (s.lfltab d).lfdirptr := by
      rintro rfl
      exact hno (W.opened d hu).file
    have hi : L'.ilist (some g) = L.ilist (some g) := A.frame.ilists g he
    have hd : L'.dlist (some g) = L.dlist (some g) := A.frame.dlists g he
    rw [hi, hd]
    exact W.nofile g hno
  · by_cases hed : e = d
    · subst hed
      exact W.acts_mine hu A
    · exact W.acts_other hu A ((A.used_iff hu e).mp he) hed
  · rw [A.dirptrs e, A.dirptrs e'] at h
    exact W.apart e e' ((A.used_iff hu e).mp he) ((A.used_iff hu e').mp he') h
  · rw [A.fileName, A.fileName] at h
    exact W.names g g' ((A.isFile_iff g).mp hg) ((A.isFile_iff g').mp hg') h

end Whole

end

end Lfs

end Xinu
