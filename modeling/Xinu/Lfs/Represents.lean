import Xinu.Lfs.Files
import Xinu.Lfs.Whole

/-!
# The files that the file system holds

`Represents` relates the directory, the blocks and the open files to the byte lists of `Files`. Since the blocks are shared out, the
files need exactly those that are not free.
-/

namespace Xinu

namespace Lfs

open Table

/-- The bytes of a file. -/
def Layout.bytes (L : Layout) (ld : Ldentry) (f : Fin 20) : List UInt8 := (List.range ld.ld_size.toNat).map (L.byteAt f)

/-- The entries of the directory that are in use. -/
def filesOf (dir : Lfdir) : List (Fin 20) := (List.finRange 20).take dir.lfd_nfiles.toInt.toNat

/-- The file system holds the files. -/
structure Represents (lfdev : Fin 6 → Int) (s : Lfs) (L : Layout) (A : Files) : Prop where
  names : A.names = (filesOf s.lf_dir).map (fileName s.lf_dir)
  content : ∀ f, IsFile s.lf_dir f → A.content (fileName s.lf_dir f) = L.bytes (s.lf_dir.lfd_files f) f
  opened : ∀ d, A.opened d =
    if s.used d then some (fileName s.lf_dir (s.lfltab d).lfdirptr, (s.lfltab d).lfpos.toNat) else none
  dev : ∀ d, (s.lfltab d).lfdev = lfdev d

section

variable {S N : Nat} {s s' : Lfs} {L L' : Layout} {d : Fin 6} {f : Fin 20} {A : Files} {lfdev : Fin 6 → Int}

theorem length_bytes (ld : Ldentry) (f : Fin 20) : (L.bytes ld f).length = ld.ld_size.toNat := by
  rw [Layout.bytes, List.length_map, List.length_range]

theorem getElem?_bytes (ld : Ldentry) (f : Fin 20) (p : Nat) :
    (L.bytes ld f)[p]? = if p < ld.ld_size.toNat then some (L.byteAt f p) else none := by
  rw [Layout.bytes, List.getElem?_map]
  by_cases hp : p < ld.ld_size.toNat
  · rw [if_pos hp, List.getElem?_range hp, Option.map_some]
  · rw [if_neg hp, List.getElem?_eq_none (by rw [List.length_range]; omega), Option.map_none]

theorem mem_filesOf {dir : Lfdir} : f ∈ filesOf dir ↔ IsFile dir f := by
  have hlt := f.isLt
  rw [filesOf, List.mem_take_iff_getElem]
  constructor
  · rintro ⟨i, hi, he⟩
    rw [List.getElem_finRange] at he
    rw [IsFile, ← he]
    simp only [Fin.val_cast]
    omega
  · intro h
    rw [IsFile] at h
    refine ⟨f, ?_, ?_⟩
    · rw [List.length_finRange]
      omega
    · rw [List.getElem_finRange]
      exact Fin.ext rfl

/-! ## Counting blocks -/

/-- All index blocks. -/
theorem index_list (R : Room S N) : ((List.range (7 * S)).map Int32.ofNat).Nodup ∧
    ∀ i, i ∈ (List.range (7 * S)).map Int32.ofNat ↔ IsIndex S i := by
  have hS := R.data
  have hN := R.small
  refine ⟨List.nodup_range.map_on fun m hm n hn e => ?_, fun i => ⟨fun h => ?_, fun h => ?_⟩⟩
  · rw [List.mem_range] at hm hn
    exact (ofNat_inj (by omega) (by omega)).mp e
  · obtain ⟨m, hm, rfl⟩ := List.mem_map.mp h
    rw [List.mem_range] at hm
    rw [IsIndex, Int32.toInt_ofNat_of_lt (by omega)]
    omega
  · obtain ⟨m, hm, _, rfl⟩ := h.eq_ofNat R
    exact List.mem_map.mpr ⟨m, List.mem_range.mpr hm, rfl⟩

/-- All data blocks. -/
theorem data_list (R : Room S N) : ((List.range' (S + 1) (N - S - 1)).map Int32.ofNat).Nodup ∧
    ∀ n, n ∈ (List.range' (S + 1) (N - S - 1)).map Int32.ofNat ↔ IsData S N n := by
  have hN := R.small
  refine ⟨List.Nodup.map_on (fun m hm n hn e => ?_) List.nodup_range', fun i => ⟨fun h => ?_, fun h => ?_⟩⟩
  · rw [List.mem_range'_1] at hm hn
    exact (ofNat_inj (by omega) (by omega)).mp e
  · obtain ⟨m, hm, rfl⟩ := List.mem_map.mp h
    rw [List.mem_range'_1] at hm
    rw [IsData, Int32.toInt_ofNat_of_lt (by omega)]
    omega
  · obtain ⟨h1, h2⟩ := h
    refine List.mem_map.mpr ⟨i.toInt.toNat, ?_, Int32.toInt_inj.mp ?_⟩
    · rw [List.mem_range'_1]
      omega
    · rw [Int32.toInt_ofNat_of_lt (by omega)]
      omega

/-- The lists of the files and the free list have all blocks together. -/
theorem sum_lists {P : Int32 → Prop} {own : Option (Fin 20) → List Int32} {l : List Int32} {dir : Lfdir} (h : Splits P own)
    (hnone : ∀ f, ¬IsFile dir f → own (some f) = []) (hl : l.Nodup) (hmem : ∀ x, x ∈ l ↔ P x) :
    ((filesOf dir).map fun f => (own (some f)).length).sum + (own none).length = l.length := by
  have hnd : (none :: (List.finRange 20).map some).Nodup := by decide
  have hall : ∀ o : Option (Fin 20), o ∈ none :: (List.finRange 20).map some := by
    rintro (_ | f)
    · exact List.mem_cons_self
    · exact List.mem_cons_of_mem _ (List.mem_map_of_mem (List.mem_finRange f))
  have hsum := h.sum_length hnd hall hl hmem
  have hrest : (((List.finRange 20).drop dir.lfd_nfiles.toInt.toNat).map fun f => (own (some f)).length).sum = 0 := by
    refine List.sum_eq_zero fun k hk => ?_
    obtain ⟨f, hf, rfl⟩ := List.mem_map.mp hk
    rw [hnone f fun hfile => ?_, List.length_nil]
    exact List.disjoint_take_drop (List.nodup_finRange 20) (Nat.le_refl _) (mem_filesOf.mpr hfile) hf
  rw [List.map_cons, List.sum_cons, List.map_map] at hsum
  have hcut := congrArg (fun l => (l.map fun f => (own (some f)).length).sum)
    (List.take_append_drop dir.lfd_nfiles.toInt.toNat (List.finRange 20))
  simp only [List.map_append, List.sum_append, hrest, Nat.add_zero] at hcut
  rw [← hsum, filesOf, hcut, Nat.add_comm]
  rfl

/-- The blocks that the files need are those that are not free. -/
theorem Represents.blocks (H : Represents lfdev s L A) (W : Whole S N s L) (R : Room S N) :
    A.blocks 8192 + (L.ilist none).length = 7 * S ∧ A.blocks 512 + (L.dlist none).length = N - S - 1 := by
  have hneed : ∀ unit, A.blocks unit =
      ((filesOf s.lf_dir).map fun f => ((s.lf_dir.lfd_files f).ld_size.toNat + (unit - 1)) / unit).sum := by
    intro unit
    rw [Files.blocks, H.names, List.map_map]
    refine congrArg List.sum (List.map_congr_left fun f hf => ?_)
    rw [Function.comp_apply, H.content f (mem_filesOf.mp hf), length_bytes]
  obtain ⟨hi, himem⟩ := index_list R
  obtain ⟨hd, hdmem⟩ := data_list R
  have h1 := sum_lists W.index (fun f hf => (W.nofile f hf).1) hi himem
  have h2 := sum_lists W.data (fun f hf => (W.nofile f hf).2) hd hdmem
  rw [List.length_map, List.length_range] at h1
  rw [List.length_map, List.length_range'] at h2
  rw [hneed, hneed, ← h1, ← h2]
  refine ⟨congrArg (· + _) (congrArg List.sum (List.map_congr_left fun f hf => ?_)),
    congrArg (· + _) (congrArg List.sum (List.map_congr_left fun f hf => ?_))⟩
  · exact (W.file f (mem_filesOf.mp hf)).2.index.symm
  · exact (W.file f (mem_filesOf.mp hf)).2.data.symm

/-! ## Calls on one open file -/

/-- The bytes of another file are as they were. -/
theorem Acts.bytes (Y : Acts S N d s s' L L') (W : Whole S N s L) (hf : IsFile s.lf_dir f) (hne : f ≠ (s.lfltab d).lfdirptr) :
    L'.bytes (s'.lf_dir.lfd_files f) f = L.bytes (s.lf_dir.lfd_files f) f := by
  have hfile : s'.lf_dir.lfd_files f = s.lf_dir.lfd_files f := Y.frame.files f hne
  have hlist : L'.dlist (some f) = L.dlist (some f) := Y.frame.dlists f hne
  have hsize := (W.file f hf).1.size
  rw [Layout.bytes, Layout.bytes, hfile]
  refine List.map_congr_left fun p hp => ?_
  rw [List.mem_range] at hp
  have hlt : p / 512 < (L.dlist (some f)).length := by omega
  have hmem : (L.dlist (some f))[p / 512] ∈ L.dlist (some f) := List.getElem_mem hlt
  rw [Layout.byteAt, Layout.byteAt, hlist, List.getD_eq_getElem _ _ hlt,
    (Y.frame.dat _ ((W.data.mem _).mpr ⟨_, hmem⟩) (not_mem_area W.data hne hmem)).1]

/-- A call leaves the bytes of its own file as it says, and moves its position. -/
theorem Represents.acts (H : Represents lfdev s L A) (W : Whole S N s L) (hu : s.used d) (Y : Acts S N d s s' L L') :
    Represents lfdev s' L' (A.set d (fileName s.lf_dir (s.lfltab d).lfdirptr)
      (L'.bytes (s'.file d) (s.lfltab d).lfdirptr) (s'.lfltab d).lfpos.toNat) := by
  have hnum : s'.lf_dir.lfd_nfiles = s.lf_dir.lfd_nfiles := Y.frame.nfiles
  refine ⟨?_, fun g hg => ?_, fun e => ?_, fun e => ?_⟩
  · rw [Files.set_names, H.names, filesOf, filesOf, hnum]
    exact List.map_congr_left fun g _ => (Y.fileName g).symm
  · rw [Y.fileName]
    rw [IsFile, hnum] at hg
    by_cases he : g = (s.lfltab d).lfdirptr
    · rw [he, Files.set_content, file, Y.dirptr]
    · rw [Files.set_content_of_ne fun h => he (W.names _ _ hg (W.opened d hu).file h), H.content g hg, Y.bytes W hg he]
  · by_cases he : e = d
    · rw [he, Files.set_opened, if_pos (Y.used hu), Y.fileName, Y.dirptr]
    · have hother : (A.set d (fileName s.lf_dir (s.lfltab d).lfdirptr) (L'.bytes (s'.file d) (s.lfltab d).lfdirptr)
          (s'.lfltab d).lfpos.toNat).opened e = A.opened e := Function.update_of_ne he _ _
      have hused : s'.used e ↔ s.used e := by rw [used, used, Y.others e he]
      rw [hother, H.opened, Y.others e he, Y.fileName]
      exact if_congr hused.symm rfl rfl
  · by_cases he : e = d
    · rw [he, show (s'.lfltab d).lfdev = (s.lfltab d).lfdev from Y.frame.dev, H.dev]
    · rw [Y.others e he, H.dev]

end

end Lfs

end Xinu
