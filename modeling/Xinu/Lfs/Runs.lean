import Xinu.Lfs.Opening
import Xinu.Theorems.DiskFormat

/-!
# Runs of the local file system

A disk that `lfscreate` has formatted stores no files, and what a call leaves stores the files that `Files.call` says. So a run agrees
with the run of `Files` from any state that stores files.
-/

namespace Xinu

namespace Lfs

/-- What calls return, one after the other, and the file system behind them. -/
def run : Lfs → List LfsCall → Except Fault (List (Int × List UInt8) × Lfs)
  | s, [] => .ok ([], s)
  | s, c :: cs =>
    match s.call c with
    | .error e => .error e
    | .ok (value, bytes, s) => (run s cs).map fun x => ((value, bytes) :: x.1, x.2)

section

variable {S N : Nat} {s : Lfs} {L : Layout} {A : Files} {lfdev : Fin 6 → Int} {disk disk' : Disk}

/-! ## One call -/

/-- A call agrees with what `Files` says of it. -/
theorem call_agrees (H : Stores S N lfdev s A) (R : Room S N) (c : LfsCall) :
    (A.call (volume S N lfdev) c = none ∧ (s.call c = .error .noIndexBlocks ∨ s.call c = .error .noDataBlocks)) ∨
      ∃ value bytes s' A', s.call c = .ok (value, bytes, s') ∧ A.call (volume S N lfdev) c = some (value, bytes, A') ∧
        Stores S N lfdev s' A' := by
  cases c with
  | lfsopen name mode =>
    obtain ⟨he, H'⟩ := lfsopen_agrees H name mode
    exact Or.inr ⟨_, [], _, _, rfl, by rw [Files.call, he], H'⟩
  | lflputc d ch =>
    rcases lflputc_agrees H R d ch with ⟨hspec, he⟩ | ⟨value, s', A', he, hspec, H'⟩
    · refine Or.inl ⟨by rw [Files.call, hspec]; rfl, he.imp (fun h => ?_) fun h => ?_⟩ <;>
      · rw [call, h]
        rfl
    · exact Or.inr ⟨value, [], s', A', by rw [call, he]; rfl, by rw [Files.call, hspec]; rfl, H'⟩
  | lflgetc d =>
    obtain ⟨s', he, H'⟩ := lflgetc_agrees H R d
    exact Or.inr ⟨_, [], s', _, by rw [call, he]; rfl, rfl, H'⟩
  | lflread d count =>
    obtain ⟨s', he, H'⟩ := lflread_agrees H R d count
    exact Or.inr ⟨_, _, s', _, he, rfl, H'⟩
  | lflwrite d buff count =>
    rcases lflwrite_agrees H R d buff count with ⟨hspec, he⟩ | ⟨value, s', A', he, hspec, H'⟩
    · refine Or.inl ⟨by rw [Files.call, hspec]; rfl, he.imp (fun h => ?_) fun h => ?_⟩ <;>
      · rw [call, h]
        rfl
    · exact Or.inr ⟨value, [], s', A', by rw [call, he]; rfl, by rw [Files.call, hspec]; rfl, H'⟩
  | lflseek d offset =>
    obtain ⟨he, H'⟩ := lflseek_agrees H d offset
    exact Or.inr ⟨_, [], _, _, rfl, by rw [Files.call, he], H'⟩
  | lflcontrol d func =>
    obtain ⟨s', he, H'⟩ := lflcontrol_agrees H R d func
    exact Or.inr ⟨_, [], s', _, by rw [call, he]; rfl, rfl, H'⟩
  | lflclose d =>
    obtain ⟨he, H'⟩ := lflclose_agrees H R d
    exact Or.inr ⟨_, [], _, _, rfl, by rw [Files.call, he], H'⟩

/-! ## All calls -/

/-- The calls return what `Files` says, or both panic. -/
def RunsAs (V : Volume) (s : Lfs) (A : Files) (cs : List LfsCall) : Prop :=
  (A.run V cs = none ∧ (s.run cs = .error .noIndexBlocks ∨ s.run cs = .error .noDataBlocks)) ∨
    ∃ values s' A', s.run cs = .ok (values, s') ∧ A.run V cs = some (values, A')

/-- The run lemma. The induction is on the calls that are left. -/
theorem run_agrees (R : Room S N) (cs : List LfsCall) (H : Stores S N lfdev s A) :
    (A.run (volume S N lfdev) cs = none ∧ (s.run cs = .error .noIndexBlocks ∨ s.run cs = .error .noDataBlocks)) ∨
      ∃ values s' A', s.run cs = .ok (values, s') ∧ A.run (volume S N lfdev) cs = some (values, A') ∧ Stores S N lfdev s' A' := by
  induction cs generalizing s A with
  | nil => exact Or.inr ⟨[], s, A, rfl, rfl, H⟩
  | cons c cs ih =>
    rcases call_agrees H R c with ⟨hspec, he⟩ | ⟨value, bytes, s', A', he, hspec, H'⟩
    · refine Or.inl ⟨?_, he.imp (fun h => ?_) fun h => ?_⟩
      · simp only [Files.run, hspec]
      · simp only [run, h]
      · simp only [run, h]
    · have hrun : s.run (c :: cs) = (s'.run cs).map fun x => ((value, bytes) :: x.1, x.2) := by
        simp only [run, he]
      have hspecs : A.run (volume S N lfdev) (c :: cs) =
          (A'.run (volume S N lfdev) cs).map fun x => ((value, bytes) :: x.1, x.2) := by
        simp only [Files.run, hspec]
      rw [hrun, hspecs]
      rcases ih H' with ⟨hspec', he'⟩ | ⟨values, s'', A'', he', hspec', H''⟩
      · refine Or.inl ⟨by rw [hspec']; rfl, he'.imp (fun h => ?_) fun h => ?_⟩ <;>
        · rw [h]
          rfl
      · exact Or.inr ⟨(value, bytes) :: values, s'', A'', by rw [he']; rfl, by rw [hspec']; rfl, H''⟩

theorem Stores.runsAs (H : Stores S N lfdev s A) (R : Room S N) (cs : List LfsCall) : RunsAs (volume S N lfdev) s A cs :=
  (run_agrees R cs H).imp id fun ⟨values, s', A', h1, h2, _⟩ => ⟨values, s', A', h1, h2⟩

theorem Stores.reach {s' : Lfs} (H : Stores S N lfdev s A) (R : Room S N) (h : Reach s s') : ∃ A', Stores S N lfdev s' A' := by
  induction h with
  | refl => exact ⟨A, H⟩
  | step c _ hc ih =>
    obtain ⟨A', H'⟩ := ih
    rcases call_agrees H' R c with ⟨_, he⟩ | ⟨value, bytes, t, A'', he, _, H''⟩
    · rw [hc] at he
      rcases he with he | he <;> cases he
    · rw [hc] at he
      obtain ⟨rfl, rfl, rfl⟩ : _ ∧ _ ∧ _ := by
        injection he with he
        exact ⟨congrArg Prod.fst he, congrArg (fun x => x.2.1) he, congrArg (fun x => x.2.2) he⟩
      exact ⟨A'', H''⟩

/-! ## The beginning -/

/-- The first `lfsopen` reads the directory. -/
theorem loaded_init (disk : Disk) (lfdev : Fin 6 → Int) :
    (init disk lfdev).loaded = { init disk lfdev with lf_dir := (init disk lfdev).onDisk, lf_dirpresent := true } :=
  if_neg Bool.false_ne_true

theorem not_used_init (disk : Disk) (lfdev : Fin 6 → Int) (d : Fin 6) : ¬(init disk lfdev).used d := by
  rw [used]
  intro h
  cases h

/-- The layout of a disk without files. -/
def freeLayout (disk : Disk) (il dl : List Int32) : Layout where
  ix := lfibget disk
  dat := disk.sector
  ilist o := if o = none then il else []
  dlist o := if o = none then dl else []

/-- The free list has all blocks. -/
theorem splits_free {P : Int32 → Prop} {l : List Int32} (hn : l.Nodup) (hmem : ∀ x, x ∈ l ↔ P x) :
    Table.Splits P fun o : Option (Fin 20) => if o = none then l else [] := by
  refine ⟨⟨fun o => ?_, fun o o' ho x hx hx' => ?_⟩, fun x => ?_⟩
  · split
    · exact hn
    · exact List.nodup_nil
  · split at hx
    · rename_i h
      split at hx'
      · rename_i h'
        exact ho (h.trans h'.symm)
      · cases hx'
    · cases hx
  · rw [← hmem]
    refine ⟨fun h => ⟨none, h⟩, fun ⟨o, h⟩ => ?_⟩
    split at h
    · exact h
    · cases h

/-- A formatted disk stores no files. -/
theorem formatted_stores (F : Formatted disk disk' S N) (hb : disk'.bad = false) (R : Room S N) :
    Stores S N lfdev (init disk' lfdev) Files.empty := by
  obtain ⟨il, hic, hip⟩ := F.index
  obtain ⟨dl, hdc, hdp⟩ := F.data
  obtain ⟨hin, him⟩ := index_list R
  obtain ⟨hdn, hdm⟩ := data_list R
  have hl := loaded_init disk' lfdev
  have hunused := not_used_init disk' lfdev
  have hzero : (init disk' lfdev).loaded.lf_dir.lfd_nfiles.toInt = 0 := by
    rw [hl]
    exact congrArg Int32.toInt F.empty
  have hnofile : ∀ f, ¬IsFile (init disk' lfdev).loaded.lf_dir f := by
    intro f hf
    rw [IsFile, hzero] at hf
    omega
  refine ⟨⟨freeLayout disk' il dl, ?_, ?_⟩, ?_, Or.inr hunused, fun h => ?_⟩
  · refine ⟨?_, ⟨by omega, by omega⟩, splits_free (hip.nodup_iff.mpr hin) fun i => hip.mem_iff.trans (him i),
      splits_free (hdp.nodup_iff.mpr hdn) fun n => hdp.mem_iff.trans (hdm n), ?_, ?_, fun f hf => absurd hf (hnofile f),
      fun f _ => ⟨rfl, rfl⟩, fun i _ => Or.inl ?_, fun n _ => Or.inl ?_, fun d hd => ?_, fun d e hd => ?_,
      fun f g hf => absurd hf (hnofile f)⟩
    · rw [hl]
      exact hb
    · rw [hl]
      exact hic
    · rw [hl]
      exact hdc
    · rw [hl]
      rfl
    · rw [hl]
      rfl
    · rw [hl] at hd
      exact absurd hd (hunused d)
    · rw [hl] at hd
      exact absurd hd (hunused d)
  · refine ⟨?_, fun f hf => absurd hf (hnofile f), fun d => ?_, fun d => ?_⟩
    · rw [filesOf, hzero]
      rfl
    · rw [if_neg]
      · rfl
      · rw [hl]
        exact hunused d
    · rw [hl]
      rfl
  · rw [hl]
    exact ⟨F.valid, Or.inr (Image.refl F.valid)⟩
  · cases h

/-- `lfscreate` formats a disk with an index block and room for a data block, unless it rejects its arguments. -/
theorem lfscreate_stores (lfdev : Fin 6 → Int) {lfiblks : Int32} {dsiz : UInt32} (hb : disk.bad = false)
    (hroom : 1 ≤ (indexSectors lfiblks).toNat ∧ 3 ≤ dsiz.toNat / 512) (hc : lfscreate disk lfiblks dsiz = (OK, disk')) :
    Room (indexSectors lfiblks).toNat (dsiz.toNat / 512) ∧
      Stores (indexSectors lfiblks).toNat (dsiz.toNat / 512) lfdev (init disk' lfdev) Files.empty := by
  have hlt : dsiz.toNat < 2 ^ 32 := dsiz.toNat_lt
  have hne : ¬SYSERR = OK := by decide
  have hfit : ¬dsiz.toNat / 512 / 2 < (indexSectors lfiblks).toNat := by
    intro h
    rw [lfscreate_rejects h] at hc
    exact hne (congrArg Prod.fst hc)
  have R : Room (indexSectors lfiblks).toNat (dsiz.toNat / 512) := ⟨hroom.1, by omega, by omega⟩
  refine ⟨R, ?_⟩
  have hsub : (dsiz / 512 - indexSectors lfiblks - 1 - 1).toNat = dsiz.toNat / 512 - (indexSectors lfiblks).toNat - 2 := by
    have h1 : (1 : UInt32).toNat = 1 := rfl
    rw [UInt32.toNat_sub, UInt32.toNat_sub, UInt32.toNat_sub, h1, sectors_toNat]
    omega
  rw [lfscreate_eq hb hfit, hsub] at hc
  obtain rfl := congrArg Prod.snd hc
  obtain ⟨h1, _⟩ := withIndex_spec hb (S := (indexSectors lfiblks).toNat) (by omega)
  obtain ⟨g1, _⟩ := withData_spec (S := (indexSectors lfiblks).toNat) (n := dsiz.toNat / 512 - (indexSectors lfiblks).toNat - 2)
    h1.good (by omega)
  exact formatted_stores (formatted_of_room hb R.index R.data (by omega)) g1.good R

/-! ## Another start -/

/-- With no file open, the disk stores the files, up to some of the last ones, which have no bytes. -/
theorem Stores.restart (H : Stores S N lfdev s A) (lfdev' : Fin 6 → Int) (hc : ∀ d, ¬s.used d) :
    ∃ n, (∀ name ∈ A.names.drop n, A.content name = []) ∧
      Stores S N lfdev' (init s.disk lfdev') (A.restart n) := by
  obtain ⟨L, W, r⟩ := H.whole
  have hdisk : s.loaded.disk = s.disk := by
    unfold loaded
    split <;> rfl
  have hclosed : ∀ d, ¬s.loaded.used d := fun d => by
    rw [used, loaded_lfltab]
    exact hc d
  have hclean : s.loaded.lf_dirdirty = s.lf_dirdirty := by
    unfold loaded
    split <;> rfl
  have I : Image s.onDisk s.loaded.lf_dir := by
    have h := H.saved.image.resolve_left fun h => by
      obtain ⟨d, hd⟩ := H.dirty (hclean.symm.trans h)
      exact hc d hd
    rw [onDisk, hdisk] at h
    exact h
  have hl : (init s.disk lfdev').loaded = { init s.disk lfdev' with lf_dir := s.onDisk, lf_dirpresent := true } :=
    loaded_init s.disk lfdev'
  have hunused := not_used_init s.disk lfdev'
  have hle : s.onDisk.lfd_nfiles.toInt ≤ s.loaded.lf_dir.lfd_nfiles.toInt := I.nfiles
  have hfile : ∀ f, IsFile s.onDisk f → IsFile s.loaded.lf_dir f := fun f hf => by
    rw [IsFile] at hf ⊢
    omega
  have hname : ∀ f, IsFile s.onDisk f → fileName s.onDisk f = fileName s.loaded.lf_dir f := fun f hf => by
    rw [fileName, I.files f hf, fileName]
  have hnil : ∀ f, ¬IsFile s.onDisk f → L.ilist (some f) = [] ∧ L.dlist (some f) = [] := by
    intro f hf
    by_cases hin : IsFile s.loaded.lf_dir f
    · have hsize := (I.fresh f (Int.not_lt.mp hf) hin).1
      obtain ⟨_, T⟩ := W.file f hin
      have h1 := T.index
      have h2 := T.data
      rw [hsize] at h1 h2
      exact ⟨List.length_eq_zero_iff.mp h1, List.length_eq_zero_iff.mp h2⟩
    · exact W.nofile f hin
  have htake : filesOf s.onDisk = (filesOf s.loaded.lf_dir).take s.onDisk.lfd_nfiles.toInt.toNat := by
    rw [filesOf, filesOf, List.take_take, Nat.min_eq_left (by omega)]
  refine ⟨s.onDisk.lfd_nfiles.toInt.toNat, fun name hmem => ?_, ⟨L, ?_, ?_⟩, ?_, Or.inr hunused, fun h => ?_⟩
  · rw [r.names, ← List.map_drop] at hmem
    obtain ⟨f, hf, rfl⟩ := List.mem_map.mp hmem
    have hin := mem_filesOf.mp (List.mem_of_mem_drop hf)
    have hnot : ¬IsFile s.onDisk f := by
      rw [← mem_filesOf, htake]
      exact fun h => List.disjoint_take_drop ((List.nodup_finRange 20).sublist (List.take_sublist _ _)) (Nat.le_refl _) h hf
    rw [r.content f hin, Layout.bytes, (I.fresh f (Int.not_lt.mp hnot) hin).1]
    rfl
  · rw [hl]
    refine ⟨?_, ⟨nfiles_nonneg I.valid, hle.trans W.nfiles.2⟩, W.index, W.data, ?_, ?_, fun f hf => ?_, hnil, fun i hi => Or.inl ?_,
      fun n hn => Or.inl ?_, fun d hd => absurd hd (hunused d), fun d e hd => absurd hd (hunused d), fun f g hf hg h => ?_⟩
    · rw [← hdisk]
      exact W.good
    · exact I.ifree.symm ▸ W.ifree
    · exact I.dfree.symm ▸ W.dfree
    · rw [show s.onDisk.lfd_files f = _ from I.files f hf]
      exact W.file f (hfile f hf)
    · refine ((W.icached i hi).resolve_right ?_).trans (by rw [hdisk]; rfl)
      rintro ⟨d, hd, _⟩
      exact hclosed d hd
    · refine ((W.dcached n hn).resolve_right ?_).trans (by rw [hdisk]; rfl)
      rintro ⟨d, hd, _⟩
      exact hclosed d hd
    · refine W.names f g (hfile f hf) (hfile g hg) ?_
      rw [← hname f hf, ← hname g hg]
      exact h
  · rw [hl]
    refine ⟨?_, fun f hf => ?_, fun d => ?_, fun d => rfl⟩
    · rw [Files.restart, htake, r.names, ← List.map_take]
      refine List.map_congr_left fun f hf => ?_
      rw [← htake] at hf
      exact (hname f (mem_filesOf.mp hf)).symm
    · rw [Files.restart, hname f hf, r.content f (hfile f hf), show s.onDisk.lfd_files f = _ from I.files f hf]
    · rw [if_neg]
      · rfl
      · exact hunused d
  · rw [hl]
    exact ⟨I.valid, Or.inr (Image.refl I.valid)⟩
  · cases h

end

end Lfs

end Xinu
