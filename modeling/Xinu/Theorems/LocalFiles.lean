import Xinu.Lfs.Runs

/-!
# The local file system stores files

A disk that `lfscreate` has formatted behaves as files under names, through all calls on all devices and across a new start. Two
results here are about whole runs, and the third one is about the blocks in every state that calls lead to.
-/

namespace Xinu

open Lfs

/-- An index block as the calls see it: in the memory of the open file that has changed it, or else on the disk. -/
def Lfs.indexBlock (s : Lfs) (i : Int32) : Lfiblk :=
  match (List.finRange 6).find? fun d => decide (s.used d ∧ (s.lfltab d).lfibdirty = true ∧ (s.lfltab d).lfinum = i) with
  | some d => (s.lfltab d).lfiblock
  | none => lfibget s.disk i

/-- The blocks of the disk are shared out among the free lists (`none`) and the files, and the index blocks say so. -/
structure Lfs.Shared (S N : Nat) (s : Lfs) (ilist dlist : Option (Fin 20) → List Int32) : Prop where
  /-- Every index block and every data block is once on exactly one list. -/
  index : Table.Splits (IsIndex S) ilist
  data : Table.Splits (IsData S N) dlist
  ifree : Table.Chain (fun i => (lfibget s.disk i).ib_next) LF_INULL s.lf_dir.lfd_ifree (ilist none)
  dfree : Table.Chain (fun n => (s.disk.sector n).nextdb) LF_DNULL s.lf_dir.lfd_dfree (dlist none)
  file : ∀ f, IsFile s.lf_dir f → Table.Chain (fun i => (s.indexBlock i).ib_next) LF_INULL (s.lf_dir.lfd_files f).ld_ilist (ilist (some f))
  entry : ∀ f, IsFile s.lf_dir f → ∀ k i, (ilist (some f))[k]? = some i → (s.indexBlock i).ib_offset.toNat = 8192 * k ∧
    ∀ j : Fin 16, (s.indexBlock i).ib_dba j = (dlist (some f)).getD (16 * k + j) LF_DNULL
  /-- A file has the blocks that its bytes need. -/
  size : ∀ f, IsFile s.lf_dir f → (ilist (some f)).length = ((s.lf_dir.lfd_files f).ld_size.toNat + 8191) / 8192 ∧
    (dlist (some f)).length = ((s.lf_dir.lfd_files f).ld_size.toNat + 511) / 512
  nofile : ∀ f, ¬IsFile s.lf_dir f → ilist (some f) = [] ∧ dlist (some f) = []

section

variable {S N : Nat} {s : Lfs} {L : Layout}

/-- The index block of the layout. -/
theorem Lfs.Whole.indexBlock (W : Whole S N s L) {i : Int32} (hi : IsIndex S i) : s.indexBlock i = L.ix i := by
  rw [Lfs.indexBlock]
  split
  · rename_i d hd
    have h := List.find?_some hd
    simp only [decide_eq_true_eq] at h
    obtain ⟨hu, hdirty, rfl⟩ := h
    refine ((W.opened d hu).index.resolve_left fun h => ?_).2
    rw [hdirty] at h
    cases h.2
  · rename_i hnone
    refine ((W.icached i hi).resolve_right ?_).symm
    rintro ⟨d, h⟩
    exact absurd (decide_eq_true h) (List.find?_eq_none.mp hnone d (List.mem_finRange d))

theorem Lfs.Whole.shared (W : Whole S N s L) : s.Shared S N L.ilist L.dlist := by
  have hindex : ∀ o, ∀ i ∈ L.ilist o, s.indexBlock i = L.ix i := fun o i hi => W.indexBlock ((W.index.mem i).mpr ⟨o, hi⟩)
  refine ⟨W.index, W.data, W.ifree.frame fun i hi => ?_, W.dfree.frame fun n hn => ?_, fun f hf => ?_, fun f hf k i hk => ?_,
    fun f hf => ?_, W.nofile⟩
  · refine congrArg Lfiblk.ib_next ((W.icached i ((W.index.mem i).mpr ⟨none, hi⟩)).resolve_right ?_).symm
    rintro ⟨d, hd, hdirty, rfl⟩
    exact Option.some_ne_none _ (W.index.unique (W.dirty_index hd hdirty) hi)
  · refine congrArg Sector.nextdb ((W.dcached n ((W.data.mem n).mpr ⟨none, hn⟩)).resolve_right ?_).symm
    rintro ⟨d, hd, hdirty, rfl⟩
    exact Option.some_ne_none _ (W.data.unique (W.dirty_data hd hdirty) hn)
  · exact (W.file f hf).1.chain.frame fun i hi => congrArg Lfiblk.ib_next (hindex _ i hi)
  · rw [hindex (some f) i (List.mem_of_getElem? hk)]
    exact (W.file f hf).1.index k i hk
  · obtain ⟨_, T⟩ := W.file f hf
    exact ⟨T.index, T.data⟩

end

section

variable {V : Volume} {A : Files} {s s' : Lfs} {c c' : LfsCall} {cs cs' : List LfsCall}

/-- Two calls that differ in no more than whether the mode asks for reading and for writing. -/
inductive Lfs.LfsCall.Alike : LfsCall → LfsCall → Prop where
  | same (c : LfsCall) : Alike c c
  | mode (name : List UInt8) {mode mode' : List Char}
      (h : (lfgetmode mode).map (fun mbits => (mbits.o, mbits.n)) = (lfgetmode mode').map fun mbits => (mbits.o, mbits.n)) :
      Alike (.lfsopen name mode) (.lfsopen name mode')

theorem Files.lfsopen_alike (name : List UInt8) {mode mode' : List Char}
    (h : (lfgetmode mode).map (fun mbits => (mbits.o, mbits.n)) = (lfgetmode mode').map fun mbits => (mbits.o, mbits.n)) :
    A.lfsopen V name mode = A.lfsopen V name mode' := by
  unfold Files.lfsopen
  cases hm : lfgetmode mode with
  | none =>
    rw [hm, Option.map_none] at h
    rw [Option.map_eq_none_iff.mp h.symm]
  | some mbits =>
    rw [hm, Option.map_some] at h
    obtain ⟨mbits', hm', he⟩ := Option.map_eq_some_iff.mp h.symm
    obtain ⟨ho, hn⟩ := Prod.mk.inj he
    rw [hm']
    dsimp only
    cases A.slot (name.takeWhile (· ≠ 0)) with
    | none => rfl
    | some d => simp only [ho, hn]

theorem Files.call_alike (h : c.Alike c') : A.call V c = A.call V c' := by
  cases h with
  | same => rfl
  | mode name h => simp only [Files.call, Files.lfsopen_alike name h]

/-- The induction is on the pairs of calls. -/
theorem Files.run_alike (h : List.Forall₂ LfsCall.Alike cs cs') : A.run V cs = A.run V cs' := by
  induction h generalizing A with
  | nil => rfl
  | cons hc _ ih => simp only [Files.run, Files.call_alike hc, ih]

/-- What the calls return says which files they are for. -/
theorem Lfs.RunsAs.values (h : RunsAs V s A cs) : (s.run cs).toOption.map Prod.fst = (A.run V cs).map Prod.fst := by
  rcases h with ⟨hspec, he | he⟩ | ⟨values, s', A', he, hspec⟩ <;> rw [hspec, he] <;> rfl

end

/-- The calls on a disk that `lfscreate` has formatted return what they return for byte lists under names. They panic at the first
write after which the files would need more blocks than the disk has. -/
theorem lfscreate_runsAs (disk : Disk) (lfiblks : Int32) (dsiz : UInt32) (lfdev : Fin 6 → Int) (cs : List LfsCall)
    (hb : disk.bad = false) (hroom : 1 ≤ (indexSectors lfiblks).toNat ∧ 3 ≤ dsiz.toNat / 512)
    (hc : (lfscreate disk lfiblks dsiz).1 = OK) :
    RunsAs (volume (indexSectors lfiblks).toNat (dsiz.toNat / 512) lfdev) (init (lfscreate disk lfiblks dsiz).2 lfdev) Files.empty cs := by
  obtain ⟨R, H⟩ := lfscreate_stores lfdev hb hroom (Prod.ext hc rfl)
  exact H.runsAs R cs

/-- On a disk of four sectors, a byte is written to a new file and read back. -/
theorem fresh_runsAs : RunsAs (volume (indexSectors 7).toNat ((2048 : UInt32).toNat / 512) fun d => d.val)
    (init (lfscreate freshDisk 7 2048).2 fun d => d.val) Files.empty
    [.lfsopen [97] ['n'], .lflputc 0 98, .lflseek 0 0, .lflgetc 0, .lflclose 0] :=
  lfscreate_runsAs freshDisk 7 2048 (fun d => d.val) _ rfl (by decide) (by rw [lfscreate_eq rfl (by decide)])

/-- Whether a file was opened for reading or for writing makes no difference: all calls return the same. -/
theorem lfscreate_modes (disk : Disk) (lfiblks : Int32) (dsiz : UInt32) (lfdev : Fin 6 → Int) (cs cs' : List LfsCall)
    (hb : disk.bad = false) (hroom : 1 ≤ (indexSectors lfiblks).toNat ∧ 3 ≤ dsiz.toNat / 512)
    (hc : (lfscreate disk lfiblks dsiz).1 = OK) (halike : List.Forall₂ LfsCall.Alike cs cs') :
    ((init (lfscreate disk lfiblks dsiz).2 lfdev).run cs).toOption.map Prod.fst =
      ((init (lfscreate disk lfiblks dsiz).2 lfdev).run cs').toOption.map Prod.fst := by
  obtain ⟨R, H⟩ := lfscreate_stores lfdev hb hroom (Prod.ext hc rfl)
  rw [(H.runsAs R cs).values, (H.runsAs R cs').values, Files.run_alike halike]

/-- A byte is written to a file that was opened for reading. -/
theorem fresh_modes :
    ((init (lfscreate freshDisk 7 2048).2 fun d => d.val).run [.lfsopen [97] ['r', 'n'], .lflputc 0 98]).toOption.map Prod.fst =
      ((init (lfscreate freshDisk 7 2048).2 fun d => d.val).run [.lfsopen [97] ['w', 'n'], .lflputc 0 98]).toOption.map Prod.fst :=
  lfscreate_modes freshDisk 7 2048 (fun d => d.val) _ _ rfl (by decide) (by rw [lfscreate_eq rfl (by decide)])
    (.cons (.mode [97] (by decide)) (.cons (.same _) .nil))

/-- In every state that calls lead to, each block is once on exactly one list, and each file has the blocks that its size needs. -/
theorem lfscreate_shared (disk : Disk) (lfiblks : Int32) (dsiz : UInt32) (lfdev : Fin 6 → Int) (s : Lfs)
    (hb : disk.bad = false) (hroom : 1 ≤ (indexSectors lfiblks).toNat ∧ 3 ≤ dsiz.toNat / 512)
    (hc : (lfscreate disk lfiblks dsiz).1 = OK) (hr : Reach (init (lfscreate disk lfiblks dsiz).2 lfdev) s) :
    ∃ ilist dlist, s.loaded.Shared (indexSectors lfiblks).toNat (dsiz.toNat / 512) ilist dlist := by
  obtain ⟨R, H⟩ := lfscreate_stores lfdev hb hroom (Prod.ext hc rfl)
  obtain ⟨A, H'⟩ := H.reach R hr
  obtain ⟨L, W, _⟩ := H'.whole
  exact ⟨L.ilist, L.dlist, W.shared⟩

/-- On the same disk, a byte is written to a new file. -/
theorem fresh_shared : ∃ s ilist dlist, ((init (lfscreate freshDisk 7 2048).2 fun d => d.val).lfsopen [97] ['n']).2.lflputc 0 98 =
      .ok (OK, s) ∧ (s.file 0).ld_size = 1 ∧ s.loaded.Shared (indexSectors 7).toNat ((2048 : UInt32).toNat / 512) ilist dlist := by
  generalize hs₁ : ((init (lfscreate freshDisk 7 2048).2 fun d => d.val).lfsopen [97] ['n']).2 = s₁
  have hput : (s₁.lflputc 0 98).toOption.map (fun x => (x.1, (x.2.file 0).ld_size)) = some (OK, 1) := by
    rw [← hs₁]
    decide +kernel
  cases hc : s₁.lflputc 0 98 with
  | error e =>
    rw [hc] at hput
    cases hput
  | ok x =>
    obtain ⟨v, s⟩ := x
    rw [hc] at hput
    obtain ⟨rfl, hsize⟩ := Prod.mk.inj (Option.some.inj hput)
    have r₁ : Reach (init (lfscreate freshDisk 7 2048).2 fun d => d.val) s₁ := Reach.step (.lfsopen [97] ['n']) .refl (by rw [← hs₁]; rfl)
    have r : Reach (init (lfscreate freshDisk 7 2048).2 fun d => d.val) s := Reach.step (.lflputc 0 98) r₁ (by rw [Lfs.call, hc]; rfl)
    obtain ⟨ilist, dlist, hshared⟩ :=
      lfscreate_shared freshDisk 7 2048 (fun d => d.val) s rfl (by decide) (by rw [lfscreate_eq rfl (by decide)]) r
    exact ⟨s, ilist, dlist, rfl, hsize, hshared⟩

/-- When no file is open at the end, a new start finds the files with their bytes on the disk, up to some of the last ones that
were created, and these have no bytes. -/
theorem lfscreate_restart (disk : Disk) (lfiblks : Int32) (dsiz : UInt32) (lfdev lfdev' : Fin 6 → Int) (cs : List LfsCall)
    (values : List (Int × List UInt8)) (s : Lfs) (hb : disk.bad = false)
    (hroom : 1 ≤ (indexSectors lfiblks).toNat ∧ 3 ≤ dsiz.toNat / 512) (hc : (lfscreate disk lfiblks dsiz).1 = OK)
    (hrun : (init (lfscreate disk lfiblks dsiz).2 lfdev).run cs = .ok (values, s)) (hclosed : ∀ d, ¬s.used d) :
    ∃ A n, Files.run (volume (indexSectors lfiblks).toNat (dsiz.toNat / 512) lfdev) Files.empty cs = some (values, A) ∧
      (∀ name ∈ A.names.drop n, A.content name = []) ∧
      ∀ cs', RunsAs (volume (indexSectors lfiblks).toNat (dsiz.toNat / 512) lfdev') (init s.disk lfdev') (A.restart n) cs' := by
  obtain ⟨R, H⟩ := lfscreate_stores lfdev hb hroom (Prod.ext hc rfl)
  rcases run_agrees R cs H with ⟨_, he⟩ | ⟨values', s', A, he, hspec, H'⟩
  · rw [hrun] at he
    rcases he with he | he <;> cases he
  · rw [hrun] at he
    obtain ⟨rfl, rfl⟩ := Prod.mk.inj (Except.ok.inj he)
    obtain ⟨n, hlost, Hn⟩ := H'.restart lfdev' hclosed
    exact ⟨A, n, hspec, hlost, fun cs' => Hn.runsAs R cs'⟩

/-- The first run: a byte is written to a new file, and the file is closed. A new start finds it. -/
theorem fresh_restart : ∃ (s : Lfs) (A : Files) (n : Nat), (init (lfscreate freshDisk 7 2048).2 fun d => d.val).run
      [.lfsopen [97] ['n'], .lflputc 0 98, .lflclose 0] = .ok ([(0, []), (OK, []), (OK, [])], s) ∧
    A.content [97] = [98] ∧ (∀ name ∈ A.names.drop n, A.content name = []) ∧
    ∀ cs', RunsAs (volume (indexSectors 7).toNat ((2048 : UInt32).toNat / 512) fun d => d.val) (init s.disk fun d => d.val)
      (A.restart n) cs' := by
  have hrun : ((init (lfscreate freshDisk 7 2048).2 fun d => d.val).run [.lfsopen [97] ['n'], .lflputc 0 98, .lflclose 0]).toOption.map
      (fun x => (x.1, decide (∀ d, ¬x.2.used d))) = some ([(0, []), (OK, []), (OK, [])], true) := by decide +kernel
  cases hr : (init (lfscreate freshDisk 7 2048).2 fun d => d.val).run [.lfsopen [97] ['n'], .lflputc 0 98, .lflclose 0] with
  | error e =>
    rw [hr] at hrun
    cases hrun
  | ok x =>
    obtain ⟨values, s⟩ := x
    rw [hr] at hrun
    obtain ⟨rfl, hclosed⟩ := Prod.mk.inj (Option.some.inj hrun)
    obtain ⟨A, n, hspec, hlost, hnext⟩ := lfscreate_restart freshDisk 7 2048 (fun d => d.val) (fun d => d.val) _ _ s rfl (by decide)
      (by rw [lfscreate_eq rfl (by decide)]) hr (of_decide_eq_true hclosed)
    have hbyte : (Files.run (volume (indexSectors 7).toNat ((2048 : UInt32).toNat / 512) fun d => d.val) Files.empty
        [.lfsopen [97] ['n'], .lflputc 0 98, .lflclose 0]).map (fun x => x.2.content [97]) = some [98] := by decide +kernel
    rw [hspec] at hbyte
    exact ⟨s, A, n, rfl, Option.some.inj hbyte, hlost, hnext⟩

end Xinu
