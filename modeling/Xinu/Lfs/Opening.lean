import Xinu.Lfs.Stores

/-!
# `lfsopen`

The directory is read when it is not in memory, a file is found by its name or becomes the next entry of the directory, and a device
gets it open at position 0.
-/

namespace Xinu

namespace Lfs

section

variable {S N : Nat} {s s' : Lfs} {L : Layout} {d : Fin 6} {f : Fin 20} {A : Files} {lfdev : Fin 6 → Int} {name : List UInt8}
  {mbits : Mode}

/-! ## The directory -/

/-- The check of the directory does not depend on how many files there are. -/
theorem lfscheck_nfiles {dir : Lfdir} (h : lfscheck dir = OK) {n : Int32} (hn : 0 ≤ n.toInt) :
    lfscheck { dir with lfd_nfiles := n } = OK := by
  have hne : ¬SYSERR = OK := by decide
  have hneg : ¬n < 0 := by
    rw [Int32.lt_iff_toInt_lt]
    exact Int.not_lt.mpr hn
  unfold lfscheck at h ⊢
  split at h
  · exact absurd h hne
  · rename_i hid
    rw [if_neg hid]
    split at h
    · exact absurd h hne
    · rename_i hrev
      rw [if_neg hrev, if_neg hneg]

/-- Reading the directory from the disk changes nothing that is stored. -/
theorem Stores.load (H : Stores S N lfdev s A) : Stores S N lfdev s.loaded A := by
  have hp : s.loaded.lf_dirpresent = true := by
    unfold loaded
    split
    · assumption
    · rfl
  have hl := loaded_eq hp
  refine ⟨?_, ?_, Or.inl hp, fun h => ?_⟩
  · rw [hl]
    exact H.whole
  · rw [hl]
    exact H.saved
  · have hd : s.loaded.lf_dirdirty = s.lf_dirdirty := by
      unfold loaded
      split <;> rfl
    obtain ⟨e, he⟩ := H.dirty (hd ▸ h)
    refine ⟨e, ?_⟩
    rw [used, loaded_lfltab]
    exact he

/-- The directory is read, or it is there. -/
theorem Stores.loadDir_eq (H : Stores S N lfdev s A) : s.loadDir = (OK, s.loaded) := by
  obtain ⟨L, W, _⟩ := H.whole
  have hok : ¬OK = SYSERR := by decide
  have hvalid := H.saved.valid
  have hgood := W.good
  unfold loadDir
  unfold loaded at hvalid hgood ⊢
  by_cases hp : s.lf_dirpresent = true
  · rw [if_pos hp, if_pos hp]
  · rw [if_neg hp] at hvalid hgood
    have hread : s.disk.read s.lf_dir.bytes LF_AREA_DIR = (OK, s.disk.sector LF_AREA_DIR) := read_eq hgood _ _
    have hcheck : ¬lfscheck (Lfdir.ofBytes (s.disk.sector LF_AREA_DIR)) = SYSERR := by
      intro h
      exact hok (hvalid.symm.trans h)
    rw [if_neg hp, if_neg hp, hread]
    simp only [if_neg hok, if_neg hcheck, onDisk]

/-- The search for a device that is free. -/
theorem Stores.openSlot_eq (H : Stores S N lfdev s A) (hn : IsName name) : s.openSlot name = A.slot name := by
  obtain ⟨L, W, r⟩ := H.whole
  have hopen : ∀ e, (decide (s.used e) && sameName (s.lfltab e).lfname 0 name) = decide ((A.opened e).map Prod.fst = some name) := by
    intro e
    by_cases hu : s.used e
    · have hu' : s.loaded.used e := by
        rw [used, loaded_lfltab]
        exact hu
      have hname := (W.opened e hu').name
      rw [r.opened, if_pos hu', ← hname, loaded_lfltab, decide_eq_true hu, Bool.true_and, Bool.eq_iff_iff, decide_eq_true_eq]
      simp only [Option.map_some, Option.some.injEq]
      exact sameName_iff hn
    · rw [decide_eq_false hu, Bool.false_and, H.opened_none hu]
      rfl
  have hfree : ∀ e, decide ((s.lfltab e).lfstate = .LF_FREE) = (A.opened e).isNone := by
    intro e
    by_cases hu : s.used e
    · have hne : ¬(s.lfltab e).lfstate = .LF_FREE := by
        intro h
        rw [used, h] at hu
        cases hu
      have hu' : s.loaded.used e := by
        rw [used, loaded_lfltab]
        exact hu
      rw [decide_eq_false hne, r.opened, if_pos hu']
      rfl
    · have hstate : (s.lfltab e).lfstate = .LF_FREE := by
        cases h : (s.lfltab e).lfstate with
        | LF_FREE => rfl
        | LF_USED => exact absurd h hu
      rw [decide_eq_true hstate, H.opened_none hu]
      rfl
  simp only [openSlot, Files.slot, hopen, hfree]

/-- A device that was found is free, and no open file has the name. -/
theorem slot_spec (h : A.slot name = some d) : A.opened d = none ∧ ∀ e pos, A.opened e ≠ some (name, pos) := by
  unfold Files.slot at h
  split at h
  · cases h
  · rename_i hany
    have hfree : (A.opened d).isNone = true := by simpa using List.find?_some h
    refine ⟨Option.isNone_iff_eq_none.mp hfree, fun e pos he => hany ?_⟩
    refine List.any_eq_true.mpr ⟨e, List.mem_finRange e, ?_⟩
    rw [he, decide_eq_true_eq]
    rfl

/-- The search in the directory finds the file of the name. -/
theorem findFile_some {dir : Lfdir} (hn : IsName name) (h : findFile dir name = some f) : IsFile dir f ∧ fileName dir f = name := by
  have hp := List.find?_some h
  rw [Bool.and_eq_true, decide_eq_true_eq, sameName_iff hn] at hp
  exact hp

theorem findFile_none {dir : Lfdir} (hn : IsName name) (h : findFile dir name = none) (hf : IsFile dir f) : fileName dir f ≠ name := by
  intro he
  have hp := List.find?_eq_none.mp h f (List.mem_finRange f)
  rw [Bool.and_eq_true, decide_eq_true_eq, sameName_iff hn] at hp
  exact hp ⟨hf, he⟩

/-! ## A new file -/

/-- The entry of a file that was created. -/
def newEntry (dir : Lfdir) (f : Fin 20) (name : List UInt8) : Ldentry where
  ld_size := 0
  ld_ilist := LF_INULL
  ld_name := copyName (dir.lfd_files f).ld_name name

/-- The first entry of the directory that is not in use. -/
structure Next (dir : Lfdir) (f : Fin 20) : Prop where
  nonneg : 0 ≤ dir.lfd_nfiles.toInt
  next : (f : Int) = dir.lfd_nfiles.toInt

theorem newFile_dir (f : Fin 20) (name : List UInt8) : (s.newFile f name).lf_dir = { s.lf_dir with
    lfd_nfiles := s.lf_dir.lfd_nfiles + 1
    lfd_files := Function.update s.lf_dir.lfd_files f (newEntry s.lf_dir f name) } := rfl

/-- A new file is one file more. -/
theorem Next.toInt (h : Next s.lf_dir f) (name : List UInt8) :
    (s.newFile f name).lf_dir.lfd_nfiles.toInt = s.lf_dir.lfd_nfiles.toInt + 1 := by
  have hlt := f.isLt
  have h1 : (1 : Int32).toInt = 1 := rfl
  have hnext := h.next
  rw [newFile_dir]
  simp only
  rw [Int32.toInt_add, h1, Int.bmod_eq_of_le (by omega) (by omega)]

theorem Next.isFile (h : Next s.lf_dir f) (name : List UInt8) (g : Fin 20) :
    IsFile (s.newFile f name).lf_dir g ↔ IsFile s.lf_dir g ∨ g = f := by
  have hnext := h.next
  rw [IsFile, IsFile, h.toInt, Fin.ext_iff]
  omega

theorem Next.ne (h : Next s.lf_dir f) {g : Fin 20} (hg : IsFile s.lf_dir g) : g ≠ f := by
  rintro rfl
  have hnext := h.next
  rw [IsFile] at hg
  omega

theorem newFile_files {g : Fin 20} (hg : g ≠ f) (name : List UInt8) :
    (s.newFile f name).lf_dir.lfd_files g = s.lf_dir.lfd_files g := by
  rw [newFile_dir]
  exact Function.update_of_ne hg _ _

theorem newFile_self (f : Fin 20) (name : List UInt8) :
    (s.newFile f name).lf_dir.lfd_files f = newEntry s.lf_dir f name := by
  rw [newFile_dir]
  exact Function.update_self _ _ _

theorem newFile_name (hn : IsName name) (f : Fin 20) : fileName (s.newFile f name).lf_dir f = name := by
  rw [fileName, newFile_self, newEntry, fieldName_copyName hn]

theorem newFile_name_of_ne {g : Fin 20} (hg : g ≠ f) : fileName (s.newFile f name).lf_dir g = fileName s.lf_dir g := by
  rw [fileName, newFile_files hg, fileName]

/-- A new file has no blocks, and its name is new. -/
theorem Whole.newFile (W : Whole S N s L) (h : Next s.lf_dir f) (hn : IsName name)
    (hnew : ∀ g, IsFile s.lf_dir g → fileName s.lf_dir g ≠ name) : Whole S N (s.newFile f name) L := by
  have hlt := f.isLt
  have hnext := h.next
  have hnone := W.nofile f (fun hf => h.ne hf rfl)
  refine ⟨W.good, ?_, W.index, W.data, W.ifree, W.dfree, fun g hg => ?_, fun g hg => ?_, W.icached, W.dcached, fun e he => ?_,
    W.apart, fun g g' hg hg' he => ?_⟩
  · rw [h.toInt]
    omega
  · rcases (h.isFile name g).mp hg with hg | rfl
    · rw [newFile_files (h.ne hg)]
      exact W.file g hg
    · rw [newFile_self]
      have hzero : (newEntry s.lf_dir g name).ld_size = 0 := rfl
      refine ⟨⟨?_, fun k i hk => ?_, ?_, ?_⟩, ?_, ?_⟩
      · rw [hnone.1]
        rfl
      · rw [hnone.1] at hk
        cases hk
      · rw [hnone.2]
        exact Nat.zero_le _
      · exact Nat.zero_le _
      · rw [hnone.1, hzero]
        rfl
      · rw [hnone.2, hzero]
        rfl
  · rw [h.isFile, not_or] at hg
    exact W.nofile g hg.1
  · have O := W.opened e he
    have hfile : (s.newFile f name).file e = s.file e := newFile_files (h.ne O.file) name
    exact ⟨(h.isFile name _).mpr (Or.inl O.file), O.index, O.data, hfile ▸ O.pos,
      fun hb => ⟨(O.ready hb).block, (O.ready hb).byte⟩,
      O.name.trans (newFile_name_of_ne (h.ne O.file)).symm⟩
  · rcases (h.isFile name g).mp hg with hold | hself <;> rcases (h.isFile name g').mp hg' with hold' | hself'
    · rw [newFile_name_of_ne (h.ne hold), newFile_name_of_ne (h.ne hold')] at he
      exact W.names g g' hold hold' he
    · rw [newFile_name_of_ne (h.ne hold), hself', newFile_name hn] at he
      exact absurd he (hnew g hold)
    · rw [newFile_name_of_ne (h.ne hold'), hself, newFile_name hn] at he
      exact absurd he.symm (hnew g' hold')
    · rw [hself, hself']

/-- A new file is an empty one under its name. -/
theorem Represents.newFile (r : Represents lfdev s L A) (W : Whole S N s L) (h : Next s.lf_dir f) (hn : IsName name)
    (hnew : ∀ g, IsFile s.lf_dir g → fileName s.lf_dir g ≠ name) : Represents lfdev (s.newFile f name) L (A.create name) := by
  have hlt := f.isLt
  have hnext := h.next
  refine ⟨?_, fun g hg => ?_, fun e => ?_, r.dev⟩
  · have hfiles : filesOf (s.newFile f name).lf_dir = filesOf s.lf_dir ++ [f] := by
      have hnum : (s.newFile f name).lf_dir.lfd_nfiles.toInt.toNat = f + 1 := by
        rw [h.toInt]
        omega
      have hnum' : s.lf_dir.lfd_nfiles.toInt.toNat = f := by omega
      rw [filesOf, filesOf, hnum, hnum', List.take_add_one, List.getElem?_eq_getElem (by rw [List.length_finRange]; exact hlt),
        List.getElem_finRange]
      rfl
    rw [hfiles, List.map_append, List.map_singleton, newFile_name hn, Files.create]
    simp only
    rw [r.names]
    exact congrArg (· ++ [name]) (List.map_congr_left fun g hg => (newFile_name_of_ne (h.ne (mem_filesOf.mp hg))).symm)
  · change Function.update A.content name [] _ = _
    rcases (h.isFile name g).mp hg with hg | rfl
    · rw [newFile_name_of_ne (h.ne hg), Function.update_of_ne (hnew g hg), newFile_files (h.ne hg)]
      exact r.content g hg
    · rw [newFile_name hn, Function.update_self, newFile_self]
      rfl
  · have ho := r.opened e
    change A.opened e = _
    rw [ho]
    by_cases hu : s.used e
    · have hu' : (s.newFile f name).used e := hu
      rw [if_pos hu, if_pos hu']
      change _ = some (fileName (s.newFile f name).lf_dir (s.lfltab e).lfdirptr, _)
      rw [newFile_name_of_ne (h.ne (W.opened e hu).file)]
      rfl
    · have hu' : ¬(s.newFile f name).used e := hu
      rw [if_neg hu, if_neg hu']

/-- The new directory has still to be written. -/
theorem Saved.newFile (hs : Saved s) (h : Next s.lf_dir f) : Saved (s.newFile f name) := by
  have hlt := f.isLt
  have hnext := h.next
  have hv : lfscheck { s.lf_dir with lfd_files := Function.update s.lf_dir.lfd_files f (newEntry s.lf_dir f name) } = OK := hs.valid
  refine ⟨lfscheck_nfiles hv ?_, hs.image.imp id fun I => ?_⟩
  · have hint := h.toInt name
    rw [show (s.newFile f name).lf_dir.lfd_nfiles = s.lf_dir.lfd_nfiles + 1 from rfl] at hint
    change 0 ≤ (s.lf_dir.lfd_nfiles + 1).toInt
    omega
  · have hle := I.nfiles
    refine ⟨I.valid, I.ifree, I.dfree, ?_, fun g hg => ?_, fun g hg hg' => ?_⟩
    · rw [h.toInt]
      exact Int.le_trans hle (by omega)
    · have hg' : (g : Int) < s.onDisk.lfd_nfiles.toInt := hg
      have hne : g ≠ f := h.ne (by rw [IsFile]; omega)
      rw [newFile_files hne]
      exact I.files g hg
    · by_cases hgf : g = f
      · rw [hgf, newFile_self]
        exact ⟨rfl, rfl⟩
      · rcases (h.isFile name g).mp hg' with hfile | he
        · rw [newFile_files hgf]
          exact I.fresh g hg hfile
        · exact absurd he hgf

/-! ## The device -/

/-- The control block of a file that was opened. -/
def openEntry (lf : Lflcblk) (f : Fin 20) (name : List UInt8) (mbits : Mode) : Lflcblk :=
  { lf with
    lfstate := .LF_USED, lfdirptr := f, lfmode := { mbits with o := false, n := false }, lfpos := 0, lfname := copyName lf.lfname name
    lfinum := LF_INULL, lfdnum := LF_DNULL, lfbyte := LF_BLKSIZ, lfibdirty := false, lfdbdirty := false }

theorem openDevice_eq (s : Lfs) (d : Fin 6) (f : Fin 20) (name : List UInt8) (mbits : Mode) :
    s.openDevice d f name mbits = ((s.lfltab d).lfdev, s.setEntry d (openEntry (s.lfltab d) f name mbits)) := rfl

/-- A device is opened on a file that no other one has open. -/
theorem Whole.openDevice (W : Whole S N s L) (hfree : ¬s.used d) (hf : IsFile s.lf_dir f) (hn : IsName name)
    (hname : fileName s.lf_dir f = name) (hno : ∀ e, s.used e → (s.lfltab e).lfdirptr ≠ f) (mbits : Mode) :
    Whole S N (s.setEntry d (openEntry (s.lfltab d) f name mbits)) L := by
  have hother : ∀ e, s.used e → e ≠ d := by
    rintro e he rfl
    exact hfree he
  have hkeep : ∀ e, s.used e → (s.setEntry d (openEntry (s.lfltab d) f name mbits)).used e := by
    intro e he
    rw [used, setEntry_of_ne (hother e he)]
    exact he
  have hcase : ∀ e, (s.setEntry d (openEntry (s.lfltab d) f name mbits)).used e → e ≠ d → s.used e := by
    intro e he hed
    rw [used, setEntry_of_ne hed] at he
    exact he
  refine ⟨W.good, W.nfiles, W.index, W.data, W.ifree, W.dfree, W.file, W.nofile, fun i hi => ?_, fun n hn => ?_, fun e he => ?_,
    fun e e' he he' h => ?_, W.names⟩
  · rcases W.icached i hi with h | ⟨e, he, h⟩
    · exact Or.inl h
    · refine Or.inr ⟨e, hkeep e he, ?_⟩
      rw [setEntry_of_ne (hother e he)]
      exact h
  · rcases W.dcached n hn with h | ⟨e, he, h⟩
    · exact Or.inl h
    · refine Or.inr ⟨e, hkeep e he, ?_⟩
      rw [setEntry_of_ne (hother e he)]
      exact h
  · by_cases hed : e = d
    · subst hed
      have htab : (s.setEntry e (openEntry (s.lfltab e) f name mbits)).lfltab e = openEntry (s.lfltab e) f name mbits := setEntry_self _
      refine ⟨?_, ?_, ?_, ?_, fun hb => ?_, ?_⟩
      · rw [htab]
        exact hf
      · rw [htab]
        exact Or.inl ⟨rfl, rfl⟩
      · rw [htab]
        exact Or.inl ⟨rfl, rfl⟩
      · rw [htab]
        exact Nat.zero_le _
      · rw [htab] at hb
        exact absurd hb (Nat.lt_irrefl 512)
      · rw [htab, openEntry]
        simp only
        rw [fieldName_copyName hn]
        exact hname.symm
    · have O := W.opened e (hcase e he hed)
      have htab : (s.setEntry d (openEntry (s.lfltab d) f name mbits)).lfltab e = s.lfltab e := setEntry_of_ne hed _
      refine ⟨?_, ?_, ?_, ?_, fun hb => ?_, ?_⟩
      · rw [htab]
        exact O.file
      · rw [htab]
        exact O.index
      · rw [htab]
        exact O.data
      · rw [Lfs.file, htab]
        exact O.pos
      · rw [htab] at hb
        have r := O.ready hb
        constructor
        · rw [htab]
          exact r.block
        · rw [htab]
          exact r.byte
      · rw [htab]
        exact O.name
  · have hmine : ((s.setEntry d (openEntry (s.lfltab d) f name mbits)).lfltab d).lfdirptr = f := by
      rw [setEntry_self]
      rfl
    by_cases hed : e = d <;> by_cases hed' : e' = d
    · rw [hed, hed']
    · rw [hed, hmine, setEntry_of_ne hed'] at h
      exact absurd h.symm (hno e' (hcase e' he' hed'))
    · rw [hed', hmine, setEntry_of_ne hed] at h
      exact absurd h (hno e (hcase e he hed))
    · rw [setEntry_of_ne hed, setEntry_of_ne hed'] at h
      exact W.apart e e' (hcase e he hed) (hcase e' he' hed') h

/-- The device stands at the start of the file. -/
theorem Represents.openDevice (r : Represents lfdev s L A) (hname : fileName s.lf_dir f = name) (mbits : Mode) :
    Represents lfdev (s.setEntry d (openEntry (s.lfltab d) f name mbits)) L (A.move d name 0) := by
  refine ⟨r.names, r.content, fun e => ?_, fun e => ?_⟩
  · by_cases hed : e = d
    · have hu : (s.setEntry d (openEntry (s.lfltab d) f name mbits)).used e := by
        rw [hed, used, setEntry_self]
        rfl
      rw [if_pos hu, hed, Files.move_opened, setEntry_self, ← hname]
      rfl
    · have hiff : (s.setEntry d (openEntry (s.lfltab d) f name mbits)).used e ↔ s.used e := by rw [used, used, setEntry_of_ne hed]
      refine (Function.update_of_ne hed _ _).trans ?_
      rw [r.opened, setEntry_of_ne hed]
      exact if_congr hiff.symm rfl rfl
  · by_cases hed : e = d
    · rw [hed, setEntry_self]
      exact r.dev d
    · rw [setEntry_of_ne hed]
      exact r.dev e

/-- A file of the directory in memory is opened. -/
theorem openDevice_agrees (hp : s.lf_dirpresent = true) (hs : Saved s) (W : Whole S N s L) (r : Represents lfdev s L A)
    (hslot : A.slot name = some d) (hf : IsFile s.lf_dir f) (hn : IsName name) (hname : fileName s.lf_dir f = name) (mbits : Mode) :
    (s.openDevice d f name mbits).1 = lfdev d ∧ Stores S N lfdev (s.openDevice d f name mbits).2 (A.move d name 0) := by
  obtain ⟨hnone, hno⟩ := slot_spec hslot
  have hfree : ¬s.used d := by
    intro hu
    rw [r.opened, if_pos hu] at hnone
    cases hnone
  have hother : ∀ e, s.used e → (s.lfltab e).lfdirptr ≠ f := by
    intro e hu he
    refine hno e (s.lfltab e).lfpos.toNat ?_
    rw [r.opened, if_pos hu, he, hname]
  have hl : (s.setEntry d (openEntry (s.lfltab d) f name mbits)).loaded = s.setEntry d (openEntry (s.lfltab d) f name mbits) :=
    loaded_eq hp
  rw [openDevice_eq]
  refine ⟨r.dev d, ⟨L, ?_⟩, ?_, Or.inl hp, fun _ => ⟨d, ?_⟩⟩
  · rw [hl]
    exact ⟨W.openDevice hfree hf hn hname hother mbits, r.openDevice hname mbits⟩
  · rw [hl]
    exact hs.frame rfl rfl rfl
  · rw [used, setEntry_self]
    rfl

/-- `lfsopen` finds or creates the file, and opens it. -/
theorem lfsopen_agrees (H : Stores S N lfdev s A) (name : List UInt8) (mode : List Char) :
    (s.lfsopen name mode).1 = (A.lfsopen (volume S N lfdev) name mode).1 ∧
      Stores S N lfdev (s.lfsopen name mode).2 (A.lfsopen (volume S N lfdev) name mode).2 := by
  have hok : ¬OK = SYSERR := by decide
  unfold lfsopen Files.lfsopen
  simp only
  by_cases hlen : (name.takeWhile (· ≠ 0)).length ≥ LF_NAME_LEN
  · rw [if_pos hlen, if_pos hlen]
    exact ⟨rfl, H⟩
  rw [if_neg hlen, if_neg hlen]
  have hn : IsName (name.takeWhile (· ≠ 0)) := isName_takeWhile (Nat.lt_of_not_le hlen)
  generalize name.takeWhile (· ≠ 0) = name at hn ⊢
  cases lfgetmode mode with
  | none => exact ⟨rfl, H⟩
  | some mbits =>
    simp only
    rw [H.openSlot_eq hn]
    cases hslot : A.slot name with
    | none => exact ⟨rfl, H⟩
    | some d =>
      simp only
      rw [H.loadDir_eq]
      simp only [if_neg hok]
      have H' := H.load
      obtain ⟨L, W, r⟩ := H.whole
      have hs := H.saved
      have hp : s.loaded.lf_dirpresent = true := by
        unfold loaded
        split
        · assumption
        · rfl
      generalize s.loaded = t at H' W r hs hp
      have hlist : A.names.length = t.lf_dir.lfd_nfiles.toInt.toNat := by
        have h0 := W.nfiles
        rw [r.names, List.length_map, filesOf, List.length_take, List.length_finRange]
        omega
      cases hfind : findFile t.lf_dir name with
      | some f =>
        obtain ⟨hf, hname⟩ := findFile_some hn hfind
        have hmem : name ∈ A.names := by
          rw [r.names, ← hname]
          exact List.mem_map_of_mem (mem_filesOf.mpr hf)
        simp only [if_pos hmem]
        cases mbits.n with
        | true => exact ⟨rfl, H'⟩
        | false => exact openDevice_agrees hp hs W r hslot hf hn hname mbits
      | none =>
        have hnew : ∀ g, IsFile t.lf_dir g → fileName t.lf_dir g ≠ name := fun g hg => findFile_none hn hfind hg
        have hmem : name ∉ A.names := by
          rw [r.names, List.mem_map]
          rintro ⟨g, hg, he⟩
          exact hnew g (mem_filesOf.mp hg) he
        simp only [if_neg hmem]
        cases hmode : mbits.o with
        | true =>
          rw [if_pos (Or.inl rfl)]
          exact ⟨rfl, H'⟩
        | false =>
          have h20 : LF_NUM_DIR_ENT = 20 := rfl
          simp only [Bool.false_eq_true, if_false, false_or]
          by_cases hroom : t.lf_dir.lfd_nfiles.toInt.toNat < 20
          · have hshort : ¬A.names.length ≥ LF_NUM_DIR_ENT := by
              rw [hlist, h20]
              exact Nat.not_le_of_lt hroom
            rw [dif_pos hroom, if_neg hshort]
            have h0 := W.nfiles
            have hnext : Next t.lf_dir ⟨t.lf_dir.lfd_nfiles.toInt.toNat, hroom⟩ := ⟨h0.1, by simp only; omega⟩
            generalize (⟨t.lf_dir.lfd_nfiles.toInt.toNat, hroom⟩ : Fin 20) = f at hnext
            have hslot' : (A.create name).slot name = some d := hslot
            exact openDevice_agrees (s := t.newFile f name) hp (hs.newFile hnext) (W.newFile hnext hn hnew) (r.newFile W hnext hn hnew)
              hslot' ((hnext.isFile name f).mpr (Or.inr rfl)) hn (newFile_name hn f) mbits
          · have hfull : A.names.length ≥ LF_NUM_DIR_ENT := by
              rw [hlist, h20]
              exact Nat.le_of_not_lt hroom
            rw [dif_neg hroom, if_pos hfull]
            exact ⟨rfl, H'⟩

end

end Lfs

end Xinu
