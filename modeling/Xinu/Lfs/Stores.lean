import Xinu.Lfs.Represents

/-!
# Calls on open files

Every call that works on an open file does to the bytes and to the position what `Files` says. A write panics exactly when the files
would need more blocks than the disk has.
-/

namespace Xinu

namespace Lfs

/-- The file system when the directory is in memory. -/
def loaded (s : Lfs) : Lfs := if s.lf_dirpresent then s else { s with lf_dir := s.onDisk, lf_dirpresent := true }

/-- The numbers of blocks of a disk of `N` sectors with `S` sectors of index blocks. -/
def volume (S N : Nat) (lfdev : Fin 6 → Int) : Volume := ⟨7 * S, N - S - 1, lfdev⟩

/-- The file system stores the files. -/
structure Stores (S N : Nat) (lfdev : Fin 6 → Int) (s : Lfs) (A : Files) : Prop where
  whole : ∃ L, Whole S N s.loaded L ∧ Represents lfdev s.loaded L A
  saved : Saved s.loaded
  present : s.lf_dirpresent = true ∨ ∀ d, ¬s.used d
  dirty : s.lf_dirdirty = true → ∃ d, s.used d

/-- What a routine returns agrees with what `Files` says, and so does the file system behind it. -/
def Agrees (S N : Nat) (lfdev : Fin 6 → Int) (result : Except Fault (Int × Lfs)) (spec : Option (Int × Files)) : Prop :=
  (spec = none ∧ (result = .error .noIndexBlocks ∨ result = .error .noDataBlocks)) ∨
    ∃ value s' A', result = .ok (value, s') ∧ spec = some (value, A') ∧ Stores S N lfdev s' A'

section

variable {S N : Nat} {s s' : Lfs} {L L' : Layout} {d : Fin 6} {A : Files} {lfdev : Fin 6 → Int} {ch : UInt8}

theorem loaded_eq (h : s.lf_dirpresent = true) : s.loaded = s := if_pos h

theorem loaded_lfltab (s : Lfs) : s.loaded.lfltab = s.lfltab := by
  unfold loaded
  split <;> rfl

theorem Agrees.ok {value : Int} {A' : Files} (h : Stores S N lfdev s' A') :
    Agrees S N lfdev (.ok (value, s')) (some (value, A')) :=
  Or.inr ⟨value, s', A', rfl, rfl, h⟩

namespace Stores

/-- The directory is in memory when a file is open. -/
theorem of_used (H : Stores S N lfdev s A) (hu : s.used d) :
    s.lf_dirpresent = true ∧ Saved s ∧ ∃ L, Whole S N s L ∧ Represents lfdev s L A := by
  have hp := H.present.resolve_right fun h => h d hu
  have hl := loaded_eq hp
  exact ⟨hp, hl ▸ H.saved, hl ▸ H.whole⟩

theorem opened_none (H : Stores S N lfdev s A) (hu : ¬s.used d) : A.opened d = none := by
  obtain ⟨L, _, r⟩ := H.whole
  rw [r.opened, if_neg]
  rw [used, loaded_lfltab]
  exact hu

/-- The files fit on the disk. -/
theorem fits (H : Stores S N lfdev s A) (R : Room S N) : A.Fits (volume S N lfdev) := by
  obtain ⟨L, W, r⟩ := H.whole
  obtain ⟨h1, h2⟩ := r.blocks W R
  rw [Files.Fits, volume]
  simp only
  omega

/-- A call on an open file. -/
theorem acts (H : Stores S N lfdev s A) (hu : s.used d) (W : Whole S N s L) (r : Represents lfdev s L A) (Y : Acts S N d s s' L L') :
    Stores S N lfdev s' (A.set d (fileName s.lf_dir (s.lfltab d).lfdirptr) (L'.bytes (s'.file d) (s.lfltab d).lfdirptr)
      (s'.lfltab d).lfpos.toNat) := by
  obtain ⟨hp, hs, _⟩ := H.of_used hu
  have hp' : s'.lf_dirpresent = true := Y.present.trans hp
  have hl := loaded_eq hp'
  refine ⟨⟨L', ?_⟩, ?_, Or.inl hp', fun _ => ⟨d, Y.used hu⟩⟩
  · rw [hl]
    exact ⟨W.acts hu Y, r.acts W hu Y⟩
  · rw [hl]
    exact Y.saved hs

end Stores

/-- The open file, as `Files` has it. -/
theorem Represents.opened_eq (r : Represents lfdev s L A) (W : Whole S N s L) (hu : s.used d) :
    A.opened d = some (fileName s.lf_dir (s.lfltab d).lfdirptr, (s.lfltab d).lfpos.toNat) ∧
      A.content (fileName s.lf_dir (s.lfltab d).lfdirptr) = L.bytes (s.file d) (s.lfltab d).lfdirptr ∧
      (s.lfltab d).lfpos.toNat ≤ (A.content (fileName s.lf_dir (s.lfltab d).lfdirptr)).length ∧
      fileName s.lf_dir (s.lfltab d).lfdirptr ∈ A.names := by
  have hfile := (W.opened d hu).file
  have hc := r.content _ hfile
  refine ⟨by rw [r.opened, if_pos hu], hc, ?_, ?_⟩
  · rw [hc, length_bytes]
    exact (W.opened d hu).pos
  · rw [r.names]
    exact List.mem_map_of_mem (mem_filesOf.mpr hfile)

/-! ## Writing -/

/-- A write of one byte that needs an index block or a data block, when there is none, does not fit. -/
theorem Represents.not_fits (r : Represents lfdev s L A) (W : Whole S N s L) (R : Room S N) (hu : s.used d) (ch : UInt8)
    (h : NoIndex L (s.lfltab d).lfdirptr (s.lfltab d).lfpos ∨ NoData L (s.lfltab d).lfdirptr (s.lfltab d).lfpos) :
    A.write (volume S N lfdev) d [ch] = none := by
  obtain ⟨ho, hc, hpos, hmem⟩ := r.opened_eq W hu
  obtain ⟨h1, h2⟩ := r.blocks W R
  have T := (W.file _ (W.opened d hu).file).2
  have hlen := length_bytes (L := L) (s.file d) (s.lfltab d).lfdirptr
  have hnew := length_splice (l := [ch]) hpos
  rw [List.length_singleton] at hnew
  have hle : (A.content (fileName s.lf_dir (s.lfltab d).lfdirptr)).length ≤
      (splice (A.content (fileName s.lf_dir (s.lfltab d).lfdirptr)) (s.lfltab d).lfpos.toNat [ch]).length := by omega
  simp only [Files.write, ho, List.length_singleton]
  refine if_neg fun hfit => ?_
  obtain ⟨f1, f2⟩ := hfit
  rw [volume] at f1 f2
  simp only at f1 f2
  rw [hc] at hpos hnew
  rw [hlen] at hpos hnew
  rcases h with ⟨hfree, hidx⟩ | ⟨hfree, hdat⟩
  · have hlt := Files.blocks_lt d ((s.lfltab d).lfpos.toNat + 1) 8192 hmem hle (by
      rw [hc, hnew, hlen]
      have ht : _ = ((s.file d).ld_size.toNat + 8191) / 8192 := T.index
      rw [ht] at hidx
      omega)
    rw [hfree, List.length_nil] at h1
    omega
  · have hlt := Files.blocks_lt d ((s.lfltab d).lfpos.toNat + 1) 512 hmem hle (by
      rw [hc, hnew, hlen]
      have ht : _ = ((s.file d).ld_size.toNat + 511) / 512 := T.data
      rw [ht] at hdat
      omega)
    rw [hfree, List.length_nil] at h2
    omega

/-- `lflputc` writes the byte. -/
theorem lflputc_agrees (H : Stores S N lfdev s A) (R : Room S N) (d : Fin 6) (ch : UInt8) :
    Agrees S N lfdev (s.lflputc d ch) (A.write (volume S N lfdev) d [ch]) := by
  by_cases hu : s.used d
  · obtain ⟨hp, hs, L, W, r⟩ := H.of_used hu
    obtain ⟨ho, hc, hpos, hmem⟩ := r.opened_eq W hu
    rcases lflputc_spec (W.view hu) R hu (W.opened d hu).ready ch with ⟨he, hno⟩ | ⟨he, hno, _⟩ | ⟨s', L', he, Y, _, _, h1, h2, h3⟩
    · exact Or.inl ⟨r.not_fits W R hu ch (Or.inl hno), Or.inl he⟩
    · exact Or.inl ⟨r.not_fits W R hu ch (Or.inr hno), Or.inr he⟩
    · have H' := H.acts hu W r Y
      have hbytes : L'.bytes (s'.file d) (s.lfltab d).lfdirptr =
          splice (A.content (fileName s.lf_dir (s.lfltab d).lfdirptr)) (s.lfltab d).lfpos.toNat [ch] := by
        refine List.ext_getElem? fun p => ?_
        rw [getElem?_splice hpos, getElem?_bytes, hc, getElem?_bytes, h2]
        have hin : (s.lfltab d).lfpos.toNat ≤ (s.file d).ld_size.toNat := (W.opened d hu).pos
        by_cases hpp : p = (s.lfltab d).lfpos.toNat
        · rw [if_pos hpp, if_pos (by omega), h3 p (by omega), if_pos hpp]
        · rw [if_neg hpp]
          by_cases hlt : p < (s.file d).ld_size.toNat
          · rw [if_pos hlt, if_pos (by omega), h3 p (by omega), if_neg hpp]
          · rw [if_neg hlt, if_neg (by omega)]
      rw [hbytes, h1] at H'
      have hspec : A.write (volume S N lfdev) d [ch] = some (OK, A.set d (fileName s.lf_dir (s.lfltab d).lfdirptr)
          (splice (A.content (fileName s.lf_dir (s.lfltab d).lfdirptr)) (s.lfltab d).lfpos.toNat [ch])
          ((s.lfltab d).lfpos.toNat + 1)) := by
        simp only [Files.write, ho, List.length_singleton]
        exact if_pos (H'.fits R)
      rw [he, hspec]
      exact Agrees.ok H'
  · have hspec : A.write (volume S N lfdev) d [ch] = some (SYSERR, A) := by
      simp only [Files.write, H.opened_none hu]
    rw [hspec, lflputc, if_pos hu]
    exact Agrees.ok H

/-- The loop of `lflwrite` writes its bytes. The induction is on the bytes that are left. -/
theorem writeLoop_agrees (R : Room S N) (l : List UInt8) (H : Stores S N lfdev s A) (hu : s.used d) :
    Agrees S N lfdev (writeLoop d l s) (A.write (volume S N lfdev) d l) := by
  induction l generalizing s A with
  | nil =>
    obtain ⟨_, _, L, W, r⟩ := H.of_used hu
    obtain ⟨ho, _, _, _⟩ := r.opened_eq W hu
    rw [writeLoop, Files.write_nil ho (H.fits R)]
    exact Agrees.ok H
  | cons ch l ih =>
    obtain ⟨_, _, L, W, r⟩ := H.of_used hu
    obtain ⟨ho, _, hpos, _⟩ := r.opened_eq W hu
    rw [writeLoop, Files.write_cons ho hpos]
    rcases lflputc_agrees H R d ch with ⟨hspec, he⟩ | ⟨value, t, A', he, hspec, H'⟩
    · rw [hspec]
      refine Or.inl ⟨rfl, ?_⟩
      rcases he with he | he <;> rw [he]
      · exact Or.inl rfl
      · exact Or.inr rfl
    · have hopen : (value = OK ∧ ∃ x, A'.opened d = some x) := by
        simp only [Files.write, ho] at hspec
        split at hspec
        · obtain ⟨rfl, rfl⟩ := Prod.mk.inj (Option.some.inj hspec)
          exact ⟨rfl, _, Files.set_opened⟩
        · cases hspec
      obtain ⟨rfl, x, hx⟩ := hopen
      have hu' : t.used d := by
        by_contra hn
        rw [H'.opened_none hn] at hx
        cases hx
      have hok : ¬OK = SYSERR := by decide
      rw [hspec, he]
      simp only [if_neg hok, Option.bind_some]
      exact ih H' hu'

/-- `lflwrite` writes what the abstract file does. -/
theorem lflwrite_agrees (H : Stores S N lfdev s A) (R : Room S N) (d : Fin 6) (buff : Nat → UInt8) (count : Int32) :
    Agrees S N lfdev (s.lflwrite d buff count) (A.lflwrite (volume S N lfdev) d buff count) := by
  unfold lflwrite Files.lflwrite
  by_cases hneg : count < 0
  · rw [if_pos hneg, if_pos hneg]
    exact Agrees.ok H
  rw [if_neg hneg, if_neg hneg]
  by_cases hzero : count.toInt.toNat = 0
  · have hok : ¬OK = SYSERR := by decide
    have hcount : count.toInt = 0 := by
      have hge : 0 ≤ count.toInt := by
        rw [Int32.lt_iff_toInt_lt] at hneg
        exact Int.not_lt.mp hneg
      omega
    rw [if_pos hzero, hzero]
    simp only [List.range_zero, List.map_nil, writeLoop, if_neg hok, hcount]
    exact Agrees.ok H
  rw [if_neg hzero]
  by_cases hu : s.used d
  · rcases writeLoop_agrees R ((List.range count.toInt.toNat).map buff) H hu with ⟨hspec, he⟩ | ⟨value, t, A', he, hspec, H'⟩
    · rw [hspec]
      refine Or.inl ⟨rfl, ?_⟩
      rcases he with he | he <;> rw [he]
      · exact Or.inl rfl
      · exact Or.inr rfl
    · rw [hspec, he]
      exact Agrees.ok H'
  · obtain ⟨k, hk⟩ := Nat.exists_eq_succ_of_ne_zero hzero
    have hspec : A.write (volume S N lfdev) d ((List.range count.toInt.toNat).map buff) = some (SYSERR, A) := by
      simp only [Files.write, H.opened_none hu]
    rw [hspec, hk, List.range_succ_eq_map, List.map_cons, writeLoop, lflputc, if_pos hu]
    simp only [if_true]
    exact Agrees.ok H

/-! ## Reading -/

/-- `lflgetc` reads the byte at the position. -/
theorem lflgetc_agrees (H : Stores S N lfdev s A) (R : Room S N) (d : Fin 6) :
    ∃ s', s.lflgetc d = .ok ((A.lflgetc d).1, s') ∧ Stores S N lfdev s' (A.lflgetc d).2 := by
  by_cases hu : s.used d
  · obtain ⟨hp, hs, L, W, r⟩ := H.of_used hu
    obtain ⟨ho, hc, hpos, _⟩ := r.opened_eq W hu
    have hin : (s.lfltab d).lfpos.toNat ≤ (s.file d).ld_size.toNat := (W.opened d hu).pos
    rcases lflgetc_spec (W.view hu) R hu (W.opened d hu).ready with ⟨hend, he⟩ | ⟨s', L', he, Y, hlt, h1, h2, h3⟩
    · refine ⟨s, ?_⟩
      have hnone : (A.content (fileName s.lf_dir (s.lfltab d).lfdirptr))[(s.lfltab d).lfpos.toNat]? = none := by
        rw [hc, getElem?_bytes, if_neg (by omega)]
      simp only [Files.lflgetc, ho, hnone]
      exact ⟨he, H⟩
    · refine ⟨s', ?_⟩
      have hsome : (A.content (fileName s.lf_dir (s.lfltab d).lfdirptr))[(s.lfltab d).lfpos.toNat]? =
          some (L.byteAt (s.lfltab d).lfdirptr (s.lfltab d).lfpos.toNat) := by
        rw [hc, getElem?_bytes, if_pos hlt]
      have H' := H.acts hu W r Y
      have hbytes : L'.bytes (s'.file d) (s.lfltab d).lfdirptr = A.content (fileName s.lf_dir (s.lfltab d).lfdirptr) := by
        rw [hc, Layout.bytes, Layout.bytes, h2]
        exact List.map_congr_left fun p hp => h3 p (List.mem_range.mp hp)
      rw [hbytes, h1, Files.set_same] at H'
      simp only [Files.lflgetc, ho, hsome]
      exact ⟨he, H'⟩
  · refine ⟨s, ?_⟩
    rw [lflgetc, if_pos hu]
    simp only [Files.lflgetc, H.opened_none hu]
    exact ⟨trivial, H⟩

/-- The loop of `lflread` reads up to the end of the file. The induction is on the number of bytes that are wanted. -/
theorem readLoop_agrees (R : Room S N) (n : Nat) (got : List UInt8) {name : List UInt8} {pos : Nat} (H : Stores S N lfdev s A)
    (ho : A.opened d = some (name, pos)) : ∃ s' more, more = ((A.content name).drop pos).take n ∧
      readLoop d n got s = .ok (if more.length < n ∧ got.length + more.length = 0 then EOF else ((got.length + more.length : Nat) : Int),
        got ++ more, s') ∧
      Stores S N lfdev s' (A.move d name (pos + more.length)) := by
  induction n generalizing s A got pos with
  | zero =>
    refine ⟨s, [], List.take_zero.symm, ?_, ?_⟩
    · simp [readLoop]
    · rw [List.length_nil, Nat.add_zero, Files.move_same ho]
      exact H
  | succ n ih =>
    obtain ⟨t, he, H'⟩ := lflgetc_agrees H R d
    rw [readLoop, he]
    cases hget : (A.content name)[pos]? with
    | none =>
      simp only [Files.lflgetc, ho, hget] at H' ⊢
      have hne : ¬EOF = SYSERR := by decide
      have hnil : (A.content name).drop pos = [] := List.drop_eq_nil_of_le (List.getElem?_eq_none_iff.mp hget)
      refine ⟨t, [], by rw [hnil, List.take_nil], ?_, ?_⟩
      · simp [if_neg hne]
      · rw [List.length_nil, Nat.add_zero, Files.move_same ho]
        exact H'
    | some ch =>
      simp only [Files.lflgetc, ho, hget] at H' ⊢
      have hsys : ¬(ch.toNat : Int) = SYSERR := by
        rw [SYSERR]
        omega
      have heof : ¬(ch.toNat : Int) = EOF := by
        rw [EOF]
        omega
      simp only [if_neg hsys, if_neg heof, Int.toNat_natCast, UInt8.ofNat_toNat]
      obtain ⟨s', more, hmore, hrun, hst⟩ := ih (got ++ [ch]) H' Files.move_opened
      rw [Files.move_content] at hmore
      have hlt := (List.getElem?_eq_some_iff.mp hget).1
      have hch := (List.getElem?_eq_some_iff.mp hget).2
      refine ⟨s', ch :: more, ?_, ?_, ?_⟩
      · rw [List.drop_eq_getElem_cons hlt, hch, List.take_succ_cons, hmore]
      · rw [hrun, List.append_assoc, List.singleton_append, List.length_append, List.length_singleton, List.length_cons,
          if_neg (by omega), if_neg (by omega), Nat.add_assoc, Nat.add_comm 1]
      · rw [Files.move_move] at hst
        rw [List.length_cons, Nat.add_comm more.length 1, ← Nat.add_assoc]
        exact hst

/-- `lflread` reads the bytes from the position on. -/
theorem lflread_agrees (H : Stores S N lfdev s A) (R : Room S N) (d : Fin 6) (count : Int32) :
    ∃ s', s.lflread d count = .ok ((A.lflread d count).1, (A.lflread d count).2.1, s') ∧
      Stores S N lfdev s' (A.lflread d count).2.2 := by
  unfold lflread Files.lflread
  by_cases hneg : count < 0
  · rw [if_pos hneg, if_pos hneg]
    exact ⟨s, rfl, H⟩
  rw [if_neg hneg, if_neg hneg]
  by_cases hzero : count.toInt.toNat = 0
  · rw [if_pos hzero, hzero]
    exact ⟨s, rfl, H⟩
  rw [if_neg hzero]
  by_cases hu : s.used d
  · obtain ⟨_, _, L, W, r⟩ := H.of_used hu
    obtain ⟨ho, _, _, _⟩ := r.opened_eq W hu
    obtain ⟨s', more, hmore, hrun, hst⟩ := readLoop_agrees R count.toInt.toNat [] H ho
    refine ⟨s', ?_⟩
    simp only [ho, ← hmore]
    refine ⟨?_, hst⟩
    rw [hrun]
    cases more with
    | nil =>
      rw [if_pos ⟨Nat.pos_of_ne_zero hzero, rfl⟩, if_pos rfl]
      rfl
    | cons ch more =>
      rw [if_neg (by simp), if_neg (by simp), List.length_nil, Nat.zero_add]
      rfl
  · obtain ⟨k, hk⟩ := Nat.exists_eq_succ_of_ne_zero hzero
    refine ⟨s, ?_⟩
    simp only [H.opened_none hu]
    refine ⟨?_, H⟩
    rw [hk, readLoop, lflgetc, if_pos hu]
    simp only [if_true]

/-! ## Seeking, truncating and closing -/

/-- The position is changed. -/
theorem seek_acts {offset : UInt32} (V : View S N (s.one d) L False) (h : offset.toNat ≤ (s.file d).ld_size.toNat) :
    Acts S N d s (s.setEntry d { s.lfltab d with lfpos := offset, lfbyte := LF_BLKSIZ }) L L := by
  refine ⟨?_, ?_, fun e he => setEntry_of_ne he _, rfl, fun hb => ?_, fun T => ?_, id, fun hs => hs.frame rfl rfl rfl⟩
  · rw [one_setEntry]
    exact ⟨V.good, V.inodup, V.irange, V.dnodup, V.drange, V.ifree, V.dfree, V.file, V.icached, V.dcached, V.index, V.data, h⟩
  · rw [one_setEntry]
    exact Frame.of_disk rfl rfl rfl rfl rfl rfl (fun _ _ _ => rfl) (fun _ _ _ => rfl)
  · rw [setEntry_self] at hb
    exact absurd hb (Nat.lt_irrefl 512)
  · rw [file, setEntry_self]
    exact T

/-- `lflseek` moves the position as the abstract file does. -/
theorem lflseek_agrees (H : Stores S N lfdev s A) (d : Fin 6) (offset : UInt32) :
    (s.lflseek d offset).1 = (A.lflseek d offset).1 ∧ Stores S N lfdev (s.lflseek d offset).2 (A.lflseek d offset).2 := by
  unfold lflseek
  by_cases hu : s.used d
  · obtain ⟨_, _, L, W, r⟩ := H.of_used hu
    obtain ⟨ho, hc, _, _⟩ := r.opened_eq W hu
    have hlen := length_bytes (L := L) (s.file d) (s.lfltab d).lfdirptr
    simp only [if_neg (not_not.mpr hu), Files.lflseek, ho, hc, hlen]
    have hiff : offset > (s.file d).ld_size ↔ offset.toNat > (s.file d).ld_size.toNat := by
      rw [gt_iff_lt, gt_iff_lt, UInt32.lt_iff_toNat_lt]
    by_cases hgt : offset > (s.file d).ld_size
    · rw [if_pos hgt, if_pos (hiff.mp hgt)]
      exact ⟨rfl, H⟩
    · rw [if_neg hgt, if_neg fun h => hgt (hiff.mpr h)]
      have Y := seek_acts (W.view hu) (Nat.le_of_not_lt fun h => hgt (hiff.mpr h))
      have H' := H.acts hu W r Y
      simp only [file, setEntry_self, setEntry_dir] at H'
      rw [show L.bytes (s.lf_dir.lfd_files (s.lfltab d).lfdirptr) (s.lfltab d).lfdirptr = _ from hc.symm, Files.set_same] at H'
      exact ⟨rfl, H'⟩
  · simp only [if_pos hu, Files.lflseek, H.opened_none hu]
    exact ⟨trivial, H⟩

/-- `lflcontrol` truncates as the abstract file does. -/
theorem lflcontrol_agrees (H : Stores S N lfdev s A) (R : Room S N) (d : Fin 6) (func : Int) :
    ∃ s', s.lflcontrol d func = .ok ((A.lflcontrol d func).1, s') ∧ Stores S N lfdev s' (A.lflcontrol d func).2 := by
  unfold lflcontrol
  by_cases hu : s.used d
  · obtain ⟨_, _, L, W, r⟩ := H.of_used hu
    obtain ⟨ho, _, _, _⟩ := r.opened_eq W hu
    simp only [if_neg (not_not.mpr hu), Files.lflcontrol, ho]
    by_cases hf : func = F_CTL_TRUNC
    · obtain ⟨s', L', he, Y, hz, hp⟩ := lftruncate_spec (W.view hu) R hu (W.opened d hu).ready
      have H' := H.acts hu W r Y
      have hnil : L'.bytes (s'.file d) (s.lfltab d).lfdirptr = [] := by
        rw [Layout.bytes, hz]
        rfl
      rw [hnil, hp] at H'
      rw [if_pos hf, if_pos hf]
      exact ⟨s', he, H'⟩
    · rw [if_neg hf, if_neg hf]
      exact ⟨s, rfl, H⟩
  · simp only [if_pos hu, Files.lflcontrol, H.opened_none hu]
    exact ⟨s, rfl, H⟩

/-- `lfflush` does not change the files. -/
theorem Writes.acts {t : Lfs} (h : Writes S N d s t L)
    (htab : t.lfltab d = { s.lfltab d with lfibdirty := false, lfdbdirty := false })
    (hready : (s.lfltab d).lfbyte < 512 → Ready d s L) : Acts S N d s t L L := by
  refine ⟨h.sets.view, h.sets.frame, h.sets.others, h.sets.present, fun hb => ?_, fun T => ?_, h.sets.valid, h.saved⟩
  · rw [htab] at hb
    have r := hready hb
    constructor
    · rw [htab]
      exact r.block
    · rw [htab]
      exact r.byte
  · rw [file, h.dir, htab]
    exact T

/-- An open file of which nothing is dirty is closed. -/
theorem Whole.close (W : Whole S N s L) (hib : (s.lfltab d).lfibdirty = false) (hdb : (s.lfltab d).lfdbdirty = false) :
    Whole S N (s.setEntry d { s.lfltab d with lfstate := .LF_FREE }) L := by
  have hused : ∀ e, (s.setEntry d { s.lfltab d with lfstate := .LF_FREE }).used e → e ≠ d ∧ s.used e := by
    intro e he
    by_cases hed : e = d
    · rw [hed, used, setEntry_self] at he
      cases he
    · rw [used, setEntry_of_ne hed] at he
      exact ⟨hed, he⟩
  have hmine : ∀ e, e ≠ d → s.used e → (s.setEntry d { s.lfltab d with lfstate := .LF_FREE }).used e := by
    intro e hed he
    rw [used, setEntry_of_ne hed]
    exact he
  refine ⟨W.good, W.nfiles, W.index, W.data, W.ifree, W.dfree, W.file, W.nofile, fun i hi => ?_, fun n hn => ?_, fun e he => ?_,
    fun e e' he he' h => ?_, W.names⟩
  · refine (W.icached i hi).imp id ?_
    rintro ⟨e, he, hd, hnum⟩
    have hed : e ≠ d := by
      rintro rfl
      rw [hib] at hd
      cases hd
    refine ⟨e, hmine e hed he, ?_⟩
    rw [setEntry_of_ne hed]
    exact ⟨hd, hnum⟩
  · refine (W.dcached n hn).imp id ?_
    rintro ⟨e, he, hd, hnum⟩
    have hed : e ≠ d := by
      rintro rfl
      rw [hdb] at hd
      cases hd
    refine ⟨e, hmine e hed he, ?_⟩
    rw [setEntry_of_ne hed]
    exact ⟨hd, hnum⟩
  · obtain ⟨hed, hu⟩ := hused e he
    have O := W.opened e hu
    have htab : (s.setEntry d { s.lfltab d with lfstate := .LF_FREE }).lfltab e = s.lfltab e := setEntry_of_ne hed _
    refine ⟨?_, ?_, ?_, ?_, fun hb => ?_, ?_⟩
    · rw [htab]
      exact O.file
    · rw [htab]
      exact O.index
    · rw [htab]
      exact O.data
    · rw [Lfs.file, htab]
      exact O.pos
    · rw [htab] at hb
      have r := O.ready hb
      constructor
      · rw [htab]
        exact r.block
      · rw [htab]
        exact r.byte
    · rw [htab]
      exact O.name
  · obtain ⟨hed, hu⟩ := hused e he
    obtain ⟨hed', hu'⟩ := hused e' he'
    rw [setEntry_of_ne hed, setEntry_of_ne hed'] at h
    exact W.apart e e' hu hu' h

/-- Closing gives the pseudo-device back. -/
theorem Represents.close (r : Represents lfdev s L A) :
    Represents lfdev (s.setEntry d { s.lfltab d with lfstate := .LF_FREE }) L
      { A with opened := Function.update A.opened d none } := by
  refine ⟨r.names, r.content, fun e => ?_, fun e => ?_⟩
  · by_cases hed : e = d
    · have hfree : ¬(s.setEntry d { s.lfltab d with lfstate := .LF_FREE }).used e := by
        rw [hed, used, setEntry_self]
        intro h
        cases h
      rw [if_neg hfree, hed]
      exact Function.update_self _ _ _
    · have hiff : (s.setEntry d { s.lfltab d with lfstate := .LF_FREE }).used e ↔ s.used e := by rw [used, used, setEntry_of_ne hed]
      refine (Function.update_of_ne hed _ _).trans ?_
      rw [r.opened, setEntry_of_ne hed]
      exact if_congr hiff.symm rfl rfl
  · by_cases hed : e = d
    · rw [hed, setEntry_self]
      exact r.dev d
    · rw [setEntry_of_ne hed]
      exact r.dev e

/-- `lflclose` writes back what the abstract file has. -/
theorem lflclose_agrees (H : Stores S N lfdev s A) (R : Room S N) (d : Fin 6) :
    (s.lflclose d).1 = (A.lflclose d).1 ∧ Stores S N lfdev (s.lflclose d).2 (A.lflclose d).2 := by
  unfold lflclose
  by_cases hu : s.used d
  · obtain ⟨hp, _, L, W, r⟩ := H.of_used hu
    obtain ⟨ho, hc, _, _⟩ := r.opened_eq W hu
    simp only [if_neg (not_not.mpr hu), Files.lflclose, ho]
    -- behind `lfflush`, if it is called, nothing is dirty
    obtain ⟨t, ht⟩ : ∃ t, t = if (s.lf_dirdirty || (s.lfltab d).lfdbdirty || (s.lfltab d).lfibdirty) = true then (s.lfflush d).2 else s :=
      ⟨_, rfl⟩
    have hclean : Stores S N lfdev t A ∧ (t.lfltab d).lfibdirty = false ∧ (t.lfltab d).lfdbdirty = false ∧ t.lf_dirdirty = false ∧
        t.used d := by
      by_cases hd : (s.lf_dirdirty || (s.lfltab d).lfdbdirty || (s.lfltab d).lfibdirty) = true
      · rw [if_pos hd] at ht
        obtain ⟨hw, htab, hdirty⟩ := lfflush_spec (W.view hu) R hu
        have Y := hw.acts htab (W.opened d hu).ready
        have H' := H.acts hu W r Y
        have hfile : (s.lfflush d).2.file d = s.file d := by rw [file, hw.dir, htab, file]
        have hpos : ((s.lfflush d).2.lfltab d).lfpos = (s.lfltab d).lfpos := by rw [htab]
        rw [hfile, hpos, ← hc, Files.set_same, Files.move_same ho] at H'
        rw [ht]
        exact ⟨H', by rw [htab], by rw [htab], hdirty, Y.used hu⟩
      · rw [if_neg hd] at ht
        rw [Bool.not_eq_true, Bool.or_eq_false_iff, Bool.or_eq_false_iff] at hd
        rw [ht]
        exact ⟨H, hd.2, hd.1.2, hd.1.1, hu⟩
    rw [← ht]
    obtain ⟨Ht, hib, hdb, hdirty, hut⟩ := hclean
    obtain ⟨hp', hs', L', W', r'⟩ := Ht.of_used hut
    have hl : (t.setEntry d { t.lfltab d with lfstate := .LF_FREE }).loaded = t.setEntry d { t.lfltab d with lfstate := .LF_FREE } :=
      loaded_eq hp'
    refine ⟨trivial, ⟨L', ?_⟩, ?_, Or.inl hp', fun h => ?_⟩
    · rw [hl]
      exact ⟨W'.close hib hdb, r'.close⟩
    · rw [hl]
      exact hs'.frame rfl rfl rfl
    · rw [show (t.setEntry d { t.lfltab d with lfstate := .LF_FREE }).lf_dirdirty = t.lf_dirdirty from rfl, hdirty] at h
      cases h
  · simp only [if_pos hu, Files.lflclose, H.opened_none hu]
    exact ⟨trivial, H⟩

end

end Lfs

end Xinu
