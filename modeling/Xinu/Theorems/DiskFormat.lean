import Xinu.Lfs.Create
import Xinu.Lib.Chain

/-!
# What `lfscreate` leaves on the disk

A disk of at least three sectors with at least one sector of index blocks is formatted as it should be. With no index blocks the
index list still starts at block 0, and a disk without room for a data block is written far behind its end.
-/

namespace Xinu

/-- `disk'` is `disk` formatted with `S` sectors of index blocks and `N` sectors in all. -/
structure Formatted (disk disk' : Disk) (S N : Nat) : Prop where
  /-- Only sectors of the disk are written. -/
  written : ∃ w, disk'.written = w ++ disk.written ∧ ∀ s ∈ w, 0 ≤ s.toInt ∧ s.toInt < N
  valid : lfscheck (Lfdir.ofBytes (disk'.sector LF_AREA_DIR)) = OK
  empty : (Lfdir.ofBytes (disk'.sector LF_AREA_DIR)).lfd_nfiles = 0
  index : ∃ l, Table.Chain (fun i => (lfibget disk' i).ib_next) LF_INULL
    (Lfdir.ofBytes (disk'.sector LF_AREA_DIR)).lfd_ifree l ∧ l.Perm ((List.range (7 * S)).map Int32.ofNat)
  data : ∃ l, Table.Chain (fun n => (disk'.sector n).nextdb) LF_DNULL
    (Lfdir.ofBytes (disk'.sector LF_AREA_DIR)).lfd_dfree l ∧ l.Perm ((List.range' (S + 1) (N - S - 1)).map Int32.ofNat)
  /-- No index block shares a sector with a data block. -/
  apart : ∀ i n, i < 7 * S → S + 1 ≤ n → n < N → ib2sect (Int32.ofNat i) ≠ Int32.ofNat n

/-- `lfscreate` returns `SYSERR` and leaves the disk alone, or it formats the disk. -/
def Formats (disk : Disk) (lfiblks : Int32) (dsiz : UInt32) : Prop :=
  lfscreate disk lfiblks dsiz = (SYSERR, disk) ∨
    (lfscreate disk lfiblks dsiz).1 = OK ∧
      Formatted disk (lfscreate disk lfiblks dsiz).2 (indexSectors lfiblks).toNat (dsiz.toNat / 512)

/-- The arguments are rejected, or there is an index block and room for a data block. -/
def FormatOk (disk : Disk) (lfiblks : Int32) (dsiz : UInt32) : Prop :=
  disk.bad = true ∨ dsiz.toNat / 512 / 2 < (indexSectors lfiblks).toNat ∨
    1 ≤ (indexSectors lfiblks).toNat ∧ 3 ≤ dsiz.toNat / 512

instance (disk : Disk) (lfiblks : Int32) (dsiz : UInt32) : Decidable (FormatOk disk lfiblks dsiz) :=
  inferInstanceAs (Decidable (_ ∨ _ ∨ _ ∧ _))

section Chains

open Table

/-- A chain through consecutive numbers. -/
theorem chain_range' (next : Int32 → Int32) {d n : Nat} (hn : d + n < 2 ^ 31)
    (hnext : ∀ j, d ≤ j → j < d + n → next (Int32.ofNat j) = if j + 1 = d + n then -1 else Int32.ofNat (j + 1)) :
    Chain next (-1) (if n = 0 then -1 else Int32.ofNat d) ((List.range' d n).map Int32.ofNat) := by
  induction n generalizing d with
  | zero => rfl
  | succ n ih =>
    rw [List.range'_succ, List.map_cons, if_neg (by omega)]
    refine ⟨rfl, ofNat_ne_null (by omega), ?_⟩
    have h := ih (d := d + 1) (by omega) fun j hj hj' => by
      rw [hnext j (by omega) (by omega)]
      congr 1
      simp only [eq_iff_iff]
      omega
    rw [hnext d (Nat.le_refl d) (by omega)]
    by_cases hz : n = 0
    · rw [if_pos hz] at h
      rw [if_pos (by omega)]
      exact h
    · rw [if_neg hz] at h
      rw [if_neg (by omega)]
      exact h

end Chains

/-! ## The run of `lfscreate` -/

section Run

variable {disk : Disk} {lfiblks : Int32} {dsiz : UInt32}

theorem lfscreate_bad (hb : disk.bad = true) : lfscreate disk lfiblks dsiz = (SYSERR, disk) := by
  unfold lfscreate
  simp only
  split
  · rfl
  · simp only [Disk.write, hb, if_true]

/-- The sizes in sectors, as natural numbers. -/
theorem sectors_toNat (dsiz : UInt32) : (dsiz / 512).toNat = dsiz.toNat / 512 := UInt32.toNat_div dsiz 512

theorem rejects_iff : indexSectors lfiblks > dsiz / 512 / 2 ↔ dsiz.toNat / 512 / 2 < (indexSectors lfiblks).toNat := by
  have h2 : (2 : UInt32).toNat = 2 := rfl
  rw [gt_iff_lt, UInt32.lt_iff_toNat_lt, UInt32.toNat_div, sectors_toNat, h2]

theorem lfscreate_rejects (h : dsiz.toNat / 512 / 2 < (indexSectors lfiblks).toNat) :
    lfscreate disk lfiblks dsiz = (SYSERR, disk) := by
  unfold lfscreate
  simp only
  rw [if_pos (rejects_iff.mpr h)]

/-- The disk behind the first part of `lfscreate`: the directory and the index blocks are written. -/
def withIndex (disk : Disk) (S : Nat) : Disk :=
  let disk := (disk.write (emptyDir (Int32.ofNat (S + 1))).bytes LF_AREA_DIR).2
  let (i, disk) := iblockLoop (7 * S - 1) 0 (lfibclear 0) disk
  (lfibput disk i { lfibclear 0 with ib_next := LF_INULL }).2

/-- The disk behind `lfscreate`, when the loop over the data blocks runs `n` times. -/
def withData (disk : Disk) (S n : Nat) : Disk :=
  let (dbindex, dblock, disk) := dblockLoop n (Int32.ofNat (S + 1)) (fun _ => 0) disk
  (disk.write (dblock.setNextdb LF_DNULL) dbindex).2

theorem toInt32_eq (u : UInt32) : u.toInt32 = Int32.ofNat u.toNat := congrArg UInt32.toInt32 (UInt32.ofNat_toNat).symm

theorem lfscreate_eq (hb : disk.bad = false) (h : ¬dsiz.toNat / 512 / 2 < (indexSectors lfiblks).toNat) :
    lfscreate disk lfiblks dsiz = (OK, withData (withIndex disk (indexSectors lfiblks).toNat) (indexSectors lfiblks).toNat
      (dsiz / 512 - indexSectors lfiblks - 1 - 1).toNat) := by
  have hlt : dsiz.toNat < 2 ^ 32 := dsiz.toNat_lt
  have h1 : (1 : UInt32).toNat = 1 := rfl
  have h7 : (7 : UInt32).toNat = 7 := rfl
  have hcount : ((indexSectors lfiblks * 7).toInt32 - 1).toInt.toNat = 7 * (indexSectors lfiblks).toNat - 1 := by
    have h1' : (1 : Int32).toInt = 1 := rfl
    rw [toInt32_eq, UInt32.toNat_mul, h7, Nat.mod_eq_of_lt (by omega), Int32.toInt_sub, Int32.toInt_ofNat_of_lt (by omega), h1',
      Int.bmod_eq_of_le (by omega) (by omega)]
    omega
  have hd : (indexSectors lfiblks + 1).toInt32 = Int32.ofNat ((indexSectors lfiblks).toNat + 1) := by
    rw [toInt32_eq, UInt32.toNat_add, h1, Nat.mod_eq_of_lt (by omega)]
  have hok : ¬OK = SYSERR := by decide
  unfold lfscreate
  simp only
  rw [if_neg (fun hr => h (rejects_iff.mp hr)), Disk.write_eq hb]
  simp only [if_neg hok, hcount, hd]
  simp only [withData, withIndex, Disk.write_eq hb]

/-- What the first part leaves. -/
theorem withIndex_spec {S : Nat} (hb : disk.bad = false) (hS : S < 2 ^ 27) :
    Wrote (fun s => s = 0 ∨ ∃ n, s = Int32.ofNat n ∧ 1 ≤ n ∧ n ≤ max 1 S) disk (withIndex disk S) ∧
      Lfdir.ofBytes ((withIndex disk S).sector LF_AREA_DIR) = emptyDir (Int32.ofNat (S + 1)) ∧
      ∀ j, j < 7 * S → (lfibget (withIndex disk S) (Int32.ofNat j)).ib_next =
        if j + 1 = 7 * S then -1 else Int32.ofNat (j + 1) := by
  have hw := Wrote.write (P := fun s => s = LF_AREA_DIR) hb rfl (emptyDir (Int32.ofNat (S + 1))).bytes
  obtain ⟨h1, h2, h3⟩ := iblockLoop_spec (b := lfibclear 0) (n := 7 * S - 1) (i := 0) hw.good (by omega)
  have hput := Wrote.lfibput (P := fun s => s = ib2sect (Int32.ofNat (7 * S - 1))) h2.good (i := Int32.ofNat (7 * S - 1)) rfl
    { lfibclear 0 with ib_next := LF_INULL }
  have hdef : withIndex disk S = (lfibput (iblockLoop (7 * S - 1) (Int32.ofNat 0) (lfibclear 0)
      (disk.write (emptyDir (Int32.ofNat (S + 1))).bytes LF_AREA_DIR).2).2 (Int32.ofNat (7 * S - 1))
      { lfibclear 0 with ib_next := LF_INULL }).2 := by
    rw [withIndex]
    simp only
    rw [show (0 : Int32) = Int32.ofNat 0 from rfl, h1, Nat.zero_add]
  have hsect : ∀ j, j < 7 * S ∨ j = 7 * S - 1 → ib2sect (Int32.ofNat j) = Int32.ofNat (j / 7 + 1) := fun j hj =>
    ib2sect_ofNat (by omega)
  rw [hdef]
  refine ⟨?_, ?_, fun j hj => ?_⟩
  · refine (hw.mono fun s hs => Or.inl hs).trans ((h2.mono ?_).trans (hput.mono ?_))
    · rintro s ⟨j, _, hj, rfl⟩
      exact Or.inr ⟨j / 7 + 1, hsect j (by omega), by omega, by omega⟩
    · rintro s rfl
      exact Or.inr ⟨(7 * S - 1) / 7 + 1, hsect _ (Or.inr rfl), by omega, by omega⟩
  · -- the index blocks are in other sectors than the directory
    have hne : ∀ j, j < 7 * S ∨ j = 7 * S - 1 → LF_AREA_DIR ≠ ib2sect (Int32.ofNat j) := by
      intro j hj e
      rw [hsect j hj] at e
      have := (ofNat_inj (m := 0) (by omega) (by omega)).mp e
      omega
    rw [hput.kept _ (hne _ (Or.inr rfl)), h2.kept, Disk.write_eq hb]
    · simp only [Function.update_self, Lfdir.ofBytes_bytes]
    · rintro ⟨j, _, hj, e⟩
      exact hne j (by omega) e
  · by_cases hlast : j + 1 = 7 * S
    · rw [if_pos hlast, show j = 7 * S - 1 by omega, lfibget_lfibput h2.good (by omega)]
      rfl
    · rw [if_neg hlast, lfibget_lfibput_of_ne h2.good (by omega) (by omega) (by omega), h3 j (by omega), if_pos (by omega)]

/-- What the second part leaves, when the numbers of the data blocks do not overflow. -/
theorem withData_spec {S n : Nat} (hb : disk.bad = false) (hn : S + 1 + n < 2 ^ 31) :
    Wrote (fun s => ∃ j, s = Int32.ofNat j ∧ S + 1 ≤ j ∧ j ≤ S + 1 + n) disk (withData disk S n) ∧
      ∀ j, S + 1 ≤ j → j ≤ S + 1 + n → ((withData disk S n).sector (Int32.ofNat j)).nextdb =
        if j = S + 1 + n then -1 else Int32.ofNat (j + 1) := by
  obtain ⟨h1, h2, h3⟩ := dblockLoop_spec (b := fun _ => 0) hb hn
  have hdef : withData disk S n = ((dblockLoop n (Int32.ofNat (S + 1)) (fun _ => 0) disk).2.2.write
      ((dblockLoop n (Int32.ofNat (S + 1)) (fun _ => 0) disk).2.1.setNextdb LF_DNULL) (Int32.ofNat (S + 1 + n))).2 := by
    rw [withData]
    simp only
    rw [h1]
  rw [hdef]
  refine ⟨?_, fun j hj hj' => ?_⟩
  · refine (h2.mono ?_).trans (Wrote.write h2.good ⟨S + 1 + n, rfl, by omega, by omega⟩ _)
    rintro s ⟨j, hj, hj', rfl⟩
    exact ⟨j, rfl, by omega, by omega⟩
  · rw [Disk.write_eq h2.good]
    by_cases hlast : j = S + 1 + n
    · rw [if_pos hlast, hlast]
      simp only [Function.update_self]
      exact Sector.nextdb_setNextdb _ _
    · have hne : Int32.ofNat j ≠ Int32.ofNat (S + 1 + n) := fun e => hlast ((ofNat_inj (by omega) hn).mp e)
      rw [if_neg hlast]
      simp only [Function.update_of_ne hne]
      exact h3 j hj (by omega)

/-- The first data block is written in any case. -/
theorem withData_writes {S n : Nat} (hb : disk.bad = false) :
    ∃ w, (withData disk S n).written = w ++ Int32.ofNat (S + 1) :: disk.written := by
  cases n with
  | zero =>
    rw [withData, dblockLoop]
    simp only [Disk.write_eq hb]
    exact ⟨[], rfl⟩
  | succ n =>
    rw [withData, dblockLoop]
    simp only
    have h1 := Wrote.write (P := fun _ => True) hb (s := Int32.ofNat (S + 1)) trivial
      (Sector.setNextdb (fun _ => 0) (Int32.ofNat (S + 1) + 1))
    have h2 := dblockLoop_writes n (Int32.ofNat (S + 1) + 1) (Sector.setNextdb (fun _ => 0) (Int32.ofNat (S + 1) + 1)) h1.good
    have h3 := Wrote.write (P := fun _ => True) h2.good (s := (dblockLoop n (Int32.ofNat (S + 1) + 1)
      (Sector.setNextdb (fun _ => 0) (Int32.ofNat (S + 1) + 1)) (disk.write
        (Sector.setNextdb (fun _ => 0) (Int32.ofNat (S + 1) + 1)) (Int32.ofNat (S + 1))).2).1) trivial
      ((dblockLoop n (Int32.ofNat (S + 1) + 1) (Sector.setNextdb (fun _ => 0) (Int32.ofNat (S + 1) + 1)) (disk.write
        (Sector.setNextdb (fun _ => 0) (Int32.ofNat (S + 1) + 1)) (Int32.ofNat (S + 1))).2).2.1.setNextdb LF_DNULL)
    obtain ⟨w, e, _⟩ := (h2.trans h3).written
    refine ⟨w, e.trans ?_⟩
    rw [Disk.write_eq hb]

/-! ## The whole disk -/

/-- A disk with an index block and room for a data block. -/
theorem formatted_of_room {S N : Nat} (hb : disk.bad = false) (hS : 1 ≤ S) (hN : S + 2 ≤ N) (hlim : N < 2 ^ 27) :
    Formatted disk (withData (withIndex disk S) S (N - S - 2)) S N := by
  obtain ⟨h1, h2, h3⟩ := withIndex_spec hb (S := S) (by omega)
  obtain ⟨g1, g2⟩ := withData_spec (S := S) (n := N - S - 2) h1.good (by omega)
  have hzero : (withData (withIndex disk S) S (N - S - 2)).sector LF_AREA_DIR = (withIndex disk S).sector LF_AREA_DIR := by
    refine g1.kept _ ?_
    rintro ⟨j, e, hj, _⟩
    have := (ofNat_inj (m := 0) (by omega) (by omega)).mp e
    omega
  have hdir : Lfdir.ofBytes ((withData (withIndex disk S) S (N - S - 2)).sector LF_AREA_DIR) = emptyDir (Int32.ofNat (S + 1)) := by
    rw [hzero, h2]
  have hget : ∀ j, j < 7 * S → lfibget (withData (withIndex disk S) S (N - S - 2)) (Int32.ofNat j) =
      lfibget (withIndex disk S) (Int32.ofNat j) := by
    intro j hj
    rw [lfibget, lfibget, g1.kept]
    rintro ⟨i, e, hi, _⟩
    rw [ib2sect_ofNat (by omega)] at e
    have := (ofNat_inj (by omega) (by omega)).mp e
    omega
  refine ⟨?_, ?_, ?_, ⟨_, ?_, List.Perm.refl _⟩, ⟨_, ?_, List.Perm.refl _⟩, fun i n hi hn hn' e => ?_⟩
  · have i1 : Wrote (fun s => 0 ≤ s.toInt ∧ s.toInt < N) disk (withIndex disk S) := by
      refine h1.mono ?_
      rintro s (rfl | ⟨n, rfl, hn, hn'⟩)
      · exact ⟨Int.le_refl 0, by change (0 : Int) < N; omega⟩
      · rw [Int32.toInt_ofNat_of_lt (by omega)]
        omega
    refine (i1.trans (g1.mono ?_)).written
    rintro s ⟨n, rfl, hn, hn'⟩
    rw [Int32.toInt_ofNat_of_lt (by omega)]
    omega
  · rw [hdir]
    rfl
  · rw [hdir]
    rfl
  · rw [hdir]
    have hc := chain_range' (fun i => (lfibget (withData (withIndex disk S) S (N - S - 2)) i).ib_next) (d := 0)
      (n := 7 * S) (by omega) fun j _ hj => by
        rw [hget j (by omega), h3 j (by omega), Nat.zero_add]
    rw [if_neg (by omega), ← List.range_eq_range'] at hc
    exact hc
  · rw [hdir]
    have hc := chain_range' (fun n => ((withData (withIndex disk S) S (N - S - 2)).sector n).nextdb) (d := S + 1)
      (n := N - S - 1) (by omega) fun j hj hj' => by
        rw [g2 j hj (by omega)]
        congr 1
        simp only [eq_iff_iff]
        omega
    rw [if_neg (by omega)] at hc
    exact hc
  · rw [ib2sect_ofNat (by omega)] at e
    have := (ofNat_inj (by omega) (by omega)).mp e
    omega

/-- Without index blocks the list still starts at block 0. -/
theorem not_formatted_empty {N : Nat} (hb : disk.bad = false) (hN : 2 ≤ N) (hlim : N < 2 ^ 27) :
    ¬Formatted disk (withData (withIndex disk 0) 0 (N - 2)) 0 N := by
  intro F
  obtain ⟨h1, h2, _⟩ := withIndex_spec hb (S := 0) (by omega)
  obtain ⟨g1, _⟩ := withData_spec (S := 0) (n := N - 2) h1.good (by omega)
  obtain ⟨l, hc, hp⟩ := F.index
  have hnil : l = [] := hp.eq_nil
  have hhead := hc.head_eq_nil.mpr hnil
  rw [g1.kept, h2] at hhead
  · cases hhead
  · rintro ⟨j, e, hj, _⟩
    have := (ofNat_inj (m := 0) (by omega) (by omega)).mp e
    omega

/-- Without room for a data block a sector behind the end of the disk is written. -/
theorem not_formatted_full {S N n : Nat} (hb : disk.bad = false) (hN : N ≤ S + 1) (hlim : S < 2 ^ 27) :
    ¬Formatted disk (withData (withIndex disk S) S n) S N := by
  intro F
  obtain ⟨h1, _⟩ := withIndex_spec hb hlim
  obtain ⟨w₁, e₁, _⟩ := h1.written
  obtain ⟨w₂, e₂⟩ := withData_writes (S := S) (n := n) h1.good
  obtain ⟨w, e, hw⟩ := F.written
  have hmem : w = (w₂ ++ Int32.ofNat (S + 1) :: w₁) := by
    have happ : w ++ disk.written = (w₂ ++ Int32.ofNat (S + 1) :: w₁) ++ disk.written := by
      rw [← e, e₂, e₁, List.append_assoc, List.cons_append]
    exact List.append_cancel_right happ
  have hlt := (hw (Int32.ofNat (S + 1)) (by rw [hmem]; simp)).2
  rw [Int32.toInt_ofNat_of_lt (by omega)] at hlt
  omega

end Run

/-- `lfscreate` rejects its arguments without writing, or leaves the disk formatted, exactly when the disk does not accept
transfers, or the arguments are rejected, or there is a sector of index blocks and the disk has three sectors. -/
theorem lfscreate_formats (disk : Disk) (lfiblks : Int32) (dsiz : UInt32) :
    Formats disk lfiblks dsiz ↔ FormatOk disk lfiblks dsiz := by
  have hlt : dsiz.toNat < 2 ^ 32 := dsiz.toNat_lt
  cases hb : disk.bad with
  | true => exact ⟨fun _ => Or.inl hb, fun _ => Or.inl (lfscreate_bad hb)⟩
  | false =>
    by_cases hr : dsiz.toNat / 512 / 2 < (indexSectors lfiblks).toNat
    · exact ⟨fun _ => Or.inr (Or.inl hr), fun _ => Or.inl (lfscreate_rejects hr)⟩
    have hrun := lfscreate_eq hb hr
    have hok : ¬OK = SYSERR := by decide
    have hsub : (indexSectors lfiblks).toNat + 2 ≤ dsiz.toNat / 512 →
        (dsiz / 512 - indexSectors lfiblks - 1 - 1).toNat = dsiz.toNat / 512 - (indexSectors lfiblks).toNat - 2 := by
      intro hroom
      have hN := sectors_toNat dsiz
      have h1 : (1 : UInt32).toNat = 1 := rfl
      have e1 : (dsiz / 512 - indexSectors lfiblks).toNat = dsiz.toNat / 512 - (indexSectors lfiblks).toNat := by
        rw [UInt32.toNat_sub_of_le _ _ (UInt32.le_iff_toNat_le.mpr (by omega)), hN]
      have e2 : (dsiz / 512 - indexSectors lfiblks - 1).toNat = dsiz.toNat / 512 - (indexSectors lfiblks).toNat - 1 := by
        rw [UInt32.toNat_sub_of_le _ _ (UInt32.le_iff_toNat_le.mpr (by omega)), e1, h1]
      rw [UInt32.toNat_sub_of_le _ _ (UInt32.le_iff_toNat_le.mpr (by omega)), e2, h1]
      omega
    unfold Formats FormatOk
    rw [hrun]
    simp only [Prod.mk.injEq, hok, false_and, false_or, true_and, hb, Bool.false_eq_true, hr]
    constructor
    · intro F
      by_cases hroom : (indexSectors lfiblks).toNat + 2 ≤ dsiz.toNat / 512
      · have hS : 1 ≤ (indexSectors lfiblks).toNat := by
          by_contra hS
          have h0 : (indexSectors lfiblks).toNat = 0 := by omega
          rw [hsub hroom, h0] at F
          exact not_formatted_empty hb (by omega) (by omega) F
        exact ⟨hS, by omega⟩
      · exact absurd F (not_formatted_full hb (by omega) (by omega))
    · rintro ⟨hS, hN⟩
      rw [hsub (by omega)]
      exact formatted_of_room hb hS (by omega) (by omega)

/-- A disk of four sectors that were not written yet. -/
def freshDisk : Disk := { sector := fun _ _ => 0, bad := false, written := [] }

/-- With `lfiblks` 0 the index list of a disk of four sectors is not empty. -/
theorem lfscreate_no_index_blocks : ¬Formats freshDisk 0 2048 := by
  intro F
  have hrun : lfscreate freshDisk 0 2048 = (OK, withData (withIndex freshDisk 0) 0 2) := lfscreate_eq rfl (by decide)
  rw [Formats, hrun] at F
  rcases F with e | ⟨_, F⟩
  · cases e
  · exact not_formatted_empty (N := 4) rfl (by decide) (by decide) F

end Xinu
