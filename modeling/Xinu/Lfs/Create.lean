import Xinu.Lfs.IndexBlock

/-!
# Formatting a disk

`lfscreate` writes the directory, threads the index blocks into one list and the data blocks into another. Its loops run up to
`lfiblks - 1` and `dblks - 1`: the first bound is a signed number, the second one an unsigned number.
-/

namespace Xinu

/-- The loop of `lfscreate` over the index blocks, for the `n` iterations from `i` on. -/
def iblockLoop : Nat → Int32 → Lfiblk → Disk → Int32 × Disk
  | 0, i, _, disk => (i, disk)
  | n + 1, i, iblock, disk =>
    let iblock := { iblock with ib_next := i + 1 }
    iblockLoop n (i + 1) iblock (lfibput disk i iblock).2

/-- The loop of `lfscreate` over the data blocks, for `n` iterations from `dbindex` on. -/
def dblockLoop : Nat → Int32 → Sector → Disk → Int32 × Sector × Disk
  | 0, dbindex, dblock, disk => (dbindex, dblock, disk)
  | n + 1, dbindex, dblock, disk =>
    let dblock := dblock.setNextdb (dbindex + 1)
    dblockLoop n (dbindex + 1) dblock (disk.write dblock dbindex).2

/-- The number of sectors that `lfscreate` gives to the index blocks. -/
def indexSectors (lfiblks : Int32) : UInt32 := (lfiblks.toUInt32 + (7 - 1)) / 7

/-- The directory of a file system without files. -/
def emptyDir (dbindex : Int32) : Lfdir where
  lfd_fsysid := LFS_ID
  lfd_vers := 0
  lfd_subvers := 0
  lfd_allzeros := 0
  lfd_allones := 0xffffffff
  lfd_dfree := dbindex
  lfd_ifree := 0
  lfd_nfiles := 0
  lfd_files := fun _ => { ld_size := 0, ld_ilist := 0, ld_name := fun _ => 0 }
  lfd_revid := lfsReverse

/-- `lfscreate`: create an initially-empty file system on a disk. -/
def lfscreate (disk : Disk) (lfiblks : Int32) (dsiz : UInt32) : Int × Disk :=
  let sectors := dsiz / 512
  let ibsectors := indexSectors lfiblks
  let lfiblks := (ibsectors * 7).toInt32
  if ibsectors > sectors / 2 then (SYSERR, disk)
  else
    let dbindex := (ibsectors + 1).toInt32
    let dblks := sectors - ibsectors - 1
    match disk.write (emptyDir dbindex).bytes LF_AREA_DIR with
    | (retval, disk) =>
      if retval = SYSERR then (SYSERR, disk)
      else
        -- `i < lfiblks - 1` compares signed numbers
        let (i, disk) := iblockLoop (lfiblks - 1).toInt.toNat 0 (lfibclear 0) disk
        let disk := (lfibput disk i { lfibclear 0 with ib_next := LF_INULL }).2
        -- `i < dblks - 1` compares unsigned numbers
        let (dbindex, dblock, disk) := dblockLoop (dblks - 1).toNat dbindex (fun _ => 0) disk
        (OK, (disk.write (dblock.setNextdb LF_DNULL) dbindex).2)

/-- `disk'` is `disk` with some sectors of `P` written. -/
structure Wrote (P : Int32 → Prop) (disk disk' : Disk) : Prop where
  good : disk'.bad = false
  written : ∃ w, disk'.written = w ++ disk.written ∧ ∀ s ∈ w, P s
  kept : ∀ s, ¬P s → disk'.sector s = disk.sector s

namespace Wrote

variable {P P' : Int32 → Prop} {disk disk₁ disk₂ : Disk}

theorem refl (hb : disk.bad = false) : Wrote P disk disk := ⟨hb, ⟨[], rfl, by simp⟩, fun _ _ => rfl⟩

/-- One writing after another. -/
theorem trans (h₁ : Wrote P disk disk₁) (h₂ : Wrote P disk₁ disk₂) : Wrote P disk disk₂ := by
  obtain ⟨w₁, e₁, hw₁⟩ := h₁.written
  obtain ⟨w₂, e₂, hw₂⟩ := h₂.written
  refine ⟨h₂.good, ⟨w₂ ++ w₁, by rw [e₂, e₁, List.append_assoc], fun s hs => ?_⟩,
    fun s hs => (h₂.kept s hs).trans (h₁.kept s hs)⟩
  rcases List.mem_append.mp hs with hs | hs
  · exact hw₂ s hs
  · exact hw₁ s hs

theorem mono (h : Wrote P disk disk₁) (hP : ∀ s, P s → P' s) : Wrote P' disk disk₁ := by
  obtain ⟨w, e, hw⟩ := h.written
  exact ⟨h.good, ⟨w, e, fun s hs => hP s (hw s hs)⟩, fun s hs => h.kept s (fun hp => hs (hP s hp))⟩

theorem write (hb : disk.bad = false) {s : Int32} (hs : P s) (x : Sector) : Wrote P disk (disk.write x s).2 := by
  rw [Disk.write_eq hb]
  refine ⟨hb, ⟨[s], rfl, fun t ht => ?_⟩, fun t ht => Function.update_of_ne (fun e => ht (by rw [e]; exact hs)) _ _⟩
  rw [List.mem_singleton.mp ht]
  exact hs

theorem lfibput (hb : disk.bad = false) {i : Int32} (hs : P (ib2sect i)) (b : Lfiblk) :
    Wrote P disk (lfibput disk i b).2 := by
  refine ⟨lfibput_bad hb i b, ⟨[ib2sect i], lfibput_written hb i b, fun t ht => ?_⟩,
    fun t ht => lfibput_sector hb (fun e => ht (by rw [e]; exact hs)) b⟩
  rw [List.mem_singleton.mp ht]
  exact hs

/-- A sector that was written is one of `P`. -/
theorem of_mem (h : Wrote P disk disk₁) {w : List Int32} (e : disk₁.written = w ++ disk.written) : ∀ s ∈ w, P s := by
  obtain ⟨w', e', hw⟩ := h.written
  rw [List.append_cancel_right (e.symm.trans e')]
  exact hw

end Wrote

/-! ## The loops -/

section Loops

variable {disk : Disk}

theorem ofNat_succ (i : Nat) : Int32.ofNat i + 1 = Int32.ofNat (i + 1) := (Int32.ofNat_add i 1).symm

/-- The loop chains the index blocks and writes nothing else. -/
theorem iblockLoop_spec {b : Lfiblk} {n i : Nat} (hb : disk.bad = false) (hi : i + n < 2 ^ 31) :
    (iblockLoop n (Int32.ofNat i) b disk).1 = Int32.ofNat (i + n) ∧
      Wrote (fun s => ∃ j, i ≤ j ∧ j < i + n ∧ s = ib2sect (Int32.ofNat j)) disk (iblockLoop n (Int32.ofNat i) b disk).2 ∧
      ∀ j, j < 2 ^ 31 → lfibget (iblockLoop n (Int32.ofNat i) b disk).2 (Int32.ofNat j) =
        if i ≤ j ∧ j < i + n then { b with ib_next := Int32.ofNat (j + 1) } else lfibget disk (Int32.ofNat j) := by
  induction n generalizing i b disk with
  | zero =>
    refine ⟨rfl, Wrote.refl hb, fun j _ => ?_⟩
    rw [if_neg (by omega)]
    rfl
  | succ n ih =>
    have hb' := lfibput_bad hb (Int32.ofNat i) { b with ib_next := Int32.ofNat (i + 1) }
    obtain ⟨h1, h2, h3⟩ := ih (b := { b with ib_next := Int32.ofNat (i + 1) }) (i := i + 1) hb' (by omega)
    have hloop : iblockLoop (n + 1) (Int32.ofNat i) b disk = iblockLoop n (Int32.ofNat (i + 1))
        { b with ib_next := Int32.ofNat (i + 1) } (lfibput disk (Int32.ofNat i) { b with ib_next := Int32.ofNat (i + 1) }).2 := by
      rw [iblockLoop, ofNat_succ]
    rw [hloop]
    refine ⟨h1.trans (by congr 1; omega), ?_, fun j hj => ?_⟩
    · refine (Wrote.lfibput hb ⟨i, Nat.le_refl i, by omega, rfl⟩ _).trans (h2.mono ?_)
      rintro s ⟨j, hj, hj', rfl⟩
      exact ⟨j, by omega, by omega, rfl⟩
    · rw [h3 j hj]
      by_cases hij : j = i
      · subst hij
        rw [if_neg (by omega), if_pos (by omega), lfibget_lfibput hb hj]
      · rw [lfibget_lfibput_of_ne hb (by omega) hj hij]
        by_cases hc : i + 1 ≤ j ∧ j < i + 1 + n
        · rw [if_pos hc, if_pos (by omega)]
        · rw [if_neg hc, if_neg (by omega)]

/-- The loop chains the data blocks and writes nothing else. -/
theorem dblockLoop_spec {b : Sector} {n d : Nat} (hb : disk.bad = false) (hd : d + n < 2 ^ 31) :
    (dblockLoop n (Int32.ofNat d) b disk).1 = Int32.ofNat (d + n) ∧
      Wrote (fun s => ∃ j, d ≤ j ∧ j < d + n ∧ s = Int32.ofNat j) disk (dblockLoop n (Int32.ofNat d) b disk).2.2 ∧
      ∀ j, d ≤ j → j < d + n →
        ((dblockLoop n (Int32.ofNat d) b disk).2.2.sector (Int32.ofNat j)).nextdb = Int32.ofNat (j + 1) := by
  induction n generalizing d b disk with
  | zero => exact ⟨rfl, Wrote.refl hb, fun j h1 h2 => by omega⟩
  | succ n ih =>
    have hb' : (disk.write (b.setNextdb (Int32.ofNat (d + 1))) (Int32.ofNat d)).2.bad = false := by
      rw [Disk.write_eq hb]
      exact hb
    obtain ⟨h1, h2, h3⟩ := ih (b := b.setNextdb (Int32.ofNat (d + 1))) (d := d + 1) hb' (by omega)
    have hloop : dblockLoop (n + 1) (Int32.ofNat d) b disk = dblockLoop n (Int32.ofNat (d + 1))
        (b.setNextdb (Int32.ofNat (d + 1))) (disk.write (b.setNextdb (Int32.ofNat (d + 1))) (Int32.ofNat d)).2 := by
      rw [dblockLoop, ofNat_succ]
    rw [hloop]
    refine ⟨h1.trans (by congr 1; omega), ?_, fun j hj hj' => ?_⟩
    · refine (Wrote.write hb ⟨d, Nat.le_refl d, by omega, rfl⟩ _).trans (h2.mono ?_)
      rintro s ⟨j, hj, hj', rfl⟩
      exact ⟨j, by omega, by omega, rfl⟩
    · by_cases hdj : j = d
      · subst hdj
        rw [h2.kept _ ?_, Disk.write_eq hb]
        · simp only [Function.update_self]
          exact Sector.nextdb_setNextdb _ _
        · rintro ⟨i, hi, hi', e⟩
          have := (ofNat_inj (by omega) (by omega)).mp e
          omega
      · exact h3 j (by omega) (by omega)

/-- The data blocks are written whatever the bound is, the first one included. -/
theorem dblockLoop_writes (n : Nat) (dbindex : Int32) (b : Sector) (hb : disk.bad = false) :
    Wrote (fun _ => True) disk (dblockLoop n dbindex b disk).2.2 := by
  induction n generalizing dbindex b disk with
  | zero => exact Wrote.refl hb
  | succ n ih =>
    have h := Wrote.write (P := fun _ => True) hb (s := dbindex) trivial (b.setNextdb (dbindex + 1))
    exact h.trans (ih _ _ h.good)

end Loops

end Xinu
