import Xinu.Lfs.IndexBlock

/-!
# Index blocks as storage

On a disk whose transfers succeed, the index blocks are an array of records: a block that is stored is fetched again, no store
touches a byte of another block, and stores of different blocks commute.
-/

namespace Xinu

/-- Byte `t` of sector `s` belongs to index block `i`. -/
def Occupies (i s : Int32) (t : Nat) : Prop := s = ib2sect i ∧ ib2disp i ≤ t ∧ t < ib2disp i + 72

/-- The index blocks of the disk are storage. -/
structure IndexStorage (disk : Disk) : Prop where
  /-- What was stored is fetched. -/
  stored : ∀ i b, 0 ≤ i → (lfibput disk i b).1 = OK ∧ lfibget (lfibput disk i b).2 i = b
  /-- Every other index block is kept. -/
  kept : ∀ i j b, 0 ≤ i → 0 ≤ j → j ≠ i → lfibget (lfibput disk i b).2 j = lfibget disk j
  /-- Every other sector is kept, and in its own sector every byte that is not the block's. -/
  sectors : ∀ i b s, 0 ≤ i → s ≠ ib2sect i → (lfibput disk i b).2.sector s = disk.sector s
  outside : ∀ i b s (t : Fin 512), 0 ≤ i → ¬Occupies i s t → (lfibput disk i b).2.sector s t = disk.sector s t
  /-- Two stores commute. -/
  commute : ∀ i j b c, 0 ≤ i → 0 ≤ j → i ≠ j →
    (lfibput (lfibput disk i b).2 j c).2.sector = (lfibput (lfibput disk j c).2 i b).2.sector ∧
      (lfibput (lfibput disk i b).2 j c).1 = OK ∧ (lfibput (lfibput disk j c).2 i b).1 = OK

section

variable {disk : Disk} {b c : Lfiblk} {i j : Int32} {n m : Nat}

/-- The number of an index block as a natural number. -/
theorem exists_ofNat (hi : 0 ≤ i) : ∃ n < 2 ^ 31, i = Int32.ofNat n := by
  have h0 : (0 : Int) ≤ i.toInt := Int32.le_iff_toInt_le.mp hi
  have hlt : i.toInt < 2 ^ 31 := i.toInt_lt
  refine ⟨i.toInt.toNat, by omega, ?_⟩
  apply Int32.toInt_inj.mp
  rw [Int32.toInt_ofNat_of_lt (by omega)]
  omega

/-- An index block lies in its sector. -/
theorem ib2disp_le (hi : 0 ≤ i) : ib2disp i + 72 ≤ 512 := by
  obtain ⟨n, hn, rfl⟩ := exists_ofNat hi
  rw [ib2disp_ofNat hn]
  omega

/-- Two index blocks in one sector are apart. -/
theorem ib2disp_disjoint (hi : 0 ≤ i) (hj : 0 ≤ j) (hne : i ≠ j) (hs : ib2sect i = ib2sect j) :
    ib2disp i + 72 ≤ ib2disp j ∨ ib2disp j + 72 ≤ ib2disp i := by
  obtain ⟨n, hn, rfl⟩ := exists_ofNat hi
  obtain ⟨m, hm, rfl⟩ := exists_ofNat hj
  have hnm : n ≠ m := fun e => hne (congrArg Int32.ofNat e)
  rw [ib2sect_ofNat hn, ib2sect_ofNat hm] at hs
  have hq := (ofNat_inj (by omega) (by omega)).mp hs
  rw [ib2disp_ofNat hn, ib2disp_ofNat hm]
  omega

/-- A store changes the bytes of its block only. -/
theorem lfibput_outside (hb : disk.bad = false) {s : Int32} {t : Fin 512} (ht : ¬Occupies i s t) :
    (lfibput disk i b).2.sector s t = disk.sector s t := by
  by_cases hs : s = ib2sect i
  · subst hs
    have hoff : (t : Nat) < ib2disp i ∨ ib2disp i + 72 ≤ t := by
      by_contra h
      exact ht ⟨rfl, by omega, by omega⟩
    rw [lfibput_eq hb]
    simp only [Function.update_self]
    exact Bytes.overlay_off _ _ _ t hoff
  · rw [lfibput_sector hb hs]

/-- The sectors after two stores. -/
theorem lfibput_lfibput (hb : disk.bad = false) : (lfibput (lfibput disk i b).2 j c).2.sector =
    Function.update (lfibput disk i b).2.sector (ib2sect j)
      (Bytes.overlay ((lfibput disk i b).2.sector (ib2sect j)) (ib2disp j) c.bytes) := by
  rw [lfibput_eq (lfibput_bad hb i b)]

theorem lfibput_comm (hb : disk.bad = false) (hi : 0 ≤ i) (hj : 0 ≤ j) (hne : i ≠ j) :
    (lfibput (lfibput disk i b).2 j c).2.sector = (lfibput (lfibput disk j c).2 i b).2.sector := by
  rw [lfibput_lfibput hb, lfibput_lfibput hb]
  by_cases hs : ib2sect i = ib2sect j
  · -- both blocks are in one sector: the second store reads what the first one wrote
    have hd := ib2disp_disjoint hi hj hne hs
    rw [lfibput_eq hb, lfibput_eq hb]
    simp only [hs, Function.update_self, Function.update_idem]
    exact congrArg _ (Bytes.overlay_comm _ _ _ hd)
  · rw [lfibput_sector hb (Ne.symm hs), lfibput_sector hb hs, lfibput_eq hb, lfibput_eq hb]
    exact Function.update_comm hs _ _ _

end

/-- Index blocks lie in one sector each and share no byte, and on a disk whose transfers succeed they are storage. -/
theorem index_storage (disk : Disk) (hb : disk.bad = false) :
    (∀ i : Int32, 0 ≤ i → ib2disp i + 72 ≤ 512) ∧
      (∀ i j : Int32, 0 ≤ i → 0 ≤ j → i ≠ j → ∀ s t, ¬(Occupies i s t ∧ Occupies j s t)) ∧ IndexStorage disk := by
  refine ⟨fun i hi => ib2disp_le hi, fun i j hi hj hne s t ⟨h, h'⟩ => ?_, ?_⟩
  · have hs : ib2sect i = ib2sect j := h.1.symm.trans h'.1
    have hd := ib2disp_disjoint hi hj hne hs
    have h1 := h.2
    have h2 := h'.2
    omega
  · refine ⟨fun i b hi => ⟨?_, ?_⟩, fun i j b hi hj hne => ?_, fun i b s _ hs => lfibput_sector hb hs b,
      fun i b s t _ ht => lfibput_outside hb ht, fun i j b c hi hj hne => ⟨lfibput_comm hb hi hj hne, ?_, ?_⟩⟩
    · rw [lfibput_eq hb]
    · obtain ⟨n, hn, rfl⟩ := exists_ofNat hi
      exact lfibget_lfibput hb hn b
    · obtain ⟨n, hn, rfl⟩ := exists_ofNat hi
      obtain ⟨m, hm, rfl⟩ := exists_ofNat hj
      exact lfibget_lfibput_of_ne hb hn hm (fun e => hne (congrArg Int32.ofNat e)) b
    · rw [lfibput_eq (lfibput_bad hb i b)]
    · rw [lfibput_eq (lfibput_bad hb j c)]

/-- A disk on which each byte of a sector is its own number. -/
def numberedDisk : Disk := { sector := fun _ t => UInt8.ofNat t, bad := false, written := [] }

/-- Two blocks of one sector: the second keeps its bytes when the first is stored. -/
theorem index_storage_neighbour :
    ib2sect 0 = ib2sect 1 ∧ (lfibget numberedDisk 1).ib_offset = 0x4f4e4d4c ∧
      lfibget (lfibput numberedDisk 0 (lfibclear 0)).2 0 = lfibclear 0 ∧
      lfibget (lfibput numberedDisk 0 (lfibclear 0)).2 1 = lfibget numberedDisk 1 := by
  obtain ⟨-, -, H⟩ := index_storage numberedDisk rfl
  exact ⟨by decide, by decide, (H.stored 0 _ (by decide)).2, H.kept 0 1 _ (by decide) (by decide) (by decide)⟩

end Xinu
