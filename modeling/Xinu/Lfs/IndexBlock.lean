import Mathlib.Tactic.Ring
import Xinu.Lfs.Format

/-!
# Index blocks in sectors

Seven index blocks are packed into a sector, so `lfibput` reads the sector, replaces 72 bytes and writes it back. Distinct index
blocks occupy disjoint bytes: what `lfibput` stores is what `lfibget` fetches, and the other index blocks and sectors are kept.
-/

namespace Xinu

namespace Sector

variable {b : Sector} {d d' : Nat}

theorem iblock_overlay (hd : d + 72 ≤ 512) (x : Lfiblk) : (show Sector from Bytes.overlay b d x.bytes).iblock d = x := by
  refine Eq.trans (congrArg Lfiblk.ofBytes (funext fun t => ?_)) x.ofBytes_bytes
  have ht : d + (t : Nat) < 512 := by omega
  rw [dif_pos ht]
  exact Bytes.overlay_at b d x.bytes t ht

/-- Writing one index block of a sector leaves the others. -/
theorem iblock_overlay_off (hd : d' + 72 ≤ d ∨ d + 72 ≤ d') (x : Lfiblk) :
    (show Sector from Bytes.overlay b d x.bytes).iblock d' = b.iblock d' := by
  refine congrArg Lfiblk.ofBytes (funext fun t => ?_)
  by_cases ht : d' + (t : Nat) < 512
  · rw [dif_pos ht, dif_pos ht]
    exact Bytes.overlay_off b d x.bytes _ (by simp only; omega)
  · rw [dif_neg ht, dif_neg ht]

end Sector

/-! ## Numbers -/

theorem ofNat_inj {m n : Nat} (hm : m < 2 ^ 31) (hn : n < 2 ^ 31) : Int32.ofNat m = Int32.ofNat n ↔ m = n := by
  refine ⟨fun e => ?_, fun e => e ▸ rfl⟩
  have h := congrArg Int32.toInt e
  rw [Int32.toInt_ofNat_of_lt hm, Int32.toInt_ofNat_of_lt hn] at h
  exact Int.ofNat_inj.mp h

/-- A number that is not negative is not the null pointer. -/
theorem ofNat_ne_null {n : Nat} (hn : n < 2 ^ 31) : Int32.ofNat n ≠ -1 := by
  intro e
  have h := congrArg Int32.toInt e
  rw [Int32.toInt_ofNat_of_lt hn] at h
  have h1 : (n : Int) = -1 := h
  omega

/-- The sector of an index block: seven of them are in one. -/
theorem ib2sect_ofNat {n : Nat} (hn : n < 2 ^ 31) : ib2sect (Int32.ofNat n) = Int32.ofNat (n / 7 + 1) := by
  apply Int32.toInt_inj.mp
  have h7 : (7 : Int32).toInt = 7 := rfl
  have h1 : LF_AREA_IB.toInt = 1 := rfl
  have hdiv : ((n : Int).tdiv 7) = ((n / 7 : Nat) : Int) := rfl
  have hin : ((n / 7 : Nat) : Int).bmod (2 ^ 32) = ((n / 7 : Nat) : Int) := Int.bmod_eq_of_le (by omega) (by omega)
  rw [ib2sect, Int32.toInt_add, Int32.toInt_div, Int32.toInt_ofNat_of_lt hn, Int32.toInt_ofNat_of_lt (by omega), h7, h1, hdiv,
    hin, Int.bmod_eq_of_le (by omega) (by omega)]
  omega

/-- The place of an index block in its sector. -/
theorem ib2disp_ofNat {n : Nat} (hn : n < 2 ^ 31) : ib2disp (Int32.ofNat n) = 72 * (n % 7) := by
  have hmod : Int32.ofNat n % 7 = Int32.ofNat (n % 7) := by
    apply Int32.toInt_inj.mp
    have h7 : (7 : Int32).toInt = 7 := rfl
    rw [Int32.toInt_mod, Int32.toInt_ofNat_of_lt hn, Int32.toInt_ofNat_of_lt (by omega), h7]
    rfl
  have hu : (Int32.ofNat (n % 7)).toUInt32 = UInt32.ofNat (n % 7) := rfl
  rw [ib2disp, hmod, hu, UInt32.toNat_mul, UInt32.toNat_ofNat']
  have h72 : (72 : UInt32).toNat = 72 := rfl
  rw [h72]
  omega

/-! ## The laws of storage -/

section Laws

variable {disk : Disk} {b : Lfiblk} {m n : Nat}

theorem Disk.write_eq (hb : disk.bad = false) (x : Sector) (s : Int32) : disk.write x s =
    (OK, { disk with sector := Function.update disk.sector s x, written := s :: disk.written }) := by
  rw [Disk.write, hb]
  rfl

/-- `lfibput` reads the sector, writes one index block into it and writes it back. -/
theorem lfibput_eq (hb : disk.bad = false) (i : Int32) (b : Lfiblk) : lfibput disk i b =
    (OK, { disk with
      sector := Function.update disk.sector (ib2sect i) (Bytes.overlay (disk.sector (ib2sect i)) (ib2disp i) b.bytes)
      written := ib2sect i :: disk.written }) := by
  have hread : disk.read (fun _ => 0) (ib2sect i) = (OK, disk.sector (ib2sect i)) := by
    rw [Disk.read, hb]
    rfl
  have hok : ¬OK = SYSERR := by decide
  rw [lfibput, hread]
  simp only [if_neg hok, Disk.write_eq hb]

theorem lfibput_bad (hb : disk.bad = false) (i : Int32) (b : Lfiblk) : (lfibput disk i b).2.bad = false := by
  rw [lfibput_eq hb]
  exact hb

theorem lfibput_written (hb : disk.bad = false) (i : Int32) (b : Lfiblk) :
    (lfibput disk i b).2.written = ib2sect i :: disk.written := by
  rw [lfibput_eq hb]

/-- The other sectors are kept. -/
theorem lfibput_sector {s : Int32} (hb : disk.bad = false) {i : Int32} (hs : s ≠ ib2sect i) (b : Lfiblk) :
    (lfibput disk i b).2.sector s = disk.sector s := by
  rw [lfibput_eq hb]
  exact Function.update_of_ne hs _ _

/-- What was stored is fetched. -/
theorem lfibget_lfibput (hb : disk.bad = false) (hn : n < 2 ^ 31) (b : Lfiblk) :
    lfibget (lfibput disk (Int32.ofNat n) b).2 (Int32.ofNat n) = b := by
  rw [lfibput_eq hb, lfibget]
  simp only [Function.update_self]
  refine Sector.iblock_overlay ?_ b
  rw [ib2disp_ofNat hn]
  omega

/-- Every other index block is kept. -/
theorem lfibget_lfibput_of_ne (hb : disk.bad = false) (hn : n < 2 ^ 31) (hm : m < 2 ^ 31) (hne : m ≠ n) (b : Lfiblk) :
    lfibget (lfibput disk (Int32.ofNat n) b).2 (Int32.ofNat m) = lfibget disk (Int32.ofNat m) := by
  by_cases hs : m / 7 = n / 7
  · have hsect : ib2sect (Int32.ofNat m) = ib2sect (Int32.ofNat n) := by rw [ib2sect_ofNat hm, ib2sect_ofNat hn, hs]
    rw [lfibput_eq hb, lfibget, lfibget, hsect]
    simp only [Function.update_self]
    refine Sector.iblock_overlay_off ?_ b
    rw [ib2disp_ofNat hm, ib2disp_ofNat hn]
    omega
  · have hsect : ib2sect (Int32.ofNat m) ≠ ib2sect (Int32.ofNat n) := by
      rw [ib2sect_ofNat hm, ib2sect_ofNat hn]
      intro e
      have := (ofNat_inj (by omega) (by omega)).mp e
      omega
    rw [lfibget, lfibput_sector hb hsect]
    rfl

/-- A sector that holds no part of an index block is written. -/
theorem lfibget_write (hb : disk.bad = false) {s : Int32} {i : Int32} (hs : ib2sect i ≠ s) (x : Sector) :
    lfibget (disk.write x s).2 i = lfibget disk i := by
  rw [Disk.write_eq hb, lfibget]
  simp only [Function.update_of_ne hs]
  rfl

end Laws

end Xinu
