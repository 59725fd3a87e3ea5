import Mathlib.Data.Fin.Tuple.Basic
import Xinu.Lib.Bytes
import Xinu.Kernel.Queue

/-!
# The format of a local file system

`lfilesys.h`: the disk is an array of 512-byte sectors. Sector 0 is the directory, the next ones hold seven 72-byte index blocks
each, and the rest are data blocks. The structures are here with their layout in bytes, and `lfibget`, `lfibput`, `lfibclear` and
`lfscheck` with them.
-/

namespace Xinu

def LF_BLKSIZ : Nat := 512
def LF_NAME_LEN : Nat := 16
def LF_NUM_DIR_ENT : Nat := 20
def LF_INULL : Int32 := -1
def LF_DNULL : Int32 := -1
def LF_AREA_IB : Int32 := 1
def LF_AREA_DIR : Int32 := 0
def LFS_ID : UInt32 := 0x58696E75

/-- A sector, or a buffer for one, of `LF_BLKSIZ` bytes. -/
abbrev Sector : Type := Fin 512 → UInt8

/-- A disk device. A device that is `bad` rejects every transfer. `written` is not a part of the device: it lists the sectors
that were written, the last one first. -/
structure Disk where
  sector : Int32 → Sector
  bad : Bool
  written : List Int32

namespace Disk

/-- `read` on the device: what it returns, and the buffer. -/
def read (disk : Disk) (buff : Sector) (n : Int32) : Int × Sector := if disk.bad then (SYSERR, buff) else (OK, disk.sector n)

/-- `write` on the device. -/
def write (disk : Disk) (buff : Sector) (n : Int32) : Int × Disk :=
  if disk.bad then (SYSERR, disk)
  else (OK, { disk with sector := Function.update disk.sector n buff, written := n :: disk.written })

end Disk

/-- `struct lfiblk`: an index block, with 16 pointers to data blocks. -/
@[ext] structure Lfiblk where
  ib_next : Int32
  ib_offset : UInt32
  ib_dba : Fin 16 → Int32

namespace Lfiblk

/-- The words of an index block, in the order of the structure. -/
def words (b : Lfiblk) (k : Fin 18) : UInt32 :=
  if k = 0 then b.ib_next.toUInt32 else if k = 1 then b.ib_offset else (b.ib_dba ⟨k - 2, by omega⟩).toUInt32

/-- The directory in the words of a sector: three counts and numbers, the entries and the padding. -/
def ofWords (w : Fin 18 → UInt32) : Lfiblk where
  ib_next := (w 0).toInt32
  ib_offset := w 1
  ib_dba j := (w ⟨j + 2, by omega⟩).toInt32

/-- An index block is read back from its words. -/
theorem ofWords_words (b : Lfiblk) : ofWords b.words = b := by
  have hdba : (ofWords b.words).ib_dba = b.ib_dba := by
    funext j
    have h0 : (⟨(j : Nat) + 2, by omega⟩ : Fin 18) ≠ 0 := Fin.ne_of_val_ne (Nat.succ_ne_zero _)
    have h1 : (⟨(j : Nat) + 2, by omega⟩ : Fin 18) ≠ 1 := Fin.ne_of_val_ne (Nat.succ_succ_ne_one _)
    change (b.words ⟨(j : Nat) + 2, by omega⟩).toInt32 = b.ib_dba j
    rw [words, if_neg h0, if_neg h1]
    rfl
  exact Lfiblk.ext rfl rfl hdba

/-- The structure in memory, of `sizeof(struct lfiblk)` bytes. -/
def bytes (b : Lfiblk) : Fin 72 → UInt8 := Bytes.bytes (n := 18) b.words

def ofBytes (x : Fin 72 → UInt8) : Lfiblk := ofWords (Bytes.word (n := 18) x)

theorem ofBytes_bytes (b : Lfiblk) : ofBytes b.bytes = b := by
  unfold ofBytes bytes
  rw [Bytes.word_bytes, ofWords_words]

end Lfiblk

/-- `struct ldentry`: a file's entry in the directory, with a name of at most `LF_NAME_LEN` bytes. -/
@[ext] structure Ldentry where
  ld_size : UInt32
  ld_ilist : Int32
  ld_name : Fin 16 → UInt8

namespace Ldentry

def words (e : Ldentry) (k : Fin 6) : UInt32 :=
  if k = 0 then e.ld_size else if k = 1 then e.ld_ilist.toUInt32 else Bytes.word (n := 4) e.ld_name ⟨k - 2, by omega⟩

def ofWords (w : Fin 6 → UInt32) : Ldentry where
  ld_size := w 0
  ld_ilist := (w 1).toInt32
  ld_name := Bytes.bytes (n := 4) (fun q => w ⟨q + 2, by omega⟩)

/-- A directory entry is read back from its words. -/
theorem ofWords_words (e : Ldentry) : ofWords e.words = e := by
  have hname : (fun q : Fin 4 => e.words ⟨q + 2, by omega⟩) = Bytes.word (n := 4) e.ld_name := by
    funext q
    have h0 : (⟨(q : Nat) + 2, by omega⟩ : Fin 6) ≠ 0 := Fin.ne_of_val_ne (Nat.succ_ne_zero _)
    have h1 : (⟨(q : Nat) + 2, by omega⟩ : Fin 6) ≠ 1 := Fin.ne_of_val_ne (Nat.succ_succ_ne_one _)
    rw [words, if_neg h0, if_neg h1]
    rfl
  have hb : (ofWords e.words).ld_name = e.ld_name := by
    unfold ofWords
    rw [hname]
    exact Bytes.bytes_word (n := 4) e.ld_name
  exact Ldentry.ext rfl rfl hb

end Ldentry

/-- `struct lfdir`: the directory, in memory or on disk, with `LF_NUM_DIR_ENT` entries. -/
@[ext] structure Lfdir where
  lfd_fsysid : UInt32
  lfd_vers : UInt16
  lfd_subvers : UInt16
  lfd_allzeros : UInt32
  lfd_allones : UInt32
  lfd_dfree : Int32
  lfd_ifree : Int32
  lfd_nfiles : Int32
  lfd_files : Fin 20 → Ldentry
  lfd_revid : UInt32

namespace Lfdir

/-- The words of the directory: the structure is packed and fills a sector. -/
def words (d : Lfdir) (k : Fin 128) : UInt32 :=
  if k = 0 then d.lfd_fsysid
  else if k = 1 then UInt32.ofNat (d.lfd_vers.toNat + 65536 * d.lfd_subvers.toNat)
  else if k = 2 then d.lfd_allzeros
  else if k = 3 then d.lfd_allones
  else if k = 4 then d.lfd_dfree.toUInt32
  else if k = 5 then d.lfd_ifree.toUInt32
  else if k = 6 then d.lfd_nfiles.toUInt32
  else if h : k = 127 then d.lfd_revid
  else (d.lfd_files ⟨(k - 7) / 6, by omega⟩).words ⟨(k - 7) % 6, by omega⟩

def ofWords (w : Fin 128 → UInt32) : Lfdir where
  lfd_fsysid := w 0
  lfd_vers := UInt16.ofNat (w 1).toNat
  lfd_subvers := UInt16.ofNat ((w 1).toNat / 65536)
  lfd_allzeros := w 2
  lfd_allones := w 3
  lfd_dfree := (w 4).toInt32
  lfd_ifree := (w 5).toInt32
  lfd_nfiles := (w 6).toInt32
  lfd_files i := Ldentry.ofWords (fun q => w ⟨7 + 6 * i + q, by omega⟩)
  lfd_revid := w 127

/-- Where the words of an entry stand in the sector. -/
theorem words_file (d : Lfdir) (i : Fin 20) (q : Fin 6) :
    d.words ⟨7 + 6 * i + q, by omega⟩ = (d.lfd_files i).words q := by
  have hne : ∀ n : Fin 128, (n : Nat) < 7 → (⟨7 + 6 * i + q, by omega⟩ : Fin 128) ≠ n := by
    intro n hn e
    have := congrArg Fin.val e
    simp only at this
    omega
  have hlast : (⟨7 + 6 * i + q, by omega⟩ : Fin 128) ≠ 127 := by
    intro e
    have h1 : 7 + 6 * (i : Nat) + q = 127 := congrArg Fin.val e
    omega
  have hdiv : (7 + 6 * (i : Nat) + q - 7) / 6 = i := by omega
  have hmod : (7 + 6 * (i : Nat) + q - 7) % 6 = q := by omega
  unfold words
  rw [if_neg (hne 0 (by decide)), if_neg (hne 1 (by decide)), if_neg (hne 2 (by decide)), if_neg (hne 3 (by decide)),
    if_neg (hne 4 (by decide)), if_neg (hne 5 (by decide)), if_neg (hne 6 (by decide)), dif_neg hlast]
  simp only [hdiv, hmod, Fin.eta]

/-- The directory is read back from the words of its sector. -/
theorem ofWords_words (d : Lfdir) : ofWords d.words = d := by
  have hv : d.lfd_vers.toNat < 2 ^ 16 := d.lfd_vers.toNat_lt
  have hs : d.lfd_subvers.toNat < 2 ^ 16 := d.lfd_subvers.toNat_lt
  have hw : (d.words 1).toNat = d.lfd_vers.toNat + 65536 * d.lfd_subvers.toNat := by
    change (UInt32.ofNat (d.lfd_vers.toNat + 65536 * d.lfd_subvers.toNat)).toNat = _
    rw [UInt32.toNat_ofNat']
    omega
  have hfiles : (ofWords d.words).lfd_files = d.lfd_files := by
    funext i
    have he : (fun q : Fin 6 => d.words ⟨7 + 6 * i + q, by omega⟩) = (d.lfd_files i).words := funext (d.words_file i)
    simp only [ofWords, he, Ldentry.ofWords_words]
  have hvers : (ofWords d.words).lfd_vers = d.lfd_vers := by
    apply UInt16.toNat_inj.mp
    simp only [ofWords, hw, UInt16.toNat_ofNat']
    omega
  have hsub : (ofWords d.words).lfd_subvers = d.lfd_subvers := by
    apply UInt16.toNat_inj.mp
    simp only [ofWords, hw, UInt16.toNat_ofNat']
    omega
  exact Lfdir.ext rfl hvers hsub rfl rfl rfl rfl rfl hfiles rfl

/-- The structure in memory, as it is written to the disk. -/
def bytes (d : Lfdir) : Sector := Bytes.bytes (n := 128) d.words

def ofBytes (b : Sector) : Lfdir := ofWords (Bytes.word (n := 128) b)

theorem ofBytes_bytes (d : Lfdir) : ofBytes d.bytes = d := by
  unfold ofBytes bytes
  rw [Bytes.word_bytes, ofWords_words]

end Lfdir

/-! ## Data blocks on the free list -/

namespace Sector

/-- `lf_nextdb` of a `struct lfdbfree`. -/
def nextdb (b : Sector) : Int32 := (Bytes.word (n := 128) b 0).toInt32

/-- Assign `lf_nextdb`. -/
def setNextdb (b : Sector) (n : Int32) : Sector := Bytes.overlay b 0 (Bytes.bytes (n := 1) (fun _ => n.toUInt32))

theorem nextdb_setNextdb (b : Sector) (n : Int32) : (b.setNextdb n).nextdb = n := by
  have hw : Bytes.word (n := 128) (b.setNextdb n) 0 = n.toUInt32 := Bytes.wordOf_byteOf n.toUInt32
  rw [nextdb, hw]
  rfl

end Sector

/-! ## Index blocks -/

/-- The sector an index block is in. -/
def ib2sect (ib : Int32) : Int32 := ib / 7 + LF_AREA_IB

/-- Its displacement in the sector. -/
def ib2disp (ib : Int32) : Nat := ((ib % 7).toUInt32 * 72).toNat

/-- The bytes of a sector at an index block's displacement. -/
def Sector.iblock (b : Sector) (disp : Nat) : Lfiblk :=
  Lfiblk.ofBytes (fun t => if h : disp + t < 512 then b ⟨disp + t, h⟩ else 0)

/-- `lfibget`: get an index block from disk given its number. -/
def lfibget (disk : Disk) (inum : Int32) : Lfiblk := (disk.sector (ib2sect inum)).iblock (ib2disp inum)

/-- `lfibput`: write an index block to disk given its ID. -/
def lfibput (disk : Disk) (inum : Int32) (ibuff : Lfiblk) : Int × Disk :=
  match disk.read (fun _ => 0) (ib2sect inum) with
  | (st, dbuff) =>
    if st = SYSERR then (SYSERR, disk)
    else (OK, (disk.write (Bytes.overlay dbuff (ib2disp inum) ibuff.bytes) (ib2sect inum)).2)

/-- `lfibclear`: clear an in-core copy of an index block. -/
def lfibclear (offset : UInt32) : Lfiblk := { ib_next := LF_INULL, ib_offset := offset, ib_dba := fun _ => LF_DNULL }

/-- `LFS_ID` in reverse byte order, as `lfscreate` and `lfscheck` compute it. -/
def lfsReverse : UInt32 :=
  ((LFS_ID >>> (24 : UInt32)) &&& 0x000000ff) ||| ((LFS_ID >>> (8 : UInt32)) &&& 0x0000ff00) |||
    ((LFS_ID <<< (8 : UInt32)) &&& 0x00ff0000) ||| ((LFS_ID <<< (24 : UInt32)) &&& 0xff000000)

/-- `lfscheck`: check a directory to verify it contains a Xinu file system. -/
def lfscheck (dir : Lfdir) : Int :=
  if dir.lfd_fsysid ≠ LFS_ID ∨ dir.lfd_allzeros ≠ 0 ∨ dir.lfd_allones ≠ 0xffffffff then SYSERR
  else if dir.lfd_revid ≠ lfsReverse then SYSERR
  else if dir.lfd_nfiles < 0 then SYSERR
  else OK

end Xinu
