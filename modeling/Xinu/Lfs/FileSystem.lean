import Xinu.Lfs.Format

/-!
# The local file system

`lfsinit.c`, `lflinit.c`, `lfgetmode.c`, `lfsopen.c`, `lflputc.c`, `lflgetc.c`, `lflread.c`, `lflwrite.c`, `lflseek.c`,
`lflcontrol.c`, `lflclose.c` and the routines behind them. One process uses the file system at a time, so the semaphores `lf_mutex`
and `lfmutex` are left out. A pointer to an entry of the directory is its index, and `lfbyte` is a displacement in `lfdblock`. A
routine that calls `panic`, or has a loop without an end, does not return (`Fault`).
-/

namespace Xinu

/-- Bytes of data indexed by a single index block, and the masks for them and for a data block. -/
def LF_IDATA : UInt32 := 8192
def LF_IMASK : UInt32 := 0x00001fff
def LF_DMASK : UInt32 := 0x000001ff

def F_CTL_TRUNC : Int := 2

/-- The mode bits. -/
structure Mode where
  r : Bool
  w : Bool
  o : Bool
  n : Bool
deriving Repr, DecidableEq, Inhabited

inductive LfState where
  | LF_FREE
  | LF_USED
deriving Repr, DecidableEq, Inhabited

/-- `struct lflcblk`. -/
structure Lflcblk where
  lfstate : LfState
  lfdev : Int
  lfdirptr : Fin 20
  lfmode : Mode
  lfpos : UInt32
  lfname : Fin 16 → UInt8
  lfinum : Int32
  lfiblock : Lfiblk
  lfdnum : Int32
  lfdblock : Sector
  lfbyte : Nat
  lfibdirty : Bool
  lfdbdirty : Bool

/-- `Lf_data`, the disk it names, and `lfltab` with `Nlfl` entries. -/
structure Lfs where
  disk : Disk
  lf_dir : Lfdir
  lf_dirpresent : Bool
  lf_dirdirty : Bool
  lfltab : Fin 6 → Lflcblk

/-- Why a routine does not return: the free lists are empty, the disk cannot be read, or a list has no end. -/
inductive Fault where
  | noIndexBlocks
  | noDataBlocks
  | unreadable
  | endless
deriving Repr, DecidableEq

/-! ## Modes and names -/

/-- The loop of `lfgetmode`. -/
def getmodeLoop : List Char → Mode → Option Mode
  | [], mbits => some mbits
  | 'r' :: mode, mbits => if mbits.r then none else getmodeLoop mode { mbits with r := true }
  | 'w' :: mode, mbits => if mbits.w then none else getmodeLoop mode { mbits with w := true }
  | 'o' :: mode, mbits => if mbits.o || mbits.n then none else getmodeLoop mode { mbits with o := true }
  | 'n' :: mode, mbits => if mbits.o || mbits.n then none else getmodeLoop mode { mbits with n := true }
  | _ :: _, _ => none

/-- `lfgetmode`; `none` for `SYSERR`. -/
def lfgetmode (mode : List Char) : Option Mode :=
  (getmodeLoop mode { r := false, w := false, o := false, n := false }).map fun mbits =>
    if mbits.r || mbits.w then mbits else { mbits with r := true, w := true }

/-- A byte of a name field. -/
def nameByte (field : Fin 16 → UInt8) (i : Nat) : UInt8 := if h : i < 16 then field ⟨i, h⟩ else 0

/-- The loop that compares a name with a name field, from position `i` on. -/
def sameName (field : Fin 16 → UInt8) : Nat → List UInt8 → Bool
  | i, [] => nameByte field i == 0
  | i, c :: name => nameByte field i == c && sameName field (i + 1) name

/-- The loop that copies a name into a name field. -/
def copyName (field : Fin 16 → UInt8) (name : List UInt8) (i : Fin 16) : UInt8 :=
  if (i : Nat) < name.length then name.getD i 0 else if (i : Nat) = name.length then 0 else field i

namespace Lfs

variable (s : Lfs)

def setEntry (d : Fin 6) (lf : Lflcblk) : Lfs := { s with lfltab := Function.update s.lfltab d lf }

/-- Write an entry of the directory in memory. -/
def setFile (f : Fin 20) (ld : Ldentry) : Lfs :=
  { s with lf_dir := { s.lf_dir with lfd_files := Function.update s.lf_dir.lfd_files f ld } }

/-- The directory entry of an open file. -/
def file (d : Fin 6) : Ldentry := s.lf_dir.lfd_files (s.lfltab d).lfdirptr

def used (d : Fin 6) : Prop := (s.lfltab d).lfstate = .LF_USED

instance (d : Fin 6) : Decidable (s.used d) := inferInstanceAs (Decidable (_ = _))

/-! ## Blocks -/

/-- Write the directory to the disk. -/
def writeDir : Lfs := { s with disk := (s.disk.write s.lf_dir.bytes LF_AREA_DIR).2, lf_dirdirty := false }

/-- The parts of `lfflush` that write the data block and the index block. -/
def flushData (d : Fin 6) : Lfs :=
  { s with disk := (s.disk.write (s.lfltab d).lfdblock (s.lfltab d).lfdnum).2 }.setEntry d { s.lfltab d with lfdbdirty := false }

def flushIndex (d : Fin 6) : Lfs :=
  { s with disk := (lfibput s.disk (s.lfltab d).lfinum (s.lfltab d).lfiblock).2 }.setEntry d { s.lfltab d with lfibdirty := false }

/-- `lfflush`. -/
def lfflush (d : Fin 6) : Int × Lfs :=
  if (s.lfltab d).lfstate = .LF_FREE then (SYSERR, s)
  else
    let s := if s.lf_dirdirty then s.writeDir else s
    let s := if (s.lfltab d).lfdbdirty then s.flushData d else s
    let s := if (s.lfltab d).lfibdirty then s.flushIndex d else s
    (OK, s)

/-- `lfiballoc`: allocate a new index block from the free list on disk. -/
def lfiballoc : Except Fault (Int32 × Lfs) :=
  let ibnum := s.lf_dir.lfd_ifree
  if ibnum = LF_INULL then .error .noIndexBlocks
  else
    let iblock := lfibget s.disk ibnum
    .ok (ibnum, { s with lf_dir := { s.lf_dir with lfd_ifree := iblock.ib_next } }.writeDir)

/-- The block that `lfdballoc` leaves in the buffer, filled with `DFILL`. -/
def dfill : Sector := fun _ => 43

/-- `lfdballoc`: allocate a new data block from the free list on disk. The buffer is filled. -/
def lfdballoc (dbuff : Sector) : Except Fault (Int32 × Sector × Lfs) :=
  let dnum := s.lf_dir.lfd_dfree
  if dnum = LF_DNULL then .error .noDataBlocks
  else
    match s.disk.read dbuff dnum with
    | (retval, dbuff) =>
      if retval = SYSERR then .error .unreadable
      else .ok (dnum, dfill, { s with lf_dir := { s.lf_dir with lfd_dfree := dbuff.nextdb } }.writeDir)

/-- `lfdbfree`: free a data block given its block number. The rest of the buffer is not initialized, and not read either. -/
def lfdbfree (dnum : Int32) : Lfs :=
  let buf : Sector := Sector.setNextdb (fun _ => 0) s.lf_dir.lfd_dfree
  let s := { s with lf_dir := { s.lf_dir with lfd_dfree := dnum } }
  { s with disk := ((s.disk.write buf dnum).2.write s.lf_dir.bytes LF_AREA_DIR).2 }

/-! ## `lfsetup` -/

/-- Read an index block into the control block. -/
def loadIndex (d : Fin 6) (ibnum : Int32) : Lfs :=
  s.setEntry d { s.lfltab d with lfiblock := lfibget s.disk ibnum, lfinum := ibnum }

/-- The part of `lfsetup` that takes an index block at or before the position into memory: the one that is there, or the first one
of the file, or a new one. -/
def firstIndex (d : Fin 6) : Except Fault Lfs :=
  let lf := s.lfltab d
  if lf.lfinum = LF_INULL then
    if (s.file d).ld_ilist = LF_INULL then
      match s.lfiballoc with
      | .error e => .error e
      | .ok (ibnum, s) =>
        .ok ((s.setFile lf.lfdirptr { s.file d with ld_ilist := ibnum }).setEntry d
          { lf with lfiblock := lfibclear 0, lfinum := ibnum, lfibdirty := true })
    else .ok (s.loadIndex d (s.file d).ld_ilist)
  else if lf.lfpos < lf.lfiblock.ib_offset then .ok (s.loadIndex d (s.file d).ld_ilist)
  else .ok s

/-- The loop of `lfsetup` that goes along the index blocks of the file, and extends the file by one behind the last. Its offset is
more by `LF_IDATA` each time; the first argument bounds the number of steps. -/
def nextIndex : Nat → Lfs → Fin 6 → Except Fault Lfs
  | 0, _, _ => .error .endless
  | n + 1, s, d =>
    let lf := s.lfltab d
    if lf.lfpos &&& ~~~LF_IMASK > lf.lfiblock.ib_offset then
      if lf.lfiblock.ib_next = LF_INULL then
        match s.lfiballoc with
        | .error e => .error e
        | .ok (ibnum, s) =>
          let s := { s with disk := (lfibput s.disk lf.lfinum { lf.lfiblock with ib_next := ibnum }).2 }
          nextIndex n (s.setEntry d { lf with
            lfiblock := lfibclear (lf.lfiblock.ib_offset + LF_IDATA), lfinum := ibnum, lfibdirty := true, lfdnum := LF_DNULL }) d
      else
        let s := s.loadIndex d lf.lfiblock.ib_next
        nextIndex n (s.setEntry d { s.lfltab d with lfdnum := LF_DNULL }) d
    else .ok s

/-- The entry of an index block for a position. -/
def dindex (pos : UInt32) : Fin 16 := ⟨((pos &&& LF_IMASK) >>> 9).toNat % 16, Nat.mod_lt _ (by decide)⟩

/-- The part of `lfsetup` that takes the data block into memory, and sets the byte pointer. -/
def loadData (d : Fin 6) : Except Fault Lfs :=
  let lf := s.lfltab d
  let dnum := lf.lfiblock.ib_dba (dindex lf.lfpos)
  let lfbyte := (lf.lfpos &&& LF_DMASK).toNat
  if dnum = LF_DNULL then
    match s.lfdballoc lf.lfdblock with
    | .error e => .error e
    | .ok (dnum, lfdblock, s) =>
      .ok (s.setEntry d { lf with
        lfdblock, lfdnum := dnum, lfbyte, lfibdirty := true
        lfiblock := { lf.lfiblock with ib_dba := Function.update lf.lfiblock.ib_dba (dindex lf.lfpos) dnum } })
  else if dnum ≠ lf.lfdnum then
    .ok (s.setEntry d { lf with lfdblock := (s.disk.read lf.lfdblock dnum).2, lfdbdirty := false, lfdnum := dnum, lfbyte })
  else .ok (s.setEntry d { lf with lfbyte })

/-- `lfsetup`. Positions are less than 2^32, so the loop takes at most 2^19 steps on a list with ascending offsets. -/
def lfsetup (d : Fin 6) : Except Fault Lfs :=
  let s := if (s.lfltab d).lfibdirty || (s.lfltab d).lfdbdirty then (s.lfflush d).2 else s
  match s.firstIndex d with
  | .error e => .error e
  | .ok s =>
    match nextIndex 524289 s d with
    | .error e => .error e
    | .ok s => s.loadData d

/-! ## Characters -/

/-- The byte pointer is beyond the data block, so `lfsetup` is called. -/
def prepare (d : Fin 6) : Except Fault Lfs := if (s.lfltab d).lfbyte ≥ LF_BLKSIZ then s.lfsetup d else .ok s

/-- The end of `lflputc`: the byte is placed in the buffer. -/
def putByte (d : Fin 6) (ch : UInt8) : Lfs :=
  let s :=
    if (s.lfltab d).lfpos ≥ (s.file d).ld_size then
      { s.setFile (s.lfltab d).lfdirptr { s.file d with ld_size := (s.file d).ld_size + 1 } with lf_dirdirty := true }
    else s
  let lf := s.lfltab d
  s.setEntry d { lf with
    lfdblock := fun i => if (i : Nat) = lf.lfbyte then ch else lf.lfdblock i
    lfbyte := lf.lfbyte + 1, lfpos := lf.lfpos + 1, lfdbdirty := true }

/-- `lflputc`. -/
def lflputc (d : Fin 6) (ch : UInt8) : Except Fault (Int × Lfs) :=
  if ¬s.used d then .ok (SYSERR, s)
  else if (s.lfltab d).lfpos > (s.file d).ld_size then .ok (SYSERR, s)
  else
    match s.prepare d with
    | .error e => .error e
    | .ok s => .ok (OK, s.putByte d ch)

/-- The end of `lflgetc`: the next byte of the buffer. -/
def getByte (d : Fin 6) : Int × Lfs :=
  let lf := s.lfltab d
  (if h : lf.lfbyte < 512 then ((lf.lfdblock ⟨lf.lfbyte, h⟩).toNat : Int) else 0,
    s.setEntry d { lf with lfbyte := lf.lfbyte + 1, lfpos := lf.lfpos + 1 })

/-- `lflgetc`. -/
def lflgetc (d : Fin 6) : Except Fault (Int × Lfs) :=
  if ¬s.used d then .ok (SYSERR, s)
  else if (s.lfltab d).lfpos ≥ (s.file d).ld_size then .ok (EOF, s)
  else
    match s.prepare d with
    | .error e => .error e
    | .ok s => .ok (s.getByte d)

/-- The loop of `lflwrite`. -/
def writeLoop (d : Fin 6) : List UInt8 → Lfs → Except Fault (Int × Lfs)
  | [], s => .ok (OK, s)
  | ch :: buff, s =>
    match s.lflputc d ch with
    | .error e => .error e
    | .ok (retval, s) => if retval = SYSERR then .ok (SYSERR, s) else writeLoop d buff s

/-- `lflwrite`. -/
def lflwrite (d : Fin 6) (buff : Nat → UInt8) (count : Int32) : Except Fault (Int × Lfs) :=
  if count < 0 then .ok (SYSERR, s)
  else
    match writeLoop d ((List.range count.toInt.toNat).map buff) s with
    | .error e => .error e
    | .ok (retval, s) => .ok (if retval = SYSERR then SYSERR else count.toInt, s)

/-- The loop of `lflread`, when it has stored the bytes `got`: the value returned, and the bytes. -/
def readLoop (d : Fin 6) : Nat → List UInt8 → Lfs → Except Fault (Int × List UInt8 × Lfs)
  | 0, got, s => .ok (got.length, got, s)
  | n + 1, got, s =>
    match s.lflgetc d with
    | .error e => .error e
    | .ok (nxtbyte, s) =>
      if nxtbyte = SYSERR then .ok (SYSERR, got, s)
      else if nxtbyte = EOF then .ok (if got.length = 0 then EOF else got.length, got, s)
      else readLoop d n (got ++ [UInt8.ofNat nxtbyte.toNat]) s

/-- `lflread`. -/
def lflread (d : Fin 6) (count : Int32) : Except Fault (Int × List UInt8 × Lfs) :=
  if count < 0 then .ok (SYSERR, [], s) else readLoop d count.toInt.toNat [] s

/-- `lflseek`. -/
def lflseek (d : Fin 6) (offset : UInt32) : Int × Lfs :=
  if ¬s.used d then (SYSERR, s)
  else if offset > (s.file d).ld_size then (SYSERR, s)
  else (OK, s.setEntry d { s.lfltab d with lfpos := offset, lfbyte := LF_BLKSIZ })

/-! ## `lftruncate` -/

/-- The loop of `lftruncate` over the data blocks of an index block. -/
def freeBlocks (iblock : Lfiblk) : Lfs :=
  (List.finRange 16).foldl (fun s i => if iblock.ib_dba i ≠ LF_DNULL then s.lfdbfree (iblock.ib_dba i) else s) s

/-- The loop of `lftruncate` over the index blocks of the file; the first argument bounds the number of steps. -/
def truncateLoop (ifree : Int32) : Nat → Int32 → Lfs → Except Fault Lfs
  | 0, _, _ => .error .endless
  | n + 1, nextib, s =>
    if nextib = ifree then .ok s
    else
      let iblock := lfibget s.disk nextib
      let s := s.freeBlocks iblock
      let iblock : Lfiblk :=
        { ib_next := if iblock.ib_next = LF_INULL then ifree else iblock.ib_next, ib_offset := 0, ib_dba := fun _ => LF_DNULL }
      truncateLoop ifree n iblock.ib_next { s with disk := (lfibput s.disk nextib iblock).2 }

/-- The part of `lftruncate` before the loop: the control block and the directory entry are cleared. -/
def clearFile (d : Fin 6) : Lfs :=
  let s := if (s.lfltab d).lfibdirty || (s.lfltab d).lfdbdirty then (s.lfflush d).2 else s
  let s := s.setEntry d { s.lfltab d with lfpos := 0, lfinum := LF_INULL, lfdnum := LF_DNULL, lfbyte := LF_BLKSIZ }
  { s.setFile (s.lfltab d).lfdirptr { s.file d with ld_ilist := LF_INULL, ld_size := 0 } with lf_dirdirty := true }

/-- `lftruncate`. There are fewer than 2^31 index blocks. -/
def lftruncate (d : Fin 6) : Except Fault (Int × Lfs) :=
  if (s.file d).ld_size = 0 then .ok (OK, s)
  else
    let firstib := (s.file d).ld_ilist
    let s := s.clearFile d
    match truncateLoop s.lf_dir.lfd_ifree 2147483648 firstib s with
    | .error e => .error e
    | .ok s => .ok (OK, { s with lf_dir := { s.lf_dir with lfd_ifree := firstib }, lf_dirdirty := true })

/-- `lflcontrol`. -/
def lflcontrol (d : Fin 6) (func : Int) : Except Fault (Int × Lfs) :=
  if ¬s.used d then .ok (SYSERR, s) else if func = F_CTL_TRUNC then s.lftruncate d else .ok (SYSERR, s)

/-- `lflclose`. -/
def lflclose (d : Fin 6) : Int × Lfs :=
  if ¬s.used d then (SYSERR, s)
  else
    let s := if s.lf_dirdirty || (s.lfltab d).lfdbdirty || (s.lfltab d).lfibdirty then (s.lfflush d).2 else s
    (OK, s.setEntry d { s.lfltab d with lfstate := .LF_FREE })

/-! ## `lfsopen` -/

/-- The loop of `lfsopen` over the open files: the first free entry, if there is one and no open file has the name. -/
def openSlot (name : List UInt8) : Option (Fin 6) :=
  if (List.finRange 6).any fun i => decide (s.used i) && sameName (s.lfltab i).lfname 0 name then none
  else (List.finRange 6).find? fun i => decide ((s.lfltab i).lfstate = .LF_FREE)

/-- The part of `lfsopen` that reads the directory when it is not in memory. -/
def loadDir : Int × Lfs :=
  if s.lf_dirpresent then (OK, s)
  else
    match s.disk.read s.lf_dir.bytes LF_AREA_DIR with
    | (retval, b) =>
      if retval = SYSERR then (SYSERR, s)
      else
        let s := { s with lf_dir := Lfdir.ofBytes b }
        if lfscheck s.lf_dir = SYSERR then (SYSERR, s) else (OK, { s with lf_dirpresent := true })

/-- The loop of `lfsopen` over the directory. -/
def findFile (dir : Lfdir) (name : List UInt8) : Option (Fin 20) :=
  (List.finRange 20).find? fun i => decide ((i : Int) < dir.lfd_nfiles.toInt) && sameName (dir.lfd_files i).ld_name 0 name

/-- The next directory entry becomes an empty file. -/
def newFile (f : Fin 20) (name : List UInt8) : Lfs :=
  let s := { s with lf_dir := { s.lf_dir with lfd_nfiles := s.lf_dir.lfd_nfiles + 1 } }
  s.setFile f { ld_size := 0, ld_ilist := LF_INULL, ld_name := copyName (s.lf_dir.lfd_files f).ld_name name }

/-- The end of `lfsopen`: the local file pseudo-device is initialized. -/
def openDevice (d : Fin 6) (f : Fin 20) (name : List UInt8) (mbits : Mode) : Int × Lfs :=
  let lf := s.lfltab d
  (lf.lfdev, s.setEntry d { lf with
    lfstate := .LF_USED, lfdirptr := f, lfmode := { mbits with o := false, n := false }, lfpos := 0, lfname := copyName lf.lfname name
    lfinum := LF_INULL, lfdnum := LF_DNULL, lfbyte := LF_BLKSIZ, lfibdirty := false, lfdbdirty := false })

/-- `lfsopen`. A name is the list of its bytes; it ends before a NUL byte. `lfscheck` has made sure that `lfd_nfiles` is not
negative. -/
def lfsopen (name : List UInt8) (mode : List Char) : Int × Lfs :=
  let name := name.takeWhile (· ≠ 0)
  if name.length ≥ LF_NAME_LEN then (SYSERR, s)
  else
    match lfgetmode mode with
    | none => (SYSERR, s)
    | some mbits =>
      match s.openSlot name with
      | none => (SYSERR, s)
      | some lfnext =>
        match s.loadDir with
        | (retval, s) =>
          if retval = SYSERR then (SYSERR, s)
          else
            match findFile s.lf_dir name with
            | none =>
              if mbits.o then (SYSERR, s)
              else if h : s.lf_dir.lfd_nfiles.toInt.toNat < 20 then
                (s.newFile ⟨s.lf_dir.lfd_nfiles.toInt.toNat, h⟩ name).openDevice lfnext ⟨s.lf_dir.lfd_nfiles.toInt.toNat, h⟩ name mbits
              else (SYSERR, s)
            | some f => if mbits.n then (SYSERR, s) else s.openDevice lfnext f name mbits

/-! ## Calls -/

/-- A call of a user. -/
inductive LfsCall where
  | lfsopen (name : List UInt8) (mode : List Char)
  | lflputc (d : Fin 6) (ch : UInt8)
  | lflgetc (d : Fin 6)
  | lflread (d : Fin 6) (count : Int32)
  | lflwrite (d : Fin 6) (buff : Nat → UInt8) (count : Int32)
  | lflseek (d : Fin 6) (offset : UInt32)
  | lflcontrol (d : Fin 6) (func : Int)
  | lflclose (d : Fin 6)

/-- What a call returns, the bytes that it has stored in the buffer of the user, and the file system behind it. -/
def call : LfsCall → Except Fault (Int × List UInt8 × Lfs)
  | .lfsopen name mode => .ok ((s.lfsopen name mode).1, [], (s.lfsopen name mode).2)
  | .lflputc d ch => (s.lflputc d ch).map fun x => (x.1, [], x.2)
  | .lflgetc d => (s.lflgetc d).map fun x => (x.1, [], x.2)
  | .lflread d count => s.lflread d count
  | .lflwrite d buff count => (s.lflwrite d buff count).map fun x => (x.1, [], x.2)
  | .lflseek d offset => .ok ((s.lflseek d offset).1, [], (s.lflseek d offset).2)
  | .lflcontrol d func => (s.lflcontrol d func).map fun x => (x.1, [], x.2)
  | .lflclose d => .ok ((s.lflclose d).1, [], (s.lflclose d).2)

/-- The control block that `lflinit` leaves, for the device `lfdev`. -/
def emptyEntry (lfdev : Int) : Lflcblk where
  lfstate := .LF_FREE
  lfdev := lfdev
  lfdirptr := 0
  lfmode := { r := false, w := false, o := false, n := false }
  lfpos := 0
  lfname := fun _ => 0
  lfinum := LF_INULL
  lfiblock := { ib_next := 0, ib_offset := 0, ib_dba := fun _ => 0 }
  lfdnum := 0
  lfdblock := fun _ => 0
  lfbyte := LF_BLKSIZ
  lfibdirty := false
  lfdbdirty := false

/-- The file system behind `lfsinit`, and `lflinit` for every device. -/
def init (disk : Disk) (lfdev : Fin 6 → Int) : Lfs where
  disk := disk
  lf_dir := Lfdir.ofBytes (fun _ => 0)
  lf_dirpresent := false
  lf_dirdirty := false
  lfltab d := emptyEntry (lfdev d)

/-- The states that calls lead to. -/
inductive Reach (s₀ : Lfs) : Lfs → Prop where
  | refl : Reach s₀ s₀
  | step {s s' : Lfs} {value : Int} {bytes : List UInt8} (c : LfsCall) (r : Reach s₀ s) (h : s.call c = .ok (value, bytes, s')) :
      Reach s₀ s'

end Lfs

end Xinu
