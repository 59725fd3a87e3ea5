import Xinu.Device.Remote

/-!
# The remote file system

`rfscomm.c`, `rfsopen.c`, `rfsgetmode.c`, `rflread.c`, `rflwrite.c`, `rflseek.c`, `rflclose.c` and `rflinit.c`. The fields of a
message are at fixed offsets: `rf_type` 0, `rf_status` 2, `rf_seq` 4, `rf_name` 8, then `rf_pos` or `rf_mode` 136, `rf_len` 140 and
`rf_data` 144. All calls run under the semaphore `rf_mutex`, one after the other. The control functions send messages of their own
and touch no control block; of them the exchange is kept.

`opened` is not a variable of the source: it records for each control block the name that the request carried which opened it.
-/

namespace Xinu

namespace Rfs

open Remote

def Nrfl : Nat := 10
def RF_NAMLEN : Nat := 128
def RF_DATALEN : Nat := 1024
def RF_RETRIES : Nat := 3

def RF_MODE_R : UInt32 := 0x01
def RF_MODE_W : UInt32 := 0x02
def RF_MODE_RW : UInt32 := 0x03
def RF_MODE_N : UInt32 := 0x04
def RF_MODE_O : UInt32 := 0x08

def RF_MSG_RREQ : UInt16 := 0x0001
def RF_MSG_WREQ : UInt16 := 0x0002
def RF_MSG_OREQ : UInt16 := 0x0003

/-- The sizes of the messages: of the header, of an open message, of a message with a position and a length, and of one with
data. -/
def HDR_LEN : Nat := 136
def OPEN_LEN : Nat := 140
def POS_LEN : Nat := 144
def DATA_LEN : Nat := 1168

/-! ## Communication -/

/-- The fields of `Rf_data` that the calls change. -/
structure Rfdata where
  rf_seq : UInt32
  rf_udp_slot : Int
  rf_registered : Bool

/-- The tests of a reply in the loop of `rfscomm`. -/
def judge (msg : Buffer) (seq : UInt32) (reply : Buffer) : Verdict :=
  if ntohl (reply.word 4) ≠ seq then .again true
  else if !isResponse reply msg then .again true
  else .accept

/-- What `rfscomm` returns behind its loop. -/
def retvalOf : End → Int
  | .cannotSend => SYSERR
  | .cannotRead => SYSERR
  | .accepted retval => retval
  | .exhausted => TIMEOUT

/-- What a call of `rfscomm` leaves. -/
structure Outcome where
  retval : Int
  msg : Buffer
  reply : Buffer
  data : Rfdata
  net : Net

/-- `rfscomm`: send a request and receive a reply. -/
def rfscomm (msg : Buffer) (mlen : Nat) (reply : Buffer) (rlen : Int) (data : Rfdata) (net : Net) : Outcome :=
  if !data.rf_registered ∧ net.slot = SYSERR then ⟨SYSERR, msg, reply, data, net⟩
  else
    let data := if data.rf_registered then data else { data with rf_udp_slot := net.slot, rf_registered := true }
    let seq := data.rf_seq
    let data := { data with rf_seq := data.rf_seq + 1 }
    let msg := msg.setWord 4 (htonl seq)
    let (e, reply, net) := converse (msg.bytes 0 mlen) rlen (judge msg seq) RF_RETRIES true reply net
    ⟨retvalOf e, msg, reply, data, net⟩

/-! ## Control blocks and requests -/

inductive RfState where
  | RF_FREE
  | RF_USED
deriving Repr, DecidableEq

/-- `struct rflcblk`. -/
structure Rflcblk where
  rfstate : RfState
  rfdev : Nat
  rfname : Buffer
  rfpos : UInt32
  rfmode : UInt32

/-- The memory of a control block from the name on: the position and the mode follow the name. -/
def Rflcblk.memory (rfptr : Rflcblk) : Buffer := (rfptr.rfname.setWord 128 rfptr.rfpos).setWord 132 rfptr.rfmode

/-- The bytes of a control block from the name on. -/
def BLOCK_LEN : Nat := 136

/-- The start of a request, with a name of zero bytes. -/
def header (type : UInt16) (msg : Buffer) : Buffer := Remote.header type RF_NAMLEN msg

/-- The result of forming a request: the name is too long, its copy leaves the control block, or the message. -/
inductive Formed where
  | tooLong
  | runaway
  | request (msg : Buffer)

/-- The read request of `rflread`. -/
def readRequest (rfptr : Rflcblk) (count : Int) (msg : Buffer) : Formed :=
  match Buffer.copyUpTo rfptr.memory 8 RF_NAMLEN 0 (header RF_MSG_RREQ msg) with
  | (_, none) => .tooLong
  | (msg, some _) => .request ((msg.setWord 136 (htonl rfptr.rfpos)).setWord 140 (htonl (UInt32.ofNat count.toNat)))

/-- The write request of `rflwrite`. A second loop goes on behind the terminator of the name. -/
def writeRequest (rfptr : Rflcblk) (buff : Buffer) (count : Int) (msg : Buffer) : Formed :=
  match Buffer.copyUpTo rfptr.memory 8 RF_NAMLEN 0 (header RF_MSG_WREQ msg) with
  | (_, none) => .tooLong
  | (msg, some len) =>
    match Buffer.copyString rfptr.memory 8 (BLOCK_LEN - (len + 1)) (len + 1) msg with
    | none => .runaway
    | some msg =>
      let msg := (msg.setWord 136 (htonl rfptr.rfpos)).setWord 140 (htonl (UInt32.ofNat count.toNat))
      .request ((msg.copy 144 buff count.toNat).copy (144 + count.toNat) (fun _ => 0) (RF_DATALEN - count.toNat))

/-- The open request of `rfsopen`, for a name of `len` bytes. -/
def openRequest (name : Buffer) (len : Nat) (mbits : UInt32) (msg : Buffer) : Buffer :=
  (Buffer.copyUpTo name 8 (len + 1) 0 (header RF_MSG_OREQ msg)).1.setWord 136 (htonl mbits)

/-- The loop of `rfsgetmode` over the characters of the mode; `none` is `SYSERR`. -/
def getmodeLoop (mbits : UInt32) : List UInt8 → Option UInt32
  | [] => some (if mbits &&& RF_MODE_RW = 0 then mbits ||| RF_MODE_RW else mbits)
  | ch :: mode =>
    if ch = 114 then
      if mbits &&& RF_MODE_R ≠ 0 then none else getmodeLoop (mbits ||| RF_MODE_R) mode
    else if ch = 119 then
      if mbits &&& RF_MODE_W ≠ 0 then none else getmodeLoop (mbits ||| RF_MODE_W) mode
    else if ch = 111 then
      if mbits &&& RF_MODE_O ≠ 0 ∨ mbits &&& RF_MODE_N ≠ 0 then none else getmodeLoop (mbits ||| RF_MODE_O) mode
    else if ch = 110 then
      if mbits &&& RF_MODE_O ≠ 0 ∨ mbits &&& RF_MODE_N ≠ 0 then none else getmodeLoop (mbits ||| RF_MODE_N) mode
    else none

/-- `rfsgetmode`: parse the mode argument, a string up to its terminator. -/
def rfsgetmode (mode : List UInt8) : Option UInt32 := getmodeLoop 0 (mode.takeWhile (· ≠ 0))

/-! ## Calls -/

/-- The variables of the remote file system. -/
structure Files where
  data : Rfdata
  rfltab : Nat → Rflcblk
  opened : Nat → Buffer

def Files.setSlot (s : Files) (minor : Nat) (rfptr : Rflcblk) : Files :=
  { s with rfltab := Function.update s.rfltab minor rfptr }

/-- The table after `rflinit` for every device, with the numbers of the devices. -/
def rflinit (data : Rfdata) (dvnum : Nat → Nat) : Files :=
  { data := data, rfltab := fun i => ⟨.RF_FREE, dvnum i, fun _ => 0, 0, 0⟩, opened := fun _ _ => 0 }

/-- The check of a response: `true` when the call fails. -/
def Outcome.failed (o : Outcome) : Bool :=
  decide (o.retval = SYSERR) || decide (o.retval = TIMEOUT) || decide (ntohs (o.reply.half 2) ≠ 0)

/-- `rfsopen`: allocate a remote file pseudo-device for a specific file. -/
def rfsopen (s : Files) (name : Buffer) (mode : List UInt8) (msg resp : Buffer) (net : Net) : Int × Files × Net :=
  match (List.range Nrfl).find? fun i => (s.rfltab i).rfstate = .RF_FREE with
  | none => (SYSERR, s, net)
  | some i =>
    let (rfname, len) := Buffer.copyUpTo name 0 RF_NAMLEN 0 (s.rfltab i).rfname
    let rfptr := { s.rfltab i with rfname := rfname }
    match len with
    | none => (SYSERR, s.setSlot i rfptr, net)
    | some 0 => (SYSERR, s.setSlot i rfptr, net)
    | some (len + 1) =>
      match rfsgetmode mode with
      | none => (SYSERR, s.setSlot i { rfptr with rfmode := 0xffffffff }, net)
      | some mbits =>
        let rfptr := { rfptr with rfmode := mbits }
        let o := rfscomm (openRequest name (len + 1) mbits msg) OPEN_LEN resp OPEN_LEN s.data net
        if o.failed then (SYSERR, { s.setSlot i rfptr with data := o.data }, o.net)
        else
          (rfptr.rfdev, { s.setSlot i { rfptr with rfpos := 0, rfstate := .RF_USED } with
            data := o.data
            opened := Function.update s.opened i fun j => o.msg (8 + j) }, o.net)

/-- A 32-bit value as `devcall`, which is signed. -/
def devcall (x : UInt32) : Int := if x.toNat < 2147483648 then x.toNat else (x.toNat : Int) - 4294967296

/-- `rflread`: the return value, the variables, the caller's buffer and the network. -/
def rflread (s : Files) (minor : Nat) (buff : Buffer) (count : Int) (msg resp : Buffer) (net : Net) :
    Int × Files × Buffer × Net :=
  let rfptr := s.rfltab minor
  if count ≤ 0 ∨ RF_DATALEN < count then (SYSERR, s, buff, net)
  else if rfptr.rfstate = .RF_FREE then (SYSERR, s, buff, net)
  else if rfptr.rfmode &&& RF_MODE_R = 0 then (SYSERR, s, buff, net)
  else
    match readRequest rfptr count msg with
    | .request msg =>
      let o := rfscomm msg POS_LEN resp DATA_LEN s.data net
      if o.failed then (SYSERR, { s with data := o.data }, buff, o.net)
      else
        let len := ntohl (o.reply.word 140)
        (devcall len, { s.setSlot minor { rfptr with rfpos := rfptr.rfpos + len } with data := o.data },
          buff.copy 0 (fun i => o.reply (144 + i)) len.toNat, o.net)
    | _ => (SYSERR, s, buff, net)

/-- `rflwrite`: the return value, the variables and the network; `none` when the copy of the name leaves the control block. -/
def rflwrite (s : Files) (minor : Nat) (buff : Buffer) (count : Int) (msg resp : Buffer) (net : Net) :
    Option (Int × Files × Net) :=
  let rfptr := s.rfltab minor
  if count ≤ 0 ∨ RF_DATALEN < count then some (SYSERR, s, net)
  else if rfptr.rfstate = .RF_FREE ∨ rfptr.rfmode &&& RF_MODE_W = 0 then some (SYSERR, s, net)
  else
    match writeRequest rfptr buff count msg with
    | .tooLong => some (SYSERR, s, net)
    | .runaway => none
    | .request msg =>
      let o := rfscomm msg DATA_LEN resp POS_LEN s.data net
      if o.failed then some (SYSERR, { s with data := o.data }, o.net)
      else
        let len := ntohl (o.reply.word 140)
        some (devcall len, { s.setSlot minor { rfptr with rfpos := rfptr.rfpos + len } with data := o.data }, o.net)

/-- `rflseek`. -/
def rflseek (s : Files) (minor : Nat) (pos : UInt32) : Int × Files :=
  if (s.rfltab minor).rfstate = .RF_FREE then (SYSERR, s)
  else (OK, s.setSlot minor { s.rfltab minor with rfpos := pos })

/-- `rflclose`. -/
def rflclose (s : Files) (minor : Nat) : Int × Files :=
  if (s.rfltab minor).rfstate = .RF_FREE then (SYSERR, s)
  else (OK, s.setSlot minor { s.rfltab minor with rfstate := .RF_FREE })

/-- The calls, each with what its local variables hold at first and the network that it meets. -/
inductive Call where
  | rfsopen (name : Buffer) (mode : List UInt8) (msg resp : Buffer) (net : Net)
  | rflread (minor : Nat) (buff : Buffer) (count : Int) (msg resp : Buffer) (net : Net)
  | rflwrite (minor : Nat) (buff : Buffer) (count : Int) (msg resp : Buffer) (net : Net)
  | rflseek (minor : Nat) (pos : UInt32)
  | rflclose (minor : Nat)
  | rfscontrol (msg : Buffer) (mlen : Nat) (resp : Buffer) (rlen : Int) (net : Net)

/-- The variables behind a call. -/
def step (s : Files) : Call → Option Files
  | .rfsopen name mode msg resp net => some (rfsopen s name mode msg resp net).2.1
  | .rflread minor buff count msg resp net => some (rflread s minor buff count msg resp net).2.1
  | .rflwrite minor buff count msg resp net => (rflwrite s minor buff count msg resp net).map fun o => o.2.1
  | .rflseek minor pos => some (rflseek s minor pos).2
  | .rflclose minor => some (rflclose s minor).2
  | .rfscontrol msg mlen resp rlen net => some { s with data := (rfscomm msg mlen resp rlen s.data net).data }

/-- The variables behind a sequence of calls. -/
def run (s : Files) : List Call → Option Files
  | [] => some s
  | c :: calls => do
    let s ← step s c
    run s calls

end Rfs

end Xinu
