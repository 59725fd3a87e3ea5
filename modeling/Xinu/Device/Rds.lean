import Xinu.Device.Remote

/-!
# The remote disk

`rdscomm.c`, `rdsopen.c` and `rdsprocess.c`. The fields of a message are at fixed offsets: `rd_type` 0, `rd_status` 2, `rd_seq` 4,
`rd_id` 8, `rd_blk` 72 and `rd_data` 76. The machine keeps the low byte of an integer first, as the byte swaps of `htonl` assume.

The request queue, the cache and the free list of `rdsprocess` are left out: what it sends depends on the node that it finds at
the head of the queue only.
-/

namespace Xinu

namespace Rds

open Remote

def RD_IDLEN : Nat := 64
def RD_BLKSIZ : Nat := 512
def RD_RETRIES : Nat := 3

def RD_MSG_RREQ : UInt16 := 0x0010
def RD_MSG_WREQ : UInt16 := 0x0020
def RD_MSG_OREQ : UInt16 := 0x0030

/-- The sizes of the messages: of the header, which open requests and responses consist of, of a header with a block number, and
of a message with a block. -/
def HDR_LEN : Nat := 72
def BLK_LEN : Nat := 76
def DATA_LEN : Nat := 588

/-- The states of the device. -/
inductive RdState where
  | RD_FREE
  | RD_OPEN
  | RD_PEND
deriving Repr, DecidableEq

/-- `struct rdscblk`, without the lists of buffers; `rd_id` is memory from the identifier on. -/
structure Rdscblk where
  rd_state : RdState
  rd_id : Buffer
  rd_seq : UInt32
  rd_registered : Bool
  rd_udpslot : Int

/-! ## Communication -/

/-- How `rdscomm` ends. -/
inductive Exit where
  | noSlot
  | noLocalIp
  | cannotSend
  | cannotRead
  | badStatus
  | ok
  | exhausted
deriving Repr, DecidableEq

/-- What `rdscomm` returns. -/
def Exit.retval : Exit → Int
  | .ok => OK
  | .exhausted => TIMEOUT
  | _ => SYSERR

/-- The tests of a reply in the loop of `rdscomm`. A reply with a lower number is not followed by another transmission, and goes
on to the test of the type. -/
def judge (msg : Buffer) (seq : UInt32) (reply : Buffer) : Verdict :=
  let xmit := !decide (ntohl (reply.word 4) < seq)
  if xmit ∧ ntohl (reply.word 4) ≠ seq then .again true
  else if !isResponse reply msg then .again xmit
  else .accept

/-- How `rdscomm` ends behind its loop: the status of an accepted reply is checked. -/
def Exit.ofEnd (reply : Buffer) : End → Exit
  | .cannotSend => .cannotSend
  | .cannotRead => .cannotRead
  | .accepted _ => if ntohs (reply.half 2) ≠ 0 then .badStatus else .ok
  | .exhausted => .exhausted

/-- What a call of `rdscomm` leaves. -/
structure Outcome where
  exit : Exit
  msg : Buffer
  reply : Buffer
  rdptr : Rdscblk
  net : Net

/-- `rdscomm`: send a request and receive a reply. -/
def rdscomm (msg : Buffer) (mlen : Nat) (reply : Buffer) (rlen : Int) (rdptr : Rdscblk) (net : Net) : Outcome :=
  if !rdptr.rd_registered ∧ net.slot = SYSERR then ⟨.noSlot, msg, reply, rdptr, net⟩
  else
    let rdptr := if rdptr.rd_registered then rdptr else { rdptr with rd_udpslot := net.slot, rd_registered := true }
    if !net.ipvalid ∧ !net.getlocalip then ⟨.noLocalIp, msg, reply, rdptr, net⟩
    else
      let seq := rdptr.rd_seq
      let rdptr := { rdptr with rd_seq := rdptr.rd_seq + 1 }
      let msg := msg.setWord 4 (htonl seq)
      let (e, reply, net) := converse (msg.bytes 0 mlen) rlen (judge msg seq) RD_RETRIES true reply net
      ⟨.ofEnd reply e, msg, reply, rdptr, net⟩

/-! ## Requests -/

/-- The start of a request, with an identifier of zero bytes. -/
def header (type : UInt16) (msg : Buffer) : Buffer := Remote.header type RD_IDLEN msg

/-- The end of `rdsopen`: check the response. -/
def checkResponse (dvnum : Nat) (o : Outcome) : Int × Rdscblk × Buffer × Net :=
  if o.exit.retval = SYSERR then (SYSERR, { o.rdptr with rd_state := .RD_FREE }, o.msg, o.net)
  else if o.exit.retval = TIMEOUT then (SYSERR, { o.rdptr with rd_state := .RD_FREE }, o.msg, o.net)
  else if ntohs (o.reply.half 2) ≠ 0 then (SYSERR, { o.rdptr with rd_state := .RD_FREE }, o.msg, o.net)
  else (dvnum, { o.rdptr with rd_state := .RD_OPEN }, o.msg, o.net)

/-- `rdsopen`: open a remote disk device. The result is the return value, the control block, the message and the network. The copy
into the message is bounded by the length that the copy into the control block has found. -/
def rdsopen (rdptr : Rdscblk) (dvnum : Nat) (diskid : Buffer) (msg resp : Buffer) (net : Net) :
    Int × Rdscblk × Buffer × Net :=
  if rdptr.rd_state ≠ .RD_FREE then (SYSERR, rdptr, msg, net)
  else
    let (rd_id, len) := Buffer.copyUpTo diskid 0 RD_IDLEN 0 rdptr.rd_id
    let rdptr := { rdptr with rd_state := .RD_PEND, rd_id := rd_id }
    match len with
    | none => (SYSERR, rdptr, msg, net)
    | some 0 => (SYSERR, rdptr, msg, net)
    | some (len + 1) =>
      let msg := (Buffer.copyUpTo diskid 8 (len + 2) 0 (header RD_MSG_OREQ msg)).1
      checkResponse dvnum (rdscomm msg HDR_LEN resp HDR_LEN rdptr net)

/-- The operations of the request queue. -/
inductive RdOp where
  | RD_OP_READ
  | RD_OP_WRITE
  | RD_OP_SYNC
deriving Repr, DecidableEq

/-- The fields of a `struct rdbuff` that `rdsprocess` reads and writes besides the links. -/
structure Rdbuff where
  rd_op : RdOp
  rd_blknum : UInt32
  rd_block : Buffer

/-- The read request of `rdsprocess`; `none` when the copy of the identifier leaves its field. -/
def readRequest (rdptr : Rdscblk) (msg : Buffer) : Option Buffer :=
  Buffer.copyString rdptr.rd_id 8 RD_IDLEN 0 (header RD_MSG_RREQ msg)

/-- The write request of `rdsprocess`. -/
def writeRequest (rdptr : Rdscblk) (bptr : Rdbuff) (msg : Buffer) : Option Buffer := do
  let msg ← Buffer.copyString rdptr.rd_id 8 RD_IDLEN 0 (header RD_MSG_WREQ (msg.setWord 72 bptr.rd_blknum))
  some (msg.copy 76 bptr.rd_block RD_BLKSIZ)

/-- What `rdsprocess` finds when it takes a request: the node, the control block and the network. -/
structure Turn where
  bptr : Rdbuff
  rdptr : Rdscblk
  net : Net

/-- The message that `rdsprocess` passes to `rdscomm` for a request. -/
def Turn.request (t : Turn) (msg : Buffer) : Option Buffer :=
  match t.bptr.rd_op with
  | .RD_OP_READ => readRequest t.rdptr msg
  | .RD_OP_WRITE => writeRequest t.rdptr t.bptr msg
  | .RD_OP_SYNC => none

/-- The variables that live through the loop of `rdsprocess`. -/
structure Process where
  msg : Buffer
  resp : Buffer

/-- One turn of `rdsprocess`: the variables, and the node, control block and network behind it; `none` when it panics or leaves
the identifier. -/
def rdsprocess (p : Process) (t : Turn) : Option (Process × Turn) :=
  match t.bptr.rd_op with
  | .RD_OP_READ => do
    let msg ← readRequest t.rdptr p.msg
    let o := rdscomm msg BLK_LEN p.resp DATA_LEN t.rdptr t.net
    if o.exit.retval = SYSERR ∨ o.exit.retval = TIMEOUT ∨ ntohs (o.reply.half 2) ≠ 0 then none
    else
      let rd_block := t.bptr.rd_block.copy 0 (fun i => o.reply (76 + i)) RD_BLKSIZ
      some (⟨o.msg, o.reply⟩, ⟨{ t.bptr with rd_block := rd_block }, o.rdptr, o.net⟩)
  | .RD_OP_WRITE => do
    let msg ← writeRequest t.rdptr t.bptr p.msg
    let o := rdscomm msg DATA_LEN p.resp BLK_LEN t.rdptr t.net
    if o.exit.retval = SYSERR ∨ o.exit.retval = TIMEOUT ∨ ntohs (o.reply.half 2) ≠ 0 then none
    else some (⟨o.msg, o.reply⟩, ⟨t.bptr, o.rdptr, o.net⟩)
  | .RD_OP_SYNC => some (p, t)

/-- The variables of `rdsprocess` behind a sequence of requests. -/
def processed (p : Process) : List Turn → Option Process
  | [] => some p
  | t :: turns => do
    let (p, _) ← rdsprocess p t
    processed p turns

end Rds

end Xinu
