import Mathlib.Algebra.GroupWithZero.Nat
import Mathlib.Algebra.Ring.Int.Defs
import Mathlib.Logic.Function.Basic
import Mathlib.Tactic.Common

/-!
# Trivial file transfer

`tftp.c`. The network is what the calls of `udp_sendto` and `udp_recvaddr` return, in order; a transfer that runs out of it is
still waiting (`none`). The buffers of the caller are memory by buffer and offset, so a byte stored behind the end of a buffer
shows as a change at that offset. The verbose output is left out.
-/

namespace Xinu

namespace Tftp

def TFTP_DATA : Nat := 3
def TFTP_ERROR : Nat := 5
def TFTP_MAXNAM : Nat := 64
def TFTP_MAXRETRIES : Nat := 3

/-- `sizeof(struct tftp_msg)`. -/
def MSGSIZE : Nat := 516

def SYSERR : Int := -1
def TIMEOUT : Int := -3

/-- What a call of `udp_recvaddr` returns. -/
inductive Received where
  | datagram (b : List UInt8)
  | timeout
  | syserr
deriving DecidableEq

/-- The network to come, and what was done to it: the outcome of the sends and of the receives, the messages sent and the slots
released. -/
structure Net where
  send : List Bool
  recv : List Received
  sent : List (List UInt8)
  released : List Int
deriving DecidableEq

/-- A big-endian 16-bit field of a message. -/
def ntohs (b : List UInt8) (o : Nat) : Nat := 256 * (b.getD o 0).toNat + (b.getD (o + 1) 0).toNat

/-- A 16-bit value in network order. -/
def htons (v : Nat) : List UInt8 := [UInt8.ofNat (v / 256), UInt8.ofNat v]

/-- `udp_sendto`: whether it returned `OK`. -/
def udpSendto (net : Net) (msg : List UInt8) : Option (Bool × Net) :=
  match net.send with
  | [] => none
  | ok :: send => some (ok, { net with send := send, sent := net.sent ++ [msg] })

/-- `udp_release`. -/
def udpRelease (net : Net) (sock : Int) : Net := { net with released := net.released ++ [sock] }

/-- The loop of `tftp_send1`: the return value and the message in `inmsg`. At most `sizeof(struct tftp_msg)` bytes of a datagram
are received. -/
def recvLoop (expected : Nat) : List Received → Option (Int × List UInt8 × List Received)
  | [] => none
  | .syserr :: recv => some (SYSERR, [], recv)
  | .timeout :: recv => some (TIMEOUT, [], recv)
  | .datagram b :: recv =>
    let inmsg := b.take MSGSIZE
    if inmsg.length < 4 then recvLoop expected recv
    else if ntohs inmsg 0 = TFTP_ERROR then some (SYSERR, inmsg, recv)
    else if ntohs inmsg 0 = TFTP_DATA ∧ ntohs inmsg 2 = expected then some (inmsg.length, inmsg, recv)
    else recvLoop expected recv

/-- `tftp_send1`. -/
def tftpSend1 (net : Net) (msg : List UInt8) (expected : Nat) : Option (Int × List UInt8 × Net) := do
  let (ok, net) ← udpSendto net msg
  if ok then
    let (n, inmsg, recv) ← recvLoop expected net.recv
    some (n, inmsg, { net with recv := recv })
  else some (SYSERR, [], net)

/-- The outcome of the retransmission loop. -/
inductive Answer where
  | got (inmsg : List UInt8)
  | failed
  | exceeded
deriving DecidableEq

/-- The retransmission loop: the request is sent at most `TFTP_MAXRETRIES` times. -/
def retryLoop (msg : List UInt8) (expected : Nat) : Nat → Net → Option (Answer × Net)
  | 0, net => some (.exceeded, net)
  | i + 1, net => do
    let (n, inmsg, net) ← tftpSend1 net msg expected
    if n > 0 then some (.got inmsg, net)
    else if n = SYSERR then some (.failed, net)
    else retryLoop msg expected i net

/-- The file buffers: their memory, by buffer and offset, the current buffer, the amount used in it, and the bytes stored. -/
structure Cursor where
  mem : Nat → Nat → UInt8
  curr_buf_ind : Nat
  curr_used : Nat
  filesiz : Nat

/-- Store a byte at the current place. -/
def Cursor.store (c : Cursor) (b : UInt8) : Cursor :=
  { c with
    mem := Function.update c.mem c.curr_buf_ind (Function.update (c.mem c.curr_buf_ind) c.curr_used b)
    curr_used := c.curr_used + 1
    filesiz := c.filesiz + 1 }

/-- The copy loop over the data of a block; `true` when the last buffer is full and there are bytes left. -/
def copyLoop (sizes : List Nat) : List UInt8 → Cursor → Bool × Cursor
  | [], c => (false, c)
  | b :: data, c =>
    if c.curr_used ≥ sizes.getD c.curr_buf_ind 0 then
      if c.curr_buf_ind + 1 ≥ sizes.length then (true, { c with curr_buf_ind := c.curr_buf_ind + 1 })
      else copyLoop sizes data ({ c with curr_buf_ind := c.curr_buf_ind + 1, curr_used := 0 }.store b)
    else copyLoop sizes data (c.store b)

/-- The loop over the blocks: the return value, the buffers and the network. Every turn sends a message, so the number of sends
that the network has an outcome for bounds the turns. `expected` is a `uint16`. -/
def getLoop (sock : Int) (sizes : List Nat) :
    Nat → (outmsg : List UInt8) → (expected : Nat) → Cursor → Net → Option (Int × Cursor × Net)
  | 0, _, _, _, _ => none
  | turns + 1, outmsg, expected, c, net => do
    let (answer, net) ← retryLoop outmsg expected TFTP_MAXRETRIES net
    match answer with
    | .failed | .exceeded => some (SYSERR, c, udpRelease net sock)
    | .got inmsg =>
      let data := inmsg.drop 4
      let (full, c) := copyLoop sizes data c
      if full then some (c.filesiz, c, udpRelease net sock)
      else
        let ack := htons 4 ++ htons expected
        if data.length < 512 then do
          let (ok, net) ← udpSendto net ack
          some (if ok then c.filesiz else SYSERR, c, udpRelease net sock)
        else getLoop sock sizes turns ack ((expected + 1) % 65536) c net

/-- A buffer of the caller: whether its pointer is `NULL`, and its size. -/
structure RcvBuf where
  null : Bool
  size : Nat
deriving DecidableEq

/-- The read request. -/
def request (filename : List UInt8) : List UInt8 := htons 1 ++ filename ++ [0] ++ "octet".toUTF8.toList ++ [0]

/-- `tftpget_mb`, with what `udp_register` returns: the return value, the memory of the buffers and the network. -/
def tftpgetMb (serverip : Nat) (filename : Option (List UInt8)) (bufs : List RcvBuf) (mem : Nat → Nat → UInt8) (sock : Int)
    (net : Net) : Option (Int × (Nat → Nat → UInt8) × Net) :=
  match filename with
  | none => some (SYSERR, mem, net)
  | some filename =>
    if serverip = 0 ∨ bufs = [] ∨ bufs.any (fun b => b.null || b.size = 0) then some (SYSERR, mem, net)
    else if filename.length = 0 ∨ filename.length > TFTP_MAXNAM then some (SYSERR, mem, net)
    else if sock = SYSERR then some (SYSERR, mem, net)
    else do
      let (n, c, net) ← getLoop sock (bufs.map RcvBuf.size) (net.send.length + 1) (request filename) 1 ⟨mem, 0, 0, 0⟩ net
      some (n, c.mem, net)

end Tftp

end Xinu
