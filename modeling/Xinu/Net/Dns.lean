import Xinu.Lib.DomainName
import Xinu.Net.Packet

/-!
# The DNS resolver

`dns_bldq`, `dns_getrname` and `dns_geta` of `dns.c`. A question is built in a data area, with a pointer to the length byte of the
label that is being copied. A response is the bytes that were received: a read behind them is an error, and so is a write outside
of the name buffer. A loop or a recursion that goes on as long as the response says has a number of turns that it may take; a
run that does not come to its end returns with no number.
-/

namespace Xinu

namespace Dns

open DomainName

def DNSDATASIZ : Nat := 500
/-- `sizeof(struct dnspkt)`. -/
def dnspktSize : Nat := 512
/-- The offset of the data area in `struct dnspkt`. -/
def dnspktData : Nat := 12
def qucount : Nat := 4
def ancount : Nat := 6
def DNS_QT_A : Nat := 1
def DNS_QC_IN : Nat := 1
/-- The size of `rname` in `dns_geta`. -/
def rnameSize : Nat := 1024
/-- `SYSERR` as a `uint32`. -/
def SYSERR32 : Nat := 0xffffffff

/-! ## Questions -/

/-- The variables of `dns_bldq`: the data area, the places of the next byte and of the length byte, and the query length. -/
structure Question where
  mem : Nat → UInt8
  data : Nat
  llptr : Nat
  qlen : Nat

/-- The loop of `dns_bldq` over the characters of the name. -/
def bldqLoop : List UInt8 → Question → Option Question
  | [], q => some q
  | c :: dname, q =>
    if q.qlen ≥ DNSDATASIZ then none
    else if c ≠ dot then
      let mem := Function.update q.mem q.data c
      bldqLoop dname
        { q with mem := Function.update mem q.llptr (mem q.llptr + 1), data := q.data + 1, qlen := q.qlen + 1 }
    else
      bldqLoop dname { mem := Function.update q.mem q.data 0, data := q.data + 1, llptr := q.data, qlen := q.qlen + 1 }

/-- `dns_bldq`: the length of the packet, and the data area. -/
def dnsBldq (dname : List UInt8) (mem : Nat → UInt8) : Option (Nat × (Nat → UInt8)) := do
  let q ← bldqLoop dname { mem := Function.update mem 0 0, data := 1, llptr := 0, qlen := 1 }
  let mem := Function.update q.mem q.data 0
  let mem := Netpacket.put16 mem (q.data + 1) (Netpacket.htons DNS_QT_A)
  let mem := Netpacket.put16 mem (q.data + 3) (Netpacket.htons DNS_QC_IN)
  pure (dnspktSize - DNSDATASIZ + (q.qlen + 1 + 2 + 2), mem)

/-! ## Names -/

variable (rpkt : List UInt8)

/-- `memcpy` of two bytes of the response, and `ntohs`. -/
def word16 (o : Nat) : Option Nat := do
  let high ← rpkt[o]?
  let low ← rpkt[o + 1]?
  pure (256 * high.toNat + low.toNat)

/-- `memcpy` of four bytes of the response: the address in network order. -/
def word32 (o : Nat) : Option Nat := do
  let b0 ← rpkt[o]?
  let b1 ← rpkt[o + 1]?
  let b2 ← rpkt[o + 2]?
  let b3 ← rpkt[o + 3]?
  pure (b0.toNat + 256 * b1.toNat + 65536 * b2.toNat + 16777216 * b3.toNat)

/-- Write a byte of the name buffer. -/
def put (dst : Nat → UInt8) (o : Nat) (b : UInt8) : Option (Nat → UInt8) :=
  if o < rnameSize then some (Function.update dst o b) else none

/-- The loop of `dns_getrname` that copies a label. -/
def copyLabel : (llen : Nat) → (son d : Nat) → (dst : Nat → UInt8) → Option (Nat → UInt8)
  | 0, _, _, dst => some dst
  | llen + 1, son, d, dst => do
    let b ← rpkt[son]?
    let dst ← put dst d b
    copyLabel llen (son + 1) (d + 1) dst

/-- The end of `dns_getrname`: step back over the last dot, and end the string; in a buffer with nothing in it the place would be the
one before the buffer. -/
def terminate (dst : Nat → UInt8) : (d : Nat) → Option (Nat → UInt8)
  | 0 => none
  | d + 1 => put dst d 0

/-- `dns_getrname` from the length byte of a label on, with the place of the next character: the place behind the name. -/
def getrnameLoop : Nat → (son d : Nat) → (dst : Nat → UInt8) → Option (Nat × (Nat → UInt8))
  | 0, _, _, _ => none
  | turns + 1, son, d, dst => do
    let llen ← rpkt[son]?
    if llen = 0 then do
      let dst ← terminate dst d
      pure (son + 1, dst)
    else if llen ≤ 63 then do
      let dst ← copyLabel rpkt llen.toNat (son + 1) d dst
      let dst ← put dst (d + llen.toNat) dot
      getrnameLoop turns (son + 1 + llen.toNat) (d + llen.toNat + 1) dst
    else do
      let tmpoff ← word16 rpkt son
      let r ← getrnameLoop turns (tmpoff % 0x4000) d dst
      pure (son + 2, r.2)

/-- `dns_getrname`: the number of bytes that the name occupies, and the name buffer. -/
def dnsGetrname (turns son : Nat) (dst : Nat → UInt8) : Option (Nat × (Nat → UInt8)) := do
  let r ← getrnameLoop rpkt turns son 0 dst
  pure (r.1 - son, r.2)

/-! ## Answers -/

/-- The loop of `dns_geta` over the labels of a question. -/
def skipName : Nat → (dptr : Nat) → Option Nat
  | 0, _ => none
  | turns + 1, dptr => do
    let llen ← rpkt[dptr]?
    if llen = 0 then pure (dptr + 1)
    else if llen > 63 then pure (dptr + 2)
    else skipName turns (dptr + (llen.toNat + 1))

/-- The loop of `dns_geta` over the questions. -/
def skipQuestions (turns : Nat) : (qcount : Nat) → (dptr : Nat) → Option Nat
  | 0, dptr => some dptr
  | qcount + 1, dptr => do
    let dptr ← skipName rpkt turns dptr
    skipQuestions turns qcount (dptr + (2 + 2))

/-- `strncmp` of a string and a buffer, from a place of the buffer on. -/
def strncmp : (s1 : List UInt8) → (s2 : Nat → UInt8) → (o n : Nat) → Int
  | _, _, _, 0 => 0
  | [], s2, o, _ + 1 => if s2 o = 0 then 0 else 0 - (s2 o).toNat
  | c :: s1, s2, o, n + 1 => if c = s2 o then (if c = 0 then 0 else strncmp s1 s2 (o + 1) n) else c.toNat - (s2 o).toNat

/-- Whether an address in network order is on the local network. -/
def onLocalNet (ipmask ipprefix ip : Nat) : Prop := ipmask &&& Netpacket.htonl ip = ipprefix

instance (ipmask ipprefix ip : Nat) : Decidable (onLocalNet ipmask ipprefix ip) := by
  unfold onLocalNet
  infer_instance

/-- The loop of `dns_geta` over the answers, with the address so far and what is in the name buffer. -/
def answersLoop (ipmask ipprefix turns : Nat) (dname : List UInt8) :
    (acount : Nat) → (dptr ipaddr : Nat) → (rname : Nat → UInt8) → Option Nat
  | 0, _, ipaddr, _ => some ipaddr
  | acount + 1, dptr, ipaddr, rname => do
    let (namlen, rname) ← dnsGetrname rpkt turns dptr rname
    let dptr := dptr + namlen
    let tmptype ← word16 rpkt dptr
    let ipaddr ←
      if strncmp dname rname 0 dname.length = 0 ∧ tmptype = DNS_QT_A then do
        let tmpip ← word32 rpkt (dptr + 10)
        pure (if ipaddr = 0 ∨ onLocalNet ipmask ipprefix tmpip then tmpip else ipaddr)
      else pure ipaddr
    let tmplen ← word16 rpkt (dptr + 8)
    answersLoop ipmask ipprefix turns dname acount (dptr + 8 + (tmplen + 2)) ipaddr rname

/-- `dns_geta`, with what is on the stack in place of the name buffer. -/
def dnsGeta (ipmask ipprefix turns : Nat) (dname : List UInt8) (rname : Nat → UInt8) : Option Nat := do
  let qcount ← word16 rpkt qucount
  let dptr ← skipQuestions rpkt turns qcount dnspktData
  let acount ← word16 rpkt ancount
  let ipaddr ← answersLoop rpkt ipmask ipprefix turns dname acount dptr 0 rname
  pure (if ipaddr ≠ 0 then ipaddr else SYSERR32)

end Dns

end Xinu
