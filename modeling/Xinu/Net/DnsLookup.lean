import Xinu.Net.Dhcp
import Xinu.Net.Dns
import Xinu.Net.Udp

/-!
# The look-up of a name

`dnslookup` of `dns.c`, with `udp_send` as it calls it. The length that `dns_bldq` returns is a `uint32` and `udp_send` takes an
`int32`, so `SYSERR` arrives there as a length of -1. What `getlocalip` returns and what the calls of `udp_recv` meet are given, each
with the UDP table as the other processes have left it then; a look-up without a further outcome is still waiting (`none`).
-/

namespace Xinu

namespace Dns

def DNSRETRY : Nat := 3
def DNSPORT : Nat := 53
def DNSLPORT : Nat := 51525

/-- The data area as the loop of `dns_bldq` leaves it, at its end or where it returns `SYSERR`. -/
def bldqLeft : List UInt8 → Question → Question
  | [], q => q
  | c :: dname, q =>
    if q.qlen ≥ DNSDATASIZ then q
    else if c ≠ DomainName.dot then
      let mem := Function.update q.mem q.data c
      bldqLeft dname
        { q with mem := Function.update mem q.llptr (mem q.llptr + 1), data := q.data + 1, qlen := q.qlen + 1 }
    else
      bldqLeft dname { mem := Function.update q.mem q.data 0, data := q.data + 1, llptr := q.data, qlen := q.qlen + 1 }

/-- `dns_bldq` as its caller sees it: a `uint32`, and the data area also when that is `SYSERR`. -/
def bldq (dname : List UInt8) (data : Nat → UInt8) : Nat × (Nat → UInt8) :=
  match dnsBldq dname data with
  | some r => r
  | none => (SYSERR32, (bldqLeft dname { mem := Function.update data 0 0, data := 1, llptr := 0, qlen := 1 }).mem)

/-- A datagram that `udp_send` hands to `ip_send`. -/
structure Datagram where
  net_ipdst : Nat
  net_udpsport : Nat
  net_udpdport : Nat
  net_udplen : Nat
  net_udpdata : List UInt8
deriving DecidableEq

/-- `udp_send`, when `getbuf` gives a buffer or not; `none` is `SYSERR`. -/
def udpSend (u : Udp) (getbuf : Bool) (slot : Int) (buff : Nat → UInt8) (len : Int) : Option Datagram :=
  let udptr := u.udptab slot
  if slot < 0 ∨ slot ≥ UDP_SLOTS then none
  else if udptr.udstate = .UDP_FREE then none
  else if udptr.udremip = 0 then none
  else if getbuf = false then none
  else some ⟨udptr.udremip, udptr.udlocport, udptr.udremport, ((UDP_HDR_LEN + len) % 65536).toNat, Netpacket.bytes buff len.toNat⟩

/-- What a turn of the retry loop meets: the UDP table and whether there is a buffer at the call of `udp_send`, what arrives, the table
when `udp_recv` returns, and what is on the stack of `dns_geta`. -/
structure Event where
  sending : Udp
  getbuf : Bool
  received : Dhcp.Received
  udp : Udp
  stack : Nat → UInt8

/-- `udp_recv` into a `struct dnspkt`. -/
def udpRecv (r : Dhcp.Received) (buff : Nat → UInt8) : Int × (Nat → UInt8) :=
  match r with
  | .datagram net_udplen net_udpdata =>
    let msglen : Int := min (dnspktSize : Int) (net_udplen - UDP_HDR_LEN)
    (msglen, Netpacket.copy buff 0 net_udpdata msglen.toNat)
  | .timeout => (TIMEOUT, buff)
  | .syserr => (SYSERR, buff)

/-- The variables of the retry loop, with the datagrams that were sent. -/
structure Retry where
  ipaddr : Nat
  rpkt : Nat → UInt8
  sent : List Datagram
  udp : Udp

/-- The retry loop of `dnslookup`, with `left` turns to go; the loops of `dns_geta` may take `turns` turns. -/
def retryLoop (netData : Dhcp.NetData) (turns : Nat) (dname : List UInt8) (slot : Int) (qpkt : Nat → UInt8) (qlen : Nat) :
    (left : Nat) → List Event → Retry → Option Retry
  | 0, _, r => some r
  | left + 1, recv, r =>
    if r.ipaddr ≠ SYSERR32 then some r
    else
      match recv with
      | [] => none
      | e :: recv => do
        let sent := r.sent ++ (udpSend e.sending e.getbuf slot qpkt (int32 qlen)).toList
        let (rlen, rpkt) := udpRecv e.received r.rpkt
        let r := { r with rpkt := rpkt, sent := sent, udp := e.udp }
        if rlen = SYSERR ∨ rlen = TIMEOUT then retryLoop netData turns dname slot qpkt qlen left recv r
        else
          let ipaddr ← dnsGeta (Netpacket.bytes rpkt dnspktSize) netData.ipmask netData.ipprefix turns dname e.stack
          retryLoop netData turns dname slot qpkt qlen left recv { r with ipaddr := ipaddr }

/-- A look-up: its value, the datagrams that it sent, the slots with which it called `udp_release`, and UDP. -/
structure Lookup where
  value : Nat
  sent : List Datagram
  released : List Int
  udp : Udp

/-- The header of a query. -/
def queryHeader (currpid : Nat) : Nat → UInt8 :=
  Netpacket.put16 (Netpacket.put8 (Netpacket.put16 (fun _ => 0) 0 currpid) 2 1) qucount (Netpacket.htons 1)

/-- The query packet: the header, and the data area behind it. -/
def query (currpid : Nat) (data : Nat → UInt8) : Nat → UInt8 := fun o =>
  if o < dnspktData then queryHeader currpid o else data (o - dnspktData)

/-- `dnslookup` behind the call of `udp_register`, which has returned a slot, with what the stack held in place of the response. -/
def dnslookupFrom (netData : Dhcp.NetData) (currpid turns : Nat) (dname : List UInt8) (slot : Int) (recv : List Event)
    (rpkt : Nat → UInt8) (u : Udp) : Option Lookup := do
  let (qlen, data) := bldq dname fun o => query currpid (fun _ => 0) (dnspktData + o)
  let r ← retryLoop netData turns dname slot (query currpid data) qlen DNSRETRY recv
    { ipaddr := SYSERR32, rpkt := rpkt, sent := [], udp := u }
  pure { value := Netpacket.htonl r.ipaddr, sent := r.sent, released := [slot], udp := (r.udp.udpRelease slot).1 }

/-- `dnslookup`, when `getlocalip` has returned `retval` and left the network data. -/
def dnslookup (retval : Int) (netData : Dhcp.NetData) (currpid turns : Nat) (dname : Option (List UInt8)) (recv : List Event)
    (rpkt : Nat → UInt8) (u : Udp) : Option Lookup :=
  match dname with
  | none => some ⟨SYSERR32, [], [], u⟩
  | some dname =>
    if retval = SYSERR ∨ netData.dnsserver = 0 then some ⟨SYSERR32, [], [], u⟩
    else
      match u.udpRegister netData.dnsserver DNSPORT DNSLPORT with
      | (u, .ret slot) =>
        if slot = SYSERR then some ⟨SYSERR32, [], [], u⟩ else dnslookupFrom netData currpid turns dname slot recv rpkt u
      | (_, _) => none

end Dns

end Xinu
