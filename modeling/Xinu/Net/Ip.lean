import Xinu.Lib.Disposal
import Xinu.Net.Arp
import Xinu.Net.Udp
import Xinu.Net.Icmp

/-!
# Packets on their way

The procedures that a packet goes through, in `net.c`, `arp.c`, `ip.c`, `udp.c` and `icmp.c`, as sequential programs on the
buffers, the tables and the pool of buffers. Where a procedure may call the scheduler, the other processes change the state in any
way; `others` says how, and may depend on `clock`, which is not a variable of the source. What a blocking call or a device
returns is `retval`, which the others set. The events record what is done with the buffers.
-/

namespace Xinu

namespace Ip

open Netpacket hiding IP_HDR_LEN UDP_HDR_LEN ICMP_HDR_LEN

/-- The address of a buffer. -/
abbrev Buf := Nat

/-- A queue slot that holds a packet. -/
inductive Place where
  | udp (slot : Int)
  | icmp (slot : Int)
  | ipout
deriving Repr, DecidableEq

/-- `struct network`. -/
structure Network where
  ipucast : Nat
  ipbcast : Nat
  ipmask : Nat
  ipprefix : Nat
  iprouter : Nat
  ipvalid : Bool
  ethucast : List UInt8
  ethbcast : List UInt8

/-- `struct iqentry`, with the count of its semaphore. -/
structure Iqentry where
  iqhead : Int
  iqtail : Int
  iqcount : Int
  iqbuf : Int → Option Buf

def IP_OQSIZ : Int := 8
def IP_VH : Nat := 0x45

/-- The variables of the source. -/
structure World where
  bufs : Buf → Netpacket
  /-- The buffers of `netbufpool` that are free. -/
  pool : List Buf
  netData : Network
  udptab : Int → Udpentry
  icmptab : Int → Icmpentry
  arpcache : Arp.Cache
  ipoqueue : Iqentry
  currpid : Int
  /-- The static variables `ident` of `udp_send` and `udp_sendto`, and `ipident`. -/
  udpIdent : Nat
  udptoIdent : Nat
  ipident : Nat
  /-- What arrives at the Ethernet next, and what a call returns next. -/
  arriving : Netpacket
  retval : Int
  clock : Nat

inductive Event where
  /-- The packet was read or written. -/
  | used (p : Buf)
  /-- `freebuf` was called: the variables before and behind. -/
  | freed (p : Buf) (w w' : World)
  /-- The packet was stored in a queue slot: the variables before and behind. -/
  | queued (p : Buf) (place : Place) (w w' : World)
  /-- `ip_local` was called. -/
  | locally (p : Buf) (pkt : Netpacket)
  /-- `write` was called on the Ethernet. -/
  | wrote (frame : List UInt8)
  /-- `send` was called. -/
  | sent (pid : Int)
  /-- The other processes ran: the variables before and behind. -/
  | switched (w w' : World)

/-- A procedure. -/
abbrev M := Prog World Event

/-- Read a packet. -/
def load {α : Type} (p : Buf) (f : Netpacket → α) : M α := do
  Prog.emit (.used p)
  let w ← Prog.get
  pure (f (w.bufs p))

/-- Write to a packet. -/
def store (p : Buf) (f : Netpacket → Netpacket) : M Unit := do
  Prog.emit (.used p)
  Prog.modify fun w => { w with bufs := Function.update w.bufs p (f (w.bufs p)) }

section

variable (others : World → World)

/-- A call of the scheduler. -/
def resched : M Unit := Prog.change others .switched

/-- `freebuf`. -/
def freebuf (p : Buf) : M Unit := do
  Prog.change (fun w => { w with pool := p :: w.pool }) (.freed p)
  resched others

/-- `getbuf`: it does not return while there is no free buffer. -/
def getbuf : M Buf := do
  resched others
  let w ← Prog.get
  match w.pool with
  | [] => Prog.stuck
  | p :: pool => do
    Prog.modify fun w => { w with pool := pool }
    pure p

/-- `send`. -/
def send (pid : Int) : M Unit := do
  Prog.emit (.sent pid)
  resched others

/-- `write` on the Ethernet. -/
def write (frame : List UInt8) : M Int := do
  Prog.emit (.wrote frame)
  resched others
  let w ← Prog.get
  pure w.retval

/-- `recvtime`. -/
def recvtime : M Int := do
  resched others
  let w ← Prog.get
  pure w.retval

/-! ## ARP -/

/-- The loop of `arp_resolve`: the last message. -/
def arpTries (apkt : List UInt8) : Nat → (msg : Int) → M Int
  | 0, msg => pure msg
  | i + 1, _ => do
    let _ ← write others apkt
    let msg ← recvtime others
    if msg = TIMEOUT then arpTries apkt i msg else pure msg

/-- `arp_resolve`, with `mac` the Ethernet destination of a packet. -/
def arpResolve (nxthop : Nat) (p : Buf) : M Int := do
  let w ← Prog.get
  if nxthop = IP_BCAST then do
    store p fun pkt => Arp.putHaddr pkt net_ethdst w.netData.ethbcast
    pure OK
  else if nxthop = w.netData.ipbcast then do
    store p fun pkt => Arp.putHaddr pkt net_ethdst w.netData.ethbcast
    pure OK
  else
    match w.arpcache.search nxthop with
    | some i =>
      if (w.arpcache i).arstate = .AR_RESOLVED then do
        store p fun pkt => Arp.putHaddr pkt net_ethdst (w.arpcache i).arhaddr
        pure OK
      else pure SYSERR
    | none =>
      match w.arpcache.arpAlloc with
      | none => pure SYSERR
      | some (slot, cache) => do
        Prog.modify fun w => { w with
          arpcache := Function.update cache slot { cache slot with arstate := .AR_PENDING, arpaddr := nxthop, arpid := w.currpid } }
        let apkt := Arp.arppacket w.netData.ethbcast w.netData.ethucast Arp.ARP_OP_REQ w.netData.ethucast w.netData.ipucast
          (List.replicate Arp.ARP_HALEN 0) nxthop
        let msg ← arpTries others (apkt.bytes Arp.arppacketSize) Arp.ARP_RETRY 0
        if msg = SYSERR then pure SYSERR
        else if msg = TIMEOUT then do
          Prog.modify fun w => { w with
            arpcache := Function.update w.arpcache slot { w.arpcache slot with arstate := .AR_FREE } }
          pure TIMEOUT
        else do
          let w ← Prog.get
          store p fun pkt => Arp.putHaddr pkt net_ethdst (w.arpcache slot).arhaddr
          pure OK

/-- The part of `arp_in` that answers a request. -/
def arpReply (p : Buf) : M Unit := do
  let w ← Prog.get
  let pkt ← load p id
  let sndha := Arp.haddr pkt Arp.arp_sndha
  let apkt := Arp.arppacket sndha w.netData.ethucast Arp.ARP_OP_RPLY w.netData.ethucast w.netData.ipucast sndha
    (pkt.w32 Arp.arp_sndpa)
  let _ ← write others (apkt.bytes Arp.arppacketSize)
  freebuf others p

/-- The part of `arp_in` for an address that is in the cache: update the entry, and inform the process that waits. -/
def arpUpdate (p : Buf) (slot : Nat) : M Unit := do
  let w ← Prog.get
  let sndha ← load p (Arp.haddr · Arp.arp_sndha)
  let e := w.arpcache slot
  if e.arstate = .AR_PENDING then do
    Prog.modify fun w => { w with
      arpcache := Function.update w.arpcache slot { e with arhaddr := sndha, arstate := .AR_RESOLVED } }
    send others e.arpid
  else Prog.modify fun w => { w with arpcache := Function.update w.arpcache slot { e with arhaddr := sndha } }

/-- The end of `arp_in`: a request for the address of this machine is answered. -/
def arpRequest (p : Buf) (found : Bool) : M Unit := do
  let op ← load p (·.w16 Arp.arp_op)
  if op = Arp.ARP_OP_RPLY then freebuf others p
  else do
    let tarpa ← load p (·.w32 Arp.arp_tarpa)
    let w ← Prog.get
    if w.netData.ipvalid = false ∨ tarpa ≠ w.netData.ipucast then freebuf others p
    else if found then arpReply others p
    else
      match w.arpcache.arpAlloc with
      | none => freebuf others p
      | some (slot, cache) => do
        let sndpa ← load p (·.w32 Arp.arp_sndpa)
        let sndha ← load p (Arp.haddr · Arp.arp_sndha)
        Prog.modify fun w => { w with
          arpcache := Function.update cache slot { cache slot with arpaddr := sndpa, arhaddr := sndha, arstate := .AR_RESOLVED } }
        arpReply others p

/-- `arp_in`. -/
def arpIn (p : Buf) : M Unit := do
  store p Arp.arpNtoh
  let htype ← load p (·.w16 Arp.arp_htype)
  let ptype ← load p (·.w16 Arp.arp_ptype)
  if htype ≠ Arp.ARP_HTYPE ∨ ptype ≠ Arp.ARP_PTYPE then freebuf others p
  else do
    let w ← Prog.get
    let sndpa ← load p (·.w32 Arp.arp_sndpa)
    match w.arpcache.search sndpa with
    | some slot => do
      arpUpdate others p slot
      arpRequest others p true
    | none => arpRequest others p false

/-! ## UDP and ICMP -/

/-- What UDP sees of a packet. -/
def udpPacket (p : Buf) (pkt : Netpacket) : UdpPacket where
  addr := p
  net_ipsrc := pkt.w32 net_ipsrc
  net_udpsport := pkt.w16 net_udpsport
  net_udpdport := pkt.w16 net_udpdport
  net_udplen := pkt.w16 net_udplen
  net_udpdata := (List.range 1472).map fun j => (pkt (net_udpdata + j)).toNat

/-- What ICMP sees of a packet. -/
def icmpPacket (p : Buf) (pkt : Netpacket) : IcmpPacket where
  addr := p
  net_ipsrc := pkt.w32 net_ipsrc
  net_iplen := pkt.w16 net_iplen
  net_ictype := pkt.w8 net_ictype
  net_icident := pkt.w16 net_icident
  net_icdata := (List.range 1472).map fun j => (pkt (net_icdata + j)).toNat

/-- `udp_in`. -/
def udpIn (p : Buf) : M Unit := do
  let pkt ← load p (udpPacket p)
  let w ← Prog.get
  match udpSlots.find? (fun i => decide ((w.udptab i).udstate ≠ .UDP_FREE) && (w.udptab i).accepts pkt &&
      decide ((w.udptab i).udcount < UDP_QSIZ)) with
  | none => freebuf others p
  | some i => do
    let e := w.udptab i
    let e' := { e with
      udcount := e.udcount + 1
      udqueue := Function.update e.udqueue e.udtail (some pkt)
      udtail := Ring.next UDP_QSIZ e.udtail }
    if e.udstate = .UDP_RECV then do
      Prog.change (fun w => { w with udptab := Function.update w.udptab i { e' with udstate := .UDP_USED } })
        (.queued p (.udp i))
      send others e.udpid
    else Prog.change (fun w => { w with udptab := Function.update w.udptab i e' }) (.queued p (.udp i))

/-- `ip_enqueue`. -/
def ipEnqueue (p : Buf) : M Int := do
  let w ← Prog.get
  let iptr := w.ipoqueue
  if iptr.iqcount ≥ IP_OQSIZ then do
    freebuf others p
    pure SYSERR
  else do
    Prog.change (fun w => { w with
      ipoqueue := { iptr with
        iqbuf := Function.update iptr.iqbuf iptr.iqtail (some p)
        iqtail := Ring.next IP_OQSIZ iptr.iqtail
        iqcount := iptr.iqcount + 1 } }) (.queued p .ipout)
    resched others
    pure OK

/-- The fields of a packet that `udp_send`, `udp_sendto` and `icmp_mkpkt` fill in alike. -/
def ipHeader (nd : Network) (iplen ipid proto remip : Nat) (p : Netpacket) : Netpacket :=
  let p := Arp.putHaddr p net_ethsrc nd.ethucast
  let p := p.put16 net_ethtype 0x0800
  let p := p.put8 net_ipvh 0x45
  let p := p.put8 net_iptos 0x00
  let p := p.put16 net_iplen iplen
  let p := p.put16 net_ipid ipid
  let p := p.put16 net_ipfrag 0x0000
  let p := p.put8 net_ipttl 0xff
  let p := p.put8 net_ipproto proto
  let p := p.put16 net_ipcksum 0x0000
  let p := p.put32 net_ipsrc nd.ipucast
  p.put32 net_ipdst remip

/-- The packet that `icmp_mkpkt` makes in a buffer. -/
def icmpPkt (nd : Network) (ipid remip type ident seq : Nat) (buf : Nat → UInt8) (len : Int) (p : Netpacket) : Netpacket :=
  let p := ipHeader nd ((IP_HDR_LEN + ICMP_HDR_LEN + len) % 65536).toNat ipid IP_ICMP remip p
  let p := p.put8 net_ictype type
  let p := p.put8 net_iccode 0
  let p := p.put16 net_iccksum 0x0000
  let p := p.put16 net_icident ident
  let p := p.put16 net_icseq seq
  p.copy net_icdata buf len.toNat

/-- The packet that `udp_send` and `udp_sendto` make in a buffer. -/
def udpPkt (nd : Network) (ipid remip locport remport : Nat) (buff : Nat → UInt8) (len : Int) (p : Netpacket) : Netpacket :=
  let pktlen : Int := net_udpdata + len
  let p := ipHeader nd ((pktlen - ETH_HDR_LEN) % 65536).toNat ipid IP_UDP remip p
  let p := p.put16 net_udpsport locport
  let p := p.put16 net_udpdport remport
  let p := p.put16 net_udplen ((UDP_HDR_LEN + len) % 65536).toNat
  let p := p.put16 net_udpcksum 0x0000
  p.copy net_udpdata buff len.toNat

/-- `icmp_mkpkt`; `buf` is where the data is read from. -/
def icmpMkpkt (remip type ident seq : Nat) (buf : M (Nat → UInt8)) (len : Int) : M Buf := do
  let p ← getbuf others
  let w ← Prog.get
  let data ← buf
  store p (icmpPkt w.netData w.ipident remip type ident seq data len)
  Prog.modify fun w => { w with ipident := (w.ipident + 1) % 2 ^ 32 }
  pure p

/-- `icmp_in`. -/
def icmpIn (p : Buf) : M Unit := do
  let pkt ← load p (icmpPacket p)
  if pkt.net_ictype ≠ ICMP_ECHOREPLY ∧ pkt.net_ictype ≠ ICMP_ECHOREQST then freebuf others p
  else if pkt.net_ictype = ICMP_ECHOREQST then do
    let icseq ← load p (·.w16 net_icseq)
    let replypkt ← icmpMkpkt others pkt.net_ipsrc ICMP_ECHOREPLY pkt.net_icident icseq
      (load p fun pkt j => pkt (net_icdata + j)) (pkt.net_iplen - IP_HDR_LEN - ICMP_HDR_LEN)
    let _ ← ipEnqueue others replypkt
    freebuf others p
  else
    let slot : Int := pkt.net_icident
    if slot < 0 ∨ slot ≥ ICMP_SLOTS then freebuf others p
    else do
      let w ← Prog.get
      let e := w.icmptab slot
      if e.icstate = .ICMP_FREE ∨ pkt.net_ipsrc ≠ e.icremip then freebuf others p
      else do
        let e' := { e with
          iccount := e.iccount + 1
          icqueue := Function.update e.icqueue e.ictail (some pkt)
          ictail := Ring.next ICMP_QSIZ e.ictail }
        if e.icstate = .ICMP_RECV then do
          Prog.change (fun w => { w with icmptab := Function.update w.icmptab slot { e' with icstate := .ICMP_USED } })
            (.queued p (.icmp slot))
          send others e.icpid
        else Prog.change (fun w => { w with icmptab := Function.update w.icmptab slot e' }) (.queued p (.icmp slot))

/-! ## IP -/

/-- `ip_local`. -/
def ipLocal (p : Buf) : M Unit := do
  let pkt ← load p id
  Prog.emit (.locally p pkt)
  let proto ← load p (·.w8 net_ipproto)
  if proto = IP_UDP then udpIn others p
  else if proto = IP_ICMP then icmpIn others p
  else freebuf others p

/-- The conversion of a packet from host to network order in `ip_out`. -/
def outgoing (p : Netpacket) : Netpacket :=
  let proto := p.w8 net_ipproto
  let p :=
    if proto = IP_UDP then (p.put16 net_udpcksum 0).udpHton
    else if proto = IP_ICMP then
      let len : Int := p.w16 net_iplen - IP_HDR_LEN
      let p := p.icmpHton
      let p := p.put16 net_iccksum 0
      p.put16 net_iccksum (htons (p.icmpCksum net_ictype len))
    else p
  let p := p.ipHton
  let p := p.put16 net_ipcksum 0
  let p := p.put16 net_ipcksum (htons p.ipcksum)
  p.ethHton

/-- `ip_out`. -/
def ipOut (p : Buf) : M Int := do
  let pktlen ← load p fun pkt => pkt.w16 net_iplen + ETH_HDR_LEN
  store p outgoing
  let frame ← load p (·.bytes pktlen)
  let retval ← write others frame
  freebuf others p
  if retval = SYSERR then pure SYSERR else pure OK

/-- The end of `ip_in`: whether the packet is for this machine. -/
def ipAccept (p : Buf) : M Unit := do
  let w ← Prog.get
  let dst ← load p (·.w32 net_ipdst)
  if dst = IP_BCAST then ipLocal others p
  else if w.netData.ipvalid = false then do
    let proto ← load p (·.w8 net_ipproto)
    if proto = IP_UDP then ipLocal others p else freebuf others p
  else if dst = w.netData.ipucast ∨ dst = w.netData.ipbcast ∨ dst = IP_BCAST then ipLocal others p
  else freebuf others p

/-- `ip_in`. -/
def ipIn (p : Buf) : M Unit := do
  let cksum ← load p Netpacket.ipcksum
  if cksum ≠ 0 then freebuf others p
  else do
    store p Netpacket.ipNtoh
    let vh ← load p (·.w8 net_ipvh)
    if vh ≠ IP_VH then freebuf others p
    else do
      let proto ← load p (·.w8 net_ipproto)
      if proto = IP_UDP then do
        store p Netpacket.udpNtoh
        ipAccept others p
      else if proto = IP_ICMP then do
        let icmplen ← load p fun pkt => (pkt.w16 net_iplen : Int) - IP_HDR_LEN
        let cksum ← load p (·.icmpCksum net_ictype icmplen)
        if cksum ≠ 0 then freebuf others p
        else do
          store p Netpacket.icmpNtoh
          ipAccept others p
      else ipAccept others p

/-- `ip_send`. -/
def ipSend (p : Buf) : M Int := do
  let dest ← load p (·.w32 net_ipdst)
  let w ← Prog.get
  if dest &&& 0xff000000 = 0x7f000000 then do
    ipLocal others p
    pure OK
  else if dest = w.netData.ipucast then do
    ipLocal others p
    pure OK
  else if dest = IP_BCAST ∨ dest = w.netData.ipbcast then do
    store p fun pkt => Arp.putHaddr pkt net_ethdst w.netData.ethbcast
    ipOut others p
  else
    let nxthop := if dest &&& w.netData.ipmask = w.netData.ipprefix then dest else w.netData.iprouter
    if nxthop = 0 then do
      freebuf others p
      pure SYSERR
    else do
      let retval ← arpResolve others nxthop p
      if retval ≠ OK then do
        freebuf others p
        pure SYSERR
      else ipOut others p

/-! ## The ends -/

/-- The demultiplexing of `netin`. -/
def demux (p : Buf) : M Unit := do
  store p Netpacket.ethNtoh
  let ethtype ← load p (·.w16 net_ethtype)
  if ethtype = ETH_ARP then arpIn others p
  else if ethtype = ETH_IP then ipIn others p
  else if ethtype = ETH_IPv6 then freebuf others p
  else freebuf others p

/-- One turn of `netin`. -/
def netin : M Unit := do
  let p ← getbuf others
  resched others
  let w ← Prog.get
  store p fun _ => w.arriving
  if w.retval = SYSERR then Prog.stuck else demux others p

/-- `udp_send`: the remote address, the ports and the local address are read before the buffer is allocated. -/
def udpSend (slot : Int) (buff : Nat → UInt8) (len : Int) : M Int := do
  if slot < 0 ∨ slot ≥ UDP_SLOTS then pure SYSERR
  else do
    let w ← Prog.get
    let e := w.udptab slot
    if e.udstate = .UDP_FREE then pure SYSERR
    else if e.udremip = 0 then pure SYSERR
    else do
      let p ← getbuf others
      let w' ← Prog.get
      store p (udpPkt { w'.netData with ipucast := w.netData.ipucast } w'.udpIdent e.udremip e.udlocport e.udremport buff len)
      Prog.modify fun w => { w with udpIdent := (w.udpIdent + 1) % 65536 }
      let _ ← ipSend others p
      pure OK

/-- `udp_sendto`. -/
def udpSendto (slot : Int) (remip remport : Nat) (buff : Nat → UInt8) (len : Int) : M Int := do
  if slot < 0 ∨ slot ≥ UDP_SLOTS then pure SYSERR
  else do
    let w ← Prog.get
    if (w.udptab slot).udstate = .UDP_FREE then pure SYSERR
    else do
      let p ← getbuf others
      let w ← Prog.get
      store p (udpPkt w.netData w.udptoIdent remip (w.udptab slot).udlocport remport buff len)
      Prog.modify fun w => { w with udptoIdent := (w.udptoIdent + 1) % 65536 }
      let _ ← ipSend others p
      pure OK

/-- `icmp_send`. -/
def icmpSend (remip type ident seq : Nat) (buf : Nat → UInt8) (len : Int) : M Int := do
  let p ← icmpMkpkt others remip type ident seq (pure buf) len
  ipSend others p

end

end Ip

end Xinu
