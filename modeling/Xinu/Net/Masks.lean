import Xinu.Lib.Masked
import Xinu.Net.Ip

/-!
# The output path with its interrupt mask

The procedures that a packet goes through on its way out, once more, now with their calls of `disable` and `restore`. What lies
between is the program on the state alone, so forgetting the mask gives that program back. The system calls that are used here
restore the mask at each of their exits; a context switch comes back with the mask of the process.
-/

namespace Xinu

namespace Ip

open Netpacket hiding IP_HDR_LEN UDP_HDR_LEN ICMP_HDR_LEN
open Masked

/-- A procedure with the interrupt mask. -/
abbrev MaskedM (μ : Type) := Prog (Cpu World μ) Event

namespace WithMask

variable {μ : Type} (off : μ) (netbufpool : Bool) (others : World → World)

/-! ## System calls -/

/-- `getbuf`, which returns `SYSERR` when `netbufpool` is not the ID of a pool. -/
def getbuf : MaskedM μ (Option Buf) := do
  let mask ← disable off
  if netbufpool = false then do
    restore mask
    pure none
  else do
    let p ← lift (Ip.getbuf others)
    restore mask
    pure (some p)

/-- `freebuf`. -/
def freebuf (p : Buf) : MaskedM μ Unit := critical off (lift (Ip.freebuf others p))

/-- `send`. -/
def send (pid : Int) : MaskedM μ Unit := critical off (lift (Ip.send others pid))

/-- `write` on the Ethernet. -/
def write (frame : List UInt8) : MaskedM μ Int := critical off (lift (Ip.write others frame))

/-- `recvtime`. -/
def recvtime : MaskedM μ Int := critical off (lift (Ip.recvtime others))

/-- `recvclr`. -/
def recvclr : MaskedM μ Unit := critical off (pure ())

/-! ## ARP -/

/-- The loop of `arp_resolve`: the last message. -/
def arpTries (apkt : List UInt8) : Nat → (msg : Int) → MaskedM μ Int
  | 0, msg => pure msg
  | i + 1, _ => do
    let _ ← write off others apkt
    let msg ← recvtime off others
    if msg = TIMEOUT then arpTries apkt i msg else pure msg

/-- `arp_resolve`. -/
def arpResolve (nxthop : Nat) (p : Buf) : MaskedM μ Int := do
  let w ← lift Prog.get
  if nxthop = IP_BCAST then do
    lift (store p fun pkt => Arp.putHaddr pkt net_ethdst w.netData.ethbcast)
    pure OK
  else if nxthop = w.netData.ipbcast then do
    lift (store p fun pkt => Arp.putHaddr pkt net_ethdst w.netData.ethbcast)
    pure OK
  else do
    let mask ← disable off
    match w.arpcache.search nxthop with
    | some i =>
      if (w.arpcache i).arstate = .AR_RESOLVED then do
        lift (store p fun pkt => Arp.putHaddr pkt net_ethdst (w.arpcache i).arhaddr)
        restore mask
        pure OK
      else do
        restore mask
        pure SYSERR
    | none =>
      match w.arpcache.arpAlloc with
      | none => do
        restore mask
        pure SYSERR
      | some (slot, cache) => do
        lift (Prog.modify fun w => { w with
          arpcache := Function.update cache slot { cache slot with arstate := .AR_PENDING, arpaddr := nxthop, arpid := w.currpid } })
        let apkt := Arp.arppacket w.netData.ethbcast w.netData.ethucast Arp.ARP_OP_REQ w.netData.ethucast w.netData.ipucast
          (List.replicate Arp.ARP_HALEN 0) nxthop
        recvclr off
        let msg ← arpTries off others (apkt.bytes Arp.arppacketSize) Arp.ARP_RETRY 0
        if msg = SYSERR then do
          restore mask
          pure SYSERR
        else if msg = TIMEOUT then do
          lift (Prog.modify fun w => { w with
            arpcache := Function.update w.arpcache slot { w.arpcache slot with arstate := .AR_FREE } })
          restore mask
          pure TIMEOUT
        else do
          let w ← lift Prog.get
          lift (store p fun pkt => Arp.putHaddr pkt net_ethdst (w.arpcache slot).arhaddr)
          restore mask
          pure OK

/-! ## UDP and ICMP -/

/-- `udp_in`. -/
def udpIn (p : Buf) : MaskedM μ Unit := do
  let mask ← disable off
  let pkt ← lift (load p (udpPacket p))
  let w ← lift Prog.get
  match udpSlots.find? (fun i => decide ((w.udptab i).udstate ≠ .UDP_FREE) && (w.udptab i).accepts pkt &&
      decide ((w.udptab i).udcount < UDP_QSIZ)) with
  | none => do
    freebuf off others p
    restore mask
  | some i => do
    let e := w.udptab i
    let e' := { e with
      udcount := e.udcount + 1
      udqueue := Function.update e.udqueue e.udtail (some pkt)
      udtail := Ring.next UDP_QSIZ e.udtail }
    if e.udstate = .UDP_RECV then do
      lift (Prog.change (fun w => { w with udptab := Function.update w.udptab i { e' with udstate := .UDP_USED } })
        (.queued p (.udp i)))
      send off others e.udpid
      restore mask
    else do
      lift (Prog.change (fun w => { w with udptab := Function.update w.udptab i e' }) (.queued p (.udp i)))
      restore mask

/-- `ip_enqueue`. -/
def ipEnqueue (p : Buf) : MaskedM μ Int := do
  let mask ← disable off
  let w ← lift Prog.get
  let iptr := w.ipoqueue
  if iptr.iqcount ≥ IP_OQSIZ then do
    freebuf off others p
    restore mask
    pure SYSERR
  else do
    lift (Prog.change (fun w => { w with
      ipoqueue := { iptr with
        iqbuf := Function.update iptr.iqbuf iptr.iqtail (some p)
        iqtail := Ring.next IP_OQSIZ iptr.iqtail
        iqcount := iptr.iqcount + 1 } }) (.queued p .ipout))
    critical off (lift (resched others))
    restore mask
    pure OK

/-- `icmp_mkpkt`: it panics when there is no buffer, and never returns `SYSERR`. -/
def icmpMkpkt (remip type ident seq : Nat) (buf : M (Nat → UInt8)) (len : Int) : MaskedM μ (Option Buf) := do
  match ← getbuf off netbufpool others with
  | none => Prog.stuck
  | some p => do
    let w ← lift Prog.get
    let data ← lift buf
    lift (store p (icmpPkt w.netData w.ipident remip type ident seq data len))
    lift (Prog.modify fun w => { w with ipident := (w.ipident + 1) % 2 ^ 32 })
    pure (some p)

/-- `icmp_in`. -/
def icmpIn (p : Buf) : MaskedM μ Unit := do
  let mask ← disable off
  let pkt ← lift (load p (icmpPacket p))
  if pkt.net_ictype ≠ ICMP_ECHOREPLY ∧ pkt.net_ictype ≠ ICMP_ECHOREQST then do
    freebuf off others p
    restore mask
  else if pkt.net_ictype = ICMP_ECHOREQST then do
    let icseq ← lift (load p (·.w16 net_icseq))
    match ← icmpMkpkt off netbufpool others pkt.net_ipsrc ICMP_ECHOREPLY pkt.net_icident icseq
        (load p fun pkt j => pkt (net_icdata + j)) (pkt.net_iplen - IP_HDR_LEN - ICMP_HDR_LEN) with
    | none => do
      freebuf off others p
      restore mask
    | some replypkt => do
      let _ ← ipEnqueue off others replypkt
      freebuf off others p
      restore mask
  else
    let slot : Int := pkt.net_icident
    if slot < 0 ∨ slot ≥ ICMP_SLOTS then do
      freebuf off others p
      restore mask
    else do
      let w ← lift Prog.get
      let e := w.icmptab slot
      if e.icstate = .ICMP_FREE ∨ pkt.net_ipsrc ≠ e.icremip then do
        freebuf off others p
        restore mask
      else do
        let e' := { e with
          iccount := e.iccount + 1
          icqueue := Function.update e.icqueue e.ictail (some pkt)
          ictail := Ring.next ICMP_QSIZ e.ictail }
        if e.icstate = .ICMP_RECV then do
          lift (Prog.change (fun w => { w with icmptab := Function.update w.icmptab slot { e' with icstate := .ICMP_USED } })
            (.queued p (.icmp slot)))
          send off others e.icpid
          restore mask
        else do
          lift (Prog.change (fun w => { w with icmptab := Function.update w.icmptab slot e' }) (.queued p (.icmp slot)))
          restore mask

/-! ## IP -/

/-- `ip_local`. -/
def ipLocal (p : Buf) : MaskedM μ Unit := do
  let pkt ← lift (load p id)
  lift (Prog.emit (.locally p pkt))
  let proto ← lift (load p (·.w8 net_ipproto))
  if proto = IP_UDP then udpIn off others p
  else if proto = IP_ICMP then icmpIn off netbufpool others p
  else freebuf off others p

/-- `ip_out`. -/
def ipOut (p : Buf) : MaskedM μ Int := do
  let pktlen ← lift (load p fun pkt => pkt.w16 net_iplen + ETH_HDR_LEN)
  lift (store p outgoing)
  let frame ← lift (load p (·.bytes pktlen))
  let retval ← write off others frame
  freebuf off others p
  if retval = SYSERR then pure SYSERR else pure OK

/-- The next hop of a destination that is neither local nor broadcast. -/
def nextHop (nd : Network) (dest : Nat) : Nat := if dest &&& nd.ipmask = nd.ipprefix then dest else nd.iprouter

/-- The end of `ip_send`, for a packet that is not delivered here and not broadcast. -/
def ipForward (mask : μ) (nxthop : Nat) (p : Buf) : MaskedM μ Int :=
  -- the returns of these two failures are the ones without a restore
  if nxthop = 0 then do
    freebuf off others p
    pure SYSERR
  else do
    let retval ← arpResolve off others nxthop p
    if retval ≠ OK then do
      freebuf off others p
      pure SYSERR
    else do
      let retval ← ipOut off others p
      restore mask
      pure retval

/-- `ip_send`. -/
def ipSend (p : Buf) : MaskedM μ Int := do
  let mask ← disable off
  let dest ← lift (load p (·.w32 net_ipdst))
  let w ← lift Prog.get
  if dest &&& 0xff000000 = 0x7f000000 then do
    ipLocal off netbufpool others p
    restore mask
    pure OK
  else if dest = w.netData.ipucast then do
    ipLocal off netbufpool others p
    restore mask
    pure OK
  else if dest = IP_BCAST ∨ dest = w.netData.ipbcast then do
    lift (store p fun pkt => Arp.putHaddr pkt net_ethdst w.netData.ethbcast)
    let retval ← ipOut off others p
    restore mask
    pure retval
  else
    ipForward off others mask (nextHop w.netData dest) p

/-! ## The ends -/

/-- `udp_send`. -/
def udpSend (slot : Int) (buff : Nat → UInt8) (len : Int) : MaskedM μ Int := do
  let mask ← disable off
  if slot < 0 ∨ slot ≥ UDP_SLOTS then do
    restore mask
    pure SYSERR
  else do
    let w ← lift Prog.get
    let e := w.udptab slot
    if e.udstate = .UDP_FREE then do
      restore mask
      pure SYSERR
    else if e.udremip = 0 then do
      restore mask
      pure SYSERR
    else do
      match ← getbuf off netbufpool others with
      | none => do
        restore mask
        pure SYSERR
      | some p => do
        let w' ← lift Prog.get
        lift (store p
          (udpPkt { w'.netData with ipucast := w.netData.ipucast } w'.udpIdent e.udremip e.udlocport e.udremport buff len))
        lift (Prog.modify fun w => { w with udpIdent := (w.udpIdent + 1) % 65536 })
        let _ ← ipSend off netbufpool others p
        restore mask
        pure OK

/-- `udp_sendto`. -/
def udpSendto (slot : Int) (remip remport : Nat) (buff : Nat → UInt8) (len : Int) : MaskedM μ Int := do
  let mask ← disable off
  if slot < 0 ∨ slot ≥ UDP_SLOTS then do
    restore mask
    pure SYSERR
  else do
    let w ← lift Prog.get
    if (w.udptab slot).udstate = .UDP_FREE then do
      restore mask
      pure SYSERR
    else do
      match ← getbuf off netbufpool others with
      | none => do
        restore mask
        pure SYSERR
      | some p => do
        let w ← lift Prog.get
        lift (store p (udpPkt w.netData w.udptoIdent remip (w.udptab slot).udlocport remport buff len))
        lift (Prog.modify fun w => { w with udptoIdent := (w.udptoIdent + 1) % 65536 })
        let _ ← ipSend off netbufpool others p
        restore mask
        pure OK

/-- `icmp_send`: the return behind the comparison of the packet with `SYSERR` has no restore. -/
def icmpSend (remip type ident seq : Nat) (buf : Nat → UInt8) (len : Int) : MaskedM μ Int := do
  let mask ← disable off
  match ← icmpMkpkt off netbufpool others remip type ident seq (pure buf) len with
  | none => pure SYSERR
  | some p => do
    let retval ← ipSend off netbufpool others p
    restore mask
    pure retval

end WithMask

end Ip

end Xinu
