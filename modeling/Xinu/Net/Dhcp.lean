import Xinu.Net.Ip

/-!
# The DHCP client

`dhcp.c` and `dot2ip.c`. A message is the memory of a `struct dhcpmsg`; what stands behind the bytes that were received is what
the buffer held before. The walks over the options read through `read`: in the memory of a message a read always gives a byte, in
the bytes that were received it may fail. The network is what the calls of `udp_recv` return, each with the UDP table as the other
processes have left it then; `getlocalip` without a further outcome is still waiting (`none`). What `udp_sendto` returns is not
used. The diagnostics are left out.
-/

namespace Xinu

namespace Dhcp

open Netpacket hiding IP_HDR_LEN UDP_HDR_LEN ICMP_HDR_LEN

/-! ## Messages -/

/-- `struct dhcpmsg`. -/
abbrev Dhcpmsg := Netpacket

def dc_bop : Nat := 0
def dc_htype : Nat := 1
def dc_hlen : Nat := 2
def dc_hops : Nat := 3
def dc_xid : Nat := 4
def dc_secs : Nat := 8
def dc_flags : Nat := 10
def dc_cip : Nat := 12
def dc_yip : Nat := 16
def dc_sip : Nat := 20
def dc_gip : Nat := 24
def dc_chaddr : Nat := 28
def dc_bootp : Nat := 44
def sname : Nat := 44
def bootfile : Nat := 108
def dc_cookie : Nat := 236
def dc_opt : Nat := 240
/-- `sizeof(struct dhcpmsg)`. -/
def dhcpmsgSize : Nat := 1264

def DHCP_RETRY : Nat := 5
def DHCP_SERVER_ID : UInt8 := 54
def UDP_DHCP_CPORT : Nat := 68
def UDP_DHCP_SPORT : Nat := 67
def NETBOOTFILE : Nat := 128
/-- `SYSERR` as a `uint32`. -/
def SYSERR32 : Nat := 0xffffffff

/-! ## Options -/

section

variable {m : Type → Type} [Monad m] (read : Nat → m UInt8)

/-- The loop of `dhcp_get_opt_val`; the end of the message is the address of its last byte. -/
def optValLoop (dmsg_size : Nat) (option_key : UInt8) (opt_tmp : Nat) : m (Option Nat) :=
  if opt_tmp + 1 < dmsg_size then do
    let code ← read opt_tmp
    if code = option_key then pure (some (opt_tmp + 2))
    else do
      let len ← read (opt_tmp + 1)
      optValLoop dmsg_size option_key (opt_tmp + 1 + (len.toNat + 1))
  else pure none
termination_by dmsg_size - opt_tmp

/-- `dhcp_get_opt_val`: where the value is. -/
def dhcpGetOptVal (dmsg_size : Nat) (option_key : UInt8) : m (Option Nat) := optValLoop read dmsg_size option_key dc_opt

/-- What the loop of `getlocalip` takes from the options. -/
structure Options where
  msgtype : Nat
  addrmask : Nat
  routeraddr : Nat
  dnsaddr : Nat
  ntpaddr : Nat
deriving DecidableEq

/-- `memcpy` of four bytes, and `ntohl`. -/
def addressAt (o : Nat) : m Nat := do
  let b0 ← read o
  let b1 ← read (o + 1)
  let b2 ← read (o + 2)
  let b3 ← read (o + 3)
  pure (htonl (b0.toNat + 256 * b1.toNat + 65536 * (b2.toNat + 256 * b3.toNat)))

/-- The switch in the loop of `getlocalip`. -/
def takeOption (code : UInt8) (optptr : Nat) (v : Options) : m Options :=
  if code = 53 then do
    let b ← read (optptr + 2)
    pure { v with msgtype := b.toNat }
  else if code = 1 then do
    let tmp ← addressAt read (optptr + 2)
    pure { v with addrmask := tmp }
  else if code = 3 then do
    let tmp ← addressAt read (optptr + 2)
    pure { v with routeraddr := tmp }
  else if code = 6 then do
    let tmp ← addressAt read (optptr + 2)
    pure { v with dnsaddr := tmp }
  else if code = 42 then do
    let tmp ← addressAt read (optptr + 2)
    pure { v with ntpaddr := tmp }
  else pure v

/-- The loop of `getlocalip` over the options. -/
def optionsLoop (inlen : Nat) (optptr : Nat) (v : Options) : m Options :=
  if optptr + 1 < inlen then do
    let code ← read optptr
    let v ← takeOption read code optptr v
    let len ← read (optptr + 1)
    optionsLoop inlen (optptr + 1 + (len.toNat + 1)) v
  else pure v
termination_by inlen - optptr

/-- The options of a message. -/
def options (inlen : Nat) : m Options := optionsLoop read inlen dc_opt ⟨0, 0, 0, 0, 0⟩

end

/-- A read of the memory of a message. -/
def mem (dmsg : Dhcpmsg) : Nat → Id UInt8 := fun o => pure (dmsg o)

/-! ## Requests -/

/-- Assign to the bytes from an offset on. -/
def store (dmsg : Dhcpmsg) (o : Nat) (bs : List UInt8) : Dhcpmsg := dmsg.copy o (fun j => bs.getD j 0) bs.length

/-- `dhcp_bld_bootp_msg`. -/
def dhcpBldBootpMsg (ethucast : Nat → UInt8) (dmsg : Dhcpmsg) : Dhcpmsg :=
  let xid := w32 ethucast 0
  let dmsg := dmsg.copy 0 (fun _ => 0) dhcpmsgSize
  let dmsg := (((dmsg.put8 dc_bop 1).put8 dc_htype 1).put8 dc_hlen 6).put8 dc_hops 0
  let dmsg := ((dmsg.put32 dc_xid (htonl xid)).put16 dc_secs 0).put16 dc_flags 0
  let dmsg := (((dmsg.put32 dc_cip 0).put32 dc_yip 0).put32 dc_sip 0).put32 dc_gip 0
  let dmsg := (dmsg.copy dc_chaddr (fun _ => 0) 16).copy dc_chaddr ethucast ETH_ADDR_LEN
  (dmsg.copy dc_bootp (fun _ => 0) 192).put32 dc_cookie (htonl 0x63825363)

/-- `dhcp_bld_disc`: the length and the message. -/
def dhcpBldDisc (ethucast : Nat → UInt8) (dmsg : Dhcpmsg) : Int × Dhcpmsg :=
  let dmsg := dhcpBldBootpMsg ethucast dmsg
  let dmsg := store dmsg dc_opt [53, 1, 1, 0, 55, 2, 1, 3, 255]
  (dc_opt + 9 + 1, dmsg)

/-- `dhcp_bld_req`. -/
def dhcpBldReq (ethucast : Nat → UInt8) (dmsg dmsg_offer : Dhcpmsg) (dmsg_offer_size : Nat) : Int × Dhcpmsg :=
  let dmsg := dhcpBldBootpMsg ethucast dmsg
  let dmsg := dmsg.put32 dc_sip (dmsg_offer.w32 dc_sip)
  let dmsg := store dmsg dc_opt [53, 1, 3, 0, 50, 4]
  let dmsg := dmsg.copy (dc_opt + 6) (fun j => dmsg_offer (dc_yip + j)) 4
  match Id.run (dhcpGetOptVal (mem dmsg_offer) dmsg_offer_size DHCP_SERVER_ID) with
  | none => (SYSERR, dmsg)
  | some server_ip =>
    let dmsg := store dmsg (dc_opt + 10) [54, 4]
    let dmsg := dmsg.copy (dc_opt + 12) (fun j => dmsg_offer (server_ip + j)) 4
    let dmsg := store dmsg (dc_opt + 16) [255]
    (dc_opt + 17 + 1, dmsg)

/-! ## Dotted decimal -/

/-- The loop of `dot2ip` over the characters of a segment: the value, the last character and the place behind it. -/
def segmentLoop (dotted : Nat → UInt8) : (left : Nat) → (o : Nat) → (ch : UInt8) → (val : Nat) → Option (Nat × UInt8 × Nat)
  | 0, o, ch, val => some (val, ch, o)
  | left + 1, o, _, val =>
    if dotted o = 0 ∨ dotted o = 46 then (if left + 1 = 4 then none else some (val, dotted o, o + 1))
    else if dotted o < 48 ∨ dotted o > 57 then none
    else segmentLoop dotted left (o + 1) (dotted o) (10 * val + ((dotted o).toNat - 48))

/-- The loop of `dot2ip` over the segments. -/
def dot2ipLoop (dotted : Nat → UInt8) : (left : Nat) → (o : Nat) → (ipaddr : Nat) → Option Nat
  | 0, _, _ => none
  | left + 1, o, ipaddr =>
    (segmentLoop dotted 4 o 0 0).bind fun (val, ch, o) =>
      if val > 255 then none
      else if ch = 0 then (if left = 0 then some (ipaddr * 256 + val) else none)
      else dot2ipLoop dotted left o (ipaddr * 256 + val)

/-- `dot2ip`: the address in host order, if it returns `OK`. -/
def dot2ip (dotted : Nat → UInt8) : Option Nat := dot2ipLoop dotted 4 0 0

/-! ## The client -/

/-- `struct network`, with what the client configures besides the addresses of the interface. -/
structure NetData extends Ip.Network where
  bootserver : Nat
  dnsserver : Nat
  ntpserver : Nat
  bootfile : List UInt8

/-- What a call of `udp_recv` meets: a packet with a UDP length and data, a timeout or an error. -/
inductive Received where
  | datagram (net_udplen : Nat) (net_udpdata : Nat → UInt8)
  | timeout
  | syserr

/-- `udp_recv` into a message buffer. -/
def udpRecv (r : Received) (buff : Dhcpmsg) : Int × Dhcpmsg :=
  match r with
  | .datagram net_udplen net_udpdata =>
    let msglen : Int := min (dhcpmsgSize : Int) (net_udplen - UDP_HDR_LEN)
    (msglen, buff.copy 0 net_udpdata msglen.toNat)
  | .timeout => (TIMEOUT, buff)
  | .syserr => (SYSERR, buff)

/-- The outcome of a call of `udp_recv`, and UDP when it returns. -/
structure Event where
  received : Received
  udp : Udp

/-- The variables of `getlocalip`, with the part of the system that it changes. `released` is not a variable of the source: it
records the calls of `udp_release`. -/
structure State where
  netData : NetData
  udp : Udp
  released : List Int
  dmsg_snd : Dhcpmsg
  dmsg_rvc : Dhcpmsg
  len : Int

/-- `udp_release`. -/
def State.udpRelease (s : State) (slot : Int) : State :=
  { s with udp := (s.udp.udpRelease slot).1, released := s.released ++ [slot] }

/-- How `getlocalip` ends: with a value, or with a read through `NULL`. -/
inductive Exit where
  | returned (v : Nat)
  | faulted
deriving DecidableEq

/-- A turn of the inner loop: whether the function ends there, the messages that were sent, and the state. -/
structure Turn where
  exit : Option Exit
  sent : List (List UInt8)
  state : State

def NetData.ethaddr (n : NetData) : Nat → UInt8 := fun j => n.ethucast.getD j 0

/-- The assignments to `NetData` from an acknowledgement, the boot server and the boot file apart. -/
def NetData.assign (n : NetData) (v : Options) (yip : Nat) : NetData :=
  let ipmask := if v.addrmask ≠ 0 then v.addrmask else n.ipmask
  let ipprefix := yip &&& ipmask
  { n with
    ipmask := ipmask
    iprouter := if v.routeraddr ≠ 0 then v.routeraddr else n.iprouter
    dnsserver := if v.dnsaddr ≠ 0 then v.dnsaddr else n.dnsserver
    ntpserver := if v.ntpaddr ≠ 0 then v.ntpaddr else n.ntpserver
    ipucast := yip
    ipprefix := ipprefix
    ipbcast := ipprefix ||| (0xffffffff ^^^ ipmask)
    ipvalid := true }

/-- The end of the inner loop: configure the network from an acknowledgement. -/
def configure (slot : Int) (v : Options) (s : State) : Turn :=
  let s := { s with netData := s.netData.assign v (htonl (s.dmsg_rvc.w32 dc_yip)) }.udpRelease slot
  let finish (bootserver : Nat) : Turn :=
    ⟨some (.returned s.netData.ipucast), [], { s with netData := { s.netData with
      bootserver := bootserver, bootfile := (List.range NETBOOTFILE).map fun j => s.dmsg_rvc (bootfile + j) } }⟩
  match dot2ip (fun j => s.dmsg_rvc (sname + j)) with
  | some bootserver => finish bootserver
  | none =>
    match Id.run (dhcpGetOptVal (mem s.dmsg_rvc) s.len.toNat DHCP_SERVER_ID) with
    | some tmp_server_ip => finish (htonl (s.dmsg_rvc.w32 tmp_server_ip))
    | none => ⟨some .faulted, [], s⟩

/-- The inner loop for a message that has arrived. -/
def message (slot inlen : Int) (s : State) : Turn :=
  if s.dmsg_rvc.w32 dc_xid ≠ s.dmsg_snd.w32 dc_xid then ⟨none, [], s⟩
  else
    let v := Id.run (options (mem s.dmsg_rvc) inlen.toNat)
    if v.msgtype = 2 then
      let (len, dmsg_snd) := dhcpBldReq s.netData.ethaddr s.dmsg_snd s.dmsg_rvc inlen.toNat
      let s := { s with dmsg_snd := dmsg_snd, len := len }
      if len = SYSERR then ⟨some (.returned SYSERR32), [], s⟩ else ⟨none, [dmsg_snd.bytes len.toNat], s⟩
    else if s.dmsg_rvc (dc_opt + 2) ≠ 5 then ⟨none, [], s⟩
    else configure slot v s

/-- The body of the inner loop. -/
def turn (slot : Int) (e : Event) (s : State) : Turn :=
  let (inlen, dmsg_rvc) := udpRecv e.received s.dmsg_rvc
  let s := { s with dmsg_rvc := dmsg_rvc, udp := e.udp }
  if inlen = TIMEOUT then ⟨none, [], s⟩
  else if inlen = SYSERR then ⟨some (.returned SYSERR32), [], s⟩
  else message slot inlen s

/-- What is left behind turns: the network to come, too. -/
structure Run extends Turn where
  rest : List Event

/-- The inner loop of `getlocalip`. -/
def recvLoop (slot : Int) : (j : Nat) → List Event → State → Option Run
  | 0, recv, s => some ⟨⟨none, [], s⟩, recv⟩
  | _ + 1, [], _ => none
  | j + 1, e :: recv, s =>
    if (turn slot e s).exit.isSome then some ⟨turn slot e s, recv⟩
    else (recvLoop slot j recv (turn slot e s).state).map fun r => { r with sent := (turn slot e s).sent ++ r.sent }

/-- The outer loop of `getlocalip`, and its end. -/
def retryLoop (slot : Int) : (i : Nat) → List Event → State → Option Run
  | 0, recv, s => some ⟨⟨some (.returned SYSERR32), [], s.udpRelease slot⟩, recv⟩
  | i + 1, recv, s =>
    (recvLoop slot 3 recv s).bind fun r =>
      if r.exit.isSome then some { r with sent := s.dmsg_snd.bytes s.len.toNat :: r.sent }
      else (retryLoop slot i r.rest r.state).map fun r' =>
        { r' with sent := s.dmsg_snd.bytes s.len.toNat :: r.sent ++ r'.sent }

/-- `getlocalip` behind the call of `udp_register`, with what the stack held in place of the messages. -/
def getlocalipFrom (slot : Int) (recv : List Event) (s : State) : Option Run :=
  if slot = SYSERR then some ⟨⟨some (.returned SYSERR32), [], s⟩, recv⟩
  else
    let (len, dmsg_snd) := dhcpBldDisc s.netData.ethaddr s.dmsg_snd
    let s := { s with dmsg_snd := dmsg_snd, len := len }
    if len = SYSERR then some ⟨⟨some (.returned SYSERR32), [], s⟩, recv⟩ else retryLoop slot DHCP_RETRY recv s

/-- `getlocalip`. -/
def getlocalip (recv : List Event) (s : State) : Option Run :=
  match s.udp.udpRegister 0 UDP_DHCP_SPORT UDP_DHCP_CPORT with
  | (udp, .ret slot) => getlocalipFrom slot recv { s with udp := udp }
  | _ => none

end Dhcp

end Xinu
