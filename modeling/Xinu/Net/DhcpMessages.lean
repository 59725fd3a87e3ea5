import Xinu.Lib.TaggedField
import Xinu.Net.Dhcp

/-!
# The requests of the DHCP client

What stands in the messages that `dhcp_bld_disc` and `dhcp_bld_req` build: the transaction identifier, which is the same in both, and
the options, with a pad behind the first one.
-/

namespace Xinu

namespace Dhcp

open Netpacket Tagged

variable (ethucast : Nat → UInt8) (dmsg dmsg_offer : Dhcpmsg)

theorem store_of_outside {p : Dhcpmsg} {o j : Nat} {bs : List UInt8} (h : j < o ∨ o + bs.length ≤ j) : store p o bs j = p j :=
  copy_of_outside h

/-- The area of the options is cleared. -/
theorem dhcpBldBootpMsg_behind {j : Nat} (h : dc_opt ≤ j) (h' : j < dhcpmsgSize) : dhcpBldBootpMsg ethucast dmsg j = 0 := by
  have hopt : 240 ≤ j := h
  have h8 : ∀ (p : Dhcpmsg) (o v : Nat), o < 240 → p.put8 o v j = p j := fun p o v ho => put8_of_ne (by omega)
  have h16 : ∀ (p : Dhcpmsg) (o v : Nat), o < 239 → p.put16 o v j = p j := fun p o v ho => put16_of_ne (by omega) (by omega)
  have h32 : ∀ (p : Dhcpmsg) (o v : Nat), o < 237 → p.put32 o v j = p j := fun p o v ho => put32_of_outside (by omega)
  have hcopy : ∀ (p : Dhcpmsg) (o n : Nat) (src : Nat → UInt8), o + n ≤ 240 → p.copy o src n j = p j :=
    fun p o n src ho => copy_of_outside (by omega)
  rw [dhcpBldBootpMsg, h32 _ dc_cookie _ (by decide), hcopy _ dc_bootp _ _ (by decide), hcopy _ dc_chaddr _ _ (by decide),
    hcopy _ dc_chaddr _ _ (by decide), h32 _ dc_gip _ (by decide), h32 _ dc_sip _ (by decide), h32 _ dc_yip _ (by decide),
    h32 _ dc_cip _ (by decide), h16 _ dc_flags _ (by decide), h16 _ dc_secs _ (by decide), h32 _ dc_xid _ (by decide),
    h8 _ dc_hops _ (by decide), h8 _ dc_hlen _ (by decide), h8 _ dc_htype _ (by decide), h8 _ dc_bop _ (by decide)]
  have hset : dmsg.copy 0 (fun _ => 0) dhcpmsgSize (0 + j) = 0 := copy_add h'
  rwa [Nat.zero_add] at hset

/-- The transaction identifier is made of the hardware address. -/
theorem dhcpBldBootpMsg_xid : (dhcpBldBootpMsg ethucast dmsg).w32 dc_xid = htonl (w32 ethucast 0) := by
  have hlt : htonl (w32 ethucast 0) < 4294967296 := by
    unfold htonl
    omega
  refine (w32_congr fun i hi => ?_).trans (w32_put32 (p := ((((dmsg.copy 0 (fun _ => 0) dhcpmsgSize).put8 dc_bop 1).put8
    dc_htype 1).put8 dc_hlen 6).put8 dc_hops 0) dc_xid hlt)
  have hlow : dc_xid + i < 8 := Nat.add_lt_add_left hi 4
  have h16 : ∀ (p : Dhcpmsg) (o v : Nat), 8 ≤ o → p.put16 o v (dc_xid + i) = p (dc_xid + i) :=
    fun p o v ho => put16_of_ne (by omega) (by omega)
  have h32 : ∀ (p : Dhcpmsg) (o v : Nat), 8 ≤ o → p.put32 o v (dc_xid + i) = p (dc_xid + i) :=
    fun p o v ho => put32_of_outside (by omega)
  have hcopy : ∀ (p : Dhcpmsg) (o n : Nat) (src : Nat → UInt8), 8 ≤ o → p.copy o src n (dc_xid + i) = p (dc_xid + i) :=
    fun p o n src ho => copy_of_outside (by omega)
  rw [dhcpBldBootpMsg, h32 _ dc_cookie _ (by decide), hcopy _ dc_bootp _ _ (by decide), hcopy _ dc_chaddr _ _ (by decide),
    hcopy _ dc_chaddr _ _ (by decide), h32 _ dc_gip _ (by decide), h32 _ dc_sip _ (by decide), h32 _ dc_yip _ (by decide),
    h32 _ dc_cip _ (by decide), h16 _ dc_flags _ (by decide), h16 _ dc_secs _ (by decide)]

/-- The options do not reach the transaction identifier. -/
theorem store_xid {p : Dhcpmsg} {o : Nat} {bs : List UInt8} (h : dc_opt ≤ o) : (store p o bs).w32 dc_xid = p.w32 dc_xid :=
  w32_congr fun i hi => store_of_outside (.inl (Nat.lt_of_lt_of_le (Nat.add_lt_add_left hi 4) (Nat.le_trans (by decide) h)))

theorem dhcpBldDisc_xid : (dhcpBldDisc ethucast dmsg).2.w32 dc_xid = htonl (w32 ethucast 0) := by
  rw [dhcpBldDisc, store_xid (Nat.le_refl _), dhcpBldBootpMsg_xid]

/-! ## The options -/

theorem dhcpBldDisc_len : (dhcpBldDisc ethucast dmsg).1 = 250 := by
  simp [dhcpBldDisc, dc_opt]

/-- A request is built for an offer with the identifier of the server. -/
theorem dhcpBldReq_len (size : Nat) : (dhcpBldReq ethucast dmsg dmsg_offer size).1 =
    if Id.run (dhcpGetOptVal (mem dmsg_offer) size DHCP_SERVER_ID) = none then SYSERR else 258 := by
  rw [dhcpBldReq]
  cases Id.run (dhcpGetOptVal (mem dmsg_offer) size DHCP_SERVER_ID) with
  | none => rfl
  | some server_ip => simp [dc_opt]

theorem drop_bytes (p : Dhcpmsg) (n k : Nat) : (p.bytes n).drop k = (List.range' k (n - k)).map p := by
  rw [Netpacket.bytes, ← List.map_drop, List.range_eq_range', List.drop_range', Nat.zero_add, Nat.mul_one]

/-- The options of a discover message. -/
theorem drop_dhcpBldDisc :
    ((dhcpBldDisc ethucast dmsg).2.bytes (dhcpBldDisc ethucast dmsg).1.toNat).drop dc_opt =
      area ([(⟨53, [1], by decide, by decide, by decide⟩ : Tagged.Field)].map Item.field ++
        .pad :: .field ⟨55, [1, 3], by decide, by decide, by decide⟩ :: []) [0] := by
  have hlast : dhcpBldBootpMsg ethucast dmsg 249 = 0 := dhcpBldBootpMsg_behind ethucast dmsg (by decide) (by decide)
  have hlen : (dhcpBldDisc ethucast dmsg).1.toNat - dc_opt = 10 := by
    rw [dhcpBldDisc_len]
    decide
  rw [drop_bytes, hlen]
  simp [List.range'_succ, dhcpBldDisc, store, Netpacket.copy, dc_opt, hlast, area, Item.bytes, padCode, endCode]

/-- The options of a request, for an offer with the identifier of the server. -/
theorem drop_dhcpBldReq {size server_ip : Nat}
    (h : Id.run (dhcpGetOptVal (mem dmsg_offer) size DHCP_SERVER_ID) = some server_ip) :
    ((dhcpBldReq ethucast dmsg dmsg_offer size).2.bytes (dhcpBldReq ethucast dmsg dmsg_offer size).1.toNat).drop dc_opt =
      area ([(⟨53, [3], by decide, by decide, by decide⟩ : Tagged.Field)].map Item.field ++
        .pad :: .field ⟨50, (List.range 4).map fun j => dmsg_offer (dc_yip + j), by decide, by decide, by simp⟩ ::
        .field ⟨54, (List.range 4).map fun j => dmsg_offer (server_ip + j), by decide, by decide, by simp⟩ :: []) [0] := by
  have hlast : dhcpBldBootpMsg ethucast dmsg 257 = 0 := dhcpBldBootpMsg_behind ethucast dmsg (by decide) (by decide)
  have hsip : ∀ v, put32 (dhcpBldBootpMsg ethucast dmsg) dc_sip v 257 = 0 := fun v =>
    (put32_of_outside (.inr (by decide))).trans hlast
  have hlen : (dhcpBldReq ethucast dmsg dmsg_offer size).1.toNat - dc_opt = 18 := by
    rw [dhcpBldReq_len, h, if_neg (Option.some_ne_none server_ip)]
    decide
  rw [drop_bytes, hlen, dhcpBldReq, h]
  simp [List.range'_succ, store, Netpacket.copy, dc_opt, dc_yip, hsip, area, Item.bytes, padCode, endCode, List.range_succ]

end Dhcp

end Xinu
