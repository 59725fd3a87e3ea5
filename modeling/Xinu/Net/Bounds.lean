import Xinu.Net.Checksum

/-!
# Accesses within a packet

`icmp_cksum`, `memcpy` and the loop of `icmp_recv` once more, now on a packet structure with its size: an access outside of it is
an error. Where no access is, they compute what they compute on the memory.
-/

namespace Xinu

namespace Netpacket

/-- The size of `struct netpacket`. -/
def PACKLEN : Nat := 1514

variable (p : Netpacket)

/-- Read a byte of the packet structure. -/
def byteIn (o : Nat) : Option UInt8 := if o < PACKLEN then some (p o) else none

/-- Write a byte of the packet structure. -/
def putIn (o : Nat) (b : UInt8) : Option Netpacket := if o < PACKLEN then some (Function.update p o b) else none

/-- The loop of `icmp_cksum`. -/
def sumLoopIn : Nat → (o : Nat) → (cksum : Nat) → Option Nat
  | 0, _, cksum => some cksum
  | n + 1, o, cksum => do
    let low ← p.byteIn o
    let high ← p.byteIn (o + 1)
    sumLoopIn n (o + 2) ((cksum + htons (low.toNat + 256 * high.toNat)) % 2 ^ 32)

/-- `icmp_cksum`. -/
def icmpCksumIn (o : Nat) (buflen : Int) : Option Nat := do
  let scount := (buflen / 2).toNat
  let cksum ← p.sumLoopIn scount o 0
  if buflen % 2 ≠ 0 then do
    let last ← p.byteIn (o + 2 * scount)
    pure (fold ((cksum + 256 * last.toNat) % 2 ^ 32))
  else pure (fold cksum)

/-- The loop of `memcpy` from one packet to another. -/
def memcpyLoop (src : Netpacket) (s : Nat) (ct : Nat) : Nat → (i : Nat) → (dst : Netpacket) → Option Netpacket
  | 0, _, dst => some dst
  | n + 1, i, dst => do
    let b ← src.byteIn (ct + i)
    let dst ← dst.putIn (s + i) b
    memcpyLoop src s ct n (i + 1) dst

/-- `memcpy` from one packet to another. -/
def memcpyIn (dst : Netpacket) (s : Nat) (src : Netpacket) (ct : Nat) (n : Int) : Option Netpacket :=
  memcpyLoop src s ct n.toNat 0 dst

/-- The loop of `icmp_recv`, with the bytes stored so far in the caller's buffer. -/
def recvLoop (len : Int) : Nat → (i : Nat) → (buff : List UInt8) → Option (List UInt8)
  | 0, _, buff => some buff
  | n + 1, i, buff =>
    if i ≥ len then some buff
    else do
      let b ← p.byteIn (net_icdata + i)
      recvLoop len n (i + 1) (buff ++ [b])

/-- The copy of `icmp_recv`. -/
def recvIn (datalen len : Int) : Option (List UInt8) := p.recvLoop len datalen.toNat 0 []

variable {p} {src dst : Netpacket}

theorem byteIn_of_lt {o : Nat} (h : o < PACKLEN) : p.byteIn o = some (p o) := if_pos h

theorem byteIn_of_ge {o : Nat} (h : PACKLEN ≤ o) : p.byteIn o = none := if_neg (by omega)

theorem putIn_of_lt {o : Nat} (h : o < PACKLEN) (b : UInt8) : p.putIn o b = some (Function.update p o b) := if_pos h

/-- The sum of words that are all in the packet. -/
theorem sumLoopIn_eq (n : Nat) : ∀ {o c : Nat}, o + 2 * n ≤ PACKLEN → p.sumLoopIn n o c = some (p.sumLoop n o c) := by
  induction n with
  | zero => exact fun _ => rfl
  | succ n ih =>
    intro o c h
    rw [sumLoopIn, byteIn_of_lt (by omega), byteIn_of_lt (by omega)]
    exact ih (by omega)

/-- The sum reaches the end of its words. -/
theorem sumLoopIn_none (n : Nat) : ∀ {o c : Nat}, n ≠ 0 → PACKLEN < o + 2 * n → p.sumLoopIn n o c = none := by
  induction n with
  | zero => exact fun h => absurd rfl h
  | succ n ih =>
    intro o c _ h
    rw [sumLoopIn]
    by_cases ho : o + 1 < PACKLEN
    · rw [byteIn_of_lt (by omega), byteIn_of_lt ho]
      exact ih (by omega) (by omega)
    · rw [byteIn_of_ge (by omega : PACKLEN ≤ o + 1)]
      cases p.byteIn o <;> rfl

/-- The checksum of a part of the packet, that begins inside of it, accesses that part. -/
theorem icmpCksumIn_eq {o : Nat} (ho : o < PACKLEN) (n : Nat) :
    p.icmpCksumIn o n = if o + n ≤ PACKLEN then some (p.icmpCksum o n) else none := by
  have hcount : ((n : Int) / 2).toNat = n / 2 := by omega
  have hodd : ((n : Int) % 2 ≠ 0) ↔ n % 2 ≠ 0 := by omega
  rw [icmpCksumIn, icmpCksum, icmpSum]
  simp only [hcount, hodd]
  by_cases hwords : o + 2 * (n / 2) ≤ PACKLEN
  · rw [sumLoopIn_eq _ hwords]
    simp only [Option.bind_eq_bind, Option.bind_some]
    by_cases h2 : n % 2 ≠ 0
    · by_cases hlast : o + 2 * (n / 2) < PACKLEN
      · rw [byteIn_of_lt hlast, if_pos h2, if_pos h2, if_pos (by omega)]
        rfl
      · rw [byteIn_of_ge (by omega), if_pos h2, if_neg (by omega)]
        rfl
    · rw [if_neg h2, if_neg h2, if_pos (by omega)]
      rfl
  · rw [sumLoopIn_none _ (by omega) (by omega), if_neg (by omega)]
    rfl

/-- What `memcpy` has done after some of its turns. -/
theorem memcpyLoop_eq {s ct : Nat} (n : Nat) : ∀ {i : Nat} {dst : Netpacket}, s + (i + n) ≤ PACKLEN → ct + (i + n) ≤ PACKLEN →
    memcpyLoop src s ct n i dst = some (dst.copy (s + i) (fun j => src (ct + i + j)) n) := by
  induction n with
  | zero =>
    intro i dst _ _
    refine congrArg some (funext fun j => (if_neg ?_).symm)
    omega
  | succ n ih =>
    intro i dst hs hc
    rw [memcpyLoop, byteIn_of_lt (by omega)]
    simp only [Option.bind_eq_bind, Option.bind_some]
    rw [putIn_of_lt (by omega), Option.bind_some, ih (by omega) (by omega)]
    refine congrArg some (funext fun j => ?_)
    unfold copy
    by_cases hj : j = s + i
    · subst hj
      rw [if_neg (by omega), Function.update_self, if_pos (by omega), Nat.sub_self]
      rfl
    · by_cases hin : s + i ≤ j ∧ j < s + i + (n + 1)
      · rw [if_pos (by omega), if_pos hin]
        exact congrArg src (by omega)
      · rw [if_neg (by omega), if_neg hin, Function.update_of_ne hj]

/-- `memcpy` reaches the end of what it copies. -/
theorem memcpyLoop_none {s ct : Nat} (n : Nat) : ∀ {i : Nat} {dst : Netpacket}, n ≠ 0 → PACKLEN < ct + (i + n) →
    memcpyLoop src s ct n i dst = none := by
  induction n with
  | zero => exact fun h => absurd rfl h
  | succ n ih =>
    intro i dst _ h
    rw [memcpyLoop]
    by_cases hin : ct + i < PACKLEN
    · rw [byteIn_of_lt hin]
      simp only [Option.bind_eq_bind, Option.bind_some]
      cases dst.putIn (s + i) (src (ct + i)) with
      | none => rfl
      | some dst => exact ih (by omega) (by omega)
    · rw [byteIn_of_ge (by omega)]
      rfl

/-- A copy between the same places of two packets accesses what it copies. -/
theorem memcpyIn_eq (dst src : Netpacket) {o : Nat} (ho : o ≤ PACKLEN) (n : Int) : memcpyIn dst o src o n =
    if o + n ≤ PACKLEN then some (dst.copy o (fun j => src (o + j)) n.toNat) else none := by
  rw [memcpyIn]
  split_ifs with h
  · rw [memcpyLoop_eq n.toNat (by omega) (by omega)]
    rfl
  · exact memcpyLoop_none _ (by omega) (by omega)

/-- What the loop of `icmp_recv` has stored after some of its turns. -/
theorem recvLoop_eq (len : Nat) (n : Nat) : ∀ {i : Nat}, i ≤ len → p.recvLoop len n i ((List.range i).map fun j => p (net_icdata + j)) =
    if n = 0 ∨ len ≤ i ∨ net_icdata + min (i + n) len ≤ PACKLEN then
      some ((List.range (min (i + n) len)).map fun j => p (net_icdata + j)) else none := by
  induction n with
  | zero =>
    intro i hi
    rw [if_pos (.inl rfl), Nat.add_zero, Nat.min_eq_left hi]
    rfl
  | succ n ih =>
    intro i hi
    rw [recvLoop]
    by_cases hlen : len ≤ i
    · have hmin : min (i + (n + 1)) len = i := by omega
      rw [if_pos (by omega), if_pos (.inr (.inl hlen)), hmin]
    · have hmin : min (i + (n + 1)) len = min (i + 1 + n) len := by omega
      rw [if_neg (by omega), hmin]
      by_cases hin : net_icdata + i < PACKLEN
      · have hsnoc : (List.range i).map (fun j => p (net_icdata + j)) ++ [p (net_icdata + i)] =
            (List.range (i + 1)).map fun j => p (net_icdata + j) := by
          rw [List.range_succ, List.map_append]
          rfl
        rw [byteIn_of_lt hin]
        simp only [Option.bind_eq_bind, Option.bind_some]
        rw [hsnoc, ih (by omega)]
        refine if_congr ?_ rfl rfl
        omega
      · rw [byteIn_of_ge (by omega), if_neg (by omega)]
        rfl

/-- The copy of `icmp_recv` accesses what it copies. -/
theorem recvIn_eq (p : Netpacket) (datalen : Int) (len : Nat) : p.recvIn datalen len =
    if net_icdata + min datalen.toNat len ≤ PACKLEN then
      some ((List.range (min datalen.toNat len)).map fun j => p (net_icdata + j)) else none := by
  have h := recvLoop_eq (p := p) len datalen.toNat (Nat.zero_le len)
  rw [Nat.zero_add] at h
  rw [recvIn]
  refine h.trans (if_congr ?_ rfl rfl)
  have hsmall : net_icdata ≤ PACKLEN := by decide
  omega

end Netpacket

end Xinu
