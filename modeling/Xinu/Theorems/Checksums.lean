import Xinu.Lib.OnesComplement
import Xinu.Theorems.Loopback

/-!
# Internet checksums

`ipcksum` and `icmp_cksum` bring the carry around once. The result is the checksum of RFC 1071 exactly when that leaves no carry
behind; `ipcksum` also replaces all-1s by zero, which hides a sum that is zero.
-/

namespace Xinu

namespace Ip

open Netpacket hiding IP_HDR_LEN UDP_HDR_LEN ICMP_HDR_LEN

/-- The IP header, as it stands on the wire. -/
def header (p : Netpacket) : List UInt8 := (List.range 20).map fun j => p (net_ipvh + j)

/-- An ICMP message of `n` bytes, as it stands on the wire. -/
def message (p : Netpacket) (n : Nat) : List UInt8 := (List.range n).map fun j => p (net_ictype + j)

/-- The sum of the words of a byte sequence, before any carry is brought around. -/
def wideSum (bs : List UInt8) : Nat := (OnesComplement.words bs).sum

section

variable {p q : Netpacket} {n : Nat}

/-- The words of a part of a packet. -/
theorem wideSum_slice (p : Netpacket) : ∀ (n o : Nat), wideSum ((List.range n).map fun j => p (o + j)) =
    p.wordSum (n / 2) o + if n % 2 = 0 then 0 else 256 * (p (o + 2 * (n / 2))).toNat
  | 0, _ => rfl
  | 1, o => by simp [wideSum, OnesComplement.words, wordSum]
  | n + 2, o => by
    have hhalf : (n + 2) / 2 = n / 2 + 1 := by omega
    have hodd : (n + 2) % 2 = n % 2 := by omega
    have hlast : o + 2 * (n / 2 + 1) = o + 2 + 2 * (n / 2) := by omega
    have hsplit : (List.range (n + 2)).map (fun j => p (o + j)) =
        p o :: p (o + 1) :: (List.range n).map fun j => p (o + 2 + j) := by
      rw [List.range_succ_eq_map, List.range_succ_eq_map]
      simp only [List.map_cons, List.map_map, Nat.add_zero]
      congr 2
      refine List.map_congr_left fun j _ => congrArg p ?_
      simp only [Function.comp_apply, Nat.succ_eq_add_one]
      omega
    have ih := wideSum_slice p n (o + 2)
    rw [wideSum] at ih
    rw [hsplit, wideSum, OnesComplement.words, List.sum_cons, ih, hhalf, hodd, hlast, wordSum, word]
    omega

theorem wideSum_header (p : Netpacket) : wideSum (header p) = p.wordSum 10 net_ipvh := wideSum_slice p 20 net_ipvh

theorem wideSum_message (p : Netpacket) (hn : n ≤ 1500) : wideSum (message p n) = p.icmpSum net_ictype n := by
  rw [icmpSum_eq p _ hn]
  exact wideSum_slice p n net_ictype

theorem wideSum_header_le (p : Netpacket) : wideSum (header p) ≤ 10 * 65535 := wideSum_header p ▸ wordSum_le 10 _

/-- Adding in the carry, once. -/
theorem fold_eq_carry {s : Nat} (h : s < 2 ^ 31) : fold s = 65535 - OnesComplement.carry s % 65536 := by
  obtain ⟨a, b, hb, rfl⟩ : ∃ a b, b < 65536 ∧ s = 65536 * a + b :=
    ⟨s / 65536, s % 65536, Nat.mod_lt _ (by decide), (Nat.div_add_mod s 65536).symm⟩
  have hc : OnesComplement.carry (65536 * a + b) = b + a := by
    unfold OnesComplement.carry
    omega
  rw [fold_eq (by omega) hb, hc]

/-- All-1s stands for the sums that are multiples of it. -/
theorem residue_eq_ones {s : Nat} : OnesComplement.residue s = 65535 ↔ s ≠ 0 ∧ s % 65535 = 0 := by
  unfold OnesComplement.residue
  split_ifs with h
  · simp [h]
  · omega

/-- A sum that is all-1s folds to zero. -/
theorem fold_of_ones {s : Nat} (h : s < 2 ^ 30) (hz : fold s = 0) : OnesComplement.residue s = 65535 := by
  have hf := fold_eq_carry (s := s) (by omega)
  have hlt : OnesComplement.carry s < 131071 := by
    unfold OnesComplement.carry
    omega
  rw [← OnesComplement.residue_carry, OnesComplement.residue_of_lt (by omega)]
  omega

/-- A sum together with its complement is all-1s when adding in the carry leaves none behind. -/
theorem carry_add_fold {s v : Nat} (h : s < 2 ^ 30) (hv : v = if fold s = 65535 then 0 else fold s) :
    OnesComplement.carry (s + v) = 65535 ↔ s ≠ 0 ∧ NoCarry s := by
  obtain ⟨a, b, hb, rfl⟩ : ∃ a b, b < 65536 ∧ s = 65536 * a + b :=
    ⟨s / 65536, s % 65536, Nat.mod_lt _ (by decide), (Nat.div_add_mod s 65536).symm⟩
  have hcarry : ∀ x y, y < 65536 → OnesComplement.carry (65536 * x + y) = y + x := by
    intro x y hy
    unfold OnesComplement.carry
    omega
  have hhalves : NoCarry (65536 * a + b) ↔ b + a < 65536 := by
    unfold NoCarry
    omega
  rw [fold_eq (by omega) hb] at hv
  rw [hhalves]
  by_cases hc : b + a < 65536
  · by_cases h0 : 65536 * a + b = 0
    · have hv0 : v = 0 := by
        rw [hv, if_pos (by omega)]
      rw [hv0, h0]
      simp [OnesComplement.carry]
    · have hsum : 65536 * a + b + v = 65536 * a + (65535 - a) := by
        rw [hv, if_neg (by omega)]
        omega
      rw [hsum, hcarry _ _ (by omega)]
      omega
  · have hsum : 65536 * a + b + v = 65536 * (a + 1) + (65535 - a) ∨ v = 0 ∧ b + a = 65536 := by
      split_ifs at hv <;> omega
    rcases hsum with hsum | ⟨hv0, hba⟩
    · rw [hsum, hcarry _ _ (by omega)]
      omega
    · rw [hv0, Nat.add_zero, hcarry _ _ hb]
      omega

/-! ## The IP header -/

/-- The test of `ip_in` by the wide sum of the header. -/
theorem ipcksum_eq_zero (p : Netpacket) :
    p.ipcksum = 0 ↔ OnesComplement.carry (wideSum (header p)) ∈ [0, 65535, 65536] := by
  have hle := wideSum_header_le p
  have hlt : OnesComplement.carry (wideSum (header p)) < 131071 := by
    unfold OnesComplement.carry
    omega
  rw [ipcksum_eq, ← wideSum_header, fold_eq_carry (by omega)]
  simp only [List.mem_cons, List.not_mem_nil, or_false]
  split_ifs <;> omega

/-- The ones-complement sum of the header by its wide sum. -/
theorem sum_header_eq_ones (p : Netpacket) :
    OnesComplement.sum (header p) = 65535 ↔ OnesComplement.carry (wideSum (header p)) = 65535 := by
  have hle := wideSum_header_le p
  have hlt : OnesComplement.carry (wideSum (header p)) < 131070 := by
    unfold OnesComplement.carry
    omega
  rw [OnesComplement.sum_eq, ← OnesComplement.residue_carry, residue_eq_ones, wideSum] at *
  omega

/-- The header in network order, its checksum zero. -/
def unsummed (p : Netpacket) : Netpacket := p.ipHton.put16 net_ipcksum 0

/-- The header that `ip_out` sends. -/
theorem wideSum_header_outgoing (p : Netpacket) :
    wideSum (header (outgoing p)) = wideSum (header (unsummed p)) + (unsummed p).ipcksum := by
  have hbyte : ∀ j, net_ipvh ≤ j → j < 34 → (encapsulated p).ipHton j = p.ipHton j := by
    intro j hj hj'
    rw [ipHton_apply, ipHton_apply, encapsulated_header (flipIp_header j hj').2.1]
  have hput : ∀ v j, net_ipvh ≤ j → j < 34 →
      (encapsulated p).ipHton.put16 net_ipcksum v j = p.ipHton.put16 net_ipcksum v j := by
    intro v j hj hj'
    rw [put16_apply, put16_apply, hbyte j hj hj']
  have hsum : ((encapsulated p).ipHton.put16 net_ipcksum 0).ipcksum = (unsummed p).ipcksum := ipcksum_congr (hput 0)
  obtain ⟨s, hs, hs'⟩ := wordSum_ip p.ipHton
  have hlt : (unsummed p).ipcksum < 65536 := by
    have hf : fold ((unsummed p).wordSum 10 net_ipvh) ≤ 65535 := Nat.sub_le _ _
    rw [ipcksum_eq]
    split_ifs <;> omega
  have hzero : (unsummed p).wordSum 10 net_ipvh = s := hs' 0 (by decide)
  have hsent : (outgoing p).wordSum 10 net_ipvh = (p.ipHton.put16 net_ipcksum (htons (unsummed p).ipcksum)).wordSum 10 net_ipvh := by
    refine wordSum_congr 10 fun j hj hj' => ?_
    unfold net_ipvh at hj hj'
    rw [outgoing_eq, ethHton_apply hj, put16_put16, hsum, hput _ j hj (by omega)]
  rw [wideSum_header, wideSum_header, hsent, hs' _ hlt, hzero]

/-- The ones-complement sum of the header that `ip_out` sends. -/
theorem sum_header_outgoing (p : Netpacket) : OnesComplement.sum (header (outgoing p)) = 65535 ↔
    wideSum (header (unsummed p)) ≠ 0 ∧ NoCarry (wideSum (header (unsummed p))) := by
  have hle := wideSum_header_le (unsummed p)
  have hck : (unsummed p).ipcksum = if fold (wideSum (header (unsummed p))) = 65535 then 0
      else fold (wideSum (header (unsummed p))) := by
    rw [ipcksum_eq, wideSum_header]
  rw [sum_header_eq_ones, wideSum_header_outgoing, carry_add_fold (by omega) hck]

end

/-- The test of `ip_in` succeeds for the headers with the right sum and no others, unless the sum of the words is zero or its
carry carries by one; the header that `ip_out` sends has the right sum if and only if the sum of its other words is not zero and
its carry does not carry. -/
theorem ip_checksum_iff (p : Netpacket) :
    ((p.ipcksum = 0 ↔ OnesComplement.sum (header p) = 0xffff) ↔
      wideSum (header p) ≠ 0 ∧ wideSum (header p) % 65536 + wideSum (header p) / 65536 ≠ 65536) ∧
    (OnesComplement.sum (header (outgoing p)) = 0xffff ↔
      wideSum (header (unsummed p)) ≠ 0 ∧
        wideSum (header (unsummed p)) % 65536 + wideSum (header (unsummed p)) / 65536 < 65536) := by
  refine ⟨?_, sum_header_outgoing p⟩
  rw [ipcksum_eq_zero, sum_header_eq_ones]
  simp only [List.mem_cons, List.not_mem_nil, or_false, OnesComplement.carry]
  omega

/-- A header of an echo request that has arrived, with a checksum that is not its own. -/
def wrongHeader : Netpacket := fun j =>
  ([0x45, 0, 0, 84, 0, 0, 0, 0, 64, 1, 0x7c, 0xa8, 127, 0, 0, 1, 127, 0, 0, 1] : List UInt8).getD (j - 14) 0

/-- A header in host order, of a UDP packet that is to be sent. -/
def carryHeader : Netpacket := fun j =>
  ([0x45, 0, 84, 0, 0x47, 0x38, 0, 0, 255, 17, 0, 0, 1, 1, 168, 192, 2, 1, 168, 192] : List UInt8).getD (j - 14) 0

/-- `ip_in` takes a header whose sum is 1, and `ip_out` sends a header whose sum is not all-1s. -/
theorem ip_checksum_carries :
    ¬((∀ p : Netpacket, p.ipcksum = 0 ↔ OnesComplement.sum (header p) = 0xffff) ∧
      ∀ p : Netpacket, OnesComplement.sum (header (outgoing p)) = 0xffff) ∧
    ¬(wrongHeader.ipcksum = 0 ↔ OnesComplement.sum (header wrongHeader) = 0xffff) ∧
    OnesComplement.sum (header (outgoing carryHeader)) ≠ 0xffff := by
  have hin : ¬(wrongHeader.ipcksum = 0 ↔ OnesComplement.sum (header wrongHeader) = 0xffff) := by
    rw [ipcksum_eq_zero, sum_header_eq_ones]
    decide
  have hout : ¬OnesComplement.sum (header (outgoing carryHeader)) = 0xffff := by
    rw [sum_header_outgoing]
    decide
  exact ⟨fun h => hin (h.1 wrongHeader), hin, hout⟩

/-! ## ICMP messages -/

section

variable {p q r : Netpacket} {n : Nat}

/-- The test of `ip_in` on a message. -/
theorem sum_message_of_icmpCksum (hn : n ≤ 1500) (h : q.icmpCksum net_ictype n = 0) : OnesComplement.sum (message q n) = 65535 := by
  have hlt := icmpSum_lt q net_ictype hn
  rw [OnesComplement.sum_eq]
  rw [icmpCksum, ← wideSum_message q hn] at h
  rw [← wideSum_message q hn] at hlt
  exact fold_of_ones hlt h

/-- The message in network order, its checksum zero. -/
def zeroed (p : Netpacket) : Netpacket := p.icmpHton.put16 net_iccksum 0

/-- The ICMP message that `ip_out` sends. -/
theorem outgoing_message (hn : n ≤ 1480) (hicmp : p.w8 net_ipproto = IP_ICMP) (hlen : p.w16 net_iplen = 20 + n) {j : Nat}
    (hj : 34 ≤ j) : outgoing p j = p.icmpHton.put16 net_iccksum (htons (fold (wideSum (message (zeroed p) n)))) j := by
  have hneUdp : ¬IP_ICMP = IP_UDP := by decide
  have hhton : p.icmpHton.w16 net_iplen = 20 + n := by
    rw [icmpHton_eq, ← hlen]
    rfl
  have hint : (((20 + n : Nat) : Int) - IP_HDR_LEN) = (n : Int) := by
    unfold IP_HDR_LEN
    omega
  rw [outgoing_apply (by unfold net_ipvh; omega) (by unfold net_ipcksum; omega) (by unfold net_ipcksum; omega), flipIp_of_ge hj,
    encapsulated, hicmp, if_neg hneUdp, if_pos rfl, hhton, hint, wideSum_message _ (by omega)]
  rw [put16_put16, icmpCksum, zeroed]

/-- The sum with the checksum that is sent. -/
theorem icmpSum_sent (h4 : 4 ≤ n) (hn : n ≤ 1480) :
    (p.icmpHton.put16 net_iccksum (htons (fold (wideSum (message (zeroed p) n))))).icmpSum net_ictype n =
      wideSum (message (zeroed p) n) + fold (wideSum (message (zeroed p) n)) := by
  obtain ⟨s, hs, hsum⟩ := icmpSum_put16 p.icmpHton h4 (show n ≤ 1500 by omega)
  have hfold : fold s < 65536 := Nat.lt_succ_of_le (Nat.sub_le _ _)
  have hzero : wideSum (message (zeroed p) n) = s := by
    rw [wideSum_message _ (by omega)]
    exact hsum 0 (by decide)
  rw [hzero, hsum _ hfold]

/-- The checksum of RFC 1071 by the wide sum. -/
theorem checksum_eq_fold_iff {bs : List UInt8} (h : wideSum bs < 2 ^ 30) :
    fold (wideSum bs) = OnesComplement.checksum bs ↔ NoCarry (wideSum bs) := by
  have hf := fold_eq_carry (s := wideSum bs) (by omega)
  have hcarry : NoCarry (wideSum bs) ↔ OnesComplement.carry (wideSum bs) < 65536 := Iff.rfl
  have hlt : OnesComplement.carry (wideSum bs) < 131071 := by
    unfold OnesComplement.carry
    omega
  have hsum : OnesComplement.sum bs = OnesComplement.residue (OnesComplement.carry (wideSum bs)) := by
    rw [OnesComplement.sum_eq, OnesComplement.residue_carry, wideSum]
  rw [hf, hcarry, OnesComplement.checksum, hsum]
  unfold OnesComplement.residue
  split_ifs <;> omega

/-- The length field arrives in host order. -/
theorem received_iplen (hr : ∀ j, net_ipvh ≤ j → j < 34 + n → r j = outgoing p j) : r.ipNtoh.w16 net_iplen = p.w16 net_iplen := by
  have hbyte : ∀ j, 16 ≤ j → j < 18 → r.ipNtoh j = p j := by
    intro j hj hj'
    have hin : ∀ j, 16 ≤ j → j < 18 → 14 ≤ flipIp j ∧ flipIp j < 24 := by decide
    obtain ⟨h14, h24⟩ := hin j hj hj'
    rw [ipNtoh_apply, hr _ h14 (by omega), outgoing_apply h14 (by unfold net_ipcksum; omega) (by unfold net_ipcksum; omega),
      flipIp_flipIp, encapsulated_header (by omega)]
  rw [w16, w16, hbyte net_iplen (by decide) (by decide), hbyte (net_iplen + 1) (by decide) (by decide)]

end

/-- The checksum that `ip_out` stores in a message is that of RFC 1071, and the test of `ip_in` succeeds on the message, if and
only if adding in the carry of its sum leaves none behind; the test fails for every message whose sum is not all-1s. -/
theorem icmp_checksum_iff (p : Netpacket) (n : Nat) (h4 : 4 ≤ n) (hn : n ≤ 1480) (hicmp : p.w8 net_ipproto = IP_ICMP)
    (hlen : p.w16 net_iplen = 20 + n) (r : Netpacket) (hr : ∀ j, net_ipvh ≤ j → j < 34 + n → r j = outgoing p j) :
    ((outgoing p).word net_iccksum = OnesComplement.checksum (message (zeroed p) n) ↔
      wideSum (message (zeroed p) n) % 65536 + wideSum (message (zeroed p) n) / 65536 < 65536) ∧
    (r.ipNtoh.icmpCksum net_ictype (r.ipNtoh.w16 net_iplen - IP_HDR_LEN) = 0 ↔
      wideSum (message (zeroed p) n) % 65536 + wideSum (message (zeroed p) n) / 65536 < 65536) ∧
    ∀ q : Netpacket, OnesComplement.sum (message q n) ≠ 0xffff → q.icmpCksum net_ictype n ≠ 0 := by
  have hlt : wideSum (message (zeroed p) n) < 2 ^ 30 := by
    rw [wideSum_message _ (by omega)]
    exact icmpSum_lt _ _ (by omega)
  have hfold : fold (wideSum (message (zeroed p) n)) < 65536 := Nat.lt_succ_of_le (Nat.sub_le _ _)
  refine ⟨?_, ?_, fun q hq hz => hq (sum_message_of_icmpCksum (by omega) hz)⟩
  · have hword : (outgoing p).word net_iccksum = fold (wideSum (message (zeroed p) n)) := by
      rw [word, outgoing_message hn hicmp hlen (by decide), outgoing_message hn hicmp hlen (by decide)]
      exact word_put16_self net_iccksum hfold
    rw [hword]
    exact checksum_eq_fold_iff hlt
  · have hint : ((r.ipNtoh.w16 net_iplen : Int) - IP_HDR_LEN) = (n : Int) := by
      rw [received_iplen hr, hlen]
      unfold IP_HDR_LEN
      omega
    have hsum : r.ipNtoh.icmpSum net_ictype n =
        wideSum (message (zeroed p) n) + fold (wideSum (message (zeroed p) n)) := by
      rw [← icmpSum_sent h4 hn]
      refine icmpSum_congr (by omega) fun j hj hj' => ?_
      unfold net_ictype at hj hj'
      rw [ipNtoh_apply, flipIp_of_ge hj, hr j (by unfold net_ipvh; omega) (by omega), outgoing_message hn hicmp hlen hj]
    have hcarry : NoCarry (wideSum (message (zeroed p) n)) ↔
        wideSum (message (zeroed p) n) % 65536 + wideSum (message (zeroed p) n) / 65536 < 65536 := Iff.rfl
    rw [hint, icmpCksum, hsum, fold_add_fold hlt, ← hcarry]
    split_ifs with h
    · exact iff_of_true rfl h
    · exact iff_of_false (by decide) h

/-- An echo request in host order, without data. -/
def echoRequest (ident : UInt8) : Netpacket := fun j =>
  ([0x45, 0, 28, 0, 0, 0, 0, 0, 64, 1, 0, 0, 127, 0, 0, 1, 127, 0, 0, 1, 8, 0, 0, 0, 0xff, ident, 0x00, 0xf8] :
    List UInt8).getD (j - 14) 0

/-- An echo request whose sum has a carry that does not carry. -/
theorem icmp_checksum_right :
    (outgoing (echoRequest 1)).word net_iccksum = OnesComplement.checksum (message (zeroed (echoRequest 1)) 8) ∧
    (outgoing (echoRequest 1)).ipNtoh.icmpCksum net_ictype ((outgoing (echoRequest 1)).ipNtoh.w16 net_iplen - IP_HDR_LEN) = 0 ∧
    ∀ q : Netpacket, OnesComplement.sum (message q 8) ≠ 0xffff → q.icmpCksum net_ictype ((8 : Nat) : Int) ≠ 0 := by
  obtain ⟨hstored, hreceived, hconverse⟩ :=
    icmp_checksum_iff (echoRequest 1) 8 (by decide) (by decide) (by decide) (by decide) _ fun _ _ _ => rfl
  have hcarry : wideSum (message (zeroed (echoRequest 1)) 8) % 65536 + wideSum (message (zeroed (echoRequest 1)) 8) / 65536 < 65536 := by
    decide
  exact ⟨hstored.mpr hcarry, hreceived.mpr hcarry, hconverse⟩

/-- The checksum of an echo request whose sum is 131071 is not that of RFC 1071, and its receiver drops it. -/
theorem icmp_checksum_carries :
    ¬∀ (p : Netpacket) (n : Nat), 4 ≤ n → n ≤ 1480 → p.w8 net_ipproto = IP_ICMP → p.w16 net_iplen = 20 + n →
      (outgoing p).word net_iccksum = OnesComplement.checksum (message (zeroed p) n) ∧
        (outgoing p).ipNtoh.icmpCksum net_ictype n = 0 := by
  intro hall
  have hstored := (hall (echoRequest 255) 8 (by decide) (by decide) (by decide) (by decide)).1
  have hword : (outgoing (echoRequest 255)).word net_iccksum = fold (wideSum (message (zeroed (echoRequest 255)) 8)) := by
    rw [word, outgoing_message (n := 8) (by decide) (by decide) (by decide) (by decide),
      outgoing_message (n := 8) (by decide) (by decide) (by decide) (by decide)]
    exact word_put16_self net_iccksum (by decide)
  rw [hword] at hstored
  exact absurd hstored (by decide)

end Ip

end Xinu
