import Xinu.Net.Packet

/-!
# Byte order and checksums

The conversions between host and network order move bytes, and each is its own inverse. A checksum that is added in as carry once
is zero again at the receiver when the carry does not carry; `ipcksum`, which replaces all-1s by zero, is zero in any case.
-/

namespace Xinu

namespace Netpacket

variable {p q : Netpacket}

/-! ## Conversions -/

theorem flip16_of_ge {o j : Nat} (h : o + 2 ≤ j) : flip16 o j = j := by
  rw [flip16, if_neg (by omega), if_neg (by omega)]

theorem flip32_of_ge {o j : Nat} (h : o + 4 ≤ j) : flip32 o j = j := by
  rw [flip32, if_neg (by omega), if_neg (by omega), if_neg (by omega), if_neg (by omega)]

/-- Where `ip_hton` and `ip_ntoh` take a byte from. -/
def flipIp (j : Nat) : Nat := flip16 16 (flip16 18 (flip16 20 (flip32 26 (flip32 30 j))))

/-- Where `udp_hton` and `udp_ntoh` take a byte from. -/
def flipUdp (j : Nat) : Nat := flip16 34 (flip16 36 (flip16 38 j))

/-- Where `icmp_hton` and `icmp_ntoh` take a byte from. -/
def flipIcmp (j : Nat) : Nat := flip16 36 (flip16 38 (flip16 40 j))

theorem ipHton_eq : p.ipHton = fun j => p (flipIp j) := by
  simp only [ipHton, swap16_eq, swap32_eq]
  rfl

theorem ipNtoh_eq : p.ipNtoh = fun j => p (flipIp j) := ipHton_eq

theorem udpHton_eq : p.udpHton = fun j => p (flipUdp j) := by
  simp only [udpHton, swap16_eq]
  rfl

theorem udpNtoh_eq : p.udpNtoh = fun j => p (flipUdp j) := udpHton_eq

theorem icmpHton_eq : p.icmpHton = fun j => p (flipIcmp j) := by
  simp only [icmpHton, swap16_eq]
  rfl

theorem icmpNtoh_eq : p.icmpNtoh = fun j => p (flipIcmp j) := icmpHton_eq

theorem swap16_apply (o j : Nat) : p.swap16 o j = p (flip16 o j) := congrFun (swap16_eq o) j

theorem ipHton_apply (j : Nat) : p.ipHton j = p (flipIp j) := congrFun ipHton_eq j

theorem ipNtoh_apply (j : Nat) : p.ipNtoh j = p (flipIp j) := congrFun ipNtoh_eq j

theorem udpHton_apply (j : Nat) : p.udpHton j = p (flipUdp j) := congrFun udpHton_eq j

theorem udpNtoh_apply (j : Nat) : p.udpNtoh j = p (flipUdp j) := congrFun udpNtoh_eq j

theorem icmpHton_apply (j : Nat) : p.icmpHton j = p (flipIcmp j) := congrFun icmpHton_eq j

theorem icmpNtoh_apply (j : Nat) : p.icmpNtoh j = p (flipIcmp j) := congrFun icmpNtoh_eq j

/-- The bytes behind the fields of IP stay. -/
theorem flipIp_of_ge {j : Nat} (h : 34 ≤ j) : flipIp j = j := by
  have h1 : flip32 30 j = j := flip32_of_ge h
  have h2 : flip32 26 j = j := flip32_of_ge (by omega)
  have h3 : flip16 20 j = j := flip16_of_ge (by omega)
  have h4 : flip16 18 j = j := flip16_of_ge (by omega)
  have h5 : flip16 16 j = j := flip16_of_ge (by omega)
  rw [flipIp, h1, h2, h3, h4, h5]

theorem flipUdp_of_ge {j : Nat} (h : 40 ≤ j) : flipUdp j = j := by
  have h1 : flip16 38 j = j := flip16_of_ge h
  have h2 : flip16 36 j = j := flip16_of_ge (by omega)
  have h3 : flip16 34 j = j := flip16_of_ge (by omega)
  rw [flipUdp, h1, h2, h3]

theorem flipIcmp_of_ge {j : Nat} (h : 42 ≤ j) : flipIcmp j = j := by
  have h1 : flip16 40 j = j := flip16_of_ge h
  have h2 : flip16 38 j = j := flip16_of_ge (by omega)
  have h3 : flip16 36 j = j := flip16_of_ge (by omega)
  rw [flipIcmp, h1, h2, h3]

/-- The bytes of the IP header move within the header, and not the checksum. -/
theorem flipIp_header : ∀ j < 34, flipIp (flipIp j) = j ∧ flipIp j < 34 ∧ (14 ≤ j → 14 ≤ flipIp j) ∧
    (flipIp j = 24 ↔ j = 24) ∧ (flipIp j = 25 ↔ j = 25) := by
  decide

/-- The bytes of the UDP header move within the header, and not the checksum. -/
theorem flipUdp_header : ∀ j < 42, flipUdp (flipUdp j) = j ∧ flipUdp j < 42 ∧ (flipUdp j < 34 ↔ j < 34) ∧
    (j < 34 → flipUdp j = j) ∧ (flipUdp j = 40 ↔ j = 40) ∧ (flipUdp j = 41 ↔ j = 41) := by
  decide

/-- The bytes of the ICMP header move within the header, those of the checksum among themselves. -/
theorem flipIcmp_header : ∀ j < 42, flipIcmp (flipIcmp j) = j ∧ flipIcmp j < 42 ∧ (flipIcmp j < 34 ↔ j < 34) ∧
    (j < 34 → flipIcmp j = j) ∧ ((flipIcmp j = 36 ∨ flipIcmp j = 37) ↔ (j = 36 ∨ j = 37)) := by
  decide

theorem flipIp_flipIp (j : Nat) : flipIp (flipIp j) = j := by
  by_cases h : j < 34
  · exact (flipIp_header j h).1
  · rw [flipIp_of_ge (j := j) (by omega), flipIp_of_ge (by omega)]

theorem flipUdp_flipUdp (j : Nat) : flipUdp (flipUdp j) = j := by
  by_cases h : j < 42
  · exact (flipUdp_header j h).1
  · rw [flipUdp_of_ge (j := j) (by omega), flipUdp_of_ge (by omega)]

theorem flipIcmp_flipIcmp (j : Nat) : flipIcmp (flipIcmp j) = j := by
  by_cases h : j < 42
  · exact (flipIcmp_header j h).1
  · rw [flipIcmp_of_ge (j := j) (by omega), flipIcmp_of_ge (by omega)]

/-- `ip_ntoh` undoes `ip_hton`. -/
theorem ipNtoh_ipHton (p : Netpacket) : p.ipHton.ipNtoh = p := by
  funext j
  rw [ipNtoh_apply, ipHton_apply, flipIp_flipIp]

/-- `udp_ntoh` undoes `udp_hton`. -/
theorem udpNtoh_udpHton (p : Netpacket) : p.udpHton.udpNtoh = p := by
  funext j
  rw [udpNtoh_apply, udpHton_apply, flipUdp_flipUdp]

/-- `icmp_ntoh` undoes `icmp_hton`. -/
theorem icmpNtoh_icmpHton (p : Netpacket) : p.icmpHton.icmpNtoh = p := by
  funext j
  rw [icmpNtoh_apply, icmpHton_apply, flipIcmp_flipIcmp]

/-- The Ethernet conversion moves the type. -/
theorem ethHton_apply {j : Nat} (h : 14 ≤ j) : p.ethHton j = p j := by
  have hj : flip16 net_ethtype j = j := flip16_of_ge h
  rw [ethHton, swap16_apply, hj]

theorem ethNtoh_apply {j : Nat} (h : 14 ≤ j) : p.ethNtoh j = p j := ethHton_apply h

/-! ## Sums -/

/-- The word at an offset, in network order. -/
def word (p : Netpacket) (o : Nat) : Nat := 256 * (p o).toNat + (p (o + 1)).toNat

/-- The sum of words. -/
def wordSum (p : Netpacket) : Nat → Nat → Nat
  | 0, _ => 0
  | n + 1, o => p.word o + p.wordSum n (o + 2)

theorem word_lt (o : Nat) : p.word o < 65536 := by
  have h0 := (p o).toNat_lt
  have h1 := (p (o + 1)).toNat_lt
  unfold word
  omega

/-- The word that is stored with `htons`. -/
theorem word_put16_self (o : Nat) {v : Nat} (hv : v < 65536) : (p.put16 o (htons v)).word o = v := by
  have h := htons_w16 (p := p.put16 o (htons v)) o
  rw [w16_put16 o (htons_lt v), htons_htons hv] at h
  rw [word, ← h]

theorem word_put16_of_ne {o o' v : Nat} (h : o' + 2 ≤ o ∨ o + 2 ≤ o') : (p.put16 o v).word o' = p.word o' := by
  simp only [word, put16_apply]
  rw [if_neg (by omega), if_neg (by omega), if_neg (by omega), if_neg (by omega)]

/-- The sum depends on the bytes it covers. -/
theorem wordSum_congr (n : Nat) : ∀ {o : Nat}, (∀ j, o ≤ j → j < o + 2 * n → p j = q j) → p.wordSum n o = q.wordSum n o := by
  induction n with
  | zero => exact fun _ => rfl
  | succ n ih =>
    intro o h
    rw [wordSum, wordSum, word, word, h o (by omega) (by omega), h (o + 1) (by omega) (by omega),
      ih fun j hj hj' => h j (by omega) (by omega)]

/-- The bound that keeps a sum of 32 bits from wrapping. -/
theorem wordSum_le (n : Nat) : ∀ o, p.wordSum n o ≤ n * 65535 := by
  induction n with
  | zero => exact fun _ => Nat.le_refl _
  | succ n ih =>
    intro o
    have h1 := word_lt (p := p) o
    have h2 := ih (o + 2)
    rw [wordSum, Nat.succ_mul]
    omega

/-- A word behind a field is not changed with the field. -/
theorem wordSum_put16_of_lt {o v : Nat} (n : Nat) : ∀ {o'}, o + 2 ≤ o' → (p.put16 o v).wordSum n o' = p.wordSum n o' := by
  intro o' h
  refine wordSum_congr n fun j hj _ => ?_
  rw [put16_apply, if_neg (by omega), if_neg (by omega)]

/-- The loop of the checksums. -/
theorem sumLoop_eq (n : Nat) : ∀ {o c : Nat}, c < 2 ^ 32 → p.sumLoop n o c = (c + p.wordSum n o) % 2 ^ 32 := by
  induction n with
  | zero =>
    intro o c hc
    rw [sumLoop, wordSum, Nat.add_zero, Nat.mod_eq_of_lt hc]
  | succ n ih =>
    intro o c hc
    rw [sumLoop, ih (Nat.mod_lt _ (by decide)), htons_w16, wordSum, word, Nat.mod_add_mod, Nat.add_assoc]

/-! ## The sum with its checksum -/

/-- A sum whose carry, added in, does not carry. -/
def NoCarry (s : Nat) : Prop := s % 65536 + s / 65536 < 65536

instance (s : Nat) : Decidable (NoCarry s) := by
  unfold NoCarry
  infer_instance

/-- The checksum of a sum by its halves. -/
theorem fold_eq {h l : Nat} (_ : h < 32768) (hl : l < 65536) : fold (65536 * h + l) = 65535 - (l + h) % 65536 := by
  have hdiv : (65536 * h + l) / 65536 = h := by omega
  rw [fold, hdiv]
  omega

/-- With the checksum the sum is all-1s when the carry does not carry, and zero otherwise. -/
theorem fold_add_fold {s : Nat} (hs : s < 2 ^ 30) : fold (s + fold s) = if NoCarry s then 0 else 65535 := by
  obtain ⟨h, l, hl, rfl⟩ : ∃ h l, l < 65536 ∧ s = 65536 * h + l :=
    ⟨s / 65536, s % 65536, Nat.mod_lt _ (by decide), (Nat.div_add_mod s 65536).symm⟩
  have hh : h < 16384 := by omega
  have hhalves : NoCarry (65536 * h + l) ↔ l + h < 65536 := by
    unfold NoCarry
    omega
  rw [fold_eq (by omega) hl]
  by_cases hc : l + h < 65536
  · have hsum : 65536 * h + l + (65535 - (l + h) % 65536) = 65536 * h + (65535 - h) := by omega
    rw [if_pos (hhalves.mpr hc), hsum, fold_eq (by omega) (by omega)]
    omega
  · have hsum : 65536 * h + l + (65535 - (l + h) % 65536) = 65536 * (h + 1) + (65535 - h) := by omega
    rw [if_neg (mt hhalves.mp hc), hsum, fold_eq (by omega) (by omega)]
    omega

/-- The sum of the IP header, with the word of the checksum apart. -/
theorem wordSum_ip (p : Netpacket) : ∃ s, s ≤ 9 * 65535 ∧ ∀ v < 65536,
    (p.put16 net_ipcksum (htons v)).wordSum 10 net_ipvh = s + v := by
  refine ⟨p.wordSum 5 14 + p.wordSum 4 26, ?_, fun v hv => ?_⟩
  · have h1 := wordSum_le (p := p) 5 14
    have h2 := wordSum_le (p := p) 4 26
    omega
  · have hlow : (p.put16 24 (htons v)).wordSum 5 14 = p.wordSum 5 14 := by
      refine wordSum_congr 5 fun j _ hj => ?_
      rw [put16_apply, if_neg (by omega), if_neg (by omega)]
    have hhigh : (p.put16 24 (htons v)).wordSum 4 26 = p.wordSum 4 26 := wordSum_put16_of_lt 4 (Nat.le_refl _)
    have hself := word_put16_self (p := p) 24 hv
    have hsplit : ∀ r : Netpacket, r.wordSum 10 14 = r.wordSum 5 14 + (r.word 24 + r.wordSum 4 26) := by
      intro r
      simp only [wordSum, Nat.reduceAdd]
      omega
    rw [net_ipcksum, net_ipvh, hsplit, hlow, hhigh, hself]
    omega

/-- The sum of `ipcksum` is that of the words. -/
theorem ipcksum_eq (p : Netpacket) :
    p.ipcksum = if fold (p.wordSum 10 net_ipvh) = 65535 then 0 else fold (p.wordSum 10 net_ipvh) := by
  have h := wordSum_le (p := p) 10 net_ipvh
  rw [ipcksum, sumLoop_eq 10 (by decide), Nat.zero_add, Nat.mod_eq_of_lt (by omega)]

theorem ipcksum_congr (h : ∀ j, net_ipvh ≤ j → j < 34 → p j = q j) : p.ipcksum = q.ipcksum := by
  have hsum : p.wordSum 10 net_ipvh = q.wordSum 10 net_ipvh := wordSum_congr 10 h
  rw [ipcksum_eq, ipcksum_eq, hsum]

/-- The checksum of the IP header is right at the receiver. -/
theorem ipcksum_put16 (p : Netpacket) :
    ((p.put16 net_ipcksum 0).put16 net_ipcksum (htons (p.put16 net_ipcksum 0).ipcksum)).ipcksum = 0 := by
  obtain ⟨s, hs, hsum⟩ := wordSum_ip p
  have hzero : (p.put16 net_ipcksum 0).wordSum 10 net_ipvh = s := hsum 0 (by decide)
  have hfold : fold s ≤ 65535 := Nat.sub_le _ _
  rw [put16_put16, ipcksum_eq (p.put16 net_ipcksum 0), hzero, ipcksum_eq]
  have hback := fold_add_fold (s := s) (by omega)
  by_cases hall : fold s = 65535
  · rw [if_pos hall, hsum 0 (by decide), Nat.add_zero, if_pos hall]
  · rw [if_neg hall, hsum _ (by omega), hback]
    split_ifs <;> first | rfl | omega

/-- The sum of `icmp_cksum` over a number of bytes that fits in a frame. -/
theorem icmpSum_eq (p : Netpacket) (o : Nat) {n : Nat} (hn : n ≤ 1500) :
    p.icmpSum o n = p.wordSum (n / 2) o + if n % 2 = 0 then 0 else 256 * (p (o + 2 * (n / 2))).toNat := by
  have hcount : ((n : Int) / 2).toNat = n / 2 := by omega
  have hodd : ((n : Int) % 2 ≠ 0) ↔ ¬n % 2 = 0 := by omega
  have hsum := wordSum_le (p := p) (n / 2) o
  have hsmall : p.wordSum (n / 2) o ≤ 750 * 65535 := Nat.le_trans hsum (Nat.mul_le_mul_right _ (by omega))
  have hbyte := (p (o + 2 * (n / 2))).toNat_lt
  have hloop : p.sumLoop (n / 2) o 0 = p.wordSum (n / 2) o := by
    rw [sumLoop_eq _ (by decide), Nat.zero_add, Nat.mod_eq_of_lt (by omega)]
  simp only [icmpSum, hcount, hodd, hloop]
  split_ifs with h
  · rfl
  · rw [Nat.mod_eq_of_lt (by omega)]

/-- The sum over a number of bytes that fits in a frame. -/
theorem icmpSum_lt (p : Netpacket) (o : Nat) {n : Nat} (hn : n ≤ 1500) : p.icmpSum o n < 2 ^ 30 := by
  have hwords := Nat.le_trans (wordSum_le (p := p) (n / 2) o) (Nat.mul_le_mul_right _ (show n / 2 ≤ 750 by omega))
  have hbyte := (p (o + 2 * (n / 2))).toNat_lt
  rw [icmpSum_eq p o hn]
  split_ifs <;> omega

/-- The sum depends on the bytes it is taken over. -/
theorem icmpSum_congr {o n : Nat} (hn : n ≤ 1500) (h : ∀ j, o ≤ j → j < o + n → p j = q j) :
    p.icmpSum o n = q.icmpSum o n := by
  rw [icmpSum_eq p o hn, icmpSum_eq q o hn, wordSum_congr (n / 2) fun j hj hj' => h j hj (by omega)]
  by_cases hodd : n % 2 = 0
  · rw [if_pos hodd, if_pos hodd]
  · rw [if_neg hodd, if_neg hodd, h _ (by omega) (by omega)]

/-- The sum of an ICMP message, with the word of the checksum apart. -/
theorem icmpSum_put16 (p : Netpacket) {n : Nat} (h4 : 4 ≤ n) (hn : n ≤ 1500) : ∃ s, s < 2 ^ 30 ∧ ∀ v < 65536,
    (p.put16 net_iccksum (htons v)).icmpSum net_ictype n = s + v := by
  refine ⟨p.word 34 + p.wordSum (n / 2 - 2) 38 + if n % 2 = 0 then 0 else 256 * (p (34 + 2 * (n / 2))).toNat, ?_, fun v hv => ?_⟩
  · have h1 := word_lt (p := p) 34
    have h2 := Nat.le_trans (wordSum_le (p := p) (n / 2 - 2) 38) (Nat.mul_le_mul_right _ (show n / 2 - 2 ≤ 750 by omega))
    have h3 := (p (34 + 2 * (n / 2))).toNat_lt
    split_ifs <;> omega
  · obtain ⟨k, hk⟩ : ∃ k, n / 2 = k + 2 := ⟨n / 2 - 2, by omega⟩
    have hfirst : (p.put16 36 (htons v)).word 34 = p.word 34 := word_put16_of_ne (by omega)
    have hself := word_put16_self (p := p) 36 hv
    have hrest : (p.put16 36 (htons v)).wordSum k 38 = p.wordSum k 38 := wordSum_put16_of_lt k (Nat.le_refl _)
    have hlast : p.put16 36 (htons v) (34 + 2 * (k + 2)) = p (34 + 2 * (k + 2)) := by
      rw [put16_apply, if_neg (by omega), if_neg (by omega)]
    rw [net_iccksum, net_ictype, icmpSum_eq _ _ hn, hk, wordSum, wordSum, hfirst, hself, hrest, hlast, Nat.add_sub_cancel]
    omega

end Netpacket

end Xinu
