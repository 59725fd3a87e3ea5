import Xinu.Lib.TaggedField
import Xinu.Net.Dhcp

/-!
# Walks over options

Both loops over the options of a message visit the same places, in strides that take whatever stands there for a field:
`dhcp_get_opt_val` returns what is behind the first place with the code, and the loop of `getlocalip` keeps what is behind the last
place with each of its codes.
-/

namespace Xinu

namespace Dhcp

open Tagged

/-- The bytes of a message that was received. -/
def received (msg : List UInt8) : Dhcpmsg := fun o => msg.getD o 0

/-- The places of a message that the loops visit. -/
def stops (b : Dhcpmsg) (n : Nat) : List Nat := walk (lengthStride b) (n - 1) dc_opt

/-- The codes that the loop of `getlocalip` takes. -/
def codes : List UInt8 := [53, 1, 3, 6, 42]

/-- The bytes of a value that the loop of `getlocalip` reads. -/
def need (code : UInt8) : Nat := if code = 53 then 1 else if code ∈ codes then 4 else 0

/-- What the loop of `getlocalip` makes of a value. -/
def datum (b : Dhcpmsg) (code : UInt8) (o : Nat) : Nat := if code = 53 then (b o).toNat else Netpacket.htonl (b.w32 o)

namespace Options

/-- What was taken for a code. -/
def get (v : Options) (code : UInt8) : Nat :=
  if code = 53 then v.msgtype
  else if code = 1 then v.addrmask
  else if code = 3 then v.routeraddr
  else if code = 6 then v.dnsaddr
  else v.ntpaddr

/-- Take a value for a code. -/
def set (v : Options) (code : UInt8) (x : Nat) : Options :=
  if code = 53 then { v with msgtype := x }
  else if code = 1 then { v with addrmask := x }
  else if code = 3 then { v with routeraddr := x }
  else if code = 6 then { v with dnsaddr := x }
  else if code = 42 then { v with ntpaddr := x }
  else v

/-- What was taken, with the option at a place. -/
def take (b : Dhcpmsg) (v : Options) (p : Nat) : Options := v.set (b p) (datum b (b p) (p + 2))

theorem get_set (v : Options) (code : UInt8) (x : Nat) {c : UInt8} (hc : c ∈ codes) :
    (v.set code x).get c = if code = c then x else v.get c := by
  have hcases : c = 53 ∨ c = 1 ∨ c = 3 ∨ c = 6 ∨ c = 42 := by simpa [codes] using hc
  unfold set
  rcases hcases with rfl | rfl | rfl | rfl | rfl <;> split_ifs <;> simp_all [get]

/-- What was taken for a code is what is behind the last place with it. -/
theorem get_foldl_take (b : Dhcpmsg) (l : List Nat) (v : Options) {c : UInt8} (hc : c ∈ codes) :
    (l.foldl (take b) v).get c = ((last (fun p => b p = c) l).map fun p => datum b c (p + 2)).getD (v.get c) := by
  induction l using List.reverseRecOn with
  | nil => rfl
  | append_singleton l p ih =>
    rw [List.foldl_append, List.foldl_cons, List.foldl_nil, take, get_set _ _ _ hc, last_concat]
    by_cases hp : b p = c
    · rw [if_pos hp, if_pos (by simpa using hp), hp]
      rfl
    · rw [if_neg hp, ih, if_neg (by simpa using hp)]

end Options

variable {m : Type → Type} [Monad m] [LawfulMonad m] {read : Nat → m UInt8} {b : Dhcpmsg} {n : Nat}

theorem stop_bounds {p : Nat} (h : p ∈ stops b n) : dc_opt ≤ p ∧ p + 1 < n := by
  have := walk_bounds h
  omega

theorem stops_pairwise (b : Dhcpmsg) (n : Nat) : (stops b n).Pairwise (· < ·) := walk_pairwise _ _ _

/-- The loop of `dhcp_get_opt_val` finds the first place with the code. -/
theorem optValLoop_eq (hread : ∀ o < n, read o = pure (b o)) (key : UInt8) (o : Nat) : optValLoop read n key o =
    pure (((walk (lengthStride b) (n - 1) o).find? fun p => b p = key).map (· + 2)) := by
  induction o using optValLoop.induct n with
  | case1 o hlt ih =>
    rw [optValLoop, if_pos hlt, hread o (by omega), hread (o + 1) hlt, walk_of_lt _ (by omega), List.find?_cons]
    simp only [pure_bind]
    by_cases hkey : b o = key
    · simp [hkey]
    · rw [if_neg hkey, ih (b (o + 1))]
      rw [lengthStride, Nat.add_comm 1]
      simp only [hkey, decide_false]
  | case2 o hge =>
    rw [optValLoop, if_neg hge, walk_of_le _ (by omega)]
    rfl

/-- The loop of `getlocalip` takes the options at the places. -/
theorem optionsLoop_eq (hread : ∀ o < n, read o = pure (b o)) (v : Options) (o : Nat) : optionsLoop read n o v =
    (walk (lengthStride b) (n - 1) o).foldlM (fun v p => takeOption read (b p) p v) v := by
  induction o using walk.induct (lengthStride b) (n - 1) generalizing v with
  | case1 o hlt ih =>
    rw [optionsLoop, if_pos (by omega), hread o (by omega), hread (o + 1) (by omega), walk_of_lt _ hlt, List.foldlM_cons]
    simp only [pure_bind]
    refine bind_congr fun v' => ?_
    rw [← ih v', lengthStride, Nat.add_comm 1]
  | case2 o hge =>
    rw [optionsLoop, if_neg (by omega), walk_of_le _ (by omega)]
    rfl

theorem addressAt_eq {o : Nat} (hread : ∀ i < 4, read (o + i) = pure (b (o + i))) :
    addressAt read o = pure (Netpacket.htonl (b.w32 o)) := by
  have h0 := hread 0 (by decide)
  have h1 := hread 1 (by decide)
  have h2 := hread 2 (by decide)
  have h3 := hread 3 (by decide)
  rw [Nat.add_zero] at h0
  simp only [addressAt, h0, h1, h2, h3, pure_bind, Netpacket.w32, Netpacket.w16]

/-- The switch takes the option at a place, if what it needs of the value can be read. -/
theorem takeOption_eq (v : Options) {p : Nat} (hread : ∀ i < need (b p), read (p + 2 + i) = pure (b (p + 2 + i))) :
    takeOption read (b p) p v = pure (v.take b p) := by
  have haddress (h : need (b p) = 4) : addressAt read (p + 2) = pure (Netpacket.htonl (b.w32 (p + 2))) :=
    addressAt_eq fun i hi => hread i (by omega)
  unfold takeOption Options.take Options.set datum
  by_cases h53 : b p = 53
  · have hbyte : read (p + 2) = pure (b (p + 2)) := hread 0 (by rw [h53]; decide)
    rw [if_pos h53, if_pos h53, if_pos h53, hbyte, pure_bind]
  · rw [if_neg h53, if_neg h53, if_neg h53]
    by_cases h1 : b p = 1
    · rw [if_pos h1, if_pos h1, haddress (by rw [h1]; rfl), pure_bind]
    · rw [if_neg h1, if_neg h1]
      by_cases h3 : b p = 3
      · rw [if_pos h3, if_pos h3, haddress (by rw [h3]; rfl), pure_bind]
      · rw [if_neg h3, if_neg h3]
        by_cases h6 : b p = 6
        · rw [if_pos h6, if_pos h6, haddress (by rw [h6]; rfl), pure_bind]
        · rw [if_neg h6, if_neg h6]
          by_cases h42 : b p = 42
          · rw [if_pos h42, if_pos h42, haddress (by rw [h42]; rfl), pure_bind]
          · rw [if_neg h42, if_neg h42]

/-- In the memory of a message the loops come to the options. -/
theorem options_mem (b : Dhcpmsg) (n : Nat) : Id.run (options (mem b) n) = (stops b n).foldl (Options.take b) ⟨0, 0, 0, 0, 0⟩ := by
  have hread : ∀ o < n, mem b o = pure (b o) := fun _ _ => rfl
  have htake : (fun (v : Options) p => takeOption (mem b) (b p) p v) = fun v p => pure (v.take b p) := by
    funext v p
    exact takeOption_eq v fun _ _ => rfl
  rw [options, optionsLoop_eq hread, htake]
  exact List.foldlM_pure

theorem dhcpGetOptVal_mem (b : Dhcpmsg) (n : Nat) (key : UInt8) : Id.run (dhcpGetOptVal (mem b) n key) =
    ((stops b n).find? fun p => b p = key).map (· + 2) := by
  have hread : ∀ o < n, mem b o = pure (b o) := fun _ _ => rfl
  rw [dhcpGetOptVal, optValLoop_eq hread]
  rfl

/-! ## The bytes that were received -/

section

variable {msg : List UInt8}

theorem read_of_lt {o : Nat} (h : o < msg.length) : msg[o]? = some (received msg o) := by
  rw [received, List.getD_eq_getElem?_getD, List.getElem?_eq_getElem h]
  rfl

/-- An option cannot be taken where the bytes of the value that are read were not received. -/
theorem takeOption_eq_none (v : Options) {p : Nat} (hin : p + 2 ≤ msg.length) (h : msg.length < p + 2 + need (received msg p)) :
    takeOption (fun o => msg[o]?) (received msg p) p v = none := by
  have haddress (hneed : need (received msg p) = 4) : addressAt (fun o => msg[o]?) (p + 2) = none := by
    have hnone : msg[p + 2 + 3]? = none := List.getElem?_eq_none (by omega)
    simp only [addressAt, hnone, Option.bind_eq_bind, Option.bind_none]
    cases msg[p + 2]? <;> cases msg[p + 2 + 1]? <;> cases msg[p + 2 + 2]? <;> rfl
  have hpos : need (received msg p) ≠ 0 := by omega
  unfold takeOption
  split_ifs with h53 h1 h3 h6 h42
  · have hneed : need (received msg p) = 1 := by rw [h53]; rfl
    have hnone : (fun o => msg[o]?) (p + 2) = none := List.getElem?_eq_none (by omega)
    rw [hnone]
    rfl
  · rw [haddress (by rw [h1]; rfl)]
    rfl
  · rw [haddress (by rw [h3]; rfl)]
    rfl
  · rw [haddress (by rw [h6]; rfl)]
    rfl
  · rw [haddress (by rw [h42]; rfl)]
    rfl
  · exact absurd (by simp [need, codes, h53, h1, h3, h6, h42]) hpos

theorem foldlM_take_received (l : List Nat) (hin : ∀ p ∈ l, p + 2 ≤ msg.length) (v : Options) :
    l.foldlM (fun v p => takeOption (fun o => msg[o]?) (received msg p) p v) v =
      if ∀ p ∈ l, p + 2 + need (received msg p) ≤ msg.length then some (l.foldl (Options.take (received msg)) v) else none := by
  induction l generalizing v with
  | nil => rw [if_pos fun p hp => absurd hp List.not_mem_nil]; rfl
  | cons p l ih =>
    have hp := hin p List.mem_cons_self
    rw [List.foldlM_cons, List.foldl_cons]
    by_cases hneed : p + 2 + need (received msg p) ≤ msg.length
    · rw [takeOption_eq v fun i hi => read_of_lt (by omega), pure_bind, ih fun q hq => hin q (List.mem_cons_of_mem p hq)]
      refine if_congr ?_ rfl rfl
      rw [List.forall_mem_cons]
      exact (and_iff_right hneed).symm
    · rw [takeOption_eq_none v hp (by omega), if_neg fun hall => hneed (hall p List.mem_cons_self)]
      rfl

/-- `dhcp_get_opt_val` comes to its end in the bytes that were received, whatever they are. -/
theorem dhcpGetOptVal_received (msg : List UInt8) (key : UInt8) : dhcpGetOptVal (fun o => msg[o]?) msg.length key =
    some (((stops (received msg) msg.length).find? fun p => received msg p = key).map (· + 2)) :=
  optValLoop_eq (fun _ h => read_of_lt h) key dc_opt

/-- The loop of `getlocalip` comes to its end, in the bytes that were received if they have the values that it reads. -/
theorem options_received (msg : List UInt8) : options (fun o => msg[o]?) msg.length =
    if ∀ p ∈ stops (received msg) msg.length, p + 2 + need (received msg p) ≤ msg.length then
      some ((stops (received msg) msg.length).foldl (Options.take (received msg)) ⟨0, 0, 0, 0, 0⟩) else none := by
  rw [options, optionsLoop_eq fun _ h => read_of_lt h]
  exact foldlM_take_received _ (fun p hp => (stop_bounds hp).2) _

end

end Dhcp

end Xinu
