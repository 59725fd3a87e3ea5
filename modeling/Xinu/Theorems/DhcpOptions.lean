import Xinu.Net.DhcpMessages
import Xinu.Net.DhcpWalks

/-!
# DHCP options

What the walks over the options of a message find, against the options by the format. A pad and the end mark are fields to the
walks, so that they agree with the format exactly on the messages whose first options they happen to visit, and whose pads and
trailing bytes they do not take for others.
-/

namespace Xinu

namespace Dhcp

open Tagged

/-- What the loop of `getlocalip` has for a code, by the format: what it makes of the first value, and nothing if there is none. -/
def expected (msg : List UInt8) (items : List Item) (c : UInt8) : Nat :=
  ((valueAt c items dc_opt).map fun q => datum (received msg) c q).getD 0

/-- Both loops find what the options are by the format. -/
structure Parsed (msg : List UInt8) (items : List Item) : Prop where
  values : ∀ key, key ≠ padCode → key ≠ endCode →
    dhcpGetOptVal (fun o => msg[o]?) msg.length key = some (valueAt key items dc_opt)
  options : ∃ v, options (fun o => msg[o]?) msg.length = some v ∧ ∀ c ∈ codes, v.get c = expected msg items c

/-- The bytes of the values that the loop of `getlocalip` reads were received. -/
def Inside (msg : List UInt8) : Prop :=
  ∀ p ∈ stops (received msg) msg.length, p + 2 + need (received msg p) ≤ msg.length

/-- The strides through a message keep to its options. -/
structure InStride (msg : List UInt8) (items : List Item) : Prop where
  inside : Inside msg
  /-- They meet the first option with each code. -/
  meets : ∀ key q, valueAt key items dc_opt = some q → ∃ p ∈ stops (received msg) msg.length, q = p + 2
  /-- They meet no other code before. -/
  genuine : ∀ p ∈ stops (received msg) msg.length, received msg p ≠ padCode → received msg p ≠ endCode →
    ∃ q, valueAt (received msg p) items dc_opt = some q ∧ q ≤ p + 2
  /-- The last option that they meet with a code says what the first one does. -/
  repeated : ∀ c ∈ codes, ∀ p, last (fun p => received msg p = c) (stops (received msg) msg.length) = some p →
    ∀ q, valueAt c items dc_opt = some q → datum (received msg) c (p + 2) = datum (received msg) c q

variable {msg : List UInt8} {items : List Item} {rest : List UInt8}

theorem codes_proper {c : UInt8} (hc : c ∈ codes) : c ≠ padCode ∧ c ≠ endCode := by
  have hcases : c = 53 ∨ c = 1 ∨ c = 3 ∨ c = 6 ∨ c = 42 := by simpa [codes] using hc
  rcases hcases with rfl | rfl | rfl | rfl | rfl <;> decide

/-- Where the value of the first option is, its code stands before it. -/
theorem received_of_valueAt (h : msg.drop dc_opt = area items rest) {key : UInt8} {q : Nat}
    (hq : valueAt key items dc_opt = some q) : ∃ p, q = p + 2 ∧ received msg p = key ∧ key ≠ padCode ∧ key ≠ endCode := by
  obtain ⟨p, rfl, -, -, hcode, hproper⟩ := code_of_valueAt h hq
  refine ⟨p, rfl, ?_, hproper⟩
  rw [received, List.getD_eq_getElem?_getD, hcode]
  rfl

theorem find_eq_some_iff {key : UInt8} {p : Nat} :
    (stops (received msg) msg.length).find? (fun p => received msg p = key) = some p ↔
      p ∈ stops (received msg) msg.length ∧ received msg p = key ∧
        ∀ q ∈ stops (received msg) msg.length, received msg q = key → p ≤ q := by
  simpa using find?_eq_some_iff_first (stops_pairwise (received msg) msg.length) (fun p => decide (received msg p = key))

/-- `dhcp_get_opt_val` is right for a code, on a message with its strides on the options. -/
theorem InStride.find (H : InStride msg items) (h : msg.drop dc_opt = area items rest) {key : UInt8} (hpad : key ≠ padCode)
    (hend : key ≠ endCode) : ((stops (received msg) msg.length).find? fun p => received msg p = key).map (· + 2) =
      valueAt key items dc_opt := by
  cases hq : valueAt key items dc_opt with
  | none =>
    rw [Option.map_eq_none_iff, List.find?_eq_none]
    intro p hp hkey
    have hkey' : received msg p = key := by simpa using hkey
    obtain ⟨q, hq', -⟩ := H.genuine p hp (hkey' ▸ hpad) (hkey' ▸ hend)
    rw [hkey', hq] at hq'
    cases hq'
  | some q =>
    obtain ⟨p, hp, rfl⟩ := H.meets key q hq
    obtain ⟨p', hp', hkey, -⟩ := received_of_valueAt h hq
    obtain rfl : p = p' := by omega
    rw [find_eq_some_iff.mpr ⟨hp, hkey, fun p' hp' hkey' => ?_⟩]
    · rfl
    · obtain ⟨q, hq', hle⟩ := H.genuine p' hp' (hkey' ▸ hpad) (hkey' ▸ hend)
      rw [hkey', hq] at hq'
      have := Option.some.inj hq'
      omega

/-- The loop of `getlocalip` is right for its codes there. -/
theorem InStride.options (H : InStride msg items) (h : msg.drop dc_opt = area items rest) :
    ∃ v, options (fun o => msg[o]?) msg.length = some v ∧ ∀ c ∈ codes, v.get c = expected msg items c := by
  refine ⟨_, (options_received msg).trans (if_pos H.inside), fun c hc => ?_⟩
  obtain ⟨hpad, hend⟩ := codes_proper hc
  have hzero : (⟨0, 0, 0, 0, 0⟩ : Options).get c = 0 := by
    unfold Options.get
    split_ifs <;> rfl
  rw [Options.get_foldl_take _ _ _ hc, hzero, expected, ← H.find h hpad hend]
  cases hlast : last (fun p => received msg p = c) (stops (received msg) msg.length) with
  | none =>
    have hnone : (stops (received msg) msg.length).find? (fun p => received msg p = c) = none :=
      List.find?_eq_none.mpr ((last_eq_none_iff _).mp hlast)
    rw [hnone, Option.map_none, Option.map_none, Option.map_none]
  | some p =>
    obtain ⟨hp, hcode, -⟩ := (last_eq_some_iff (stops_pairwise _ _) _).mp hlast
    have hcode' : received msg p = c := by simpa using hcode
    obtain ⟨q, hq, -⟩ := H.genuine p hp (hcode' ▸ hpad) (hcode' ▸ hend)
    rw [hcode'] at hq
    rw [H.find h hpad hend, hq, Option.map_some, Option.map_some, Option.getD_some, Option.getD_some]
    exact H.repeated c hc p hlast q hq

/-- On any message on which both loops are right, the strides keep to the options. -/
theorem InStride.of_parsed (h : msg.drop dc_opt = area items rest) (P : Parsed msg items) : InStride msg items := by
  obtain ⟨v, hv, hget⟩ := P.options
  have hfind : ∀ key, key ≠ padCode → key ≠ endCode →
      ((stops (received msg) msg.length).find? fun p => received msg p = key).map (· + 2) = valueAt key items dc_opt := by
    intro key hpad hend
    exact Option.some.inj ((dhcpGetOptVal_received msg key).symm.trans (P.values key hpad hend))
  rw [options_received] at hv
  split_ifs at hv with hinside
  refine ⟨hinside, ?_, ?_, ?_⟩
  · intro key q hq
    obtain ⟨-, -, -, hpad, hend⟩ := received_of_valueAt h hq
    rw [← hfind key hpad hend, Option.map_eq_some_iff] at hq
    obtain ⟨p, hp, rfl⟩ := hq
    exact ⟨p, (find_eq_some_iff.mp hp).1, rfl⟩
  · intro p hp hpad hend
    cases hp' : (stops (received msg) msg.length).find? fun q => received msg q = received msg p with
    | none =>
      have hno := List.find?_eq_none.mp hp' p hp
      exact absurd (decide_eq_true rfl) hno
    | some p' =>
      have hq := hfind _ hpad hend
      rw [hp'] at hq
      have hle := (find_eq_some_iff.mp hp').2.2 p hp rfl
      exact ⟨p' + 2, hq.symm, by omega⟩
  · intro c hc p hp q hq
    have hvalue := hget c hc
    obtain rfl := Option.some.inj hv
    rw [Options.get_foldl_take _ _ _ hc, hp, expected, hq] at hvalue
    exact hvalue

/-- For every sequence of bytes, `dhcp_get_opt_val` comes to its end within it, and the loop of `getlocalip` comes to its end, within
it if and only if it has the values that are read. On a message with options both loops find what the options are if and only if
the strides keep to them. -/
theorem dhcp_options_iff (msg : List UInt8) :
    ((∀ key, ∃ r, dhcpGetOptVal (fun o => msg[o]?) msg.length key = some r) ∧
      ((∃ v, options (fun o => msg[o]?) msg.length = some v) ↔ Inside msg)) ∧
    ∀ items rest, msg.drop dc_opt = area items rest → (Parsed msg items ↔ InStride msg items) := by
  refine ⟨⟨fun key => ⟨_, dhcpGetOptVal_received msg key⟩, ?_, ?_⟩, fun items rest h => ⟨InStride.of_parsed h, ?_⟩⟩
  · rintro ⟨v, hv⟩
    rw [options_received] at hv
    split_ifs at hv with hinside
    exact hinside
  · intro hinside
    exact ⟨_, (options_received msg).trans (if_pos hinside)⟩
  · intro H
    refine ⟨?_, H.options h⟩
    intro key hpad hend
    rw [dhcpGetOptVal_received, H.find h hpad hend]

/-! ## Pads -/

/-- No message is parsed in which a pad stands before the first option with a code, and only other options before the pad. -/
theorem not_parsed_of_pad {fields : List Tagged.Field} {f : Tagged.Field}
    (h : msg.drop dc_opt = area (fields.map Item.field ++ .pad :: .field f :: items) rest) (hcode : ∀ g ∈ fields, g.code ≠ f.code) :
    ¬Parsed msg (fields.map Item.field ++ .pad :: .field f :: items) := by
  intro P
  obtain ⟨p, hvalue, hp⟩ := pad_hides h hcode
  obtain ⟨p', hp', heq⟩ := (InStride.of_parsed h P).meets _ _ hvalue
  obtain rfl : p = p' := by omega
  exact hp hp'

/-- The strides keep to options without pads, with different codes, long enough values, and nothing but pads behind the end mark. -/
theorem inStride_of_plain {fields : List Tagged.Field} {k : Nat}
    (h : msg.drop dc_opt = area (fields.map Item.field) (List.replicate k padCode))
    (hcodes : (fields.map Tagged.Field.code).Nodup) (hneed : ∀ f ∈ fields, need f.code ≤ f.value.length) :
    InStride msg (fields.map Item.field) := by
  have hsplit : msg.drop dc_opt = fieldBytes fields ++ endCode :: List.replicate k padCode := h
  have hlen := congrArg List.length hsplit
  rw [List.length_drop, List.length_append, List.length_cons, List.length_replicate] at hlen
  have hstops : stops (received msg) msg.length = starts fields dc_opt ++
      walk (lengthStride (received msg)) (msg.length - 1) (dc_opt + (fieldBytes fields).length) := walk_fields fields hsplit (by omega)
  -- behind the options there are the end mark and pads
  have hbehind : ∀ p, dc_opt + (fieldBytes fields).length ≤ p → received msg p = padCode ∨ received msg p = endCode := by
    intro p hp
    obtain ⟨i, rfl⟩ : ∃ i, p = dc_opt + (fieldBytes fields).length + i := ⟨p - (dc_opt + (fieldBytes fields).length), by omega⟩
    rw [received, List.getD_eq_getElem?_getD, getElem?_of_drop (drop_add_of_drop hsplit)]
    cases i with
    | zero => exact .inr rfl
    | succ i =>
      rw [List.getElem?_cons_succ, List.getElem?_replicate]
      split_ifs
      · exact .inl rfl
      · exact .inl rfl
  have hfield : ∀ p ∈ stops (received msg) msg.length, received msg p ≠ padCode → received msg p ≠ endCode →
      ∃ f ∈ fields, received msg p = f.code ∧ valueAt f.code (fields.map Item.field) dc_opt = some (p + 2) ∧
        p + 2 + f.value.length ≤ msg.length := by
    intro p hp hpad hend
    rw [hstops] at hp
    rcases List.mem_append.mp hp with hp | hp
    · obtain ⟨f, hf, hcode, hvalue, hlast⟩ := field_of_mem_starts hsplit hcodes hp
      refine ⟨f, hf, ?_, hvalue, by omega⟩
      rw [received, List.getD_eq_getElem?_getD, hcode]
      rfl
    · rcases hbehind p (walk_bounds hp).1 with h | h
      · exact absurd h hpad
      · exact absurd h hend
  refine ⟨?_, ?_, ?_, ?_⟩
  · intro p hp
    by_cases hneed0 : need (received msg p) = 0
    · have := (stop_bounds hp).2
      omega
    · have hproper : received msg p ≠ padCode ∧ received msg p ≠ endCode :=
        ⟨fun h => hneed0 (by rw [h]; rfl), fun h => hneed0 (by rw [h]; rfl)⟩
      obtain ⟨f, hf, hcode, -, hend⟩ := hfield p hp hproper.1 hproper.2
      have := hneed f hf
      rw [hcode]
      omega
  · intro key q hq
    obtain ⟨p, hp, rfl⟩ := mem_starts_of_valueAt hq
    exact ⟨p, hstops ▸ List.mem_append_left _ hp, rfl⟩
  · intro p hp hpad hend
    obtain ⟨f, -, hcode, hvalue, -⟩ := hfield p hp hpad hend
    exact ⟨p + 2, hcode ▸ hvalue, Nat.le_refl _⟩
  · intro c hc p hp q hq
    obtain ⟨hmem, hcode, -⟩ := (last_eq_some_iff (stops_pairwise _ _) _).mp hp
    have hcode' : received msg p = c := by simpa using hcode
    obtain ⟨hpad, hend⟩ := codes_proper hc
    obtain ⟨f, -, hcodef, hvalue, -⟩ := hfield p hmem (hcode' ▸ hpad) (hcode' ▸ hend)
    rw [← hcodef, hcode', hq] at hvalue
    rw [Option.some.inj hvalue]

/-! ## The requests of the client -/

/-- The walks do not find the options of the client's own messages. -/
theorem requests_not_parsed (ethucast : Nat → UInt8) (dmsg dmsg_offer : Dhcpmsg) {size server_ip : Nat}
    (h : Id.run (dhcpGetOptVal (mem dmsg_offer) size DHCP_SERVER_ID) = some server_ip) :
    (∃ items rest, ((dhcpBldDisc ethucast dmsg).2.bytes (dhcpBldDisc ethucast dmsg).1.toNat).drop dc_opt = area items rest ∧
      ¬Parsed ((dhcpBldDisc ethucast dmsg).2.bytes (dhcpBldDisc ethucast dmsg).1.toNat) items) ∧
    ∃ items rest, ((dhcpBldReq ethucast dmsg dmsg_offer size).2.bytes (dhcpBldReq ethucast dmsg dmsg_offer size).1.toNat).drop
      dc_opt = area items rest ∧
      ¬Parsed ((dhcpBldReq ethucast dmsg dmsg_offer size).2.bytes (dhcpBldReq ethucast dmsg dmsg_offer size).1.toNat) items := by
  have hdisc := drop_dhcpBldDisc ethucast dmsg
  have hreq := drop_dhcpBldReq ethucast dmsg dmsg_offer h
  refine ⟨⟨_, _, hdisc, not_parsed_of_pad hdisc ?_⟩, ⟨_, _, hreq, not_parsed_of_pad hreq ?_⟩⟩
  · intro g hg
    obtain rfl := List.mem_singleton.mp hg
    decide
  · intro g hg
    obtain rfl := List.mem_singleton.mp hg
    exact (by decide : (53 : UInt8) ≠ 50)

/-- The discover message of a client with the hardware address zero. -/
def discoverMessage : List UInt8 := (dhcpBldDisc (fun _ => 0) fun _ => 0).2.bytes (dhcpBldDisc (fun _ => 0) fun _ => 0).1.toNat

theorem dhcp_options_discover : ¬∀ (msg : List UInt8) (items : List Item) (rest : List UInt8),
    msg.drop dc_opt = area items rest → Parsed msg items := by
  intro hall
  have hdisc := drop_dhcpBldDisc (fun _ => 0) fun _ => 0
  refine not_parsed_of_pad hdisc ?_ (hall discoverMessage _ _ hdisc)
  intro g hg
  obtain rfl := List.mem_singleton.mp hg
  decide

/-- A message with its type, a subnet mask, and pads behind the end mark. -/
def plainMessage : List UInt8 := List.replicate dc_opt 0 ++ [53, 1, 5, 1, 4, 255, 255, 255, 0, 255, 0, 0]

theorem dhcp_options_plain : Parsed plainMessage ([(⟨53, [5], by decide, by decide, by decide⟩ : Tagged.Field),
    ⟨1, [255, 255, 255, 0], by decide, by decide, by decide⟩].map Item.field) := by
  have hdrop : plainMessage.drop dc_opt = area ([(⟨53, [5], by decide, by decide, by decide⟩ : Tagged.Field),
      ⟨1, [255, 255, 255, 0], by decide, by decide, by decide⟩].map Item.field) (List.replicate 2 padCode) :=
    List.drop_left' List.length_replicate
  refine ((dhcp_options_iff plainMessage).2 _ _ hdrop).mpr (inStride_of_plain hdrop (by decide) ?_)
  intro f hf
  rcases List.mem_cons.mp hf with rfl | hf
  · decide
  · obtain rfl := List.mem_singleton.mp hf
    decide

end Dhcp

end Xinu
