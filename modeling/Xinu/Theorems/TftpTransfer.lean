import Mathlib.Data.List.GetD
import Mathlib.Data.List.Infix
import Xinu.Net.Tftp

/-!
# A transfer fetches the file

The server sends blocks of one file, in any order, repeated and mixed with other packets. The bytes stored are at every point the
start of the file: block by block in the loop of `tftpget_mb`, byte by byte in its copy loop, which crosses from one buffer to
the next in the middle of a block.
-/

namespace Xinu

namespace Tftp

/-! ## The buffers as one sequence -/

/-- The bytes of the buffers, one buffer after the other. -/
def contents (mem : Nat → Nat → UInt8) : List Nat → List UInt8
  | [] => []
  | s :: sizes => (List.range s).map (mem 0) ++ contents (fun i => mem (i + 1)) sizes

/-- The buffers hold as many bytes as their sizes say. -/
@[simp] theorem length_contents (sizes : List Nat) : ∀ mem, (contents mem sizes).length = sizes.sum := by
  induction sizes with
  | nil => exact fun _ => rfl
  | cons s sizes ih =>
    intro mem
    simp [contents, ih]

/-- The bytes of two runs of buffers. -/
theorem contents_append (l l' : List Nat) :
    ∀ mem, contents mem (l ++ l') = contents mem l ++ contents (fun i => mem (i + l.length)) l' := by
  induction l with
  | nil => exact fun _ => rfl
  | cons s l ih =>
    intro mem
    simp only [List.cons_append, contents, ih, List.append_assoc, List.length_cons, Nat.add_assoc]

/-- The bytes depend on the memory within the buffers only. -/
theorem contents_congr (sizes : List Nat) : ∀ {mem mem' : Nat → Nat → UInt8},
    (∀ i j, j < sizes.getD i 0 → mem' i j = mem i j) → contents mem' sizes = contents mem sizes := by
  induction sizes with
  | nil => exact fun _ => rfl
  | cons s sizes ih =>
    intro mem mem' h
    have hhead : (List.range s).map (mem' 0) = (List.range s).map (mem 0) :=
      List.map_congr_left fun j hj => h 0 j (by simpa using hj)
    simp only [contents, hhead, ih fun i j hj => h (i + 1) j (by simpa using hj)]

namespace Cursor

/-- The bytes stored so far: the full buffers and the used part of the current one. -/
def held (sizes : List Nat) (c : Cursor) : List UInt8 :=
  contents c.mem (sizes.take c.curr_buf_ind) ++ (List.range c.curr_used).map (c.mem c.curr_buf_ind)

/-- The cursor is inside the buffers, and `filesiz` counts the bytes stored. -/
structure Inside (sizes : List Nat) (c : Cursor) : Prop where
  ind : c.curr_buf_ind < sizes.length
  used : c.curr_used ≤ sizes.getD c.curr_buf_ind 0
  count : c.filesiz = (c.held sizes).length

variable {sizes : List Nat} {c : Cursor}

/-- Where a byte is stored. -/
theorem store_mem (c : Cursor) (b : UInt8) (i j : Nat) :
    (c.store b).mem i j = if i = c.curr_buf_ind ∧ j = c.curr_used then b else c.mem i j := by
  by_cases hi : i = c.curr_buf_ind
  · subst hi
    by_cases hj : j = c.curr_used <;> simp [store, hj]
  · simp [store, hi]

/-- A byte is stored behind the bytes stored so far. -/
theorem held_store (sizes : List Nat) (c : Cursor) (b : UInt8) :
    (c.store b).held sizes = c.held sizes ++ [b] := by
  have hfull : contents (c.store b).mem (sizes.take c.curr_buf_ind) = contents c.mem (sizes.take c.curr_buf_ind) := by
    refine contents_congr _ fun i j hj => ?_
    have hi : i ≠ c.curr_buf_ind := by
      rintro rfl
      rw [List.getD_eq_default _ _ (List.length_take_le _ _)] at hj
      exact absurd hj (Nat.not_lt_zero _)
    simp [store_mem, hi]
  have hcur : (List.range c.curr_used).map ((c.store b).mem c.curr_buf_ind) =
      (List.range c.curr_used).map (c.mem c.curr_buf_ind) := by
    refine List.map_congr_left fun j hj => ?_
    have : j ≠ c.curr_used := by simp at hj; omega
    simp [store_mem, this]
  have hnew : (c.store b).mem c.curr_buf_ind c.curr_used = b := by simp [store_mem]
  have hi : (c.store b).curr_buf_ind = c.curr_buf_ind := rfl
  have hu : (c.store b).curr_used = c.curr_used + 1 := rfl
  unfold held
  rw [hi, hu, List.range_succ, List.map_append, hfull, hcur, List.map_singleton, hnew, List.append_assoc]

/-- A buffer that is full is one of the full buffers. -/
theorem held_next (hind : c.curr_buf_ind < sizes.length) (hfull : c.curr_used = sizes.getD c.curr_buf_ind 0) :
    ({ c with curr_buf_ind := c.curr_buf_ind + 1, curr_used := 0 } : Cursor).held sizes = c.held sizes := by
  have hd : sizes.getD c.curr_buf_ind 0 = sizes[c.curr_buf_ind] := by simp [hind]
  unfold held
  simp only [List.range_zero, List.map_nil, List.append_nil]
  rw [List.take_succ_eq_append_getElem hind, contents_append, hfull, hd]
  simp [contents, Nat.min_eq_left hind.le]

/-- What is stored is the start of the buffers. -/
theorem held_prefix (h : c.Inside sizes) : c.held sizes <+: contents c.mem sizes := by
  have hind := h.ind
  have hd : sizes.getD c.curr_buf_ind 0 = sizes[c.curr_buf_ind] := by simp [hind]
  obtain ⟨m, hm⟩ := Nat.exists_eq_add_of_le (hd ▸ h.used)
  have hcur : (List.range c.curr_used).map (c.mem c.curr_buf_ind) <+:
      (List.range sizes[c.curr_buf_ind]).map (c.mem c.curr_buf_ind) := by
    rw [hm, List.range_add]
    exact (List.prefix_append _ _).map _
  have hsplit : contents c.mem sizes = contents c.mem (sizes.take c.curr_buf_ind) ++
      ((List.range sizes[c.curr_buf_ind]).map (c.mem c.curr_buf_ind) ++
        contents (fun i => c.mem (i + 1 + c.curr_buf_ind)) (sizes.drop (c.curr_buf_ind + 1))) := by
    conv_lhs => rw [← List.take_append_drop c.curr_buf_ind sizes, List.drop_eq_getElem_cons h.ind, contents_append]
    simp [contents, Nat.min_eq_left h.ind.le]
  rw [hsplit]
  exact (List.prefix_append_right_inj _).mpr (hcur.trans (List.prefix_append _ _))

/-- After a byte the cursor is still inside. -/
theorem Inside.store (h : c.Inside sizes) (hroom : c.curr_used < sizes.getD c.curr_buf_ind 0) (b : UInt8) :
    (c.store b).Inside sizes where
  ind := h.ind
  used := hroom
  count := by
    rw [held_store, List.length_append, ← h.count]
    rfl

/-- The cursor moves to the next buffer. -/
theorem Inside.next (h : c.Inside sizes) (hfull : c.curr_used = sizes.getD c.curr_buf_ind 0)
    (hmore : c.curr_buf_ind + 1 < sizes.length) :
    ({ c with curr_buf_ind := c.curr_buf_ind + 1, curr_used := 0 } : Cursor).Inside sizes where
  ind := hmore
  used := Nat.zero_le _
  count := by rw [held_next h.ind hfull, ← h.count]

end Cursor

/-- Nothing behind the end of a buffer differs. -/
def Kept (sizes : List Nat) (mem mem' : Nat → Nat → UInt8) : Prop :=
  ∀ i j, sizes.getD i 0 ≤ j → mem' i j = mem i j

theorem Kept.refl (sizes : List Nat) (mem : Nat → Nat → UInt8) : Kept sizes mem mem := fun _ _ _ => rfl

theorem Kept.trans {sizes : List Nat} {mem mem' mem'' : Nat → Nat → UInt8} (h : Kept sizes mem mem')
    (h' : Kept sizes mem' mem'') : Kept sizes mem mem'' := fun i j hj => (h' i j hj).trans (h i j hj)

/-- A byte stored inside a buffer. -/
theorem Kept.store {sizes : List Nat} (c : Cursor) (hroom : c.curr_used < sizes.getD c.curr_buf_ind 0) (b : UInt8) :
    Kept sizes c.mem (c.store b).mem := by
  intro i j hj
  have hne : ¬(i = c.curr_buf_ind ∧ j = c.curr_used) := by
    rintro ⟨rfl, rfl⟩
    omega
  rw [Cursor.store_mem, if_neg hne]

/-! ## The copy loop -/

/-- What the copy loop leaves: all the data is stored, or the buffers are full before its end. -/
def Copied (sizes : List Nat) (data : List UInt8) (c : Cursor) : Bool × Cursor → Prop
  | (false, c') => c'.Inside sizes ∧ c'.held sizes = c.held sizes ++ data
  | (true, c') => ∃ m, m < data.length ∧ contents c'.mem sizes = c.held sizes ++ data.take m ∧ c'.filesiz = sizes.sum

/-- A byte in front of what a later part of the loop copies. -/
theorem Copied.cons {sizes : List Nat} {data : List UInt8} {b : UInt8} {c c₁ : Cursor} {r : Bool × Cursor}
    (hheld : c₁.held sizes = c.held sizes ++ [b]) (h : Copied sizes data c₁ r) : Copied sizes (b :: data) c r := by
  obtain ⟨full, c'⟩ := r
  cases full with
  | false => exact ⟨h.1, by rw [h.2, hheld, List.append_assoc, List.singleton_append]⟩
  | true =>
    obtain ⟨m, hm, hcont, hcount⟩ := h
    refine ⟨m + 1, Nat.succ_lt_succ hm, ?_, hcount⟩
    rw [hcont, hheld, List.append_assoc, List.singleton_append, List.take_succ_cons]

/-- The copy loop stores the data in order, until the buffers are full, and nothing outside the buffers. -/
theorem copyLoop_copied {sizes : List Nat} (hpos : ∀ s ∈ sizes, 0 < s) (data : List UInt8) :
    ∀ {c : Cursor}, c.Inside sizes →
      Copied sizes data c (copyLoop sizes data c) ∧ Kept sizes c.mem (copyLoop sizes data c).2.mem := by
  induction data with
  | nil => exact fun {c} h => ⟨⟨h, (List.append_nil _).symm⟩, Kept.refl _ _⟩
  | cons b data ih =>
    intro c h
    by_cases hroom : c.curr_used < sizes.getD c.curr_buf_ind 0
    · -- room in the current buffer
      rw [copyLoop, if_neg (by omega)]
      obtain ⟨hcopied, hkept⟩ := ih (h.store hroom b)
      exact ⟨hcopied.cons (Cursor.held_store sizes c b), (Kept.store c hroom b).trans hkept⟩
    · have hfull : c.curr_used = sizes.getD c.curr_buf_ind 0 := le_antisymm h.used (by omega)
      rw [copyLoop, if_pos (by omega)]
      by_cases hlast : c.curr_buf_ind + 1 ≥ sizes.length
      · -- the last buffer is full
        rw [if_pos hlast]
        have hsame := Cursor.held_next h.ind hfull
        have hall : contents c.mem sizes = c.held sizes := by
          rw [← hsame, Cursor.held]
          simp [List.take_of_length_le hlast]
        refine ⟨⟨0, Nat.succ_pos _, ?_, ?_⟩, Kept.refl _ _⟩
        · simpa using hall
        · rw [h.count, ← hall, length_contents]
      · -- on to the next buffer, which has room
        rw [if_neg hlast]
        have hind : c.curr_buf_ind + 1 < sizes.length := by omega
        have hnext := h.next hfull hind
        have hroom' : 0 < sizes.getD (c.curr_buf_ind + 1) 0 := by
          simpa [hind] using hpos _ (List.getElem_mem hind)
        obtain ⟨hcopied, hkept⟩ := ih (hnext.store hroom' b)
        have hstored := Kept.store { c with curr_buf_ind := c.curr_buf_ind + 1, curr_used := 0 } hroom' b
        refine ⟨hcopied.cons ?_, hstored.trans hkept⟩
        rw [Cursor.held_store, Cursor.held_next h.ind hfull]

/-! ## Receiving a block -/

/-- Block `k` of a file. -/
def block (file : List UInt8) (k : Nat) : List UInt8 := (file.drop (512 * (k - 1))).take 512

/-- A data packet with the number of a block of the file carries that block. -/
def Carries (file b : List UInt8) : Prop :=
  4 ≤ b.length → ntohs b 0 = TFTP_DATA → 1 ≤ ntohs b 2 → 512 * (ntohs b 2 - 1) ≤ file.length →
    b.drop 4 = block file (ntohs b 2)

instance (file b : List UInt8) : Decidable (Carries file b) := by
  unfold Carries
  infer_instance

/-- A field in the part of a datagram that is received. -/
theorem ntohs_take {b : List UInt8} {o : Nat} (ho : o + 1 < MSGSIZE) : ntohs (b.take MSGSIZE) o = ntohs b o := by
  have h0 : (b.take MSGSIZE).getD o 0 = b.getD o 0 := by
    simp only [List.getD_eq_getElem?_getD]
    rw [List.getElem?_take_of_lt (by omega)]
  have h1 : (b.take MSGSIZE).getD (o + 1) 0 = b.getD (o + 1) 0 := by
    simp only [List.getD_eq_getElem?_getD]
    rw [List.getElem?_take_of_lt ho]
  rw [ntohs, h0, h1, ntohs]

/-- A message that was received is the start of a data packet with the expected block number. -/
def Taken (expected : Nat) (recv : List Received) (inmsg : List UInt8) : Prop :=
  ∃ b, .datagram b ∈ recv ∧ inmsg = b.take MSGSIZE ∧ 4 ≤ b.length ∧ ntohs b 0 = TFTP_DATA ∧ ntohs b 2 = expected

theorem Taken.mono {expected : Nat} {recv recv' : List Received} {inmsg : List UInt8} (hsub : recv' ⊆ recv)
    (h : Taken expected recv' inmsg) : Taken expected recv inmsg := by
  obtain ⟨b, hb, hrest⟩ := h
  exact ⟨b, hsub hb, hrest⟩

/-- The data of the expected block. -/
theorem Taken.block_eq {file : List UInt8} {expected : Nat} {recv : List Received} {inmsg : List UInt8}
    (h : Taken expected recv inmsg) (hrecv : ∀ b, .datagram b ∈ recv → Carries file b) (hexp : 1 ≤ expected)
    (hin : 512 * (expected - 1) ≤ file.length) : inmsg.drop 4 = block file expected := by
  obtain ⟨b, hb, rfl, hlen, hop, hblk⟩ := h
  have hdata := hrecv b hb hlen hop (hblk ▸ hexp) (hblk ▸ hin)
  rw [hblk] at hdata
  -- the datagram is not longer than what is received of it
  have hshort : b.length ≤ MSGSIZE := by
    have := congrArg List.length hdata
    simp only [List.length_drop, block, List.length_take] at this
    unfold MSGSIZE
    omega
  rw [List.take_of_length_le hshort, hdata]

/-- A packet that `tftp_send1` takes carries the expected block number, and what it does not read stays. -/
theorem recvLoop_taken {expected : Nat} {n : Int} {inmsg : List UInt8} {recv' : List Received} (recv : List Received)
    (h : recvLoop expected recv = some (n, inmsg, recv')) :
    recv' <:+ recv ∧ (0 < n → Taken expected recv inmsg) := by
  induction recv with
  | nil => exact absurd h (by simp [recvLoop])
  | cons r recv ih =>
    have hcons : recv <:+ r :: recv := List.suffix_cons _ _
    have hskip : recvLoop expected recv = some (n, inmsg, recv') →
        recv' <:+ r :: recv ∧ (0 < n → Taken expected (r :: recv) inmsg) := fun h' =>
      ⟨(ih h').1.trans hcons, fun hn => ((ih h').2 hn).mono hcons.subset⟩
    cases r with
    | syserr =>
      obtain ⟨rfl, rfl, rfl⟩ := by simpa [recvLoop] using h
      exact ⟨hcons, fun hn => absurd hn (by decide)⟩
    | timeout =>
      obtain ⟨rfl, rfl, rfl⟩ := by simpa [recvLoop] using h
      exact ⟨hcons, fun hn => absurd hn (by decide)⟩
    | datagram b =>
      simp only [recvLoop] at h
      split at h
      · exact hskip h
      · rename_i hlen
        split at h
        · obtain ⟨rfl, rfl, rfl⟩ := by simpa using h
          exact ⟨hcons, fun hn => absurd hn (by decide)⟩
        · split at h
          · rename_i hdata
            obtain ⟨rfl, rfl, rfl⟩ := by simpa using h
            rw [ntohs_take (by decide), ntohs_take (by decide)] at hdata
            rw [List.length_take] at hlen
            exact ⟨hcons, fun _ => ⟨b, List.mem_cons_self, rfl, by omega, hdata⟩⟩
          · exact hskip h

/-- What sending and receiving leave of the network: no slot is released, and nothing is received that was not to come. -/
structure Onward (net net' : Net) : Prop where
  recv : net'.recv <:+ net.recv
  released : net'.released = net.released
  send : net'.send.length ≤ net.send.length

theorem Onward.refl (net : Net) : Onward net net := ⟨List.suffix_refl _, rfl, le_refl _⟩

theorem Onward.trans {net net' net'' : Net} (h : Onward net net') (h' : Onward net' net'') : Onward net net'' :=
  ⟨h'.recv.trans h.recv, h'.released.trans h.released, h'.send.trans h.send⟩

/-- A send uses up an outcome. -/
theorem udpSendto_onward {net net' : Net} {msg : List UInt8} {ok : Bool} (h : udpSendto net msg = some (ok, net')) :
    Onward net net' ∧ net'.send.length < net.send.length := by
  unfold udpSendto at h
  split at h
  · exact absurd h (by simp)
  · rename_i o send hsend
    obtain ⟨rfl, rfl⟩ := by simpa using h
    exact ⟨⟨List.suffix_refl _, rfl, by simp [hsend]⟩, by simp [hsend]⟩

/-- `tftp_send1` sends, and returns a positive number for the expected block only. -/
theorem tftpSend1_taken {expected : Nat} {net net' : Net} {msg inmsg : List UInt8} {n : Int}
    (h : tftpSend1 net msg expected = some (n, inmsg, net')) :
    Onward net net' ∧ net'.send.length < net.send.length ∧ (0 < n → Taken expected net.recv inmsg) := by
  obtain ⟨⟨ok, net₁⟩, hs, h⟩ := Option.bind_eq_some_iff.mp h
  obtain ⟨hon, hlt⟩ := udpSendto_onward hs
  cases ok with
  | false =>
    obtain ⟨rfl, rfl, rfl⟩ := by simpa using h
    exact ⟨hon, hlt, fun hn => absurd hn (by decide)⟩
  | true =>
    obtain ⟨⟨n₁, inmsg₁, recv'⟩, hr, h⟩ := Option.bind_eq_some_iff.mp h
    obtain ⟨rfl, rfl, rfl⟩ := by simpa using h
    obtain ⟨hsuf, htaken⟩ := recvLoop_taken net₁.recv hr
    exact ⟨⟨hsuf.trans hon.recv, hon.released, hon.send⟩, hlt, fun hn => (htaken hn).mono hon.recv.subset⟩

/-- The retransmission loop ends with the expected block, after a send, or with a failure. -/
theorem retryLoop_taken {expected : Nat} {msg : List UInt8} {answer : Answer} {net' : Net} (i : Nat) : ∀ {net : Net},
    retryLoop msg expected i net = some (answer, net') →
      Onward net net' ∧
        ∀ inmsg, answer = .got inmsg → net'.send.length < net.send.length ∧ Taken expected net.recv inmsg := by
  induction i with
  | zero =>
    intro net h
    obtain ⟨rfl, rfl⟩ := by simpa [retryLoop] using h
    exact ⟨Onward.refl _, fun inmsg hgot => nomatch hgot⟩
  | succ i ih =>
    intro net h
    obtain ⟨⟨n, inmsg, net₁⟩, hs, h⟩ := Option.bind_eq_some_iff.mp h
    obtain ⟨hon, hlt, htaken⟩ := tftpSend1_taken hs
    simp only at h
    split at h
    · rename_i hn
      obtain ⟨rfl, rfl⟩ := by simpa using h
      refine ⟨hon, fun inmsg' hgot => ?_⟩
      obtain rfl := Answer.got.inj hgot
      exact ⟨hlt, htaken hn⟩
    · split at h
      · obtain ⟨rfl, rfl⟩ := by simpa using h
        exact ⟨hon, fun inmsg' hgot => nomatch hgot⟩
      · -- a timeout: the request is sent again
        obtain ⟨hon', hgot⟩ := ih h
        exact ⟨hon.trans hon', fun inmsg' e =>
          ⟨(hgot inmsg' e).1.trans_le hon.send, (hgot inmsg' e).2.mono hon.recv.subset⟩⟩

/-! ## The transfer -/

/-- The bytes stored are the blocks before the expected one. -/
structure Progress (file : List UInt8) (sizes : List Nat) (expected : Nat) (c : Cursor) : Prop where
  inside : c.Inside sizes
  held : c.held sizes = file.take (512 * (expected - 1))
  within : 512 * (expected - 1) ≤ file.length
  first : 1 ≤ expected

/-- The return value: a failure, or the number of bytes of the file that fit, and they are in the buffers. -/
def Fetched (file : List UInt8) (sizes : List Nat) (n : Int) (mem : Nat → Nat → UInt8) : Prop :=
  0 ≤ n → n = (min file.length sizes.sum : Nat) ∧
    (contents mem sizes).take (min file.length sizes.sum) = file.take (min file.length sizes.sum)

/-- The start of a file that ends with a given block. -/
theorem take_block (file : List UInt8) {k : Nat} (hk : 1 ≤ k) :
    file.take (512 * (k - 1)) ++ block file k = file.take (512 * k) := by
  have : 512 * k = 512 * (k - 1) + 512 := by omega
  rw [this, List.take_add, block]

/-- A full last buffer ends a transfer with the part of the file that fits. -/
theorem Progress.full {file : List UInt8} {sizes : List Nat} {expected : Nat} {c c' : Cursor} (h : Progress file sizes expected c)
    (hc : Copied sizes (block file expected) c (true, c')) : Fetched file sizes c'.filesiz c'.mem := by
  obtain ⟨m, hm, hcont, hcount⟩ := hc
  have hstart : contents c'.mem sizes <+: file := by
    rw [hcont, h.held]
    have := (List.prefix_append_right_inj (file.take (512 * (expected - 1)))).mpr (List.take_prefix m (block file expected))
    exact this.trans (take_block file h.first ▸ List.take_prefix _ _)
  have hsum : sizes.sum ≤ file.length := by
    rw [← length_contents sizes c'.mem]
    exact hstart.length_le
  intro _
  rw [Nat.min_eq_right hsum, hcount]
  refine ⟨rfl, ?_⟩
  rw [List.prefix_iff_eq_take.mp hstart, length_contents, List.take_take, Nat.min_self]

/-- The last block ends a transfer with the whole file. -/
theorem Progress.last {file : List UInt8} {sizes : List Nat} {expected : Nat} {c c' : Cursor} (h : Progress file sizes expected c)
    (hc : Copied sizes (block file expected) c (false, c')) (hshort : (block file expected).length < 512) :
    Fetched file sizes c'.filesiz c'.mem := by
  have hend : file.length ≤ 512 * expected := by
    have := h.first
    simp only [block, List.length_take, List.length_drop] at hshort
    omega
  have hall : c'.held sizes = file := by
    rw [hc.2, h.held, take_block file h.first, List.take_of_length_le hend]
  have hstart := Cursor.held_prefix hc.1
  rw [hall] at hstart
  have hsum : file.length ≤ sizes.sum := by
    rw [← length_contents sizes c'.mem]
    exact hstart.length_le
  intro _
  rw [Nat.min_eq_left hsum, hc.1.count, hall]
  refine ⟨rfl, ?_⟩
  rw [← List.prefix_iff_eq_take.mp hstart, List.take_length]

/-- A full block is followed by the next one. -/
theorem Progress.next {file : List UInt8} {sizes : List Nat} {expected : Nat} {c c' : Cursor} (h : Progress file sizes expected c)
    (hc : Copied sizes (block file expected) c (false, c')) (hlong : ¬(block file expected).length < 512) :
    Progress file sizes (expected + 1) c' where
  inside := hc.1
  held := by rw [hc.2, h.held, take_block file h.first, Nat.add_sub_cancel]
  within := by
    have := h.first
    simp only [block, List.length_take, List.length_drop] at hlong
    omega
  first := Nat.le_add_left _ _

/-- A transfer that ends: the slot is released once, the buffers hold what fits of the file, and nothing else is stored. -/
theorem getLoop_fetched {file : List UInt8} (hfile : file.length / 512 + 1 < 65536) {sizes : List Nat}
    (hpos : ∀ s ∈ sizes, 0 < s) (sock : Int) {n : Int} {c' : Cursor} {net' : Net} (turns : Nat) :
    ∀ {outmsg : List UInt8} {expected : Nat} {c : Cursor} {net : Net}, Progress file sizes expected c →
      (∀ b, .datagram b ∈ net.recv → Carries file b) →
      getLoop sock sizes turns outmsg expected c net = some (n, c', net') →
      Fetched file sizes n c'.mem ∧ Kept sizes c.mem c'.mem ∧ net'.released = net.released ++ [sock] := by
  induction turns with
  | zero =>
    intro outmsg expected c net _ _ h
    exact absurd h (by simp [getLoop])
  | succ turns ih =>
    intro outmsg expected c net hp hrecv h
    obtain ⟨⟨answer, net₁⟩, hr, h⟩ := Option.bind_eq_some_iff.mp h
    obtain ⟨hon, hgot⟩ := retryLoop_taken _ hr
    have hreleased : (udpRelease net₁ sock).released = net.released ++ [sock] := by rw [udpRelease, hon.released]
    have hfailed : Fetched file sizes SYSERR c.mem := fun hn => absurd hn (by decide)
    cases answer with
    | failed =>
      obtain ⟨rfl, rfl, rfl⟩ := by simpa using h
      exact ⟨hfailed, Kept.refl _ _, hreleased⟩
    | exceeded =>
      obtain ⟨rfl, rfl, rfl⟩ := by simpa using h
      exact ⟨hfailed, Kept.refl _ _, hreleased⟩
    | got inmsg =>
      have hdata := (hgot inmsg rfl).2.block_eq hrecv hp.first hp.within
      obtain ⟨hcopied, hkept⟩ := copyLoop_copied hpos (block file expected) hp.inside
      simp only [hdata] at h
      generalize copyLoop sizes (block file expected) c = r at h hcopied hkept
      obtain ⟨full, c₁⟩ := r
      cases full with
      | true =>
        obtain ⟨rfl, rfl, rfl⟩ := by simpa using h
        exact ⟨hp.full hcopied, hkept, hreleased⟩
      | false =>
        by_cases hshort : (block file expected).length < 512
        · simp only [Bool.false_eq_true, if_false, hshort, if_true] at h
          obtain ⟨⟨ok, net₂⟩, hs, h⟩ := Option.bind_eq_some_iff.mp h
          obtain ⟨rfl, rfl, rfl⟩ := by simpa using h
          refine ⟨?_, hkept, ?_⟩
          · cases ok with
            | false => exact fun hn => absurd hn (by simp [SYSERR])
            | true => exact hp.last hcopied hshort
          · rw [udpRelease, (udpSendto_onward hs).1.released, hon.released]
        · simp only [Bool.false_eq_true, if_false, hshort] at h
          have hnext := hp.next hcopied hshort
          have hmod : (expected + 1) % 65536 = expected + 1 := by
            have := hnext.within
            exact Nat.mod_eq_of_lt (by omega)
          rw [hmod] at h
          obtain ⟨hf, hk, hrel⟩ := ih hnext (fun b hb => hrecv b (hon.recv.subset hb)) h
          exact ⟨hf, hkept.trans hk, by rw [hrel, hon.released]⟩

/-- Every turn sends a message, so as many turns are enough as the network has outcomes for. -/
theorem getLoop_turns (sock : Int) (sizes : List Nat) (turns : Nat) : ∀ {outmsg : List UInt8} {expected : Nat} {c : Cursor}
    {net : Net}, net.send.length < turns →
      getLoop sock sizes (turns + 1) outmsg expected c net = getLoop sock sizes turns outmsg expected c net := by
  induction turns with
  | zero =>
    intro outmsg expected c net hlt
    exact absurd hlt (Nat.not_lt_zero _)
  | succ turns ih =>
    intro outmsg expected c net hlt
    rw [getLoop, getLoop]
    refine Option.bind_congr fun ⟨answer, net₁⟩ hr => ?_
    cases answer with
    | failed => rfl
    | exceeded => rfl
    | got inmsg =>
      have hsent := ((retryLoop_taken _ hr).2 inmsg rfl).1
      simp only [ih (show net₁.send.length < turns by omega)]

/-- The arguments that `tftpget_mb` registers a slot for. -/
structure Accepted (serverip : Nat) (filename : Option (List UInt8)) (bufs : List RcvBuf) : Prop where
  server : serverip ≠ 0
  some_buf : bufs ≠ []
  bufs : ∀ b ∈ bufs, b.null = false ∧ 0 < b.size
  filename : ∃ name, filename = some name ∧ 0 < name.length ∧ name.length ≤ TFTP_MAXNAM

/-- For every sequence of packets in which the data packets carry blocks of one file, and for all buffers: a return value that is
not negative is the size of the file or of the buffers, and so many bytes of the file are in the buffers; nothing is stored
behind the end of a buffer; and the slot that was registered is released. -/
theorem tftp_transfer {file : List UInt8} (hfile : file.length / 512 + 1 < 65536) {serverip : Nat}
    {filename : Option (List UInt8)} {bufs : List RcvBuf} {mem mem' : Nat → Nat → UInt8} {sock n : Int} {net net' : Net}
    (hrecv : ∀ b, .datagram b ∈ net.recv → Carries file b)
    (h : tftpgetMb serverip filename bufs mem sock net = some (n, mem', net')) :
    Fetched file (bufs.map RcvBuf.size) n mem' ∧ Kept (bufs.map RcvBuf.size) mem mem' ∧
      (Accepted serverip filename bufs → sock ≠ SYSERR → net'.released = net.released ++ [sock]) := by
  have hrefused : some (SYSERR, mem, net) = some (n, mem', net') →
      Fetched file (bufs.map RcvBuf.size) n mem' ∧ Kept (bufs.map RcvBuf.size) mem mem' := by
    intro e
    obtain ⟨rfl, rfl, rfl⟩ := by simpa using e
    exact ⟨fun hn => absurd hn (by decide), Kept.refl _ _⟩
  cases filename with
  | none => exact ⟨(hrefused h).1, (hrefused h).2, fun ha => by simpa using ha.filename⟩
  | some name =>
    simp only [tftpgetMb] at h
    split at h
    · rename_i hbad
      refine ⟨(hrefused h).1, (hrefused h).2, fun ha => ?_⟩
      rcases hbad with hbad | hbad | hbad
      · exact absurd hbad ha.server
      · exact absurd hbad ha.some_buf
      · obtain ⟨b, hb, hbad⟩ := List.any_eq_true.mp hbad
        have := ha.bufs b hb
        simp [this.1, this.2.ne'] at hbad
    · rename_i hargs
      split at h
      · rename_i hbad
        refine ⟨(hrefused h).1, (hrefused h).2, fun ha => ?_⟩
        obtain ⟨name', e, hlen⟩ := ha.filename
        obtain rfl := Option.some.inj e
        omega
      · split at h
        · rename_i hsock
          exact ⟨(hrefused h).1, (hrefused h).2, fun _ hne => absurd hsock hne⟩
        · obtain ⟨⟨n₁, c, net₁⟩, hl, h⟩ := Option.bind_eq_some_iff.mp h
          obtain ⟨rfl, rfl, rfl⟩ := by simpa using h
          simp only [not_or, List.any_eq_true, not_exists, not_and] at hargs
          have hpos : ∀ s ∈ bufs.map RcvBuf.size, 0 < s := by
            intro s hs
            obtain ⟨b, hb, rfl⟩ := List.mem_map.mp hs
            have := hargs.2.2 b hb
            simp at this
            omega
          have hstart : Progress file (bufs.map RcvBuf.size) 1 ⟨mem, 0, 0, 0⟩ :=
            ⟨⟨by simpa using List.length_pos_iff.mpr hargs.2.1, Nat.zero_le _, rfl⟩, rfl, Nat.zero_le _, le_refl _⟩
          obtain ⟨hf, hk, hrel⟩ := getLoop_fetched hfile hpos sock _ hstart hrecv hl
          exact ⟨hf, hk, fun _ _ => hrel⟩

/-- A lost answer, a short packet, a packet with block number 0, and a block of five bytes. -/
def Net.five : Net where
  send := [true, true, true]
  recv := [.timeout, .datagram [0, 3], .datagram [0, 3, 0, 0, 1], .datagram [0, 3, 0, 1, 10, 20, 30, 40, 50]]
  sent := []
  released := []

/-- A file of five bytes into two buffers. -/
theorem tftp_transfer_five : ∃ mem' net',
    tftpgetMb 1 (some [97]) [⟨false, 2⟩, ⟨false, 7⟩] (fun _ _ => 0) 4 Net.five = some (5, mem', net') ∧
      (contents mem' [2, 7]).take 5 = [10, 20, 30, 40, 50] ∧ net'.released = [4] := by
  have hcarries : ∀ b, .datagram b ∈ Net.five.recv → Carries [10, 20, 30, 40, 50] b := by
    intro b hb
    simp only [Net.five, List.mem_cons, reduceCtorEq, Received.datagram.injEq, List.not_mem_nil, or_false, false_or] at hb
    rcases hb with rfl | rfl | rfl <;> decide
  obtain ⟨mem', net', hrun⟩ : ∃ mem' net',
      tftpgetMb 1 (some [97]) [⟨false, 2⟩, ⟨false, 7⟩] (fun _ _ => 0) 4 Net.five = some (5, mem', net') := ⟨_, _, rfl⟩
  obtain ⟨hfetched, -, hreleased⟩ := tftp_transfer (by decide) hcarries hrun
  refine ⟨mem', net', hrun, (hfetched (by decide)).2, hreleased ?_ (by decide)⟩
  exact ⟨by decide, by decide, by decide, [97], rfl, by decide, by decide⟩

end Tftp

end Xinu
