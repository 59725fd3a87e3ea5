import Xinu.Kernel.Storage
import Xinu.Lib.Chain
import Xinu.Memory.Bufpool

/-!
# The chains of the buffer pools

The slots of a pool, the chain that `mkbufpool` builds of them, and what the steps of `getbuf` and `freebuf` leave: every slot of a
pool is on its free chain or with a caller (`Sound`).
-/

namespace Xinu

namespace Bufpool

open Table Blocks

/-! ## Slots -/

namespace Pool

variable {g g' : Pool} {a : Nat}

/-- The sizes that `mkbufpool` accepts, and a block that lies in memory. -/
structure Fits (g : Pool) : Prop where
  size : 0 < g.size
  bytes : g.numbufs * g.size ≤ 4294967288
  numbufs : 1 ≤ g.numbufs ∧ g.numbufs ≤ 2048
  pos : 0 < g.buf
  top : g.buf + g.numbufs * g.size < 4294967296

theorem mem_slots : a ∈ g.slots ↔ ∃ i < g.numbufs, a = g.buf + i * g.size := by
  simp only [slots, List.mem_map, List.mem_range]
  exact ⟨fun ⟨i, hi, e⟩ => ⟨i, hi, e.symm⟩, fun ⟨i, hi, e⟩ => ⟨i, hi, e.symm⟩⟩

theorem length_slots (g : Pool) : g.slots.length = g.numbufs := by
  rw [slots, List.length_map, List.length_range]

/-- A slot lies in the block. -/
theorem slot_inside (h : a ∈ g.slots) : g.buf ≤ a ∧ a + g.size ≤ g.buf + g.numbufs * g.size := by
  obtain ⟨i, hi, rfl⟩ := mem_slots.mp h
  have hle : (i + 1) * g.size ≤ g.numbufs * g.size := Nat.mul_le_mul_right _ hi
  rw [Nat.add_mul, Nat.one_mul] at hle
  omega

/-- The slots do not overlap. -/
theorem slots_apart (g : Pool) : g.slots.Pairwise fun a b => a + g.size ≤ b := by
  rw [slots, List.pairwise_map]
  refine List.pairwise_lt_range.imp fun {i j} hij => ?_
  have hle : (i + 1) * g.size ≤ j * g.size := Nat.mul_le_mul_right _ hij
  rw [Nat.add_mul, Nat.one_mul] at hle
  omega

theorem slots_nodup (hs : 0 < g.size) : g.slots.Nodup :=
  (slots_apart g).imp fun {a b} hab => by omega

theorem Fits.roundmb_le (h : g.Fits) : g.numbufs * g.size ≤ roundmb (g.numbufs * g.size) :=
  (roundmb_spec (Nat.mul_ne_zero (by have := h.numbufs.1; omega) (by have := h.size; omega)) h.bytes).1

/-- Pools of blocks that do not overlap have no slot in common. -/
theorem Fits.disjoint (hg : g.Fits) (hg' : g'.Fits) (h : Apart (rounded g.block) (rounded g'.block)) (ha : a ∈ g.slots) :
    a ∉ g'.slots := by
  intro ha'
  have h1 := slot_inside ha
  have h2 := slot_inside ha'
  have h3 := hg.roundmb_le
  have h4 := hg'.roundmb_le
  have h5 := hg.size
  have h6 := hg'.size
  simp only [Apart, rounded, block] at h
  omega

end Pool

/-- The loop of `mkbufpool` leaves the words below the first slot. -/
theorem link_of_lt {size n buf a : Nat} (word : Nat → Nat) (h : a < buf) : Bufpools.link size n buf word a = word a := by
  induction n generalizing buf word with
  | zero => exact Function.update_of_ne (Nat.ne_of_lt h) _ _
  | succ n ih =>
    rw [Bufpools.link, ih _ (Nat.lt_add_right _ h)]
    exact Function.update_of_ne (Nat.ne_of_lt h) _ _

/-- The loop of `mkbufpool` writes to slots only. -/
theorem link_of_not_mem {size n buf a : Nat} (word : Nat → Nat) (h : a ∉ (Pool.mk buf size (n + 1)).slots) :
    Bufpools.link size n buf word a = word a := by
  have hne : a ≠ buf := by
    rintro rfl
    exact h (Pool.mem_slots.mpr ⟨0, Nat.succ_pos n, by simp⟩)
  induction n generalizing buf word with
  | zero => exact Function.update_of_ne hne _ _
  | succ n ih =>
    have hout : a ∉ (Pool.mk (buf + size) size (n + 1)).slots := by
      intro ha
      obtain ⟨i, hi, rfl⟩ := Pool.mem_slots.mp ha
      refine h (Pool.mem_slots.mpr ⟨i + 1, by simpa using hi, ?_⟩)
      simp only [Nat.add_mul, Nat.one_mul]
      omega
    have hne' : a ≠ buf + size := by
      rintro rfl
      exact hout (Pool.mem_slots.mpr ⟨0, Nat.succ_pos n, by simp⟩)
    rw [Bufpools.link, ih _ hout hne']
    exact Function.update_of_ne hne _ _

/-- The loop of `mkbufpool` links all slots, in the order of their addresses. -/
theorem link_chain {size n buf : Nat} (word : Nat → Nat) (hs : 0 < size) (hbuf : 0 < buf) :
    Chain (Bufpools.link size n buf word) NULL buf (Pool.mk buf size (n + 1)).slots := by
  induction n generalizing buf word with
  | zero =>
    have hslots : (Pool.mk buf size 1).slots = [buf] := by simp [Pool.slots]
    rw [hslots]
    exact ⟨rfl, Nat.ne_of_gt hbuf, Function.update_self _ _ _⟩
  | succ n ih =>
    have hslots : (Pool.mk buf size (n + 1 + 1)).slots = buf :: (Pool.mk (buf + size) size (n + 1)).slots := by
      simp only [Pool.slots, List.range_succ_eq_map (n := n + 1), List.map_cons, Nat.zero_mul, Nat.add_zero, List.map_map]
      refine congrArg (buf :: ·) (List.map_congr_left fun i _ => ?_)
      simp only [Function.comp_apply, Nat.succ_eq_add_one, Nat.add_mul, Nat.one_mul]
      omega
    rw [hslots]
    refine ⟨rfl, Nat.ne_of_gt hbuf, ?_⟩
    rw [Bufpools.link, link_of_lt _ (by omega), Function.update_self]
    exact ih _ (by omega)

/-! ## What holds of the pools -/

/-- The buffers of the pool that callers have. -/
def heldIn (held : List (Int × Nat)) (p : Int) : List Nat := (held.filter fun x => decide (x.1 = p)).map Prod.snd

theorem mem_heldIn {held : List (Int × Nat)} {p : Int} {a : Nat} : a ∈ heldIn held p ↔ (p, a) ∈ held := by
  simp only [heldIn, List.mem_map, List.mem_filter, decide_eq_true_eq]
  constructor
  · rintro ⟨⟨q, b⟩, ⟨hm, rfl⟩, rfl⟩
    exact hm
  · exact fun hm => ⟨(p, a), ⟨hm, rfl⟩, rfl⟩

theorem heldIn_self (held : List (Int × Nat)) (p : Int) (a : Nat) : heldIn ((p, a) :: held) p = a :: heldIn held p := by
  rw [heldIn, List.filter_cons_of_pos (by simp)]
  rfl

theorem heldIn_other (held : List (Int × Nat)) {p q : Int} (hq : q ≠ p) (a : Nat) : heldIn ((p, a) :: held) q = heldIn held q := by
  rw [heldIn, List.filter_cons_of_neg (by simpa using hq.symm)]
  rfl

theorem heldIn_perm {held held' : List (Int × Nat)} (h : held.Perm held') (p : Int) : (heldIn held p).Perm (heldIn held' p) :=
  (h.filter _).map _

namespace Bufpools

variable {d t : Bufpools} {p q : Int} {g g' : Pool} {a v : Nat} {l : List Nat}

/-- Every slot of the pool is on its free chain or with a caller. -/
def PoolOk (d : Bufpools) (p : Int) (g : Pool) : Prop :=
  ∃ l, Chain d.word NULL (d.buftab p).bpnext l ∧ (l ++ heldIn d.held p).Perm g.slots

/-- What holds of the pools between events. -/
structure Sound (d : Bufpools) : Prop where
  range : ∀ p g, d.made p = some g → 0 ≤ p ∧ p < d.nbpools
  few : 0 ≤ d.nbpools ∧ d.nbpools ≤ NBPOOLS
  pool : ∀ p g, d.made p = some g → d.PoolOk p g
  fits : ∀ p g, d.made p = some g → g.Fits
  apart : ∀ p q g g', d.made p = some g → d.made q = some g' → p ≠ q → ∀ a ∈ g.slots, a ∉ g'.slots
  sems : ∀ p q, (d.made p).isSome → (d.made q).isSome → p ≠ q → (d.buftab p).bpsem ≠ (d.buftab q).bpsem
  held : ∀ p a, (p, a) ∈ d.held → (d.made p).isSome ∧ d.word a = uint32 p

/-- The blocks of the pools. -/
def blocks (d : Bufpools) : List (Nat × Nat) := (List.range 20).filterMap fun p : Nat => (d.made p).map Pool.block

theorem Sound.mem_blocks (H : d.Sound) (hg : d.made p = some g) : g.block ∈ d.blocks := by
  obtain ⟨h1, h2⟩ := H.range p g hg
  have hN : NBPOOLS = 20 := rfl
  have hfew := H.few.2
  refine List.mem_filterMap.mpr ⟨p.toNat, List.mem_range.mpr (by omega), ?_⟩
  rw [Int.toNat_of_nonneg h1, hg]
  rfl

/-- A block beside those of the pools has no slot of a pool. -/
theorem Sound.apart_of_stores (H : d.Sound) {h : Heap} (hs : h.Stores (g.block :: d.blocks)) (hg : g.Fits)
    (hq : d.made q = some g') (ha : a ∈ g.slots) : a ∉ g'.slots := by
  have hall := (List.pairwise_cons.mp (List.map_cons ▸ hs.apart)).1
  exact hg.disjoint (H.fits q g' hq) (hall _ (List.mem_map_of_mem (H.mem_blocks hq))) ha

theorem filterMap_insert {β : Type} {f : Nat → Option β} {l : List Nat} {i : Nat} {b : β} (hl : l.Nodup) :
    (l.filterMap (Function.update f i (some b))).Subperm (b :: l.filterMap f) := by
  induction l with
  | nil => exact List.nil_subperm
  | cons x l ih =>
    obtain ⟨hx, hl⟩ := List.nodup_cons.mp hl
    by_cases hi : x = i
    · subst hi
      have hsame : l.filterMap (Function.update f x (some b)) = l.filterMap f :=
        List.filterMap_congr fun y hy => Function.update_of_ne (ne_of_mem_of_not_mem hy hx) _ _
      rw [List.filterMap_cons_some (Function.update_self _ _ _), hsame]
      refine (List.subperm_cons b).mpr ?_
      exact (List.Sublist.filterMap f (List.sublist_cons_self x l)).subperm
    · have hf : Function.update f i (some b) x = f x := Function.update_of_ne hi _ _
      cases hc : f x with
      | none =>
        rw [List.filterMap_cons_none (hf.trans hc), List.filterMap_cons_none hc]
        exact ih hl
      | some c =>
        rw [List.filterMap_cons_some (hf.trans hc), List.filterMap_cons_some hc]
        exact ((List.subperm_cons c).mpr (ih hl)).trans (List.Perm.swap b c _).subperm

/-- The blocks, when there is a new pool. -/
theorem blocks_make (hp : 0 ≤ p) (hmade : t.made = Function.update d.made p (some g)) :
    t.blocks.Subperm (g.block :: d.blocks) := by
  have hf : (fun i : Nat => (t.made i).map Pool.block) =
      Function.update (fun i : Nat => (d.made i).map Pool.block) p.toNat (some g.block) := by
    funext i
    by_cases hi : i = p.toNat
    · rw [hi, Function.update_self, hmade, Int.toNat_of_nonneg hp, Function.update_self]
      rfl
    · rw [Function.update_of_ne hi, hmade, Function.update_of_ne (by omega)]
  rw [blocks, blocks, hf]
  exact filterMap_insert List.nodup_range

/-- A buffer that a caller has is a slot of its pool, and is not on the chain. -/
theorem Sound.held_slot (H : d.Sound) (hg : d.made p = some g) (ha : (p, a) ∈ d.held) : a ∈ g.slots := by
  obtain ⟨l, _, hperm⟩ := H.pool p g hg
  exact hperm.subset (List.mem_append_right l (mem_heldIn.mpr ha))

theorem Sound.nodup (H : d.Sound) (hg : d.made p = some g) (hc : Chain d.word NULL (d.buftab p).bpnext l) :
    (l ++ heldIn d.held p).Nodup ∧ ∀ a ∈ l ++ heldIn d.held p, a ∈ g.slots := by
  obtain ⟨l', hc', hperm⟩ := H.pool p g hg
  obtain rfl := hc.unique hc'
  exact ⟨hperm.nodup_iff.mpr (Pool.slots_nodup (H.fits p g hg).size), fun a ha => hperm.subset ha⟩

/-- The identifier in the word of a buffer that a caller has. -/
theorem Sound.word_held (H : d.Sound) (ha : (p, a) ∈ d.held) : int32 (d.word a) = p ∧ 0 ≤ p ∧ p < d.nbpools := by
  obtain ⟨hm, hw⟩ := H.held p a ha
  obtain ⟨g, hg⟩ := Option.isSome_iff_exists.mp hm
  obtain ⟨h1, h2⟩ := H.range p g hg
  have hN : NBPOOLS = 20 := rfl
  have hfew := H.few.2
  refine ⟨?_, h1, h2⟩
  rw [hw]
  unfold int32 uint32
  omega

/-- `freebuf` returns a buffer to the pool that it was taken from. -/
theorem Sound.freebuf_held (H : d.Sound) {bufaddr : Nat} (hheld : (p, Heap.sub32 bufaddr bpidSize) ∈ d.held) :
    d.freebuf bufaddr = (d.insert p (Heap.sub32 bufaddr bpidSize), .call (.signal (d.buftab p).bpsem) .signalled) := by
  obtain ⟨hid, h1, h2⟩ := H.word_held hheld
  unfold freebuf
  simp only [hid]
  rw [if_neg (by omega)]

/-- The word of a slot and the entry of its pool change. -/
theorem Sound.write (H : d.Sound) (hg : d.made p = some g) (ha : a ∈ g.slots) {e : Bpentry} (hmade : t.made = d.made)
    (hn : t.nbpools = d.nbpools) (hword : t.word = Function.update d.word a v)
    (htab : t.buftab = Function.update d.buftab p e) (hsem : e.bpsem = (d.buftab p).bpsem) (hpool : t.PoolOk p g)
    (hother : ∀ q, q ≠ p → (heldIn t.held q).Perm (heldIn d.held q))
    (hheld : ∀ q b, (q, b) ∈ t.held → (d.made q).isSome ∧ t.word b = uint32 q) : t.Sound := by
  have hsems : ∀ q, (t.buftab q).bpsem = (d.buftab q).bpsem := by
    intro q
    by_cases hq : q = p
    · rw [hq, htab, Function.update_self, hsem]
    · rw [htab, Function.update_of_ne hq]
  refine ⟨?_, hn ▸ H.few, fun q g' hg' => ?_, ?_, ?_, ?_, ?_⟩
  · rw [hmade, hn]
    exact H.range
  · rw [hmade] at hg'
    by_cases hq : q = p
    · subst hq
      obtain rfl := Option.some.inj (hg.symm.trans hg')
      exact hpool
    · obtain ⟨l, hc, hperm⟩ := H.pool q g' hg'
      have hal : a ∉ l := fun hm => H.apart p q g g' hg hg' (Ne.symm hq) a ha (hperm.subset (List.mem_append_left _ hm))
      refine ⟨l, ?_, ?_⟩
      · rw [hword, htab, Function.update_of_ne hq]
        exact hc.update hal v
      · exact ((hother q hq).append_left l).trans hperm
  · rw [hmade]
    exact H.fits
  · rw [hmade]
    exact H.apart
  · intro q q' h1 h2 hne
    rw [hmade] at h1 h2
    rw [hsems q, hsems q']
    exact H.sems q q' h1 h2 hne
  · rw [hmade]
    exact hheld

/-- The chain of another pool has none of the slots of the pool. -/
theorem Sound.other_chain (H : d.Sound) (hg : d.made p = some g) (ha : a ∈ g.slots) (hq : (d.made q).isSome) (hqp : q ≠ p)
    (hword : t.word = Function.update d.word a v) (htab : t.buftab q = d.buftab q) :
    ∃ l, Chain d.word NULL (d.buftab q).bpnext l ∧ Chain t.word NULL (t.buftab q).bpnext l := by
  obtain ⟨g', hg'⟩ := Option.isSome_iff_exists.mp hq
  obtain ⟨l, hc, hperm⟩ := H.pool q g' hg'
  have hout : a ∉ l := fun hm => H.apart p q g g' hg hg' (Ne.symm hqp) a ha (hperm.subset (List.mem_append_left _ hm))
  refine ⟨l, hc, ?_⟩
  rw [hword, htab]
  exact hc.update hout v

/-- `getbuf` takes the first buffer off the chain. -/
theorem Sound.unlink (H : d.Sound) (hg : d.made p = some g) (hc : Chain d.word NULL (d.buftab p).bpnext (a :: l)) :
    (d.unlink p a).Sound ∧ Chain (d.unlink p a).word NULL ((d.unlink p a).buftab p).bpnext l := by
  obtain ⟨hhead, htail⟩ := hc.pop
  obtain ⟨hnd, hin⟩ := H.nodup hg hc
  obtain ⟨hal, -⟩ := List.nodup_cons.mp hnd
  rw [hhead] at htail
  have hslot := hin a List.mem_cons_self
  have hchain : Chain (d.unlink p a).word NULL ((d.unlink p a).buftab p).bpnext l := by
    have hal' : a ∉ l := fun hm => hal (List.mem_append_left _ hm)
    simpa [Bufpools.unlink, setEntry, setWord] using htail.update hal' (uint32 p)
  obtain ⟨l', hc', hperm⟩ := H.pool p g hg
  obtain rfl := hc.unique hc'
  refine ⟨H.write hg hslot (e := ⟨d.word a, (d.buftab p).bpsem, (d.buftab p).bpsize⟩) rfl rfl rfl rfl rfl ⟨l, hchain, ?_⟩
    (fun q hq => ?_) (fun q b hb => ?_), hchain⟩
  · rw [Bufpools.unlink, heldIn_self]
    exact List.perm_middle.trans hperm
  · rw [Bufpools.unlink, heldIn_other _ hq]
  · rcases List.mem_cons.mp hb with h | hm
    · obtain ⟨rfl, rfl⟩ := Prod.mk.inj h
      exact ⟨by rw [hg]; rfl, Function.update_self _ _ _⟩
    · have hold := H.held q b hm
      have hne : b ≠ a := by
        rintro rfl
        by_cases hq : q = p
        · rw [hq] at hm
          exact hal (List.mem_append_right _ (mem_heldIn.mpr hm))
        · obtain ⟨g', hg'⟩ := Option.isSome_iff_exists.mp hold.1
          exact H.apart p q g g' hg hg' (Ne.symm hq) b hslot (H.held_slot hg' hm)
      exact ⟨hold.1, (Function.update_of_ne hne _ _).trans hold.2⟩

/-- `freebuf` puts a buffer that a caller has in front of the chain. -/
theorem Sound.insert (H : d.Sound) (hg : d.made p = some g) (ha : (p, a) ∈ d.held)
    (hc : Chain d.word NULL (d.buftab p).bpnext l) :
    (d.insert p a).Sound ∧ Chain (d.insert p a).word NULL ((d.insert p a).buftab p).bpnext (a :: l) := by
  obtain ⟨hnd, hin⟩ := H.nodup hg hc
  have hslot := H.held_slot hg ha
  have hmem : a ∈ heldIn d.held p := mem_heldIn.mpr ha
  have hal : a ∉ l := fun hm => (List.nodup_append.mp hnd).2.2 a hm a hmem rfl
  have hpos : a ≠ NULL := by
    have h1 := (H.fits p g hg).pos
    have h2 := (Pool.slot_inside hslot).1
    exact Nat.ne_of_gt (Nat.lt_of_lt_of_le h1 h2)
  have hchain : Chain (d.insert p a).word NULL ((d.insert p a).buftab p).bpnext (a :: l) := by
    simpa [Bufpools.insert, setEntry, setWord] using hc.push hal hpos
  have hheld := List.perm_cons_erase ha
  have hself := (heldIn_perm hheld p).trans (List.Perm.of_eq (heldIn_self _ p a))
  obtain ⟨l', hc', hperm⟩ := H.pool p g hg
  obtain rfl := hc.unique hc'
  refine ⟨H.write hg hslot (e := ⟨a, (d.buftab p).bpsem, (d.buftab p).bpsize⟩) rfl rfl rfl rfl rfl ⟨a :: l, hchain, ?_⟩
    (fun q hq => ?_) (fun q b hb => ?_), hchain⟩
  · refine List.Perm.trans ?_ hperm
    exact List.perm_middle.symm.trans (hself.symm.append_left l)
  · exact ((heldIn_perm hheld q).trans (List.Perm.of_eq (heldIn_other _ hq a))).symm
  · have hold := H.held q b (List.mem_of_mem_erase hb)
    have hne : b ≠ a := by
      rintro rfl
      by_cases hq : q = p
      · rw [hq] at hb
        have hnd' := (hself.nodup_iff.mp (List.nodup_append.mp hnd).2.1)
        exact (List.nodup_cons.mp hnd').1 (mem_heldIn.mpr hb)
      · obtain ⟨g', hg'⟩ := Option.isSome_iff_exists.mp hold.1
        exact H.apart p q g g' hg hg' (Ne.symm hq) b hslot (H.held_slot hg' (List.mem_of_mem_erase hb))
    exact ⟨hold.1, (Function.update_of_ne hne _ _).trans hold.2⟩

/-- An entry changes that no pool has yet. -/
theorem Sound.entry (H : d.Sound) (hp : d.made p = none) {e : Bpentry} (htab : t.buftab = Function.update d.buftab p e)
    (hword : t.word = d.word) (hmade : t.made = d.made) (hheld : t.held = d.held)
    (hrange : ∀ q, (d.made q).isSome → q < t.nbpools) (hfew : 0 ≤ t.nbpools ∧ t.nbpools ≤ NBPOOLS) : t.Sound := by
  have hne : ∀ q, (d.made q).isSome → q ≠ p := by
    rintro q hq rfl
    rw [hp] at hq
    cases hq
  have hent : ∀ q, (d.made q).isSome → t.buftab q = d.buftab q := fun q hq => by
    rw [htab, Function.update_of_ne (hne q hq)]
  have hsome : ∀ {q g}, d.made q = some g → (d.made q).isSome := fun h => by
    rw [h]
    rfl
  refine ⟨fun q g hg => ?_, hfew, fun q g hg => ?_, ?_, ?_, fun q q' h1 h2 hqq => ?_, ?_⟩
  · rw [hmade] at hg
    exact ⟨(H.range q g hg).1, hrange q (hsome hg)⟩
  · rw [hmade] at hg
    obtain ⟨l, hc, hperm⟩ := H.pool q g hg
    refine ⟨l, ?_, ?_⟩
    · rw [hword, hent q (hsome hg)]
      exact hc
    · rw [hheld]
      exact hperm
  · rw [hmade]
    exact H.fits
  · rw [hmade]
    exact H.apart
  · rw [hmade] at h1 h2
    rw [hent q h1, hent q' h2]
    exact H.sems q q' h1 h2 hqq
  · rw [hmade, hheld, hword]
    exact H.held

/-- The chain of a new pool is built in a block that no pool has. -/
theorem Sound.make (H : d.Sound) (hp : d.made p = none) (hr : 0 ≤ p ∧ p < d.nbpools) (hfits : g.Fits)
    (hapart : ∀ q g', d.made q = some g' → ∀ a ∈ g.slots, a ∉ g'.slots)
    (hsem : ∀ q, (d.made q).isSome → (d.buftab q).bpsem ≠ (d.buftab p).bpsem) (hbuf : (d.buftab p).bpnext = g.buf)
    (hword : t.word = link g.size (g.numbufs - 1) g.buf d.word) (hmade : t.made = Function.update d.made p (some g))
    (htab : t.buftab = d.buftab) (hheld : t.held = d.held) (hn : t.nbpools = d.nbpools) :
    t.Sound ∧ Chain t.word NULL (t.buftab p).bpnext g.slots := by
  have hg : (⟨g.buf, g.size, g.numbufs - 1 + 1⟩ : Pool) = g := by
    rw [Nat.sub_add_cancel hfits.numbufs.1]
  have hchain : Chain t.word NULL (t.buftab p).bpnext g.slots := by
    rw [hword, htab, hbuf]
    have := link_chain (n := g.numbufs - 1) d.word hfits.size hfits.pos
    rwa [hg] at this
  have hsame : ∀ {a}, a ∉ g.slots → t.word a = d.word a := fun ha => by
    rw [hword]
    exact link_of_not_mem d.word (hg ▸ ha)
  have hself : t.made p = some g := by rw [hmade, Function.update_self]
  have hold : ∀ {q}, q ≠ p → t.made q = d.made q := fun hq => by rw [hmade, Function.update_of_ne hq]
  have hsome : ∀ {q g'}, d.made q = some g' → (d.made q).isSome := fun h => by
    rw [h]
    rfl
  have hnone : ∀ a, (p, a) ∉ d.held := fun a ha => by
    have := (H.held p a ha).1
    rw [hp] at this
    cases this
  refine ⟨⟨fun q g' hg' => ?_, hn ▸ H.few, fun q g' hg' => ?_, fun q g' hg' => ?_, fun q q' g₁ g₂ h1 h2 hne => ?_,
    fun q q' h1 h2 hne => ?_, fun q a ha => ?_⟩, hchain⟩
  · rw [hn]
    by_cases hq : q = p
    · exact hq ▸ hr
    · exact H.range q g' (hold hq ▸ hg')
  · by_cases hq : q = p
    · subst hq
      obtain rfl := Option.some.inj (hself.symm.trans hg')
      refine ⟨g.slots, hchain, ?_⟩
      have hempty : heldIn t.held q = [] := by
        rw [hheld]
        exact List.eq_nil_iff_forall_not_mem.mpr fun a ha => hnone a (mem_heldIn.mp ha)
      rw [hempty, List.append_nil]
    · rw [hold hq] at hg'
      obtain ⟨l, hc, hperm⟩ := H.pool q g' hg'
      refine ⟨l, ?_, hheld ▸ hperm⟩
      rw [htab]
      exact hc.frame fun a ha => hsame fun hs => hapart q g' hg' a hs (hperm.subset (List.mem_append_left _ ha))
  · by_cases hq : q = p
    · subst hq
      obtain rfl := Option.some.inj (hself.symm.trans hg')
      exact hfits
    · exact H.fits q g' (hold hq ▸ hg')
  · by_cases hq : q = p
    · subst hq
      obtain rfl := Option.some.inj (hself.symm.trans h1)
      exact hapart q' g₂ (hold (Ne.symm hne) ▸ h2)
    · rw [hold hq] at h1
      by_cases hq' : q' = p
      · subst hq'
        obtain rfl := Option.some.inj (hself.symm.trans h2)
        exact fun a ha hs => hapart q g₁ h1 a hs ha
      · exact H.apart q q' g₁ g₂ h1 (hold hq' ▸ h2) hne
  · rw [htab]
    by_cases hq : q = p
    · subst hq
      exact Ne.symm (hsem q' (hold (Ne.symm hne) ▸ h2))
    · by_cases hq' : q' = p
      · exact hq' ▸ hsem q (hold hq ▸ h1)
      · exact H.sems q q' (hold hq ▸ h1) (hold hq' ▸ h2) hne
  · rw [hheld] at ha
    have hq : q ≠ p := by
      rintro rfl
      exact hnone a ha
    obtain ⟨hm, hw⟩ := H.held q a ha
    obtain ⟨g', hg'⟩ := Option.isSome_iff_exists.mp hm
    rw [hold hq]
    exact ⟨hm, (hsame fun hs => hapart q g' hg' a hs (H.held_slot hg' ha)).trans hw⟩

/-- No pool. -/
theorem Sound.bufinit : bufinit.Sound :=
  ⟨nofun, by decide, nofun, nofun, nofun, nofun, nofun⟩

end Bufpools

end Bufpool

end Xinu
