import Xinu.Lfs.Characters

/-!
# `lftruncate`

The data blocks of the file go to the front of their free list one by one. Its index blocks are cleared in order, the last one gets a
link to the first free one, and in the end the whole chain is in front of the free list.
-/

namespace Xinu

namespace Lfs

open Table

section Truncate

variable {S N : Nat} {d : Fin 6} {s s' t : Lfs} {L : Layout} {n : Int32} {ns fd : List Int32}

/-! ## Data blocks -/

/-- The data blocks `ns` have gone to the front of the free list `fd`. -/
structure Frees (S N : Nat) (s s' : Lfs) (ns fd : List Int32) : Prop where
  good : s'.disk.bad = false
  chain : Chain (fun n => (s'.disk.sector n).nextdb) LF_DNULL s'.lf_dir.lfd_dfree (ns.reverse ++ fd)
  dir : s'.lf_dir = { s.lf_dir with lfd_dfree := s'.lf_dir.lfd_dfree }
  sector : ∀ n, IsData S N n → n ∉ ns → s'.disk.sector n = s.disk.sector n
  index : ∀ i, IsIndex S i → lfibget s'.disk i = lfibget s.disk i
  tab : s'.lfltab = s.lfltab
  present : s'.lf_dirpresent = s.lf_dirpresent

theorem Frees.refl (hb : s.disk.bad = false) (hc : Chain (fun n => (s.disk.sector n).nextdb) LF_DNULL s.lf_dir.lfd_dfree fd) :
    Frees S N s s [] fd :=
  ⟨hb, hc, rfl, fun _ _ _ => rfl, fun _ _ => rfl, rfl, rfl⟩

theorem Frees.trans {ms : List Int32} (h : Frees S N s t ns fd) (h' : Frees S N t s' ms (ns.reverse ++ fd)) :
    Frees S N s s' (ns ++ ms) fd := by
  refine ⟨h'.good, ?_, ?_, fun n hn hm => ?_, fun i hi => (h'.index i hi).trans (h.index i hi), h'.tab.trans h.tab,
    h'.present.trans h.present⟩
  · rw [List.reverse_append, List.append_assoc]
    exact h'.chain
  · rw [h'.dir, h.dir]
  · rw [List.mem_append, not_or] at hm
    exact (h'.sector n hn hm.2).trans (h.sector n hn hm.1)

/-- `lfdbfree` puts one block at the front. -/
theorem lfdbfree_spec (R : Room S N) (hb : s.disk.bad = false)
    (hc : Chain (fun n => (s.disk.sector n).nextdb) LF_DNULL s.lf_dir.lfd_dfree fd) (hn : IsData S N n) (hm : n ∉ fd)
    (hr : ∀ m ∈ fd, IsData S N m) : Frees S N s (s.lfdbfree n) [n] fd := by
  have hgood : (s.disk.write (Sector.setNextdb (fun _ => 0) s.lf_dir.lfd_dfree) n).2.bad = false := write_bad hb _ _
  have hself : (s.lfdbfree n).disk.sector n = Sector.setNextdb (fun _ => 0) s.lf_dir.lfd_dfree :=
    (write_of_ne hgood _ hn.ne_dir).trans (write_self hb _ _)
  have hother : ∀ m, IsData S N m → m ≠ n → (s.lfdbfree n).disk.sector m = s.disk.sector m := fun m hd hne =>
    (write_of_ne hgood _ hd.ne_dir).trans (write_of_ne hb _ hne)
  refine ⟨write_bad hgood _ _, ⟨rfl, hn.ne_null, ?_⟩, rfl, fun m hd hne => hother m hd (by simpa using hne), fun i hi => ?_, rfl, rfl⟩
  · change Chain _ _ ((s.lfdbfree n).disk.sector n).nextdb fd
    rw [hself, Sector.nextdb_setNextdb]
    refine hc.frame fun m hmem => congrArg Sector.nextdb (hother m (hr m hmem) ?_)
    rintro rfl
    exact hm hmem
  · exact (lfibget_write hgood (hi.sect_ne_dir R) _).trans (lfibget_write hb (hi.sect_ne_data hn R) _)

/-- Several calls of `lfdbfree`. -/
theorem freeAll_spec (R : Room S N) (hb : s.disk.bad = false)
    (hc : Chain (fun n => (s.disk.sector n).nextdb) LF_DNULL s.lf_dir.lfd_dfree fd) (hnd : (ns ++ fd).Nodup)
    (hr : ∀ m ∈ ns ++ fd, IsData S N m) : Frees S N s (ns.foldl lfdbfree s) ns fd := by
  induction ns generalizing s fd with
  | nil => exact Frees.refl hb hc
  | cons n ns ih =>
    obtain ⟨hm, hnd'⟩ := List.nodup_cons.mp hnd
    have hone := lfdbfree_spec R hb hc (hr n List.mem_cons_self) (fun h => hm (List.mem_append_right _ h))
      fun m h => hr m (List.mem_cons_of_mem _ (List.mem_append_right _ h))
    have hperm : (ns ++ n :: fd).Perm (n :: (ns ++ fd)) := List.perm_middle
    exact hone.trans (ih hone.good hone.chain (hperm.nodup_iff.mpr (List.nodup_cons.mpr ⟨hm, hnd'⟩))
      fun m h => hr m (hperm.subset h))

/-- The entries of an index block that are in use. -/
theorem entries_eq {ns : List Int32} (h : ∀ m ∈ ns, m ≠ LF_DNULL) (k : Nat) :
    ((List.range k).map fun j => ns.getD j LF_DNULL).filter (· ≠ LF_DNULL) = ns.take k := by
  induction k with
  | zero => rfl
  | succ k ih =>
    rw [List.range_succ, List.map_append, List.filter_append, ih, List.take_add_one]
    cases hk : ns[k]? with
    | none => simp [hk]
    | some m => simp [hk, h m (List.mem_of_getElem? hk)]

/-- The loop over the data blocks of an index block. -/
theorem freeBlocks_eq (b : Lfiblk) (h : ∀ m ∈ ns, m ≠ LF_DNULL) (hdba : ∀ j : Fin 16, b.ib_dba j = ns.getD j LF_DNULL) :
    s.freeBlocks b = (ns.take 16).foldl lfdbfree s := by
  have hval : (List.finRange 16).map Fin.val = List.range 16 := rfl
  have hmap : (List.finRange 16).map b.ib_dba = (List.range 16).map fun j => ns.getD j LF_DNULL := by
    rw [← hval, List.map_map]
    exact List.map_congr_left fun j _ => hdba j
  rw [← entries_eq h 16, ← hmap, List.foldl_filter, List.foldl_map]
  simp only [freeBlocks, decide_eq_true_eq]

/-! ## Index blocks -/

/-- What the loop leaves: the index blocks `is`, from `i` on, are cleared and in front of `fl`, and the data blocks `ns` are in front
of `fd`. -/
structure Truncates (S N : Nat) (s s' : Lfs) (i : Int32) (is fl ns fd : List Int32) : Prop where
  good : s'.disk.bad = false
  data : Chain (fun n => (s'.disk.sector n).nextdb) LF_DNULL s'.lf_dir.lfd_dfree (ns.reverse ++ fd)
  chain : Chain (fun j => (lfibget s'.disk j).ib_next) LF_INULL i (is ++ fl)
  dir : s'.lf_dir = { s.lf_dir with lfd_dfree := s'.lf_dir.lfd_dfree }
  sector : ∀ n, IsData S N n → n ∉ ns → s'.disk.sector n = s.disk.sector n
  index : ∀ j, IsIndex S j → j ∉ is → lfibget s'.disk j = lfibget s.disk j
  tab : s'.lfltab = s.lfltab
  present : s'.lf_dirpresent = s.lf_dirpresent

/-- The index block as the loop writes it back. -/
def cleared (ifree : Int32) (b : Lfiblk) : Lfiblk where
  ib_next := if b.ib_next = LF_INULL then ifree else b.ib_next
  ib_offset := 0
  ib_dba := fun _ => LF_DNULL

/-- The file system behind one round of the loop. -/
def clearBlock (s : Lfs) (ifree i : Int32) : Lfs :=
  let t := s.freeBlocks (lfibget s.disk i)
  { t with disk := (lfibput t.disk i (cleared ifree (lfibget s.disk i))).2 }

theorem truncateLoop_succ (ifree : Int32) (k : Nat) (i : Int32) (s : Lfs) : truncateLoop ifree (k + 1) i s =
    if i = ifree then .ok s else truncateLoop ifree k (cleared ifree (lfibget s.disk i)).ib_next (clearBlock s ifree i) := rfl

/-- One round of the loop. -/
theorem round_spec {i ifree : Int32} (R : Room S N) (hb : s.disk.bad = false)
    (hc : Chain (fun n => (s.disk.sector n).nextdb) LF_DNULL s.lf_dir.lfd_dfree fd) (hnd : (ns ++ fd).Nodup)
    (hr : ∀ m ∈ ns ++ fd, IsData S N m) (hi : IsIndex S i)
    (hdba : ∀ j : Fin 16, (lfibget s.disk i).ib_dba j = ns.getD j LF_DNULL) (ht : t = clearBlock s ifree i) :
    Frees S N { s with disk := (lfibput s.disk i (cleared ifree (lfibget s.disk i))).2 } t (ns.take 16) fd := by
  have heq : s.freeBlocks (lfibget s.disk i) = (ns.take 16).foldl lfdbfree s :=
    freeBlocks_eq _ (fun m hm => (hr m (List.mem_append_left _ hm)).ne_null) hdba
  have hsub : (ns.take 16 ++ fd).Sublist (ns ++ fd) := (List.take_sublist 16 ns).append_right fd
  have F := freeAll_spec R hb hc (hsub.nodup hnd) fun m hm => hr m (hsub.subset hm)
  rw [← heq] at F
  unfold clearBlock at ht
  generalize cleared ifree (lfibget s.disk i) = b at ht ⊢
  generalize s.freeBlocks (lfibget s.disk i) = u at F ht
  subst ht
  refine ⟨lfibput_bad F.good _ _, ?_, F.dir, fun n hn hm => ?_, fun j hj => ?_, F.tab, F.present⟩
  · refine F.chain.frame fun m hm => congrArg Sector.nextdb (IsData.put (hr m ?_) hi R F.good b)
    rw [List.mem_append, List.mem_reverse] at hm
    exact hsub.subset (List.mem_append.mpr hm)
  · exact (hn.put hi R F.good b).trans ((F.sector n hn hm).trans (hn.put hi R hb b).symm)
  · by_cases he : j = i
    · subst he
      exact (hi.get_put R F.good b).trans (hi.get_put R hb b).symm
    · exact (hi.get_put_of_ne hj R F.good he b).trans ((F.index j hj).trans (hi.get_put_of_ne hj R hb he b).symm)

/-- The loop over the index blocks stops behind the last one. The induction is on the index blocks that are left. -/
theorem truncateLoop_spec {i ifree : Int32} {is fl : List Int32} {k : Nat} (R : Room S N) (hb : s.disk.bad = false)
    (hc : Chain (fun n => (s.disk.sector n).nextdb) LF_DNULL s.lf_dir.lfd_dfree fd) (hnd : (ns ++ fd).Nodup)
    (hr : ∀ m ∈ ns ++ fd, IsData S N m) (hi : Chain (fun j => (lfibget s.disk j).ib_next) LF_INULL i is)
    (hf : Chain (fun j => (lfibget s.disk j).ib_next) LF_INULL ifree fl) (hind : (is ++ fl).Nodup)
    (hir : ∀ j ∈ is ++ fl, IsIndex S j)
    (hdba : ∀ (m : Nat) (x : Int32), is[m]? = some x → ∀ j : Fin 16, (lfibget s.disk x).ib_dba j = ns.getD (16 * m + j) LF_DNULL)
    (hlen : ns.length ≤ 16 * is.length) (hne : is ≠ []) (hk : is.length < k) :
    ∃ s', truncateLoop ifree k i s = .ok s' ∧ Truncates S N s s' i is fl ns fd := by
  induction is generalizing s i k ns fd with
  | nil => exact absurd rfl hne
  | cons x is ih =>
    obtain ⟨rfl, hnull, hrest⟩ := hi
    obtain ⟨k, rfl⟩ := Nat.exists_eq_succ_of_ne_zero (Nat.ne_of_gt (Nat.zero_lt_of_lt hk))
    obtain ⟨hx, hind'⟩ := List.nodup_cons.mp hind
    have hxi : IsIndex S i := hir i List.mem_cons_self
    have hend : ¬i = ifree := by
      rintro rfl
      cases fl with
      | nil => exact hnull hf
      | cons y fl =>
        obtain ⟨rfl, _⟩ := hf
        exact hx (List.mem_append_right _ List.mem_cons_self)
    obtain ⟨t, ht⟩ : ∃ t, t = clearBlock s ifree i := ⟨_, rfl⟩
    have F := round_spec R hb hc hnd hr hxi (fun j => by simpa using hdba 0 i rfl j) ht
    have hself : lfibget t.disk i = cleared ifree (lfibget s.disk i) := (F.index i hxi).trans (hxi.get_put R hb _)
    have hget : ∀ j, IsIndex S j → j ≠ i → lfibget t.disk j = lfibget s.disk j := fun j hj he =>
      (F.index j hj).trans (hxi.get_put_of_ne hj R hb he _)
    have hsect : ∀ n, IsData S N n → n ∉ ns.take 16 → t.disk.sector n = s.disk.sector n := fun n hn hm =>
      (F.sector n hn hm).trans (hn.put hxi R hb _)
    have hne' : ∀ j ∈ is ++ fl, j ≠ i := by
      rintro j hj rfl
      exact hx hj
    have hf' : Chain (fun j => (lfibget t.disk j).ib_next) LF_INULL ifree fl := by
      refine hf.frame fun j hj => congrArg Lfiblk.ib_next (hget j ?_ (hne' j (List.mem_append_right _ hj)))
      exact hir j (List.mem_cons_of_mem _ (List.mem_append_right _ hj))
    rw [truncateLoop_succ, if_neg hend, ← ht]
    by_cases hlast : (lfibget s.disk i).ib_next = LF_INULL
    · -- the last index block of the file: the free list is next
      have hnil : is = [] := hrest.head_eq_nil.mp hlast
      subst hnil
      have hnext : (cleared ifree (lfibget s.disk i)).ib_next = ifree := if_pos hlast
      have htake : ns.take 16 = ns := List.take_of_length_le hlen
      obtain ⟨k, rfl⟩ := Nat.exists_eq_succ_of_ne_zero (Nat.ne_of_gt (Nat.lt_of_succ_lt_succ hk))
      rw [hnext, truncateLoop_succ, if_pos rfl]
      rw [htake] at F hsect
      refine ⟨t, rfl, F.good, F.chain, ⟨rfl, hnull, ?_⟩, F.dir, hsect, fun j hj hm => hget j hj ?_, F.tab, F.present⟩
      · change Chain _ _ (lfibget t.disk i).ib_next fl
        rw [hself, hnext]
        exact hf'
      · rintro rfl
        exact hm List.mem_cons_self
    · have hnext : (cleared ifree (lfibget s.disk i)).ib_next = (lfibget s.disk i).ib_next := if_neg hlast
      have hrest' : Chain (fun j => (lfibget t.disk j).ib_next) LF_INULL (lfibget s.disk i).ib_next is := by
        refine hrest.frame fun j hj => congrArg Lfiblk.ib_next (hget j ?_ (hne' j (List.mem_append_left _ hj)))
        exact hir j (List.mem_cons_of_mem _ (List.mem_append_left _ hj))
      have hperm : (ns.drop 16 ++ ((ns.take 16).reverse ++ fd)).Perm (ns ++ fd) := by
        have h : (ns.drop 16 ++ (ns.take 16).reverse).Perm ns :=
          (List.perm_append_comm.trans ((List.reverse_perm _).append_right _)).trans (List.Perm.of_eq (List.take_append_drop 16 ns))
        rw [← List.append_assoc]
        exact h.append_right fd
      have hdba' : ∀ (m : Nat) (x : Int32), is[m]? = some x → ∀ j : Fin 16,
          (lfibget t.disk x).ib_dba j = (ns.drop 16).getD (16 * m + j) LF_DNULL := by
        intro m x hm j
        have hmem := List.mem_of_getElem? hm
        rw [hget x (hir x (List.mem_cons_of_mem _ (List.mem_append_left _ hmem))) (hne' x (List.mem_append_left _ hmem)),
          hdba (m + 1) x hm j, List.getD_eq_getElem?_getD, List.getD_eq_getElem?_getD, List.getElem?_drop]
        congr 2
        omega
      rw [hnext]
      obtain ⟨s', he, T⟩ := ih F.good F.chain (hperm.nodup_iff.mpr hnd) (fun m hm => hr m (hperm.subset hm)) hrest' hf' hind'
        (fun j hj => hir j (List.mem_cons_of_mem _ hj)) hdba' (by rw [List.length_drop]; rw [List.length_cons] at hlen; omega)
        (fun h => hlast (hrest.head_eq_nil.mpr h)) (Nat.lt_of_succ_lt_succ hk)
      refine ⟨s', he, T.good, ?_, ⟨rfl, hnull, ?_⟩, ?_, fun n hn hm => ?_, fun j hj hm => ?_, T.tab.trans F.tab, T.present.trans F.present⟩
      · have h := T.data
        rw [← List.append_assoc, ← List.reverse_append, List.take_append_drop] at h
        exact h
      · change Chain _ _ (lfibget s'.disk i).ib_next (is ++ fl)
        rw [T.index i hxi (fun h => hx (List.mem_append_left _ h)), hself, hnext]
        exact T.chain
      · rw [T.dir, F.dir]
      · rw [T.sector n hn (fun h => hm (List.mem_of_mem_drop h)), hsect n hn (fun h => hm (List.mem_of_mem_take h))]
      · rw [List.mem_cons, not_or] at hm
        rw [T.index j hj hm.2, hget j hj hm.1]

/-! ## The whole routine -/

theorem length_le_of_index {l : List Int32} (hnd : l.Nodup) (h : ∀ i ∈ l, IsIndex S i) : l.length ≤ 7 * S := by
  have hmap : (l.map fun n => n.toInt.toNat).Nodup := by
    refine List.Nodup.map_on (fun m hm n hn e => Int32.toInt_inj.mp ?_) hnd
    have h1 := (h m hm).1
    have h2 := (h n hn).1
    omega
  have hsub : (l.map fun n => n.toInt.toNat) ⊆ List.range (7 * S) := by
    intro k hk
    obtain ⟨n, hn, rfl⟩ := List.mem_map.mp hk
    obtain ⟨h1, h2⟩ := h n hn
    rw [List.mem_range]
    omega
  have hlen := (List.subperm_of_subset hmap hsub).length_le
  rwa [List.length_map, List.length_range] at hlen

/-- The layout when the blocks of the file are on the free lists. -/
def Layout.truncate (L : Layout) (f : Fin 20) (disk : Disk) : Layout where
  ix i := if i ∈ L.ilist (some f) then lfibget disk i else L.ix i
  dat n := if n ∈ L.dlist (some f) then disk.sector n else L.dat n
  ilist := moved L.ilist (some f) none [] (L.ilist (some f) ++ L.ilist none)
  dlist := moved L.dlist (some f) none [] ((L.dlist (some f)).reverse ++ L.dlist none)

/-- The control block behind the first part of `lftruncate`. -/
def emptied (lf : Lflcblk) : Lflcblk :=
  { lf with
    lfpos := 0, lfinum := LF_INULL, lfdnum := LF_DNULL, lfbyte := LF_BLKSIZ, lfibdirty := false, lfdbdirty := false }

/-- The first part of `lftruncate`. -/
theorem clearFile_spec (V : View S N (s.one d) L False) (R : Room S N) (hu : s.used d) :
    ∃ t, Sets S N d s t L L False ∧ (t.lfltab d).lfibdirty = false ∧ (t.lfltab d).lfdbdirty = false ∧ t.lf_dir = s.lf_dir ∧
      (s.clearFile d).disk = t.disk ∧ (s.clearFile d).lf_dirpresent = t.lf_dirpresent ∧
      (s.clearFile d).lfltab d = emptied (t.lfltab d) ∧ (∀ e, e ≠ d → (s.clearFile d).lfltab e = t.lfltab e) ∧
      (s.clearFile d).lf_dir = { t.lf_dir with
        lfd_files := Function.update t.lf_dir.lfd_files (t.lfltab d).lfdirptr { t.file d with ld_ilist := LF_INULL, ld_size := 0 } } := by
  obtain ⟨h1, htab, hdir⟩ := flush_spec V R hu rfl
  unfold clearFile
  simp only
  generalize (if (s.lfltab d).lfibdirty || (s.lfltab d).lfdbdirty then (s.lfflush d).2 else s) = t at h1 htab hdir ⊢
  refine ⟨t, h1, by rw [htab], by rw [htab], hdir, rfl, rfl, ?_, fun e he => setEntry_of_ne he _, ?_⟩
  · change (t.setEntry d _).lfltab d = _
    rw [setEntry_self, htab]
    rfl
  · simp only [setFile, file, setEntry_self, setEntry_dir]

section Lists

variable {f : Fin 20} {disk : Disk}

theorem truncate_ilist : (L.truncate f disk).ilist (some f) = [] := by
  simp only [Layout.truncate]
  exact moved_left (Option.some_ne_none f)

theorem truncate_ifree : (L.truncate f disk).ilist none = L.ilist (some f) ++ L.ilist none := by
  simp only [Layout.truncate]
  exact moved_right

theorem truncate_dlist : (L.truncate f disk).dlist (some f) = [] := by
  simp only [Layout.truncate]
  exact moved_left (Option.some_ne_none f)

theorem truncate_dfree : (L.truncate f disk).dlist none = (L.dlist (some f)).reverse ++ L.dlist none := by
  simp only [Layout.truncate]
  exact moved_right

theorem truncate_of_ne {g : Fin 20} (hg : g ≠ f) : (L.truncate f disk).ilist (some g) = L.ilist (some g) ∧
    (L.truncate f disk).dlist (some g) = L.dlist (some g) := by
  have hne : some g ≠ some f := fun e => hg (Option.some.inj e)
  simp only [Layout.truncate]
  exact ⟨moved_of_ne hne (Option.some_ne_none g), moved_of_ne hne (Option.some_ne_none g)⟩

theorem truncate_iarea : (L.truncate f disk).iarea f = L.iarea f := by
  rw [Layout.iarea, truncate_ilist, truncate_ifree, List.nil_append]
  rfl

theorem truncate_darea : ((L.truncate f disk).darea f).Perm (L.darea f) := by
  rw [Layout.darea, truncate_dlist, truncate_dfree, List.nil_append]
  exact (List.reverse_perm _).append_right _

end Lists

/-- The blocks of the file have gone to the free lists. -/
theorem View.truncate {x : OneFile} {u : Lfs} (V : View S N x L False) (hib : x.lf.lfibdirty = false) (hdb : x.lf.lfdbdirty = false)
    (hs : s.disk = x.disk) (htab : s.lfltab d = emptied x.lf)
    (hdir : s.lf_dir = { x.dir with
      lfd_files := Function.update x.dir.lfd_files x.lf.lfdirptr { x.ld with ld_ilist := LF_INULL, ld_size := 0 } })
    (T : Truncates S N s u x.ld.ld_ilist (L.ilist (some x.lf.lfdirptr)) (L.ilist none) (L.dlist (some x.lf.lfdirptr)) (L.dlist none)) :
    View S N ⟨u.disk, { u.lf_dir with lfd_ifree := x.ld.ld_ilist }, u.lfltab d⟩ (L.truncate x.lf.lfdirptr u.disk) False ∧
      Frame S N x ⟨u.disk, { u.lf_dir with lfd_ifree := x.ld.ld_ilist }, u.lfltab d⟩ L (L.truncate x.lf.lfdirptr u.disk) := by
  have hlf : u.lfltab d = emptied x.lf := by rw [T.tab, htab]
  rw [hlf]
  have hfiles : u.lf_dir.lfd_files =
      Function.update x.dir.lfd_files x.lf.lfdirptr { x.ld with ld_ilist := LF_INULL, ld_size := 0 } := by
    rw [T.dir, hdir]
  have hnum : u.lf_dir.lfd_nfiles = x.dir.lfd_nfiles := by rw [T.dir, hdir]
  have hld : u.lf_dir.lfd_files x.lf.lfdirptr = { x.ld with ld_ilist := LF_INULL, ld_size := 0 } := by
    rw [hfiles]
    exact Function.update_self _ _ _
  have hiarea : (L.truncate x.lf.lfdirptr u.disk).iarea x.lf.lfdirptr = L.iarea x.lf.lfdirptr := truncate_iarea
  have hdarea : ((L.truncate x.lf.lfdirptr u.disk).darea x.lf.lfdirptr).Perm (L.darea x.lf.lfdirptr) := truncate_darea
  have hix : ∀ i ∈ L.iarea x.lf.lfdirptr, (L.truncate x.lf.lfdirptr u.disk).ix i = lfibget u.disk i := by
    intro i hi
    by_cases hm : i ∈ L.ilist (some x.lf.lfdirptr)
    · exact if_pos hm
    · refine (if_neg hm).trans ?_
      rw [T.index i (V.irange i hi) hm, hs]
      exact V.index_eq hib hi
  have hdat : ∀ n ∈ L.darea x.lf.lfdirptr, (L.truncate x.lf.lfdirptr u.disk).dat n = u.disk.sector n := by
    intro n hn
    by_cases hm : n ∈ L.dlist (some x.lf.lfdirptr)
    · exact if_pos hm
    · refine (if_neg hm).trans ?_
      rw [T.sector n (V.drange n hn) hm, hs]
      exact V.data_eq hdb hn
  refine ⟨⟨T.good, ?_, ?_, ?_, ?_, ?_, ?_, ⟨?_, ?_, ?_, ?_⟩, fun i hi => Or.inl ?_, fun n hn => Or.inl ?_, Or.inl ⟨rfl, rfl⟩,
    Or.inl ⟨rfl, rfl⟩, Nat.zero_le _⟩, ?_⟩
  · exact hiarea ▸ V.inodup
  · exact fun i hi => V.irange i (hiarea ▸ hi)
  · exact hdarea.nodup_iff.mpr V.dnodup
  · exact fun n hn => V.drange n (hdarea.subset hn)
  · rw [truncate_ifree]
    exact T.chain.frame fun i hi => congrArg Lfiblk.ib_next (hix i hi)
  · rw [truncate_dfree]
    refine T.data.frame fun n hn => congrArg Sector.nextdb (hdat n ?_)
    exact ((List.reverse_perm (L.dlist (some x.lf.lfdirptr))).append_right (L.dlist none)).subset hn
  · change Chain _ LF_INULL (u.lf_dir.lfd_files x.lf.lfdirptr).ld_ilist ((L.truncate x.lf.lfdirptr u.disk).ilist (some x.lf.lfdirptr))
    rw [truncate_ilist, hld]
    rfl
  · intro k i hk
    change ((L.truncate x.lf.lfdirptr u.disk).ilist (some x.lf.lfdirptr))[k]? = some i at hk
    rw [truncate_ilist] at hk
    cases hk
  · change ((L.truncate x.lf.lfdirptr u.disk).dlist (some x.lf.lfdirptr)).length ≤ _
    rw [truncate_dlist]
    exact Nat.zero_le _
  · change (u.lf_dir.lfd_files x.lf.lfdirptr).ld_size.toNat ≤ _
    rw [hld]
    exact Nat.zero_le _
  · exact hix i (hiarea ▸ hi)
  · exact hdat n (hdarea.subset hn)
  · refine ⟨rfl, rfl, rfl, rfl, rfl, hnum, fun g hg => ?_, ?_, fun g hg => ?_, fun g hg => ?_, ?_, hdarea,
      fun i hi hm => ⟨if_neg ?_, ?_⟩, fun n hn hm => ⟨if_neg ?_, ?_⟩⟩
    · change u.lf_dir.lfd_files g = _
      rw [hfiles]
      exact Function.update_of_ne hg _ _
    · have hname := congrArg Ldentry.ld_name hld
      exact hname
    · exact (truncate_of_ne hg).1
    · exact (truncate_of_ne hg).2
    · rw [hiarea]
    · exact fun h => hm (List.mem_append_left _ h)
    · exact (T.index i hi fun h => hm (List.mem_append_left _ h)).trans (by rw [hs])
    · exact fun h => hm (List.mem_append_left _ h)
    · exact (T.sector n hn fun h => hm (List.mem_append_left _ h)).trans (by rw [hs])

/-- `lftruncate` makes the file empty. -/
theorem lftruncate_spec (V : View S N (s.one d) L False) (R : Room S N) (hu : s.used d)
    (hready : (s.lfltab d).lfbyte < 512 → Ready d s L) :
    ∃ s' L', s.lftruncate d = .ok (OK, s') ∧ Acts S N d s s' L L' ∧ (s'.file d).ld_size = 0 ∧ (s'.lfltab d).lfpos = 0 := by
  have hin : (s.lfltab d).lfpos.toNat ≤ (s.file d).ld_size.toNat := V.pos
  by_cases hz : (s.file d).ld_size = 0
  · refine ⟨s, L, if_pos hz, Acts.refl V hready, hz, UInt32.toNat_inj.mp ?_⟩
    rw [hz] at hin
    exact Nat.le_zero.mp hin
  obtain ⟨t, h1, hib, hdb, hdir, hcd, hcp, hct, hco, hcdir⟩ := clearFile_spec V R hu
  have V₁ := h1.view
  have hptr := h1.dirptr
  have hblocks : (L.dlist (some (s.lfltab d).lfdirptr)).length ≤ 16 * (L.ilist (some (s.lfltab d).lfdirptr)).length := V.file.blocks
  have hsize : (s.file d).ld_size.toNat ≤ 512 * (L.dlist (some (s.lfltab d).lfdirptr)).length := V.file.size
  have hpos : (s.file d).ld_size.toNat ≠ 0 := fun h => hz (UInt32.toNat_inj.mp h)
  have hiarea : L.iarea (t.lfltab d).lfdirptr = L.iarea (s.lfltab d).lfdirptr := by rw [hptr]
  have hdarea : L.darea (t.lfltab d).lfdirptr = L.darea (s.lfltab d).lfdirptr := by rw [hptr]
  have hix : ∀ i ∈ L.iarea (s.lfltab d).lfdirptr, lfibget (s.clearFile d).disk i = L.ix i := by
    intro i hi
    rw [hcd]
    exact (V₁.index_eq hib (hiarea ▸ hi)).symm
  have hdat : ∀ n ∈ L.darea (s.lfltab d).lfdirptr, (s.clearFile d).disk.sector n = L.dat n := by
    intro n hn
    rw [hcd]
    exact (V₁.data_eq hdb (hdarea ▸ hn)).symm
  have hdfree : (s.clearFile d).lf_dir.lfd_dfree = s.lf_dir.lfd_dfree := by rw [hcdir, hdir]
  have hifree : (s.clearFile d).lf_dir.lfd_ifree = s.lf_dir.lfd_ifree := by rw [hcdir, hdir]
  have hlen : (L.ilist (some (s.lfltab d).lfdirptr)).length < 2147483648 := by
    have h : (L.ilist (some (s.lfltab d).lfdirptr)).length ≤ 7 * S :=
      length_le_of_index (List.nodup_append.mp V.inodup).1 fun i hi => V.irange i (List.mem_append_left _ hi)
    have hS := R.data
    have hN := R.small
    omega
  have hdchain : Chain (fun n => ((s.clearFile d).disk.sector n).nextdb) LF_DNULL (s.clearFile d).lf_dir.lfd_dfree (L.dlist none) := by
    rw [hdfree]
    exact V.dfree.frame fun n hn => congrArg Sector.nextdb (hdat n (List.mem_append_right _ hn))
  have hchain : Chain (fun j => (lfibget (s.clearFile d).disk j).ib_next) LF_INULL (s.file d).ld_ilist
      (L.ilist (some (s.lfltab d).lfdirptr)) :=
    V.file.chain.frame fun i hi => congrArg Lfiblk.ib_next (hix i (List.mem_append_left _ hi))
  have hfchain : Chain (fun j => (lfibget (s.clearFile d).disk j).ib_next) LF_INULL (s.clearFile d).lf_dir.lfd_ifree
      (L.ilist none) := by
    rw [hifree]
    exact V.ifree.frame fun i hi => congrArg Lfiblk.ib_next (hix i (List.mem_append_right _ hi))
  have hdba : ∀ (k : Nat) (i : Int32), (L.ilist (some (s.lfltab d).lfdirptr))[k]? = some i → ∀ j : Fin 16,
      (lfibget (s.clearFile d).disk i).ib_dba j = (L.dlist (some (s.lfltab d).lfdirptr)).getD (16 * k + j) LF_DNULL := by
    intro k i hk j
    rw [hix i (List.mem_append_left _ (List.mem_of_getElem? hk))]
    exact (V.file.index k i hk).2 j
  have hne : L.ilist (some (s.lfltab d).lfdirptr) ≠ [] := by
    intro h
    rw [h, List.length_nil] at hblocks
    omega
  have hgood : (s.clearFile d).disk.bad = false := by
    rw [hcd]
    exact V₁.good
  have hdnodup : (L.dlist (some (s.lfltab d).lfdirptr) ++ L.dlist none).Nodup := V.dnodup
  obtain ⟨u, he, T⟩ := truncateLoop_spec R hgood hdchain hdnodup V.drange hchain hfchain V.inodup V.irange hdba hblocks hne hlen
  have hfile : t.file d = s.file d := by rw [file, file, hdir, hptr]
  rw [← hfile, ← hptr] at T
  obtain ⟨V₂, F₂⟩ := View.truncate V₁ hib hdb hcd hct hcdir T
  obtain ⟨s', hs'⟩ : ∃ s', s' = { u with lf_dir := { u.lf_dir with lfd_ifree := (s.file d).ld_ilist }, lf_dirdirty := true } := ⟨_, rfl⟩
  have htab : s'.lfltab d = emptied (t.lfltab d) := by
    rw [hs', ← hct, ← T.tab]
  have hone : s'.one d = ⟨u.disk, { u.lf_dir with lfd_ifree := (t.one d).ld.ld_ilist }, u.lfltab d⟩ := by
    rw [hs']
    exact congrArg (fun i => (⟨u.disk, { u.lf_dir with lfd_ifree := i }, u.lfltab d⟩ : OneFile)) (congrArg Ldentry.ld_ilist hfile.symm)
  have hrun : s.lftruncate d = .ok (OK, s') := by
    unfold lftruncate
    rw [if_neg hz, hs']
    simp only [he]
  have hld : s'.file d = { t.file d with ld_ilist := LF_INULL, ld_size := 0 } := by
    have hfiles : s'.lf_dir.lfd_files = (s.clearFile d).lf_dir.lfd_files := by
      rw [hs']
      change u.lf_dir.lfd_files = _
      rw [T.dir]
    rw [file, hfiles, htab, hcdir]
    exact Function.update_self _ _ _
  have hzero : (s'.file d).ld_size = 0 := by rw [hld]
  have hcheck : lfscheck s'.lf_dir = lfscheck s.lf_dir := by
    have h : lfscheck u.lf_dir = lfscheck (s.clearFile d).lf_dir := by rw [T.dir]; rfl
    rw [hs']
    change lfscheck u.lf_dir = _
    rw [h, hcdir, hdir]
    rfl
  refine ⟨s', L.truncate (t.lfltab d).lfdirptr u.disk, hrun, ⟨hone ▸ V₂, h1.frame.trans (hone ▸ F₂), fun e hne => ?_, ?_, fun h => ?_,
    fun _ => ⟨?_, ?_⟩, fun hv => hcheck.trans hv, fun hs => Saved.dirty (hcheck.trans hs.valid) (by rw [hs'])⟩, hzero,
    by rw [htab]; rfl⟩
  · rw [hs']
    change u.lfltab e = _
    rw [T.tab, hco e hne]
    exact h1.others e hne
  · rw [hs']
    exact T.present.trans (hcp.trans h1.present)
  · rw [htab] at h
    exact absurd h (Nat.lt_irrefl 512)
  · rw [← hptr, truncate_ilist, hzero]
    rfl
  · rw [← hptr, truncate_dlist, hzero]
    rfl

end Truncate

end Lfs

end Xinu
