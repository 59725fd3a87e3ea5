import Xinu.Lfs.Layout

/-!
# The directory on the disk

`lfsopen` does not mark the directory as dirty when it adds a file. So the directory on the disk, when the one in memory is not dirty,
may lack the files that were created last; nothing was written to them.
-/

namespace Xinu

namespace Lfs

/-- The directory `D` on the disk stands for the directory `dir` in memory. -/
structure Image (D dir : Lfdir) : Prop where
  valid : lfscheck D = OK
  ifree : D.lfd_ifree = dir.lfd_ifree
  dfree : D.lfd_dfree = dir.lfd_dfree
  nfiles : D.lfd_nfiles.toInt ≤ dir.lfd_nfiles.toInt
  files : ∀ f : Fin 20, (f : Int) < D.lfd_nfiles.toInt → D.lfd_files f = dir.lfd_files f
  fresh : ∀ f : Fin 20, D.lfd_nfiles.toInt ≤ f → (f : Int) < dir.lfd_nfiles.toInt →
    (dir.lfd_files f).ld_size = 0 ∧ (dir.lfd_files f).ld_ilist = LF_INULL

/-- The directory that `lfsopen` would read. -/
def onDisk (s : Lfs) : Lfdir := Lfdir.ofBytes (s.disk.sector LF_AREA_DIR)

/-- The directory in memory is dirty, or the one on the disk stands for it. -/
structure Saved (s : Lfs) : Prop where
  valid : lfscheck s.lf_dir = OK
  image : s.lf_dirdirty = true ∨ Image s.onDisk s.lf_dir

theorem Image.refl {dir : Lfdir} (h : lfscheck dir = OK) : Image dir dir :=
  ⟨h, rfl, rfl, Int.le_refl _, fun _ _ => rfl, fun _ h1 h2 => absurd h2 (by omega)⟩

theorem nfiles_nonneg {dir : Lfdir} (h : lfscheck dir = OK) : 0 ≤ dir.lfd_nfiles.toInt := by
  by_contra hneg
  have hlt : dir.lfd_nfiles < 0 := Int32.lt_iff_toInt_lt.mpr (by simpa using Int.not_le.mp hneg)
  have hne : ¬SYSERR = OK := by decide
  unfold lfscheck at h
  rw [if_pos hlt] at h
  split at h
  · exact hne h
  · split at h <;> exact hne h

namespace Saved

variable {s s' : Lfs} {S N : Nat} {n i : Int32}

/-- Neither the directory nor its sector is written. -/
theorem frame (h : Saved s) (hsect : s'.disk.sector LF_AREA_DIR = s.disk.sector LF_AREA_DIR) (hdir : s'.lf_dir = s.lf_dir)
    (hdirty : s'.lf_dirdirty = s.lf_dirdirty) : Saved s' := by
  refine ⟨hdir ▸ h.valid, ?_⟩
  rw [hdirty, hdir, onDisk, hsect]
  exact h.image

/-- The directory is on the disk as it is in memory. -/
theorem written (hv : lfscheck s.lf_dir = OK) (hsect : s.disk.sector LF_AREA_DIR = s.lf_dir.bytes) : Saved s := by
  refine ⟨hv, Or.inr ?_⟩
  rw [onDisk, hsect, Lfdir.ofBytes_bytes]
  exact Image.refl hv

theorem dirty (hv : lfscheck s.lf_dir = OK) (hd : s.lf_dirdirty = true) : Saved s := ⟨hv, Or.inl hd⟩

/-- `writeDir` saves the directory. -/
theorem writeDir (hb : s.disk.bad = false) (hv : lfscheck s.lf_dir = OK) : Saved s.writeDir :=
  written hv (write_self hb _ _)

end Saved

end Lfs

end Xinu
