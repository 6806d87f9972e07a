import Udfs.Rom.Block

/-!
# Block and catalogue transfers

The routines above the filing system's own: the check that a drive may be written, a block
transfer, and the transfer of a whole catalogue.  Two stubs of this version are replaced by
what they stand for: `mmc_write_block` stores the block and `mmc_write_cat` the catalogue,
and a block load delivers the sectors that were computed.
-/

namespace Udfs.Rom

/-- `n` bytes of `src` from `p` on, put into `dst` from `q` on. -/
def copyBytes (src : ℕ → Byte) (p q n : ℕ) (dst : ℕ → Byte) : ℕ → Byte :=
  fun a => if q ≤ a ∧ a < q + n then src (p + (a - q)) else dst a

lemma copyBytes_apply (src dst : ℕ → Byte) (p q : ℕ) {n i : ℕ} (h : i < n) :
    copyBytes src p q n dst (q + i) = src (p + i) := by
  rw [copyBytes, if_pos (by omega), Nat.add_sub_cancel_left]

lemma copyBytes_of_not (src dst : ℕ → Byte) {p q n a : ℕ} (h : a < q ∨ q + n ≤ a) :
    copyBytes src p q n dst a = dst a := by
  rw [copyBytes, if_neg (by omega)]

/-- Copying through a buffer. -/
lemma copyBytes_through (a b d : ℕ → Byte) (p q r n : ℕ) :
    copyBytes (copyBytes a p q n b) q r n d = copyBytes a p r n d := by
  funext x
  simp only [copyBytes]
  split_ifs <;> first | rfl | omega | (congr 1; omega)

/-- Bytes moved down in two parts, the first of them first. -/
lemma copyBytes_append (d : ℕ → Byte) {p q : ℕ} (n m : ℕ) (h : q ≤ p) :
    copyBytes (copyBytes d p q n d) (p + n) (q + n) m (copyBytes d p q n d)
      = copyBytes d p q (n + m) d := by
  funext x
  simp only [copyBytes]
  split_ifs <;> first | rfl | omega | (congr 1; omega)

/-- `$aa2d`: leave with an error unless drive `x` may be written. -/
def checkWrite (x : Byte) : Routine Unit := do
  let s ← Prog.get
  if x = 0xff ∨ 128 ≤ (s.diskHi x).toNat then Prog.fail .noDisk
  else if ~~~ s.diskHi x ≠ s.diskHiInv x ∨ ~~~ s.diskLo x ≠ s.diskLoInv x then do
    -- `$aa61`: the table is damaged, the disk is taken out of the drive
    Prog.modify fun s => { s with diskHi := Function.update s.diskHi x 0xff }
    Prog.fail .noDisk
  else if s.diskMark x = 0x54 then pure ()
  else Prog.fail .diskReadOnly

/-- `mmc_load_mem_block`. -/
def loadMemBlock (r : BlockReq) : Routine Unit := do
  let b ← blockSetup r
  Prog.modify fun s => { s with
    mem := copyBytes s.disk (256 * b.sector.val) b.dataPtr.toNat r.byteLength s.mem }

/-- `mmc_save_mem_block`. -/
def saveMemBlock (r : BlockReq) : Routine Unit := do
  let b ← blockSetup r
  let s ← Prog.get
  checkWrite s.curDrv
  Prog.modify fun s => { s with
    disk := copyBytes s.mem b.dataPtr.toNat (256 * b.sector.val) r.byteLength s.disk }

/-- `mmc_load_cur_drv_cat`. -/
def loadCurDrvCat : Routine Unit := do
  let s ← Prog.get
  let _ ← drvBaseSector s.curDrv
  Prog.modify fun s => { s with cat := s.cats (s.catNo s.curDrv), curDrvCat := s.curDrv }

/-- `mmc_save_cur_drv_cat`. -/
def saveCurDrvCat : Routine Unit := do
  let s ← Prog.get
  checkWrite s.curDrv
  let _ ← drvBaseSector s.curDrv
  Prog.modify fun s => { s with cats := Function.update s.cats (s.catNo s.curDrv) s.cat }

/-! ## What they do -/

namespace State

/-- Drive `x` passes the checks of `$aa2d`. -/
def CanWrite (s : State) (x : Byte) : Prop :=
  x ≠ 0xff ∧ s.HasDisk x ∧ ~~~ s.diskHi x = s.diskHiInv x ∧ ~~~ s.diskLo x = s.diskLoInv x ∧
    s.diskMark x = 0x54

instance (s : State) (x : Byte) : Decidable (s.CanWrite x) := inferInstanceAs (Decidable (_ ∧ _))

/-- The catalogue that requests for drive `x` reach. -/
def catOf (s : State) (x : Byte) : ℕ → Byte := s.cats (s.catNo x)

/-- The catalogue of the current drive in the buffer. -/
def catLoaded (s : State) : State := { s with cat := s.catOf s.curDrv, curDrvCat := s.curDrv }

/-- The catalogue in the buffer behind the current drive. -/
def catSaved (s : State) : State :=
  { s with cats := Function.update s.cats (s.catNo s.curDrv) s.cat }

/-- The catalogue saved is the one that is read again. -/
lemma catSaved_catOf {s : State} {d : Byte} (hd : s.curDrv = d) : s.catSaved.catOf d = s.cat := by
  rw [← hd]
  exact Function.update_self ..

/-- The first byte of a sector of the disk in the current drive. -/
def sectorAddr (s : State) (k : ℕ) : ℕ := 256 * (800 * s.diskNumber + k)

/-- The sectors of a request in memory. -/
def blockLoaded (s : State) (r : BlockReq) : State :=
  { s with mem := copyBytes s.disk (s.sectorAddr r.start) r.dest r.byteLength s.mem }

/-- The memory of a request in its sectors. -/
def blockSaved (s : State) (r : BlockReq) : State :=
  { s with disk := copyBytes s.mem r.dest (s.sectorAddr r.start) r.byteLength s.disk }

/-- What a failed check leaves: the state, or the state with a disk taken out of its drive. -/
def Ejected (s s' : State) : Prop :=
  s' = s ∨ ∃ x, ¬ s.CanWrite x ∧ s' = { s with diskHi := Function.update s.diskHi x 0xff }

end State

/-- The errors of a drive that may not be written. -/
def Err.Refusal (e : Err) : Prop := e = .noDisk ∨ e = .diskReadOnly

lemma checkWrite_spec (x : Byte) (s : State) :
    Prog.wp (checkWrite x) (fun _ s' => s' = s ∧ s.CanWrite x)
      (fun e s' => s.Ejected s' ∧ ¬ s.CanWrite x ∧ e.Refusal) s := by
  simp only [checkWrite, Prog.wp_bind, Prog.wp_get, Prog.wp_ite, Prog.wp_fail, Prog.wp_pure,
    Prog.wp_modify, true_and]
  refine ⟨fun h => ⟨Or.inl rfl, ?_, Or.inl rfl⟩, fun h => ⟨fun hinv => ?_, fun hinv =>
    ⟨fun hmark => ?_, fun hmark => ⟨Or.inl rfl, fun hw => hmark hw.2.2.2.2, Or.inr rfl⟩⟩⟩⟩
  · rintro ⟨hff, hlt, -⟩
    exact h.elim hff fun hle => absurd hlt (Nat.not_lt.2 hle)
  · have hnot : ¬ s.CanWrite x := fun hw => hinv.elim (fun h1 => h1 hw.2.2.1) fun h2 => h2 hw.2.2.2.1
    exact ⟨Or.inr ⟨x, hnot, rfl⟩, hnot, Or.inl rfl⟩
  · rw [not_or] at h hinv
    exact ⟨h.1, Nat.not_le.1 h.2, not_not.1 hinv.1, not_not.1 hinv.2, hmark⟩

lemma loadCurDrvCat_spec (s : State) :
    Prog.wp loadCurDrvCat (fun _ s' => s' = s.catLoaded ∧ s.HasDisk s.curDrv)
      (fun e s' => s' = s ∧ ¬ s.HasDisk s.curDrv ∧ e = .noDisk) s := by
  simp only [loadCurDrvCat, Prog.wp_bind, Prog.wp_get]
  refine Prog.wp_mono (drvBaseSector_spec s.curDrv s) ?_ fun _ _ h => h
  rintro b s' ⟨rfl, hdisk, -⟩
  exact ⟨rfl, hdisk⟩

lemma loadCurDrvCat_run {s : State} (h : s.HasDisk s.curDrv) :
    loadCurDrvCat.run s = .ok () s.catLoaded := by
  obtain ⟨⟨⟩, s', hrun, rfl, -⟩ := Prog.exists_ok (loadCurDrvCat_spec s) fun _ _ he => he.2.1 h
  exact hrun

lemma loadCurDrvCat_noDisk {s : State} (h : ¬ s.HasDisk s.curDrv) :
    loadCurDrvCat.run s = .err .noDisk s := by
  obtain ⟨e, s', hrun, rfl, -, rfl⟩ :=
    Prog.exists_err (loadCurDrvCat_spec s) fun _ _ hq => h hq.2
  exact hrun

lemma saveCurDrvCat_spec (s : State) :
    Prog.wp saveCurDrvCat (fun _ s' => s' = s.catSaved ∧ s.CanWrite s.curDrv)
      (fun e s' => s.Ejected s' ∧ ¬ s.CanWrite s.curDrv ∧ e.Refusal) s := by
  simp only [saveCurDrvCat, Prog.wp_bind, Prog.wp_get]
  refine Prog.wp_mono (checkWrite_spec s.curDrv s) ?_ fun _ _ h => h
  rintro _ s' ⟨rfl, hw⟩
  refine Prog.wp_mono (drvBaseSector_spec s'.curDrv s') ?_ ?_
  · rintro b s ⟨rfl, -⟩
    exact ⟨rfl, hw⟩
  · rintro e s ⟨rfl, hdisk, -⟩
    exact absurd hw.2.1 hdisk

lemma loadMemBlock_spec (r : BlockReq) (s : State) :
    Prog.wp (loadMemBlock r) (fun _ s' => s' = s.blockLoaded r) (fun _ s' => s' = s) s := by
  simp only [loadMemBlock, Prog.wp_bind]
  refine Prog.wp_mono (blockSetup_spec r s) ?_ fun _ _ h => h
  rintro b s' ⟨rfl, hb⟩
  rw [Prog.wp_modify, hb.sector_val, hb.dataPtr_eq]
  rfl

lemma saveMemBlock_spec (r : BlockReq) (s : State) :
    Prog.wp (saveMemBlock r) (fun _ s' => s' = s.blockSaved r) (fun _ s' => s.Ejected s') s := by
  simp only [saveMemBlock, Prog.wp_bind]
  refine Prog.wp_mono (blockSetup_spec r s) ?_ fun _ _ h => Or.inl h
  rintro b s' ⟨rfl, hb⟩
  rw [Prog.wp_get]
  refine Prog.wp_mono (checkWrite_spec s'.curDrv s') ?_ fun _ _ h => h.1
  rintro _ s ⟨rfl, -⟩
  rw [Prog.wp_modify, hb.sector_val, hb.dataPtr_eq]
  rfl

section Sectors

variable {r : BlockReq} {s : State} (h2 : r.c2 = 0) (h4 : r.c4.toNat < 4)
  (hin : r.start + r.c3.toNat ≤ 800)

include h2 h4 hin

/-- Whole sectors of the disk are loaded. -/
lemma loadMemBlock_run (hdisk : s.HasDisk s.curDrv) :
    (loadMemBlock r).run s = .ok () (s.blockLoaded r) := by
  obtain ⟨b, hrun, hb⟩ := blockSetup_run hdisk h2 h4 hin
  rw [loadMemBlock, Prog.run_bind_ok hrun, Prog.run_modify, hb.sector_val, hb.dataPtr_eq]
  rfl

/-- Whole sectors are saved on a disk that may be written. -/
lemma saveMemBlock_run (hw : s.CanWrite s.curDrv) :
    (saveMemBlock r).run s = .ok () (s.blockSaved r) := by
  obtain ⟨b, hrun, hb⟩ := blockSetup_run hw.2.1 h2 h4 hin
  obtain ⟨_, t, hcheck, rfl, -⟩ :=
    Prog.exists_ok (checkWrite_spec s.curDrv s) fun _ _ he => he.2.1 hw
  rw [saveMemBlock, Prog.run_bind_ok hrun, Prog.run_bind_ok (Prog.run_get t), Prog.run_bind_ok hcheck,
    Prog.run_modify, hb.sector_val, hb.dataPtr_eq]
  rfl

end Sectors

lemma saveCurDrvCat_run {s : State} (hw : s.CanWrite s.curDrv) :
    saveCurDrvCat.run s = .ok () s.catSaved := by
  obtain ⟨⟨⟩, s', hrun, rfl, -⟩ := Prog.exists_ok (saveCurDrvCat_spec s) fun _ _ he => he.2.1 hw
  exact hrun

/-! ## Over the link

`mmc_load_mem_block` over the link to the server, and the load that delivers the sectors that
were computed.
-/

/-- Bytes stored one after the other, where the address does not wrap. -/
lemma storeBytes_eq_copyBytes (src : ℕ → Byte) (p n : ℕ) (mem : ℕ → Byte) {q : ℕ}
    (hq : q + n ≤ 65536) :
    storeBytes mem q ((List.range n).map fun i => src (p + i)) = copyBytes src p q n mem := by
  set l := (List.range n).map fun i => src (p + i) with hl
  have hlen : l.length = n := by simp [l]
  funext a
  by_cases ha : q ≤ a ∧ a < q + n
  · obtain ⟨i, rfl⟩ := Nat.exists_eq_add_of_le ha.1
    have hi : i < n := by omega
    have hstore := storeBytes_apply l mem q i (by omega) (by omega)
    rw [Nat.mod_eq_of_lt (by omega)] at hstore
    rw [hstore, copyBytes_apply _ _ _ _ hi]
    simp [l]
  · rw [copyBytes_of_not _ _ (by omega)]
    exact storeBytes_of_ne l mem q a fun j hj => by rw [Nat.mod_eq_of_lt (by omega)]; omega

/-- With disk 0 in the drive, an image that is the disk, and a destination that does not run over
`$ffff`, the load over the link is the other one. -/
theorem mmcLoadMemBlock_eq_load (img : Server.DiskImage) (m : Server.Memory) (f : Server.Files)
    {r : BlockReq} {s : State} (hzero : s.diskNumber = 0)
    (himg : ∀ i < Server.imageSize, img.byteAt i = s.disk i)
    (hwrap : r.dest + r.byteLength ≤ 65536) :
    mmcLoadMemBlock (faithfulLink img m f) r s = some ((loadMemBlock r).run s) := by
  cases hpass : (blockSetup r).run s with
  | err e s' => simp only [mmcLoadMemBlock, loadMemBlock, Prog.run_bind, hpass]
  | ok b s' =>
    obtain ⟨rfl, hb⟩ := (Prog.wp_of_ok hpass).1 (blockSetup_spec r s)
    have hsector := hb.sector_val
    have hinside := hb.inside
    have hbytes : 256 * b.sector.val + r.byteLength ≤ Server.imageSize := by
      simp only [Server.imageSize, sectorsOf] at hinside ⊢
      omega
    have hin : Server.InImage (256 * b.sector.val) r.byteLength := Or.inr hbytes
    have hmod : b.sector.val % 1024 = b.sector.val := by
      simp only [sectorsOf] at hinside
      omega
    rw [mmcLoadMemBlock_eq hpass, hmod, if_pos hin, loadMemBlock,
      Prog.run_bind_ok hpass, Prog.run_modify, hb.dataPtr_eq, ← storeBytes_eq_copyBytes _ _ _ _ hwrap]
    congr 4
    exact List.map_congr_left fun i hi => himg _ (by have := List.mem_range.1 hi; omega)

end Udfs.Rom
