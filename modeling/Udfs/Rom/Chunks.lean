import Udfs.Rom.Compact

/-!
# Copying sectors in chunks

`*COPY` and `*BACKUP` take sectors from one drive to another, or down on the same drive, through
a buffer of a number of pages.  Here a drive is the contents of its sectors and the memory the
contents of its pages, whatever a page may hold, and a block transfer moves the pages it is asked
for and no others.
-/

namespace Udfs.Rom

variable {Page : Type*}

/-! ## The loop -/

/-- The buffer at `$10d0`, its size at `$10d1`, and the drives at `$10d2` and `$10d3`. -/
structure CopyParams where
  bufPage : Byte
  bufSize : Byte
  srcDrv : Byte
  dstDrv : Byte

/-- What the loop works on: every drive, the memory, the block it transfers, and the three numbers
from `$c6` on. -/
structure Copier (Page : Type*) where
  drives : Byte → ℕ → Page
  mem : Byte → Page
  curDrv : Byte
  bf : Byte
  c3 : Byte
  c4 : Byte
  c5 : Byte
  pages : Num16
  src : Num16
  dst : Num16

namespace Copier

/-- The sector that a block transfer begins at. -/
def sector (s : Copier Page) : ℕ := 256 * s.c4.toNat + s.c5.toNat

/-- `$87c6`: `$c3` sectors to the page at `$bf`. -/
def loadPages (s : Copier Page) : Copier Page :=
  { s with mem := fun p =>
      if (p - s.bf).toNat < s.c3.toNat then s.drives s.curDrv (s.sector + (p - s.bf).toNat)
      else s.mem p }

/-- `$878f`: `$c3` sectors from the page at `$bf`. -/
def savePages (s : Copier Page) : Copier Page :=
  { s with drives := fun d n =>
      if d = s.curDrv ∧ s.sector ≤ n ∧ n < s.sector + s.c3.toNat
      then s.mem (s.bf + BitVec.ofNat 8 (n - s.sector))
      else s.drives d n }

/-- The body of `move_file_loop`. -/
def chunk (p : CopyParams) (s : Copier Page) : Copier Page :=
  let s := { s with c3 := chunkOf s.pages p.bufSize }
  let s := { s with c5 := s.src.lo, c4 := s.src.hi, bf := p.bufPage, curDrv := p.srcDrv }
  let s := s.loadPages
  let s := { s with c5 := s.dst.lo, c4 := s.dst.hi, bf := p.bufPage, curDrv := p.dstDrv }
  let s := s.savePages
  { s with
    dst := s.dst.addPages s.c3
    src := s.src.addPages s.c3
    pages := s.pages.subPages s.c3 }

/-- `move_file_loop`, for at most so many passes. -/
def moveFileLoop (p : CopyParams) : ℕ → Copier Page → Option (Copier Page)
  | 0, _ => none
  | k + 1, s =>
      let s := s.chunk p
      if s.pages.lo ||| s.pages.hi = 0 then some s else moveFileLoop p k s

end Copier

/-! ## What is copied -/

/-- `n` sectors from `src` on of one drive, put from `dst` on into another. -/
def copySectors (drives : Byte → ℕ → Page) (sd dd : Byte) (src dst n : ℕ) : Byte → ℕ → Page :=
  fun d i => if d = dd ∧ dst ≤ i ∧ i < dst + n then drives sd (src + (i - dst)) else drives d i

section Sectors

variable (drives : Byte → ℕ → Page) {sd dd : Byte} {src dst : ℕ}

lemma copySectors_apply {n i : ℕ} (h : i < n) :
    copySectors drives sd dd src dst n dd (dst + i) = drives sd (src + i) := by
  rw [copySectors, if_pos ⟨rfl, by omega, by omega⟩, Nat.add_sub_cancel_left]

lemma copySectors_of_not {n i : ℕ} {d : Byte} (h : d ≠ dd ∨ i < dst ∨ dst + n ≤ i) :
    copySectors drives sd dd src dst n d i = drives d i := by
  refine if_neg ?_
  rintro ⟨rfl, hle, hlt⟩
  obtain h | h | h := h
  · exact h rfl
  · omega
  · omega

/-- A copy in two parts, the lower one first, when it does not go up on one drive. -/
lemma copySectors_append (n m : ℕ) (h : sd = dd → dst ≤ src) :
    copySectors (copySectors drives sd dd src dst n) sd dd (src + n) (dst + n) m
      = copySectors drives sd dd src dst (n + m) := by
  funext d i
  by_cases hd : d = dd
  · subst hd
    by_cases hlow : i < dst
    · rw [copySectors_of_not _ (by omega), copySectors_of_not _ (by omega),
        copySectors_of_not _ (by omega)]
    obtain ⟨j, rfl⟩ := Nat.exists_eq_add_of_le (Nat.le_of_not_lt hlow)
    by_cases hfirst : j < n
    · rw [copySectors_of_not _ (by omega), copySectors_apply _ hfirst,
        copySectors_apply _ (by omega)]
    obtain ⟨k, rfl⟩ := Nat.exists_eq_add_of_le (Nat.le_of_not_lt hfirst)
    by_cases hsecond : k < m
    · -- the sector read now lies above everything written before
      rw [← Nat.add_assoc, copySectors_apply _ hsecond, Nat.add_assoc dst,
        copySectors_apply _ (by omega), copySectors_of_not, Nat.add_assoc]
      by_cases hs : sd = d
      · exact .inr (.inr (by have := h hs; omega))
      · exact .inl hs
    · rw [copySectors_of_not _ (by omega), copySectors_of_not _ (by omega),
        copySectors_of_not _ (by omega)]
  · rw [copySectors_of_not _ (.inl hd), copySectors_of_not _ (.inl hd),
      copySectors_of_not _ (.inl hd)]

end Sectors

/-! ## One pass -/

namespace Copier

variable {p : CopyParams} (s : Copier Page)

/-- A chunk goes through the buffer unchanged, wherever the buffer lies. -/
lemma chunk_drives : (s.chunk p).drives =
    copySectors s.drives p.srcDrv p.dstDrv s.src.val s.dst.val (chunkOf s.pages p.bufSize).toNat := by
  have hsrc : 256 * s.src.hi.toNat + s.src.lo.toNat = s.src.val := Nat.add_comm _ _
  have hdst : 256 * s.dst.hi.toNat + s.dst.lo.toNat = s.dst.val := Nat.add_comm _ _
  have hlt := byte_lt (chunkOf s.pages p.bufSize)
  funext d n
  simp only [chunk, loadPages, savePages, sector, hsrc, hdst, copySectors]
  by_cases h : d = p.dstDrv ∧ s.dst.val ≤ n ∧ n < s.dst.val + (chunkOf s.pages p.bufSize).toNat
  · have hpage : (p.bufPage + BitVec.ofNat 8 (n - s.dst.val) - p.bufPage).toNat = n - s.dst.val := by
      rw [BitVec.add_comm, BitVec.add_sub_cancel, BitVec.toNat_ofNat]
      omega
    rw [if_pos h, if_pos h, hpage, if_pos (by omega)]
  · rw [if_neg h, if_neg h]

lemma chunk_pages : (s.chunk p).pages.val = s.pages.val - min s.pages.val p.bufSize.toNat := by
  have hc := chunkOf_toNat s.pages p.bufSize
  have hpages := Num16.subPages_val (n := s.pages) (k := chunkOf s.pages p.bufSize) (by omega)
  rw [← hc]
  exact hpages

lemma chunk_src (h : s.src.val + s.pages.val < 65536) :
    (s.chunk p).src.val = s.src.val + min s.pages.val p.bufSize.toNat := by
  have hc := chunkOf_toNat s.pages p.bufSize
  have hsrc := Num16.addPages_val (n := s.src) (k := chunkOf s.pages p.bufSize) (by omega)
  rw [← hc]
  exact hsrc

lemma chunk_dst (h : s.dst.val + s.pages.val < 65536) :
    (s.chunk p).dst.val = s.dst.val + min s.pages.val p.bufSize.toNat := by
  have hc := chunkOf_toNat s.pages p.bufSize
  have hdst := Num16.addPages_val (n := s.dst) (k := chunkOf s.pages p.bufSize) (by omega)
  rw [← hc]
  exact hdst

/-! ## The run -/

/-- What the loop leaves: so many sectors copied, and both sector numbers moved on. -/
structure Done (p : CopyParams) (s t : Copier Page) : Prop where
  drives : t.drives
    = copySectors s.drives p.srcDrv p.dstDrv s.src.val s.dst.val s.pages.val
  src : t.src.val = s.src.val + s.pages.val
  dst : t.dst.val = s.dst.val + s.pages.val

lemma moveFileLoop_run (hb : p.bufSize ≠ 0) (k : ℕ) : ∀ s : Copier Page, s.pages.val ≤ k →
    0 < s.pages.val → s.src.val + s.pages.val < 65536 → s.dst.val + s.pages.val < 65536 →
    (p.srcDrv = p.dstDrv → s.dst.val ≤ s.src.val) →
    ∃ t, (∀ j, s.pages.val ≤ j → moveFileLoop p j s = some t) ∧ Done p s t := by
  have hbuf : p.bufSize.toNat ≠ 0 := fun h => hb (toNat_eq_zero.1 h)
  induction k with
  | zero => intro s hk h0; omega
  | succ k ih =>
      intro s _ h0 hs hd hover
      have hc := chunkOf_toNat s.pages p.bufSize
      have hdrives := s.chunk_drives (p := p)
      have hpages := s.chunk_pages (p := p)
      have hsrc := s.chunk_src (p := p) hs
      have hdst := s.chunk_dst (p := p) hd
      rw [hc] at hdrives
      set m := min s.pages.val p.bufSize.toNat with hm
      by_cases hlast : (s.chunk p).pages.val = 0
      · have hall : m = s.pages.val := by omega
        rw [hall] at hdrives hsrc hdst
        refine ⟨s.chunk p, fun j hj => ?_, hdrives, hsrc, hdst⟩
        obtain ⟨j, rfl⟩ := Nat.exists_eq_succ_of_ne_zero (by omega : j ≠ 0)
        rw [moveFileLoop, if_pos (Num16.val_eq_zero.2 hlast)]
      · obtain ⟨t, hrun, hdone⟩ := ih (s.chunk p) (by omega) (by omega) (by omega) (by omega)
          (fun h => by have := hover h; omega)
        refine ⟨t, fun j hj => ?_, ?_, ?_, ?_⟩
        · obtain ⟨j, rfl⟩ := Nat.exists_eq_succ_of_ne_zero (by omega : j ≠ 0)
          rw [moveFileLoop, if_neg fun h => hlast (Num16.val_eq_zero.1 h)]
          exact hrun j (by omega)
        · have hsplit : s.pages.val = m + (s.chunk p).pages.val := by omega
          rw [hdone.drives, hdrives, hsrc, hdst, copySectors_append _ _ _ hover, ← hsplit]
        · rw [hdone.src]
          omega
        · rw [hdone.dst]
          omega

/-- **A copy in chunks is a copy.**  For every buffer of at least a page and every number of sectors
but 0, from any sector to any other one that is on another drive or not above it, the loop ends; the
sectors written hold what the sectors read held at the start, no other sector of any drive is
changed, and both sector numbers are moved on by the number of sectors.  Sector numbers and totals
have ten bits, so that neither number runs over its sixteen. -/
theorem moveFileLoop_copies (p : CopyParams) (s : Copier Page) (hb : p.bufSize ≠ 0)
    (h0 : 0 < s.pages.val) (hsrc : s.src.val + s.pages.val < 65536)
    (hdst : s.dst.val + s.pages.val < 65536)
    (hover : p.srcDrv = p.dstDrv → s.dst.val ≤ s.src.val) :
    ∃ t, (∀ k, s.pages.val ≤ k → moveFileLoop p k s = some t) ∧
      (∀ i < s.pages.val, t.drives p.dstDrv (s.dst.val + i) = s.drives p.srcDrv (s.src.val + i)) ∧
      (∀ d n, d ≠ p.dstDrv ∨ n < s.dst.val ∨ s.dst.val + s.pages.val ≤ n →
        t.drives d n = s.drives d n) ∧
      t.src.val = s.src.val + s.pages.val ∧ t.dst.val = s.dst.val + s.pages.val := by
  obtain ⟨t, hrun, hdone⟩ := moveFileLoop_run hb _ s le_rfl h0 hsrc hdst hover
  refine ⟨t, hrun, fun i hi => ?_, fun d n hn => ?_, hdone.src, hdone.dst⟩
  · rw [hdone.drives, copySectors_apply _ hi]
  · rw [hdone.drives, copySectors_of_not _ hn]

end Copier

/-! ## The loop on the machine -/

/-- What a sector of the disk in the current drive holds. -/
def State.page (s : State) (k : ℕ) : Fin 256 → Byte := fun b => s.disk (s.sectorAddr k + b)

/-- Sectors moved on the disk are pages moved. -/
lemma page_moved (s : State) (m : ℕ → Byte) (p q n k : ℕ) :
    (s.withDisk m (s.moved p q n)).page k = if q ≤ k ∧ k < q + n then s.page (p + (k - q)) else s.page k := by
  have haddr : ∀ i, (s.withDisk m (s.moved p q n)).sectorAddr i = s.sectorAddr i := fun _ => rfl
  funext b
  have hb := b.isLt
  rw [State.page, haddr]
  show copyBytes s.disk (s.sectorAddr p) (s.sectorAddr q) (256 * n) s.disk (s.sectorAddr k + b) = _
  by_cases h : q ≤ k ∧ k < q + n
  · have hoff : s.sectorAddr p + (s.sectorAddr k + b - s.sectorAddr q) = s.sectorAddr (p + (k - q)) + b := by
      simp only [State.sectorAddr]
      omega
    rw [if_pos h, copyBytes, if_pos (by simp only [State.sectorAddr]; omega), hoff]
    rfl
  · rw [if_neg h, copyBytes, if_neg (by simp only [State.sectorAddr]; omega)]
    rfl

/-- **The two loops copy alike.**  Within one drive `*COMPACT` moves the sectors of a file by the same
loop on the machine itself: from a drive that holds the sectors of the disk it leaves in the disk what
`moveFileLoop` leaves in the drive, with the same next sector. -/
theorem moveFile_copies_alike {bufPage bufSize : Byte} (hb : bufSize ≠ 0) {s : State}
    {c : Copier (Fin 256 → Byte)} (h0 : 0 < c.pages.val) (hle : c.dst.val ≤ c.src.val)
    (hin : c.src.val + c.pages.val ≤ 800) (hw : s.CanWrite s.curDrv)
    (hsame : ∀ n, c.drives s.curDrv n = s.page n) {k : ℕ} (hk : c.pages.val ≤ k) :
    ∃ pos s' t, (moveFile bufPage bufSize k c.pages c.src c.dst).run s = .ok pos s' ∧
      Copier.moveFileLoop ⟨bufPage, bufSize, s.curDrv, s.curDrv⟩ k c = some t ∧
      t.dst.val = pos.val ∧ ∀ n, t.drives s.curDrv n = s'.page n := by
  obtain ⟨m, pos, hrun, hpos⟩ := moveFile_run bufPage hb k c.pages c.src c.dst s h0 hk hle hin hw
  obtain ⟨t, hloop, hdone⟩ :=
    Copier.moveFileLoop_run (p := ⟨bufPage, bufSize, s.curDrv, s.curDrv⟩) hb k c hk h0
      (by omega) (by omega) fun _ => hle
  refine ⟨pos, _, t, hrun, hloop k hk, by rw [hdone.dst, hpos], fun n => ?_⟩
  rw [page_moved, hdone.drives, copySectors]
  by_cases h : c.dst.val ≤ n ∧ n < c.dst.val + c.pages.val
  · rw [if_pos ⟨rfl, h⟩, if_pos h, hsame]
  · rw [if_neg fun h' => h h'.2, if_neg h, hsame]

namespace Copier

/-- Three sectors one sector down on drive 0, through a buffer of two pages. -/
def threeDown : Copier ℕ :=
  ⟨fun _ n => n, fun _ => 0, 0, 0, 0, 0, 0, ⟨3, 0⟩, ⟨0x11, 0x01⟩, ⟨0x10, 0x01⟩⟩

theorem moveFileLoop_copies_threeDown :
    ∃ t, (∀ k, 3 ≤ k → moveFileLoop ⟨0x19, 2, 0, 0⟩ k threeDown = some t) ∧
      (∀ i < 3, t.drives 0 (0x110 + i) = 0x111 + i) ∧
      (∀ d n, d ≠ 0 ∨ n < 0x110 ∨ 0x110 + 3 ≤ n → t.drives d n = n) ∧
      t.src.val = 0x111 + 3 ∧ t.dst.val = 0x110 + 3 :=
  moveFileLoop_copies ⟨0x19, 2, 0, 0⟩ threeDown (by decide) (by decide) (by decide) (by decide)
    (fun _ => by decide)

end Copier

end Udfs.Rom
