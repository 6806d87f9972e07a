import Udfs.Rom.Closing
import Udfs.Rom.Extension
import Udfs.Rom.Gbpb

/-!
# PTR beyond what a file may get

OSARGS with a place beyond the end moves PTR to the end and puts zeros there until the file is long
enough.  When a zero cannot be put the call leaves with an error, and what has been done by then
stays: PTR at the end, and the zeros that there was room for.
-/

namespace Udfs.Rom

/-! ## How long a file may get -/

namespace State

/-- The catalogue has no entry any more that has the name of the channel's file and its start. -/
def Gone (s : State) (c : Chan) : Prop :=
  ∀ x, s.entryOf c = some x → (entryAt (s.catOf c.drv) x.toNat).start ≠ c.start

instance (s : State) (c : Chan) : Decidable (s.Gone c) :=
  decidable_of_iff (∀ x ∈ s.entryOf c, (entryAt (s.catOf c.drv) x.toNat).start ≠ c.start) Iff.rfl

/-- How long the file of a channel may get: up to the next one, if its entry is found. -/
def limit (s : State) (c : Chan) : ℕ :=
  match s.entryOf c with
  | none => c.alloc.val
  | some x =>
      if (entryAt (s.catOf c.drv) x.toNat).start = c.start then
        256 * (boundAt (s.catOf c.drv) x.toNat - c.start)
      else c.alloc.val

lemma limit_gone {s : State} {c : Chan} (h : s.Gone c) : s.limit c = c.alloc.val := by
  rw [limit]
  cases hx : s.entryOf c with
  | none => rfl
  | some x => exact if_neg (h x hx)

lemma limit_found {s : State} {c : Chan} {x : Byte} (hx : s.entryOf c = some x)
    (hstart : (entryAt (s.catOf c.drv) x.toNat).start = c.start) :
    s.limit c = 256 * (boundAt (s.catOf c.drv) x.toNat - c.start) := by
  rw [limit, hx]
  exact if_pos hstart

lemma gone_or_found (s : State) (c : Chan) :
    s.Gone c ∨ ∃ x, s.entryOf c = some x ∧ (entryAt (s.catOf c.drv) x.toNat).start = c.start := by
  by_cases h : s.Gone c
  · exact Or.inl h
  · rw [Gone, not_forall] at h
    obtain ⟨x, h⟩ := h
    rw [Classical.not_imp, not_not] at h
    exact Or.inr ⟨x, h⟩

end State

/-- The file of a channel has whole sectors on the disk, and the next file, if its own entry is found,
begins behind them. -/
structure Spaced (s : State) (c : Chan) : Prop where
  count : entryCount (s.catOf c.drv) ≤ 31
  whole : c.alloc.lo = 0
  alloc_le : c.alloc.val ≤ s.limit c
  inside : 256 * c.start + s.limit c ≤ 256 * 800
  ordered : ∀ x, s.entryOf c = some x → (entryAt (s.catOf c.drv) x.toNat).start = c.start →
    c.start ≤ boundAt (s.catOf c.drv) x.toNat

section Space

variable {s s' : State} {c c' : Chan}

lemma Enclosed.start (h : Enclosed s s' c c') : c'.start = c.start := by
  rw [Chan.start, Chan.start, h.info]

lemma Enclosed.entryOf (h : Enclosed s s' c c') (hn : entryCount (s.catOf c.drv) ≤ 31) :
    s'.entryOf c' = s.entryOf c := by
  rw [State.entryOf, State.entryOf, h.wildcard, h.name, h.drv, (h.starts hn).nextEntry_eq hn]

lemma Enclosed.entry (h : Enclosed s s' c c') (hn : entryCount (s.catOf c.drv) ≤ 31) {x : Byte}
    (hx : s.entryOf c = some x) :
    (entryAt (s'.catOf c'.drv) x.toNat).start = (entryAt (s.catOf c.drv) x.toNat).start ∧
      boundAt (s'.catOf c'.drv) x.toNat = boundAt (s.catOf c.drv) x.toNat := by
  obtain ⟨i, -, hi⟩ := State.entryOf_eq hn hx
  rw [h.drv, hi]
  exact ⟨(h.starts hn).start_eq i, (h.starts hn).boundAt_eq i⟩

lemma Enclosed.gone (h : Enclosed s s' c c') (hn : entryCount (s.catOf c.drv) ≤ 31) :
    s'.Gone c' ↔ s.Gone c := by
  rw [State.Gone, State.Gone, h.entryOf hn, h.start]
  refine forall₂_congr fun x hx => ?_
  rw [(h.entry hn hx).1]

/-- More space does not make more of it. -/
lemma Enclosed.spaced (h : Enclosed s s' c c') (hs : Spaced s c) :
    Spaced s' c' ∧ s'.limit c' = s.limit c := by
  have hentry := h.entryOf hs.count
  have hlimit : s'.limit c' = s.limit c ∧ c'.alloc.lo = 0 ∧ c'.alloc.val ≤ s.limit c := by
    rcases s.gone_or_found c with hgone | ⟨x, hx, hstart⟩
    · have halloc : c'.alloc = c.alloc := h.alloc.resolve_right fun ⟨x, hx, hstart, _⟩ => hgone x hx hstart
      rw [State.limit_gone hgone, State.limit_gone ((h.gone hs.count).2 hgone), halloc]
      exact ⟨rfl, hs.whole, le_rfl⟩
    · obtain ⟨hst, hbd⟩ := h.entry hs.count hx
      have hfound' : s'.entryOf c' = some x := hentry.trans hx
      have hlim := State.limit_found hx hstart
      rw [State.limit_found hfound' (by rw [hst, hstart, h.start]), hbd, h.start, ← hlim]
      refine ⟨rfl, ?_⟩
      rcases h.alloc with halloc | ⟨z, hz, -, halloc⟩
      · rw [halloc]
        exact ⟨hs.whole, hs.alloc_le⟩
      · obtain rfl : x = z := Option.some.inj (hx.symm.trans hz)
        have hroom := roomOf_val (c := s.catOf c.drv) (x := x.toNat) (by
          rw [hstart]
          exact hs.ordered x hx hstart)
        rw [hstart] at hroom
        have h0 : (0 : Byte).toNat = 0 := rfl
        rw [halloc, hs.whole, hlim]
        refine ⟨rfl, ?_⟩
        simp only [Num24.val, h0]
        omega
  obtain ⟨hlim, hlo, hle⟩ := hlimit
  refine ⟨⟨?_, hlo, hlim ▸ hle, by rw [hlim, h.start]; exact hs.inside, fun x hx hstart => ?_⟩, hlim⟩
  · rw [h.drv, (h.starts hs.count).entryCount_eq]
    exact hs.count
  · rw [hentry] at hx
    obtain ⟨hst, hbd⟩ := h.entry hs.count hx
    rw [hst, h.start] at hstart
    rw [hbd, h.start]
    exact hs.ordered x hx hstart

/-- There is room up to the limit. -/
lemma Spaced.hasRoom (h : Spaced s c) (hext : c.ext.val ≤ c.alloc.val) {m : ℕ} (hm : m ≤ s.limit c) :
    HasRoom s c m := by
  refine ⟨by have := h.inside; omega, hext, ?_⟩
  rcases s.gone_or_found c with hgone | ⟨x, hx, hstart⟩
  · exact Or.inl (State.limit_gone hgone ▸ hm)
  · exact Or.inr ⟨x, hx, hstart, State.limit_found hx hstart ▸ hm⟩

end Space

/-! ## Zeros up to a place -/

/-- A buffer that counts as valid is for one of the sectors up to the end of the file. -/
def Chan.InFile (c : Chan) : Prop :=
  c.Valid → c.start ≤ c.sec ∧ c.sec ≤ c.start + c.ext.val / 256

section Fill

variable {y : Byte} {n : Num24}

/-- A zero is put at the end of a file that may get longer. -/
lemma bputAt_grows {s : State} {m : ℕ} (h : AtEnd s y m) (hlt : (s.chan y).ext.val < m)
    (hin : (s.chan y).InFile) :
    ∃ t k, (bputAt y 0).run s = .ok () t ∧ PutOn s t y m k ∧ (t.chan y).InFile := by
  have hinside := h.room.inside
  have hnext : ∀ {t k}, PutOn s t y m k → k ≤ (s.chan y).ext.val / 256 → (t.chan y).InFile := by
    intro t k hput hk hv
    rw [hput.sec, hput.start, hput.ext]
    exact ⟨by omega, by have := hput.valid.1 hv; omega⟩
  by_cases hv : (s.chan y).Valid
  · obtain ⟨h1, h2⟩ := hin hv
    obtain ⟨t, hrun, hput, -⟩ := bputAt_valid h hlt (k := (s.chan y).sec - (s.chan y).start) hv
      (by omega) (by omega) 0
    exact ⟨t, _, hrun, hput, hnext hput (by omega)⟩
  · obtain ⟨t, hrun, hput, -⟩ := bputAt_invalid h hlt hv 0
    exact ⟨t, _, hrun, hput, hnext hput le_rfl⟩

/-- The state of the loop when the file has got `m` bytes long. -/
structure Filled (s s' : State) (y : Byte) (m : ℕ) : Prop where
  atEnd : AtEnd s' y m
  ext : (s'.chan y).ext.val = m
  spaced : Spaced s' (s'.chan y)
  limit : s'.limit (s'.chan y) = s.limit (s.chan y)
  gone : s'.Gone (s'.chan y) ↔ s.Gone (s.chan y)
  bit : (s'.chan y).bit = (s.chan y).bit

/-- The loop gets to any place that there is room for, and goes on from there. -/
lemma putZeros_fill {m : ℕ} (hmn : m ≤ n.val) (d : ℕ) : ∀ s : State, AtEnd s y m →
    Spaced s (s.chan y) → (s.chan y).InFile → (s.chan y).ext.val + d = m →
    ∃ s', (∀ f, (putZeros y n (f + d)).run s = (putZeros y n f).run s') ∧ Filled s s' y m := by
  induction d with
  | zero =>
      intro s h hs _ hd
      exact ⟨s, fun f => rfl, h, hd, hs, rfl, Iff.rfl, rfl⟩
  | succ d ih =>
      intro s h hs hin hd
      obtain ⟨t, k, hrun, hput, hin'⟩ := bputAt_grows h (by omega) hin
      obtain ⟨hs', hlimit⟩ := hput.enclosed.spaced hs
      obtain ⟨s', hrest, hfill⟩ := ih t hput.atEnd hs' hin' (by rw [hput.ext]; omega)
      refine ⟨s', fun f => ?_, hfill.atEnd, hfill.ext, hfill.spaced, hfill.limit.trans hlimit,
        hfill.gone.trans (hput.enclosed.gone hs.count), hfill.bit.trans hput.enclosed.bit⟩
      rw [← Nat.add_assoc, putZeros_step (by omega) (f + d) hrun]
      exact hrest f

end Fill

/-! ## The zero that cannot be put -/

section Refused

variable {s : State} {p : Byte × Byte} {m : ℕ}

/-- A file that fills its space, and for which there is no more, is at its limit. -/
lemma Filled.alloc_eq {y : Byte} (t : State) (h : Filled t s y (t.limit (t.chan y))) :
    (s.chan y).alloc = (s.chan y).ptr := by
  have hle := h.atEnd.room.ext_le
  have hge := h.spaced.alloc_le
  rw [h.limit, ← h.ext] at hge
  rw [h.atEnd.ptr]
  exact Num24.val_injective (le_antisymm hge hle)

/-- An entry that is gone is not found. -/
lemma setupSaveToMedia_gone {y : Byte} (hoff : s.chanOff = y) (hdisk : s.HasDisk s.curDrv)
    (hdrv : s.curDrv = (s.chan y).drv) (hdir : s.filenameParam 7 = (s.chan y).name 7 &&& 0x7f)
    (hgone : s.Gone (s.chan y)) :
    ∃ f c g x e, (setupSaveToMedia y).run s = .err .diskChanged { s with
      filenameParam := f
      cat := c
      curDrvCat := g
      catEntry := x
      chanEntry := e } := by
  subst hoff
  set f : Fin 8 → Byte := fun i => if i = 7 then s.filenameParam 7 else (s.chan s.chanOff).name i with hf
  have hfound : ({ s with filenameParam := f } : State).found = s.entryOf (s.chan s.chanOff) := by
    rw [State.found, State.entryOf, ← hdir, ← hdrv]
    rfl
  have hrun := searchCat_run (s := { s with filenameParam := f }) hdisk
  rw [State.searched, hfound] at hrun
  rw [setupSaveToMedia, Prog.run_bind_ok (Prog.run_modify _ s), ← hf, Prog.run_bind_ok hrun]
  cases hx : s.entryOf (s.chan s.chanOff) with
  | none => exact ⟨_, _, _, _, _, rfl⟩
  | some x =>
      have hno := mt start_eq_iff.2 (hgone x hx)
      rw [← hdrv, not_and_or] at hno
      simp only [Option.map_some]
      rw [Prog.run_bind_ok (Prog.run_modify _ _), Prog.run_bind_ok (Prog.run_get _)]
      refine ⟨f, s.catOf s.curDrv, s.curDrv, x, x.toNat, ?_⟩
      by_cases h6 : (s.catOf s.curDrv (0x0f0e + x.toNat) ^^^ (s.chan s.chanOff).info 6) &&& 3 = 0
      · refine (congrArg (fun r : Routine Unit => r.run _) (if_neg (not_not.2 h6))).trans ?_
        exact congrArg (fun r : Routine Unit => r.run _) (if_pos (hno.resolve_left (not_not.2 h6)))
      · exact congrArg (fun r : Routine Unit => r.run _) (if_pos h6)

/-- The drive and the directory of the channel have been selected. -/
def State.fileSelected (s : State) (y : Byte) : State := { s with
  filenameParam := Function.update s.filenameParam 7 ((s.chan y).name 7 &&& 0x7f)
  curDrv := (s.chan y).drv }

/-- OSBPUT on a file that fills its space fails when it gets no more. -/
lemma bputAt_err {y : Byte} (h : AtEnd s y m) (hfull : (s.chan y).alloc = (s.chan y).ptr) (v : Byte)
    {e : Err} {s' : State} (hrun : (extendFile y).run (s.fileSelected y) = .err e s') :
    (bputAt y v).run s = .err e s' := by
  have hset : (setFileDrv y).run s = .ok () (s.fileSelected y) := rfl
  have hwhen : (comparePtr (s.chan y).ptr (s.chan y).alloc).1 = true := comparePtr_fst.2 hfull.symm
  rw [bputAt, Prog.run_bind_ok (Prog.run_get s), if_neg (by have := h.unlocked.1; omega),
    if_neg (by have := h.unlocked.2; omega), Prog.run_bind_ok hset, Prog.when, if_pos hwhen]
  exact Prog.run_bind_err hrun

/-- When the entry is gone, the call leaves with Disk changed before anything is done. -/
lemma bputAt_gone {y : Byte} (h : AtEnd s y m) (hfull : (s.chan y).alloc = (s.chan y).ptr)
    (hgone : s.Gone (s.chan y)) (v : Byte) :
    ∃ u, (bputAt y v).run s = .err .diskChanged u ∧ u.chan = s.chan ∧ u.inUse = s.inUse ∧
      u.mem = s.mem ∧ u.disk = s.disk ∧ s.SameDrives u := by
  obtain ⟨f, c, g, x, e, hrun⟩ := setupSaveToMedia_gone (s := s.fileSelected y) h.off h.canWrite.2.1 rfl
    (Function.update_self 7 _ s.filenameParam) hgone
  exact ⟨_, bputAt_err h hfull v (Prog.run_bind_err hrun), rfl, rfl, rfl, rfl, ⟨rfl, rfl, rfl, rfl, rfl⟩⟩

/-- Closing a channel takes it out of use, whatever comes of it. -/
lemma updateCatnfile_closes (hp : p ∈ slots) (hu : s.Used p) (hbit : (s.chan p.1).bit = p.2) :
    Prog.wp (updateCatnfile p.1) (fun _ s' => ¬ s'.Used p) (fun _ s' => ¬ s'.Used p) s := by
  have hclosed : ∀ s', Aside { s with chanOff := p.1, inUse := ~~~ (s.chan p.1).bit &&& s.inUse } s' →
      ¬ s'.Used p := by
    intro s' ha hused
    rw [State.Used, ha.inUse, hbit, clear_and_self] at hused
    exact hused rfl
  exact Prog.wp_mono (updateCatnfile_used hp hu) (fun _ s' h => hclosed s' h) fun _ s' h => hclosed s' h

/-- When the entry is found and there is no more space, the file is closed. -/
lemma bputAt_full (hp : p ∈ slots) (h : AtEnd s p.1 m) (hbit : (s.chan p.1).bit = p.2)
    (hs : Spaced s (s.chan p.1)) (hfull : (s.chan p.1).alloc = (s.chan p.1).ptr)
    (hlimit : (s.chan p.1).alloc.val = s.limit (s.chan p.1)) {x : Byte}
    (hx : s.entryOf (s.chan p.1) = some x)
    (hstart : (entryAt (s.catOf (s.chan p.1).drv) x.toNat).start = (s.chan p.1).start) (v : Byte) :
    ∃ e s', (bputAt p.1 v).run s = .err e s' ∧ ¬ s'.Used p := by
  have hu : s.Used p := by
    rw [State.Used, ← (handleOf_slots hp).2.2.2]
    exact h.used
  set y := p.1 with hy
  obtain ⟨f, hrun⟩ := setupSaveToMedia_run (s := s.fileSelected y) h.off h.canWrite.2.1 rfl
    (Function.update_self 7 _ s.filenameParam) hx hstart
  have hroom := roomOf_val (c := s.catOf (s.chan y).drv) (x := x.toNat) (by
    rw [hstart]
    exact hs.ordered x hx hstart)
  rw [hstart] at hroom
  rw [State.limit_found hx hstart, Num24.val, hs.whole] at hlimit
  have h0 : (0 : Byte).toNat = 0 := rfl
  have hb1 := byte_lt (s.chan y).alloc.mid
  have hb2 := byte_lt (roomOf (s.catOf (s.chan y).drv) x.toNat).1
  have hsame : (roomOf (s.catOf (s.chan y).drv) x.toNat).2 = (s.chan y).alloc.hi ∧
      (roomOf (s.catOf (s.chan y).drv) x.toNat).1 = (s.chan y).alloc.mid := by
    rw [← BitVec.toNat_inj, ← BitVec.toNat_inj]
    omega
  set w : State := { s.fileSelected y with
    filenameParam := f
    cat := Function.update (s.catOf (s.chan y).drv) (0x0f0e + x.toNat)
      ((((roomOf (s.catOf (s.chan y).drv) x.toNat).2 <<< 4) ^^^
        s.catOf (s.chan y).drv (0x0f0e + x.toNat)) &&& 0x30 ^^^ s.catOf (s.chan y).drv (0x0f0e + x.toNat))
    curDrvCat := (s.chan y).drv
    catEntry := x
    chanEntry := x.toNat } with hw
  have hclose := updateCatnfile_closes (s := w) hp hu hbit
  rw [Prog.wp] at hclose
  obtain ⟨e, s', hfin, hno⟩ : ∃ e s', (do
      updateCatnfile y
      Prog.fail .cantExtend : Routine Unit).run w = .err e s' ∧ ¬ s'.Used p := by
    cases hout : (updateCatnfile y).run w with
    | ok a s' =>
        rw [hout] at hclose
        exact ⟨.cantExtend, s', Prog.run_bind_ok hout, hclose⟩
    | err e s' =>
        rw [hout] at hclose
        exact ⟨e, s', Prog.run_bind_err hout, hclose⟩
  have hextend : (extendFile y).run (s.fileSelected y) = .err e s' := by
    rw [extendFile, Prog.run_bind_ok hrun, Prog.run_bind_ok (Prog.run_get _)]
    simp only
    rw [Prog.run_bind_ok (Prog.run_modify _ _)]
    refine (congrArg (fun r : Routine Unit => r.run _) (if_pos hsame)).trans ?_
    exact hfin
  exact ⟨e, s', bputAt_err h hfull v hextend, hno⟩

end Refused

/-! ## What is left of a file -/

/-- `argsv_rdseqptr_or_filelen` for EXT. -/
def argsReadExt (h : Byte) : Routine Num24 := do
  let y ← openHandle h
  let s ← Prog.get
  pure (s.chan y).ext

/-- PTR, EXT and the bytes of the file, as they are read through the handle, are the same. -/
structure SameThrough (s s' : State) (p : Byte × Byte) : Prop where
  ptr : ∃ t, (argsReadPtr (handleOf p)).run s' = .ok (s.chan p.1).ptr t
  ext : ∃ t, (argsReadExt (handleOf p)).run s' = .ok (s.chan p.1).ext t
  bytes : ∀ k v, k.val < (s.chan p.1).ext.val → ReadsAs s p k v → ReadsAs s' p k v

section Through

variable {s s' : State} {p : Byte × Byte}

lemma openHandle_closed (hp : p ∈ slots) (hu : ¬ s.Used p) :
    (openHandle (handleOf p)).run s = .err .channel { s with chanOff := p.1 } := by
  obtain ⟨hoff, hmask, hne, hbit⟩ := handleOf_slots hp
  have huse : (isHandleInUse p.1).run s = .ok false { s with chanOff := p.1 } := by
    rw [isHandleInUse, Prog.run_bind_ok (Prog.run_modify _ s), hmask, if_neg hne,
      Prog.run_bind_ok (Prog.run_get _), Prog.run_pure, hbit]
    exact congrArg (fun b => Outcome.ok b _) (decide_eq_false hu)
  rw [openHandle, hoff, Prog.run_bind_ok huse, if_neg Bool.false_ne_true]
  rfl

lemma argsReadPtr_used (hp : p ∈ slots) (hu : s.Used p) :
    (argsReadPtr (handleOf p)).run s = .ok (s.chan p.1).ptr { s with chanOff := p.1 } := by
  rw [argsReadPtr, Prog.run_bind_ok (openHandle_run hp hu)]
  rfl

lemma argsReadExt_used (hp : p ∈ slots) (hu : s.Used p) :
    (argsReadExt (handleOf p)).run s = .ok (s.chan p.1).ext { s with chanOff := p.1 } := by
  rw [argsReadExt, Prog.run_bind_ok (openHandle_run hp hu)]
  rfl

/-- A handle through which the same is read is open, with the same PTR and EXT. -/
lemma SameThrough.chan_eq (hp : p ∈ slots) (h : SameThrough s s' p) :
    s'.Used p ∧ (s'.chan p.1).ptr = (s.chan p.1).ptr ∧ (s'.chan p.1).ext = (s.chan p.1).ext := by
  obtain ⟨⟨t, ht⟩, ⟨t', ht'⟩, -⟩ := h
  have hu : s'.Used p := by
    by_contra hu
    rw [argsReadPtr, Prog.run_bind_err (openHandle_closed hp hu)] at ht
    cases ht
  rw [argsReadPtr_used hp hu] at ht
  rw [argsReadExt_used hp hu] at ht'
  exact ⟨hu, (Outcome.ok.inj ht).1, (Outcome.ok.inj ht').1⟩

/-- The channel with PTR at the end of the file. -/
def Chan.toEnd (c : Chan) : Chan := { c with ptr := c.ext }

/-- If nothing but PTR has been moved, to the end, the same is read exactly if it was there. -/
lemma sameThrough_toEnd (hp : p ∈ slots) (hu : s.Used p) (hb : Backed s (s.chan p.1))
    (hchan : s'.chan p.1 = (s.chan p.1).toEnd) (huse : s'.inUse = s.inUse) (hmem : s'.mem = s.mem)
    (hdisk : s'.disk = s.disk) (hdrives : s.SameDrives s') :
    SameThrough s s' p ↔ (s.chan p.1).ptr = (s.chan p.1).ext := by
  have hu' : s'.Used p := by
    rw [State.Used, huse]
    exact hu
  constructor
  · intro h
    obtain ⟨-, hptr, -⟩ := h.chan_eq hp
    rw [← hptr, hchan]
    rfl
  · intro h
    have hb' : Backed s' (s'.chan p.1) := by
      rw [hchan]
      refine ⟨hb.start_ge, hb.inside, (hdrives.hasDisk _).2 hb.hasDisk, fun hd hz i hi => ?_, fun hd => ?_⟩
      · rw [hmem, hdisk, hdrives.addrOn]
        exact hb.clean hd hz i hi
      · exact ⟨(hb.dirty hd).1, (hdrives.canWrite _).2 (hb.dirty hd).2⟩
    have hshown : ∀ i, s'.shown (s'.chan p.1) i = s.shown (s.chan p.1) i := by
      rw [hchan]
      exact State.shown_congr hmem hdisk hdrives rfl rfl rfl rfl
    have hext : (s'.chan p.1).ext = (s.chan p.1).ext := by rw [hchan]; rfl
    have hptr : (s'.chan p.1).ptr = (s.chan p.1).ptr := by rw [hchan, h]; rfl
    refine ⟨⟨_, hptr ▸ argsReadPtr_used hp hu'⟩, ⟨_, hext ▸ argsReadExt_used hp hu'⟩,
      fun k v hk hv => ?_⟩
    rw [readsAs_iff hp hu' hb' (hext ▸ hk), hshown]
    exact (readsAs_iff hp hu hb hk v).1 hv

end Through

/-! ## The call -/

/-- The file may be written as far as its attributes go. -/
def Chan.Unlocked (c : Chan) : Prop := (c.name 6).toNat < 128 ∧ (c.name 7).toNat < 128

instance (c : Chan) : Decidable c.Unlocked := inferInstanceAs (Decidable (_ ∧ _))

/-- A file that may get longer: it lies on a disk that may be written, and has its space there. -/
structure MayGrow (s : State) (p : Byte × Byte) : Prop where
  canWrite : s.CanWrite (s.chan p.1).drv
  ext_le : (s.chan p.1).ext.val ≤ (s.chan p.1).alloc.val
  spaced : Spaced s (s.chan p.1)
  inFile : (s.chan p.1).InFile
  bit : (s.chan p.1).bit = p.2

/-- An open handle: read-only, locked, or writable. -/
structure OpenFile (s : State) (p : Byte × Byte) : Prop where
  slot : p ∈ slots
  used : s.Used p
  backed : Backed s (s.chan p.1)
  grow : (s.chan p.1).Unlocked → MayGrow s p

/-- An error leaves PTR, EXT and the bytes of the file as they were. -/
def FailsSafely (s : State) (p : Byte × Byte) (n : Num24) : Prop :=
  ∀ e s', (argsWritePtr (handleOf p) n).run s = .err e s' → SameThrough s s' p

/-- The new PTR is not beyond the end; or PTR is at the end and the file is read-only or locked; or
there is room for it; or the file fills its space, with PTR at the end, and its entry is gone. -/
def MoveIsSafe (s : State) (c : Chan) (n : ℕ) : Prop :=
  n ≤ c.ext.val ∨
    if c.Unlocked then n ≤ s.limit c ∨ (s.Gone c ∧ c.ext = c.alloc ∧ c.ptr = c.ext) else c.ptr = c.ext

section Call

variable {s : State} {p : Byte × Byte} {n : Num24}

/-- The state in which the zeros are put. -/
def State.atEndOf (s : State) (y : Byte) : State :=
  ({ s with chanOff := y } : State).setChan y (s.chan y).toEnd

lemma atEndOf_chan (s : State) (y : Byte) : (s.atEndOf y).chan y = (s.chan y).toEnd :=
  State.setChan_chan _ _ _

lemma argsWritePtr_eq (hp : p ∈ slots) (hu : s.Used p) :
    (argsWritePtr (handleOf p) n).run s = (do
      putZeros p.1 n (n.val + 1)
      modifyChan p.1 fun c => c.movePtr n : Routine Unit).run (s.atEndOf p.1) := by
  rw [argsWritePtr, Prog.run_bind_ok (openHandle_run hp hu)]
  rfl

lemma argsWritePtr_err (hp : p ∈ slots) (hu : s.Used p) {e : Err} {s' : State}
    (h : (putZeros p.1 n (n.val + 1)).run (s.atEndOf p.1) = .err e s') :
    (argsWritePtr (handleOf p) n).run s = .err e s' := by
  rw [argsWritePtr_eq hp hu]
  exact Prog.run_bind_err h

lemma argsWritePtr_ok (hp : p ∈ slots) (hu : s.Used p) {t : State}
    (h : (putZeros p.1 n (n.val + 1)).run (s.atEndOf p.1) = .ok () t) :
    (argsWritePtr (handleOf p) n).run s = .ok () (t.setChan p.1 ((t.chan p.1).movePtr n)) := by
  rw [argsWritePtr_eq hp hu, Prog.run_bind_ok h]
  rfl

lemma failsSafely_of_ok {s' : State} (h : (argsWritePtr (handleOf p) n).run s = .ok () s') :
    FailsSafely s p n := fun e t ht => by
  rw [h] at ht
  cases ht

lemma failsSafely_of_err {e : Err} {s' : State} (h : (argsWritePtr (handleOf p) n).run s = .err e s') :
    FailsSafely s p n ↔ SameThrough s s' p := by
  constructor
  · intro hf
    exact hf e s' h
  · intro hsame e' t ht
    obtain ⟨-, rfl⟩ := Outcome.err.inj (h.symm.trans ht)
    exact hsame

/-- The first zero is put on a file that is too short. -/
lemma putZeros_err {t t' : State} {y : Byte} {e : Err} (hlt : (t.chan y).ext.val < n.val) (f : ℕ)
    (h : (bputAt y 0).run t = .err e t') : (putZeros y n (f + 1)).run t = .err e t' := by
  have hcover : ¬ extCovers (t.chan y).ext n = true := fun hc => absurd (extCovers_iff.1 hc) (by omega)
  rw [putZeros, Prog.run_bind_ok (Prog.run_get t), if_neg hcover]
  exact Prog.run_bind_err h

/-- On a read-only or locked file no zero is put. -/
lemma bputAt_refused {t : State} {y : Byte} (h : ¬ (t.chan y).Unlocked) (v : Byte) :
    ∃ e, (bputAt y v).run t = .err e t := by
  rw [bputAt, Prog.run_bind_ok (Prog.run_get t)]
  by_cases h6 : 128 ≤ ((t.chan y).name 6).toNat
  · rw [if_pos h6]
    exact ⟨_, rfl⟩
  · have h7 : 128 ≤ ((t.chan y).name 7).toNat := by
      by_contra h7
      exact h ⟨by omega, by omega⟩
    rw [if_neg h6, if_pos h7]
    exact ⟨_, rfl⟩

/-- The state in which the zeros are put is as the loop wants it. -/
lemma OpenFile.atEnd (h : OpenFile s p) (hun : (s.chan p.1).Unlocked) {m : Num24}
    (hm : m.val ≤ s.limit (s.chan p.1)) : AtEnd (s.atEndOf p.1) p.1 m.val := by
  have hg := h.grow hun
  have hup : ForUpdate s p := ⟨h.slot, h.used, h.backed, hg.inFile, hg.canWrite, hun⟩
  exact hup.atEnd (hg.spaced.hasRoom hg.ext_le hm)

/-- The space of the file is the same when PTR has been moved to its end. -/
lemma atEndOf_enclosed (s : State) (y : Byte) :
    Enclosed s (s.atEndOf y) (s.chan y) ((s.atEndOf y).chan y) := by
  rw [atEndOf_chan]
  exact .of_same ⟨rfl, rfl, rfl⟩ rfl rfl rfl rfl rfl

/-- Zeros can be put up to any place that there is room for. -/
lemma OpenFile.fill (h : OpenFile s p) (hun : (s.chan p.1).Unlocked) {m : Num24}
    (hm : m.val ≤ s.limit (s.chan p.1)) (hext : (s.chan p.1).ext.val ≤ m.val) (hmn : m.val ≤ n.val) :
    ∃ t, (∀ f, (putZeros p.1 n (f + (m.val - (s.chan p.1).ext.val))).run (s.atEndOf p.1)
        = (putZeros p.1 n f).run t) ∧ Filled (s.atEndOf p.1) t p.1 m.val := by
  have hg := h.grow hun
  have hchan := atEndOf_chan s p.1
  refine putZeros_fill hmn _ _ (h.atEnd hun hm) ((atEndOf_enclosed s p.1).spaced hg.spaced).1 ?_ ?_
  · rw [hchan]
    exact hg.inFile
  · rw [hchan]
    show (s.chan p.1).ext.val + _ = _
    omega

/-- With room for all zeros there is no error. -/
lemma OpenFile.failsSafely_of_room (h : OpenFile s p) (hun : (s.chan p.1).Unlocked)
    (hext : (s.chan p.1).ext.val ≤ n.val) (hn : n.val ≤ s.limit (s.chan p.1)) : FailsSafely s p n := by
  obtain ⟨t, hrun, hfill⟩ := h.fill hun hn hext le_rfl
  have hall := hrun ((s.chan p.1).ext.val + 1)
  rw [show (s.chan p.1).ext.val + 1 + (n.val - (s.chan p.1).ext.val) = n.val + 1 by omega,
    putZeros_done hfill.ext] at hall
  exact failsSafely_of_ok (argsWritePtr_ok h.slot h.used hall)

/-- A read-only or locked file. -/
lemma OpenFile.failsSafely_refused (h : OpenFile s p) (hun : ¬ (s.chan p.1).Unlocked)
    (hlt : (s.chan p.1).ext.val < n.val) :
    FailsSafely s p n ↔ (s.chan p.1).ptr = (s.chan p.1).ext := by
  have hchan := atEndOf_chan s p.1
  obtain ⟨e, hrun⟩ := bputAt_refused (t := s.atEndOf p.1) (y := p.1) (by rw [hchan]; exact hun) 0
  have hzeros := putZeros_err (t := s.atEndOf p.1) (by rw [hchan]; exact hlt) n.val hrun
  rw [failsSafely_of_err (argsWritePtr_err h.slot h.used hzeros)]
  exact sameThrough_toEnd h.slot h.used h.backed hchan rfl rfl rfl ⟨rfl, rfl, rfl, rfl, rfl⟩

/-- A writable file that gets no room for all zeros. -/
lemma OpenFile.failsSafely_full (h : OpenFile s p) (hun : (s.chan p.1).Unlocked)
    (hn : s.limit (s.chan p.1) < n.val) :
    FailsSafely s p n ↔
      s.Gone (s.chan p.1) ∧ (s.chan p.1).ext = (s.chan p.1).alloc ∧ (s.chan p.1).ptr = (s.chan p.1).ext := by
  have hg := h.grow hun
  have hin := hg.spaced.inside
  have hext_le := hg.ext_le
  have halloc_le := hg.spaced.alloc_le
  obtain ⟨m, hm⟩ := exists_num24 (i := s.limit (s.chan p.1)) (by omega)
  obtain ⟨t, hfillrun, hfill⟩ := h.fill (n := n) (m := m) hun (by omega) (by omega) (by omega)
  have henc := atEndOf_enclosed s p.1
  have hlimit : (s.atEndOf p.1).limit ((s.atEndOf p.1).chan p.1) = m.val := by
    rw [(henc.spaced hg.spaced).2, hm]
  have hfull : (t.chan p.1).alloc = (t.chan p.1).ptr :=
    Filled.alloc_eq (s.atEndOf p.1) (by rw [hlimit]; exact hfill)
  have hgone : t.Gone (t.chan p.1) ↔ s.Gone (s.chan p.1) :=
    hfill.gone.trans (henc.gone hg.spaced.count)
  -- whatever the next zero does, the call does
  have hcall : ∀ {e u}, (bputAt p.1 0).run t = .err e u →
      (argsWritePtr (handleOf p) n).run s = .err e u := by
    intro e u hput
    have hall := hfillrun (n.val - (m.val - (s.chan p.1).ext.val) + 1)
    rw [putZeros_err (by rw [hfill.ext]; omega) _ hput,
      show n.val - (m.val - (s.chan p.1).ext.val) + 1 + (m.val - (s.chan p.1).ext.val) = n.val + 1 by omega]
      at hall
    exact argsWritePtr_err h.slot h.used hall
  rcases t.gone_or_found (t.chan p.1) with htg | ⟨x, hx, hstart⟩
  · obtain ⟨u, hput, hchan, huse, hmem, hdisk, hdrives⟩ := bputAt_gone hfill.atEnd hfull htg 0
    have hsg := hgone.1 htg
    have hlim := State.limit_gone hsg
    rw [failsSafely_of_err (hcall hput)]
    by_cases hall : (s.chan p.1).ext.val = m.val
    · -- no zero has been put
      have hzero := hfillrun 0
      rw [hall, Nat.sub_self] at hzero
      obtain ⟨-, rfl⟩ := Outcome.ok.inj hzero
      have hea : (s.chan p.1).ext = (s.chan p.1).alloc := Num24.val_injective (by omega)
      rw [sameThrough_toEnd h.slot h.used h.backed
        ((congrFun hchan p.1).trans (atEndOf_chan s p.1)) huse hmem hdisk
        ⟨hdrives.1, hdrives.2, hdrives.3, hdrives.4, hdrives.5⟩]
      exact ⟨fun hptr => ⟨hsg, hea, hptr⟩, fun h' => h'.2.2⟩
    · refine iff_of_false (fun hsame => ?_) fun h' => ?_
      · have hext := (hsame.chan_eq h.slot).2.2
        rw [hchan] at hext
        exact hall (hext ▸ hfill.ext)
      · have hea := congrArg Num24.val h'.2.1
        omega
  · obtain ⟨e, u, hput, hclosed⟩ := bputAt_full h.slot hfill.atEnd (hfill.bit.trans (henc.bit.trans hg.bit))
      hfill.spaced hfull (by rw [hfill.limit, hlimit, hfull, hfill.atEnd.ptr, hfill.ext]) hx hstart 0
    rw [failsSafely_of_err (hcall hput)]
    refine iff_of_false (fun hsame => hclosed (hsame.chan_eq h.slot).1) fun h' => ?_
    exact hgone.2 h'.1 x hx hstart

end Call

/-- **When a failed move of PTR does no harm.**  For every open handle and every new PTR, if OSARGS
leaves with an error then PTR, EXT and the bytes of the file, as they are read through the handle, are
as they were, exactly when the new PTR is not beyond the end; or PTR is at the end and the file is
read-only or locked; or there is room for it; or the file fills its space, with PTR at the end, and its
entry is gone from the catalogue. -/
theorem argsWritePtr_failsSafely_iff {s : State} {p : Byte × Byte} (h : OpenFile s p) (n : Num24) :
    FailsSafely s p n ↔ MoveIsSafe s (s.chan p.1) n.val := by
  rw [MoveIsSafe]
  by_cases hle : n.val ≤ (s.chan p.1).ext.val
  · obtain ⟨t, hrun, -⟩ := argsWritePtr_reads h.slot h.used h.backed hle
    exact iff_of_true (failsSafely_of_ok hrun) (Or.inl hle)
  · rw [or_iff_right hle]
    by_cases hun : (s.chan p.1).Unlocked
    · rw [if_pos hun]
      by_cases hroom : n.val ≤ s.limit (s.chan p.1)
      · exact iff_of_true (h.failsSafely_of_room hun (by omega) hroom) (Or.inl hroom)
      · rw [or_iff_right hroom]
        exact h.failsSafely_full hun (by omega)
    · rw [if_neg hun]
      exact h.failsSafely_refused hun (by omega)

/-- The file of `twoBytesOpen` is open for input. -/
lemma twoBytesOpen_openFile : OpenFile twoBytesOpen (0x20, 0x80) where
  slot := by simp [slots]
  used := by decide
  backed :=
    { start_ge := by decide
      inside := by decide
      hasDisk := by unfold State.HasDisk; decide
      clean := fun _ h => absurd rfl h
      dirty := fun h => absurd rfl h }
  grow h := absurd h (by decide)

/-- A disk with the file `$.A` in its last sector. -/
def lastSector : State :=
  { twoBytes with
    diskMark := fun _ => 0x54
    cats := fun n => Function.update (twoBytes.cats n) 0x0f07 3 }

/-- The file has been opened for update. -/
def lastSectorOpen : State := ((openFile 0xc0 [0x41]).run lastSector).state

lemma lastSectorOpen_openFile : OpenFile lastSectorOpen (0x20, 0x80) where
  slot := by simp [slots]
  used := by decide
  backed :=
    { start_ge := by decide
      inside := by decide
      hasDisk := by unfold State.HasDisk; decide
      clean := fun _ h => absurd rfl h
      dirty := fun h => absurd rfl h }
  grow _ :=
    { canWrite := by unfold State.CanWrite State.HasDisk; decide
      ext_le := by decide
      spaced :=
        { count := by decide
          whole := by decide
          alloc_le := by decide
          inside := by decide
          ordered := fun x hx _ => by
            obtain rfl : x = 0 := Option.some.inj (hx.symm.trans rfl)
            decide }
      inFile := fun h => absurd rfl h
      bit := by decide }

/-- PTR may be moved to the end of the sector, and the error of a move beyond it does harm: the file
has been extended, and closed. -/
theorem lastSectorOpen_failsSafely :
    FailsSafely lastSectorOpen (0x20, 0x80) ⟨0, 1, 0⟩ ∧
      ¬ FailsSafely lastSectorOpen (0x20, 0x80) ⟨0, 2, 0⟩ := by
  have hun : (lastSectorOpen.chan 0x20).Unlocked := by decide
  constructor
  · refine (argsWritePtr_failsSafely_iff lastSectorOpen_openFile ⟨0, 1, 0⟩).2 (Or.inr ?_)
    rw [if_pos hun]
    exact Or.inl (by decide)
  · intro h
    obtain hle | hroom := (argsWritePtr_failsSafely_iff lastSectorOpen_openFile ⟨0, 2, 0⟩).1 h
    · exact absurd hle (by decide)
    · rw [if_pos hun] at hroom
      obtain hroom | ⟨-, hfull, -⟩ := hroom
      · exact absurd hroom (by decide)
      · exact absurd hfull (by decide)

/-- Moving PTR of the read-only file from 0 beyond its end fails and leaves PTR at the end. -/
theorem twoBytesOpen_moved :
    OpenFile twoBytesOpen (0x20, 0x80) ∧ ¬ FailsSafely twoBytesOpen (0x20, 0x80) ⟨3, 0, 0⟩ := by
  refine ⟨twoBytesOpen_openFile, fun h => ?_⟩
  obtain ⟨t, ht⟩ : ∃ t, (argsWritePtr 0x11 ⟨3, 0, 0⟩).run twoBytesOpen = .err .fileReadOnly t ∧
      (t.chan 0x20).ptr = ⟨2, 0, 0⟩ := ⟨_, rfl, rfl⟩
  have hptr := ((h _ t ht.1).chan_eq twoBytesOpen_openFile.slot).2.1
  exact absurd (ht.2.symm.trans hptr) (by decide)

end Udfs.Rom
