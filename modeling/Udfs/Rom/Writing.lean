import Udfs.Rom.Reading

/-!
# Writing at the end of a file

OSBPUT at the end of a file first sees to it that the file has room, has the sector of PTR in the
buffer unless the buffer counts as valid, puts the byte there and moves PTR and the end on.  Where
the byte lands is decided by the sector that the buffer is for, not by PTR.
-/

namespace Udfs.Rom

lemma comparePtr_snd {p e : Num24} : (comparePtr p e).2 = true ↔ e.val ≤ p.val := by
  have hp0 := byte_lt p.lo
  have he0 := byte_lt e.lo
  have hp1 := byte_lt p.mid
  have he1 := byte_lt e.mid
  simp only [comparePtr, Num24.val]
  split_ifs with h2 h1
  · rw [Ne, ← BitVec.toNat_inj] at h2
    simp only [cmpCarry, decide_eq_true_iff]
    omega
  · rw [Ne, ← BitVec.toNat_inj] at h1
    rw [not_not, ← BitVec.toNat_inj] at h2
    simp only [cmpCarry, decide_eq_true_iff]
    omega
  · rw [not_not, ← BitVec.toNat_inj] at h1 h2
    simp only [cmpCarry, decide_eq_true_iff]
    omega

/-! ## Names and starts in a catalogue -/

/-- The catalogue has been rewritten, but not the count, the names up to bit 7, the starts and the
number of sectors. -/
structure StartsKept (c c' : ℕ → Byte) : Prop where
  count : c' 0x0f05 = c 0x0f05
  name : ∀ a, 0x0e08 ≤ a → a < 0x0f00 → c' a &&& 0x7f = c a &&& 0x7f
  low : ∀ a, 0x0f06 ≤ a → a % 8 = 6 → c' a &&& 3 = c a &&& 3
  start : ∀ a, 0x0f06 ≤ a → a % 8 = 7 → c' a = c a

namespace StartsKept

variable {c c' c'' : ℕ → Byte}

lemma refl (c : ℕ → Byte) : StartsKept c c :=
  ⟨rfl, fun _ _ _ => rfl, fun _ _ _ => rfl, fun _ _ _ => rfl⟩

lemma trans (h : StartsKept c c') (h' : StartsKept c' c'') : StartsKept c c'' where
  count := h'.count.trans h.count
  name a h1 h2 := (h'.name a h1 h2).trans (h.name a h1 h2)
  low a h1 h2 := (h'.low a h1 h2).trans (h.low a h1 h2)
  start a h1 h2 := (h'.start a h1 h2).trans (h.start a h1 h2)

/-- One byte is rewritten. -/
lemma update (c : ℕ → Byte) {a : ℕ} {v : Byte} (h5 : a ≠ 0x0f05)
    (hname : a < 0x0f00 → v &&& 0x7f = c a &&& 0x7f)
    (hlow : 0x0f06 ≤ a → a % 8 = 6 → v &&& 3 = c a &&& 3) (h7 : 0x0f06 ≤ a → a % 8 ≠ 7) :
    StartsKept c (Function.update c a v) where
  count := Function.update_of_ne h5.symm ..
  name b h1 h2 := by
    by_cases hb : b = a
    · rw [hb, Function.update_self]
      exact hname (hb ▸ h2)
    · rw [Function.update_of_ne hb]
  low b h1 h2 := by
    by_cases hb : b = a
    · rw [hb, Function.update_self]
      exact hlow (hb ▸ h1) (hb ▸ h2)
    · rw [Function.update_of_ne hb]
  start b h1 h2 := by
    have hb : b ≠ a := by
      rintro rfl
      exact h7 h1 h2
    rw [Function.update_of_ne hb]

lemma cycled (h : StartsKept c c') : StartsKept c (cycledCat c') :=
  h.trans (update c' (by decide) (fun h => absurd h (by decide)) (fun h => absurd h (by decide))
    fun h => absurd h (by decide))

lemma boundAt_eq (h : StartsKept c c') (i : ℕ) : boundAt c' (8 * i) = boundAt c (8 * i) := by
  have h6 := congrArg BitVec.toNat (h.low (0x0f06 + 8 * i) (by omega) (by omega))
  have h7 := h.start (0x0f07 + 8 * i) (by omega) (by omega)
  rw [toNat_and_three, toNat_and_three] at h6
  rw [boundAt, boundAt, h6, h7]

lemma start_eq (h : StartsKept c c') (i : ℕ) :
    (entryAt c' (8 * i)).start = (entryAt c (8 * i)).start := by
  rw [entryAt_start, entryAt_start, ← Nat.mul_succ, h.boundAt_eq]

lemma entryCount_eq (h : StartsKept c c') : entryCount c' = entryCount c := by
  rw [entryCount, entryCount, h.count]

lemma covers_congr {w p e e' : Byte} (h : e' &&& 0x7f = e &&& 0x7f) : Covers w p e' ↔ Covers w p e := by
  rw [Covers, Covers, h, and_of_and e' e h]

/-- A search finds the same entry. -/
lemma nextEntry_eq (h : StartsKept c c') {w : Byte} {f : Fin 8 → Byte} (hn : entryCount c ≤ 31) :
    nextEntry w f c' 32 0xf8 = nextEntry w f c 32 0xf8 := by
  have hhits : hitsFrom w f c' (entryCount c) 0 = hitsFrom w f c (entryCount c) 0 := by
    refine List.filter_congr fun o ho => ?_
    obtain ⟨i, hi, rfl⟩ := List.mem_map.1 ho
    have hi := List.mem_range'_1.1 hi
    refine decide_eq_decide.2 (forall_congr' fun j => covers_congr ?_)
    have hj := j.isLt
    exact h.name _ (by omega) (by omega)
  have hold := Rom.nextEntry_eq (w := w) (f := f) hn rfl 32 0 0xf8 rfl (by omega)
  have hnew := Rom.nextEntry_eq (w := w) (f := f) (c := c') hn
    h.entryCount_eq 32 0 0xf8 rfl (by omega)
  rw [hhits, ← hold] at hnew
  exact Option.map_injective (fun _ _ => BitVec.eq_of_toNat_eq) hnew

end StartsKept

lemma keepLow (a m : Byte) : ((a ^^^ m) &&& 0x30 ^^^ m) &&& 3 = m &&& 3 :=
  and_three_congr (by simp) (by simp)

/-! ## Room -/

/-- The two subtractions of `$91ce`. -/
lemma roomOf_val {c : ℕ → Byte} {x : ℕ} (h : (entryAt c x).start ≤ boundAt c x) :
    256 * (roomOf c x).2.toNat + (roomOf c x).1.toNat = boundAt c x - (entryAt c x).start := by
  have e6 : 0x0f08 + x + ((6 : Fin 8) : ℕ) = 0x0f0e + x := by simp; omega
  have e7 : 0x0f08 + x + ((7 : Fin 8) : ℕ) = 0x0f0f + x := by simp; omega
  simp only [Entry.start, entryAt, entryInfo, boundAt, e6, e7, roomOf] at h ⊢
  generalize c (0x0f07 + x) = t0 at h ⊢
  generalize c (0x0f06 + x) = t1 at h ⊢
  generalize c (0x0f0f + x) = s0 at h ⊢
  generalize c (0x0f0e + x) = s1 at h ⊢
  have h0 := sbc_eq t0 s0 true
  have h1 := sbc_eq t1 s1 (sbc t0 s0 true).2
  have hb0 := byte_lt (sbc t0 s0 true).1
  have hc0 := toNat_bool_le (sbc t0 s0 true).2
  have hc1 := toNat_bool_le (sbc t1 s1 (sbc t0 s0 true).2).2
  have ht0 := byte_lt t0
  have hs0 := byte_lt s0
  rw [toNat_and_three]
  simp only [Bool.toNat_true] at h0
  omega

namespace State

/-- The entry that `$8e58` finds for a channel. -/
def entryOf (s : State) (c : Chan) : Option Byte :=
  nextEntry s.wildcard (fun i => if i = 7 then c.name 7 &&& 0x7f else c.name i) (s.catOf c.drv) 32 0xf8

end State

/-- The file of a channel may get `n` bytes long: within the sectors of the disk, and either within
the space it has or within the space up to the next file, when its entry is found. -/
structure HasRoom (s : State) (c : Chan) (n : ℕ) : Prop where
  inside : 256 * c.start + n ≤ 256 * 800
  ext_le : c.ext.val ≤ c.alloc.val
  room : n ≤ c.alloc.val ∨ ∃ x, s.entryOf c = some x ∧ (entryAt (s.catOf c.drv) x.toNat).start = c.start ∧
    n ≤ 256 * (boundAt (s.catOf c.drv) x.toNat - c.start)

/-- An entry starts where a channel says. -/
lemma start_eq_iff {c : ℕ → Byte} {x : ℕ} {d : Chan} :
    (entryAt c x).start = d.start ↔ (c (0x0f0e + x) ^^^ d.info 6) &&& 3 = 0 ∧ c (0x0f0f + x) = d.info 7 := by
  have e6 : 0x0f08 + x + ((6 : Fin 8) : ℕ) = 0x0f0e + x := by simp; omega
  have e7 : 0x0f08 + x + ((7 : Fin 8) : ℕ) = 0x0f0f + x := by simp; omega
  have h7 := byte_lt (c (0x0f0f + x))
  have h7' := byte_lt (d.info 7)
  rw [xor_and_eq_zero, ← BitVec.toNat_inj, ← BitVec.toNat_inj, toNat_and_three, toNat_and_three]
  simp only [Entry.start, entryAt, entryInfo, e6, e7, Chan.start]
  omega

/-- The file keeps its entry, and has the space it had or all up to the next file. -/
structure Enclosed (s s' : State) (c c' : Chan) : Prop where
  wildcard : s'.wildcard = s.wildcard
  name : c'.name = c.name
  info : c'.info = c.info
  bit : c'.bit = c.bit
  drv : c'.drv = c.drv
  starts : entryCount (s.catOf c.drv) ≤ 31 → StartsKept (s.catOf c.drv) (s'.catOf c.drv)
  alloc : c'.alloc = c.alloc ∨ ∃ x, s.entryOf c = some x ∧
    (entryAt (s.catOf c.drv) x.toNat).start = c.start ∧
    c'.alloc = ⟨c.alloc.lo, (roomOf (s.catOf c.drv) x.toNat).1, (roomOf (s.catOf c.drv) x.toNat).2⟩

/-- The catalogues and the wildcard are the same. -/
structure SameCats (s s' : State) : Prop where
  cats : s'.cats = s.cats
  catNo : s'.catNo = s.catNo
  wildcard : s'.wildcard = s.wildcard

lemma SameCats.catOf {s s' : State} (h : SameCats s s') (d : Byte) : s'.catOf d = s.catOf d := by
  rw [State.catOf, State.catOf, h.cats, h.catNo]

lemma SameCats.trans {s s' s'' : State} (h : SameCats s s') (h' : SameCats s' s'') : SameCats s s'' :=
  ⟨h'.cats.trans h.cats, h'.catNo.trans h.catNo, h'.wildcard.trans h.wildcard⟩

namespace Enclosed

variable {s s' s'' : State} {c c' c'' : Chan}

lemma of_same (h : SameCats s s') (hname : c'.name = c.name) (hinfo : c'.info = c.info)
    (hbit : c'.bit = c.bit) (hdrv : c'.drv = c.drv) (halloc : c'.alloc = c.alloc) :
    Enclosed s s' c c' where
  wildcard := h.wildcard
  name := hname
  info := hinfo
  bit := hbit
  drv := hdrv
  starts _ := by
    rw [h.catOf]
    exact StartsKept.refl _
  alloc := Or.inl halloc

lemma congr (h : Enclosed s s' c c') (hs : SameCats s' s'') (hname : c''.name = c'.name)
    (hinfo : c''.info = c'.info) (hbit : c''.bit = c'.bit) (hdrv : c''.drv = c'.drv)
    (halloc : c''.alloc = c'.alloc) : Enclosed s s'' c c'' where
  wildcard := hs.wildcard.trans h.wildcard
  name := hname.trans h.name
  info := hinfo.trans h.info
  bit := hbit.trans h.bit
  drv := hdrv.trans h.drv
  starts hn := by
    rw [hs.catOf]
    exact h.starts hn
  alloc := by
    rw [halloc]
    exact h.alloc

end Enclosed

/-- An entry that a search finds. -/
lemma State.entryOf_eq {s : State} {c : Chan} {x : Byte} (hn : entryCount (s.catOf c.drv) ≤ 31)
    (h : s.entryOf c = some x) : ∃ i < entryCount (s.catOf c.drv), x.toNat = 8 * i := by
  rcases nextEntry_first (w := s.wildcard)
    (f := fun i => if i = 7 then c.name 7 &&& 0x7f else c.name i) hn with
    ⟨i, z, hz, hi, hmatch⟩ | ⟨hnone, -⟩
  · obtain rfl : z = x := Option.some.inj (hz.symm.trans h)
    exact ⟨i, hmatch.lt, hi⟩
  · cases hnone.symm.trans h

/-- Writing the space of an entry leaves names and starts. -/
lemma putRoom_kept (c : ℕ → Byte) (i : ℕ) (r : Byte × Byte) :
    StartsKept c (cycledCat (Function.update (Function.update (Function.update c (0x0f0e + 8 * i)
      (((r.2 <<< 4) ^^^ c (0x0f0e + 8 * i)) &&& 0x30 ^^^ c (0x0f0e + 8 * i))) (0x0f0d + 8 * i) r.1)
      (0x0f0c + 8 * i) 0)) := by
  refine StartsKept.cycled ((StartsKept.update c (a := 0x0f0e + 8 * i) ?_ ?_ (fun _ _ => keepLow _ _)
    ?_).trans ((StartsKept.update _ (a := 0x0f0d + 8 * i) (v := r.1) ?_ ?_ ?_ ?_).trans
      (StartsKept.update _ (a := 0x0f0c + 8 * i) (v := 0) ?_ ?_ ?_ ?_))) <;> omega

section Extend

variable {y : Byte} {s : State} {n : ℕ}

/-- The entry of a channel is found, and starts where the channel says. -/
lemma setupSaveToMedia_run (hoff : s.chanOff = y) (hdisk : s.HasDisk s.curDrv)
    (hdrv : s.curDrv = (s.chan y).drv) (hdir : s.filenameParam 7 = (s.chan y).name 7 &&& 0x7f) {x : Byte}
    (hx : s.entryOf (s.chan y) = some x)
    (hstart : (entryAt (s.catOf (s.chan y).drv) x.toNat).start = (s.chan y).start) :
    ∃ f, (setupSaveToMedia y).run s = .ok () { s with
      filenameParam := f
      cat := s.catOf s.curDrv
      curDrvCat := s.curDrv
      catEntry := x
      chanEntry := x.toNat } := by
  subst hoff
  set f : Fin 8 → Byte := fun i => if i = 7 then s.filenameParam 7 else (s.chan s.chanOff).name i with hf
  have hfound : ({ s with filenameParam := f } : State).found = some x := by
    rw [← hx, State.found, State.entryOf, ← hdir, ← hdrv]
    rfl
  have hrun := searchCat_run (s := { s with filenameParam := f }) hdisk
  rw [State.searched, hfound] at hrun
  rw [← hdrv] at hstart
  obtain ⟨h6, h7⟩ := start_eq_iff.1 hstart
  refine ⟨f, ?_⟩
  rw [setupSaveToMedia, Prog.run_bind_ok (Prog.run_modify _ s), ← hf, Prog.run_bind_ok hrun]
  simp only [Option.map_some]
  rw [Prog.run_bind_ok (Prog.run_modify _ _), Prog.run_bind_ok (Prog.run_get _)]
  refine (congrArg (fun r : Routine Unit => r.run _) (if_neg (not_not.2 h6))).trans ?_
  exact congrArg (fun r : Routine Unit => r.run _) (if_neg (not_not.2 h7))

/-- The file gets the room up to the next one; only its space changes in the channel. -/
lemma extendFile_run (hoff : s.chanOff = y) (hw : s.CanWrite (s.chan y).drv)
    (hdrv : s.curDrv = (s.chan y).drv) (hdir : s.filenameParam 7 = (s.chan y).name 7 &&& 0x7f)
    (hroom : HasRoom s (s.chan y) n) (hlt : (s.chan y).alloc.val < n) :
    ∃ f c g x cs a, (extendFile y).run s = .ok () { s with
        filenameParam := f
        cat := c
        curDrvCat := g
        catEntry := x
        chanEntry := x.toNat
        cats := cs
        chan := Function.update s.chan y { s.chan y with alloc := a } } ∧ n ≤ a.val ∧
      Enclosed s { s with cats := cs } (s.chan y) { s.chan y with alloc := a } := by
  obtain ⟨x, hx, hstart, hn⟩ := hroom.room.resolve_left (by omega)
  obtain ⟨f, hrun⟩ := setupSaveToMedia_run hoff (hdrv ▸ hw.2.1) hdrv hdir hx hstart
  have hval := roomOf_val (c := s.catOf (s.chan y).drv) (x := x.toNat) (by rw [hstart]; omega)
  rw [hstart, ← hdrv] at hval
  set u : State := { s with
    filenameParam := f
    cat := s.catOf s.curDrv
    curDrvCat := s.curDrv
    catEntry := x
    chanEntry := x.toNat } with hu
  have hne : ¬ ((roomOf u.cat u.chanEntry).2 = (u.chan y).alloc.hi ∧
      (roomOf u.cat u.chanEntry).1 = (u.chan y).alloc.mid) := by
    rintro ⟨h1, h2⟩
    have h1' : (roomOf (s.catOf s.curDrv) x.toNat).2 = (s.chan y).alloc.hi := h1
    have h2' : (roomOf (s.catOf s.curDrv) x.toNat).1 = (s.chan y).alloc.mid := h2
    rw [h1', h2', hdrv] at hval
    rw [Num24.val] at hlt
    omega
  rw [extendFile, Prog.run_bind_ok hrun, Prog.run_bind_ok (Prog.run_get u)]
  simp only
  rw [Prog.run_bind_ok (Prog.run_modify _ u), if_neg hne, Prog.run_bind_ok (Prog.run_modify _ _),
    modifyChan, Prog.run_bind_ok (Prog.run_modify _ _), Prog.run_bind_ok (Prog.run_modify _ _)]
  refine ⟨_, _, _, _, _, ⟨(s.chan y).alloc.lo, (roomOf (s.catOf s.curDrv) x.toNat).1,
    (roomOf (s.catOf s.curDrv) x.toNat).2⟩, (saveCat_run (hdrv ▸ hw)).trans rfl, ?_, ?_⟩
  · rw [← hdrv] at hn
    simp only [Num24.val]
    omega
  · refine ⟨rfl, rfl, rfl, rfl, rfl, fun hle => ?_, Or.inr ⟨x, hx, hstart, by rw [hdrv]⟩⟩
    obtain ⟨i, -, hi⟩ := State.entryOf_eq hle hx
    rw [← hdrv]
    show StartsKept (s.catOf s.curDrv) (Function.update s.cats (s.catNo s.curDrv) _ (s.catNo s.curDrv))
    rw [Function.update_self]
    have hkept := putRoom_kept (s.catOf s.curDrv) i (roomOf (s.catOf s.curDrv) x.toNat)
    rw [← hi] at hkept
    exact hkept

end Extend

/-! ## One byte -/

namespace Chan

variable {c : Chan}

/-- The block after a byte has been put into the buffer. -/
def put (c : Chan) : Chan := { c with flags := 0x40 ||| c.flags }.advance.lengthen

/-- What putting a byte at the end of the file does to the block. -/
structure Grown (c c' : Chan) : Prop where
  name : c'.name = c.name
  info : c'.info = c.info
  page : c'.page = c.page
  alloc : c'.alloc = c.alloc
  bit : c'.bit = c.bit
  drv : c'.drv = c.drv
  ptr : c'.ptr = c'.ext
  ext : c'.ext.val = c.ext.val + 1
  sec : c'.sec = c.sec
  valid : c'.Valid ↔ c.Valid ∧ (c.ext.val + 1) / 256 = c.ext.val / 256
  dirty : c'.Dirty

lemma putFlags (f : Byte) : (0x40 ||| f) &&& 0x80 = f &&& 0x80 ∧ (0x40 ||| f) &&& 0x40 ≠ 0 ∧
    (0x40 ||| f) &&& 3 = f &&& 3 := by
  revert f
  decide

lemma lengthenFlags (f : Byte) : (0x20 ||| f) &&& 0x80 = f &&& 0x80 ∧
    (0x20 ||| f) &&& 0x40 = f &&& 0x40 ∧ (0x20 ||| f) &&& 3 = f &&& 3 := by
  revert f
  decide

lemma put_grown (hptr : c.ptr = c.ext) (h : c.ext.val + 1 < 16777216) : Grown c c.put := by
  obtain ⟨hv, hd, hdrv⟩ := putFlags c.flags
  set d : Chan := { c with flags := 0x40 ||| c.flags } with hdef
  have hp : d.ptr.val = c.ext.val := congrArg Num24.val hptr
  obtain ⟨hsame, hptr', hsec, hvalid, hdirty, -⟩ := d.advance_spec (by omega)
  obtain ⟨hv', hd', hdrv'⟩ := lengthenFlags d.advance.flags
  have hvd : d.Valid ↔ c.Valid := by rw [Valid, Valid, hdef, hv]
  have hcover : (comparePtr d.advance.ptr d.advance.ext).2 = true := by
    rw [comparePtr_snd, hptr', hsame.ext, hp]
    exact Nat.le_succ _
  have hput : c.put = { d.advance with flags := 0x20 ||| d.advance.flags, ext := d.advance.ptr } :=
    if_pos hcover
  rw [hput]
  refine ⟨hsame.name, hsame.info, hsame.page, hsame.alloc, hsame.bit, ?_, rfl, ?_, hsec, ?_, ?_⟩
  · rw [Chan.drv, hdrv']
    exact hsame.drv.trans hdrv
  · rw [hptr', hp]
  · rw [Valid, hv', ← hp]
    exact hvalid.trans (and_congr_left fun _ => hvd)
  · rw [Dirty, hd']
    exact hdirty.2 hd

end Chan

/-- A channel in use whose PTR is at the end of its file, which may get `n` bytes long. -/
structure Ending (s : State) (y : Byte) (n : ℕ) : Prop where
  used : s.inUse &&& handleMask y ≠ 0
  off : s.chanOff = y
  ptr : (s.chan y).ptr = (s.chan y).ext
  start_ge : 2 ≤ (s.chan y).start
  room : HasRoom s (s.chan y) n
  canWrite : s.CanWrite (s.chan y).drv
  unlocked : ((s.chan y).name 6).toNat < 128 ∧ ((s.chan y).name 7).toNat < 128

/-- The buffer goes with the sector that it was last used for. -/
structure AtEnd (s : State) (y : Byte) (n : ℕ) : Prop extends Ending s y n where
  clean : ¬ (s.chan y).Dirty → (s.chan y).sec ≠ 0 →
    ∀ i < 256, s.mem ((s.chan y).buffer + i) = s.disk (s.addrOn (s.chan y).drv (s.chan y).sec + i)
  dirty : (s.chan y).Dirty → (s.chan y).sec < 800

/-- The next byte can go into the buffer. -/
structure Ready (s : State) (y : Byte) (n : ℕ) : Prop extends Ending s y n where
  valid : (s.chan y).Valid
  sec : (s.chan y).sec < 800

/-- A channel of the same file, not longer than its space, has the same room. -/
lemma HasRoom.congr {s s' : State} {c c' : Chan} {n : ℕ} (h : HasRoom s c n)
    (hwild : s'.wildcard = s.wildcard) (hcats : s'.cats = s.cats) (hno : s'.catNo = s.catNo)
    (hname : c'.name = c.name) (hinfo : c'.info = c.info) (hdrv : c'.drv = c.drv)
    (halloc : c'.alloc = c.alloc) (hext : c'.ext.val ≤ c.alloc.val) : HasRoom s' c' n := by
  have hcat : s'.catOf c'.drv = s.catOf c.drv := by rw [State.catOf, State.catOf, hcats, hno, hdrv]
  have hentry : s'.entryOf c' = s.entryOf c := by rw [State.entryOf, State.entryOf, hcat, hwild, hname]
  have hstart : c'.start = c.start := by rw [Chan.start, Chan.start, hinfo]
  refine ⟨by rw [hstart]; exact h.inside, by rw [halloc]; exact hext, ?_⟩
  rw [halloc, hentry, hcat, hstart]
  exact h.room

section Put

variable {y : Byte} {s : State} {n : ℕ}

/-- A byte put into the buffer is shown at its place in the page that the buffer is for. -/
lemma store_run (h : Ready s y n) (hlt : (s.chan y).ext.val < n)
    (hspace : (s.chan y).ext.val < (s.chan y).alloc.val) (v : Byte) :
    ∃ s', (do
        Prog.modify fun s => { s with
          mem := Function.update s.mem (256 * (s.chan y).page.toNat + (s.chan y).ptr.lo.toNat) v }
        modifyChan y Chan.put : Routine Unit).run s = .ok () s' ∧ AtEnd s' y n ∧ SameCats s s' ∧
      (s.chan y).Grown (s'.chan y) ∧
      ∀ i, s'.shown (s'.chan y) i = if (s.chan y).start + i / 256 = (s.chan y).sec ∧
        i % 256 = (s.chan y).ext.val % 256 then v else s.shown (s.chan y) i := by
  have hin := h.room.inside
  have hG := Chan.put_grown h.ptr (by omega)
  set m := Function.update s.mem (256 * (s.chan y).page.toNat + (s.chan y).ptr.lo.toNat) v with hm
  set s' : State := ({ s with mem := m } : State).setChan y (s.chan y).put with hs'
  have hchan : s'.chan y = (s.chan y).put := State.setChan_chan _ _ _
  have hstart : (s.chan y).put.start = (s.chan y).start := by rw [Chan.start, Chan.start, hG.info]
  have hlo : (s.chan y).ptr.lo.toNat = (s.chan y).ext.val % 256 := by
    have := byte_lt (s.chan y).ext.lo
    rw [h.ptr, Num24.val]
    omega
  refine ⟨s', rfl, ⟨⟨h.used, h.off, ?_, ?_, ?_, ?_, ?_⟩, fun hd => ?_, fun _ => ?_⟩, ⟨rfl, rfl, rfl⟩, ?_,
    fun i => ?_⟩
  · rw [hchan]
    exact hG.ptr
  · rw [hchan, hstart]
    exact h.start_ge
  · rw [hchan]
    refine h.room.congr rfl rfl rfl hG.name hG.info hG.drv hG.alloc ?_
    rw [hG.ext]
    exact hspace
  · rw [hchan, hG.drv]
    exact h.canWrite
  · rw [hchan, hG.name]
    exact h.unlocked
  · rw [hchan] at hd
    exact absurd hG.dirty hd
  · rw [hchan, hG.sec]
    exact h.sec
  · rw [hchan]
    exact hG
  · have hbuf : (s.chan y).put.buffer = (s.chan y).buffer := by rw [Chan.buffer, Chan.buffer, hG.page]
    have himage : s'.imageByte (s.chan y).put i = s.imageByte (s.chan y) i := by
      rw [State.imageByte, State.imageByte, hG.drv, hstart]
      rfl
    have hge := h.start_ge
    rw [hchan, State.shown, State.shown, hG.sec, hstart, hbuf, himage]
    by_cases hsec : (s.chan y).start + i / 256 = (s.chan y).sec
    · have hs : (s.chan y).sec ≠ 0 ∧ (s.chan y).sec = (s.chan y).start + i / 256 := ⟨by omega, hsec.symm⟩
      rw [if_pos hs, if_pos hs]
      show m _ = _
      rw [hm, Chan.buffer, Function.update_apply, hlo]
      by_cases hi : i % 256 = (s.chan y).ext.val % 256
      · rw [if_pos (by rw [hi]), if_pos ⟨hsec, hi⟩]
      · rw [if_neg (show ¬ _ from fun he => hi (by omega)),
          if_neg (show ¬ (_ ∧ _) from fun hc => hi hc.2)]
    · have hs : ¬ ((s.chan y).sec ≠ 0 ∧ (s.chan y).sec = (s.chan y).start + i / 256) :=
        fun hc => hsec hc.2.symm
      rw [if_neg hs, if_neg hs, if_neg (show ¬ (_ ∧ _) from fun hc => hsec hc.1)]

/-- What a channel shows depends on the disk, its buffer and where its file and the buffer lie. -/
lemma State.shown_congr {s s' : State} {c c' : Chan} (hmem : s'.mem = s.mem) (hdisk : s'.disk = s.disk)
    (hdrives : s.SameDrives s') (hsec : c'.sec = c.sec) (hinfo : c'.info = c.info)
    (hpage : c'.page = c.page) (hdrv : c'.drv = c.drv) (i : ℕ) : s'.shown c' i = s.shown c i := by
  have hstart : c'.start = c.start := by rw [Chan.start, Chan.start, hinfo]
  have hbuf : c'.buffer = c.buffer := by rw [Chan.buffer, Chan.buffer, hpage]
  rw [State.shown, State.shown, State.imageByte, State.imageByte, hsec, hstart, hbuf, hdrv, hmem, hdisk,
    hdrives.addrOn]

/-- The state but for the names, the catalogue and the space of the channel. -/
lemma AtEnd.congr {t : State} {a : Num24} (h : AtEnd s y n) (huse : t.inUse = s.inUse)
    (hoff : t.chanOff = s.chanOff)
    (hchan : t.chan y = { s.chan y with alloc := a }) (hmem : t.mem = s.mem) (hdisk : t.disk = s.disk)
    (hdrives : s.SameDrives t) (hroom : HasRoom t { s.chan y with alloc := a } n) : AtEnd t y n := by
  refine ⟨⟨huse ▸ h.used, hoff.trans h.off, ?_, ?_, hchan ▸ hroom, ?_, ?_⟩, fun hd hz i hi => ?_, fun hd => ?_⟩
  · rw [hchan]
    exact h.ptr
  · rw [hchan]
    exact h.start_ge
  · rw [hchan]
    exact (hdrives.canWrite _).2 h.canWrite
  · rw [hchan]
    exact h.unlocked
  · rw [hmem, hdisk, hdrives.addrOn]
    rw [hchan] at hd hz ⊢
    exact h.clean hd hz i hi
  · rw [hchan] at hd ⊢
    exact h.dirty hd

/-- The first part of OSBPUT: the drive is selected, and a file that fills its space gets more. -/
lemma prepare_run (h : AtEnd s y n) (hlt : (s.chan y).ext.val < n) :
    ∃ t a, (do
        setFileDrv y
        Prog.when (comparePtr (s.chan y).ptr (s.chan y).alloc).1 (extendFile y)).run s = .ok () t ∧
      AtEnd t y n ∧ t.curDrv = (s.chan y).drv ∧ (s.chan y).ext.val < a.val ∧
      t.chan y = { s.chan y with alloc := a } ∧ t.mem = s.mem ∧ t.disk = s.disk ∧ s.SameDrives t ∧
      Enclosed s t (s.chan y) (t.chan y) := by
  set t : State := { s with
    filenameParam := Function.update s.filenameParam 7 ((s.chan y).name 7 &&& 0x7f)
    curDrv := (s.chan y).drv } with ht
  have hset : (setFileDrv y).run s = .ok () t := rfl
  have hroom : HasRoom t (t.chan y) n := h.room.congr rfl rfl rfl rfl rfl rfl rfl h.room.ext_le
  rw [Prog.run_bind_ok hset]
  by_cases hfull : (comparePtr (s.chan y).ptr (s.chan y).alloc).1 = true
  · have heq : (s.chan y).ext = (s.chan y).alloc := h.ptr.symm.trans (comparePtr_fst.1 hfull)
    have hdir : t.filenameParam 7 = (t.chan y).name 7 &&& 0x7f :=
      Function.update_self 7 _ s.filenameParam
    obtain ⟨f, c, g, x, cs, a, hrun, hn, henc⟩ :=
      extendFile_run (s := t) h.off h.canWrite rfl hdir hroom (heq ▸ hlt)
    rw [Prog.when, if_pos hfull]
    refine ⟨_, a, hrun, ?_, rfl, by omega, Function.update_self .., rfl, rfl, ⟨rfl, rfl, rfl, rfl, rfl⟩, ?_⟩
    · exact h.congr rfl rfl (Function.update_self ..) rfl rfl ⟨rfl, rfl, rfl, rfl, rfl⟩
        ⟨h.room.inside, (hlt.trans_le hn).le, Or.inl hn⟩
    · show Enclosed s _ (s.chan y) (Function.update t.chan y { t.chan y with alloc := a } y)
      rw [Function.update_self]
      exact ⟨henc.wildcard, rfl, rfl, rfl, rfl, henc.starts, henc.alloc⟩
  · have hne : (s.chan y).ext.val ≠ (s.chan y).alloc.val := fun he =>
      hfull (comparePtr_fst.2 (h.ptr.trans (Num24.val_injective he)))
    rw [Prog.when, if_neg hfull]
    exact ⟨t, (s.chan y).alloc, rfl,
      h.congr (a := (s.chan y).alloc) rfl rfl rfl rfl rfl ⟨rfl, rfl, rfl, rfl, rfl⟩ hroom, rfl,
      lt_of_le_of_ne h.room.ext_le hne, rfl, rfl, rfl, ⟨rfl, rfl, rfl, rfl, rfl⟩,
      .of_same ⟨rfl, rfl, rfl⟩ rfl rfl rfl rfl rfl⟩

/-- A changed buffer is written to its sector, before it is used for another. -/
lemma flush_run (h : AtEnd s y n) (hdrv : s.curDrv = (s.chan y).drv) :
    ∃ t f, (fileToMediaY y).run s = .ok () t ∧ AtEnd t y n ∧ t.chan y = { s.chan y with flags := f } ∧
      ¬ (t.chan y).Dirty ∧ t.curDrv = (t.chan y).drv ∧ SameCats s t ∧ (t.chan y).drv = (s.chan y).drv ∧
      ∀ i, t.shown (t.chan y) i = s.shown (s.chan y) i := by
  by_cases hd : (s.chan y).Dirty
  · have hsame := (s.chan y).cleaned_sameFile
    refine ⟨s.flushed y, _, fileToMediaY_dirty (h.dirty hd) h.canWrite hd h.off hdrv, ?_,
      s.flushed_chan y, ?_, ?_, ⟨rfl, rfl, rfl⟩, ?_, flushed_shown h.start_ge⟩
    · refine ⟨⟨h.used, h.off, ?_, ?_, ?_, ?_, ?_⟩, fun _ _ i hi => ?_, fun hc => ?_⟩ <;> rw [State.flushed_chan] at *
      · exact h.ptr
      · exact h.start_ge
      · exact h.room.congr rfl rfl rfl rfl rfl hsame.drv rfl h.room.ext_le
      · rw [hsame.drv]
        exact h.canWrite
      · exact h.unlocked
      · rw [hsame.drv]
        exact (copyBytes_apply _ _ _ _ hi).symm
      · exact absurd hc (s.chan y).cleaned_clean
    · rw [State.flushed_chan]
      exact (s.chan y).cleaned_clean
    · rw [State.flushed_chan, hsame.drv]
      exact hdrv
    · rw [State.flushed_chan, hsame.drv]
  · exact ⟨s, (s.chan y).flags, fileToMediaY_clean hd, h, rfl, hd, hdrv, ⟨rfl, rfl, rfl⟩, rfl,
      fun _ => rfl⟩

lemma AtEnd.atSector {t : State} (h : AtEnd s y n) (huse : t.inUse = s.inUse)
    (hoff : t.chanOff = s.chanOff)
    (hchan : t.chan y = (s.chan y).atSector) (hdrives : s.SameDrives t) (hwild : t.wildcard = s.wildcard)
    (hcats : t.cats = s.cats) (hno : t.catNo = s.catNo) (hsec : (s.chan y).atSector.sec < 800) :
    Ready t y n := by
  have hsame := (s.chan y).atSector_sameFile
  refine ⟨⟨huse ▸ h.used, hoff.trans h.off, ?_, ?_, ?_, ?_, ?_⟩, ?_, ?_⟩ <;> rw [hchan]
  · exact h.ptr
  · rw [hsame.start]
    exact h.start_ge
  · exact h.room.congr hwild hcats hno rfl rfl hsame.drv rfl h.room.ext_le
  · rw [hsame.drv]
    exact (hdrives.canWrite _).2 h.canWrite
  · exact h.unlocked
  · exact (s.chan y).atSector_valid
  · exact hsec

/-- The second part: a buffer that does not count as valid is for the page of PTR now. -/
lemma readyBuffer_run (h : AtEnd s y n) (hlt : (s.chan y).ext.val < n) (hdrv : s.curDrv = (s.chan y).drv)
    (hv : ¬ (s.chan y).Valid) :
    ∃ t f lo hi, (readyBuffer y).run s = .ok () t ∧ Ready t y n ∧ SameCats s t ∧
      (t.chan y).drv = (s.chan y).drv ∧
      t.chan y = { s.chan y with flags := f, secLo := lo, secHi := hi } ∧
      (t.chan y).sec = (s.chan y).start + (s.chan y).ext.val / 256 ∧
      ∀ i < (s.chan y).ext.val, t.shown (t.chan y) i = s.shown (s.chan y) i := by
  obtain ⟨u, f, hflush, hu, hchan, hd, hdrv', hcats, hsame, hshown⟩ := flush_run h hdrv
  have hin := h.room.inside
  have hst : (u.chan y).start = (s.chan y).start := by
    rw [hchan]
    rfl
  have hptr : (u.chan y).ptr = (s.chan y).ext := hu.ptr.trans (by rw [hchan])
  have hsec : (u.chan y).atSector.sec = (s.chan y).start + (s.chan y).ext.val / 256 := by
    rw [Chan.atSector_sec (by rw [hst, hptr]; omega), hst, hptr]
  have hblock : (u.chan y).atSector = { s.chan y with
      flags := (u.chan y).atSector.flags, secLo := (u.chan y).atSector.secLo,
      secHi := (u.chan y).atSector.secHi } := by
    rw [hchan]
    rfl
  have himage : ∀ i, u.imageByte (u.chan y) i = s.shown (s.chan y) i := fun i => by
    rw [← hshown i, shown_of_clean (hu.clean hd)]
  have hbusy : (s.chan y).flags &&& 0x80 = 0 := not_not.1 hv
  rw [readyBuffer, Prog.run_bind_ok (Prog.run_get s), Prog.when, if_pos hbusy, Prog.run_bind_ok hflush]
  by_cases hlast : (s.chan y).ext.lo = 0 ∧ (comparePtr (s.chan y).ptr (s.chan y).ext).1 = true
  · -- a page that begins at the end of the file: what is in the buffer does not matter
    have hc : (u.setChan y (u.chan y).atSector).chan y = (u.chan y).atSector := State.setChan_chan _ _ _
    refine ⟨u.setChan y (u.chan y).atSector, _, _, _, ?_, ?_, ⟨hcats.1, hcats.2, hcats.3⟩,
      ?_, hc.trans hblock, ?_, fun i hi => ?_⟩
    · simp only
      rw [if_pos hlast]
      rfl
    · exact hu.atSector rfl rfl hc ⟨rfl, rfl, rfl, rfl, rfl⟩ rfl rfl rfl (by omega)
    · rw [hc, (u.chan y).atSector_sameFile.drv, hsame]
    · rw [hc, hsec]
    · have hsame := (u.chan y).atSector_sameFile
      have h0 : (s.chan y).ext.lo.toNat = 0 := congrArg BitVec.toNat hlast.1
      have hpage : ¬ ((u.chan y).atSector.sec ≠ 0 ∧
          (u.chan y).atSector.sec = (u.chan y).start + i / 256) := by
        rw [hsec, hst]
        rw [Num24.val] at hi ⊢
        omega
      rw [hc, State.shown, hsame.start, if_neg hpage, ← himage, State.imageByte, State.imageByte,
        hsame.drv, hsame.start]
      rfl
  · refine ⟨u.filled y, _, _, _, ?_, ?_, ⟨hcats.1, hcats.2, hcats.3⟩, ?_,
      (u.filled_chan y).trans hblock, ?_, fun i _ => ?_⟩
    · simp only
      rw [if_neg hlast]
      exact mediaToFile_run (by omega) hu.canWrite.2.1 hu.off hdrv'
    · exact hu.atSector rfl rfl (u.filled_chan y) ⟨rfl, rfl, rfl, rfl, rfl⟩ rfl rfl rfl (by omega)
    · rw [State.filled_chan, (u.chan y).atSector_sameFile.drv, hsame]
    · rw [State.filled_chan, hsec]
    · rw [filled_shown, himage]

/-! ## OSBPUT -/

/-- What OSBPUT of `v` at the end of the file does when the buffer is for page `k` of the file. -/
structure PutOn (s s' : State) (y : Byte) (n k : ℕ) : Prop where
  atEnd : AtEnd s' y n
  ext : (s'.chan y).ext.val = (s.chan y).ext.val + 1
  start : (s'.chan y).start = (s.chan y).start
  sec : (s'.chan y).sec = (s.chan y).start + k
  valid : (s'.chan y).Valid ↔ ((s.chan y).ext.val + 1) / 256 = (s.chan y).ext.val / 256
  enclosed : Enclosed s s' (s.chan y) (s'.chan y)

/-- The last part: the byte is put into the buffer. -/
lemma finish_run {u : State} (hu : Ready u y n) (hlt : (s.chan y).ext.val < n)
    (hext : (u.chan y).ext = (s.chan y).ext) (henc : Enclosed s u (s.chan y) (u.chan y))
    (hspace : (s.chan y).ext.val < (u.chan y).alloc.val) {k : ℕ}
    (hk : (u.chan y).sec = (s.chan y).start + k) (v : Byte) :
    ∃ s', (do
        Prog.modify fun s => { s with
          mem := Function.update s.mem (256 * (s.chan y).page.toNat + (s.chan y).ptr.lo.toNat) v }
        modifyChan y Chan.put : Routine Unit).run u = .ok () s' ∧ PutOn s s' y n k ∧
      ∀ i, s'.shown (s'.chan y) i = if i / 256 = k ∧ i % 256 = (s.chan y).ext.val % 256 then v
        else u.shown (u.chan y) i := by
  have hst : (u.chan y).start = (s.chan y).start := by rw [Chan.start, Chan.start, henc.info]
  obtain ⟨s', hrun, hend, hcats, hG, hshown⟩ := store_run hu (hext ▸ hlt) (hext ▸ hspace) v
  refine ⟨s', hrun, ⟨hend, ?_, ?_, ?_, ?_, henc.congr hcats hG.name hG.info hG.bit hG.drv hG.alloc⟩,
    fun i => ?_⟩
  · rw [hG.ext, hext]
  · rw [Chan.start, hG.info, ← hst]
    rfl
  · rw [hG.sec, hk]
  · rw [hG.valid, hext]
    exact and_iff_right hu.valid
  · simp only [hshown, hext, hst, hk, Nat.add_left_cancel_iff]

/-- With a buffer that counts as valid, the byte goes to the page that the buffer is for. -/
lemma bputAt_valid (h : AtEnd s y n) (hlt : (s.chan y).ext.val < n) {k : ℕ} (hv : (s.chan y).Valid)
    (hk : (s.chan y).sec = (s.chan y).start + k) (hsec : (s.chan y).sec < 800) (v : Byte) :
    ∃ s', (bputAt y v).run s = .ok () s' ∧ PutOn s s' y n k ∧
      ∀ i, s'.shown (s'.chan y) i = if i / 256 = k ∧ i % 256 = (s.chan y).ext.val % 256 then v
        else s.shown (s.chan y) i := by
  obtain ⟨t, a, hprep, ht, -, hspace, hchan, hmem, hdisk, hdrives, henc⟩ := prepare_run h hlt
  have hvt : (t.chan y).Valid := by
    rw [hchan]
    exact hv
  have hready : (readyBuffer y).run t = .ok () t := by
    rw [readyBuffer, Prog.run_bind_ok (Prog.run_get t), Prog.when, if_neg hvt]
    rfl
  have hu : Ready t y n := ⟨ht.toEnding, hvt, by rw [hchan]; exact hsec⟩
  obtain ⟨s', hrun, hput, hshown⟩ := finish_run (k := k) hu hlt (by rw [hchan]) henc
    (by rw [hchan]; exact hspace) (by rw [hchan]; exact hk) v
  have hsame : ∀ i, t.shown (t.chan y) i = s.shown (s.chan y) i :=
    State.shown_congr hmem hdisk hdrives (by rw [hchan]; rfl) (by rw [hchan]) (by rw [hchan])
      (by rw [hchan]; rfl)
  refine ⟨s', ?_, hput, fun i => by rw [hshown, hsame]⟩
  rw [bputAt, Prog.run_bind_ok (Prog.run_get s), if_neg (by have := h.unlocked.1; omega),
    if_neg (by have := h.unlocked.2; omega), Prog.run_bind_assoc, Prog.run_bind_ok hprep,
    Prog.run_bind_ok hready]
  exact hrun

/-- With one that does not, it goes to the end of the file. -/
lemma bputAt_invalid (h : AtEnd s y n) (hlt : (s.chan y).ext.val < n) (hv : ¬ (s.chan y).Valid) (v : Byte) :
    ∃ s', (bputAt y v).run s = .ok () s' ∧ PutOn s s' y n ((s.chan y).ext.val / 256) ∧
      (∀ i < (s.chan y).ext.val, s'.shown (s'.chan y) i = s.shown (s.chan y) i) ∧
      s'.shown (s'.chan y) (s.chan y).ext.val = v := by
  obtain ⟨t, a, hprep, ht, hdrv, hspace, hchan, hmem, hdisk, hdrives, henc⟩ := prepare_run h hlt
  have hvt : ¬ (t.chan y).Valid := by
    rw [hchan]
    exact hv
  obtain ⟨u, f, lo, hi, hready, hu, hcats, hsamedrv, hchan', hsec, hold⟩ :=
    readyBuffer_run ht (by rw [hchan]; exact hlt) (by rw [hchan]; exact hdrv) hvt
  rw [hchan] at hsec hold
  have henc' : Enclosed s u (s.chan y) (u.chan y) :=
    henc.congr hcats (by rw [hchan']) (by rw [hchan']) (by rw [hchan']) hsamedrv (by rw [hchan'])
  rw [hchan] at hchan'
  obtain ⟨s', hrun, hput, hshown⟩ := finish_run hu hlt (by rw [hchan']) henc'
    (by rw [hchan']; exact hspace) hsec v
  have hsame : ∀ i, t.shown (t.chan y) i = s.shown (s.chan y) i :=
    State.shown_congr hmem hdisk hdrives (by rw [hchan]; rfl) (by rw [hchan]) (by rw [hchan])
      (by rw [hchan]; rfl)
  rw [hchan] at hsame
  refine ⟨s', ?_, hput, fun i hlt' => ?_, ?_⟩
  · rw [bputAt, Prog.run_bind_ok (Prog.run_get s), if_neg (by have := h.unlocked.1; omega),
      if_neg (by have := h.unlocked.2; omega), Prog.run_bind_assoc, Prog.run_bind_ok hprep,
      Prog.run_bind_ok hready]
    exact hrun
  · have hne : ¬ (i / 256 = (s.chan y).ext.val / 256 ∧ i % 256 = (s.chan y).ext.val % 256) := by omega
    rw [hshown, if_neg hne, hold i hlt', hsame]
  · rw [hshown, if_pos ⟨rfl, rfl⟩]

end Put

end Udfs.Rom
