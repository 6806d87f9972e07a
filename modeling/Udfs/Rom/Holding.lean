import Udfs.Rom.Compact
import Udfs.Rom.Destroy
import Udfs.Rom.Exclusion
import Udfs.Rom.Rename
import Udfs.Rom.Writing

/-!
# Channels and their entries

An open channel has a copy of its catalogue entry, and counts the sectors of its file from the
start sector in this copy.  The entry itself stays in the catalogue with its name and its start:
closing and extending write the length only, and what takes an entry out or gives it another
name refuses to do so while the file is open.
-/

namespace Udfs.Rom

lemma StartsKept.entryName_eq {c c' : ℕ → Byte} (h : StartsKept c c') {i : ℕ} (hi : i < 31) (j : Fin 8) :
    entryName c' (8 * i) j &&& 0x7f = entryName c (8 * i) j &&& 0x7f := by
  have hj := j.isLt
  exact h.name _ (by omega) (by omega)

/-- Writing a length leaves the start alone, although both share a byte. -/
lemma putLength_kept (c : ℕ → Byte) (i : ℕ) (len : Num24) : StartsKept c (putLength c (8 * i) len) := by
  refine (StartsKept.update c (a := 0x0f0c + 8 * i) (v := len.lo) ?_ ?_ ?_ ?_).trans
    ((StartsKept.update _ (a := 0x0f0d + 8 * i) (v := len.mid) ?_ ?_ ?_ ?_).trans
      (StartsKept.update _ (a := 0x0f0e + 8 * i) ?_ ?_ (fun _ _ => keepLow _ _) ?_)) <;> omega

/-! ## The channels of a drive -/

/-- The entry has the name of the channel's file, and the start. -/
def Chan.NamedBy (c : Chan) (e : Entry) : Prop :=
  (∀ i, e.name i &&& 0x7f = c.name i &&& 0x7f) ∧ e.start = c.start

/-- Every channel in use is for drive `d` and has an entry among the `n` of the catalogue. -/
structure Linked (s : State) (d : Byte) (n : ℕ) (c : ℕ → Byte) : Prop where
  le : n ≤ 31
  count : (c 0x0f05).toNat = 8 * n
  drv : ∀ p ∈ slots, s.Used p → (s.chan p.1).drv = d
  entry : ∀ p ∈ slots, s.Used p → ∃ e ∈ entries c n, (s.chan p.1).NamedBy e

/-- The table of channels is in order, and the channels in use have their entries on drive `d`. -/
structure Held (d : Byte) (s : State) : Prop where
  table : TableOk s
  linked : ∃ n, Linked s d n (s.catOf d)

/-- The two blocks are for the same entry. -/
structure Chan.SameEntry (c c' : Chan) : Prop where
  name : c'.name = c.name
  info : c'.info = c.info
  bit : c'.bit = c.bit
  drv : c'.drv = c.drv

namespace Chan.SameEntry

variable {c c' c'' : Chan}

lemma refl (c : Chan) : c.SameEntry c := ⟨rfl, rfl, rfl, rfl⟩

lemma trans (h : c.SameEntry c') (h' : c'.SameEntry c'') : c.SameEntry c'' where
  name := h'.name.trans h.name
  info := h'.info.trans h.info
  bit := h'.bit.trans h.bit
  drv := h'.drv.trans h.drv

lemma of_sameFile (h : c.SameFile c') : c.SameEntry c' := ⟨h.name, h.info, h.bit, h.drv⟩

lemma namedBy (h : c.SameEntry c') {e : Entry} (he : c.NamedBy e) : c'.NamedBy e := by
  refine ⟨fun i => by rw [he.1 i, h.name], ?_⟩
  rw [he.2, Chan.start, Chan.start, h.info]

end Chan.SameEntry

section Written

variable (c : Chan)

lemma advance_sameEntry : c.SameEntry c.advance := by
  have hdrv : ∀ f : Byte, (0x7f &&& f) &&& 3 = f &&& 3 := by decide
  rw [Chan.advance]
  split_ifs
  · exact ⟨rfl, rfl, rfl, rfl⟩
  · exact ⟨rfl, rfl, rfl, hdrv _⟩

lemma lengthen_sameEntry : c.SameEntry c.lengthen := by
  have hdrv : ∀ f : Byte, (0x20 ||| f) &&& 3 = f &&& 3 := by decide
  rw [Chan.lengthen]
  split_ifs
  · exact ⟨rfl, rfl, rfl, hdrv _⟩
  · exact Chan.SameEntry.refl c

/-- The block when a byte has been put into the buffer. -/
lemma written_sameEntry : c.SameEntry { c with flags := 0x40 ||| c.flags }.advance.lengthen := by
  have hdrv : ∀ f : Byte, (0x40 ||| f) &&& 3 = f &&& 3 := by decide
  have hflags : c.SameEntry { c with flags := 0x40 ||| c.flags } := ⟨rfl, rfl, rfl, hdrv _⟩
  exact hflags.trans ((advance_sameEntry _).trans (lengthen_sameEntry _))

end Written

/-- The files of the channels are the same and start in the catalogue where they did; some channels
may have been closed. -/
structure Steady (d : Byte) (s s' : State) : Prop where
  chan : ∀ y, (s.chan y).SameEntry (s'.chan y)
  inUse : ∃ m, s'.inUse = m &&& s.inUse
  starts : StartsKept (s.catOf d) (s'.catOf d)

namespace Steady

variable {d : Byte} {s s' s'' : State}

lemma of_chan (h1 : s'.chan = s.chan) (h2 : s'.inUse = s.inUse)
    (h3 : StartsKept (s.catOf d) (s'.catOf d)) : Steady d s s' where
  chan y := by
    rw [h1]
    exact Chan.SameEntry.refl _
  inUse := ⟨BitVec.allOnes 8, by rw [h2, BitVec.allOnes_and]⟩
  starts := h3

/-- Nothing but the buffers and the working storage has changed. -/
lemma of_same (h1 : s'.chan = s.chan) (h2 : s'.inUse = s.inUse) (h3 : s'.catOf d = s.catOf d) :
    Steady d s s' :=
  of_chan h1 h2 (h3 ▸ StartsKept.refl _)

lemma refl (s : State) : Steady d s s := of_same rfl rfl rfl

lemma trans (h : Steady d s s') (h' : Steady d s' s'') : Steady d s s'' where
  chan y := (h.chan y).trans (h'.chan y)
  inUse := by
    obtain ⟨m, hm⟩ := h.inUse
    obtain ⟨m', hm'⟩ := h'.inUse
    exact ⟨m' &&& m, by rw [hm', hm, BitVec.and_assoc]⟩
  starts := h.starts.trans h'.starts

lemma of_ejected (h : s.Ejected s') : Steady d s s' := by
  obtain rfl | ⟨x, -, rfl⟩ := h <;> exact of_same rfl rfl rfl

lemma bind {α β : Type} {x : Routine α} {f : α → Routine β} {s : State}
    (hx : Prog.wp x (fun _ => Steady d s) (fun _ => Steady d s) s)
    (hf : ∀ a t, Steady d s t → Prog.wp (f a) (fun _ => Steady d t) (fun _ => Steady d t) t) :
    Prog.wp (x >>= f) (fun _ => Steady d s) (fun _ => Steady d s) s :=
  Prog.wp_bind_trans (R := Steady d) trans hx hf

lemma used (h : Steady d s s') {p : Byte × Byte} (hu : s'.Used p) : s.Used p := by
  obtain ⟨m, hm⟩ := h.inUse
  intro h0
  refine hu ?_
  rw [hm, BitVec.and_assoc, h0]
  exact BitVec.and_zero

lemma tableOk (h : Steady d s s') (ht : TableOk s) : TableOk s' where
  bits := by
    obtain ⟨m, hm⟩ := h.inUse
    rw [hm, BitVec.and_assoc, ht.bits]
    exact BitVec.and_zero
  bit p hp hu := (h.chan p.1).bit.trans (ht.bit p hp (h.used hu))

lemma linked (h : Steady d s s') {n : ℕ} (hl : Linked s d n (s.catOf d)) : Linked s' d n (s'.catOf d) where
  le := hl.le
  count := (congrArg BitVec.toNat h.starts.count).trans hl.count
  drv p hp hu := (h.chan p.1).drv.trans (hl.drv p hp (h.used hu))
  entry p hp hu := by
    obtain ⟨e, he, hnamed⟩ := hl.entry p hp (h.used hu)
    obtain ⟨hname, hstart⟩ := (h.chan p.1).namedBy hnamed
    obtain ⟨i, hi, rfl⟩ := List.mem_map.1 he
    have hlt := List.mem_range.1 hi
    have hle := hl.le
    refine ⟨entryAt (s'.catOf d) (8 * i), mem_entries hlt, fun j => ?_, ?_⟩
    · rw [← hname j]
      exact h.starts.entryName_eq (by omega) j
    · rw [h.starts.start_eq, hstart]

lemma held (h : Steady d s s') (hh : Held d s) : Held d s' := by
  obtain ⟨n, hl⟩ := hh.linked
  exact ⟨h.tableOk hh.table, n, h.linked hl⟩

end Steady

/-! ## Writing lengths back -/

lemma State.found_entry {s : State} {n : ℕ} {z : Byte} (hn : n ≤ 31)
    (hcount : (s.catOf s.curDrv 0x0f05).toNat = 8 * n) (h : s.found = some z) : ∃ i < n, z.toNat = 8 * i := by
  have hle := entryCount_of_eq hcount
  rcases nextEntry_first (w := s.wildcard) (f := s.filenameParam) (hle.trans_le hn) with
    ⟨i, z', hz', hi, hmatch⟩ | ⟨hnone, -⟩
  · obtain rfl : z' = z := Option.some.inj (hz'.symm.trans h)
    exact ⟨i, hle ▸ hmatch.lt, hi⟩
  · cases hnone.symm.trans h

/-- The catalogue of drive `d` is in the buffer. -/
structure Loaded (d : Byte) (s : State) : Prop where
  drv : s.curDrv = d
  cat : s.cat = s.catOf d

section Steps

variable {d : Byte} {s : State}

/-- A catalogue with the same names and starts may be saved. -/
lemma saveCat_steady (hd : s.curDrv = d) (hc : StartsKept (s.catOf d) (cycledCat s.cat)) :
    Prog.wp saveCat (fun _ => Steady d s) (fun _ => Steady d s) s := by
  refine Prog.wp_mono (saveCat_spec s) ?_ ?_
  · rintro _ s' ⟨rfl, -⟩
    have hcat : s.cycled.catSaved.catOf d = cycledCat s.cat := State.catSaved_catOf hd
    refine Steady.of_chan rfl rfl ?_
    rw [hcat]
    exact hc
  · rintro _ s' ⟨hej, -⟩
    have hcycled : Steady d s s.cycled := Steady.of_same rfl rfl rfl
    exact hcycled.trans (Steady.of_ejected hej)

/-- The channel's entry is looked for in the catalogue of its drive. -/
lemma setupSaveToMedia_steady (y : Byte) (h : Held d s) (hd : s.curDrv = d) :
    Prog.wp (setupSaveToMedia y)
      (fun _ t => Steady d s t ∧ Loaded d t ∧ ∃ i, t.chanEntry = 8 * i)
      (fun _ t => Steady d s t) s := by
  obtain ⟨n, hl⟩ := h.linked
  simp only [setupSaveToMedia, Prog.wp_bind, Prog.wp_modify]
  set t : State := { s with
    filenameParam := fun i => if i = 7 then s.filenameParam 7 else (s.chan y).name i }
  have hcount : (t.catOf t.curDrv 0x0f05).toNat = 8 * n := by
    rw [show t.curDrv = d from hd]
    exact hl.count
  refine Prog.wp_mono (searchCat_spec t) ?_ ?_
  · rintro r u ⟨rfl, rfl, -⟩
    have hu : Steady d s t.searched := Steady.of_same rfl rfl rfl
    rcases hfound : t.found with _ | z
    · exact hu
    · obtain ⟨i, -, hi⟩ := State.found_entry hl.le hcount hfound
      simp only [Option.map_some, Prog.wp_bind, Prog.wp_modify, Prog.wp_get, Prog.wp_ite, Prog.wp_fail,
        Prog.wp_pure]
      have hv : Steady d s { t.searched with chanEntry := z.toNat } := Steady.of_same rfl rfl rfl
      have hload : Loaded d { t.searched with chanEntry := z.toNat } := ⟨hd, congrArg s.catOf hd⟩
      exact ⟨fun _ => hv, fun _ => ⟨fun _ => hv, fun _ => ⟨hv, hload, i, hi⟩⟩⟩
  · rintro _ u ⟨rfl, -⟩
    exact Steady.of_same rfl rfl rfl

lemma lengthToMedia_steady (y : Byte) (h : Loaded d s) {i : ℕ} (hi : s.chanEntry = 8 * i) :
    Prog.wp (lengthToMedia y) (fun _ => Steady d s) (fun _ => Steady d s) s := by
  rw [lengthToMedia, Prog.wp_bind, Prog.wp_get, Prog.wp_when]
  refine ⟨fun _ => ?_, fun _ => Steady.refl s⟩
  rw [Prog.wp_bind, Prog.wp_modify]
  set t : State := { s with cat := putLength s.cat s.chanEntry (s.chan y).ext } with hteq
  have ht : Steady d s t := Steady.of_same rfl rfl rfl
  have hc : StartsKept (t.catOf d) (cycledCat t.cat) := by
    rw [show t.catOf d = s.cat from h.cat.symm, hteq, hi]
    exact (putLength_kept s.cat i _).cycled
  exact Prog.wp_mono (saveCat_steady (s := t) h.drv hc) (fun _ _ h => ht.trans h) fun _ _ h => ht.trans h

/-- A channel's block changes, and not its entry. -/
lemma Steady.modifyChan (y : Byte) {f : Chan → Chan} (hf : (s.chan y).SameEntry (f (s.chan y))) :
    Steady d s (s.setChan y (f (s.chan y))) where
  chan z := by
    by_cases hz : z = y
    · subst hz
      rw [State.setChan_chan]
      exact hf
    · rw [State.setChan_chan_of_ne _ _ hz]
      exact Chan.SameEntry.refl _
  inUse := ⟨BitVec.allOnes 8, (BitVec.allOnes_and ..).symm⟩
  starts := StartsKept.refl _

lemma fileToMediaY_steady (y : Byte) (s : State) :
    Prog.wp (fileToMediaY y) (fun _ => Steady d s) (fun _ => Steady d s) s := by
  simp only [fileToMediaY, Prog.wp_bind, Prog.wp_get, Prog.wp_ite, Prog.wp_pure]
  refine ⟨fun _ => Steady.refl s, fun _ => ?_⟩
  refine Prog.wp_mono (saveMemBlock_spec _ s) ?_ fun _ _ h => Steady.of_ejected h
  rintro _ t rfl
  have hsame : (s.chan s.chanOff).SameEntry (s.chan s.chanOff).cleaned :=
    .of_sameFile (Chan.cleaned_sameFile _)
  set u := s.blockSaved (bufferReq (s.chan s.chanOff).page (s.chan s.chanOff).secHi (s.chan s.chanOff).secLo)
  have hsu : Steady d s u := Steady.of_same rfl rfl rfl
  exact hsu.trans (Steady.modifyChan (s := u) (f := Chan.cleaned) s.chanOff hsame)

/-- An offset that counts as in use is that of a channel. -/
lemma used_of_mask (ht : TableOk s) {y : Byte} (hy : y &&& 0xe0 = y) (h0 : y ≠ 0)
    (huse : s.inUse &&& handleMask y ≠ 0) : ∃ p ∈ slots, p.1 = y ∧ s.Used p := by
  obtain ⟨p, hp, hpy, hmask⟩ | ⟨hlow, -⟩ := offset_cases hy h0
  · refine ⟨p, hp, hpy, ?_⟩
    rw [State.Used, ← hmask]
    exact huse
  · refine absurd ?_ huse
    rw [← hlow, BitVec.and_comm (handleMask y), ← BitVec.and_assoc, ht.bits]
    exact BitVec.zero_and

lemma isHandleInUse_spec (y : Byte) (h : Held d s) :
    Prog.wp (isHandleInUse y)
      (fun b t => Steady d s t ∧ t.chanOff = y &&& 0xe0 ∧ (b = true → (t.chan t.chanOff).drv = d))
      (fun _ _ => False) s := by
  have hmask : ∀ y : Byte, (y &&& 0xe0) &&& 0xe0 = y &&& 0xe0 := by decide
  simp only [isHandleInUse, Prog.wp_bind, Prog.wp_modify, Prog.wp_ite, Prog.wp_pure, Prog.wp_get]
  refine ⟨fun _ => ⟨Steady.of_same rfl rfl rfl, trivial, fun hb => absurd hb Bool.false_ne_true⟩,
    fun h0 => ⟨Steady.of_same rfl rfl rfl, trivial, fun hb => ?_⟩⟩
  obtain ⟨p, hp, hpy, hu⟩ := used_of_mask h.table (hmask y) h0 (of_decide_eq_true hb)
  obtain ⟨n, hl⟩ := h.linked
  have hdrv := hl.drv p hp hu
  rw [hpy] at hdrv
  exact hdrv

/-- The drive of a channel is selected. -/
lemma setFileDrv_spec (y : Byte) (s : State) (hd : (s.chan y).drv = d) :
    Prog.wp (setFileDrv y) (fun _ t => Steady d s t ∧ t.curDrv = d) (fun _ _ => False) s := by
  exact ⟨Steady.of_same rfl rfl rfl, hd⟩

/-- Closing a channel that is in use or not. -/
lemma updateCatnfile_steady (y : Byte) (h : Held d s) :
    Prog.wp (updateCatnfile y) (fun _ => Steady d s) (fun _ => Steady d s) s := by
  rw [updateCatnfile, Prog.wp_bind]
  refine Prog.wp_mono (isHandleInUse_spec y h) ?_ fun _ _ hf => hf.elim
  rintro b t ⟨ht, -, hdrv⟩
  rw [Prog.wp_ite]
  refine ⟨fun hb => ?_, fun _ => ht⟩
  rw [Prog.wp_bind, Prog.wp_get]
  refine (Prog.wp_bind _ _).2 ?_
  rw [Prog.wp_modify]
  set u : State := { t with inUse := ~~~ (t.chan t.chanOff).bit &&& t.inUse } with hu
  have hsu : Steady d s u := ht.trans ⟨fun z => Chan.SameEntry.refl _, ⟨_, rfl⟩, StartsKept.refl _⟩
  rw [Prog.wp_when]
  refine ⟨fun _ => ?_, fun _ => hsu⟩
  rw [Prog.wp_bind]
  refine Prog.wp_mono (setFileDrv_spec t.chanOff u (hdrv hb)) ?_ fun _ _ hf => hf.elim
  rintro _ v ⟨huv, hvd⟩
  have hsv := hsu.trans huv
  rw [Prog.wp_bind]
  refine Prog.wp_mono (setupSaveToMedia_steady t.chanOff (hsv.held h) hvd) ?_ fun _ _ hw => hsv.trans hw
  rintro _ w ⟨hvw, hload, i, hi⟩
  have hsw := hsv.trans hvw
  refine Prog.wp_mono (Steady.bind (lengthToMedia_steady t.chanOff hload hi)
    fun _ x _ => fileToMediaY_steady t.chanOff x) (fun _ x hx => hsw.trans hx) fun _ x hx => hsw.trans hx

/-! ## Closing, opening and writing -/

lemma closeFrom_steady (n : ℕ) : ∀ (a : Byte) (s : State), Held d s →
    Prog.wp (closeFrom n a) (fun _ => Steady d s) (fun _ => Steady d s) s := by
  induction n with
  | zero => exact fun _ s _ => Steady.refl s
  | succ n ih =>
      intro a s h
      rw [closeFrom, Prog.wp_ite]
      refine ⟨fun _ => Steady.refl s, fun _ => ?_⟩
      exact Steady.bind (updateCatnfile_steady _ h) fun _ t ht => ih _ t (ht.held h)

lemma closeFiles_steady (y : Byte) (h : Held d s) :
    Prog.wp (closeFiles y) (fun _ => Steady d s) (fun _ => Steady d s) s := by
  rw [closeFiles, Prog.wp_ite, Prog.wp_ite]
  exact ⟨fun _ => closeFrom_steady 8 0 s h, fun _ => ⟨fun _ => Steady.refl s,
    fun _ => updateCatnfile_steady _ h⟩⟩

lemma openHandle_spec (y : Byte) (h : Held d s) :
    Prog.wp (openHandle y)
      (fun a t => Steady d s t ∧ t.chanOff = a ∧ (t.chan a).drv = d) (fun _ => Steady d s) s := by
  simp only [openHandle, Prog.wp_bind]
  refine Prog.wp_mono (isHandleInUse_spec _ h) ?_ fun _ _ hf => hf.elim
  rintro b t ⟨ht, -, hdrv⟩
  rw [Prog.wp_ite]
  refine ⟨fun hb => ?_, fun _ => ht⟩
  rw [Prog.wp_bind, Prog.wp_get]
  exact ⟨ht, rfl, hdrv hb⟩

/-- A file is given more room: its length changes in the catalogue, and not its start. -/
lemma extendFile_steady (y : Byte) (h : Held d s) (hd : s.curDrv = d) :
    Prog.wp (extendFile y) (fun _ => Steady d s) (fun _ => Steady d s) s := by
  rw [extendFile, Prog.wp_bind]
  refine Prog.wp_mono (setupSaveToMedia_steady y h hd) ?_ fun _ _ ht => ht
  rintro _ t ⟨ht, hload, i, hi⟩
  rw [Prog.wp_bind, Prog.wp_get]
  simp only [hi]
  set r := roomOf t.cat (8 * i)
  set m := t.cat (0x0f0e + 8 * i)
  rw [Prog.wp_bind, Prog.wp_modify]
  set c := Function.update t.cat (0x0f0e + 8 * i) (((r.2 <<< 4) ^^^ m) &&& 0x30 ^^^ m)
  have hc : Steady d s { t with cat := c } := ht.trans (Steady.of_same rfl rfl rfl)
  rw [Prog.wp_ite]
  refine ⟨fun _ => ?_, fun _ => ?_⟩
  · refine Prog.wp_mono (Steady.bind (updateCatnfile_steady y (hc.held h)) fun _ v _ => ?_)
      (fun _ _ hv => hc.trans hv) fun _ _ hv => hc.trans hv
    exact Steady.refl v
  · simp only [Prog.wp_bind, Prog.wp_modify, modifyChan]
    set v : State := { t with cat := Function.update c (0x0f0d + 8 * i) r.1 } with hv
    have hchan : (v.chan y).SameEntry { v.chan y with alloc := ⟨(v.chan y).alloc.lo, r.1, r.2⟩ } :=
      ⟨rfl, rfl, rfl, rfl⟩
    set u := v.setChan y { v.chan y with alloc := ⟨(v.chan y).alloc.lo, r.1, r.2⟩ } with hu
    have hvu : Steady d v u :=
      Steady.modifyChan (s := v) (f := fun c => { c with alloc := ⟨c.alloc.lo, r.1, r.2⟩ }) y hchan
    have hsu : Steady d s u := ht.trans ((Steady.of_same rfl rfl rfl : Steady d t v).trans hvu)
    set w : State := { u with cat := Function.update u.cat (0x0f0c + 8 * i) 0 }
    have huw : Steady d u w := Steady.of_same rfl rfl rfl
    have hkept : StartsKept (w.catOf d) (cycledCat w.cat) := by
      have hcat : w.catOf d = t.cat := hload.cat.symm
      rw [hcat]
      exact putRoom_kept t.cat i r
    exact Prog.wp_mono (saveCat_steady (s := w) hload.drv hkept) (fun _ _ hx => (hsu.trans huw).trans hx)
      fun _ _ hx => (hsu.trans huw).trans hx

lemma mediaToFile_steady (s : State) :
    Prog.wp mediaToFile (fun _ => Steady d s) (fun _ => Steady d s) s := by
  simp only [mediaToFile, Prog.wp_bind, Prog.wp_get, modifyChan, Prog.wp_modify]
  have hu : Steady d s (s.setChan s.chanOff (s.chan s.chanOff).atSector) :=
    Steady.modifyChan s.chanOff (.of_sameFile (s.chan s.chanOff).atSector_sameFile)
  refine Prog.wp_mono (loadMemBlock_spec _ _) ?_ ?_
  · rintro _ t rfl
    exact hu.trans (Steady.of_same rfl rfl rfl)
  · rintro _ t rfl
    exact hu

lemma readyBuffer_steady (y : Byte) (s : State) :
    Prog.wp (readyBuffer y) (fun _ => Steady d s) (fun _ => Steady d s) s := by
  rw [readyBuffer, Prog.wp_bind, Prog.wp_get, Prog.wp_when]
  refine ⟨fun _ => ?_, fun _ => Steady.refl s⟩
  refine Steady.bind (fileToMediaY_steady y s) fun _ t _ => ?_
  rw [Prog.wp_ite]
  exact ⟨fun _ => Steady.modifyChan y (.of_sameFile (t.chan y).atSector_sameFile),
    fun _ => mediaToFile_steady t⟩

/-- Writing a byte changes PTR, EXT and flags of the channel. -/
lemma bputAt_steady (y v : Byte) (h : Held d s) (hd : (s.chan y).drv = d) :
    Prog.wp (bputAt y v) (fun _ => Steady d s) (fun _ => Steady d s) s := by
  rw [bputAt, Prog.wp_bind, Prog.wp_get, Prog.wp_ite, Prog.wp_ite]
  refine ⟨fun _ => Steady.refl s, fun _ => ⟨fun _ => Steady.refl s, fun _ => ?_⟩⟩
  rw [Prog.wp_bind]
  refine Prog.wp_mono (setFileDrv_spec y s hd) ?_ fun _ _ hf => hf.elim
  rintro _ t ⟨ht, htd⟩
  refine Prog.wp_mono (Steady.bind (d := d) ?_ fun _ u _ => ?_) (fun _ _ hu => ht.trans hu)
    fun _ _ hu => ht.trans hu
  · rw [Prog.wp_when]
    exact ⟨fun _ => extendFile_steady y (ht.held h) htd, fun _ => Steady.refl t⟩
  · refine Steady.bind (readyBuffer_steady y u) fun _ w _ => ?_
    simp only [Prog.wp_bind, Prog.wp_modify, modifyChan]
    set x : State := { w with
      mem := Function.update w.mem (256 * (w.chan y).page.toNat + (w.chan y).ptr.lo.toNat) v }
    have hwx : Steady d w x := Steady.of_same rfl rfl rfl
    exact hwx.trans (Steady.modifyChan (s := x)
      (f := fun c => { c with flags := 0x40 ||| c.flags }.advance.lengthen) y (written_sameEntry _))

lemma bputv_steady (y v : Byte) (h : Held d s) :
    Prog.wp (bputv y v) (fun _ => Steady d s) (fun _ => Steady d s) s := by
  rw [bputv, Prog.wp_bind]
  refine Prog.wp_mono (openHandle_spec y h) ?_ fun _ _ ht => ht
  rintro a t ⟨ht, -, hdrv⟩
  exact Prog.wp_mono (bputAt_steady a v (ht.held h) hdrv) (fun _ _ hu => ht.trans hu)
    fun _ _ hu => ht.trans hu

end Steps

end Udfs.Rom
