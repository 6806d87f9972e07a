import Udfs.Rom.Holding
import Udfs.Rom.Streams

/-!
# A file open for update

A file open for update is read and written from one place that moves on, and may get longer up to
the space granted to it.  The channel keeps one sector of it in a buffer, and a file that grows out
of its space takes the space up to the next file.  A call touches the channel, its buffer and the
sectors granted to the file, and nothing else.
-/

namespace Udfs.Rom

/-! ## A file that is read and written -/

namespace Stream

/-- Write a byte at the place the file has been read or written up to. -/
def put (f : Stream) (v : Byte) : Stream :=
  { f with data := Function.update f.data f.ptr v, length := max f.length (f.ptr + 1), ptr := f.ptr + 1 }

/-- The same file, as far as it goes. -/
structure Agrees (f g : Stream) : Prop where
  data : ∀ i < f.length, g.data i = f.data i
  length : g.length = f.length
  ptr : g.ptr = f.ptr
  told : g.told = f.told

namespace Agrees

variable {f g h : Stream}

lemma refl (f : Stream) : f.Agrees f := ⟨fun _ _ => rfl, rfl, rfl, rfl⟩

lemma trans (hfg : f.Agrees g) (hgh : g.Agrees h) : f.Agrees h where
  data i hi := (hgh.data i (by rw [hfg.length]; exact hi)).trans (hfg.data i hi)
  length := hgh.length.trans hfg.length
  ptr := hgh.ptr.trans hfg.ptr
  told := hgh.told.trans hfg.told

lemma get (hfg : f.Agrees g) : g.get.1 = f.get.1 ∧ f.get.2.Agrees g.get.2 := by
  simp only [Stream.get, hfg.length, hfg.ptr, hfg.told]
  split_ifs with hlt htold
  · exact ⟨by rw [hfg.data _ hlt], hfg.data, rfl, rfl, rfl⟩
  · exact ⟨rfl, hfg⟩
  · exact ⟨rfl, hfg.data, rfl, rfl, rfl⟩

lemma put (hfg : f.Agrees g) (hle : f.ptr ≤ f.length) (v : Byte) : (f.put v).Agrees (g.put v) := by
  refine ⟨?_, ?_, ?_, hfg.told⟩
  · intro i hi
    simp only [Stream.put] at hi ⊢
    by_cases hip : i = f.ptr
    · rw [hfg.ptr, hip]
      simp
    · rw [hfg.ptr, Function.update_of_ne hip, Function.update_of_ne hip]
      exact hfg.data i (by omega)
  · simp [Stream.put, hfg.length, hfg.ptr]
  · simp [Stream.put, hfg.ptr]

lemma seek (hfg : f.Agrees g) (n : ℕ) : (f.seek n).Agrees (g.seek n) :=
  ⟨hfg.data, hfg.length, rfl, rfl⟩

end Agrees

end Stream

/-! ## A byte put into the buffer -/

namespace Chan

variable {c : Chan}

/-- The length has changed since the file was opened. -/
def Changed (c : Chan) : Prop := c.flags &&& 0x20 ≠ 0

/-- Only closing gives the mark of a changed length up. -/
lemma changedKept (f : Byte) : (0x80 ||| f) &&& 0x20 = f &&& 0x20 ∧ (f &&& 0xbf) &&& 0x20 = f &&& 0x20 ∧
    (0x10 ||| f) &&& 0x20 = f &&& 0x20 ∧ (0x7f &&& f) &&& 0x20 = f &&& 0x20 ∧
    (0x6f &&& f) &&& 0x20 = f &&& 0x20 ∧ (0x40 ||| f) &&& 0x20 = f &&& 0x20 ∧ (0x20 ||| f) &&& 0x20 ≠ 0 := by
  revert f
  decide

lemma atSector_changed (c : Chan) : c.atSector.Changed ↔ c.Changed := by
  have hf : c.atSector.flags = 0x80 ||| c.flags := rfl
  rw [Changed, hf, (changedKept _).1, Changed]

lemma cleaned_changed (c : Chan) : c.cleaned.Changed ↔ c.Changed := by
  rw [Changed, cleaned, (changedKept _).2.1, Changed]

lemma advance_changed (c : Chan) : c.advance.Changed ↔ c.Changed := by
  rw [advance]
  split_ifs
  · exact Iff.rfl
  · rw [Changed, (changedKept _).2.2.2.1, Changed]

lemma movePtr_changed (c : Chan) (p : Num24) : (c.movePtr p).Changed ↔ c.Changed := by
  obtain ⟨h80, -, -, -, h6f, -⟩ := changedKept (0x6f &&& c.flags)
  rcases c.movePtr_flags p with h | h
  · rw [Changed, h, h80, (changedKept _).2.2.2.2.1, Changed]
  · rw [Changed, h, (changedKept _).2.2.2.2.1, Changed]

/-- What putting a byte does to a block. -/
structure Put (c c' : Chan) : Prop where
  name : c'.name = c.name
  info : c'.info = c.info
  page : c'.page = c.page
  alloc : c'.alloc = c.alloc
  bit : c'.bit = c.bit
  drv : c'.drv = c.drv
  ptr : c'.ptr.val = c.ptr.val + 1
  ext : c'.ext.val = max c.ext.val (c.ptr.val + 1)
  sec : c'.sec = c.sec
  valid : c'.Valid ↔ c.Valid ∧ (c.ptr.val + 1) / 256 = c.ptr.val / 256
  dirty : c'.Dirty
  told : c'.Told ↔ c.Told
  changed : c.Changed ∨ c.ext.val ≤ c.ptr.val + 1 → c'.Changed

lemma toldKept (f : Byte) : (0x40 ||| f) &&& 0x10 = f &&& 0x10 ∧ (0x20 ||| f) &&& 0x10 = f &&& 0x10 := by
  revert f
  decide

lemma put_put (hle : c.ptr.val ≤ c.ext.val) (h : c.ptr.val + 1 < 16777216) : Put c c.put := by
  obtain ⟨hv, hd, hdrv⟩ := putFlags c.flags
  obtain ⟨ht, -⟩ := toldKept c.flags
  set d : Chan := { c with flags := 0x40 ||| c.flags } with hdef
  obtain ⟨hsame, hptr, hsec, hvalid, hdirty, htold⟩ := d.advance_spec h
  have hvd : d.Valid ↔ c.Valid := by rw [Valid, Valid, hdef, hv]
  have htd : d.Told ↔ c.Told := by rw [Told, Told, hdef, ht]
  have hput : c.put = d.advance.lengthen := rfl
  have hptr' : d.advance.ptr.val = c.ptr.val + 1 := hptr
  have hext : d.advance.ext = c.ext := hsame.ext
  obtain ⟨-, -, -, -, -, hchanged, -⟩ := changedKept c.flags
  have hcd : d.Changed ↔ c.Changed := by rw [Changed, hdef, hchanged, Changed]
  rw [hput, lengthen]
  split_ifs with hlong
  · rw [comparePtr_snd, hptr', hext] at hlong
    obtain ⟨hv', hd', hdrv'⟩ := lengthenFlags d.advance.flags
    obtain ⟨-, ht'⟩ := toldKept d.advance.flags
    refine ⟨hsame.name, hsame.info, hsame.page, hsame.alloc, hsame.bit, ?_, hptr', ?_, hsec, ?_, ?_, ?_,
      fun _ => (changedKept d.advance.flags).2.2.2.2.2.2⟩
    · rw [Chan.drv, hdrv']
      exact hsame.drv.trans hdrv
    · show d.advance.ptr.val = _
      rw [hptr']
      omega
    · rw [Valid, hv']
      exact hvalid.trans (and_congr_left fun _ => hvd)
    · rw [Dirty, hd']
      exact hdirty.2 hd
    · rw [Told, ht']
      exact htold.trans htd
  · rw [comparePtr_snd, hptr', hext] at hlong
    refine ⟨hsame.name, hsame.info, hsame.page, hsame.alloc, hsame.bit, hsame.drv.trans hdrv, hptr', ?_, hsec,
      hvalid.trans (and_congr_left fun _ => hvd), hdirty.2 hd, htold.trans htd, fun hc => ?_⟩
    · rw [hext]
      omega
    · exact (advance_changed d).2 (hcd.2 (hc.resolve_right (by omega)))

end Chan

/-! ## A channel and its sectors -/

/-- The file of a channel lies on the disk in its drive, with `n` bytes granted to it. -/
structure Granted (s : State) (p : Byte × Byte) (n : ℕ) : Prop where
  start_ge : 2 ≤ (s.chan p.1).start
  ptr_le : (s.chan p.1).ptr.val ≤ (s.chan p.1).ext.val
  ext_le : (s.chan p.1).ext.val ≤ n
  inside : 256 * (s.chan p.1).start + n ≤ 256 * 800
  hasDisk : s.HasDisk (s.chan p.1).drv
  page : (s.chan p.1).page = (p.1 >>> 5) + 0x11

/-- And the buffer goes with the sector it was last used for, which is one of those granted. -/
structure ChanOn (s : State) (p : Byte × Byte) (n : ℕ) : Prop extends Granted s p n where
  valid : (s.chan p.1).Valid → (s.chan p.1).sec = (s.chan p.1).start + (s.chan p.1).ptr.val / 256
  clean : ¬ (s.chan p.1).Dirty → (s.chan p.1).sec ≠ 0 → ∀ i < 256, s.mem ((s.chan p.1).buffer + i)
    = s.disk (s.addrOn (s.chan p.1).drv (s.chan p.1).sec + i)
  own : (s.chan p.1).sec ≠ 0 → ∃ k, 256 * k < n ∧ (s.chan p.1).sec = (s.chan p.1).start + k
  dirty : (s.chan p.1).Dirty → (s.chan p.1).sec ≠ 0 ∧ s.CanWrite (s.chan p.1).drv

/-- The file may be written to, and has room for the bytes granted. -/
structure Writable (s : State) (p : Byte × Byte) (n : ℕ) : Prop where
  room : HasRoom s (s.chan p.1) n
  canWrite : s.CanWrite (s.chan p.1).drv
  unlocked : ((s.chan p.1).name 6).toNat < 128 ∧ ((s.chan p.1).name 7).toNat < 128
  few : entryCount (s.catOf (s.chan p.1).drv) ≤ 31

/-- A channel open for update. -/
structure UpdateOn (s : State) (p : Byte × Byte) (n : ℕ) : Prop extends ChanOn s p n, Writable s p n

/-- A channel open for input. -/
structure ReadOn (s : State) (p : Byte × Byte) (n : ℕ) : Prop extends ChanOn s p n where
  readOnly : s.ReadOnly p
  unwritten : ¬ (s.chan p.1).Dirty

/-- The next byte goes into the buffer. -/
structure StoreReady (s : State) (p : Byte × Byte) (n : ℕ) : Prop
    extends Granted s p n, Writable s p n where
  valid : (s.chan p.1).Valid
  sec : (s.chan p.1).sec = (s.chan p.1).start + (s.chan p.1).ptr.val / 256
  space : (s.chan p.1).ptr.val < (s.chan p.1).alloc.val
  left : (s.chan p.1).ptr.val < n

/-- The first byte on the disk of the file of a channel. -/
def State.fileBase (s : State) (c : Chan) : ℕ := s.addrOn c.drv c.start

/-- What no call on an open channel changes: which channels are in use and for which files, the drives, and
the names and starts in the catalogues. -/
structure Carried (s s' : State) : Prop where
  inUse : s'.inUse = s.inUse
  drives : s.SameDrives s'
  wildcard : s'.wildcard = s.wildcard
  catNo : s'.catNo = s.catNo
  defDir : s'.defDir = s.defDir
  defDrv : s'.defDrv = s.defDrv
  starts : ∀ d, entryCount (s.catOf d) ≤ 31 → StartsKept (s.catOf d) (s'.catOf d)
  entry : ∀ y, (s.chan y).SameEntry (s'.chan y)
  changed : ∀ y, (s.chan y).Changed → (s'.chan y).Changed

namespace Carried

variable {s s' s'' : State}

lemma refl (s : State) : Carried s s :=
  ⟨rfl, ⟨rfl, rfl, rfl, rfl, rfl⟩, rfl, rfl, rfl, rfl, fun _ _ => StartsKept.refl _,
    fun _ => Chan.SameEntry.refl _, fun _ => id⟩

lemma trans (h : Carried s s') (h' : Carried s' s'') : Carried s s'' where
  inUse := h'.inUse.trans h.inUse
  drives := ⟨h'.drives.lo.trans h.drives.lo, h'.drives.hi.trans h.drives.hi,
    h'.drives.loInv.trans h.drives.loInv, h'.drives.hiInv.trans h.drives.hiInv,
    h'.drives.mark.trans h.drives.mark⟩
  wildcard := h'.wildcard.trans h.wildcard
  catNo := h'.catNo.trans h.catNo
  defDir := h'.defDir.trans h.defDir
  defDrv := h'.defDrv.trans h.defDrv
  starts d hd := (h.starts d hd).trans (h'.starts d (by rw [(h.starts d hd).entryCount_eq]; exact hd))
  entry y := (h.entry y).trans (h'.entry y)
  changed y hc := h'.changed y (h.changed y hc)

lemma used (h : Carried s s') (p : Byte × Byte) : s'.Used p ↔ s.Used p := by
  rw [State.Used, State.Used, h.inUse]

lemma readOnly (h : Carried s s') (p : Byte × Byte) : s'.ReadOnly p ↔ s.ReadOnly p := by
  rw [State.ReadOnly, State.ReadOnly, (h.entry p.1).name]

lemma fileBase (h : Carried s s') (y : Byte) : s'.fileBase (s'.chan y) = s.fileBase (s.chan y) := by
  rw [State.fileBase, State.fileBase, h.drives.addrOn, (h.entry y).drv, Chan.start, Chan.start, (h.entry y).info]

/-- Nothing but bytes, the scratch of the filing system and one channel has changed. -/
lemma of_bytes (s : State) (y : Byte) {c : Chan} (m d : ℕ → Byte) (f : Fin 8 → Byte) (x o : Byte)
    (hself : (s.chan y).SameEntry c) (hchanged : (s.chan y).Changed → c.Changed) :
    Carried s { s with
      mem := m
      disk := d
      filenameParam := f
      curDrv := x
      chanOff := o
      chan := Function.update s.chan y c } := by
  refine ⟨rfl, ⟨rfl, rfl, rfl, rfl, rfl⟩, rfl, rfl, rfl, rfl, fun _ _ => StartsKept.refl _, fun z => ?_,
    fun z => ?_⟩
  · by_cases hz : z = y
    · subst hz
      simp only [Function.update_self]
      exact hself
    · simp only [Function.update_of_ne hz]
      exact Chan.SameEntry.refl _
  · by_cases hz : z = y
    · subst hz
      simp only [Function.update_self]
      exact hchanged
    · simp only [Function.update_of_ne hz]
      exact id

end Carried

/-- And what a call on one channel leaves alone besides: the other channels, and all bytes but those of its
buffer and of the sectors granted. -/
structure Touches (p : Byte × Byte) (n : ℕ) (s s' : State) : Prop extends Carried s s' where
  other : ∀ z, z ≠ p.1 → s'.chan z = s.chan z
  page : (s'.chan p.1).page = (s.chan p.1).page
  mem : ∀ a, (a < (s.chan p.1).buffer ∨ (s.chan p.1).buffer + 256 ≤ a) → s'.mem a = s.mem a
  disk : ∀ a, (a < s.fileBase (s.chan p.1) ∨ s.fileBase (s.chan p.1) + 256 * sectorsOf n ≤ a) →
    s'.disk a = s.disk a

namespace Touches

variable {p : Byte × Byte} {n : ℕ} {s s' s'' : State}

lemma buffer (h : Touches p n s s') : (s'.chan p.1).buffer = (s.chan p.1).buffer := by
  rw [Chan.buffer, Chan.buffer, h.page]

lemma trans (h : Touches p n s s') (h' : Touches p n s' s'') : Touches p n s s'' where
  toCarried := h.toCarried.trans h'.toCarried
  other z hz := (h'.other z hz).trans (h.other z hz)
  page := h'.page.trans h.page
  mem a ha := (h'.mem a (by rw [h.buffer]; exact ha)).trans (h.mem a ha)
  disk a ha := (h'.disk a (by rw [h.toCarried.fileBase]; exact ha)).trans (h.disk a ha)

/-- Nothing but the scratch of the filing system has changed. -/
lemma scratch (p : Byte × Byte) (n : ℕ) (s : State) (f : Fin 8 → Byte) (x o : Byte) :
    Touches p n s { s with filenameParam := f, curDrv := x, chanOff := o } where
  toCarried := by
    have h := Carried.of_bytes s p.1 s.mem s.disk f x o (Chan.SameEntry.refl _) id
    rwa [Function.update_eq_self] at h
  other _ _ := rfl
  page := rfl
  mem _ _ := rfl
  disk _ _ := rfl

lemma refl (p : Byte × Byte) (n : ℕ) (s : State) : Touches p n s s :=
  scratch p n s s.filenameParam s.curDrv s.chanOff

/-- Bytes of the buffer and of the sectors granted have changed, and the channel. -/
lemma of_bytes {c : Chan} {m d : ℕ → Byte} (hself : (s.chan p.1).SameEntry c)
    (hpage : c.page = (s.chan p.1).page) (hchanged : (s.chan p.1).Changed → c.Changed)
    (hmem : ∀ a, (a < (s.chan p.1).buffer ∨ (s.chan p.1).buffer + 256 ≤ a) → m a = s.mem a)
    (hdisk : ∀ a, (a < s.fileBase (s.chan p.1) ∨ s.fileBase (s.chan p.1) + 256 * sectorsOf n ≤ a) →
      d a = s.disk a) :
    Touches p n s { s with mem := m, disk := d, chan := Function.update s.chan p.1 c } where
  toCarried := Carried.of_bytes s p.1 m d s.filenameParam s.curDrv s.chanOff hself hchanged
  other _ hz := Function.update_of_ne hz ..
  page := by
    simp only [Function.update_self]
    exact hpage
  mem := hmem
  disk := hdisk

end Touches

section Stages

variable {p : Byte × Byte} {n : ℕ} {s : State}

lemma ChanOn.coherent (h : ChanOn s p n) : Coherent s (s.chan p.1) where
  start_ge := h.start_ge
  inside := by
    have := h.inside
    have := h.ext_le
    omega
  ptr_le := h.ptr_le
  hasDisk := h.hasDisk
  valid := h.valid
  clean := h.clean
  dirty hd := by
    obtain ⟨hne, hw⟩ := h.dirty hd
    obtain ⟨k, hk, hsec⟩ := h.own hne
    have := h.inside
    exact ⟨by omega, hw⟩

/-- The file has the room it had. -/
lemma Writable.congr {t : State} (h : Writable s p n) (hcats : SameCats s t) (hdrives : s.SameDrives t)
    (hname : (t.chan p.1).name = (s.chan p.1).name) (hinfo : (t.chan p.1).info = (s.chan p.1).info)
    (hdrv : (t.chan p.1).drv = (s.chan p.1).drv) (halloc : (t.chan p.1).alloc = (s.chan p.1).alloc)
    (hext : (t.chan p.1).ext.val ≤ (s.chan p.1).alloc.val) : Writable t p n where
  room := h.room.congr hcats.wildcard hcats.cats hcats.catNo hname hinfo hdrv halloc hext
  canWrite := by
    rw [hdrv, hdrives.canWrite]
    exact h.canWrite
  unlocked := by
    rw [hname]
    exact h.unlocked
  few := by
    rw [hdrv, hcats.catOf]
    exact h.few

/-- A change of the scratch alone. -/
lemma ChanOn.scratch (h : ChanOn s p n) (f : Fin 8 → Byte) (x o : Byte) :
    ChanOn { s with filenameParam := f, curDrv := x, chanOff := o } p n :=
  ⟨⟨h.start_ge, h.ptr_le, h.ext_le, h.inside, h.hasDisk, h.page⟩, h.valid, h.clean, h.own, h.dirty⟩

lemma UpdateOn.scratch (h : UpdateOn s p n) (f : Fin 8 → Byte) (x o : Byte) :
    UpdateOn { s with filenameParam := f, curDrv := x, chanOff := o } p n :=
  ⟨h.toChanOn.scratch f x o,
    h.toWritable.congr ⟨rfl, rfl, rfl⟩ ⟨rfl, rfl, rfl, rfl, rfl⟩ rfl rfl rfl rfl h.room.ext_le⟩

/-- The place in the file and the flags have changed, and the buffer counts as valid for its own sector
only. -/
lemma ChanOn.setChan (h : ChanOn s p n) {c : Chan} (hsame : (s.chan p.1).SameFile c)
    (hsec : c.sec = (s.chan p.1).sec) (hptr : c.ptr.val ≤ (s.chan p.1).ext.val)
    (hvalid : c.Valid → c.sec = c.start + c.ptr.val / 256) (hdirty : c.Dirty ↔ (s.chan p.1).Dirty)
    (hchanged : c.Changed ↔ (s.chan p.1).Changed) : ChanOn (s.setChan p.1 c) p n ∧
      Touches p n s (s.setChan p.1 c) := by
  have hchan : (s.setChan p.1 c).chan p.1 = c := s.setChan_chan p.1 c
  refine ⟨⟨⟨?_, ?_, ?_, ?_, ?_, ?_⟩, ?_, ?_, ?_, ?_⟩,
    Touches.of_bytes (.of_sameFile hsame) hsame.page hchanged.2 (fun _ _ => rfl) fun _ _ => rfl⟩ <;>
    rw [hchan]
  · rw [hsame.start]
    exact h.start_ge
  · rw [hsame.ext]
    exact hptr
  · rw [hsame.ext]
    exact h.ext_le
  · rw [hsame.start]
    exact h.inside
  · rw [hsame.drv]
    exact h.hasDisk
  · rw [hsame.page]
    exact h.page
  · exact hvalid
  · intro hd
    rw [hsec, hsame.buffer, hsame.drv]
    exact h.clean (mt hdirty.2 hd)
  · rw [hsec, hsame.start]
    exact h.own
  · intro hd
    rw [hsec, hsame.drv]
    exact h.dirty (hdirty.1 hd)

/-- A sector of those granted lies in the part of the disk that belongs to the file. -/
lemma grantedSector (s : State) (c : Chan) {k : ℕ} (hk : 256 * k < n) (hsec : c.sec = c.start + k) :
    s.fileBase c ≤ s.addrOn c.drv c.sec ∧ s.addrOn c.drv c.sec + 256 ≤ s.fileBase c + 256 * sectorsOf n := by
  rw [hsec, State.addrOn_add, State.fileBase, sectorsOf]
  omega

/-! ### The buffer -/

/-- A changed buffer is written back. -/
lemma ChanOn.writtenBack (h : ChanOn s p n) (hoff : s.chanOff = p.1) (hdrv : s.curDrv = (s.chan p.1).drv) :
    ∃ t, (fileToMediaY p.1).run s = .ok () t ∧ ChanOn t p n ∧ Touches p n s t ∧ SameCats s t ∧
      ¬ (t.chan p.1).Dirty ∧ (s.chan p.1).SameFile (t.chan p.1) ∧ t.stream p.1 = s.stream p.1 ∧
      t.curDrv = (t.chan p.1).drv ∧ t.chanOff = p.1 := by
  by_cases hd : (s.chan p.1).Dirty
  · have hcoh := flushed_coherent h.coherent
    have hchan := s.flushed_chan p.1
    have hsame := (s.chan p.1).cleaned_sameFile
    have hclean := (s.chan p.1).cleaned_clean
    obtain ⟨hlt, hw⟩ := h.coherent.dirty hd
    obtain ⟨k, hk, hsec⟩ := h.own (h.dirty hd).1
    obtain ⟨hlow, hhigh⟩ := grantedSector s (s.chan p.1) hk hsec
    refine ⟨s.flushed p.1, fileToMediaY_dirty hlt hw hd hoff hdrv,
      ⟨⟨hcoh.start_ge, hcoh.ptr_le, ?_, ?_, hcoh.hasDisk, ?_⟩, hcoh.valid, hcoh.clean, ?_, fun hd' => ?_⟩,
      Touches.of_bytes (.of_sameFile hsame) hsame.page (s.chan p.1).cleaned_changed.2 (fun _ _ => rfl) fun a ha =>
        copyBytes_of_not s.mem s.disk (p := (s.chan p.1).buffer) (by omega),
      ⟨rfl, rfl, rfl⟩, ?_, ?_, flushed_stream h.coherent, ?_, hoff⟩ <;> rw [hchan] at *
    · exact h.ext_le
    · exact h.inside
    · exact h.page
    · exact h.own
    · exact absurd hd' hclean
    · exact hclean
    · exact hsame
    · rw [hsame.drv]
      exact hdrv
  · exact ⟨s, fileToMediaY_clean hd, h, Touches.refl p n s, ⟨rfl, rfl, rfl⟩, hd, Chan.SameFile.refl _, rfl,
      hdrv, hoff⟩

lemma ChanOn.atSector_sec (h : ChanOn s p n) (hlt : (s.chan p.1).ptr.val < n) :
    (s.chan p.1).atSector.sec = (s.chan p.1).start + (s.chan p.1).ptr.val / 256 ∧
      (s.chan p.1).atSector.sec < 800 := by
  have hin := h.inside
  have hsec := Chan.atSector_sec (c := s.chan p.1) (by omega)
  exact ⟨hsec, by omega⟩

/-- The sector of PTR is read. -/
lemma ChanOn.filled (h : ChanOn s p n) (hd : ¬ (s.chan p.1).Dirty) (hlt : (s.chan p.1).ptr.val < n) :
    ChanOn (s.filled p.1) p n ∧ Touches p n s (s.filled p.1) ∧ (s.chan p.1).SameFile ((s.filled p.1).chan p.1) ∧
      ((s.filled p.1).chan p.1).Valid ∧ ¬ ((s.filled p.1).chan p.1).Dirty ∧
      (s.filled p.1).stream p.1 = s.stream p.1 := by
  have hsame := (s.chan p.1).atSector_sameFile
  have hchan := s.filled_chan p.1
  have hclean := filled_clean hd
  obtain ⟨hsec, -⟩ := h.atSector_sec hlt
  refine ⟨⟨⟨?_, ?_, ?_, ?_, ?_, ?_⟩, fun _ => ?_, fun _ _ i hi => ?_, fun _ => ?_, fun hd' => absurd hd' hclean⟩,
    Touches.of_bytes (.of_sameFile hsame) hsame.page (s.chan p.1).atSector_changed.2
      (fun a ha => copyBytes_of_not _ _ ha) fun _ _ => rfl,
    ?_, ?_, hclean, filled_stream h.coherent hd⟩ <;> rw [hchan]
  · rw [hsame.start]
    exact h.start_ge
  · exact h.ptr_le
  · exact h.ext_le
  · rw [hsame.start]
    exact h.inside
  · rw [hsame.drv]
    exact h.hasDisk
  · exact h.page
  · exact hsec
  · rw [hsame.drv]
    exact copyBytes_apply _ _ _ _ hi
  · exact ⟨(s.chan p.1).ptr.val / 256, by omega, hsec⟩
  · exact hsame
  · exact (s.chan p.1).atSector_valid

/-- The sector of PTR is in the buffer. -/
lemma ChanOn.fetched (h : ChanOn s p n) (hoff : s.chanOff = p.1) (hlt : (s.chan p.1).ptr.val < n) :
    ∃ t, (fillBuffer p.1).run s = .ok () t ∧ ChanOn t p n ∧ Touches p n s t ∧
      t.stream p.1 = s.stream p.1 := by
  set u : State := { s with
    filenameParam := Function.update s.filenameParam 7 ((s.chan p.1).name 7 &&& 0x7f)
    curDrv := (s.chan p.1).drv
    chanOff := s.chanOff } with hu
  have hset : (setFileDrv p.1).run s = .ok () u := rfl
  have hcu : ChanOn u p n := h.scratch _ _ _
  obtain ⟨v, hflush, hv, huv, -, hd, -, hstream, hdrv, hvoff⟩ := hcu.writtenBack hoff rfl
  have hptr : (v.chan p.1).ptr.val = (s.chan p.1).ptr.val := congrArg Stream.ptr hstream
  have hlt' : (v.chan p.1).ptr.val < n := by omega
  obtain ⟨hf, hvf, -, -, -, hstream'⟩ := hv.filled hd hlt'
  rw [fillBuffer, Prog.run_bind_ok hset, Prog.run_bind_ok hflush]
  exact ⟨v.filled p.1, mediaToFile_run (hv.atSector_sec hlt').2 hv.hasDisk hvoff hdrv, hf,
    (Touches.scratch p n s _ _ _).trans (huv.trans hvf), hstream'.trans hstream⟩

/-- A buffer for a sector that nothing of the file is in yet. -/
lemma UpdateOn.claimed (h : UpdateOn s p n) (hd : ¬ (s.chan p.1).Dirty) (hlt : (s.chan p.1).ptr.val < n)
    (hspace : (s.chan p.1).ptr.val < (s.chan p.1).alloc.val)
    (hend : (s.chan p.1).ptr.val = (s.chan p.1).ext.val) (hpage : (s.chan p.1).ext.val % 256 = 0) :
    StoreReady (s.setChan p.1 (s.chan p.1).atSector) p n ∧
      Touches p n s (s.setChan p.1 (s.chan p.1).atSector) ∧
      (s.stream p.1).Agrees ((s.setChan p.1 (s.chan p.1).atSector).stream p.1) := by
  have hsame := (s.chan p.1).atSector_sameFile
  have hchan : (s.setChan p.1 (s.chan p.1).atSector).chan p.1 = (s.chan p.1).atSector := State.setChan_chan _ _ _
  obtain ⟨hsec, -⟩ := h.toChanOn.atSector_sec hlt
  refine ⟨⟨⟨?_, ?_, ?_, ?_, ?_, ?_⟩, ?_, ?_, ?_, ?_, ?_⟩,
    Touches.of_bytes (.of_sameFile hsame) hsame.page (s.chan p.1).atSector_changed.2 (fun _ _ => rfl)
      fun _ _ => rfl,
    ⟨fun i hi => ?_, ?_, ?_, ?_⟩⟩
  · rw [hchan, hsame.start]
    exact h.start_ge
  · rw [hchan]
    exact h.ptr_le
  · rw [hchan]
    exact h.ext_le
  · rw [hchan, hsame.start]
    exact h.inside
  · rw [hchan, hsame.drv]
    exact h.hasDisk
  · rw [hchan]
    exact h.page
  · refine h.toWritable.congr ⟨rfl, rfl, rfl⟩ ⟨rfl, rfl, rfl, rfl, rfl⟩ ?_ ?_ ?_ ?_ ?_ <;> rw [hchan]
    · exact hsame.name
    · exact hsame.info
    · exact hsame.drv
    · exact hsame.alloc
    · exact h.room.ext_le
  · rw [hchan]
    exact (s.chan p.1).atSector_valid
  · rw [hchan]
    exact hsec
  · rw [hchan]
    exact hspace
  · rw [hchan]
    exact hlt
  · have hi' : i < (s.chan p.1).ext.val := hi
    have hother : ¬ ((s.chan p.1).atSector.sec ≠ 0 ∧
        (s.chan p.1).atSector.sec = (s.chan p.1).start + i / 256) := by omega
    simp only [State.stream]
    rw [hchan, State.shown, hsame.start, if_neg hother, h.toChanOn.coherent.shown_clean hd, State.imageByte,
      State.imageByte, hsame.drv, hsame.start]
    rfl
  · simp only [State.stream, hchan, hsame.ext]
  · simp only [State.stream, hchan]
    rfl
  · simp only [State.stream, hchan, decide_eq_decide]
    exact (s.chan p.1).atSector_told

/-- A byte of the file put into the buffer. -/
lemma StoreReady.store (h : StoreReady s p n) (v : Byte) :
    ∃ s', (do
        Prog.modify fun s => { s with
          mem := Function.update s.mem
            (256 * (s.chan p.1).page.toNat + (s.chan p.1).ptr.lo.toNat) v }
        modifyChan p.1 Chan.put : Routine Unit).run s = .ok () s' ∧ UpdateOn s' p n ∧ Touches p n s s' ∧
      s'.stream p.1 = (s.stream p.1).put v := by
  have hin := h.inside
  have hge := h.start_ge
  have hle := h.ptr_le
  have hleft := h.left
  have hspace := h.space
  have hP := Chan.put_put hle (by omega)
  set m := Function.update s.mem (256 * (s.chan p.1).page.toNat + (s.chan p.1).ptr.lo.toNat) v with hm
  set s' : State := ({ s with mem := m } : State).setChan p.1 (s.chan p.1).put with hs'
  have hchan : s'.chan p.1 = (s.chan p.1).put := State.setChan_chan _ _ _
  have hstart : (s.chan p.1).put.start = (s.chan p.1).start := by rw [Chan.start, Chan.start, hP.info]
  have hbuf : (s.chan p.1).put.buffer = (s.chan p.1).buffer := by rw [Chan.buffer, Chan.buffer, hP.page]
  have hext : (s.chan p.1).put.ext.val ≤ (s.chan p.1).alloc.val := by
    rw [hP.ext]
    exact max_le h.room.ext_le hspace
  have hlo : (s.chan p.1).ptr.lo.toNat = (s.chan p.1).ptr.val % 256 := by
    have := byte_lt (s.chan p.1).ptr.lo
    rw [Num24.val]
    omega
  refine ⟨s', rfl, ⟨⟨⟨?_, ?_, ?_, ?_, ?_, ?_⟩, fun hv => ?_, fun hd => ?_, fun _ => ?_, fun _ => ⟨?_, ?_⟩⟩, ?_⟩,
    Touches.of_bytes ⟨hP.name, hP.info, hP.bit, hP.drv⟩ hP.page (fun hc => hP.changed (.inl hc))
      (fun a ha => ?_) fun _ _ => rfl, ?_⟩
  · rw [hchan, hstart]
    exact h.start_ge
  · rw [hchan, hP.ptr, hP.ext]
    exact le_max_right _ _
  · rw [hchan, hP.ext]
    exact max_le h.ext_le hleft
  · rw [hchan, hstart]
    exact h.inside
  · rw [hchan, hP.drv]
    exact h.hasDisk
  · rw [hchan, hP.page]
    exact h.page
  · rw [hchan] at hv ⊢
    rw [hP.sec, hstart, h.sec, hP.ptr, (hP.valid.1 hv).2]
  · rw [hchan] at hd
    exact absurd hP.dirty hd
  · refine ⟨(s.chan p.1).ptr.val / 256, by omega, ?_⟩
    rw [hchan, hP.sec, hstart]
    exact h.sec
  · rw [hchan, hP.sec, h.sec]
    omega
  · rw [hchan, hP.drv]
    exact h.canWrite
  · refine h.toWritable.congr ⟨rfl, rfl, rfl⟩ ⟨rfl, rfl, rfl, rfl, rfl⟩ ?_ ?_ ?_ ?_ ?_ <;> rw [hchan]
    · exact hP.name
    · exact hP.info
    · exact hP.drv
    · exact hP.alloc
    · exact hext
  · have hne : a ≠ 256 * (s.chan p.1).page.toNat + (s.chan p.1).ptr.lo.toNat := by
      rw [Chan.buffer] at ha
      omega
    exact Function.update_of_ne hne ..
  · simp only [State.stream, Stream.put, hchan, hP.ptr, hP.ext, Stream.mk.injEq, decide_eq_decide]
    refine ⟨funext fun i => ?_, trivial, trivial, hP.told⟩
    have himage : s'.imageByte (s.chan p.1).put i = s.imageByte (s.chan p.1) i := by
      rw [State.imageByte, State.imageByte, hP.drv, hstart]
      rfl
    have hsec := h.sec
    rw [Function.update_apply, State.shown, State.shown, hP.sec, hstart, hbuf, himage]
    by_cases hi : i = (s.chan p.1).ptr.val
    · rw [if_pos hi, if_pos ⟨by omega, by rw [hi]; exact hsec⟩]
      show m _ = v
      rw [hm, Chan.buffer, hlo, hi, Function.update_self]
    · rw [if_neg hi]
      by_cases hpage : (s.chan p.1).sec ≠ 0 ∧ (s.chan p.1).sec = (s.chan p.1).start + i / 256
      · rw [if_pos hpage, if_pos hpage]
        show m _ = _
        rw [hm, Chan.buffer, Function.update_of_ne]
        omega
      · rw [if_neg hpage, if_neg hpage]

/-- More space for a file rewrites one catalogue. -/
lemma extendFile_cats {y x : Byte} (hoff : s.chanOff = y) (hdisk : s.HasDisk s.curDrv)
    (hdrv : s.curDrv = (s.chan y).drv) (hdir : s.filenameParam 7 = (s.chan y).name 7 &&& 0x7f)
    (hx : s.entryOf (s.chan y) = some x)
    (hstart : (entryAt (s.catOf (s.chan y).drv) x.toNat).start = (s.chan y).start) :
    Prog.wp (extendFile y) (fun _ t => ∀ k, k ≠ s.catNo s.curDrv → t.cats k = s.cats k)
      (fun _ _ => True) s := by
  obtain ⟨f, hrun⟩ := setupSaveToMedia_run hoff hdisk hdrv hdir hx hstart
  simp only [extendFile, Prog.wp_bind, Prog.wp_of_ok hrun, Prog.wp_get, Prog.wp_modify, Prog.wp_ite,
    Prog.wp_fail, modifyChan]
  refine ⟨fun _ => ?_, fun _ => ?_⟩
  · rw [Prog.wp]
    split <;> trivial
  · refine Prog.wp_mono (saveCat_spec _) ?_ fun _ _ _ => trivial
    rintro _ t ⟨rfl, -⟩ k hk
    exact Function.update_of_ne hk ..

/-- More space for a file. -/
lemma UpdateOn.extended (h : UpdateOn s p n) (hoff : s.chanOff = p.1) (hdrv : s.curDrv = (s.chan p.1).drv)
    (hdir : s.filenameParam 7 = (s.chan p.1).name 7 &&& 0x7f) (hlt : (s.chan p.1).alloc.val < n) :
    ∃ t, (extendFile p.1).run s = .ok () t ∧ UpdateOn t p n ∧ Touches p n s t ∧
      t.stream p.1 = s.stream p.1 ∧ t.curDrv = (t.chan p.1).drv ∧ t.chanOff = p.1 ∧
      n ≤ (t.chan p.1).alloc.val := by
  obtain ⟨x, hx, hstart, -⟩ := h.room.room.resolve_left (by omega)
  have hcats := extendFile_cats hoff (hdrv ▸ h.canWrite.2.1) hdrv hdir hx hstart
  obtain ⟨f, c, g, y, cs, a, hrun, ha, henc⟩ := extendFile_run hoff h.canWrite hdrv hdir h.room hlt
  rw [Prog.wp_of_ok hrun] at hcats
  set t : State := { s with
    filenameParam := f
    cat := c
    curDrvCat := g
    catEntry := y
    chanEntry := y.toNat
    cats := cs
    chan := Function.update s.chan p.1 { s.chan p.1 with alloc := a } } with ht
  have hchan : t.chan p.1 = { s.chan p.1 with alloc := a } := Function.update_self ..
  have hkept : StartsKept (s.catOf (s.chan p.1).drv) (t.catOf (s.chan p.1).drv) := henc.starts h.few
  refine ⟨t, hrun, ⟨⟨⟨?_, ?_, ?_, ?_, ?_, ?_⟩, ?_, ?_, ?_, ?_⟩, ⟨?_, ?_, ?_, ?_⟩⟩,
    ⟨⟨rfl, ⟨rfl, rfl, rfl, rfl, rfl⟩, rfl, rfl, rfl, rfl, fun d hd => ?_, fun z => ?_, fun z => ?_⟩,
      fun z hz => Function.update_of_ne hz .., ?_, fun _ _ => rfl, fun _ _ => rfl⟩, ?_, ?_, hoff, ?_⟩
  · rw [hchan]
    exact h.start_ge
  · rw [hchan]
    exact h.ptr_le
  · rw [hchan]
    exact h.ext_le
  · rw [hchan]
    exact h.inside
  · rw [hchan]
    exact h.hasDisk
  · rw [hchan]
    exact h.page
  · rw [hchan]
    exact h.valid
  · rw [hchan]
    exact h.clean
  · rw [hchan]
    exact h.own
  · rw [hchan]
    exact h.dirty
  · rw [hchan]
    exact ⟨h.room.inside, h.ext_le.trans ha, .inl ha⟩
  · rw [hchan]
    exact h.canWrite
  · rw [hchan]
    exact h.unlocked
  · rw [hchan]
    exact hkept.entryCount_eq.trans_le h.few
  · by_cases hno : s.catNo d = s.catNo s.curDrv
    · have hcat : s.catOf d = s.catOf (s.chan p.1).drv := by rw [State.catOf, State.catOf, hno, hdrv]
      have hcat' : t.catOf d = t.catOf (s.chan p.1).drv := by
        show cs (s.catNo d) = cs (s.catNo _)
        rw [hno, hdrv]
      rw [hcat, hcat']
      exact hkept
    · have hcat : t.catOf d = s.catOf d := hcats _ hno
      rw [hcat]
      exact StartsKept.refl _
  · by_cases hz : z = p.1
    · rw [hz, hchan]
      exact ⟨rfl, rfl, rfl, rfl⟩
    · rw [show t.chan z = s.chan z from Function.update_of_ne hz ..]
      exact Chan.SameEntry.refl _
  · by_cases hz : z = p.1
    · rw [hz, hchan]
      exact id
    · rw [show t.chan z = s.chan z from Function.update_of_ne hz ..]
      exact id
  · rw [hchan]
  · rw [State.stream, State.stream, hchan]
    rfl
  · rw [hchan]
    exact hdrv
  · rw [hchan]
    exact ha

/-- The drive is selected, and a file that fills its space gets more. -/
lemma UpdateOn.prepared (h : UpdateOn s p n) (hoff : s.chanOff = p.1) (hlt : (s.chan p.1).ptr.val < n) :
    ∃ t, (do
        setFileDrv p.1
        Prog.when (comparePtr (s.chan p.1).ptr (s.chan p.1).alloc).1 (extendFile p.1)).run s = .ok () t ∧
      UpdateOn t p n ∧ Touches p n s t ∧ t.stream p.1 = s.stream p.1 ∧ t.curDrv = (t.chan p.1).drv ∧
      t.chanOff = p.1 ∧ (t.chan p.1).ptr.val < (t.chan p.1).alloc.val := by
  set t : State := { s with
    filenameParam := Function.update s.filenameParam 7 ((s.chan p.1).name 7 &&& 0x7f)
    curDrv := (s.chan p.1).drv
    chanOff := s.chanOff } with ht
  have hset : (setFileDrv p.1).run s = .ok () t := rfl
  have hut : UpdateOn t p n := h.scratch _ _ _
  have hst : Touches p n s t := Touches.scratch p n s _ _ _
  rw [Prog.run_bind_ok hset]
  by_cases hfull : (comparePtr (s.chan p.1).ptr (s.chan p.1).alloc).1 = true
  · have heq : (s.chan p.1).ptr = (s.chan p.1).alloc := comparePtr_fst.1 hfull
    obtain ⟨u, hrun, hu, htu, hstream, hdrv, huoff, hn⟩ := hut.extended hoff rfl
      (Function.update_self 7 _ s.filenameParam) (show (s.chan p.1).alloc.val < n by rw [← heq]; exact hlt)
    have hptr : (u.chan p.1).ptr.val = (s.chan p.1).ptr.val := congrArg Stream.ptr hstream
    rw [Prog.when, if_pos hfull]
    exact ⟨u, hrun, hu, hst.trans htu, hstream, hdrv, huoff, by omega⟩
  · have hne : (s.chan p.1).ptr.val ≠ (s.chan p.1).alloc.val := fun he =>
      hfull (comparePtr_fst.2 (Num24.val_injective he))
    have hle := h.ptr_le.trans h.room.ext_le
    rw [Prog.when, if_neg hfull]
    exact ⟨t, rfl, hut, hst, rfl, rfl, hoff, lt_of_le_of_ne hle hne⟩

/-- The sector of PTR is in the buffer, unless it begins at the end of the file. -/
lemma UpdateOn.readied (h : UpdateOn s p n) (hoff : s.chanOff = p.1) (hdrv : s.curDrv = (s.chan p.1).drv)
    (hlt : (s.chan p.1).ptr.val < n) (hspace : (s.chan p.1).ptr.val < (s.chan p.1).alloc.val) :
    ∃ t, (readyBuffer p.1).run s = .ok () t ∧ StoreReady t p n ∧ Touches p n s t ∧
      (s.stream p.1).Agrees (t.stream p.1) := by
  rw [readyBuffer, Prog.run_bind_ok (Prog.run_get s)]
  by_cases hv : (s.chan p.1).Valid
  · rw [Prog.when, if_neg hv]
    exact ⟨s, rfl, ⟨h.toGranted, h.toWritable, hv, h.valid hv, hspace, hlt⟩, Touches.refl p n s, .refl _⟩
  · have hbusy : (s.chan p.1).flags &&& 0x80 = 0 := not_not.1 hv
    obtain ⟨u, hflush, hcu, hsu, hcats, hd, hsame, hstream, hudrv, huoff⟩ :=
      h.toChanOn.writtenBack hoff hdrv
    have hptr : (u.chan p.1).ptr.val = (s.chan p.1).ptr.val := congrArg Stream.ptr hstream
    have hu : UpdateOn u p n := ⟨hcu, h.toWritable.congr hcats hsu.drives hsame.name hsame.info hsame.drv
      hsame.alloc (by rw [hsame.ext]; exact h.room.ext_le)⟩
    have hlt' : (u.chan p.1).ptr.val < n := by omega
    have hspace' : (u.chan p.1).ptr.val < (u.chan p.1).alloc.val := by
      rw [hptr, hsame.alloc]
      exact hspace
    rw [Prog.when, if_pos hbusy, Prog.run_bind_ok hflush]
    simp only
    split_ifs with hlast
    · obtain ⟨hlo, heq⟩ := hlast
      have hend : (s.chan p.1).ptr.val = (s.chan p.1).ext.val := congrArg Num24.val (comparePtr_fst.1 heq)
      have h0 : (s.chan p.1).ext.lo.toNat = 0 := congrArg BitVec.toNat hlo
      have hpage : (s.chan p.1).ext.val % 256 = 0 := by
        rw [Num24.val]
        omega
      obtain ⟨hready, htouch, hagrees⟩ := hu.claimed hd hlt' hspace' (by rw [hptr, hsame.ext]; exact hend)
        (by rw [hsame.ext]; exact hpage)
      exact ⟨_, rfl, hready, hsu.trans htouch, hstream ▸ hagrees⟩
    · obtain ⟨hf, hsf, hfsame, hfv, -, hfstream⟩ := hu.toChanOn.filled hd hlt'
      have hfptr : ((u.filled p.1).chan p.1).ptr.val = (u.chan p.1).ptr.val := congrArg Stream.ptr hfstream
      refine ⟨u.filled p.1, mediaToFile_run (hu.toChanOn.atSector_sec hlt').2 hu.hasDisk huoff hudrv,
        ⟨hf.toGranted, hu.toWritable.congr ⟨rfl, rfl, rfl⟩ hsf.drives hfsame.name hfsame.info hfsame.drv
          hfsame.alloc (by rw [hfsame.ext]; exact hu.room.ext_le), hfv, hf.valid hfv, ?_, ?_⟩,
        hsu.trans hsf, ?_⟩
      · rw [hfptr, hfsame.alloc]
        exact hspace'
      · rw [hfptr]
        exact hlt'
      · rw [hfstream, hstream]
        exact .refl _

end Stages

/-! ## The calls -/

section Calls

variable {p : Byte × Byte} {n : ℕ} {s : State}

/-- OSBPUT writes the byte at PTR. -/
lemma UpdateOn.put (h : UpdateOn s p n) (hp : p ∈ slots) (hu : s.Used p) (hlt : (s.chan p.1).ptr.val < n)
    (v : Byte) : ∃ s', (bputv (handleOf p) v).run s = .ok () s' ∧ UpdateOn s' p n ∧ Touches p n s s' ∧
      ((s.stream p.1).put v).Agrees (s'.stream p.1) := by
  have hopen := openHandle_run hp hu
  set t : State := { s with filenameParam := s.filenameParam, curDrv := s.curDrv, chanOff := p.1 } with ht
  have hut : UpdateOn t p n := h.scratch _ _ _
  have hst : Touches p n s t := Touches.scratch p n s _ _ _
  obtain ⟨u, hprep, hu, htu, hstream, hdrv, huoff, hspace⟩ := hut.prepared rfl hlt
  have hptr : (u.chan p.1).ptr.val = (s.chan p.1).ptr.val := congrArg Stream.ptr hstream
  obtain ⟨w, hready, hw, huw, hagrees⟩ := hu.readied huoff hdrv (by omega) hspace
  obtain ⟨s', hstore, hs', hws', hput⟩ := hw.store v
  refine ⟨s', ?_, hs', hst.trans (htu.trans (huw.trans hws')), ?_⟩
  · rw [bputv, Prog.run_bind_ok hopen, bputAt, Prog.run_bind_ok (Prog.run_get t),
      if_neg (by have := h.unlocked.1; exact Nat.not_le.2 this),
      if_neg (by have := h.unlocked.2; exact Nat.not_le.2 this), Prog.run_bind_assoc, Prog.run_bind_ok hprep,
      Prog.run_bind_ok hready]
    exact hstore
  · rw [hput]
    rw [hstream] at hagrees
    exact hagrees.put h.ptr_le v

/-- OSBPUT on a channel open for input is refused. -/
lemma ReadOn.put (h : ReadOn s p n) (hp : p ∈ slots) (hu : s.Used p) (v : Byte) :
    ∃ s', (bputv (handleOf p) v).run s = .err .fileReadOnly s' ∧ ReadOn s' p n ∧ Touches p n s s' ∧
      s'.disk = s.disk ∧ s'.stream p.1 = s.stream p.1 := by
  have hopen := openHandle_run hp hu
  set t : State := { s with filenameParam := s.filenameParam, curDrv := s.curDrv, chanOff := p.1 } with ht
  have hro : 128 ≤ ((t.chan p.1).name 6).toNat := by
    have hbit : ∀ f : Byte, f &&& 0x80 ≠ 0 → 128 ≤ f.toNat := by decide
    exact hbit _ h.readOnly
  refine ⟨t, ?_, ⟨h.toChanOn.scratch _ _ _, h.readOnly, h.unwritten⟩, Touches.scratch p n s _ _ _, rfl, rfl⟩
  rw [bputv, Prog.run_bind_ok hopen, bputAt, Prog.run_bind_ok (Prog.run_get t), if_pos hro]
  rfl

/-- OSBGET, on any channel: what is touched. -/
lemma ChanOn.get_touches (h : ChanOn s p n) (hp : p ∈ slots) (hu : s.Used p) :
    Prog.wp (bgetv (handleOf p)) (fun _ t => ChanOn t p n ∧ Touches p n s t)
      (fun _ t => ChanOn t p n ∧ Touches p n s t) s := by
  have hopen := openHandle_run hp hu
  set t : State := { s with filenameParam := s.filenameParam, curDrv := s.curDrv, chanOff := p.1 } with ht
  have hct : ChanOn t p n := h.scratch _ _ _
  have hst : Touches p n s t := Touches.scratch p n s _ _ _
  rw [bgetv, Prog.wp_bind, Prog.wp_of_ok hopen, Prog.wp_bind, Prog.wp_get, Prog.wp_ite]
  refine ⟨fun _ => ?_, fun hne => ?_⟩
  · rw [Prog.wp_ite]
    refine ⟨fun _ => ⟨hct, hst⟩, fun _ => ?_⟩
    obtain ⟨hv, hd, -, hdrv⟩ := toldFlags (t.chan p.1).flags
    obtain ⟨hc, htc⟩ := hct.setChan (c := { t.chan p.1 with flags := 0x10 ||| (t.chan p.1).flags })
      ⟨rfl, rfl, rfl, rfl, rfl, rfl, hdrv⟩ rfl hct.ptr_le
      (fun hval => hct.valid (by rwa [Chan.Valid, hv] at hval)) (by rw [Chan.Dirty, hd, Chan.Dirty])
      (by rw [Chan.Changed, (Chan.changedKept _).2.2.1, Chan.Changed])
    exact ⟨hc, hst.trans htc⟩
  · have hlt : (t.chan p.1).ptr.val < (t.chan p.1).ext.val :=
      lt_of_le_of_ne hct.ptr_le fun he => hne (comparePtr_fst.2 (Num24.val_injective he))
    have hnext : ∀ u, ChanOn u p n → Touches p n s u → u.stream p.1 = t.stream p.1 →
        ChanOn (u.setChan p.1 (u.chan p.1).advance) p n ∧
          Touches p n s (u.setChan p.1 (u.chan p.1).advance) := by
      intro u hcu hsu hstream
      have hptr : (u.chan p.1).ptr.val = (t.chan p.1).ptr.val := congrArg Stream.ptr hstream
      have hext : (u.chan p.1).ext.val = (t.chan p.1).ext.val := congrArg Stream.length hstream
      have hbound := (u.chan p.1).ext.val_lt
      have hA := (u.chan p.1).advance_spec (by omega)
      obtain ⟨hc, huc⟩ := hcu.setChan hA.toSameFile hA.sec (by rw [hA.ptr]; omega) (fun hval => by
        obtain ⟨hval, hpage⟩ := hA.valid.1 hval
        rw [hA.sec, hA.toSameFile.start, hA.ptr, hpage]
        exact hcu.valid hval) hA.dirty (u.chan p.1).advance_changed
      exact ⟨hc, hsu.trans huc⟩
    rw [Prog.wp_bind, Prog.wp_when]
    refine ⟨fun _ => ?_, fun _ => hnext t hct hst rfl⟩
    obtain ⟨u, hrun, hcu, htu, hstream⟩ := hct.fetched rfl (lt_of_lt_of_le hlt hct.ext_le)
    have hfill : (do
        setFileDrv p.1
        fileToMediaY p.1
        mediaToFile).run t = .ok () u := hrun
    rw [Prog.wp_of_ok hfill]
    exact hnext u hcu (hst.trans htu) hstream

/-- What OSBGET and a new PTR leave of a channel. -/
lemma UpdateOn.of_keeps {t : State} (h : UpdateOn s p n) (hk : Keeps p.1 s t) (hc : ChanOn t p n) :
    UpdateOn t p n := by
  refine ⟨hc, h.toWritable.congr ?_ hk.sameDrives hk.same.name hk.same.info hk.same.drv hk.same.alloc ?_⟩
  · obtain ⟨m, d, c, f, x, o, rfl⟩ := hk.frame
    exact ⟨rfl, rfl, rfl⟩
  · rw [hk.same.ext]
    exact h.room.ext_le

lemma ReadOn.of_keeps {t : State} (h : ReadOn s p n) (hk : Keeps p.1 s t) (hc : ChanOn t p n) :
    ReadOn t p n := by
  refine ⟨hc, ?_, mt hk.dirty h.unwritten⟩
  rw [State.ReadOnly, hk.same.name]
  exact h.readOnly

/-- OSBGET reads the byte at PTR. -/
lemma ChanOn.get (h : ChanOn s p n) (hp : p ∈ slots) (hu : s.Used p) :
    ∃ s', (bgetv (handleOf p)).run s = (match (s.stream p.1).get.1 with
        | .ok a => .ok a s'
        | .error e => .err e s') ∧
      Keeps p.1 s s' ∧ ChanOn s' p n ∧ Touches p n s s' ∧ s'.stream p.1 = (s.stream p.1).get.2 := by
  obtain ⟨s', hrun, hk, -, hstream⟩ := bgetv_reads hp hu h.coherent
  have htouch := h.get_touches hp hu
  cases hget : (s.stream p.1).get.1 with
  | ok a =>
      rw [hget] at hrun
      rw [Prog.wp_of_ok hrun] at htouch
      exact ⟨s', hrun, hk, htouch.1, htouch.2, hstream⟩
  | error e =>
      rw [hget] at hrun
      rw [Prog.wp_of_err hrun] at htouch
      exact ⟨s', hrun, hk, htouch.1, htouch.2, hstream⟩

/-- OSARGS with a place within the file goes on from there. -/
lemma ChanOn.seek (h : ChanOn s p n) (hp : p ∈ slots) (hu : s.Used p) {m : Num24}
    (hm : m.val ≤ (s.chan p.1).ext.val) :
    ∃ s', (argsWritePtr (handleOf p) m).run s = .ok () s' ∧ Keeps p.1 s s' ∧ ChanOn s' p n ∧
      Touches p n s s' ∧ s'.stream p.1 = (s.stream p.1).seek m.val := by
  obtain ⟨s', hrun, hk, -, hstream⟩ := argsWritePtr_reads hp hu h.coherent.backed hm
  have hopen := openHandle_run hp hu
  set t : State := { s with filenameParam := s.filenameParam, curDrv := s.curDrv, chanOff := p.1 } with ht
  have hct : ChanOn t p n := h.scratch _ _ _
  have hin := hct.inside
  have hle := hct.ext_le
  have hm' : m.val ≤ (t.chan p.1).ext.val := hm
  have hcover : extCovers ((t.setChan p.1 { t.chan p.1 with ptr := (t.chan p.1).ext }).chan p.1).ext m = true := by
    rw [State.setChan_chan]
    exact extCovers_iff.2 hm
  have hfinal : (argsWritePtr (handleOf p) m).run s = .ok () (t.setChan p.1 ((t.chan p.1).movePtr m)) := by
    have hzeros : (putZeros p.1 m (m.val + 1)).run (t.setChan p.1 { t.chan p.1 with ptr := (t.chan p.1).ext })
        = .ok () (t.setChan p.1 { t.chan p.1 with ptr := (t.chan p.1).ext }) := by
      rw [putZeros, Prog.run_bind_ok (Prog.run_get _), if_pos hcover]
      rfl
    rw [argsWritePtr, Prog.run_bind_ok hopen, mmcSetPtrToExt, modifyChan,
      Prog.run_bind_ok (Prog.run_modify _ t), Prog.run_bind_ok hzeros, modifyChan, Prog.run_modify,
      State.setChan_chan, State.setChan, State.setChan, State.setChan]
    simp only [Function.update_idem]
    rfl
  obtain rfl : s' = t.setChan p.1 ((t.chan p.1).movePtr m) := by
    rw [hrun] at hfinal
    exact (Outcome.ok.inj hfinal).2
  obtain ⟨hc, htc⟩ := hct.setChan ((t.chan p.1).movePtr_sameFile m) rfl hm'
    (fun hval => by
      have hsec := (Chan.movePtr_valid (c := t.chan p.1) (p := m) (by omega)).1 hval
      rw [((t.chan p.1).movePtr_sameFile m).start]
      exact hsec) ((t.chan p.1).movePtr_dirty m) ((t.chan p.1).movePtr_changed m)
  exact ⟨_, hrun, hk, hc, (Touches.scratch p n s _ _ _).trans htc, hstream⟩

end Calls

end Udfs.Rom
