import Udfs.Rom.Opening

/-!
# Reading through a channel

What a channel shows is the file on the disk, with the sector that its buffer is for taken from
the buffer.  The buffer of a channel that has not been written to holds that sector as it is on
the disk, and while bit 7 of the flags is set it is the sector of PTR.  Both survive OSBGET, which
gives the buffer up at the end of a page, and OSARGS, which looks again whether PTR lies in it.
-/

namespace Udfs.Rom

/-! ## The parts of a channel block -/

namespace Chan

/-- The drive of the file. -/
def drv (c : Chan) : Byte := c.flags &&& 3

/-- The first sector of the file. -/
def start (c : Chan) : ℕ := 256 * ((c.info 6).toNat % 4) + (c.info 7).toNat

/-- The sector the buffer was last used for. -/
def sec (c : Chan) : ℕ := 256 * c.secHi.toNat + c.secLo.toNat

/-- The address of the buffer. -/
def buffer (c : Chan) : ℕ := 256 * c.page.toNat

/-- The buffer is for the sector of PTR. -/
def Valid (c : Chan) : Prop := c.flags &&& 0x80 ≠ 0

/-- The buffer has been written to. -/
def Dirty (c : Chan) : Prop := c.flags &&& 0x40 ≠ 0

/-- The end of the file has been met. -/
def Told (c : Chan) : Prop := c.flags &&& 0x10 ≠ 0

instance (c : Chan) : Decidable c.Told := inferInstanceAs (Decidable (_ ≠ _))

end Chan

section Numbers

variable {p e : Num24}

lemma comparePtr_fst : (comparePtr p e).1 = true ↔ p = e := by
  obtain ⟨p0, p1, p2⟩ := p
  obtain ⟨e0, e1, e2⟩ := e
  simp only [comparePtr, Num24.mk.injEq]
  split_ifs with h2 h1
  · simp [h2]
  · simp [h1]
  · simp only [ne_eq, not_not] at h2 h1
    simp [h2, h1]

lemma extCovers_iff : extCovers e p = true ↔ p.val ≤ e.val := by
  have h1 := sbc_eq e.mid p.mid (cmpCarry e.lo p.lo)
  have h2 := sbc_eq e.hi p.hi (sbc e.mid p.mid (cmpCarry e.lo p.lo)).2
  have b1 := byte_lt (sbc e.mid p.mid (cmpCarry e.lo p.lo)).1
  have b2 := byte_lt (sbc e.hi p.hi (sbc e.mid p.mid (cmpCarry e.lo p.lo)).2).1
  have hl := byte_lt e.lo
  have hp := byte_lt p.lo
  have hc : (cmpCarry e.lo p.lo).toNat = if p.lo.toNat ≤ e.lo.toNat then 1 else 0 := by
    rw [cmpCarry, toNat_decide]
  have hk := toNat_bool_le (sbc e.mid p.mid (cmpCarry e.lo p.lo)).2
  simp only [extCovers, Num24.val]
  generalize sbc e.hi p.hi (sbc e.mid p.mid (cmpCarry e.lo p.lo)).2 = r at h2 b2 ⊢
  rcases r with ⟨x, c⟩
  cases c with
  | true =>
      simp only [Bool.toNat_true] at h2
      split at hc <;> simp only [true_iff] <;> omega
  | false =>
      simp only [Bool.toNat_false] at h2
      split at hc <;> simp only [Bool.false_eq_true, false_iff] <;> omega

end Numbers

namespace Chan

variable {c : Chan}

/-- The two chains that add PTR to the start sector. -/
lemma sectorChain_val (c : Chan) (p : Num24) (h : c.start + p.val / 256 < 65536) :
    256 * (adc (c.info 6 &&& 3) p.hi (adc (c.info 7) p.mid false).2).1.toNat
      + (adc (c.info 7) p.mid false).1.toNat = c.start + p.val / 256 := by
  have e1 := adc_eq (c.info 7) p.mid false
  have e2 := adc_eq (c.info 6 &&& 3) p.hi (adc (c.info 7) p.mid false).2
  have b2 := byte_lt (adc (c.info 6 &&& 3) p.hi (adc (c.info 7) p.mid false).2).1
  have hc := toNat_bool_le (adc (c.info 6 &&& 3) p.hi (adc (c.info 7) p.mid false).2).2
  have b1 := byte_lt (adc (c.info 7) p.mid false).1
  have hlo := byte_lt p.lo
  rw [toNat_and_three] at e2
  simp only [Bool.toNat_false] at e1
  rw [start, Num24.val] at h ⊢
  omega

lemma atSector_sec (h : c.start + c.ptr.val / 256 < 65536) :
    c.atSector.sec = c.start + c.ptr.val / 256 :=
  sectorChain_val c c.ptr h

/-- `$92c3` finds the buffer valid again if PTR lies in its sector. -/
lemma movePtr_valid {p : Num24} (h : c.start + p.val / 256 < 65536) :
    (c.movePtr p).Valid ↔ c.sec = c.start + p.val / 256 := by
  have hsum := sectorChain_val c p h
  have hkeep : ∀ f : Byte, (0x80 ||| (0x6f &&& f)) &&& 0x80 ≠ 0 := by decide
  have hclear : ∀ f : Byte, (0x6f &&& f) &&& 0x80 = 0 := by decide
  simp only [movePtr, Valid]
  rw [sec, ← hsum]
  split_ifs with heq
  · obtain ⟨hhi, hlo⟩ := heq
    refine iff_of_true (hkeep _) ?_
    rw [hhi, hlo]
  · refine iff_of_false (fun hne => hne (hclear _)) fun he => heq ?_
    have b1 := byte_lt (adc (c.info 7) p.mid false).1
    have b2 := byte_lt c.secLo
    exact ⟨BitVec.eq_of_toNat_eq (by omega), BitVec.eq_of_toNat_eq (by omega)⟩

/-- The two blocks are for the same file, with the same length and the same buffer. -/
structure SameFile (c c' : Chan) : Prop where
  name : c'.name = c.name
  info : c'.info = c.info
  page : c'.page = c.page
  ext : c'.ext = c.ext
  alloc : c'.alloc = c.alloc
  bit : c'.bit = c.bit
  drv : c'.drv = c.drv

lemma SameFile.refl (c : Chan) : c.SameFile c := ⟨rfl, rfl, rfl, rfl, rfl, rfl, rfl⟩

lemma SameFile.trans {c d e : Chan} (h : c.SameFile d) (h' : d.SameFile e) : c.SameFile e where
  name := h'.name.trans h.name
  info := h'.info.trans h.info
  page := h'.page.trans h.page
  ext := h'.ext.trans h.ext
  alloc := h'.alloc.trans h.alloc
  bit := h'.bit.trans h.bit
  drv := h'.drv.trans h.drv

lemma SameFile.start {c d : Chan} (h : c.SameFile d) : d.start = c.start := by
  rw [Chan.start, Chan.start, h.info]

lemma SameFile.buffer {c d : Chan} (h : c.SameFile d) : d.buffer = c.buffer := by
  rw [Chan.buffer, Chan.buffer, h.page]

/-! ### The flags -/

section Flags

variable (c : Chan)

lemma atSector_sameFile : c.SameFile c.atSector := by
  have hdrv : ∀ f : Byte, (0x80 ||| f) &&& 3 = f &&& 3 := by decide
  exact ⟨rfl, rfl, rfl, rfl, rfl, rfl, hdrv _⟩

lemma atSector_valid : c.atSector.Valid := by
  have h : ∀ f : Byte, (0x80 ||| f) &&& 0x80 ≠ 0 := by decide
  exact h _

lemma atSector_dirty : c.atSector.Dirty ↔ c.Dirty := by
  have h : ∀ f : Byte, (0x80 ||| f) &&& 0x40 = f &&& 0x40 := by decide
  have hf : c.atSector.flags = 0x80 ||| c.flags := rfl
  rw [Dirty, Dirty, hf, h]

lemma atSector_told : c.atSector.Told ↔ c.Told := by
  have h : ∀ f : Byte, (0x80 ||| f) &&& 0x10 = f &&& 0x10 := by decide
  have hf : c.atSector.flags = 0x80 ||| c.flags := rfl
  rw [Told, Told, hf, h]

lemma movePtr_flags (p : Num24) :
    (c.movePtr p).flags = 0x80 ||| (0x6f &&& c.flags) ∨ (c.movePtr p).flags = 0x6f &&& c.flags := by
  simp only [movePtr]
  split_ifs
  · exact Or.inl rfl
  · exact Or.inr rfl

lemma movePtr_sameFile (p : Num24) : c.SameFile (c.movePtr p) := by
  have h1 : ∀ f : Byte, (0x80 ||| (0x6f &&& f)) &&& 3 = f &&& 3 := by decide
  have h2 : ∀ f : Byte, (0x6f &&& f) &&& 3 = f &&& 3 := by decide
  refine ⟨rfl, rfl, rfl, rfl, rfl, rfl, ?_⟩
  rcases c.movePtr_flags p with h | h <;> rw [drv, drv, h]
  · exact h1 _
  · exact h2 _

lemma movePtr_told (p : Num24) : ¬ (c.movePtr p).Told := by
  have h1 : ∀ f : Byte, (0x80 ||| (0x6f &&& f)) &&& 0x10 = 0 := by decide
  have h2 : ∀ f : Byte, (0x6f &&& f) &&& 0x10 = 0 := by decide
  rcases c.movePtr_flags p with h | h <;> rw [Told, h, not_not]
  · exact h1 _
  · exact h2 _

lemma movePtr_dirty (p : Num24) : (c.movePtr p).Dirty ↔ c.Dirty := by
  have h1 : ∀ f : Byte, (0x80 ||| (0x6f &&& f)) &&& 0x40 = f &&& 0x40 := by decide
  have h2 : ∀ f : Byte, (0x6f &&& f) &&& 0x40 = f &&& 0x40 := by decide
  rcases c.movePtr_flags p with h | h <;> rw [Dirty, Dirty, h]
  · rw [h1]
  · rw [h2]

/-- What moving PTR on by one does. -/
structure Advanced (c c' : Chan) : Prop extends c.SameFile c' where
  ptr : c'.ptr.val = c.ptr.val + 1
  sec : c'.sec = c.sec
  valid : c'.Valid ↔ c.Valid ∧ (c.ptr.val + 1) / 256 = c.ptr.val / 256
  dirty : c'.Dirty ↔ c.Dirty
  told : c'.Told ↔ c.Told

lemma advance_spec (h : c.ptr.val + 1 < 16777216) : Advanced c c.advance := by
  have hlo := byte_lt c.ptr.lo
  rw [advance]
  split_ifs with hne
  · have hlo1 := toNat_add_one (a := c.ptr.lo) hne
    have hpage : (c.ptr.val + 1) / 256 = c.ptr.val / 256 := by
      have hlt := byte_lt (c.ptr.lo + 1)
      simp only [Num24.val]
      omega
    refine ⟨⟨rfl, rfl, rfl, rfl, rfl, rfl, rfl⟩, ?_, rfl, (and_iff_left hpage).symm, Iff.rfl, Iff.rfl⟩
    simp only [Num24.val, hlo1]
    omega
  · have hlast : c.ptr.lo.toNat = 255 := by
      rw [not_not] at hne
      have hnat := congrArg BitVec.toNat hne
      have h1 : (1 : Byte).toNat = 1 := rfl
      have h0 : (0 : Byte).toNat = 0 := rfl
      rw [BitVec.toNat_add, h1, h0] at hnat
      omega
    have h1 : (1 : Byte).toNat = 1 := rfl
    have h0 : (0 : Byte).toNat = 0 := rfl
    have e1 := adc_eq c.ptr.mid 1 false
    have e2 := adc_eq c.ptr.hi 0 (adc c.ptr.mid 1 false).2
    have b2 := byte_lt (adc c.ptr.hi 0 (adc c.ptr.mid 1 false).2).1
    have hk := toNat_bool_le (adc c.ptr.hi 0 (adc c.ptr.mid 1 false).2).2
    have hclear : ∀ f : Byte, (0x7f &&& f) &&& 0x80 = 0 := by decide
    have hdirty : ∀ f : Byte, (0x7f &&& f) &&& 0x40 = f &&& 0x40 := by decide
    have htold : ∀ f : Byte, (0x7f &&& f) &&& 0x10 = f &&& 0x10 := by decide
    have hdrv : ∀ f : Byte, (0x7f &&& f) &&& 3 = f &&& 3 := by decide
    rw [h1] at e1
    rw [h0] at e2
    simp only [Bool.toNat_false] at e1
    have hpage : (c.ptr.val + 1) / 256 ≠ c.ptr.val / 256 := by
      simp only [Num24.val]
      omega
    refine ⟨⟨rfl, rfl, rfl, rfl, rfl, rfl, hdrv _⟩, ?_, rfl,
      iff_of_false (fun hv => hv (hclear _)) fun hv => hpage hv.2, ?_, ?_⟩
    · simp only [Num24.val] at h ⊢
      omega
    · simp only [Dirty, hdirty]
    · simp only [Told, htold]

end Flags

end Chan

/-! ## What a channel shows -/

namespace State

/-- The first byte of a sector of the disk in a drive. -/
def addrOn (s : State) (d : Byte) (k : ℕ) : ℕ := ({ s with curDrv := d } : State).sectorAddr k

lemma addrOn_add (s : State) (d : Byte) (m n : ℕ) : s.addrOn d (m + n) = s.addrOn d m + 256 * n := by
  simp only [addrOn, sectorAddr]
  ring

/-- The drive tables are the same. -/
structure SameDrives (s s' : State) : Prop where
  lo : s'.diskLo = s.diskLo
  hi : s'.diskHi = s.diskHi
  loInv : s'.diskLoInv = s.diskLoInv
  hiInv : s'.diskHiInv = s.diskHiInv
  mark : s'.diskMark = s.diskMark

lemma SameDrives.hasDisk {s s' : State} (h : s.SameDrives s') (x : Byte) :
    s'.HasDisk x ↔ s.HasDisk x := by
  rw [HasDisk, HasDisk, h.hi]

lemma SameDrives.canWrite {s s' : State} (h : s.SameDrives s') (x : Byte) :
    s'.CanWrite x ↔ s.CanWrite x := by
  rw [CanWrite, CanWrite, h.hasDisk, h.lo, h.hi, h.loInv, h.hiInv, h.mark]

lemma SameDrives.addrOn {s s' : State} (h : s.SameDrives s') (d : Byte) (k : ℕ) :
    s'.addrOn d k = s.addrOn d k := by
  simp only [State.addrOn, sectorAddr, diskNumber, h.lo, h.hi]

/-- A byte of the sectors of the file on the disk. -/
def imageByte (s : State) (c : Chan) (i : ℕ) : Byte := s.disk (s.addrOn c.drv c.start + i)

/-- A byte of the file as the channel shows it. -/
def shown (s : State) (c : Chan) (i : ℕ) : Byte :=
  if c.sec ≠ 0 ∧ c.sec = c.start + i / 256 then s.mem (c.buffer + i % 256) else s.imageByte c i

end State

/-- The file lies on the disk in its drive, and the buffer of the channel goes with the sector it was
last used for. -/
structure Backed (s : State) (c : Chan) : Prop where
  start_ge : 2 ≤ c.start
  inside : 256 * c.start + c.ext.val ≤ 256 * 800
  hasDisk : s.HasDisk c.drv
  clean : ¬ c.Dirty → c.sec ≠ 0 → ∀ i < 256, s.mem (c.buffer + i) = s.disk (s.addrOn c.drv c.sec + i)
  dirty : c.Dirty → c.sec < 800 ∧ s.CanWrite c.drv

/-- The buffer of a channel and its sector go together. -/
structure Coherent (s : State) (c : Chan) : Prop where
  start_ge : 2 ≤ c.start
  inside : 256 * c.start + c.ext.val ≤ 256 * 800
  ptr_le : c.ptr.val ≤ c.ext.val
  hasDisk : s.HasDisk c.drv
  valid : c.Valid → c.sec = c.start + c.ptr.val / 256
  clean : ¬ c.Dirty → c.sec ≠ 0 → ∀ i < 256, s.mem (c.buffer + i) = s.disk (s.addrOn c.drv c.sec + i)
  dirty : c.Dirty → c.sec < 800 ∧ s.CanWrite c.drv

lemma Coherent.backed {s : State} {c : Chan} (h : Coherent s c) : Backed s c :=
  ⟨h.start_ge, h.inside, h.hasDisk, h.clean, h.dirty⟩

/-- A buffer that holds its sector as it is on the disk shows that. -/
lemma shown_of_clean {s : State} {c : Chan}
    (h : c.sec ≠ 0 → ∀ i < 256, s.mem (c.buffer + i) = s.disk (s.addrOn c.drv c.sec + i)) (i : ℕ) :
    s.shown c i = s.imageByte c i := by
  rw [State.shown]
  split_ifs with hsec
  · obtain ⟨hne, he⟩ := hsec
    rw [h hne _ (Nat.mod_lt _ (by decide)), State.imageByte, he, State.addrOn_add]
    congr 1
    omega
  · rfl

/-- What a channel shows that has not been written to is the file on the disk. -/
lemma Coherent.shown_clean {s : State} {c : Chan} (h : Coherent s c) (hd : ¬ c.Dirty) (i : ℕ) :
    s.shown c i = s.imageByte c i :=
  shown_of_clean (h.clean hd) i

/-- A file that is read from one end to the other: its bytes, its length, how far it has been read,
and whether the end has been told. -/
structure Stream where
  data : ℕ → Byte
  length : ℕ
  ptr : ℕ
  told : Bool

namespace Stream

/-- The next byte, the first time at the end `$fe` with the carry set, and after that an error. -/
def get (f : Stream) : Except Err (Byte × Bool) × Stream :=
  if f.ptr < f.length then (.ok (f.data f.ptr, false), { f with ptr := f.ptr + 1 })
  else if f.told then (.error .eof, f)
  else (.ok (0xfe, true), { f with told := true })

/-- Go on from another place. -/
def seek (f : Stream) (n : ℕ) : Stream := { f with ptr := n, told := false }

end Stream

namespace State

/-- The file that a channel shows. -/
def stream (s : State) (y : Byte) : Stream where
  data := s.shown (s.chan y)
  length := (s.chan y).ext.val
  ptr := (s.chan y).ptr.val
  told := decide (s.chan y).Told

end State

/-- What reading through the channel at `y` leaves alone: everything but the channel, its buffer and
some scratch; and the disk, if the buffer is unchanged. -/
structure Keeps (y : Byte) (s s' : State) : Prop where
  frame : ∃ m d c f x o, s' = { s with
    mem := m
    disk := d
    chan := Function.update s.chan y c
    filenameParam := f
    curDrv := x
    chanOff := o }
  mem : ∀ a, (a < (s.chan y).buffer ∨ (s.chan y).buffer + 256 ≤ a) → s'.mem a = s.mem a
  disk : ¬ (s.chan y).Dirty → s'.disk = s.disk
  same : (s.chan y).SameFile (s'.chan y)
  dirty : (s'.chan y).Dirty → (s.chan y).Dirty

section Keeping

variable {y : Byte} {s s' s'' : State}

lemma Keeps.trans (h : Keeps y s s') (h' : Keeps y s' s'') : Keeps y s s'' where
  frame := by
    obtain ⟨m, d, c, f, x, o, rfl⟩ := h.frame
    obtain ⟨m', d', c', f', x', o', rfl⟩ := h'.frame
    exact ⟨m', d', c', f', x', o', by simp only [Function.update_idem]⟩
  mem a ha := (h'.mem a (h.same.buffer ▸ ha)).trans (h.mem a ha)
  disk hd := (h'.disk (mt h.dirty hd)).trans (h.disk hd)
  same := h.same.trans h'.same
  dirty hd := h.dirty (h'.dirty hd)

lemma Keeps.hasDisk (h : Keeps y s s') (x : Byte) : s'.HasDisk x ↔ s.HasDisk x := by
  obtain ⟨m, d, c, f, x', o, rfl⟩ := h.frame
  exact Iff.rfl

/-- The other channels stay as they are. -/
lemma Keeps.chan_of_ne (h : Keeps y s s') {z : Byte} (hz : z ≠ y) : s'.chan z = s.chan z := by
  obtain ⟨m, d, c, f, x', o, rfl⟩ := h.frame
  exact Function.update_of_ne hz ..

/-- A change of the scratch alone. -/
lemma keeps_scratch (y : Byte) (s : State) (f : Fin 8 → Byte) (x o : Byte) :
    Keeps y s { s with filenameParam := f, curDrv := x, chanOff := o } where
  frame := ⟨s.mem, s.disk, s.chan y, f, x, o, by rw [Function.update_eq_self]⟩
  mem _ _ := rfl
  disk _ := rfl
  same := Chan.SameFile.refl _
  dirty := id

end Keeping

/-! ## The buffer -/

lemma bufferReq_start {c : Chan} (h : c.sec < 1024) :
    (bufferReq c.page c.secHi c.secLo).start = c.sec ∧ c.secHi.toNat < 4 := by
  have hlo := byte_lt c.secLo
  rw [Chan.sec] at h
  have h4 : c.secHi.toNat < 4 := by omega
  refine ⟨?_, h4⟩
  simp only [bufferReq, BlockReq.start, Chan.sec]
  rw [Nat.mod_eq_of_lt h4]

lemma bufferReq_dest (page c4 c5 : Byte) :
    (bufferReq page c4 c5).dest = 256 * page.toNat ∧ (bufferReq page c4 c5).byteLength = 256 := by
  refine ⟨?_, rfl⟩
  have h0 : (0 : Byte).toNat = 0 := rfl
  rw [bufferReq, BlockReq.dest, h0, Nat.zero_add]

lemma flushFlags (f : Byte) : (f &&& 0xbf) &&& 0x40 = 0 ∧ (f &&& 0xbf) &&& 0x80 = f &&& 0x80 ∧
    (f &&& 0xbf) &&& 0x10 = f &&& 0x10 ∧ (f &&& 0xbf) &&& 3 = f &&& 3 := by
  revert f
  decide

namespace Chan

variable (c : Chan)

/-- The block when its buffer has been written to the disk. -/
def cleaned : Chan := { c with flags := c.flags &&& 0xbf }

lemma cleaned_sameFile : c.SameFile c.cleaned := ⟨rfl, rfl, rfl, rfl, rfl, rfl, (flushFlags _).2.2.2⟩

lemma cleaned_clean : ¬ c.cleaned.Dirty := not_not.2 (flushFlags _).1

lemma cleaned_valid : c.cleaned.Valid ↔ c.Valid := by
  rw [Valid, Valid, cleaned, (flushFlags _).2.1]

lemma cleaned_told : c.cleaned.Told ↔ c.Told := by
  rw [Told, Told, cleaned, (flushFlags _).2.2.1]

end Chan

namespace State

/-- The buffer of the channel at `y` written to its sector. -/
def flushed (s : State) (y : Byte) : State :=
  { s with
    disk := copyBytes s.mem (s.chan y).buffer (s.addrOn (s.chan y).drv (s.chan y).sec) 256 s.disk
    chan := Function.update s.chan y (s.chan y).cleaned }

/-- The sector of PTR in the buffer of the channel at `y`. -/
def filled (s : State) (y : Byte) : State :=
  { s with
    mem := copyBytes s.disk (s.addrOn (s.chan y).drv (s.chan y).atSector.sec) (s.chan y).buffer 256 s.mem
    chan := Function.update s.chan y (s.chan y).atSector }

@[simp] lemma flushed_chan (s : State) (y : Byte) : (s.flushed y).chan y = (s.chan y).cleaned :=
  Function.update_self ..

@[simp] lemma filled_chan (s : State) (y : Byte) : (s.filled y).chan y = (s.chan y).atSector :=
  Function.update_self ..

end State

section Buffer

variable {y : Byte} {s : State}

lemma fileToMediaY_clean (hd : ¬ (s.chan y).Dirty) : (fileToMediaY y).run s = .ok () s := by
  rw [fileToMediaY, Prog.run_bind_ok (Prog.run_get s), if_pos (not_not.1 hd)]
  rfl

/-- A changed buffer is written to its sector. -/
lemma fileToMediaY_dirty (hlt : (s.chan y).sec < 800) (hw : s.CanWrite (s.chan y).drv)
    (hd : (s.chan y).Dirty) (hoff : s.chanOff = y) (hdrv : s.curDrv = (s.chan y).drv) :
    (fileToMediaY y).run s = .ok () (s.flushed y) := by
  subst hoff
  set c := s.chan s.chanOff with hchan
  obtain ⟨hstart, h4⟩ := bufferReq_start (c := c) (by omega)
  obtain ⟨hdest, hlen⟩ := bufferReq_dest c.page c.secHi c.secLo
  have hsave := saveMemBlock_run (r := bufferReq c.page c.secHi c.secLo) (s := s) rfl h4
    (hstart ▸ hlt : _ + 1 ≤ 800) (hdrv ▸ hw)
  have hblock : s.blockSaved (bufferReq c.page c.secHi c.secLo)
      = { s with disk := copyBytes s.mem c.buffer (s.addrOn c.drv c.sec) 256 s.disk } := by
    rw [State.blockSaved, hstart, hdest, hlen, State.addrOn, ← hdrv]
    rfl
  rw [fileToMediaY, Prog.run_bind_ok (Prog.run_get s), if_neg hd]
  simp only [← hchan]
  rw [Prog.run_bind_ok hsave, hblock]
  rfl

lemma addrOn_eq (s : State) (d : Byte) (k : ℕ) : s.addrOn d k = s.addrOn d 0 + 256 * k := by
  rw [← State.addrOn_add, Nat.zero_add]

/-- The other sectors of the file keep their bytes. -/
lemma imageByte_flushed (hstart : 2 ≤ (s.chan y).start) {i : ℕ}
    (hi : ¬ ((s.chan y).sec ≠ 0 ∧ (s.chan y).sec = (s.chan y).start + i / 256)) :
    (s.flushed y).imageByte (s.chan y).cleaned i = s.imageByte (s.chan y) i := by
  have h1 := addrOn_eq s (s.chan y).drv (s.chan y).start
  have h2 := addrOn_eq s (s.chan y).drv (s.chan y).sec
  have hdrv := (s.chan y).cleaned_sameFile.drv
  have haddr : (s.flushed y).addrOn (s.chan y).drv (s.chan y).cleaned.start
      = s.addrOn (s.chan y).drv (s.chan y).start := rfl
  rw [State.imageByte, State.imageByte, hdrv, haddr]
  refine copyBytes_of_not _ _ (p := (s.chan y).buffer) ?_
  by_contra hin
  exact hi ⟨by omega, by omega⟩

lemma flushed_coherent (hc : Coherent s (s.chan y)) :
    Coherent (s.flushed y) ((s.flushed y).chan y) := by
  have hdrv := (s.chan y).cleaned_sameFile.drv
  rw [State.flushed_chan]
  refine ⟨hc.start_ge, hc.inside, hc.ptr_le, hdrv ▸ hc.hasDisk, fun hv => ?_, fun _ _ i hi => ?_,
    fun hd => absurd hd (s.chan y).cleaned_clean⟩
  · exact hc.valid ((s.chan y).cleaned_valid.1 hv)
  · rw [hdrv]
    exact (copyBytes_apply _ _ _ _ hi).symm

lemma flushed_keeps (hd : (s.chan y).Dirty) : Keeps y s (s.flushed y) := by
  refine ⟨⟨s.mem, (s.flushed y).disk, (s.chan y).cleaned, s.filenameParam, s.curDrv, s.chanOff, rfl⟩,
    fun _ _ => rfl, fun h => absurd hd h, ?_, fun _ => hd⟩
  rw [State.flushed_chan]
  exact (s.chan y).cleaned_sameFile

lemma flushed_shown (hstart : 2 ≤ (s.chan y).start) (i : ℕ) :
    (s.flushed y).shown ((s.flushed y).chan y) i = s.shown (s.chan y) i := by
  rw [State.flushed_chan, State.shown, State.shown]
  by_cases hi : (s.chan y).sec ≠ 0 ∧ (s.chan y).sec = (s.chan y).start + i / 256
  · rw [if_pos hi]
    exact if_pos hi
  · rw [if_neg hi, ← imageByte_flushed hstart hi]
    exact if_neg hi

lemma flushed_stream (hc : Coherent s (s.chan y)) : (s.flushed y).stream y = s.stream y := by
  rw [State.stream, State.stream, Stream.mk.injEq]
  refine ⟨funext fun i => flushed_shown hc.start_ge i, ?_, ?_, ?_⟩
  · rw [State.flushed_chan]
    rfl
  · rw [State.flushed_chan]
    rfl
  · rw [State.flushed_chan, decide_eq_decide]
    exact (s.chan y).cleaned_told

lemma atSector_inside {c : Chan} (hc : Coherent s c) (hlt : c.ptr.val < c.ext.val) :
    c.atSector.sec = c.start + c.ptr.val / 256 ∧ c.atSector.sec < 800 := by
  have hin := hc.inside
  have hsec := Chan.atSector_sec (c := c) (by omega)
  exact ⟨hsec, by omega⟩

/-- The sector of PTR is read. -/
lemma mediaToFile_run (hin : (s.chan y).atSector.sec < 800) (hdisk : s.HasDisk (s.chan y).drv)
    (hoff : s.chanOff = y) (hdrv : s.curDrv = (s.chan y).drv) :
    mediaToFile.run s = .ok () (s.filled y) := by
  subst hoff
  set c := s.chan s.chanOff with hchan
  obtain ⟨hstart, h4⟩ := bufferReq_start (c := c.atSector) (by omega)
  obtain ⟨hdest, hlen⟩ := bufferReq_dest c.page c.atSector.secHi c.atSector.secLo
  have hpage : c.atSector.page = c.page := rfl
  have hload := loadMemBlock_run (r := bufferReq c.page c.atSector.secHi c.atSector.secLo)
    (s := s.setChan s.chanOff c.atSector) rfl h4 (hstart ▸ hin : _ + 1 ≤ 800)
    (hdrv ▸ hdisk : s.HasDisk s.curDrv)
  have hblock : (s.setChan s.chanOff c.atSector).blockLoaded
      (bufferReq c.page c.atSector.secHi c.atSector.secLo) = s.filled s.chanOff := by
    rw [hpage] at hstart
    rw [State.blockLoaded, hstart, hdest, hlen, State.filled, State.addrOn, ← hchan, ← hdrv]
    rfl
  rw [mediaToFile, Prog.run_bind_ok (Prog.run_get s), modifyChan,
    Prog.run_bind_ok (Prog.run_modify _ s)]
  exact hload.trans (congrArg (Outcome.ok ()) hblock)

lemma filled_coherent (hc : Coherent s (s.chan y)) (hd : ¬ (s.chan y).Dirty)
    (hlt : (s.chan y).ptr.val < (s.chan y).ext.val) :
    Coherent (s.filled y) ((s.filled y).chan y) := by
  have hdrv := (s.chan y).atSector_sameFile.drv
  rw [State.filled_chan]
  refine ⟨hc.start_ge, hc.inside, hc.ptr_le, hdrv ▸ hc.hasDisk, fun _ => ?_, fun _ _ i hi => ?_,
    fun h => absurd ((s.chan y).atSector_dirty.1 h) hd⟩
  · exact (atSector_inside hc hlt).1
  · rw [hdrv]
    exact copyBytes_apply _ _ _ _ hi

lemma filled_clean (hd : ¬ (s.chan y).Dirty) : ¬ ((s.filled y).chan y).Dirty := by
  rw [State.filled_chan, Chan.atSector_dirty]
  exact hd

lemma filled_keeps (hd : ¬ (s.chan y).Dirty) : Keeps y s (s.filled y) := by
  refine ⟨⟨(s.filled y).mem, s.disk, (s.chan y).atSector, s.filenameParam, s.curDrv, s.chanOff, rfl⟩,
    fun a ha => copyBytes_of_not _ _ ha, fun _ => rfl, ?_, fun h => absurd h (filled_clean hd)⟩
  rw [State.filled_chan]
  exact (s.chan y).atSector_sameFile

/-- A buffer that has just been read shows what is on the disk. -/
lemma filled_shown (i : ℕ) : (s.filled y).shown ((s.filled y).chan y) i = s.imageByte (s.chan y) i := by
  have hsame := (s.chan y).atSector_sameFile
  rw [State.filled_chan, State.shown, hsame.start, hsame.buffer]
  split_ifs with hsec
  · obtain ⟨-, he⟩ := hsec
    have hcopy := copyBytes_apply s.disk s.mem (s.addrOn (s.chan y).drv (s.chan y).atSector.sec)
      (s.chan y).buffer (n := 256) (Nat.mod_lt i (by decide))
    refine hcopy.trans ?_
    rw [he, State.addrOn_add, State.imageByte]
    congr 1
    omega
  · rw [State.imageByte, State.imageByte, hsame.drv, hsame.start]
    rfl

lemma filled_stream (hc : Coherent s (s.chan y)) (hd : ¬ (s.chan y).Dirty) :
    (s.filled y).stream y = s.stream y := by
  rw [State.stream, State.stream, Stream.mk.injEq]
  refine ⟨funext fun i => ?_, ?_, ?_, ?_⟩
  · rw [filled_shown, hc.shown_clean hd]
  · rw [State.filled_chan]
    rfl
  · rw [State.filled_chan]
    rfl
  · rw [State.filled_chan, decide_eq_decide]
    exact (s.chan y).atSector_told

lemma toldFlags (f : Byte) : (0x10 ||| f) &&& 0x80 = f &&& 0x80 ∧ (0x10 ||| f) &&& 0x40 = f &&& 0x40 ∧
    (0x10 ||| f) &&& 0x10 ≠ 0 ∧ (0x10 ||| f) &&& 3 = f &&& 3 := by
  revert f
  decide

/-- The end of the file is noted in the flags. -/
lemma tell_run (hc : Coherent s (s.chan y)) :
    ∃ c, (modifyChan y fun c => { c with flags := 0x10 ||| c.flags }).run s = .ok () (s.setChan y c) ∧
      Keeps y s (s.setChan y c) ∧ Coherent (s.setChan y c) c ∧
      (s.setChan y c).stream y = { s.stream y with told := true } := by
  obtain ⟨hvalid, hdirty, htold, hdrv⟩ := toldFlags (s.chan y).flags
  set c : Chan := { s.chan y with flags := 0x10 ||| (s.chan y).flags } with hcdef
  have hchan : (s.setChan y c).chan y = c := s.setChan_chan y _
  have hv : c.Valid → (s.chan y).Valid := fun h => by rwa [Chan.Valid, hcdef, hvalid] at h
  have hd : c.Dirty ↔ (s.chan y).Dirty := by rw [Chan.Dirty, hcdef, hdirty, Chan.Dirty]
  have hx : c.drv = (s.chan y).drv := hdrv
  refine ⟨c, rfl, ⟨⟨s.mem, s.disk, c, s.filenameParam, s.curDrv, s.chanOff, rfl⟩, fun _ _ => rfl,
    fun _ => rfl, ?_, ?_⟩, ⟨hc.start_ge, hc.inside, hc.ptr_le, ?_, fun h => hc.valid (hv h), ?_, ?_⟩, ?_⟩
  · rw [hchan]
    exact ⟨rfl, rfl, rfl, rfl, rfl, rfl, hdrv⟩
  · rw [hchan]
    exact hd.1
  · rw [hx]
    exact hc.hasDisk
  · intro h
    rw [hx]
    exact hc.clean (mt hd.2 h)
  · intro h
    rw [hx]
    exact hc.dirty (hd.1 h)
  · rw [State.stream, hchan, State.stream, Stream.mk.injEq]
    refine ⟨funext fun i => ?_, rfl, rfl, decide_eq_true htold⟩
    show State.shown _ c i = s.shown (s.chan y) i
    rw [State.shown, State.shown, State.imageByte, State.imageByte, hx]
    rfl

/-- A change of the scratch alone. -/
lemma Coherent.scratch {c : Chan} (h : Coherent s c) (f : Fin 8 → Byte) (x o : Byte) :
    Coherent { s with filenameParam := f, curDrv := x, chanOff := o } c :=
  ⟨h.start_ge, h.inside, h.ptr_le, h.hasDisk, h.valid, h.clean, h.dirty⟩

/-- Having the sector of PTR in the buffer. -/
def fillBuffer (y : Byte) : Routine Unit := do
  setFileDrv y
  fileToMediaY y
  mediaToFile

lemma fillBuffer_run (hc : Coherent s (s.chan y)) (hlt : (s.chan y).ptr.val < (s.chan y).ext.val)
    (hoff : s.chanOff = y) :
    ∃ s', (fillBuffer y).run s = .ok () s' ∧ Keeps y s s' ∧ Coherent s' (s'.chan y) ∧
      s'.stream y = s.stream y ∧ (s'.chan y).Valid ∧ s'.chanOff = y := by
  set x := (s.chan y).flags &&& 3 with hx
  set f := Function.update s.filenameParam 7 ((s.chan y).name 7 &&& 0x7f) with hf
  set t : State := { s with filenameParam := f, curDrv := x, chanOff := s.chanOff } with ht
  have hset : (setFileDrv y).run s = .ok () t := rfl
  have hct : Coherent t (t.chan y) := hc.scratch f x s.chanOff
  have hkt : Keeps y s t := keeps_scratch y s f x s.chanOff
  rw [fillBuffer, Prog.run_bind_ok hset]
  by_cases hd : (t.chan y).Dirty
  · have hcu := flushed_coherent hct
    have hdu : ¬ ((t.flushed y).chan y).Dirty := by
      rw [State.flushed_chan]
      exact (t.chan y).cleaned_clean
    have hsu := flushed_stream hct
    have hltu : ((t.flushed y).chan y).ptr.val < ((t.flushed y).chan y).ext.val := by
      rw [State.flushed_chan]
      exact hlt
    have hdrv : (t.flushed y).curDrv = ((t.flushed y).chan y).drv := by
      rw [State.flushed_chan, (t.chan y).cleaned_sameFile.drv]
      rfl
    rw [Prog.run_bind_ok (fileToMediaY_dirty (hct.dirty hd).1 (hct.dirty hd).2 hd hoff rfl)]
    refine ⟨(t.flushed y).filled y, mediaToFile_run (atSector_inside hcu hltu).2 hcu.hasDisk hoff hdrv,
      (hkt.trans (flushed_keeps hd)).trans (filled_keeps hdu), filled_coherent hcu hdu hltu,
      (filled_stream hcu hdu).trans hsu, ?_, hoff⟩
    rw [State.filled_chan]
    exact Chan.atSector_valid _
  · rw [Prog.run_bind_ok (fileToMediaY_clean hd)]
    refine ⟨t.filled y, mediaToFile_run (atSector_inside hct hlt).2 hct.hasDisk hoff rfl, hkt.trans (filled_keeps hd),
      filled_coherent hct hd hlt, filled_stream hct hd, ?_, hoff⟩
    rw [State.filled_chan]
    exact Chan.atSector_valid _

/-- The byte at PTR is in the buffer, and PTR moves on. -/
lemma advance_run (hc : Coherent s (s.chan y)) (hlt : (s.chan y).ptr.val < (s.chan y).ext.val)
    (hv : (s.chan y).Valid) :
    s.mem ((s.chan y).buffer + (s.chan y).ptr.lo.toNat) = (s.stream y).data (s.chan y).ptr.val ∧
      Keeps y s (s.setChan y (s.chan y).advance) ∧
      Coherent (s.setChan y (s.chan y).advance) (s.chan y).advance ∧
      (s.setChan y (s.chan y).advance).stream y
        = { s.stream y with ptr := (s.chan y).ptr.val + 1 } := by
  have hbound := (s.chan y).ext.val_lt
  obtain ⟨hsame, hptr, hsec, hvalid, hdirty, htold⟩ := (s.chan y).advance_spec (by omega)
  have hsector := hc.valid hv
  have hstart := hc.start_ge
  have hchan : (s.setChan y (s.chan y).advance).chan y = (s.chan y).advance := s.setChan_chan y _
  have hbuf := hsame.buffer
  have hlo : (s.chan y).ptr.lo.toNat = (s.chan y).ptr.val % 256 := by
    have := byte_lt (s.chan y).ptr.lo
    rw [Num24.val]
    omega
  refine ⟨?_, ⟨⟨s.mem, s.disk, _, s.filenameParam, s.curDrv, s.chanOff, rfl⟩, fun _ _ => rfl,
    fun _ => rfl, ?_, ?_⟩, ⟨?_, ?_, ?_, ?_, ?_, ?_, ?_⟩, ?_⟩
  · show _ = s.shown (s.chan y) (s.chan y).ptr.val
    rw [State.shown, if_pos ⟨by omega, hsector⟩, hlo]
  · rw [hchan]
    exact hsame
  · rw [hchan]
    exact hdirty.1
  · rw [hsame.start]
    exact hstart
  · rw [hsame.start, hsame.ext]
    exact hc.inside
  · rw [hsame.ext, hptr]
    omega
  · rw [hsame.drv]
    exact hc.hasDisk
  · intro h
    obtain ⟨-, hpage⟩ := hvalid.1 h
    rw [hsec, hsame.start, hptr, hpage]
    exact hsector
  · intro h
    rw [hbuf, hsec, hsame.drv]
    exact hc.clean (mt hdirty.2 h)
  · intro h
    rw [hsec, hsame.drv]
    exact hc.dirty (hdirty.1 h)
  · rw [State.stream, hchan, hptr, hsame.ext, State.stream, Stream.mk.injEq]
    refine ⟨funext fun i => ?_, rfl, rfl, decide_eq_decide.2 htold⟩
    show State.shown _ _ i = s.shown (s.chan y) i
    rw [State.shown, State.shown, State.imageByte, State.imageByte, hsec, hsame.start, hbuf, hsame.drv]
    rfl

end Buffer

/-! ## The calls -/

/-- The channel of an open handle is found. -/
lemma openHandle_run {p : Byte × Byte} (hp : p ∈ slots) {s : State} (hu : s.Used p) :
    (openHandle (handleOf p)).run s = .ok p.1 { s with chanOff := p.1 } := by
  obtain ⟨hoff, hmask, hne, hbit⟩ := handleOf_slots hp
  have huse : (isHandleInUse p.1).run s = .ok true { s with chanOff := p.1 } := by
    rw [isHandleInUse, Prog.run_bind_ok (Prog.run_modify _ s), hmask, if_neg hne,
      Prog.run_bind_ok (Prog.run_get _), Prog.run_pure, hbit]
    exact congrArg (fun b => Outcome.ok b _) (decide_eq_true hu)
  rw [openHandle, hoff, Prog.run_bind_ok huse, if_pos rfl, Prog.run_bind_ok (Prog.run_get _)]
  rfl

section Calls

variable {p : Byte × Byte} {s : State}

/-- The outcome of a call on a file that is read from one end to the other. -/
def Reads {α : Type} (x : Routine α) (y : Byte) (r : Except Err α × Stream) (s : State) : Prop :=
  ∃ s', x.run s = (match r.1 with | .ok a => .ok a s' | .error e => .err e s') ∧
    Keeps y s s' ∧ Coherent s' (s'.chan y) ∧ s'.stream y = r.2

/-- OSBGET reads the next byte of what the channel shows. -/
lemma bgetv_reads (hp : p ∈ slots) (hu : s.Used p) (hc : Coherent s (s.chan p.1)) :
    Reads (bgetv (handleOf p)) p.1 (s.stream p.1).get s := by
  have hopen := openHandle_run hp hu
  generalize handleOf p = h at hopen ⊢
  generalize p.1 = y at hc hopen ⊢
  set t : State := { s with filenameParam := s.filenameParam, curDrv := s.curDrv, chanOff := y } with ht
  have hct : Coherent t (t.chan y) := hc.scratch s.filenameParam s.curDrv y
  have hkt : Keeps y s t := keeps_scratch y s s.filenameParam s.curDrv y
  rw [Reads, bgetv, Prog.run_bind_ok hopen, Prog.run_bind_ok (Prog.run_get t)]
  by_cases heq : (comparePtr (t.chan y).ptr (t.chan y).ext).1 = true
  · have hend : (s.chan y).ptr.val = (s.chan y).ext.val := congrArg Num24.val (comparePtr_fst.1 heq)
    have hnot : ¬ (s.stream y).ptr < (s.stream y).length := not_lt.2 hend.ge
    rw [Stream.get, if_neg hnot, if_pos heq]
    by_cases htold : (t.chan y).flags &&& 0x10 ≠ 0
    · have hb : (s.stream y).told = true := decide_eq_true htold
      rw [if_pos hb, if_pos htold]
      exact ⟨t, rfl, hkt, hct, rfl⟩
    · have hb : ¬ (s.stream y).told = true := fun h => htold (of_decide_eq_true h)
      obtain ⟨c, hrun, hkeep, hcoh, hstream⟩ := tell_run hct
      rw [if_neg hb, if_neg htold, Prog.run_bind_ok hrun]
      refine ⟨t.setChan y c, rfl, hkt.trans hkeep, ?_, hstream⟩
      rw [State.setChan_chan]
      exact hcoh
  · have hne : (s.chan y).ptr.val ≠ (s.chan y).ext.val :=
      fun h => heq (comparePtr_fst.2 (Num24.val_injective h))
    have hlt : (s.chan y).ptr.val < (s.chan y).ext.val := lt_of_le_of_ne hc.ptr_le hne
    have hget : (s.stream y).ptr < (s.stream y).length := hlt
    rw [Stream.get, if_pos hget, if_neg heq]
    obtain ⟨u, hrun, hkeep, hcu, hsu, hvalid⟩ : ∃ u, (Prog.when ((t.chan y).flags &&& 0x80 = 0) do
          setFileDrv y
          fileToMediaY y
          mediaToFile).run t = .ok () u ∧ Keeps y t u ∧ Coherent u (u.chan y) ∧
        u.stream y = t.stream y ∧ (u.chan y).Valid := by
      by_cases hv : (t.chan y).flags &&& 0x80 = 0
      · rw [Prog.when, if_pos hv]
        obtain ⟨u, hrun, hkeep, hcu, hsu, hvalid, -⟩ := fillBuffer_run hct hlt rfl
        exact ⟨u, hrun, hkeep, hcu, hsu, hvalid⟩
      · rw [Prog.when, if_neg hv]
        exact ⟨t, rfl, keeps_scratch y t t.filenameParam t.curDrv t.chanOff, hct, rfl, hv⟩
    have hptr : (u.chan y).ptr.val = (s.chan y).ptr.val := congrArg Stream.ptr hsu
    have hlen : (u.chan y).ext.val = (s.chan y).ext.val := congrArg Stream.length hsu
    obtain ⟨hbyte, hkeep', hcoh, hstream⟩ := advance_run hcu (by omega) hvalid
    rw [Prog.run_bind_ok hrun, Prog.run_bind_ok (Prog.run_get u)]
    refine ⟨u.setChan y (u.chan y).advance, ?_, (hkt.trans hkeep).trans hkeep', ?_, ?_⟩
    · have hv : u.mem (256 * (u.chan y).page.toNat + (u.chan y).ptr.lo.toNat)
          = (s.stream y).data (s.stream y).ptr := by
        refine hbyte.trans ?_
        rw [hsu, hptr]
        rfl
      rw [hv]
      rfl
    · rw [State.setChan_chan]
      exact hcoh
    · rw [hstream, hsu, hptr]
      rfl

/-- PTR put to another place in the file; whether the buffer is valid is seen anew. -/
lemma movePtr_coherent {y : Byte} (hc : Backed s (s.chan y)) {n : Num24}
    (hn : n.val ≤ (s.chan y).ext.val) :
    Keeps y s (s.setChan y ((s.chan y).movePtr n)) ∧
      Coherent (s.setChan y ((s.chan y).movePtr n)) ((s.chan y).movePtr n) ∧
      (s.setChan y ((s.chan y).movePtr n)).stream y = (s.stream y).seek n.val := by
  have hin := hc.inside
  have hsame := (s.chan y).movePtr_sameFile n
  have hdirty := (s.chan y).movePtr_dirty n
  have hvalid := Chan.movePtr_valid (c := s.chan y) (p := n) (by omega)
  have hchan : (s.setChan y ((s.chan y).movePtr n)).chan y = (s.chan y).movePtr n := s.setChan_chan y _
  refine ⟨⟨⟨s.mem, s.disk, _, s.filenameParam, s.curDrv, s.chanOff, rfl⟩, fun _ _ => rfl,
    fun _ => rfl, ?_, ?_⟩, ⟨hc.start_ge, hc.inside, hn, ?_, fun h => hvalid.1 h, ?_, ?_⟩, ?_⟩
  · rw [hchan]
    exact hsame
  · rw [hchan]
    exact hdirty.1
  · rw [hsame.drv]
    exact hc.hasDisk
  · intro h
    rw [hsame.drv]
    exact hc.clean (mt hdirty.2 h)
  · intro h
    rw [hsame.drv]
    exact hc.dirty (hdirty.1 h)
  · rw [State.stream, hchan, State.stream, Stream.seek, Stream.mk.injEq]
    refine ⟨funext fun i => ?_, rfl, rfl, decide_eq_false ((s.chan y).movePtr_told n)⟩
    show State.shown _ _ i = s.shown (s.chan y) i
    rw [State.shown, State.shown, State.imageByte, State.imageByte, hsame.drv]
    rfl

/-- OSARGS with a place within the file goes on from there. -/
lemma argsWritePtr_reads (hp : p ∈ slots) (hu : s.Used p) (hc : Backed s (s.chan p.1)) {n : Num24}
    (hn : n.val ≤ (s.chan p.1).ext.val) :
    Reads (argsWritePtr (handleOf p) n) p.1 (.ok (), (s.stream p.1).seek n.val) s := by
  have hopen := openHandle_run hp hu
  generalize handleOf p = h at hopen ⊢
  generalize p.1 = y at hc hn hopen ⊢
  set t : State := { s with filenameParam := s.filenameParam, curDrv := s.curDrv, chanOff := y } with ht
  have hct : Backed t (t.chan y) := ⟨hc.start_ge, hc.inside, hc.hasDisk, hc.clean, hc.dirty⟩
  have hkt : Keeps y s t := keeps_scratch y s s.filenameParam s.curDrv y
  -- PTR goes to the end of the file first, and no zeros are put
  have hcover : extCovers ((t.setChan y { t.chan y with ptr := (t.chan y).ext }).chan y).ext n = true := by
    rw [State.setChan_chan]
    exact extCovers_iff.2 hn
  have hzeros : (putZeros y n (n.val + 1)).run (t.setChan y { t.chan y with ptr := (t.chan y).ext })
      = .ok () (t.setChan y { t.chan y with ptr := (t.chan y).ext }) := by
    rw [putZeros, Prog.run_bind_ok (Prog.run_get _), if_pos hcover]
    rfl
  have hmove : (modifyChan y fun c => c.movePtr n).run (t.setChan y { t.chan y with ptr := (t.chan y).ext })
      = .ok () (t.setChan y ((t.chan y).movePtr n)) := by
    rw [modifyChan, Prog.run_modify, State.setChan_chan, State.setChan, State.setChan, State.setChan]
    simp only [Function.update_idem]
    rfl
  obtain ⟨hkeep, hcoh, hstream⟩ := movePtr_coherent hct hn
  refine ⟨t.setChan y ((t.chan y).movePtr n), ?_, hkt.trans hkeep, ?_, hstream⟩
  · rw [argsWritePtr, Prog.run_bind_ok hopen, mmcSetPtrToExt, modifyChan,
      Prog.run_bind_ok (Prog.run_modify _ t), Prog.run_bind_ok hzeros]
    exact hmove
  · rw [State.setChan_chan]
    exact hcoh

end Calls

end Udfs.Rom
