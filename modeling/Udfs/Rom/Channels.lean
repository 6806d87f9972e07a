import Udfs.Rom.Catalogue

/-!
# Channels

Five files can be open at a time.  A channel is known by its handle `$11` … `$15`, by the
offset `$20` … `$a0` of its block and by its bit in `$10c0`; the block holds a copy of the
catalogue entry, PTR, EXT and the state of a buffer of one sector.  Opening copies the entry,
closing writes the length and the buffer back.  OSBGET, OSBPUT and the writing of PTR work on
the block and its buffer and go to the disk when the buffer is for another sector.
-/

namespace Udfs.Rom

/-! ## Handles -/

/-- `$9061`: the bit of the channel at offset `y`. -/
def handleMask (y : Byte) : Byte := (0x80 : Byte) >>> ((y >>> 5).toNat - 1)

/-- `is_handle_in_use`: the carry, inverted; `$10c2` is left at the offset. -/
def isHandleInUse (y : Byte) : Routine Bool := do
  Prog.modify fun s => { s with chanOff := y &&& 0xe0 }
  if y &&& 0xe0 = 0 then pure false
  else do
    let s ← Prog.get
    pure (decide (s.inUse &&& handleMask (y &&& 0xe0) ≠ 0))

/-- `$907b`: the offset for a handle; the carry is set outside `$10` … `$17`. -/
def handleOffset (y : Byte) : Byte × Bool :=
  if 0x10 ≤ y.toNat ∧ y.toNat < 0x18 then (y <<< 5, false) else ((8 : Byte) <<< 5, true)

/-- `$90a5`: the offset of an open channel. -/
def openHandle (y : Byte) : Routine Byte := do
  if ← isHandleInUse (handleOffset y).1 then do
    let s ← Prog.get
    pure s.chanOff
  else Prog.fail .channel

/-! ## The buffer -/

/-- The transfer of a buffer to or from a sector, as `$9153` sets it up. -/
def bufferReq (page c4 c5 : Byte) : BlockReq := ⟨0, page, 0, 1, c4, c5⟩

/-- `file_to_media_y`: write a changed buffer to its sector. -/
def fileToMediaY (y : Byte) : Routine Unit := do
  let s ← Prog.get
  if (s.chan y).flags &&& 0x40 = 0 then pure ()
  else do
    let c := s.chan s.chanOff
    saveMemBlock (bufferReq c.page c.secHi c.secLo)
    modifyChan s.chanOff fun c => { c with flags := c.flags &&& 0xbf }

namespace Chan

/-- `$9121`: the buffer is for the sector that PTR lies in. -/
def atSector (c : Chan) : Chan :=
  let (lo, k) := adc (c.info 7) c.ptr.mid false
  let (hi, _) := adc (c.info 6 &&& 3) c.ptr.hi k
  { c with secLo := lo, secHi := hi, flags := 0x80 ||| c.flags }

/-- `$9101` and `$9270`: move PTR on; at the end of its page the buffer is given up. -/
def advance (c : Chan) : Chan :=
  if c.ptr.lo + 1 ≠ 0 then { c with ptr := { c.ptr with lo := c.ptr.lo + 1 } }
  else
    let (mid, k) := adc c.ptr.mid 1 false
    let (hi, _) := adc c.ptr.hi 0 k
    { c with ptr := ⟨0, mid, hi⟩, flags := 0x7f &&& c.flags }

end Chan

/-- `$9153` with the carry set: read the sector that PTR lies in. -/
def mediaToFile : Routine Unit := do
  let s ← Prog.get
  modifyChan s.chanOff Chan.atSector
  let c := (s.chan s.chanOff).atSector
  loadMemBlock (bufferReq c.page c.secHi c.secLo)

/-- `$92f8`: compare PTR with another length; whether they are equal, and the carry. -/
def comparePtr (p e : Num24) : Bool × Bool :=
  if p.hi ≠ e.hi then (false, cmpCarry p.hi e.hi)
  else if p.mid ≠ e.mid then (false, cmpCarry p.mid e.mid)
  else (p.lo = e.lo, cmpCarry p.lo e.lo)

/-! ## Closing -/

/-- `set_file_drv`. -/
def setFileDrv (y : Byte) : Routine Unit := do
  let s ← Prog.get
  Prog.modify fun s =>
    { s with filenameParam := Function.update s.filenameParam 7 ((s.chan y).name 7 &&& 0x7f) }
  setDrive (s.chan y).flags

/-- `setup_save_to_media`: find the channel's entry, which must start where it started when the
file was opened. -/
def setupSaveToMedia (y : Byte) : Routine Unit := do
  Prog.modify fun s => { s with
    filenameParam := fun i => if i = 7 then s.filenameParam 7 else (s.chan y).name i }
  match ← searchCat with
  | none => Prog.fail .diskChanged
  | some x => do
      Prog.modify fun s => { s with chanEntry := x }
      let s ← Prog.get
      if (s.cat (0x0f0e + x) ^^^ (s.chan s.chanOff).info 6) &&& 3 ≠ 0 then Prog.fail .diskChanged
      else if s.cat (0x0f0f + x) ≠ (s.chan s.chanOff).info 7 then Prog.fail .diskChanged
      else pure ()

/-- `$8e2a`: the channel's length in its entry. -/
def putLength (c : ℕ → Byte) (x : ℕ) (len : Num24) : ℕ → Byte :=
  let c := Function.update c (0x0f0c + x) len.lo
  let c := Function.update c (0x0f0d + x) len.mid
  Function.update c (0x0f0e + x)
    (((len.hi <<< 4) ^^^ c (0x0f0e + x)) &&& 0x30 ^^^ c (0x0f0e + x))

/-- `$8e27`: write the length back when it has changed. -/
def lengthToMedia (y : Byte) : Routine Unit := do
  let s ← Prog.get
  Prog.when ((s.chan y).flags &&& 0x20 ≠ 0) do
    Prog.modify fun s => { s with cat := putLength s.cat s.chanEntry (s.chan y).ext }
    saveCat

/-- `update_catnfile`: close the channel at `y`, if it is in use. -/
def updateCatnfile (y : Byte) : Routine Unit := do
  if ← isHandleInUse y then do
    let s ← Prog.get
    let y := s.chanOff
    Prog.modify fun s => { s with inUse := ~~~ (s.chan y).bit &&& s.inUse }
    Prog.when ((s.chan y).flags &&& 0x60 ≠ 0) do
      setFileDrv y
      setupSaveToMedia y
      lengthToMedia y
      fileToMediaY y
  else pure ()

/-- `$8def`: close the channels after the one at `a`. -/
def closeFrom : ℕ → Byte → Routine Unit
  | 0, _ => pure ()
  | n + 1, a =>
      if a + 0x20 = 0 then pure ()
      else do
        updateCatnfile (a + 0x20)
        closeFrom n (a + 0x20)

/-- `$8dfa`: close a file, or all of them for handle 0.  Closing all begins with OSBYTE `$77`,
by which the MOS closes its own files with calls like this one. -/
def closeFiles (y : Byte) : Routine Unit :=
  if y = 0 then closeFrom 8 0
  else if (handleOffset y).2 then Prog.fail .channel
  else updateCatnfile (handleOffset y).1

/-! ## Opening -/

/-- `$8f9e` to `$8ee3`: the channels that have the file open must all be read-only, and the file
must not be opened for writing. -/
def checkSharers (a : Byte) (x : ℕ) : ℕ → Option (Byte × Byte) → Routine Unit
  | 0, _ => pure ()
  | _ + 1, none => pure ()
  | n + 1, some (y, b) => do
      let s ← Prog.get
      if (s.chan y).name 6 &&& 0x80 = 0 then Prog.fail .fileOpen
      else if a &&& 0x80 ≠ 0 then Prog.fail .fileOpen
      else do
        let r ← findNextChannel x y b
        checkSharers a x n r

/-- `$8f47`: the sectors of an entry, as a number of bytes. -/
def spaceOf (info : Fin 8 → Byte) : Num24 :=
  let (_, k) := adc (info 4) 0xff false
  let (mid, k) := adc (info 5) 0 k
  let (hi, _) := adc (info 6 ||| 0x0f) 0 k
  ⟨0, mid, lsr4And3 hi⟩

/-- `$8f0b`: the block for the entry at `x` opened with `a` on the channel at `y` with bit `b`. -/
def newChan (a : Byte) (drv : Byte) (y b : Byte) (name info : Fin 8 → Byte) : Chan where
  name := if a &&& 0x40 ≠ 0 ∧ a &&& 0x80 = 0 then Function.update name 6 (0x80 ||| name 6) else name
  info := info
  ptr := ⟨0, 0, 0⟩
  page := (y >>> 5) + 0x11
  -- a file opened for output has no length yet
  ext := if a &&& 0x40 ≠ 0 then ⟨info 4, info 5, lsr4And3 (info 6)⟩ else ⟨0, 0, 0⟩
  flags := drv ||| (if a &&& 0x40 ≠ 0 then 0 else 0x20)
  alloc := spaceOf info
  bit := b
  secLo := 0
  secHi := 0

/-- `$8f0b`: open the entry at `x` on the channel found; the handle. -/
def openChannel (a : Byte) (x : ℕ) : Routine Byte := do
  Prog.modify fun s =>
    { s.setChan s.chanOff (newChan a s.curDrv s.chanOff s.freeBit (entryName s.cat x) (entryInfo s.cat x))
      with inUse := s.freeBit ||| s.inUse }
  let s ← Prog.get
  pure ((s.chanOff >>> 5) ||| 0x10)

/-- `$8ecb`: open the entry at `x`. -/
def openFound (a : Byte) (x : ℕ) : Routine Byte := do
  Prog.when (a &&& 0x40 = 0) (checkLocked x)
  let r ← findChannel x
  checkSharers a x 5 r
  let s ← Prog.get
  if s.chanOff = 0 then Prog.fail .tooManyFilesOpen else openChannel a x

/-- `$8eb8`: a file of 64 sectors. -/
def findBlock : FileBlock := ⟨0, 0, 0, 0, 0, 0, 0, 0x40, 0, 0, 0, 0⟩

/-- `$8ea9`: the entry of a file that is opened, which is made for one opened for output. -/
def locate (a : Byte) (chars : List Byte) : Routine (Option ℕ) := do
  readFsp chars
  match ← searchCat with
  | some x => pure (some x)
  | none =>
      if a &&& 0x40 ≠ 0 then pure none
      else do
        let x ← createFile chars findBlock
        pure (some x)

/-- `$8e9d`: OSFIND with A not 0; the handle, or 0 when there is no such file. -/
def openFile (a : Byte) (chars : List Byte) : Routine Byte := do
  match ← locate a chars with
  | none => pure 0
  | some x => openFound a x

/-! ## Reading and writing -/

/-- `bgetv_entry`: the byte and the carry. -/
def bgetv (h : Byte) : Routine (Byte × Bool) := do
  let y ← openHandle h
  let s ← Prog.get
  if (comparePtr (s.chan y).ptr (s.chan y).ext).1 then
    if (s.chan y).flags &&& 0x10 ≠ 0 then Prog.fail .eof
    else do
      modifyChan y fun c => { c with flags := 0x10 ||| c.flags }
      pure (0xfe, true)
  else do
    Prog.when ((s.chan y).flags &&& 0x80 = 0) do
      setFileDrv y
      fileToMediaY y
      mediaToFile
    let s ← Prog.get
    let v := s.mem (256 * (s.chan y).page.toNat + (s.chan y).ptr.lo.toNat)
    modifyChan y Chan.advance
    pure (v, false)

/-- `$91ce`: the number of sectors from the start of the entry at `x` to the entry before it or
the end of the disk, low and high byte. -/
def roomOf (c : ℕ → Byte) (x : ℕ) : Byte × Byte :=
  let (r0, k) := sbc (c (0x0f07 + x)) (c (0x0f0f + x)) true
  let (r1, _) := sbc (c (0x0f06 + x)) (c (0x0f0e + x)) k
  (r0, r1 &&& 3)

/-- `$91c7`: give the file all the room up to the next one. -/
def extendFile (y : Byte) : Routine Unit := do
  setupSaveToMedia y
  let s ← Prog.get
  let x := s.chanEntry
  let r := roomOf s.cat x
  let m := s.cat (0x0f0e + x)
  Prog.modify fun s => { s with
    cat := Function.update s.cat (0x0f0e + x) (((r.2 <<< 4) ^^^ m) &&& 0x30 ^^^ m) }
  if r.2 = (s.chan y).alloc.hi ∧ r.1 = (s.chan y).alloc.mid then do
    updateCatnfile y
    Prog.fail .cantExtend
  else do
    Prog.modify fun s => { s with cat := Function.update s.cat (0x0f0d + x) r.1 }
    modifyChan y fun c => { c with alloc := ⟨c.alloc.lo, r.1, r.2⟩ }
    Prog.modify fun s => { s with cat := Function.update s.cat (0x0f0c + x) 0 }
    saveCat

/-- `$923d`: have the sector of PTR in the buffer.  A sector that begins at the end of the file
is not read. -/
def readyBuffer (y : Byte) : Routine Unit := do
  let s ← Prog.get
  Prog.when ((s.chan y).flags &&& 0x80 = 0) do
    fileToMediaY y
    let c := s.chan y
    if c.ext.lo = 0 ∧ (comparePtr c.ptr c.ext).1 then modifyChan y Chan.atSector else mediaToFile

namespace Chan

/-- `$928c`: a file written past its end gets longer. -/
def lengthen (c : Chan) : Chan :=
  if (comparePtr c.ptr c.ext).2 then { c with flags := 0x20 ||| c.flags, ext := c.ptr } else c

end Chan

/-- `$91b0`: OSBPUT on the channel at `y`. -/
def bputAt (y v : Byte) : Routine Unit := do
  let s ← Prog.get
  if 128 ≤ ((s.chan y).name 6).toNat then Prog.fail .fileReadOnly
  else if 128 ≤ ((s.chan y).name 7).toNat then Prog.fail .fileLocked
  else do
    setFileDrv y
    Prog.when (comparePtr (s.chan y).ptr (s.chan y).alloc).1 (extendFile y)
    readyBuffer y
    Prog.modify fun s => { s with
      mem := Function.update s.mem (256 * (s.chan y).page.toNat + (s.chan y).ptr.lo.toNat) v }
    modifyChan y fun c => { c with flags := 0x40 ||| c.flags }.advance.lengthen

/-- `bputv_entry`. -/
def bputv (h v : Byte) : Routine Unit := do
  let y ← openHandle h
  bputAt y v

/-! ## Moving PTR -/

/-- `mmc_set_ptr_to_ext`. -/
def mmcSetPtrToExt (y : Byte) : Routine Unit := modifyChan y fun c => { c with ptr := c.ext }

/-- `$9310`: the carry of EXT minus the new PTR. -/
def extCovers (e p : Num24) : Bool :=
  let (_, k) := sbc e.mid p.mid (cmpCarry e.lo p.lo)
  let (_, k) := sbc e.hi p.hi k
  k

/-- `$92b6`: put zeros until EXT is not below the new PTR, `n` at most. -/
def putZeros (y : Byte) (p : Num24) : ℕ → Routine Unit
  | 0 => pure ()
  | n + 1 => do
      let s ← Prog.get
      if extCovers (s.chan y).ext p then pure ()
      else do
        bputAt y 0
        putZeros y p n

namespace Chan

/-- `$92c3`: the new PTR; the buffer counts as valid if it was last used for that sector. -/
def movePtr (c : Chan) (p : Num24) : Chan :=
  let (lo, k) := adc (c.info 7) p.mid false
  let (hi, _) := adc (c.info 6 &&& 3) p.hi k
  let f := 0x6f &&& c.flags
  { c with ptr := p, flags := if hi = c.secHi ∧ lo = c.secLo then 0x80 ||| f else f }

end Chan

/-- `$92a7`: OSARGS with A=1.  Every round of `putZeros` makes the file a byte longer. -/
def argsWritePtr (h : Byte) (p : Num24) : Routine Unit := do
  let y ← openHandle h
  mmcSetPtrToExt y
  putZeros y p (p.val + 1)
  modifyChan y fun c => c.movePtr p

end Udfs.Rom
