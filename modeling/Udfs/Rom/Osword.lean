import Udfs.Lib.Calls
import Udfs.Rom.Compact
import Udfs.Rom.Gbpb

/-!
# OSWORD `$7f`

Programs that talk to a floppy disk controller find one: the call takes commands for it, with a track,
a sector and a number of sectors, and reads and writes the disks of the filing system.  For such a
program a disk is 80 tracks of ten sectors.
-/

namespace Udfs.Rom

/-! ## The call -/

/-- `$b96e`: the drive that the two select bits of a command stand for, or the result.  An odd current drive
inverts them. -/
def fdcSelect (curDrv cmd fdc : Byte) : Except Byte Byte :=
  let (_, odd) := ror curDrv false
  let (a, k) := rol (if odd then cmd ^^^ 0xc0 else cmd) odd
  let (_, l) := rol a k
  if k then
    if l then .error 0x1e else .ok ((fdc &&& 0x02) ||| 0x01)
  else if l then .ok (fdc &&& 0x02)
  else .error 0x10

/-- `$b9bd`: ten times the track and the sector. -/
def fdcSector (track sector : Byte) : Num16 :=
  let (a, _) := asl track
  let (b, k) := asl a
  let (h, _) := rol 0 k
  let (b, k) := asl b
  let (h, k) := rol h k
  let (lo, k) := adc b a k
  let h := if k then h + 1 else h
  let (lo, k) := adc sector lo false
  ⟨lo, if k then h + 1 else h⟩

/-- `$b9f9`: the first sector of the disk in drive `x`, and `c` added to it. -/
def fdcBase (s : State) (x : Byte) (c : Num16) : Num24 :=
  let base := diskBaseSector (s.diskLo x) (ror (s.diskHi x) false).2
  let (s0, k) := adc base.lo c.lo false
  let (s1, k) := adc base.mid c.hi k
  ⟨s0, s1, if k then base.hi + 1 else base.hi⟩

/-- `$b9b6`: the transfer that the block at `p` asks for, with drive `x`; the result. -/
def fdcTransfer (p : ℕ) (x : Byte) (write : Bool) : Routine Byte := do
  let s ← Prog.get
  if 0x50 ≤ (s.mem (p + 7)).toNat then pure 0x1e
  else if 0x0a ≤ (s.mem (p + 8)).toNat then pure 0x1e
  else
    let c := fdcSector (s.mem (p + 7)) (s.mem (p + 8))
    let n := s.mem (p + 9) &&& 0x1f
    if n = 0 then pure 0
    else
      let (lo, k) := adc n c.lo false
      let (hi, _) := adc 0 c.hi k
      if hi.toNat < 3 ∨ hi = 3 ∧ lo.toNat < 0x21 then do
        let sector := 256 * (fdcBase s x c).val
        let ptr := (wordOf (s.mem (p + 1)) (s.mem (p + 2))).toNat
        if write then do
          -- the checks of `$aa2d` are for the current drive
          checkWrite s.curDrv
          Prog.modify fun s => { s with disk := copyBytes s.mem ptr sector (256 * n.toNat) s.disk }
        else Prog.modify fun s => { s with mem := copyBytes s.disk sector ptr (256 * n.toNat) s.mem }
        pure 0
      else pure 0x1e

/-- The state of the filing system and `$0d20`. -/
abbrev FdcProg (α : Type) : Type := Prog (State × Byte) Err α

/-- `$b98d`: the command of the block at `p`, with `$be`, for drive `x`; the result. -/
def fdcOnDrive (p : ℕ) (be x : Byte) : FdcProg Byte := do
  Prog.modify fun t => (t.1, x)
  let t ← Prog.get
  let bf := t.1.mem (p + 6) &&& 0x3f
  if 128 ≤ (t.1.diskHi x).toNat then pure 0x10
  else if bf ≠ 0x13 ∧ bf ≠ 0x0b then pure 0
  else if bf ≠ 0x13 ∧ t.1.diskMark x ≠ 0x54 then pure 0x12
  else if be ≠ 0x0a then pure 0xff
  else Prog.beside (fdcTransfer p x (bf ≠ 0x13))

/-- `$b937`: the command of the block at `p`, with `$be`; the result. -/
def fdcCommand (p : ℕ) (be : Byte) : FdcProg Byte := do
  let t ← Prog.get
  if t.1.mem (p + 6) &&& 0x3f = 0x3a then do
    -- a special register is written; `$23` selects the side
    Prog.when (be = 0x09 ∧ t.1.mem (p + 7) = 0x23) do
      Prog.modify fun t => (t.1, if t.1.mem (p + 8) &&& 0x20 = 0 then 0 else 0x02)
    pure 0
  else
    match fdcSelect t.1.curDrv (t.1.mem (p + 6)) t.2 with
    | .error r => pure r
    | .ok x => fdcOnDrive p be x

/-- `mmc_osword_7f`, with the block at `p`. -/
def mmcOsword7f (p : ℕ) : FdcProg Unit := do
  let t ← Prog.get
  Prog.when ((t.1.mem p).toNat < 128) do
    Prog.modify fun t => ({ t.1 with curDrv := t.1.mem p &&& 0x03 }, t.1.mem p &&& 0x03)
  let be := (adc 0x07 (t.1.mem (p + 5)) false).1
  let r ← fdcCommand p be
  Prog.modify fun t => ({ t.1 with mem := Function.update t.1.mem (p + be.toNat) r }, t.2)

/-! ## The arithmetic -/

section Arithmetic

lemma fdcTen_val : ∀ track : Byte, track.toNat < 80 →
    (fdcSector track 0).lo.toNat + 256 * (fdcSector track 0).hi.toNat = 10 * track.toNat ∧
      (fdcSector track 0).hi.toNat ≤ 3 := by
  decide

lemma fdcSector_val {track : Byte} (sector : Byte) (ht : track.toNat < 80) :
    (fdcSector track sector).val = 10 * track.toNat + sector.toNat := by
  obtain ⟨hval, hhi⟩ := fdcTen_val track ht
  -- adding the sector is the last step
  have hzero : ∀ lo : Byte, adc 0 lo false = (lo, false) := by decide
  have hsplit : fdcSector track sector = ⟨(adc sector (fdcSector track 0).lo false).1,
      if (adc sector (fdcSector track 0).lo false).2 then (fdcSector track 0).hi + 1
      else (fdcSector track 0).hi⟩ := by
    simp only [fdcSector, hzero]
    rfl
  have hadd := adc_eq sector (fdcSector track 0).lo false
  have hlow := byte_lt (adc sector (fdcSector track 0).lo false).1
  have hcarry := toNat_bool_le (adc sector (fdcSector track 0).lo false).2
  rw [Bool.toNat_false] at hadd
  rw [hsplit]
  simp only [Num16.val]
  rw [toNat_add_carry (by omega)]
  omega

lemma fdcBase_val (s : State) (x : Byte) (c : Num16) :
    (fdcBase s x c).val = 800 * s.diskIn x + c.val := by
  have hbase := diskBaseSector_val (ror (s.diskHi x) false).2 (s.diskLo x)
  rw [toNat_ror_carry] at hbase
  simp only [fdcBase, Num24.val, Num16.val, State.diskIn] at hbase ⊢
  generalize diskBaseSector (s.diskLo x) (ror (s.diskHi x) false).2 = b at hbase
  have e0 := adc_eq b.lo c.lo false
  have e1 := adc_eq b.mid c.hi (adc b.lo c.lo false).2
  have hlo := byte_lt (s.diskLo x)
  rw [Bool.toNat_false] at e0
  rw [toNat_add_carry (by omega)]
  omega

lemma fdcCount (a : Byte) : (a &&& 0x1f).toNat = a.toNat % 32 := by
  revert a
  decide

/-- The sectors lie on the disk. -/
lemma fdcInside_iff {c : Num16} (hc : c.val ≤ 799) (n : Byte) :
    ((adc 0 c.hi (adc n c.lo false).2).1.toNat < 3 ∨
        (adc 0 c.hi (adc n c.lo false).2).1 = 3 ∧ (adc n c.lo false).1.toNat < 0x21) ↔
      c.val + n.toNat ≤ 800 := by
  have e0 := adc_eq n c.lo false
  have e1 := adc_eq 0 c.hi (adc n c.lo false).2
  have hlo := byte_lt (adc n c.lo false).1
  have hn := byte_lt n
  have hzero : (0 : Byte).toNat = 0 := rfl
  have h3 : (adc 0 c.hi (adc n c.lo false).2).1 = 3 ↔ (adc 0 c.hi (adc n c.lo false).2).1.toNat = 3 :=
    (BitVec.toNat_inj (y := 3)).symm
  rw [Bool.toNat_false] at e0
  rw [Num16.val] at hc ⊢
  rw [h3]
  omega

/-- The select bits, which an odd current drive inverts. -/
lemma fdcSelect_eq (curDrv cmd fdc : Byte) : fdcSelect curDrv cmd fdc
    = if cmd.getLsbD 7 = curDrv.getLsbD 0 then
        if cmd.getLsbD 6 = curDrv.getLsbD 0 then .error 0x10 else .ok (fdc &&& 0x02)
      else if cmd.getLsbD 6 = curDrv.getLsbD 0 then .ok ((fdc &&& 0x02) ||| 0x01)
      else .error 0x1e := by
  have hodd : ∀ a : Byte, (ror a false).2 = a.getLsbD 0 := by decide
  have hseven : ∀ (a : Byte) (k : Bool), (rol a k).2 = a.getLsbD 7 := by decide
  have hsix : ∀ (a : Byte) (k : Bool), (rol a k).1.getLsbD 7 = a.getLsbD 6 := by decide
  have hflip7 : ∀ a : Byte, (a ^^^ 0xc0).getLsbD 7 = !a.getLsbD 7 := by decide
  have hflip6 : ∀ a : Byte, (a ^^^ 0xc0).getLsbD 6 = !a.getLsbD 6 := by decide
  simp only [fdcSelect, hodd, hseven, hsix]
  cases curDrv.getLsbD 0 with
  | false =>
      simp only [Bool.false_eq_true, if_false]
      cases cmd.getLsbD 7 <;> cases cmd.getLsbD 6 <;> rfl
  | true =>
      simp only [if_true, hflip7, hflip6]
      cases cmd.getLsbD 7 <;> cases cmd.getLsbD 6 <;> rfl

end Arithmetic

/-! ## A controller and its disks -/

/-- The number of the disk in each drive, and whether it may be written. -/
abbrev Drives : Type := Byte → Option (ℕ × Bool)

/-- What a program that gives commands to a controller can tell: the sectors of each disk with their bytes,
its own memory, the drive it has chosen and the side. -/
structure Controller where
  sector : ℕ → ℕ → ℕ → Byte
  mem : ℕ → Byte
  drive : Byte
  side : Byte

namespace Controller

/-- The track, the first sector on it, the number of sectors and the address in the block at `p`. -/
structure Transfer where
  track : ℕ
  first : ℕ
  count : ℕ
  ptr : ℕ

/-- A transfer as a block asks for it. -/
def transferAt (c : Controller) (p : ℕ) : Transfer where
  track := (c.mem (p + 7)).toNat
  first := (c.mem (p + 8)).toNat
  count := (c.mem (p + 9)).toNat % 32
  ptr := (c.mem (p + 1)).toNat + 256 * (c.mem (p + 2)).toNat

/-- The number of the first sector on the disk. -/
def Transfer.start (t : Transfer) : ℕ := 10 * t.track + t.first

/-- There are 80 tracks of ten sectors. -/
def Transfer.Inside (t : Transfer) : Prop :=
  t.track < 80 ∧ t.first < 10 ∧ (t.count = 0 ∨ t.start + t.count ≤ 800)

instance (t : Transfer) : Decidable t.Inside := inferInstanceAs (Decidable (_ ∧ _))

/-- Sectors of disk `d` into memory. -/
def readSectors (c : Controller) (d : ℕ) (t : Transfer) : Controller :=
  { c with mem := fun a =>
      if t.ptr ≤ a ∧ a < t.ptr + 256 * t.count then
        c.sector d (t.start + (a - t.ptr) / 256) ((a - t.ptr) % 256)
      else c.mem a }

/-- Memory into sectors of disk `d`. -/
def writeSectors (c : Controller) (d : ℕ) (t : Transfer) : Controller :=
  { c with sector := fun e k b =>
      if e = d ∧ t.start ≤ k ∧ k < t.start + t.count then c.mem (t.ptr + 256 * (k - t.start) + b)
      else c.sector e k b }

variable (tab : Drives)

/-- A transfer with disk `d`. For writing, the disk in the chosen drive must be one that may be written. -/
def transfer (c : Controller) (d : ℕ) (t : Transfer) (write : Bool) : Except Err Byte × Controller :=
  if ¬ t.Inside then (.ok 0x1e, c)
  else if t.count = 0 then (.ok 0, c)
  else if write then
    match tab c.drive with
    | none => (.error .noDisk, c)
    | some (_, false) => (.error .diskReadOnly, c)
    | some (_, true) => (.ok 0, c.writeSectors d t)
  else (.ok 0, c.readSectors d t)

/-- The drive that a command selects; both select bits are inverted in an odd drive. -/
def select (c : Controller) (cmd : Byte) : Except Byte Byte :=
  if cmd.getLsbD 7 = c.drive.getLsbD 0 then
    if cmd.getLsbD 6 = c.drive.getLsbD 0 then .error 0x10 else .ok (c.side &&& 0x02)
  else if cmd.getLsbD 6 = c.drive.getLsbD 0 then .ok ((c.side &&& 0x02) ||| 0x01)
  else .error 0x1e

/-- The command of the block at `p`, whose result goes to byte `k`, for drive `x`: `$13` reads and `$0b`
writes sectors, and others do nothing. -/
def onDrive (c : Controller) (p k : ℕ) (x : Byte) : Except Err Byte × Controller :=
  let cmd := c.mem (p + 6) &&& 0x3f
  let c : Controller := { c with side := x }
  match tab x with
  | none => (.ok 0x10, c)
  | some (d, writable) =>
      if cmd ≠ 0x13 ∧ cmd ≠ 0x0b then (.ok 0, c)
      else if cmd ≠ 0x13 ∧ writable = false then (.ok 0x12, c)
      else if k ≠ 10 then (.ok 0xff, c)
      else c.transfer tab d (c.transferAt p) (cmd ≠ 0x13)

/-- The command of the block at `p`: `$3a` writes a special register, of which `$23` has the side, and any
other is for the drive that it selects. -/
def command (c : Controller) (p k : ℕ) : Except Err Byte × Controller :=
  if c.mem (p + 6) &&& 0x3f = 0x3a then
    (.ok 0,
      if k = 9 ∧ c.mem (p + 7) = 0x23 then { c with side := if c.mem (p + 8) &&& 0x20 = 0 then 0 else 0x02 }
      else c)
  else
    match c.select (c.mem (p + 6)) with
    | .error r => (.ok r, c)
    | .ok x => c.onDrive tab p k x

/-- The drive that the block at `p` names, if it names one. -/
def choose (c : Controller) (p : ℕ) : Controller :=
  if (c.mem p).toNat < 128 then { c with drive := c.mem p &&& 0x03, side := c.mem p &&& 0x03 } else c

/-- The byte of the block at `p` that takes the result. -/
def resultAt (c : Controller) (p : ℕ) : ℕ := ((c.mem (p + 5)).toNat + 7) % 256

/-- A call with the block at `p`: the drive, the command, and the result behind its parameters. -/
def call (c : Controller) (p : ℕ) : Except Err Unit × Controller :=
  let k := c.resultAt p
  match (c.choose p).command tab p k with
  | (.ok r, c) => (.ok (), { c with mem := Function.update c.mem (p + k) r })
  | (.error e, c) => (.error e, c)

/-- The block at `p` has sectors read or written. -/
def Moves (c : Controller) (p : ℕ) : Prop := c.mem (p + 6) &&& 0x3f = 0x13 ∨ c.mem (p + 6) &&& 0x3f = 0x0b

/-- The block at `p` and the memory that sectors are moved to or from are RAM that is left to programs, the
sectors are not those of the catalogue, and those that are read are of disk 0. -/
structure Sensible (c : Controller) (p : ℕ) : Prop where
  block : UserData p 10
  result : UserRam (p + c.resultAt p)
  data : c.Moves p → UserData (c.transferAt p).ptr (256 * (c.transferAt p).count)
  sectors : c.Moves p → 2 ≤ (c.transferAt p).start
  disk : c.mem (p + 6) &&& 0x3f = 0x13 → ∀ x d w, (c.choose p).select (c.mem (p + 6)) = .ok x →
    tab x = some (d, w) → d = 0

end Controller

/-! ## The call behaves as a controller -/

/-- The two copies of the disk numbers agree. -/
def State.TableSound (s : State) : Prop :=
  ∀ x, s.HasDisk x → ~~~ s.diskHi x = s.diskHiInv x ∧ ~~~ s.diskLo x = s.diskLoInv x

/-- What is in the drives. -/
def State.drives (s : State) : Drives := fun x =>
  if x = 0xff ∨ 128 ≤ (s.diskHi x).toNat then none else some (s.diskIn x, decide (s.diskMark x = 0x54))

/-- The filing system and `$0d20` show a controller. -/
structure ShowsFdc (tab : Drives) (c : Controller) (s : State × Byte) : Prop where
  drives : s.1.drives = tab
  table : s.1.TableSound
  mem : c.mem = s.1.mem
  drive : c.drive = s.1.curDrv
  side : c.side = s.2
  sector : ∀ d k b, k < 800 → b < 256 → c.sector d k b = s.1.disk (256 * (800 * d + k) + b)

/-- A run has ended as the controller's has. -/
def EndsAs {α : Type} (tab : Drives) (o : Outcome (State × Byte) Err α)
    (a : Except Err α × Controller) : Prop :=
  match o with
  | .ok r s => a.1 = .ok r ∧ ShowsFdc tab a.2 s
  | .err e s => a.1 = .error e ∧ ShowsFdc tab a.2 s

section Simulation

variable {tab : Drives} {c : Controller} {s : State × Byte} {p : ℕ}

lemma ShowsFdc.withSide (h : ShowsFdc tab c s) (x : Byte) : ShowsFdc tab { c with side := x } (s.1, x) :=
  ⟨h.drives, h.table, h.mem, h.drive, rfl, h.sector⟩

/-- The checks before a write go by what is in the drive. -/
lemma checkWrite_drives (h : s.1.TableSound) (x : Byte) : (checkWrite x).run s.1 =
    match s.1.drives x with
    | none => .err .noDisk s.1
    | some (_, false) => .err .diskReadOnly s.1
    | some (_, true) => .ok () s.1 := by
  rw [checkWrite, Prog.run_bind_ok (Prog.run_get _), State.drives]
  by_cases hno : x = 0xff ∨ 128 ≤ (s.1.diskHi x).toNat
  · rw [if_pos hno, if_pos hno]
    rfl
  · obtain ⟨hhi, hlo⟩ := h x (by rw [State.HasDisk]; omega)
    rw [if_neg hno, if_neg hno, if_neg (by rw [hhi, hlo]; simp)]
    by_cases hmark : s.1.diskMark x = 0x54
    · rw [if_pos hmark]
      simp only [hmark, decide_true]
      rfl
    · rw [if_neg hmark]
      simp only [hmark, decide_false]
      rfl

/-- Sectors that are read. -/
lemma ShowsFdc.readSectors (h : ShowsFdc tab c s) {d : ℕ} {t : Controller.Transfer}
    (ht : t.start + t.count ≤ 800) :
    ShowsFdc tab (c.readSectors d t)
      ({ s.1 with mem := copyBytes s.1.disk (256 * (800 * d + t.start)) t.ptr (256 * t.count) s.1.mem },
        s.2) := by
  refine ⟨h.drives, h.table, ?_, h.drive, h.side, h.sector⟩
  funext a
  simp only [Controller.readSectors, copyBytes, h.mem]
  split_ifs with ha
  · rw [h.sector d _ _ (by omega) (by omega)]
    congr 1
    omega
  · rfl

/-- Sectors that are written. -/
lemma ShowsFdc.writeSectors (h : ShowsFdc tab c s) {d : ℕ} {t : Controller.Transfer}
    (ht : t.start + t.count ≤ 800) :
    ShowsFdc tab (c.writeSectors d t)
      ({ s.1 with disk := copyBytes s.1.mem t.ptr (256 * (800 * d + t.start)) (256 * t.count) s.1.disk },
        s.2) := by
  refine ⟨h.drives, h.table, h.mem, h.drive, h.side, fun e k b hk hb => ?_⟩
  simp only [Controller.writeSectors, copyBytes, h.mem]
  by_cases hin : e = d ∧ t.start ≤ k ∧ k < t.start + t.count
  · obtain ⟨rfl, h1, h2⟩ := hin
    rw [if_pos ⟨rfl, h1, h2⟩, if_pos (by omega)]
    congr 1
    omega
  · rw [if_neg hin, h.sector e k b hk hb, if_neg]
    intro hrange
    refine hin ?_
    have he : e = d := by omega
    subst he
    exact ⟨rfl, by omega, by omega⟩

/-- What moves when a transfer is inside its disk `d`. -/
def moveSectors (d : ℕ) (t : Controller.Transfer) (write : Bool) : Routine Byte := do
  let s ← Prog.get
  if write then do
    checkWrite s.curDrv
    Prog.modify fun s =>
      { s with disk := copyBytes s.mem t.ptr (256 * (800 * d + t.start)) (256 * t.count) s.disk }
    pure 0
  else do
    Prog.modify fun s =>
      { s with mem := copyBytes s.disk (256 * (800 * d + t.start)) t.ptr (256 * t.count) s.mem }
    pure 0

/-- The checks of a transfer are those of the controller. -/
lemma fdcTransfer_run (h : c.mem = s.1.mem) (x : Byte) (write : Bool) :
    (fdcTransfer p x write).run s.1 = if ¬ (c.transferAt p).Inside then .ok 0x1e s.1
      else if (c.transferAt p).count = 0 then .ok 0 s.1
      else (moveSectors (s.1.diskIn x) (c.transferAt p) write).run s.1 := by
  have hcount := fdcCount (s.1.mem (p + 9))
  have htrack : (c.transferAt p).track = (s.1.mem (p + 7)).toNat := by rw [Controller.transferAt, h]
  have hfirst : (c.transferAt p).first = (s.1.mem (p + 8)).toNat := by rw [Controller.transferAt, h]
  have hlen : (c.transferAt p).count = (s.1.mem (p + 9) &&& 0x1f).toNat := by
    rw [Controller.transferAt, h, hcount]
  have hptr : (c.transferAt p).ptr = (wordOf (s.1.mem (p + 1)) (s.1.mem (p + 2))).toNat := by
    rw [Controller.transferAt, h, toNat_wordOf]
  generalize c.transferAt p = t at htrack hfirst hlen hptr ⊢
  set n := s.1.mem (p + 9) &&& 0x1f with hn
  have hzero : n = 0 ↔ t.count = 0 := by rw [hlen, toNat_eq_zero]
  rw [fdcTransfer, Prog.run_bind_ok (Prog.run_get _)]
  by_cases htr : 0x50 ≤ (s.1.mem (p + 7)).toNat
  · have hout : ¬ t.Inside := fun hin => by
      have := hin.1
      omega
    rw [if_pos htr, if_pos hout]
    rfl
  · by_cases hse : 0x0a ≤ (s.1.mem (p + 8)).toNat
    · have hout : ¬ t.Inside := fun hin => by
        have := hin.2.1
        omega
      rw [if_neg htr, if_pos hse, if_pos hout]
      rfl
    · have hval := fdcSector_val (s.1.mem (p + 8)) (Nat.not_le.1 htr)
      rw [← htrack, ← hfirst] at hval
      have hinside := fdcInside_iff (c := fdcSector (s.1.mem (p + 7)) (s.1.mem (p + 8))) (by omega) n
      rw [hval, ← hlen] at hinside
      have hin : t.Inside ↔ t.count = 0 ∨ t.start + t.count ≤ 800 :=
        (and_iff_right (by omega)).trans (and_iff_right (by omega))
      rw [if_neg htr, if_neg hse]
      by_cases hnone : n = 0
      · rw [if_neg (not_not.2 (hin.2 (Or.inl (hzero.1 hnone)))), if_pos (hzero.1 hnone)]
        simp only [← hn, hnone, if_true]
        rfl
      · have hsome : t.count ≠ 0 := mt hzero.2 hnone
        by_cases hfit : t.start + t.count ≤ 800
        · have hsector : 256 * (fdcBase s.1 x (fdcSector (s.1.mem (p + 7)) (s.1.mem (p + 8)))).val
              = 256 * (800 * s.1.diskIn x + t.start) := by
            rw [fdcBase_val, hval, Controller.Transfer.start]
          rw [if_neg (not_not.2 (hin.2 (Or.inr hfit))), if_neg hsome, moveSectors,
            Prog.run_bind_ok (Prog.run_get _)]
          simp only [← hn, hnone, if_false, hinside.2 hfit, if_true, hsector, ← hptr, ← hlen]
        · have hout : ¬ t.Inside := fun h => (hin.1 h).elim hsome hfit
          rw [if_pos hout]
          simp only [← hn, hnone, if_false, mt hinside.1 hfit]
          rfl

/-- The sectors move as the controller moves them. -/
lemma moveSectors_ends (h : ShowsFdc tab c s) {d : ℕ} {t : Controller.Transfer}
    (hin : t.Inside) (hsome : t.count ≠ 0) (write : Bool) :
    EndsAs tab ((Prog.beside (moveSectors d t write)).run s) (c.transfer tab d t write) := by
  have hfit : t.start + t.count ≤ 800 := hin.2.2.resolve_left hsome
  rw [Controller.transfer, if_neg (not_not.2 hin), if_neg hsome]
  cases write with
  | false =>
      have hrun : (moveSectors d t false).run s.1 = .ok 0 { s.1 with
          mem := copyBytes s.1.disk (256 * (800 * d + t.start)) t.ptr (256 * t.count) s.1.mem } := rfl
      rw [Prog.run_beside_ok hrun]
      exact ⟨rfl, h.readSectors hfit⟩
  | true =>
      have hrun : (moveSectors d t true).run s.1 = (do
          checkWrite s.1.curDrv
          Prog.modify fun u => { u with
            disk := copyBytes u.mem t.ptr (256 * (800 * d + t.start)) (256 * t.count) u.disk }
          pure 0 : Routine Byte).run s.1 := rfl
      have hcheck := checkWrite_drives h.table s.1.curDrv
      rw [h.drives, ← h.drive] at hcheck
      rw [← h.drive] at hrun
      rcases htab : tab c.drive with _ | ⟨_, _ | _⟩
      · rw [htab] at hcheck
        rw [Prog.run_beside_err (hrun.trans (Prog.run_bind_err hcheck))]
        exact ⟨rfl, h⟩
      · rw [htab] at hcheck
        rw [Prog.run_beside_err (hrun.trans (Prog.run_bind_err hcheck))]
        exact ⟨rfl, h⟩
      · rw [htab] at hcheck
        rw [Prog.run_beside_ok (hrun.trans (Prog.run_bind_ok hcheck))]
        exact ⟨rfl, h.writeSectors hfit⟩

/-- The transfer. -/
lemma fdcTransfer_ends (h : ShowsFdc tab c s) (x : Byte) (write : Bool) :
    EndsAs tab ((Prog.beside (fdcTransfer p x write)).run s)
      (c.transfer tab (s.1.diskIn x) (c.transferAt p) write) := by
  have hrun := fdcTransfer_run (p := p) h.mem x write
  by_cases hin : (c.transferAt p).Inside
  · by_cases hnone : (c.transferAt p).count = 0
    · rw [if_neg (not_not.2 hin), if_pos hnone] at hrun
      rw [Prog.run_beside_ok hrun, Controller.transfer, if_neg (not_not.2 hin), if_pos hnone]
      exact ⟨rfl, h⟩
    · rw [if_neg (not_not.2 hin), if_neg hnone] at hrun
      have hmove := moveSectors_ends h (d := s.1.diskIn x) hin hnone write
      rw [Prog.run_beside_congr hrun]
      exact hmove
  · rw [if_pos hin] at hrun
    rw [Prog.run_beside_ok hrun, Controller.transfer, if_pos hin]
    exact ⟨rfl, h⟩

/-- The command when a drive has been chosen. -/
lemma fdcOnDrive_ends (h : ShowsFdc tab c s) (be : Byte) {x : Byte} (hx : x ≠ 0xff) :
    EndsAs tab ((fdcOnDrive p be x).run s) (c.onDrive tab p be.toNat x) := by
  have h10 : be = 0x0a ↔ be.toNat = 10 := (BitVec.toNat_inj (y := 10)).symm
  have hside := h.withSide x
  have hcmd : c.mem (p + 6) = s.1.mem (p + 6) := congrFun h.mem _
  have hdrives : tab x = s.1.drives x := congrFun h.drives.symm x
  rw [fdcOnDrive, Prog.run_bind_ok (Prog.run_modify _ _), Prog.run_bind_ok (Prog.run_get _),
    Controller.onDrive, hcmd,
    hdrives, State.drives]
  by_cases hdisk : 128 ≤ (s.1.diskHi x).toNat
  · rw [if_pos hdisk, if_pos (Or.inr hdisk)]
    exact ⟨rfl, hside⟩
  · rw [if_neg hdisk, if_neg (not_or.2 ⟨hx, hdisk⟩)]
    simp only [decide_eq_false_iff_not, ne_eq, ← h10]
    split_ifs with hother hmark hbe
    · exact ⟨rfl, hside⟩
    · exact ⟨rfl, hside⟩
    · exact fdcTransfer_ends hside x _
    · exact ⟨rfl, hside⟩

/-- The command. -/
lemma fdcCommand_ends (h : ShowsFdc tab c s) (be : Byte) :
    EndsAs tab ((fdcCommand p be).run s) (c.command tab p be.toNat) := by
  have h9 : be = 0x09 ↔ be.toNat = 9 := (BitVec.toNat_inj (y := 9)).symm
  have hcmd : c.mem (p + 6) = s.1.mem (p + 6) := congrFun h.mem _
  have hreg : c.mem (p + 7) = s.1.mem (p + 7) := congrFun h.mem _
  have hval : c.mem (p + 8) = s.1.mem (p + 8) := congrFun h.mem _
  rw [fdcCommand, Prog.run_bind_ok (Prog.run_get _), Controller.command, hcmd]
  by_cases hspecial : s.1.mem (p + 6) &&& 0x3f = 0x3a
  · rw [if_pos hspecial, if_pos hspecial, hreg, hval]
    by_cases hside : be = 0x09 ∧ s.1.mem (p + 7) = 0x23
    · rw [if_pos ⟨h9.1 hside.1, hside.2⟩, Prog.when, if_pos hside]
      exact ⟨rfl, h.withSide _⟩
    · rw [if_neg fun hk => hside ⟨h9.2 hk.1, hk.2⟩, Prog.when, if_neg hside]
      exact ⟨rfl, h⟩
  · have hlow : ∀ a : Byte, a &&& 0x02 ≠ 0xff ∧ (a &&& 0x02) ||| 0x01 ≠ 0xff := by decide
    rw [if_neg hspecial, if_neg hspecial, fdcSelect_eq, Controller.select, h.drive, h.side]
    split_ifs with h7 h6 h6
    · exact ⟨rfl, h⟩
    · exact fdcOnDrive_ends h be (hlow _).1
    · exact fdcOnDrive_ends h be (hlow _).2
    · exact ⟨rfl, h⟩

/-- The result behind the parameters. -/
lemma fdcResult_ends (h : ShowsFdc tab c s) (be : Byte) :
    EndsAs tab ((do
        let r ← fdcCommand p be
        Prog.modify fun t =>
          ({ t.1 with mem := Function.update t.1.mem (p + be.toNat) r }, t.2) : FdcProg Unit).run s)
      (match c.command tab p be.toNat with
        | (.ok r, c) => (.ok (), { c with mem := Function.update c.mem (p + be.toNat) r })
        | (.error e, c) => (.error e, c)) := by
  have hcommand := fdcCommand_ends (p := p) h be
  rcases hc : c.command tab p be.toNat with ⟨a, c'⟩
  rw [hc] at hcommand
  rcases hrun : (fdcCommand p be).run s with ⟨r, t⟩ | ⟨e, t⟩
  · rw [hrun] at hcommand
    obtain ⟨rfl, ht⟩ : a = .ok r ∧ ShowsFdc tab c' t := hcommand
    rw [Prog.run_bind_ok hrun]
    exact ⟨rfl, ht.drives, ht.table, congrArg (fun m => Function.update m (p + be.toNat) r) ht.mem, ht.drive,
      ht.side, ht.sector⟩
  · rw [hrun] at hcommand
    obtain ⟨rfl, ht⟩ : a = .error e ∧ ShowsFdc tab c' t := hcommand
    rw [Prog.run_bind_err hrun]
    exact ⟨rfl, ht⟩

/-- The call. -/
lemma mmcOsword7f_ends (h : ShowsFdc tab c s) (p : ℕ) :
    EndsAs tab ((mmcOsword7f p).run s) (c.call tab p) := by
  have hbe : ∀ a : Byte, (adc 0x07 a false).1.toNat = (a.toNat + 7) % 256 := by decide
  have hdrive : c.mem p = s.1.mem p := congrFun h.mem _
  have hcount : c.mem (p + 5) = s.1.mem (p + 5) := congrFun h.mem _
  rw [mmcOsword7f, Prog.run_bind_ok (Prog.run_get _), Controller.call, Controller.choose, Controller.resultAt,
    hdrive, hcount, ← hbe]
  by_cases hnew : (s.1.mem p).toNat < 128
  · have hchosen : ShowsFdc tab { c with drive := s.1.mem p &&& 0x03, side := s.1.mem p &&& 0x03 }
        ({ s.1 with curDrv := s.1.mem p &&& 0x03 }, s.1.mem p &&& 0x03) :=
      ⟨h.drives, h.table, h.mem, rfl, rfl, h.sector⟩
    rw [Prog.when, if_pos hnew, if_pos hnew, Prog.run_bind_ok (Prog.run_modify _ _)]
    exact fdcResult_ends hchosen _
  · rw [Prog.when, if_neg hnew, if_neg hnew]
    exact fdcResult_ends h _

end Simulation

/-- The controller that a program finds. -/
def State.controller (s : State) (fdc : Byte) : Controller where
  sector := fun d k b => s.disk (256 * (800 * d + k) + b)
  mem := s.mem
  drive := s.curDrv
  side := fdc

/-- **OSWORD `$7f` is a floppy disk controller.**  When the two copies of the disk numbers agree, every
sequence of calls, with any parameter blocks in the memory of programs, is answered as a controller answers it
whose disks have 80 tracks of ten sectors: with the results that it would give, with the errors of a disk that
may not be written, and with the sectors and the memory that it would leave. -/
theorem mmcOsword7f_refines (s : State) (fdc : Byte) (h : s.TableSound) (l : List ℕ)
    (hl : Calls.Allowed (Controller.Sensible s.drives) (fun c p => Controller.call s.drives c p) l
      (s.controller fdc)) :
    (Calls.answers mmcOsword7f l (s, fdc)).1
        = (Calls.replies (fun c p => Controller.call s.drives c p) l (s.controller fdc)).1 ∧
      ShowsFdc s.drives (Calls.replies (fun c p => Controller.call s.drives c p) l (s.controller fdc)).2
        (Calls.answers mmcOsword7f l (s, fdc)).2 := by
  have hcall : Calls.Simulates mmcOsword7f (Controller.Sensible s.drives)
      (fun c p => Controller.call s.drives c p) (ShowsFdc s.drives) := by
    intro c t p hshows _
    have hends := mmcOsword7f_ends hshows p
    rcases hrun : (mmcOsword7f p).run t with ⟨⟨⟩, u⟩ | ⟨e, u⟩
    · rw [hrun] at hends
      rw [Calls.answer_ok hrun]
      exact ⟨hends.1.symm, hends.2⟩
    · rw [hrun] at hends
      rw [Calls.answer_err hrun]
      exact ⟨hends.1.symm, hends.2⟩
  exact hcall.run l ⟨rfl, h, rfl, rfl, rfl, fun _ _ _ _ _ => rfl⟩ hl

/-- A block at `$2000` that has sector 3 of track 1, with a byte `$77`, read to `$1900`. -/
def readBlockState : State :=
  { stateWithDisk 0 0 with
    disk := fun a => if a = 256 * 13 then 0x77 else 0
    mem := fun a =>
      if a = 0x2002 then 0x19
      else if a = 0x2005 then 3
      else if a = 0x2006 then 0x53
      else if a = 0x2007 then 1
      else if a = 0x2008 then 3
      else if a = 0x2009 then 0x21
      else if a = 0x200a then 0xff
      else 0 }

lemma readBlockState_sensible : Calls.Allowed (Controller.Sensible readBlockState.drives)
    (fun c p => Controller.call readBlockState.drives c p) [0x2000] (readBlockState.controller 0) := by
  refine ⟨⟨by decide, by decide, fun _ => by decide +kernel, fun _ => by decide, fun _ x d w _ htab => ?_⟩, trivial⟩
  simp only [State.drives] at htab
  split_ifs at htab
  cases htab
  rfl

theorem readBlockState_refines :
    (Calls.answers mmcOsword7f [0x2000] (readBlockState, 0)).1
        = (Calls.replies (fun c p => Controller.call readBlockState.drives c p) [0x2000]
          (readBlockState.controller 0)).1 ∧
      ShowsFdc readBlockState.drives
        (Calls.replies (fun c p => Controller.call readBlockState.drives c p) [0x2000]
          (readBlockState.controller 0)).2
        (Calls.answers mmcOsword7f [0x2000] (readBlockState, 0)).2 ∧
      (Calls.answers mmcOsword7f [0x2000] (readBlockState, 0)).2.1.mem 0x1900 = 0x77 ∧
      (Calls.answers mmcOsword7f [0x2000] (readBlockState, 0)).2.1.mem 0x200a = 0 := by
  obtain ⟨hanswers, hshows⟩ :=
    mmcOsword7f_refines readBlockState 0 (fun _ _ => ⟨rfl, rfl⟩) [0x2000] readBlockState_sensible
  exact ⟨hanswers, hshows, by decide +kernel, by decide +kernel⟩

end Udfs.Rom
