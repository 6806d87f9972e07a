import Udfs.Rom.State
import Udfs.Server.Independence

/-!
# Block requests

`$aad6` turns a file's place on its disk into the sector registers, and
`mmc_read_block` turns those into a request to the server.  The sector number is formed
as 24 bits from the disk number, the bound is checked on the sector within the disk, and
sixteen bits of the number are sent, of which the server keeps ten.  The last section
compares the two ends.
-/

namespace Udfs.Rom

open Udfs.Server (Request Response DiskImage)

/-! ## The sector registers -/

/-- `$aa87`: the first sector of a disk, from the disk number in C and A. -/
def diskBaseSector (a : Byte) (c : Bool) : Num24 :=
  -- lda #$00, rol, sta sector+2
  let top := (rol 0 c).1
  -- txa, asl, rol sector+2
  let (s1, c1) := asl a
  let (s2, c2) := rol top c1
  -- txa, adc sector+1
  let (s1, c3) := adc a s1 c2
  -- pla, adc #$00, adc sector+2
  let (t, c4) := adc top 0 c3
  let (s2, c5) := adc t s2 c4
  -- ror sector; txa, plp, ror, ror sector
  let (s0, _) := ror 0 c5
  let (t, c6) := ror a c
  let (s0, _) := ror s0 c6
  -- twice lsr, ror sector
  let (t, c7) := lsr t
  let (s0, _) := ror s0 c7
  let (t, c8) := lsr t
  let (s0, c9) := ror s0 c8
  -- adc sector+1, and the carry into sector+2
  let (s1, c10) := adc t s1 c9
  let (s2, _) := adc s2 0 c10
  ⟨s0, s1, s2⟩

/-- `$aa7e`: the first sector of the disk in drive `x`. -/
def drvBaseSector (x : Byte) : Routine Num24 := do
  let s ← Prog.get
  if 128 ≤ (s.diskHi x).toNat then Prog.fail .noDisk
  else pure (diskBaseSector (s.diskLo x) (ror (s.diskHi x) false).2)

/-- The file block at `$be` … `$c5` as the block routines read it. -/
structure BlockReq where
  be : Byte
  bf : Byte
  c2 : Byte
  c3 : Byte
  c4 : Byte
  c5 : Byte

/-- `sector` … `sector+2`, `sector_count`, `bytes_last_sector` and `data_ptr`. -/
structure BlockRegs where
  sector : Num24
  sectorCount : Byte
  bytesLastSector : Byte
  dataPtr : Word

/-- `$aad6`: set the registers up and check the request against the disk. -/
def blockSetup (r : BlockReq) : Routine BlockRegs := do
  let s ← Prog.get
  let base ← drvBaseSector s.curDrv
  let (s0, c) := adc r.c5 base.lo false
  let top := r.c4 &&& 3
  let (s1, c) := adc top base.mid c
  let s2 := if c then base.hi + 1 else base.hi
  if lsr4And3 r.c4 ≠ 0 then Prog.fail .blockTooBig
  -- inc sector_count for a part sector; a count that wraps is too big
  else if r.c2 ≠ 0 ∧ r.c3 + 1 = 0 then Prog.fail .blockTooBig
  else
    let count := if r.c2 = 0 then r.c3 else r.c3 + 1
    let (x, c) := adc r.c5 count false
    let (t, _) := adc top 0 c
    -- the sector after the last, in t and x, against $0320
    if t.toNat < 3 ∨ t = 3 ∧ x.toNat < 0x21 then
      pure ⟨⟨s0, s1, s2⟩, count, r.c2, wordOf r.be r.bf⟩
    else Prog.fail .diskOverflow

/-- `mmc_read_block`: the request that is sent for the sector registers. -/
def readBlockRequest (b : BlockRegs) : Request where
  hdr := ⟨0, 1, 0, 0, wordOf 4 0⟩
  body := [b.sector.lo, b.sector.mid, b.bytesLastSector,
    if b.bytesLastSector = 0 then b.sectorCount else b.sectorCount - 1]
  body_length := rfl

/-- Bytes stored at consecutive addresses, the address wrapping at sixteen bits. -/
def storeBytes (mem : ℕ → Byte) (p : ℕ) : List Byte → ℕ → Byte
  | [] => mem
  | v :: l => storeBytes (Function.update mem (p % 65536) v) (p + 1) l

/-- `mmc_load_mem_block` over a link to the server; `none` when no response comes. -/
def mmcLoadMemBlock (link : Request → Option Response) (r : BlockReq) (s : State) :
    Option (Outcome State Err Unit) :=
  match (blockSetup r).run s with
  | .err e s' => some (.err e s')
  | .ok b s' => (link (readBlockRequest b)).map fun rsp =>
      .ok () { s' with mem := storeBytes s'.mem b.dataPtr.toNat rsp.body }

/-! ## What the arithmetic computes -/

/-- The number of the disk in a drive. -/
def State.diskIn (s : State) (d : Byte) : ℕ := 256 * ((s.diskHi d).toNat % 2) + (s.diskLo d).toNat

/-- The number of the disk in the current drive, as `$aa7e` reads it: nine bits. -/
def State.diskNumber (s : State) : ℕ :=
  256 * ((s.diskHi s.curDrv).toNat % 2) + (s.diskLo s.curDrv).toNat

namespace BlockReq

/-- The start sector within the disk: `$c5` and the low two bits of `$c4`. -/
def start (r : BlockReq) : ℕ := 256 * (r.c4.toNat % 4) + r.c5.toNat

/-- The byte length `$c3:$c2`. -/
def byteLength (r : BlockReq) : ℕ := 256 * r.c3.toNat + r.c2.toNat

/-- The destination `$bf:$be`. -/
def dest (r : BlockReq) : ℕ := r.be.toNat + 256 * r.bf.toNat

end BlockReq

/-- The sectors that `n` bytes take. -/
def sectorsOf (n : ℕ) : ℕ := (n + 255) / 256

/-- The carry chains of `$aa87` multiply the disk number by 800. -/
lemma diskBaseSector_val : ∀ (c : Bool) (a : Byte),
    (diskBaseSector a c).val = 800 * (256 * c.toNat + a.toNat) := by
  decide +kernel

lemma lsr4And3_toNat (a : Byte) : (lsr4And3 a).toNat = a.toNat / 16 % 4 := by
  revert a
  decide

lemma toNat_ror_carry (a : Byte) : (ror a false).2.toNat = a.toNat % 2 := by
  have h := ror_eq a false
  have := toNat_bool_le (ror a false).2
  simp only [Bool.toNat_false] at h
  omega

/-- Drive `x` has a disk in it. -/
def State.HasDisk (s : State) (x : Byte) : Prop := (s.diskHi x).toNat < 128

instance (s : State) (x : Byte) : Decidable (s.HasDisk x) := inferInstanceAs (Decidable (_ < _))

lemma drvBaseSector_spec (x : Byte) (s : State) :
    Prog.wp (drvBaseSector x)
      (fun b s' => s' = s ∧ s.HasDisk x ∧
        b.val = 800 * (256 * ((s.diskHi x).toNat % 2) + (s.diskLo x).toNat))
      (fun e s' => s' = s ∧ ¬ s.HasDisk x ∧ e = .noDisk) s := by
  simp only [drvBaseSector, Prog.wp_bind, Prog.wp_get, Prog.wp_ite, Prog.wp_fail, Prog.wp_pure,
    true_and, and_true]
  refine ⟨fun h => Nat.not_lt.2 h, fun h => ⟨Nat.not_le.1 h, ?_⟩⟩
  rw [diskBaseSector_val, toNat_ror_carry]

/-- What holds of the registers of a request that the checks let through. -/
structure BlockSetupOk (r : BlockReq) (s : State) (b : BlockRegs) : Prop where
  sector_val : b.sector.val = 800 * s.diskNumber + r.start
  sectorCount_eq : b.sectorCount.toNat = sectorsOf r.byteLength
  bytesLastSector_eq : b.bytesLastSector = r.c2
  dataPtr_eq : b.dataPtr.toNat = r.dest
  inside : r.start + sectorsOf r.byteLength ≤ 800

/-- The part sector at the end counts as one. -/
lemma sectorsOf_split (q m : Byte) :
    sectorsOf (256 * q.toNat + m.toNat) = if m = 0 then q.toNat else q.toNat + 1 := by
  have hm := byte_lt m
  simp only [sectorsOf, ← toNat_eq_zero]
  split <;> omega

lemma toNat_sectorCount {r : BlockReq} (hwrap : ¬ (r.c2 ≠ 0 ∧ r.c3 + 1 = 0)) :
    (if r.c2 = 0 then r.c3 else r.c3 + 1).toNat = sectorsOf r.byteLength := by
  rw [BlockReq.byteLength, sectorsOf_split]
  by_cases h0 : r.c2 = 0
  · simp only [h0, if_true]
  · simp only [h0, if_false]
    exact toNat_add_one fun h1 => hwrap ⟨h0, h1⟩

lemma blockSetup_spec (r : BlockReq) (s : State) :
    Prog.wp (blockSetup r) (fun b s' => s' = s ∧ BlockSetupOk r s b) (fun _ s' => s' = s) s := by
  simp only [blockSetup, Prog.wp_bind, Prog.wp_get]
  refine Prog.wp_mono (drvBaseSector_spec s.curDrv s) ?_ fun e s' h => h.1
  rintro base s' ⟨rfl, -, hbase⟩
  simp only [Prog.wp_ite, Prog.wp_fail, Prog.wp_pure, implies_true, true_and, and_true]
  intro _ hwrap hle
  have hcount := toNat_sectorCount hwrap
  generalize (if r.c2 = 0 then r.c3 else r.c3 + 1) = k at hcount hle ⊢
  have h0 : (0 : Byte).toNat = 0 := rfl
  have h3 : ∀ t : Byte, t = 3 ↔ t.toNat = 3 := fun t => (BitVec.toNat_inj (y := 3)).symm
  have hlo := byte_lt r.c5
  have hdn := byte_lt (s'.diskLo s'.curDrv)
  have hlast := byte_lt (adc r.c5 k false).1
  -- one chain adds the base to the start, the other the count
  have e1 := adc_eq r.c5 base.lo false
  have e2 := adc_eq (r.c4 &&& 3) base.mid (adc r.c5 base.lo false).2
  have e3 := adc_eq r.c5 k false
  have e4 := adc_eq (r.c4 &&& 3) 0 (adc r.c5 k false).2
  have hc3 := toNat_bool_le (adc r.c5 k false).2
  rw [toNat_and_three, h0] at e4
  rw [toNat_and_three] at e2
  rw [Num24.val] at hbase
  rw [h3] at hle
  refine ⟨?_, hcount, rfl, ?_, ?_⟩
  · simp only [Num24.val, State.diskNumber, BlockReq.start]
    rw [toNat_add_carry (by omega)]
    simp only [Bool.toNat_false] at e1
    omega
  · rw [toNat_wordOf]
    rfl
  · simp only [BlockReq.start]
    simp only [Bool.toNat_false] at e3
    omega

/-- A request for whole sectors that lie on the disk is let through. -/
lemma blockSetup_run {r : BlockReq} {s : State} (hdisk : s.HasDisk s.curDrv) (h2 : r.c2 = 0)
    (h4 : r.c4.toNat < 4) (hin : r.start + r.c3.toNat ≤ 800) :
    ∃ b, (blockSetup r).run s = .ok b s ∧ BlockSetupOk r s b := by
  have hno : Prog.wp (blockSetup r) (fun _ _ => True) (fun _ _ => False) s := by
    simp only [blockSetup, Prog.wp_bind, Prog.wp_get]
    refine Prog.wp_mono (drvBaseSector_spec s.curDrv s) ?_ fun e s' h => h.2.1 hdisk
    rintro base s' ⟨rfl, -, -⟩
    have h0 : (0 : Byte).toNat = 0 := rfl
    have h3 : (adc (r.c4 &&& 3) 0 (adc r.c5 r.c3 false).2).1 = 3 ↔
        (adc (r.c4 &&& 3) 0 (adc r.c5 r.c3 false).2).1.toNat = 3 :=
      (BitVec.toNat_inj (y := 3)).symm
    have hlsr : lsr4And3 r.c4 = 0 := by
      have hall : ∀ a : Byte, a.toNat < 4 → lsr4And3 a = 0 := by decide
      exact hall r.c4 h4
    have e3 := adc_eq r.c5 r.c3 false
    have e4 := adc_eq (r.c4 &&& 3) 0 (adc r.c5 r.c3 false).2
    have hc3 := toNat_bool_le (adc r.c5 r.c3 false).2
    have hlast := byte_lt (adc r.c5 r.c3 false).1
    rw [toNat_and_three, h0] at e4
    simp only [Bool.toNat_false] at e3
    simp only [BlockReq.start] at hin
    simp only [Prog.wp_ite, Prog.wp_fail, Prog.wp_pure, hlsr, h2, if_true, h3, ne_eq,
      not_true_eq_false, false_and, false_imp_iff, not_false_eq_true, true_and, true_imp_iff,
      implies_true]
    omega
  obtain ⟨b, s', hrun, ⟨rfl, hb⟩, -⟩ :=
    Prog.exists_ok (Prog.wp_and (blockSetup_spec r s) hno) fun _ _ h => h.2
  exact ⟨b, hrun, hb⟩

/-! ## What the link carries -/

/-- A link that carries messages faithfully: every response is the server's own. -/
def faithfulLink (img : DiskImage) (m : Server.Memory) (f : Server.Files) (q : Request) :
    Option Response :=
  (Server.respond img m q f).toOption

lemma storeBytes_of_ne (l : List Byte) :
    ∀ (mem : ℕ → Byte) (p a : ℕ), (∀ j < l.length, a ≠ (p + j) % 65536) →
      storeBytes mem p l a = mem a := by
  induction l with
  | nil => intro mem p a _; rfl
  | cons v l ih =>
      intro mem p a hne
      have hhead : a ≠ p % 65536 := by simpa using hne 0 (by simp)
      rw [storeBytes, ih _ (p + 1) a, Function.update_of_ne hhead]
      intro j hj
      have := hne (j + 1) (by simpa using hj)
      rwa [show p + (j + 1) = p + 1 + j by omega] at this

/-- A run of at most 65536 bytes stored from `p` on is read back, whatever wraps. -/
lemma storeBytes_apply (l : List Byte) :
    ∀ (mem : ℕ → Byte) (p i : ℕ) (h : i < l.length), l.length ≤ 65536 →
      storeBytes mem p l ((p + i) % 65536) = l[i] := by
  induction l with
  | nil => intro mem p i h; exact absurd h (Nat.not_lt_zero i)
  | cons v l ih =>
      intro mem p i h hlen
      simp only [List.length_cons] at h hlen
      rw [storeBytes]
      cases i with
      | zero =>
          -- the bytes after the first do not come round to it
          rw [storeBytes_of_ne _ _ _ _ fun j hj => by omega, Nat.add_zero, Function.update_self]
          rfl
      | succ i =>
          rw [show p + (i + 1) = p + 1 + i by omega, ih _ (p + 1) i (by omega) (by omega)]
          rfl

/-- The count byte that is sent is the number of whole sectors. -/
lemma blockBytes_readBlockRequest {r : BlockReq} {s : State} {b : BlockRegs}
    (h : BlockSetupOk r s b) :
    Server.blockBytes b.bytesLastSector
      (if b.bytesLastSector = 0 then b.sectorCount else b.sectorCount - 1) = r.byteLength := by
  have hcount := h.sectorCount_eq
  rw [BlockReq.byteLength, sectorsOf_split] at hcount
  rw [h.bytesLastSector_eq, Server.blockBytes, BlockReq.byteLength]
  by_cases h0 : r.c2 = 0
  · rw [if_pos h0] at hcount ⊢
    rw [hcount]
  · rw [if_neg h0] at hcount ⊢
    have h1 : (1 : Byte).toNat = 1 := rfl
    have hlt := byte_lt b.sectorCount
    rw [BitVec.toNat_sub, h1]
    omega

/-- The server keeps ten bits of the sector number. -/
lemma blockNumber_sector (n : Num24) : Server.blockNumber n.lo n.mid = n.val % 1024 := by
  have hlo := byte_lt n.lo
  have hand : (n.mid &&& 0x03).toNat = n.mid.toNat % 4 := toNat_and_three n.mid
  rw [Server.blockNumber, hand, Num24.val]
  omega

lemma blockResponse_body (img : DiskImage) {b0 b1 b2 b3 : Byte} {n k : ℕ}
    (hn : Server.blockBytes b2 b3 = n) (hk : Server.blockNumber b0 b1 = k) :
    (Server.blockResponse img b0 b1 b2 b3).toOption.map Response.body
      = if Server.InImage (256 * k) n then
          some ((List.range n).map fun i => img.byteAt (256 * k + i))
        else none := by
  subst hn hk
  rw [Server.blockResponse]
  split <;> rfl

/-! ## Loading a block -/

/-- The sectors of the request lie inside the image. -/
def BlockReq.Inside (r : BlockReq) (sector : ℕ) : Prop :=
  r.byteLength = 0 ∨ sector + sectorsOf r.byteLength ≤ 800

instance (r : BlockReq) (sector : ℕ) : Decidable (r.Inside sector) :=
  inferInstanceAs (Decidable (_ ∨ _))

/-- A load from `sector` either leaves the bytes of the image from there on at the destination,
or reports an error when they are not inside the image.  No response at all is neither. -/
def Delivers (img : DiskImage) (r : BlockReq) (sector : ℕ) :
    Option (Outcome State Err Unit) → Prop
  | some (.ok _ s) => r.Inside sector ∧
      ∀ i < r.byteLength, s.mem ((r.dest + i) % 65536) = img.byteAt (256 * sector + i)
  | some (.err _ _) => ¬ r.Inside sector
  | none => False

/-- What a load does once the checks let it through: the server is asked for the sector
modulo 1024, and delivers from there unless that runs off its image. -/
lemma mmcLoadMemBlock_eq {r : BlockReq} {s s' : State} {b : BlockRegs}
    (hpass : (blockSetup r).run s = .ok b s') (img : DiskImage) (m : Server.Memory)
    (f : Server.Files) :
    mmcLoadMemBlock (faithfulLink img m f) r s
      = if Server.InImage (256 * (b.sector.val % 1024)) r.byteLength then
          some (.ok () { s with mem := storeBytes s.mem r.dest ((List.range r.byteLength).map
            fun i => img.byteAt (256 * (b.sector.val % 1024) + i)) })
        else none := by
  obtain ⟨rfl, hb⟩ := (Prog.wp_of_ok hpass).1 (blockSetup_spec r s)
  have hresp : (faithfulLink img m f (readBlockRequest b)).map Response.body
      = if Server.InImage (256 * (b.sector.val % 1024)) r.byteLength then
          some ((List.range r.byteLength).map
            fun i => img.byteAt (256 * (b.sector.val % 1024) + i))
        else none := by
    rw [faithfulLink, Server.respond_readBlock img m f rfl rfl]
    exact blockResponse_body img (blockBytes_readBlockRequest hb) (blockNumber_sector b.sector)
  have hload : mmcLoadMemBlock (faithfulLink img m f) r s'
      = ((faithfulLink img m f (readBlockRequest b)).map Response.body).map fun body =>
          .ok () { s' with mem := storeBytes s'.mem r.dest body } := by
    rw [mmcLoadMemBlock, hpass, ← hb.dataPtr_eq, Option.map_map]
    rfl
  rw [hload, hresp]
  split <;> rfl

/-- A request that is let through is never answered with an error afterwards. -/
lemma Delivers.inside {r : BlockReq} {s s' : State} {b : BlockRegs} {img : DiskImage}
    {m : Server.Memory} {f : Server.Files} {sector : ℕ}
    (hpass : (blockSetup r).run s = .ok b s')
    (h : Delivers img r sector (mmcLoadMemBlock (faithfulLink img m f) r s)) :
    r.Inside sector := by
  rw [mmcLoadMemBlock_eq hpass] at h
  split at h
  · exact h.1
  · exact h.elim

/-- **A load delivers the blocks of the sector it computed exactly on disk 0.**  For every
drive table and every request that the checks let through, `mmc_load_mem_block` leaves the
bytes of the image from `sector` on at the destination, or reports that they are not there,
if and only if the disk in the drive is disk 0 or the request is for no bytes. -/
theorem mmcLoadMemBlock_delivers_iff (img : DiskImage) (m : Server.Memory) (f : Server.Files)
    {r : BlockReq} {s s' : State} {b : BlockRegs} (hpass : (blockSetup r).run s = .ok b s') :
    Delivers img r b.sector.val (mmcLoadMemBlock (faithfulLink img m f) r s) ↔
      s.diskNumber = 0 ∨ r.byteLength = 0 := by
  obtain ⟨rfl, hb⟩ := (Prog.wp_of_ok hpass).1 (blockSetup_spec r s)
  have hsector := hb.sector_val
  have hinside := hb.inside
  have hlen : r.byteLength < 65536 := by
    have := byte_lt r.c2
    have := byte_lt r.c3
    rw [BlockReq.byteLength]
    omega
  by_cases hgood : s'.diskNumber = 0 ∨ r.byteLength = 0
  · refine iff_of_true ?_ hgood
    have hin : Server.InImage (256 * (b.sector.val % 1024)) r.byteLength := by
      simp only [Server.InImage, Server.imageSize, sectorsOf] at hinside ⊢
      omega
    rw [mmcLoadMemBlock_eq hpass, if_pos hin]
    refine ⟨by rw [BlockReq.Inside]; omega, fun i hi => ?_⟩
    -- on disk 0 the ten bits that are kept are the whole number
    have hmod : b.sector.val % 1024 = b.sector.val := by omega
    have hstore := storeBytes_apply ((List.range r.byteLength).map fun i =>
      img.byteAt (256 * (b.sector.val % 1024) + i)) s'.mem r.dest i (by simpa using hi)
      (by simpa using hlen.le)
    simpa [hmod] using hstore
  · refine iff_of_false (mt (Delivers.inside hpass) ?_) hgood
    simp only [BlockReq.Inside, sectorsOf]
    omega

/-- A state with the given disk in the drives and zeros elsewhere. -/
def stateWithDisk (lo hi : Byte) : State where
  mem := fun _ => 0
  cat := fun _ => 0
  filenameParam := fun _ => 0
  curDrv := 0
  curDrvCat := 0
  defDir := 0
  defDrv := 0
  catEntry := 0
  wildcard := 0
  inUse := 0
  freeBit := 0
  chanOff := 0
  chanEntry := 0
  chan := fun _ => ⟨fun _ => 0, fun _ => 0, ⟨0, 0, 0⟩, 0, ⟨0, 0, 0⟩, 0, ⟨0, 0, 0⟩, 0, 0, 0⟩
  diskLo := fun _ => lo
  diskHi := fun _ => hi
  diskLoInv := fun _ => ~~~lo
  diskHiInv := fun _ => ~~~hi
  diskMark := fun _ => 0
  disk := fun _ => 0
  cats := fun _ _ => 0
  catNo := fun _ => 0

/-- The first 256 bytes of sector 2 of the disk, to `$1900`. -/
def sectorTwo : BlockReq := ⟨0x00, 0x19, 0, 1, 0, 2⟩

/-- A server whose image is full of sevens. -/
def sevens : DiskImage := fun _ => 7

lemma blockSetup_sectorTwo :
    (blockSetup sectorTwo).run (stateWithDisk 0 0)
      = .ok ⟨⟨2, 0, 0⟩, 1, 0, 0x1900⟩ (stateWithDisk 0 0) := by
  rfl

theorem sectorTwo_delivers :
    ∃ b : BlockRegs, (blockSetup sectorTwo).run (stateWithDisk 0 0) = .ok b (stateWithDisk 0 0) ∧
      Delivers sevens sectorTwo b.sector.val
        (mmcLoadMemBlock (faithfulLink sevens (Server.filled 0) ⟨true, [], none⟩) sectorTwo
          (stateWithDisk 0 0)) := by
  refine ⟨_, blockSetup_sectorTwo, ?_⟩
  rw [mmcLoadMemBlock_delivers_iff sevens (Server.filled 0) ⟨true, [], none⟩ blockSetup_sectorTwo]
  exact Or.inl rfl

lemma blockSetup_sectorTwo_of_disk_two :
    (blockSetup sectorTwo).run (stateWithDisk 2 0)
      = .ok ⟨⟨0x42, 6, 0⟩, 1, 0, 0x1900⟩ (stateWithDisk 2 0) := by
  rfl

/-- With disk 2 in the drive the same request is let through with the sector 1602, which is
off the image, and no error is reported. -/
theorem sectorTwo_of_disk_two_not_delivered :
    ∃ b : BlockRegs, (blockSetup sectorTwo).run (stateWithDisk 2 0) = .ok b (stateWithDisk 2 0) ∧
      b.sector.val = 1602 ∧
      ¬ Delivers sevens sectorTwo b.sector.val
        (mmcLoadMemBlock (faithfulLink sevens (Server.filled 0) ⟨true, [], none⟩) sectorTwo
          (stateWithDisk 2 0)) :=
  ⟨_, blockSetup_sectorTwo_of_disk_two, rfl,
    mt (Delivers.inside blockSetup_sectorTwo_of_disk_two) (by decide)⟩

/-! ## Which requests are let through -/

/-- The length of the request: `$c3:$c2` with bits 4 and 5 of `$c4` above them. -/
def BlockReq.length (r : BlockReq) : ℕ := 65536 * (r.c4.toNat / 16 % 4) + r.byteLength

/-- The checks look at the length, and then at the sector after the last. -/
lemma blockSetup_checks (r : BlockReq) (s : State) (hdisk : s.HasDisk s.curDrv) :
    Prog.wp (blockSetup r) (fun _ _ => r.length ≤ 0xff00 ∧ r.start + sectorsOf r.length ≤ 800)
      (fun e _ => (e = .blockTooBig ∧ 0xff00 < r.length) ∨
        (e = .diskOverflow ∧ r.length ≤ 0xff00 ∧ 800 < r.start + sectorsOf r.length)) s := by
  have htop := lsr4And3_toNat r.c4
  have hb2 := byte_lt r.c2
  have hb3 := byte_lt r.c3
  have h2 : r.c2 = 0 ↔ r.c2.toNat = 0 := toNat_eq_zero.symm
  simp only [blockSetup, Prog.wp_bind, Prog.wp_get]
  refine Prog.wp_mono (drvBaseSector_spec s.curDrv s) ?_ fun e s' h => absurd hdisk h.2.1
  rintro base s' ⟨rfl, -, -⟩
  simp only [Prog.wp_ite, Prog.wp_fail, Prog.wp_pure]
  have hlen : r.length = 65536 * (r.c4.toNat / 16 % 4) + (256 * r.c3.toNat + r.c2.toNat) := rfl
  refine ⟨fun hbig => Or.inl ⟨trivial, ?_⟩, fun hsmall => ⟨fun hwrap => Or.inl ⟨trivial, ?_⟩, fun hwrap => ?_⟩⟩
  · rw [Ne, ← toNat_eq_zero, htop] at hbig
    omega
  · obtain ⟨hne, hlast⟩ := hwrap
    have h255 : r.c3.toNat = 255 := by
      have hnat := congrArg BitVec.toNat hlast
      have h1 : (1 : Byte).toNat = 1 := rfl
      rw [BitVec.toNat_add, h1] at hnat
      have h0 : (0 : Byte).toNat = 0 := rfl
      omega
    rw [Ne, h2] at hne
    omega
  · have h0 : r.c4.toNat / 16 % 4 = 0 := by
      rw [← htop, toNat_eq_zero]
      exact not_not.1 hsmall
    have hbyte : r.length = r.byteLength := by
      rw [BlockReq.length, h0]
      omega
    have hcount := toNat_sectorCount hwrap
    have hle : r.length ≤ 0xff00 := by
      by_contra hgt
      have h255 : r.c3.toNat = 255 := by omega
      refine hwrap ⟨by rw [Ne, h2]; omega, BitVec.eq_of_toNat_eq ?_⟩
      rw [BitVec.toNat_add, h255]
      rfl
    rw [hbyte] at hle ⊢
    generalize (if r.c2 = 0 then r.c3 else r.c3 + 1) = k at hcount ⊢
    have e3 := adc_eq r.c5 k false
    have e4 := adc_eq (r.c4 &&& 3) 0 (adc r.c5 k false).2
    have hc3 := toNat_bool_le (adc r.c5 k false).2
    have hlast := byte_lt (adc r.c5 k false).1
    have hz : (0 : Byte).toNat = 0 := rfl
    have h3 : (adc (r.c4 &&& 3) 0 (adc r.c5 k false).2).1 = 3 ↔
        (adc (r.c4 &&& 3) 0 (adc r.c5 k false).2).1.toNat = 3 := (BitVec.toNat_inj (y := 3)).symm
    rw [toNat_and_three, hz] at e4
    simp only [Bool.toNat_false] at e3
    rw [h3, BlockReq.start]
    exact ⟨fun h => ⟨hle, by omega⟩, fun h => Or.inr ⟨trivial, hle, by omega⟩⟩

/-- **The set-up of a block request is exact.**  With disk `d` of 0 to 511 in the drive, for every
start sector of ten bits and every length of eighteen, `$aad6` raises Block too big exactly when
the length is above `$ff00`, and Disk overflow exactly when it is not and the sectors run past
800.  Otherwise the sector is `800 * d` and the start, and the body of the request asks for
exactly the length. -/
theorem blockSetup_exact (r : BlockReq) (s : State) (hdisk : s.HasDisk s.curDrv) :
    ((blockSetup r).run s = .err .blockTooBig s ↔ 0xff00 < r.length) ∧
      ((blockSetup r).run s = .err .diskOverflow s ↔
        r.length ≤ 0xff00 ∧ 800 < r.start + sectorsOf r.length) ∧
      (r.length ≤ 0xff00 → r.start + sectorsOf r.length ≤ 800 → ∃ b b0 b1 b2 b3,
        (blockSetup r).run s = .ok b s ∧ b.sector.val = 800 * s.diskNumber + r.start ∧
          (readBlockRequest b).body = [b0, b1, b2, b3] ∧ Server.blockBytes b2 b3 = r.length) := by
  have hspec := Prog.wp_and (blockSetup_spec r s) (blockSetup_checks r s hdisk)
  rw [Prog.wp] at hspec
  rcases hrun : (blockSetup r).run s with ⟨b, t⟩ | ⟨e, t⟩
  · rw [hrun] at hspec
    obtain ⟨⟨rfl, hb⟩, hle, hin⟩ := hspec
    refine ⟨iff_of_false (by rintro ⟨⟩) (by omega), iff_of_false (by rintro ⟨⟩) (by omega), fun _ _ => ?_⟩
    have hbyte : r.length = r.byteLength := by
      have := byte_lt r.c4
      simp only [BlockReq.length] at hle ⊢
      omega
    exact ⟨b, _, _, _, _, rfl, hb.sector_val, rfl, (blockBytes_readBlockRequest hb).trans hbyte.symm⟩
  · rw [hrun] at hspec
    obtain ⟨rfl, ⟨rfl, hbig⟩ | ⟨rfl, hle, hout⟩⟩ := hspec
    · exact ⟨iff_of_true rfl hbig, iff_of_false (by rintro ⟨⟩) (by omega), fun hle => by omega⟩
    · exact ⟨iff_of_false (by rintro ⟨⟩) (by omega), iff_of_true rfl ⟨hle, hout⟩, fun _ h => by omega⟩

/-- A whole sector of disk 511. -/
theorem blockSetup_disk_511 :
    ∃ b b0 b1 b2 b3, (blockSetup sectorTwo).run (stateWithDisk 255 1) = .ok b (stateWithDisk 255 1) ∧
      b.sector.val = 800 * 511 + 2 ∧ (readBlockRequest b).body = [b0, b1, b2, b3] ∧
      Server.blockBytes b2 b3 = 256 :=
  (blockSetup_exact sectorTwo (stateWithDisk 255 1) (by unfold State.HasDisk; decide)).2.2 (by decide)
    (by decide)

end Udfs.Rom
