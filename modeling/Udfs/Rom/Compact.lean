import Udfs.Rom.Channels
import Udfs.Rom.Placement

/-!
# Compacting a disk

`*COMPACT` goes through the catalogue from the last entry to the first with the next free
sector at hand, from sector 2 on.  A file that does not start there gets its new start sector
in the catalogue, which is saved, and then its sectors are moved down through a buffer of a
number of pages.  An entry without data is passed over.
-/

namespace Udfs.Rom

/-! ## Numbers of sectors -/

/-- A number of sixteen bits in two bytes. -/
structure Num16 where
  lo : Byte
  hi : Byte
deriving DecidableEq

namespace Num16

def val (n : Num16) : ℕ := n.lo.toNat + 256 * n.hi.toNat

/-- `$9e61`: add a number of pages. -/
def addPages (n : Num16) (k : Byte) : Num16 :=
  let (lo, c) := adc k n.lo false
  ⟨lo, if c then n.hi + 1 else n.hi⟩

/-- `$9e77`: subtract a number of pages. -/
def subPages (n : Num16) (k : Byte) : Num16 :=
  let (lo, c) := sbc n.lo k true
  ⟨lo, if c then n.hi else n.hi - 1⟩

/-- `$9b89`. -/
def add (m n : Num16) : Num16 :=
  let (lo, c) := adc m.lo n.lo false
  let (hi, _) := adc m.hi n.hi c
  ⟨lo, hi⟩

end Num16

/-! ## The command -/

/-- `get_drv_num`. -/
def getDrvNum : List Byte → Option Byte
  | [] => none
  | a :: l =>
      if a = 0x3a then getDrvNum l
      else if 0x30 ≤ a.toNat ∧ a.toNat < 0x34 then some ((a - 0x30) &&& 3)
      else none

/-- `$8358`: the drive given, or the current one. -/
def State.drvParam (s : State) (chars : List Byte) : Option Byte :=
  if chars = [] then some (s.defDrv &&& 3) else getDrvNum chars

/-- `$9e0f`: as many pages as are left and the buffer takes. -/
def chunkOf (pages : Num16) (bufSize : Byte) : Byte :=
  if (sbc pages.hi 0 (cmpCarry pages.lo bufSize)).2 then bufSize else pages.lo

/-- `move_file_loop` within one drive; the sector after the last one written. -/
def moveFile (bufPage bufSize : Byte) : ℕ → Num16 → Num16 → Num16 → Routine Num16
  | 0, _, _, dst => pure dst
  | k + 1, pages, src, dst => do
      let c3 := chunkOf pages bufSize
      loadMemBlock ⟨0, bufPage, 0, c3, src.hi, src.lo⟩
      saveMemBlock ⟨0, bufPage, 0, c3, dst.hi, dst.lo⟩
      if (pages.subPages c3).lo ||| (pages.subPages c3).hi = 0 then pure (dst.addPages c3)
      else moveFile bufPage bufSize k (pages.subPages c3) (src.addPages c3) (dst.addPages c3)

/-- `$9b5a`: the sectors of an entry. -/
def pagesOf (info : Fin 8 → Byte) : Num16 :=
  let (_, k) := adc 0xff (info 4) false
  let (lo, k) := adc 0 (info 5) k
  let (hi, _) := adc (lsr4And3 (info 6)) 0 k
  ⟨lo, hi⟩

/-- `$9b97`: a new start sector for the entry at `y`. -/
def putStart (c : ℕ → Byte) (y : ℕ) (p : Num16) : ℕ → Byte :=
  let c := Function.update c (0x0f0f + y) p.lo
  Function.update c (0x0f0e + y) ((c (0x0f0e + y) &&& 0xfc) ||| p.hi)

/-- `$9b40`: the entry at `y`; the next free sector after it. -/
def compactEntry (bufPage bufSize : Byte) (y : ℕ) (pos : Num16) : Routine Num16 := do
  let s ← Prog.get
  let info := entryInfo s.cat y
  if (info 6 &&& 0x30) ||| info 5 ||| info 4 = 0 then pure pos
  else if (⟨info 7, info 6 &&& 3⟩ : Num16) = pos then pure (pos.add (pagesOf info))
  else do
    Prog.modify fun s => { s with cat := putStart s.cat y pos }
    saveCat
    let pos ← moveFile bufPage bufSize 1024 (pagesOf info) ⟨info 7, info 6 &&& 3⟩ pos
    loadCurDrvCat
    pure pos

/-- `$9afb`: the entries below offset `cc`. -/
def compactFrom (bufPage bufSize : Byte) : ℕ → Byte → Num16 → Routine Num16
  | 0, _, pos => pure pos
  | k + 1, cc, pos =>
      if cc - 8 = 0xf8 then pure pos
      else do
        let pos ← compactEntry bufPage bufSize (cc - 8).toNat pos
        compactFrom bufPage bufSize k (cc - 8) pos

/-- `cmd_compact`, with the first page of the buffer and its size in pages; the first of the free
sectors. -/
def cmdCompact (bufPage bufSize : Byte) (chars : List Byte) : Routine Num16 := do
  let s ← Prog.get
  match s.drvParam chars with
  | none => Prog.fail .badDrive
  | some d => do
      Prog.modify fun s => { s with curDrv := d }
      updateCatnfile 0
      loadCurDrvCat
      let s ← Prog.get
      compactFrom bufPage bufSize 32 (s.cat 0x0f05) ⟨2, 0⟩

/-! ## The arithmetic -/

section Arithmetic

variable {m n : Num16} {k : Byte}

lemma Num16.addPages_val (h : n.val + k.toNat < 65536) :
    (n.addPages k).val = n.val + k.toNat := by
  have e := adc_eq k n.lo false
  rw [Num16.val] at h
  rw [Num16.addPages]
  generalize adc k n.lo false = r at e ⊢
  rcases r with ⟨lo, c⟩
  cases c with
  | true =>
      simp only [Bool.toNat_false, Bool.toNat_true] at e
      have hhi : n.hi.toNat < 255 := by omega
      have hinc : (n.hi + 1).toNat = n.hi.toNat + 1 := toNat_add_carry hhi true
      simp only [Num16.val, if_true, hinc]
      linarith
  | false =>
      simp only [Bool.toNat_false] at e
      simp only [Num16.val, Bool.false_eq_true, if_false]
      omega

lemma Num16.subPages_val (h : k.toNat ≤ n.val) : (n.subPages k).val = n.val - k.toNat := by
  have e := sbc_eq n.lo k true
  have hlt := byte_lt (sbc n.lo k true).1
  have hlo := byte_lt n.lo
  have hhi := byte_lt n.hi
  have hk := byte_lt k
  rw [Num16.val] at h
  rw [Num16.subPages]
  generalize sbc n.lo k true = r at e hlt ⊢
  rcases r with ⟨lo, c⟩
  cases c with
  | true =>
      simp only [Bool.toNat_true] at e
      simp only [Num16.val, if_true]
      omega
  | false =>
      simp only [Bool.toNat_true, Bool.toNat_false] at e
      have h1 : (n.hi - 1).toNat = n.hi.toNat - 1 := by
        have h1 : (1 : Byte).toNat = 1 := rfl
        rw [BitVec.toNat_sub, h1]
        omega
      simp only [Num16.val, Bool.false_eq_true, if_false, h1]
      omega

lemma Num16.add_val (h : m.val + n.val < 65536) : (m.add n).val = m.val + n.val := by
  have e1 := adc_eq m.lo n.lo false
  have e2 := adc_eq m.hi n.hi (adc m.lo n.lo false).2
  have hlt := byte_lt (adc m.hi n.hi (adc m.lo n.lo false).2).1
  have hlo := byte_lt (adc m.lo n.lo false).1
  have hc := toNat_bool_le (adc m.hi n.hi (adc m.lo n.lo false).2).2
  simp only [Num16.val, Bool.toNat_false] at h e1 ⊢
  simp only [Num16.add]
  omega

lemma or_eq_zero_iff (a b : Byte) : a ||| b = 0 ↔ a = 0 ∧ b = 0 := BitVec.or_eq_zero_iff

lemma Num16.val_eq_zero : n.lo ||| n.hi = 0 ↔ n.val = 0 := by
  rw [or_eq_zero_iff, ← toNat_eq_zero, ← toNat_eq_zero, Num16.val]
  omega

/-- A chunk is what is left, up to the size of the buffer. -/
lemma chunkOf_toNat (pages : Num16) (bufSize : Byte) :
    (chunkOf pages bufSize).toNat = min pages.val bufSize.toNat := by
  have hz : (0 : Byte).toNat = 0 := rfl
  have e := sbc_eq pages.hi 0 (cmpCarry pages.lo bufSize)
  have hlt := byte_lt (sbc pages.hi 0 (cmpCarry pages.lo bufSize)).1
  have hhi := byte_lt pages.hi
  have hlo := byte_lt pages.lo
  have hb := byte_lt bufSize
  have hc : (cmpCarry pages.lo bufSize).toNat = if bufSize.toNat ≤ pages.lo.toNat then 1 else 0 := by
    rw [cmpCarry, toNat_decide]
  rw [hz] at e
  rw [chunkOf, Num16.val]
  generalize sbc pages.hi 0 (cmpCarry pages.lo bufSize) = r at e hlt ⊢
  rcases r with ⟨x, c⟩
  cases c with
  | true =>
      simp only [Bool.toNat_true] at e
      simp only [if_true]
      split at hc <;> omega
  | false =>
      simp only [Bool.toNat_false] at e
      simp only [Bool.false_eq_true, if_false]
      split at hc <;> omega

lemma pagesOf_val (name info : Fin 8 → Byte) :
    (pagesOf info).val = (⟨name, info⟩ : Entry).sectors := by
  have hff : (0xff : Byte).toNat = 255 := rfl
  have hz : (0 : Byte).toNat = 0 := rfl
  have e0 := adc_eq 0xff (info 4) false
  have e1 := adc_eq 0 (info 5) (adc 0xff (info 4) false).2
  have e2 := adc_eq (lsr4And3 (info 6)) 0 (adc 0 (info 5) (adc 0xff (info 4) false).2).2
  have h0 := byte_lt (adc 0xff (info 4) false).1
  have h1 := byte_lt (adc 0 (info 5) (adc 0xff (info 4) false).2).1
  have h2 := byte_lt (adc (lsr4And3 (info 6)) 0 (adc 0 (info 5) (adc 0xff (info 4) false).2).2).1
  have hl := byte_lt (info 4)
  have c0 := toNat_bool_le (adc 0xff (info 4) false).2
  have c1 := toNat_bool_le (adc 0 (info 5) (adc 0xff (info 4) false).2).2
  have c2 := toNat_bool_le (adc (lsr4And3 (info 6)) 0 (adc 0 (info 5) (adc 0xff (info 4) false).2).2).2
  rw [lsr4And3_toNat, hz] at e2
  rw [hz] at e1
  rw [hff] at e0
  simp only [Bool.toNat_false] at e0
  simp only [pagesOf, Num16.val, Entry.sectors, Entry.length, sectorsOf]
  omega

end Arithmetic

/-! ## Moving a file -/

namespace State

/-- The state with another memory and another disk. -/
def withDisk (s : State) (m d : ℕ → Byte) : State := { s with mem := m, disk := d }

/-- The disk with `n` sectors copied down from one place to another. -/
def moved (s : State) (src dst n : ℕ) : ℕ → Byte :=
  copyBytes s.disk (s.sectorAddr src) (s.sectorAddr dst) (256 * n) s.disk

lemma sectorAddr_add (s : State) (k n : ℕ) : s.sectorAddr (k + n) = s.sectorAddr k + 256 * n := by
  simp only [sectorAddr]
  ring

lemma sectorAddr_le (s : State) {m n : ℕ} (h : m ≤ n) : s.sectorAddr m ≤ s.sectorAddr n :=
  Nat.mul_le_mul_left _ (Nat.add_le_add_left h _)

/-- A catalogue that has been saved is the one that is loaded. -/
lemma catLoaded_withDisk (s : State) (m d : ℕ → Byte) : (s.catSaved.withDisk m d).catLoaded
    = { s.catSaved.withDisk m d with curDrvCat := s.curDrv } := by
  have hcat : (s.catSaved.withDisk m d).catOf s.curDrv = s.cat := catSaved_catOf (s := s) rfl
  rw [catLoaded]
  exact congrArg (fun c => { s.catSaved.withDisk m d with cat := c, curDrvCat := s.curDrv }) hcat

end State

/-- One chunk goes through the buffer. -/
lemma moveChunk_run (bufPage c3 : Byte) {src dst : Num16} {s : State} (hw : s.CanWrite s.curDrv)
    (hle : dst.val ≤ src.val) (hin : src.val + c3.toNat ≤ 800) :
    ∃ t m, (loadMemBlock ⟨0, bufPage, 0, c3, src.hi, src.lo⟩).run s = .ok () t ∧
      (saveMemBlock ⟨0, bufPage, 0, c3, dst.hi, dst.lo⟩).run t
        = .ok () (s.withDisk m (s.moved src.val dst.val c3.toNat)) := by
  have hstart : ∀ n : Num16, n.val ≤ 800 → n.hi.toNat < 4 ∧
      (⟨0, bufPage, 0, c3, n.hi, n.lo⟩ : BlockReq).start = n.val := by
    intro n hn
    rw [Num16.val] at hn
    refine ⟨by omega, ?_⟩
    simp only [BlockReq.start, Num16.val]
    omega
  obtain ⟨h4, hsrc⟩ := hstart src (by omega)
  obtain ⟨h4', hdst⟩ := hstart dst (by omega)
  have hload := loadMemBlock_run (r := ⟨0, bufPage, 0, c3, src.hi, src.lo⟩) (s := s) rfl h4
    (by rw [hsrc]; exact hin) hw.2.1
  set t := s.blockLoaded ⟨0, bufPage, 0, c3, src.hi, src.lo⟩ with ht
  have hsave := saveMemBlock_run (r := ⟨0, bufPage, 0, c3, dst.hi, dst.lo⟩) (s := t) rfl h4'
    (hdst ▸ by omega : _ + c3.toNat ≤ 800) hw
  refine ⟨t, t.mem, hload, hsave.trans (congrArg (Outcome.ok ()) ?_)⟩
  have hdisk : (t.blockSaved ⟨0, bufPage, 0, c3, dst.hi, dst.lo⟩).disk
      = s.moved src.val dst.val c3.toNat := by
    simp only [State.blockSaved, ht, State.blockLoaded, State.moved, hdst]
    rw [hsrc]
    exact copyBytes_through ..
  rw [State.withDisk, ← hdisk]
  rfl

/-- The loop moves the whole file, whatever the size of the buffer. -/
lemma moveFile_run (bufPage : Byte) {bufSize : Byte} (hb : bufSize ≠ 0) (k : ℕ) :
    ∀ (pages src dst : Num16) (s : State), 0 < pages.val → pages.val ≤ k → dst.val ≤ src.val →
      src.val + pages.val ≤ 800 → s.CanWrite s.curDrv →
      ∃ m pos, (moveFile bufPage bufSize k pages src dst).run s
          = .ok pos (s.withDisk m (s.moved src.val dst.val pages.val)) ∧
        pos.val = dst.val + pages.val := by
  induction k with
  | zero => intro pages src dst s h0 hk; omega
  | succ k ih =>
      intro pages src dst s h0 hk hle hin hw
      have hbuf : bufSize.toNat ≠ 0 := fun h => hb (toNat_eq_zero.1 h)
      have hc := chunkOf_toNat pages bufSize
      set c3 := chunkOf pages bufSize with hc3
      obtain ⟨t, m, hload, hsave⟩ := moveChunk_run bufPage c3 hw hle (by omega)
      have hsrc := Num16.addPages_val (n := src) (k := c3) (by omega)
      have hdst := Num16.addPages_val (n := dst) (k := c3) (by omega)
      have hsub := Num16.subPages_val (n := pages) (k := c3) (by omega)
      rw [moveFile, ← hc3, Prog.run_bind_ok hload, Prog.run_bind_ok hsave]
      simp only [Num16.val_eq_zero, hsub]
      split_ifs with hlast
      · obtain hall : c3.toNat = pages.val := by omega
        refine ⟨m, dst.addPages c3, ?_, hdst.trans (by rw [hall])⟩
        rw [hall]
        rfl
      · set u := s.withDisk m (s.moved src.val dst.val c3.toNat) with hu
        obtain ⟨m', pos, hrun, hpos⟩ := ih (pages.subPages c3) (src.addPages c3) (dst.addPages c3) u
          (by omega) (by omega) (by omega) (by omega) hw
        refine ⟨m', pos, hrun.trans (congrArg (Outcome.ok pos) ?_), by omega⟩
        have hdisk : u.moved (src.addPages c3).val (dst.addPages c3).val (pages.subPages c3).val
            = s.moved src.val dst.val pages.val := by
          have haddr : ∀ k, u.sectorAddr k = s.sectorAddr k := fun _ => rfl
          have hsplit : 256 * pages.val = 256 * c3.toNat + 256 * (pages.val - c3.toNat) := by omega
          rw [State.moved, State.moved, haddr, haddr, hsrc, hdst, hsub, State.sectorAddr_add,
            State.sectorAddr_add, hsplit, ← copyBytes_append _ _ _ (s.sectorAddr_le hle)]
          rfl
        rw [hdisk]
        rfl

/-! ## Rewriting an entry -/

lemma lowBits_put (a h : Byte) : ((a &&& 0xfc) ||| (h &&& 3)) &&& 3 = h &&& 3 :=
  and_three_congr (by simp) (by simp)

lemma highBits_put (a h : Byte) : ((a &&& 0xfc) ||| (h &&& 3)) &&& 0xfc = a &&& 0xfc := by
  apply BitVec.eq_of_getLsbD_eq
  intro i hi
  interval_cases i <;> simp

lemma lsr4And3_highBits (a : Byte) : lsr4And3 (a &&& 0xfc) = lsr4And3 a := by
  revert a
  decide

namespace Entry

/-- The entry with another start sector. -/
def startingAt (e : Entry) (p : Num16) : Entry :=
  { e with info := fun j =>
      if j = 7 then p.lo else if j = 6 then (e.info 6 &&& 0xfc) ||| p.hi else e.info j }

/-- The same file but for its start sector: name, attributes, addresses and length. -/
def SameFile (e e' : Entry) : Prop :=
  e'.name = e.name ∧ (∀ j, j < 6 → e'.info j = e.info j) ∧ e'.info 6 &&& 0xfc = e.info 6 &&& 0xfc

lemma SameFile.refl (e : Entry) : e.SameFile e := ⟨rfl, fun _ _ => rfl, rfl⟩

lemma SameFile.length {e e' : Entry} (h : e.SameFile e') : e'.length = e.length := by
  obtain ⟨-, hinfo, h6⟩ := h
  have hbits := congrArg lsr4And3 h6
  rw [lsr4And3_highBits, lsr4And3_highBits] at hbits
  have hnat := congrArg BitVec.toNat hbits
  rw [lsr4And3_toNat, lsr4And3_toNat] at hnat
  rw [Entry.length, Entry.length, hinfo 4 (by decide), hinfo 5 (by decide), hnat]

lemma SameFile.sectors {e e' : Entry} (h : e.SameFile e') : e'.sectors = e.sectors :=
  congrArg sectorsOf h.length

lemma startingAt_sameFile (e : Entry) {p : Num16} (h : p.hi.toNat < 4) :
    e.SameFile (e.startingAt p) := by
  refine ⟨rfl, fun j hj => ?_, ?_⟩
  · have h7 : j ≠ 7 := by rintro rfl; exact absurd hj (by decide)
    have h6 : j ≠ 6 := by rintro rfl; exact absurd hj (by decide)
    simp only [startingAt, if_neg h7, if_neg h6]
  · show ((e.info 6 &&& 0xfc) ||| p.hi) &&& 0xfc = _
    rw [← and_three_of_lt h, highBits_put]

lemma startingAt_start (e : Entry) {p : Num16} (h : p.hi.toNat < 4) :
    (e.startingAt p).start = p.val := by
  have h6 : (e.startingAt p).info 6 &&& 3 = p.hi := by
    show ((e.info 6 &&& 0xfc) ||| p.hi) &&& 3 = p.hi
    rw [← and_three_of_lt h, lowBits_put]
  have hnat := congrArg BitVec.toNat h6
  rw [toNat_and_three] at hnat
  have h7 : (e.startingAt p).info 7 = p.lo := rfl
  rw [Entry.start, hnat, h7, Num16.val]
  omega

lemma sectors_eq_zero {e : Entry} : e.sectors = 0 ↔ e.length = 0 := by
  simp only [sectors, sectorsOf]
  omega

end Entry

section PutStart

variable (c : ℕ → Byte) {i j : ℕ}

lemma entryAt_putStart_self (p : Num16) :
    entryAt (putStart c (8 * i) p) (8 * i) = (entryAt c (8 * i)).startingAt p := by
  refine Entry.ext (funext fun k => ?_) (funext fun k => ?_)
  · have hk := k.isLt
    simp only [entryAt, entryName, putStart, Entry.startingAt]
    rw [Function.update_of_ne (by omega), Function.update_of_ne (by omega)]
  · have e6 : 0x0f0e + 8 * i = 0x0f08 + 8 * i + ((6 : Fin 8) : ℕ) := by simp; omega
    have e7 : 0x0f0f + 8 * i = 0x0f08 + 8 * i + ((7 : Fin 8) : ℕ) := by simp; omega
    have hne : ∀ l m : Fin 8, l ≠ m → 0x0f08 + 8 * i + (l : ℕ) ≠ 0x0f08 + 8 * i + (m : ℕ) :=
      fun l m hlm h => hlm (Fin.ext (Nat.add_left_cancel h))
    simp only [entryAt, entryInfo, putStart, Entry.startingAt, e6, e7]
    by_cases h6 : k = 6
    · subst h6
      rw [Function.update_self, Function.update_of_ne (hne 6 7 (by decide)), if_neg (by decide),
        if_pos rfl]
    · rw [Function.update_of_ne (hne k 6 h6), if_neg h6]
      by_cases h7 : k = 7
      · subst h7
        rw [Function.update_self, if_pos rfl]
      · rw [Function.update_of_ne (hne k 7 h7), if_neg h7]

lemma entryAt_putStart_of_ne (p : Num16) (hi : i < 31) (hj : j < 31) (h : j ≠ i) :
    entryAt (putStart c (8 * i) p) (8 * j) = entryAt c (8 * j) := by
  refine entryAt_congr (fun k hk => ?_) fun k hk => ?_ <;>
    rw [putStart, Function.update_of_ne (by omega), Function.update_of_ne (by omega)]

lemma putStart_header (p : Num16) {a : ℕ} (ha : a < 0x0f08) : putStart c (8 * i) p a = c a := by
  rw [putStart, Function.update_of_ne (by omega), Function.update_of_ne (by omega)]

end PutStart

/-! ## The loop -/

open Extents

/-- Where the entries from the `j`-th on end when the gaps below them are closed. -/
def placeAt (c : ℕ → Byte) (n j : ℕ) : ℕ := 2 + total Entry.sectors ((entries c n).drop j)

section Places

variable (c : ℕ → Byte) {n j k : ℕ}

lemma placeAt_self : placeAt c n n = 2 := by
  rw [placeAt, List.drop_eq_nil_of_le (by simp)]
  rfl

lemma placeAt_step (h : j < n) :
    placeAt c n j = placeAt c n (j + 1) + (entryAt c (8 * j)).sectors := by
  have hlen : j < (entries c n).length := by rwa [entries_length]
  rw [placeAt, placeAt, total_drop hlen, entries_getElem]
  omega

lemma placeAt_anti (h : j ≤ k) : placeAt c n k ≤ placeAt c n j :=
  Nat.add_le_add_left (total_drop_le h) 2

lemma placeAt_le_start {c : ℕ → Byte} (hp : WellPacked c n) (h : j < n) :
    placeAt c n (j + 1) ≤ (entryAt c (8 * j)).start := by
  have hlen : j < (entries c n).length := by rwa [entries_length]
  have hle := hp.total_drop_le hlen
  rwa [entries_getElem] at hle

end Places

/-- The `j`-th file of the drive is where it should be, and its bytes with it. -/
structure SettledAt (s t : State) (n j : ℕ) : Prop where
  same : (entryAt (s.catOf s.curDrv) (8 * j)).SameFile (entryAt t.cat (8 * j))
  start : (entryAt t.cat (8 * j)).start =
    if (entryAt (s.catOf s.curDrv) (8 * j)).sectors = 0
    then (entryAt (s.catOf s.curDrv) (8 * j)).start
    else placeAt (s.catOf s.curDrv) n (j + 1)
  bytes : ∀ b < 256 * (entryAt (s.catOf s.curDrv) (8 * j)).sectors,
    t.disk (s.sectorAddr (entryAt t.cat (8 * j)).start + b)
      = s.disk (s.sectorAddr (entryAt (s.catOf s.curDrv) (8 * j)).start + b)

/-- The entries from the `i`-th on have been dealt with; those before it and the sectors above are
as they were. -/
structure Stage (s t : State) (n i : ℕ) : Prop where
  frame : ∃ c m d, t = { s with
    cat := c
    mem := m
    disk := d
    cats := Function.update s.cats (s.catNo s.curDrv) c
    curDrvCat := s.curDrv }
  header : ∀ a, a ≠ 0x0f04 → (a < 0x0e08 ∨ (0x0f00 ≤ a ∧ a < 0x0f08)) → t.cat a = s.catOf s.curDrv a
  before : ∀ j < i, entryAt t.cat (8 * j) = entryAt (s.catOf s.curDrv) (8 * j)
  settled : ∀ j, i ≤ j → j < n → SettledAt s t n j
  above : ∀ a, s.sectorAddr (placeAt (s.catOf s.curDrv) n i) ≤ a → t.disk a = s.disk a

lemma stage_start (s : State) {n : ℕ} : Stage s s.catLoaded n n where
  frame := ⟨s.catOf s.curDrv, s.mem, s.disk, by
    rw [State.catLoaded, State.catOf, Function.update_eq_self]⟩
  header _ _ _ := rfl
  before _ _ := rfl
  settled j h1 h2 := absurd h2 (Nat.not_lt.2 h1)
  above _ _ := rfl

section Step

variable {s t : State} {n i : ℕ}

/-- An entry without data, or one that is in its place, is passed over. -/
lemma Stage.keep (h : Stage s t n (i + 1))
    (hk : (entryAt (s.catOf s.curDrv) (8 * i)).sectors = 0 ∨
      (entryAt (s.catOf s.curDrv) (8 * i)).start = placeAt (s.catOf s.curDrv) n (i + 1)) :
    Stage s t n i where
  frame := h.frame
  header := h.header
  before j hj := h.before j (Nat.lt_succ_of_lt hj)
  settled j h1 h2 := by
    rcases Nat.lt_or_eq_of_le h1 with hlt | rfl
    · exact h.settled j hlt h2
    have he := h.before i (Nat.lt_succ_self i)
    refine ⟨?_, ?_, fun b hb => ?_⟩
    · rw [he]
      exact Entry.SameFile.refl _
    · rw [he]
      split_ifs with hz
      · rfl
      · exact hk.resolve_left hz
    · rw [he]
      rcases hk with hz | hst
      · rw [hz] at hb
        exact absurd hb (Nat.not_lt_zero b)
      · rw [hst]
        exact h.above _ (Nat.le_add_right ..)
  above a ha :=
    h.above a ((s.sectorAddr_le (placeAt_anti _ (Nat.le_succ i))).trans ha)

/-- The state when the file of the entry at `y` has been moved to `p`. -/
def State.relocated (t : State) (y : ℕ) (p : Num16) (m : ℕ → Byte) : State :=
  { t with
    cat := cycledCat (putStart t.cat y p)
    mem := m
    disk := t.moved (entryAt t.cat y).start p.val (entryAt t.cat y).sectors
    cats := Function.update t.cats (t.catNo t.curDrv) (cycledCat (putStart t.cat y p))
    curDrvCat := t.curDrv }

lemma entryAt_cycledCat (c : ℕ → Byte) {j : ℕ} (hj : j < 31) :
    entryAt (cycledCat c) (8 * j) = entryAt c (8 * j) :=
  entryAt_update c _ (by omega) (by decide) (by decide)

lemma entryAt_relocated_self (t : State) (p : Num16) (m : ℕ → Byte) (hi : i < 31) :
    entryAt (t.relocated (8 * i) p m).cat (8 * i) = (entryAt t.cat (8 * i)).startingAt p :=
  (entryAt_cycledCat _ hi).trans (entryAt_putStart_self t.cat p)

lemma entryAt_relocated_of_ne (t : State) (p : Num16) (m : ℕ → Byte) {j : ℕ} (hi : i < 31)
    (hj : j < 31) (h : j ≠ i) :
    entryAt (t.relocated (8 * i) p m).cat (8 * j) = entryAt t.cat (8 * j) :=
  (entryAt_cycledCat _ hj).trans (entryAt_putStart_of_ne t.cat p hi hj h)

/-- Moving the file down to its place leaves those above it and those already dealt with. -/
lemma Stage.move (h : Stage s t n (i + 1)) (hp : WellPacked (s.catOf s.curDrv) n) (hi : i < n)
    (hn : n ≤ 31) {p : Num16} (hpos : p.val = placeAt (s.catOf s.curDrv) n (i + 1))
    (h4 : p.hi.toNat < 4) (hz : (entryAt (s.catOf s.curDrv) (8 * i)).sectors ≠ 0) (m : ℕ → Byte) :
    Stage s (t.relocated (8 * i) p m) n i := by
  obtain ⟨⟨c, m₀, d, ht⟩, hheader, hbefore, hsettled, habove⟩ := h
  set e := entryAt (s.catOf s.curDrv) (8 * i) with he
  have hentry : entryAt t.cat (8 * i) = e := hbefore i (Nat.lt_succ_self i)
  have hle : p.val ≤ e.start := hpos ▸ placeAt_le_start hp hi
  have hstep : placeAt (s.catOf s.curDrv) n i = p.val + e.sectors := by rw [placeAt_step _ hi, hpos]
  have haddr : ∀ k, t.sectorAddr k = s.sectorAddr k := fun k => by rw [ht]; rfl
  have hdisk : (t.relocated (8 * i) p m).disk
      = copyBytes t.disk (s.sectorAddr e.start) (s.sectorAddr p.val) (256 * e.sectors) t.disk := by
    simp only [State.relocated, State.moved, hentry, haddr]
  refine ⟨?_, ?_, ?_, ?_, ?_⟩
  · refine ⟨(t.relocated (8 * i) p m).cat, m, (t.relocated (8 * i) p m).disk, ?_⟩
    rw [ht]
    simp only [State.relocated, Function.update_idem]
  · intro a hne ha
    refine (cycledCat_of_ne _ hne).trans ((putStart_header _ _ ?_).trans (hheader a hne ha))
    omega
  · intro j hj
    rw [entryAt_relocated_of_ne t p m (by omega) (by omega) (by omega)]
    exact hbefore j (by omega)
  · intro j h1 h2
    rcases Nat.lt_or_eq_of_le h1 with hlt | rfl
    · obtain ⟨hsame, hstart, hbytes⟩ := hsettled j hlt h2
      have hj := entryAt_relocated_of_ne t p m (i := i) (j := j) (by omega) (by omega) (by omega)
      refine ⟨hj ▸ hsame, hj ▸ hstart, fun b hb => ?_⟩
      rw [hj, hdisk, ← hbytes b hb]
      refine copyBytes_of_not _ _ (Or.inl ?_)
      -- the file ends below the place that the next one is moved to
      have hzj : (entryAt (s.catOf s.curDrv) (8 * j)).sectors ≠ 0 := by
        rintro hzj
        rw [hzj] at hb
        exact absurd hb (Nat.not_lt_zero b)
      have hend := placeAt_step (s.catOf s.curDrv) h2
      have hbelow : placeAt (s.catOf s.curDrv) n j ≤ placeAt (s.catOf s.curDrv) n (i + 1) :=
        placeAt_anti _ hlt
      rw [hstart, if_neg hzj]
      simp only [State.sectorAddr]
      omega
    · have hself := entryAt_relocated_self t p m (i := i) (by omega)
      rw [hentry] at hself
      refine ⟨?_, ?_, fun b hb => ?_⟩
      · rw [hself]
        exact e.startingAt_sameFile h4
      · rw [hself, e.startingAt_start h4, if_neg hz, hpos]
      · rw [hself, e.startingAt_start h4, hdisk, copyBytes_apply _ _ _ _ hb]
        refine habove _ ((s.sectorAddr_le ?_).trans (Nat.le_add_right ..))
        rw [← hpos]
        exact hle
  · intro a ha
    rw [hstep, State.sectorAddr_add] at ha
    rw [hdisk, copyBytes_of_not _ _ (Or.inr ha)]
    refine habove a (le_trans ?_ ha)
    rw [← hpos]
    exact Nat.le_add_right ..

lemma and_thirty_eq_zero (a : Byte) : a &&& 0x30 = 0 ↔ a.toNat / 16 % 4 = 0 := by
  revert a
  decide

lemma empty_iff (e : Entry) :
    (e.info 6 &&& 0x30) ||| e.info 5 ||| e.info 4 = 0 ↔ e.sectors = 0 := by
  rw [or_eq_zero_iff, or_eq_zero_iff, and_thirty_eq_zero, ← toNat_eq_zero, ← toNat_eq_zero,
    Entry.sectors_eq_zero, Entry.length]
  omega

lemma startNum_val (e : Entry) : (⟨e.info 7, e.info 6 &&& 3⟩ : Num16).val = e.start := by
  simp only [Num16.val, toNat_and_three, Entry.start]
  omega

/-- One entry more is dealt with. -/
lemma compactEntry_run (bufPage : Byte) {bufSize : Byte} (hb : bufSize ≠ 0) (h : Stage s t n (i + 1))
    (hp : WellPacked (s.catOf s.curDrv) n) (hT : totalSectors (s.catOf s.curDrv) ≤ 800)
    (hi : i < n) (hn : n ≤ 31) (hw : s.CanWrite s.curDrv) {pos : Num16}
    (hpos : pos.val = placeAt (s.catOf s.curDrv) n (i + 1)) :
    ∃ pos' t', (compactEntry bufPage bufSize (8 * i) pos).run t = .ok pos' t' ∧
      pos'.val = placeAt (s.catOf s.curDrv) n i ∧ Stage s t' n i := by
  have hentry := h.before i (Nat.lt_succ_self i)
  set e := entryAt (s.catOf s.curDrv) (8 * i) with he
  have hinfo : entryInfo t.cat (8 * i) = e.info := congrArg Entry.info hentry
  have hstep : placeAt (s.catOf s.curDrv) n i = pos.val + e.sectors := by rw [placeAt_step _ hi, hpos]
  have hend : e.start + e.sectors ≤ 800 := ((hp.mem _ (mem_entries hi)).2).trans hT
  have hle : pos.val ≤ e.start := hpos ▸ placeAt_le_start hp hi
  have hpages : (pagesOf e.info).val = e.sectors := pagesOf_val e.name e.info
  rw [compactEntry, Prog.run_bind_ok (Prog.run_get t)]
  simp only [hinfo, empty_iff e]
  split_ifs with hz hst
  · exact ⟨pos, t, rfl, by omega, h.keep (Or.inl hz)⟩
  · have hstart : e.start = placeAt (s.catOf s.curDrv) n (i + 1) := by
      rw [← startNum_val, hst, hpos]
    refine ⟨_, t, rfl, ?_, h.keep (Or.inr hstart)⟩
    rw [Num16.add_val (by omega), hpages, hstep]
  · obtain ⟨c, m₀, d, ht⟩ := h.frame
    set u : State := { t with cat := putStart t.cat (8 * i) pos } with hu
    have hwu : u.CanWrite u.curDrv := by rw [hu, ht]; exact hw
    obtain ⟨m, pos', hrun, hpos'⟩ := moveFile_run bufPage hb 1024 (pagesOf e.info)
      ⟨e.info 7, e.info 6 &&& 3⟩ pos u.cycled.catSaved (by omega) (by omega)
      (by rw [startNum_val]; exact hle) (by rw [startNum_val, hpages]; exact hend) hwu
    refine ⟨pos', t.relocated (8 * i) pos m, ?_, by omega, h.move hp hi hn hpos ?_ hz m⟩
    · rw [Prog.run_bind_ok (Prog.run_modify _ t), Prog.run_bind_ok (saveCat_run hwu),
        Prog.run_bind_ok hrun, Prog.run_bind_ok (loadCurDrvCat_run (by exact hwu.2.1)), Prog.run_pure,
        startNum_val, hpages, State.catLoaded_withDisk]
      simp only [State.relocated, hentry]
      rfl
    · rw [Num16.val] at hle
      omega

/-- The loop from the `i`-th entry down. -/
lemma compactFrom_run (bufPage : Byte) {bufSize : Byte} (hb : bufSize ≠ 0)
    (hp : WellPacked (s.catOf s.curDrv) n) (hT : totalSectors (s.catOf s.curDrv) ≤ 800)
    (hn : n ≤ 31) (hw : s.CanWrite s.curDrv) (i : ℕ) :
    ∀ (k : ℕ) (t : State) (cc : Byte) (pos : Num16), i ≤ n → i < k → cc.toNat = 8 * i →
      pos.val = placeAt (s.catOf s.curDrv) n i → Stage s t n i →
      ∃ pos' t', (compactFrom bufPage bufSize k cc pos).run t = .ok pos' t' ∧ Stage s t' n 0 := by
  have h8 : (8 : Byte).toNat = 8 := rfl
  induction i with
  | zero =>
      intro k t cc pos _ hk hcc _ hstage
      obtain ⟨k, rfl⟩ : ∃ m, k = m + 1 := ⟨k - 1, by omega⟩
      obtain rfl : cc = 0 := toNat_eq_zero.1 hcc
      exact ⟨pos, t, rfl, hstage⟩
  | succ i ih =>
      intro k t cc pos hi hk hcc hpos hstage
      obtain ⟨k, rfl⟩ : ∃ m, k = m + 1 := ⟨k - 1, by omega⟩
      have hsub : (cc - 8).toNat = 8 * i := by
        rw [BitVec.toNat_sub, h8, hcc]
        omega
      have hne : cc - 8 ≠ 0xf8 := by
        intro h
        have hnat := congrArg BitVec.toNat h
        rw [hsub] at hnat
        have hf8 : (0xf8 : Byte).toNat = 248 := rfl
        omega
      obtain ⟨pos', t', hrun, hpos', hstage'⟩ :=
        compactEntry_run bufPage hb hstage hp hT hi hn hw hpos
      rw [compactFrom, if_neg hne, hsub, Prog.run_bind_ok hrun]
      exact ih k t' (cc - 8) pos' (by omega) (by omega) hsub hpos' hstage'

end Step

/-! ## The whole command -/

namespace State

/-- A byte of a file on drive `d`. -/
def fileByte (s : State) (d : Byte) (e : Entry) (b : ℕ) : Byte :=
  s.disk (({ s with curDrv := d } : State).sectorAddr e.start + b)

end State

/-- What `*COMPACT` does to drive `d`: the same files in the same order with the same bytes, those
with data one after the other from sector 2 on. -/
structure Compacted (s : State) (d : Byte) (n : ℕ) (s' : State) : Prop where
  others : ∀ k, k ≠ s.catNo d → s'.cats k = s.cats k
  count : s'.catOf d 0x0f05 = s.catOf d 0x0f05
  total : totalSectors (s'.catOf d) = totalSectors (s.catOf d)
  same : ∀ i < n, (entryAt (s.catOf d) (8 * i)).SameFile (entryAt (s'.catOf d) (8 * i))
  bytes : ∀ i < n, ∀ b < (entryAt (s.catOf d) (8 * i)).length,
    s'.fileByte d (entryAt (s'.catOf d) (8 * i)) b = s.fileByte d (entryAt (s.catOf d) (8 * i)) b
  contiguous : ∀ i < n, (entryAt (s.catOf d) (8 * i)).length ≠ 0 →
    (entryAt (s'.catOf d) (8 * i)).start = placeAt (s.catOf d) n (i + 1)

/-- The entries of length 0 that have one with data before them stand where the files after them
will end. -/
def EmptyInPlace (c : ℕ → Byte) (n : ℕ) : Prop :=
  ∀ i j, i < n → j < i → (entryAt c (8 * i)).length = 0 → (entryAt c (8 * j)).length ≠ 0 →
    (entryAt c (8 * i)).start = placeAt c n (i + 1)

/-- The new places are those of the old entries with the gaps closed. -/
lemma settled_places {c c' : ℕ → Byte} {n : ℕ}
    (hsect : ∀ j < n, (entryAt c' (8 * j)).sectors = (entryAt c (8 * j)).sectors)
    (hstart : ∀ j < n, (entryAt c' (8 * j)).start =
      if (entryAt c (8 * j)).sectors = 0 then (entryAt c (8 * j)).start else placeAt c n (j + 1)) :
    (entries c' n).map (fun e => (e.start, e.sectors))
      = settle Entry.start Entry.sectors 2 (entries c n) := by
  refine List.ext_getElem (by simp) fun j h1 h2 => ?_
  have hj : j < n := by simpa using h1
  have hlen : j < (entries c n).length := by rwa [entries_length]
  rw [settle_getElem hlen, List.getElem_map, entries_getElem, entries_getElem, hstart j hj, hsect j hj]
  rfl

/-- The layout holds again if the entries without data are out of the way. -/
lemma wellPacked_settled_iff {c c' : ℕ → Byte} {n : ℕ} (hp : WellPacked c n)
    (htotal : totalSectors c' = totalSectors c)
    (hplaces : (entries c' n).map (fun e => (e.start, e.sectors))
      = settle Entry.start Entry.sectors 2 (entries c n)) :
    WellPacked c' n ↔ EmptyInPlace c n := by
  rw [WellPacked, ← packed_map, hplaces, htotal, packed_settle hp, tightAfter_iff]
  constructor
  · intro h i j hi hj hzi hzj
    have hlen : i < (entries c n).length := by rwa [entries_length]
    have hstart := h i j hlen hj
    rw [entries_getElem, entries_getElem] at hstart
    exact hstart (Entry.sectors_eq_zero.2 hzi) (mt Entry.sectors_eq_zero.1 hzj)
  · intro h i j hi hj
    have hn : i < n := by simpa using hi
    rw [entries_getElem, entries_getElem]
    intro hzi hzj
    exact h i j hn hj (Entry.sectors_eq_zero.1 hzi) (mt Entry.sectors_eq_zero.2 hzj)

/-- When the loop has come to the first entry, the catalogue has been put in order. -/
lemma Stage.compacted {s t : State} {d : Byte} {n : ℕ} {y : Byte}
    (h : Stage { s with curDrv := d, chanOff := y } t n 0) :
    Compacted s d n t ∧
      (WellPacked (s.catOf d) n → (WellPacked (t.catOf d) n ↔ EmptyInPlace (s.catOf d) n)) := by
  obtain ⟨⟨c, m, q, ht⟩, hheader, -, hsettled, -⟩ := h
  have hcat : t.catOf d = t.cat := by
    rw [ht]
    exact Function.update_self ..
  have htotal : totalSectors t.cat = totalSectors (s.catOf d) := by
    rw [totalSectors, totalSectors, boundAt, boundAt,
      hheader _ (by decide) (Or.inr ⟨by decide, by decide⟩),
      hheader _ (by decide) (Or.inr ⟨by decide, by decide⟩)]
    rfl
  have hstart := fun j hj => (hsettled j (Nat.zero_le j) hj).start
  have hsame := fun j hj => (hsettled j (Nat.zero_le j) hj).same
  refine ⟨⟨fun k hk => ?_, ?_, ?_, fun i hi => ?_, fun i hi b hb => ?_, fun i hi hz => ?_⟩, fun hp => ?_⟩
  · rw [ht]
    exact Function.update_of_ne hk ..
  · rw [hcat]
    exact hheader _ (by decide) (Or.inr ⟨by decide, by decide⟩)
  · rw [hcat, htotal]
  · rw [hcat]
    exact hsame i hi
  · have hlt : b < 256 * (entryAt (s.catOf d) (8 * i)).sectors := by
      have hle := (sectorsOf_le_iff (entryAt (s.catOf d) (8 * i)).length _).1 le_rfl
      rw [Entry.sectors]
      omega
    have hbyte := (hsettled i (Nat.zero_le i) hi).bytes b hlt
    rw [hcat]
    refine Eq.trans ?_ hbyte
    rw [ht]
    rfl
  · rw [hcat, hstart i hi]
    exact if_neg (mt Entry.sectors_eq_zero.1 hz)
  · rw [hcat]
    exact wellPacked_settled_iff hp htotal
      (settled_places (fun j hj => (hsame j hj).sectors) hstart)

/-- **`*COMPACT` and the files without data.**  For every catalogue whose entries take disjoint runs
of sectors and every buffer of at least one page, the command ends well; it leaves the same files
in the same order with the same bytes, those with data one after the other from sector 2 on.  But
the entries take disjoint runs of sectors again exactly if every entry of length 0 that has one
with data before it stood where the files after it end. -/
theorem cmdCompact_layout_iff (s : State) (bufPage bufSize : Byte) (chars : List Byte) (d : Byte)
    (n : ℕ) (hdrv : s.drvParam chars = some d) (hbuf : bufSize ≠ 0) (hn : n ≤ 31)
    (hcount : (s.catOf d 0x0f05).toNat = 8 * n) (hp : WellPacked (s.catOf d) n)
    (hT : totalSectors (s.catOf d) ≤ 800) (hw : s.CanWrite d) :
    ∃ pos s', (cmdCompact bufPage bufSize chars).run s = .ok pos s' ∧ Compacted s d n s' ∧
      (WellPacked (s'.catOf d) n ↔ EmptyInPlace (s.catOf d) n) := by
  set u : State := { s with curDrv := d, chanOff := 0 } with hu
  have hbottom : (⟨2, 0⟩ : Num16).val = placeAt (u.catOf u.curDrv) n n := (placeAt_self _).symm
  obtain ⟨pos, t, hrun, hstage⟩ := compactFrom_run bufPage hbuf (s := u) hp hT hn hw n 32
    u.catLoaded (u.catOf d 0x0f05) ⟨2, 0⟩ le_rfl (by omega) hcount hbottom (stage_start u)
  obtain ⟨hcompacted, hlayout⟩ := hstage.compacted
  refine ⟨pos, t, ?_, hcompacted, hlayout hp⟩
  have hclose : (updateCatnfile 0).run { s with curDrv := d } = .ok () u := rfl
  rw [cmdCompact, Prog.run_bind_ok (Prog.run_get s), hdrv]
  simp only
  rw [Prog.run_bind_ok (Prog.run_modify _ s), Prog.run_bind_ok hclose,
    Prog.run_bind_ok (loadCurDrvCat_run (s := u) hw.2.1), Prog.run_bind_ok (Prog.run_get _)]
  exact hrun

/-- A writable disk with a file of one sector at sector 10 and, after it in the catalogue, one
without data at sector 5. -/
def emptyBelow : State :=
  { stateWithDisk 0 0 with
    diskMark := fun _ => 0x54
    cats := fun _ a =>
      if a = 0x0f05 then 16
      else if a = 0x0f06 then 3
      else if a = 0x0f07 then 0x20
      else if a = 0x0e08 then 0x41
      else if a = 0x0f0d then 1
      else if a = 0x0f0f then 10
      else if a = 0x0e10 then 0x5a
      else if a = 0x0f17 then 5
      else 0 }

lemma emptyBelow_wellPacked : WellPacked (emptyBelow.catOf 0) 2 :=
  ⟨by decide, by decide, by decide, by decide, trivial⟩

/-- `*COMPACT` puts the first one at sector 2, below the place of the second. -/
theorem emptyBelow_overlaps : ¬ ∃ pos s', (cmdCompact 0x19 1 []).run emptyBelow = .ok pos s' ∧
    Compacted emptyBelow 0 2 s' ∧ WellPacked (s'.catOf 0) 2 := by
  rintro ⟨pos, s', hrun, -, hp⟩
  have hplaces : (entryAt (((cmdCompact 0x19 1 []).run emptyBelow).state.catOf 0) 0).start = 2 ∧
      (entryAt (((cmdCompact 0x19 1 []).run emptyBelow).state.catOf 0) 8).start = 5 := by
    decide +kernel
  rw [hrun] at hplaces
  obtain ⟨h2, h5⟩ : (entryAt (s'.catOf 0) 0).start = 2 ∧ (entryAt (s'.catOf 0) 8).start = 5 := hplaces
  obtain ⟨-, -, -, hle, -⟩ := hp
  change (entryAt (s'.catOf 0) 8).start + (entryAt (s'.catOf 0) 8).sectors
    ≤ (entryAt (s'.catOf 0) 0).start at hle
  omega

/-- The condition that fails there is the one on the place of the second. -/
theorem emptyBelow_layout : ∃ pos s', (cmdCompact 0x19 1 []).run emptyBelow = .ok pos s' ∧
    Compacted emptyBelow 0 2 s' ∧
    (WellPacked (s'.catOf 0) 2 ↔ EmptyInPlace (emptyBelow.catOf 0) 2) :=
  cmdCompact_layout_iff emptyBelow 0x19 1 [] 0 2 rfl (by decide) (by decide) rfl emptyBelow_wellPacked
    (by decide) ⟨by decide, Nat.succ_pos 127, by decide, by decide, rfl⟩

end Udfs.Rom
