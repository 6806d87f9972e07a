import Udfs.Rom.Placement

/-!
# Reading an entry back

An entry holds addresses and a length of eighteen bits and a start sector of ten.  What does not
fit into whole bytes shares one byte: from the top, two bits each of the execution address, the
length, the load address and the start.  `$837e` expands an entry into the block that OSFILE
returns, and a load takes the entry's bytes over into the file block.
-/

namespace Udfs.Rom

/-! ## Expanding an entry -/

/-- `$83bb`: shift A down by two and store its lowest two bits at `y`; two set bits are the top of
an address of the host, `$ffff`. -/
def storeTop (blk : ℕ → Byte) (y : ℕ) (a : Byte) : (ℕ → Byte) × Byte :=
  let a := a >>> 2
  if a &&& 3 = 3 then (Function.update (Function.update blk y 0xff) (y + 1) 0xff, a)
  else (Function.update blk y (a &&& 3), a)

/-- `$83cf`: two bytes of the second page. -/
def storePair (c : ℕ → Byte) (x : ℕ) (blk : ℕ → Byte) (y : ℕ) : ℕ → Byte :=
  Function.update (Function.update blk y (c (0x0f08 + x))) (y + 1) (c (0x0f09 + x))

/-- `$837e`: the entry at `y` expanded into the block at `temp`. -/
def expandEntry (c : ℕ → Byte) (y : ℕ) (blk : ℕ → Byte) : ℕ → Byte :=
  let blk := fun a => if 2 ≤ a ∧ a < 0x12 then 0 else blk a
  let blk := storePair c y blk 2
  let blk := storePair c (y + 2) blk 6
  let blk := storePair c (y + 4) blk 0x0a
  let blk := if 128 ≤ (c (0x0e0f + y)).toNat then Function.update blk 0x0e 0x0a else blk
  let (blk, a) := storeTop blk 4 (c (0x0f0e + y))
  let blk := Function.update blk 0x0c ((a >>> 2) &&& 3)
  (storeTop blk 8 (a >>> 2)).1

/-- `$87a1` to `$87be`: the file block for loading the entry at `y`, to the address given or, when
`$c0` is not 0, to the file's own. -/
def loadRequest (c : ℕ → Byte) (y : ℕ) (be bf c0 : Byte) : BlockReq where
  be := if c0 = 0 then be else c (0x0f08 + y)
  bf := if c0 = 0 then bf else c (0x0f09 + y)
  c2 := c (0x0f0c + y)
  c3 := c (0x0f0d + y)
  c4 := c (0x0f0e + y)
  c5 := c (0x0f0f + y)

/-- `$8a46` and `$8a5d`: the upper half of an address, low and high byte, from its two top bits. -/
def upperHalf (a : Byte) : Byte × Byte := if a = 3 then (0xff, 0xff) else (a, 0)

/-! ## The block -/

section Block

variable (c : ℕ → Byte) (y : ℕ) (blk : ℕ → Byte)

/-- The bytes of the block; the last field of an entry's description is its attribute. -/
lemma expandEntry_bytes :
    (List.range 13).map (fun i => expandEntry c y blk (i + 2)) =
      [c (0x0f08 + y), c (0x0f09 + y),
        (upperHalf ((c (0x0f0e + y) >>> 2) &&& 3)).1, (upperHalf ((c (0x0f0e + y) >>> 2) &&& 3)).2,
        c (0x0f0a + y), c (0x0f0b + y),
        (upperHalf ((c (0x0f0e + y) >>> 2 >>> 2 >>> 2) &&& 3)).1,
        (upperHalf ((c (0x0f0e + y) >>> 2 >>> 2 >>> 2) &&& 3)).2,
        c (0x0f0c + y), c (0x0f0d + y), (c (0x0f0e + y) >>> 2 >>> 2) &&& 3, 0,
        if 128 ≤ (c (0x0e0f + y)).toNat then 0x0a else 0] := by
  have h2 : 0x0f08 + (y + 2) = 0x0f0a + y ∧ 0x0f09 + (y + 2) = 0x0f0b + y := by omega
  have h4 : 0x0f08 + (y + 4) = 0x0f0c + y ∧ 0x0f09 + (y + 4) = 0x0f0d + y := by omega
  by_cases hload : (c (0x0f0e + y) >>> 2) &&& 3 = 3 <;>
    by_cases hexec : (c (0x0f0e + y) >>> 2 >>> 2 >>> 2) &&& 3 = 3 <;>
    by_cases hlock : 128 ≤ (c (0x0e0f + y)).toNat <;>
    simp only [expandEntry, storeTop, storePair, upperHalf, hload, hexec, hlock, h2, h4, if_true,
      if_false] <;>
    simp [List.range, List.range.loop, Function.update_apply]

end Block

/-! ## The mixed byte -/

section Mixed

variable (a b d e : Byte)

lemma mixedByte_load : (mixedByte a b d e >>> 2) &&& 3 = d &&& 3 :=
  and_three_congr (by simp [mixedByte]) (by simp [mixedByte])

lemma mixedByte_middle : (mixedByte a b d e >>> 2 >>> 2) &&& 3 = b &&& 3 :=
  and_three_congr (by simp [mixedByte]) (by simp [mixedByte])

lemma mixedByte_exec : (mixedByte a b d e >>> 2 >>> 2 >>> 2) &&& 3 = a &&& 3 :=
  and_three_congr (by simp [mixedByte]) (by simp [mixedByte])

end Mixed

/-! ## The round trip -/

/-- Four bytes of a block. -/
def field32 (blk : ℕ → Byte) (o : ℕ) : ℕ :=
  (blk o).toNat + 256 * (blk (o + 1)).toNat + 65536 * (blk (o + 2)).toNat
    + 16777216 * (blk (o + 3)).toNat

/-- An address of eighteen bits as one of 32: with both top bits set the upper half is `$ffff`. -/
def hostAddr (a : ℕ) : ℕ := if a / 65536 = 3 then 0xffff0000 + a % 65536 else a

namespace FileBlock

/-- The eighteen bits of the load address that an entry keeps. -/
def load (f : FileBlock) : ℕ := f.be.toNat + 256 * f.bf.toNat + 65536 * (f.w1074.toNat % 4)

/-- The eighteen bits of the execution address. -/
def exec (f : FileBlock) : ℕ := f.c0.toNat + 256 * f.c1.toNat + 65536 * (f.w1076.toNat % 4)

end FileBlock

/-- What is read back from the entry at `y` for a file: by `$837e`, whatever the block held before,
and by a load. -/
structure ReadsBack (c : ℕ → Byte) (y : ℕ) (name : Fin 8 → Byte) (f : FileBlock) (len start : ℕ) :
    Prop where
  load : ∀ blk, field32 (expandEntry c y blk) 2 = hostAddr f.load
  exec : ∀ blk, field32 (expandEntry c y blk) 6 = hostAddr f.exec
  length : ∀ blk, field32 (expandEntry c y blk) 0x0a = len
  locked : ∀ blk, expandEntry c y blk 0x0e = if 128 ≤ (name 7).toNat then 0x0a else 0
  sector : ∀ be bf c0, (loadRequest c y be bf c0).start = start
  -- the upper halves that a load leaves at `$1074` … `$1077`
  loadTop : ∀ be bf c0, c0 ≠ 0 → (upperHalf (((loadRequest c y be bf c0).c4 >>> 2) &&& 3)).1.toNat
    + 256 * (upperHalf (((loadRequest c y be bf c0).c4 >>> 2) &&& 3)).2.toNat
      = hostAddr f.load / 65536
  execTop : ∀ be bf c0, (upperHalf (((loadRequest c y be bf c0).c4 >>> 6) &&& 3)).1.toNat
    + 256 * (upperHalf (((loadRequest c y be bf c0).c4 >>> 6) &&& 3)).2.toNat
      = hostAddr f.exec / 65536

/-- The upper half of an address of which the two top bits are kept. -/
lemma upperHalf_val (a : Byte) {lo : ℕ} (hlo : lo < 65536) :
    lo + 65536 * ((upperHalf (a &&& 3)).1.toNat + 256 * (upperHalf (a &&& 3)).2.toNat)
      = hostAddr (lo + 65536 * (a.toNat % 4)) := by
  have hff : (0xff : Byte).toNat = 255 := rfl
  have hz : (0 : Byte).toNat = 0 := rfl
  have h3 : a &&& 3 = 3 ↔ a.toNat % 4 = 3 := by
    rw [← toNat_and_three]
    exact (BitVec.toNat_inj (y := 3)).symm
  by_cases h : a.toNat % 4 = 3
  · rw [hostAddr, if_pos (by omega), upperHalf, if_pos (h3.2 h)]
    show lo + 65536 * ((0xff : Byte).toNat + 256 * (0xff : Byte).toNat) = _
    rw [hff]
    omega
  · rw [hostAddr, if_neg (by omega), upperHalf, if_neg fun h' => h (h3.1 h')]
    show lo + 65536 * ((a &&& 3).toNat + 256 * (0 : Byte).toNat) = _
    rw [hz, toNat_and_three]
    omega

/-- The same, when only the upper half is kept. -/
lemma upperHalf_div (a : Byte) {lo : ℕ} (hlo : lo < 65536) :
    (upperHalf (a &&& 3)).1.toNat + 256 * (upperHalf (a &&& 3)).2.toNat
      = hostAddr (lo + 65536 * (a.toNat % 4)) / 65536 := by
  rw [← upperHalf_val a hlo]
  omega

/-- The bytes of an entry decide what is read back. -/
lemma readsBack_of_bytes {c : ℕ → Byte} {y : ℕ} {name : Fin 8 → Byte} {f : FileBlock} {len : Num24}
    {c4 c5 : Byte} (h4 : c4.toNat < 4) (hlen : len.val < 262144)
    (he : entryAt c y = ⟨name, newInfo f len c4 c5⟩) :
    ReadsBack c y name f len.val (256 * c4.toNat + c5.toNat) := by
  have hoff : ∀ (k : Fin 8) (x : Byte), newInfo f len c4 c5 k = x → c (0x0f08 + k.val + y) = x := by
    intro k x hx
    have hk := congrFun (congrArg Entry.info he) k
    rw [← hx, Nat.add_right_comm]
    exact hk
  have hname : c (0x0e0f + y) = name 7 := by
    have h7 := congrFun (congrArg Entry.name he) 7
    have haddr : 0x0e0f + y = 0x0e08 + y + 7 := by omega
    rw [haddr]
    exact h7
  have i0 : c (0x0f08 + y) = f.be := hoff 0 _ rfl
  have i1 : c (0x0f09 + y) = f.bf := hoff 1 _ rfl
  have i2 : c (0x0f0a + y) = f.c0 := hoff 2 _ rfl
  have i3 : c (0x0f0b + y) = f.c1 := hoff 3 _ rfl
  have i4 : c (0x0f0c + y) = len.lo := hoff 4 _ rfl
  have i5 : c (0x0f0d + y) = len.mid := hoff 5 _ rfl
  have i6 : c (0x0f0e + y) = mixedByte f.w1076 len.hi f.w1074 c4 := hoff 6 _ rfl
  have i7 : c (0x0f0f + y) = c5 := hoff 7 _ rfl
  have hshift : ∀ a : Byte, a >>> 6 = a >>> 2 >>> 2 >>> 2 := by decide
  have hz : (0 : Byte).toNat = 0 := rfl
  have hload : f.be.toNat + 256 * f.bf.toNat < 65536 := by
    have h0 := byte_lt f.be
    have h1 := byte_lt f.bf
    omega
  have hexec : f.c0.toNat + 256 * f.c1.toNat < 65536 := by
    have h0 := byte_lt f.c0
    have h1 := byte_lt f.c1
    omega
  have hbytes : ∀ blk, _ := fun blk => expandEntry_bytes c y blk
  simp only [List.range, List.range.loop, List.map_cons, List.map_nil, List.cons.injEq, and_true,
    i0, i1, i2, i3, i4, i5, i6, hname, mixedByte_load, mixedByte_middle, mixedByte_exec] at hbytes
  constructor
  case load =>
    intro blk
    obtain ⟨b2, b3, b4, b5, -⟩ := hbytes blk
    rw [FileBlock.load, ← upperHalf_val _ hload, ← b2, ← b3, ← b4, ← b5, field32]
    ring
  case exec =>
    intro blk
    obtain ⟨-, -, -, -, b6, b7, b8, b9, -⟩ := hbytes blk
    rw [FileBlock.exec, ← upperHalf_val _ hexec, ← b6, ← b7, ← b8, ← b9, field32]
    ring
  case length =>
    intro blk
    obtain ⟨-, -, -, -, -, -, -, -, bA, bB, bC, bD, -⟩ := hbytes blk
    simp only [field32, Nat.reduceAdd] at *
    rw [bA, bB, bC, bD, toNat_and_three, hz]
    simp only [Num24.val] at hlen ⊢
    omega
  case locked =>
    intro blk
    exact (hbytes blk).2.2.2.2.2.2.2.2.2.2.2.2
  case sector =>
    intro be bf c0
    have hstart := congrArg BitVec.toNat (mixedByte_start f.w1076 len.hi f.w1074 c4)
    rw [toNat_and_three, toNat_and_three, Nat.mod_eq_of_lt h4] at hstart
    simp only [loadRequest, BlockReq.start, i6, i7, hstart]
  case loadTop =>
    intro be bf c0 _
    simp only [loadRequest, i6, mixedByte_load]
    exact upperHalf_div _ hload
  case execTop =>
    intro be bf c0
    simp only [loadRequest, i6, hshift, mixedByte_exec]
    exact upperHalf_div _ hexec

/-- **Every file is read back as it was written.**  For every file block, every length of eighteen
bits and every start sector of ten, the entry that a creation leaves in the catalogue expands
to the same load and execution address, of which eighteen bits count and whose upper half is
`$ffff` when the two top bits are set, to the same length and to the lock attribute; and a load
takes the same start sector from it. -/
theorem writeNewEntry_readsBack (f : FileBlock) (len : Num24) (y : ℕ) (c4 c5 : Byte) (s : State)
    (hy : y ≤ 240) (h4 : c4.toNat < 4) (hlen : len.val < 262144) :
    Prog.wp (writeNewEntry f len y c4 c5)
      (fun x s' => x = y ∧ s.CanWrite s.curDrv ∧
        ReadsBack s'.cat y s.filenameParam f len.val (256 * c4.toNat + c5.toNat))
      (fun _ s' => ¬ s.CanWrite s.curDrv ∧
        ReadsBack s'.cat y s.filenameParam f len.val (256 * c4.toNat + c5.toNat)) s := by
  set d := putEntry s.cat y s.filenameParam (newInfo f len c4 c5) with hd
  set t : State := { s with cat := Function.update d 0x0f05 (d 0x0f05 + 8) } with ht
  have hentry : entryAt t.cycled.cat y = ⟨s.filenameParam, newInfo f len c4 c5⟩ := by
    rw [State.cycled, entryAt_update _ _ hy (by decide) (by decide), ht,
      entryAt_update _ _ hy (by decide) (by decide), entryAt_putEntry_self]
  simp only [writeNewEntry, Prog.wp_bind, Prog.wp_modify, Prog.wp_pure]
  refine Prog.wp_mono (saveCat_spec t) ?_ ?_
  · rintro _ s' ⟨rfl, hw⟩
    exact ⟨trivial, hw, readsBack_of_bytes h4 hlen hentry⟩
  · rintro _ s' ⟨hej, hw, -⟩
    have hcat : s'.cat = t.cycled.cat := by obtain rfl | ⟨x, -, rfl⟩ := hej <;> rfl
    exact ⟨hw, readsBack_of_bytes h4 hlen (hcat ▸ hentry)⟩

/-- A file of the I/O processor, with both top bits of its addresses set. -/
def hostFile : FileBlock := ⟨0x00, 0x19, 0x23, 0x80, 0, 0, 0, 0, 0xff, 0xff, 0, 0⟩

example : hostAddr hostFile.load = 0xffff1900 ∧ hostAddr hostFile.exec = 0xffff8023 := by decide

/-- A writable disk with three entries, the second of `B`, and the name `$.NEW` sought. -/
def hostDisk : State :=
  { stateWithDisk 0 0 with
    diskMark := fun _ => 0x54
    filenameParam := ![0x4e, 0x45, 0x57, 0x20, 0x20, 0x20, 0x20, 0x24]
    cat := fun a => if a = 0x0f05 then 24 else if a = 0x0e10 then 0x42 else if a = 0x0f17 then 2 else 0 }

/-- The second entry is written over, and read back. -/
theorem writeNewEntry_readsBack_hostFile : ∃ s',
    (writeNewEntry hostFile ⟨0x34, 0x12, 0x03⟩ 8 0x03 0xfe).run hostDisk = .ok 8 s' ∧
      ReadsBack s'.cat 8 hostDisk.filenameParam hostFile 0x031234 0x03fe := by
  obtain ⟨x, s', hrun, rfl, -, hback⟩ := Prog.exists_ok
    (writeNewEntry_readsBack hostFile ⟨0x34, 0x12, 0x03⟩ 8 0x03 0xfe hostDisk (by decide) (by decide)
      (by decide)) fun _ _ h => h.1 (by decide)
  exact ⟨s', hrun, hback⟩

end Udfs.Rom
