import Udfs.Rom.Block

/-!
# Putting a disk into a drive

`loaddisk` writes the number of a disk and its complement into the drive table, takes the disk
out of any other drive, and looks its status byte up in the disk table.  The table has sixteen
bytes for each disk and is read through the catalogue buffer, two pages at a time.  The routine
that fetched the pages, `loaddisktable`, returns at once in this version: the status byte is
whatever lies at its place in the buffer.
-/

namespace Udfs.Rom

/-! ## The disk table -/

/-- `$abb9`: where the entry of a disk is, the page in Y and the offset of its last byte in A. -/
def tableEntry (a : Byte) (c : Bool) : Byte × Byte :=
  let a := a + 1
  let c := if a = 0 then true else c
  let (a, c) := rol a c
  let (a, c) := rol a c
  let (a, c) := rol a c
  let (a, c) := rol a c
  let (a, c) := rol a c
  (a &&& 0x1f, (ror (a ||| 0x1f) c).1)

/-- The place of a disk in the table: one above its number, which has nine bits. -/
def tableIndex (a : Byte) (c : Bool) : ℕ := if a = 0xff then 256 else a.toNat + 1 + 256 * c.toNat

/-- The rotations split the place into the page and the sixteen-byte entry of the page. -/
lemma tableEntry_toNat (a : Byte) (c : Bool) :
    (tableEntry a c).1.toNat = tableIndex a c / 16 ∧
      (tableEntry a c).2.toNat = 16 * (tableIndex a c % 16) + 15 := by
  revert a c
  decide

/-- `$abcd`: the address of the status byte; the pages of the table alternate between the two
pages of the buffer. -/
def statusAddr (a : Byte) (c : Bool) : ℕ :=
  if (ror (tableEntry a c).1 c).2 then 0x0f00 + (tableEntry a c).2.toNat
  else 0x0e00 + (tableEntry a c).2.toNat

lemma statusAddr_eq (a : Byte) (c : Bool) :
    statusAddr a c = 0x0e00 + 16 * (tableIndex a c % 32) + 15 := by
  obtain ⟨hy, ha⟩ := tableEntry_toNat a c
  rw [statusAddr, ror, ha, hy]
  simp only [decide_eq_true_iff]
  split <;> omega

/-- `loaddisktable`. -/
def loaddisktable : Routine Unit := pure ()

/-- `$ac98`: fetch two pages of the table unless they are in the buffer. -/
def fetchTable (y : Byte) : Routine Unit := do
  let s ← Prog.get
  if (y &&& 0xfe) ||| 0x80 = s.curDrvCat then pure () else loaddisktable

/-! ## Loading a disk -/

/-- `$abe8`: take a disk out of the drives below `k`, but not out of drive `x`. -/
def takeOut (x lo hi : Byte) (diskLo : Byte → Byte) : ℕ → (Byte → Byte) → Byte → Byte
  | 0, diskHi => diskHi
  | k + 1, diskHi =>
      let z := BitVec.ofNat 8 k
      takeOut x lo hi diskLo k
        (if z ≠ x ∧ diskLo z = lo ∧ diskHi z = hi then Function.update diskHi z 0xff else diskHi)

lemma takeOut_self (x lo hi : Byte) (diskLo : Byte → Byte) (k : ℕ) :
    ∀ diskHi, takeOut x lo hi diskLo k diskHi x = diskHi x := by
  induction k with
  | zero => intro diskHi; rfl
  | succ k ih =>
      intro diskHi
      rw [takeOut, ih]
      split_ifs with h
      · exact Function.update_of_ne (Ne.symm h.1) _ _
      · rfl

/-- The high byte of a disk number. -/
def highByte (c : Bool) : Byte := if c then 1 else 0

/-- The drive table with disk `a` put into drive `x`, and taken out of the others. -/
def State.inserted (s : State) (a x : Byte) (c : Bool) : State :=
  let lo := Function.update s.diskLo x a
  { s with
    diskLo := lo
    diskLoInv := Function.update s.diskLoInv x (~~~ a)
    diskHi := takeOut x a (highByte c) lo 4 (Function.update s.diskHi x (highByte c))
    diskHiInv := Function.update s.diskHiInv x (~~~ highByte c) }

/-- `loaddisk`. -/
def loaddisk (a x : Byte) (c : Bool) : Routine Unit := do
  Prog.modify fun s => s.inserted a x c
  fetchTable (tableEntry a c).1
  let s ← Prog.get
  let status := s.cat (statusAddr a c)
  if 128 ≤ status.toNat then do
    Prog.modify fun s => { s with diskHi := Function.update s.diskHi x 0xff }
    Prog.fail (if status + 1 = 0 then .diskNotValid else .diskNotFormatted)
  else
    -- `$aa78` and `$aa72`: the write mark
    Prog.modify fun s =>
      { s with diskMark := Function.update s.diskMark x (if status = 0 then 0 else 0x54) }

/-- `print_splash`: what it does after the text. -/
def printSplash : Routine Unit := loaddisk 0 0 false

/-! ## What start-up depends on -/

namespace State

/-- The drive table, `$0d0c` … `$0d1f`. -/
def driveTable (s : State) : (Byte → Byte) × (Byte → Byte) × (Byte → Byte) × (Byte → Byte) ×
    (Byte → Byte) := (s.diskLo, s.diskHi, s.diskLoInv, s.diskHiInv, s.diskMark)

/-- Drive `x` holds disk `a`. -/
def Holds (s : State) (x a : Byte) (c : Bool) : Prop :=
  s.diskLo x = a ∧ s.diskHi x = highByte c ∧ s.diskLoInv x = ~~~ a ∧ s.diskHiInv x = ~~~ highByte c

/-- Two states that differ only in the catalogue buffer and in `cur_drv_cat`. -/
def SameButBuffer (s t : State) : Prop := t = { s with cat := t.cat, curDrvCat := t.curDrvCat }

end State

/-- The state after a disk has been accepted with the given status. -/
def State.mounted (s : State) (a x : Byte) (c : Bool) (status : Byte) : State :=
  { s.inserted a x c with
    diskMark := Function.update s.diskMark x (if status = 0 then 0 else 0x54) }

lemma fetchTable_run (y : Byte) (s : State) : (fetchTable y).run s = .ok () s := by
  rw [fetchTable, Prog.run_bind_ok (Prog.run_get s)]
  split <;> rfl

/-- A status byte below `$80` is accepted, any other is an error. -/
lemma loaddisk_run (a x : Byte) (c : Bool) (s : State) :
    ((s.cat (statusAddr a c)).toNat < 128 →
      (loaddisk a x c).run s = .ok () (s.mounted a x c (s.cat (statusAddr a c)))) ∧
    (128 ≤ (s.cat (statusAddr a c)).toNat → ∃ e s', (loaddisk a x c).run s = .err e s') := by
  have hrun : (loaddisk a x c).run s = _ :=
    (Prog.run_bind_ok (Prog.run_modify _ s)).trans
      ((Prog.run_bind_ok (fetchTable_run _ _)).trans (Prog.run_bind_ok (Prog.run_get _)))
  rw [hrun]
  have hcat : (s.inserted a x c).cat = s.cat := rfl
  simp only [hcat]
  constructor
  · intro h
    rw [if_neg (Nat.not_le.2 h)]
    rfl
  · intro h
    rw [if_pos h]
    exact ⟨_, _, rfl⟩

lemma inserted_holds (s : State) (a x : Byte) (c : Bool) : (s.inserted a x c).Holds x a c := by
  refine ⟨Function.update_self .., ?_, Function.update_self .., Function.update_self ..⟩
  simp only [State.inserted, takeOut_self, Function.update_self]

/-- What start-up should come to from two states: both calls return, with one drive table, in
which drive 0 holds disk 0. -/
def MountAlike (s t : State) : Prop :=
  ∃ s' t', printSplash.run s = .ok () s' ∧ printSplash.run t = .ok () t' ∧
    s'.driveTable = t'.driveTable ∧ s'.Holds 0 0 false

/-- **Start-up depends on the byte at `$0e1f`.**  For two states that differ only in the catalogue
buffer and in `cur_drv_cat`, `print_splash` returns from both with the same drive table, drive 0
holding disk 0, exactly when the bytes the two have at `$0e1f` are below `$80` and both zero or
both not. -/
theorem mountAlike_iff (s t : State) (h : s.SameButBuffer t) :
    MountAlike s t ↔ (s.cat 0x0e1f).toNat < 128 ∧ (t.cat 0x0e1f).toNat < 128 ∧
      (s.cat 0x0e1f = 0 ↔ t.cat 0x0e1f = 0) := by
  have haddr : statusAddr 0 false = 0x0e1f := statusAddr_eq 0 false
  obtain ⟨hs, hs'⟩ := loaddisk_run 0 0 false s
  obtain ⟨ht, ht'⟩ := loaddisk_run 0 0 false t
  rw [haddr] at hs hs' ht ht'
  constructor
  · rintro ⟨s', t', hrs, hrt, htable, -⟩
    have hlt : (s.cat 0x0e1f).toNat < 128 := by
      by_contra hge
      obtain ⟨e, u, hu⟩ := hs' (Nat.not_lt.1 hge)
      cases hrs.symm.trans hu
    have hlt' : (t.cat 0x0e1f).toNat < 128 := by
      by_contra hge
      obtain ⟨e, u, hu⟩ := ht' (Nat.not_lt.1 hge)
      cases hrt.symm.trans hu
    refine ⟨hlt, hlt', ?_⟩
    obtain rfl := (Outcome.ok.inj ((hs hlt).symm.trans hrs)).2
    obtain rfl := (Outcome.ok.inj ((ht hlt').symm.trans hrt)).2
    -- the write marks of drive 0 tell whether the status bytes were zero
    have hmark := congrFun (congrArg (fun p => p.2.2.2.2) htable) 0
    simp only [State.driveTable, State.mounted, Function.update_self] at hmark
    by_cases h1 : s.cat 0x0e1f = 0 <;> by_cases h2 : t.cat 0x0e1f = 0 <;> simp_all
  · rintro ⟨hlt, hlt', hzero⟩
    refine ⟨_, _, hs hlt, ht hlt', ?_, inserted_holds s 0 0 false⟩
    rw [h]
    simp only [State.driveTable, State.mounted, State.inserted, hzero]

/-- A memory with one byte all over the catalogue buffer. -/
def filledBuffer (a : Byte) : State := { stateWithDisk 0 0 with cat := fun _ => a }

theorem filledBuffer_mountAlike :
    MountAlike (filledBuffer 0x20) { filledBuffer 0x41 with curDrvCat := 3 } :=
  (mountAlike_iff (filledBuffer 0x20) { filledBuffer 0x41 with curDrvCat := 3 } rfl).2 (by decide)

/-- With `$ff` at the status byte of disk 0 start-up leaves with Disk number not valid. -/
theorem filledBuffer_not_mountAlike :
    (filledBuffer 0).SameButBuffer (filledBuffer 0xff) ∧
      ¬ MountAlike (filledBuffer 0) (filledBuffer 0xff) := by
  refine ⟨rfl, ?_⟩
  rintro ⟨s', t', -, ht, -⟩
  obtain ⟨e, u, hu⟩ := (loaddisk_run 0 0 false (filledBuffer 0xff)).2 (by decide)
  cases hu.symm.trans ht

end Udfs.Rom
