import Udfs.Rom.Catalogue
import Udfs.Rom.Mount

/-!
# The title of a disk

`*TITLE` puts a title of twelve bytes into the catalogue of the current drive and saves it.  It
then writes the title into the entry that the disk has in the disk table, through the catalogue
buffer, where the pages of the table are taken to have been fetched, and saves the buffer once
more.  Before that, `check_sector0` may read the first sectors of the card into the buffer to
find out where the image lies.
-/

namespace Udfs.Rom

/-! ## Reading the first sectors -/

/-- `mmc_read_cat`, which in this version asks the server for block 0 whatever the sector. -/
def mmcReadCat : Routine Unit := Prog.modify fun s =>
  { s with cat := copyBytes s.disk 0 0x0e00 512 s.cat }

/-- Block 0 of the image is the catalogue of drive `x`. -/
def State.CatInBlockZero (s : State) (x : Byte) : Prop :=
  ∀ i < 512, s.catOf x (0x0e00 + i) = s.disk i

/-- Loading the catalogue of the current drive and `mmc_read_cat` fill the buffer alike exactly
when the catalogue is block 0 of the image. -/
lemma mmcReadCat_eq_load_iff (s : State) (h : s.HasDisk s.curDrv) :
    ∃ t u, loadCurDrvCat.run s = .ok () t ∧ mmcReadCat.run s = .ok () u ∧
      ((∀ i < 512, t.cat (0x0e00 + i) = u.cat (0x0e00 + i)) ↔ s.CatInBlockZero s.curDrv) := by
  refine ⟨_, _, loadCurDrvCat_run h, Prog.run_modify .., forall_congr' fun i => forall_congr' fun hi => ?_⟩
  have hread : copyBytes s.disk 0 0x0e00 512 s.cat (0x0e00 + i) = s.disk i := by
    rw [copyBytes_apply _ _ _ _ hi, Nat.zero_add]
  rw [show (State.catLoaded s).cat (0x0e00 + i) = s.catOf s.curDrv (0x0e00 + i) from rfl]
  exact Eq.congr_right hread

/-- `$a817`: the sum over `$0d06` … `$0d0b` that goes with the mark at `$0d05`. -/
def BaseKnown (w : Fin 7 → Byte) : Prop :=
  w 0 = 0x54 ∧ w 1 ^^^ w 4 ^^^ w 2 ^^^ w 5 ^^^ w 3 ^^^ w 6 = 0xff

instance (w : Fin 7 → Byte) : Decidable (BaseKnown w) := inferInstanceAs (Decidable (_ ∧ _))

/-- `$a86b`: the mark of a boot sector. -/
def BootMark (c : ℕ → Byte) : Prop := c 0x0ffe = 0x55 ∧ c 0x0fff = 0xaa

instance (c : ℕ → Byte) : Decidable (BootMark c) := inferInstanceAs (Decidable (_ ∧ _))

/-- The checks from `$a87b` on: the first partition and its boot sector, both in the buffer. -/
def FatFormat (c : ℕ → Byte) : Prop :=
  (c 0x0fc8).toNat < 128 ∧ c 0x0fc9 = 0 ∧ c 0x0e0b = 0 ∧ c 0x0e0c = 2 ∧
    (c 0x0e0f).toNat < 128 ∧ (c 0x0e17).toNat < 128

instance (c : ℕ → Byte) : Decidable (FatFormat c) := inferInstanceAs (Decidable (_ ∧ _))

/-- `mmb`: the name of the image, as a directory has it. -/
def mmb : List Byte := [0x42, 0x45, 0x45, 0x42, 0x20, 0x20, 0x20, 0x20, 0x4d, 0x4d, 0x42]

/-- `$a904`: the directory entry at an offset of the first page is that of the image. -/
def ImageEntry (c : ℕ → Byte) (o : ℕ) : Prop :=
  c (0x0e0b + o) &&& 0x0f = 0 ∧ (List.range 11).map (fun y => c (0x0e00 + o + y)) = mmb

instance (c : ℕ → Byte) (o : ℕ) : Decidable (ImageEntry c o) := inferInstanceAs (Decidable (_ ∧ _))

/-- `check_sector0`, given `$0d05` … `$0d0b`.  What it finds out is stored there and used for the
sector of the transfer that follows. -/
def checkSector0 (w : Fin 7 → Byte) : Routine Unit := do
  if BaseKnown w then pure ()
  else do
    mmcReadCat
    Prog.modify fun s => { s with curDrvCat := 0xdd }
    let s ← Prog.get
    if BootMark s.cat then do
      mmcReadCat
      let s ← Prog.get
      if BootMark s.cat ∧ FatFormat s.cat then do
        mmcReadCat
        let s ← Prog.get
        if ∃ i : Fin 8, ImageEntry s.cat (0x20 * i) then pure () else Prog.fail .imageNotFound
      else Prog.fail .unrecognisedFormat
    else pure ()

/-! ## The command -/

/-- `$88c6`: a byte of the title. -/
def putTitleByte (c : ℕ → Byte) (x : ℕ) (a : Byte) : ℕ → Byte :=
  if x < 8 then Function.update c (0x0e00 + x) a else Function.update c (0x0ef8 + x) a

/-- A byte of the title in the catalogue and at `$0d5f`. -/
def storeTitle (x : ℕ) (a : Byte) (p : (ℕ → Byte) × (ℕ → Byte)) : (ℕ → Byte) × (ℕ → Byte) :=
  (putTitleByte p.1 x a, Function.update p.2 x a)

/-- `$aeab`. -/
def clearTitle : ℕ → (ℕ → Byte) × (ℕ → Byte) → (ℕ → Byte) × (ℕ → Byte)
  | 0, p => p
  | x + 1, p => clearTitle x (storeTitle x 0 p)

/-- `$aeb4`: the characters of the title from index `x` on. -/
def readTitle : List Byte → ℕ → (ℕ → Byte) × (ℕ → Byte) → (ℕ → Byte) × (ℕ → Byte)
  | [], _, p => p
  | a :: l, x, p => if x < 0x0b then readTitle l (x + 1) (storeTitle x a p) else storeTitle x a p

/-- `$aed4`: where the disk's entry in the table is, if its pages are in the buffer. -/
def entryPtr (a : Byte) (c : Bool) : ℕ :=
  256 * (((tableEntry a c).1 &&& 1) + 0x0e).toNat + ((tableEntry a c).2 &&& 0xf0).toNat

/-- `$aea7`, given what is at `$0d5f` and at `$0d05`; the contents of the buffer each time that
`mmc_write_cat` is entered.  The second time it is for the pages of the disk table. -/
def setTitle (old : ℕ → Byte) (w : Fin 7 → Byte) (chars : List Byte) : Routine (List (ℕ → Byte)) := do
  let s ← Prog.get
  let (c, title) := readTitle chars 0 (clearTitle 12 (s.cat, old))
  Prog.modify fun s => { s with cat := c }
  saveCat
  let t ← Prog.get
  let a := t.diskLo t.curDrvCat
  let k := (ror (t.diskHi t.curDrvCat) false).2
  loaddisktable
  Prog.modify fun s => { s with cat := copyBytes title 0 (entryPtr a k) 12 s.cat }
  checkSector0 w
  let u ← Prog.get
  pure [t.cat, u.cat]

/-- `cmd_title`. -/
def cmdTitle (old : ℕ → Byte) (w : Fin 7 → Byte) (chars : List Byte) : Routine (List (ℕ → Byte)) := do
  if chars = [] then Prog.fail .syntaxError
  else do
    Prog.modify fun s =>
      { s with filenameParam := Function.update s.filenameParam 7 s.defDir, curDrv := s.defDrv &&& 3 }
    loadCurDrvCat
    setTitle old w chars

/-! ## The bytes of the title -/

/-- A byte of the title, padded with zeros. -/
def titleByte (chars : List Byte) (x : ℕ) : Byte := chars.getD x 0

/-- A catalogue with another title. -/
def titledCat (c : ℕ → Byte) (chars : List Byte) : ℕ → Byte := fun a =>
  if 0x0e00 ≤ a ∧ a < 0x0e08 then titleByte chars (a - 0x0e00)
  else if 0x0f00 ≤ a ∧ a < 0x0f04 then titleByte chars (a - 0x0ef8)
  else c a

/-- Where a byte of the title is in the catalogue. -/
def titleAddr (x : ℕ) : ℕ := if x < 8 then 0x0e00 + x else 0x0ef8 + x

lemma titleAddr_inj {x y : ℕ} (hx : x < 12) (hy : y < 12) (h : titleAddr x = titleAddr y) : x = y := by
  simp only [titleAddr] at h
  split_ifs at h <;> omega

/-- A byte of the title in the catalogue and in the copy. -/
def titleAt (p : (ℕ → Byte) × (ℕ → Byte)) (y : ℕ) : Byte × Byte := (p.1 (titleAddr y), p.2 y)

section Loops

variable {p : (ℕ → Byte) × (ℕ → Byte)} {x y : ℕ}

lemma putTitleByte_eq (c : ℕ → Byte) (x : ℕ) (a : Byte) :
    putTitleByte c x a = Function.update c (titleAddr x) a := by
  rw [putTitleByte, titleAddr]
  split_ifs <;> rfl

lemma titleAt_storeTitle (a : Byte) (hx : x < 12) (hy : y < 12) :
    titleAt (storeTitle x a p) y = if y = x then (a, a) else titleAt p y := by
  simp only [titleAt, storeTitle, putTitleByte_eq]
  split_ifs with h
  · subst h
    rw [Function.update_self, Function.update_self]
  · rw [Function.update_of_ne h, Function.update_of_ne fun he => h (titleAddr_inj hy hx he)]

lemma titleAt_clearTitle (k : ℕ) : ∀ p, k ≤ 12 → y < 12 →
    titleAt (clearTitle k p) y = if y < k then (0, 0) else titleAt p y := by
  induction k with
  | zero => intro p _ _; rw [if_neg (Nat.not_lt_zero y)]; rfl
  | succ k ih =>
      intro p hk hy
      rw [clearTitle, ih _ (by omega) hy, titleAt_storeTitle 0 (by omega) hy]
      split_ifs <;> first | rfl | omega

lemma titleAt_readTitle (l : List Byte) : ∀ x p, x < 12 → y < 12 →
    titleAt (readTitle l x p) y
      = if x ≤ y ∧ y - x < l.length then (l.getD (y - x) 0, l.getD (y - x) 0) else titleAt p y := by
  induction l with
  | nil => intro x p _ _; rw [if_neg (by simp)]; rfl
  | cons a l ih =>
      intro x p hx hy
      have hstore := titleAt_storeTitle (p := p) a hx hy
      rw [readTitle]
      by_cases hlast : x < 0x0b
      · rw [if_pos hlast, ih (x + 1) _ (by omega) hy, hstore]
        by_cases hxy : x + 1 ≤ y
        · have hsub : y - x = y - (x + 1) + 1 := by omega
          rw [if_neg (show ¬ y = x by omega), hsub, List.getD_cons_succ, List.length_cons]
          simp only [hxy, true_and, show x ≤ y by omega, Nat.add_lt_add_iff_right]
        · rw [if_neg fun h => hxy h.1]
          by_cases he : y = x
          · subst he
            rw [if_pos rfl, if_pos (by simp), Nat.sub_self, List.getD_cons_zero]
          · rw [if_neg he, if_neg (by omega)]
      · rw [if_neg hlast, hstore]
        by_cases he : y = x
        · subst he
          rw [if_pos rfl, if_pos (by simp), Nat.sub_self, List.getD_cons_zero]
        · rw [if_neg he, if_neg (by omega)]

lemma storeTitle_off {b : ℕ} (a : Byte) (hx : x < 12) (hb : ∀ y < 12, b ≠ titleAddr y) :
    (storeTitle x a p).1 b = p.1 b := by
  rw [storeTitle, putTitleByte_eq]
  exact Function.update_of_ne (hb x hx) ..

lemma clearTitle_off {b : ℕ} (hb : ∀ y < 12, b ≠ titleAddr y) (k : ℕ) :
    ∀ p, k ≤ 12 → (clearTitle k p).1 b = p.1 b := by
  induction k with
  | zero => intro p _; rfl
  | succ k ih =>
      intro p hk
      rw [clearTitle, ih _ (by omega), storeTitle_off 0 (by omega) hb]

lemma readTitle_off {b : ℕ} (hb : ∀ y < 12, b ≠ titleAddr y) (l : List Byte) :
    ∀ x p, x < 12 → (readTitle l x p).1 b = p.1 b := by
  induction l with
  | nil => intro x p _; rfl
  | cons a l ih =>
      intro x p hx
      rw [readTitle]
      split_ifs with hlast
      · rw [ih _ _ (by omega), storeTitle_off a hx hb]
      · rw [storeTitle_off a hx hb]

/-- The loops put every byte of the title, padded with zeros, into both places. -/
lemma titleAt_read (c old : ℕ → Byte) (chars : List Byte) (hy : y < 12) :
    titleAt (readTitle chars 0 (clearTitle 12 (c, old))) y
      = (titleByte chars y, titleByte chars y) := by
  rw [titleAt_readTitle chars 0 _ (by decide) hy, titleAt_clearTitle 12 _ le_rfl hy, Nat.sub_zero,
    if_pos hy]
  split_ifs with h
  · rfl
  · have hle : chars.length ≤ y := by omega
    rw [titleByte, List.getD_eq_default _ _ hle]

lemma readTitle_cat (c old : ℕ → Byte) (chars : List Byte) :
    (readTitle chars 0 (clearTitle 12 (c, old))).1 = titledCat c chars := by
  funext a
  rw [titledCat]
  split_ifs with h1 h2
  · have := congrArg Prod.fst (titleAt_read (y := a - 0x0e00) c old chars (by omega))
    rwa [titleAt, titleAddr, if_pos (by omega), Nat.add_sub_cancel' h1.1] at this
  · have := congrArg Prod.fst (titleAt_read (y := a - 0x0ef8) c old chars (by omega))
    rwa [titleAt, titleAddr, if_neg (by omega), Nat.add_sub_cancel' (by omega)] at this
  · have hb : ∀ y < 12, a ≠ titleAddr y := by
      intro y hy
      rw [titleAddr]
      split_ifs <;> omega
    rw [readTitle_off hb chars 0 _ (by decide), clearTitle_off hb 12 _ le_rfl]

end Loops

/-! ## What is changed -/

lemma entryPtr_eq (a : Byte) (c : Bool) : entryPtr a c = 0x0e00 + 16 * (tableIndex a c % 32) := by
  have hpage : ∀ y : Byte, ((y &&& 1) + 0x0e).toNat = y.toNat % 2 + 0x0e := by decide
  have hoff : ∀ o : Byte, (o &&& 0xf0).toNat = 16 * (o.toNat / 16) := by decide
  obtain ⟨hy, ho⟩ := tableEntry_toNat a c
  rw [entryPtr, hpage, hoff, hy, ho]
  omega

lemma copyBytes_idem (src dst : ℕ → Byte) (p q n : ℕ) :
    copyBytes src p q n (copyBytes src p q n dst) = copyBytes src p q n dst := by
  funext a
  simp only [copyBytes]
  split_ifs <;> rfl

/-- When `check_sector0` returns, the buffer is as it was, or block 0 has been read into it. -/
lemma checkSector0_spec (w : Fin 7 → Byte) (s : State) :
    Prog.wp (checkSector0 w)
      (fun _ s' => (BaseKnown w → s'.cat = s.cat) ∧
        (¬ BaseKnown w → s'.cat = copyBytes s.disk 0 0x0e00 512 s.cat))
      (fun _ _ => True) s := by
  by_cases h : BaseKnown w
  · rw [checkSector0, if_pos h]
    exact ⟨fun _ => rfl, fun hnot => absurd h hnot⟩
  · simp only [checkSector0, mmcReadCat, Prog.wp_bind, Prog.wp_get, Prog.wp_ite,
      Prog.wp_modify, Prog.wp_pure, Prog.wp_fail, copyBytes_idem, h, false_implies, true_and,
      not_false_eq_true, true_implies, implies_true, and_true]

/-- The twelve bytes of the buffer that the title is written to as an entry of the disk table. -/
def tablePlace (s : State) (d : Byte) : ℕ :=
  0x0e00 + 16 * (tableIndex (s.diskLo d) (ror (s.diskHi d) false).2 % 32)

/-- A content of the buffer that differs from a catalogue only in the title and the cycle number. -/
def TitleOnly (c : ℕ → Byte) (chars : List Byte) (b : ℕ → Byte) : Prop :=
  ∀ a, 0x0e00 ≤ a → a < 0x1000 → a ≠ 0x0f04 → b a = titledCat c chars a

lemma titleOnly_cycled (c : ℕ → Byte) (chars : List Byte) :
    TitleOnly c chars (cycledCat (titledCat c chars)) := fun _ _ _ hne => cycledCat_of_ne _ hne

lemma cmdTitle_spec (old : ℕ → Byte) (w : Fin 7 → Byte) (chars : List Byte) (s : State) :
    Prog.wp (cmdTitle old w chars)
      (fun ws s' => ∃ title : ℕ → Byte, (∀ x < 12, title x = titleByte chars x) ∧
        ws = [cycledCat (titledCat (s.catOf (s.defDrv &&& 3)) chars), s'.cat] ∧
        (BaseKnown w → s'.cat = copyBytes title 0 (tablePlace s (s.defDrv &&& 3)) 12
          (cycledCat (titledCat (s.catOf (s.defDrv &&& 3)) chars))) ∧
        (¬ BaseKnown w → ∃ b, s'.cat = copyBytes s.disk 0 0x0e00 512 b))
      (fun _ _ => True) s := by
  simp only [cmdTitle, Prog.wp_bind, Prog.wp_ite, Prog.wp_fail, Prog.wp_modify, implies_true,
    true_and]
  intro _
  refine Prog.wp_mono (loadCurDrvCat_spec _) ?_ fun _ _ _ => trivial
  rintro _ t ⟨rfl, -⟩
  simp only [setTitle, Prog.wp_bind, Prog.wp_get, Prog.wp_modify]
  refine Prog.wp_mono (saveCat_spec _) ?_ fun _ _ _ => trivial
  rintro _ t ⟨rfl, -⟩
  simp only [loaddisktable, Prog.wp_pure]
  refine Prog.wp_mono (checkSector0_spec w _) ?_ fun _ _ _ => trivial
  rintro _ u ⟨hknown, hread⟩
  refine ⟨_, fun x hx => congrArg Prod.snd (titleAt_read (s.catOf (s.defDrv &&& 3)) old chars hx),
    ?_, fun h => ?_, fun h => ⟨_, hread h⟩⟩
  · rw [← readTitle_cat _ old]
    rfl
  · rw [hknown h, ← readTitle_cat _ old, tablePlace, ← entryPtr_eq]
    rfl

/-- Bytes written over a part of the buffer keep it a titled catalogue when they are those of the
titled catalogue. -/
lemma titleOnly_copyBytes_iff {c src b : ℕ → Byte} {chars : List Byte} {q n : ℕ} (hq : 0x0e00 ≤ q)
    (hqn : q + n ≤ 0x1000) (hb : ∀ a, (a < q ∨ q + n ≤ a) → 0x0e00 ≤ a → a < 0x1000 → a ≠ 0x0f04 →
      b a = titledCat c chars a) :
    TitleOnly c chars (copyBytes src 0 q n b) ↔
      ∀ x < n, q + x ≠ 0x0f04 → src x = titledCat c chars (q + x) := by
  constructor
  · intro h x hx hne
    rw [← h (q + x) (by omega) (by omega) hne, copyBytes_apply _ _ _ _ hx, Nat.zero_add]
  · intro h a h1 h2 hne
    by_cases hin : q ≤ a ∧ a < q + n
    · have hx := h (a - q) (by omega) (by omega)
      rw [Nat.add_sub_cancel' hin.1] at hx
      rw [copyBytes, if_pos hin, Nat.zero_add, hx]
    · rw [copyBytes_of_not _ _ (by omega)]
      exact hb a (by omega) h1 h2 hne

/-- **When `*TITLE` changes only the title.**  A run that completes leaves the catalogue as it was
loaded with nothing changed but the title and the cycle number, and enters `mmc_write_cat` with
nothing else, exactly when the twelve bytes at the disk's place in the table already are as the
title would have them, or, if `check_sector0` has to read the first sectors, when the block it
reads is the catalogue with its new title. -/
theorem cmdTitle_titleOnly_iff (s s' : State) (old : ℕ → Byte) (w : Fin 7 → Byte) (chars : List Byte)
    (ws : List (ℕ → Byte)) (hrun : (cmdTitle old w chars).run s = .ok ws s') :
    (TitleOnly (s.catOf (s.defDrv &&& 3)) chars s'.cat ∧
        ∀ b ∈ ws, TitleOnly (s.catOf (s.defDrv &&& 3)) chars b) ↔
      (BaseKnown w → ∀ x < 12, tablePlace s (s.defDrv &&& 3) + x ≠ 0x0f04 →
        titleByte chars x
          = titledCat (s.catOf (s.defDrv &&& 3)) chars (tablePlace s (s.defDrv &&& 3) + x)) ∧
      (¬ BaseKnown w → ∀ x < 512, 0x0e00 + x ≠ 0x0f04 →
        s.disk x = titledCat (s.catOf (s.defDrv &&& 3)) chars (0x0e00 + x)) := by
  have hspec := cmdTitle_spec old w chars s
  rw [Prog.wp_of_ok hrun] at hspec
  obtain ⟨title, htitle, rfl, hknown, hread⟩ := hspec
  set c := s.catOf (s.defDrv &&& 3)
  have hwritten : (TitleOnly c chars s'.cat ∧ ∀ b ∈ [cycledCat (titledCat c chars), s'.cat],
      TitleOnly c chars b) ↔ TitleOnly c chars s'.cat := by
    refine ⟨And.left, fun h => ⟨h, fun b hb => ?_⟩⟩
    rcases List.mem_pair.1 hb with rfl | rfl
    · exact titleOnly_cycled c chars
    · exact h
  rw [hwritten]
  have hlo : 0x0e00 ≤ tablePlace s (s.defDrv &&& 3) := Nat.le_add_right ..
  have hhi : tablePlace s (s.defDrv &&& 3) + 12 ≤ 0x1000 := by
    rw [tablePlace]
    omega
  by_cases h : BaseKnown w
  · rw [hknown h, titleOnly_copyBytes_iff hlo hhi
      fun a _ h1 h2 hne => titleOnly_cycled c chars a h1 h2 hne]
    constructor
    · exact fun hall => ⟨fun _ x hx hne => (htitle x hx).symm.trans (hall x hx hne),
        fun hnot => absurd h hnot⟩
    · exact fun hall x hx hne => (htitle x hx).trans (hall.1 h x hx hne)
  · obtain ⟨b, hb⟩ := hread h
    rw [hb, titleOnly_copyBytes_iff le_rfl (by decide) fun a h1 h2 h3 _ => by omega]
    exact ⟨fun hall => ⟨fun hk => absurd hk h, fun _ => hall⟩, fun hall => hall.2 h⟩

/-- A writable disk 0 with two files, `$.A` and `$.B`, of which the second has its name at `$0e10`. -/
def twoNames : State :=
  { stateWithDisk 0 0 with
    diskMark := fun _ => 0x54
    cats := fun _ a =>
      if a = 0x0f05 then 16
      else if a = 0x0e08 then 0x41
      else if a = 0x0e10 then 0x42
      else if a = 0x0e0f ∨ a = 0x0e17 then 0x24
      else 0 }

/-- `$0d05` … `$0d0b` with the mark and a sum of `$ff`. -/
def knownBase : Fin 7 → Byte := ![0x54, 0, 0, 0, 0xff, 0, 0]

/-- The names and directories of `$.A`, `$.LETTERS` and `$.MEMO`. -/
def letterNames : List Byte :=
  [0x41, 0x20, 0x20, 0x20, 0x20, 0x20, 0x20, 0x24, 0x4c, 0x45, 0x54, 0x54, 0x45, 0x52, 0x53, 0x24,
    0x4d, 0x45, 0x4d, 0x4f, 0x20, 0x20, 0x20, 0x24]

/-- A writable disk 0 with these three files. -/
def letterDisk : State :=
  { stateWithDisk 0 0 with
    diskMark := fun _ => 0x54
    cats := fun _ a =>
      if a = 0x0f05 then 24 else if 0x0e08 ≤ a then letterNames.getD (a - 0x0e08) 0 else 0 }

/-- `LETTERS$MEMO`. -/
def letterTitle : List Byte := (letterNames.drop 8).take 12

/-- Under a title that is spelt as the names at the disk's place in the table nothing else is
changed. -/
theorem letterTitle_titleOnly : ∃ ws s', (cmdTitle (fun _ => 0) knownBase letterTitle).run letterDisk
      = .ok ws s' ∧ TitleOnly (letterDisk.catOf 0) letterTitle s'.cat ∧
    ∀ b ∈ ws, TitleOnly (letterDisk.catOf 0) letterTitle b := by
  refine ⟨_, _, rfl, (cmdTitle_titleOnly_iff letterDisk _ (fun _ => 0) knownBase letterTitle _ rfl).2
    ⟨fun _ => ?_, fun h => absurd (by decide) h⟩⟩
  decide

/-- `*TITLE` with a title of `D` overwrites the name of the second file. -/
theorem titleD_not_titleOnly : ∃ ws s', (cmdTitle (fun _ => 0) knownBase [0x44]).run twoNames
      = .ok ws s' ∧ ¬ TitleOnly (twoNames.catOf 0) [0x44] s'.cat := by
  refine ⟨_, _, rfl, fun h => ?_⟩
  have hname := h 0x0e10 (by decide) (by decide) (by decide)
  exact absurd hname (by decide)

end Udfs.Rom
