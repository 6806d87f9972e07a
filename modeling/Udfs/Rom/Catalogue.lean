import Udfs.Rom.Media

/-!
# Names and the catalogue

A file is named by a string that GSREAD delivers character by character; it is taken apart
into a drive, a directory and seven characters.  The catalogue holds up to 31 entries of
sixteen bytes, eight of them in each of its two pages, packed from the start in order of
decreasing start sector.  A search loads the catalogue of the current drive and goes through
the entries; a deletion closes the gap an entry leaves, and a creation looks for room below
the entries from the last one up and makes a gap there.
-/

namespace Udfs.Rom

/-! ## File names -/

/-- `$877e`. -/
def setDrive (a : Byte) : Routine Unit := Prog.modify fun s => { s with curDrv := a &&& 3 }

/-- A file specification as it is taken apart: `filename_param` with `directory_param`, and the
drive. -/
structure Fsp where
  name : Fin 8 → Byte
  drv : Byte

namespace Fsp

/-- Store a character of the name, or the directory at index 7. -/
def put (f : Fsp) (i : Fin 8) (a : Byte) : Fsp := { f with name := Function.update f.name i a }

/-- `$8162`: the name from index `x` on becomes wildcards. -/
def fillWild (f : Fsp) (x : ℕ) : Fsp :=
  { f with name := fun i => if x ≤ i.val ∧ i.val < 7 then 0x23 else f.name i }

end Fsp

/-- `$817c`: the characters of the name from index `x` on. -/
def nameChars : List Byte → ℕ → Fsp → Fsp × Option Err
  | [], _, f => (f, none)
  | a :: l, x, f =>
      if x = 7 then (f, some .badFilename)
      else if a = 0x2a then
        -- `*` stands only at the end
        if l = [] then (f.fillWild x, none) else (f, some .badFilename)
      else nameChars l (x + 1) (f.put (Fin.ofNat 8 x) a)

/-- `$811b`: a drive and a directory, if given, then the name.  An error keeps what has been stored
by then. -/
def fspCont : List Byte → Fsp → Fsp × Option Err
  | [], f => (f, none)
  | a :: l, f =>
      let f := f.put 0 a
      if a = 0x2e then fspCont l (f.put 7 0x20)
      else if a = 0x3a then
        match l with
        | [] => (f, some .badDrive)
        | d :: l =>
            if 0x30 ≤ d.toNat ∧ d.toNat < 0x34 then
              let f := { f with drv := (d - 0x30) &&& 3 }
              match l with
              | [] => (f, none)
              | e :: l => if e = 0x2e then fspCont l (f.put 7 0x24) else (f, some .badDrive)
            else (f, some .badDrive)
      else if a = 0x2a then
        match l with
        | [] => (f.fillWild 0, none)
        | e :: l => if e = 0x2e then fspCont l (f.put 7 0x23) else (f, some .badFilename)
      else
        match l with
        | [] => (f, none)
        | e :: l => if e = 0x2e then fspCont l (f.put 7 a) else nameChars (e :: l) 1 f

/-- The start: the current drive and directory, and spaces. -/
def defaultFsp (dir drv : Byte) : Fsp := ⟨fun i => if i = 7 then dir else 0x20, drv &&& 3⟩

namespace State

/-- A string taken apart. -/
def fsp (s : State) (chars : List Byte) : Fsp × Option Err :=
  fspCont chars (defaultFsp s.defDir s.defDrv)

/-- The state with a file specification in its fields. -/
def withFsp (s : State) (f : Fsp) : State := { s with filenameParam := f.name, curDrv := f.drv }

end State

/-- `$8106` and `$80fe`. -/
def readFsp (chars : List Byte) : Routine Unit := do
  let s ← Prog.get
  Prog.modify fun s => s.withFsp (s.fsp chars).1
  match (s.fsp chars).2 with
  | none => pure ()
  | some e => Prog.fail e

lemma readFsp_run (chars : List Byte) (s : State) :
    (readFsp chars).run s = match (s.fsp chars).2 with
      | none => .ok () (s.withFsp (s.fsp chars).1)
      | some e => .err e (s.withFsp (s.fsp chars).1) := by
  rw [readFsp, Prog.run_bind, Prog.run_get]
  simp only [Prog.run_bind, Prog.run_modify]
  cases (s.fsp chars).2 <;> rfl

lemma readFsp_spec (chars : List Byte) (s : State) :
    Prog.wp (readFsp chars) (fun _ s' => s' = s.withFsp (s.fsp chars).1 ∧ (s.fsp chars).2 = none)
      (fun e s' => s' = s.withFsp (s.fsp chars).1 ∧ (s.fsp chars).2 = some e) s := by
  rw [Prog.wp, readFsp_run]
  cases h : (s.fsp chars).2 with
  | none => exact ⟨rfl, rfl⟩
  | some e => exact ⟨rfl, rfl⟩

/-- `$82ee`: the carry tells that a character is not a letter. -/
def notLetter (a : Byte) : Bool := !(decide (0x41 ≤ (a &&& 0xdf).toNat) && decide ((a &&& 0xdf).toNat < 0x5b))

/-- One character of the comparison in `get_cat_nextentry2`: the name sought may hold the
wildcard character, and its letters stand for both cases. -/
def matchChar (wild a e : Byte) : Bool :=
  a = wild || ((a ^^^ e) &&& (if notLetter a then 0xff else 0xdf)) &&& 0x7f = 0

/-- The comparison of a name with an entry's. -/
def matchName (wild : Byte) (f e : Fin 8 → Byte) : Bool :=
  decide (∀ i, matchChar wild (f i) (e i) = true)

/-! ## Searching -/

/-- `get_cat_nomatch_loop`: step back over the rest of the name. -/
def skipName : ℕ → Byte → Byte
  | 0, y => y
  | x + 1, y => skipName x (y - 1)

/-- `$82ad`: compare the name from its character `x - 1` down, `y` going down with it.  Either way
`y` ends at the entry. -/
def compareName (wild : Byte) (f : Fin 8 → Byte) (c : ℕ → Byte) : ℕ → Byte → Bool × Byte
  | 0, y => (true, y)
  | x + 1, y =>
      if matchChar wild (f (Fin.ofNat 8 x)) (c (0x0e07 + y.toNat)) then
        compareName wild f c x (y - 1)
      else (false, skipName (x + 1) y)

/-- `get_cat_nextentry2` after the entry at `y`, over at most `k` entries; with a count byte above
`$f8` the source would go round for ever. -/
def nextEntry (wild : Byte) (f : Fin 8 → Byte) (c : ℕ → Byte) : ℕ → Byte → Option Byte
  | 0, _ => none
  | k + 1, y =>
      -- `$8210`: y goes up by eight before it is compared with the count, and again after
      if (c 0x0f05).toNat ≤ (y + 8).toNat then none
      else
        let r := compareName wild f c 8 (y + 8 + 8)
        if r.1 then some r.2 else nextEntry wild f c k r.2

/-- `get_cat_nextentry2`: the offset of the entry found is left in `$10ce`. -/
def getCatNextentry2 (y : Byte) : Routine (Option ℕ) := do
  let s ← Prog.get
  match nextEntry s.wildcard s.filenameParam s.cat 32 y with
  | none => pure none
  | some y => do
      Prog.modify fun s => { s with catEntry := y }
      pure (some y.toNat)

/-- `$8296`: the first entry of the current drive's catalogue that has the name. -/
def searchCat : Routine (Option ℕ) := do
  loadCurDrvCat
  getCatNextentry2 0xf8

/-- `$829d`: the next entry that has the name. -/
def searchNext : Routine (Option ℕ) := do
  let s ← Prog.get
  getCatNextentry2 s.catEntry

/-! ## Saving the catalogue -/

/-- `adc #$01` in decimal mode, with the carry clear. -/
def bcdInc (a : Byte) : Byte :=
  let lo := a.toNat % 16 + 1
  let lo := if 10 ≤ lo then (lo + 6) % 16 + 16 else lo
  let r := 16 * (a.toNat / 16) + lo
  BitVec.ofNat 8 (if 0xa0 ≤ r then r + 0x60 else r)

/-- `$8ab4`: count the cycle of the catalogue and save it. -/
def saveCat : Routine Unit := do
  Prog.modify fun s => { s with cat := Function.update s.cat 0x0f04 (bcdInc (s.cat 0x0f04)) }
  saveCurDrvCat

/-- The catalogue with its cycle number counted on. -/
def cycledCat (c : ℕ → Byte) : ℕ → Byte := Function.update c 0x0f04 (bcdInc (c 0x0f04))

lemma cycledCat_of_ne (c : ℕ → Byte) {a : ℕ} (h : a ≠ 0x0f04) : cycledCat c a = c a :=
  Function.update_of_ne h ..

namespace State

/-- The catalogue in the buffer with its cycle number counted on. -/
def cycled (s : State) : State :=
  { s with cat := Function.update s.cat 0x0f04 (bcdInc (s.cat 0x0f04)) }

end State

lemma saveCat_spec (s : State) :
    Prog.wp saveCat (fun _ s' => s' = s.cycled.catSaved ∧ s.CanWrite s.curDrv)
      (fun e s' => s.cycled.Ejected s' ∧ ¬ s.CanWrite s.curDrv ∧ e.Refusal) s := by
  simp only [saveCat, Prog.wp_bind, Prog.wp_modify]
  exact saveCurDrvCat_spec s.cycled

lemma saveCat_run {s : State} (hw : s.CanWrite s.curDrv) : saveCat.run s = .ok () s.cycled.catSaved := by
  rw [saveCat, Prog.run_bind_ok (Prog.run_modify _ s)]
  exact saveCurDrvCat_run (s := s.cycled) hw

/-! ## The channels that have an entry open -/

namespace State

/-- The channel block at `y` is for the file of the entry at `x` on the current drive. -/
def sameFile (s : State) (x : ℕ) (y : Byte) : Bool :=
  decide (((s.chan y).flags ^^^ s.curDrv) &&& 3 = 0) &&
    decide (∀ i, (entryName s.cat x i ^^^ (s.chan y).name i) &&& 0x7f = 0)

end State

/-- `$8fab`: look at the channel at `y` with bit `b` and at those after it, `n` at most.  A free
channel is noted; the first one in use for the file of the entry at `x` ends the search. -/
def scanChannels (x : ℕ) : ℕ → Byte → Byte → Routine (Option (Byte × Byte))
  | 0, _, _ => pure none
  | n + 1, y, b => do
      let s ← Prog.get
      if s.inUse &&& b = 0 then do
        Prog.modify fun s => { s with chanOff := y, freeBit := b }
        if b <<< 1 = 0 then pure none else scanChannels x n (y - 0x20) (b <<< 1)
      else if s.sameFile x y then pure (some (y, b))
      else if b <<< 1 = 0 then pure none
      else scanChannels x n (y - 0x20) (b <<< 1)

/-- `$8f9e`. -/
def findChannel (x : ℕ) : Routine (Option (Byte × Byte)) := do
  Prog.modify fun s => { s with chanOff := 0 }
  scanChannels x 5 0xa0 0x08

/-- `$8f99`: go on with the channel after the one at `y`. -/
def findNextChannel (x : ℕ) (y b : Byte) : Routine (Option (Byte × Byte)) :=
  if b <<< 1 = 0 then pure none else scanChannels x 5 (y - 0x20) (b <<< 1)

/-- `$983c`. -/
def checkLocked (y : ℕ) : Routine Unit := do
  let s ← Prog.get
  if 128 ≤ (s.cat (0x0e0f + y)).toNat then Prog.fail .fileLocked else pure ()

/-- `$984f`. -/
def checkOpen (y : ℕ) : Routine Unit := do
  let r ← findChannel y
  if r = none then pure () else Prog.fail .fileOpen

/-- `$984c`. -/
def checkLockedOpen (y : ℕ) : Routine Unit := do
  checkLocked y
  checkOpen y

/-! ## Deleting and creating -/

/-- `$82d4`: move the bytes of both pages down by one entry, `k` of them from offset `y` on. -/
def shiftDown (c : ℕ → Byte) : ℕ → ℕ → ℕ → Byte
  | 0, _ => c
  | k + 1, y =>
      let c := Function.update c (0x0e08 + y) (c (0x0e10 + y))
      let c := Function.update c (0x0f08 + y) (c (0x0f10 + y))
      shiftDown c k (y + 1)

/-- `$82d1`: delete the entry at `y`. -/
def deleteEntry (y : ℕ) : Routine Unit := do
  checkLockedOpen y
  Prog.modify fun s =>
    { s with cat := Function.update (shiftDown s.cat (s.count - y) y) 0x0f05 (s.cat 0x0f05 - 8) }

/-- What a creation is given: the load and execution addresses at `$be` … `$c1`, the start and end
of the data at `$c2` … `$c5`, and their high bytes at `$1074`, `$1076`, `$1078` and `$107a`. -/
structure FileBlock where
  be : Byte
  bf : Byte
  c0 : Byte
  c1 : Byte
  c2 : Byte
  c3 : Byte
  c4 : Byte
  c5 : Byte
  w1074 : Byte
  w1076 : Byte
  w1078 : Byte
  w107a : Byte

namespace FileBlock

/-- `$8972`: the length as the difference of the addresses. -/
def length (f : FileBlock) : Num24 :=
  let (l0, c) := sbc f.c4 f.c2 true
  let (l1, c) := sbc f.c5 f.c3 c
  let (l2, _) := sbc f.w107a f.w1078 c
  ⟨l0, l1, l2⟩

end FileBlock

/-- `get_next_block`: the sector after the entry at `y`, high and low byte. -/
def nextBlock (c : ℕ → Byte) (y : ℕ) : Byte × Byte :=
  let (_, k) := adc 0xff (c (0x0f0c + y)) false
  let (c5, k) := adc (c (0x0f0f + y)) (c (0x0f0d + y)) k
  let (c4, _) := adc (c (0x0f0e + y) &&& 3) (lsr4And3 (c (0x0f0e + y))) k
  (c4, c5)

/-- `get_first_block`: the carry tells that the length fits between the sector and the entry
before the one at `y`, or the end of the disk. -/
def firstBlock (c : ℕ → Byte) (y : ℕ) (c4 c5 : Byte) (len : Num24) : Bool :=
  let (f0, k) := sbc (c (0x0f07 + y)) c5 true
  let (f1, _) := sbc (c (0x0f06 + y) &&& 3) c4 k
  let (_, k) := sbc f0 len.mid (cmpCarry 0 len.lo)
  let (_, k) := sbc f1 len.hi k
  k

/-- `$89b4`: go up from offset `y` until the length fits, over at most `k` places. -/
def findGap (c : ℕ → Byte) (len : Num24) : ℕ → ℕ → Byte → Byte → Option (ℕ × Byte × Byte)
  | 0, _, _, _ => none
  | k + 1, y, c4, c5 =>
      if firstBlock c y c4 c5 len then some (y, c4, c5)
      else if y = 0 then none
      else findGap c len k (y - 8) (nextBlock c (y - 8)).1 (nextBlock c (y - 8)).2

/-- `$89c4`: move the bytes of both pages up by one entry, `k` of them below offset `y`. -/
def shiftUp (c : ℕ → Byte) : ℕ → ℕ → ℕ → Byte
  | 0, _ => c
  | k + 1, y =>
      let c := Function.update c (0x0e0f + y) (c (0x0e07 + y))
      let c := Function.update c (0x0f0f + y) (c (0x0f07 + y))
      shiftUp c k (y - 1)

/-- `$8a17`: the byte that start sector, load address, length and execution address share. -/
def mixedByte (w1076 c6 w1074 c4 : Byte) : Byte :=
  let a := (w1076 &&& 3) <<< 2
  let a := ((a ^^^ c6) &&& 0xfc) ^^^ c6
  let a := a <<< 2
  let a := ((a ^^^ w1074) &&& 0xfc) ^^^ w1074
  let a := a <<< 2
  ((a ^^^ c4) &&& 0xfc) ^^^ c4

lemma nameByte_lt {a y : ℕ} (h : 0x0e08 + y ≤ a ∧ a < 0x0e10 + y) : a - (0x0e08 + y) < 8 := by
  omega

/-- Put an entry's sixteen bytes at offset `y`. -/
def putEntry (c : ℕ → Byte) (y : ℕ) (name info : Fin 8 → Byte) : ℕ → Byte := fun a =>
  if h : 0x0e08 + y ≤ a ∧ a < 0x0e10 + y then name ⟨a - (0x0e08 + y), nameByte_lt h⟩
  else if h : 0x0f08 + y ≤ a ∧ a < 0x0f10 + y then info ⟨a - (0x0f08 + y), by omega⟩
  else c a

/-- The second half of a new entry. -/
def newInfo (f : FileBlock) (len : Num24) (c4 c5 : Byte) : Fin 8 → Byte :=
  ![f.be, f.bf, f.c0, f.c1, len.lo, len.mid, mixedByte f.w1076 len.hi f.w1074 c4, c5]

/-- `createfile_endofdisk`: the new entry at `y`, starting at sector `c4`, `c5`. -/
def writeNewEntry (f : FileBlock) (len : Num24) (y : ℕ) (c4 c5 : Byte) : Routine ℕ := do
  Prog.modify fun s => { s with cat := putEntry s.cat y s.filenameParam (newInfo f len c4 c5) }
  Prog.modify fun s => { s with cat := Function.update s.cat 0x0f05 (s.cat 0x0f05 + 8) }
  saveCat
  pure y

/-- `$899d`: an entry for a file of the given length. -/
def addEntry (f : FileBlock) (len : Num24) : Routine ℕ := do
  let s ← Prog.get
  if s.count = 0 then writeNewEntry f len 0 0 2
  else if 0xf8 ≤ s.count then Prog.fail .catalogueFull
  else
    match findGap s.cat len 32 s.count 0 2 with
    | none => Prog.fail .diskFull
    | some (y, c4, c5) => do
        Prog.modify fun s => { s with cat := shiftUp s.cat (s.count - y) s.count }
        writeNewEntry f len y c4 c5

/-- `$8961`: create a file in place of one of that name.  The start of the data goes back to
`$be` for the transfer that follows a creation. -/
def createFile (chars : List Byte) (f : FileBlock) : Routine ℕ := do
  readFsp chars
  match ← searchCat with
  | none => addEntry f f.length
  | some y => do
      deleteEntry y
      addEntry f f.length

end Udfs.Rom
