import Udfs.Rom.Destroy
import Udfs.Rom.Title

/-!
# Loading a ROM image

`*DROM` looks for a bank of sideways memory, finds a file and copies it into the bank, two
sectors at a time: `mmc_read_cat` reads them into the catalogue buffer and a routine in RAM,
patched with the bank and the destination page, moves the buffer into the bank.  The sector
number is advanced by two after each pass, but the `mmc_read_cat` of this version reads block 0
whatever the sector.
-/

namespace Udfs.Rom

/-! ## Sideways memory -/

/-- The banks of sideways memory by their numbers, and which of them can be written. -/
structure Slots where
  mem : Byte → ℕ → Byte
  ram : Byte → Bool

namespace Slots

/-- A store while bank `x` is selected. -/
def store (b : Slots) (x : Byte) (a : ℕ) (v : Byte) : Slots :=
  if b.ram x then { b with mem := Function.update b.mem x (Function.update (b.mem x) a v) } else b

/-- `$b8e7`: whether bank `x` keeps what is written to it; it is left as it was. -/
def probe (b : Slots) (x : Byte) : Bool × Slots :=
  let v := b.mem x 0xbfff
  let c := b.store x 0xbfff (v ^^^ 0xff)
  (decide (v ^^^ c.mem x 0xbfff = 0xff), c.store x 0xbfff v)

/-- `$b8e7` for the banks below `n`, the highest first; `k` banks that can be written are passed
over. -/
def findBank : ℕ → ℕ → Slots → Option Byte × Slots
  | 0, _, b => (none, b)
  | n + 1, k, b =>
      let r := b.probe (BitVec.ofNat 8 n)
      if r.1 then
        if k = 0 then (some (BitVec.ofNat 8 n), r.2) else findBank n (k - 1) r.2
      else findBank n k r.2

/-- `$b8cb`: move the two pages of the buffer to the bank, from the given page on. -/
def movePages (b : Slots) (x : Byte) (page : ℕ) (c : ℕ → Byte) : Slots :=
  if b.ram x then
    { b with mem := Function.update b.mem x (copyBytes c 0x0e00 (256 * page) 512 (b.mem x)) }
  else b

end Slots

/-! ## The loop -/

/-- What a pass of the loop works on: the memory, the banks, `sector` and the destination page. -/
structure DromRun where
  state : State
  slots : Slots
  sector : Num24
  page : ℕ

/-- `$b8ab`: `sector` goes up by two; a carry out of its middle byte goes into that byte again. -/
def nextSector (p : Num24) : Num24 :=
  let (lo, c) := adc p.lo 2 false
  if c then
    if p.mid + 1 = 0 then ⟨lo, p.mid + 1 + 1, p.hi⟩ else ⟨lo, p.mid + 1, p.hi⟩
  else ⟨lo, p.mid, p.hi⟩

/-- `$b8a5`: one pass. -/
def dromPass (x : Byte) (r : DromRun) : DromRun :=
  let s := (mmcReadCat.run r.state).state
  ⟨s, r.slots.movePages x r.page s.cat, nextSector r.sector, r.page + 2⟩

/-! ## The command -/

/-- `$b855`: shifted left less than `k` times, the byte comes to `$40`. -/
def romSize : ℕ → Byte → Bool
  | 0, _ => false
  | k + 1, a => a = 0x40 || romSize k (asl a).1

/-- The checks from `$b82f` on, of the second half of a catalogue entry. -/
def AcceptsRom (info : Fin 8 → Byte) : Prop :=
  ((info 6 >>> 2) &&& 3 = 0 ∨ (info 6 >>> 2) &&& 3 = 3) ∧ info 4 = 0 ∧ (info 5).toNat < 128 ∧
    romSize 5 (info 5) = true

instance (info : Fin 8 → Byte) : Decidable (AcceptsRom info) := inferInstanceAs (Decidable (_ ∧ _))

/-- `$b875`: the first sector of a file on a disk. -/
def firstSector (base : Num24) (info : Fin 8 → Byte) : Num24 :=
  let (s0, c) := adc base.lo (info 7) false
  let (s1, c) := adc base.mid (info 6 &&& 3) c
  let (s2, _) := adc 0 base.hi c
  ⟨s0, s1, s2⟩

/-- `drom`, with the number of banks to pass over, which a digit in front of the name gives; the
bank chosen and what the loop leaves. -/
def drom (b : Slots) (k : ℕ) (chars : List Byte) : Routine (Byte × DromRun) := do
  match b.findBank 16 k with
  | (none, _) => Prog.fail .noSidewaysRam
  | (some x, b) => do
      Prog.modify fun s => { s with wildcard := 0xff }
      if chars = [] then Prog.fail .syntaxError
      else do
        readFsp chars
        let y ← findFile
        let s ← Prog.get
        let info := entryInfo s.cat y
        if AcceptsRom info then do
          let base ← drvBaseSector s.curDrv
          Prog.modify fun s => { s with curDrvCat := 0xff }
          let s ← Prog.get
          -- half the middle byte of the length is the number of passes
          let r := (dromPass x)^[(info 5).toNat / 2] ⟨s, b, firstSector base info, 0x80⟩
          Prog.modify fun _ => r.state
          pure (x, r)
        else Prog.fail .badRomSize

/-! ## What a pass does -/

section Passes

variable {b : Slots} {x : Byte}

lemma probe_slots (b : Slots) (x : Byte) : (b.probe x).2 = b := by
  rw [Slots.probe]
  simp only [Slots.store]
  split_ifs with h
  · simp
  · rfl

lemma probe_ram (h : (b.probe x).1 = true) : b.ram x = true := by
  by_contra hram
  rw [Slots.probe] at h
  simp [Slots.store, hram] at h

/-- The bank found can be written, and looking for it has changed nothing. -/
lemma findBank_some {c : Slots} (n : ℕ) : ∀ k, b.findBank n k = (some x, c) → b.ram x = true ∧ c = b := by
  induction n with
  | zero => rintro k ⟨⟩
  | succ n ih =>
      intro k h
      rw [Slots.findBank] at h
      simp only [probe_slots] at h
      split_ifs at h with h1 h2
      · obtain ⟨rfl, rfl⟩ : BitVec.ofNat 8 n = x ∧ b = c := by simpa using h
        exact ⟨probe_ram h1, rfl⟩
      · exact ih (k - 1) h
      · exact ih k h

lemma eq_ff_of_add_one {a : Byte} (h : a + 1 = 0) : a.toNat = 255 := by
  revert a
  decide

/-- The sector number goes up by two unless it crosses a multiple of 65536. -/
lemma nextSector_val (p : Num24) : (nextSector p).val = p.val + 2 ↔ p.val % 65536 < 65534 := by
  have h2 : (2 : Byte).toNat = 2 := rfl
  have hadd := adc_eq p.lo 2 false
  have hlt := byte_lt (adc p.lo 2 false).1
  have hlo := byte_lt p.lo
  have hmid := byte_lt p.mid
  rw [h2, Bool.toNat_false] at hadd
  rw [nextSector]
  generalize adc p.lo 2 false = q at hadd hlt ⊢
  rcases q with ⟨lo, c⟩
  cases c with
  | false =>
      simp only [Bool.toNat_false] at hadd hlt
      simp only [Num24.val, Bool.false_eq_true, if_false]
      omega
  | true =>
      simp only [Bool.toNat_true] at hadd hlt
      simp only [if_true]
      split_ifs with hwrap
      · have hff := eq_ff_of_add_one hwrap
        have h01 : (p.mid + 1 + 1).toNat = 1 := by rw [hwrap]; rfl
        simp only [Num24.val, h01, hff]
        omega
      · have hne := toNat_add_one hwrap
        simp only [Num24.val, hne]
        omega

/-- What the passes leave: block 0 again and again in the bank. -/
structure AfterPasses (s : State) (p : Num24) (x : Byte) (m : ℕ) (r : DromRun) : Prop where
  disk : r.state.disk = s.disk
  ram : r.slots.ram x = true
  moved : ∀ j < 512 * m, r.slots.mem x (0x8000 + j) = s.disk (j % 512)
  sector : r.sector = nextSector^[m] p
  page : r.page = 0x80 + 2 * m

lemma dromPass_iterate {s : State} {p : Num24} (hram : b.ram x = true) (m : ℕ) :
    AfterPasses s p x m ((dromPass x)^[m] ⟨s, b, p, 0x80⟩) := by
  induction m with
  | zero => exact ⟨rfl, hram, fun j hj => absurd hj (Nat.not_lt_zero j), rfl, rfl⟩
  | succ m ih =>
      rw [Function.iterate_succ_apply']
      obtain ⟨hdisk, hram', hmoved, hsector, hpage⟩ := ih
      generalize (dromPass x)^[m] ⟨s, b, p, 0x80⟩ = r at hdisk hram' hmoved hsector hpage
      refine ⟨hdisk, ?_, fun j hj => ?_, ?_, ?_⟩
      · simp only [dromPass, Slots.movePages, hram', if_true]
      · simp only [dromPass, Slots.movePages, hram', if_true, Function.update_self, mmcReadCat,
          Prog.run_modify, Outcome.state_ok, hdisk, hpage]
        by_cases hold : j < 512 * m
        · rw [copyBytes_of_not _ _ (by omega)]
          exact hmoved j hold
        · have hsplit : 0x8000 + j = 256 * (0x80 + 2 * m) + j % 512 := by omega
          have hlt : j % 512 < 512 := Nat.mod_lt _ (by decide)
          rw [hsplit, copyBytes_apply _ _ _ _ hlt, copyBytes_apply _ _ _ _ hlt, Nat.zero_add]
      · rw [Function.iterate_succ_apply', ← hsector]
        rfl
      · simp only [dromPass, hpage]
        omega

/-- The sector number keeps up with the file as long as it does not cross a multiple of 65536. -/
lemma nextSector_iterate (p : Num24) (n : ℕ) :
    (∀ m ≤ n, (nextSector^[m] p).val = p.val + 2 * m) ↔ ∀ m < n, (p.val + 2 * m) % 65536 < 65534 := by
  constructor
  · intro h m hm
    have h1 := h m hm.le
    have h2 := h (m + 1) hm
    rw [Function.iterate_succ_apply'] at h2
    rw [← h1]
    exact (nextSector_val _).1 (by omega)
  · intro h m
    induction m with
    | zero => exact fun _ => rfl
    | succ m ih =>
        intro hm
        have hval := ih (by omega)
        have hnext := (nextSector_val (nextSector^[m] p)).2 (by rw [hval]; exact h m (by omega))
        rw [Function.iterate_succ_apply', hnext, hval]
        ring

end Passes

/-! ## What is loaded -/

lemma firstSector_val {base : Num24} (info : Fin 8 → Byte) (h : base.val < 16777216 - 1024) :
    (firstSector base info).val = base.val + (⟨fun _ => 0, info⟩ : Entry).start := by
  have h0 : (0 : Byte).toNat = 0 := rfl
  have e1 := adc_eq base.lo (info 7) false
  have e2 := adc_eq base.mid (info 6 &&& 3) (adc base.lo (info 7) false).2
  have e3 := adc_eq 0 base.hi (adc base.mid (info 6 &&& 3) (adc base.lo (info 7) false).2).2
  rw [toNat_and_three] at e2
  rw [h0] at e3
  have hb := byte_lt (adc 0 base.hi (adc base.mid (info 6 &&& 3) (adc base.lo (info 7) false).2).2).1
  have hs := byte_lt (info 7)
  simp only [Num24.val] at h
  simp only [firstSector, Num24.val, Entry.start]
  simp only [Bool.toNat_false] at e1
  have hk := toNat_bool_le (adc 0 base.hi (adc base.mid (info 6 &&& 3) (adc base.lo (info 7) false).2).2).2
  omega

lemma acceptsRom_even {a : Byte} (h : romSize 5 a = true) : a.toNat % 2 = 0 := by
  revert a
  decide

lemma acceptsRom_length {e : Entry} (h : AcceptsRom e.info) (hle : e.length ≤ 0x4000) :
    e.length = 512 * ((e.info 5).toNat / 2) := by
  have heven := acceptsRom_even h.2.2.2
  have h4 : (e.info 4).toNat = 0 := congrArg BitVec.toNat h.2.1
  rw [Entry.length] at hle ⊢
  omega

lemma drom_spec (b : Slots) (k : ℕ) (chars : List Byte) (s : State) :
    Prog.wp (drom b k chars)
      (fun r _ => b.ram r.1 = true ∧ ∃ z : Byte,
        nextEntry 0xff (s.fsp chars).1.name (s.catOf (s.fsp chars).1.drv) 32 0xf8 = some z ∧
        AcceptsRom (entryInfo (s.catOf (s.fsp chars).1.drv) z.toNat) ∧
        ∃ t p, r.2 = (dromPass r.1)^[(entryInfo (s.catOf (s.fsp chars).1.drv) z.toNat 5).toNat / 2]
            ⟨t, b, p, 0x80⟩ ∧ t.disk = s.disk ∧
          p.val = 800 * s.diskIn (s.fsp chars).1.drv +
            (entryAt (s.catOf (s.fsp chars).1.drv) z.toNat).start)
      (fun _ _ => True) s := by
  rw [drom]
  rcases hbank : b.findBank 16 k with ⟨_ | x, c⟩
  · exact trivial
  obtain ⟨hram, rfl⟩ := findBank_some 16 k hbank
  simp only [Prog.wp_bind, Prog.wp_modify, Prog.wp_ite, Prog.wp_fail, implies_true, true_and]
  intro _
  refine Prog.wp_mono (readFsp_spec chars _) ?_ fun _ _ _ => trivial
  rintro _ t ⟨rfl, -⟩
  refine Prog.wp_mono (findFile_spec _) ?_ fun _ _ _ => trivial
  rintro y t ⟨z, hz, rfl, rfl, -⟩
  refine Prog.wp_get.2 ⟨fun haccepts => ?_, trivial⟩
  refine Prog.wp_mono (drvBaseSector_spec _ _) ?_ fun _ _ _ => trivial
  rintro base t ⟨rfl, -, hbase⟩
  refine ⟨hram, z, hz, haccepts, _, _, rfl, rfl, ?_⟩
  have hlt : base.val < 16777216 - 1024 := by
    have h1 := byte_lt (s.diskLo (s.fsp chars).1.drv)
    have h2 : base.val = 800 * s.diskIn (s.fsp chars).1.drv := hbase
    rw [State.diskIn] at h2
    omega
  rw [firstSector_val _ hlt]
  exact congrArg (· + _) hbase

/-- **When `*DROM` loads the file.**  A run that finishes has found a file that passes the checks and
a bank that can be written.  For a file of at most 16K the bank then holds the file from `$8000`
on, and the sector number went up by two in each pass, exactly when every 512 bytes of the file
are the first 512 of the image and no pass crosses a multiple of 65536 sectors. -/
theorem drom_loads_iff (s s' : State) (b : Slots) (k : ℕ) (chars : List Byte) (x : Byte) (r : DromRun)
    (hcount : (s.catOf (s.fsp chars).1.drv 0x0f05).toNat ≤ 248)
    (hrun : (drom b k chars).run s = .ok (x, r) s') :
    ∃ i e first r₀, FirstMatch 0xff (s.fsp chars).1.name (s.catOf (s.fsp chars).1.drv)
        (entryCount (s.catOf (s.fsp chars).1.drv)) i ∧
      e = entryAt (s.catOf (s.fsp chars).1.drv) (8 * i) ∧ AcceptsRom e.info ∧
      first = 800 * s.diskIn (s.fsp chars).1.drv + e.start ∧ r₀.sector.val = first ∧
      b.ram x = true ∧ r = (dromPass x)^[(e.info 5).toNat / 2] r₀ ∧
      (e.length ≤ 0x4000 →
        ((∀ j < e.length, r.slots.mem x (0x8000 + j) = s.disk (256 * first + j)) ∧
            (∀ m ≤ e.length / 512, ((dromPass x)^[m] r₀).sector.val = first + 2 * m) ↔
          (∀ j < e.length, s.disk (256 * first + j) = s.disk (j % 512)) ∧
            ∀ m < e.length / 512, (first + 2 * m) % 65536 < 65534)) := by
  have hspec := drom_spec b k chars s
  rw [Prog.wp_of_ok hrun] at hspec
  obtain ⟨hram, z, hz, haccepts, t, p, hr, hdisk, hp⟩ := hspec
  simp only at hram hr
  have hle : entryCount (s.catOf (s.fsp chars).1.drv) ≤ 31 := by
    rw [entryCount]
    omega
  obtain ⟨i, z', hz', hzi, hmatch⟩ := (nextEntry_first (w := 0xff) (f := (s.fsp chars).1.name) hle).resolve_right
    fun h => by cases h.1.symm.trans hz
  obtain rfl : z' = z := Option.some.inj (hz'.symm.trans hz)
  rw [hzi] at haccepts hp hr
  refine ⟨i, _, _, ⟨t, b, p, 0x80⟩, hmatch, rfl, haccepts, rfl, hp, hram, hr, fun hlen => ?_⟩
  set e := entryAt (s.catOf (s.fsp chars).1.drv) (8 * i)
  have hsize := acceptsRom_length (e := e) haccepts hlen
  have hpasses : e.length / 512 = (e.info 5).toNat / 2 := by omega
  have hafter := dromPass_iterate (s := t) (p := p) hram ((e.info 5).toNat / 2)
  have hend : r = (dromPass x)^[(e.info 5).toNat / 2] ⟨t, b, p, 0x80⟩ := hr
  rw [← hend] at hafter
  have hsectors : ∀ m, ((dromPass x)^[m] ⟨t, b, p, 0x80⟩).sector = nextSector^[m] p :=
    fun m => (dromPass_iterate hram m).sector
  refine and_congr ?_ ?_
  · refine forall_congr' fun j => imp_congr_right fun hj => ?_
    rw [hafter.moved j (by omega), hdisk]
    exact eq_comm
  · simp only [hsectors, ← hp]
    exact nextSector_iterate p _

/-- A catalogue of one file, `$.A` of 1K at sector 2. -/
def catOfA (i : ℕ) : Byte :=
  if i = 0x0105 then 8
  else if i = 0x08 then 0x41
  else if 0x09 ≤ i ∧ i < 0x0f then 0x20
  else if i = 0x0f then 0x24
  else if i = 0x010d then 4
  else if i = 0x010f then 2
  else 0

/-- An image with that catalogue in block 0 and the given bytes from block 1 on. -/
def romDisk (rest : ℕ → Byte) : State :=
  { stateWithDisk 0 0 with
    defDir := 0x24
    disk := fun i => if i < 512 then catOfA i else rest i
    cats := fun _ i => catOfA (i - 0x0e00) }

/-- Its catalogue is the one that `mmc_read_cat` reads for every drive. -/
lemma romDisk_catInBlockZero (rest : ℕ → Byte) (d : Byte) : (romDisk rest).CatInBlockZero d :=
  fun i hi => by simp only [State.catOf, romDisk, Nat.add_sub_cancel_left, if_pos hi]

/-- Sideways memory that can be written everywhere. -/
def allRam : Slots := ⟨fun _ _ => 0, fun _ => true⟩

/-- The catalogue over and over. -/
def catCopies (i : ℕ) : Byte := catOfA (i % 512)

lemma romDisk_catCopies (i : ℕ) : (romDisk catCopies).disk i = catOfA (i % 512) := by
  simp only [romDisk, catCopies]
  split_ifs with h
  · rw [Nat.mod_eq_of_lt h]
  · rfl

/-- A file of copies of the catalogue is loaded. -/
theorem catCopies_loads : ∃ x r s',
    (drom allRam 0 [0x41]).run (romDisk catCopies) = .ok (x, r) s' ∧
      ∃ e : Entry, e.length = 1024 ∧ e.start = 2 ∧
        ∀ j < e.length, r.slots.mem x (0x8000 + j) = (romDisk catCopies).disk (256 * 2 + j) := by
  obtain ⟨i, e, first, r₀, hmatch, he, -, hfirst, -, -, -, hiff⟩ :=
    drom_loads_iff (romDisk catCopies) _ allRam 0 [0x41] 15 _ (by decide) rfl
  have hi : i < 1 := hmatch.lt
  obtain rfl : i = 0 := by omega
  have hlength : e.length = 1024 := he ▸ by decide
  have hstart : e.start = 2 := he ▸ by decide
  have hplace : first = 2 := by
    rw [hfirst, hstart]
    decide
  rw [hplace] at hiff
  refine ⟨15, _, _, rfl, e, hlength, hstart, ((hiff (by omega)).2 ⟨fun j _ => ?_, fun m hm => ?_⟩).1⟩
  · rw [romDisk_catCopies, romDisk_catCopies, Nat.mod_mod]
    exact congrArg catOfA (by omega)
  · omega

/-- Of a file of other bytes the bank gets the catalogue's. -/
theorem onesRom_not_loads : (romDisk fun _ => 1).CatInBlockZero 0 ∧
    ∃ x r s', (drom allRam 0 [0x41]).run (romDisk fun _ => 1) = .ok (x, r) s' ∧
      ¬ ∀ j < 1024, r.slots.mem x (0x8000 + j) = (romDisk fun _ => 1).disk (512 + j) := by
  refine ⟨romDisk_catInBlockZero _ 0, _, _, _, rfl, fun h => ?_⟩
  exact absurd (h 0 (by decide)) (by decide)

end Udfs.Rom
