import Udfs.Lib.Extents
import Udfs.Rom.Catalogue

/-!
# The catalogue as a list of entries

The two pages of the catalogue are read as a list of entries, each with a name, a start sector
and a length.  Moving the bytes of both pages down or up by eight takes an entry out of the
list or makes room for one, and the carry chains of `get_first_block` and `get_next_block`
compare and add up sectors.
-/

namespace Udfs.Rom

/-- A catalogue entry: its bytes in either page. -/
@[ext] structure Entry where
  name : Fin 8 → Byte
  info : Fin 8 → Byte

namespace Entry

/-- The start sector, ten bits. -/
def start (e : Entry) : ℕ := 256 * ((e.info 6).toNat % 4) + (e.info 7).toNat

/-- The length in bytes, eighteen bits. -/
def length (e : Entry) : ℕ :=
  (e.info 4).toNat + 256 * (e.info 5).toNat + 65536 * ((e.info 6).toNat / 16 % 4)

/-- The sectors the file takes. -/
def sectors (e : Entry) : ℕ := sectorsOf e.length

/-- The attribute bit of a locked file. -/
def Locked (e : Entry) : Prop := 128 ≤ (e.name 7).toNat

instance (e : Entry) : Decidable e.Locked := inferInstanceAs (Decidable (_ ≤ _))

end Entry

/-- The entry at an offset. -/
def entryAt (c : ℕ → Byte) (y : ℕ) : Entry := ⟨entryName c y, entryInfo c y⟩

/-- The first `n` entries. -/
def entries (c : ℕ → Byte) (n : ℕ) : List Entry := (List.range n).map fun i => entryAt c (8 * i)

@[simp] lemma entries_length (c : ℕ → Byte) (n : ℕ) : (entries c n).length = n := by
  simp [entries]

lemma entries_getElem (c : ℕ → Byte) {n i : ℕ} (h : i < (entries c n).length) :
    (entries c n)[i] = entryAt c (8 * i) := by
  simp [entries]

lemma mem_entries {c : ℕ → Byte} {n i : ℕ} (hi : i < n) : entryAt c (8 * i) ∈ entries c n :=
  List.mem_map.2 ⟨i, List.mem_range.2 hi, rfl⟩

/-- The number of sectors of the disk, and for the other offsets the start of the entry before. -/
def boundAt (c : ℕ → Byte) (y : ℕ) : ℕ := 256 * ((c (0x0f06 + y)).toNat % 4) + (c (0x0f07 + y)).toNat

/-- The total number of sectors. -/
def totalSectors (c : ℕ → Byte) : ℕ := boundAt c 0

lemma entryAt_start (c : ℕ → Byte) (y : ℕ) : (entryAt c y).start = boundAt c (y + 8) := by
  have h6 : 0x0f08 + y + ((6 : Fin 8) : ℕ) = 0x0f06 + (y + 8) := by simp; omega
  have h7 : 0x0f08 + y + ((7 : Fin 8) : ℕ) = 0x0f07 + (y + 8) := by simp; omega
  simp only [Entry.start, entryAt, entryInfo, boundAt, h6, h7]

/-- The two bytes below an entry are the start of the entry before it, or the end of the disk. -/
lemma gapTop_entries (c : ℕ → Byte) {n i : ℕ} (hi : i ≤ n) :
    Extents.gapTop Entry.start (totalSectors c) (entries c n) i = boundAt c (8 * i) := by
  cases i with
  | zero => rfl
  | succ i =>
      have hlt : i < (entries c n).length := by simpa using hi
      rw [Extents.gapTop_succ_of_lt hlt, entries_getElem c hlt, entryAt_start]
      rfl

/-! ## The carry chains -/

/-- A number of sectors reaches a number of bytes. -/
lemma sectorsOf_le_iff (n k : ℕ) : sectorsOf n ≤ k ↔ n ≤ 256 * k := by
  simp only [sectorsOf]
  omega

lemma cmpCarry_zero (a : Byte) : cmpCarry 0 a = decide (a.toNat = 0) := by
  simp [cmpCarry]

/-- `get_next_block` computes the end of an entry. -/
lemma nextBlock_val (c : ℕ → Byte) (y : ℕ) :
    256 * (nextBlock c y).1.toNat + (nextBlock c y).2.toNat
      = (entryAt c y).start + (entryAt c y).sectors := by
  have e4 : 0x0f08 + y + ((4 : Fin 8) : ℕ) = 0x0f0c + y := by simp; omega
  have e5 : 0x0f08 + y + ((5 : Fin 8) : ℕ) = 0x0f0d + y := by simp; omega
  have e6 : 0x0f08 + y + ((6 : Fin 8) : ℕ) = 0x0f0e + y := by simp; omega
  have e7 : 0x0f08 + y + ((7 : Fin 8) : ℕ) = 0x0f0f + y := by simp; omega
  simp only [nextBlock, Entry.start, Entry.sectors, Entry.length, entryAt, entryInfo, e4, e5, e6, e7,
    sectorsOf]
  generalize c (0x0f0c + y) = l0
  generalize c (0x0f0d + y) = l1
  generalize c (0x0f0e + y) = m
  generalize c (0x0f0f + y) = s0
  have h0 := adc_eq 0xff l0 false
  have h1 := adc_eq s0 l1 (adc 0xff l0 false).2
  have h2 := adc_eq (m &&& 3) (lsr4And3 m) (adc s0 l1 (adc 0xff l0 false).2).2
  have hb0 := byte_lt (adc 0xff l0 false).1
  have hc0 := toNat_bool_le (adc 0xff l0 false).2
  have hc1 := toNat_bool_le (adc s0 l1 (adc 0xff l0 false).2).2
  have hb2 := byte_lt (adc (m &&& 3) (lsr4And3 m) (adc s0 l1 (adc 0xff l0 false).2).2).1
  have hl0 := byte_lt l0
  rw [toNat_and_three, lsr4And3_toNat] at h2
  have hff : (0xff : Byte).toNat = 255 := rfl
  simp only [hff, Bool.toNat_false] at h0
  omega

/-- `get_first_block` compares a length with the sectors between a place and a bound above it. -/
lemma firstBlock_iff (c : ℕ → Byte) (y : ℕ) {c4 c5 : Byte} (len : Num24)
    (hle : 256 * c4.toNat + c5.toNat ≤ boundAt c y) :
    firstBlock c y c4 c5 len = true ↔
      256 * c4.toNat + c5.toNat + sectorsOf len.val ≤ boundAt c y := by
  simp only [boundAt, firstBlock] at hle ⊢
  generalize c (0x0f07 + y) = t0 at hle ⊢
  generalize c (0x0f06 + y) = t1 at hle ⊢
  set room := 256 * (t1.toNat % 4) + t0.toNat with hroom
  have hsub : 256 * c4.toNat + c5.toNat + sectorsOf len.val ≤ room ↔
      len.val ≤ 256 * (room - (256 * c4.toNat + c5.toNat)) := by
    rw [← sectorsOf_le_iff]
    omega
  rw [hsub, Num24.val]
  -- the chain that subtracts the sectors, then the one that subtracts the length
  have h0 := sbc_eq t0 c5 true
  have h1 := sbc_eq (t1 &&& 3) c4 (sbc t0 c5 true).2
  rw [toNat_and_three] at h1
  have hc0 := toNat_bool_le (sbc t0 c5 true).2
  have hc1 := toNat_bool_le (sbc (t1 &&& 3) c4 (sbc t0 c5 true).2).2
  generalize sbc (t1 &&& 3) c4 (sbc t0 c5 true).2 = f1 at h1 hc1 ⊢
  generalize sbc t0 c5 true = f0 at h0 h1 hc0 ⊢
  have hz : (cmpCarry 0 len.lo).toNat = if len.lo.toNat = 0 then 1 else 0 := by
    rw [cmpCarry_zero, toNat_decide]
  generalize cmpCarry 0 len.lo = z at hz ⊢
  have h2 := sbc_eq f0.1 len.mid z
  have h3 := sbc_eq f1.1 len.hi (sbc f0.1 len.mid z).2
  have hc2 := toNat_bool_le (sbc f0.1 len.mid z).2
  have hb2 := byte_lt (sbc f0.1 len.mid z).1
  have hb3 := byte_lt (sbc f1.1 len.hi (sbc f0.1 len.mid z).2).1
  generalize sbc f1.1 len.hi (sbc f0.1 len.mid z).2 = g1 at h3 hb3 ⊢
  generalize sbc f0.1 len.mid z = g0 at h2 h3 hc2 hb2
  have hb0 := byte_lt f0.1
  have hb1 := byte_lt f1.1
  have hlo := byte_lt len.lo
  simp only [Bool.toNat_true] at h0
  rcases g1 with ⟨g, k⟩
  cases k with
  | true =>
      simp only [Bool.toNat_true] at h3
      split at hz <;> simp only [true_iff] <;> omega
  | false =>
      simp only [Bool.toNat_false] at h3
      split at hz <;> simp only [Bool.false_eq_true, false_iff, not_le] <;> omega

/-! ## Moving the bytes of the pages -/

/-- The address belongs to the byte at an offset from `p` to `q` in one of the pages. -/
def InPages (p q a : ℕ) : Prop :=
  (0x0e08 + p ≤ a ∧ a < 0x0e08 + q) ∨ (0x0f08 + p ≤ a ∧ a < 0x0f08 + q)

instance (p q a : ℕ) : Decidable (InPages p q a) := inferInstanceAs (Decidable (_ ∨ _))

/-- The loop of `$82d4` takes every byte from eight places further up. -/
lemma shiftDown_apply (k : ℕ) : ∀ (c : ℕ → Byte) (y a : ℕ), y + k ≤ 248 →
    shiftDown c k y a = if InPages y (y + k) a then c (a + 8) else c a := by
  induction k with
  | zero =>
      intro c y a _
      rw [shiftDown, if_neg (by rw [InPages]; omega)]
  | succ k ih =>
      intro c y a hk
      rw [shiftDown, ih _ (y + 1) a (by omega)]
      simp only [Function.update_apply]
      split_ifs <;> rw [InPages] at * <;> first | rfl | omega | (congr 1; omega)

/-- The loop of `$89c4` takes every byte from eight places further down. -/
lemma shiftUp_apply (k : ℕ) : ∀ (c : ℕ → Byte) (y a : ℕ), k ≤ y → y ≤ 240 →
    shiftUp c k y a = if InPages (y - k + 8) (y + 8) a then c (a - 8) else c a := by
  induction k with
  | zero =>
      intro c y a _ _
      rw [shiftUp, if_neg (by rw [InPages]; omega)]
  | succ k ih =>
      intro c y a hk hy
      rw [shiftUp, ih _ (y - 1) a (by omega) (by omega)]
      simp only [Function.update_apply]
      split_ifs <;> rw [InPages] at * <;> first | rfl | omega | (congr 1; omega)

lemma entryAt_congr {c d : ℕ → Byte} {y z : ℕ}
    (hname : ∀ j < 8, c (0x0e08 + y + j) = d (0x0e08 + z + j))
    (hinfo : ∀ j < 8, c (0x0f08 + y + j) = d (0x0f08 + z + j)) : entryAt c y = entryAt d z :=
  Entry.ext (funext fun j => hname j j.isLt) (funext fun j => hinfo j j.isLt)

/-- The first eight bytes of the second page belong to no entry. -/
lemma entryAt_update (c : ℕ → Byte) {y a : ℕ} (v : Byte) (hy : y ≤ 240) (h1 : 0x0f00 ≤ a)
    (h2 : a < 0x0f08) : entryAt (Function.update c a v) y = entryAt c y := by
  refine entryAt_congr (fun j hj => ?_) fun j hj => ?_ <;>
    exact Function.update_of_ne (by omega) _ _

lemma entries_update (c : ℕ → Byte) {n a : ℕ} (v : Byte) (hn : n ≤ 31) (h1 : 0x0f00 ≤ a)
    (h2 : a < 0x0f08) : entries (Function.update c a v) n = entries c n := by
  refine List.map_congr_left fun i hi => entryAt_update c v ?_ h1 h2
  have := List.mem_range.1 hi
  omega

lemma entryAt_shiftDown (c : ℕ → Byte) {n i j : ℕ} (hn : n ≤ 31) (hi : i < n) (hj : j < n - 1) :
    entryAt (shiftDown c (8 * n - 8 * i) (8 * i)) (8 * j)
      = if j < i then entryAt c (8 * j) else entryAt c (8 * (j + 1)) := by
  split_ifs with hlt
  · refine entryAt_congr (fun k hk => ?_) fun k hk => ?_ <;>
      rw [shiftDown_apply _ _ _ _ (by omega), if_neg (by rw [InPages]; omega)]
  · refine entryAt_congr (fun k hk => ?_) fun k hk => ?_ <;>
      rw [shiftDown_apply _ _ _ _ (by omega), if_pos (by rw [InPages]; omega)] <;>
      congr 1 <;> omega

/-- Moving the bytes above an entry down takes it out of the list. -/
lemma entries_shiftDown (c : ℕ → Byte) {n i : ℕ} (hn : n ≤ 31) (hi : i < n) :
    entries (shiftDown c (8 * n - 8 * i) (8 * i)) (n - 1) = (entries c n).eraseIdx i := by
  have hlen : i < (entries c n).length := by simpa using hi
  refine List.ext_getElem (by simp [List.length_eraseIdx_of_lt hlen]) fun j h1 h2 => ?_
  have hj : j < n - 1 := by simpa using h1
  rw [entries_getElem _ h1, entryAt_shiftDown c hn hi hj, List.getElem_eraseIdx]
  split_ifs <;> rw [entries_getElem]

/-- The catalogue without its `i`-th entry. -/
def deletedCat (c : ℕ → Byte) (n i : ℕ) : ℕ → Byte :=
  Function.update (shiftDown c (8 * n - 8 * i) (8 * i)) 0x0f05 (c 0x0f05 - 8)

section Deleted

variable (c : ℕ → Byte) {n i : ℕ}

lemma entries_deletedCat (hn : n ≤ 31) (hi : i < n) :
    entries (deletedCat c n i) (n - 1) = (entries c n).eraseIdx i := by
  rw [deletedCat, entries_update _ _ (by omega) (by decide) (by decide), entries_shiftDown c hn hi]

lemma deletedCat_count (hn : n ≤ 31) (hi : i < n) (hcount : (c 0x0f05).toNat = 8 * n) :
    (deletedCat c n i 0x0f05).toNat = 8 * (n - 1) := by
  have h8 : (8 : Byte).toNat = 8 := rfl
  rw [deletedCat, Function.update_self, BitVec.toNat_sub, hcount, h8]
  omega

/-- The bytes in front of the entries, without the count. -/
def InHeader (a : ℕ) : Prop := a ≠ 0x0f05 ∧ (a < 0x0e08 ∨ (0x0f00 ≤ a ∧ a < 0x0f08))

lemma deletedCat_header (hn : n ≤ 31) (hi : i < n) {a : ℕ} (ha : InHeader a) :
    deletedCat c n i a = c a := by
  obtain ⟨hne, ha⟩ := ha
  rw [deletedCat, Function.update_of_ne hne, shiftDown_apply _ _ _ _ (by omega),
    if_neg (by rw [InPages]; omega)]

end Deleted

lemma entryAt_putEntry_self (c : ℕ → Byte) {y : ℕ} (name info : Fin 8 → Byte) :
    entryAt (putEntry c y name info) y = ⟨name, info⟩ := by
  refine Entry.ext (funext fun j => ?_) (funext fun j => ?_)
  · have hj := j.isLt
    simp only [entryAt, entryName, putEntry]
    rw [dif_pos (by omega)]
    exact congrArg name (Fin.ext (by simp))
  · have hj := j.isLt
    simp only [entryAt, entryInfo, putEntry]
    by_cases hname : 0x0e08 + y ≤ 0x0f08 + y + (j : ℕ) ∧ 0x0f08 + y + (j : ℕ) < 0x0e10 + y
    · omega
    · rw [dif_neg hname, dif_pos (by omega)]
      exact congrArg info (Fin.ext (by simp))

lemma entryAt_putEntry_of_ne (c : ℕ → Byte) {y z : ℕ} (name info : Fin 8 → Byte) (hy : y ≤ 240)
    (hz : z ≤ 240) (h : z + 8 ≤ y ∨ y + 8 ≤ z) :
    entryAt (putEntry c y name info) z = entryAt c z := by
  refine entryAt_congr (fun j hj => ?_) fun j hj => ?_ <;>
    rw [putEntry, dif_neg (by omega), dif_neg (by omega)]

lemma entryAt_shiftUp (c : ℕ → Byte) {n i j : ℕ} (hn : n ≤ 30) (hi : i ≤ n) (hj : j ≤ n)
    (hne : j ≠ i) :
    entryAt (shiftUp c (8 * n - 8 * i) (8 * n)) (8 * j)
      = if j < i then entryAt c (8 * j) else entryAt c (8 * (j - 1)) := by
  split_ifs with hlt
  · refine entryAt_congr (fun k hk => ?_) fun k hk => ?_ <;>
      rw [shiftUp_apply _ _ _ _ (by omega) (by omega), if_neg (by rw [InPages]; omega)]
  · refine entryAt_congr (fun k hk => ?_) fun k hk => ?_ <;>
      rw [shiftUp_apply _ _ _ _ (by omega) (by omega), if_pos (by rw [InPages]; omega)] <;>
      congr 1 <;> omega

/-- Moving the bytes up and writing an entry into the gap puts it into the list. -/
lemma entries_putEntry (c : ℕ → Byte) {n i : ℕ} (name info : Fin 8 → Byte) (hn : n ≤ 30)
    (hi : i ≤ n) :
    entries (putEntry (shiftUp c (8 * n - 8 * i) (8 * n)) (8 * i) name info) (n + 1)
      = (entries c n).insertIdx i ⟨name, info⟩ := by
  have hlen : i ≤ (entries c n).length := by simpa using hi
  refine List.ext_getElem (by simp [List.length_insertIdx_of_le_length hlen]) fun j h1 h2 => ?_
  have hj : j < n + 1 := by simpa using h1
  rw [entries_getElem _ h1, List.getElem_insertIdx]
  by_cases he : j = i
  · subst he
    rw [dif_neg (lt_irrefl j), dif_pos rfl, entryAt_putEntry_self]
  · rw [entryAt_putEntry_of_ne _ _ _ (by omega) (by omega) (by omega),
      entryAt_shiftUp c hn hi (by omega) he]
    split_ifs <;> rw [entries_getElem]

end Udfs.Rom
