import Udfs.Lib.Byte

/-!
# `xbm2bbc`: a bitmap for MODE 4

An XBM bitmap goes line by line and has the leftmost pixel of a byte in bit 0; the screen of
MODE 4 goes by rows of cells, each of eight lines, and has the leftmost pixel in bit 7, with the
colours the other way round.  The program walks through the bitmap in the order of the screen,
with one pointer that goes back and forth and one that only goes forward.

The two arrays are memory from their first byte on, and every access is noted, so that it can be
seen whether one leaves its array.
-/

namespace Udfs.Tools

/-- `flip`: the bits the other way round, and complemented. -/
def flip (x : Byte) : Byte :=
  let y : Byte := 0xff
  let y := if x &&& 1 ≠ 0 then y ^^^ 128 else y
  let y := if x &&& 2 ≠ 0 then y ^^^ 64 else y
  let y := if x &&& 4 ≠ 0 then y ^^^ 32 else y
  let y := if x &&& 8 ≠ 0 then y ^^^ 16 else y
  let y := if x &&& 16 ≠ 0 then y ^^^ 8 else y
  let y := if x &&& 32 ≠ 0 then y ^^^ 4 else y
  let y := if x &&& 64 ≠ 0 then y ^^^ 2 else y
  if x &&& 128 ≠ 0 then y ^^^ 1 else y

lemma flip_getLsbD (x : Byte) (k : Fin 8) : (flip x).getLsbD (7 - k) = !x.getLsbD k := by
  revert x k
  decide

/-- The program in the middle of its loops. -/
structure Conversion where
  -- `src - mary_bits` and `dst - convert`
  src : ℕ
  dst : ℕ
  convert : ℕ → Byte
  -- what has been read of `mary_bits` and written of `convert`, in order
  reads : List ℕ
  writes : List ℕ

/-- `*dst++ = flip(src[k*40])`. -/
def putFlipped (bits : ℕ → Byte) (k : ℕ) (s : Conversion) : Conversion where
  src := s.src
  dst := s.dst + 1
  convert := Function.update s.convert s.dst (flip (bits (s.src + k * 40)))
  reads := s.reads ++ [s.src + k * 40]
  writes := s.writes ++ [s.dst]

/-- The first `n` lines of a cell. -/
def putLines (bits : ℕ → Byte) : ℕ → Conversion → Conversion
  | 0, s => s
  | n + 1, s => putFlipped bits n (putLines bits n s)

/-- The body of the inner loop. -/
def convertCell (bits : ℕ → Byte) (s : Conversion) : Conversion :=
  let s := putLines bits 8 s
  { s with src := s.src + 1 }

/-- The inner loop, `j` from 0 on. -/
def convertCells (bits : ℕ → Byte) : ℕ → Conversion → Conversion
  | 0, s => s
  | j + 1, s => convertCell bits (convertCells bits j s)

/-- The outer loop, `i` from 0 on. -/
def convertRows (bits : ℕ → Byte) : ℕ → Conversion → Conversion
  | 0, s => s
  | i + 1, s =>
      let s := convertCells bits 40 (convertRows bits i s)
      { s with src := s.src + 7 * 40 }

/-- `main`, with what the array `convert` holds before. -/
def xbm2bbc (bits convert : ℕ → Byte) : Conversion :=
  convertRows bits 32 ⟨0, 0, convert, [], []⟩

/-! ## Where the bytes come from -/

/-- The byte of the bitmap that goes to the byte `d` of the screen. -/
def sourceOf (d : ℕ) : ℕ := d / 320 * 320 + d % 8 * 40 + d % 320 / 8

/-- The byte of the screen that the byte `s` of the bitmap goes to. -/
def screenOf (s : ℕ) : ℕ := s / 320 * 320 + s % 40 * 8 + s % 320 / 40

section Places

variable {i j k : ℕ}

lemma sourceOf_eq (hj : j < 40) (hk : k < 8) : sourceOf (320 * i + 8 * j + k) = 320 * i + 40 * k + j := by
  simp only [sourceOf]
  omega

lemma screenOf_eq (hj : j < 40) (hk : k < 8) : screenOf (320 * i + 40 * k + j) = 320 * i + 8 * j + k := by
  simp only [screenOf]
  omega

end Places

lemma screenOf_sourceOf (d : ℕ) : screenOf (sourceOf d) = d := by
  have hd : d = 320 * (d / 320) + 8 * (d % 320 / 8) + d % 8 := by omega
  rw [hd, sourceOf_eq (by omega) (by omega), screenOf_eq (by omega) (by omega)]

lemma sourceOf_screenOf (s : ℕ) : sourceOf (screenOf s) = s := by
  have hs : s = 320 * (s / 320) + 40 * (s % 320 / 40) + s % 40 := by omega
  rw [hs, screenOf_eq (by omega) (by omega), sourceOf_eq (by omega) (by omega)]

lemma sourceOf_lt {d : ℕ} : sourceOf d < 10240 ↔ d < 10240 := by
  simp only [sourceOf]
  omega

lemma sourceOf_injective : Function.Injective sourceOf := fun d e h => by
  rw [← screenOf_sourceOf d, h, screenOf_sourceOf]

/-- Everything up to the byte `d` of the screen is done, and nothing else. -/
structure ConvertedTo (bits : ℕ → Byte) (d : ℕ) (s : Conversion) : Prop where
  dst : s.dst = d
  convert : ∀ e < d, s.convert e = flip (bits (sourceOf e))
  reads : s.reads = (List.range d).map sourceOf
  writes : s.writes = List.range d

variable {bits : ℕ → Byte} {s : Conversion} {d : ℕ}

lemma ConvertedTo.putFlipped {k : ℕ} (h : ConvertedTo bits d s) (hsrc : s.src + k * 40 = sourceOf d) :
    ConvertedTo bits (d + 1) (putFlipped bits k s) where
  dst := congrArg (· + 1) h.dst
  convert e he := by
    have hput : (Tools.putFlipped bits k s).convert
        = Function.update s.convert d (flip (bits (sourceOf d))) := by
      rw [Tools.putFlipped, hsrc, h.dst]
    rw [hput]
    by_cases hed : e = d
    · rw [hed, Function.update_self]
    · rw [Function.update_of_ne hed]
      exact h.convert e (by omega)
  reads := by
    rw [Tools.putFlipped, hsrc, h.reads, List.range_succ, List.map_append]
    rfl
  writes := by
    rw [Tools.putFlipped, h.dst, h.writes, List.range_succ]

@[simp] lemma putLines_src (n : ℕ) : (putLines bits n s).src = s.src := by
  induction n with
  | zero => rfl
  | succ n ih => exact ih

/-- The lines of the cell `j` in the row `i`. -/
lemma ConvertedTo.putLines {i j n : ℕ} (hj : j < 40) (hn : n ≤ 8)
    (h : ConvertedTo bits (320 * i + 8 * j) s) (hsrc : s.src = 320 * i + j) :
    ConvertedTo bits (320 * i + 8 * j + n) (putLines bits n s) := by
  induction n with
  | zero => exact h
  | succ n ih =>
      refine (ih (by omega)).putFlipped ?_
      rw [putLines_src, hsrc, sourceOf_eq hj (by omega)]
      ring

lemma convertCells_convertedTo {i j : ℕ} (hj : j ≤ 40) (h : ConvertedTo bits (320 * i) s)
    (hsrc : s.src = 320 * i) :
    ConvertedTo bits (320 * i + 8 * j) (convertCells bits j s) ∧
      (convertCells bits j s).src = 320 * i + j := by
  induction j with
  | zero => exact ⟨h, hsrc⟩
  | succ j ih =>
      obtain ⟨hconv, hcell⟩ := ih (by omega)
      have hlines := hconv.putLines (by omega) le_rfl hcell
      constructor
      · exact ⟨hlines.dst, hlines.convert, hlines.reads, hlines.writes⟩
      · rw [convertCells, convertCell, putLines_src, hcell, Nat.add_assoc]

lemma convertRows_convertedTo (i : ℕ) (h : ConvertedTo bits 0 s) (hsrc : s.src = 0) :
    ConvertedTo bits (320 * i) (convertRows bits i s) ∧ (convertRows bits i s).src = 320 * i := by
  induction i with
  | zero => exact ⟨h, hsrc⟩
  | succ i ih =>
      obtain ⟨hcells, hend⟩ := convertCells_convertedTo le_rfl ih.1 ih.2
      constructor
      · exact ⟨hcells.dst, hcells.convert, hcells.reads, hcells.writes⟩
      · rw [convertRows, hend]
        ring

lemma xbm2bbc_convertedTo (bits convert : ℕ → Byte) : ConvertedTo bits 10240 (xbm2bbc bits convert) :=
  (convertRows_convertedTo 32 ⟨rfl, fun _ he => absurd he (Nat.not_lt_zero _), rfl, rfl⟩ rfl).1

/-! ## The picture -/

/-- The screen shows the bitmap, with the colours the other way round. -/
def Pictures (bits screen : ℕ → Byte) : Prop :=
  ∀ x < 320, ∀ y < 256, (screen (y / 8 * 320 + x / 8 * 8 + y % 8)).getLsbD (7 - x % 8)
    = !(bits (y * 40 + x / 8)).getLsbD (x % 8)

/-- **The conversion is the pixel map**, and goes through both arrays once. -/
theorem xbm2bbc_pictures (bits convert : ℕ → Byte) :
    Pictures bits (xbm2bbc bits convert).convert ∧
      (xbm2bbc bits convert).writes = List.range 10240 ∧
      (xbm2bbc bits convert).reads.Perm (List.range 10240) := by
  have h := xbm2bbc_convertedTo bits convert
  refine ⟨fun x hx y hy => ?_, h.writes, ?_⟩
  · have hsource : sourceOf (y / 8 * 320 + x / 8 * 8 + y % 8) = y * 40 + x / 8 := by
      rw [Nat.mul_comm (y / 8), Nat.mul_comm (x / 8), sourceOf_eq (by omega) (by omega)]
      omega
    rw [h.convert _ (by omega), hsource]
    exact flip_getLsbD _ ⟨x % 8, by omega⟩
  · rw [h.reads]
    refine (List.perm_ext_iff_of_nodup (List.nodup_range.map sourceOf_injective) List.nodup_range).2 ?_
    intro a
    rw [List.mem_map, List.mem_range]
    constructor
    · rintro ⟨d, hd, rfl⟩
      exact sourceOf_lt.2 (List.mem_range.1 hd)
    · intro ha
      refine ⟨screenOf a, List.mem_range.2 ?_, sourceOf_screenOf a⟩
      rwa [← sourceOf_lt, sourceOf_screenOf]

end Udfs.Tools
