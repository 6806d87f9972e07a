import Mathlib

/-!
# Bytes, words and arithmetic with a carry

Eight-bit arithmetic as a processor without wider registers does it: every
operation returns a byte together with the bit that left it, and wider numbers
are built by threading that bit through a chain of byte operations.  Each
operation comes with one equation over the natural numbers, so that a chain is
evaluated by adding its equations up.
-/

namespace Udfs

/-- An eight-bit byte. -/
abbrev Byte := BitVec 8

/-- A sixteen-bit word. -/
abbrev Word := BitVec 16

/-- The characters of a `!text`. -/
def ascii (s : String) : List Byte := s.toList.map fun c => BitVec.ofNat 8 c.toNat

/-- Addition with carry in and carry out. -/
def adc (a b : Byte) (c : Bool) : Byte × Bool :=
  (BitVec.ofNat 8 (a.toNat + b.toNat + c.toNat), decide (256 ≤ a.toNat + b.toNat + c.toNat))

/-- Subtraction with borrow: the carry is set when there is no borrow. -/
def sbc (a b : Byte) (c : Bool) : Byte × Bool :=
  (BitVec.ofNat 8 (a.toNat + (255 - b.toNat) + c.toNat),
    decide (256 ≤ a.toNat + (255 - b.toNat) + c.toNat))

/-- The carry of a comparison. -/
def cmpCarry (a b : Byte) : Bool := decide (b.toNat ≤ a.toNat)

/-- Shift left; the top bit goes to the carry. -/
def asl (a : Byte) : Byte × Bool := (BitVec.ofNat 8 (2 * a.toNat), decide (128 ≤ a.toNat))

/-- Shift right; the bottom bit goes to the carry. -/
def lsr (a : Byte) : Byte × Bool := (BitVec.ofNat 8 (a.toNat / 2), decide (a.toNat % 2 = 1))

/-- Rotate left through the carry. -/
def rol (a : Byte) (c : Bool) : Byte × Bool :=
  (BitVec.ofNat 8 (2 * a.toNat + c.toNat), decide (128 ≤ a.toNat))

/-- Rotate right through the carry. -/
def ror (a : Byte) (c : Bool) : Byte × Bool :=
  (BitVec.ofNat 8 (a.toNat / 2 + 128 * c.toNat), decide (a.toNat % 2 = 1))

/-! ## One equation for each operation -/

lemma toNat_decide (p : Prop) [Decidable p] : (decide p).toNat = if p then 1 else 0 := by
  by_cases h : p <;> simp [h]

lemma toNat_bool_le (c : Bool) : c.toNat ≤ 1 := by
  cases c <;> simp

lemma byte_lt (a : Byte) : a.toNat < 256 := a.isLt

lemma adc_eq (a b : Byte) (c : Bool) :
    (adc a b c).1.toNat + 256 * (adc a b c).2.toNat = a.toNat + b.toNat + c.toNat := by
  have ha := byte_lt a
  have hb := byte_lt b
  have hc := toNat_bool_le c
  simp only [adc, BitVec.toNat_ofNat, toNat_decide]
  split <;> omega

lemma sbc_eq (a b : Byte) (c : Bool) :
    (sbc a b c).1.toNat + 256 * (sbc a b c).2.toNat + b.toNat = a.toNat + 255 + c.toNat := by
  have ha := byte_lt a
  have hb := byte_lt b
  have hc := toNat_bool_le c
  simp only [sbc, BitVec.toNat_ofNat, toNat_decide]
  split <;> omega

lemma ror_eq (a : Byte) (c : Bool) :
    2 * (ror a c).1.toNat + (ror a c).2.toNat = a.toNat + 256 * c.toNat := by
  have ha := byte_lt a
  have hc := toNat_bool_le c
  simp only [ror, BitVec.toNat_ofNat, toNat_decide]
  split <;> omega

lemma asl_eq (a : Byte) : (asl a).1.toNat + 256 * (asl a).2.toNat = 2 * a.toNat := by
  have ha := byte_lt a
  simp only [asl, BitVec.toNat_ofNat, toNat_decide]
  split <;> omega

lemma rol_eq (a : Byte) (c : Bool) :
    (rol a c).1.toNat + 256 * (rol a c).2.toNat = 2 * a.toNat + c.toNat := by
  have ha := byte_lt a
  have hc := toNat_bool_le c
  simp only [rol, BitVec.toNat_ofNat, toNat_decide]
  split <;> omega

lemma toNat_add_one {a : Byte} (h : a + 1 ≠ 0) : (a + 1).toNat = a.toNat + 1 := by
  have hne : (a + 1).toNat ≠ 0 := fun e => h (BitVec.eq_of_toNat_eq e)
  have ha := byte_lt a
  have h1 : (1 : Byte).toNat = 1 := rfl
  rw [BitVec.toNat_add, h1] at hne ⊢
  omega

lemma toNat_add_one_of_lt {a : Byte} (h : a.toNat < 255) : (a + 1).toNat = a.toNat + 1 := by
  have h1 : (1 : Byte).toNat = 1 := rfl
  rw [BitVec.toNat_add, h1]
  omega

/-- A carry passed on by skipping an increment. -/
lemma toNat_add_carry {a : Byte} (h : a.toNat < 255) (c : Bool) :
    (if c then a + 1 else a).toNat = a.toNat + c.toNat := by
  cases c with
  | false => rfl
  | true => rw [if_pos rfl, toNat_add_one_of_lt h, Bool.toNat_true]

lemma toNat_eq_zero {a : Byte} : a.toNat = 0 ↔ a = 0 := BitVec.toNat_inj (y := 0)

/-! ## Masks -/

lemma toNat_and_three (a : Byte) : (a &&& 3).toNat = a.toNat % 4 := by
  revert a; decide

lemma and_three_of_lt {a : Byte} (h : a.toNat < 4) : a &&& 3 = a := by
  refine BitVec.eq_of_toNat_eq ?_
  rw [toNat_and_three]
  omega

/-- Only the two lowest bits count. -/
lemma and_three_congr {a b : Byte} (h0 : a.getLsbD 0 = b.getLsbD 0) (h1 : a.getLsbD 1 = b.getLsbD 1) :
    a &&& 3 = b &&& 3 := by
  apply BitVec.eq_of_getLsbD_eq
  intro i hi
  rw [BitVec.getLsbD_and, BitVec.getLsbD_and]
  interval_cases i
  · rw [h0]
  · rw [h1]
  all_goals simp

/-! ## Words made of bytes -/

/-- The word with the given low and high byte. -/
def wordOf (lo hi : Byte) : Word := BitVec.ofNat 16 (lo.toNat + 256 * hi.toNat)

/-- The low byte of a word. -/
def loByte (w : Word) : Byte := BitVec.ofNat 8 w.toNat

/-- The high byte of a word. -/
def hiByte (w : Word) : Byte := BitVec.ofNat 8 (w.toNat / 256)

@[simp] lemma toNat_wordOf (lo hi : Byte) : (wordOf lo hi).toNat = lo.toNat + 256 * hi.toNat := by
  have hl := byte_lt lo
  have hh := byte_lt hi
  simp only [wordOf, BitVec.toNat_ofNat]
  omega

@[simp] lemma toNat_loByte (w : Word) : (loByte w).toNat = w.toNat % 256 := by
  simp [loByte]

@[simp] lemma toNat_hiByte (w : Word) : (hiByte w).toNat = w.toNat / 256 := by
  have hw : w.toNat < 65536 := w.isLt
  simp only [hiByte, BitVec.toNat_ofNat]
  omega

@[simp] lemma wordOf_lo_hi (w : Word) : wordOf (loByte w) (hiByte w) = w := by
  apply BitVec.eq_of_toNat_eq
  simp only [toNat_wordOf, toNat_loByte, toNat_hiByte]
  omega

@[simp] lemma loByte_wordOf (lo hi : Byte) : loByte (wordOf lo hi) = lo := by
  have hl := byte_lt lo
  apply BitVec.eq_of_toNat_eq
  simp only [toNat_wordOf, toNat_loByte]
  omega

@[simp] lemma hiByte_wordOf (lo hi : Byte) : hiByte (wordOf lo hi) = hi := by
  have hl := byte_lt lo
  apply BitVec.eq_of_toNat_eq
  simp only [toNat_wordOf, toNat_hiByte]
  omega

/-! ## Numbers of three bytes -/

/-- A 24-bit number kept as three bytes. -/
structure Num24 where
  lo : Byte
  mid : Byte
  hi : Byte
deriving DecidableEq, Repr

namespace Num24

/-- The value of the three bytes. -/
def val (n : Num24) : ℕ := n.lo.toNat + 256 * n.mid.toNat + 65536 * n.hi.toNat

lemma val_lt (n : Num24) : n.val < 16777216 := by
  have := byte_lt n.lo
  have := byte_lt n.mid
  have := byte_lt n.hi
  simp only [val]
  omega

lemma val_injective : Function.Injective val := by
  rintro ⟨a, b, c⟩ ⟨a', b', c'⟩ h
  have ha := byte_lt a
  have hb := byte_lt b
  have ha' := byte_lt a'
  have hb' := byte_lt b'
  simp only [val] at h
  congr 1 <;> apply BitVec.eq_of_toNat_eq <;> omega

@[simp] lemma val_inj {m n : Num24} : m.val = n.val ↔ m = n := val_injective.eq_iff

end Num24

end Udfs
