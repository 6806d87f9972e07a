import Udfs.Lib.Byte

/-!
# Disk numbers

A disk number is read digit by digit into two bytes.  They are multiplied by ten with shifts and
additions, and the high byte is looked at after every digit: below two, nothing is lost in the next
round.  So numbers up to 511 are told apart from greater ones however many digits there are, and
511, which stands for no disk, is refused at the end.
-/

namespace Udfs.Rom

/-! ## The reader -/

/-- The registers with which a routine returns. -/
structure Regs where
  a : Byte
  x : Byte
  y : Byte
  carry : Bool
deriving DecidableEq, Repr

/-- `$b06b`: step over spaces.  The carry is set at a carriage return, with `y` before it; the character
comes back in `a`.  If the index wraps, the command ends with `Syntax`. -/
def skipSpaces (line : Byte → Byte) (x : Byte) : ℕ → Byte → Option Regs
  | 0, _ => none
  | n + 1, y =>
      if line y = 0x0d then some ⟨line y, x, y - 1, true⟩
      else if y + 1 = 0 then none
      else if line y = 0x20 then skipSpaces line x n (y + 1)
      else some ⟨line y, x, y, false⟩

/-- The number in `$0d55` and `$0d56`. -/
structure DiskNum where
  lo : Byte
  hi : Byte
deriving DecidableEq, Repr

namespace DiskNum

def val (n : DiskNum) : ℕ := n.lo.toNat + 256 * n.hi.toNat

/-- `$b09c`: ten times the number, and a digit. -/
def timesTen (n : DiskNum) (d : Byte) : DiskNum :=
  let twice := asl n.lo
  let hi2 := rol n.hi twice.2
  let four := asl twice.1
  let hi4 := rol hi2.1 four.2
  let eight := asl four.1
  let hi8 := rol hi4.1 eight.2
  let lo10 := adc twice.1 eight.1 hi8.2
  let hi10 := adc hi2.1 hi8.1 lo10.2
  let lo := adc d lo10.1 hi10.2
  ⟨lo.1, (adc hi10.1 0 lo.2).1⟩

end DiskNum

/-- The loop at `$b093`: the position, and the number of the digits before it. -/
structure DigitState where
  y : Byte
  num : DiskNum
deriving DecidableEq, Repr

/-- A round of the loop: the next one, or its end, without a number for `$b0ef`. -/
def digitRound (line : Byte → Byte) (s : DigitState) : DigitState ⊕ Option DigitState :=
  let d := (sbc (line s.y) 0x30 true).1
  if d.msb then .inr none
  else if cmpCarry d 0x0a then .inr none
  else
    let s' : DigitState := ⟨s.y + 1, s.num.timesTen d⟩
    if cmpCarry s'.num.hi 2 then .inr none
    else if s'.y = 0 then .inr none
    else if line s'.y = 0x0d then .inr (some s')
    else if line s'.y ≠ 0x20 then .inl s'
    else .inr (some s')

def digitLoop (line : Byte → Byte) : ℕ → DigitState → Option DigitState
  | 0, _ => none
  | n + 1, s =>
      match digitRound line s with
      | .inl s' => digitLoop line n s'
      | .inr r => r

/-- `$b0dd`: the number in the registers, without 511. -/
def giveNumber (s : DigitState) : Option Regs :=
  if s.num.hi ≠ 0 ∧ s.num.lo + 1 = 0 then none else some ⟨s.num.hi, s.num.lo, s.y, false⟩

/-- `$b07e`: read a disk number at `y`. -/
def readDiskNumber (line : Byte → Byte) (x y : Byte) : Option Regs := do
  let r ← skipSpaces line x 256 y
  let number := if r.carry ∨ line r.y = 0x0d then none
    else (digitLoop line 256 ⟨r.y, ⟨0, 0⟩⟩).bind giveNumber
  pure (number.getD ⟨0, 0, y, true⟩)

/-! ## Multiplying by ten -/

/-- The sums of the code, in its order: the number doubled three times, twice and eight times the number,
and the digit. -/
lemma timesTen_sum {l h d l2 h2 l4 h4 l8 h8 l10 h10 lo hi c2 o2 c4 o4 c8 o8 c10 o10 c o : ℕ}
    (htwo : l2 + 256 * c2 = 2 * l) (htwo' : h2 + 256 * o2 = 2 * h + c2)
    (hfour : l4 + 256 * c4 = 2 * l2) (hfour' : h4 + 256 * o4 = 2 * h2 + c4)
    (height : l8 + 256 * c8 = 2 * l4) (height' : h8 + 256 * o8 = 2 * h4 + c8)
    (hten : l10 + 256 * c10 = l2 + l8 + o8) (hten' : h10 + 256 * o10 = h2 + h8 + c10)
    (hsum : lo + 256 * c = d + l10 + o10) (hsum' : hi + 256 * o = h10 + 0 + c)
    (hl : l < 256) (hh : h < 2) (hd : d < 10) :
    lo + 256 * hi = 10 * (l + 256 * h) + d := by
  -- no bit leaves the high byte
  have ho2 : o2 = 0 := by omega
  have ho4 : o4 = 0 := by omega
  have ho8 : o8 = 0 := by omega
  have height10 : l10 + 256 * (h10 + 256 * o10) = 10 * (l + 256 * h) := by omega
  have ho10 : o10 = 0 := by omega
  have ho : o = 0 := by omega
  omega

/-- **Nothing is lost** when a number below 512 is multiplied. -/
lemma timesTen_val {n : DiskNum} {d : Byte} (hn : n.hi.toNat < 2) (hd : d.toNat < 10) :
    (n.timesTen d).val = 10 * n.val + d.toNat :=
  timesTen_sum (asl_eq _) (rol_eq _ _) (asl_eq _) (rol_eq _ _) (asl_eq _) (rol_eq _ _) (adc_eq _ _ _)
    (adc_eq _ _ _) (adc_eq _ _ _) (adc_eq _ 0 _) (byte_lt _) hn hd

/-! ## Lines -/

/-- The characters from `y` up to the last that the index can reach. -/
def restOfLine (line : Byte → Byte) (y : Byte) : List Byte :=
  (List.range' y.toNat (256 - y.toNat)).map fun i => line (BitVec.ofNat 8 i)

/-- A decimal digit. -/
def IsDigit (c : Byte) : Prop := 0x30 ≤ c.toNat ∧ c.toNat < 0x3a

instance (c : Byte) : Decidable (IsDigit c) := inferInstanceAs (Decidable (_ ∧ _))

/-- A number ends with a space or a carriage return. -/
def EndsNumber (c : Byte) : Prop := c = 0x20 ∨ c = 0x0d

instance (c : Byte) : Decidable (EndsNumber c) := inferInstanceAs (Decidable (_ ∨ _))

/-- The value of digits behind the value `n`. -/
def decimalFrom (n : ℕ) (ds : List Byte) : ℕ := ds.foldl (fun n d => 10 * n + (d.toNat - 0x30)) n

/-- The line from `y` on holds, behind spaces, digits that end before `z` and stand for `n`, which is
the number of a disk. -/
def DiskNumber (line : Byte → Byte) (y : Byte) (n : ℕ) (z : Byte) : Prop :=
  ∃ (k : ℕ) (ds : List Byte) (t : Byte) (r : List Byte),
    restOfLine line y = List.replicate k 0x20 ++ (ds ++ t :: r) ∧ ds ≠ [] ∧ (∀ d ∈ ds, IsDigit d) ∧
      EndsNumber t ∧ n = decimalFrom 0 ds ∧ n ≤ 510 ∧ z = y + BitVec.ofNat 8 (k + ds.length)

section Lines

variable {line : Byte → Byte} {x y c t : Byte} {l r ds : List Byte} {k n m : ℕ} {s : DigitState}

lemma restOfLine_eq (line : Byte → Byte) (y : Byte) :
    restOfLine line y = line y :: if y + 1 = 0 then [] else restOfLine line (y + 1) := by
  have hy := byte_lt y
  have hlen : 256 - y.toNat = (255 - y.toNat) + 1 := by omega
  rw [restOfLine, hlen, List.range'_succ, List.map_cons, BitVec.ofNat_toNat, BitVec.setWidth_eq]
  congr 1
  by_cases hwrap : y + 1 = 0
  · have hlast : 255 - y.toNat = 0 := by
      have := congrArg BitVec.toNat hwrap
      rw [BitVec.toNat_add] at this
      simp at this
      omega
    rw [hlast, if_pos hwrap]
    rfl
  · have hnext := toNat_add_one hwrap
    have hlast : 256 - (y.toNat + 1) = 255 - y.toNat := by omega
    rw [if_neg hwrap, restOfLine, hnext, hlast]

/-- The next character is at the next position. -/
lemma restOfLine_next (h : restOfLine line y = c :: t :: l) :
    line y = c ∧ y + 1 ≠ 0 ∧ restOfLine line (y + 1) = t :: l := by
  rw [restOfLine_eq] at h
  obtain ⟨hc, htail⟩ := List.cons.inj h
  by_cases hwrap : y + 1 = 0
  · rw [if_pos hwrap] at htail
    cases htail
  · rw [if_neg hwrap] at htail
    exact ⟨hc, hwrap, htail⟩

lemma restOfLine_head (h : restOfLine line y = c :: l) : line y = c := by
  rw [restOfLine_eq] at h
  exact (List.cons.inj h).1

lemma restOfLine_ne_zero (h : restOfLine line y = c :: l) (hl : l ≠ []) : y + 1 ≠ 0 := by
  obtain ⟨t, l, rfl⟩ := List.exists_cons_of_ne_nil hl
  exact (restOfLine_next h).2.1

/-- The spaces are stepped over. -/
lemma skipSpaces_spaces (h : restOfLine line y = List.replicate k 0x20 ++ c :: l) (hn : k < n) :
    skipSpaces line x n y = skipSpaces line x (n - k) (y + BitVec.ofNat 8 k) := by
  induction k generalizing y n with
  | zero => simp
  | succ k ih =>
      obtain ⟨n, rfl⟩ : ∃ m, n = m + 1 := ⟨n - 1, by omega⟩
      have hrest : ∃ t l', List.replicate k 0x20 ++ c :: l = t :: l' :=
        List.exists_cons_of_ne_nil (by simp)
      obtain ⟨t, l', ht⟩ := hrest
      rw [List.replicate_succ, List.cons_append, ht] at h
      obtain ⟨hc, hwrap, hnext⟩ := restOfLine_next h
      rw [skipSpaces, hc, if_neg (by decide), if_neg hwrap, if_pos rfl, ih (ht ▸ hnext) (by omega)]
      have hy : y + 1 + BitVec.ofNat 8 k = y + BitVec.ofNat 8 (k + 1) := by
        rw [Nat.add_comm k, BitVec.ofNat_add, BitVec.add_assoc]
        rfl
      rw [hy, Nat.add_sub_add_right]

lemma decimalFrom_cons (n : ℕ) (d : Byte) (ds : List Byte) :
    decimalFrom n (d :: ds) = decimalFrom (10 * n + (d.toNat - 0x30)) ds :=
  List.foldl_cons ..

lemma le_decimalFrom (n : ℕ) (ds : List Byte) : n ≤ decimalFrom n ds := by
  induction ds generalizing n with
  | nil => exact le_rfl
  | cons d ds ih =>
      have := ih (10 * n + (d.toNat - 0x30))
      rw [decimalFrom_cons]
      omega

/-- What is subtracted from a character, in numbers. -/
lemma sbc_zero_digit (c : Byte) :
    (sbc c 0x30 true).1.toNat = if c.toNat < 0x30 then c.toNat + 208 else c.toNat - 0x30 := by
  have heq := sbc_eq c 0x30 true
  have hlt := byte_lt (sbc c 0x30 true).1
  have hbool := toNat_bool_le (sbc c 0x30 true).2
  have hc := byte_lt c
  have h30 : (0x30 : Byte).toNat = 0x30 := rfl
  rw [h30, Bool.toNat_true] at heq
  split <;> omega

lemma digit_val (h : IsDigit c) : (sbc c 0x30 true).1.toNat = c.toNat - 0x30 := by
  rw [sbc_zero_digit, if_neg (by have := h.1; omega)]

/-- The two tests let through the digits. -/
lemma digit_tests (c : Byte) :
    (sbc c 0x30 true).1.msb = true ∨ cmpCarry (sbc c 0x30 true).1 0x0a = true ↔ ¬ IsDigit c := by
  have hc := byte_lt c
  have hval := sbc_zero_digit c
  have hten : (0x0a : Byte).toNat = 10 := rfl
  rw [BitVec.msb_eq_decide, cmpCarry, decide_eq_true_iff, decide_eq_true_iff, hten, IsDigit]
  generalize (sbc c 0x30 true).1.toNat = v at hval ⊢
  split at hval <;> omega

lemma endsNumber_not_digit (h : EndsNumber t) : ¬ IsDigit t := by
  rcases h with rfl | rfl <;> decide

/-- A round at something other than a digit. -/
lemma digitRound_end (h : ¬ IsDigit (line s.y)) : digitRound line s = .inr none := by
  rw [digitRound]
  rcases (digit_tests _).2 h with hmsb | hcmp
  · rw [if_pos hmsb]
  · rw [if_pos hcmp, ite_self]

/-- A round at a digit. -/
lemma digitRound_digit {s' : DigitState} (h : IsDigit (line s.y)) (hhi : s.num.hi.toNat < 2)
    (hy : s.y + 1 ≠ 0) (hs' : s' = ⟨s.y + 1, s.num.timesTen (sbc (line s.y) 0x30 true).1⟩) :
    s'.num.val = 10 * s.num.val + ((line s.y).toNat - 0x30) ∧
    digitRound line s = if 512 ≤ s'.num.val then .inr none
      else if EndsNumber (line s'.y) then .inr (some s') else .inl s' := by
  have hval := digit_val h
  obtain ⟨hmsb, hcmp⟩ := not_or.1 (mt (digit_tests (line s.y)).1 (not_not.2 h))
  have htimes : s'.num.val = 10 * s.num.val + ((line s.y).toNat - 0x30) := by
    rw [hs', timesTen_val hhi (by have := h.2; omega), hval]
  have hlow : cmpCarry s'.num.hi 2 = true ↔ 512 ≤ s'.num.val := by
    have htwo : (2 : Byte).toNat = 2 := rfl
    have hlo := byte_lt s'.num.lo
    rw [cmpCarry, decide_eq_true_iff, DiskNum.val, htwo]
    omega
  have hy' : s'.y ≠ 0 := hs' ▸ hy
  refine ⟨htimes, ?_⟩
  rw [digitRound, if_neg hmsb, if_neg hcmp, ← hs']
  simp only [hlow, if_neg hy']
  by_cases hbig : 512 ≤ s'.num.val
  · rw [if_pos hbig, if_pos hbig]
  · rw [if_neg hbig, if_neg hbig]
    by_cases hcr : line s'.y = 0x0d
    · rw [if_pos hcr, if_pos (show EndsNumber _ from Or.inr hcr)]
    · by_cases hsp : line s'.y = 0x20
      · rw [if_neg hcr, if_neg (not_not.2 hsp), if_pos (show EndsNumber _ from Or.inl hsp)]
      · rw [if_neg hcr, if_pos hsp, if_neg (show ¬ EndsNumber _ from not_or.2 ⟨hsp, hcr⟩)]

/-- **The digits of a line**: the number that they stand for behind the number held so far, if they end as
a number does and the number stays below 512. -/
lemma digitLoop_digits (h : restOfLine line s.y = ds ++ t :: r) (hds : ∀ d ∈ ds, IsDigit d) (ht : ¬ IsDigit t)
    (hhi : s.num.hi.toNat < 2) (hn : ds.length < n) :
    if ds ≠ [] ∧ EndsNumber t ∧ decimalFrom s.num.val ds < 512 then
      ∃ s', digitLoop line n s = some s' ∧ s'.num.val = decimalFrom s.num.val ds ∧
        s'.y = s.y + BitVec.ofNat 8 ds.length
    else digitLoop line n s = none := by
  induction ds generalizing s n with
  | nil =>
      obtain ⟨n, rfl⟩ : ∃ m, n = m + 1 := ⟨n - 1, by omega⟩
      rw [if_neg (fun hnil => hnil.1 rfl), digitLoop, digitRound_end (restOfLine_head h ▸ ht)]
  | cons d ds ih =>
      obtain ⟨n, rfl⟩ : ∃ m, n = m + 1 := ⟨n - 1, by omega⟩
      obtain ⟨hd, hds⟩ := List.forall_mem_cons.1 hds
      have hhead := restOfLine_head h
      have hy := restOfLine_ne_zero h (by simp)
      obtain ⟨s', hs'⟩ : ∃ s', s' = (⟨s.y + 1, s.num.timesTen (sbc (line s.y) 0x30 true).1⟩ : DigitState) :=
        ⟨_, rfl⟩
      obtain ⟨hval, hround⟩ := digitRound_digit (hhead.symm ▸ hd) hhi hy hs'
      rw [hhead] at hval
      have hy' : s'.y = s.y + 1 := by rw [hs']
      have hrest : restOfLine line s'.y = ds ++ t :: r := by
        rw [restOfLine_eq, if_neg hy] at h
        rw [hy']
        exact (List.cons.inj h).2
      rw [decimalFrom_cons, ← hval, digitLoop, hround]
      by_cases hbig : 512 ≤ s'.num.val
      · have hle := le_decimalFrom s'.num.val ds
        rw [if_pos hbig, if_neg (fun hsmall => by omega)]
      · have hhi' : s'.num.hi.toNat < 2 := by
          rw [DiskNum.val] at hbig
          omega
        have hloop := ih (n := n) hrest hds hhi' (by rw [List.length_cons] at hn; omega)
        rw [if_neg hbig]
        cases ds with
        | nil =>
            rw [List.nil_append] at hrest
            rw [restOfLine_head hrest]
            by_cases hend : EndsNumber t
            · rw [if_pos hend, if_pos ⟨List.cons_ne_nil _ _, hend, by simpa [decimalFrom] using hbig⟩]
              exact ⟨s', rfl, rfl, hy'⟩
            · rw [if_neg hend, if_neg (fun hgood => hend hgood.2.1)]
              rwa [if_neg (fun hnil => hnil.1 rfl)] at hloop
        | cons d' ds =>
            have hdigit : IsDigit d' := hds d' List.mem_cons_self
            have hlen : s'.y + BitVec.ofNat 8 (d' :: ds).length
                = s.y + BitVec.ofNat 8 (d :: d' :: ds).length := by
              rw [hy', List.length_cons (a := d), Nat.add_comm (d' :: ds).length, BitVec.ofNat_add,
                BitVec.add_assoc]
              rfl
            rw [restOfLine_head hrest, if_neg (fun hend => endsNumber_not_digit hend hdigit)]
            rw [hlen] at hloop
            simpa using hloop

/-- The characters behind the first ones. -/
lemma restOfLine_append (h : restOfLine line y = l ++ c :: r) :
    restOfLine line (y + BitVec.ofNat 8 l.length) = c :: r := by
  induction l generalizing y with
  | nil => simpa using h
  | cons a l ih =>
      have hy := restOfLine_ne_zero h (by simp)
      rw [restOfLine_eq, if_neg hy] at h
      have hrest := ih (List.cons.inj h).2
      have hlen : y + 1 + BitVec.ofNat 8 l.length = y + BitVec.ofNat 8 (a :: l).length := by
        rw [List.length_cons, Nat.add_comm l.length, BitVec.ofNat_add, BitVec.add_assoc]
        rfl
      rwa [hlen] at hrest

lemma length_restOfLine (line : Byte → Byte) (y : Byte) : (restOfLine line y).length = 256 - y.toNat := by
  rw [restOfLine, List.length_map, List.length_range']

lemma mem_restOfLine (line : Byte → Byte) {e : Byte} (h : y.toNat ≤ e.toNat) :
    line e ∈ restOfLine line y := by
  have he := byte_lt e
  refine List.mem_map.2 ⟨e.toNat, List.mem_range'_1.2 ⟨h, by omega⟩, ?_⟩
  rw [BitVec.ofNat_toNat, BitVec.setWidth_eq]

/-- A line with a carriage return is digits and something else. -/
lemma exists_digits (h : (0x0d : Byte) ∈ l) :
    ∃ (ds : List Byte) (t : Byte) (r : List Byte), l = ds ++ t :: r ∧ (∀ d ∈ ds, IsDigit d) ∧ ¬ IsDigit t ∧
      (0x0d : Byte) ∈ t :: r := by
  induction l with
  | nil => cases h
  | cons c l ih =>
      by_cases hc : IsDigit c
      · have hmem : (0x0d : Byte) ∈ l := by
          rcases List.mem_cons.1 h with heq | hmem
          · rw [← heq] at hc
            exact absurd hc (by decide)
          · exact hmem
        obtain ⟨ds, t, r, rfl, hds, hrest⟩ := ih hmem
        exact ⟨c :: ds, t, r, rfl, List.forall_mem_cons.2 ⟨hc, hds⟩, hrest⟩
      · exact ⟨[], c, l, rfl, List.forall_mem_nil _, hc, h⟩

/-- It is spaces, digits and something else, which is no space if there are no digits. -/
lemma exists_spaces_digits (h : (0x0d : Byte) ∈ l) :
    ∃ (k : ℕ) (ds : List Byte) (t : Byte) (r : List Byte), l = List.replicate k 0x20 ++ (ds ++ t :: r) ∧
      (∀ d ∈ ds, IsDigit d) ∧ ¬ IsDigit t ∧ (ds = [] → t ≠ 0x20) ∧ (0x0d : Byte) ∈ t :: r := by
  induction l with
  | nil => cases h
  | cons c l ih =>
      by_cases hsp : c = 0x20
      · have hmem : (0x0d : Byte) ∈ l := by
          rcases List.mem_cons.1 h with heq | hmem
          · exact absurd (heq.trans hsp) (by decide)
          · exact hmem
        obtain ⟨k, ds, t, r, hl, hrest⟩ := ih hmem
        refine ⟨k + 1, ds, t, r, ?_, hrest⟩
        rw [hl, hsp, List.replicate_succ, List.cons_append]
      · obtain ⟨ds, t, r, hl, hds, ht, hcr⟩ := exists_digits h
        refine ⟨0, ds, t, r, hl, hds, ht, ?_, hcr⟩
        rintro rfl rfl
        exact hsp (List.cons.inj hl).1

/-- The registers for a number. -/
def numberRegs (n : ℕ) (z : Byte) : Regs := ⟨hiByte (BitVec.ofNat 16 n), loByte (BitVec.ofNat 16 n), z, false⟩

lemma giveNumber_eq {m : ℕ} (hval : s.num.val = m) (hm : m < 512) :
    giveNumber s = if m ≤ 510 then some (numberRegs m s.y) else none := by
  have hlo := byte_lt s.num.lo
  rw [DiskNum.val] at hval
  have hwrap : s.num.hi ≠ 0 ∧ s.num.lo + 1 = 0 ↔ ¬ m ≤ 510 := by
    rw [← not_iff_not, not_not, not_and]
    constructor
    · intro h
      by_contra hbig
      have hhi : s.num.hi ≠ 0 := by
        intro hzero
        rw [hzero] at hval
        simp at hval
        omega
      have hnext := toNat_add_one (h hhi)
      have := byte_lt (s.num.lo + 1)
      omega
    · intro hle hhi hlast
      have hpos : s.num.hi.toNat ≠ 0 := fun hzero => hhi (toNat_eq_zero.1 hzero)
      have hmax : s.num.lo.toNat = 255 := by
        by_contra hne
        have := toNat_add_one_of_lt (a := s.num.lo) (by omega)
        rw [hlast] at this
        simp at this
      omega
  have hregs : numberRegs m s.y = ⟨s.num.hi, s.num.lo, s.y, false⟩ := by
    have hword : (BitVec.ofNat 16 m).toNat = m := by
      rw [BitVec.toNat_ofNat]
      omega
    have hhi : hiByte (BitVec.ofNat 16 m) = s.num.hi := by
      apply BitVec.eq_of_toNat_eq
      rw [toNat_hiByte, hword]
      omega
    have hlow : loByte (BitVec.ofNat 16 m) = s.num.lo := by
      apply BitVec.eq_of_toNat_eq
      rw [toNat_loByte, hword]
      omega
    rw [numberRegs, hhi, hlow]
  rw [giveNumber, hregs]
  simp only [hwrap]
  by_cases hle : m ≤ 510 <;> simp [hle]

/-- The digits behind the spaces: a number, or none. -/
lemma digits_number {z : Byte} (h : restOfLine line z = ds ++ t :: r) (hds : ∀ d ∈ ds, IsDigit d)
    (ht : ¬ IsDigit t) (hlen : ds.length < 256) :
    (digitLoop line 256 ⟨z, ⟨0, 0⟩⟩).bind giveNumber = if ds ≠ [] ∧ EndsNumber t ∧ decimalFrom 0 ds ≤ 510 then
      some (numberRegs (decimalFrom 0 ds) (z + BitVec.ofNat 8 ds.length)) else none := by
  have hlow : (0 : Byte).toNat < 2 := by decide
  have hloop := digitLoop_digits (s := ⟨z, 0, 0⟩) (n := 256) h hds ht hlow (by omega)
  have hzero : (⟨0, 0⟩ : DiskNum).val = 0 := rfl
  simp only [hzero] at hloop
  by_cases hgood : ds ≠ [] ∧ EndsNumber t ∧ decimalFrom 0 ds < 512
  · rw [if_pos hgood] at hloop
    obtain ⟨s, hs, hval, hy⟩ := hloop
    have hgive : (digitLoop line 256 ⟨z, ⟨0, 0⟩⟩).bind giveNumber = giveNumber s := congrArg (·.bind giveNumber) hs
    rw [hgive, giveNumber_eq hval hgood.2.2, hy]
    by_cases hle : decimalFrom 0 ds ≤ 510
    · rw [if_pos hle, if_pos ⟨hgood.1, hgood.2.1, hle⟩]
    · rw [if_neg hle, if_neg fun h => hle h.2.2]
  · rw [if_neg hgood] at hloop
    rw [if_neg fun h => hgood ⟨h.1, h.2.1, by omega⟩]
    exact congrArg (·.bind giveNumber) hloop

/-- **The reader at a line**: what it returns, by what comes behind the spaces. -/
lemma readDiskNumber_line (h : restOfLine line y = List.replicate k 0x20 ++ (ds ++ t :: r))
    (hds : ∀ d ∈ ds, IsDigit d) (ht : ¬ IsDigit t) (hsp : ds = [] → t ≠ 0x20) (hcr : (0x0d : Byte) ∈ t :: r) :
    readDiskNumber line x y = some (if ds ≠ [] ∧ EndsNumber t ∧ decimalFrom 0 ds ≤ 510 then
      numberRegs (decimalFrom 0 ds) (y + BitVec.ofNat 8 (k + ds.length)) else ⟨0, 0, y, true⟩) := by
  have hlen := length_restOfLine line y
  rw [h, List.length_append, List.length_append, List.length_replicate, List.length_cons] at hlen
  obtain ⟨c, l, hc⟩ : ∃ c l, ds ++ t :: r = c :: l := List.exists_cons_of_ne_nil (by simp)
  -- a character behind the spaces that is no digit ends the digits before they begin
  have hfirst : ∀ a : Byte, ¬ IsDigit a → c = a → ds = [] ∧ t = a := by
    rintro a ha rfl
    cases ds with
    | nil => exact ⟨rfl, (List.cons.inj hc).1⟩
    | cons d ds =>
        have hd := hds d List.mem_cons_self
        rw [(List.cons.inj hc).1] at hd
        exact absurd hd ha
  have hspace : c ≠ 0x20 := fun hc20 => (hfirst 0x20 (by decide) hc20).elim hsp
  rw [hc] at h
  have hrest := restOfLine_append h
  rw [List.length_replicate] at hrest
  have hskip := skipSpaces_spaces (x := x) (n := 256) h (by omega)
  rw [BitVec.ofNat_add, ← BitVec.add_assoc]
  set z := y + BitVec.ofNat 8 k
  have hline := restOfLine_head hrest
  obtain ⟨n, hn⟩ : ∃ n, 256 - k = n + 1 := ⟨255 - k, by omega⟩
  have hstep : skipSpaces line x (n + 1) z = if c = 0x0d then some ⟨c, x, z - 1, true⟩
      else if z + 1 = 0 then none
      else if c = 0x20 then skipSpaces line x n (z + 1)
      else some ⟨c, x, z, false⟩ := by
    rw [skipSpaces, hline]
  rw [hn, hstep] at hskip
  by_cases hc' : c = 0x0d
  · rw [if_pos hc'] at hskip
    rw [readDiskNumber, hskip, if_neg fun hgood => hgood.1 (hfirst 0x0d (by decide) hc').1]
    rfl
  · have hmem : (0x0d : Byte) ∈ c :: l := hc ▸ List.mem_append_right ds hcr
    have hwrap : z + 1 ≠ 0 := by
      refine restOfLine_ne_zero hrest (List.ne_nil_of_mem (a := 0x0d) ?_)
      exact (List.mem_cons.1 hmem).resolve_left (Ne.symm hc')
    rw [if_neg hc', if_neg hwrap, if_neg hspace] at hskip
    have hnot : ¬ ((⟨c, x, z, false⟩ : Regs).carry = true ∨ line z = 0x0d) := by
      rw [hline]
      exact fun h => h.elim Bool.false_ne_true hc'
    have hread : readDiskNumber line x y
        = some (((digitLoop line 256 ⟨z, ⟨0, 0⟩⟩).bind giveNumber).getD ⟨0, 0, y, true⟩) := by
      rw [readDiskNumber, hskip]
      exact congrArg (fun o : Option Regs => some (o.getD ⟨0, 0, y, true⟩)) (if_neg hnot)
    rw [hread, digits_number (hrest.trans hc.symm) hds ht (by omega)]
    by_cases hgood : ds ≠ [] ∧ EndsNumber t ∧ decimalFrom 0 ds ≤ 510
    · rw [if_pos hgood, if_pos hgood]
      rfl
    · rw [if_neg hgood, if_neg hgood]
      rfl

/-- The high byte stays below two. -/
lemma digitRound_inl {s' : DigitState} (h : digitRound line s = .inl s') : s'.num.hi.toNat < 2 := by
  rw [digitRound] at h
  split at h
  · cases h
  · split at h
    · cases h
    · dsimp only at h
      split at h
      · cases h
      · next hlow =>
          split at h
          · cases h
          · split at h
            · cases h
            · split at h
              · cases h
                rw [cmpCarry, decide_eq_true_iff] at hlow
                exact Nat.lt_of_not_le hlow
              · cases h

end Lines

/-- **A disk number is read** exactly when the line holds one, and then it is in `A` and `X` with `Y` behind
it; otherwise the carry is set and `Y` is where it was.  In every round of the loop the product and the
sum are exact. -/
theorem readDiskNumber_spec (line : Byte → Byte) (x y : Byte)
    (h : ∃ e : Byte, y.toNat ≤ e.toNat ∧ line e = 0x0d) :
    (∃ r, readDiskNumber line x y = some r ∧
      (r.carry = false ↔ ∃ n z, DiskNumber line y n z) ∧
      (∀ n z, DiskNumber line y n z → r = numberRegs n z) ∧
      (r.carry = true → r = ⟨0, 0, y, true⟩)) ∧
    ∀ z s, Relation.ReflTransGen (fun s s' => digitRound line s = .inl s') ⟨z, 0, 0⟩ s →
      ∀ d : Byte, d.toNat < 10 → (s.num.timesTen d).val = 10 * s.num.val + d.toNat := by
  obtain ⟨e, hle, he⟩ := h
  have hmem := mem_restOfLine line hle
  rw [he] at hmem
  obtain ⟨k, ds, t, r, hrest, hds, ht, hsp, hcr⟩ := exists_spaces_digits hmem
  have hread := readDiskNumber_line (x := x) hrest hds ht hsp hcr
  -- whatever number the line holds, it is what is read
  have hnumber : ∀ n z, DiskNumber line y n z → readDiskNumber line x y = some (numberRegs n z) := by
    rintro n z ⟨k', ds', t', r', hrest', hne, hds', hend, rfl, hn, rfl⟩
    have hcr' : (0x0d : Byte) ∈ t' :: r' := by
      rw [hrest', List.mem_append, List.mem_append] at hmem
      rcases hmem with hspace | hdigit | htail
      · exact absurd (List.eq_of_mem_replicate hspace) (by decide)
      · exact absurd (hds' _ hdigit) (by decide)
      · exact htail
    rw [readDiskNumber_line hrest' hds' (endsNumber_not_digit hend) (fun hnil => absurd hnil hne) hcr',
      if_pos ⟨hne, hend, hn⟩]
  refine ⟨⟨_, hread, ?_, ?_, ?_⟩, ?_⟩
  · constructor
    · intro hcarry
      by_cases hgood : ds ≠ [] ∧ EndsNumber t ∧ decimalFrom 0 ds ≤ 510
      · exact ⟨_, _, k, ds, t, r, hrest, hgood.1, hds, hgood.2.1, rfl, hgood.2.2, rfl⟩
      · rw [if_neg hgood] at hcarry
        cases hcarry
    · rintro ⟨n, z, hdn⟩
      rw [Option.some.inj (hread.symm.trans (hnumber n z hdn))]
      rfl
  · exact fun n z hdn => Option.some.inj (hread.symm.trans (hnumber n z hdn))
  · intro hcarry
    by_cases hgood : ds ≠ [] ∧ EndsNumber t ∧ decimalFrom 0 ds ≤ 510
    · rw [if_pos hgood] at hcarry
      cases hcarry
    · rw [if_neg hgood]
  · intro z s hreach d hd
    refine timesTen_val ?_ hd
    cases hreach with
    | refl => exact Nat.two_pos
    | tail _ hlast => exact digitRound_inl hlast

/-- A line with the digit 7. -/
def sevenLine (i : Byte) : Byte := if i = 0 then 0x37 else 0x0d

theorem sevenLine_read : readDiskNumber sevenLine 0 0 = some ⟨0, 7, 1, false⟩ := by
  obtain ⟨⟨r, hr, -, hnumber, -⟩, -⟩ := readDiskNumber_spec sevenLine 0 0 ⟨1, by decide, rfl⟩
  have hline : restOfLine sevenLine 0 = 0x37 :: 0x0d :: restOfLine sevenLine 2 := by
    rw [restOfLine_eq, restOfLine_eq]
    rfl
  rw [hr, hnumber 7 1 ⟨0, [0x37], 0x0d, _, hline, by decide, by decide, by decide, rfl, by decide, rfl⟩]
  decide

end Udfs.Rom
