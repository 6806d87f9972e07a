import Udfs.Lib.Reader
import Udfs.Uptx.Program

/-!
# The syntax of `*UPCOMM`

The name has to be in capitals, and seven fields follow it, each behind one space: four of two
hexadecimal digits, two of four, and one that is four digits or an `R` and one digit.  The readers of
the ROM are put together as the grammar is, so each has one rule.  What stands behind the seventh field
is not looked at.
-/

namespace Udfs.Uptx

open Link

/-! ## The grammar -/

/-- A hexadecimal digit of either case. -/
def IsDigit (c : Byte) (n : ℕ) : Prop :=
  (ascii "0123456789ABCDEF")[n]? = some c ∨ (ascii "0123456789abcdef")[n]? = some c

instance (c : Byte) (n : ℕ) : Decidable (IsDigit c n) := inferInstanceAs (Decidable (_ ∨ _))

/-- One digit. -/
inductive HexNibble : List Byte → Byte → Prop
  | mk {c : Byte} {n : ℕ} (digit : IsDigit c n) : HexNibble [c] (BitVec.ofNat 8 n)

/-- Two digits. -/
inductive HexByte : List Byte → Byte → Prop
  | mk {c d : Byte} {m n : ℕ} (hi : IsDigit c m) (lo : IsDigit d n) :
      HexByte [c, d] (BitVec.ofNat 8 (16 * m + n))

/-- Four digits. -/
inductive HexWord : List Byte → Word → Prop
  | mk {c d e f : Byte} {i j m n : ℕ} (first : IsDigit c i) (second : IsDigit d j) (third : IsDigit e m)
      (fourth : IsDigit f n) :
      HexWord [c, d, e, f] (BitVec.ofNat 16 (4096 * i + 256 * j + 16 * m + n))

/-- Where the response goes: four digits for an address, with the bank that is selected, or an `R` and a
digit for a bank, with its first address. -/
inductive Target (rom : Byte) : List Byte → Word × Byte → Prop
  | address {l : List Byte} {w : Word} (digits : HexWord l w) : Target rom l (w, rom)
  | bank {c : Byte} {n : ℕ} (digit : IsDigit c n) : Target rom [0x52, c] (0x8000, BitVec.ofNat 8 n)

/-- The seven fields. -/
inductive Fields (rom : Byte) : List Byte → ParamBlock × Byte → Prop
  | mk {ch cmd p1 p2 rql rqa rsa : List Byte} {channel command param1 param2 : Byte}
      {sendLength sendAddr : Word} {target : Word × Byte}
      (isChannel : HexByte ch channel) (isCommand : HexByte cmd command)
      (isParam1 : HexByte p1 param1) (isParam2 : HexByte p2 param2)
      (isLength : HexWord rql sendLength) (isAddr : HexWord rqa sendAddr)
      (isTarget : Target rom rsa target) :
      Fields rom
        (0x20 :: ch ++ 0x20 :: cmd ++ 0x20 :: p1 ++ 0x20 :: p2 ++ 0x20 :: rql ++ 0x20 :: rqa ++ 0x20 :: rsa)
        (⟨channel, command, param1, param2, loByte sendLength, hiByte sendLength, sendAddr, target.1⟩,
          target.2)

/-- `iny`. -/
abbrev iny (y : Byte) : Byte := y + 1

/-! ## Digits -/

lemma IsDigit.lt {c : Byte} {n : ℕ} (h : IsDigit c n) : n < 16 := by
  rcases h with h | h
  · exact (List.getElem?_eq_some_iff.1 h).1
  · exact (List.getElem?_eq_some_iff.1 h).1

/-- Both cases of all digits are read. -/
lemma getNibble_digit {c : Byte} {n : ℕ} (h : IsDigit c n) : getNibble c = some (BitVec.ofNat 8 n) := by
  have hupper : ∀ k : Fin 16, getNibble ((ascii "0123456789ABCDEF").getD k 0) = some (BitVec.ofNat 8 k) := by
    decide
  have hlower : ∀ k : Fin 16, getNibble ((ascii "0123456789abcdef").getD k 0) = some (BitVec.ofNat 8 k) := by
    decide
  have hn := h.lt
  rcases h with h | h
  · have hk := hupper ⟨n, hn⟩
    rwa [List.getD_eq_getElem?_getD, h] at hk
  · have hk := hlower ⟨n, hn⟩
    rwa [List.getD_eq_getElem?_getD, h] at hk

/-- The characters that `and #$df` maps to a letter and that are none are below the digits. -/
lemma getNibble_sound (c : Byte) : ∀ v, getNibble c = some v → IsDigit c v.toNat := by
  have hall : ∀ c : Byte, (getNibble c).all fun v => decide (IsDigit c v.toNat) := by decide
  intro v hv
  have h := hall c
  rw [hv] at h
  exact of_decide_eq_true h

lemma getNibble_eq_some {c v : Byte} : getNibble c = some v ↔ ∃ n, IsDigit c n ∧ v = BitVec.ofNat 8 n := by
  constructor
  · intro h
    exact ⟨v.toNat, getNibble_sound c v h, by simp⟩
  · rintro ⟨n, hn, rfl⟩
    exact getNibble_digit hn

lemma or_highNibble {m n : ℕ} (hm : m < 16) (hn : n < 16) :
    BitVec.ofNat 8 n ||| highNibble (BitVec.ofNat 8 m) = BitVec.ofNat 8 (16 * m + n) := by
  have hall : ∀ i j : Fin 16,
      BitVec.ofNat 8 j.val ||| highNibble (BitVec.ofNat 8 i.val) = BitVec.ofNat 8 (16 * i.val + j.val) := by
    decide
  exact hall ⟨m, hm⟩ ⟨n, hn⟩

lemma wordOf_digits {i j m n : ℕ} (hm : m < 16) (hn : n < 16) :
    wordOf (BitVec.ofNat 8 (16 * m + n)) (BitVec.ofNat 8 (16 * i + j))
      = BitVec.ofNat 16 (4096 * i + 256 * j + 16 * m + n) := by
  apply BitVec.eq_of_toNat_eq
  simp only [toNat_wordOf, BitVec.toNat_ofNat]
  omega

/-! ## The readers -/

section Readers

variable (line : Byte → Byte) {rom : Byte}

lemma reads_nextChar : Reads iny line (nextChar line) fun l a => l = [a] := by
  refine (reads_item some fun y => rfl).congr fun l a => ?_
  simp

lemma reads_nextNibble : Reads iny line (nextNibble line) HexNibble := by
  have hread : ∀ y, nextNibble line y = (getNibble (line y)).map fun v => (v, iny y) := by
    intro y
    have hrun : nextNibble line y = (getNibble (line y)).bind fun v => some (v, iny y) := rfl
    rw [hrun, Option.map_eq_bind]
    rfl
  refine (reads_item getNibble hread).congr fun l v => ?_
  constructor
  · rintro ⟨c, hc, rfl⟩
    obtain ⟨n, hn, rfl⟩ := getNibble_eq_some.1 hc
    exact .mk hn
  · rintro ⟨digit⟩
    exact ⟨_, getNibble_digit digit, rfl⟩

lemma reads_getByte : Reads iny line (getByte line) HexByte := by
  refine ((reads_nextNibble line).bind fun _ => (reads_nextNibble line).bind fun _ =>
    reads_pure _).congr fun l v => ?_
  constructor
  · rintro ⟨_, _, _, ⟨hi⟩, ⟨_, _, _, ⟨lo⟩, ⟨rfl, rfl⟩, rfl⟩, rfl⟩
    rw [or_highNibble hi.lt lo.lt]
    exact .mk hi lo
  · rintro ⟨hi, lo⟩
    exact ⟨_, _, _, .mk hi, ⟨_, _, _, .mk lo, ⟨rfl, (or_highNibble hi.lt lo.lt).symm⟩, rfl⟩, rfl⟩

lemma reads_getWord : Reads iny line (getWord line) HexWord := by
  refine ((reads_getByte line).bind fun _ => (reads_getByte line).bind fun _ =>
    reads_pure _).congr fun l v => ?_
  constructor
  · rintro ⟨_, _, _, ⟨hi, hi'⟩, ⟨_, _, _, ⟨lo, lo'⟩, ⟨rfl, rfl⟩, rfl⟩, rfl⟩
    rw [wordOf_digits lo.lt lo'.lt]
    exact .mk hi hi' lo lo'
  · rintro ⟨hi, hi', lo, lo'⟩
    exact ⟨_, _, _, .mk hi hi', ⟨_, _, _, .mk lo lo',
      ⟨rfl, (wordOf_digits lo.lt lo'.lt).symm⟩, rfl⟩, rfl⟩

lemma reads_chomp : Reads iny line (chomp line) fun l _ => l = [0x20] := by
  have hread : ∀ y, chomp line y = (if line y = 0x20 then some () else none).map fun v => (v, iny y) := by
    intro y
    have hrun : chomp line y
        = (if line y ≠ 0x20 then liftM none else pure () : StateT Byte Option Unit) (iny y) := rfl
    rw [hrun]
    by_cases h : line y = 0x20
    · rw [if_neg (not_not.2 h), if_pos h]
      rfl
    · rw [if_pos h, if_neg h]
      rfl
  refine (reads_item (fun a => if a = 0x20 then some () else none) hread).congr fun l _ => ?_
  simp

/-- What stands behind a space. -/
lemma reads_behind {α : Type} {q : StateT Byte Option α} {H : List Byte → α → Prop}
    (hq : Reads iny line q H) :
    Reads iny line (chomp line >>= fun _ => q) fun l v => ∃ l', H l' v ∧ l = 0x20 :: l' := by
  refine ((reads_chomp line).bind fun _ => hq).congr fun l v => ?_
  constructor
  · rintro ⟨_, l', _, rfl, hl', rfl⟩
    exact ⟨l', hl', rfl⟩
  · rintro ⟨l', hl', rfl⟩
    exact ⟨[0x20], l', (), rfl, hl', rfl⟩

/-- An address does not begin with `R`. -/
lemma not_isDigit_R (n : ℕ) : ¬ IsDigit 0x52 n := by
  intro h
  have hnone : getNibble 0x52 = none := by decide
  rw [getNibble_digit h] at hnone
  cases hnone

lemma reads_getTarget : Reads iny line (getTarget line rom) (Target rom) := by
  have hbank := (reads_nextChar line).bind fun _ =>
    (reads_nextNibble line).bind fun destRom => reads_pure ((0x8000 : Word), destRom)
  have haddr := (reads_getWord line).bind fun w => reads_pure (w, rom)
  refine (hbank.choose (c := fun a => a = 0x52) haddr ?_ ?_ ?_).congr fun l v => ?_
  · intro y
    have hrun : getTarget line rom y = (if line y = 0x52 then (do
        set (y + 1)
        let destRom ← nextNibble line
        pure (0x8000, destRom)) else (do
        let recvAddr ← getWord line
        pure (recvAddr, rom)) : StateT Byte Option (Word × Byte)) y := rfl
    rw [hrun]
    by_cases h : line y = 0x52
    · rw [if_pos h, if_pos h]
      rfl
    · rw [if_neg h, if_neg h]
  · rintro v ⟨_, _, _, rfl, -, h⟩
    cases h
  · rintro v ⟨_, _, _, ⟨⟩, -, h⟩
    cases h
  · constructor
    · rintro ⟨a, ha, h⟩
      by_cases hR : a = 0x52
      · rw [if_pos hR] at h
        obtain ⟨_, _, _, rfl, ⟨_, _, _, ⟨digit⟩, ⟨rfl, rfl⟩, rfl⟩, rfl⟩ := h
        cases ha
        rw [hR]
        exact .bank digit
      · rw [if_neg hR] at h
        obtain ⟨_, _, _, digits, ⟨rfl, rfl⟩, rfl⟩ := h
        rw [List.append_nil]
        exact .address digits
    · rintro (⟨digits⟩ | ⟨digit⟩)
      · obtain ⟨first, second, third, fourth⟩ := digits
        refine ⟨_, rfl, ?_⟩
        rw [if_neg fun hR => not_isDigit_R _ (hR ▸ first)]
        exact ⟨_, _, _, .mk first second third fourth, ⟨rfl, rfl⟩, rfl⟩
      · refine ⟨0x52, rfl, ?_⟩
        rw [if_pos rfl]
        exact ⟨_, _, _, rfl, ⟨_, _, _, .mk digit, ⟨rfl, rfl⟩, rfl⟩, rfl⟩

/-- **The fields are read where they are written, and nowhere else.** -/
lemma reads_readFields : Reads iny line (readFields line rom) (Fields rom) := by
  have hbyte := reads_getByte line
  have hword := reads_getWord line
  refine (reads_behind line <| hbyte.bind fun channel => reads_behind line <| hbyte.bind fun command =>
    reads_behind line <| hbyte.bind fun param1 => reads_behind line <| hbyte.bind fun param2 =>
    reads_behind line <| hword.bind fun sendLength => reads_behind line <| hword.bind fun sendAddr =>
    reads_behind line <| (reads_getTarget line).bind fun target => reads_pure
      ((⟨channel, command, param1, param2, loByte sendLength, hiByte sendLength, sendAddr, target.1⟩,
        target.2) : ParamBlock × Byte)).congr fun l v => ?_
  constructor
  · rintro ⟨_, ⟨_, _, _, isChannel, ⟨_, ⟨_, _, _, isCommand, ⟨_, ⟨_, _, _, isParam1,
      ⟨_, ⟨_, _, _, isParam2, ⟨_, ⟨_, _, _, isLength, ⟨_, ⟨_, _, _, isAddr, ⟨_, ⟨_, _, _, isTarget,
      ⟨rfl, rfl⟩, rfl⟩, rfl⟩, rfl⟩, rfl⟩, rfl⟩, rfl⟩, rfl⟩, rfl⟩, rfl⟩, rfl⟩, rfl⟩, rfl⟩, rfl⟩, rfl⟩
    have hfields := Fields.mk isChannel isCommand isParam1 isParam2 isLength isAddr isTarget
    simpa only [List.append_assoc, List.cons_append, List.append_nil] using hfields
  · rintro ⟨isChannel, isCommand, isParam1, isParam2, isLength, isAddr, isTarget⟩
    refine ⟨_, ⟨_, _, _, isChannel, ⟨_, ⟨_, _, _, isCommand, ⟨_, ⟨_, _, _, isParam1,
      ⟨_, ⟨_, _, _, isParam2, ⟨_, ⟨_, _, _, isLength, ⟨_, ⟨_, _, _, isAddr, ⟨_, ⟨_, _, _, isTarget,
      ⟨rfl, rfl⟩, rfl⟩, rfl⟩, rfl⟩, rfl⟩, rfl⟩, rfl⟩, rfl⟩, rfl⟩, rfl⟩, rfl⟩, rfl⟩, rfl⟩, rfl⟩, ?_⟩
    simp only [List.append_assoc, List.cons_append, List.append_nil]

/-! ## The name -/

/-- The characters are compared in the order in which they are written. -/
lemma matchName_eq_some {x : ℕ} {y z : Byte} (hx : x ≤ 6) :
    matchName line x y = some z ↔ Spells iny line y (cmdName.take x).reverse z := by
  induction x generalizing y with
  | zero =>
      rw [matchName, Option.some.injEq]
      exact spells_nil.symm
  | succ x ih =>
      have hlt : x < cmdName.length := hx
      rw [List.take_succ_eq_append_getElem hlt, List.reverse_append, List.reverse_singleton,
        List.singleton_append, spells_cons, ← ih (by omega), matchName, List.getD_eq_getElem _ _ hlt]
      by_cases h : line y = cmdName[x]
      · rw [if_pos h]
        exact (and_iff_right h).symm
      · rw [if_neg h]
        exact iff_of_false (Option.some_ne_none z).symm fun hand => h hand.1

lemma matchName_UPCOMM {y z : Byte} : matchName line 6 y = some z ↔ Spells iny line y (ascii "UPCOMM") z :=
  matchName_eq_some line (le_refl 6)

lemma copyText_syntaxText : copyText syntaxText = syntaxText := by
  rfl

end Readers

/-! ## The service call -/

/-- **The command is accepted exactly where its fields are written.**  Without the name the call is passed
on; behind it fields go to the transfer with the values written; everything else is answered before the
VIA is touched. -/
theorem unrecognisedCommand_accepts (line : Byte → Byte) (mem : Mem) (rom x y : Byte) :
    (¬ Begins iny line y (ascii "UPCOMM") →
      unrecognisedCommand line mem rom x y = pure (.returned 4 x y, .start rom)) ∧
    (∀ l b destRom, Fields rom l (b, destRom) → Begins iny line y (ascii "UPCOMM" ++ l) →
      unrecognisedCommand line mem rom x y = do
        let r ← transfer b mem destRom (.start rom)
        pure (.returned 0 x y, r.2)) ∧
    (Begins iny line y (ascii "UPCOMM") →
      (¬ ∃ l v, Fields rom l v ∧ Begins iny line y (ascii "UPCOMM" ++ l)) →
      unrecognisedCommand line mem rom x y = pure (.brk syntaxText, .start rom)) := by
  refine ⟨fun hname => ?_, fun l b destRom hfields hline => ?_, ?_⟩
  · have hmatch : matchName line 6 y = none := by
      cases h : matchName line 6 y with
      | none => rfl
      | some z => exact absurd ⟨z, (matchName_UPCOMM line).1 h⟩ hname
    rw [unrecognisedCommand, hmatch]
  · obtain ⟨z, hname, z', hrest⟩ := begins_append.1 hline
    have hread := (reads_readFields line).eq_some hfields hrest
    rw [unrecognisedCommand, (matchName_UPCOMM line).2 hname]
    simp only [hread]
  · rintro ⟨z, hname⟩ hno
    have hread : readFields line rom z = none := by
      refine (reads_readFields line).eq_none ?_
      rintro ⟨l, v, hfields, hline⟩
      exact hno ⟨l, v, hfields, begins_append.2 ⟨z, hname, hline⟩⟩
    rw [unrecognisedCommand, (matchName_UPCOMM line).2 hname]
    simp only [hread, error, copyText_syntaxText]

/-- A line that ends with a carriage return. -/
def lineOf (s : String) : Byte → Byte := fun y => (ascii s ++ [0x0d]).getD y.toNat 0x0d

/-- A line of the README, one for another ROM, and one with a field too short. -/
theorem readmeLine_accepted :
    (unrecognisedCommand (lineOf "UPCOMM 00 00 10 02 0000 0000 R4") (fun _ => 0) 7 1 0 = do
      let r ← transfer ⟨0x00, 0x00, 0x10, 0x02, 0x00, 0x00, 0x0000, 0x8000⟩ (fun _ => 0) 4 (.start 7)
      pure (.returned 0 1 0, r.2)) ∧
    unrecognisedCommand (lineOf "UPCOM 00") (fun _ => 0) 7 1 0 = pure (.returned 4 1 0, .start 7) ∧
    unrecognisedCommand (lineOf "UPCOMM") (fun _ => 0) 7 1 0 = pure (.brk syntaxText, .start 7) := by
  have h := unrecognisedCommand_accepts
  have hzero : IsDigit 0x30 0 := by decide
  have hone : IsDigit 0x31 1 := by decide
  have htwo : IsDigit 0x32 2 := by decide
  have hfour : IsDigit 0x34 4 := by decide
  have hfields := Fields.mk (.mk hzero hzero) (.mk hzero hzero) (.mk hone hzero) (.mk hzero htwo)
    (.mk hzero hzero hzero hzero) (.mk hzero hzero hzero hzero) (.bank hfour : Target 7 _ _)
  refine ⟨?_, ?_, ?_⟩
  · exact (h _ _ 7 1 0).2.1 _ _ _ hfields (by decide)
  · exact (h _ _ 7 1 0).1 (by decide)
  · refine (h _ _ 7 1 0).2.2 (by decide) ?_
    rintro ⟨l, v, ⟨_, _, _, _, _, _, _⟩, hline⟩
    simp only [List.append_assoc, List.cons_append] at hline
    rw [List.append_cons] at hline
    obtain ⟨z, hspace, -⟩ := begins_append.1 hline
    have hno : ¬ Begins iny (lineOf "UPCOMM") 0 (ascii "UPCOMM" ++ [0x20]) := by decide
    exact hno ⟨z, hspace⟩

end Udfs.Uptx
