import Udfs.D6502.Directives

/-!
# Assembling a line

The NMOS 6502 has 151 instructions: a mnemonic and a way of addressing each.  An assembler reads the
mnemonic and the operand of a line; the way the operand is written, and for some whether its value
fits in a byte, decides between the ways of addressing.  A symbol stands for its address.
-/

namespace Udfs.D6502

/-! ## The instruction set -/

/-- The mnemonics of the NMOS 6502, each with its ways of addressing and their opcodes. -/
def nmos : List (String × List (AddrMode × Byte)) := [
  ("adc", [(.imm, 0x69), (.zp, 0x65), (.zpx, 0x75), (.abs, 0x6d), (.absx, 0x7d), (.absy, 0x79),
    (.indx, 0x61), (.indy, 0x71)]),
  ("and", [(.imm, 0x29), (.zp, 0x25), (.zpx, 0x35), (.abs, 0x2d), (.absx, 0x3d), (.absy, 0x39),
    (.indx, 0x21), (.indy, 0x31)]),
  ("asl", [(.acc, 0x0a), (.zp, 0x06), (.zpx, 0x16), (.abs, 0x0e), (.absx, 0x1e)]),
  ("bcc", [(.rel, 0x90)]),
  ("bcs", [(.rel, 0xb0)]),
  ("beq", [(.rel, 0xf0)]),
  ("bit", [(.zp, 0x24), (.abs, 0x2c)]),
  ("bmi", [(.rel, 0x30)]),
  ("bne", [(.rel, 0xd0)]),
  ("bpl", [(.rel, 0x10)]),
  ("brk", [(.imp, 0x00)]),
  ("bvc", [(.rel, 0x50)]),
  ("bvs", [(.rel, 0x70)]),
  ("clc", [(.imp, 0x18)]),
  ("cld", [(.imp, 0xd8)]),
  ("cli", [(.imp, 0x58)]),
  ("clv", [(.imp, 0xb8)]),
  ("cmp", [(.imm, 0xc9), (.zp, 0xc5), (.zpx, 0xd5), (.abs, 0xcd), (.absx, 0xdd), (.absy, 0xd9),
    (.indx, 0xc1), (.indy, 0xd1)]),
  ("cpx", [(.imm, 0xe0), (.zp, 0xe4), (.abs, 0xec)]),
  ("cpy", [(.imm, 0xc0), (.zp, 0xc4), (.abs, 0xcc)]),
  ("dec", [(.zp, 0xc6), (.zpx, 0xd6), (.abs, 0xce), (.absx, 0xde)]),
  ("dex", [(.imp, 0xca)]),
  ("dey", [(.imp, 0x88)]),
  ("eor", [(.imm, 0x49), (.zp, 0x45), (.zpx, 0x55), (.abs, 0x4d), (.absx, 0x5d), (.absy, 0x59),
    (.indx, 0x41), (.indy, 0x51)]),
  ("inc", [(.zp, 0xe6), (.zpx, 0xf6), (.abs, 0xee), (.absx, 0xfe)]),
  ("inx", [(.imp, 0xe8)]),
  ("iny", [(.imp, 0xc8)]),
  ("jmp", [(.abs, 0x4c), (.ind, 0x6c)]),
  ("jsr", [(.abs, 0x20)]),
  ("lda", [(.imm, 0xa9), (.zp, 0xa5), (.zpx, 0xb5), (.abs, 0xad), (.absx, 0xbd), (.absy, 0xb9),
    (.indx, 0xa1), (.indy, 0xb1)]),
  ("ldx", [(.imm, 0xa2), (.zp, 0xa6), (.zpy, 0xb6), (.abs, 0xae), (.absy, 0xbe)]),
  ("ldy", [(.imm, 0xa0), (.zp, 0xa4), (.zpx, 0xb4), (.abs, 0xac), (.absx, 0xbc)]),
  ("lsr", [(.acc, 0x4a), (.zp, 0x46), (.zpx, 0x56), (.abs, 0x4e), (.absx, 0x5e)]),
  ("nop", [(.imp, 0xea)]),
  ("ora", [(.imm, 0x09), (.zp, 0x05), (.zpx, 0x15), (.abs, 0x0d), (.absx, 0x1d), (.absy, 0x19),
    (.indx, 0x01), (.indy, 0x11)]),
  ("pha", [(.imp, 0x48)]),
  ("php", [(.imp, 0x08)]),
  ("pla", [(.imp, 0x68)]),
  ("plp", [(.imp, 0x28)]),
  ("rol", [(.acc, 0x2a), (.zp, 0x26), (.zpx, 0x36), (.abs, 0x2e), (.absx, 0x3e)]),
  ("ror", [(.acc, 0x6a), (.zp, 0x66), (.zpx, 0x76), (.abs, 0x6e), (.absx, 0x7e)]),
  ("rti", [(.imp, 0x40)]),
  ("rts", [(.imp, 0x60)]),
  ("sbc", [(.imm, 0xe9), (.zp, 0xe5), (.zpx, 0xf5), (.abs, 0xed), (.absx, 0xfd), (.absy, 0xf9),
    (.indx, 0xe1), (.indy, 0xf1)]),
  ("sec", [(.imp, 0x38)]),
  ("sed", [(.imp, 0xf8)]),
  ("sei", [(.imp, 0x78)]),
  ("sta", [(.zp, 0x85), (.zpx, 0x95), (.abs, 0x8d), (.absx, 0x9d), (.absy, 0x99), (.indx, 0x81),
    (.indy, 0x91)]),
  ("stx", [(.zp, 0x86), (.zpy, 0x96), (.abs, 0x8e)]),
  ("sty", [(.zp, 0x84), (.zpx, 0x94), (.abs, 0x8c)]),
  ("tax", [(.imp, 0xaa)]),
  ("tay", [(.imp, 0xa8)]),
  ("tsx", [(.imp, 0xba)]),
  ("txa", [(.imp, 0x8a)]),
  ("txs", [(.imp, 0x9a)]),
  ("tya", [(.imp, 0x98)])]

/-- The opcodes of a mnemonic. -/
def formsOf (mnemonic : List Char) : List (AddrMode × Byte) :=
  ((nmos.find? fun e => e.1.toList = mnemonic).map Prod.snd).getD []

/-- The opcode of a mnemonic with a way of addressing. -/
def opcode (mnemonic : List Char) (mode : AddrMode) : Option Byte := (formsOf mnemonic).lookup mode

/-- The opcodes of the NMOS 6502. -/
def Legal (b : Byte) : Prop := ∃ e ∈ nmos, ∃ f ∈ e.2, f.2 = b

instance (b : Byte) : Decidable (Legal b) := inferInstanceAs (Decidable (∃ e ∈ nmos, ∃ f ∈ e.2, f.2 = b))

/-! ## Reading a line -/

/-- A value, and whether it is written so that it fits in a byte: with two digits, or as a symbol below
`$100`. -/
structure Value where
  n : Word
  narrow : Bool

/-- An operand, by the way it is written. -/
inductive Operand where
  -- nothing, `#v`
  | none
  | immediate (v : Value)
  -- `v`, `v,x` and `v,y`
  | direct (v : Value)
  | directX (v : Value)
  | directY (v : Value)
  -- `(v)`, `(v,x)` and `(v),y`
  | indirect (v : Value)
  | indirectX (v : Value)
  | indirectY (v : Value)

/-- The text behind an expected beginning. -/
def expect : List Char → List Tok → Option (List Tok)
  | [], l => some l
  | c :: s, .chr d :: l => if c = d then expect s l else none
  | _ :: _, _ => none

/-- The letters at the beginning. -/
def readWord : List Tok → List Char × List Tok
  | .chr c :: l =>
      if 'a' ≤ c ∧ c ≤ 'z' then ((readWord l).1.cons c, (readWord l).2) else ([], .chr c :: l)
  | l => ([], l)

/-- The hexadecimal digits at the beginning. -/
def readDigits : List Tok → List ℕ × List Tok
  | .chr c :: l =>
      match hexValue c with
      | some n => (n :: (readDigits l).1, (readDigits l).2)
      | none => ([], .chr c :: l)
  | l => ([], l)

/-- A number of two or of four digits, or a symbol. -/
def readValue (value : String → Word) : List Tok → Option (Value × List Tok)
  | .sym s :: l => some (⟨value s, (value s).toNat < 0x100⟩, l)
  | .chr c :: l =>
      if c = '$' then
        match readDigits l with
        | ([a, b], l) => some (⟨BitVec.ofNat 16 (16 * a + b), true⟩, l)
        | ([a, b, c, d], l) => some (⟨BitVec.ofNat 16 (16 * (16 * (16 * a + b) + c) + d), false⟩, l)
        | _ => none
      else none
  | [] => none

/-- Nothing comes but a comment. -/
def atEnd : List Tok → Bool
  | [] => true
  | .chr c :: l => if c = ' ' ∨ c = '\t' then atEnd l else c = ';'
  | .sym _ :: _ => false

/-- The operand that the text behind a value makes of it. -/
def readEnding (v : Value) (l : List Tok) : List (String × (Value → Operand)) → Option Operand
  | [] => none
  | (s, f) :: r =>
      match expect s.toList l with
      | some l' => if atEnd l' then some (f v) else readEnding v l r
      | none => readEnding v l r

/-- The operand behind a mnemonic. -/
def readOperand (value : String → Word) (l : List Tok) : Option Operand :=
  if atEnd l then some .none
  else do
    let l ← expect [' '] l
    match expect ['#'] l with
    | some l => do
        let (v, l) ← readValue value l
        readEnding v l [("", .immediate)]
    | none =>
        match expect ['('] l with
        | some l => do
            let (v, l) ← readValue value l
            readEnding v l [(")", .indirect), (",x)", .indirectX), ("),y", .indirectY)]
        | none => do
            let (v, l) ← readValue value l
            readEnding v l [("", .direct), (",x", .directX), (",y", .directY)]

/-! ## Encoding -/

/-- An opcode with an operand of one byte. -/
def emitByte (v : Value) (op : Byte) : Option (List Byte) :=
  if v.n.toNat < 0x100 then some [op, loByte v.n] else none

/-- An opcode with an operand of two bytes. -/
def emitWord (v : Value) (op : Byte) : List Byte := [op, loByte v.n, hiByte v.n]

/-- A branch at `pc`. -/
def emitBranch (pc : Word) (v : Value) (op : Byte) : Option (List Byte) :=
  let offset : Byte := (v.n - (pc + 2)).setWidth 8
  if pc + 2 + offset.signExtend 16 = v.n then some [op, offset] else none

/-- The zero-page form if the value is narrow and there is one, else the absolute form. -/
def emitShortest (mnemonic : List Char) (zero absolute : AddrMode) (v : Value) : Option (List Byte) :=
  match opcode mnemonic zero, v.narrow with
  | some op, true => emitByte v op
  | _, _ => (opcode mnemonic absolute).map (emitWord v)

/-- The bytes of an instruction at `pc`. -/
def encode (pc : Word) (mnemonic : List Char) : Operand → Option (List Byte)
  | .none => ((opcode mnemonic .imp).or (opcode mnemonic .acc)).map fun op => [op]
  | .immediate v => (opcode mnemonic .imm).bind (emitByte v)
  | .direct v =>
      match opcode mnemonic .rel with
      | some op => emitBranch pc v op
      | none => emitShortest mnemonic .zp .abs v
  | .directX v => emitShortest mnemonic .zpx .absx v
  | .directY v => emitShortest mnemonic .zpy .absy v
  | .indirect v => (opcode mnemonic .ind).map (emitWord v)
  | .indirectX v => (opcode mnemonic .indx).bind (emitByte v)
  | .indirectY v => (opcode mnemonic .indy).bind (emitByte v)

/-- A line at `pc`: a label, if there is one, a tab, a mnemonic and its operand. -/
def assembleLine (value : String → Word) (pc : Word) (l : List Tok) : Option (List Byte) := do
  let body := match l with
    | .sym _ :: r => r
    | r => r
  let l ← expect ['\t'] body
  let operand ← readOperand value (readWord l).2
  encode pc (readWord l).1 operand

/-- The lines of a text. -/
def lines : List Tok → List (List Tok)
  | [] => []
  | t :: l =>
      if t = .chr '\n' then [] :: lines l
      else
        match lines l with
        | [] => [[t]]
        | x :: r => (t :: x) :: r

/-- Lines one after the other, the first at `pc`.  What a symbol stands for may depend on the place of its
line, as for `+` and `-`, which several labels have. -/
def assembleLines (value : Word → String → Word) : Word → List (List Tok) → Option (List Byte)
  | _, [] => some []
  | pc, l :: r => do
      let bytes ← assembleLine (value pc) pc l
      let rest ← assembleLines value (pc + BitVec.ofNat 16 bytes.length) r
      pure (bytes ++ rest)

/-- A text at an origin. -/
def assemble (value : Word → String → Word) (origin : Word) (l : List Tok) : Option (List Byte) :=
  assembleLines value origin (lines l)

/-! ## What is printed is read -/

/-- What the assembler knows of an opcode of which the disassembler prints the mnemonic. -/
structure Known (b : Byte) : Prop where
  opcode : opcode (opcodeOf b).mnemonic.toList (opcodeOf b).addrMode = some b
  letters : ∀ c ∈ (opcodeOf b).mnemonic.toList, 'a' ≤ c ∧ c ≤ 'z'
  legal : (opcodeOf b).addrMode ≠ .ill
  imp : (opcodeOf b).addrMode = .acc → D6502.opcode (opcodeOf b).mnemonic.toList .imp = none
  rel : (opcodeOf b).addrMode = .zp ∨ (opcodeOf b).addrMode = .abs →
    D6502.opcode (opcodeOf b).mnemonic.toList .rel = none

/-- The two tables agree on the 151 instructions. -/
lemma nmos_agree : ∀ e ∈ nmos, ∀ f ∈ e.2, opcodeOf f.2 = ⟨e.1, f.1⟩ := by
  decide +kernel

lemma nmos_letters {e : String × List (AddrMode × Byte)} (he : e ∈ nmos) :
    ∀ c ∈ e.1.toList, 'a' ≤ c ∧ c ≤ 'z' := by
  have hall : (nmos.all fun e => e.1.toList.all fun c => decide ('a' ≤ c ∧ c ≤ 'z')) = true := by
    decide +kernel
  exact fun c hc => of_decide_eq_true (List.all_eq_true.1 (List.all_eq_true.1 hall e he) c hc)

lemma nmos_forms : ∀ e ∈ nmos, ∀ f ∈ e.2, e.2.lookup f.1 = some f.2 ∧ f.1 ≠ .ill ∧
    (f.1 = .acc → e.2.lookup .imp = none) ∧ (f.1 = .zp ∨ f.1 = .abs → e.2.lookup .rel = none) := by
  decide +kernel

lemma formsOf_eq {e : String × List (AddrMode × Byte)} (he : e ∈ nmos) : formsOf e.1.toList = e.2 := by
  have hall : (nmos.all fun e => decide (formsOf e.1.toList = e.2)) = true := by
    decide +kernel
  exact of_decide_eq_true (List.all_eq_true.1 hall e he)

lemma Legal.known {b : Byte} (h : Legal b) : Known b := by
  obtain ⟨e, he, f, hf, rfl⟩ := h
  obtain ⟨hlookup, hill, himp, hrel⟩ := nmos_forms e he f hf
  have hopcode : ∀ mode, opcode e.1.toList mode = e.2.lookup mode := fun mode => by
    rw [opcode, formsOf_eq he]
  refine ⟨?_, ?_, ?_, ?_, ?_⟩ <;> rw [nmos_agree e he f hf]
  · exact (hopcode _).trans hlookup
  · exact nmos_letters he
  · exact hill
  · exact fun h => (hopcode _).trans (himp h)
  · exact fun h => (hopcode _).trans (hrel h)

/-- An opcode that is found has the way of addressing that it was looked up with. -/
lemma opcode_addrMode {m : List Char} {mode : AddrMode} {b : Byte} (h : opcode m mode = some b) :
    (opcodeOf b).addrMode = mode := by
  rw [opcode, formsOf] at h
  cases hfind : nmos.find? fun e => e.1.toList = m with
  | none =>
      rw [hfind] at h
      cases h
  | some e =>
      rw [hfind] at h
      obtain ⟨l₁, l₂, hsplit, -⟩ := List.lookup_eq_some_iff.1 h
      have hmem : (mode, b) ∈ e.2 := by
        have hforms : e.2 = l₁ ++ (mode, b) :: l₂ := hsplit
        rw [hforms]
        simp
      rw [nmos_agree e (List.mem_of_find?_eq_some hfind) _ hmem]

section Printed

variable {value : String → Word} {symbols : Word → Option String} {b : Byte} {w : Word} {l : List Tok}

lemma readWord_text {m : List Char} (hm : ∀ c ∈ m, 'a' ≤ c ∧ c ≤ 'z') (hl : readWord l = ([], l)) :
    readWord (m.map .chr ++ l) = (m, l) := by
  induction m with
  | nil => exact hl
  | cons c m ih =>
      have hrest := ih fun d hd => hm d (List.mem_cons_of_mem _ hd)
      rw [List.map_cons, List.cons_append, readWord, if_pos (hm c List.mem_cons_self), hrest]

lemma readDigits_hex02 : readDigits (hex02 b ++ l) =
    (b.toNat / 16 :: b.toNat % 16 :: (readDigits l).1, (readDigits l).2) := by
  have hb := byte_lt b
  simp only [hex02, List.cons_append, List.nil_append, readDigits,
    hexValue_hexDigit (by omega : b.toNat / 16 < 16), hexValue_hexDigit (by omega : b.toNat % 16 < 16)]

/-- The text `t` of a value is read as `v`, and cannot be taken for anything else. -/
structure Shows (value : String → Word) (t : List Tok) (v : Value) : Prop where
  value : ∀ l, readDigits l = ([], l) → readValue value (t ++ l) = some (v, l)
  atEnd : ∀ l, atEnd (t ++ l) = false
  expect : ∀ c l, c = '#' ∨ c = '(' → expect [c] (t ++ l) = none

lemma shows_symbol (s : String) : Shows value [.sym s] ⟨value s, (value s).toNat < 0x100⟩ :=
  ⟨fun _ _ => rfl, fun _ => rfl, fun _ _ _ => rfl⟩

lemma expect_dollar {c : Char} (hc : c = '#' ∨ c = '(') (l : List Tok) : expect [c] (.chr '$' :: l) = none := by
  rcases hc with rfl | rfl <;> rfl

lemma shows_hex02 (value : String → Word) (b : Byte) :
    Shows value (text "$" ++ hex02 b) ⟨b.setWidth 16, true⟩ := by
  refine ⟨fun l hl => ?_, fun _ => rfl, fun c l hc => expect_dollar hc _⟩
  have hval : BitVec.ofNat 16 (16 * (b.toNat / 16) + b.toNat % 16) = b.setWidth 16 := by
    rw [Nat.div_add_mod, BitVec.ofNat_toNat]
  show readValue value (.chr '$' :: (hex02 b ++ l)) = _
  rw [readValue, if_pos rfl, readDigits_hex02, hl]
  exact congrArg (fun n => some (Value.mk n true, l)) hval

lemma shows_hex04 (value : String → Word) (w : Word) : Shows value (text "$" ++ hex04 w) ⟨w, false⟩ := by
  refine ⟨fun l hl => ?_, fun _ => rfl, fun c l hc => expect_dollar hc _⟩
  have hval : BitVec.ofNat 16 (16 * (16 * (16 * ((hiByte w).toNat / 16) + (hiByte w).toNat % 16) +
      (loByte w).toNat / 16) + (loByte w).toNat % 16) = w := by
    apply BitVec.eq_of_toNat_eq
    have hw : w.toNat < 65536 := w.isLt
    rw [BitVec.toNat_ofNat, toNat_hiByte, toNat_loByte]
    omega
  rw [hex04, List.append_assoc, List.append_assoc]
  show readValue value (.chr '$' :: (hex02 (hiByte w) ++ (hex02 (loByte w) ++ l))) = _
  rw [readValue, if_pos rfl, readDigits_hex02, readDigits_hex02, hl]
  exact congrArg (fun n => some (Value.mk n false, l)) hval

/-- A value of one byte is read as a narrow one. -/
lemma shows_value02 (b : Byte) (hs : ∀ s, symbols (b.setWidth 16) = some s → value s = b.setWidth 16) :
    Shows value (value02 symbols b) ⟨b.setWidth 16, true⟩ := by
  have hb := byte_lt b
  rw [value02]
  cases hsym : symbols (b.setWidth 16) with
  | some s =>
      have hnarrow : (b.setWidth 16).toNat < 0x100 := by
        rw [BitVec.toNat_setWidth]
        omega
      have hshows : Shows value [.sym s] _ := shows_symbol s
      rw [hs s hsym, decide_eq_true hnarrow] at hshows
      exact hshows
  | none => exact shows_hex02 value b

/-- A value of two bytes is read as a narrow one if it is that of a symbol below `$100`. -/
lemma shows_value04 (w : Word) (hs : ∀ s, symbols w = some s → value s = w) :
    Shows value (value04 symbols w) ⟨w, (symbols w).isSome ∧ w.toNat < 0x100⟩ := by
  rw [value04]
  cases hsym : symbols w with
  | some s =>
      have hshows : Shows value [.sym s] _ := shows_symbol s
      rw [hs s hsym] at hshows
      simpa using hshows
  | none => simpa using shows_hex04 value w

variable {t : List Tok} {v : Value}

lemma readOperand_none (r : List Tok) : readOperand value (text "\t; 0x" ++ r) = some .none := rfl

lemma readOperand_immediate (h : Shows value t v) (r : List Tok) :
    readOperand value (text " #" ++ t ++ text "" ++ (text "\t; 0x" ++ r)) = some (.immediate v) := by
  rw [List.append_assoc, List.append_assoc]
  show (do
    let (v, l) ← readValue value (t ++ (text "" ++ (text "\t; 0x" ++ r)))
    readEnding v l [("", .immediate)]) = _
  rw [h.value _ rfl]
  rfl

/-- A value in brackets. -/
lemma readOperand_brackets (h : Shows value t v) (l : List Tok) (hl : readDigits l = ([], l)) :
    readOperand value (text " (" ++ (t ++ l))
      = readEnding v l [(")", .indirect), (",x)", .indirectX), ("),y", .indirectY)] := by
  show (do
    let (v, l) ← readValue value (t ++ l)
    readEnding v l [(")", .indirect), (",x)", .indirectX), ("),y", .indirectY)]) = _
  rw [h.value l hl]
  rfl

/-- A value without brackets. -/
lemma readOperand_direct (h : Shows value t v) (l : List Tok) (hl : readDigits l = ([], l)) :
    readOperand value (text " " ++ (t ++ l))
      = readEnding v l [("", .direct), (",x", .directX), (",y", .directY)] := by
  have hend : atEnd (text " " ++ (t ++ l)) = false := h.atEnd l
  have hspace : expect [' '] (text " " ++ (t ++ l)) = some (t ++ l) := rfl
  rw [readOperand, hend, hspace]
  simp only [Bool.false_eq_true, if_false, Option.bind_eq_bind, Option.bind_some,
    h.expect '#' l (Or.inl rfl), h.expect '(' l (Or.inr rfl), h.value l hl]

end Printed

end Udfs.D6502
