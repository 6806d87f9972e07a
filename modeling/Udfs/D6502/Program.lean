import Udfs.Lib.Byte
import Udfs.Lib.Prog

/-!
# `d6502`: the disassembler

The disassembler walks through an image of 16384 bytes with a map that says of each byte whether
it is printed as a byte, as text or as part of an instruction.  It prints a region of bytes or of
text at a time, as far as the map goes on alike, and otherwise an instruction at a time.

What it prints is a list of characters, in which a symbol stands as a whole.  Reading the map or
the file behind its end is a fault, after which nothing is known.
-/

namespace Udfs.D6502

/-! ## The instructions -/

/-- `enum AddrMode`. -/
inductive AddrMode where
  | ill
  | imp
  | acc
  | imm
  | abs
  | zp
  | ind
  | absx
  | absy
  | indx
  | indy
  | zpx
  | zpy
  | rel
deriving DecidableEq, Repr

/-- `struct Opcode`. -/
structure Opcode where
  mnemonic : String
  addrMode : AddrMode
deriving DecidableEq, Repr

/-- `opcodes`. -/
def opcodes : List Opcode := [
  ⟨"brk", .imp⟩, ⟨"ora", .indx⟩, ⟨"ill", .ill⟩, ⟨"ill", .ill⟩,  -- 00 - 03
  ⟨"ill", .ill⟩, ⟨"ora", .zp⟩, ⟨"asl", .zp⟩, ⟨"ill", .ill⟩,  -- 04 - 07
  ⟨"php", .imp⟩, ⟨"ora", .imm⟩, ⟨"asl", .acc⟩, ⟨"ill", .ill⟩,  -- 08 - 0B
  ⟨"ill", .ill⟩, ⟨"ora", .abs⟩, ⟨"asl", .abs⟩, ⟨"ill", .ill⟩,  -- 0C - 0F
  ⟨"bpl", .rel⟩, ⟨"ora", .indy⟩, ⟨"ora", .ind⟩, ⟨"ill", .ill⟩,  -- 10 - 13
  ⟨"ill", .ill⟩, ⟨"ora", .zpx⟩, ⟨"asl", .zpx⟩, ⟨"ill", .ill⟩,  -- 14 - 17
  ⟨"clc", .imp⟩, ⟨"ora", .absy⟩, ⟨"inc", .acc⟩, ⟨"ill", .ill⟩,  -- 18 - 1B
  ⟨"ill", .ill⟩, ⟨"ora", .absx⟩, ⟨"asl", .absx⟩, ⟨"ill", .ill⟩,  -- 1C - 1F
  ⟨"jsr", .abs⟩, ⟨"and", .indx⟩, ⟨"ill", .ill⟩, ⟨"ill", .ill⟩,  -- 20 - 23
  ⟨"bit", .zp⟩, ⟨"and", .zp⟩, ⟨"rol", .zp⟩, ⟨"ill", .ill⟩,  -- 24 - 27
  ⟨"plp", .imp⟩, ⟨"and", .imm⟩, ⟨"rol", .acc⟩, ⟨"ill", .ill⟩,  -- 28 - 2B
  ⟨"bit", .abs⟩, ⟨"and", .abs⟩, ⟨"rol", .abs⟩, ⟨"ill", .ill⟩,  -- 2C - 2F
  ⟨"bmi", .rel⟩, ⟨"and", .indy⟩, ⟨"and", .ind⟩, ⟨"ill", .ill⟩,  -- 30 - 33
  ⟨"bit", .zpx⟩, ⟨"and", .zpx⟩, ⟨"rol", .zpx⟩, ⟨"ill", .ill⟩,  -- 34 - 37
  ⟨"sec", .imp⟩, ⟨"and", .absy⟩, ⟨"dec", .acc⟩, ⟨"ill", .ill⟩,  -- 38 - 3B
  ⟨"bit", .absx⟩, ⟨"and", .absx⟩, ⟨"rol", .absx⟩, ⟨"ill", .ill⟩,  -- 3C - 3F
  ⟨"rti", .imp⟩, ⟨"eor", .indx⟩, ⟨"ill", .ill⟩, ⟨"ill", .ill⟩,  -- 40 - 43
  ⟨"ill", .ill⟩, ⟨"eor", .zp⟩, ⟨"lsr", .zp⟩, ⟨"ill", .ill⟩,  -- 44 - 47
  ⟨"pha", .imp⟩, ⟨"eor", .imm⟩, ⟨"lsr", .acc⟩, ⟨"ill", .ill⟩,  -- 48 - 4B
  ⟨"jmp", .abs⟩, ⟨"eor", .abs⟩, ⟨"lsr", .abs⟩, ⟨"ill", .ill⟩,  -- 4C - 4F
  ⟨"bvc", .rel⟩, ⟨"eor", .indy⟩, ⟨"eor", .ind⟩, ⟨"ill", .ill⟩,  -- 50 - 53
  ⟨"ill", .ill⟩, ⟨"eor", .zpx⟩, ⟨"lsr", .zpx⟩, ⟨"ill", .ill⟩,  -- 54 - 57
  ⟨"cli", .imp⟩, ⟨"eor", .absy⟩, ⟨"ill", .ill⟩, ⟨"ill", .ill⟩,  -- 58 - 5B
  ⟨"ill", .ill⟩, ⟨"eor", .absx⟩, ⟨"lsr", .absx⟩, ⟨"ill", .ill⟩,  -- 5C - 5F
  ⟨"rts", .imp⟩, ⟨"adc", .indx⟩, ⟨"ill", .ill⟩, ⟨"ill", .ill⟩,  -- 60 - 63
  ⟨"ill", .ill⟩, ⟨"adc", .zp⟩, ⟨"ror", .zp⟩, ⟨"ill", .ill⟩,  -- 64 - 67
  ⟨"pla", .imp⟩, ⟨"adc", .imm⟩, ⟨"ror", .acc⟩, ⟨"ill", .ill⟩,  -- 68 - 6B
  ⟨"jmp", .ind⟩, ⟨"adc", .abs⟩, ⟨"ror", .abs⟩, ⟨"ill", .ill⟩,  -- 6C - 6F
  ⟨"bvs", .rel⟩, ⟨"adc", .indy⟩, ⟨"adc", .ind⟩, ⟨"ill", .ill⟩,  -- 70 - 73
  ⟨"ill", .ill⟩, ⟨"adc", .zpx⟩, ⟨"ror", .zpx⟩, ⟨"ill", .ill⟩,  -- 74 - 77
  ⟨"sei", .imp⟩, ⟨"adc", .absy⟩, ⟨"ill", .ill⟩, ⟨"ill", .ill⟩,  -- 78 - 7B
  ⟨"jmp", .absx⟩, ⟨"adc", .absx⟩, ⟨"ror", .absx⟩, ⟨"ill", .ill⟩,  -- 7C - 7F
  ⟨"ill", .ill⟩, ⟨"sta", .indx⟩, ⟨"ill", .ill⟩, ⟨"ill", .ill⟩,  -- 80 - 83
  ⟨"sty", .zp⟩, ⟨"sta", .zp⟩, ⟨"stx", .zp⟩, ⟨"ill", .ill⟩,  -- 84 - 87
  ⟨"dey", .imp⟩, ⟨"bit", .imm⟩, ⟨"txa", .imp⟩, ⟨"ill", .ill⟩,  -- 88 - 8B
  ⟨"sty", .abs⟩, ⟨"sta", .abs⟩, ⟨"stx", .abs⟩, ⟨"ill", .ill⟩,  -- 8C - 8F
  ⟨"bcc", .rel⟩, ⟨"sta", .indy⟩, ⟨"sta", .ind⟩, ⟨"ill", .ill⟩,  -- 90 - 93
  ⟨"sty", .zpx⟩, ⟨"sta", .zpx⟩, ⟨"stx", .zpy⟩, ⟨"ill", .ill⟩,  -- 94 - 97
  ⟨"tya", .imp⟩, ⟨"sta", .absy⟩, ⟨"txs", .imp⟩, ⟨"ill", .ill⟩,  -- 98 - 9B
  ⟨"ill", .ill⟩, ⟨"sta", .absx⟩, ⟨"ill", .ill⟩, ⟨"ill", .ill⟩,  -- 9C - 9F
  ⟨"ldy", .imm⟩, ⟨"lda", .indx⟩, ⟨"ldx", .imm⟩, ⟨"ill", .ill⟩,  -- A0 - A3
  ⟨"ldy", .zp⟩, ⟨"lda", .zp⟩, ⟨"ldx", .zp⟩, ⟨"ill", .ill⟩,  -- A4 - A7
  ⟨"tay", .imp⟩, ⟨"lda", .imm⟩, ⟨"tax", .imp⟩, ⟨"ill", .ill⟩,  -- A8 - AB
  ⟨"ldy", .abs⟩, ⟨"lda", .abs⟩, ⟨"ldx", .abs⟩, ⟨"ill", .ill⟩,  -- AC - AF
  ⟨"bcs", .rel⟩, ⟨"lda", .indy⟩, ⟨"lda", .ind⟩, ⟨"ill", .ill⟩,  -- B0 - B3
  ⟨"ldy", .zpx⟩, ⟨"lda", .zpx⟩, ⟨"ldx", .zpy⟩, ⟨"ill", .ill⟩,  -- B4 - B7
  ⟨"clv", .imp⟩, ⟨"lda", .absy⟩, ⟨"tsx", .imp⟩, ⟨"ill", .ill⟩,  -- B8 - BB
  ⟨"ldy", .absx⟩, ⟨"lda", .absx⟩, ⟨"ldx", .absy⟩, ⟨"ill", .ill⟩,  -- BC - BF
  ⟨"cpy", .imm⟩, ⟨"cmp", .indx⟩, ⟨"ill", .ill⟩, ⟨"ill", .ill⟩,  -- C0 - C3
  ⟨"cpy", .zp⟩, ⟨"cmp", .zp⟩, ⟨"dec", .zp⟩, ⟨"ill", .ill⟩,  -- C4 - C7
  ⟨"iny", .imp⟩, ⟨"cmp", .imm⟩, ⟨"dex", .imp⟩, ⟨"ill", .ill⟩,  -- C8 - CB
  ⟨"cpy", .abs⟩, ⟨"cmp", .abs⟩, ⟨"dec", .abs⟩, ⟨"ill", .ill⟩,  -- CC - CF
  ⟨"bne", .rel⟩, ⟨"cmp", .indy⟩, ⟨"cmp", .ind⟩, ⟨"ill", .ill⟩,  -- D0 - D3
  ⟨"ill", .ill⟩, ⟨"cmp", .zpx⟩, ⟨"dec", .zpx⟩, ⟨"ill", .ill⟩,  -- D4 - D7
  ⟨"cld", .imp⟩, ⟨"cmp", .absy⟩, ⟨"ill", .ill⟩, ⟨"ill", .ill⟩,  -- D8 - DB
  ⟨"ill", .ill⟩, ⟨"cmp", .absx⟩, ⟨"dec", .absx⟩, ⟨"ill", .ill⟩,  -- DC - DF
  ⟨"cpx", .imm⟩, ⟨"sbc", .indx⟩, ⟨"ill", .ill⟩, ⟨"ill", .ill⟩,  -- E0 - E3
  ⟨"cpx", .zp⟩, ⟨"sbc", .zp⟩, ⟨"inc", .zp⟩, ⟨"ill", .ill⟩,  -- E4 - E7
  ⟨"inx", .imp⟩, ⟨"sbc", .imm⟩, ⟨"nop", .imp⟩, ⟨"ill", .ill⟩,  -- E8 - EB
  ⟨"cpx", .abs⟩, ⟨"sbc", .abs⟩, ⟨"inc", .abs⟩, ⟨"ill", .ill⟩,  -- EC - EF
  ⟨"beq", .rel⟩, ⟨"sbc", .indy⟩, ⟨"sbc", .ind⟩, ⟨"ill", .ill⟩,  -- F0 - F3
  ⟨"ill", .ill⟩, ⟨"sbc", .zpx⟩, ⟨"inc", .zpx⟩, ⟨"ill", .ill⟩,  -- F4 - F7
  ⟨"sed", .imp⟩, ⟨"sbc", .absy⟩, ⟨"ill", .ill⟩, ⟨"ill", .ill⟩,  -- F8 - FB
  ⟨"ill", .ill⟩, ⟨"sbc", .absx⟩, ⟨"inc", .absx⟩, ⟨"ill", .ill⟩]  -- FC - FF

lemma opcodes_length : opcodes.length = 256 := by
  decide +kernel

/-- `opcodes[b]`. -/
def opcodeOf (b : Byte) : Opcode :=
  opcodes.get ⟨b.toNat, opcodes_length ▸ byte_lt b⟩

/-! ## What is printed -/

/-- A printed character, or a printed symbol. -/
inductive Tok where
  | chr (c : Char)
  | sym (s : String)
deriving DecidableEq, Repr

/-- The characters of a format. -/
def text (s : String) : List Tok := s.toList.map .chr

/-- A hexadecimal digit. -/
def hexDigit (n : ℕ) : Char := if n < 10 then Char.ofNat (0x30 + n) else Char.ofNat (0x57 + n)

/-- `%02x`. -/
def hex02 (b : Byte) : List Tok := [.chr (hexDigit (b.toNat / 16)), .chr (hexDigit (b.toNat % 16))]

/-- `%04x`. -/
def hex04 (w : Word) : List Tok := hex02 (hiByte w) ++ hex02 (loByte w)

/-- `%c`. -/
def charOf (b : Byte) : List Tok := [.chr (Char.ofNat b.toNat)]

/-- The value of a byte: its symbol, if it is the address of one. -/
def value02 (symbols : Word → Option String) (b : Byte) : List Tok :=
  match symbols (b.setWidth 16) with
  | some label => [.sym label]
  | none => text "$" ++ hex02 b

/-- The value of a word. -/
def value04 (symbols : Word → Option String) (w : Word) : List Tok :=
  match symbols w with
  | some label => [.sym label]
  | none => text "$" ++ hex04 w

/-! ## The program -/

/-- `struct Context`, and what has been printed. -/
structure Context where
  -- the file, as long as it is
  data : List Byte
  index : Word
  orgAddr : Word
  symbols : Word → Option String
  map : Fin 16384 → Byte
  out : List Tok

/-- A read behind the end of an array, with its index. -/
inductive Fault where
  | map (i : ℕ)
  | data (i : ℕ)

abbrev Run (α : Type) : Type := Prog Context Fault α

/-- `cxt->map[cxt->index]`. -/
def mapHere : Run Byte := do
  let c ← Prog.get
  if h : c.index.toNat < 16384 then pure (c.map ⟨c.index.toNat, h⟩)
  else Prog.fail (.map c.index.toNat)

/-- `getByte`. -/
def getByte : Run Byte := do
  let c ← Prog.get
  match c.data[c.index.toNat]? with
  | some b => do
      Prog.modify fun c => { c with index := c.index + 1 }
      pure b
  | none => Prog.fail (.data c.index.toNat)

/-- `printf`. -/
def printf (l : List Tok) : Run Unit := Prog.modify fun c => { c with out := c.out ++ l }

/-- The printers of operands of one byte: what stands before it and after it. -/
def doByte (before after : String) : Run Unit := do
  let operand ← getByte
  let c ← Prog.get
  printf (text before ++ value02 c.symbols operand ++ text after)

/-- The printers of operands of two bytes.  The order of the two calls of `getByte` is left to the
compiler; the low byte is meant to come first. -/
def doWord (before after : String) : Run Unit := do
  let lo ← getByte
  let hi ← getByte
  let c ← Prog.get
  printf (text before ++ value04 c.symbols (wordOf lo hi) ++ text after)

def doACC : Run Unit := pure ()

def doIMM : Run Unit := doByte " #" ""

def doABS : Run Unit := doWord " " ""

def doZP : Run Unit := doByte " " ""

def doIND : Run Unit := doWord " (" ")"

def doABSX : Run Unit := doWord " " ",x"

def doABSY : Run Unit := doWord " " ",y"

def doINDX : Run Unit := doByte " (" ",x)"

def doINDY : Run Unit := doByte " (" "),y"

def doZPX : Run Unit := doByte " " ",x"

def doZPY : Run Unit := doByte " " ",y"

/-- `doREL`: `char` is signed. -/
def doREL : Run Unit := do
  let operand ← getByte
  let c ← Prog.get
  printf (text " " ++ value04 c.symbols (c.orgAddr + c.index + operand.signExtend 16))

/-- The operand of an instruction. -/
def doOperand : AddrMode → Run Unit
  | .ill => pure ()
  | .imp => pure ()
  | .acc => doACC
  | .imm => doIMM
  | .abs => doABS
  | .zp => doZP
  | .ind => doIND
  | .absx => doABSX
  | .absy => doABSY
  | .indx => doINDX
  | .indy => doINDY
  | .zpx => doZPX
  | .zpy => doZPY
  | .rel => doREL

/-- `getLabel`. -/
def getLabel : Run (Option String) := Prog.gets fun c => c.symbols (c.orgAddr + c.index)

/-- The loop over a region of bytes; `n` bounds the rounds, since the map has an end. -/
def byteLoop : ℕ → Run Unit
  | 0 => pure ()
  | n + 1 => do
      if (← mapHere) = 0x62 then
        match ← getLabel with
        | some label => do
            let byte ← getByte
            printf (text "\n" ++ [.sym label] ++ text "\t$" ++ hex02 byte)
        | none => do
            let byte ← getByte
            printf (text ", $" ++ hex02 byte)
        byteLoop n

/-- A byte that is printed as a character. -/
def Printable (b : Byte) : Prop := 32 ≤ b.toNat ∧ b.toNat < 127

instance (b : Byte) : Decidable (Printable b) := inferInstanceAs (Decidable (_ ∧ _))

/-- What is printed for a byte of a text.  Afterwards `inQuotes` says whether it was printable, and
`needComma` is set. -/
def textByte (inQuotes needComma : Bool) (byte : Byte) : List Tok :=
  if Printable byte then
    if inQuotes then
      if needComma then charOf byte else text "\"" ++ charOf byte
    else
      if needComma then text ", \"" ++ charOf byte else text "\"" ++ charOf byte
  else
    if inQuotes then
      if needComma then text "\", $" ++ hex02 byte else text "$" ++ hex02 byte
    else
      if needComma then text ", $" ++ hex02 byte else text "$" ++ hex02 byte

/-- The loop over a region of text; it returns `inQuotes`. -/
def textLoop : ℕ → Bool → Bool → Run Bool
  | 0, inQuotes, _ => pure inQuotes
  | n + 1, inQuotes, needComma => do
      if (← mapHere) = 0x74 then
        match ← getLabel with
        | some label => do
            printf (text (if inQuotes then "\"\n" else "\n") ++ [.sym label] ++ text "\t!text ")
            let byte ← getByte
            printf (textByte inQuotes false byte)
            textLoop n (Printable byte) true
        | none => do
            let byte ← getByte
            printf (textByte inQuotes needComma byte)
            textLoop n (Printable byte) true
      else pure inQuotes

/-- The label in front of what is printed. -/
def printLabel : Run Unit := do
  match ← getLabel with
  | some label => printf [.sym label]
  | none => pure ()

/-- A region of bytes. -/
def printBytes : Run Unit := do
  let byte ← getByte
  printf (text "\t!byte $" ++ hex02 byte)
  byteLoop 16384
  printf (text "\n")

/-- A region of text. -/
def printText : Run Unit := do
  let byte ← getByte
  printf (text "\t!text ")
  printf (if Printable byte then text "\"" ++ charOf byte else text "$" ++ hex02 byte)
  let inQuotes ← textLoop 16384 (Printable byte) true
  printf (if inQuotes then text "\"\n" else text "\n")

/-- An instruction. -/
def printInstruction : Run Unit := do
  let c ← Prog.get
  let oc := opcodeOf (← getByte)
  printf (text "\t" ++ text oc.mnemonic)
  doOperand oc.addrMode
  printf (text "\t; 0x" ++ hex04 (c.orgAddr + c.index) ++ text "\n")

/-- `d6502`. -/
def d6502 : Run Unit := do
  printLabel
  if (← mapHere) = 0x62 then printBytes
  else if (← mapHere) = 0x74 then printText
  else printInstruction

/-- The loop of `main`; `n` bounds the rounds. -/
def mainLoop : ℕ → Run Unit
  | 0 => pure ()
  | n + 1 => do
      let c ← Prog.get
      if c.index.toNat < 0x4000 then do
        d6502
        mainLoop n

end Udfs.D6502
