import Udfs.Link.SendMsg

/-!
# The UPTX ROM

A small ROM with the single command `*UPCOMM`, which sends a message to the AVR and stores its answer
in memory or in a bank of sideways RAM.  The fields of the command are read one behind the other; the
first character that does not fit ends the command with a message.  The message goes out as in
`send_msg`; what comes back is stored by a routine in page 3, which selects another bank while it
stores a byte.

The buffers lie apart from page 3 and the pointer `data_ptr`.
-/

namespace Udfs.Uptx

open Link

/-! ## The line -/

/-- `cmd_name`. -/
def cmdName : List Byte := ascii "MMOCPU"

/-- The loop at `unrecognised_command`, with X: the characters are compared from the last one of
`cmd_name` on. -/
def matchName (line : Byte → Byte) : ℕ → Byte → Option Byte
  | 0, y => some y
  | x + 1, y => if line y = cmdName.getD x 0 then matchName line x (y + 1) else none

/-- `get_nibble`. -/
def getNibble (a : Byte) : Option Byte :=
  if ¬ cmpCarry a 0x30 then none
  else if ¬ cmpCarry a 0x3a then some (sbc a 0x30 true).1
  else
    -- `try_alpha`
    let a := a &&& 0xdf
    if ¬ cmpCarry a 0x41 then none
    else if cmpCarry a 0x47 then none
    else some (sbc a 0x37 true).1

/-- Four times `asl`. -/
def highNibble (a : Byte) : Byte := (asl (asl (asl (asl a).1).1).1).1

section Readers

variable (line : Byte → Byte)

/-- `lda (line),y`, `iny`. -/
def nextChar : StateT Byte Option Byte := fun y => some (line y, y + 1)

/-- `lda (line),y`, `iny`, `jsr get_nibble`. -/
def nextNibble : StateT Byte Option Byte := do
  let a ← nextChar line
  getNibble a

/-- `get_byte`; `data_ptr` holds the high digit meanwhile. -/
def getByte : StateT Byte Option Byte := do
  let a ← nextNibble line
  let dataPtr := highNibble a
  let a ← nextNibble line
  pure (a ||| dataPtr)

/-- `get_byte` for the high byte and then for the low one. -/
def getWord : StateT Byte Option Word := do
  let msb ← getByte line
  let lsb ← getByte line
  pure (wordOf lsb msb)

/-- `chomp`. -/
def chomp : StateT Byte Option Unit := do
  let a ← nextChar line
  if a ≠ 0x20 then none

/-- `recv_addr` and `dest_rom`, with the bank that is selected. -/
def getTarget (rom : Byte) : StateT Byte Option (Word × Byte) := do
  let y ← get
  if line y = 0x52 then
    set (y + 1)
    let destRom ← nextNibble line
    pure (0x8000, destRom)
  else
    let recvAddr ← getWord line
    pure (recvAddr, rom)

/-- `upcomm` up to the transfer: the parameter block and `dest_rom`. -/
def readFields (rom : Byte) : StateT Byte Option (ParamBlock × Byte) := do
  chomp line
  let channel ← getByte line
  chomp line
  let command ← getByte line
  chomp line
  let param1 ← getByte line
  chomp line
  let param2 ← getByte line
  chomp line
  let sendLength ← getWord line
  chomp line
  let sendAddr ← getWord line
  chomp line
  let target ← getTarget line rom
  pure (⟨channel, command, param1, param2, loByte sendLength, hiByte sendLength, sendAddr, target.1⟩,
    target.2)

end Readers

/-! ## The transfer -/

/-- Where an instruction is fetched: from the ROM or from page 3. -/
inductive Place where
  | rom
  | page3
deriving DecidableEq, Repr

/-- A byte stored, with the bank selected then. -/
structure Store where
  rom : Byte
  addr : Word
  value : Byte
deriving DecidableEq, Repr

/-- The bank that is selected, the bytes stored, and what was fetched with which bank selected: an entry
of `page3` is for an instruction, one of `rom` for a stretch of them from a label or from the return of
`store_byte` on. -/
structure Machine where
  romsel : Byte
  stores : List Store
  fetched : List (Place × Byte)
deriving DecidableEq, Repr

namespace Machine

/-- A bank is selected, and nothing is done yet. -/
def start (rom : Byte) : Machine := ⟨rom, [], []⟩

def fetch (p : Place) (m : Machine) : Machine := { m with fetched := m.fetched ++ [(p, m.romsel)] }

/-- `stx ROM`. -/
def select (rom : Byte) (m : Machine) : Machine := { m with romsel := rom }

def store (addr : Word) (v : Byte) (m : Machine) : Machine :=
  { m with stores := m.stores ++ [⟨m.romsel, addr, v⟩] }

end Machine

/-- The bytes from `store_byte_start` up to `store_byte_end`. -/
def storeByteCode : List Byte :=
  [0xae, 0x8a, 0x03, 0x8e, 0x30, 0xfe, 0x91, 0xda, 0xae, 0x81, 0x03, 0x8e, 0x30, 0xfe, 0x60]

/-- The loop that copies them to page 3, with Y: the bytes there, and A. -/
def copyStoreByte : ℕ → List Byte → Byte → List Byte × Byte
  | 0, page3, a => (page3, a)
  | y + 1, page3, _ =>
      let a := storeByteCode.getD y 0
      copyStoreByte y (a :: page3) a

/-- `store_byte`, where it is copied to. -/
def storeByte (destRom command : Byte) (ptr : Word) (a : Byte) (m : Machine) : Machine :=
  -- `ldx dest_rom`, `stx ROM`
  let m := ((m.fetch .page3).fetch .page3).select destRom
  -- `sta (data_ptr),y`
  let m := (m.fetch .page3).store ptr a
  -- `ldx command`, `stx ROM`
  let m := ((m.fetch .page3).fetch .page3).select command
  -- `rts`
  m.fetch .page3

/-- A round of a loop that sends. -/
def sendRound (a : Byte) (m : Machine) : Bbc Machine := do
  sendByte a
  pure (m.fetch .rom)

/-- A round of a loop that receives: the machine, and A. -/
def recvRound (destRom command : Byte) (ptr : Word) (s : Machine × Byte) : Bbc (Machine × Byte) := do
  sendByte s.2
  let v ← via .getDrb
  let m := storeByte destRom command ptr v (s.1.fetch .rom)
  pure (m.fetch .rom, v)

/-- `upcomm` from the transfer on: the parameter block and the machine after it. -/
def transfer (b : ParamBlock) (mem : Mem) (destRom : Byte) (m : Machine) : Bbc (ParamBlock × Machine) := do
  let m := m.fetch .rom
  via (.setDdrb 0x00)
  via (.setPcr 0xc0)
  via (.setPcr 0xe0)
  via (.setPcr 0x80)
  via (.setDdrb 0xff)
  let m ← loopY (fun y => sendRound (b.base y)) 6 256 0 m
  let m ← pagesAndRest (fun ptr => sendRound (mem ptr)) b.sendLo b.sendHi b.sendAddr m
  -- `lda ROM`, `sta command`: the header is sent, so the byte is free
  let command := m.romsel
  let a := (copyStoreByte storeByteCode.length [] command).2
  let m := m.fetch .rom
  via (.setDdrb 0x00)
  sendByte a
  sendByte 0x10
  let status ← via .getDrb
  sendByte 0x10
  let lo ← via .getDrb
  sendByte 0x10
  let hi ← via .getDrb
  let (m, a) ← pagesAndRest (recvRound destRom command) lo hi b.recvAddr (m.fetch .rom, 0x10)
  sendByte a
  pure ({ b.received status lo hi with command := command }, m.fetch .rom)

/-! ## The service call -/

/-- How a service call ends: with `rts`, or with `jmp $0100` and these bytes there. -/
inductive Reply where
  | returned (a x y : Byte)
  | brk (page1 : List Byte)
deriving DecidableEq, Repr

/-- The text at `syntax`. -/
def syntaxText : List Byte :=
  [0x00, 0x00] ++ ascii "Syntax: UPCOMM <ch> <cmd> <p1> <p2>" ++ [0x0a, 0x0d] ++
  ascii "               <rql> <rqa> <rsa>" ++ [0x00, 0xff]

/-- The loop at `error`: it copies bytes up to one with all bits set. -/
def copyText : List Byte → List Byte
  | [] => []
  | a :: l => if a = 0xff then [a] else a :: copyText l

/-- `error`. -/
def error : Reply := .brk (copyText syntaxText)

/-- `unrecognised_command` with the line at Y and the bank that is selected. -/
def unrecognisedCommand (line : Byte → Byte) (mem : Mem) (rom x y : Byte) : Bbc (Reply × Machine) :=
  match matchName line 6 y with
  | none => pure (.returned 4 x y, .start rom)
  | some y' =>
      match readFields line rom y' with
      | none => pure (error, .start rom)
      | some ((b, destRom), _) => do
          let r ← transfer b mem destRom (.start rom)
          pure (.returned 0 x y, r.2)

end Udfs.Uptx
