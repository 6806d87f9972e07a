import Udfs.Link.SendMsg

/-!
# `send_msg` in its memory

The parameter block of `send_msg` is at `$0d42` and its pointer `data_ptr` at `$a0`, in the memory
it sends from and stores to, and it counts in them.  This file embeds it as code that looks into
that memory between its operations on the VIA: what is stored over the block or the pointer has its
effect.
-/

namespace Udfs.Link

/-! ## The memory -/

namespace Loc

abbrev dataPtr : Word := 0x00a0
abbrev channel : Word := 0x0d42
abbrev command : Word := 0x0d43
abbrev param1 : Word := 0x0d44
abbrev param2 : Word := 0x0d45
abbrev sendLength : Word := 0x0d46
abbrev sendAddr : Word := 0x0d48
abbrev recvAddr : Word := 0x0d4a

end Loc

/-- The word at an address. -/
def wordAt (m : Mem) (p : Word) : Word := wordOf (m p) (m (p + 1))

/-- The parameter block, `base` … `base+9`. -/
def blockOf (m : Mem) : ParamBlock where
  channel := m Loc.channel
  command := m Loc.command
  param1 := m Loc.param1
  param2 := m Loc.param2
  sendLo := m Loc.sendLength
  sendHi := m (Loc.sendLength + 1)
  sendAddr := wordAt m Loc.sendAddr
  recvAddr := wordAt m Loc.recvAddr

/-! ## The code -/

/-- The calls of `send_byte`. -/
inductive Site where
  | header
  | page
  | rest
  -- `Tell AVR to send.`
  | tell
  | status
  | lengthLow
  | lengthHigh
  | pageIn
  | restIn
  -- `Tell AVR to drop bus.`
  | drop

/-- The operations on the VIA. -/
inductive Place where
  | getPcr
  | getAcr
  | clearAcr
  | turnIn
  | driveLow
  | driveHigh
  | handshake
  | turnOut
  -- in `send_byte`
  | put (w : Site)
  | ack (w : Site)
  -- `ldx drb` and `lda drb` after it
  | get (w : Site)
  | turnBack
  | restoreAcr
  | restorePcr
  | back

/-- The registers that the code goes by, what it has pushed, and the memory. -/
structure Cpu where
  place : Place
  a : Byte
  y : Byte
  pcr : Byte
  acr : Byte
  mem : Mem

namespace Cpu

variable (c : Cpu)

/-- The address of `(data_ptr),y`. -/
def addr : Word := wordAt c.mem Loc.dataPtr + c.y.setWidth 16

/-- `sta`. -/
def store (p : Word) (v : Byte) : Cpu := { c with mem := Function.update c.mem p v }

/-- `inc` and `dec` of a byte in memory. -/
def inc (p : Word) : Cpu := c.store p (c.mem p + 1)

def dec (p : Word) : Cpu := c.store p (c.mem p - 1)

/-- `data_ptr` is set to the address at `p`; A is left holding the high byte. -/
def setPtr (p : Word) : Cpu :=
  { (c.store Loc.dataPtr (c.mem p)).store (Loc.dataPtr + 1) (c.mem (p + 1)) with a := c.mem (p + 1) }

/-- `jsr send_byte` with `(data_ptr),y`. -/
def sendAt (w : Site) : Cpu := { c with place := .put w, a := c.mem c.addr }

/-- `jsr send_byte` with what A holds. -/
def send (w : Site) : Cpu := { c with place := .put w }

/-- `send_final_page`, and what follows it. -/
def sendFinalPage : Cpu :=
  if c.y = c.mem Loc.sendLength then { c.setPtr Loc.recvAddr with place := .turnBack, y := 0 }
  else c.sendAt .rest

/-- The page loop after a byte has been sent. -/
def pageSent : Cpu :=
  let c := { c with y := c.y + 1 }
  if c.y ≠ 0 then c.sendAt .page
  else
    let c := (c.inc (Loc.dataPtr + 1)).dec (Loc.sendLength + 1)
    if c.mem (Loc.sendLength + 1) ≠ 0 then c.sendAt .page else c.sendFinalPage

/-- The loop over the header after a byte has been sent. -/
def headerSent : Cpu :=
  let c := { c with y := c.y + 1 }
  if c.y ≠ 6 then { c with place := .put .header, a := c.mem (Loc.channel + c.y.setWidth 16) }
  else
    let c := { c with y := c.mem (Loc.sendLength + 1) }
    if c.y = 0 then c.sendFinalPage else { c with y := 0 }.sendAt .page

/-- `recv_final_page`. -/
def recvFinalPage : Cpu := c.send (if c.y = c.mem Loc.param1 then .drop else .restIn)

/-- `sta (data_ptr),y` and `iny`. -/
def storeAt (v : Byte) : Cpu := { c.store c.addr v with a := v, y := c.y + 1 }

/-- The page loop after a byte has been received. -/
def pageReceived (v : Byte) : Cpu :=
  let c := c.storeAt v
  if c.y ≠ 0 then c.send .pageIn
  else
    let c := (c.inc (Loc.dataPtr + 1)).dec Loc.param2
    if c.mem Loc.param2 ≠ 0 then c.send .pageIn else c.recvFinalPage

/-- What follows `send_byte`; A is left holding the flag bit. -/
def sent : Site → Cpu
  | .header => { c with a := 0x10 }.headerSent
  | .page => { c with a := 0x10 }.pageSent
  | .rest => { c with a := 0x10, y := c.y + 1 }.sendFinalPage
  | .tell => { c with a := 0x10 }.send .status
  | .drop => { c with place := .restoreAcr, a := 0x10 }
  | w => { c with place := .get w, a := 0x10 }

/-- What follows `ldx drb` and `lda drb`. -/
def got (v : Byte) : Site → Cpu
  | .status => (c.store Loc.channel v).send .lengthLow
  | .lengthLow => ((c.store Loc.param1 v).store Loc.sendLength v).send .lengthHigh
  | .lengthHigh =>
      let c := (c.store Loc.param2 v).store (Loc.sendLength + 1) v
      if v = 0 then c.recvFinalPage else c.send .pageIn
  | .pageIn => c.pageReceived v
  | .restIn => (c.storeAt v).recvFinalPage
  | _ => c

/-- The next operation on the VIA, and how the code goes on from its answer. -/
def next : Option (Σ o : BbcOp, o.Ans → Cpu) :=
  match c.place with
  | .getPcr => some ⟨.getPcr, fun v => { c with place := .getAcr, pcr := v }⟩
  | .getAcr => some ⟨.getAcr, fun v => { c with place := .clearAcr, acr := v }⟩
  | .clearAcr => some ⟨.setAcr 0x00, fun _ => { c.setPtr Loc.sendAddr with place := .turnIn }⟩
  | .turnIn => some ⟨.setDdrb 0x00, fun _ => { c with place := .driveLow }⟩
  | .driveLow => some ⟨.setPcr 0xc0, fun _ => { c with place := .driveHigh }⟩
  | .driveHigh => some ⟨.setPcr 0xe0, fun _ => { c with place := .handshake }⟩
  | .handshake => some ⟨.setPcr 0x80, fun _ => { c with place := .turnOut }⟩
  | .turnOut => some ⟨.setDdrb 0xff, fun _ =>
      { c with place := .put .header, a := c.mem Loc.channel, y := 0 }⟩
  | .put w => some ⟨.putDrb c.a, fun _ => { c with place := .ack w }⟩
  | .ack w => some ⟨.untilCb1, fun _ => c.sent w⟩
  | .get w => some ⟨.getDrb, fun v => c.got v w⟩
  | .turnBack => some ⟨.setDdrb 0x00, fun _ => c.send .tell⟩
  | .restoreAcr => some ⟨.setAcr c.acr, fun _ => { c with place := .restorePcr }⟩
  | .restorePcr => some ⟨.setPcr c.pcr, fun _ => { c with place := .back }⟩
  | .back => none

/-- At the label `send_msg`. -/
def enter (m : Mem) : Cpu := ⟨.getPcr, 0, 0, 0, 0, m⟩

end Cpu

/-! ## The thread it stands for -/

/-- The memory after `k` pages have been sent. -/
def pagesSent (m : Mem) (k : ℕ) : Mem := fun p =>
  if p = Loc.dataPtr then m Loc.sendAddr
  else if p = Loc.dataPtr + 1 then m (Loc.sendAddr + 1) + BitVec.ofNat 8 k
  else if p = Loc.sendLength + 1 then m (Loc.sendLength + 1) - BitVec.ofNat 8 k
  else m p

/-- The memory as the body finds it, which is read after the pages below it. -/
def bodyMem (m : Mem) : Mem := fun p =>
  pagesSent m ((p - wordAt m Loc.sendAddr).toNat / 256) p

/-- The call that the code makes of a memory. -/
def callOf (m : Mem) : Call := ⟨blockOf m, bodyMem m⟩

/-- The bytes that `send_msg` changes besides those it is to store. -/
def Scratch (p : Word) : Prop :=
  p = Loc.dataPtr ∨ p = Loc.dataPtr + 1 ∨ Loc.channel ≤ p ∧ p ≤ Loc.recvAddr + 1

instance (p : Word) : Decidable (Scratch p) := inferInstanceAs (Decidable (_ ∨ _))

/-- Memory that is the user's: RAM that is neither the stack nor changed by `send_msg` itself. -/
def UserMem (p : Word) : Prop :=
  p < 0x8000 ∧ ¬ (0x0100 ≤ p ∧ p < 0x0200) ∧ ¬ Scratch p

instance (p : Word) : Decidable (UserMem p) := inferInstanceAs (Decidable (_ ∧ _))

/-- `n` bytes of the user's memory from an address on. -/
def InUserMem (p : Word) (n : ℕ) : Prop := ∀ i < n, UserMem (p + BitVec.ofNat 16 i)

instance (p : Word) (n : ℕ) : Decidable (InUserMem p n) := inferInstanceAs (Decidable (∀ _ < _, _))

end Udfs.Link
