import Udfs.Lib.Byte
import Udfs.Lib.Thread

/-!
# The firmware: `doMessaging`

The AVR takes one byte from the BBC, or gives it one, each time it finds the BBC's flag
low, and moves what it takes to the host and what the host answers to the BBC.  This file
embeds `firmware/main.c` and the inline functions of `usbio.h` as threads over the
operations they perform on the ports and on the USB controller.  The variables of the
firmware are passed from one call of `doMessaging` to the next.  What is only compiled
with `DEBUG` is left out.
-/

namespace Udfs.Link

/-- The two endpoints, `IN_ENDPOINT_ADDR` and `OUT_ENDPOINT_ADDR`. -/
inductive Endpoint where
  | toHost
  | fromHost
deriving DecidableEq, Repr

/-- The operations on the USB controller. -/
inductive UsbOp where
  | selectEndpoint (e : Endpoint)
  -- `while (!usbInPacketReady());`
  | untilInPacketReady
  -- `while (!usbOutPacketReady());`
  | untilOutPacketReady
  | readWriteAllowed
  | putByte (v : Byte)
  | flushPacket
  | ackPacket
  -- the loop of `usbRecvByte` and the byte it ends with
  | recvByte

/-- What an operation on the USB controller answers. -/
abbrev UsbOp.Ans : UsbOp → Type
  | readWriteAllowed => Bool
  | recvByte => Byte
  | _ => Unit

/-- The operations of the firmware. -/
inductive AvrOp where
  -- `PINC & 0x04`, the BBC's flag, when `doMessaging` is called
  | flag
  -- the same in `ackByte`, after `_delay_loop_1(21)`
  | flagAfterDelay
  -- `while (!(PINC & 0x04));`
  | untilFlagHigh
  | pind
  | portc (v : Byte)
  | portd (v : Byte)
  | ddrd (v : Byte)
  | usb (u : UsbOp)

/-- What an operation of the firmware answers. -/
abbrev AvrOp.Ans : AvrOp → Type
  | flag => Bool
  | flagAfterDelay => Bool
  | pind => Byte
  | usb u => u.Ans
  | _ => Unit

/-- A thread of the firmware. -/
abbrev Avr (α : Type) : Type := Tree AvrOp AvrOp.Ans α

/-- A single operation. -/
abbrev avr (o : AvrOp) : Avr o.Ans := Tree.perform o

/-- The states of the firmware. -/
inductive MsgState where
  | getChannel
  | getCommand
  | getParam1
  | getParam2
  | getLengthLow
  | getLengthHigh
  | getData
  | sendPrep
  | sendRetcode
  | sendLengthLow
  | sendLengthHigh
  | sendData
  | finish
deriving DecidableEq, Repr

/-- The static variables of the firmware. -/
structure Vars where
  channel : Byte
  command : Byte
  param1 : Byte
  param2 : Byte
  dataLength : Word
  state : MsgState

/-! ## `usbio.h` -/

def usbSelectEndpoint (e : Endpoint) : Avr Unit := avr (.usb (.selectEndpoint e))

def untilInPacketReady : Avr Unit := avr (.usb .untilInPacketReady)

def untilOutPacketReady : Avr Unit := avr (.usb .untilOutPacketReady)

def usbReadWriteAllowed : Avr Bool := avr (.usb .readWriteAllowed)

def usbPutByte (v : Byte) : Avr Unit := avr (.usb (.putByte v))

def usbFlushPacket : Avr Unit := avr (.usb .flushPacket)

def usbAckPacket : Avr Unit := avr (.usb .ackPacket)

def usbRecvByte : Avr Byte := avr (.usb .recvByte)

/-- Put a byte in the bank, first making room for it if there is none. -/
def usbSendByte (v : Byte) : Avr Unit := do
  if ← usbReadWriteAllowed then
    usbPutByte v
  else
    usbFlushPacket
    untilInPacketReady
    usbPutByte v

/-! ## `main.c` -/

/-- Acknowledge a byte.  A flag that stays low is not that byte's: the BBC is resetting. -/
def ackByte (s : Vars) : Avr Vars := do
  avr (.portc 0x00)
  if ← avr .flagAfterDelay then
    avr (.portc 0x10)
    pure s
  else
    avr (.ddrd 0x00)
    avr .untilFlagHigh
    avr (.portc 0x10)
    pure { s with state := .getChannel }

/-- The `switch` of `doMessaging`. -/
def doState (s : Vars) : Avr Vars :=
  match s.state with
  | .getChannel => do
      let ch ← avr .pind
      ackByte { s with channel := ch, state := .getCommand }
  | .getCommand => do
      let ch ← avr .pind
      ackByte { s with command := ch, state := .getParam1 }
  | .getParam1 => do
      let ch ← avr .pind
      ackByte { s with param1 := ch, state := .getParam2 }
  | .getParam2 => do
      let ch ← avr .pind
      ackByte { s with param2 := ch, state := .getLengthLow }
  | .getLengthLow => do
      let ch ← avr .pind
      ackByte { s with dataLength := wordOf ch (hiByte s.dataLength), state := .getLengthHigh }
  | .getLengthHigh => do
      let ch ← avr .pind
      let n := wordOf (loByte s.dataLength) ch
      let s ← ackByte { s with dataLength := n, state := if n ≠ 0 then .getData else .sendPrep }
      -- the header goes to the host whichever way `ackByte` returned
      usbSelectEndpoint .toHost
      untilInPacketReady
      usbPutByte s.channel
      usbPutByte s.command
      usbPutByte s.param1
      usbPutByte s.param2
      usbPutByte (loByte s.dataLength)
      usbPutByte (hiByte s.dataLength)
      usbFlushPacket
      if s.dataLength ≠ 0 then
        untilInPacketReady
        pure s
      else pure s
  | .getData => do
      let ch ← avr .pind
      let n := s.dataLength - 1
      usbSendByte ch
      if n = 0 then
        usbFlushPacket
        ackByte { s with dataLength := n, state := .sendPrep }
      else
        ackByte { s with dataLength := n }
  | .sendPrep => do
      let s ← ackByte { s with state := .sendRetcode }
      avr (.ddrd 0xff)
      pure s
  | .sendRetcode => do
      usbSelectEndpoint .fromHost
      untilOutPacketReady
      let ch ← usbRecvByte
      avr (.portd ch)
      let s ← ackByte { s with state := .sendLengthLow }
      let lo ← usbRecvByte
      let hi ← usbRecvByte
      pure { s with dataLength := wordOf lo hi }
  | .sendLengthLow => do
      avr (.portd (loByte s.dataLength))
      ackByte { s with state := .sendLengthHigh }
  | .sendLengthHigh => do
      avr (.portd (hiByte s.dataLength))
      ackByte { s with state := if s.dataLength ≠ 0 then .sendData else .finish }
  | .sendData => do
      let ch ← usbRecvByte
      avr (.portd ch)
      let n := s.dataLength - 1
      ackByte { s with dataLength := n, state := if n = 0 then .finish else .sendData }
  | .finish => do
      usbAckPacket
      avr (.ddrd 0x00)
      ackByte { s with state := .getChannel }

/-- `doMessaging`: nothing to do while the flag is high. -/
def doMessaging (s : Vars) : Avr Vars := do
  if ← avr .flag then pure s else doState s

end Udfs.Link
