import Udfs.Lib.Transition
import Udfs.Link.Firmware
import Udfs.Link.SendMsg
import Udfs.Server.Request

/-!
# The link as one system

The BBC runs `send_msg` on its user VIA, the AVR runs `doMessaging` on its ports, and the
host runs the main loop of the server behind a USB endpoint in each direction.  A state
holds the registers, the endpoints and what is left of each program; a step is one
operation of one of the three.  A busy loop is an operation that waits.

Besides the operations there are the calls of `send_msg`, with any parameter block and
memory, and the reset of the BBC at any moment.  What depends on real time is a guard: the
BBC needs longer for its next write to `drb` than the AVR for the test in `ackByte`, and
its start strobe lasts until the AVR has seen it, or is over before an AVR that waits for
the first byte has looked.

The last fields of a state are history: what was sent and what the server executed.
-/

namespace Udfs.Link

/-! ## The two sides of the bus -/

/-- The user VIA. -/
structure Via where
  ddrb : Byte
  pcr : Byte
  acr : Byte
  orb : Byte
  -- bit 4 of `ifr`
  cb1 : Bool
  -- the level of CB2, the BBC's flag; `true` is high
  cb2 : Bool

/-- The VIA after a reset: nothing is driven, and CB2 is pulled up. -/
def Via.reset : Via := ⟨0, 0, 0, 0, false, true⟩

/-- CB2 after a write to `pcr`: mode 110 drives it low. -/
def cb2Level (pcr : Byte) : Bool := pcr >>> 5 ≠ 6

/-- Mode 100: a write to `drb` takes CB2 low and the edge on CB1 takes it high again. -/
def isHandshake (pcr : Byte) : Bool := pcr >>> 5 = 4

/-- The ports of the AVR. -/
structure Ports where
  ddrd : Byte
  portd : Byte
  portc : Byte

/-- A byte off the bus at the BBC's side; `v` is what floating lines give. -/
def busAtBbc (a : Via) (p : Ports) (v : Byte) : Byte :=
  if a.ddrb = 0xff then a.orb else if p.ddrd = 0xff then p.portd else v

/-- A byte off the bus at the AVR's side; `v` is what floating or fighting lines give. -/
def busAtAvr (a : Via) (p : Ports) (v : Byte) : Byte :=
  if a.ddrb = 0xff then (if p.ddrd = 0x00 then a.orb else v)
  else if p.ddrd = 0xff then p.portd else v

/-! ## The endpoints -/

/-- The size of a bank, `ENDPOINT_SIZE`. -/
def endpointSize : ℕ := 64

/-- The two endpoints, of one bank each. -/
structure Usb where
  selected : Endpoint
  -- what has been put in the bank of the IN endpoint
  inBank : List Byte
  -- the bank as handed over, until the host has taken it
  inPacket : Option (List Byte)
  -- what is left of the packet in the bank of the OUT endpoint
  outBank : Option (List Byte)

/-- How an operation on the controller goes. -/
inductive Turn (α : Type) where
  -- it waits
  | blocked
  -- it has gone round its loop once
  | again (u : Usb)
  | done (a : α) (u : Usb)

namespace Usb

/-- Bit RWAL of the selected endpoint. -/
def rwal (u : Usb) : Bool :=
  match u.selected with
  | .toHost => u.inPacket.isNone ∧ u.inBank.length < endpointSize
  | .fromHost => (u.outBank.getD []).length ≠ 0

/-- FIFOCON of the selected endpoint is cleared: the bank goes to the other side. -/
def release (u : Usb) : Usb :=
  match u.selected with
  | .toHost =>
      match u.inPacket with
      | none => { u with inBank := [], inPacket := some u.inBank }
      | some _ => u
  | .fromHost => { u with outBank := none }

/-- An operation on the controller; `v` is what a read without a byte gives. -/
def exec (u : Usb) (v : Byte) : (o : UsbOp) → Turn o.Ans
  | .selectEndpoint e => .done () { u with selected := e }
  | .untilInPacketReady =>
      if u.selected = .toHost ∧ u.inPacket = none then .done () u else .blocked
  | .untilOutPacketReady =>
      if u.selected = .fromHost ∧ u.outBank ≠ none then .done () u else .blocked
  | .readWriteAllowed => .done u.rwal u
  | .putByte b =>
      .done () (if u.selected = .toHost ∧ u.rwal then { u with inBank := u.inBank ++ [b] } else u)
  | .flushPacket => .done () u.release
  | .ackPacket => .done () u.release
  | .recvByte =>
      match u.selected, u.outBank with
      | .fromHost, some (b :: l) => .done b { u with outBank := some l }
      | .fromHost, some [] => .again u.release
      | .fromHost, none => .blocked
      | .toHost, _ => .done v u

end Usb

/-! ## The host -/

/-- Where the server's main loop is. -/
inductive Host where
  | readHeader
  | readBody (header got : List Byte)
  | write (packets : List (List Byte))
  -- a transfer has failed and the loop was left
  | stopped

/-- A body in packets. -/
def packetsOf : ℕ → List Byte → List (List Byte)
  | 0, _ => []
  | n + 1, l => if l = [] then [] else l.take endpointSize :: packetsOf n (l.drop endpointSize)

/-- The bytes of a response: the three of its header and its body. -/
def responseBytes (r : Server.Response) : List Byte :=
  [r.returnCode, BitVec.ofNat 8 r.body.length, BitVec.ofNat 8 (r.body.length / 256)] ++ r.body

/-- The packets of a response: `usbBulkWrite` of the header, then of the body if there is one. -/
def responsePackets (r : Server.Response) : List (List Byte) :=
  (responseBytes r).take 3 :: packetsOf r.body.length r.body

/-- The length field of a request header. -/
def headerLength (header : List Byte) : ℕ :=
  (wordOf (header.getD 4 0) (header.getD 5 0)).toNat

/-- A request the server executed, header and body, and its response. -/
structure Served where
  request : List Byte
  response : Server.Response

/-- The USB side of the AVR: the endpoints, the host and what it has executed. -/
structure Far where
  usb : Usb
  host : Host
  served : List Served

/-- The server executes a request; `r` is its response. -/
def Far.execute (f : Far) (request : List Byte) (r : Server.Response) : Far :=
  { f with host := .write (responsePackets r), served := f.served ++ [⟨request, r⟩] }

/-- The host takes the packet that waits for it. -/
def Far.taken (f : Far) : Far := { f with usb := { f.usb with inPacket := none } }

/-- A step of the host; `r` is the response if a request is executed. -/
def Far.step (f : Far) (r : Server.Response) : Option Far :=
  match f.host with
  | .readHeader =>
      match f.usb.inPacket with
      | none => none
      | some p =>
          if p.length ≠ 6 then some { f.taken with host := .stopped }
          else if headerLength p = 0 then some (f.taken.execute p r)
          else some { f.taken with host := .readBody p [] }
  | .readBody header got =>
      match f.usb.inPacket with
      | none => none
      | some p =>
          if (got ++ p).length = headerLength header then
            some (f.taken.execute (header ++ (got ++ p)) r)
          else if (got ++ p).length < headerLength header ∧ p.length = endpointSize then
            some { f.taken with host := .readBody header (got ++ p) }
          else some { f.taken with host := .stopped }
  | .write (p :: ps) =>
      match f.usb.outBank with
      | none => some { f with usb := { f.usb with outBank := some p }, host := .write ps }
      | some _ => none
  | .write [] => some { f with host := .readHeader }
  | .stopped => none

/-! ## The state -/

/-- What is left of the BBC's call. -/
inductive BbcState where
  | idle
  | running (t : Bbc Call)

/-- The header and the body of a message. -/
def Call.bytes (c : Call) : List Byte :=
  [c.block.channel, c.block.command, c.block.param1, c.block.param2, c.block.sendLo, c.block.sendHi]
    ++ (List.range (wordOf c.block.sendLo c.block.sendHi).toNat).map
      fun i => c.mem (c.block.sendAddr + BitVec.ofNat 16 i)

/-- A state of the link. -/
structure Sys where
  via : Via
  ports : Ports
  far : Far
  bbc : BbcState
  avr : Avr Vars
  -- the state in which `doMessaging` was called
  arm : MsgState
  -- the last call of `send_msg`, and what it has put on the bus
  call : Call
  wire : List Byte
  -- the messages sent in full, and how many requests had been executed at the last of them
  sent : List (List Byte)
  mark : ℕ
  -- whether the BBC was ever reset
  broken : Bool

/-! ## The steps -/

/-- The AVR is between lowering CB1 and the end of `ackByte`'s test. -/
def testsFlag : Avr Vars → Bool
  | .op .flagAfterDelay _ => true
  | .op .untilFlagHigh _ => true
  | _ => false

/-- The AVR has seen the strobe, or waits for a first byte and has not looked. -/
def strobeMayEnd : Avr Vars → Bool
  | .op .untilFlagHigh _ => true
  | .ret s => s.state = .getChannel
  | _ => false

/-- A write to `drb`, with its history. -/
def Sys.putDrb (s : Sys) (v : Byte) : Sys :=
  let s := { s with via := { s.via with
    orb := v, cb1 := false, cb2 := if isHandshake s.via.pcr then false else s.via.cb2 } }
  if s.via.ddrb = 0xff then
    let wire := s.wire ++ [v]
    if wire = s.call.bytes then
      { s with wire := wire, sent := s.sent ++ [wire], mark := s.far.served.length }
    else { s with wire := wire }
  else s

/-- An operation of the BBC; `v` is what floating lines give. -/
def Sys.execBbc (s : Sys) (v : Byte) : (o : BbcOp) → Option (o.Ans × Sys)
  | .getPcr => some (s.via.pcr, s)
  | .setPcr b =>
      if s.via.cb2 = false ∧ cb2Level b = true ∧ strobeMayEnd s.avr = false then none
      else some ((), { s with via := { s.via with pcr := b, cb2 := cb2Level b } })
  | .getAcr => some (s.via.acr, s)
  | .setAcr b => some ((), { s with via := { s.via with acr := b } })
  | .setDdrb b => some ((), { s with via := { s.via with ddrb := b } })
  | .putDrb b => if testsFlag s.avr then none else some ((), s.putDrb b)
  | .getDrb => some (busAtBbc s.via s.ports v, { s with via := { s.via with cb1 := false } })
  | .untilCb1 => if s.via.cb1 then some ((), s) else none

/-- A write to PORTC: the falling edge of PC4 is an active edge of CB1. -/
def Sys.portc (s : Sys) (b : Byte) : Sys :=
  let falls := s.ports.portc &&& 0x10 ≠ 0 ∧ b &&& 0x10 = 0
  { s with
    ports := { s.ports with portc := b }
    via := if falls then { s.via with cb1 := true, cb2 := isHandshake s.via.pcr || s.via.cb2 }
      else s.via }

/-- How an operation of the AVR goes. -/
inductive AvrTurn (α : Type) where
  | blocked
  | again (s : Sys)
  | done (a : α) (s : Sys)

/-- An operation of the AVR; `v` is what floating lines give. -/
def Sys.execAvr (s : Sys) (v : Byte) : (o : AvrOp) → AvrTurn o.Ans
  | .flag => .done s.via.cb2 s
  | .flagAfterDelay => .done s.via.cb2 s
  | .untilFlagHigh => if s.via.cb2 then .done () s else .blocked
  | .pind => .done (busAtAvr s.via s.ports v) s
  | .portc b => .done () (s.portc b)
  | .portd b => .done () { s with ports := { s.ports with portd := b } }
  | .ddrd b => .done () { s with ports := { s.ports with ddrd := b } }
  | .usb o =>
      match s.far.usb.exec v o with
      | .blocked => .blocked
      | .again u => .again { s with far := { s.far with usb := u } }
      | .done a u => .done a { s with far := { s.far with usb := u } }

/-- One step of the program the AVR is in; between two calls `doMessaging` is called. -/
def Sys.stepAvr (s : Sys) (v : Byte) : Option Sys :=
  let (t, arm) := match s.avr with
    | .ret x => (doMessaging x, x.state)
    | t => (t, s.arm)
  match t with
  | .ret _ => none
  | .op o k =>
      match s.execAvr v o with
      | .blocked => none
      | .again s' => some s'
      | .done a s' => some { s' with avr := k a, arm := arm }

/-- One step of the BBC. -/
def Sys.stepBbc (s : Sys) (v : Byte) : Option Sys :=
  match s.bbc with
  | .running (.op o k) => (s.execBbc v o).map fun (a, s') => { s' with bbc := .running (k a) }
  | _ => none

/-- A call of `send_msg`. -/
def Sys.start (s : Sys) (c : Call) : Sys :=
  { s with bbc := .running (sendMsg c), call := c, wire := [] }

/-- Who makes a step, with what the surroundings choose. -/
inductive Label where
  | start (c : Call)
  | brk
  | bbc (v : Byte)
  | avr (v : Byte)
  | host (r : Server.Response)

/-- A step of the link. -/
def Sys.step (s : Sys) : Label → Option Sys
  | .start c =>
      match s.bbc with
      | .idle => some (s.start c)
      | .running (.ret _) => some (s.start c)
      | .running (.op _ _) => none
  | .brk => some { s with via := .reset, bbc := .idle, broken := true }
  | .bbc v => s.stepBbc v
  | .avr v => s.stepAvr v
  | .host r => (s.far.step r).map fun f => { s with far := f }

/-- The link after both sides have been switched on; what the variables of the firmware other
than `state` and the memory of the BBC hold does not matter. -/
def Sys.initial (x : Vars) (c : Call) : Sys where
  via := .reset
  ports := ⟨0x00, 0x00, 0x10⟩
  far := ⟨⟨.toHost, [], none, none⟩, .readHeader, []⟩
  bbc := .idle
  avr := .ret { x with state := .getChannel }
  arm := .getChannel
  call := c
  wire := []
  sent := []
  mark := 0
  broken := false

end Udfs.Link
