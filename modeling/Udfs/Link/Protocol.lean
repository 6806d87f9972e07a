import Udfs.Link.System

/-!
# The protocol between the ROM and the firmware

The two programs never see each other's counters.  What keeps them together is a protocol
neither of them spells out: at any moment they agree on the byte that is exchanged next,
and take turns on it.  This file states that protocol.  A `Slot` is a place in the exchange
of one message; a `Stage` says whose turn it is, or that the BBC has not finished a start
strobe yet.  `avrRely` and `bbcRely` say what each program may expect of the rest of the
system and what it owes it.

`strict` distinguishes two sets of runs: in the strict ones no reset strobe is met while
the far side still holds a part of a message or of a response.
-/

namespace Udfs.Link

/-! ## Slots -/

/-- A place in the exchange of a message: what the AVR has received, and after the whole
request `p` the direction is turned and what it has given. -/
inductive Slot where
  | recv (p : List Byte)
  | prep (p : List Byte)
  | reply (p tx : List Byte)

/-- The number of body bytes that a reply announces in its second and third byte. -/
def replyLength (tx : List Byte) : ℕ := (wordOf (tx.getD 1 0) (tx.getD 2 0)).toNat

/-- The whole response has been given. -/
def ReplyDone (tx : List Byte) : Prop := 3 ≤ tx.length ∧ tx.length = 3 + replyLength tx

instance (tx : List Byte) : Decidable (ReplyDone tx) := inferInstanceAs (Decidable (_ ∧ _))

/-- A request of a header and as many bytes as it announces. -/
def Complete (p : List Byte) : Prop := 6 ≤ p.length ∧ p.length = 6 + headerLength p

instance (p : List Byte) : Decidable (Complete p) := inferInstanceAs (Decidable (_ ∧ _))

/-- The slot after `v` in an exchange of the message `c`; `x` is what the AVR drives. -/
def Slot.next (c : Call) (x : Byte) : Slot → Slot
  | recv p =>
      if p.length + 1 = c.bytes.length then prep c.bytes else recv (c.bytes.take (p.length + 1))
  | prep p => reply p []
  | reply p tx => reply p (tx ++ [x])

/-- The variables of the firmware in front of a slot. -/
inductive View : Slot → Vars → Prop where
  | getChannel {s : Vars} (h : s.state = .getChannel) : View (.recv []) s
  | getCommand {s : Vars} (h : s.state = .getCommand) : View (.recv [s.channel]) s
  | getParam1 {s : Vars} (h : s.state = .getParam1) : View (.recv [s.channel, s.command]) s
  | getParam2 {s : Vars} (h : s.state = .getParam2) :
      View (.recv [s.channel, s.command, s.param1]) s
  | getLengthLow {s : Vars} (h : s.state = .getLengthLow) :
      View (.recv [s.channel, s.command, s.param1, s.param2]) s
  | getLengthHigh {s : Vars} (h : s.state = .getLengthHigh) :
      View (.recv [s.channel, s.command, s.param1, s.param2, loByte s.dataLength]) s
  | getData {s : Vars} {p : List Byte} (h : s.state = .getData) (h6 : 6 ≤ p.length)
      (hpos : s.dataLength ≠ 0) (hn : p.length + s.dataLength.toNat = 6 + headerLength p) :
      View (.recv p) s
  | sendPrep {s : Vars} {p : List Byte} (h : s.state = .sendPrep) (hp : Complete p) :
      View (.prep p) s
  | sendRetcode {s : Vars} {p : List Byte} (h : s.state = .sendRetcode) (hp : Complete p) :
      View (.reply p []) s
  | sendLengthLow {s : Vars} {p : List Byte} {rc : Byte} (h : s.state = .sendLengthLow) :
      View (.reply p [rc]) s
  | sendLengthHigh {s : Vars} {p : List Byte} {rc : Byte} (h : s.state = .sendLengthHigh) :
      View (.reply p [rc, loByte s.dataLength]) s
  | sendData {s : Vars} {p tx : List Byte} (h : s.state = .sendData) (h3 : 3 ≤ tx.length)
      (hpos : s.dataLength ≠ 0) (hn : tx.length + s.dataLength.toNat = 3 + replyLength tx) :
      View (.reply p tx) s
  | finish {s : Vars} {p tx : List Byte} (h : s.state = .finish) (hd : ReplyDone tx) :
      View (.reply p tx) s

/-- The direction of port D between two calls of `doMessaging`. -/
def dirOf : MsgState → Byte
  | .sendRetcode => 0xff
  | .sendLengthLow => 0xff
  | .sendLengthHigh => 0xff
  | .sendData => 0xff
  | .finish => 0xff
  | _ => 0x00

/-- The slot is a place in the exchange of the message `c`. -/
def Slot.Of (c : Call) : Slot → Prop
  | recv p => ∃ b l, c.bytes = p ++ b :: l
  | prep p => p = c.bytes
  | reply p _ => p = c.bytes

/-! ## Stages -/

/-- How far the two programs are with each other. -/
inductive Stage where
  -- the BBC was reset and has not finished a start strobe since
  | down
  -- the BBC is between two messages, the AVR waits for a first byte; the last message and reply
  | calm (last : Option (Call × List Byte))
  -- so too, and the AVR has met the start strobe
  | caught
  -- the BBC is to offer the slot, has offered it, the AVR is busy with it
  | ready (c : Call) (v : Slot)
  | called (c : Call) (v : Slot)
  | serving (c : Call) (v : Slot)

namespace Stage

/-- Nothing has been exchanged since the last message or reset. -/
def Resting : Stage → Prop
  | down => True
  | calm _ => True
  | caught => True
  | _ => False

/-- The stage after the AVR acknowledges, with `x` on port D. -/
def acked (x : Byte) : Stage → Stage
  | serving c v =>
      match v with
      | .reply p tx => if ReplyDone tx then calm (some (c, tx)) else ready c (Slot.next c x (.reply p tx))
      | v => ready c (v.next c x)
  | st => st

/-- The stage after the AVR finds the flag low. -/
def picked : Stage → Stage
  | called c v => serving c v
  | calm _ => caught
  | st => st

end Stage

/-! ## What the firmware may expect -/

/-- What the firmware works on, and the stage. -/
structure AvrWorld where
  ports : Ports
  stage : Stage
  arm : MsgState
  far : Far
  sent : List (List Byte)
  mark : ℕ
  broken : Bool

/-- A step of the rest of the system.  The three conditions say which steps the firmware's
position leaves possible. -/
inductive AvrEnv (canCall canStrobe canAck : Prop) : AvrWorld → AvrWorld → Prop where
  | call {w : AvrWorld} {c : Call} {v : Slot} (h : w.stage = .ready c v) (hc : canCall)
      (hlast : ∀ p, v = .recv p → p.length + 1 ≠ c.bytes.length) :
      AvrEnv canCall canStrobe canAck w { w with stage := .called c v }
  | callLast {w : AvrWorld} {c : Call} {p : List Byte} (h : w.stage = .ready c (.recv p))
      (hc : canCall) (hlast : p.length + 1 = c.bytes.length) :
      AvrEnv canCall canStrobe canAck w { w with
        stage := .called c (.recv p), sent := w.sent ++ [c.bytes], mark := w.far.served.length }
  | brk {w : AvrWorld} : AvrEnv canCall canStrobe canAck w { w with stage := .down, broken := true }
  | strobe {w : AvrWorld} {c : Call} (h : w.stage.Resting) (hc : canStrobe) :
      AvrEnv canCall canStrobe canAck w { w with stage := .ready c (.recv []) }
  | host {w : AvrWorld} {f : Far} (r : Server.Response) (h : w.far.step r = some f) :
      AvrEnv canCall canStrobe canAck w { w with far := f }
  | ack {w : AvrWorld} (hsel : w.far.usb.selected = .fromHost) (h : w.far.usb.outBank = some [])
      (hc : canAck) :
      AvrEnv canCall canStrobe canAck w
        { w with far := { w.far with usb := { w.far.usb with outBank := none } } }

/-- The bytes of a response that the firmware has not read. -/
def Far.unread (f : Far) : List Byte :=
  f.usb.outBank.getD [] ++ (match f.host with | .write ps => ps.flatten | _ => [])

/-- A reset met in this state leaves nothing of a message behind. -/
def CleanReset (f : Far) : MsgState → Prop
  | .getLengthHigh | .getData | .sendPrep => False
  | .sendRetcode => f.unread = [0, 0]
  | .sendLengthLow | .sendLengthHigh | .sendData => f.unread = []
  | _ => True

/-- The firmware reads a byte that goes to the host. -/
def forwards : MsgState → Prop
  | .getLengthHigh => True
  | .getData => True
  | _ => False

/-- What was executed was sent, in that order. -/
def Recorded (w : AvrWorld) : Prop :=
  (w.far.served.map Served.request).Sublist w.sent

/-- Every message sent in full was executed, unless there has been a reset. -/
def Base (w : AvrWorld) : Prop :=
  Recorded w ∧ (w.broken = false → w.far.served.map Served.request = w.sent)

/-- Between two messages no packet is left, and the last message was executed, it alone since
it was sent, and the reply is its response. -/
def Settled (w : AvrWorld) : Prop :=
  ∀ last, w.stage = .calm last → Base w ∧ w.far.usb.outBank = none ∧
    ∀ c tx, last = some (c, tx) →
      ∃ r, w.far.served.drop w.mark = [⟨c.bytes, r⟩] ∧ tx = responseBytes r

/-- What the firmware owes when it is about to perform an operation. -/
def avrSafe (strict : Prop) (w : AvrWorld) : AvrOp → Prop
  | .flag => False
  | .flagAfterDelay =>
      match w.stage with
      | .called _ _ => False
      | .serving _ _ => False
      | .calm _ => w.arm = .finish
      | .caught => w.arm = .getChannel
      | _ => True
  | .untilFlagHigh =>
      w.ports.ddrd = 0x00 ∧
        match w.stage with
        | .called _ _ => False
        | .serving _ _ => False
        | _ => True
  | .pind =>
      match w.stage with
      | .serving _ (.recv _) => True
      | .caught => w.arm = .getChannel
      | .down => True
      | _ => False
  | .portc b =>
      b = 0x10 ∨ b = 0x00 ∧ w.ports.portc = 0x10 ∧
        match w.stage with
        | .serving _ (.reply _ tx) => w.ports.ddrd = if ReplyDone tx then 0x00 else 0xff
        | .serving _ _ => True
        | .caught => True
        | .down => True
        | _ => False
  | .portd _ =>
      match w.stage with
      | .serving _ _ => True
      | .down => True
      | _ => False
  | .ddrd b =>
      match w.stage with
      | .ready _ (.reply _ []) => b = 0xff
      | .called _ (.reply _ []) => b = 0xff
      | .ready _ _ => False
      | .called _ _ => False
      | .serving _ (.reply _ _) => True
      | .serving _ _ => b = 0x00
      | .down => True
      | _ => b = 0x00
  | .usb o => strict → (∃ v a u, w.far.usb.exec v o = .done a u) ∨ (∃ r f, w.far.step r = some f) ∨
      ∃ v u, w.far.usb.exec v o = .again u

/-- What an operation of the firmware answers and does. -/
def avrAct (strict : Prop) : (o : AvrOp) → AvrWorld → o.Ans → AvrWorld → Prop
  | .flag, _, _, _ => False
  | .flagAfterDelay, w, a, w' => w' = w ∧
      (a = true → w.stage ≠ .caught) ∧
      (a = false → (∀ c v, w.stage ≠ .ready c v) ∧ w.arm ≠ .sendPrep ∧ (strict → CleanReset w.far w.arm))
  | .untilFlagHigh, w, _, w' => w' = w ∧ w.stage ≠ .caught
  | .pind, w, a, w' => w' = w ∧
      (∀ c p, w.stage = .serving c (.recv p) → w.ports.ddrd = 0x00 → ∃ l, c.bytes = p ++ a :: l) ∧
      (strict → forwards w.arm → w.stage ≠ .down)
  | .portc b, w, _, w' =>
      w' = { w with
        ports := { w.ports with portc := b }
        stage := if b = 0x00 then w.stage.acked w.ports.portd else w.stage }
  | .portd b, w, _, w' => w' = { w with ports := { w.ports with portd := b } }
  | .ddrd b, w, _, w' => w' = { w with ports := { w.ports with ddrd := b } }
  | .usb o, w, a, w' => ∃ v u, w.far.usb.exec v o = .done a u ∧
      w' = { w with far := { w.far with usb := u } }

/-- The firmware is not between lowering CB1 and the end of the flag test. -/
def mayCall : AvrOp → Prop
  | .flagAfterDelay => False
  | .untilFlagHigh => False
  | _ => True

/-- The world of the firmware. -/
def avrRely (strict : Prop) : Rely AvrOp AvrOp.Ans AvrWorld where
  env o := AvrEnv (mayCall o) (o = .untilFlagHigh) (o = .usb .recvByte)
  safe o w := avrSafe strict w o ∧ (strict → Recorded w ∧ Settled w)
  act := avrAct strict

/-! ## What the ROM may expect -/

/-- What the ROM works on, and the stage. -/
structure BbcWorld where
  via : Via
  stage : Stage
  call : Call
  wire : List Byte

/-- A step of the rest of the system. -/
inductive BbcEnv : BbcWorld → BbcWorld → Prop where
  | pick {w : BbcWorld} (h : w.via.cb2 = false) : BbcEnv w { w with stage := w.stage.picked }
  | ack {w : BbcWorld} {c : Call} {v : Slot} (x : Byte) (h : w.stage = .serving c v) :
      BbcEnv w { w with
        stage := w.stage.acked x, via := { w.via with cb1 := true, cb2 := true } }
  | stray {w : BbcWorld} (h : w.stage.Resting) :
      BbcEnv w { w with via := { w.via with
        cb1 := true, cb2 := isHandshake w.via.pcr || w.via.cb2 } }

/-- What the ROM owes when it is about to perform an operation. -/
def bbcSafe (w : BbcWorld) : BbcOp → Prop
  | .setPcr b =>
      match w.stage with
      | .called _ _ => False
      | .serving _ _ => False
      | .ready _ _ => cb2Level b = true
      | _ => w.via.cb2 = true ∨ cb2Level b = true
  | .setDdrb b =>
      match w.stage with
      | .ready _ (.recv _) => b = 0xff
      | .ready _ (.prep _) => b = 0x00
      | .ready _ _ => False
      | .called _ _ => False
      | .serving _ _ => False
      | _ => b = 0x00
  | .putDrb b =>
      w.via.pcr = 0x80 ∧
        match w.stage with
        | .ready c (.recv p) => w.via.ddrb = 0xff ∧ c = w.call ∧ p = w.wire ∧
            ∃ l, c.bytes = p ++ b :: l
        | .ready _ _ => w.via.ddrb = 0x00
        | _ => False
  | .untilCb1 =>
      w.via.cb1 = true ∨
        match w.stage with
        | .called _ _ => True
        | .serving _ _ => True
        | _ => False
  | _ => True

/-- What an operation of the ROM answers and does. -/
def bbcAct : (o : BbcOp) → BbcWorld → o.Ans → BbcWorld → Prop
  | .getPcr, w, a, w' => w' = w ∧ a = w.via.pcr
  | .setPcr b, w, _, w' =>
      w' = { w with
        via := { w.via with pcr := b, cb2 := cb2Level b }
        stage := if w.via.cb2 = false ∧ cb2Level b = true then .ready w.call (.recv []) else w.stage }
  | .getAcr, w, _, w' => w' = w
  | .setAcr b, w, _, w' => w' = { w with via := { w.via with acr := b } }
  | .setDdrb b, w, _, w' => w' = { w with via := { w.via with ddrb := b } }
  | .putDrb b, w, _, w' => ∀ c v, w.stage = .ready c v →
      w' = { w with
        via := { w.via with orb := b, cb1 := false, cb2 := false }
        stage := .called c v
        wire := if w.via.ddrb = 0xff then w.wire ++ [b] else w.wire }
  | .getDrb, w, a, w' =>
      w' = { w with via := { w.via with cb1 := false } } ∧
        ∀ c p tx x, w.stage = .ready c (.reply p (tx ++ [x])) → w.via.ddrb = 0x00 → a = x
  | .untilCb1, w, _, w' => w' = w ∧ w.via.cb1 = true

/-- The world of the ROM. -/
def bbcRely : Rely BbcOp BbcOp.Ans BbcWorld where
  env _ := BbcEnv
  safe o w := bbcSafe w o
  act := bbcAct

end Udfs.Link
