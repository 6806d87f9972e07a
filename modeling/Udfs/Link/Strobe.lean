import Udfs.Link.System

/-!
# The start strobe

A message begins with a pulse on the flag line, which a message that was broken off makes the AVR
give up; only then does the flag fall with a byte on the bus.  An AVR that waits for a first byte
finds the flag low in both cases and tells them apart by a second look after its acknowledge.
Here the two programs take their steps in any order: nothing is known about how long anything
takes.
-/

namespace Udfs.Link

/-! ## The start of a message -/

/-- `send_msg` up to the acknowledge of the first byte; what it has saved of the VIA. -/
def sendStart (c : Call) : Bbc (Byte × Byte) := do
  let pcr ← via .getPcr
  let acr ← via .getAcr
  via (.setAcr 0x00)
  via (.setDdrb 0x00)
  via (.setPcr 0xc0)
  via (.setPcr 0xe0)
  via (.setPcr 0x80)
  via (.setDdrb 0xff)
  sendByte (c.block.base 0)
  pure (pcr, acr)

/-- `send_msg` after it. -/
def sendRest (c : Call) (pcr acr : Byte) : Bbc Call := do
  let b := c.block
  loopY (fun y _ => sendByte (b.base y)) 6 255 1 ()
  pagesAndRest (fun ptr _ => sendByte (c.mem ptr)) b.sendLo b.sendHi b.sendAddr ()
  via (.setDdrb 0x00)
  sendByte (hiByte b.recvAddr)
  sendByte 0x10
  let status ← via .getDrb
  sendByte 0x10
  let lo ← via .getDrb
  sendByte 0x10
  let hi ← via .getDrb
  let (mem, a) ← pagesAndRest recvTo lo hi b.recvAddr (c.mem, 0x10)
  sendByte a
  via (.setAcr acr)
  via (.setPcr pcr)
  pure ⟨b.received status lo hi, mem⟩

lemma sendMsg_eq (c : Call) : sendMsg c = sendStart c >>= fun (pcr, acr) => sendRest c pcr acr := by
  rfl

/-! ## The two programs -/

/-- The BBC at the start of a message, the AVR waiting for its first byte, and the registers. -/
structure Meeting where
  via : Via
  ports : Ports
  bbc : Bbc (Byte × Byte)
  avr : Avr Vars

namespace Meeting

/-- The registers as those of a link in which neither program holds up the other. -/
def regs (m : Meeting) : Sys :=
  { Sys.initial ⟨0, 0, 0, 0, 0, .getChannel⟩ ⟨⟨0, 0, 0, 0, 0, 0, 0, 0⟩, fun _ => 0⟩ with
    via := m.via
    ports := m.ports }

/-- An operation of the BBC; `v` is what floating lines give. -/
def stepBbc (m : Meeting) (v : Byte) : Option Meeting :=
  match m.bbc with
  | .ret _ => none
  | .op o k => (m.regs.execBbc v o).map fun (a, s) =>
      { m with via := s.via, ports := s.ports, bbc := k a }

/-- An operation of the AVR, which goes on calling `doMessaging` until it has taken a byte. -/
def stepAvr (m : Meeting) (v : Byte) : Option Meeting :=
  let t := match m.avr with
    | .ret x => if x.state = MsgState.getChannel then doMessaging x else .ret x
    | t => t
  match t with
  | .ret _ => none
  | .op o k =>
      match m.regs.execAvr v o with
      | .done a s => some { m with via := s.via, ports := s.ports, avr := k a }
      | _ => none

/-- The BBC is about to take the flag up. -/
def Raises (m : Meeting) : Prop :=
  match m.bbc with
  | .op (.setPcr b) _ => m.via.cb2 = false ∧ cb2Level b = true
  | _ => False

/-- The AVR is about to read port D. -/
def Reads (m : Meeting) : Prop :=
  match m.avr with
  | .op .pind _ => True
  | _ => False

/-- The AVR has read port D and is to look at the flag again. -/
def HasRead (m : Meeting) : Prop :=
  match m.avr with
  | .op (.portc b) _ => b = 0x00
  | .op .flagAfterDelay _ => True
  | _ => False

/-- A step of either program. -/
inductive Step : Meeting → Meeting → Prop where
  | bbc {m m' : Meeting} (v : Byte) (h : m.stepBbc v = some m') : Step m m'
  | avr {m m' : Meeting} (v : Byte) (h : m.stepAvr v = some m') : Step m m'

/-- A step of either program that does not let the strobe pass for a byte: port D is read with the
flag low, and the BBC does not take the flag up between that and the second look at it. -/
inductive ClearStep : Meeting → Meeting → Prop where
  | bbc {m m' : Meeting} (v : Byte) (h : m.stepBbc v = some m') (hc : m.Raises → ¬ m.HasRead) :
      ClearStep m m'
  | avr {m m' : Meeting} (v : Byte) (h : m.stepAvr v = some m') (hc : m.Reads → m.via.cb2 = false) :
      ClearStep m m'

lemma ClearStep.step {m m' : Meeting} (h : ClearStep m m') : Step m m' := by
  cases h with
  | bbc v h _ => exact .bbc v h
  | avr v h _ => exact .avr v h

/-- The BBC begins the message, the flag is high, and the AVR waits for a first byte. -/
structure Starts (c : Call) (m : Meeting) : Prop where
  flag : m.via.cb2 = true
  ports : m.ports.ddrd = 0x00 ∧ m.ports.portc = 0x10
  bbc : m.bbc = sendStart c
  avr : ∃ x : Vars, x.state = .getChannel ∧ m.avr = .ret x

/-- What the AVR keeps as the channel is the channel of the message. -/
def KeepsChannel (c : Call) (m : Meeting) : Prop :=
  ∀ x : Vars, m.avr = .ret x → x.state ≠ .getChannel → x.channel = c.block.channel

end Meeting

/-! ## The operations of the BBC -/

lemma Sys.putDrb_bus (s : Sys) (b : Byte) : (s.putDrb b).ports = s.ports ∧
    (s.putDrb b).via = { s.via with
      orb := b, cb1 := false, cb2 := if isHandshake s.via.pcr then false else s.via.cb2 } := by
  simp only [Sys.putDrb]
  split_ifs <;> exact ⟨rfl, rfl⟩

section Operations

variable {m : Meeting} {v : Byte}

lemma Meeting.stepBbc_setPcr {b : Byte} {k : Unit → Bbc (Byte × Byte)}
    (h : m.bbc = .op (.setPcr b) k) :
    m.stepBbc v = some { m with via := { m.via with pcr := b, cb2 := cb2Level b }, bbc := k () } := by
  have hfree : ¬ (m.via.cb2 = false ∧ cb2Level b = true ∧ strobeMayEnd m.regs.avr = false) := by
    rintro ⟨-, -, hmay⟩
    cases hmay
  have hexec : m.regs.execBbc v (.setPcr b)
      = some ((), { m.regs with via := { m.via with pcr := b, cb2 := cb2Level b } }) := if_neg hfree
  rw [Meeting.stepBbc, h]
  simp only [hexec]
  rfl

lemma Meeting.stepBbc_putDrb {b : Byte} {k : Unit → Bbc (Byte × Byte)}
    (h : m.bbc = .op (.putDrb b) k) :
    m.stepBbc v = some { m with
      via := { m.via with
        orb := b, cb1 := false, cb2 := if isHandshake m.via.pcr then false else m.via.cb2 }
      bbc := k () } := by
  obtain ⟨hports, hvia⟩ := m.regs.putDrb_bus b
  have hexec : m.regs.execBbc v (.putDrb b) = some ((), m.regs.putDrb b) := rfl
  rw [Meeting.stepBbc, h]
  simp only [hexec, Option.map_some, hports, hvia]
  rfl

lemma Meeting.stepBbc_untilCb1 {k : Unit → Bbc (Byte × Byte)} (h : m.bbc = .op .untilCb1 k) :
    m.stepBbc v = if m.via.cb1 then some { m with bbc := k () } else none := by
  have hexec : m.regs.execBbc v .untilCb1 = if m.via.cb1 then some ((), m.regs) else none := rfl
  rw [Meeting.stepBbc, h]
  simp only [hexec]
  split_ifs <;> rfl

/-- The falling edge of the acknowledge is one on CB1; in handshake mode it takes the flag up. -/
lemma Meeting.stepAvr_lower {k : Unit → Avr Vars} (h : m.avr = .op (.portc 0x00) k)
    (hp : m.ports.portc = 0x10) : m.stepAvr v = some { m with
      ports := { m.ports with portc := 0x00 }
      via := { m.via with cb1 := true, cb2 := isHandshake m.via.pcr || m.via.cb2 }
      avr := k () } := by
  have hfalls : m.ports.portc &&& 0x10 ≠ 0 ∧ (0x00 : Byte) &&& 0x10 = 0 := by
    rw [hp]
    decide
  have hvia : (m.regs.portc 0x00).via = { m.via with
      cb1 := true, cb2 := isHandshake m.via.pcr || m.via.cb2 } := if_pos hfalls
  have hexec : m.regs.execAvr v (.portc 0x00) = .done () (m.regs.portc 0x00) := rfl
  rw [Meeting.stepAvr, h]
  simp only [hexec, hvia]
  rfl

lemma Meeting.stepAvr_lift {k : Unit → Avr Vars} (h : m.avr = .op (.portc 0x10) k) :
    m.stepAvr v = some { m with ports := { m.ports with portc := 0x10 }, avr := k () } := by
  have hstays : ¬ (m.ports.portc &&& 0x10 ≠ 0 ∧ (0x10 : Byte) &&& 0x10 = 0) := by
    rintro ⟨-, h⟩
    exact absurd h (by decide)
  have hvia : (m.regs.portc 0x10).via = m.via := if_neg hstays
  have hexec : m.regs.execAvr v (.portc 0x10) = .done () (m.regs.portc 0x10) := rfl
  rw [Meeting.stepAvr, h]
  simp only [hexec, hvia]
  rfl

lemma Meeting.stepAvr_untilFlagHigh {k : Unit → Avr Vars} (h : m.avr = .op .untilFlagHigh k) :
    m.stepAvr v = if m.via.cb2 then some { m with avr := k () } else none := by
  have hexec : m.regs.execAvr v .untilFlagHigh = if m.via.cb2 then .done () m.regs else .blocked :=
    rfl
  rw [Meeting.stepAvr, h]
  simp only [hexec]
  split_ifs <;> rfl

end Operations

/-! ## Where the BBC is -/

/-- The strobe has not begun, is on, is over, the first byte is on the bus, and the AVR has taken
it. -/
inductive Phase where
  | quiet
  | low
  | raised
  | offered
  | taken

section Tails

variable (c : Call) (p : Byte × Byte)

/-- What is left of `sendStart` when the first byte is to be put on the bus. -/
def offer : Bbc (Byte × Byte) := do
  sendByte (c.block.base 0)
  pure p

def turnOut : Bbc (Byte × Byte) := do
  via (.setDdrb 0xff)
  offer c p

def shake : Bbc (Byte × Byte) := do
  via (.setPcr 0x80)
  turnOut c p

/-- What is left when the strobe is to end. -/
def rise : Bbc (Byte × Byte) := do
  via (.setPcr 0xe0)
  shake c p

/-- What is left when it is to begin. -/
def fall : Bbc (Byte × Byte) := do
  via (.setPcr 0xc0)
  rise c p

end Tails

/-- How the VIA and the rest of the BBC's program go with the phase. -/
inductive BbcAt (c : Call) : Phase → Via → Bbc (Byte × Byte) → Prop where
  | getPcr {w : Via} (h : w.cb2 = true) : BbcAt c .quiet w (sendStart c)
  | getAcr {w : Via} {b : Byte} (h : w.cb2 = true) : BbcAt c .quiet w (do
      let acr ← via .getAcr
      via (.setAcr 0x00)
      via (.setDdrb 0x00)
      fall c (b, acr))
  | setAcr {w : Via} {p : Byte × Byte} (h : w.cb2 = true) : BbcAt c .quiet w (do
      via (.setAcr 0x00)
      via (.setDdrb 0x00)
      fall c p)
  | setDdrb {w : Via} {p : Byte × Byte} (h : w.cb2 = true) : BbcAt c .quiet w (do
      via (.setDdrb 0x00)
      fall c p)
  | fall {w : Via} {p : Byte × Byte} (h : w.cb2 = true) : BbcAt c .quiet w (fall c p)
  | rise {w : Via} {p : Byte × Byte} (h : w.cb2 = false) (hp : w.pcr = 0xc0) :
      BbcAt c .low w (rise c p)
  | shake {w : Via} {p : Byte × Byte} (h : w.cb2 = true) : BbcAt c .raised w (shake c p)
  | turnOut {w : Via} {p : Byte × Byte} (h : w.cb2 = true) (hp : w.pcr = 0x80) :
      BbcAt c .raised w (turnOut c p)
  | offer {w : Via} {p : Byte × Byte} (h : w.cb2 = true) (hp : w.pcr = 0x80) (hd : w.ddrb = 0xff) :
      BbcAt c .raised w (offer c p)
  | waits {w : Via} {p : Byte × Byte} (h : w.cb2 = false) (hp : w.pcr = 0x80) (hd : w.ddrb = 0xff)
      (ho : w.orb = c.block.channel) (h1 : w.cb1 = false) : BbcAt c .offered w (do
      via .untilCb1
      pure p)
  | acked {w : Via} {p : Byte × Byte} (h : w.cb2 = true) : BbcAt c .taken w (do
      via .untilCb1
      pure p)
  | done {w : Via} {p : Byte × Byte} (h : w.cb2 = true) : BbcAt c .taken w (.ret p)

/-- The phases in which the flag is low. -/
lemma BbcAt.phase_of_low {c : Call} {ph : Phase} {w : Via} {t : Bbc (Byte × Byte)}
    (h : BbcAt c ph w t) (hlow : w.cb2 = false) :
    (ph = .low ∧ w.pcr = 0xc0) ∨
      (ph = .offered ∧ w.pcr = 0x80 ∧ w.ddrb = 0xff ∧ w.orb = c.block.channel) := by
  cases h with
  | rise h hp => exact Or.inl ⟨rfl, hp⟩
  | waits h hp hd ho h1 => exact Or.inr ⟨rfl, hp, hd, ho⟩
  | getPcr h | getAcr h | setAcr h | setDdrb h | fall h | shake h | turnOut h | offer h | acked h
  | done h => rw [h] at hlow; cases hlow

/-- An operation of the BBC leaves the phase, or goes on to the next one, but for the phases that
the AVR ends. -/
lemma BbcAt.step {c : Call} {ph : Phase} {m m' : Meeting} {v : Byte} (h : BbcAt c ph m.via m.bbc)
    (hs : m.stepBbc v = some m') :
    m'.ports = m.ports ∧ m'.avr = m.avr ∧ ∃ ph', BbcAt c ph' m'.via m'.bbc ∧
      (ph' = ph ∨ ph ≠ .offered ∧ ph ≠ .taken ∧ (ph = .low → m.Raises)) := by
  obtain ⟨w, ports, t, a⟩ := m
  simp only at h
  cases h with
  | getPcr h =>
      obtain rfl := Option.some.inj hs
      exact ⟨rfl, rfl, .quiet, .getAcr h, Or.inl rfl⟩
  | getAcr h =>
      obtain rfl := Option.some.inj hs
      exact ⟨rfl, rfl, .quiet, .setAcr h, Or.inl rfl⟩
  | setAcr h =>
      obtain rfl := Option.some.inj hs
      exact ⟨rfl, rfl, .quiet, .setDdrb h, Or.inl rfl⟩
  | setDdrb h =>
      obtain rfl := Option.some.inj hs
      exact ⟨rfl, rfl, .quiet, .fall h, Or.inl rfl⟩
  | fall h =>
      rw [Meeting.stepBbc_setPcr rfl] at hs
      obtain rfl := Option.some.inj hs
      exact ⟨rfl, rfl, .low, .rise rfl rfl, Or.inr ⟨nofun, nofun, nofun⟩⟩
  | rise h hp =>
      rw [Meeting.stepBbc_setPcr rfl] at hs
      obtain rfl := Option.some.inj hs
      exact ⟨rfl, rfl, .raised, .shake rfl, Or.inr ⟨nofun, nofun, fun _ => ⟨h, rfl⟩⟩⟩
  | shake h =>
      rw [Meeting.stepBbc_setPcr rfl] at hs
      obtain rfl := Option.some.inj hs
      exact ⟨rfl, rfl, .raised, .turnOut rfl rfl, Or.inl rfl⟩
  | turnOut h hp =>
      obtain rfl := Option.some.inj hs
      exact ⟨rfl, rfl, .raised, .offer h hp rfl, Or.inl rfl⟩
  | offer h hp hd =>
      rw [Meeting.stepBbc_putDrb rfl] at hs
      obtain rfl := Option.some.inj hs
      have hshake : isHandshake w.pcr = true := by rw [hp]; rfl
      exact ⟨rfl, rfl, .offered, .waits (if_pos hshake) hp hd rfl rfl,
        Or.inr ⟨nofun, nofun, nofun⟩⟩
  | waits h hp hd ho h1 =>
      rw [Meeting.stepBbc_untilCb1 rfl, if_neg (by rw [h1]; exact Bool.false_ne_true)] at hs
      cases hs
  | acked h =>
      rw [Meeting.stepBbc_untilCb1 rfl] at hs
      split_ifs at hs
      obtain rfl := Option.some.inj hs
      exact ⟨rfl, rfl, .taken, .done h, Or.inl rfl⟩
  | done h => cases hs

/-! ## Where the AVR is -/

section Tails

variable (x : Vars)

/-- What is left of `ackByte` when the flag has stayed low. -/
def giveUp : Avr Vars := do
  avr (.ddrd 0x00)
  avr .untilFlagHigh
  avr (.portc 0x10)
  pure { x with state := .getChannel }

/-- What is left of `ackByte` when the flag has gone high. -/
def keep : Avr Vars := do
  avr (.portc 0x10)
  pure x

/-- What is left of `ackByte` at the second look at the flag. -/
def lookAgain : Avr Vars := do
  if ← avr .flagAfterDelay then keep x else giveUp x

/-- What is left of `doMessaging` when the flag has been found low. -/
def readChannel : Avr Vars := do
  let ch ← avr .pind
  ackByte { x with channel := ch, state := .getCommand }

end Tails

/-- How the ports and the rest of the AVR's program go with the phase. -/
inductive AvrAt (c : Call) : Phase → Ports → Avr Vars → Prop where
  | idle {ph : Phase} {d : Byte} {x : Vars} (h : x.state = .getChannel) :
      AvrAt c ph ⟨0x00, d, 0x10⟩ (.ret x)
  | reads {ph : Phase} {d : Byte} {x : Vars} : AvrAt c ph ⟨0x00, d, 0x10⟩ (readChannel x)
  -- what has been read is no byte if the strobe is still on
  | acks {ph : Phase} {d : Byte} {x : Vars} (hx : x.state = .getCommand)
      (h : ph = .low ∨ ph = .offered ∧ x.channel = c.block.channel) :
      AvrAt c ph ⟨0x00, d, 0x10⟩ (ackByte x)
  | looks {ph : Phase} {d : Byte} {x : Vars} (hx : x.state = .getCommand)
      (h : ph = .low ∨ ph = .taken ∧ x.channel = c.block.channel) :
      AvrAt c ph ⟨0x00, d, 0x00⟩ (lookAgain x)
  | keeps {ph : Phase} {d : Byte} {x : Vars} (hx : x.state = .getCommand)
      (h : x.channel = c.block.channel) : AvrAt c ph ⟨0x00, d, 0x00⟩ (keep x)
  | kept {ph : Phase} {r : Ports} {x : Vars} (hx : x.state = .getCommand)
      (h : x.channel = c.block.channel) : AvrAt c ph r (.ret x)
  | givesUp {ph : Phase} {d : Byte} {x : Vars} : AvrAt c ph ⟨0x00, d, 0x00⟩ (giveUp x)
  | awaits {ph : Phase} {d : Byte} {x : Vars} : AvrAt c ph ⟨0x00, d, 0x00⟩ (do
      avr .untilFlagHigh
      avr (.portc 0x10)
      pure { x with state := .getChannel })
  | resumes {ph : Phase} {d : Byte} {x : Vars} : AvrAt c ph ⟨0x00, d, 0x00⟩ (do
      avr (.portc 0x10)
      pure { x with state := .getChannel })

/-- An operation of the AVR ends the phase in which the first byte is on the bus, and no other. -/
lemma AvrAt.step {c : Call} {ph : Phase} {m m' : Meeting} {v : Byte} (hb : BbcAt c ph m.via m.bbc)
    (h : AvrAt c ph m.ports m.avr) (hs : m.stepAvr v = some m') (hc : m.Reads → m.via.cb2 = false) :
    ∃ ph', BbcAt c ph' m'.via m'.bbc ∧ AvrAt c ph' m'.ports m'.avr := by
  obtain ⟨w, ports, t, a⟩ := m
  simp only at hb h
  cases h with
  | @idle d x h =>
      rw [Meeting.stepAvr] at hs
      simp only [if_pos h] at hs
      obtain rfl := Option.some.inj hs
      refine ⟨ph, hb, ?_⟩
      have hread : doState x = readChannel x := by
        rw [doState, h]
        rfl
      show AvrAt c ph ⟨0x00, d, 0x10⟩ (if w.cb2 then .ret x else doState x)
      split_ifs
      · exact .idle h
      · rw [hread]
        exact .reads
  | @reads d x =>
      obtain rfl := Option.some.inj hs
      refine ⟨ph, hb, .acks rfl ?_⟩
      obtain ⟨hph, -⟩ | ⟨hph, -, hd, ho⟩ := hb.phase_of_low (hc trivial)
      · exact Or.inl hph
      · have hbus : busAtAvr w ⟨0x00, d, 0x10⟩ v = w.orb := by
          rw [busAtAvr, if_pos hd]
          rfl
        exact Or.inr ⟨hph, hbus.trans ho⟩
  | acks hx h =>
      rw [Meeting.stepAvr_lower rfl rfl] at hs
      obtain rfl := Option.some.inj hs
      obtain rfl | ⟨rfl, hch⟩ := h
      · -- the edge finds CB2 driven low, and leaves it so
        refine ⟨.low, ?_, .looks hx (Or.inl rfl)⟩
        cases hb with
        | rise h hp =>
            refine .rise ?_ hp
            show (isHandshake w.pcr || w.cb2) = false
            rw [hp, h]
            rfl
      · refine ⟨.taken, ?_, .looks hx (Or.inr ⟨rfl, hch⟩)⟩
        cases hb with
        | waits h hp hd ho h1 =>
            refine .acked ?_
            show (isHandshake w.pcr || w.cb2) = true
            rw [hp]
            rfl
  | @looks d x hx h =>
      obtain rfl := Option.some.inj hs
      refine ⟨ph, hb, ?_⟩
      show AvrAt c ph ⟨0x00, d, 0x00⟩ (if w.cb2 then keep x else giveUp x)
      split_ifs with hflag
      · obtain rfl | ⟨-, hch⟩ := h
        · cases hb with
          | rise h hp =>
              rw [h] at hflag
              cases hflag
        · exact .keeps hx hch
      · exact .givesUp
  | keeps hx h =>
      rw [Meeting.stepAvr_lift rfl] at hs
      obtain rfl := Option.some.inj hs
      exact ⟨ph, hb, .kept hx h⟩
  | @kept r x hx h =>
      have hne : x.state ≠ .getChannel := by
        rw [hx]
        exact nofun
      rw [Meeting.stepAvr] at hs
      simp only [if_neg hne] at hs
      cases hs
  | givesUp =>
      obtain rfl := Option.some.inj hs
      exact ⟨ph, hb, .awaits⟩
  | awaits =>
      rw [Meeting.stepAvr_untilFlagHigh rfl] at hs
      split_ifs at hs
      obtain rfl := Option.some.inj hs
      exact ⟨ph, hb, .resumes⟩
  | resumes =>
      rw [Meeting.stepAvr_lift rfl] at hs
      obtain rfl := Option.some.inj hs
      exact ⟨ph, hb, .idle rfl⟩

/-! ## Every run -/

/-- An operation of the BBC does not end a phase in which the AVR relies on it. -/
lemma AvrAt.of_phase {c : Call} {ph ph' : Phase} {m : Meeting} (h : AvrAt c ph m.ports m.avr)
    (hph : ph' = ph ∨ ph ≠ .offered ∧ ph ≠ .taken ∧ (ph = .low → m.Raises))
    (hc : m.Raises → ¬ m.HasRead) : AvrAt c ph' m.ports m.avr := by
  obtain rfl | ⟨hoff, htaken, hlow⟩ := hph
  · exact h
  obtain ⟨w, ports, t, a⟩ := m
  simp only at h ⊢
  cases h with
  | idle h => exact .idle h
  | reads => exact .reads
  | acks hx h =>
      obtain h | ⟨h, -⟩ := h
      · exact absurd rfl (hc (hlow h))
      · exact absurd h hoff
  | looks hx h =>
      obtain h | ⟨h, -⟩ := h
      · exact absurd trivial (hc (hlow h))
      · exact absurd h htaken
  | keeps hx h => exact .keeps hx h
  | kept hx h => exact .kept hx h
  | givesUp => exact .givesUp
  | awaits => exact .awaits
  | resumes => exact .resumes

namespace Meeting

/-- Both programs are where the phase says. -/
def Inv (c : Call) (m : Meeting) : Prop := ∃ ph, BbcAt c ph m.via m.bbc ∧ AvrAt c ph m.ports m.avr

lemma Starts.inv {c : Call} {m : Meeting} (h : Starts c m) : Inv c m := by
  obtain ⟨hflag, ⟨hd, hp⟩, hbbc, x, hx, havr⟩ := h
  obtain ⟨w, ⟨d, o, p⟩, t, a⟩ := m
  subst hbbc havr hd hp
  exact ⟨.quiet, .getPcr hflag, .idle hx⟩

lemma ClearStep.inv {c : Call} {m m' : Meeting} (hs : ClearStep m m') (h : Inv c m) : Inv c m' := by
  obtain ⟨ph, hb, ha⟩ := h
  cases hs with
  | bbc v hs hc =>
      obtain ⟨hports, havr, ph', hb', hph⟩ := hb.step hs
      refine ⟨ph', hb', ?_⟩
      rw [hports, havr]
      exact ha.of_phase hph hc
  | avr v hs hc => exact ha.step hb hs hc

/-- **The start strobe is not taken for a byte.**  From every start of a message with the AVR
waiting for its first byte, in every order of the operations of the two programs in which port D is
read with the flag low and the BBC does not take the flag up between that and the second look at it,
what the AVR keeps as the channel is the channel that the BBC sends. -/
theorem strobe_not_kept {c : Call} {m : Meeting} (h : Reachable (Starts c) ClearStep m) :
    KeepsChannel c m := by
  have hinv : Inv c m := h.invariant (fun _ => Starts.inv) fun _ _ hi hs => hs.inv hi
  obtain ⟨ph, -, ha⟩ := hinv
  obtain ⟨w, ports, t, a⟩ := m
  rintro x rfl hx
  simp only at ha
  cases ha with
  | idle h => exact absurd h hx
  | kept hx h => exact h

/-- A message on channel `$55`. -/
def onChannel : Call := ⟨⟨0x55, 0, 0, 0, 0, 0, 0, 0⟩, fun _ => 0⟩

/-- The AVR waits for a first byte. -/
def waiting : Vars := ⟨0, 0, 0, 0, 0, .getChannel⟩

/-- The AVR has kept the first byte. -/
def onByte : Vars := { waiting with channel := 0x55, state := .getCommand }

/-- The AVR has kept what it has read off lines that nobody drives. -/
def onNothing : Vars := { waiting with channel := 0, state := .getCommand }

/-- The registers after both sides have been switched on. -/
def atRest : Meeting := ⟨.reset, ⟨0x00, 0x00, 0x10⟩, sendStart onChannel, .ret waiting⟩

/-- The strobe has begun. -/
def strobing : Meeting :=
  ⟨⟨0x00, 0xc0, 0x00, 0x00, false, false⟩, ⟨0x00, 0x00, 0x10⟩, rise onChannel (0, 0), .ret waiting⟩

lemma strobing_reachable {R : Meeting → Meeting → Prop}
    (hR : ∀ m m', m.stepBbc 0 = some m' → ¬ m.HasRead → R m m') :
    Reachable (Starts onChannel) R strobing := by
  have h0 : Reachable (Starts onChannel) R atRest := .start ⟨rfl, ⟨rfl, rfl⟩, rfl, waiting, rfl, rfl⟩
  have h4 := (((h0.next (hR _ _ rfl id)).next (hR _ _ rfl id)).next (hR _ _ rfl id)).next
    (hR _ { atRest with bbc := fall onChannel (0, 0) } rfl id)
  exact h4.next (hR _ _ (stepBbc_setPcr (k := fun _ => rise onChannel (0, 0)) rfl) id)

/-- The first byte is on the bus. -/
def offering : Meeting :=
  ⟨⟨0xff, 0x80, 0x00, 0x55, false, false⟩, ⟨0x00, 0x00, 0x10⟩,
    (do Link.via .untilCb1; pure (0, 0)), .ret waiting⟩

section Orders

variable {init : Meeting → Prop}

/-- After the strobe the BBC puts the first byte on the bus, whether or not CB1 has seen an edge. -/
lemma offering_of_raised {b : Bool} (h : Reachable init ClearStep { strobing with
    via := ⟨0x00, 0xe0, 0x00, 0x00, b, true⟩, bbc := shake onChannel (0, 0) }) :
    Reachable init ClearStep offering := by
  have h1 : Reachable init ClearStep
      { strobing with via := ⟨0x00, 0x80, 0x00, 0x00, b, true⟩, bbc := turnOut onChannel (0, 0) } :=
    h.next (.bbc 0 (stepBbc_setPcr (k := fun _ => turnOut onChannel (0, 0)) rfl) fun _ => id)
  have h2 : Reachable init ClearStep
      { strobing with via := ⟨0xff, 0x80, 0x00, 0x00, b, true⟩, bbc := offer onChannel (0, 0) } :=
    h1.next (.bbc 0 rfl fun _ => id)
  have hput : Meeting.stepBbc
      { strobing with via := ⟨0xff, 0x80, 0x00, 0x00, b, true⟩, bbc := offer onChannel (0, 0) } 0
        = some offering :=
    (stepBbc_putDrb (k := fun _ => do Link.via .untilCb1; pure (0, 0)) rfl).trans (by cases b <;> rfl)
  exact h2.next (.bbc 0 hput fun _ => id)

/-- The AVR has acknowledged the first byte. -/
def taken : Meeting :=
  { offering with via := ⟨0xff, 0x80, 0x00, 0x55, true, true⟩, avr := .ret onByte }

/-- The first byte is taken when it is on the bus. -/
lemma taken_of_offering (h : Reachable init ClearStep offering) : Reachable init ClearStep taken := by
  have h1 : Reachable init ClearStep { offering with avr := readChannel waiting } :=
    h.next (.avr 0 rfl nofun)
  have h2 : Reachable init ClearStep { offering with avr := ackByte onByte } :=
    h1.next (.avr 0 rfl fun _ => rfl)
  have h3 : Reachable init ClearStep
      { taken with ports := ⟨0x00, 0x00, 0x00⟩, avr := lookAgain onByte } :=
    h2.next (.avr 0 (stepAvr_lower (k := fun _ => lookAgain onByte) rfl rfl) nofun)
  have h4 : Reachable init ClearStep { taken with ports := ⟨0x00, 0x00, 0x00⟩, avr := keep onByte } :=
    h3.next (.avr 0 rfl nofun)
  exact h4.next (.avr 0 (stepAvr_lift (k := fun _ => .ret onByte) rfl) nofun)

end Orders

/-- The AVR has read port D during the strobe, found the flag still low and given the byte up. -/
def givenUp : Meeting :=
  { strobing with
    via := ⟨0x00, 0xc0, 0x00, 0x00, true, false⟩
    ports := ⟨0x00, 0x00, 0x00⟩
    avr := giveUp onNothing }

lemma givenUp_reachable : Reachable (Starts onChannel) ClearStep givenUp := by
  have h0 : Reachable (Starts onChannel) ClearStep strobing :=
    strobing_reachable fun m m' h hc => .bbc 0 h fun _ => hc
  have h1 : Reachable (Starts onChannel) ClearStep { strobing with avr := readChannel waiting } :=
    h0.next (.avr 0 rfl nofun)
  have h2 : Reachable (Starts onChannel) ClearStep { strobing with avr := ackByte onNothing } :=
    h1.next (.avr 0 rfl fun _ => rfl)
  have h3 : Reachable (Starts onChannel) ClearStep { givenUp with avr := lookAgain onNothing } :=
    h2.next (.avr 0 (stepAvr_lower (k := fun _ => lookAgain onNothing) rfl rfl) nofun)
  exact h3.next (.avr 0 rfl nofun)

/-- When the strobe ends, the AVR waits for a first byte again. -/
lemma offering_of_givenUp {init : Meeting → Prop} (h : Reachable init ClearStep givenUp) :
    Reachable init ClearStep offering := by
  have h1 : Reachable init ClearStep { givenUp with avr := (do
      Link.avr .untilFlagHigh
      Link.avr (.portc 0x10)
      pure waiting) } :=
    h.next (.avr 0 rfl nofun)
  have h2 : Reachable init ClearStep { givenUp with
      via := ⟨0x00, 0xe0, 0x00, 0x00, true, true⟩
      bbc := shake onChannel (0, 0)
      avr := (do
        Link.avr .untilFlagHigh
        Link.avr (.portc 0x10)
        pure waiting) } :=
    h1.next (.bbc 0 (stepBbc_setPcr (k := fun _ => shake onChannel (0, 0)) rfl) fun _ => id)
  have h3 : Reachable init ClearStep { givenUp with
      via := ⟨0x00, 0xe0, 0x00, 0x00, true, true⟩
      bbc := shake onChannel (0, 0)
      avr := (do
        Link.avr (.portc 0x10)
        pure waiting) } :=
    h2.next (.avr 0 ((stepAvr_untilFlagHigh rfl).trans (if_pos rfl)) nofun)
  exact offering_of_raised
    (h3.next (.avr 0 (stepAvr_lift (k := fun _ => .ret waiting) rfl) nofun))

/-- The first byte is taken by an AVR that comes after the strobe, and by one that has seen the strobe
and found it to be a reset. -/
theorem strobe_not_kept_late :
    (Reachable (Starts onChannel) ClearStep taken ∧ Reachable (Starts onChannel) ClearStep givenUp ∧
        Reachable (· = givenUp) ClearStep taken) ∧
      taken.avr = .ret onByte ∧ KeepsChannel onChannel taken := by
  have h0 : Reachable (Starts onChannel) ClearStep strobing :=
    strobing_reachable fun m m' h hc => .bbc 0 h fun _ => hc
  have hlate : Reachable (Starts onChannel) ClearStep taken :=
    taken_of_offering (offering_of_raised (b := false)
      (h0.next (.bbc 0 (stepBbc_setPcr (k := fun _ => shake onChannel (0, 0)) rfl) fun _ => id)))
  exact ⟨⟨hlate, givenUp_reachable, taken_of_offering (offering_of_givenUp (.start rfl))⟩, rfl,
    strobe_not_kept hlate⟩

/-- The strobe begins, the AVR finds the flag low and reads port D, the strobe ends, and the AVR
finds the flag high: it keeps what it has read off lines that nobody drives. -/
theorem strobe_kept : ¬ ∀ m, Reachable (Starts onChannel) Step m → KeepsChannel onChannel m := by
  intro h
  have h0 : Reachable (Starts onChannel) Step strobing :=
    strobing_reachable fun m m' h _ => .bbc 0 h
  have h1 : Reachable (Starts onChannel) Step { strobing with avr := readChannel waiting } :=
    h0.next (.avr 0 rfl)
  have h2 : Reachable (Starts onChannel) Step { strobing with avr := ackByte onNothing } :=
    h1.next (.avr 0 rfl)
  have h3 : Reachable (Starts onChannel) Step { strobing with
      via := ⟨0x00, 0xe0, 0x00, 0x00, false, true⟩
      bbc := shake onChannel (0, 0)
      avr := ackByte onNothing } :=
    h2.next (.bbc 0 (stepBbc_setPcr (k := fun _ => shake onChannel (0, 0)) rfl))
  have h4 : Reachable (Starts onChannel) Step { strobing with
      via := ⟨0x00, 0xe0, 0x00, 0x00, true, true⟩
      ports := ⟨0x00, 0x00, 0x00⟩
      bbc := shake onChannel (0, 0)
      avr := lookAgain onNothing } :=
    h3.next (.avr 0 (stepAvr_lower (k := fun _ => lookAgain onNothing) rfl rfl))
  have h5 : Reachable (Starts onChannel) Step { strobing with
      via := ⟨0x00, 0xe0, 0x00, 0x00, true, true⟩
      ports := ⟨0x00, 0x00, 0x00⟩
      bbc := shake onChannel (0, 0)
      avr := keep onNothing } :=
    h4.next (.avr 0 rfl)
  have h6 := h5.next (.avr 0 (stepAvr_lift (k := fun _ => .ret onNothing) rfl))
  exact absurd (h _ h6 onNothing rfl nofun) (by decide)

end Meeting

end Udfs.Link
