import Udfs.Link.Reply
import Udfs.Link.RomSide

/-!
# The two sides together

In every state of the link there is a stage of the protocol at which both programs are, with
what each may still expect and owes, and which agrees with the registers.  Every step of the
BBC is a step of the rest of the system for the firmware, and the other way round.
-/

namespace Udfs.Link

/-! ## The registers and the stage -/

/-- CB2 is low only while a strobe is driven. -/
def Strobing (v : Via) : Prop := v.cb2 = false → isHandshake v.pcr = false

/-- The bus while the byte of the slot is on offer. -/
def Slot.OnOffer (c : Call) (v : Via) (p : Ports) : Slot → Prop
  | recv q => v.ddrb = 0xff ∧ (∃ l, c.bytes = q ++ v.orb :: l) ∧ p.ddrd = 0x00
  | prep _ => v.ddrb ≠ 0xff ∧ p.ddrd = 0x00
  | reply _ _ => v.ddrb ≠ 0xff

/-- The bus before the byte of the slot is offered: the last byte of the reply is on it. -/
def Slot.InFront (v : Via) (p : Ports) : Slot → Prop
  | recv _ => p.ddrd = 0x00
  | prep _ => p.ddrd = 0x00
  | reply _ tx => v.ddrb ≠ 0xff ∧ ∀ tx' x, tx = tx' ++ [x] → p.ddrd = 0xff ∧ p.portd = x

/-- The registers agree with the stage. -/
def Coherent (v : Via) (p : Ports) : Stage → Prop
  | .down => v.ddrb ≠ 0xff ∧ Strobing v
  | .calm _ => v.ddrb ≠ 0xff ∧ Strobing v ∧ p.ddrd = 0x00
  | .caught => v.ddrb ≠ 0xff ∧ v.cb2 = false ∧ isHandshake v.pcr = false ∧ p.ddrd = 0x00
  | .ready _ sl => v.cb2 = true ∧ sl.InFront v p
  | .called c sl => v.cb2 = false ∧ v.pcr = 0x80 ∧ sl.OnOffer c v p
  | .serving c sl => v.cb2 = false ∧ v.pcr = 0x80 ∧ sl.OnOffer c v p

lemma Coherent.congr {v v' : Via} {p : Ports} {st : Stage} (h : Coherent v p st)
    (hddrb : v'.ddrb = v.ddrb) (horb : v'.orb = v.orb) (hpcr : v'.pcr = v.pcr)
    (hcb2 : v'.cb2 = v.cb2) : Coherent v' p st := by
  obtain ⟨d, q, a, o, b, c⟩ := v
  obtain ⟨d', q', a', o', b', c'⟩ := v'
  simp only at hddrb horb hpcr hcb2
  subst hddrb horb hpcr hcb2
  cases st with
  | ready c sl => cases sl <;> exact h
  | called c sl => cases sl <;> exact h
  | serving c sl => cases sl <;> exact h
  | _ => exact h

/-- At most one side drives the bus. -/
lemma Coherent.ddrd {v : Via} {p : Ports} {st : Stage} (h : Coherent v p st)
    (hd : v.ddrb = 0xff) : p.ddrd = 0x00 := by
  cases st with
  | down => exact absurd hd h.1
  | calm l => exact absurd hd h.1
  | caught => exact absurd hd h.1
  | ready c sl =>
      cases sl with
      | reply q tx => exact absurd hd h.2.1
      | _ => exact h.2
  | called c sl =>
      cases sl with
      | recv q => exact h.2.2.2.2
      | prep q => exact absurd hd h.2.2.1
      | reply q tx => exact absurd hd h.2.2
  | serving c sl =>
      cases sl with
      | recv q => exact h.2.2.2.2
      | prep q => exact absurd hd h.2.2.1
      | reply q tx => exact absurd hd h.2.2

/-! ## The invariant -/

/-- What the firmware sees. -/
def Sys.avrWorld (s : Sys) (st : Stage) : AvrWorld :=
  ⟨s.ports, st, s.arm, s.far, s.sent, s.mark, s.broken⟩

/-- What the ROM sees. -/
def Sys.bbcWorld (s : Sys) (st : Stage) : BbcWorld := ⟨s.via, st, s.call, s.wire⟩

/-- No call is running. -/
structure Quiet (w : BbcWorld) : Prop where
  stage : w.stage = .down ∨ ∃ l, w.stage = .calm l
  pcr : w.via.pcr = 0x00
  cb2 : w.via.cb2 = true
  ddrb : w.via.ddrb = 0x00

/-- What is left of the call keeps to the protocol. -/
def BbcState.Ok (w : BbcWorld) : BbcState → Prop
  | idle => Quiet w
  | running t => bbcRely.Ok Returned t w

/-- **The invariant of the link.** -/
structure Inv (strict : Prop) (s : Sys) (st : Stage) : Prop where
  coherent : Coherent s.via s.ports st
  bbc : s.bbc.Ok (s.bbcWorld st)
  avr : (avrRely strict).Ok (Between strict) s.avr (s.avrWorld st)

lemma Returned.quiet {r : Call} {w : BbcWorld} (h : Returned r w) : Quiet w := by
  obtain ⟨hpcr, hddrb, hcb2, -, tx, hst, -⟩ := h
  exact ⟨Or.inr ⟨_, hst⟩, hpcr, hcb2, hddrb⟩

lemma Quiet.env {w w' : BbcWorld} (h : Quiet w) (he : BbcEnv w w') :
    Quiet w' ∧ w'.stage = w.stage ∧ w'.call = w.call ∧ w'.wire = w.wire := by
  cases he with
  | pick hlow => rw [h.cb2] at hlow; cases hlow
  | ack x hs => rcases h.stage with hst | ⟨l, hst⟩ <;> rw [hs] at hst <;> cases hst
  | stray => exact ⟨⟨h.stage, h.pcr, by simp [h.cb2], h.ddrb⟩, rfl, rfl, rfl⟩

lemma BbcState.Ok.env {b : BbcState} {w w' : BbcWorld} (h : b.Ok w) (he : BbcEnv w w') : b.Ok w' := by
  cases b with
  | idle => exact (Quiet.env h he).1
  | running t =>
      cases t with
      | ret r =>
          obtain ⟨hq, hst, hcall, hwire⟩ := (Returned.quiet h).env he
          obtain ⟨-, -, -, hw, tx, hstage, hr⟩ := h
          refine ⟨hq.pcr, hq.ddrb, hq.cb2, ?_, tx, ?_, ?_⟩
          · rw [hwire, hcall, hw]
          · rw [hst, hcall, hstage]
          · rw [hcall]
            exact hr
      | op o k => exact Rely.Ok.env h he

variable {strict : Prop}

lemma AvrEnv.mono {a b c a' b' c' : Prop} {w w' : AvrWorld} (he : AvrEnv a b c w w') (ha : a → a')
    (hb : b → b') (hc : c → c') : AvrEnv a' b' c' w w' := by
  cases he with
  | call h hca hl => exact .call h (ha hca) hl
  | callLast h hca hl => exact .callLast h (ha hca) hl
  | brk => exact .brk
  | strobe h hs => exact .strobe h (hb hs)
  | host r h => exact .host r h
  | ack hs ho hk => exact .ack hs ho (hc hk)

/-- What the BBC and the host do leaves the firmware on its way. -/
lemma avrOk_env {t : Avr Vars} {w w' : AvrWorld}
    (h : (avrRely strict).Ok (Between strict) t w)
    (he : AvrEnv (testsFlag t = false) (strobeMayEnd t = true) False w w') :
    (avrRely strict).Ok (Between strict) t w' := by
  cases t with
  | ret x => exact Between.env h (he.mono id (by simp [strobeMayEnd]) id)
  | op o k =>
      refine Rely.Ok.env h (he.mono ?_ ?_ False.elim)
      · cases o <;> simp [testsFlag, mayCall]
      · cases o <;> simp [strobeMayEnd]

/-! ## Steps of the host, and the beginning and the end of a call -/

variable {s s' : Sys} {st : Stage}

lemma Inv.host {r : Server.Response} {f : Far} (h : Inv strict s st) (hs : s.far.step r = some f) :
    Inv strict { s with far := f } st :=
  ⟨h.coherent, h.bbc, avrOk_env h.avr (.host r hs)⟩

lemma Inv.brk (h : Inv strict s st) :
    Inv strict { s with via := .reset, bbc := .idle, broken := true } .down :=
  ⟨⟨(by decide : (0x00 : Byte) ≠ 0xff), fun h => by cases h⟩, ⟨Or.inl rfl, rfl, rfl, rfl⟩, avrOk_env h.avr .brk⟩

/-- No call is running, or the last one has returned. -/
def BbcState.Free : BbcState → Prop
  | idle => True
  | running (.ret _) => True
  | running (.op _ _) => False

lemma Inv.quiet (h : Inv strict s st) (hfree : s.bbc.Free) : Quiet (s.bbcWorld st) := by
  have hb := h.bbc
  cases hbbc : s.bbc with
  | idle => rw [hbbc] at hb; exact hb
  | running t =>
      rw [hbbc] at hb hfree
      cases t with
      | ret r => exact Returned.quiet hb
      | op o k => exact hfree.elim

lemma Inv.start {c : Call} (h : Inv strict s st) (hfree : s.bbc.Free) :
    Inv strict (s.start c) st := by
  have hq := h.quiet hfree
  have hbefore : BeforeStrobe c ((s.start c).bbcWorld st) :=
    ⟨hq.stage, rfl, rfl, hq.pcr, hq.cb2, hq.ddrb⟩
  exact ⟨h.coherent, ok_sendMsg hbefore, h.avr⟩

/-! ## Steps of the BBC -/

/-- An operation that changes neither the stage nor what the firmware sees. -/
lemma Inv.bbcStays {o : BbcOp} {k : o.Ans → Bbc Call} {a : o.Ans} (h : Inv strict s st)
    (hb : s.bbc = .running (.op o k)) {v : Via} (hcoh : Coherent v s.ports st)
    (hact : bbcAct o (s.bbcWorld st) a ⟨v, st, s.call, s.wire⟩) :
    Inv strict { s with via := v, bbc := .running (k a) } st := by
  have hok := h.bbc
  rw [hb] at hok
  exact ⟨hcoh, Rely.Ok.act hok hact, h.avr⟩

/-- The end of a strobe. -/
lemma Inv.strobe {b : Byte} {k : Unit → Bbc Call} (h : Inv strict s st)
    (hb : s.bbc = .running (.op (.setPcr b) k)) (hlow : s.via.cb2 = false)
    (hhigh : cb2Level b = true) (hmay : strobeMayEnd s.avr = true) :
    Inv strict { s with
      via := { s.via with pcr := b, cb2 := cb2Level b }, bbc := .running (k ()) }
      (.ready s.call (.recv [])) := by
  have hok := h.bbc
  rw [hb] at hok
  have hsafe : bbcSafe (s.bbcWorld st) (.setPcr b) := Rely.Ok.safe hok
  have hrest : st.Resting := by
    have hcoh := h.coherent
    cases st with
    | down => trivial
    | calm l => trivial
    | caught => trivial
    | ready c sl => have := hcoh.1; rw [hlow] at this; cases this
    | called c sl => exact hsafe.elim
    | serving c sl => exact hsafe.elim
  have havr := avrOk_env h.avr (.strobe (c := s.call) hrest hmay)
  have hddrd : s.ports.ddrd = 0x00 := by
    have ha := h.avr
    cases hx : s.avr with
    | ret x =>
        rw [hx] at ha hmay
        have hstate : x.state = .getChannel := by simpa [strobeMayEnd] using hmay
        have hd : s.ports.ddrd = dirOf x.state := ha.ddrd
        rw [hd, hstate]
        rfl
    | op o k =>
        rw [hx] at ha hmay
        cases o with
        | untilFlagHigh => exact (Rely.Ok.safe ha).1.1
        | _ => simp [strobeMayEnd] at hmay
  refine ⟨⟨hhigh, hddrd⟩, Rely.Ok.act hok ?_, havr⟩
  simp only [bbcRely, bbcAct, Sys.bbcWorld]
  rw [if_pos ⟨hlow, hhigh⟩]

/-- The VIA after a byte is offered. -/
def Via.offering (v : Via) (b : Byte) : Via := { v with orb := b, cb1 := false, cb2 := false }

/-- A byte of the message is offered. -/
lemma Inv.putDrb_recv {b : Byte} {k : Unit → Bbc Call} {c : Call} {p : List Byte}
    (h : Inv strict s (.ready c (.recv p))) (hb : s.bbc = .running (.op (.putDrb b) k))
    (htests : testsFlag s.avr = false) :
    Inv strict { s.putDrb b with bbc := .running (k ()) } (.called c (.recv p)) := by
  have hok := h.bbc
  rw [hb] at hok
  obtain ⟨hpcr, hddrb, rfl, rfl, l, hl⟩ : s.via.pcr = 0x80 ∧ s.via.ddrb = 0xff ∧ c = s.call ∧
      p = s.wire ∧ ∃ l, c.bytes = p ++ b :: l := Rely.Ok.safe hok
  have hhand : isHandshake s.via.pcr = true := by rw [hpcr]; rfl
  have hfull : s.wire ++ [b] = s.call.bytes ↔ s.wire.length + 1 = s.call.bytes.length := by
    rw [hl]
    constructor
    · intro heq
      simpa using congrArg List.length heq
    · intro heq
      have hnil : l = [] := by simpa using heq
      rw [hnil]
  have hcoh : Coherent (s.via.offering b) s.ports (.called s.call (.recv s.wire)) :=
    ⟨rfl, hpcr, hddrb, ⟨l, hl⟩, h.coherent.2⟩
  have hbbc : bbcRely.Ok Returned (k ())
      ⟨s.via.offering b, .called s.call (.recv s.wire), s.call, s.wire ++ [b]⟩ := by
    refine Rely.Ok.act (a := ()) hok fun c' sl' hst => ?_
    cases hst
    simp only [Sys.bbcWorld, Via.offering, hddrb, if_true]
  by_cases hlast : s.wire.length + 1 = s.call.bytes.length
  · have heq : { s.putDrb b with bbc := .running (k ()) } = { s with
        via := s.via.offering b, bbc := .running (k ()), wire := s.wire ++ [b],
        sent := s.sent ++ [s.call.bytes], mark := s.far.served.length } := by
      simp only [Sys.putDrb, Via.offering, hddrb, hhand, if_true, if_pos (hfull.2 hlast)]
      rw [hfull.2 hlast]
    rw [heq]
    exact ⟨hcoh, hbbc, avrOk_env h.avr (.callLast rfl htests hlast)⟩
  · have heq : { s.putDrb b with bbc := .running (k ()) } = { s with
        via := s.via.offering b, bbc := .running (k ()), wire := s.wire ++ [b] } := by
      simp only [Sys.putDrb, Via.offering, hddrb, hhand, if_true, if_neg (mt hfull.1 hlast)]
    rw [heq]
    refine ⟨hcoh, hbbc, avrOk_env h.avr (.call rfl htests fun p hp => ?_)⟩
    cases hp
    exact hlast

/-- A handshake of the reply is offered. -/
lemma Inv.putDrb_reply {b : Byte} {k : Unit → Bbc Call} {c : Call} {sl : Slot}
    (h : Inv strict s (.ready c sl)) (hb : s.bbc = .running (.op (.putDrb b) k))
    (htests : testsFlag s.avr = false) (hsl : ∀ p, sl ≠ .recv p) :
    Inv strict { s.putDrb b with bbc := .running (k ()) } (.called c sl) := by
  have hok := h.bbc
  rw [hb] at hok
  have hsafe : bbcSafe (s.bbcWorld (.ready c sl)) (.putDrb b) := Rely.Ok.safe hok
  obtain ⟨hpcr, hddrb⟩ := hsafe
  have hpcr : s.via.pcr = 0x80 := hpcr
  have hddrb : s.via.ddrb = 0x00 := by
    cases sl with
    | recv p => exact absurd rfl (hsl p)
    | prep p => exact hddrb
    | reply p tx => exact hddrb
  have hne : s.via.ddrb ≠ 0xff := by rw [hddrb]; decide
  have hhand : isHandshake s.via.pcr = true := by rw [hpcr]; rfl
  have heq : { s.putDrb b with bbc := .running (k ()) } = { s with
      via := s.via.offering b, bbc := .running (k ()) } := by
    simp only [Sys.putDrb, if_neg hne, hhand, if_true]
    rfl
  rw [heq]
  refine ⟨⟨rfl, hpcr, ?_⟩, ?_, avrOk_env h.avr (.call rfl htests fun p hp => absurd hp (hsl p))⟩
  · cases sl with
    | recv p => exact absurd rfl (hsl p)
    | prep p => exact ⟨hne, h.coherent.2⟩
    | reply p tx => exact hne
  · refine Rely.Ok.act (a := ()) hok fun c' sl' hst => ?_
    cases hst
    exact congrArg (BbcWorld.mk (s.via.offering b) (.called c sl) s.call) (if_neg hne).symm

/-- **What the BBC does keeps the invariant.** -/
lemma Inv.bbcOp {o : BbcOp} {k : o.Ans → Bbc Call} {v : Byte} {a : o.Ans} {t : Sys}
    (h : Inv strict s st) (hb : s.bbc = .running (.op o k)) (hs : s.execBbc v o = some (a, t)) :
    ∃ st', Inv strict { t with bbc := .running (k a) } st' ∧ (st' = .down → st = .down) := by
  have hok := h.bbc
  rw [hb] at hok
  cases o with
  | getPcr =>
      cases hs
      exact ⟨st, h.bbcStays hb h.coherent ⟨rfl, rfl⟩, id⟩
  | getAcr =>
      cases hs
      exact ⟨st, h.bbcStays hb h.coherent rfl, id⟩
  | setAcr b =>
      cases hs
      exact ⟨st, h.bbcStays hb (h.coherent.congr rfl rfl rfl rfl) rfl, id⟩
  | setPcr b =>
      simp only [Sys.execBbc] at hs
      split at hs
      · cases hs
      · next hmay =>
          cases hs
          by_cases hstrobe : s.via.cb2 = false ∧ cb2Level b = true
          · refine ⟨_, h.strobe hb hstrobe.1 hstrobe.2 ?_, by rintro ⟨⟩⟩
            by_contra hn
            exact hmay ⟨hstrobe.1, hstrobe.2, by simpa using hn⟩
          · have hsafe : bbcSafe (s.bbcWorld st) (.setPcr b) := Rely.Ok.safe hok
            have hcoh := h.coherent
            refine ⟨st, h.bbcStays hb ?_ ?_, id⟩
            · have hstrobing : Strobing { s.via with pcr := b, cb2 := cb2Level b } := by
                intro hlow
                simp only [cb2Level, decide_eq_false_iff_not, not_not] at hlow
                simp [isHandshake, hlow]
              cases st with
              | down => exact ⟨hcoh.1, hstrobing⟩
              | calm l => exact ⟨hcoh.1, hstrobing, hcoh.2.2⟩
              | caught =>
                  have hlow : cb2Level b = false := by
                    by_contra hn
                    exact hstrobe ⟨hcoh.2.1, by simpa using hn⟩
                  exact ⟨hcoh.1, hlow, hstrobing hlow, hcoh.2.2.2⟩
              | ready c sl =>
                  refine ⟨hsafe, ?_⟩
                  cases sl <;> exact hcoh.2
              | called c sl => exact hsafe.elim
              | serving c sl => exact hsafe.elim
            · exact congrArg (fun st => BbcWorld.mk { s.via with pcr := b, cb2 := cb2Level b } st
                s.call s.wire) (if_neg hstrobe).symm
  | setDdrb b =>
      cases hs
      have hsafe : bbcSafe (s.bbcWorld st) (.setDdrb b) := Rely.Ok.safe hok
      have hcoh := h.coherent
      refine ⟨st, h.bbcStays hb ?_ rfl, id⟩
      have hne : b = 0x00 → b ≠ 0xff := fun h0 => by rw [h0]; decide
      cases st with
      | down => exact ⟨hne hsafe, hcoh.2⟩
      | calm l => exact ⟨hne hsafe, hcoh.2⟩
      | caught => exact ⟨hne hsafe, hcoh.2⟩
      | ready c sl =>
          cases sl with
          | recv p => exact hcoh
          | prep p => exact hcoh
          | reply p tx => exact hsafe.elim
      | called c sl => exact hsafe.elim
      | serving c sl => exact hsafe.elim
  | putDrb b =>
      simp only [Sys.execBbc] at hs
      split at hs
      · cases hs
      · next htests =>
          cases hs
          have htests : testsFlag s.avr = false := by simpa using htests
          obtain ⟨-, hsafe⟩ : bbcSafe (s.bbcWorld st) (.putDrb b) := Rely.Ok.safe hok
          cases st with
          | ready c sl =>
              cases sl with
              | recv p => exact ⟨_, h.putDrb_recv hb htests, by rintro ⟨⟩⟩
              | prep p => exact ⟨_, h.putDrb_reply hb htests (by rintro q ⟨⟩), by rintro ⟨⟩⟩
              | reply p tx => exact ⟨_, h.putDrb_reply hb htests (by rintro q ⟨⟩), by rintro ⟨⟩⟩
          | _ => exact hsafe.elim
  | getDrb =>
      cases hs
      refine ⟨st, h.bbcStays hb (h.coherent.congr rfl rfl rfl rfl) ⟨rfl, ?_⟩, id⟩
      intro c p tx x hst hddrb
      have hst : st = .ready c (.reply p (tx ++ [x])) := hst
      subst hst
      obtain ⟨-, hne, hgiven⟩ := h.coherent
      obtain ⟨hd, hx⟩ := hgiven tx x rfl
      rw [busAtBbc, if_neg hne, if_pos hd, hx]
  | untilCb1 =>
      simp only [Sys.execBbc] at hs
      split at hs
      · next hcb1 =>
          cases hs
          exact ⟨st, h.bbcStays hb h.coherent ⟨rfl, hcb1⟩, id⟩
      · cases hs

/-! ## Steps of the AVR -/

/-- The firmware is about to find that the BBC is resetting. -/
def Sys.detectsReset (s : Sys) : Bool :=
  match s.avr with
  | .op .flagAfterDelay _ => !s.via.cb2
  | _ => false

/-- The firmware is about to read port D. -/
def Sys.readsBus (s : Sys) : Bool :=
  match s.avr with
  | .op .pind _ => true
  | _ => false

/-- The reset that is detected, if one is, is not detected in `SEND_PREP`. -/
def Sys.NotInPrep (s : Sys) : Prop := s.detectsReset = true → s.arm ≠ .sendPrep

/-- The reset that is detected leaves nothing of a message behind, and a byte that is passed on
to the host is on the bus. -/
def Sys.LeavesNothing (s : Sys) : Prop :=
  (s.detectsReset = true → CleanReset s.far s.arm) ∧
    (s.readsBus = true → forwards s.arm → s.via.ddrb = 0xff)

lemma Coherent.portc {v : Via} {p : Ports} {st : Stage} (h : Coherent v p st) (b : Byte) :
    Coherent v { p with portc := b } st := by
  cases st with
  | ready c sl => cases sl <;> exact h
  | called c sl => cases sl <;> exact h
  | serving c sl => cases sl <;> exact h
  | _ => exact h

lemma Between.withArm {x : Vars} {w : AvrWorld} (h : Between strict x w) (arm : MsgState) :
    Between strict x { w with arm := arm } := by
  obtain ⟨hddrd, hportc, ⟨v, hv, hst, hholds⟩, hrest⟩ := h
  exact ⟨hddrd, hportc, ⟨v, hv, hst, fun hs => by cases v <;> exact hholds hs⟩, hrest⟩

/-- `doMessaging` is called. -/
lemma Inv.poll {x : Vars} (h : Inv strict s st) (ha : s.avr = .ret x) :
    Inv strict { s with avr := if s.via.cb2 then .ret x else doState x, arm := x.state }
      (if s.via.cb2 then st else st.picked) := by
  have hbetween := h.avr
  have hcoh := h.coherent
  rw [ha] at hbetween
  cases hflag : s.via.cb2 with
  | true => exact ⟨hcoh, h.bbc, Between.withArm hbetween _⟩
  | false =>
      have hready : ∀ c v, st ≠ .ready c v := by
        rintro c v rfl
        rw [hcoh.1] at hflag
        cases hflag
      refine ⟨?_, h.bbc.env (.pick hflag), ok_doState hbetween hready⟩
      cases st with
      | calm l => exact ⟨hcoh.1, hflag, hcoh.2.1 hflag, hcoh.2.2⟩
      | _ => exact hcoh

/-- The fall of the acknowledge line. -/
lemma Inv.lowers {k : Unit → Avr Vars} (h : Inv strict s st) (ha : s.avr = .op (.portc 0x00) k) :
    Inv strict { s.portc 0x00 with avr := k () } (st.acked s.ports.portd) := by
  have hok := h.avr
  rw [ha] at hok
  have hact : (avrRely strict).Ok (Between strict) (k ())
      { s.avrWorld st with
        ports := { s.ports with portc := 0x00 }
        stage := st.acked s.ports.portd } := Rely.Ok.act (a := ()) hok rfl
  have hcoh := h.coherent
  obtain ⟨hno | ⟨-, hportc, hst⟩, -⟩ := Rely.Ok.safe hok
  · exact absurd hno (by decide)
  have hportc : s.ports.portc = 0x10 := hportc
  have heq : s.portc 0x00 = { s with
      ports := { s.ports with portc := 0x00 }
      via := { s.via with cb1 := true, cb2 := isHandshake s.via.pcr || s.via.cb2 } } := by
    simp [Sys.portc, hportc]
  rw [heq]
  cases st with
  | down =>
      exact ⟨⟨hcoh.1, fun hlow => hcoh.2 (by simp at hlow; exact hlow.2)⟩, h.bbc.env (.stray trivial),
        hact⟩
  | caught =>
      refine ⟨⟨hcoh.1, ?_, hcoh.2.2⟩, h.bbc.env (.stray trivial), hact⟩
      rw [hcoh.2.2.1, hcoh.2.1]
      rfl
  | serving c sl =>
      obtain ⟨hlow, hpcr, hoffer⟩ := hcoh
      have hhand : isHandshake s.via.pcr = true := by rw [hpcr]; rfl
      rw [hhand, Bool.true_or]
      refine ⟨?_, h.bbc.env (.ack s.ports.portd rfl), hact⟩
      cases sl with
      | recv p =>
          have hnext : ∀ sl', (sl' = .prep c.bytes ∨ ∃ q, sl' = .recv q) → Coherent
              { s.via with cb1 := true, cb2 := true } { s.ports with portc := 0x00 } (.ready c sl') := by
            rintro sl' (rfl | ⟨q, rfl⟩)
            · exact ⟨rfl, hoffer.2.2⟩
            · exact ⟨rfl, hoffer.2.2⟩
          refine hnext _ ?_
          rw [Slot.next]
          split_ifs
          · exact Or.inl rfl
          · exact Or.inr ⟨_, rfl⟩
      | prep p =>
          refine ⟨rfl, hoffer.1, fun tx' x htx => ?_⟩
          simp at htx
      | reply p tx =>
          have hddrd : s.ports.ddrd = if ReplyDone tx then 0x00 else 0xff := hst
          rw [Stage.acked]
          split_ifs with hd
          · rw [if_pos hd] at hddrd
            exact ⟨hoffer, (fun hcb2 => by cases hcb2), hddrd⟩
          · rw [if_neg hd] at hddrd
            refine ⟨rfl, hoffer, fun tx' x htx => ⟨hddrd, ?_⟩⟩
            exact (List.append_inj_right' htx rfl |> List.singleton_inj.1)
  | _ => exact hst.elim

/-- **What the firmware does keeps the invariant**, if no reset is met in `SEND_PREP` and, in a
strict run, none leaves anything behind. -/
lemma Inv.avrOp {o : AvrOp} {k : o.Ans → Avr Vars} {v : Byte} {a : o.Ans} {t : Sys}
    (h : Inv strict s st) (ha : s.avr = .op o k) (hs : s.execAvr v o = .done a t)
    (hprep : s.NotInPrep) (hclean : strict → s.LeavesNothing) :
    ∃ st', Inv strict { t with avr := k a, arm := s.arm } st' ∧
      (st' = st ∨ st' = st.acked s.ports.portd) := by
  have hok := h.avr
  have hcoh := h.coherent
  rw [ha] at hok
  have hsafe : avrSafe strict (s.avrWorld st) o := (Rely.Ok.safe hok).1
  cases o with
  | flag => exact hsafe.elim
  | flagAfterDelay =>
      cases hs
      refine ⟨st, ⟨hcoh, h.bbc, Rely.Ok.act hok ⟨rfl, ?_, fun hlow => ⟨?_, ?_, fun hst => ?_⟩⟩⟩,
        Or.inl rfl⟩
      · rintro hhigh (rfl : st = .caught)
        have hlow : s.via.cb2 = false := hcoh.2.1
        rw [hlow] at hhigh
        cases hhigh
      · rintro c v (rfl : st = .ready c v)
        have hhigh : s.via.cb2 = true := hcoh.1
        rw [hhigh] at hlow
        cases hlow
      · exact hprep (by simp [Sys.detectsReset, ha, hlow])
      · exact (hclean hst).1 (by simp [Sys.detectsReset, ha, hlow])
  | untilFlagHigh =>
      simp only [Sys.execAvr] at hs
      split at hs
      · next hhigh =>
          cases hs
          refine ⟨st, ⟨hcoh, h.bbc, Rely.Ok.act hok ⟨rfl, ?_⟩⟩, Or.inl rfl⟩
          rintro (rfl : st = .caught)
          rw [hcoh.2.1] at hhigh
          cases hhigh
      · cases hs
  | pind =>
      cases hs
      refine ⟨st, ⟨hcoh, h.bbc, Rely.Ok.act hok ⟨rfl, ?_, fun hst hf => ?_⟩⟩, Or.inl rfl⟩
      · rintro c p (rfl : st = .serving c (.recv p)) (hddrd : s.ports.ddrd = 0x00)
        obtain ⟨-, -, hddrb, hl, -⟩ := hcoh
        rw [busAtAvr, if_pos hddrb, if_pos hddrd]
        exact hl
      · rintro (rfl : st = .down)
        exact hcoh.1 ((hclean hst).2 (by simp [Sys.readsBus, ha]) hf)
  | portc b =>
      cases hs
      have hb : b = 0x10 ∨ b = 0x00 := hsafe.imp id And.left
      rcases hb with rfl | rfl
      · have heq : s.portc 0x10 = { s with ports := { s.ports with portc := 0x10 } } := by
          simp [Sys.portc]
        rw [heq]
        exact ⟨st, ⟨hcoh.portc _, h.bbc, Rely.Ok.act hok rfl⟩, Or.inl rfl⟩
      · exact ⟨_, h.lowers ha, Or.inr rfl⟩
  | portd b =>
      cases hs
      refine ⟨st, ⟨?_, h.bbc, Rely.Ok.act hok rfl⟩, Or.inl rfl⟩
      cases st with
      | down => exact hcoh
      | serving c sl => cases sl <;> exact hcoh
      | _ => exact hsafe.elim
  | ddrd b =>
      cases hs
      refine ⟨st, ⟨?_, h.bbc, Rely.Ok.act hok rfl⟩, Or.inl rfl⟩
      cases st with
      | down => exact hcoh
      | calm l => exact ⟨hcoh.1, hcoh.2.1, hsafe⟩
      | caught => exact ⟨hcoh.1, hcoh.2.1, hcoh.2.2.1, hsafe⟩
      | ready c sl =>
          cases sl with
          | reply p tx =>
              cases tx with
              | nil => exact ⟨hcoh.1, hcoh.2.1, fun tx' x htx => by simp at htx⟩
              | cons x tx => exact hsafe.elim
          | _ => exact hsafe.elim
      | called c sl =>
          cases sl with
          | reply p tx => exact hcoh
          | _ => exact hsafe.elim
      | serving c sl =>
          cases sl with
          | recv p => exact ⟨hcoh.1, hcoh.2.1, hcoh.2.2.1, hcoh.2.2.2.1, hsafe⟩
          | prep p => exact ⟨hcoh.1, hcoh.2.1, hcoh.2.2.1, hsafe⟩
          | reply p tx => exact hcoh
  | usb o =>
      simp only [Sys.execAvr] at hs
      split at hs
      · cases hs
      · cases hs
      · next a' u hexec =>
          cases hs
          exact ⟨st, ⟨hcoh, h.bbc, Rely.Ok.act hok ⟨v, u, hexec, rfl⟩⟩, Or.inl rfl⟩

/-- A loop of `usbRecvByte` goes round only to acknowledge a packet that has been read. -/
lemma Usb.exec_again {u u' : Usb} {v : Byte} {o : UsbOp} (h : u.exec v o = .again u') :
    o = .recvByte ∧ u.selected = .fromHost ∧ u.outBank = some [] ∧ u' = { u with outBank := none } := by
  cases o with
  | recvByte =>
      simp only [Usb.exec] at h
      split at h
      · cases h
      · next hsel ho =>
          simp only [Turn.again.injEq] at h
          refine ⟨rfl, hsel, ho, ?_⟩
          rw [← h, Usb.release, hsel]
      · cases h
      · cases h
  | untilInPacketReady => simp only [Usb.exec] at h; split at h <;> cases h
  | untilOutPacketReady => simp only [Usb.exec] at h; split at h <;> cases h
  | _ => cases h

lemma Sys.execAvr_again {o : AvrOp} {v : Byte} {t : Sys} (h : s.execAvr v o = .again t) :
    o = .usb .recvByte ∧ s.far.usb.selected = .fromHost ∧ s.far.usb.outBank = some [] ∧
      t = { s with far := s.far.acked } := by
  cases o with
  | usb o =>
      simp only [Sys.execAvr] at h
      split at h
      · cases h
      · next u hexec =>
          cases h
          obtain ⟨rfl, hsel, ho, rfl⟩ := Usb.exec_again hexec
          exact ⟨rfl, hsel, ho, rfl⟩
      · cases h
  | untilFlagHigh => simp only [Sys.execAvr] at h; split at h <;> cases h
  | _ => cases h

lemma Inv.avrAgain {o : AvrOp} {k : o.Ans → Avr Vars} {v : Byte} {t : Sys}
    (h : Inv strict s st) (ha : s.avr = .op o k) (hs : s.execAvr v o = .again t) : Inv strict t st := by
  obtain ⟨rfl, hsel, ho, rfl⟩ := Sys.execAvr_again hs
  have hok := h.avr
  rw [ha] at hok
  refine ⟨h.coherent, h.bbc, ?_⟩
  simp only [Sys.avrWorld, ha]
  exact Rely.Ok.env hok (.ack hsel ho rfl)

/-! ## Every step -/

lemma picked_eq_down : st.picked = .down ↔ st = .down := by
  cases st <;> simp [Stage.picked]

lemma acked_eq_down {x : Byte} : st.acked x = .down ↔ st = .down := by
  cases st with
  | serving c sl =>
      rcases acked_serving c sl x with ⟨l, h⟩ | ⟨sl', h⟩ <;> simp [h]
  | _ => simp [Stage.acked]

/-- **Every step keeps the invariant.** -/
theorem Inv.step {l : Label} (h : Inv strict s st) (hs : s.step l = some s')
    (hprep : ∀ v, l = .avr v → s.NotInPrep) (hclean : ∀ v, l = .avr v → strict → s.LeavesNothing) :
    ∃ st', Inv strict s' st' ∧ (st' = .down → st = .down ∨ l = .brk) := by
  cases l with
  | start c =>
      simp only [Sys.step] at hs
      split at hs
      · next hb => cases hs; exact ⟨st, h.start (by rw [hb]; trivial), Or.inl⟩
      · next hb => cases hs; exact ⟨st, h.start (by rw [hb]; trivial), Or.inl⟩
      · cases hs
  | brk =>
      cases hs
      exact ⟨.down, h.brk, fun _ => Or.inr rfl⟩
  | bbc v =>
      simp only [Sys.step, Sys.stepBbc] at hs
      split at hs
      · next o k hb =>
          obtain ⟨⟨a, t⟩, hexec, rfl⟩ := Option.map_eq_some_iff.1 hs
          obtain ⟨st', hinv, hdown⟩ := h.bbcOp hb hexec
          exact ⟨st', hinv, fun hd => Or.inl (hdown hd)⟩
      · cases hs
  | avr v =>
      simp only [Sys.step, Sys.stepAvr] at hs
      cases ha : s.avr with
      | ret x =>
          simp only [ha, doMessaging, Tree.perform_bind, Sys.execAvr, Option.some.injEq] at hs
          subst hs
          refine ⟨_, h.poll ha, fun hd => Or.inl ?_⟩
          split at hd
          · exact hd
          · exact picked_eq_down.1 hd
      | op o k =>
          simp only [ha] at hs
          split at hs
          · cases hs
          · next t hexec => cases hs; exact ⟨st, h.avrAgain ha hexec, Or.inl⟩
          · next a t hexec =>
              cases hs
              obtain ⟨st', hinv, rfl | rfl⟩ := h.avrOp ha hexec (hprep v rfl) (hclean v rfl)
              · exact ⟨st', hinv, Or.inl⟩
              · exact ⟨_, hinv, fun hd => Or.inl (acked_eq_down.1 hd)⟩
  | host r =>
      obtain ⟨f, hf, rfl⟩ := Option.map_eq_some_iff.1 hs
      exact ⟨st, h.host hf, Or.inl⟩

/-- Both sides begin at rest. -/
lemma inv_initial (x : Vars) (c : Call) : Inv strict (Sys.initial x c) (.calm none) := by
  have hbase : Base ((Sys.initial x c).avrWorld (.calm none)) := ⟨List.Sublist.refl _, fun _ => rfl⟩
  have hfill : Filling [] (Sys.initial x c).far := ⟨rfl, rfl, rfl, Or.inr ⟨rfl, rfl⟩⟩
  refine ⟨⟨(by decide : (0x00 : Byte) ≠ 0xff), (fun hlow => by cases hlow), rfl⟩,
    ⟨Or.inr ⟨_, rfl⟩, rfl, rfl, rfl⟩, rfl, rfl, ⟨.recv [], .getChannel rfl, rfl, fun _ => ?_⟩, ?_⟩
  · exact ⟨hfill, offered_nil hbase⟩
  · intro _ l hl
    cases hl
    refine ⟨hfill, hbase, fun last hlast => ⟨hbase, rfl, fun c tx hc => ?_⟩⟩
    cases hlast
    cases hc

end Udfs.Link
