import Udfs.Link.Record

/-!
# Where the firmware can be

`Spot` lists the places of the firmware between two bytes, and `At` says where it is, how
its ports stand and what the far side holds.  The rules take the firmware through its
operations: an operation on the USB controller, and the acknowledge with its two outcomes.
-/

namespace Udfs.Link

variable {strict : Prop}

/-- A place in the protocol. -/
inductive Spot where
  -- the byte of the slot is there and has not been taken
  | waiting (v : Slot)
  -- the acknowledge, with `x` on port D, leads to the slot `v'`
  | busy (v v' : Slot) (x : Byte)
  -- the acknowledge ends the message
  | ending (p tx : List Byte)
  -- acknowledged, before the test of the flag
  | acked (v v' : Slot)
  | ended
  -- the flag has stayed low, and has gone high; `k` tells whether a message has just ended
  | reset (k : Prop)
  | released (k : Prop)
  -- in front of a slot, in front of the first one
  | after (v' : Slot)
  | home (k : Prop)

/-- The stages in which the firmware can be there. -/
def Spot.Has (st : Stage) : Spot → Prop
  | waiting v => st = .down ∨ (v = .recv [] ∧ st = .caught) ∨ ∃ c, st = .serving c v ∧ v.Of c
  | busy v v' x => st = .down ∨ (v = .recv [] ∧ st = .caught) ∨
      ∃ c, st = .serving c v ∧ st.acked x = .ready c v' ∧ v'.Of c
  | ending p tx => st = .down ∨ ∃ c, st = .serving c (.reply p tx) ∧ p = c.bytes
  | acked v v' => st = .down ∨ (v = .recv [] ∧ st = .caught) ∨ ∃ c, st = .ready c v' ∧ v'.Of c
  | ended => st = .down ∨ ∃ l, st = .calm l
  | reset k => st = .down ∨ st = .caught ∨ k ∧ ∃ l, st = .calm l
  | released k => (st = .down ∨ st = .caught ∨ k ∧ ∃ l, st = .calm l) ∨ ∃ c, st = .ready c (.recv [])
  | after v' => st = .down ∨ ∃ c, (st = .ready c v' ∨ st = .called c v') ∧ v'.Of c
  | home k => st = .down ∨ (k ∧ ∃ l, st = .calm l) ∨
      ∃ c, st = .ready c (.recv []) ∨ st = .called c (.recv [])

/-- The operations the firmware can be about to perform there. -/
def Spot.Allows (o : AvrOp) : Spot → Prop
  | acked _ _ => o = .flagAfterDelay
  | released _ => o = .untilFlagHigh
  | _ => o ≠ .untilFlagHigh

/-- The BBC can offer a byte only in front of a slot. -/
lemma Spot.Has.of_ready {sp : Spot} {c : Call} {v : Slot} (h : sp.Has (.ready c v)) {o : AvrOp}
    (ha : sp.Allows o) (ho : mayCall o) : sp.Has (.called c v) := by
  cases sp with
  | waiting u => rcases h with h | ⟨-, h⟩ | ⟨c', h, -⟩ <;> cases h
  | busy u u' x => rcases h with h | ⟨-, h⟩ | ⟨c', h, -⟩ <;> cases h
  | ending p tx => rcases h with h | ⟨c', h, -⟩ <;> cases h
  | acked u u' => rw [ha] at ho; exact ho.elim
  | ended => rcases h with h | ⟨l, h⟩ <;> cases h
  | reset k => rcases h with h | h | ⟨-, l, h⟩ <;> cases h
  | released k => rw [ha] at ho; exact ho.elim
  | after u =>
      rcases h with h | ⟨c', h | h, hof⟩
      · cases h
      · cases h; exact Or.inr ⟨c, Or.inr rfl, hof⟩
      · cases h
  | home k =>
      rcases h with h | ⟨-, l, h⟩ | ⟨c', h | h⟩
      · cases h
      · cases h
      · cases h; exact Or.inr (Or.inr ⟨c, Or.inr rfl⟩)
      · cases h

/-- The others move the firmware only within its place. -/
lemma Spot.Has.env {sp : Spot} {w w' : AvrWorld} {o : AvrOp} (h : sp.Has w.stage)
    (ha : sp.Allows o) (he : (avrRely strict).env o w w') : sp.Has w'.stage := by
  cases he with
  | call hs hc => rw [hs] at h; exact h.of_ready ha hc
  | callLast hs hc => rw [hs] at h; exact h.of_ready ha hc
  | brk =>
      cases sp with
      | released k => exact Or.inl (Or.inl rfl)
      | _ => exact Or.inl rfl
  | strobe hr hc =>
      cases sp with
      | released k => exact Or.inr ⟨_, rfl⟩
      | acked u u' => rw [ha] at hc; cases hc
      | _ => exact absurd hc ha
  | host => exact h
  | ack => exact h

/-- The firmware is at `sp`, its ports stand as `P`, and in a strict run `F` holds. -/
structure At (strict : Prop) (sp : Spot) (P : Ports) (arm : MsgState) (F : AvrWorld → Prop)
    (w : AvrWorld) : Prop where
  spot : sp.Has w.stage
  ports : w.ports = P
  arm : w.arm = arm
  far : strict → F w

lemma At.imp {sp : Spot} {P : Ports} {arm : MsgState} {F F' : AvrWorld → Prop} {w : AvrWorld}
    (h : At strict sp P arm F w) (hF : ∀ w, F w → F' w) : At strict sp P arm F' w :=
  ⟨h.spot, h.ports, h.arm, fun hs => hF w (h.far hs)⟩

/-- In front of which slots that receive the firmware can be, by the bytes taken. -/
def Spot.front (q : List Byte) : Spot → Prop
  | acked _ v' => v' = .recv q
  | after v' => v' = .recv q
  | released _ => q = []
  | home _ => q = []
  | _ => False

lemma Spot.Has.front {sp : Spot} {c : Call} {q : List Byte} (h : sp.Has (.ready c (.recv q))) :
    sp.front q := by
  cases sp with
  | waiting v => rcases h with h | ⟨-, h⟩ | ⟨c', h, -⟩ <;> cases h
  | busy v v' x => rcases h with h | ⟨-, h⟩ | ⟨c', h, -⟩ <;> cases h
  | ending p tx => rcases h with h | ⟨c', h, -⟩ <;> cases h
  | acked v v' =>
      rcases h with h | ⟨-, h⟩ | ⟨c', h, -⟩
      · cases h
      · cases h
      · cases h; rfl
  | ended => rcases h with h | ⟨l, h⟩ <;> cases h
  | reset k => rcases h with h | h | ⟨-, l, h⟩ <;> cases h
  | released k =>
      rcases h with (h | h | ⟨-, l, h⟩) | ⟨c', h⟩
      · cases h
      · cases h
      · cases h
      · cases h; rfl
  | after v' =>
      rcases h with h | ⟨c', h | h, -⟩
      · cases h
      · cases h; rfl
      · cases h
  | home k =>
      rcases h with h | ⟨-, l, h⟩ | ⟨c', h | h⟩
      · cases h
      · cases h
      · cases h; rfl
      · cases h

/-- If it is in front of a slot that receives, the bytes taken are `p`. -/
def Spot.Fronts (p : List Byte) (sp : Spot) : Prop := ∀ q, sp.front q → q = p

/-- The others cannot break `F` while the firmware is at `sp`, and it keeps the record. -/
structure StableAt (sp : Spot) (F : AvrWorld → Prop) : Prop where
  env : ∀ {a b c : Prop} {w w' : AvrWorld}, sp.Has w.stage → F w → AvrEnv a b c w w' → F w'
  recorded : ∀ {w : AvrWorld}, F w → Recorded w

section Stable

variable {sp : Spot} {G : Far → Prop} {p : List Byte} {r : Server.Response}

/-- The first byte is never the last. -/
lemma Spot.Fronts.notLast (hsp : sp.Fronts []) {w : AvrWorld} (h : sp.Has w.stage) (c : Call)
    (p : List Byte) (hst : w.stage = .ready c (.recv p)) : p.length + 1 ≠ c.bytes.length := by
  rw [hst] at h
  rw [hsp p h.front]
  simp [Call.bytes]

lemma stable_false : StableAt sp fun _ => False := ⟨fun _ h => h.elim, fun h => h.elim⟩

lemma stable_base (hG : Still G) (hsp : sp.Fronts []) : StableAt sp fun w => G w.far ∧ Base w :=
  ⟨fun hs h he => ⟨(he.far hG h.1).1, he.base (hsp.notLast hs) (he.far hG h.1).2 h.2⟩, fun h => h.2.1⟩

lemma stable_offered (hG : Still G) (hsp : sp.Fronts p) :
    StableAt sp fun w => G w.far ∧ Offered p w :=
  ⟨fun hs h he => ⟨(he.far hG h.1).1,
    he.offered hG h.1 (fun _ q hst => hsp q (Spot.Has.front (hst ▸ hs))) h.2⟩, fun h => h.2.recorded⟩

lemma stable_due (hG : Still G) (hsp : sp.Fronts []) : StableAt sp fun w => G w.far ∧ Due p w :=
  ⟨fun hs h he => ⟨(he.far hG h.1).1, he.due (hsp.notLast hs) (he.far hG h.1).2 h.2⟩,
    fun h => h.2.recorded⟩

lemma stable_owed (hsp : sp.Fronts []) : StableAt sp (Owed p) :=
  ⟨fun hs h he => he.owed (hsp.notLast hs) h, Owed.recorded⟩

lemma fronts_waiting (v : Slot) (p : List Byte) : (Spot.waiting v).Fronts p := fun _ h => h.elim

lemma fronts_busy (v v' : Slot) (x : Byte) (p : List Byte) : (Spot.busy v v' x).Fronts p :=
  fun _ h => h.elim

lemma fronts_ending (p tx q : List Byte) : (Spot.ending p tx).Fronts q := fun _ h => h.elim

lemma fronts_ended (p : List Byte) : Spot.ended.Fronts p := fun _ h => h.elim

lemma fronts_reset (k : Prop) (p : List Byte) : (Spot.reset k).Fronts p := fun _ h => h.elim

lemma fronts_released (k : Prop) : (Spot.released k).Fronts [] := fun _ h => h

lemma fronts_home (k : Prop) : (Spot.home k).Fronts [] := fun _ h => h

lemma fronts_acked (v : Slot) {v' : Slot} (hv : ∀ q, v' = .recv q → q = p) :
    (Spot.acked v v').Fronts p := hv

lemma fronts_after {v' : Slot} (hv : ∀ q, v' = .recv q → q = p) : (Spot.after v').Fronts p := hv

end Stable

/-! ## The rules -/

variable {α : Type} {Q : α → AvrWorld → Prop} {sp : Spot} {P : Ports} {arm : MsgState}
  {F : AvrWorld → Prop} {w : AvrWorld}

/-- There is no finished message to account for there. -/
def Spot.NoCalm (sp : Spot) : Prop := ∀ l, ¬ sp.Has (.calm l)

lemma settled_of_noCalm (hsp : sp.NoCalm) (h : sp.Has w.stage) : Settled w :=
  fun _ hs => absurd (hs ▸ h) (hsp _)

/-- An operation of the firmware at `sp`. -/
lemma ok_at {o : AvrOp} {k : o.Ans → Avr α} (h : At strict sp P arm F w) (ha : sp.Allows o)
    (hF : StableAt sp F) (hans : ∀ w, At strict sp P arm F w → strict → Settled w)
    (hsafe : ∀ w, At strict sp P arm F w → avrSafe strict w o)
    (hact : ∀ w a w', At strict sp P arm F w → avrAct strict o w a w' →
      (avrRely strict).Ok Q (k a) w') :
    (avrRely strict).Ok Q (.op o k) w := by
  refine Rely.ok_op (At strict sp P arm F) h (fun w w' h he => ?_) 
    (fun w h => ⟨hsafe w h, fun hs => ⟨hF.recorded (h.far hs), hans w h hs⟩⟩) hact
  obtain ⟨hports, harm⟩ := AvrEnv.ports he
  exact ⟨h.spot.env ha he, hports.trans h.ports, harm.trans h.arm, fun hs => hF.env h.spot (h.far hs) he⟩

/-- An operation on the USB controller does not move the firmware in the protocol. -/
lemma ok_usb {o : UsbOp} {k : o.Ans → Avr α} {G : o.Ans → AvrWorld → Prop}
    (h : At strict sp P arm F w) (ha : sp.Allows (.usb o)) (hF : StableAt sp F) (hnc : sp.NoCalm)
    (hgo : ∀ w : AvrWorld, F w → (∃ v a u, w.far.usb.exec v o = .done a u) ∨
      (∃ r f, w.far.step r = some f) ∨ ∃ v u, w.far.usb.exec v o = .again u)
    (hG : ∀ (w : AvrWorld) v a u, sp.Has w.stage → F w → w.far.usb.exec v o = .done a u →
      G a { w with far := { w.far with usb := u } })
    (hk : ∀ a w, At strict sp P arm (G a) w → (avrRely strict).Ok Q (k a) w) :
    (avrRely strict).Ok Q (.op (.usb o) k) w := by
  refine ok_at h ha hF (fun w h _ => settled_of_noCalm hnc h.spot) (fun w h hs => hgo w (h.far hs))
    fun w a w' h hact => ?_
  obtain ⟨v, u, hexec, rfl⟩ := hact
  exact hk a _ ⟨h.spot, h.ports, h.arm, fun hs => hG w v a u h.spot (h.far hs) hexec⟩

/-! ## The acknowledge -/

lemma ackByte_bind (s : Vars) (f : Vars → Avr α) :
    ackByte s >>= f = .op (.portc 0x00) fun _ => .op .flagAfterDelay fun high =>
      if high then .op (.portc 0x10) fun _ => f s
      else .op (.ddrd 0x00) fun _ => .op .untilFlagHigh fun _ => .op (.portc 0x10) fun _ =>
        f { s with state := .getChannel } := by
  refine congrArg (Tree.op _) (funext fun _ => congrArg (Tree.op _) (funext fun high => ?_))
  cases high <;> rfl

/-- What the far side holds does not depend on the ports. -/
def PortFree (F : AvrWorld → Prop) : Prop := ∀ w P, F w → F { w with ports := P }

lemma noCalm_busy (v v' : Slot) (x : Byte) : (Spot.busy v v' x).NoCalm := by
  rintro l (h | ⟨-, h⟩ | ⟨c, h, -⟩) <;> cases h

lemma noCalm_acked (v v' : Slot) : (Spot.acked v v').NoCalm := by
  rintro l (h | ⟨-, h⟩ | ⟨c, h, -⟩) <;> cases h

lemma noCalm_after (v' : Slot) : (Spot.after v').NoCalm := by
  rintro l (h | ⟨c, h | h, -⟩) <;> cases h

lemma noCalm_home : (Spot.home False).NoCalm := by
  rintro l (h | ⟨hk, -⟩ | ⟨c, h | h⟩)
  · cases h
  · exact hk
  · cases h
  · cases h

/-- The flag has stayed low: the firmware turns its side of the bus back and waits. -/
lemma ok_reset {f : Avr α} {k : Prop} {d x : Byte} {Fr : AvrWorld → Prop}
    (h : At strict (.reset k) ⟨d, x, 0x00⟩ arm Fr w)
    (hFr : StableAt (.reset k) Fr) (hFl : StableAt (.released k) Fr) (hFh : StableAt (.home k) Fr)
    (hp : PortFree Fr) (hans : ∀ w, (∀ l, w.stage = .calm l → k) → Fr w → Settled w)
    (hk : ∀ w, At strict (.home k) ⟨0x00, x, 0x10⟩ arm Fr w → (avrRely strict).Ok Q f w) :
    (avrRely strict).Ok Q
      (.op (.ddrd 0x00) fun _ => .op .untilFlagHigh fun _ => .op (.portc 0x10) fun _ => f) w := by
  refine ok_at h (by rintro ⟨⟩) hFr (fun w h hs => hans w ?_ (h.far hs)) (fun w h => ?_)
    fun w _ w' h ha => ?_
  · rintro l hl
    rcases h.spot with hst | hst | ⟨hk, -⟩
    · rw [hst] at hl; cases hl
    · rw [hst] at hl; cases hl
    · exact hk
  · rcases h.spot with hst | hst | ⟨-, l, hst⟩ <;> simp [avrSafe, hst]
  obtain rfl := ha
  have hl : At strict (.released k) ⟨0x00, x, 0x00⟩ arm Fr
      { w with ports := { w.ports with ddrd := 0x00 } } :=
    ⟨Or.inl h.spot, by rw [h.ports], h.arm, fun hs => hp _ _ (h.far hs)⟩
  refine ok_at hl rfl hFl (fun w h hs => hans w ?_ (h.far hs)) (fun w h => ?_) fun w _ w' h ha => ?_
  · rintro l hl
    rcases h.spot with (hst | hst | ⟨hk, -⟩) | ⟨c, hst⟩
    · rw [hst] at hl; cases hl
    · rw [hst] at hl; cases hl
    · exact hk
    · rw [hst] at hl; cases hl
  · refine ⟨by rw [h.ports], ?_⟩
    rcases h.spot with (hst | hst | ⟨-, l, hst⟩) | ⟨c, hst⟩ <;> rw [hst] <;> trivial
  obtain ⟨rfl, hne⟩ := ha
  have hh : At strict (.home k) ⟨0x00, x, 0x00⟩ arm Fr w' := by
    refine ⟨?_, h.ports, h.arm, h.far⟩
    rcases h.spot with (hst | hst | hst) | ⟨c, hst⟩
    · exact Or.inl hst
    · exact absurd hst hne
    · exact Or.inr (Or.inl hst)
    · exact Or.inr (Or.inr ⟨c, Or.inl hst⟩)
  refine ok_at hh (by rintro ⟨⟩) hFh (fun w h hs => hans w ?_ (h.far hs)) (fun w h => Or.inl rfl)
    fun w _ w' h ha => ?_
  · rintro l hl
    rcases h.spot with hst | ⟨hk, -⟩ | ⟨c, hst | hst⟩
    · rw [hst] at hl; cases hl
    · exact hk
    · rw [hst] at hl; cases hl
    · rw [hst] at hl; cases hl
  obtain rfl := ha
  exact hk _ ⟨h.spot, by rw [h.ports], h.arm, fun hs => hp _ _ (h.far hs)⟩

lemma acked_of_busy {v v' : Slot} {x : Byte} {st : Stage} (h : (Spot.busy v v' x).Has st) :
    (Spot.acked v v').Has (st.acked x) := by
  rcases h with h | ⟨hv, h⟩ | ⟨c, h, hack, hof⟩
  · subst h; exact Or.inl rfl
  · subst h; exact Or.inr (Or.inl ⟨hv, rfl⟩)
  · exact Or.inr (Or.inr ⟨c, hack, hof⟩)

/-- **The acknowledge.**  It takes the exchange from the slot `v` to `v'`, or the firmware finds
that the BBC is resetting and goes home. -/
lemma ok_ackByte {s : Vars} {f : Vars → Avr α} {v v' : Slot} {x d : Byte}
    {G R : AvrWorld → Prop} (h : At strict (.busy v v' x) ⟨d, x, 0x10⟩ arm F w)
    (hF : StableAt (.busy v v' x) F) (hFa : StableAt (.acked v v') G)
    (hFn : StableAt (.after v') G) (hFr : StableAt (.reset False) R)
    (hFl : StableAt (.released False) R) (hFh : StableAt (.home False) R)
    (hp' : PortFree G) (hpr : PortFree R)
    (hv : v = .recv [] → arm = .getChannel) (hd : ∀ p tx, v = .reply p tx → ¬ ReplyDone tx ∧ d = 0xff)
    (hack : ∀ w P st, F w → (Spot.acked v v').Has st → G { w with ports := P, stage := st })
    (hreset : ∀ w, (Spot.acked v v').Has w.stage → w.arm = arm → G w → CleanReset w.far w.arm → R w)
    (hk : ∀ w, At strict (.after v') ⟨d, x, 0x10⟩ arm G w → (avrRely strict).Ok Q (f s) w)
    (hr : ∀ w, arm ≠ .sendPrep → At strict (.home False) ⟨0x00, x, 0x10⟩ arm R w →
      (avrRely strict).Ok Q (f { s with state := .getChannel }) w) :
    (avrRely strict).Ok Q (ackByte s >>= f) w := by
  rw [ackByte_bind]
  refine ok_at h (by rintro ⟨⟩) hF (fun w h _ => settled_of_noCalm (noCalm_busy _ _ _) h.spot)
    (fun w h => ?_) fun w _ w' h ha => ?_
  · refine Or.inr ⟨rfl, by rw [h.ports], ?_⟩
    rcases h.spot with hst | ⟨-, hst⟩ | ⟨c, hst, -⟩
    · rw [hst]; trivial
    · rw [hst]; trivial
    · rw [hst]
      cases v with
      | recv p => trivial
      | prep p => trivial
      | reply p tx =>
          obtain ⟨hnd, rfl⟩ := hd p tx rfl
          simp only [if_neg hnd, h.ports]
  obtain rfl := ha
  have hstage : w.stage.acked w.ports.portd = w.stage.acked x := by rw [h.ports]
  have hacked : At strict (.acked v v') ⟨d, x, 0x00⟩ arm G
      { w with
        ports := { w.ports with portc := 0x00 }
        stage := if (0x00 : Byte) = 0x00 then w.stage.acked w.ports.portd else w.stage } := by
    rw [if_pos rfl, hstage]
    exact ⟨acked_of_busy h.spot, by rw [h.ports], h.arm,
      fun hs => hack _ _ _ (h.far hs) (acked_of_busy h.spot)⟩
  refine ok_at hacked rfl hFa (fun w h _ => settled_of_noCalm (noCalm_acked _ _) h.spot)
    (fun w h => ?_) fun w high w' h ha => ?_
  · rcases h.spot with hst | ⟨hv0, hst⟩ | ⟨c, hst, -⟩ <;> simp only [avrSafe, hst]
    exact h.arm.trans (hv hv0)
  obtain ⟨rfl, hhigh, hlow⟩ := ha
  cases high with
  | true =>
      -- the flag was cleared by the acknowledge
      have hafter : At strict (.after v') ⟨d, x, 0x00⟩ arm G w' := by
        refine ⟨?_, h.ports, h.arm, h.far⟩
        rcases h.spot with hst | ⟨-, hst⟩ | ⟨c, hst, hof⟩
        · exact Or.inl hst
        · exact absurd hst (hhigh rfl)
        · exact Or.inr ⟨c, Or.inl hst, hof⟩
      refine ok_at hafter (by rintro ⟨⟩) hFn
        (fun w h _ => settled_of_noCalm (noCalm_after _) h.spot) (fun _ _ => Or.inl rfl)
        fun w _ w' h ha => ?_
      obtain rfl := ha
      exact hk _ ⟨h.spot, by rw [h.ports], h.arm, fun hs => hp' _ _ (h.far hs)⟩
  | false =>
      -- the BBC drives the flag itself
      obtain ⟨hready, harm, hclean⟩ := hlow rfl
      have hres : At strict (.reset False) ⟨d, x, 0x00⟩ arm R w' := by
        refine ⟨?_, h.ports, h.arm, fun hs => hreset _ h.spot h.arm (h.far hs) (hclean hs)⟩
        rcases h.spot with hst | ⟨-, hst⟩ | ⟨c, hst, -⟩
        · exact Or.inl hst
        · exact Or.inr (Or.inl hst)
        · exact absurd hst (hready c v')
      refine ok_reset hres hFr hFl hFh hpr (fun w hc _ _ hs => (hc _ hs).elim) fun w hw => ?_
      exact hr w (h.arm ▸ harm) hw

/-- At rest: the far side holds nothing, and the last message is accounted for. -/
def Rest (w : AvrWorld) : Prop := Filling [] w.far ∧ Base w ∧ Settled w

lemma AvrEnv.of_calm {a b c : Prop} {w w' : AvrWorld} {l : Option (Call × List Byte)}
    (he : AvrEnv a b c w w') (h : w'.stage = .calm l) : w.stage = .calm l ∧ w'.mark = w.mark := by
  cases he with
  | call => cases h
  | callLast => cases h
  | brk => cases h
  | strobe => cases h
  | host => exact ⟨h, rfl⟩
  | ack => exact ⟨h, rfl⟩

lemma stable_rest (hsp : sp.Fronts []) : StableAt sp Rest := by
  refine ⟨fun {a b c w w'} hs ⟨hfill, hbase, hset⟩ he => ?_, fun h => h.2.1.1⟩
  obtain ⟨hfill', hserved⟩ := he.far (still_filling []) hfill
  have hbase' := he.base (hsp.notLast hs) hserved hbase
  refine ⟨hfill', hbase', fun l hst => ⟨hbase', ?_, fun c tx hl => ?_⟩⟩
  · obtain ⟨-, hnone, -⟩ := hset l (he.of_calm hst).1
    cases he with
    | host r hs => rw [Far.step_write_nil hfill.host hfill.inPacket hs]; exact hnone
    | ack => rfl
    | _ => exact hnone
  · obtain ⟨hst, hmark⟩ := he.of_calm hst
    rw [hserved, hmark]
    exact (hset l hst).2.2 c tx hl

/-- The whole response has been given. -/
def Given (p tx : List Byte) (w : AvrWorld) : Prop :=
  ∃ r, (Filling [] w.far ∧ w.far.usb.outBank = none) ∧ Done p r w ∧ tx = responseBytes r

lemma still_given : Still fun f => Filling [] f ∧ f.usb.outBank = none where
  step := fun h hs => by
    obtain rfl := Far.step_write_nil h.1.host h.1.inPacket hs
    exact ⟨⟨(h.1.step hs).1, h.2⟩, rfl⟩
  ack := fun h ho => by rw [h.2] at ho; cases ho

lemma stable_given {p tx : List Byte} (hsp : sp.Fronts []) : StableAt sp (Given p tx) := by
  refine ⟨fun {a b c w w'} hs ⟨r, hg, hdone, htx⟩ he => ?_, fun ⟨_, _, hdone, _⟩ => hdone.1.1⟩
  obtain ⟨hg', hserved⟩ := he.far still_given hg
  exact ⟨r, hg', he.done (hsp.notLast hs) hserved hdone, htx⟩

lemma Given.rest {p tx : List Byte} {st : Stage} {P : Ports} (h : Given p tx w)
    (hst : ∀ l, st = .calm l → ∃ c, l = some (c, tx) ∧ c.bytes = p) :
    Rest { w with ports := P, stage := st } := by
  obtain ⟨r, ⟨hfill, hout⟩, ⟨hbase, hdrop⟩, htx⟩ := h
  refine ⟨hfill, hbase, fun l hs => ⟨hbase, hout, fun c t hl => ⟨r, ?_⟩⟩⟩
  obtain ⟨c', rfl, hc⟩ := hst l hs
  cases hl
  exact ⟨hc ▸ hdrop, htx⟩

lemma noCalm_ending (p tx : List Byte) : (Spot.ending p tx).NoCalm := by
  rintro l (h | ⟨c, h, -⟩) <;> cases h

/-- The last acknowledge ends the message. -/
lemma ok_ackByte_ending {s : Vars} {Q : Vars → AvrWorld → Prop} {p tx : List Byte} {x : Byte}
    (hd : ReplyDone tx)
    (h : At strict (.ending p tx) ⟨0x00, x, 0x10⟩ .finish (Given p tx) w)
    (hk : ∀ w, At strict .ended ⟨0x00, x, 0x10⟩ .finish Rest w → Q s w)
    (hr : ∀ w, At strict (.home True) ⟨0x00, x, 0x10⟩ .finish Rest w →
      Q { s with state := .getChannel } w) :
    (avrRely strict).Ok Q (ackByte s) w := by
  have hF : StableAt (.ending p tx) (Given p tx) := stable_given (fronts_ending _ _ _)
  have hbind : ackByte s = ackByte s >>= pure := (bind_pure _).symm
  rw [hbind, ackByte_bind]
  refine ok_at h (by rintro ⟨⟩) hF (fun w h _ => settled_of_noCalm (noCalm_ending _ _) h.spot)
    (fun w h => ?_) fun w _ w' h ha => ?_
  · refine Or.inr ⟨rfl, by rw [h.ports], ?_⟩
    rcases h.spot with hst | ⟨c, hst, -⟩ <;> rw [hst]
    · trivial
    · simp only [if_pos hd, h.ports]
  obtain rfl := ha
  have hended : At strict .ended ⟨0x00, x, 0x00⟩ .finish Rest
      { w with
        ports := { w.ports with portc := 0x00 }
        stage := if (0x00 : Byte) = 0x00 then w.stage.acked w.ports.portd else w.stage } := by
    rw [if_pos rfl]
    rcases h.spot with hst | ⟨c, hst, hc⟩
    · refine ⟨Or.inl (by rw [hst]; rfl), by rw [h.ports], h.arm, fun hs => (h.far hs).rest ?_⟩
      intro l hcl
      rw [hst] at hcl
      cases hcl
    · have hcalm : w.stage.acked w.ports.portd = .calm (some (c, tx)) := by
        rw [hst, Stage.acked, if_pos hd]
      refine ⟨Or.inr ⟨_, hcalm⟩, by rw [h.ports], h.arm, fun hs => (h.far hs).rest ?_⟩
      intro l hcl
      rw [hcalm] at hcl
      cases hcl
      exact ⟨c, rfl, hc.symm⟩
  refine ok_at hended (by rintro ⟨⟩) (stable_rest (fronts_ended [])) (fun w h hs => (h.far hs).2.2) (fun w h => ?_)
    fun w high w' h ha => ?_
  · rcases h.spot with hst | ⟨l, hst⟩ <;> simp only [avrSafe, hst]
    exact h.arm
  obtain ⟨rfl, -, -⟩ := ha
  cases high with
  | true =>
      refine ok_at h (by rintro ⟨⟩) (stable_rest (fronts_ended [])) (fun w h hs => (h.far hs).2.2)
        (fun _ _ => Or.inl rfl) fun w _ w' h ha => ?_
      obtain rfl := ha
      exact hk _ ⟨h.spot, by rw [h.ports], h.arm, h.far⟩
  | false =>
      have hres : At strict (.reset True) ⟨0x00, x, 0x00⟩ .finish Rest w' := by
        refine ⟨?_, h.ports, h.arm, h.far⟩
        rcases h.spot with hst | hst
        · exact Or.inl hst
        · exact Or.inr (Or.inr ⟨trivial, hst⟩)
      exact ok_reset hres (stable_rest (fronts_reset _ _)) (stable_rest (fronts_released _))
        (stable_rest (fronts_home _)) (fun _ _ h => h) (fun w _ h => h.2.2) hr

end Udfs.Link
