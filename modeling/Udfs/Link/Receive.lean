import Udfs.Link.Places

/-!
# The firmware receives

`Between` is what holds between two calls of `doMessaging`.  The arms `GET_CHANNEL` to
`GET_DATA` take the bytes of the message in their slots and hand them to the host, the
header in a packet of its own.
-/

namespace Udfs.Link

variable {strict : Prop} {α : Type} {Q : α → AvrWorld → Prop} {sp : Spot} {P : Ports}
  {arm : MsgState} {F : AvrWorld → Prop} {w : AvrWorld}

/-! ## Between two calls of `doMessaging` -/

/-- What the far side holds in front of a slot. -/
def Slot.Holds (s : Vars) (w : AvrWorld) : Slot → Prop
  | recv p => (if 6 ≤ p.length then Collecting p w.far else Filling [] w.far) ∧ Offered p w
  | prep p => Owed p w
  | reply p tx =>
      if tx = [] then Owed p w
      else ∃ r, (Coming ((responseBytes r).drop (max 3 tx.length)) w.far ∧
          w.far.usb.selected = .fromHost) ∧ Done p r w ∧ tx <+: responseBytes r ∧
        (tx.length ≤ 2 → s.dataLength.toNat = r.body.length)

/-- The stage agrees with the slot. -/
def Slot.Agrees (v : Slot) : Stage → Prop
  | .down => True
  | .calm _ => v = .recv []
  | .caught => False
  | .ready c v' => v' = v ∧ v.Of c
  | .called c v' => v' = v ∧ v.Of c
  | .serving _ _ => False

/-- The firmware between two calls of `doMessaging`. -/
structure Between (strict : Prop) (s : Vars) (w : AvrWorld) : Prop where
  ddrd : w.ports.ddrd = dirOf s.state
  portc : w.ports.portc = 0x10
  slot : ∃ v, View v s ∧ v.Agrees w.stage ∧ (strict → v.Holds s w)
  rest : strict → ∀ l, w.stage = .calm l → Rest w

lemma View.home {v : Slot} {s : Vars} (h : View v s) (hs : s.state = .getChannel) : v = .recv [] := by
  cases h with
  | getChannel => rfl
  | _ h => rw [hs] at h; cases h

lemma bytes_ne_nil (c : Call) : ∃ b l, c.bytes = b :: l := ⟨_, _, rfl⟩

lemma Slot.Agrees.env {v : Slot} {a b c : Prop} {w w' : AvrWorld} (h : v.Agrees w.stage)
    (he : AvrEnv a b c w w') (hb : b → v = .recv []) : v.Agrees w'.stage := by
  cases he with
  | call hs => rw [hs] at h; exact h
  | callLast hs => rw [hs] at h; exact h
  | brk => trivial
  | @strobe c hr hc =>
      rw [hb hc]
      exact ⟨rfl, bytes_ne_nil c⟩
  | host => exact h
  | ack => exact h

lemma Slot.Holds.env {v : Slot} {s : Vars} {a b c : Prop} {w w' : AvrWorld} (h : v.Holds s w)
    (hst : v.Agrees w.stage) (he : AvrEnv a b c w w') : v.Holds s w' := by
  have hrecv : (∀ p, v ≠ .recv p) → ∀ c p, w.stage = .ready c (.recv p) →
      p.length + 1 ≠ c.bytes.length := by
    intro hv c p hs
    rw [hs] at hst
    exact absurd hst.1.symm (hv p)
  cases v with
  | recv p =>
      have hfront : ∀ c q, w.stage = .ready c (.recv q) → q = p := by
        intro c q hs
        rw [hs] at hst
        exact Slot.recv.inj hst.1
      rw [Slot.Holds] at h ⊢
      split_ifs at h ⊢
      · exact ⟨(he.far (still_collecting p) h.1).1, he.offered (still_collecting p) h.1 hfront h.2⟩
      · exact ⟨(he.far (still_filling []) h.1).1, he.offered (still_filling []) h.1 hfront h.2⟩
  | prep p => exact he.owed (hrecv fun _ => by rintro ⟨⟩) h
  | reply p tx =>
      have hne := hrecv fun q => by rintro ⟨⟩
      rw [Slot.Holds] at h ⊢
      split_ifs at h ⊢
      · exact he.owed hne h
      · obtain ⟨r, hf, hd, hrest⟩ := h
        obtain ⟨hf', hserved⟩ := he.far ((still_coming _).and_selected _) hf
        exact ⟨r, hf', he.done hne hserved hd, hrest⟩

/-- The others cannot break it. -/
lemma Between.env {s : Vars} {a c : Prop} {w w' : AvrWorld} (h : Between strict s w)
    (he : AvrEnv a (s.state = .getChannel) c w w') : Between strict s w' := by
  obtain ⟨hports, -⟩ := he.ports
  obtain ⟨v, hv, hst, hholds⟩ := h.slot
  refine ⟨by rw [hports]; exact h.ddrd, by rw [hports]; exact h.portc, ⟨v, hv, hst.env he hv.home,
    fun hs => (hholds hs).env hst he⟩, fun hs l hl => ?_⟩
  exact (stable_rest (fronts_ended [])).env (Or.inr ⟨l, (he.of_calm hl).1⟩) (h.rest hs l (he.of_calm hl).1) he

/-- Back in front of a slot. -/
lemma between_after {s : Vars} {v : Slot} {d x : Byte}
    (h : At strict (.after v) ⟨d, x, 0x10⟩ arm F w) (hd : dirOf s.state = d) (hv : View v s)
    (hF : ∀ w, F w → v.Holds s w) : Between strict s w := by
  refine ⟨by rw [h.ports, hd], by rw [h.ports], ⟨v, hv, ?_, fun hs => hF w (h.far hs)⟩, fun _ l hl => ?_⟩
  · rcases h.spot with hst | ⟨c, hst | hst, hof⟩ <;> rw [hst]
    · trivial
    · exact ⟨rfl, hof⟩
    · exact ⟨rfl, hof⟩
  · exact absurd (hl ▸ h.spot) (noCalm_after v l)

lemma offered_nil (h : Base w) : Offered [] w :=
  ⟨fun c hc => by simp [LastOffered, Call.bytes] at hc, fun _ => h⟩

/-- Back home. -/
lemma between_home {s : Vars} {k : Prop} {x : Byte}
    (h : At strict (.home k) ⟨0x00, x, 0x10⟩ arm F w) (hv : s.state = .getChannel)
    (hF : F w → Filling [] w.far ∧ Base w) (hk : F w → k → Rest w) : Between strict s w := by
  refine ⟨by rw [h.ports, hv]; rfl, by rw [h.ports], ⟨.recv [], .getChannel hv, ?_, fun hs => ?_⟩,
    fun hs l hl => ?_⟩
  · rcases h.spot with hst | ⟨-, l, hst⟩ | ⟨c, hst | hst⟩ <;> rw [hst]
    · trivial
    · rfl
    · exact ⟨rfl, bytes_ne_nil c⟩
    · exact ⟨rfl, bytes_ne_nil c⟩
  · obtain ⟨hfill, hbase⟩ := hF (h.far hs)
    exact ⟨hfill, offered_nil hbase⟩
  · rcases h.spot with hst | ⟨hk', -⟩ | ⟨c, hst | hst⟩
    · rw [hl] at hst; cases hst
    · exact hk (h.far hs) hk'
    · rw [hl] at hst; cases hst
    · rw [hl] at hst; cases hst

/-! ## Taking a byte of the message -/

/-- The slot after the bytes `p`. -/
def Slot.taken (p : List Byte) : Slot := if Complete p then .prep p else .recv p

lemma complete_bytes (c : Call) : Complete c.bytes := by
  have hlen : c.bytes.length = 6 + (wordOf c.block.sendLo c.block.sendHi).toNat := by
    simp [Call.bytes]
    omega
  have hhead : headerLength c.bytes = (wordOf c.block.sendLo c.block.sendHi).toNat := rfl
  exact ⟨by omega, by omega⟩

lemma headerLength_append {p l : List Byte} (h : 6 ≤ p.length) :
    headerLength (p ++ l) = headerLength p := by
  rw [headerLength, headerLength]
  simp [List.getD, List.getElem?_append_left (show 4 < p.length by omega),
    List.getElem?_append_left (show 5 < p.length by omega)]

/-- A part of a message is complete only if it is all of it. -/
lemma complete_of_split {c : Call} {p l : List Byte} (h : c.bytes = p ++ l) :
    Complete p ↔ l = [] := by
  constructor
  · rintro ⟨h6, hlen⟩
    have hall := (complete_bytes c).2
    rw [h, List.length_append, headerLength_append h6] at hall
    exact List.length_eq_zero_iff.1 (by omega)
  · rintro rfl
    rw [List.append_nil] at h
    exact h ▸ complete_bytes c

lemma acked_recv {c : Call} {p l : List Byte} {ch x : Byte} (h : c.bytes = p ++ ch :: l) :
    (Stage.serving c (.recv p)).acked x = .ready c (Slot.taken (p ++ [ch])) ∧
      (Slot.taken (p ++ [ch])).Of c := by
  have h' : c.bytes = (p ++ [ch]) ++ l := by simp [h]
  have hc := complete_of_split h'
  simp only [Stage.acked, Slot.next, Slot.taken]
  by_cases hl : l = []
  · subst hl
    have hp : p ++ [ch] = c.bytes := h.symm
    rw [if_pos (hc.2 rfl), hp, if_pos (by simp [h])]
    exact ⟨rfl, rfl⟩
  · have hne : p.length + 1 ≠ c.bytes.length := by
      have := List.length_pos_iff.2 hl
      simp only [h, List.length_append, List.length_cons]
      omega
    have htake : c.bytes.take (p.length + 1) = p ++ [ch] := by
      rw [h', List.take_append_of_le_length (by simp), List.take_of_length_le (by simp)]
    rw [if_neg (mt hc.1 hl), if_neg hne, htake]
    obtain ⟨b, m, rfl⟩ := List.exists_cons_of_ne_nil hl
    exact ⟨rfl, b, m, h'⟩

/-- `PIND` is the byte of the slot. -/
lemma ok_pind {k : Byte → Avr α} {p : List Byte} {x : Byte} {G : Byte → AvrWorld → Prop}
    (h : At strict (.waiting (.recv p)) ⟨0x00, x, 0x10⟩ arm F w)
    (hF : StableAt (.waiting (.recv p)) F) (hfirst : p = [] → arm = .getChannel)
    (hG : ∀ w ch, F w → w.arm = arm → (forwards arm → p ≠ [] →
      ∃ c l, w.stage = .serving c (.recv p) ∧ c.bytes = p ++ ch :: l) → G ch w)
    (hk : ∀ ch w, At strict (.busy (.recv p) (Slot.taken (p ++ [ch])) x) ⟨0x00, x, 0x10⟩ arm (G ch) w →
      (avrRely strict).Ok Q (k ch) w) :
    (avrRely strict).Ok Q (avr .pind >>= k) w := by
  refine ok_at h (by rintro ⟨⟩) hF (fun w h _ => settled_of_noCalm ?_ h.spot) (fun w h => ?_)
    fun w ch w' h ha => ?_
  · rintro l (h | ⟨-, h⟩ | ⟨c, h, -⟩) <;> cases h
  · rcases h.spot with hst | ⟨hv, hst⟩ | ⟨c, hst, -⟩ <;> simp only [avrSafe, hst]
    exact h.arm.trans (hfirst (Slot.recv.inj hv))
  obtain ⟨rfl, hread, hdown⟩ := ha
  refine hk ch w' ⟨?_, h.ports, h.arm, fun hs => hG w' ch (h.far hs) h.arm fun hf hp => ?_⟩
  · rcases h.spot with hst | hst | ⟨c, hst, -⟩
    · exact Or.inl hst
    · exact Or.inr (Or.inl hst)
    · obtain ⟨l, hl⟩ := hread c p hst (by rw [h.ports])
      exact Or.inr (Or.inr ⟨c, hst, hst ▸ acked_recv hl⟩)
  · rcases h.spot with hst | ⟨hv, -⟩ | ⟨c, hst, -⟩
    · exact absurd hst (hdown hs (h.arm ▸ hf))
    · cases hv; exact absurd rfl hp
    · obtain ⟨l, hl⟩ := hread c p hst (by rw [h.ports])
      exact ⟨c, l, hst, hl⟩

/-- In front of the next slot nothing has been offered yet. -/
lemma offered_of_acked {v v' : Slot} {st : Stage} {P : Ports} {p : List Byte}
    (h : (Spot.acked v v').Has st) (hb : Base w) : Offered p { w with ports := P, stage := st } := by
  refine ⟨fun c hc => ?_, fun _ => hb⟩
  rcases h with hst | ⟨-, hst⟩ | ⟨c', hst, -⟩ <;> subst hst <;> rcases hc.1 with hc | hc <;> cases hc

lemma Offered.base_of_acked {v v' : Slot} {p : List Byte} (h : Offered p w)
    (hst : (Spot.acked v v').Has w.stage) : Base w := by
  refine h.2 fun c hc => ?_
  rcases hst with hst | ⟨-, hst⟩ | ⟨c', hst, -⟩ <;> rw [hst] at hc <;> rcases hc.1 with hc | hc <;> cases hc

/-! ## The arms that receive -/

/-- The arms of the first five bytes. -/
lemma ok_headerArm {p : List Byte} {x : Byte} {upd : Byte → Vars} (hp : p.length < 5)
    (h : At strict (.waiting (.recv p)) ⟨0x00, x, 0x10⟩ arm (fun w => Filling [] w.far ∧ Base w) w)
    (hview : ∀ ch, View (.recv (p ++ [ch])) (upd ch)) (hdir : ∀ ch, dirOf (upd ch).state = 0x00)
    (hfirst : p = [] → arm = .getChannel) :
    (avrRely strict).Ok (Between strict) (avr .pind >>= fun ch => ackByte (upd ch)) w := by
  refine ok_pind h (stable_base (still_filling []) (fronts_waiting _ _)) hfirst (G := fun _ w => Filling [] w.far ∧ Base w)
    (fun _ _ h _ _ => h) fun ch w h => ?_
  have hslot : Slot.taken (p ++ [ch]) = .recv (p ++ [ch]) := by
    rw [Slot.taken, if_neg fun hc => by have := hc.1; simp at this; omega]
  rw [hslot] at h
  rw [← bind_pure (ackByte (upd ch))]
  refine ok_ackByte (G := fun w => Filling [] w.far ∧ Offered (p ++ [ch]) w)
    (R := fun w => Filling [] w.far ∧ Base w) h (stable_base (still_filling []) (fronts_busy _ _ _ _))
    (stable_offered (still_filling []) (fronts_acked _ fun _ hq => (Slot.recv.inj hq).symm))
    (stable_offered (still_filling []) (fronts_after fun _ hq => (Slot.recv.inj hq).symm))
    (stable_base (still_filling []) (fronts_reset _ _))
    (stable_base (still_filling []) (fronts_released _))
    (stable_base (still_filling []) (fronts_home _)) (fun _ _ h => h) (fun _ _ h => h) ?_
    (by rintro _ _ ⟨⟩) (fun w P st h hst => ⟨h.1, offered_of_acked hst h.2⟩)
    (fun w hst _ h _ => ⟨h.1, h.2.base_of_acked hst⟩) ?_ ?_
  · rintro ⟨⟩
    exact hfirst rfl
  · intro w h
    refine between_after h (hdir ch) (hview ch) fun w h => ?_
    rw [Slot.Holds, if_neg (by simp; omega)]
    exact h
  · exact fun w _ h => between_home h rfl id fun _ hk => hk.elim

/-- What is known of a message as its bytes come in. -/
def DueIf (p : List Byte) (w : AvrWorld) : Prop := if Complete p then Due p w else Base w

lemma stable_dueIf {G : Far → Prop} {p : List Byte} (hG : Still G) (hsp : sp.Fronts []) :
    StableAt sp fun w => G w.far ∧ DueIf p w := by
  simp only [DueIf]
  split_ifs
  · exact stable_due hG hsp
  · exact stable_base hG hsp

/-- The last byte was offered only with the message sent in full. -/
lemma Offered.dueIf {c : Call} {p l : List Byte} {ch : Byte} (h : Offered p w)
    (hst : w.stage = .serving c (.recv p)) (hb : c.bytes = p ++ ch :: l) : DueIf (p ++ [ch]) w := by
  have hb' : c.bytes = (p ++ [ch]) ++ l := by simp [hb]
  rw [DueIf]
  split_ifs with hc
  · obtain rfl := (complete_of_split hb').1 hc
    have := h.1 c ⟨Or.inr hst, by simp [hb]⟩
    rwa [hb] at this
  · refine h.2 fun c' hlast => hc ((complete_of_split hb').2 ?_)
    rw [LastOffered, hst] at hlast
    obtain ⟨hst' | hst', hlen⟩ := hlast
    · cases hst'
    · cases hst'
      rw [hb'] at hlen
      simpa using hlen

/-- The record in front of the next slot. -/
def Kept (p : List Byte) (w : AvrWorld) : Prop := if Complete p then Due p w else Offered p w

lemma DueIf.kept {v v' : Slot} {st : Stage} {P : Ports} {p : List Byte} (h : DueIf p w)
    (hst : (Spot.acked v v').Has st) : Kept p { w with ports := P, stage := st } := by
  rw [DueIf] at h
  rw [Kept]
  split_ifs at h ⊢
  · exact h
  · exact offered_of_acked hst h

lemma stable_kept {G : Far → Prop} {p : List Byte} (hG : Still G) (hsp : ¬ Complete p → sp.Fronts p)
    (hc : Complete p → sp.Fronts []) : StableAt sp fun w => G w.far ∧ Kept p w := by
  simp only [Kept]
  split_ifs with h
  · exact stable_due hG (hc h)
  · exact stable_offered hG (hsp h)

lemma taken_eq_recv {p q : List Byte} (h : Slot.taken p = .recv q) : ¬ Complete p ∧ q = p := by
  rw [Slot.taken] at h
  split_ifs at h with hc
  exact ⟨hc, (Slot.recv.inj h).symm⟩

lemma stable_kept_acked {G : Far → Prop} {v : Slot} {p : List Byte} (hG : Still G) :
    StableAt (.acked v (.taken p)) fun w => G w.far ∧ Kept p w :=
  stable_kept hG (fun _ => fronts_acked _ fun _ hq => (taken_eq_recv hq).2)
    fun hc => fronts_acked _ fun _ hq => absurd hc (taken_eq_recv hq).1

lemma stable_kept_after {G : Far → Prop} {p : List Byte} (hG : Still G) :
    StableAt (.after (.taken p)) fun w => G w.far ∧ Kept p w :=
  stable_kept hG (fun _ => fronts_after fun _ hq => (taken_eq_recv hq).2)
    fun hc => fronts_after fun _ hq => absurd hc (taken_eq_recv hq).1

/-- Handing a byte to the endpoint while there is room. -/
lemma ok_usbPutByte {k : Unit → Avr α} {l : List Byte} {b : Byte} {K : AvrWorld → Prop}
    (h : At strict sp P arm (fun w => (Filling l w.far ∧ w.far.usb.selected = .toHost) ∧ K w) w)
    (ha : sp.Allows (.usb (.putByte b)))
    (hst : ∀ l, StableAt sp fun w => (Filling l w.far ∧ w.far.usb.selected = .toHost) ∧ K w)
    (hK : ∀ w u, K w → K { w with far := { w.far with usb := u } }) (hnc : sp.NoCalm)
    (hl : l.length < endpointSize)
    (hk : ∀ w, At strict sp P arm
      (fun w => (Filling (l ++ [b]) w.far ∧ w.far.usb.selected = .toHost) ∧ K w) w →
      (avrRely strict).Ok Q (k ()) w) :
    (avrRely strict).Ok Q (usbPutByte b >>= k) w := by
  refine ok_usb (G := fun _ w => (Filling (l ++ [b]) w.far ∧ w.far.usb.selected = .toHost) ∧ K w)
    h ha (hst l) hnc (fun w _ => Or.inl ⟨0, _, _, rfl⟩) (fun w v a u _ h hexec => ?_) fun _ => hk
  obtain ⟨⟨⟨hb, hin, ho, hhost⟩, hsel⟩, hkw⟩ := h
  have hroom : w.far.usb.rwal = true := by simp [Usb.rwal, hsel, hin, hb, hl]
  simp only [Usb.exec, hsel, hroom, and_self, if_true, Turn.done.injEq, true_and] at hexec
  subst hexec
  exact ⟨⟨⟨by simp [hb], hin, ho, hhost⟩, rfl⟩, hK w _ hkw⟩

/-- The header as the firmware keeps it. -/
def Vars.header (s : Vars) : List Byte :=
  [s.channel, s.command, s.param1, s.param2, loByte s.dataLength, hiByte s.dataLength]

lemma headerLength_header (s : Vars) : headerLength s.header = s.dataLength.toNat := by
  have h : headerLength s.header = (wordOf (loByte s.dataLength) (hiByte s.dataLength)).toNat := rfl
  rw [h, wordOf_lo_hi]

lemma complete_header (s : Vars) : Complete s.header ↔ s.dataLength = 0 := by
  have hlen : s.header.length = 6 := rfl
  rw [Complete, headerLength_header, hlen]
  constructor
  · rintro ⟨-, h⟩
    exact BitVec.eq_of_toNat_eq (by simp; omega)
  · rintro h
    simp [h]

/-- After the sixth byte the header goes to the host. -/
lemma ok_sendHeader {s : Vars} {Q : Vars → AvrWorld → Prop} {K : AvrWorld → Prop}
    (h : At strict sp P arm (fun w => Filling [] w.far ∧ K w) w)
    (ha : ∀ o, sp.Allows (.usb o)) (hnc : sp.NoCalm)
    (hst : ∀ G, Still G → StableAt sp fun w => G w.far ∧ K w)
    (hK : ∀ w u, K w → K { w with far := { w.far with usb := u } })
    (hbody : s.dataLength ≠ 0 → ∀ w,
      At strict sp P arm (fun w => Collecting s.header w.far ∧ K w) w → Q s w)
    (hnobody : s.dataLength = 0 → ∀ w,
      At strict sp P arm (fun w => Pending s.header w.far ∧ K w) w → Q s w) :
    (avrRely strict).Ok Q (do
      usbSelectEndpoint .toHost
      untilInPacketReady
      usbPutByte s.channel
      usbPutByte s.command
      usbPutByte s.param1
      usbPutByte s.param2
      usbPutByte (loByte s.dataLength)
      usbPutByte (hiByte s.dataLength)
      usbFlushPacket
      if s.dataLength ≠ 0 then
        untilInPacketReady
        pure s
      else pure s) w := by
  have hsel := fun l => hst _ ((still_filling l).and_selected .toHost)
  refine ok_usb (G := fun _ w => (Filling [] w.far ∧ w.far.usb.selected = .toHost) ∧ K w) h (ha _)
    (hst _ (still_filling [])) hnc (fun w _ => Or.inl ⟨0, _, _, rfl⟩)
    (fun w v a u _ h hexec => ?_) fun _ w h => ?_
  · simp only [Usb.exec, Turn.done.injEq, true_and] at hexec
    subst hexec
    exact ⟨⟨⟨h.1.inBank, h.1.inPacket, h.1.outBank, h.1.host⟩, rfl⟩, hK w _ h.2⟩
  refine ok_usb (G := fun _ w => (Filling [] w.far ∧ w.far.usb.selected = .toHost) ∧ K w) h (ha _)
    (hsel []) hnc (fun w h => Or.inl ⟨0, (), w.far.usb, by simp [Usb.exec, h.1.2, h.1.1.inPacket]⟩)
    (fun w v a u _ h hexec => ?_) fun _ w h => ?_
  · simp only [Usb.exec, h.1.2, h.1.1.inPacket, and_self, if_true, Turn.done.injEq, true_and] at hexec
    subst hexec
    exact ⟨h.1, hK w _ h.2⟩
  refine ok_usbPutByte h (ha _) hsel hK hnc (by decide) fun w h => ?_
  refine ok_usbPutByte h (ha _) hsel hK hnc (by simp [endpointSize]) fun w h => ?_
  refine ok_usbPutByte h (ha _) hsel hK hnc (by simp [endpointSize]) fun w h => ?_
  refine ok_usbPutByte h (ha _) hsel hK hnc (by simp [endpointSize]) fun w h => ?_
  refine ok_usbPutByte h (ha _) hsel hK hnc (by simp [endpointSize]) fun w h => ?_
  refine ok_usbPutByte h (ha _) hsel hK hnc (by simp [endpointSize]) fun w h => ?_
  have hflush : ∀ (w : AvrWorld) (v : Byte) (u : Usb), Filling s.header w.far →
      w.far.usb.selected = .toHost → w.far.usb.exec v .flushPacket = .done () u →
      u = ⟨.toHost, [], some s.header, w.far.usb.outBank⟩ := by
    intro w v u hf hs hexec
    simp only [Usb.exec, Usb.release, hs, hf.inPacket, hf.inBank, Turn.done.injEq, true_and] at hexec
    exact hexec.symm
  have hheader := hsel s.header
  by_cases h0 : s.dataLength = 0
  · refine ok_usb (G := fun _ w => Pending s.header w.far ∧ K w) h (ha _) hheader hnc
      (fun w _ => Or.inl ⟨0, (), _, rfl⟩) (fun w v a u _ h hexec => ?_) fun _ w h => ?_
    · obtain rfl := hflush w v u h.1.1 h.1.2 hexec
      refine ⟨⟨rfl, h.1.1.outBank, (complete_header s).2 h0, Or.inl ⟨h.1.1.host, rfl, rfl⟩⟩, hK w _ h.2⟩
    · simp only [h0, ne_eq, not_true, if_false]
      exact hnobody h0 w h
  · have hsent := hst _ ((still_headerSent s.header).and_selected .toHost)
    refine ok_usb (G := fun _ w => (HeaderSent s.header w.far ∧ w.far.usb.selected = .toHost) ∧ K w)
      h (ha _) hheader hnc (fun w _ => Or.inl ⟨0, (), _, rfl⟩) (fun w v a u _ h hexec => ?_)
      fun _ w h => ?_
    · obtain rfl := hflush w v u h.1.1 h.1.2 hexec
      have hlen : headerLength s.header ≠ 0 := by
        rw [headerLength_header]
        exact fun hz => h0 (BitVec.eq_of_toNat_eq hz)
      exact ⟨⟨⟨rfl, h.1.1.outBank, rfl, hlen, Or.inl ⟨h.1.1.host, rfl⟩⟩, rfl⟩, hK w _ h.2⟩
    simp only [h0, ne_eq, not_false_eq_true, if_true]
    refine ok_usb (G := fun _ w => Collecting s.header w.far ∧ K w) h (ha _) hsent hnc
      (fun w h => ?_) (fun w v a u _ h hexec => ?_) fun _ w h => hbody h0 w h
    · rcases h.1.1.moves with hmove | hin
      · exact Or.inr (Or.inl hmove)
      · exact Or.inl ⟨0, (), w.far.usb, by simp [Usb.exec, h.1.2, hin]⟩
    · obtain ⟨⟨⟨hb, ho, hl, hn, hhost⟩, hs⟩, hkw⟩ := h
      have hnone : w.far.usb.inPacket = none := by
        by_contra hne
        simp [Usb.exec, hne] at hexec
      simp only [Usb.exec, hs, hnone, and_self, if_true, Turn.done.injEq, true_and] at hexec
      subst hexec
      rcases hhost with ⟨-, hin⟩ | ⟨hw, -⟩
      · rw [hnone] at hin; cases hin
      · refine ⟨⟨hs, hnone, ho, ⟨[], hw, ?_⟩, by simp [hb], le_rfl⟩, hK w _ hkw⟩
        simp [hb, Vars.header]

/-- The arm of the sixth byte: the header goes to the host. -/
lemma ok_getLengthHigh {s : Vars} {x : Byte} (hs : s.state = .getLengthHigh)
    (h : At strict (.waiting (.recv [s.channel, s.command, s.param1, s.param2, loByte s.dataLength]))
      ⟨0x00, x, 0x10⟩ .getLengthHigh
      (fun w => Filling [] w.far ∧
        Offered [s.channel, s.command, s.param1, s.param2, loByte s.dataLength] w) w) :
    (avrRely strict).Ok (Between strict) (doState s) w := by
  have hne : [s.channel, s.command, s.param1, s.param2, loByte s.dataLength] ≠ [] := by simp
  set p := [s.channel, s.command, s.param1, s.param2, loByte s.dataLength] with hp
  simp only [doState, hs]
  refine ok_pind (G := fun ch w => Filling [] w.far ∧ DueIf (p ++ [ch]) w) h
    (stable_offered (still_filling []) (fronts_waiting _ _)) (fun hnil => absurd hnil hne)
    (fun w ch h _ hread => ⟨h.1, ?_⟩)
    fun ch w h => ?_
  · obtain ⟨c, l, hst, hb⟩ := hread trivial hne
    exact h.2.dueIf hst hb
  set n := wordOf (loByte s.dataLength) ch with hn
  have hheader : ∀ st, (Vars.mk s.channel s.command s.param1 s.param2 n st).header = p ++ [ch] := by
    intro st
    simp [Vars.header, hp, hn]
  have hcomplete : Complete (p ++ [ch]) ↔ n = 0 := by
    rw [← hheader .getData, complete_header]
  refine ok_ackByte (G := fun w => Filling [] w.far ∧ Kept (p ++ [ch]) w) (R := fun _ => False) h
    (stable_dueIf (still_filling []) (fronts_busy _ _ _ _))
    (stable_kept_acked (still_filling [])) (stable_kept_after (still_filling []))
    stable_false stable_false stable_false (fun _ _ h => h) (fun _ _ h => h)
    (fun hv => absurd (Slot.recv.inj hv) hne) (by rintro _ _ ⟨⟩)
    (fun w P st h hst => ⟨h.1, h.2.kept hst⟩) ?_ ?_ ?_
  · intro w _ harm _ hclean
    simp only [CleanReset, harm] at hclean
  · intro w h
    refine ok_sendHeader h (fun _ => by rintro ⟨⟩) (noCalm_after _)
      (fun G hG => stable_kept_after hG)
      (fun _ _ h => h) (fun h0 w h => ?_) fun h0 w h => ?_
    · rw [hheader, Slot.taken, if_neg (mt hcomplete.1 h0)] at h
      have hlen : headerLength (p ++ [ch]) = n.toNat := by
        rw [← hheader .getData, headerLength_header]
      refine between_after h (by simp only [if_pos h0]; rfl)
        (.getData (if_pos h0) (by simp [hp]) h0 (by rw [hlen]; simp [hp])) fun w h => ?_
      rw [Kept, if_neg (mt hcomplete.1 h0)] at h
      rw [Slot.Holds, if_pos (by simp [hp])]
      exact h
    · have hnz : ¬ n ≠ 0 := not_not_intro h0
      rw [hheader, Slot.taken, if_pos (hcomplete.2 h0)] at h
      refine between_after h (by simp only [if_neg hnz]; rfl)
        (.sendPrep (if_neg hnz) (hcomplete.2 h0)) fun w h => ?_
      rw [Kept, if_pos (hcomplete.2 h0)] at h
      exact Or.inl h
  · intro w _ h
    refine ok_sendHeader (K := fun _ => False) ⟨h.spot, h.ports, h.arm, fun hs => (h.far hs).elim⟩
      (fun _ => by rintro ⟨⟩) noCalm_home (fun _ _ => ⟨fun _ h => h.2.elim, fun h => h.2.elim⟩)
      (fun _ _ h => h)
      (fun _ w h => ?_) fun _ w h => ?_
    · exact between_home h rfl (fun h => h.2.elim) fun h => h.2.elim
    · exact between_home h rfl (fun h => h.2.elim) fun h => h.2.elim

lemma Collecting.append {p : List Byte} {b : Byte} {f : Far} {u : Usb} (h : Room p f)
    (hu : u = ⟨.toHost, f.usb.inBank ++ [b], f.usb.inPacket, f.usb.outBank⟩) :
    Collecting (p ++ [b]) { f with usb := u } := by
  obtain ⟨⟨hsel, hin, ho, ⟨got, hhost, hgot⟩, -, h6⟩, hroom⟩ := h
  subst hu
  refine ⟨rfl, hin, ho, ⟨got, ?_, ?_⟩, ?_, ?_⟩
  · rw [List.take_append_of_le_length h6]
    exact hhost
  · rw [List.drop_append_of_le_length h6, ← hgot, List.append_assoc]
  · simp only [List.length_append, List.length_singleton]
    exact hroom
  · simp only [List.length_append, List.length_singleton]
    exact h6.trans (Nat.le_succ _)

section SendByte

variable {k : Unit → Avr α} {p : List Byte} {b : Byte} {K : AvrWorld → Prop}

/-- Handing a byte of the body to the endpoint while there is room. -/
lemma ok_putBody (h : At strict sp P arm (fun w => Room p w.far ∧ K w) w)
    (ha : ∀ o, sp.Allows (.usb o)) (hnc : sp.NoCalm)
    (hst : ∀ G, Still G → StableAt sp fun w => G w.far ∧ K w)
    (hK : ∀ w u, K w → K { w with far := { w.far with usb := u } })
    (hk : ∀ w, At strict sp P arm (fun w => Collecting (p ++ [b]) w.far ∧ K w) w →
      (avrRely strict).Ok Q (k ()) w) :
    (avrRely strict).Ok Q (usbPutByte b >>= k) w := by
  refine ok_usb (G := fun _ w => Collecting (p ++ [b]) w.far ∧ K w) h (ha _) (hst _ (still_room p))
    hnc (fun w _ => Or.inl ⟨0, _, _, rfl⟩) (fun w v a u _ h hexec => ?_) fun _ => hk
  have hrwal : w.far.usb.rwal = true := by
    simp [Usb.rwal, h.1.1.selected, h.1.1.inPacket, h.1.2]
  simp only [Usb.exec, h.1.1.selected, hrwal, and_self, if_true, Turn.done.injEq, true_and] at hexec
  exact ⟨Collecting.append h.1 hexec.symm, hK w _ h.2⟩

/-- `usbSendByte` in the middle of a body. -/
lemma ok_usbSendByte (h : At strict sp P arm (fun w => Collecting p w.far ∧ K w) w)
    (ha : ∀ o, sp.Allows (.usb o)) (hnc : sp.NoCalm)
    (hst : ∀ G, Still G → StableAt sp fun w => G w.far ∧ K w)
    (hK : ∀ w u, K w → K { w with far := { w.far with usb := u } })
    (hmore : p.length < 6 + headerLength p)
    (hk : ∀ w, At strict sp P arm (fun w => Collecting (p ++ [b]) w.far ∧ K w) w →
      (avrRely strict).Ok Q (k ()) w) :
    (avrRely strict).Ok Q (usbSendByte b >>= k) w := by
  refine ok_usb (G := fun (a : Bool) w =>
    (Collecting p w.far ∧ (a = true ↔ w.far.usb.inBank.length < endpointSize)) ∧ K w) h (ha _)
    (hst _ (still_collecting p)) hnc (fun w _ => Or.inl ⟨0, _, _, rfl⟩) (fun w v a u _ h hexec => ?_)
    fun a w h => ?_
  · simp only [Usb.exec, Turn.done.injEq] at hexec
    obtain ⟨rfl, rfl⟩ := hexec
    exact ⟨⟨h.1, by simp [Usb.rwal, h.1.selected, h.1.inPacket]⟩, hK w _ h.2⟩
  cases a with
  | true =>
      refine ok_putBody ⟨h.spot, h.ports, h.arm, fun hs => ?_⟩ ha hnc hst hK hk
      exact ⟨⟨(h.far hs).1.1, (h.far hs).1.2.1 rfl⟩, (h.far hs).2⟩
  | false =>
      -- the bank is full: its 64 bytes go to the host first
      have hfull : At strict sp P arm
          (fun w => (Collecting p w.far ∧ ¬ w.far.usb.inBank.length < endpointSize) ∧ K w) w :=
        ⟨h.spot, h.ports, h.arm, fun hs => ⟨⟨(h.far hs).1.1, by simpa using (h.far hs).1.2⟩, (h.far hs).2⟩⟩
      have hstill : Still fun f => Collecting p f ∧ ¬ f.usb.inBank.length < endpointSize :=
        ⟨fun h hs => (by rw [h.1.step] at hs; cases hs),
          fun h ho => ⟨(still_collecting p).ack h.1 ho, h.2⟩⟩
      refine ok_usb (G := fun _ w => PacketSent p w.far ∧ K w) hfull (ha _) (hst _ hstill) hnc
        (fun w _ => Or.inl ⟨0, _, _, rfl⟩) (fun w v a u _ h hexec => ?_) fun _ w h => ?_
      · obtain ⟨⟨⟨hsel, hin, ho, ⟨got, hhost, hgot⟩, hroom, h6⟩, hnot⟩, hkw⟩ := h
        simp only [Usb.exec, Usb.release, hsel, hin, Turn.done.injEq, true_and] at hexec
        subst hexec
        exact ⟨⟨rfl, rfl, ho, h6, hmore, got, hhost, Or.inr ⟨_, rfl, by omega, hgot⟩⟩, hK w _ hkw⟩
      refine ok_usb (G := fun _ w => Room p w.far ∧ K w) h (ha _) (hst _ (still_packetSent p)) hnc
        (fun w h => ?_) (fun w v a u _ h hexec => ?_) fun _ w h => ok_putBody h ha hnc hst hK hk
      · rcases h.1.moves with hmove | hin
        · exact Or.inr (Or.inl hmove)
        · exact Or.inl ⟨0, (), w.far.usb, by simp [Usb.exec, h.1.selected, hin]⟩
      · obtain ⟨⟨hsel, hb, ho, h6, -, got, hhost, hpacket⟩, hkw⟩ := h
        have hnone : w.far.usb.inPacket = none := by
          by_contra hne
          simp [Usb.exec, hne] at hexec
        simp only [Usb.exec, hsel, hnone, and_self, if_true, Turn.done.injEq, true_and] at hexec
        subst hexec
        rcases hpacket with ⟨-, hgot⟩ | ⟨q, hq, -⟩
        · refine ⟨⟨⟨hsel, hnone, ho, ⟨got, hhost, ?_⟩, ?_, h6⟩, ?_⟩, hK w _ hkw⟩
          · rw [hb, List.append_nil, hgot]
          · simp [hb]
          · simp [hb, endpointSize]
        · rw [hnone] at hq; cases hq

end SendByte

/-- The arm of the body. -/
lemma ok_getData {s : Vars} {p : List Byte} {x : Byte} (hs : s.state = .getData)
    (h6 : 6 ≤ p.length) (hpos : s.dataLength ≠ 0)
    (hlen : p.length + s.dataLength.toNat = 6 + headerLength p)
    (h : At strict (.waiting (.recv p)) ⟨0x00, x, 0x10⟩ .getData
      (fun w => Collecting p w.far ∧ Offered p w) w) :
    (avrRely strict).Ok (Between strict) (doState s) w := by
  have hne : p ≠ [] := by
    rintro rfl
    simp at h6
  simp only [doState, hs]
  refine ok_pind (G := fun ch w => Collecting p w.far ∧ DueIf (p ++ [ch]) w) h
    (stable_offered (still_collecting p) (fronts_waiting _ _)) (fun hnil => absurd hnil hne)
    (fun w ch h _ hread => ⟨h.1, ?_⟩)
    fun ch w h => ?_
  · obtain ⟨c, l, hst, hb⟩ := hread trivial hne
    exact h.2.dueIf hst hb
  have hdec : (s.dataLength - 1).toNat = s.dataLength.toNat - 1 := by
    have : s.dataLength.toNat ≠ 0 := fun hz => hpos (BitVec.eq_of_toNat_eq hz)
    bv_omega
  have hpos' : 0 < s.dataLength.toNat := Nat.pos_of_ne_zero fun hz => hpos (BitVec.eq_of_toNat_eq hz)
  have hzero : s.dataLength - 1 = 0 ↔ s.dataLength.toNat = 1 := by
    constructor
    · intro hz
      rw [hz] at hdec
      simp at hdec
      omega
    · intro hz
      exact BitVec.eq_of_toNat_eq (by rw [hdec, hz]; rfl)
  have hhead : headerLength (p ++ [ch]) = headerLength p := headerLength_append h6
  have hcomplete : Complete (p ++ [ch]) ↔ s.dataLength - 1 = 0 := by
    rw [hzero, Complete, hhead, List.length_append, List.length_singleton]
    omega
  refine ok_usbSendByte h (fun _ => by rintro ⟨⟩) (noCalm_busy _ _ _)
    (fun G hG => stable_dueIf hG (fronts_busy _ _ _ _)) (fun _ _ h => h) (by omega) fun w h => ?_
  by_cases h0 : s.dataLength - 1 = 0
  · rw [if_pos h0]
    have hc := hcomplete.2 h0
    simp only [DueIf, if_pos hc] at h
    have hfront : ∀ q, Slot.taken (p ++ [ch]) = .recv q → q = [] :=
      fun q hq => absurd hc (taken_eq_recv hq).1
    refine ok_usb (G := fun _ w => Owed (p ++ [ch]) w) h (by rintro ⟨⟩)
      (stable_due (still_collecting _) (fronts_busy _ _ _ _)) (noCalm_busy _ _ _)
      (fun w _ => Or.inl ⟨0, _, _, rfl⟩) (fun w v a u _ h hexec => Or.inl ⟨?_, h.2⟩) fun _ w h => ?_
    · obtain ⟨⟨hsel, hin, ho, ⟨got, hhost, hgot⟩, -, -⟩, -⟩ := h
      simp only [Usb.exec, Usb.release, hsel, hin, Turn.done.injEq, true_and] at hexec
      subst hexec
      exact ⟨rfl, ho, hc, Or.inr ⟨got, _, hhost, rfl, hgot⟩⟩
    rw [← bind_pure (ackByte _)]
    refine ok_ackByte (G := fun w => Owed (p ++ [ch]) w) (R := fun _ => False) h
      (stable_owed (fronts_busy _ _ _ _)) (stable_owed (fronts_acked _ hfront))
      (stable_owed (fronts_after hfront)) stable_false stable_false stable_false (fun _ _ h => h) (fun _ _ h => h) (fun hv => absurd (Slot.recv.inj hv) hne)
      (by rintro _ _ ⟨⟩) (fun _ _ _ h _ => h) (fun w _ harm _ hclean => ?_) (fun w h => ?_) fun w _ h => ?_
    · simp only [CleanReset, harm] at hclean
    · rw [Slot.taken, if_pos hc] at h
      exact between_after h rfl (.sendPrep rfl hc) fun _ h => h
    · exact between_home h rfl (fun h => h.elim) fun h => h.elim
  · rw [if_neg h0]
    have hc := mt hcomplete.1 h0
    simp only [DueIf, if_neg hc] at h
    have hfront : ∀ q, Slot.taken (p ++ [ch]) = .recv q → q = p ++ [ch] :=
      fun q hq => (taken_eq_recv hq).2
    rw [← bind_pure (ackByte _)]
    refine ok_ackByte (G := fun w => Collecting (p ++ [ch]) w.far ∧ Offered (p ++ [ch]) w)
      (R := fun _ => False) h (stable_base (still_collecting _) (fronts_busy _ _ _ _))
      (stable_offered (still_collecting _) (fronts_acked _ hfront))
      (stable_offered (still_collecting _) (fronts_after hfront)) stable_false
      stable_false stable_false (fun _ _ h => h) (fun _ _ h => h)
      (fun hv => absurd (Slot.recv.inj hv) hne) (by rintro _ _ ⟨⟩)
      (fun w P st h hst => ⟨h.1, offered_of_acked hst h.2⟩) (fun w _ harm _ hclean => ?_) (fun w h => ?_)
      fun w _ h => ?_
    · simp only [CleanReset, harm] at hclean
    · rw [Slot.taken, if_neg hc] at h
      refine between_after h rfl (.getData rfl ?_ h0 ?_) fun w h => ?_
      · simp only [List.length_append, List.length_singleton]
        omega
      · rw [hhead, List.length_append, List.length_singleton, hdec]
        omega
      · rw [Slot.Holds, if_pos (by simp; omega)]
        exact h
    · exact between_home h rfl (fun h => h.elim) fun h => h.elim

end Udfs.Link
