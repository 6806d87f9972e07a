import Udfs.Link.Receive

/-!
# The firmware replies

The arms `SEND_PREP` to `FINISH` turn the bus, give the bytes of the response as the host
sends them and turn the bus back.  With them `doMessaging` keeps to the protocol in
every state: it takes the exchange from one slot to the next.
-/

namespace Udfs.Link

variable {strict : Prop} {α : Type} {Q : α → AvrWorld → Prop} {sp : Spot} {P : Ports}
  {arm : MsgState} {F : AvrWorld → Prop} {w : AvrWorld}

/-! ## The bytes of the response -/

/-- Bytes are coming: for one of the possible `r`, the bytes `l r`. -/
def Incoming {β : Type} (l : β → List Byte) (D : β → AvrWorld → Prop) (C : β → Prop)
    (w : AvrWorld) : Prop :=
  ∃ r, (Coming (l r) w.far ∧ w.far.usb.selected = .fromHost) ∧ D r w ∧ C r

section Incoming

variable {β : Type} {l : β → List Byte} {D : β → AvrWorld → Prop} {C : β → Prop}

lemma stable_incoming_done {p : List Byte} {l : Server.Response → List Byte}
    {C : Server.Response → Prop} (hsp : sp.Fronts []) : StableAt sp (Incoming l (Done p) C) := by
  refine ⟨fun {a b c w w'} hs ⟨r, hcoming, hdone, hc⟩ he => ?_, fun ⟨_, _, hdone, _⟩ => hdone.1.1⟩
  obtain ⟨hcoming', hserved⟩ := he.far ((still_coming _).and_selected _) hcoming
  exact ⟨r, hcoming', he.done (hsp.notLast hs) hserved hdone, hc⟩

lemma stable_incoming_base {l : Unit → List Byte} {C : Unit → Prop} (hsp : sp.Fronts []) :
    StableAt sp (Incoming l (fun _ => Base) C) := by
  refine ⟨fun {a b c w w'} hs ⟨r, hcoming, hbase, hc⟩ he => ?_, fun ⟨_, _, hbase, _⟩ => hbase.1⟩
  obtain ⟨hcoming', hserved⟩ := he.far ((still_coming _).and_selected _) hcoming
  exact ⟨r, hcoming', he.base (hsp.notLast hs) hserved hbase, hc⟩

/-- `usbRecvByte` takes the first of the bytes that are coming. -/
lemma ok_usbRecvByte {k : Byte → Avr α} (h : At strict sp P arm (Incoming l D C) w)
    (ha : ∀ o, sp.Allows (.usb o)) (hst : StableAt sp (Incoming l D C)) (hnc : sp.NoCalm)
    (hD : ∀ r w u, D r w → D r { w with far := { w.far with usb := u } }) (hne : ∀ r, C r → l r ≠ [])
    (hk : ∀ b w, At strict sp P arm
      (Incoming (fun r => (l r).tail) D fun r => C r ∧ (l r).head? = some b) w →
      (avrRely strict).Ok Q (k b) w) :
    (avrRely strict).Ok Q (usbRecvByte >>= k) w := by
  refine ok_usb (G := fun (b : Byte) =>
    Incoming (fun r => (l r).tail) D fun r => C r ∧ (l r).head? = some b) h (ha _) hst hnc
    (fun w h => ?_) (fun w v b u _ h hexec => ?_) hk
  · obtain ⟨r, ⟨hcoming, hsel⟩, -, hc⟩ := h
    rcases hcoming.moves (hne r hc) hsel 0 with hdone | hmove | hagain
    · exact Or.inl ⟨0, hdone⟩
    · exact Or.inr (Or.inl hmove)
    · exact Or.inr (Or.inr ⟨0, hagain⟩)
  · obtain ⟨r, ⟨hcoming, hsel⟩, hd, hc⟩ := h
    obtain ⟨m, ho, rfl⟩ := Usb.recv_done hsel hexec
    obtain ⟨l', hl, hcoming'⟩ := hcoming.recv ho
    refine ⟨r, ⟨?_, hsel⟩, hD r w _ hd, hc, by rw [hl]; rfl⟩
    simp only [hl, List.tail_cons]
    exact hcoming'

end Incoming

lemma responseBytes_length (r : Server.Response) : (responseBytes r).length = 3 + r.body.length := by
  simp [responseBytes]
  omega

lemma replyLength_response {tx : List Byte} {r : Server.Response} (h : tx <+: responseBytes r)
    (h3 : 3 ≤ tx.length) : replyLength tx = r.body.length := by
  obtain ⟨m, hm⟩ := h
  have hget : ∀ i < tx.length, tx.getD i 0 = (responseBytes r).getD i 0 := by
    intro i hi
    rw [← hm]
    simp [List.getD, List.getElem?_append_left hi]
  have hlen := r.body_lt
  rw [replyLength, hget 1 (by omega), hget 2 (by omega), toNat_wordOf]
  simp [responseBytes]
  omega

/-- A reply that is a part of a response and done is all of it. -/
lemma ReplyDone.eq_response {tx : List Byte} {r : Server.Response} (hd : ReplyDone tx)
    (h : tx <+: responseBytes r) : tx = responseBytes r := by
  refine h.eq_of_length ?_
  rw [responseBytes_length, ← replyLength_response h hd.1]
  exact hd.2

lemma prefix_snoc {tx l : List Byte} {b : Byte} (h : tx <+: l)
    (hb : (l.drop tx.length).head? = some b) : tx ++ [b] <+: l := by
  obtain ⟨m, rfl⟩ := h
  rw [List.drop_left] at hb
  obtain ⟨m', rfl⟩ := List.head?_eq_some_iff.1 hb
  exact ⟨m', by simp⟩

/-! ## The rules -/

lemma busy_of_waiting {v v' : Slot} {x : Byte} {st : Stage} (h : (Spot.waiting v).Has st)
    (hnext : ∀ c, v.Of c → (Stage.serving c v).acked x = .ready c v' ∧ v'.Of c) :
    (Spot.busy v v' x).Has st := by
  rcases h with hst | hst | ⟨c, hst, hof⟩
  · exact Or.inl hst
  · exact Or.inr (Or.inl hst)
  · exact Or.inr (Or.inr ⟨c, hst, hst ▸ hnext c hof⟩)

lemma noCalm_waiting (v : Slot) : (Spot.waiting v).NoCalm := by
  rintro l (h | ⟨-, h⟩ | ⟨c, h, -⟩) <;> cases h

lemma acked_reply {c : Call} {p tx : List Byte} (x : Byte) (hd : ¬ ReplyDone tx)
    (hof : (Slot.reply p tx).Of c) :
    (Stage.serving c (.reply p tx)).acked x = .ready c (.reply p (tx ++ [x])) ∧
      (Slot.reply p (tx ++ [x])).Of c := by
  simp only [Stage.acked, if_neg hd, Slot.next]
  exact ⟨trivial, hof⟩

/-- A byte of the response on port D. -/
lemma ok_portd {k : Unit → Avr α} {p tx : List Byte} {b x : Byte} (hd : ¬ ReplyDone tx)
    (h : At strict (.waiting (.reply p tx)) ⟨0xff, x, 0x10⟩ arm F w)
    (hF : StableAt (.waiting (.reply p tx)) F) (hP : PortFree F)
    (hk : ∀ w, At strict (.busy (.reply p tx) (.reply p (tx ++ [b])) b) ⟨0xff, b, 0x10⟩ arm F w →
      (avrRely strict).Ok Q (k ()) w) :
    (avrRely strict).Ok Q (avr (.portd b) >>= k) w := by
  refine ok_at h (by rintro ⟨⟩) hF (fun w h _ => settled_of_noCalm (noCalm_waiting _) h.spot)
    (fun w h => ?_) fun w _ w' h ha => ?_
  · rcases h.spot with hst | ⟨hv, -⟩ | ⟨c, hst, -⟩
    · simp only [avrSafe, hst]
    · cases hv
    · simp only [avrSafe, hst]
  obtain rfl := ha
  exact hk _ ⟨busy_of_waiting h.spot fun c hof => acked_reply b hd hof, by rw [h.ports], h.arm,
    fun hs => hP _ _ (h.far hs)⟩

/-- The arms that only give a byte of the response. -/
lemma ok_giveByte {p tx : List Byte} {b x : Byte} {upd : Vars} {m : ℕ}
    {C : Server.Response → Prop} (hd : ¬ ReplyDone tx) (hm : max 3 (tx ++ [b]).length = m)
    (h : At strict (.waiting (.reply p tx)) ⟨0xff, x, 0x10⟩ arm
      (Incoming (fun r => (responseBytes r).drop m) (Done p) C) w)
    (harm : ∀ w : AvrWorld, w.arm = arm → CleanReset w.far w.arm → w.far.unread = [])
    (hview : View (.reply p (tx ++ [b])) upd) (hdir : dirOf upd.state = 0xff)
    (hC : ∀ r, C r → tx ++ [b] <+: responseBytes r ∧
      ((tx ++ [b]).length ≤ 2 → upd.dataLength.toNat = r.body.length)) :
    (avrRely strict).Ok (Between strict) (avr (.portd b) >>= fun _ => ackByte upd) w := by
  have hnr : ∀ q, Slot.reply p (tx ++ [b]) = .recv q → q = [] := fun q => by rintro ⟨⟩
  refine ok_portd hd h (stable_incoming_done (fronts_waiting _ _)) (fun _ _ h => h) fun w h => ?_
  rw [← bind_pure (ackByte upd)]
  refine ok_ackByte (G := Incoming (fun r => (responseBytes r).drop m) (Done p) C)
    (R := fun w => Filling [] w.far ∧ Base w) h (stable_incoming_done (fronts_busy _ _ _ _))
    (stable_incoming_done (fronts_acked _ hnr)) (stable_incoming_done (fronts_after hnr))
    (stable_base (still_filling []) (fronts_reset _ _))
    (stable_base (still_filling []) (fronts_released _))
    (stable_base (still_filling []) (fronts_home _)) (fun _ _ h => h) (fun _ _ h => h) (by rintro ⟨⟩)
    (by rintro _ _ ⟨⟩; exact ⟨hd, rfl⟩) (fun _ _ _ h _ => h) (fun w _ ha h hclean => ?_) (fun w h => ?_) fun w _ h => ?_
  · obtain ⟨r, ⟨hcoming, -⟩, hdone, -⟩ := h
    rw [← hcoming.unread, harm w ha hclean] at hcoming
    exact ⟨hcoming.filling, hdone.1⟩
  · refine between_after h hdir hview fun w h => ?_
    obtain ⟨r, hcoming, hdone, hc⟩ := h
    rw [Slot.Holds, if_neg (by simp), hm]
    exact ⟨r, hcoming, hdone, hC r hc⟩
  · exact between_home h rfl id fun _ hk => hk.elim

/-! ## The arms that reply -/

/-- The firmware turns its side of the bus once the ROM has turned its own. -/
lemma ok_sendPrepArm {s : Vars} {p : List Byte} {x : Byte} (hs : s.state = .sendPrep)
    (hp : Complete p) (h : At strict (.waiting (.prep p)) ⟨0x00, x, 0x10⟩ .sendPrep (Owed p) w) :
    (avrRely strict).Ok (Between strict) (doState s) w := by
  have hnr : ∀ q, Slot.reply p [] = .recv q → q = [] := fun q => by rintro ⟨⟩
  have hbusy : At strict (.busy (.prep p) (.reply p []) x) ⟨0x00, x, 0x10⟩ .sendPrep (Owed p) w :=
    ⟨busy_of_waiting h.spot fun c hof => ⟨rfl, hof⟩, h.ports, h.arm, h.far⟩
  simp only [doState, hs]
  refine ok_ackByte (G := Owed p) (R := fun _ => False) hbusy (stable_owed (fronts_busy _ _ _ _))
    (stable_owed (fronts_acked _ hnr)) (stable_owed (fronts_after hnr)) stable_false
    stable_false stable_false (fun _ _ h => h) (fun _ _ h => h) (by rintro ⟨⟩)
    (by rintro _ _ ⟨⟩) (fun _ _ _ h _ => h) (fun w _ harm _ hclean => ?_) (fun w h => ?_)
    fun w harm _ => (harm rfl).elim
  · simp only [CleanReset, harm] at hclean
  refine ok_at h (by rintro ⟨⟩) (stable_owed (fronts_after hnr))
    (fun w h _ => settled_of_noCalm (noCalm_after _) h.spot) (fun w h => ?_) fun w _ w' h ha => ?_
  · rcases h.spot with hst | ⟨c, hst | hst, -⟩ <;> simp only [avrSafe, hst]
  obtain rfl := ha
  have h' : At strict (.after (.reply p [])) ⟨0xff, x, 0x10⟩ .sendPrep (Owed p)
      { w with ports := { w.ports with ddrd := 0xff } } := ⟨h.spot, by rw [h.ports], h.arm, h.far⟩
  refine between_after h' rfl (.sendRetcode rfl hp) fun w h => ?_
  rw [Slot.Holds, if_pos rfl]
  exact h

/-- The message is executed or about to be, and the firmware listens to the host. -/
lemma stable_owed_selected {p : List Byte} (hsp : sp.Fronts []) :
    StableAt sp fun w => Owed p w ∧ w.far.usb.selected = .fromHost :=
  ⟨fun hs h he => ⟨he.owed (hsp.notLast hs) h.1, he.selected.trans h.2⟩, fun h => h.1.recorded⟩

/-- The first byte of the response, for which the firmware waits as long as it takes. -/
lemma ok_firstByte {k : Byte → Avr α} {p : List Byte} {x : Byte}
    (h : At strict (.waiting (.reply p [])) ⟨0xff, x, 0x10⟩ arm (Owed p) w)
    (hk : ∀ b w, At strict (.waiting (.reply p [])) ⟨0xff, x, 0x10⟩ arm
      (Incoming (fun r => (responseBytes r).drop 1) (Done p) fun r => r.returnCode = b) w →
      (avrRely strict).Ok Q (k b) w) :
    (avrRely strict).Ok Q (do
      usbSelectEndpoint .fromHost
      untilOutPacketReady
      let b ← usbRecvByte
      k b) w := by
  have hst : StableAt (.waiting (.reply p [])) _ := stable_owed_selected (p := p) (fronts_waiting _ _)
  have hpay : ∀ (w : AvrWorld) u, Owed p w → u.inBank = w.far.usb.inBank →
      u.inPacket = w.far.usb.inPacket → u.outBank = w.far.usb.outBank →
      Owed p { w with far := { w.far with usb := u } } := by
    rintro w u (⟨⟨hb, ho, hc, hhost⟩, hd⟩ | ⟨r, ⟨hb, hin, hhost⟩, hd⟩) h1 h2 h3
    · refine Or.inl ⟨⟨h1.trans hb, by rw [h3]; exact ho, hc, ?_⟩, hd⟩
      rw [h2]
      exact hhost
    · refine Or.inr ⟨r, ⟨h1.trans hb, h2.trans hin, ?_⟩, hd⟩
      rw [h3]
      exact hhost
  have hbytes : ∀ r, responseBytes r ≠ [] := fun r => by simp [responseBytes]
  refine ok_usb (G := fun _ w => Owed p w ∧ w.far.usb.selected = .fromHost) h (by rintro ⟨⟩)
    (stable_owed (fronts_waiting _ _)) (noCalm_waiting _) (fun w _ => Or.inl ⟨0, _, _, rfl⟩)
    (fun w v a u _ h hexec => ?_) fun _ w h => ?_
  · simp only [Usb.exec, Turn.done.injEq, true_and] at hexec
    subst hexec
    exact ⟨hpay w _ h rfl rfl rfl, rfl⟩
  refine ok_usb (G := fun _ w => Owed p w ∧ w.far.usb.selected = .fromHost) h (by rintro ⟨⟩)
    hst (noCalm_waiting _) (fun w h => ?_) (fun w v a u _ h hexec => ?_) fun _ w h => ?_
  · obtain ⟨⟨hp, -⟩ | ⟨r, hr, -⟩, hsel⟩ := h
    · exact Or.inr (Or.inl hp.moves)
    · by_cases hnone : w.far.usb.outBank = none
      · rcases hr.moves (hbytes r) hsel 0 with ⟨b, u, hdone⟩ | hmove | ⟨u, hagain⟩
        · simp [Usb.exec, hsel, hnone] at hdone
        · exact Or.inr (Or.inl hmove)
        · simp [Usb.exec, hsel, hnone] at hagain
      · exact Or.inl ⟨0, (), w.far.usb, by simp [Usb.exec, hsel, hnone]⟩
  · simp only [Usb.exec] at hexec
    split at hexec
    · simp only [Turn.done.injEq, true_and] at hexec
      subst hexec
      exact h
    · cases hexec
  refine ok_usb (G := fun (b : Byte) =>
    Incoming (fun r => (responseBytes r).drop 1) (Done p) fun r => r.returnCode = b) h (by rintro ⟨⟩)
    hst (noCalm_waiting _) (fun w h => ?_) (fun w v b u _ h hexec => ?_) fun b w h => hk b w h
  · obtain ⟨⟨hp, -⟩ | ⟨r, hr, -⟩, hsel⟩ := h
    · exact Or.inr (Or.inl hp.moves)
    · rcases hr.moves (hbytes r) hsel 0 with hdone | hmove | hagain
      · exact Or.inl ⟨0, hdone⟩
      · exact Or.inr (Or.inl hmove)
      · exact Or.inr (Or.inr ⟨0, hagain⟩)
  · obtain ⟨hown, hsel⟩ := h
    obtain ⟨m, ho, rfl⟩ := Usb.recv_done hsel hexec
    rcases hown with ⟨hp, -⟩ | ⟨r, hr, hd⟩
    · have := hp.outBank
      rw [ho] at this
      cases this
    · obtain ⟨l', hl, hcoming⟩ := hr.recv ho
      simp only [responseBytes, List.cons_append, List.cons.injEq] at hl
      obtain ⟨hb, hl⟩ := hl
      refine ⟨r, ⟨?_, hsel⟩, hd, hb⟩
      rw [← hl] at hcoming
      exact hcoming

/-- The first byte of the response, and its length from the packet it came in. -/
lemma ok_sendRetcodeArm {s : Vars} {p : List Byte} {x : Byte} (hs : s.state = .sendRetcode)
    (h : At strict (.waiting (.reply p [])) ⟨0xff, x, 0x10⟩ .sendRetcode (Owed p) w) :
    (avrRely strict).Ok (Between strict) (doState s) w := by
  simp only [doState, hs]
  refine ok_firstByte h fun b w h => ?_
  have hnr : ∀ q, Slot.reply p [b] = .recv q → q = [] := fun q => by rintro ⟨⟩
  refine ok_portd (by decide) h (stable_incoming_done (fronts_waiting _ _)) (fun _ _ h => h) fun w h => ?_
  refine ok_ackByte
    (G := Incoming (fun r => (responseBytes r).drop 1) (Done p) fun r => r.returnCode = b)
    (R := Incoming (fun _ => [0, 0]) (fun _ : Unit => Base) fun _ => True) h
    (stable_incoming_done (fronts_busy _ _ _ _)) (stable_incoming_done (fronts_acked _ hnr))
    (stable_incoming_done (fronts_after hnr)) (stable_incoming_base (fronts_reset _ _))
    (stable_incoming_base (fronts_released _)) (stable_incoming_base (fronts_home _))
    (fun _ _ h => h) (fun _ _ h => h) (by rintro ⟨⟩) (by rintro _ _ ⟨⟩; exact ⟨by decide, rfl⟩)
    (fun _ _ _ h _ => h) (fun w _ harm h hclean => ?_) (fun w h => ?_) fun w _ h => ?_
  · obtain ⟨r, ⟨hcoming, hsel⟩, hdone, -⟩ := h
    simp only [CleanReset, harm] at hclean
    rw [← hcoming.unread, hclean] at hcoming
    exact ⟨(), ⟨hcoming, hsel⟩, hdone.1, trivial⟩
  · refine ok_usbRecvByte h (fun _ => by rintro ⟨⟩) (stable_incoming_done (fronts_after hnr))
      (noCalm_after _) (fun _ _ _ h => h) (fun r _ => by simp [responseBytes]) fun lo w h => ?_
    refine ok_usbRecvByte h (fun _ => by rintro ⟨⟩) (stable_incoming_done (fronts_after hnr))
      (noCalm_after _) (fun _ _ _ h => h) (fun r _ => by simp [responseBytes]) fun hi w h => ?_
    refine between_after h rfl (.sendLengthLow rfl) fun w h => ?_
    obtain ⟨r, hcoming, hdone, ⟨hrc, hlo⟩, hhi⟩ := h
    rw [Slot.Holds, if_neg (by simp)]
    refine ⟨r, hcoming, hdone, ?_, fun _ => ?_⟩
    · rw [← hrc]
      exact ⟨_, rfl⟩
    · have hlt := r.body_lt
      simp only [responseBytes, List.drop_succ_cons, List.drop_zero, List.cons_append,
        List.head?_cons, List.tail_cons, Option.some.injEq] at hlo hhi
      rw [toNat_wordOf, ← hlo, ← hhi, BitVec.toNat_ofNat, BitVec.toNat_ofNat]
      omega
  · refine ok_usbRecvByte h (fun _ => by rintro ⟨⟩) (stable_incoming_base (fronts_home _)) noCalm_home
      (fun _ _ _ h => h) (fun _ _ => by simp) fun lo w h => ?_
    refine ok_usbRecvByte h (fun _ => by rintro ⟨⟩) (stable_incoming_base (fronts_home _)) noCalm_home
      (fun _ _ _ h => h) (fun _ _ => by simp) fun hi w h => ?_
    refine between_home h rfl (fun h => ?_) fun _ hk => hk.elim
    obtain ⟨_, ⟨hcoming, -⟩, hbase, -⟩ := h
    exact ⟨Coming.filling hcoming, hbase⟩

/-- What is still to come once the first three bytes are known. -/
abbrev Rest3 (p tx : List Byte) (n : ℕ) (C : Server.Response → Prop) : AvrWorld → Prop :=
  Incoming (fun r => (responseBytes r).drop n) (Done p) fun r => tx <+: responseBytes r ∧ C r

lemma lo_of_body {r : Server.Response} {n : Word} (h : n.toNat = r.body.length) :
    BitVec.ofNat 8 r.body.length = loByte n ∧ BitVec.ofNat 8 (r.body.length / 256) = hiByte n := by
  rw [loByte, hiByte, h]
  exact ⟨rfl, rfl⟩

lemma ok_sendLengthLowArm {s : Vars} {p : List Byte} {rc x : Byte} (hs : s.state = .sendLengthLow)
    (h : At strict (.waiting (.reply p [rc])) ⟨0xff, x, 0x10⟩ .sendLengthLow
      (Rest3 p [rc] 3 fun r => s.dataLength.toNat = r.body.length) w) :
    (avrRely strict).Ok (Between strict) (doState s) w := by
  have hview : View (.reply p ([rc] ++ [loByte s.dataLength])) { s with state := .sendLengthHigh } :=
    View.sendLengthHigh (s := { s with state := .sendLengthHigh }) rfl
  simp only [doState, hs]
  refine ok_giveByte (fun hd => absurd hd.1 (by simp)) (by simp) h
    (fun w harm hclean => by simpa only [CleanReset, harm] using hclean) hview rfl
    fun r hr => ⟨prefix_snoc hr.1 ?_, fun _ => hr.2⟩
  rw [← (lo_of_body hr.2).1]
  rfl

lemma ok_sendLengthHighArm {s : Vars} {p : List Byte} {rc x : Byte} (hs : s.state = .sendLengthHigh)
    (h : At strict (.waiting (.reply p [rc, loByte s.dataLength])) ⟨0xff, x, 0x10⟩ .sendLengthHigh
      (Rest3 p [rc, loByte s.dataLength] 3 fun r => s.dataLength.toNat = r.body.length) w) :
    (avrRely strict).Ok (Between strict) (doState s) w := by
  have hreply : replyLength ([rc, loByte s.dataLength] ++ [hiByte s.dataLength])
      = s.dataLength.toNat := by
    simp [replyLength, List.getD]
  have hC : ∀ r, ([rc, loByte s.dataLength] <+: responseBytes r ∧
      s.dataLength.toNat = r.body.length) →
      [rc, loByte s.dataLength] ++ [hiByte s.dataLength] <+: responseBytes r ∧
        (([rc, loByte s.dataLength] ++ [hiByte s.dataLength]).length ≤ 2 →
          s.dataLength.toNat = r.body.length) := by
    rintro r ⟨hfront, hlen⟩
    refine ⟨prefix_snoc hfront ?_, fun _ => hlen⟩
    rw [← (lo_of_body hlen).2]
    rfl
  have hd : ¬ ReplyDone [rc, loByte s.dataLength] := fun hd => absurd hd.1 (by simp)
  have harm : ∀ w : AvrWorld, w.arm = .sendLengthHigh → CleanReset w.far w.arm → w.far.unread = [] :=
    fun w harm hclean => by simpa only [CleanReset, harm] using hclean
  simp only [doState, hs]
  by_cases h0 : s.dataLength = 0
  · rw [if_neg (not_not_intro h0)]
    refine ok_giveByte hd rfl h harm (.finish rfl ⟨by simp, ?_⟩) rfl hC
    rw [hreply, h0]
    rfl
  · rw [if_pos h0]
    refine ok_giveByte hd rfl h harm (.sendData rfl (by simp) h0 ?_) rfl hC
    rw [hreply]
    rfl

lemma ok_sendDataArm {s : Vars} {p tx : List Byte} {x : Byte} (hs : s.state = .sendData)
    (h3 : 3 ≤ tx.length) (hpos : s.dataLength ≠ 0)
    (hlen : tx.length + s.dataLength.toNat = 3 + replyLength tx)
    (h : At strict (.waiting (.reply p tx)) ⟨0xff, x, 0x10⟩ .sendData
      (Rest3 p tx tx.length fun _ => True) w) :
    (avrRely strict).Ok (Between strict) (doState s) w := by
  have hpos' : 0 < s.dataLength.toNat := Nat.pos_of_ne_zero fun hz => hpos (BitVec.eq_of_toNat_eq hz)
  have hdec : (s.dataLength - 1).toNat = s.dataLength.toNat - 1 := by
    bv_omega
  have hzero : s.dataLength - 1 = 0 ↔ s.dataLength.toNat = 1 := by
    rw [← BitVec.toNat_inj, hdec]
    simp
    omega
  have hd : ¬ ReplyDone tx := fun hd => by
    have := hd.2
    omega
  simp only [doState, hs]
  refine ok_usbRecvByte h (fun _ => by rintro ⟨⟩) (stable_incoming_done (fronts_waiting _ _))
    (noCalm_waiting _) (fun _ _ _ h => h) (fun r hr => ?_) fun b w h => ?_
  · rw [Ne, List.drop_eq_nil_iff, responseBytes_length, ← replyLength_response hr.1 h3]
    omega
  have htail : At strict (.waiting (.reply p tx)) ⟨0xff, x, 0x10⟩ .sendData
      (Incoming (fun r => (responseBytes r).drop (tx.length + 1)) (Done p)
        fun r => tx ++ [b] <+: responseBytes r) w := by
    refine ⟨h.spot, h.ports, h.arm, fun hs => ?_⟩
    obtain ⟨r, hcoming, hdone, ⟨hfront, -⟩, hhead⟩ := h.far hs
    simp only [List.tail_drop] at hcoming
    exact ⟨r, hcoming, hdone, prefix_snoc hfront hhead⟩
  have hreply : replyLength (tx ++ [b]) = replyLength tx := by
    rw [replyLength, replyLength]
    simp [List.getD, List.getElem?_append_left (show 1 < tx.length by omega),
      List.getElem?_append_left (show 2 < tx.length by omega)]
  have hsnoc : (tx ++ [b]).length = tx.length + 1 := by simp
  have harm : ∀ w : AvrWorld, w.arm = .sendData → CleanReset w.far w.arm → w.far.unread = [] :=
    fun w harm hclean => by simpa only [CleanReset, harm] using hclean
  have hC : ∀ (n : Word) r, tx ++ [b] <+: responseBytes r → tx ++ [b] <+: responseBytes r ∧
      ((tx ++ [b]).length ≤ 2 → n.toNat = r.body.length) :=
    fun n r h => ⟨h, fun h2 => by omega⟩
  by_cases h0 : s.dataLength - 1 = 0
  · simp only [h0, if_true]
    refine ok_giveByte hd (by omega) htail harm (.finish rfl ⟨by omega, ?_⟩) rfl (hC _)
    have := hzero.1 h0
    omega
  · simp only [h0, if_false]
    refine ok_giveByte hd (by omega) htail harm (.sendData rfl (by omega) h0 ?_) rfl (hC _)
    simp only [hdec]
    omega

/-- The last slot: the packet is acknowledged and the bus turned back before the ROM goes on. -/
lemma ok_finishArm {s : Vars} {p tx : List Byte} {x : Byte} (hs : s.state = .finish)
    (hd : ReplyDone tx)
    (h : At strict (.waiting (.reply p tx)) ⟨0xff, x, 0x10⟩ .finish
      (Rest3 p tx tx.length fun _ => True) w) :
    (avrRely strict).Ok (Between strict) (doState s) w := by
  simp only [doState, hs]
  refine ok_usb (G := fun _ => Given p tx) h (by rintro ⟨⟩) (stable_incoming_done (fronts_waiting _ _))
    (noCalm_waiting _) (fun w _ => Or.inl ⟨0, _, _, rfl⟩) (fun w v a u _ h hexec => ?_) fun _ w h => ?_
  · obtain ⟨r, ⟨hcoming, hsel⟩, hdone, hfront, -⟩ := h
    have htx := hd.eq_response hfront
    have hnil : Coming [] w.far := by simpa only [htx, List.drop_length] using hcoming
    obtain ⟨hb, hin, -, hhost⟩ := hnil.filling
    simp only [Usb.exec, Usb.release, hsel, Turn.done.injEq, true_and] at hexec
    subst hexec
    exact ⟨r, ⟨⟨hb, hin, rfl, hhost⟩, rfl⟩, hdone, htx⟩
  refine ok_at h (by rintro ⟨⟩) (stable_given (fronts_waiting _ _))
    (fun w h _ => settled_of_noCalm (noCalm_waiting _) h.spot) (fun w h => ?_) fun w _ w' h ha => ?_
  · rcases h.spot with hst | ⟨hv, -⟩ | ⟨c, hst, -⟩
    · simp only [avrSafe, hst]
    · cases hv
    · simp only [avrSafe, hst]
  obtain rfl := ha
  refine ok_ackByte_ending hd ⟨?_, by rw [h.ports], h.arm, h.far⟩ (fun w h => ?_) fun w h => ?_
  · rcases h.spot with hst | ⟨hv, -⟩ | ⟨c, hst, hof⟩
    · exact Or.inl hst
    · cases hv
    · exact Or.inr ⟨c, hst, hof⟩
  · refine ⟨by rw [h.ports]; rfl, by rw [h.ports], ⟨.recv [], .getChannel rfl, ?_, fun hs => ?_⟩,
      fun hs _ _ => h.far hs⟩
    · rcases h.spot with hst | ⟨l, hst⟩ <;> rw [hst]
      · trivial
      · rfl
    · exact ⟨(h.far hs).1, offered_nil (h.far hs).2.1⟩
  · exact between_home h rfl (fun h => ⟨h.1, h.2.1⟩) fun h _ => h

/-! ## Every call of `doMessaging` -/

lemma Slot.Holds.picked {v : Slot} {s : Vars} (h : v.Holds s w) (hst : v.Agrees w.stage) :
    v.Holds s { w with stage := w.stage.picked, arm := s.state } := by
  cases v with
  | recv p =>
      have hlast : ∀ c, LastOffered p c w.stage.picked ↔ LastOffered p c w.stage := by
        intro c
        refine and_congr_left fun _ => ?_
        cases hs : w.stage with
        | called c' v' => simp [Stage.picked]
        | serving c' v' => rw [hs] at hst; exact hst.elim
        | _ => simp [Stage.picked]
      exact ⟨h.1, fun c hc => h.2.1 c ((hlast c).1 hc), fun hn => h.2.2 fun c hc => hn c ((hlast c).2 hc)⟩
  | prep p => exact h
  | reply p tx => exact h

/-- **`doMessaging` keeps to the protocol**, from any state once the flag has been found low. -/
theorem ok_doState {s : Vars} (h : Between strict s w) (hst : ∀ c v, w.stage ≠ .ready c v) :
    (avrRely strict).Ok (Between strict) (doState s)
      { w with stage := w.stage.picked, arm := s.state } := by
  obtain ⟨hddrd, hportc, ⟨v, hv, hagree, hholds⟩, -⟩ := h
  have hspot : (Spot.waiting v).Has w.stage.picked := by
    cases hs : w.stage with
    | down => exact Or.inl rfl
    | calm l => rw [hs] at hagree; exact Or.inr (Or.inl ⟨hagree, rfl⟩)
    | caught => rw [hs] at hagree; exact hagree.elim
    | ready c v' => exact absurd hs (hst c v')
    | called c v' =>
        rw [hs] at hagree
        obtain ⟨rfl, hof⟩ := hagree
        exact Or.inr (Or.inr ⟨c, rfl, hof⟩)
    | serving c v' => rw [hs] at hagree; exact hagree.elim
  have hat : At strict (.waiting v) ⟨dirOf s.state, w.ports.portd, 0x10⟩ s.state (fun w => v.Holds s w)
      { w with stage := w.stage.picked, arm := s.state } :=
    ⟨hspot, by simp only [← hddrd, ← hportc], rfl, fun hs => (hholds hs).picked hagree⟩
  have hbase : ∀ p : List Byte, p.length < 6 → ∀ w, (Slot.recv p).Holds s w →
      Filling [] w.far ∧ Offered p w := by
    intro p hp w hw
    rwa [Slot.Holds, if_neg (by omega)] at hw
  have hrest : ∀ (p tx : List Byte) (C : Server.Response → Prop), tx ≠ [] →
      (∀ r, (tx.length ≤ 2 → s.dataLength.toNat = r.body.length) → C r) → ∀ w,
      (Slot.reply p tx).Holds s w → Rest3 p tx (max 3 tx.length) C w := by
    intro p tx C hne hC w hw
    rw [Slot.Holds, if_neg hne] at hw
    obtain ⟨r, hcoming, hdone, hfront, hlen⟩ := hw
    exact ⟨r, hcoming, hdone, hfront, hC r hlen⟩
  have harm : ∀ p : List Byte, p.length < 5 → ∀ w, (Slot.recv p).Holds s w →
      Filling [] w.far ∧ Base w := fun p hp w hw =>
    ⟨(hbase p (by omega) w hw).1, (hbase p (by omega) w hw).2.base hp⟩
  cases hv with
  | getChannel hs =>
      rw [hs] at hat ⊢
      simp only [doState, hs]
      exact ok_headerArm (by simp) (hat.imp (harm _ (by simp)))
        (fun ch => View.getCommand (s := { s with channel := ch, state := .getCommand }) rfl) (fun _ => rfl) fun _ => rfl
  | getCommand hs =>
      rw [hs] at hat ⊢
      simp only [doState, hs]
      exact ok_headerArm (by simp) (hat.imp (harm _ (by simp)))
        (fun ch => View.getParam1 (s := { s with command := ch, state := .getParam1 }) rfl) (fun _ => rfl) (by rintro ⟨⟩)
  | getParam1 hs =>
      rw [hs] at hat ⊢
      simp only [doState, hs]
      exact ok_headerArm (by simp) (hat.imp (harm _ (by simp)))
        (fun ch => View.getParam2 (s := { s with param1 := ch, state := .getParam2 }) rfl) (fun _ => rfl) (by rintro ⟨⟩)
  | getParam2 hs =>
      rw [hs] at hat ⊢
      simp only [doState, hs]
      exact ok_headerArm (by simp) (hat.imp (harm _ (by simp)))
        (fun ch => View.getLengthLow (s := { s with param2 := ch, state := .getLengthLow }) rfl) (fun _ => rfl) (by rintro ⟨⟩)
  | getLengthLow hs =>
      have hview : ∀ ch, View (.recv ([s.channel, s.command, s.param1, s.param2] ++ [ch]))
          { s with dataLength := wordOf ch (hiByte s.dataLength), state := .getLengthHigh } := by
        intro ch
        have := View.getLengthHigh (s := { s with
          dataLength := wordOf ch (hiByte s.dataLength), state := .getLengthHigh }) rfl
        rwa [loByte_wordOf] at this
      rw [hs] at hat ⊢
      simp only [doState, hs]
      exact ok_headerArm (by simp) (hat.imp (harm _ (by simp))) hview (fun _ => rfl) (by rintro ⟨⟩)
  | getLengthHigh hs =>
      rw [hs] at hat
      rw [hs]
      exact ok_getLengthHigh hs (hat.imp (hbase _ (by simp)))
  | getData hs h6 hpos hlen =>
      rw [hs] at hat
      rw [hs]
      refine ok_getData hs h6 hpos hlen (hat.imp fun w hw => ?_)
      rwa [Slot.Holds, if_pos h6] at hw
  | sendPrep hs hp =>
      rw [hs] at hat
      rw [hs]
      exact ok_sendPrepArm hs hp hat
  | sendRetcode hs hp =>
      rw [hs] at hat
      rw [hs]
      refine ok_sendRetcodeArm hs (hat.imp fun w hw => ?_)
      rwa [Slot.Holds, if_pos rfl] at hw
  | sendLengthLow hs =>
      rw [hs] at hat
      rw [hs]
      exact ok_sendLengthLowArm hs (hat.imp (hrest _ _ _ (by simp) fun r h => h (by simp)))
  | sendLengthHigh hs =>
      rw [hs] at hat
      rw [hs]
      exact ok_sendLengthHighArm hs (hat.imp (hrest _ _ _ (by simp) fun r h => h (by simp)))
  | sendData hs h3 hpos hlen =>
      rw [hs] at hat
      rw [hs]
      refine ok_sendDataArm hs h3 hpos hlen (hat.imp fun w hw => ?_)
      have := hrest _ _ (fun _ => True) (by rintro rfl; simp at h3) (fun _ _ => trivial) w hw
      rwa [max_eq_right h3] at this
  | finish hs hd =>
      rw [hs] at hat
      rw [hs]
      refine ok_finishArm hs hd (hat.imp fun w hw => ?_)
      have := hrest _ _ (fun _ => True) (by rintro rfl; exact absurd hd.1 (by simp))
        (fun _ _ => trivial) w hw
      rwa [max_eq_right hd.1] at this

end Udfs.Link
