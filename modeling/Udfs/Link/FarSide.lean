import Udfs.Link.Protocol

/-!
# What the far side can hold

The places of a message on its way through the endpoints and the server's main loop, and
of the response on its way back.  Each predicate is kept by the host's own steps, or says
what they turn it into.
-/

namespace Udfs.Link

/-! ## Packets -/

lemma packetsOf_flatten (n : ℕ) : ∀ l : List Byte, l.length ≤ n → (packetsOf n l).flatten = l := by
  induction n with
  | zero => intro l h; simp [packetsOf, List.length_eq_zero_iff.1 (Nat.le_zero.1 h)]
  | succ n ih =>
      intro l h
      rw [packetsOf]
      split
      · next h0 => simp [h0]
      · next h0 =>
          have hpos : 0 < l.length := List.length_pos_iff.2 h0
          rw [List.flatten_cons, ih _ (by simp [endpointSize]; omega), List.take_append_drop]

lemma packetsOf_ne_nil (n : ℕ) : ∀ l : List Byte, ∀ q ∈ packetsOf n l, q ≠ [] := by
  induction n with
  | zero => intro l q hq; simp [packetsOf] at hq
  | succ n ih =>
      intro l q hq
      rw [packetsOf] at hq
      split at hq
      · simp at hq
      · next h0 =>
          rcases List.mem_cons.1 hq with rfl | hq
          · simpa [endpointSize] using h0
          · exact ih _ q hq

lemma responsePackets_flatten (r : Server.Response) :
    (responsePackets r).flatten = responseBytes r := by
  rw [responsePackets, List.flatten_cons, packetsOf_flatten _ _ le_rfl]
  rfl

lemma responsePackets_ne_nil (r : Server.Response) : ∀ q ∈ responsePackets r, q ≠ [] := by
  intro q hq
  rcases List.mem_cons.1 hq with rfl | hq
  · simp [responseBytes]
  · exact packetsOf_ne_nil _ _ q hq

/-! ## Requests on their way -/

/-- The host sends these packets; with none left it may have gone on to the next header. -/
def Far.Writing (f : Far) (ps : List (List Byte)) : Prop :=
  f.host = .write ps ∨ f.host = .readHeader ∧ ps = []

/-- Nothing is on its way but what has been put in the bank. -/
structure Filling (l : List Byte) (f : Far) : Prop where
  inBank : f.usb.inBank = l
  inPacket : f.usb.inPacket = none
  outBank : f.usb.outBank.getD [] = []
  host : f.Writing []

/-- The header of a message with a body has been handed over. -/
structure HeaderSent (p : List Byte) (f : Far) : Prop where
  inBank : f.usb.inBank = []
  outBank : f.usb.outBank.getD [] = []
  length : p.length = 6
  body : headerLength p ≠ 0
  host : f.Writing [] ∧ f.usb.inPacket = some p ∨ f.host = .readBody p [] ∧ f.usb.inPacket = none

/-- The host has read a part of the body and the rest of what was received is in the bank. -/
structure Collecting (p : List Byte) (f : Far) : Prop where
  selected : f.usb.selected = .toHost
  inPacket : f.usb.inPacket = none
  outBank : f.usb.outBank.getD [] = []
  host : ∃ got, f.host = .readBody (p.take 6) got ∧ got ++ f.usb.inBank = p.drop 6
  room : f.usb.inBank.length ≤ endpointSize
  six : 6 ≤ p.length

/-- A full packet from the middle of the body has been handed over. -/
structure PacketSent (p : List Byte) (f : Far) : Prop where
  selected : f.usb.selected = .toHost
  inBank : f.usb.inBank = []
  outBank : f.usb.outBank.getD [] = []
  six : 6 ≤ p.length
  more : p.length < 6 + headerLength p
  host : ∃ got, f.host = .readBody (p.take 6) got ∧
    (f.usb.inPacket = none ∧ got = p.drop 6 ∨
      ∃ q, f.usb.inPacket = some q ∧ q.length = endpointSize ∧ got ++ q = p.drop 6)

/-- The last packet of a complete message waits for the host. -/
structure Pending (p : List Byte) (f : Far) : Prop where
  inBank : f.usb.inBank = []
  outBank : f.usb.outBank.getD [] = []
  complete : Complete p
  host : f.Writing [] ∧ f.usb.inPacket = some p ∧ p.length = 6 ∨
    ∃ got q, f.host = .readBody (p.take 6) got ∧ f.usb.inPacket = some q ∧ got ++ q = p.drop 6

/-- These bytes of a response are on their way to the AVR, and nothing else. -/
structure Coming (l : List Byte) (f : Far) : Prop where
  inBank : f.usb.inBank = []
  inPacket : f.usb.inPacket = none
  host : ∃ ps, f.Writing ps ∧ (∀ q ∈ ps, q ≠ []) ∧ f.usb.outBank.getD [] ++ ps.flatten = l

/-! ## The host's steps -/

variable {f f' : Far} {r : Server.Response} {p l : List Byte}

lemma Far.step_write_nil (h : f.Writing []) (hin : f.usb.inPacket = none)
    (hs : f.step r = some f') : f' = { f with host := .readHeader } := by
  rcases h with h | ⟨h, -⟩
  · simp only [Far.step, h, Option.some.injEq] at hs
    exact hs.symm
  · simp [Far.step, h, hin] at hs

lemma Filling.step (h : Filling l f) (hs : f.step r = some f') :
    Filling l f' ∧ f'.served = f.served := by
  rw [Far.step_write_nil h.host h.inPacket hs]
  exact ⟨⟨h.inBank, h.inPacket, h.outBank, Or.inr ⟨rfl, rfl⟩⟩, rfl⟩

lemma HeaderSent.step (h : HeaderSent p f) (hs : f.step r = some f') :
    HeaderSent p f' ∧ f'.served = f.served := by
  obtain ⟨hb, ho, hl, hn, ⟨hw | ⟨hw, -⟩, hin⟩ | ⟨hw, hin⟩⟩ := h
  · simp only [Far.step, hw, Option.some.injEq] at hs
    subst hs
    exact ⟨⟨hb, ho, hl, hn, Or.inl ⟨Or.inr ⟨rfl, rfl⟩, hin⟩⟩, rfl⟩
  · simp only [Far.step, hw, hin, hl, ne_eq, not_true, if_false, hn, Option.some.injEq] at hs
    subst hs
    exact ⟨⟨hb, ho, hl, hn, Or.inr ⟨rfl, rfl⟩⟩, rfl⟩
  · simp [Far.step, hw, hin] at hs

/-- The host takes the header, or has taken it. -/
lemma HeaderSent.moves (h : HeaderSent p f) :
    (∃ r f', f.step r = some f') ∨ f.usb.inPacket = none := by
  rcases h.host with ⟨hw | ⟨hw, -⟩, hin⟩ | ⟨-, hin⟩
  · exact Or.inl ⟨⟨0, [], by simp⟩, { f with host := .readHeader }, by simp only [Far.step, hw]⟩
  · refine Or.inl ⟨⟨0, [], by simp⟩, { f.taken with host := .readBody p [] }, ?_⟩
    simp only [Far.step, hw, hin, h.length, ne_eq, not_true, if_false, h.body]
  · exact Or.inr hin

lemma Collecting.step (h : Collecting p f) : f.step r = none := by
  obtain ⟨got, hhost, -⟩ := h.host
  simp [Far.step, hhost, h.inPacket]

lemma headerLength_take (p : List Byte) : headerLength (p.take 6) = headerLength p := by
  simp [headerLength, List.getD]

lemma PacketSent.step (h : PacketSent p f) (hs : f.step r = some f') :
    PacketSent p f' ∧ f'.served = f.served := by
  obtain ⟨hsel, hb, ho, h6, hm, got, hhost, ⟨hin, -⟩ | ⟨q, hin, hq, hgot⟩⟩ := h
  · simp [Far.step, hhost, hin] at hs
  · have hlen : (got ++ q).length = p.length - 6 := by rw [hgot, List.length_drop]
    have hlt : (got ++ q).length < headerLength (p.take 6) := by
      rw [headerLength_take]
      omega
    simp only [Far.step, hhost, hin, if_neg hlt.ne, if_pos (And.intro hlt hq),
      Option.some.injEq] at hs
    subst hs
    exact ⟨⟨hsel, hb, ho, h6, hm, got ++ q, rfl, Or.inl ⟨rfl, hgot⟩⟩, rfl⟩

/-- The host takes the packet, or has taken it. -/
lemma PacketSent.moves (h : PacketSent p f) :
    (∃ r f', f.step r = some f') ∨ f.usb.inPacket = none := by
  obtain ⟨-, -, -, h6, hm, got, hhost, ⟨hin, -⟩ | ⟨q, hin, hq, hgot⟩⟩ := h
  · exact Or.inr hin
  · have hlen : (got ++ q).length = p.length - 6 := by rw [hgot, List.length_drop]
    have hlt : (got ++ q).length < headerLength (p.take 6) := by
      rw [headerLength_take]
      omega
    refine Or.inl ⟨⟨0, [], by simp⟩, { f.taken with host := .readBody (p.take 6) (got ++ q) }, ?_⟩
    simp only [Far.step, hhost, hin, if_neg hlt.ne, if_pos (And.intro hlt hq)]

/-- The host takes the last packet and executes exactly the message. -/
lemma Pending.step (h : Pending p f) (hs : f.step r = some f') :
    Pending p f' ∧ f'.served = f.served ∨ Coming (responseBytes r) f' ∧ f'.served = f.served ++ [⟨p, r⟩] := by
  have hread : ∀ g : Far, g.usb.inBank = [] → g.usb.outBank.getD [] = [] →
      Coming (responseBytes r) (g.taken.execute p r) := fun g hb ho =>
    ⟨hb, rfl, _, Or.inl rfl, responsePackets_ne_nil r, by
      rw [responsePackets_flatten]
      simp [Far.execute, Far.taken, ho]⟩
  obtain ⟨hb, ho, ⟨h6, hc⟩, ⟨hw | ⟨hw, -⟩, hin, hl⟩ | ⟨got, q, hw, hin, hgot⟩⟩ := h
  · simp only [Far.step, hw, Option.some.injEq] at hs
    subst hs
    exact Or.inl ⟨⟨hb, ho, ⟨h6, hc⟩, Or.inl ⟨Or.inr ⟨rfl, rfl⟩, hin, hl⟩⟩, rfl⟩
  · have h0 : headerLength p = 0 := by omega
    simp only [Far.step, hw, hin, hl, ne_eq, not_true, if_false, h0, if_true, Option.some.injEq] at hs
    subst hs
    exact Or.inr ⟨hread f hb ho, rfl⟩
  · have hlen : (got ++ q).length = headerLength (p.take 6) := by
      rw [hgot, List.length_drop, headerLength_take]
      omega
    have hp : p.take 6 ++ (got ++ q) = p := by rw [hgot, List.take_append_drop]
    simp only [Far.step, hw, hin, if_pos hlen, hp, Option.some.injEq] at hs
    subst hs
    exact Or.inr ⟨hread f hb ho, rfl⟩

lemma Coming.step (h : Coming l f) (hs : f.step r = some f') :
    Coming l f' ∧ f'.served = f.served := by
  obtain ⟨hb, hin, ps, hw | ⟨hw, rfl⟩, hne, hflat⟩ := h
  · cases ps with
    | nil =>
        simp only [Far.step, hw, Option.some.injEq] at hs
        subst hs
        exact ⟨⟨hb, hin, [], Or.inr ⟨rfl, rfl⟩, hne, hflat⟩, rfl⟩
    | cons q ps =>
        cases ho : f.usb.outBank with
        | none =>
            simp only [Far.step, hw, ho, Option.some.injEq] at hs
            subst hs
            refine ⟨⟨hb, hin, ps, Or.inl rfl, fun q' hq' => hne q' (by simp [hq']), ?_⟩, rfl⟩
            simpa [ho] using hflat
        | some l => simp [Far.step, hw, ho] at hs
  · simp [Far.step, hw, hin] at hs

/-- A response that has been read leaves nothing behind. -/
lemma Coming.filling (h : Coming [] f) : Filling [] f := by
  obtain ⟨hb, hin, ps, hw, hne, hflat⟩ := h
  rw [List.append_eq_nil_iff] at hflat
  have hps : ps = [] := by
    cases ps with
    | nil => rfl
    | cons q ps =>
        have := hflat.2
        rw [List.flatten_cons, List.append_eq_nil_iff] at this
        exact absurd this.1 (hne q (by simp))
  subst hps
  exact ⟨hb, hin, hflat.1, hw⟩

lemma Coming.unread (h : Coming l f) : f.unread = l := by
  obtain ⟨-, -, ps, hw | ⟨hw, rfl⟩, -, hflat⟩ := h
  · simp [Far.unread, hw, hflat]
  · simpa [Far.unread, hw] using hflat

/-- The host takes the last packet of a message, or gets to it. -/
lemma Pending.moves (h : Pending p f) : ∃ r f', f.step r = some f' := by
  obtain ⟨hb, ho, ⟨h6, hc⟩, ⟨hw | ⟨hw, -⟩, hin, hl⟩ | ⟨got, q, hw, hin, hgot⟩⟩ := h
  · exact ⟨⟨0, [], by simp⟩, { f with host := .readHeader }, by simp only [Far.step, hw]⟩
  · have h0 : headerLength p = 0 := by omega
    refine ⟨⟨0, [], by simp⟩, f.taken.execute p ⟨0, [], by simp⟩, ?_⟩
    simp only [Far.step, hw, hin, hl, ne_eq, not_true, if_false, h0, if_true]
  · have hlen : (got ++ q).length = headerLength (p.take 6) := by
      rw [hgot, List.length_drop, headerLength_take]
      omega
    refine ⟨⟨0, [], by simp⟩, f.taken.execute (p.take 6 ++ (got ++ q)) ⟨0, [], by simp⟩, ?_⟩
    simp only [Far.step, hw, hin, if_pos hlen]

/-- A byte that comes is there, or an empty packet or the host is in its way. -/
lemma Coming.moves (h : Coming l f) (hl : l ≠ []) (hsel : f.usb.selected = .fromHost) (v : Byte) :
    (∃ a u, f.usb.exec v .recvByte = .done a u) ∨ (∃ r f', f.step r = some f') ∨
      ∃ u, f.usb.exec v .recvByte = .again u := by
  obtain ⟨hb, hin, ps, hw, hne, hflat⟩ := h
  cases ho : f.usb.outBank with
  | none =>
      refine Or.inr (Or.inl ?_)
      rcases hw with hw | ⟨-, rfl⟩
      · cases ps with
        | nil => simp [ho] at hflat; exact absurd hflat hl
        | cons q ps =>
            refine ⟨⟨0, [], by simp⟩,
              { f with usb := { f.usb with outBank := some q }, host := .write ps }, ?_⟩
            simp only [Far.step, hw, ho]
      · simp [ho] at hflat
        exact absurd hflat hl
  | some m =>
      cases m with
      | nil => exact Or.inr (Or.inr ⟨f.usb.release, by simp [Usb.exec, hsel, ho]⟩)
      | cons b m => exact Or.inl ⟨b, { f.usb with outBank := some m }, by simp [Usb.exec, hsel, ho]⟩

lemma Usb.recv_done {u u' : Usb} {v b : Byte} (hsel : u.selected = .fromHost)
    (h : u.exec v .recvByte = .done b u') :
    ∃ m, u.outBank = some (b :: m) ∧ u' = { u with outBank := some m } := by
  simp only [Usb.exec, hsel] at h
  split at h
  · next b' m _ ho =>
      simp only [Turn.done.injEq] at h
      obtain ⟨rfl, rfl⟩ := h
      exact ⟨m, ho, by simp [hsel]⟩
  · cases h
  · cases h
  · next he => cases he

lemma Coming.recv {b : Byte} {m : List Byte} (h : Coming l f) (ho : f.usb.outBank = some (b :: m)) :
    ∃ l', l = b :: l' ∧ Coming l' { f with usb := { f.usb with outBank := some m } } := by
  obtain ⟨hb, hin, ps, hw, hne, hflat⟩ := h
  rw [ho] at hflat
  exact ⟨m ++ ps.flatten, hflat.symm, hb, hin, ps, hw, hne, rfl⟩

lemma Far.step_selected (hs : f.step r = some f') : f'.usb.selected = f.usb.selected := by
  unfold Far.step at hs
  split at hs
  · split at hs
    · cases hs
    · split at hs
      · cases hs; rfl
      · split at hs <;> cases hs <;> rfl
  · split at hs
    · cases hs
    · split at hs
      · cases hs; rfl
      · split at hs <;> cases hs <;> rfl
  · split at hs
    · cases hs; rfl
    · cases hs
  · cases hs; rfl
  · cases hs

/-! ## What stays -/

/-- The firmware's own acknowledgement of a packet it has read. -/
def Far.acked (f : Far) : Far := { f with usb := { f.usb with outBank := none } }

/-- The host cannot change it, and executes nothing meanwhile. -/
structure Still (G : Far → Prop) : Prop where
  step : ∀ {f r f'}, G f → f.step r = some f' → G f' ∧ f'.served = f.served
  ack : ∀ {f}, G f → f.usb.outBank = some [] → G f.acked

lemma still_filling (l : List Byte) : Still (Filling l) where
  step := Filling.step
  ack := fun h _ => ⟨h.inBank, h.inPacket, rfl, h.host⟩

lemma still_headerSent (p : List Byte) : Still (HeaderSent p) where
  step := HeaderSent.step
  ack := fun h _ => ⟨h.inBank, rfl, h.length, h.body, h.host⟩

lemma still_collecting (p : List Byte) : Still (Collecting p) where
  step := fun h hs => by rw [h.step] at hs; cases hs
  ack := fun h _ => ⟨h.selected, h.inPacket, rfl, h.host, h.room, h.six⟩

lemma still_packetSent (p : List Byte) : Still (PacketSent p) where
  step := PacketSent.step
  ack := fun h _ => ⟨h.selected, h.inBank, rfl, h.six, h.more, h.host⟩

lemma still_coming (l : List Byte) : Still (Coming l) where
  step := Coming.step
  ack := fun h ho => by
    obtain ⟨hb, hin, ps, hw, hne, hflat⟩ := h
    exact ⟨hb, hin, ps, hw, hne, by simpa [ho, Far.acked] using hflat⟩

/-- There is room for another byte of the body. -/
def Room (p : List Byte) (f : Far) : Prop := Collecting p f ∧ f.usb.inBank.length < endpointSize

lemma still_room (p : List Byte) : Still (Room p) where
  step := fun h hs => by rw [h.1.step] at hs; cases hs
  ack := fun h ho => ⟨(still_collecting p).ack h.1 ho, h.2⟩

lemma Still.and_selected {G : Far → Prop} (h : Still G) (e : Endpoint) :
    Still fun f => G f ∧ f.usb.selected = e where
  step := fun hf hs => ⟨⟨(h.step hf.1 hs).1, (Far.step_selected hs).trans hf.2⟩, (h.step hf.1 hs).2⟩
  ack := fun hf ho => ⟨h.ack hf.1 ho, hf.2⟩

end Udfs.Link
