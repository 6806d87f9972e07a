import Udfs.Link.FarSide

/-!
# The record of messages and responses

What the history fields of the link say about the message in hand: whether it has been sent
in full, whether the server has executed it, and with which response.  The lemmas say that
the rest of the system keeps it.
-/

namespace Udfs.Link

/-- The message `p` is the last that was sent in full, and has not been executed. -/
def Due (p : List Byte) (w : AvrWorld) : Prop :=
  (w.far.served.map Served.request ++ [p]).Sublist w.sent ∧ w.far.served.length = w.mark ∧
    (w.broken = false → w.far.served.map Served.request ++ [p] = w.sent)

/-- The message `p` is the last that was sent in full, and was executed with the response `r`. -/
def Done (p : List Byte) (r : Server.Response) (w : AvrWorld) : Prop :=
  Base w ∧ w.far.served.drop w.mark = [⟨p, r⟩]

/-- The byte after `p` is offered, and it is the last of the message `c`. -/
def LastOffered (p : List Byte) (c : Call) (st : Stage) : Prop :=
  (st = .called c (.recv p) ∨ st = .serving c (.recv p)) ∧ p.length + 1 = c.bytes.length

/-- Once its last byte is offered, the message is due. -/
def Offered (p : List Byte) (w : AvrWorld) : Prop :=
  (∀ c, LastOffered p c w.stage → Due c.bytes w) ∧ ((∀ c, ¬ LastOffered p c w.stage) → Base w)

/-- The message `p` waits for the host, or its whole response is coming. -/
def Owed (p : List Byte) (w : AvrWorld) : Prop :=
  Pending p w.far ∧ Due p w ∨ ∃ r, Coming (responseBytes r) w.far ∧ Done p r w

lemma Due.recorded {p : List Byte} {w : AvrWorld} (h : Due p w) : Recorded w :=
  (List.sublist_append_left _ _).trans h.1

lemma Due.done {p : List Byte} {r : Server.Response} {w : AvrWorld} {f : Far} (h : Due p w)
    (hf : f.served = w.far.served ++ [⟨p, r⟩]) : Done p r { w with far := f } := by
  have hmap : f.served.map Served.request = w.far.served.map Served.request ++ [p] := by
    rw [hf, List.map_append, List.map_singleton]
  refine ⟨⟨?_, fun hb => hmap.trans (h.2.2 hb)⟩, ?_⟩
  · rw [Recorded, hmap]
    exact h.1
  · simp only [hf, ← h.2.1, List.drop_append_of_le_length le_rfl, List.drop_length, List.nil_append]

lemma Offered.recorded {p : List Byte} {w : AvrWorld} (h : Offered p w) : Recorded w := by
  by_cases hl : ∃ c, LastOffered p c w.stage
  · obtain ⟨c, hc⟩ := hl
    exact (h.1 c hc).recorded
  · exact (h.2 (not_exists.1 hl)).1

lemma Owed.recorded {p : List Byte} {w : AvrWorld} (h : Owed p w) : Recorded w := by
  rcases h with ⟨-, hd⟩ | ⟨r, -, hd⟩
  · exact hd.recorded
  · exact hd.1.1

/-- The first bytes of a message are never its last. -/
lemma Offered.base {p : List Byte} {w : AvrWorld} (h : Offered p w) (hp : p.length < 5) : Base w := by
  refine h.2 fun c hc => ?_
  have hlen := hc.2
  simp [Call.bytes] at hlen
  omega

section Env

variable {a b c : Prop} {w w' : AvrWorld} {G : Far → Prop} {p : List Byte} {r : Server.Response}

/-- What the rest of the system does to the far side. -/
lemma AvrEnv.far (he : AvrEnv a b c w w') (hG : Still G) (h : G w.far) :
    G w'.far ∧ w'.far.served = w.far.served := by
  cases he with
  | call => exact ⟨h, rfl⟩
  | callLast => exact ⟨h, rfl⟩
  | brk => exact ⟨h, rfl⟩
  | strobe => exact ⟨h, rfl⟩
  | host r hs => exact hG.step h hs
  | ack _ ho => exact ⟨hG.ack h ho, rfl⟩

lemma AvrEnv.ports (he : AvrEnv a b c w w') : w'.ports = w.ports ∧ w'.arm = w.arm := by
  cases he <;> exact ⟨rfl, rfl⟩

lemma AvrEnv.selected (he : AvrEnv a b c w w') : w'.far.usb.selected = w.far.usb.selected := by
  cases he with
  | host r hs => exact Far.step_selected hs
  | _ => rfl

/-- No message is completed unless the firmware is in front of the slot of a last byte. -/
lemma AvrEnv.record (he : AvrEnv a b c w w')
    (hst : ∀ c p, w.stage = .ready c (.recv p) → p.length + 1 ≠ c.bytes.length) :
    w'.sent = w.sent ∧ w'.mark = w.mark ∧ (w'.broken = false → w.broken = false) := by
  cases he with
  | callLast h _ hlast => exact absurd hlast (hst _ _ h)
  | brk => exact ⟨rfl, rfl, fun h => by cases h⟩
  | _ => exact ⟨rfl, rfl, id⟩

lemma AvrEnv.base (he : AvrEnv a b c w w')
    (hst : ∀ c p, w.stage = .ready c (.recv p) → p.length + 1 ≠ c.bytes.length)
    (hs : w'.far.served = w.far.served) (h : Base w) : Base w' := by
  obtain ⟨hsent, -, hbroken⟩ := he.record hst
  rw [Base, Recorded, hs, hsent]
  exact ⟨h.1, fun hb => h.2 (hbroken hb)⟩

lemma AvrEnv.due (he : AvrEnv a b c w w')
    (hst : ∀ c p, w.stage = .ready c (.recv p) → p.length + 1 ≠ c.bytes.length)
    (hs : w'.far.served = w.far.served) (h : Due p w) : Due p w' := by
  obtain ⟨hsent, hmark, hbroken⟩ := he.record hst
  refine ⟨?_, ?_, fun hb => ?_⟩
  · rw [hs, hsent]
    exact h.1
  · rw [hs, hmark]
    exact h.2.1
  · rw [hs, hsent]
    exact h.2.2 (hbroken hb)

lemma AvrEnv.done (he : AvrEnv a b c w w')
    (hst : ∀ c p, w.stage = .ready c (.recv p) → p.length + 1 ≠ c.bytes.length)
    (hs : w'.far.served = w.far.served) (h : Done p r w) : Done p r w' := by
  obtain ⟨-, hmark, -⟩ := he.record hst
  refine ⟨he.base hst hs h.1, ?_⟩
  rw [hs, hmark]
  exact h.2

/-- The BBC completes the message: everything before it was executed, so it is due. -/
lemma Base.due {q : List Byte} {st : Stage} (h : Base w) :
    Due q { w with stage := st, sent := w.sent ++ [q], mark := w.far.served.length } :=
  ⟨h.1.append (List.Sublist.refl _), rfl, fun hb => by rw [h.2 hb]⟩

lemma AvrEnv.offered (he : AvrEnv a b c w w') (hG : Still G) (hf : G w.far)
    (hsp : ∀ c q, w.stage = .ready c (.recv q) → q = p) (h : Offered p w) : Offered p w' := by
  obtain ⟨-, hs⟩ := he.far hG hf
  cases he with
  | @call c' v hst _ hnot =>
      have hb := h.2 fun c hc => by rw [hst] at hc; rcases hc.1 with hc | hc <;> cases hc
      refine ⟨fun c hc => ?_, fun _ => hb⟩
      rcases hc.1 with hc' | hc' <;> cases hc'
      exact absurd hc.2 (hnot p rfl)
  | @callLast c' q hst _ hlast =>
      have hb := h.2 fun c hc => by rw [hst] at hc; rcases hc.1 with hc | hc <;> cases hc
      obtain rfl := hsp c' q hst
      refine ⟨fun c hc => ?_, fun hnot => absurd ⟨Or.inl rfl, hlast⟩ (hnot c')⟩
      rcases hc.1 with hc' | hc' <;> cases hc'
      exact hb.due
  | brk =>
      refine ⟨fun c hc => ?_, fun _ => ⟨h.recorded, fun hb => by cases hb⟩⟩
      rcases hc.1 with hc' | hc' <;> cases hc'
  | strobe hr =>
      have hb := h.2 fun c hc => by rcases hc.1 with hc | hc <;> rw [hc] at hr <;> exact hr
      refine ⟨fun c hc => ?_, fun _ => hb⟩
      rcases hc.1 with hc' | hc' <;> cases hc'
  | host r hr =>
      refine ⟨fun c hc => ⟨?_, ?_, ?_⟩, fun hnot => ?_⟩
      · rw [hs]
        exact (h.1 c hc).1
      · rw [hs]
        exact (h.1 c hc).2.1
      · rw [hs]
        exact (h.1 c hc).2.2
      · rw [Base, Recorded, hs]
        exact h.2 hnot
  | ack => exact ⟨h.1, h.2⟩

lemma AvrEnv.owed (he : AvrEnv a b c w w')
    (hst : ∀ c p, w.stage = .ready c (.recv p) → p.length + 1 ≠ c.bytes.length)
    (h : Owed p w) : Owed p w' := by
  rcases h with ⟨hp, hd⟩ | ⟨r, hr, hd⟩
  · have hdue := fun hs => he.due hst hs hd
    cases he with
    | call => exact Or.inl ⟨hp, hdue rfl⟩
    | callLast h _ hlast => exact absurd hlast (hst _ _ h)
    | brk => exact Or.inl ⟨hp, hdue rfl⟩
    | strobe => exact Or.inl ⟨hp, hdue rfl⟩
    | host r hs =>
        rcases hp.step hs with ⟨hp', hserved⟩ | ⟨hr, hserved⟩
        · exact Or.inl ⟨hp', hdue hserved⟩
        · exact Or.inr ⟨r, hr, hd.done hserved⟩
    | ack => exact Or.inl ⟨⟨hp.inBank, rfl, hp.complete, hp.host⟩, hdue rfl⟩
  · obtain ⟨hr', hs⟩ := he.far (still_coming _) hr
    exact Or.inr ⟨r, hr', he.done hst hs hd⟩

end Env

end Udfs.Link
