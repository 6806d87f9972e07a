import Udfs.Link.Resets

/-!
# Messages are delivered

Without a reset every call of `send_msg` comes to its end, whatever the order in which the
three machines take the steps that `Sys` has, where the BBC is never too early for the AVR and its
block is no part of the memory that a response is stored to: the server executes exactly the
message that was sent, the BBC receives exactly the response, and the AVR is back in
`GET_CHANNEL`.

That the exchange never gets stuck is shown with a rank that goes down with each step.  The
BBC's program gets shorter.  Between two of its steps the AVR takes the byte on offer at most
once, and its own program for that gets shorter.  Between two of those steps the host moves
what lies in the endpoints.  A poll that finds the flag high is no step.
-/

namespace Udfs.Link

/-! ## Steps without a reset -/

/-- Whether the step is a reset of the BBC. -/
def Label.isBrk : Label → Bool
  | brk => true
  | _ => false

/-- The step is not a reset. -/
def NoReset (_ : Sys) (l : Label) : Prop := l.isBrk = false

instance (s : Sys) (l : Label) : Decidable (NoReset s l) := inferInstanceAs (Decidable (_ = _))

/-- A step of one of the three machines in the middle of a call.  A poll of the flag while it is
high is none. -/
def Sys.Moves (s s' : Sys) : Prop :=
  (∃ v, s.step (.bbc v) = some s') ∨ (∃ r, s.step (.host r) = some s') ∨
    (∃ v, s.step (.avr v) = some s') ∧ ∀ x, s.avr = .ret x → s.via.cb2 = false

section Unbroken

variable {s s' : Sys} {st : Stage}

/-- A reset is detected only after one has happened. -/
lemma Inv.leavesNothing (h : Inv True s st) (hst : st ≠ .down) : s.LeavesNothing := by
  have hcoh := h.coherent
  have hok := h.avr
  refine ⟨fun hdet => ?_, fun hread hf => ?_⟩
  · cases ha : s.avr with
    | ret x => simp [Sys.detectsReset, ha] at hdet
    | op o k =>
        rw [ha] at hok
        cases o with
        | flagAfterDelay =>
            have hlow : s.via.cb2 = false := by simpa [Sys.detectsReset, ha] using hdet
            have hsafe : avrSafe True (s.avrWorld st) .flagAfterDelay := (Rely.Ok.safe hok).1
            cases st with
            | down => exact absurd rfl hst
            | calm l => rw [show s.arm = .finish from hsafe]; trivial
            | caught => rw [show s.arm = .getChannel from hsafe]; trivial
            | ready c sl => rw [hcoh.1] at hlow; cases hlow
            | called c sl => exact hsafe.elim
            | serving c sl => exact hsafe.elim
        | _ => simp [Sys.detectsReset, ha] at hdet
  · cases ha : s.avr with
    | ret x => simp [Sys.readsBus, ha] at hread
    | op o k =>
        rw [ha] at hok
        cases o with
        | pind =>
            have hsafe : avrSafe True (s.avrWorld st) .pind := (Rely.Ok.safe hok).1
            cases st with
            | down => exact absurd rfl hst
            | caught => rw [show s.arm = .getChannel from hsafe] at hf; exact hf.elim
            | serving c sl =>
                cases sl with
                | recv p => exact hcoh.2.2.1
                | _ => exact hsafe.elim
            | _ => exact hsafe.elim
        | _ => simp [Sys.readsBus, ha] at hread

/-- The invariant of the runs without a reset. -/
structure Whole (s : Sys) (st : Stage) : Prop where
  inv : Inv True s st
  up : st ≠ .down
  unbroken : s.broken = false

/-! ### What a step leaves alone -/

lemma Sys.execAvr_done {o : AvrOp} {v : Byte} {a : o.Ans} {t : Sys} (h : s.execAvr v o = .done a t) :
    ∃ via ports u, t = { s with via := via, ports := ports, far := { s.far with usb := u } } := by
  cases o with
  | usb o =>
      simp only [Sys.execAvr] at h
      split at h <;> cases h
      exact ⟨_, _, _, rfl⟩
  | untilFlagHigh =>
      simp only [Sys.execAvr] at h
      split at h <;> cases h
      exact ⟨_, _, _, rfl⟩
  | _ =>
      cases h
      exact ⟨_, _, _, rfl⟩

lemma Sys.execBbc_done {o : BbcOp} {v : Byte} {a : o.Ans} {t : Sys} (h : s.execBbc v o = some (a, t)) :
    (∃ via, t = { s with via := via }) ∨ ∃ b, o = .putDrb b ∧ t = s.putDrb b := by
  cases o with
  | putDrb b =>
      simp only [Sys.execBbc] at h
      split at h <;> cases h
      exact Or.inr ⟨b, rfl, rfl⟩
  | setPcr b =>
      simp only [Sys.execBbc] at h
      split at h <;> cases h
      exact Or.inl ⟨_, rfl⟩
  | untilCb1 =>
      simp only [Sys.execBbc] at h
      split at h <;> cases h
      exact Or.inl ⟨_, rfl⟩
  | _ =>
      cases h
      exact Or.inl ⟨_, rfl⟩

lemma Sys.putDrb_frame (b : Byte) :
    (s.putDrb b).far = s.far ∧ (s.putDrb b).call = s.call ∧ (s.putDrb b).broken = s.broken := by
  simp only [Sys.putDrb]
  split_ifs <;> exact ⟨rfl, rfl, rfl⟩

lemma Sys.putDrb_wire (b : Byte) :
    (s.putDrb b).wire = if s.via.ddrb = 0xff then s.wire ++ [b] else s.wire := by
  simp only [Sys.putDrb]
  by_cases hd : s.via.ddrb = 0xff
  · simp only [hd, if_true]
    split_ifs <;> rfl
  · simp only [hd, if_false]

lemma Sys.putDrb_sent (b : Byte) : (s.putDrb b).sent =
    if s.via.ddrb = 0xff ∧ s.wire ++ [b] = s.call.bytes then s.sent ++ [s.call.bytes] else s.sent := by
  simp only [Sys.putDrb]
  by_cases hd : s.via.ddrb = 0xff
  · by_cases hfull : s.wire ++ [b] = s.call.bytes
    · simp only [hd, hfull, if_true, and_self]
    · simp only [hd, hfull, if_true, if_false, and_false]
  · simp only [hd, if_false, false_and]

lemma Far.step_served {f f' : Far} {r : Server.Response} (h : f.step r = some f') :
    f.served <+: f'.served := by
  unfold Far.step at h
  split at h
  · split at h
    · cases h
    · split_ifs at h <;> cases h
      · exact List.prefix_refl _
      · exact List.prefix_append _ _
      · exact List.prefix_refl _
  · split at h
    · cases h
    · split_ifs at h <;> cases h
      · exact List.prefix_append _ _
      · exact List.prefix_refl _
      · exact List.prefix_refl _
  · split at h <;> cases h
    exact List.prefix_refl _
  · cases h
    exact List.prefix_refl _
  · cases h

lemma Sys.step_broken {l : Label} (hs : s.step l = some s') (hl : l.isBrk = false) :
    s'.broken = s.broken := by
  cases l with
  | start c =>
      simp only [Sys.step] at hs
      split at hs <;> cases hs <;> rfl
  | brk => cases hl
  | bbc v =>
      simp only [Sys.step, Sys.stepBbc] at hs
      split at hs
      · next o k hb =>
          obtain ⟨⟨a, t⟩, hexec, rfl⟩ := Option.map_eq_some_iff.1 hs
          rcases Sys.execBbc_done hexec with ⟨via, rfl⟩ | ⟨b, -, rfl⟩
          · rfl
          · exact (Sys.putDrb_frame b).2.2
      · cases hs
  | avr v =>
      simp only [Sys.step, Sys.stepAvr] at hs
      split at hs
      · cases hs
      · split at hs
        · cases hs
        · next t hexec =>
            cases hs
            obtain ⟨-, -, -, rfl⟩ := Sys.execAvr_again hexec
            rfl
        · next a t hexec =>
            cases hs
            obtain ⟨via, ports, u, rfl⟩ := Sys.execAvr_done hexec
            rfl
  | host r =>
      obtain ⟨f, hf, rfl⟩ := Option.map_eq_some_iff.1 hs
      rfl

/-- In the middle of the call `c`, which was made in `s₀`. -/
structure Since (s₀ : Sys) (c : Call) (s : Sys) : Prop where
  call : s.call = c
  served : s₀.far.served <+: s.far.served
  sent : s.sent = if s.wire = c.bytes then s₀.sent ++ [c.bytes] else s₀.sent

/-! ### The rank -/

/-- How often the AVR can still find the flag low before the BBC goes on. -/
def Stage.turn : Stage → ℕ
  | .called _ _ => 2
  | .serving _ _ => 1
  | .calm _ => 1
  | _ => 0

lemma turn_acked (st : Stage) (x : Byte) : (st.acked x).turn ≤ st.turn := by
  cases st with
  | serving c sl => rcases acked_serving c sl x with ⟨l, h⟩ | ⟨sl', h⟩ <;> simp [h, Stage.turn]
  | _ => exact le_rfl

/-- What lies at the host and in the endpoints: a packet for the host, packets of the host, and
what is left to do when they are gone. -/
def Far.rank (f : Far) : ℕ × ℕ × ℕ :=
  (if f.usb.inPacket = none then 0 else 1,
    (match f.host with | .write ps => ps.length | _ => 0),
    (if f.usb.outBank = some [] then 1 else 0) + (match f.host with | .write _ => 1 | _ => 0))

/-- Lexicographic order on the ranks of the far side. -/
abbrev farLower : ℕ × ℕ × ℕ → ℕ × ℕ × ℕ → Prop := Prod.Lex (· < ·) (Prod.Lex (· < ·) (· < ·))

lemma Far.step_rank {f f' : Far} {r : Server.Response} (h : f.step r = some f') :
    farLower f'.rank f.rank := by
  have hread : ∀ g : Far, f.usb.inPacket ≠ none → g.usb.inPacket = none → farLower g.rank f.rank := by
    intro g hf hg
    refine Prod.Lex.left _ _ ?_
    simp only [hf, hg, if_true, if_false]
    exact Nat.zero_lt_one
  unfold Far.step at h
  split at h
  · split at h
    · cases h
    · next p hin =>
        have hne : f.usb.inPacket ≠ none := by rw [hin]; simp
        split_ifs at h <;> cases h <;> exact hread _ hne rfl
  · split at h
    · cases h
    · next p hin =>
        have hne : f.usb.inPacket ≠ none := by rw [hin]; simp
        split_ifs at h <;> cases h <;> exact hread _ hne rfl
  · next p ps hw =>
      split at h <;> cases h
      refine Prod.Lex.right _ (Prod.Lex.left _ _ ?_)
      simp [hw]
  · next hw =>
      cases h
      refine Prod.Lex.right _ ?_
      simp only [hw, List.length_nil]
      exact Prod.Lex.right _ (Nat.lt_succ_self _)
  · cases h

lemma Far.acked_rank {f : Far} (h : f.usb.outBank = some []) : farLower f.acked.rank f.rank := by
  refine Prod.Lex.right _ (Prod.Lex.right _ ?_)
  simp [h, Far.acked]

/-- The rank of a state in the middle of a call: what is left of the BBC's program, how often the
AVR can be called, what is left of its program, and what is left to do for the host. -/
abbrev Rank : Type := Bbc Call × ℕ × Avr Vars × ℕ × ℕ × ℕ

abbrev lower : Rank → Rank → Prop :=
  Prod.Lex Tree.Child (Prod.Lex (· < ·) (Prod.Lex Tree.Child farLower))

lemma lower_wf : WellFounded lower := by
  have hnat : WellFounded fun m n : ℕ => m < n := Nat.lt_wfRel.wf
  exact Tree.child_wf.prod_lex (hnat.prod_lex (Tree.child_wf.prod_lex (hnat.prod_lex (hnat.prod_lex hnat))))

/-- In the middle of the call `c`, with the rank `i`. -/
def During (s₀ : Sys) (c : Call) (i : Rank) (s : Sys) : Prop :=
  ∃ st t, i = (t, st.turn, s.avr, s.far.rank) ∧ s.bbc = .running t ∧ Whole s st ∧ Since s₀ c s

/-! ### Going down -/

variable {s₀ : Sys} {c : Call} {i : Rank}

lemma Since.bbcOp {o : BbcOp} {k : o.Ans → Bbc Call} {v : Byte} {a : o.Ans} {t : Sys}
    (h : Since s₀ c s) (hinv : Inv True s st) (hb : s.bbc = .running (.op o k))
    (hs : s.execBbc v o = some (a, t)) : Since s₀ c { t with bbc := .running (k a) } := by
  rcases Sys.execBbc_done hs with ⟨via, rfl⟩ | ⟨b, rfl, rfl⟩
  · exact ⟨h.call, h.served, h.sent⟩
  · obtain ⟨hfar, hcall, -⟩ := Sys.putDrb_frame (s := s) b
    refine ⟨hcall.trans h.call, by rw [hfar]; exact h.served, ?_⟩
    show (s.putDrb b).sent = if (s.putDrb b).wire = c.bytes then _ else _
    have hsent := h.sent
    rw [Sys.putDrb_sent, Sys.putDrb_wire, h.call]
    by_cases hd : s.via.ddrb = 0xff
    · -- a byte of the message, so the message was not complete before
      have hbbc := hinv.bbc
      rw [hb] at hbbc
      obtain ⟨-, hsafe⟩ : bbcSafe (s.bbcWorld st) (.putDrb b) := Rely.Ok.safe hbbc
      have hwire : s.wire ≠ c.bytes := by
        intro heq
        have hne : (0xff : Byte) ≠ 0x00 := by decide
        cases st with
        | ready c' sl =>
            cases sl with
            | recv p =>
                obtain ⟨-, rfl, rfl, l, hl⟩ : s.via.ddrb = 0xff ∧ c' = s.call ∧ p = s.wire ∧
                    ∃ l, c'.bytes = p ++ b :: l := hsafe
                rw [h.call, heq] at hl
                simpa using congrArg List.length hl
            | prep p => exact hne (hd.symm.trans hsafe)
            | reply p tx => exact hne (hd.symm.trans hsafe)
        | _ => exact hsafe.elim
      rw [if_neg hwire] at hsent
      simp only [hd, true_and, if_true, hsent]
    · simp only [hd, false_and, if_false]
      exact hsent

lemma During.bbcMoves {v : Byte} (h : During s₀ c i s) (hs : s.step (.bbc v) = some s') :
    ∃ j, lower j i ∧ During s₀ c j s' := by
  obtain ⟨st, t, rfl, hb, hwhole, hsince⟩ := h
  simp only [Sys.step, Sys.stepBbc, hb] at hs
  cases t with
  | ret r => cases hs
  | op o k =>
      obtain ⟨⟨a, t⟩, hexec, rfl⟩ := Option.map_eq_some_iff.1 hs
      obtain ⟨st', hinv, hdown⟩ := hwhole.inv.bbcOp hb hexec
      refine ⟨_, Prod.Lex.left _ _ (Tree.Child.mk o k a), st', k a, rfl, rfl,
        ⟨hinv, fun hd => hwhole.up (hdown hd), ?_⟩, hsince.bbcOp hwhole.inv hb hexec⟩
      rcases Sys.execBbc_done hexec with ⟨via, rfl⟩ | ⟨b, -, rfl⟩
      · exact hwhole.unbroken
      · exact (Sys.putDrb_frame b).2.2.trans hwhole.unbroken

lemma During.hostMoves {r : Server.Response} (h : During s₀ c i s)
    (hs : s.step (.host r) = some s') : ∃ j, lower j i ∧ During s₀ c j s' := by
  obtain ⟨st, t, rfl, hb, hwhole, hsince⟩ := h
  obtain ⟨f, hf, rfl⟩ := Option.map_eq_some_iff.1 hs
  refine ⟨_, Prod.Lex.right _ (Prod.Lex.right _ (Prod.Lex.right _ (Far.step_rank hf))), st, t, rfl, hb,
    ⟨hwhole.inv.host hf, hwhole.up, hwhole.unbroken⟩, hsince.call, ?_, hsince.sent⟩
  exact hsince.served.trans (Far.step_served hf)

lemma During.avrMoves {v : Byte} (h : During s₀ c i s) (hs : s.step (.avr v) = some s')
    (hpoll : ∀ x, s.avr = .ret x → s.via.cb2 = false) : ∃ j, lower j i ∧ During s₀ c j s' := by
  obtain ⟨st, t, rfl, hb, hwhole, hsince⟩ := h
  simp only [Sys.step, Sys.stepAvr] at hs
  cases ha : s.avr with
  | ret x =>
      have hlow := hpoll x ha
      have hinv := hwhole.inv.poll ha
      simp only [ha, doMessaging, Tree.perform_bind, Sys.execAvr, Option.some.injEq] at hs
      subst hs
      rw [show (if s.via.cb2 = true then st else st.picked) = st.picked by simp [hlow]] at hinv
      have hagree := hwhole.inv.avr
      rw [ha] at hagree
      obtain ⟨sl, -, hst, -⟩ := Between.slot hagree
      have hst : sl.Agrees st := hst
      have hturn : st.picked.turn < st.turn := by
        cases st with
        | down => exact absurd rfl hwhole.up
        | calm l => exact Nat.zero_lt_one
        | caught => exact hst.elim
        | ready c' sl' =>
            have hhigh := hwhole.inv.coherent.1
            rw [hlow] at hhigh
            cases hhigh
        | called c' sl' => exact Nat.one_lt_two
        | serving c' sl' => exact hst.elim
      exact ⟨_, Prod.Lex.right _ (Prod.Lex.left _ _ hturn), st.picked, t, rfl, hb,
        ⟨hinv, mt picked_eq_down.1 hwhole.up, hwhole.unbroken⟩, hsince.call, hsince.served, hsince.sent⟩
  | op o k =>
      simp only [ha] at hs
      split at hs
      · cases hs
      · next t' hexec =>
          cases hs
          have hinv := hwhole.inv.avrAgain ha hexec
          obtain ⟨-, -, ho, rfl⟩ := Sys.execAvr_again hexec
          have hsame : ({ s with far := s.far.acked } : Sys).avr = .op o k := ha
          refine ⟨(t, st.turn, .op o k, s.far.acked.rank), ?_, st, t, ?_, hb,
            ⟨hinv, hwhole.up, hwhole.unbroken⟩, hsince.call, hsince.served, hsince.sent⟩
          · exact Prod.Lex.right _ (Prod.Lex.right _ (Prod.Lex.right _ (Far.acked_rank ho)))
          · rw [hsame]
      · next a t' hexec =>
          cases hs
          have hclean := hwhole.inv.leavesNothing hwhole.up
          obtain ⟨st', hinv, hst'⟩ := hwhole.inv.avrOp ha hexec (LeavesNothing.notInPrep hclean)
            fun _ => hclean
          obtain ⟨via, ports, u, rfl⟩ := Sys.execAvr_done hexec
          have hturn : st'.turn ≤ st.turn := by
            rcases hst' with rfl | rfl
            · exact le_rfl
            · exact turn_acked _ _
          have hup : st' ≠ .down := by
            rcases hst' with rfl | rfl
            · exact hwhole.up
            · exact mt acked_eq_down.1 hwhole.up
          refine ⟨_, Prod.Lex.right _ ?_, st', t, rfl, hb, ⟨hinv, hup, hwhole.unbroken⟩,
            hsince.call, hsince.served, hsince.sent⟩
          rcases hturn.lt_or_eq with hlt | heq
          · exact Prod.Lex.left _ _ hlt
          · rw [heq]
            exact Prod.Lex.right _ (Prod.Lex.left _ _ (Tree.Child.mk o k a))

/-! ### Going on -/

/-- The firmware can go on, or the host can, unless it waits for the flag. -/
lemma Inv.avrProgress {o : AvrOp} {k : o.Ans → Avr Vars} (h : Inv True s st) (ha : s.avr = .op o k) :
    (∃ s', s.Moves s') ∨ o = .untilFlagHigh ∧ s.via.cb2 = false := by
  have hop : ∀ x, s.avr = .ret x → s.via.cb2 = false := fun x hx => by rw [ha] at hx; cases hx
  have hdone : ∀ v a t, s.execAvr v o = .done a t → ∃ s', s.Moves s' := by
    intro v a t hexec
    refine ⟨{ t with avr := k a, arm := s.arm }, Or.inr (Or.inr ⟨⟨v, ?_⟩, hop⟩)⟩
    simp only [Sys.step, Sys.stepAvr, ha, hexec]
  have hagain : ∀ v t, s.execAvr v o = .again t → ∃ s', s.Moves s' := by
    intro v t hexec
    refine ⟨t, Or.inr (Or.inr ⟨⟨v, ?_⟩, hop⟩)⟩
    simp only [Sys.step, Sys.stepAvr, ha, hexec]
  cases o with
  | untilFlagHigh =>
      cases hflag : s.via.cb2 with
      | true => exact Or.inl (hdone 0 () s (by simp [Sys.execAvr, hflag]))
      | false => exact Or.inr ⟨rfl, rfl⟩
  | usb e =>
      have hok := h.avr
      rw [ha] at hok
      have hsafe : avrSafe True (s.avrWorld st) (.usb e) := (Rely.Ok.safe hok).1
      rcases hsafe trivial with ⟨v, a, u, hexec⟩ | ⟨r, f, hf⟩ | ⟨v, u, hexec⟩
      · exact Or.inl (hdone v a { s with far := { s.far with usb := u } } (by
          simp only [Sys.execAvr]
          rw [show s.far.usb.exec v e = .done a u from hexec]))
      · refine Or.inl ⟨{ s with far := f }, Or.inr (Or.inl ⟨r, ?_⟩)⟩
        simp only [Sys.step]
        rw [show s.far.step r = some f from hf]
        rfl
      · exact Or.inl (hagain v { s with far := { s.far with usb := u } } (by
          simp only [Sys.execAvr]
          rw [show s.far.usb.exec v e = .again u from hexec]))
  | _ => exact Or.inl (hdone 0 _ _ rfl)

/-- The BBC can go on unless it waits for the AVR. -/
lemma Inv.bbcProgress {o : BbcOp} {k : o.Ans → Bbc Call} (h : Inv True s st)
    (hb : s.bbc = .running (.op o k)) (hput : ∀ b, o = .putDrb b → testsFlag s.avr = false)
    (hpcr : s.via.cb2 = false → strobeMayEnd s.avr = true)
    (hcb1 : ∀ c sl, st ≠ .called c sl ∧ st ≠ .serving c sl) : ∃ s', s.Moves s' := by
  have hdone : ∀ a t, s.execBbc 0 o = some (a, t) → ∃ s', s.Moves s' := by
    intro a t hexec
    refine ⟨{ t with bbc := .running (k a) }, Or.inl ⟨0, ?_⟩⟩
    simp only [Sys.step, Sys.stepBbc, hb, hexec]
    rfl
  have hok := h.bbc
  rw [hb] at hok
  cases o with
  | putDrb b => exact hdone () (s.putDrb b) (by simp [Sys.execBbc, hput b rfl])
  | setPcr b =>
      refine hdone () _ (if_neg ?_)
      rintro ⟨hlow, -, hmay⟩
      rw [hpcr hlow] at hmay
      cases hmay
  | untilCb1 =>
      have hsafe : bbcSafe (s.bbcWorld st) .untilCb1 := Rely.Ok.safe hok
      rcases hsafe with hset | hst
      · exact hdone () s (if_pos hset)
      · cases st with
        | called c sl => exact absurd rfl (hcb1 c sl).1
        | serving c sl => exact absurd rfl (hcb1 c sl).2
        | _ => exact hst.elim
  | _ => exact hdone _ _ rfl

/-- The message has arrived, its response has, and the AVR waits for the next message. -/
def Sys.AtRest (s : Sys) : Prop :=
  s.ports.ddrd = 0x00 ∧ s.far.usb.outBank = none ∧ ∀ x, s.avr = .ret x → x.state = .getChannel

/-- The call `c` that was made in `s₀` is over: the server has executed exactly its message, the
BBC has received exactly the response, and the AVR is between two messages. -/
def Delivered (s₀ : Sys) (c : Call) (s : Sys) : Prop :=
  ∃ resp r, s.bbc = .running (.ret r) ∧ s.far.served = s₀.far.served ++ [⟨c.bytes, resp⟩] ∧
    Received c resp r ∧ s.AtRest ∧ ∃ x, s.avr = .ret x

lemma Whole.settled (h : Whole s st) : Settled (s.avrWorld st) := (h.inv.recorded trivial).2

/-- When a call has returned, its response is the one to its message, and every message has been
executed once. -/
lemma Whole.returned {r : Call} (h : Whole s st) (hb : s.bbc = .running (.ret r)) :
    (∃ resp, s.far.served.drop s.mark = [⟨s.call.bytes, resp⟩] ∧ Received s.call resp r) ∧
      s.far.served.map Served.request = s.sent ∧ s.wire = s.call.bytes ∧ s.AtRest := by
  obtain ⟨tx, rfl, rfl⟩ := h.inv.returned hb
  obtain ⟨⟨-, hwhole⟩, hout, hlast⟩ := h.settled _ rfl
  obtain ⟨resp, hserved, rfl⟩ := hlast _ _ rfl
  have hbbc := h.inv.bbc
  rw [hb] at hbbc
  obtain ⟨-, -, -, hwire, -⟩ : Returned _ (s.bbcWorld _) := hbbc
  refine ⟨⟨resp, hserved, received_after _ _⟩, hwhole h.unbroken, hwire, h.inv.coherent.2.2, hout,
    fun x hx => ?_⟩
  have hbetween := h.inv.avr
  rw [hx] at hbetween
  obtain ⟨sl, hv, hst, -⟩ := Between.slot hbetween
  obtain rfl : sl = .recv [] := hst
  cases hv with
  | getChannel hstate => exact hstate
  | getData _ h6 => simp at h6

/-- Between two calls every message has been executed. -/
lemma Whole.settled_of_free (h : Whole s st) (hfree : s.bbc.Free) :
    s.far.served.map Served.request = s.sent := by
  rcases (h.inv.quiet hfree).stage with hst | ⟨l, hst⟩
  · exact absurd hst h.up
  · exact (h.settled l hst).1.2 h.unbroken

lemma eq_append_of_drop {l₀ l : List Served} {x : Served} {n : ℕ} (hfront : l₀ <+: l)
    (hlen : l.length = l₀.length + 1) (hdrop : l.drop n = [x]) : l = l₀ ++ [x] := by
  obtain ⟨m, rfl⟩ := hfront
  have hm : m.length = 1 := by
    rw [List.length_append] at hlen
    omega
  obtain ⟨y, rfl⟩ := List.length_eq_one_iff.1 hm
  have hsplit := List.take_append_drop n (l₀ ++ [y])
  rw [hdrop] at hsplit
  have hy := (List.append_inj' hsplit rfl).2
  rw [hy]

/-- The call has returned. -/
lemma During.returned {r : Call} (h : During s₀ c i s)
    (hs₀ : s₀.far.served.map Served.request = s₀.sent) (hb : s.bbc = .running (.ret r)) :
    ∃ resp, s.far.served = s₀.far.served ++ [⟨c.bytes, resp⟩] ∧
      s.far.served.drop s.mark = [⟨c.bytes, resp⟩] ∧ Received c resp r ∧
      s.far.served.map Served.request = s.sent ∧ s.AtRest := by
  obtain ⟨st, t, -, -, hwhole, hsince⟩ := h
  obtain ⟨⟨resp, hserved, hrec⟩, hall, hwire, hrest⟩ := hwhole.returned hb
  rw [hsince.call] at hserved hrec hwire
  refine ⟨resp, eq_append_of_drop hsince.served ?_ hserved, hserved, hrec, hall, hrest⟩
  have hsent := hsince.sent
  rw [if_pos hwire, ← hall, ← hs₀] at hsent
  simpa using congrArg List.length hsent

lemma During.delivered {r : Call} {x : Vars} (h : During s₀ c i s)
    (hs₀ : s₀.far.served.map Served.request = s₀.sent) (hb : s.bbc = .running (.ret r))
    (ha : s.avr = .ret x) : Delivered s₀ c s := by
  obtain ⟨resp, hserved, -, hrec, -, hrest⟩ := h.returned hs₀ hb
  exact ⟨resp, r, hb, hserved, hrec, hrest, x, ha⟩

lemma During.progress (h : During s₀ c i s) (hs₀ : s₀.far.served.map Served.request = s₀.sent)
    (hP : ¬ Delivered s₀ c s) : ∃ s', s.Moves s' := by
  obtain ⟨st, t, rfl, hb, hwhole, hsince⟩ := id h
  have hcoh := hwhole.inv.coherent
  cases ha : s.avr with
  | ret x =>
      cases hflag : s.via.cb2 with
      | false =>
          refine ⟨{ s with avr := doState x, arm := x.state },
            Or.inr (Or.inr ⟨⟨0, ?_⟩, fun _ _ => hflag⟩)⟩
          simp only [Sys.step, Sys.stepAvr, ha, doMessaging, Tree.perform_bind, Sys.execAvr, hflag]
          rfl
      | true =>
          cases t with
          | ret r => exact absurd (h.delivered hs₀ hb ha) hP
          | op o k =>
              refine hwhole.inv.bbcProgress hb (fun _ _ => by rw [ha]; rfl)
                (fun hlow => by rw [hflag] at hlow; cases hlow) fun c sl => ⟨?_, ?_⟩
              · rintro rfl
                rw [hcoh.1] at hflag
                cases hflag
              · rintro rfl
                rw [hcoh.1] at hflag
                cases hflag
  | op o k =>
      rcases hwhole.inv.avrProgress ha with hmove | ⟨rfl, hlow⟩
      · exact hmove
      · -- the AVR waits for the end of the strobe, which is the BBC's next step
        have hok := hwhole.inv.avr
        rw [ha] at hok
        have hsafe : avrSafe True (s.avrWorld st) .untilFlagHigh := (Rely.Ok.safe hok).1
        have hbbc := hwhole.inv.bbc
        rw [hb] at hbbc
        cases t with
        | ret r =>
            have hhigh : s.via.cb2 = true := (Returned.quiet hbbc).cb2
            rw [hlow] at hhigh
            cases hhigh
        | op o k =>
            refine hwhole.inv.bbcProgress hb ?_ (fun _ => by rw [ha]; rfl) fun c sl => ⟨?_, ?_⟩
            · rintro b rfl
              obtain ⟨-, hput⟩ : bbcSafe (s.bbcWorld st) (.putDrb b) := Rely.Ok.safe hbbc
              cases st with
              | ready c' sl =>
                  rw [hcoh.1] at hlow
                  cases hlow
              | _ => exact hput.elim
            · rintro rfl
              exact hsafe.2
            · rintro rfl
              exact hsafe.2

/-- A poll that finds the flag high. -/
lemma During.poll {x : Vars} (h : During s₀ c i s) (ha : s.avr = .ret x) (hhigh : s.via.cb2 = true) :
    During s₀ c i { s with avr := .ret x, arm := x.state } := by
  obtain ⟨st, t, rfl, hb, hwhole, hsince⟩ := h
  have hinv := hwhole.inv.poll ha
  rw [if_pos hhigh, if_pos hhigh] at hinv
  exact ⟨st, t, by rw [ha], hb, ⟨hinv, hwhole.up, hwhole.unbroken⟩, hsince.call, hsince.served, hsince.sent⟩

/-- Every run from the middle of a call gets to its end. -/
lemma During.inevitable (h : During s₀ c i s) (hs₀ : s₀.far.served.map Served.request = s₀.sent) :
    Inevitably Sys.Moves (Delivered s₀ c) s := by
  refine Inevitably.of_wellFounded lower_wf (During s₀ c) (fun i t hi => hi.progress hs₀)
    (fun i t t' hi _ hmove => ?_) i s h
  rcases hmove with ⟨v, hv⟩ | ⟨r, hr⟩ | ⟨⟨v, hv⟩, hpoll⟩
  · exact hi.bbcMoves hv
  · exact hi.hostMoves hr
  · exact hi.avrMoves hv hpoll

/-- A call begins. -/
lemma Whole.during (h : Whole s st) (hfree : s.bbc.Free) (c : Call) :
    During s c (sendMsg c, st.turn, s.avr, s.far.rank) (s.start c) := by
  refine ⟨st, _, rfl, rfl, ⟨h.inv.start hfree, h.up, h.unbroken⟩, rfl, List.prefix_refl _, ?_⟩
  exact (if_neg fun hnil : [] = c.bytes => by simp [Call.bytes] at hnil).symm

lemma whole_of_reachable (h : Reachable Sys.Initial (Sys.Step NoReset) s) : ∃ st, Whole s st := by
  refine Reachable.invariant (P := fun s => ∃ st, Whole s st) ?_ ?_ h
  · rintro s ⟨x, c, rfl⟩
    exact ⟨_, inv_initial x c, by rintro ⟨⟩, rfl⟩
  · rintro s s' ⟨st, hwhole⟩ ⟨l, hl, hok⟩
    have hclean := hwhole.inv.leavesNothing hwhole.up
    obtain ⟨st', hinv, hdown⟩ := hwhole.inv.step hl (fun _ _ => LeavesNothing.notInPrep hclean)
      fun _ _ _ => hclean
    refine ⟨st', hinv, fun hd => ?_, ?_⟩
    · rcases hdown hd with hd | rfl
      · exact hwhole.up hd
      · cases hok
    · rw [Sys.step_broken hl hok]
      exact hwhole.unbroken

/-- **Every message is delivered.**  In a run without a reset, whenever a call has returned its
response is the one the server gave to exactly its message, every message has been executed
once and in order, and the AVR is at rest.  And every call comes to that, in whatever order the
machines take the steps of `Sys`; `CodeSys` says under which conditions the code's are such steps. -/
theorem sendMsg_delivered {s : Sys} (h : Reachable Sys.Initial (Sys.Step NoReset) s) :
    (∀ r, s.bbc = .running (.ret r) →
      (∃ resp, s.far.served.drop s.mark = [⟨s.call.bytes, resp⟩] ∧ Received s.call resp r) ∧
        s.far.served.map Served.request = s.sent ∧ s.AtRest) ∧
    ∀ c s', s.step (.start c) = some s' → Inevitably Sys.Moves (Delivered s c) s' := by
  obtain ⟨st, hwhole⟩ := whole_of_reachable h
  refine ⟨fun r hr => ?_, fun c s' hs => ?_⟩
  · obtain ⟨hresp, hall, -, hrest⟩ := hwhole.returned hr
    exact ⟨hresp, hall, hrest⟩
  · obtain ⟨hfree, rfl⟩ : s.bbc.Free ∧ s' = s.start c := by
      simp only [Sys.step] at hs
      split at hs
      · next hb => cases hs; exact ⟨by rw [hb]; trivial, rfl⟩
      · next hb => cases hs; exact ⟨by rw [hb]; trivial, rfl⟩
      · cases hs
    exact (hwhole.during hfree c).inevitable (hwhole.settled_of_free hfree)

/-- A second call after a first that has returned. -/
theorem secondCall_delivered : ∃ s s', switchedOn.run NoReset (headerBytes 6 ++ replyBytes) = some s ∧
    s.step (.start emptyCall) = some s' ∧ Inevitably Sys.Moves (Delivered s emptyCall) s' := by
  have hrun : ((switchedOn.run NoReset (headerBytes 6 ++ replyBytes)).bind
      fun s => s.step (.start emptyCall)).isSome = true := by decide
  obtain ⟨s', hs'⟩ := Option.isSome_iff_exists.1 hrun
  obtain ⟨s, hs, hstep⟩ := Option.bind_eq_some_iff.1 hs'
  exact ⟨s, s', hs, hstep, (sendMsg_delivered (reachable_run (.start ⟨_, _, rfl⟩) hs)).2 _ _ hstep⟩

end Unbroken

end Udfs.Link
