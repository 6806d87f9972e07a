import Udfs.Link.Delivery
import Udfs.Link.Following

/-!
# The link with the code of `send_msg`

The BBC runs `send_msg` as code in its memory, and its steps come at any moment: nothing keeps it
from the next write to `drb` before the AVR has looked at the flag, and a response may be stored
over the parameter block.  Two conditions on the steps of a run take the place of that.  The steps
are in time: the BBC writes to `drb` only when the AVR is through with the test in `ackByte`, and the
start strobe lasts until that test has seen it, or is over before an AVR that waits for the first byte
has looked.  And the responses fit: what the host gives lies, at the address the caller asked for, in
the user's memory.

In runs that meet both the link does what the one with the thread does, so every message is delivered.
-/

namespace Udfs.Link

/-! ## The steps -/

/-- An operation of the BBC at any moment; `v` is what floating lines give. -/
def Sys.operate (s : Sys) (v : Byte) : (o : BbcOp) → Option (o.Ans × Sys)
  | .setPcr b => some ((), { s with via := { s.via with pcr := b, cb2 := cb2Level b } })
  | .putDrb b => some ((), s.putDrb b)
  | .getPcr => s.execBbc v .getPcr
  | .getAcr => s.execBbc v .getAcr
  | .setAcr b => s.execBbc v (.setAcr b)
  | .setDdrb b => s.execBbc v (.setDdrb b)
  | .getDrb => s.execBbc v .getDrb
  | .untilCb1 => s.execBbc v .untilCb1

/-- The operation comes in time for the AVR. -/
def Sys.InTime (s : Sys) : BbcOp → Prop
  | .putDrb _ => testsFlag s.avr = false
  | .setPcr b => ¬ (s.via.cb2 = false ∧ cb2Level b = true ∧ strobeMayEnd s.avr = false)
  | _ => True

instance (s : Sys) : (o : BbcOp) → Decidable (s.InTime o)
  | .putDrb _ => inferInstanceAs (Decidable (_ = _))
  | .setPcr _ => inferInstanceAs (Decidable (¬ _))
  | .getPcr | .getAcr | .setAcr _ | .setDdrb _ | .getDrb | .untilCb1 => isTrue trivial

/-- What the guards of the thread's steps stand for. -/
lemma execBbc_eq_some_iff {s : Sys} {v : Byte} {o : BbcOp} {x : o.Ans × Sys} :
    s.execBbc v o = some x ↔ s.InTime o ∧ s.operate v o = some x := by
  cases o with
  | putDrb b =>
      change (if testsFlag s.avr = true then none else some ((), s.putDrb b)) = some x ↔
        testsFlag s.avr = false ∧ some ((), s.putDrb b) = some x
      cases testsFlag s.avr <;> simp
  | setPcr b =>
      by_cases h : s.via.cb2 = false ∧ cb2Level b = true ∧ strobeMayEnd s.avr = false
      · exact iff_of_false (fun hx => by rw [Sys.execBbc, if_pos h] at hx; cases hx) fun hx => hx.1 h
      · rw [Sys.execBbc, if_neg h]
        exact (and_iff_right h).symm
  | _ => exact (and_iff_right trivial).symm

/-- The link, and the code of the call of `send_msg`; the thread in the link is not run. -/
structure CodeSys where
  link : Sys
  cpu : Option Cpu

namespace CodeSys

/-- Who makes a step, with what the surroundings choose: a call is made with all its parameters in
memory. -/
inductive Label where
  | start (m : Mem)
  | bbc (v : Byte)
  | avr (v : Byte)
  | host (r : Server.Response)

/-- No call is running. -/
def Free (s : CodeSys) : Prop := ∀ c ∈ s.cpu, c.next.isNone

instance (s : CodeSys) : Decidable s.Free :=
  match s with
  | ⟨_, none⟩ => isTrue nofun
  | ⟨_, some c⟩ => decidable_of_iff (c.next.isNone = true)
      ⟨fun h _ hc => Option.mem_some_iff.1 hc ▸ h, fun h => h c rfl⟩

/-- `jsr send_msg`. -/
def start (s : CodeSys) (m : Mem) : CodeSys :=
  ⟨{ s.link with call := callOf m, wire := [] }, some (Cpu.enter m)⟩

/-- A step of the link. -/
def step (s : CodeSys) : Label → Option CodeSys
  | .start m => if s.Free then some (s.start m) else none
  | .bbc v =>
      match s.cpu.bind Cpu.next with
      | none => none
      | some ⟨o, k⟩ => (s.link.operate v o).map fun (a, t) => ⟨t, some (k a)⟩
  | .avr v => (s.link.stepAvr v).map fun t => { s with link := t }
  | .host r => (s.link.far.step r).map fun f => { s with link := { s.link with far := f } }

/-- The BBC's step comes in time for the AVR. -/
def InTime (s : CodeSys) : Label → Prop
  | .bbc _ =>
      match s.cpu.bind Cpu.next with
      | none => True
      | some ⟨o, _⟩ => s.link.InTime o
  | _ => True

/-- The response that is given fits where the caller wants it. -/
def Fits (s : CodeSys) : Label → Prop
  | .host r => InUserMem s.link.call.block.recvAddr r.body.length
  | _ => True

instance (s : CodeSys) : (l : Label) → Decidable (s.InTime l)
  | .bbc _ =>
      match h : s.cpu.bind Cpu.next with
      | none => isTrue (by simp only [InTime, h])
      | some ⟨o, _⟩ => decidable_of_iff (s.link.InTime o) (by simp only [InTime, h])
  | .start _ | .avr _ | .host _ => isTrue trivial

instance (s : CodeSys) : (l : Label) → Decidable (s.Fits l)
  | .host _ => inferInstanceAs (Decidable (InUserMem _ _))
  | .start _ | .avr _ | .bbc _ => isTrue trivial

/-- A step that meets a condition. -/
def Step (ok : CodeSys → Label → Prop) (s s' : CodeSys) : Prop := ∃ l, s.step l = some s' ∧ ok s l

/-- The step is in time and its response fits. -/
def Proper (s : CodeSys) (l : Label) : Prop := s.InTime l ∧ s.Fits l

instance (s : CodeSys) (l : Label) : Decidable (s.Proper l) := inferInstanceAs (Decidable (_ ∧ _))

/-- The link after both sides have been switched on. -/
def Initial (s : CodeSys) : Prop := s.link.Initial ∧ s.cpu = none

/-- The step takes a call on: it starts none, and a poll of the flag finds it low. -/
def Advances (s : CodeSys) : Label → Prop
  | .start _ => False
  | .avr _ => ∀ x, s.link.avr = .ret x → s.link.via.cb2 = false
  | _ => True

/-- A proper step of one of the three machines in the middle of a call. -/
def Moves : CodeSys → CodeSys → Prop := Step fun s l => s.Proper l ∧ s.Advances l

end CodeSys

/-! ## What a call should come to -/

/-- The response as the BBC has it in memory: `channel`, `send_length`, the body from `p` on, and
everything else as in `m₀`, but for the block and the pointer. -/
structure Stored (p : Word) (m₀ : Mem) (resp : Server.Response) (m : Mem) : Prop where
  channel : m Loc.channel = resp.returnCode
  length : (wordAt m Loc.sendLength).toNat = resp.body.length
  body : ∀ (i : ℕ) (h : i < resp.body.length), m (p + BitVec.ofNat 16 i) = resp.body[i]
  frame : ∀ q, ¬ Scratch q → (∀ i < resp.body.length, q ≠ p + BitVec.ofNat 16 i) → m q = m₀ q

lemma Received.stored {c r : Call} {resp : Server.Response} {cpu : Cpu} (h : Received c resp r)
    (hl : Leaves r cpu) (hfit : InUserMem c.block.recvAddr resp.body.length) :
    Stored c.block.recvAddr c.mem resp cpu.mem := by
  obtain ⟨hblock, hmem⟩ := hl
  refine ⟨?_, ?_, fun i hi => ?_, fun p hp hout => ?_⟩
  · rw [← h.channel, ← hblock]
    rfl
  · rw [← h.length, ← hblock]
    rfl
  · rw [hmem _ (hfit i hi).2.2]
    exact h.body i hi
  · rw [hmem p hp]
    exact h.frame p hout

/-- The memory of a call is the one it was made with, but for what it counts in. -/
lemma callOf_mem {m : Mem} {p : Word} (h : ¬ Scratch p) : (callOf m).mem p = m p := by
  have hne : ∀ q, Scratch q → p ≠ q := fun q hq he => h (he ▸ hq)
  simp only [callOf, bodyMem, pagesSent]
  rw [if_neg (hne _ (by decide)), if_neg (hne _ (by decide)), if_neg (hne _ (by decide))]

namespace CodeSys

/-- The call that was made in `s₀` with the memory `m` is over: the server has executed exactly its
message, the BBC has the response, and the AVR is between two messages. -/
def Delivered (s₀ : CodeSys) (m : Mem) (s : CodeSys) : Prop :=
  ∃ resp cpu, s.cpu = some cpu ∧ cpu.next = none ∧
    s.link.far.served = s₀.link.far.served ++ [⟨(callOf m).bytes, resp⟩] ∧
    Stored (wordAt m Loc.recvAddr) m resp cpu.mem ∧ s.link.AtRest ∧ ∃ x, s.link.avr = .ret x

end CodeSys

/-! ## In the middle of a call with responses that fit -/

section Mid

variable {s₀ a a' : Sys} {c : Call}

/-- The thread is in the middle of the call `c` made in `s₀`, and what the host has given since
fits. -/
structure Mid (s₀ : Sys) (c : Call) (a : Sys) : Prop where
  during : ∃ i, During s₀ c i a
  settled : s₀.far.served.map Served.request = s₀.sent
  fits : ∀ x ∈ a.far.served.drop s₀.far.served.length,
    InUserMem c.block.recvAddr x.response.body.length

lemma Far.step_served_cases {f f' : Far} {r : Server.Response} (h : f.step r = some f') :
    f'.served = f.served ∨ ∃ l, f'.served = f.served ++ [⟨l, r⟩] := by
  unfold Far.step at h
  split at h
  · split at h
    · cases h
    · split_ifs at h <;> cases h
      · exact Or.inl rfl
      · exact Or.inr ⟨_, rfl⟩
      · exact Or.inl rfl
  · split at h
    · cases h
    · split_ifs at h <;> cases h
      · exact Or.inr ⟨_, rfl⟩
      · exact Or.inl rfl
      · exact Or.inl rfl
  · split at h <;> cases h
    exact Or.inl rfl
  · cases h
    exact Or.inl rfl
  · cases h

/-- Whether the host can make a step does not depend on the response. -/
lemma Far.step_isSome {f f' : Far} {r : Server.Response} (h : f.step r = some f')
    (r' : Server.Response) : ∃ g, f.step r' = some g := by
  unfold Far.step at h ⊢
  split at h
  · split at h
    · cases h
    · split_ifs at h ⊢ <;> exact ⟨_, rfl⟩
  · split at h
    · cases h
    · split_ifs at h ⊢ <;> exact ⟨_, rfl⟩
  · split at h
    · exact ⟨_, rfl⟩
    · cases h
  · exact ⟨_, rfl⟩
  · cases h

lemma Sys.stepBbc_served {v : Byte} (h : a.step (.bbc v) = some a') : a'.far = a.far := by
  simp only [Sys.step, Sys.stepBbc] at h
  split at h
  · obtain ⟨⟨x, t⟩, hexec, rfl⟩ := Option.map_eq_some_iff.1 h
    rcases Sys.execBbc_done hexec with ⟨via, rfl⟩ | ⟨b, -, rfl⟩
    · rfl
    · exact (Sys.putDrb_frame b).1
  · cases h

lemma Sys.stepAvr_frame {v : Byte} (h : a.step (.avr v) = some a') :
    a'.bbc = a.bbc ∧ a'.far.served = a.far.served ∧ a'.call = a.call := by
  simp only [Sys.step, Sys.stepAvr] at h
  split at h
  · cases h
  · split at h
    · cases h
    · next t hexec =>
        cases h
        obtain ⟨-, -, -, rfl⟩ := Sys.execAvr_again hexec
        exact ⟨rfl, rfl, rfl⟩
    · next x t hexec =>
        cases h
        obtain ⟨via, ports, u, rfl⟩ := Sys.execAvr_done hexec
        exact ⟨rfl, rfl, rfl⟩

lemma Mid.bbc {v : Byte} (h : Mid s₀ c a) (hs : a.step (.bbc v) = some a') : Mid s₀ c a' := by
  obtain ⟨i, hi⟩ := h.during
  obtain ⟨j, -, hj⟩ := hi.bbcMoves hs
  exact ⟨⟨j, hj⟩, h.settled, by rw [Sys.stepBbc_served hs]; exact h.fits⟩

lemma Mid.avr {v : Byte} (h : Mid s₀ c a) (hs : a.step (.avr v) = some a') : Mid s₀ c a' := by
  obtain ⟨i, hi⟩ := h.during
  refine ⟨?_, h.settled, by rw [(Sys.stepAvr_frame hs).2.1]; exact h.fits⟩
  by_cases hpoll : ∀ x, a.avr = .ret x → a.via.cb2 = false
  · obtain ⟨j, -, hj⟩ := hi.avrMoves hs hpoll
    exact ⟨j, hj⟩
  · -- a poll that finds the flag high
    push Not at hpoll
    obtain ⟨x, ha, hhigh⟩ := hpoll
    have hhigh : a.via.cb2 = true := by simpa using hhigh
    have hstep : a' = { a with avr := .ret x, arm := x.state } := by
      simp only [Sys.step, Sys.stepAvr, ha, doMessaging, Tree.perform_bind, Sys.execAvr, hhigh,
        Option.some.injEq] at hs
      exact hs.symm
    exact ⟨i, hstep ▸ hi.poll ha hhigh⟩

lemma Mid.host {r : Server.Response} (h : Mid s₀ c a) (hs : a.step (.host r) = some a')
    (hr : InUserMem c.block.recvAddr r.body.length) : Mid s₀ c a' := by
  obtain ⟨i, hi⟩ := h.during
  obtain ⟨j, -, hj⟩ := hi.hostMoves hs
  obtain ⟨f, hf, rfl⟩ := Option.map_eq_some_iff.1 hs
  refine ⟨⟨j, hj⟩, h.settled, fun x hx => ?_⟩
  have hlen : s₀.far.served.length ≤ a.far.served.length := by
    obtain ⟨st, t, -, -, -, hsince⟩ := hi
    exact hsince.served.length_le
  have hx : x ∈ f.served.drop s₀.far.served.length := hx
  rcases Far.step_served_cases hf with he | ⟨l, he⟩
  · rw [he] at hx
    exact h.fits x hx
  · rw [he, List.drop_append_of_le_length hlen, List.mem_append, List.mem_singleton] at hx
    rcases hx with hx | rfl
    · exact h.fits x hx
    · exact hr

/-- A response without a body. -/
def noBody : Server.Response := ⟨0, [], Nat.zero_lt_succ _⟩

lemma inUserMem_noBody (p : Word) : InUserMem p noBody.body.length := fun _ h => absurd h (Nat.not_lt_zero _)

/-- The response that comes last has been executed for the call. -/
lemma Mid.last_fits {resp : Server.Response} {l : List Byte} (h : Mid s₀ c a)
    (hs : a.far.served = s₀.far.served ++ [⟨l, resp⟩]) :
    InUserMem c.block.recvAddr resp.body.length := by
  refine h.fits ⟨l, resp⟩ ?_
  rw [hs, List.drop_left]
  exact List.mem_singleton_self _

/-- The thread is never at a place from which it can only end with a response that does not fit. -/
lemma Mid.not_tooLong {t : Bbc Call} (h : Mid s₀ c a) (hb : a.bbc = .running t) :
    ¬ t.Ends (TooLong c.block.recvAddr) := by
  intro hends
  obtain ⟨i, hi⟩ := h.during
  have hkeep : ∀ s s', (Mid s₀ c s ∧ ∃ t, s.bbc = .running t ∧ t.Ends (TooLong c.block.recvAddr)) →
      s.Moves s' → ∃ u, s.Moves u ∧ Mid s₀ c u ∧
        ∃ t, u.bbc = .running t ∧ t.Ends (TooLong c.block.recvAddr) := by
    rintro s s' ⟨hmid, t, ht, hends⟩ (⟨v, hv⟩ | ⟨r, hr⟩ | ⟨⟨v, hv⟩, hpoll⟩)
    · refine ⟨s', Or.inl ⟨v, hv⟩, hmid.bbc hv, ?_⟩
      simp only [Sys.step, Sys.stepBbc, ht] at hv
      cases t with
      | ret r => cases hv
      | op o k =>
          obtain ⟨⟨x, u⟩, -, rfl⟩ := Option.map_eq_some_iff.1 hv
          exact ⟨k x, rfl, hends x⟩
    · obtain ⟨f, hf, -⟩ := Option.map_eq_some_iff.1 hr
      obtain ⟨g, hg⟩ := Far.step_isSome hf noBody
      have hs : s.step (.host noBody) = some { s with far := g } := by
        simp only [Sys.step, hg, Option.map_some]
      exact ⟨_, Or.inr (Or.inl ⟨noBody, hs⟩), hmid.host hs (inUserMem_noBody _), t, ht, hends⟩
    · exact ⟨s', Or.inr (Or.inr ⟨⟨v, hv⟩, hpoll⟩), hmid.avr hv, t,
        (Sys.stepAvr_frame hv).1.trans ht, hends⟩
  -- from here the call can come to its end with no more than an empty response
  obtain ⟨a', ⟨resp, r, hb', hserved, hrec, -⟩, hmid, t', ht', hends'⟩ :=
    (hi.inevitable h.settled).exists_of_kept ⟨h, t, hb, hends⟩ hkeep
  obtain rfl : t' = .ret r := by
    rw [hb'] at ht'
    cases ht'
    rfl
  have hfit := hmid.last_fits hserved
  rw [← hrec.length] at hfit
  exact hends' hfit

end Mid

/-! ## The code does what the thread does -/

section Models

/-- The link with the code and the link with the thread are at the same place. -/
structure Models (s : CodeSys) (a : Sys) : Prop where
  same : a = { s.link with bbc := a.bbc }
  bbc : match s.cpu with
    | none => a.bbc = .idle
    | some cpu => ∃ t, a.bbc = .running t ∧ Follows s.link.call.block.recvAddr t cpu

variable {s s' : CodeSys} {a a' s₀ : Sys}

lemma operate_withBbc (s : Sys) (b : BbcState) (v : Byte) (o : BbcOp) :
    ({ s with bbc := b }).operate v o = (s.operate v o).map fun x => (x.1, { x.2 with bbc := b }) := by
  cases o with
  | putDrb v =>
      simp only [Sys.operate, Sys.putDrb, Option.map_some]
      split_ifs <;> rfl
  | untilCb1 =>
      simp only [Sys.operate, Sys.execBbc]
      split_ifs <;> rfl
  | _ => rfl

lemma execAvr_withBbc (s : Sys) (b : BbcState) (v : Byte) (o : AvrOp) :
    ({ s with bbc := b }).execAvr v o = match s.execAvr v o with
      | .blocked => .blocked
      | .again t => .again { t with bbc := b }
      | .done x t => .done x { t with bbc := b } := by
  cases o with
  | untilFlagHigh =>
      simp only [Sys.execAvr]
      split_ifs <;> rfl
  | usb o =>
      simp only [Sys.execAvr]
      cases s.far.usb.exec v o <;> rfl
  | _ => rfl

lemma stepAvr_withBbc (s : Sys) (b : BbcState) (v : Byte) :
    ({ s with bbc := b }).stepAvr v = (s.stepAvr v).map fun x => { x with bbc := b } := by
  cases ha : s.avr with
  | ret x =>
      simp only [Sys.stepAvr, ha, doMessaging, Tree.perform_bind, Sys.execAvr]
      rfl
  | op o k =>
      have hexec := execAvr_withBbc s b v o
      obtain ⟨via, ports, far, bbc, avr, arm, call, wire, sent, mark, broken⟩ := s
      obtain rfl := ha
      simp only [Sys.stepAvr, hexec]
      cases Sys.execAvr ⟨via, ports, far, bbc, .op o k, arm, call, wire, sent, mark, broken⟩ v o <;> rfl

lemma inTime_withBbc (s : Sys) (b : BbcState) (o : BbcOp) : ({ s with bbc := b }).InTime o ↔ s.InTime o := by
  cases o <;> exact Iff.rfl

lemma operate_call {s t : Sys} {v : Byte} {o : BbcOp} {x : o.Ans} (h : s.operate v o = some (x, t)) :
    t.call = s.call := by
  cases o with
  | putDrb b =>
      cases h
      exact (Sys.putDrb_frame b).2.1
  | untilCb1 =>
      simp only [Sys.operate, Sys.execBbc] at h
      split at h <;> cases h
      rfl
  | _ =>
      cases h
      rfl

/-- When the code is done, the thread is. -/
lemma Models.free (h : Models s a) (hs : s.Free) : a.bbc.Free := by
  have hb := h.bbc
  cases hc : s.cpu with
  | none =>
      rw [hc] at hb
      rw [hb]
      trivial
  | some cpu =>
      rw [hc] at hb
      obtain ⟨t, ht, hf⟩ := hb
      rw [ht]
      cases t with
      | ret r => trivial
      | op o k =>
          obtain ⟨k', hk, -⟩ := hf
          have hnone := hs cpu hc
          rw [hk] at hnone
          cases hnone

/-- A step of the BBC in time is one of the thread, and the response fits as far as it is known. -/
lemma Models.bbcStep {v : Byte} (h : Models s a) (hm : Mid s₀ s.link.call a)
    (hs : s.step (.bbc v) = some s') (ht : s.InTime (.bbc v)) :
    ∃ a', a.step (.bbc v) = some a' ∧ Models s' a' ∧ Mid s₀ s'.link.call a' := by
  have hb := h.bbc
  simp only [CodeSys.step] at hs
  simp only [CodeSys.InTime] at ht
  cases hc : s.cpu with
  | none =>
      rw [hc] at hs
      cases hs
  | some cpu =>
      simp only [hc, Option.bind_some] at hs ht hb
      obtain ⟨t, hrun, hf⟩ := hb
      cases t with
      | ret r =>
          rw [hf.1] at hs
          cases hs
      | op o k =>
          obtain ⟨k', hnext, hk⟩ := hf
          simp only [hnext] at hs ht
          obtain ⟨⟨x, u⟩, hop, rfl⟩ := Option.map_eq_some_iff.1 hs
          have hexec : a.execBbc v o = some (x, { u with bbc := a.bbc }) := by
            rw [execBbc_eq_some_iff, h.same, inTime_withBbc, operate_withBbc, hop]
            exact ⟨ht, rfl⟩
          have hstep : a.step (.bbc v) = some { u with bbc := .running (k x) } := by
            simp only [Sys.step, Sys.stepBbc, hrun, hexec, Option.map_some]
          have hcall := operate_call hop
          have hmid := hm.bbc hstep
          have hfollows := (hk x).resolve_right (hmid.not_tooLong rfl)
          rw [← hcall] at hmid hfollows
          exact ⟨_, hstep, ⟨rfl, k x, rfl, hfollows⟩, hmid⟩

lemma Models.avrStep {v : Byte} (h : Models s a) (hs : s.step (.avr v) = some s') :
    ∃ a', a.step (.avr v) = some a' ∧ Models s' a' ∧ a'.call = a.call := by
  obtain ⟨u, hu, rfl⟩ := Option.map_eq_some_iff.1 hs
  have hstep : a.step (.avr v) = some { u with bbc := a.bbc } := by
    rw [Sys.step, h.same, stepAvr_withBbc, hu]
    rfl
  have hcall : u.call = s.link.call := (Sys.stepAvr_frame (v := v) hu).2.2
  refine ⟨_, hstep, ⟨rfl, ?_⟩, ?_⟩
  · rw [hcall]
    exact h.bbc
  · rw [h.same]
    exact hcall

lemma Models.hostStep {r : Server.Response} (h : Models s a) (hs : s.step (.host r) = some s') :
    ∃ a', a.step (.host r) = some a' ∧ Models s' a' ∧ a'.call = a.call := by
  obtain ⟨f, hf, rfl⟩ := Option.map_eq_some_iff.1 hs
  have hfar : a.far = s.link.far := by rw [h.same]
  refine ⟨{ a with far := f }, ?_, ⟨?_, h.bbc⟩, rfl⟩
  · simp only [Sys.step, hfar, hf, Option.map_some]
  · conv_lhs => rw [h.same]

/-- The thread's call begins where the code's does. -/
lemma Models.start (h : Models s a) (m : Mem) : Models (s.start m) (a.start (callOf m)) := by
  refine ⟨?_, _, rfl, follows_sendMsg m⟩
  simp only [Sys.start, CodeSys.start]
  conv_lhs => rw [h.same]

lemma Models.cpu_of_idle (h : Models s a) (hidle : a.bbc = .idle) : s.cpu = none := by
  have hb := h.bbc
  cases hc : s.cpu with
  | none => rfl
  | some cpu =>
      rw [hc] at hb
      obtain ⟨t, ht, -⟩ := hb
      rw [hidle] at ht
      cases ht

lemma Sys.step_start (hfree : a.bbc.Free) (c : Call) : a.step (.start c) = some (a.start c) := by
  simp only [Sys.step]
  split
  · rfl
  · rfl
  · next hb =>
      rw [hb] at hfree
      exact hfree.elim

lemma mid_start {st : Stage} (hwhole : Whole a st) (hfree : a.bbc.Free) (c : Call) :
    Mid a c (a.start c) := by
  refine ⟨⟨_, hwhole.during hfree c⟩, hwhole.settled_of_free hfree, fun x hx => ?_⟩
  have hnil : a.far.served.drop a.far.served.length = [] := List.drop_length
  rw [show (a.start c).far = a.far from rfl, hnil] at hx
  cases hx

end Models

/-! ## Every run -/

section Runs

variable {s s' : CodeSys} {a s₀ : Sys}

/-- The code is at the place of a thread that a run without a reset has come to, with responses that
fit. -/
structure Tracks (s : CodeSys) (a : Sys) : Prop where
  models : Models s a
  reached : Reachable Sys.Initial (Sys.Step NoReset) a
  mid : a.bbc = .idle ∨ ∃ s₀, Mid s₀ s.link.call a

lemma Tracks.step {l : CodeSys.Label} (h : Tracks s a) (hs : s.step l = some s') (hok : s.Proper l) :
    ∃ a', Tracks s' a' := by
  obtain ⟨hmodels, hreached, hmid⟩ := h
  have hcall : a.call = s.link.call := by rw [hmodels.same]
  cases l with
  | start m =>
      simp only [CodeSys.step] at hs
      split at hs
      · next hfree =>
          cases hs
          have hbbc := hmodels.free hfree
          obtain ⟨st, hwhole⟩ := whole_of_reachable hreached
          have hstep := Sys.step_start hbbc (callOf m)
          exact ⟨_, hmodels.start m, hreached.next ⟨_, hstep, rfl⟩,
            Or.inr ⟨a, mid_start hwhole hbbc (callOf m)⟩⟩
      · cases hs
  | bbc v =>
      rcases hmid with hidle | ⟨s₀, hmid⟩
      · rw [CodeSys.step, hmodels.cpu_of_idle hidle] at hs
        cases hs
      · obtain ⟨a', hstep, hm', hmid'⟩ := hmodels.bbcStep hmid hs hok.1
        exact ⟨a', hm', hreached.next ⟨_, hstep, rfl⟩, Or.inr ⟨s₀, hmid'⟩⟩
  | avr v =>
      obtain ⟨a', hstep, hm', hcall'⟩ := hmodels.avrStep hs
      have hsame : s'.link.call = s.link.call := by
        rw [← hcall, ← hcall', hm'.same]
      refine ⟨a', hm', hreached.next ⟨_, hstep, rfl⟩, ?_⟩
      rw [(Sys.stepAvr_frame hstep).1, hsame]
      exact hmid.imp_right fun ⟨s₀, hm⟩ => ⟨s₀, hm.avr hstep⟩
  | host r =>
      obtain ⟨a', hstep, hm', hcall'⟩ := hmodels.hostStep hs
      have hsame : s'.link.call = s.link.call := by
        rw [← hcall, ← hcall', hm'.same]
      refine ⟨a', hm', hreached.next ⟨_, hstep, rfl⟩, ?_⟩
      rw [hsame]
      refine hmid.imp (fun hidle => ?_) fun ⟨s₀, hm⟩ => ⟨s₀, hm.host hstep hok.2⟩
      obtain ⟨f, -, rfl⟩ := Option.map_eq_some_iff.1 hstep
      exact hidle

lemma tracks_of_reachable (h : Reachable CodeSys.Initial (CodeSys.Step CodeSys.Proper) s) :
    ∃ a, Tracks s a := by
  refine Reachable.invariant (P := fun s => ∃ a, Tracks s a) ?_ ?_ h
  · rintro s ⟨⟨x, c, hlink⟩, hcpu⟩
    obtain ⟨link, cpu⟩ := s
    obtain rfl := hlink
    obtain rfl := hcpu
    exact ⟨_, ⟨rfl, rfl⟩, .start ⟨x, c, rfl⟩, Or.inl rfl⟩
  · rintro s s' ⟨a, h⟩ ⟨l, hs, hok⟩
    exact h.step hs hok

/-- The thread has returned where the code has. -/
lemma Models.returned {cpu : Cpu} (h : Models s a) (hc : s.cpu = some cpu) (hnext : cpu.next = none) :
    ∃ r, a.bbc = .running (.ret r) ∧ Leaves r cpu := by
  have hb := h.bbc
  rw [hc] at hb
  obtain ⟨t, ht, hf⟩ := hb
  cases t with
  | ret r => exact ⟨r, ht, hf.2⟩
  | op o k =>
      obtain ⟨k', hk, -⟩ := hf
      rw [hnext] at hk
      cases hk

/-- What the thread has received, the code has in memory. -/
lemma Models.stored {m : Mem} {r : Call} {resp : Server.Response} (h : Models s a)
    (hrun : a.bbc = .running (.ret r)) (hrec : Received (callOf m) resp r)
    (hfit : InUserMem (wordAt m Loc.recvAddr) resp.body.length) :
    ∃ cpu, s.cpu = some cpu ∧ cpu.next = none ∧ Stored (wordAt m Loc.recvAddr) m resp cpu.mem := by
  have hb := h.bbc
  cases hc : s.cpu with
  | none =>
      rw [hc, hrun] at hb
      cases hb
  | some cpu =>
      rw [hc] at hb
      obtain ⟨t, ht, hf⟩ := hb
      rw [hrun] at ht
      cases ht
      obtain ⟨hchannel, hlength, hbody, hframe⟩ := hrec.stored hf.2 hfit
      exact ⟨cpu, rfl, hf.1, hchannel, hlength, hbody, fun q hq hout =>
        (hframe q hq hout).trans (callOf_mem hq)⟩

/-- What the thread's link has come to, the code's has. -/
lemma Models.delivered {s₁ : CodeSys} {m : Mem} (h : Models s a) (h₀ : s₀.far = s₁.link.far)
    (hmid : Mid s₀ (callOf m) a) (hd : Delivered s₀ (callOf m) a) : s₁.Delivered m s := by
  obtain ⟨resp, r, hrun, hserved, hrec, hrest, havr⟩ := hd
  obtain ⟨cpu, hc, hnext, hstored⟩ := h.stored hrun hrec (hmid.last_fits hserved)
  rw [h₀] at hserved
  rw [h.same] at hserved hrest havr
  exact ⟨resp, cpu, hc, hnext, hserved, hstored, hrest, havr⟩

/-- Where the thread can go on, the code can, and in time. -/
lemma Models.bbcMoves {v : Byte} {a' : Sys} (h : Models s a) (hv : a.step (.bbc v) = some a') :
    ∃ s', s.step (.bbc v) = some s' ∧ s.InTime (.bbc v) := by
  have hb := h.bbc
  simp only [Sys.step, Sys.stepBbc] at hv
  split at hv
  · next o k hrun =>
      cases hc : s.cpu with
      | none =>
          rw [hc, hrun] at hb
          cases hb
      | some cpu =>
          simp only [hc, hrun] at hb
          obtain ⟨t, ht, hf⟩ := hb
          cases ht
          obtain ⟨k', hnext, -⟩ := hf
          obtain ⟨⟨x, u⟩, hexec, rfl⟩ := Option.map_eq_some_iff.1 hv
          rw [execBbc_eq_some_iff, h.same, inTime_withBbc, operate_withBbc] at hexec
          obtain ⟨htime, hop⟩ := hexec
          obtain ⟨⟨y, w⟩, hop, -⟩ := Option.map_eq_some_iff.1 hop
          have hbind : s.cpu.bind Cpu.next = some ⟨o, k'⟩ := by rw [hc, Option.bind_some, hnext]
          refine ⟨⟨w, some (k' y)⟩, ?_, ?_⟩
          · simp only [CodeSys.step, hbind, hop, Option.map_some]
          · simp only [CodeSys.InTime, hbind]
            exact htime
  · cases hv

lemma Models.avrMoves {v : Byte} {a' : Sys} (h : Models s a) (hv : a.step (.avr v) = some a') :
    ∃ s', s.step (.avr v) = some s' := by
  rw [Sys.step, h.same, stepAvr_withBbc] at hv
  obtain ⟨u, hu, -⟩ := Option.map_eq_some_iff.1 hv
  exact ⟨{ s with link := u }, by simp only [CodeSys.step, hu, Option.map_some]⟩

/-- Where the host in the thread's link can go on, the one in the code's can, with any response. -/
lemma Models.hostMoves {r : Server.Response} {a' : Sys} (h : Models s a) (hr : a.step (.host r) = some a')
    (r' : Server.Response) : ∃ s', s.step (.host r') = some s' := by
  obtain ⟨f, hf, -⟩ := Option.map_eq_some_iff.1 hr
  obtain ⟨g, hg⟩ := Far.step_isSome hf r'
  have hfar : a.far = s.link.far := by rw [h.same]
  rw [hfar] at hg
  exact ⟨{ s with link := { s.link with far := g } }, by simp only [CodeSys.step, hg, Option.map_some]⟩

/-- Where the thread's link can go on, the code's can, with a step that is in time and a response that
fits. -/
lemma Models.moves (h : Models s a) {a' : Sys} (hm : a.Moves a') : ∃ s', CodeSys.Moves s s' := by
  rcases hm with ⟨v, hv⟩ | ⟨r, hr⟩ | ⟨⟨v, hv⟩, hpoll⟩
  · obtain ⟨s', hs, htime⟩ := h.bbcMoves hv
    exact ⟨s', .bbc v, hs, ⟨htime, trivial⟩, trivial⟩
  · obtain ⟨s', hs⟩ := h.hostMoves hr noBody
    exact ⟨s', .host noBody, hs, ⟨trivial, inUserMem_noBody _⟩, trivial⟩
  · obtain ⟨s', hs⟩ := h.avrMoves hv
    rw [h.same] at hpoll
    exact ⟨s', .avr v, hs, ⟨trivial, trivial⟩, hpoll⟩

/-- A step of the code's link in the middle of a call is one of the thread's. -/
lemma Models.simulates {c : Call} (h : Models s a) (hmid : Mid s₀ c a) (hs : CodeSys.Moves s s') :
    ∃ a', a.Moves a' ∧ Models s' a' ∧ Mid s₀ c a' := by
  obtain ⟨l, hs, hok, hadv⟩ := hs
  have hcall : s.link.call = c := by
    obtain ⟨i, st, t, -, -, -, hsince⟩ := hmid.during
    rw [← hsince.call, h.same]
  cases l with
  | start m => exact hadv.elim
  | bbc v =>
      subst hcall
      obtain ⟨a', hstep, hm', -⟩ := h.bbcStep hmid hs hok.1
      exact ⟨a', Or.inl ⟨v, hstep⟩, hm', hmid.bbc hstep⟩
  | avr v =>
      obtain ⟨a', hstep, hm', -⟩ := h.avrStep hs
      refine ⟨a', Or.inr (Or.inr ⟨⟨v, hstep⟩, ?_⟩), hm', hmid.avr hstep⟩
      rw [h.same]
      exact hadv
  | host r =>
      obtain ⟨a', hstep, hm', -⟩ := h.hostStep hs
      exact ⟨a', Or.inr (Or.inl ⟨r, hstep⟩), hm', hmid.host hstep (hcall ▸ hok.2)⟩

/-- **Every message is delivered to the code.**  In every run of the link in which the BBC's steps are
in time and the responses fit into the user's memory where the callers want them: whenever a call has
returned, the BBC has the response that the server gave to exactly its message, every message has been
executed once and in order, and the AVR is at rest.  And every call comes to that, in whatever order the
machines take such steps. -/
theorem code_delivered (h : Reachable CodeSys.Initial (CodeSys.Step CodeSys.Proper) s) :
    (∀ cpu, s.cpu = some cpu → cpu.next = none →
      (∃ resp, s.link.far.served.drop s.link.mark = [⟨s.link.call.bytes, resp⟩] ∧
        Stored s.link.call.block.recvAddr s.link.call.mem resp cpu.mem) ∧
        s.link.far.served.map Served.request = s.link.sent ∧ s.link.AtRest) ∧
    ∀ m s', s.step (.start m) = some s' → Inevitably CodeSys.Moves (s.Delivered m) s' := by
  obtain ⟨a, hmodels, hreached, hmid⟩ := tracks_of_reachable h
  refine ⟨fun cpu hc hnext => ?_, fun m s' hs => ?_⟩
  · obtain ⟨r, hrun, hleaves⟩ := hmodels.returned hc hnext
    rcases hmid with hidle | ⟨s₀, hmid⟩
    · rw [hidle] at hrun
      cases hrun
    obtain ⟨i, hi⟩ := hmid.during
    obtain ⟨resp, hserved, hmark, hrec, hall, hrest⟩ := hi.returned hmid.settled hrun
    have hstored := hrec.stored hleaves (hmid.last_fits hserved)
    rw [hmodels.same] at hmark hall hrest
    exact ⟨⟨resp, hmark, hstored⟩, hall, hrest⟩
  · simp only [CodeSys.step] at hs
    split at hs
    · next hfree =>
        cases hs
        obtain ⟨st, hwhole⟩ := whole_of_reachable hreached
        have hstart := mid_start hwhole (hmodels.free hfree) (callOf m)
        obtain ⟨i, hi⟩ := hstart.during
        refine Inevitably.of_simulation (fun t b => Models t b ∧ Mid a (callOf m) b)
          (fun t b ht hd => ht.1.delivered ?_ ht.2 hd) ?_ ?_ (hi.inevitable hstart.settled)
          ⟨hmodels.start m, hstart⟩
        · rw [hmodels.same]
        · exact fun t b b' ht hmove => ht.1.moves hmove
        · rintro t b t' ⟨htb, hmid⟩ hmove
          obtain ⟨b', hb', hm'⟩ := htb.simulates hmid hmove
          exact ⟨b', hb', hm'⟩
    · cases hs

end Runs

/-! ## Runs of given steps -/

namespace CodeSys

section Drive

variable (ok : CodeSys → Label → Prop) [∀ s l, Decidable (ok s l)]

/-- The first of the given steps that can be made and meets the condition. -/
def firstStep (s : CodeSys) : List Label → Option CodeSys
  | [] => none
  | l :: ls => if ok s l then (s.step l).or (firstStep s ls) else firstStep s ls

/-- A number of such steps. -/
def drive (ls : List Label) : ℕ → CodeSys → CodeSys
  | 0, s => s
  | n + 1, s =>
      match firstStep ok s ls with
      | none => s
      | some s' => drive ls n s'

variable {ok} {init : CodeSys → Prop} {s s' : CodeSys}

lemma firstStep_step {ls : List Label} (h : firstStep ok s ls = some s') : Step ok s s' := by
  induction ls with
  | nil => cases h
  | cons l ls ih =>
      rw [firstStep] at h
      split at h
      · next hok =>
          rcases Option.or_eq_some_iff.1 h with hs | ⟨-, h⟩
          · exact ⟨l, hs, hok⟩
          · exact ih h
      · exact ih h

lemma reachable_drive (h : Reachable init (Step ok) s) (ls : List Label) (n : ℕ) :
    Reachable init (Step ok) (s.drive ok ls n) := by
  induction n generalizing s with
  | zero => exact h
  | succ n ih =>
      rw [drive]
      split
      · exact h
      · next s' hs => exact ih (h.next (firstStep_step hs))

end Drive

/-- A message of one byte from `$2000`, with the response wanted at the given address. -/
def askMem (recv : Word) : Mem := fun p =>
  if p = Loc.channel then 1
  else if p = Loc.command then 2
  else if p = Loc.param1 then 3
  else if p = Loc.param2 then 4
  else if p = Loc.sendLength then 1
  else if p = Loc.sendAddr + 1 then 0x20
  else if p = Loc.recvAddr then loByte recv
  else if p = Loc.recvAddr + 1 then hiByte recv
  else if p = 0x2000 then 0x55
  else 0

/-- A response of two bytes. -/
def twoBytes : Server.Response := ⟨0, [0x41, 0x42], by decide⟩

/-- The call of a message when both sides have been switched on. -/
def asked (recv : Word) : CodeSys := start ⟨switchedOn, none⟩ (askMem recv)

/-- The three machines in turn, the BBC first. -/
def inTurn : List Label := [.bbc 0, .host twoBytes, .avr 0]

lemma asked_reachable {ok : CodeSys → Label → Prop} (recv : Word)
    (h : ok ⟨switchedOn, none⟩ (.start (askMem recv))) : Reachable Initial (Step ok) (asked recv) :=
  (Reachable.start ⟨⟨_, _, rfl⟩, rfl⟩).next ⟨.start (askMem recv), if_pos nofun, h⟩

lemma step_start {s : CodeSys} (h : s.Free) (m : Mem) : s.step (.start m) = some (s.start m) := if_pos h

/-- A second message after a first that has been answered with two bytes. -/
theorem secondMessage_delivered :
    let s := (asked 0x1900).drive Proper inTurn 140
    (∃ cpu ∈ s.cpu, cpu.next = none ∧ cpu.mem 0x1900 = 0x41 ∧ cpu.mem 0x1901 = 0x42) ∧
      ∃ s', s.step (.start (askMem 0x1900)) = some s' ∧
        Inevitably Moves (s.Delivered (askMem 0x1900)) s' := by
  intro s
  have hreach : Reachable Initial (Step Proper) s :=
    reachable_drive (asked_reachable _ ⟨trivial, trivial⟩) _ _
  have hstep := step_start (s := s) (by decide +kernel) (askMem 0x1900)
  have hmem : (s.cpu.map fun cpu => (cpu.next.isNone, cpu.mem 0x1900, cpu.mem 0x1901))
      = some (true, 0x41, 0x42) := by decide +kernel
  obtain ⟨cpu, hcpu, hend⟩ := Option.map_eq_some_iff.1 hmem
  simp only [Prod.mk.injEq] at hend
  exact ⟨⟨cpu, hcpu, Option.isNone_iff_eq_none.1 hend.1, hend.2⟩, _, hstep,
    (code_delivered hreach).2 _ _ hstep⟩

/-- Each of the three waits for another: the BBC for an acknowledge, the AVR for the flag, and the host
for a request. -/
def allWait (s : CodeSys) : Bool :=
  (match s.cpu.bind Cpu.next with | some ⟨.untilCb1, _⟩ => !s.link.via.cb1 | _ => false) &&
    (match s.link.avr with | .op .untilFlagHigh _ => !s.link.via.cb2 | _ => false) &&
    (match s.link.far.host, s.link.far.usb.inPacket with | .readHeader, none => true | _, _ => false)

lemma step_of_allWait {s : CodeSys} (h : s.allWait = true) : ¬ s.Free ∧ ∀ l, s.step l = none := by
  simp only [allWait, Bool.and_eq_true] at h
  obtain ⟨⟨hbbc, havr⟩, hhost⟩ := h
  split at hbbc
  · next k hnext =>
      have hfree : ¬ s.Free := by
        obtain ⟨cpu, hcpu, hop⟩ := Option.bind_eq_some_iff.1 hnext
        intro hfree
        have hnone := hfree cpu hcpu
        rw [hop] at hnone
        cases hnone
      refine ⟨hfree, fun l => ?_⟩
      cases l with
      | start m => exact if_neg hfree
      | bbc v =>
          have hcb1 : s.link.via.cb1 = false := by simpa using hbbc
          simp only [step, hnext, Sys.operate, Sys.execBbc, hcb1, Bool.false_eq_true, if_false,
            Option.map_none]
      | avr v =>
          split at havr
          · next k hop =>
              have hcb2 : s.link.via.cb2 = false := by simpa using havr
              simp only [step, Sys.stepAvr, hop, Sys.execAvr, hcb2, Bool.false_eq_true, if_false,
                Option.map_none]
          · cases havr
      | host r =>
          split at hhost
          · next hread hin => simp only [step, Far.step, hread, hin, Option.map_none]
          · cases hhost
  · cases hbbc

/-- Neither condition can be missed.  A response of two bytes to `$0d42` is stored over `channel`, so the
BBC has not got the return code.  And a BBC that is too fast writes to `drb` before the AVR has looked at
the flag, which takes that for a reset; each then waits for the other. -/
theorem code_not_delivered :
    (∃ s cpu x, Reachable Initial (Step InTime) s ∧ s.cpu = some cpu ∧ cpu.next = none ∧
      s.link.far.served = [x] ∧ cpu.mem Loc.channel ≠ x.response.returnCode) ∧
    ∃ s, Reachable Initial (Step Fits) s ∧ ¬ s.Free ∧ ∀ l, s.step l = none := by
  constructor
  · set s := (asked 0x0d42).drive InTime inTurn 140
    have hreach : Reachable Initial (Step InTime) s := reachable_drive (asked_reachable _ trivial) _ _
    have hmem : (s.cpu.map fun cpu => (cpu.next.isNone, cpu.mem Loc.channel)) = some (true, 0x41) := by
      decide +kernel
    have hserved : s.link.far.served.map (fun x => x.response.returnCode) = [0x00] := by
      decide +kernel
    obtain ⟨cpu, hcpu, hend⟩ := Option.map_eq_some_iff.1 hmem
    obtain ⟨x, hx, hcode⟩ := List.map_eq_singleton_iff.1 hserved
    simp only [Prod.mk.injEq] at hend
    refine ⟨s, cpu, x, hreach, hcpu, Option.isNone_iff_eq_none.1 hend.1, hx, ?_⟩
    rw [hend.2, hcode]
    decide
  · refine ⟨(asked 0x1900).drive Fits inTurn 20, reachable_drive (asked_reachable _ trivial) _ _, ?_⟩
    exact step_of_allWait (by decide +kernel)

end CodeSys

end Udfs.Link
