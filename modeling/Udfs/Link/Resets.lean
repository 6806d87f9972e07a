import Udfs.Link.Invariant

/-!
# Resets

The BBC may be reset at any moment and starts over with a strobe that the firmware meets in
whatever state it is in.  `ackByte` then goes back to `GET_CHANNEL` and lets go of the bus,
but the arm that called it goes on.  In `SEND_PREP` it turns the bus round all the same, and
in some states bytes of the abandoned message or response stay behind in the endpoints.
These are the only states in which a reset does harm.
-/

namespace Udfs.Link

/-! ## What a call gets -/

/-- The call `c` has returned as `r` with the response. -/
structure Received (c : Call) (resp : Server.Response) (r : Call) : Prop where
  channel : r.block.channel = resp.returnCode
  length : (wordOf r.block.sendLo r.block.sendHi).toNat = resp.body.length
  body : ∀ (i : ℕ) (h : i < resp.body.length),
    r.mem (c.block.recvAddr + BitVec.ofNat 16 i) = resp.body[i]
  frame : ∀ a, (∀ i < resp.body.length, a ≠ c.block.recvAddr + BitVec.ofNat 16 i) → r.mem a = c.mem a

lemma storeReply_frame (l : List Byte) : ∀ (mem : Mem) (ptr a : Word),
    (∀ i < l.length, a ≠ ptr + BitVec.ofNat 16 i) → storeReply mem ptr l a = mem a := by
  induction l with
  | nil => intro mem ptr a _; rfl
  | cons v l ih =>
      intro mem ptr a ha
      have hne : a ≠ ptr := by simpa using ha 0 (by simp)
      rw [storeReply, ih, Function.update_of_ne hne]
      intro i hi heq
      refine ha (i + 1) (by simpa using hi) ?_
      rw [heq]
      apply BitVec.eq_of_toNat_eq
      simp only [BitVec.toNat_add, BitVec.toNat_ofNat, word_one]
      omega

lemma storeReply_get (l : List Byte) : ∀ (mem : Mem) (ptr : Word) (i : ℕ) (h : i < l.length),
    l.length ≤ 65536 → storeReply mem ptr l (ptr + BitVec.ofNat 16 i) = l[i] := by
  induction l with
  | nil => intro mem ptr i h; simp at h
  | cons v l ih =>
      intro mem ptr i h hlen
      rw [List.length_cons] at hlen
      cases i with
      | zero =>
          rw [storeReply, storeReply_frame]
          · simp
          · intro j hj heq
            have := congrArg BitVec.toNat heq
            simp only [BitVec.toNat_add, BitVec.toNat_ofNat, word_one] at this
            omega
      | succ i =>
          rw [storeReply, ← add_one_ofNat, List.getElem_cons_succ]
          exact ih _ _ i (by simpa using h) (by omega)

/-- The ROM stores a whole response byte by byte. -/
lemma received_after (c : Call) (resp : Server.Response) :
    Received c resp (c.after (responseBytes resp)) := by
  have hlen := resp.body_lt
  refine ⟨rfl, ?_, fun i h => storeReply_get resp.body _ _ i h (by omega),
    fun a ha => storeReply_frame resp.body _ _ a ha⟩
  simp only [Call.after, ParamBlock.received, responseBytes, List.cons_append, List.getD_cons_succ,
    List.getD_cons_zero, toNat_wordOf, BitVec.toNat_ofNat]
  omega

/-! ## Runs -/

/-- The two machines as they are switched on. -/
def Sys.Initial (s : Sys) : Prop := ∃ x c, s = Sys.initial x c

/-- A step that meets a condition. -/
def Sys.Step (ok : Sys → Label → Prop) (s s' : Sys) : Prop := ∃ l, s.step l = some s' ∧ ok s l

/-- A run of given steps, each of which meets a condition. -/
def Sys.run (ok : Sys → Label → Prop) [∀ s l, Decidable (ok s l)] (s : Sys) : List Label → Option Sys
  | [] => some s
  | l :: ls => if ok s l then (s.step l).bind fun s' => s'.run ok ls else none

lemma reachable_run {init : Sys → Prop} {ok : Sys → Label → Prop} [∀ s l, Decidable (ok s l)]
    {s t : Sys} (hs : Reachable init (Sys.Step ok) s) {ls : List Label} (h : s.run ok ls = some t) :
    Reachable init (Sys.Step ok) t := by
  induction ls generalizing s with
  | nil =>
      cases h
      exact hs
  | cons l ls ih =>
      rw [Sys.run] at h
      split at h
      · next hok =>
          obtain ⟨s', hl, h⟩ := Option.bind_eq_some_iff.1 h
          exact ih (hs.next ⟨l, hl, hok⟩) h
      · cases h

/-- Whether the step is one of the AVR. -/
def Label.isAvr : Label → Bool
  | avr _ => true
  | _ => false

/-- The step does not detect a reset in `SEND_PREP`. -/
def SafeReset (s : Sys) (l : Label) : Prop := l.isAvr = true → s.NotInPrep

/-- The step neither detects a reset that leaves something behind, nor passes on to the host a
byte that is not on the bus. -/
def CleanStep (s : Sys) (l : Label) : Prop := l.isAvr = true → s.LeavesNothing

instance (s : Sys) : Decidable s.NotInPrep := inferInstanceAs (Decidable (_ → _))

instance (f : Far) : (st : MsgState) → Decidable (CleanReset f st)
  | .getLengthHigh => inferInstanceAs (Decidable False)
  | .getData => inferInstanceAs (Decidable False)
  | .sendPrep => inferInstanceAs (Decidable False)
  | .sendRetcode => inferInstanceAs (Decidable (f.unread = [0, 0]))
  | .sendLengthLow => inferInstanceAs (Decidable (f.unread = []))
  | .sendLengthHigh => inferInstanceAs (Decidable (f.unread = []))
  | .sendData => inferInstanceAs (Decidable (f.unread = []))
  | .getChannel => inferInstanceAs (Decidable True)
  | .getCommand => inferInstanceAs (Decidable True)
  | .getParam1 => inferInstanceAs (Decidable True)
  | .getParam2 => inferInstanceAs (Decidable True)
  | .getLengthLow => inferInstanceAs (Decidable True)
  | .finish => inferInstanceAs (Decidable True)

instance : DecidablePred forwards := fun st =>
  decidable_of_iff (st = .getLengthHigh ∨ st = .getData) (by cases st <;> simp [forwards])

instance (s : Sys) : Decidable s.LeavesNothing := inferInstanceAs (Decidable (_ ∧ _))

instance (s : Sys) (l : Label) : Decidable (SafeReset s l) := inferInstanceAs (Decidable (_ → _))

instance (s : Sys) (l : Label) : Decidable (CleanStep s l) := inferInstanceAs (Decidable (_ → _))

lemma LeavesNothing.notInPrep {s : Sys} (h : s.LeavesNothing) : s.NotInPrep := by
  intro hd harm
  have := h.1 hd
  rw [harm] at this
  exact this

/-! ## The bus -/

/-- `GET_CHANNEL` … `SEND_PREP`. -/
def MsgState.receives : MsgState → Prop
  | .sendRetcode => False
  | .sendLengthLow => False
  | .sendLengthHigh => False
  | .sendData => False
  | .finish => False
  | _ => True

/-- Never do both sides drive the bus, and between two calls of `doMessaging` in a state that
receives the AVR does not. -/
def Sys.BusSafe (s : Sys) : Prop :=
  ¬ (s.via.ddrb = 0xff ∧ s.ports.ddrd = 0xff) ∧
    ∀ x, s.avr = .ret x → x.state.receives → s.ports.ddrd = 0x00

lemma dirOf_receives {st : MsgState} (h : st.receives) : dirOf st = 0x00 := by
  cases st <;> first | rfl | exact h.elim

lemma inv_of_reachable (strict : Prop) {ok : Sys → Label → Prop} {s : Sys}
    (hprep : ∀ s l, ok s l → SafeReset s l) (hclean : ∀ s l, ok s l → strict → CleanStep s l)
    (h : Reachable Sys.Initial (Sys.Step ok) s) : ∃ st, Inv strict s st := by
  refine Reachable.invariant (P := fun s => ∃ st, Inv strict s st) ?_ ?_ h
  · rintro s ⟨x, c, rfl⟩
    exact ⟨_, inv_initial x c⟩
  · rintro s s' ⟨st, hinv⟩ ⟨l, hl, hok⟩
    obtain ⟨st', hinv', -⟩ := hinv.step hl (fun v hv => hprep s l hok (by rw [hv]; rfl))
      fun v hv hs => hclean s l hok hs (by rw [hv]; rfl)
    exact ⟨st', hinv'⟩

/-- **The two sides never drive the bus together** in a run in which no reset is detected by the
acknowledge of `SEND_PREP`. -/
theorem busSafe_of_safeReset {s : Sys} (h : Reachable Sys.Initial (Sys.Step SafeReset) s) :
    s.BusSafe := by
  obtain ⟨st, hinv⟩ := inv_of_reachable False (fun _ _ h => h) (fun _ _ _ h => h.elim) h
  refine ⟨fun ⟨hb, ha⟩ => ?_, fun x hx hrec => ?_⟩
  · rw [hinv.coherent.ddrd hb] at ha
    exact absurd ha (by decide)
  · have hbetween := hinv.avr
    rw [hx] at hbetween
    have hddrd : s.ports.ddrd = dirOf x.state := Between.ddrd hbetween
    rw [hddrd, dirOf_receives hrec]

/-- A message without a body. -/
def emptyCall : Call := ⟨⟨1, 2, 3, 4, 0, 0, 0, 0⟩, fun _ => 0⟩

/-- The machines as they are switched on. -/
def switchedOn : Sys := Sys.initial ⟨0, 0, 0, 0, 0, .getChannel⟩ emptyCall

/-- Steps of the BBC, and of the AVR. -/
def bbcSteps (n : ℕ) : List Label := List.replicate n (.bbc 0)

def avrSteps (n : ℕ) : List Label := List.replicate n (.avr 0)

/-- The strobe of a call and the first bytes of its header. -/
def headerBytes (n : ℕ) : List Label :=
  [.start emptyCall] ++ bbcSteps 8 ++
    (List.replicate n (bbcSteps 1 ++ avrSteps 5 ++ bbcSteps 1)).flatten

/-- The rest of a call whose header was acknowledged, with an empty response. -/
def replyBytes : List Label :=
  avrSteps 9 ++ bbcSteps 2 ++ avrSteps 5 ++ bbcSteps 1 ++
    [.host ⟨0, [], by simp⟩, .host ⟨0, [], by simp⟩] ++ bbcSteps 1 ++ avrSteps 10 ++
    bbcSteps 3 ++ avrSteps 5 ++ bbcSteps 3 ++ avrSteps 5 ++ bbcSteps 3 ++ avrSteps 6 ++ bbcSteps 3

/-- A reset, and a new strobe which lasts until `ackByte` has seen it. -/
def resetInArm (before : ℕ) : List Label :=
  [.brk, .start emptyCall] ++ bbcSteps 5 ++ avrSteps before ++ bbcSteps 1

/-- A reset that `GET_COMMAND` detects does no harm. -/
theorem resetInHeader_busSafe :
    ∃ s, switchedOn.run SafeReset (headerBytes 1 ++ resetInArm 5 ++ avrSteps 2 ++ bbcSteps 2) = some s ∧
      s.BusSafe := by
  obtain ⟨s, hs⟩ := Option.isSome_iff_exists.1 (by decide :
    (switchedOn.run SafeReset (headerBytes 1 ++ resetInArm 5 ++ avrSteps 2 ++ bbcSteps 2)).isSome = true)
  exact ⟨s, hs, busSafe_of_safeReset (reachable_run (.start ⟨_, _, rfl⟩) hs)⟩

/-- A reset that is met in `SEND_PREP`: the AVR drives the bus while the BBC sends. -/
theorem resetInSendPrep_not_busSafe :
    ¬ ∀ s, Reachable Sys.Initial (Sys.Step fun _ _ => True) s → s.BusSafe := by
  intro hall
  have hrun : (switchedOn.run (fun _ _ => True) (headerBytes 6 ++ avrSteps 9 ++ bbcSteps 1 ++
      resetInArm 4 ++ avrSteps 3 ++ bbcSteps 2)).map (fun s => (s.via.ddrb, s.ports.ddrd))
      = some (0xff, 0xff) := by decide
  obtain ⟨s, hs, hd⟩ := Option.map_eq_some_iff.1 hrun
  have hsafe := (hall s (reachable_run (.start ⟨_, _, rfl⟩) hs)).1
  exact hsafe ⟨congrArg Prod.fst hd, congrArg Prod.snd hd⟩

/-! ## Messages and responses -/

/-- What was executed was sent, in that order; and a call that has returned has the response to
its own message, the only one executed since that was sent in full. -/
structure Sys.Agreed (s : Sys) : Prop where
  executed : (s.far.served.map Served.request).Sublist s.sent
  received : ∀ r, s.bbc = .running (.ret r) →
    ∃ resp, s.far.served.drop s.mark = [⟨s.call.bytes, resp⟩] ∧ Received s.call resp r

lemma Between.recorded {strict : Prop} {x : Vars} {w : AvrWorld} (h : Between strict x w) (hs : strict) :
    Recorded w := by
  obtain ⟨v, -, -, hholds⟩ := h.slot
  have hv := hholds hs
  cases v with
  | recv p => exact hv.2.recorded
  | prep p => exact Owed.recorded hv
  | reply p tx =>
      rw [Slot.Holds] at hv
      split_ifs at hv
      · exact Owed.recorded hv
      · obtain ⟨r, -, hdone, -⟩ := hv
        exact hdone.1.1

lemma Inv.recorded {strict : Prop} {s : Sys} {st : Stage} (h : Inv strict s st) (hs : strict) :
    Recorded (s.avrWorld st) ∧ Settled (s.avrWorld st) := by
  have havr := h.avr
  cases ha : s.avr with
  | ret x =>
      rw [ha] at havr
      exact ⟨Between.recorded havr hs, fun l hl => (Between.rest havr hs l hl).2.2 l hl⟩
  | op o k =>
      rw [ha] at havr
      exact (Rely.Ok.safe havr).2 hs

/-- What holds when a call has returned. -/
lemma Inv.returned {strict : Prop} {s : Sys} {st : Stage} {r : Call} (h : Inv strict s st)
    (hb : s.bbc = .running (.ret r)) : ∃ tx, st = .calm (some (s.call, tx)) ∧ r = s.call.after tx := by
  have hbbc := h.bbc
  rw [hb] at hbbc
  obtain ⟨-, -, -, -, tx, hst, hr⟩ : Returned r (s.bbcWorld st) := hbbc
  exact ⟨tx, hst, hr⟩

/-- **The server executes only messages that were sent, and the BBC receives only responses to its
own messages**, in a run in which every reset that is detected leaves nothing behind and the
firmware passes on only bytes that are on the bus. -/
theorem agreed_of_cleanSteps {s : Sys} (h : Reachable Sys.Initial (Sys.Step CleanStep) s) :
    s.Agreed := by
  obtain ⟨st, hinv⟩ := inv_of_reachable True
    (fun s l hok hl => LeavesNothing.notInPrep (hok hl)) (fun _ _ hok _ => hok) h
  obtain ⟨hrec, hset⟩ := hinv.recorded trivial
  refine ⟨hrec, fun r hr => ?_⟩
  obtain ⟨tx, hst, rfl⟩ := hinv.returned hr
  obtain ⟨-, -, hlast⟩ := hset _ hst
  obtain ⟨resp, hserved, rfl⟩ := hlast _ _ rfl
  exact ⟨resp, hserved, received_after _ _⟩

/-- A call whose message was broken off by a reset in `GET_COMMAND` and made again. -/
def callAfterReset : List Label :=
  headerBytes 1 ++ resetInArm 5 ++ avrSteps 2 ++ bbcSteps 2 ++
    (List.replicate 6 (bbcSteps 1 ++ avrSteps 5 ++ bbcSteps 1)).flatten ++ replyBytes

/-- Whether the call has returned. -/
def BbcState.isReturned : BbcState → Bool
  | running (.ret _) => true
  | _ => false

/-- It gets its own response. -/
theorem callAfterReset_agreed : ∃ s, switchedOn.run CleanStep callAfterReset = some s ∧
    s.bbc.isReturned = true ∧ s.Agreed := by
  have hrun : (switchedOn.run CleanStep callAfterReset).map (fun s => s.bbc.isReturned) = some true := by
    decide
  obtain ⟨s, hs, hret⟩ := Option.map_eq_some_iff.1 hrun
  exact ⟨s, hs, hret, agreed_of_cleanSteps (reachable_run (.start ⟨_, _, rfl⟩) hs)⟩

/-- A reset that is met in `GET_LENGTH_HIGH`: the header goes to the host all the same, and the
server executes a message that was never sent. -/
theorem resetInLengthHigh_not_agreed :
    ¬ ∀ s, Reachable Sys.Initial (Sys.Step fun _ _ => True) s → s.Agreed := by
  intro hall
  have hrun : (switchedOn.run (fun _ _ => True) (headerBytes 5 ++ resetInArm 5 ++ avrSteps 11 ++
      [.host ⟨0, [], by simp⟩])).map (fun s => (s.far.served.map Served.request, s.sent))
      = some ([[1, 2, 3, 4, 0, 0]], []) := by decide
  obtain ⟨s, hs, hd⟩ := Option.map_eq_some_iff.1 hrun
  have hexec := (hall s (reachable_run (.start ⟨_, _, rfl⟩) hs)).executed
  obtain ⟨hserved, hsent⟩ := Prod.mk.inj hd
  rw [hserved, hsent] at hexec
  exact absurd hexec (by decide)

end Udfs.Link
