import Udfs.Link.CodeSys
import Udfs.Server.Survival

/-!
# The server at the far end

So far the host gave any response.  Here it runs the server: it parses the bytes of a message as
a request, executes it on the disk image with the memory and the files that the requests before
have left, and sends what that puts into the response buffer.  A request that the server does not survive
ends the program, and the link stands still.
-/

namespace Udfs.Server

/-- The bytes of a request as they are sent. -/
def Request.bytes (q : Request) : List Byte := q.hdr.bytes ++ q.body

/-- The request that bytes are, if they are as many as their header announces. -/
def Request.ofBytes : List Byte → Option Request
  | channel :: command :: param1 :: param2 :: lo :: hi :: body =>
      if h : body.length = (wordOf lo hi).toNat then
        some ⟨⟨channel, command, param1, param2, wordOf lo hi⟩, body, h⟩
      else none
  | _ => none

@[simp] lemma Request.ofBytes_bytes (q : Request) : Request.ofBytes q.bytes = some q := by
  obtain ⟨⟨channel, command, param1, param2, length⟩, body, h⟩ := q
  have hword : wordOf (loByte length) (hiByte length) = length := wordOf_lo_hi length
  simp only [Request.bytes, ReqHeader.bytes, List.cons_append, List.nil_append, Request.ofBytes]
  rw [dif_pos (by rw [hword]; exact h)]
  simp only [hword]

end Udfs.Server

namespace Udfs.Link

open Server (DiskImage Request serve)

/-! ## The host as the server -/

/-- The request of a call. -/
def Call.request (c : Call) : Request where
  hdr := ⟨c.block.channel, c.block.command, c.block.param1, c.block.param2,
    wordOf c.block.sendLo c.block.sendHi⟩
  body := (List.range (wordOf c.block.sendLo c.block.sendHi).toNat).map
    fun i => c.mem (c.block.sendAddr + BitVec.ofNat 16 i)
  body_length := by simp

lemma Call.request_bytes (c : Call) : c.request.bytes = c.bytes := by
  simp only [Request.bytes, Server.ReqHeader.bytes, Call.request, Call.bytes, loByte_wordOf, hiByte_wordOf]

/-- The bytes that the host executes in its next step, if it executes any. -/
def Far.due (f : Far) : Option (List Byte) :=
  match f.host, f.usb.inPacket with
  | .readHeader, some p => if p.length = 6 ∧ headerLength p = 0 then some p else none
  | .readBody header got, some p =>
      if (got ++ p).length = headerLength header then some (header ++ (got ++ p)) else none
  | _, _ => none

lemma Far.step_of_due {f : Far} {l : List Byte} (h : f.due = some l) (r : Server.Response) :
    f.step r = some (f.taken.execute l r) := by
  unfold Far.due at h
  split at h
  · next p hhost hin =>
      split at h
      · next hp =>
          cases h
          simp only [Far.step, hhost, hin, hp.1, hp.2, ne_eq, not_true, if_false, if_true]
      · cases h
  · next header got p hhost hin =>
      split at h
      · next hp =>
          cases h
          simp only [Far.step, hhost, hin, if_pos hp]
      · cases h
  · cases h

/-- A step in which nothing is executed does not depend on the response. -/
lemma Far.step_of_not_due {f f' : Far} {r : Server.Response} (h : f.due = none)
    (hs : f.step r = some f') : f'.served = f.served ∧ ∀ r', f.step r' = some f' := by
  unfold Far.due at h
  unfold Far.step at hs ⊢
  split at hs
  · next hhost =>
      split at hs
      · cases hs
      · next p hin =>
          simp only [hhost, hin] at h ⊢
          split_ifs at h hs ⊢ <;> cases hs
          · exact ⟨rfl, fun _ => rfl⟩
          · next hlen hzero hp => exact absurd ⟨not_not.1 hlen, hzero⟩ hp
          · exact ⟨rfl, fun _ => rfl⟩
  · next header got hhost =>
      split at hs
      · cases hs
      · next p hin =>
          simp only [hhost, hin] at h ⊢
          split_ifs at h hs ⊢ <;> cases hs
          · exact ⟨rfl, fun _ => rfl⟩
          · exact ⟨rfl, fun _ => rfl⟩
  · split at hs
    · cases hs
      exact ⟨rfl, fun _ => rfl⟩
    · cases hs
  · cases hs
    exact ⟨rfl, fun _ => rfl⟩
  · cases hs

/-- The link with the code of `send_msg`, and what the server keeps from one request to the next. -/
structure Machine where
  sys : CodeSys
  memory : Server.Memory
  files : Server.Files

namespace Machine

/-- Who makes a step. -/
inductive Label where
  | start (m : Mem)
  | bbc (v : Byte)
  | avr (v : Byte)
  | serve

/-- The server's next step: the response, and what it keeps.  When the step is not a turn of its loop with
`executeRequest`, the response is not sent. -/
def serving (img : DiskImage) (m : Machine) : Option (Server.Response × Server.Memory × Server.Files) :=
  match m.sys.link.far.due with
  | none => some (noBody, m.memory, m.files)
  | some l =>
      match Request.ofBytes l with
      | none => none
      | some q =>
          match Server.serve img m.memory q m.files with
          | .error _ => none
          | .ok (mem, files) => some (mem.response, mem, files)

/-- A step of the link with the server. -/
def step (img : DiskImage) (m : Machine) : Label → Option Machine
  | .start x => (m.sys.step (.start x)).map fun s => { m with sys := s }
  | .bbc v => (m.sys.step (.bbc v)).map fun s => { m with sys := s }
  | .avr v => (m.sys.step (.avr v)).map fun s => { m with sys := s }
  | .serve => (m.serving img).bind fun x => (m.sys.step (.host x.1)).map fun s => ⟨s, x.2.1, x.2.2⟩

/-- The BBC's step is in time, and the server's response fits. -/
def Proper (img : DiskImage) (m : Machine) : Label → Prop
  | .bbc v => m.sys.InTime (.bbc v)
  | .serve => ∀ x ∈ m.serving img, m.sys.Fits (.host x.1)
  | _ => True

/-- The step takes a call on. -/
def Advances (m : Machine) : Label → Prop
  | .start _ => False
  | .avr v => m.sys.Advances (.avr v)
  | _ => True

/-- A proper step. -/
def Step (img : DiskImage) (m m' : Machine) : Prop := ∃ l, m.step img l = some m' ∧ m.Proper img l

/-- The link as it is switched on, with a server that has just been started. -/
def Initial (m : Machine) : Prop := m.sys.Initial

/-- One of the three machines makes a proper step while a call is going on. -/
def Moves (img : DiskImage) (m m' : Machine) : Prop :=
  ∃ l, m.step img l = some m' ∧ m.Proper img l ∧ m.Advances l

variable {img : DiskImage} {m m' : Machine}

lemma step_sys {l : Label} (hs : m.step img l = some m') (hok : m.Proper img l) :
    CodeSys.Step CodeSys.Proper m.sys m'.sys := by
  cases l with
  | start x =>
      obtain ⟨s, hsys, rfl⟩ := Option.map_eq_some_iff.1 hs
      exact ⟨.start x, hsys, trivial, trivial⟩
  | bbc v =>
      obtain ⟨s, hsys, rfl⟩ := Option.map_eq_some_iff.1 hs
      exact ⟨.bbc v, hsys, hok, trivial⟩
  | avr v =>
      obtain ⟨s, hsys, rfl⟩ := Option.map_eq_some_iff.1 hs
      exact ⟨.avr v, hsys, trivial, trivial⟩
  | serve =>
      obtain ⟨x, hx, hs⟩ := Option.bind_eq_some_iff.1 hs
      obtain ⟨s, hsys, rfl⟩ := Option.map_eq_some_iff.1 hs
      exact ⟨.host x.1, hsys, trivial, hok x hx⟩

lemma reachable_sys (h : Reachable Initial (Step img) m) :
    Reachable CodeSys.Initial (CodeSys.Step CodeSys.Proper) m.sys := by
  induction h with
  | start h => exact .start h
  | next _ hs ih =>
      obtain ⟨l, hl, hok⟩ := hs
      exact ih.next (step_sys hl hok)

end Machine

/-! ## The request in hand -/

section Call

variable {s₀ s : Sys} {c : Call} {i : Rank} {l : List Byte}

/-- All that the host can execute during a call is the message of the call, and once. -/
lemma During.due_eq (h : During s₀ c i s) (hs₀ : s₀.far.served.map Served.request = s₀.sent)
    (hdue : s.far.due = some l) : l = c.bytes ∧ s.far.served = s₀.far.served := by
  have hhost : s.step (.host ⟨0, [], by simp⟩)
      = some { s with far := s.far.taken.execute l ⟨0, [], by simp⟩ } := by
    simp only [Sys.step, Far.step_of_due hdue, Option.map_some]
  obtain ⟨j, -, st, t, -, -, hwhole, hsince⟩ := h.hostMoves hhost
  obtain ⟨-, -, -, -, -, hbefore⟩ := h
  obtain ⟨more, hmore⟩ := hbefore.served
  have hrec : ((s.far.served ++ [Served.mk l ⟨0, [], by simp⟩]).map Served.request).Sublist s.sent :=
    (hwhole.inv.recorded trivial).1
  rw [← hmore, List.map_append, List.map_append, hs₀, List.map_singleton, hbefore.sent] at hrec
  have hlen := hrec.length_le
  by_cases hwire : s.wire = c.bytes
  · rw [if_pos hwire] at hrec hlen
    simp only [List.length_append, List.length_map, List.length_singleton] at hlen
    obtain rfl : more = [] := List.length_eq_zero_iff.1 (by omega)
    have heq := hrec.eq_of_length (by simp)
    simp only [List.map_nil, List.append_nil] at heq hmore
    exact ⟨by simpa using heq, hmore.symm⟩
  · rw [if_neg hwire] at hlen
    simp only [List.length_append, List.length_map, List.length_singleton] at hlen
    omega

end Call

namespace Machine

/-- In the middle of the call `c`, which the thread of the link made in `s₀`: the server has not executed it
yet, or it has, and that left `out`. -/
structure InCall (m₀ : Machine) (s₀ : Sys) (c : Call) (out : Server.Memory × Server.Files) (i : Rank)
    (m : Machine) (a : Sys) : Prop where
  models : Models m.sys a
  mid : Mid s₀ c a
  during : During s₀ c i a
  served : a.far.served = s₀.far.served ∧ m.memory = m₀.memory ∧ m.files = m₀.files ∨
    a.far.served = s₀.far.served ++ [⟨c.bytes, out.1.response⟩] ∧ (m.memory, m.files) = out

/-- The call made with the memory `x` in `m₀` is over: it was executed once, which left `out`, and the BBC has
exactly the response in it. -/
def Answers (m₀ : Machine) (x : Mem) (out : Server.Memory × Server.Files) (m : Machine) : Prop :=
  (∃ cpu, m.sys.cpu = some cpu ∧ cpu.next = none ∧
      Stored (wordAt x Loc.recvAddr) x out.1.response cpu.mem) ∧
    (m.memory, m.files) = out ∧
    m.sys.link.far.served = m₀.sys.link.far.served ++ [⟨(callOf x).bytes, out.1.response⟩] ∧
    m.sys.link.AtRest

section Calls

variable {img : DiskImage} {m m' m₀ : Machine} {s₀ a : Sys} {c : Call} {i : Rank} {l : List Byte}
  {out : Server.Memory × Server.Files}

lemma InCall.far (h : m₀.InCall s₀ c out i m a) : a.far = m.sys.link.far := by rw [h.models.same]

/-- What the server executes during a call is the request of the call, and with what it had then. -/
lemma InCall.due (h : m₀.InCall s₀ c out i m a)
    (hout : Server.serve img m₀.memory c.request m₀.files = .ok out) (hdue : m.sys.link.far.due = some l) :
    l = c.bytes ∧ a.far.served = s₀.far.served ∧ m.serving img = some (out.1.response, out) := by
  obtain ⟨rfl, hserved⟩ := During.due_eq h.during h.mid.settled (by rw [h.far]; exact hdue)
  refine ⟨rfl, hserved, ?_⟩
  rcases h.served with ⟨-, hmem, hfiles⟩ | ⟨hafter, -⟩
  · simp only [serving, hdue, ← Call.request_bytes, Request.ofBytes_bytes, hmem, hfiles, hout]
  · have hlen := congrArg List.length (hafter.symm.trans hserved)
    simp at hlen

lemma serving_none (hdue : m.sys.link.far.due = none) : m.serving img = some (noBody, m.memory, m.files) := by
  simp only [serving, hdue]

/-- What the server has to send fits. -/
lemma InCall.fits (h : m₀.InCall s₀ c out i m a)
    (hout : Server.serve img m₀.memory c.request m₀.files = .ok out)
    (hfit : InUserMem c.block.recvAddr out.1.response.body.length)
    {x : Server.Response × Server.Memory × Server.Files} (hx : m.serving img = some x) :
    InUserMem c.block.recvAddr x.1.body.length := by
  cases hdue : m.sys.link.far.due with
  | none =>
      rw [serving_none hdue, Option.some.injEq] at hx
      rw [← hx]
      exact inUserMem_noBody _
  | some l =>
      rw [(h.due hout hdue).2.2, Option.some.injEq] at hx
      rw [← hx]
      exact hfit

lemma InCall.serve (h : m₀.InCall s₀ c out i m a)
    (hout : Server.serve img m₀.memory c.request m₀.files = .ok out)
    (hfit : InUserMem c.block.recvAddr out.1.response.body.length) (hs : m.step img .serve = some m') :
    ∃ j a', lower j i ∧ m₀.InCall s₀ c out j m' a' := by
  obtain ⟨x, hx, hs⟩ := Option.bind_eq_some_iff.1 hs
  obtain ⟨s, hsys, rfl⟩ := Option.map_eq_some_iff.1 hs
  obtain ⟨a', hstep, hmodels, -⟩ := h.models.hostStep hsys
  obtain ⟨j, hlow, hduring⟩ := h.during.hostMoves hstep
  refine ⟨j, a', hlow, hmodels, h.mid.host hstep (h.fits hout hfit hx), hduring, ?_⟩
  obtain ⟨f, hf, hfar⟩ := Option.map_eq_some_iff.1 hstep
  rw [← hfar]
  cases hdue : m.sys.link.far.due with
  | none =>
      rw [serving_none hdue, Option.some.injEq] at hx
      subst hx
      rw [(Far.step_of_not_due (by rw [h.far]; exact hdue) hf).1]
      exact h.served
  | some l =>
      obtain ⟨rfl, hserved, hserving⟩ := h.due hout hdue
      rw [hserving, Option.some.injEq] at hx
      subst hx
      rw [Far.step_of_due (by rw [h.far]; exact hdue), Option.some.injEq] at hf
      subst hf
      exact Or.inr ⟨by simp only [Far.execute, Far.taken, hserved], rfl⟩

/-- Every move goes down and stays in the call. -/
lemma InCall.moves (h : m₀.InCall s₀ c out i m a)
    (hout : Server.serve img m₀.memory c.request m₀.files = .ok out)
    (hfit : InUserMem c.block.recvAddr out.1.response.body.length) (hm : Moves img m m') :
    ∃ j a', lower j i ∧ m₀.InCall s₀ c out j m' a' := by
  obtain ⟨l, hs, hok, hadv⟩ := hm
  have hcall : m.sys.link.call = c := by
    obtain ⟨st, t, -, -, -, hsince⟩ := h.during
    rw [← hsince.call, h.models.same]
  cases l with
  | start x => exact hadv.elim
  | bbc v =>
      obtain ⟨s, hsys, rfl⟩ := Option.map_eq_some_iff.1 hs
      subst hcall
      obtain ⟨a', hstep, hmodels, -⟩ := h.models.bbcStep h.mid hsys hok
      obtain ⟨j, hlow, hduring⟩ := h.during.bbcMoves hstep
      refine ⟨j, a', hlow, hmodels, h.mid.bbc hstep, hduring, ?_⟩
      rw [Sys.stepBbc_served hstep]
      exact h.served
  | avr v =>
      obtain ⟨s, hsys, rfl⟩ := Option.map_eq_some_iff.1 hs
      obtain ⟨a', hstep, hmodels, -⟩ := h.models.avrStep hsys
      have hpoll : ∀ x, a.avr = .ret x → a.via.cb2 = false := by
        rw [h.models.same]
        exact hadv
      obtain ⟨j, hlow, hduring⟩ := h.during.avrMoves hstep hpoll
      refine ⟨j, a', hlow, hmodels, h.mid.avr hstep, hduring, ?_⟩
      rw [(Sys.stepAvr_frame hstep).2.1]
      exact h.served
  | serve => exact h.serve hout hfit hs

/-- When the thread has returned and the AVR is through, the call is answered. -/
lemma InCall.answers {x : Mem} (h : m₀.InCall s₀ (callOf x) out i m a) (h₀ : s₀.far = m₀.sys.link.far)
    (hfit : InUserMem (wordAt x Loc.recvAddr) out.1.response.body.length)
    (hd : Delivered s₀ (callOf x) a) : m₀.Answers x out m := by
  obtain ⟨resp, r, hrun, hserved, hrec, hrest, -⟩ := hd
  rcases h.served with ⟨hbefore, -⟩ | ⟨hafter, hout⟩
  · have hlen := congrArg List.length (hbefore.symm.trans hserved)
    simp at hlen
  · obtain rfl : resp = out.1.response := by simpa using hserved.symm.trans hafter
    rw [h₀, h.far] at hserved
    rw [h.models.same] at hrest
    exact ⟨h.models.stored hrun hrec hfit, hout, hserved, hrest⟩

lemma InCall.progress {x : Mem} (h : m₀.InCall s₀ (callOf x) out i m a) (h₀ : s₀.far = m₀.sys.link.far)
    (hout : Server.serve img m₀.memory (callOf x).request m₀.files = .ok out)
    (hfit : InUserMem (wordAt x Loc.recvAddr) out.1.response.body.length) (hP : ¬ m₀.Answers x out m) :
    ∃ m', Moves img m m' := by
  obtain ⟨s, ⟨v, hv⟩ | ⟨r, hr⟩ | ⟨⟨v, hv⟩, hpoll⟩⟩ :=
    h.during.progress h.mid.settled fun hd => hP (h.answers h₀ hfit hd)
  · obtain ⟨s', hs, htime⟩ := h.models.bbcMoves hv
    exact ⟨{ m with sys := s' }, .bbc v, by simp only [step, hs, Option.map_some], htime, trivial⟩
  · obtain ⟨y, hy⟩ : ∃ y, m.serving img = some y := by
      cases hdue : m.sys.link.far.due with
      | none => exact ⟨_, serving_none hdue⟩
      | some l => exact ⟨_, (h.due hout hdue).2.2⟩
    obtain ⟨s', hs⟩ := h.models.hostMoves hr y.1
    have hcall : m.sys.link.call = callOf x := by
      obtain ⟨st, t, -, -, -, hsince⟩ := h.during
      rw [← hsince.call, h.models.same]
    refine ⟨⟨s', y.2.1, y.2.2⟩, .serve, by simp only [step, hy, Option.bind_some, hs, Option.map_some], ?_,
      trivial⟩
    intro z hz
    rw [CodeSys.Fits, hcall]
    exact h.fits hout hfit hz
  · obtain ⟨s', hs⟩ := h.models.avrMoves hv
    rw [h.models.same] at hpoll
    exact ⟨{ m with sys := s' }, .avr v, by simp only [step, hs, Option.map_some], trivial, hpoll⟩

end Calls

/-- In whatever order the BBC, the AVR and the server take their steps, as long as those of the BBC are in time
and the responses fit: a call of `send_msg` whose request the server survives returns with the server's
response to it, the one that `executeRequest` gives with the memory and the files as they were at the call. -/
lemma call_answered {img : DiskImage} {m m' : Machine} (h : Reachable Initial (Step img) m) {x : Mem}
    {out : Server.Memory × Server.Files}
    (hout : Server.serve img m.memory (callOf x).request m.files = .ok out)
    (hfit : InUserMem (wordAt x Loc.recvAddr) out.1.response.body.length)
    (hs : m.step img (.start x) = some m') : Inevitably (Moves img) (m.Answers x out) m' := by
  obtain ⟨a, hmodels, hreached, -⟩ := tracks_of_reachable (reachable_sys h)
  obtain ⟨st, hwhole⟩ := whole_of_reachable hreached
  obtain ⟨s, hsys, rfl⟩ := Option.map_eq_some_iff.1 hs
  simp only [CodeSys.step] at hsys
  split at hsys
  · next hfree =>
      cases hsys
      have hbbc := hmodels.free hfree
      have hfar : a.far = m.sys.link.far := by rw [hmodels.same]
      refine Inevitably.of_wellFounded lower_wf (fun i t => ∃ b, m.InCall a (callOf x) out i t b) ?_ ?_ _ _
        ⟨_, hmodels.start x, mid_start hwhole hbbc (callOf x), hwhole.during hbbc (callOf x),
          Or.inl ⟨rfl, rfl, rfl⟩⟩
      · intro i t hi hP
        obtain ⟨b, hb⟩ := hi
        exact hb.progress hfar hout hfit hP
      · intro i t t' hi _ hmove
        obtain ⟨b, hb⟩ := hi
        obtain ⟨j, b', hlow, hb'⟩ := hb.moves hout hfit hmove
        exact ⟨j, hlow, b', hb'⟩
  · cases hsys

end Machine

end Udfs.Link
