import Udfs.Link.Protocol

/-!
# The ROM keeps to the protocol

Whatever the firmware does, `send_msg` offers the bytes of its message one by one, in the
slots in which they are due, turns its side of the bus before the firmware turns its own,
and takes as many bytes as the reply announces.  When it returns it has stored exactly
the body of the reply.
-/

namespace Udfs.Link

/-! ## What a call leaves -/

/-- Bytes stored at consecutive addresses. -/
def storeReply (mem : Mem) (ptr : Word) : List Byte → Mem
  | [] => mem
  | v :: l => storeReply (Function.update mem ptr v) (ptr + 1) l

lemma storeReply_append (l : List Byte) (v : Byte) :
    ∀ (mem : Mem) (ptr : Word), storeReply mem ptr (l ++ [v])
      = Function.update (storeReply mem ptr l) (ptr + BitVec.ofNat 16 l.length) v := by
  induction l with
  | nil => intro mem ptr; simp [storeReply]
  | cons b l ih =>
      intro mem ptr
      rw [List.cons_append, storeReply, ih, add_one_ofNat]
      rfl

/-- The parameter block and the memory after the reply `tx`. -/
def Call.after (c : Call) (tx : List Byte) : Call :=
  ⟨c.block.received (tx.getD 0 0) (tx.getD 1 0) (tx.getD 2 0),
    storeReply c.mem c.block.recvAddr (tx.drop 3)⟩

/-- The ROM has returned from `c` with `r`. -/
def Returned (r : Call) (w : BbcWorld) : Prop :=
  w.via.pcr = 0x00 ∧ w.via.ddrb = 0x00 ∧ w.via.cb2 = true ∧ w.wire = w.call.bytes ∧
    ∃ tx, w.stage = .calm (some (w.call, tx)) ∧ r = w.call.after tx

/-! ## One byte -/

/-- The ROM is to offer the slot `v` of its message. -/
structure AtSlot (c : Call) (v : Slot) (ddrb : Byte) (wire : List Byte) (w : BbcWorld) : Prop where
  stage : w.stage = .ready c v
  call : w.call = c
  pcr : w.via.pcr = 0x80
  ddrb : w.via.ddrb = ddrb
  wire : w.wire = wire

lemma AtSlot.env {c : Call} {v : Slot} {d : Byte} {l : List Byte} {w w' : BbcWorld}
    (h : AtSlot c v d l w) (he : BbcEnv w w') : AtSlot c v d l w' := by
  obtain ⟨hst, hcall, hpcr, hd, hl⟩ := h
  cases he with
  | pick => exact ⟨by rw [hst]; rfl, hcall, hpcr, hd, hl⟩
  | ack x hs => rw [hst] at hs; cases hs
  | stray hr => rw [hst] at hr; exact hr.elim

/-- The slot `v` has been acknowledged, with `x` on the bus. -/
structure AfterSlot (c : Call) (v : Slot) (x d : Byte) (l : List Byte) (w : BbcWorld) : Prop where
  stage : w.stage = (Stage.serving c v).acked x
  call : w.call = c
  pcr : w.via.pcr = 0x80
  ddrb : w.via.ddrb = d
  wire : w.wire = l
  cb2 : w.via.cb2 = true

lemma acked_serving (c : Call) (v : Slot) (x : Byte) :
    (∃ l, (Stage.serving c v).acked x = .calm l) ∨ ∃ v', (Stage.serving c v).acked x = .ready c v' := by
  cases v with
  | recv p => exact Or.inr ⟨_, rfl⟩
  | prep p => exact Or.inr ⟨_, rfl⟩
  | reply p tx =>
      rw [Stage.acked]
      split
      · exact Or.inl ⟨_, rfl⟩
      · exact Or.inr ⟨_, rfl⟩

lemma AfterSlot.env {c : Call} {v : Slot} {x d : Byte} {l : List Byte} {w w' : BbcWorld}
    (h : AfterSlot c v x d l w) (he : BbcEnv w w') : AfterSlot c v x d l w' := by
  obtain ⟨hst, hcall, hpcr, hd, hl, hcb2⟩ := h
  cases he with
  | pick hlow => rw [hcb2] at hlow; cases hlow
  | ack y hs =>
      rcases acked_serving c v x with ⟨k, hk⟩ | ⟨v', hv⟩
      · rw [hst, hk] at hs; cases hs
      · rw [hst, hv] at hs; cases hs
  | stray hr => exact ⟨hst, hcall, hpcr, hd, hl, by simp [hcb2]⟩

/-- The ROM waits in the slot `v`, or has been acknowledged. -/
def InSlot (c : Call) (v : Slot) (d : Byte) (l : List Byte) (w : BbcWorld) : Prop :=
  (((w.stage = .called c v ∨ w.stage = .serving c v) ∧ w.via.cb1 = false) ∧
      w.call = c ∧ w.via.pcr = 0x80 ∧ w.via.ddrb = d ∧ w.wire = l) ∨
    w.via.cb1 = true ∧ ∃ x, AfterSlot c v x d l w

lemma InSlot.env {c : Call} {v : Slot} {d : Byte} {l : List Byte} {w w' : BbcWorld}
    (h : InSlot c v d l w) (he : BbcEnv w w') : InSlot c v d l w' := by
  rcases h with ⟨⟨hst, hcb1⟩, hcall, hpcr, hd, hl⟩ | ⟨hcb1, x, h⟩
  · cases he with
    | pick =>
        refine Or.inl ⟨⟨Or.inr ?_, hcb1⟩, hcall, hpcr, hd, hl⟩
        rcases hst with hst | hst <;> rw [hst] <;> rfl
    | ack y hs =>
        refine Or.inr ⟨rfl, y, ?_, hcall, hpcr, hd, hl, rfl⟩
        rcases hst with hst | hst
        · rw [hst] at hs; cases hs
        · rw [hst]
    | stray hr => rcases hst with hst | hst <;> rw [hst] at hr <;> exact hr.elim
  · refine Or.inr ⟨?_, x, h.env he⟩
    cases he with
    | pick => exact hcb1
    | ack => rfl
    | stray => rfl

/-- **One byte.**  In a slot in which `b` is due, `send_byte` takes the exchange to the next. -/
lemma ok_sendByte {α : Type} {Q : α → BbcWorld → Prop} {k : Unit → Bbc α} {c : Call} {v : Slot}
    {d b : Byte} {l : List Byte} {w : BbcWorld} (h : AtSlot c v d l w)
    (hdue : match v with
      | .recv p => d = 0xff ∧ p = l ∧ ∃ m, c.bytes = p ++ b :: m
      | _ => d = 0x00)
    (hk : ∀ x w', AfterSlot c v x d (if d = 0xff then l ++ [b] else l) w' → bbcRely.Ok Q (k ()) w') :
    bbcRely.Ok Q (sendByte b >>= k) w := by
  refine Rely.ok_op (AtSlot c v d l) h (fun w w' => AtSlot.env) (fun w h => ?_) fun w a w' h ha => ?_
  · refine ⟨h.pcr, ?_⟩
    rw [h.stage, h.ddrb, h.call, h.wire]
    cases v with
    | recv p => exact ⟨hdue.1, rfl, hdue.2⟩
    | prep p => exact hdue
    | reply p tx => exact hdue
  · refine Rely.ok_op (InSlot c v d (if d = 0xff then l ++ [b] else l)) ?_ (fun w w' => InSlot.env)
      (fun w h => ?_) fun w a w' h ha => ?_
    · rw [ha c v h.stage]
      exact Or.inl ⟨⟨Or.inl rfl, rfl⟩, h.call, h.pcr, h.ddrb, by simp only [h.ddrb, h.wire]⟩
    · rcases h with ⟨⟨hst | hst, -⟩, -⟩ | ⟨hcb1, -⟩
      · exact Or.inr (by rw [hst]; trivial)
      · exact Or.inr (by rw [hst]; trivial)
      · exact Or.inl hcb1
    · obtain ⟨rfl, hcb1⟩ := ha
      rcases h with ⟨⟨-, hlow⟩, -⟩ | ⟨-, x, h⟩
      · rw [hlow] at hcb1; cases hcb1
      · exact hk x w' h

/-! ## The message -/

/-- Bytes sent one after another. -/
def sendList : List Byte → Bbc Unit
  | [] => pure ()
  | b :: l => do
      sendByte b
      sendList l

lemma sendHeader_eq (b : ParamBlock) :
    loopY (fun y _ => sendByte (b.base y)) 6 256 0 ()
      = sendList [b.channel, b.command, b.param1, b.param2, b.sendLo, b.sendHi] := rfl

lemma sendBody_eq (mem : Mem) (n : ℕ) (ptr : Word) :
    overAddrs (fun ptr _ => sendByte (mem ptr)) n ptr ()
      = sendList ((List.range n).map fun i => mem (ptr + BitVec.ofNat 16 i)) := by
  induction n generalizing ptr with
  | zero => rfl
  | succ n ih =>
      rw [overAddrs, List.range_succ_eq_map, List.map_cons, List.map_map, sendList]
      refine congrArg₂ _ (by simp) (funext fun _ => ?_)
      rw [ih]
      exact congrArg sendList (List.map_congr_left fun i _ => congrArg mem (add_one_ofNat ptr i))

/-- The slot in which `n` bytes of the message have been acknowledged. -/
def sendSlot (c : Call) (n : ℕ) : Slot :=
  if n = c.bytes.length then .prep c.bytes else .recv (c.bytes.take n)

lemma bytes_length (c : Call) :
    c.bytes.length = 6 + (wordOf c.block.sendLo c.block.sendHi).toNat := by
  simp [Call.bytes]
  omega

lemma acked_sendSlot {c : Call} {n : ℕ} (x : Byte) (h : n < c.bytes.length) :
    (Stage.serving c (sendSlot c n)).acked x = .ready c (sendSlot c (n + 1)) := by
  have hlen : (c.bytes.take n).length = n := by
    rw [List.length_take]
    omega
  rw [sendSlot, if_neg (by omega)]
  simp only [Stage.acked, Slot.next, hlen, sendSlot]

lemma ok_sendList {α : Type} {Q : α → BbcWorld → Prop} {c : Call} (l : List Byte) :
    ∀ {k : Unit → Bbc α} {n : ℕ} {rest : List Byte} {w : BbcWorld},
      AtSlot c (sendSlot c n) 0xff (c.bytes.take n) w → c.bytes.drop n = l ++ rest →
      (∀ w', AtSlot c (sendSlot c (n + l.length)) 0xff (c.bytes.take (n + l.length)) w' →
        bbcRely.Ok Q (k ()) w') →
      bbcRely.Ok Q (sendList l >>= k) w := by
  induction l with
  | nil => intro k n rest w h _ hk; exact hk w h
  | cons b l ih =>
      intro k n rest w h hdrop hk
      have hn : n < c.bytes.length := by
        by_contra hge
        rw [List.drop_eq_nil_of_le (by omega)] at hdrop
        cases hdrop
      have hsplit : c.bytes = c.bytes.take n ++ b :: (l ++ rest) := by
        conv_lhs => rw [← List.take_append_drop n c.bytes, hdrop]
        rfl
      have hget : c.bytes[n] = b := by
        have := List.drop_eq_getElem_cons hn
        rw [hdrop] at this
        exact (List.cons.inj this).1.symm
      have hdrop' : c.bytes.drop (n + 1) = l ++ rest := by
        have := List.drop_eq_getElem_cons hn
        rw [hdrop] at this
        exact (List.cons.inj this).2.symm
      have hslot : sendSlot c n = .recv (c.bytes.take n) := by
        rw [sendSlot, if_neg (by omega)]
      rw [sendList, bind_assoc]
      rw [hslot] at h
      refine ok_sendByte h ⟨rfl, rfl, _, hsplit⟩ fun x w' h' => ?_
      refine ih (n := n + 1) ⟨?_, h'.call, h'.pcr, h'.ddrb, ?_⟩ hdrop' ?_
      · rw [h'.stage, ← hslot, acked_sendSlot x hn]
      · rw [h'.wire, if_pos rfl, List.take_succ_eq_append_getElem hn, hget]
      · rw [show n + 1 + l.length = n + (b :: l).length by simp; omega]
        exact hk

/-! ## The reply -/

/-- In front of the slot after the reply bytes `tx`. -/
abbrev AtReply (c : Call) (tx : List Byte) : BbcWorld → Prop :=
  AtSlot c (.reply c.bytes tx) 0x00 c.bytes

lemma ok_sendPrep {α : Type} {Q : α → BbcWorld → Prop} {k : Unit → Bbc α} {c : Call} {b : Byte}
    {w : BbcWorld} (h : AtSlot c (.prep c.bytes) 0x00 c.bytes w)
    (hk : ∀ w', AtReply c [] w' → bbcRely.Ok Q (k ()) w') :
    bbcRely.Ok Q (sendByte b >>= k) w := by
  refine ok_sendByte h rfl fun x w' h' => hk w' ⟨?_, h'.call, h'.pcr, h'.ddrb, h'.wire⟩
  rw [h'.stage]
  rfl

/-- A byte of the reply that is not the last handshake is on the bus after the acknowledge. -/
lemma ok_recvReply {α : Type} {Q : α → BbcWorld → Prop} {k : Byte → Bbc α} {c : Call} {b : Byte}
    {tx : List Byte} {w : BbcWorld} (h : AtReply c tx w) (hd : ¬ ReplyDone tx)
    (hk : ∀ x w', AtReply c (tx ++ [x]) w' → bbcRely.Ok Q (k x) w') :
    bbcRely.Ok Q (sendByte b >>= fun _ => via .getDrb >>= k) w := by
  refine ok_sendByte h rfl fun x w' h' => ?_
  have hready : (Stage.serving c (.reply c.bytes tx)).acked x = .ready c (.reply c.bytes (tx ++ [x])) := by
    simp only [Stage.acked, if_neg hd, Slot.next]
  refine Rely.ok_op (AtSlot c (.reply c.bytes (tx ++ [x])) 0x00 _) ⟨h'.stage.trans hready, h'.call,
    h'.pcr, h'.ddrb, h'.wire⟩ (fun _ _ => AtSlot.env) (fun _ _ => trivial) fun w a w' h ha => ?_
  obtain ⟨rfl, ha⟩ := ha
  rw [ha c c.bytes tx x h.stage h.ddrb]
  exact hk x _ ⟨h.stage, h.call, h.pcr, h.ddrb, h.wire⟩

lemma getD_append_of_lt {l m : List Byte} {i : ℕ} (h : i < l.length) :
    (l ++ m).getD i 0 = l.getD i 0 := by
  simp [List.getD, List.getElem?_append_left h]

lemma replyLength_append {tx m : List Byte} (h : 3 ≤ tx.length) :
    replyLength (tx ++ m) = replyLength tx := by
  rw [replyLength, replyLength, getD_append_of_lt (by omega), getD_append_of_lt (by omega)]

/-- The memory and A after the reply bytes `tx`. -/
def replyMem (c : Call) (tx : List Byte) : Mem := storeReply c.mem c.block.recvAddr (tx.drop 3)

lemma ok_recvBody {α : Type} {Q : α → BbcWorld → Prop} {c : Call} (n : ℕ) :
    ∀ {k : Mem × Byte → Bbc α} {tx : List Byte} {a : Byte} {w : BbcWorld},
      AtReply c tx w → 3 ≤ tx.length → tx.length + n = 3 + replyLength tx →
      (∀ l a w', AtReply c (tx ++ l) w' → ReplyDone (tx ++ l) →
        bbcRely.Ok Q (k (replyMem c (tx ++ l), a)) w') →
      bbcRely.Ok Q (overAddrs recvTo n
        (c.block.recvAddr + BitVec.ofNat 16 (tx.length - 3)) (replyMem c tx, a) >>= k) w := by
  induction n with
  | zero =>
      intro k tx a w h h3 hn hk
      simpa [overAddrs] using hk [] a w (by simpa using h) (by simpa [ReplyDone] using ⟨h3, by omega⟩)
  | succ n ih =>
      intro k tx a w h h3 hn hk
      have hd : ¬ ReplyDone tx := fun hd => by
        have := hd.2
        omega
      rw [overAddrs, bind_assoc, recvTo, bind_assoc]
      simp only [bind_assoc, pure_bind]
      refine ok_recvReply h hd fun x w' h' => ?_
      have hmem : Function.update (replyMem c tx)
          (c.block.recvAddr + BitVec.ofNat 16 (tx.length - 3)) x = replyMem c (tx ++ [x]) := by
        rw [replyMem, replyMem, List.drop_append_of_le_length h3, storeReply_append, List.length_drop]
      have hptr : c.block.recvAddr + BitVec.ofNat 16 (tx.length - 3) + 1
          = c.block.recvAddr + BitVec.ofNat 16 ((tx ++ [x]).length - 3) := by
        apply BitVec.eq_of_toNat_eq
        simp only [BitVec.toNat_add, BitVec.toNat_ofNat, word_one, List.length_append,
          List.length_singleton]
        omega
      have hlen : (tx ++ [x]).length = tx.length + 1 := by simp
      rw [hmem, hptr]
      refine ih h' (by omega) (by rw [replyLength_append h3]; omega) fun l a w'' hw hdone => ?_
      rw [List.append_assoc] at hw hdone ⊢
      exact hk _ a w'' hw hdone

/-! ## The whole call -/

/-- The ROM has not started its strobe. -/
structure BeforeStrobe (c : Call) (w : BbcWorld) : Prop where
  stage : w.stage = .down ∨ ∃ l, w.stage = .calm l
  call : w.call = c
  wire : w.wire = []
  pcr : w.via.pcr = 0x00
  cb2 : w.via.cb2 = true
  ddrb : w.via.ddrb = 0x00

lemma BeforeStrobe.env {c : Call} {w w' : BbcWorld} (h : BeforeStrobe c w) (he : BbcEnv w w') :
    BeforeStrobe c w' := by
  obtain ⟨hst, hcall, hwire, hpcr, hcb2, hddrb⟩ := h
  cases he with
  | pick hlow => rw [hcb2] at hlow; cases hlow
  | ack x hs => rcases hst with hst | ⟨l, hst⟩ <;> rw [hst] at hs <;> cases hs
  | stray hr => exact ⟨hst, hcall, hwire, hpcr, by simp [hcb2], hddrb⟩

/-- The ROM drives the strobe. -/
structure InStrobe (c : Call) (w : BbcWorld) : Prop where
  stage : w.stage.Resting
  call : w.call = c
  wire : w.wire = []
  pcr : w.via.pcr = 0xc0
  cb2 : w.via.cb2 = false
  ddrb : w.via.ddrb = 0x00

lemma InStrobe.env {c : Call} {w w' : BbcWorld} (h : InStrobe c w) (he : BbcEnv w w') :
    InStrobe c w' := by
  obtain ⟨hst, hcall, hwire, hpcr, hcb2, hddrb⟩ := h
  cases he with
  | pick =>
      refine ⟨?_, hcall, hwire, hpcr, hcb2, hddrb⟩
      cases hs : w.stage with
      | down => simp [Stage.picked, Stage.Resting]
      | calm l => simp [Stage.picked, Stage.Resting]
      | caught => simp [Stage.picked, Stage.Resting]
      | ready c v => rw [hs] at hst; exact hst.elim
      | called c v => rw [hs] at hst; exact hst.elim
      | serving c v => rw [hs] at hst; exact hst.elim
  | ack x hs => rw [hs] at hst; exact hst.elim
  | stray hr => exact ⟨hst, hcall, hwire, hpcr, by simp [hcb2, hpcr, isHandshake], hddrb⟩

/-- The strobe is over and no byte has been offered. -/
structure Started (c : Call) (pcr d : Byte) (w : BbcWorld) : Prop where
  stage : w.stage = .ready c (.recv [])
  call : w.call = c
  wire : w.wire = []
  pcr : w.via.pcr = pcr
  ddrb : w.via.ddrb = d

lemma Started.env {c : Call} {p d : Byte} {w w' : BbcWorld} (h : Started c p d w)
    (he : BbcEnv w w') : Started c p d w' := by
  obtain ⟨hst, hcall, hwire, hpcr, hddrb⟩ := h
  cases he with
  | pick => exact ⟨by rw [hst]; rfl, hcall, hwire, hpcr, hddrb⟩
  | ack x hs => rw [hst] at hs; cases hs
  | stray hr => rw [hst] at hr; exact hr.elim

lemma sendSlot_zero (c : Call) : sendSlot c 0 = .recv [] := by
  have := bytes_length c
  rw [sendSlot, if_neg (by omega), List.take_zero]

/-- The bytes of a message are offered in order. -/
lemma ok_sendMessage {α : Type} {Q : α → BbcWorld → Prop} {k : Bbc α} {c : Call}
    {w : BbcWorld} (h : Started c 0x80 0xff w)
    (hk : ∀ w', AtSlot c (.prep c.bytes) 0xff c.bytes w' → bbcRely.Ok Q k w') :
    bbcRely.Ok Q (do
      loopY (fun y _ => sendByte (c.block.base y)) 6 256 0 ()
      pagesAndRest (fun ptr _ => sendByte (c.mem ptr)) c.block.sendLo c.block.sendHi
        c.block.sendAddr ()
      k) w := by
  rw [sendHeader_eq, pagesAndRest_eq, sendBody_eq]
  refine ok_sendList _ (n := 0) ⟨?_, h.call, h.pcr, h.ddrb, h.wire⟩ rfl fun w' h' => ?_
  · rw [h.stage, sendSlot_zero]
  · refine ok_sendList _ (n := 6) h' (by simp [Call.bytes] : _ = _ ++ ([] : List Byte)) fun w'' h'' => hk w'' ?_
    have hlen := bytes_length c
    simp only [List.length_map, List.length_range, ← hlen, List.take_length] at h''
    rwa [sendSlot, if_pos rfl] at h''

/-- The reply is taken as it comes, and stored. -/
lemma ok_recvMessage {α : Type} {Q : α → BbcWorld → Prop} {k : Call → Bbc α} {c : Call}
    {w : BbcWorld} (h : AtReply c [] w)
    (hk : ∀ tx w', AtReply c tx w' → ReplyDone tx → ∀ a, bbcRely.Ok Q (do
      sendByte a
      k (c.after tx)) w') :
    bbcRely.Ok Q (do
      sendByte 0x10
      let status ← via .getDrb
      sendByte 0x10
      let lo ← via .getDrb
      sendByte 0x10
      let hi ← via .getDrb
      let (mem, a) ← pagesAndRest recvTo lo hi c.block.recvAddr (c.mem, 0x10)
      sendByte a
      k ⟨c.block.received status lo hi, mem⟩) w := by
  refine ok_recvReply h (by decide) fun rc w h => ?_
  refine ok_recvReply h (fun hd => absurd hd.1 (by simp)) fun lo w h => ?_
  refine ok_recvReply h (fun hd => absurd hd.1 (by simp)) fun hi w h => ?_
  rw [pagesAndRest_eq]
  have hbody := ok_recvBody (wordOf lo hi).toNat
    (k := fun s => do sendByte s.2; k ⟨c.block.received rc lo hi, s.1⟩) (a := 0x10) (Q := Q) h
    (by simp) (by simp [replyLength]) fun l a w' h' hd => ?_
  · simpa [replyMem, storeReply] using hbody
  · have hafter : c.after (([] ++ [rc] ++ [lo] ++ [hi]) ++ l)
        = ⟨c.block.received rc lo hi, replyMem c (([] ++ [rc] ++ [lo] ++ [hi]) ++ l)⟩ := rfl
    have := hk _ w' h' hd a
    rw [hafter] at this
    exact this

/-- **`send_msg` keeps to the protocol.** -/
theorem ok_sendMsg {c : Call} {w : BbcWorld} (h : BeforeStrobe c w) :
    bbcRely.Ok Returned (sendMsg c) w := by
  have hresting : ∀ {w}, BeforeStrobe c w → w.stage.Resting := fun h => by
    rcases h.stage with hs | ⟨l, hs⟩ <;> rw [hs] <;> trivial
  refine Rely.ok_perform (BeforeStrobe c) h (fun _ _ => BeforeStrobe.env) (fun _ _ => trivial)
    fun w pcr w' h ha => ?_
  obtain ⟨rfl, rfl⟩ := ha
  rw [h.pcr]
  refine Rely.ok_perform (BeforeStrobe c) h (fun _ _ => BeforeStrobe.env) (fun _ _ => trivial)
    fun w acr w' h ha => ?_
  obtain rfl := ha
  refine Rely.ok_perform (BeforeStrobe c) h (fun _ _ => BeforeStrobe.env) (fun _ _ => trivial)
    fun w _ w' h ha => ?_
  obtain rfl := ha
  refine Rely.ok_perform (BeforeStrobe c) ⟨h.stage, h.call, h.wire, h.pcr, h.cb2, h.ddrb⟩
    (fun _ _ => BeforeStrobe.env) (fun w h => ?_) fun w _ w' h ha => ?_
  · rcases h.stage with hs | ⟨l, hs⟩ <;> simp only [bbcRely, bbcSafe, hs]
  obtain rfl := ha
  -- the strobe
  refine Rely.ok_perform (BeforeStrobe c) ⟨h.stage, h.call, h.wire, h.pcr, h.cb2, rfl⟩
    (fun _ _ => BeforeStrobe.env) (fun w h => ?_) fun w _ w' h ha => ?_
  · rcases h.stage with hs | ⟨l, hs⟩ <;> simp only [bbcRely, bbcSafe, hs] <;> exact Or.inl h.cb2
  obtain rfl := ha
  refine Rely.ok_perform (InStrobe c) ⟨by simpa [h.cb2] using hresting h, h.call, h.wire, rfl, rfl, h.ddrb⟩
    (fun _ _ => InStrobe.env) (fun w h => ?_) fun w _ w' h ha => ?_
  · have hr := h.stage
    cases hs : w.stage with
    | down => simp [bbcRely, bbcSafe, hs, cb2Level]
    | calm l => simp [bbcRely, bbcSafe, hs, cb2Level]
    | caught => simp [bbcRely, bbcSafe, hs, cb2Level]
    | ready c v => rw [hs] at hr; exact hr.elim
    | called c v => rw [hs] at hr; exact hr.elim
    | serving c v => rw [hs] at hr; exact hr.elim
  obtain rfl := ha
  refine Rely.ok_perform (Started c 0xe0 0x00) ⟨?_, h.call, h.wire, rfl, h.ddrb⟩ (fun _ _ => Started.env)
    (fun w h => ?_) fun w _ w' h ha => ?_
  · simp [h.cb2, h.call, cb2Level]
  · simp [bbcRely, bbcSafe, h.stage, cb2Level]
  obtain rfl := ha
  refine Rely.ok_perform (Started c 0x80 0x00) ⟨?_, h.call, h.wire, rfl, h.ddrb⟩ (fun _ _ => Started.env)
    (fun w h => ?_) fun w _ w' h ha => ?_
  · simp [h.stage, h.call]
  · simp [bbcRely, bbcSafe, h.stage]
  obtain rfl := ha
  -- the message
  have hstart : Started c 0x80 0xff { w with via := { w.via with ddrb := 0xff } } :=
    ⟨h.stage, h.call, h.wire, h.pcr, rfl⟩
  refine ok_sendMessage hstart fun w h => ?_
  refine Rely.ok_perform (AtSlot c (.prep c.bytes) 0xff c.bytes) h (fun _ _ => AtSlot.env) (fun w h => ?_)
    fun w _ w' h ha => ?_
  · simp [bbcRely, bbcSafe, h.stage]
  obtain rfl := ha
  -- the reply
  have hprep : AtSlot c (.prep c.bytes) 0x00 c.bytes { w with via := { w.via with ddrb := 0x00 } } :=
    ⟨h.stage, h.call, h.pcr, rfl, h.wire⟩
  refine ok_sendPrep hprep fun w h => ?_
  refine ok_recvMessage (k := fun r => do via (.setAcr acr); via (.setPcr 0x00); pure r) h
    fun tx w h hd a => ?_
  refine ok_sendByte h rfl fun x w h => ?_
  have hcalm : (Stage.serving c (.reply c.bytes tx)).acked x = .calm (some (c, tx)) := by
    simp only [Stage.acked, if_pos hd]
  refine Rely.ok_perform _ h (fun _ _ => AfterSlot.env) (fun _ _ => trivial) fun w _ w' h ha => ?_
  obtain rfl := ha
  refine Rely.ok_perform _ ⟨h.stage, h.call, h.pcr, h.ddrb, h.wire, h.cb2⟩ (fun _ _ => AfterSlot.env)
    (fun w h => ?_) fun w _ w' h ha => ?_
  · simp [bbcRely, bbcSafe, h.stage, hcalm, h.cb2]
  obtain rfl := ha
  refine ⟨rfl, h.ddrb, rfl, by rw [h.call]; exact h.wire, tx, ?_, ?_⟩
  · simp [h.stage, h.cb2, hcalm, h.call]
  · rw [h.call]

end Udfs.Link
