import Udfs.Link.RomSide
import Udfs.Uptx.Program

/-!
# `upcomm` and `send_msg` talk alike

The UPTX ROM and the filing system have a copy each of the code that talks to the AVR.  On the user port
both hold the same conversation, but for one byte that is written while the port is an input, and both
store the body of the response at the receive address.  `upcomm` stores it in a bank of its own choice:
the bank is changed by the routine in page 3 alone, and back before it returns to the ROM.
-/

namespace Udfs.Uptx

open Link

/-! ## The conversation -/

/-- What the AVR sends. -/
structure Response where
  status : Byte
  lo : Byte
  hi : Byte
  body : List Byte

/-- As many bytes received, and the last one, which is written back for the next. -/
def takeBytes : ℕ → Byte → Bbc (List Byte × Byte)
  | 0, a => pure ([], a)
  | n + 1, a => do
      sendByte a
      let v ← via .getDrb
      let (l, a) ← takeBytes n v
      pure (v :: l, a)

/-- A call on the user port: the bytes of the message; then `first`, which is written when the port has
become an input and only strobes; then the response. -/
def conversation (c : Call) (first : Byte) : Bbc Response := do
  via (.setDdrb 0x00)
  via (.setDdrb 0xff)
  sendList c.bytes
  via (.setDdrb 0x00)
  sendByte first
  sendByte 0x10
  let status ← via .getDrb
  sendByte 0x10
  let lo ← via .getDrb
  sendByte 0x10
  let hi ← via .getDrb
  let (body, a) ← takeBytes (wordOf lo hi).toNat 0x10
  sendByte a
  pure ⟨status, lo, hi, body⟩

/-- Only the operations on the user port, where the control registers hold these values. -/
def port {α : Type} : Byte → Byte → Bbc α → Bbc α
  | _, _, .ret a => .ret a
  | pcr, acr, .op .getPcr k => port pcr acr (k pcr)
  | _, acr, .op (.setPcr v) k => port v acr (k ())
  | pcr, acr, .op .getAcr k => port pcr acr (k acr)
  | pcr, _, .op (.setAcr v) k => port pcr v (k ())
  | pcr, acr, .op (.setDdrb v) k => .op (.setDdrb v) fun x => port pcr acr (k x)
  | pcr, acr, .op (.putDrb v) k => .op (.putDrb v) fun x => port pcr acr (k x)
  | pcr, acr, .op .getDrb k => .op .getDrb fun x => port pcr acr (k x)
  | pcr, acr, .op .untilCb1 k => .op .untilCb1 fun x => port pcr acr (k x)

/-- Whatever is fetched from the ROM is fetched with its own bank selected. -/
def Machine.OwnBank (rom : Byte) (m : Machine) : Prop := ∀ f ∈ m.fetched, f.1 = .rom → f.2 = rom

/-- A body in a bank, one address behind the other. -/
def inBank (destRom : Byte) (ptr : Word) (l : List Byte) : List Store :=
  l.mapIdx fun i v => ⟨destRom, ptr + BitVec.ofNat 16 i, v⟩

/-- The memory after these stores. -/
def storeAt (mem : Mem) (stores : List Store) : Mem :=
  stores.foldl (fun mem s => Function.update mem s.addr s.value) mem

/-! ## Threads that only use the port -/

section Port

variable {α β : Type}

/-- The thread leaves the control registers alone. -/
structure OnPort (t : Bbc α) : Prop where
  bind_eq : ∀ {β : Type} (pcr acr : Byte) (f : α → Bbc β),
    port pcr acr (t >>= f) = t >>= fun a => port pcr acr (f a)

lemma port_pure (pcr acr : Byte) (a : α) : port pcr acr (pure a) = pure a := rfl

lemma onPort_pure (a : α) : OnPort (pure a) := ⟨fun _ _ _ => rfl⟩

lemma onPort_sendByte (a : Byte) : OnPort (sendByte a) := ⟨fun _ _ _ => rfl⟩

lemma onPort_getDrb : OnPort (via .getDrb) := ⟨fun _ _ _ => rfl⟩

lemma OnPort.bind {t : Bbc α} {f : α → Bbc β} (ht : OnPort t) (hf : ∀ a, OnPort (f a)) :
    OnPort (t >>= f) := by
  refine ⟨fun pcr acr g => ?_⟩
  rw [bind_assoc, ht.bind_eq, bind_assoc]
  exact congrArg _ (funext fun a => (hf a).bind_eq pcr acr g)

lemma onPort_sendList (l : List Byte) : OnPort (sendList l) := by
  induction l with
  | nil => exact onPort_pure ()
  | cons b l ih => exact (onPort_sendByte b).bind fun _ => ih

lemma onPort_takeBytes (n : ℕ) (a : Byte) : OnPort (takeBytes n a) := by
  induction n generalizing a with
  | zero => exact onPort_pure _
  | succ n ih =>
      exact (onPort_sendByte a).bind fun _ => onPort_getDrb.bind fun v => (ih v).bind fun r => onPort_pure _

end Port

/-! ## The loops -/

namespace Machine

/-- The machine after a body. -/
def storeAll (destRom command : Byte) (ptr : Word) (m : Machine) : List Byte → Machine
  | [] => m
  | v :: l => storeAll destRom command (ptr + 1) ((storeByte destRom command ptr v (m.fetch .rom)).fetch .rom) l

end Machine

section Loops

variable (n : ℕ) (ptr : Word) (a : Byte) (m : Machine)

lemma recvTo_run (mem : Mem) : overAddrs recvTo n ptr (mem, a)
    = takeBytes n a >>= fun r => pure (storeReply mem ptr r.1, r.2) := by
  induction n generalizing ptr a mem with
  | zero => rfl
  | succ n ih =>
      simp only [overAddrs, recvTo, takeBytes, bind_assoc, pure_bind, ih]
      rfl

lemma recvRound_run (destRom command : Byte) : overAddrs (recvRound destRom command) n ptr (m, a)
    = takeBytes n a >>= fun r => pure (m.storeAll destRom command ptr r.1, r.2) := by
  induction n generalizing ptr a m with
  | zero => rfl
  | succ n ih =>
      simp only [overAddrs, recvRound, takeBytes, bind_assoc, pure_bind, ih]
      rfl

lemma sendRound_run (v : Word → Byte) : overAddrs (fun ptr => sendRound (v ptr)) n ptr m
    = overAddrs (fun ptr _ => sendByte (v ptr)) n ptr () >>= fun _ => pure ((Machine.fetch .rom)^[n] m) := by
  induction n generalizing ptr m with
  | zero => rfl
  | succ n ih =>
      simp only [overAddrs, sendRound, bind_assoc, pure_bind, ih]
      rfl

lemma sendRound_header (b : ParamBlock) : loopY (fun y => sendRound (b.base y)) 6 256 0 m
    = sendList [b.channel, b.command, b.param1, b.param2, b.sendLo, b.sendHi] >>=
        fun _ => pure ((Machine.fetch .rom)^[6] m) := rfl

end Loops

lemma sendList_append (l l' : List Byte) : sendList (l ++ l') = sendList l >>= fun _ => sendList l' := by
  induction l with
  | nil => rfl
  | cons b l ih => simp only [List.cons_append, sendList, ih, bind_assoc]

/-! ## What is stored, and what is fetched -/

lemma inBank_cons (destRom : Byte) (ptr : Word) (v : Byte) (l : List Byte) :
    inBank destRom ptr (v :: l) = ⟨destRom, ptr, v⟩ :: inBank destRom (ptr + 1) l := by
  have hnext : (fun i v => (⟨destRom, ptr + BitVec.ofNat 16 (i + 1), v⟩ : Store))
      = fun i v => ⟨destRom, ptr + 1 + BitVec.ofNat 16 i, v⟩ := by
    funext i v
    rw [add_one_ofNat]
  rw [inBank, inBank, List.mapIdx_cons, hnext]
  simp

namespace Machine

variable {rom destRom : Byte} {m : Machine}

/-- The ROM runs with its own bank selected, and has up to now. -/
structure AtHome (rom : Byte) (m : Machine) : Prop where
  romsel : m.romsel = rom
  ownBank : m.OwnBank rom

lemma ownBank_fetch {p : Place} (h : m.OwnBank rom) (hp : p = .rom → m.romsel = rom) :
    (m.fetch p).OwnBank rom := by
  intro f hf
  rcases List.mem_append.1 hf with hf | hf
  · exact h f hf
  · rw [List.mem_singleton.1 hf]
    exact hp

lemma atHome_start (rom : Byte) : (start rom).AtHome rom := ⟨rfl, fun _ hf => absurd hf List.not_mem_nil⟩

lemma AtHome.fetch (h : m.AtHome rom) : (m.fetch .rom).AtHome rom :=
  ⟨h.romsel, ownBank_fetch h.ownBank fun _ => h.romsel⟩

lemma AtHome.iterate (h : m.AtHome rom) (n : ℕ) : ((Machine.fetch .rom)^[n] m).AtHome rom := by
  induction n generalizing m with
  | zero => exact h
  | succ n ih => exact ih h.fetch

/-- While another bank is selected, instructions are fetched from page 3 alone. -/
lemma AtHome.storeByte (h : m.AtHome rom) (ptr : Word) (v : Byte) :
    (storeByte destRom rom ptr v m).AtHome rom := by
  have hpage3 : ∀ {m : Machine}, m.OwnBank rom → (m.fetch .page3).OwnBank rom := by
    intro m hm
    exact ownBank_fetch hm nofun
  have haway : (((m.fetch .page3).fetch .page3).select destRom).OwnBank rom := hpage3 (hpage3 h.ownBank)
  have hstored : (((((m.fetch .page3).fetch .page3).select destRom).fetch .page3).store ptr v).OwnBank rom :=
    hpage3 haway
  exact ⟨rfl, hpage3 (hpage3 (hpage3 hstored))⟩

lemma AtHome.storeAll (h : m.AtHome rom) (ptr : Word) (l : List Byte) :
    (m.storeAll destRom rom ptr l).AtHome rom := by
  induction l generalizing ptr m with
  | nil => exact h
  | cons v l ih => exact ih (h.fetch.storeByte ptr v).fetch _

lemma iterate_stores (n : ℕ) (m : Machine) : ((Machine.fetch .rom)^[n] m).stores = m.stores := by
  induction n generalizing m with
  | zero => rfl
  | succ n ih => exact ih _

/-- A body is stored in one bank, at one address after the other. -/
lemma storeAll_stores (destRom command : Byte) (ptr : Word) (l : List Byte) (m : Machine) :
    (m.storeAll destRom command ptr l).stores = m.stores ++ inBank destRom ptr l := by
  induction l generalizing ptr m with
  | nil => simp [storeAll, inBank]
  | cons v l ih =>
      have hfirst : ((Uptx.storeByte destRom command ptr v (m.fetch .rom)).fetch .rom).stores
          = m.stores ++ [⟨destRom, ptr, v⟩] := rfl
      rw [storeAll, ih, hfirst, inBank_cons, List.append_assoc, List.singleton_append]

end Machine

lemma storeAt_inBank (mem : Mem) (destRom : Byte) (ptr : Word) (l : List Byte) :
    storeAt mem (inBank destRom ptr l) = storeReply mem ptr l := by
  induction l generalizing mem ptr with
  | nil => rfl
  | cons v l ih =>
      rw [inBank_cons, storeReply, ← ih]
      rfl

/-! ## The two drivers -/

variable (b : ParamBlock) (mem : Mem) (destRom rom pcr acr first : Byte)

/-- The body is as long as the response announces. -/
lemma takeBytes_ends (n : ℕ) (a : Byte) : (takeBytes n a).Ends fun r => r.1.length = n := by
  induction n generalizing a with
  | zero => exact rfl
  | succ n ih =>
      intro _ _ v
      exact (ih v).bind fun r hr => congrArg Nat.succ hr

lemma conversation_ends (c : Call) :
    (conversation c first).Ends fun r => r.body.length = (wordOf r.lo r.hi).toNat := by
  intro _ _
  refine Tree.ends_bind (sendList c.bytes) fun _ => ?_
  -- up to the length there is nothing that `body` depends on
  intro _ _ _ _ _ _ _ _ _ _ _ _
  refine (takeBytes_ends _ _).bind fun r hr => ?_
  intro _ _
  exact hr

lemma port_sendMsg : port pcr acr (sendMsg ⟨b, mem⟩)
    = conversation ⟨b, mem⟩ (hiByte b.recvAddr) >>= fun r =>
        pure ⟨b.received r.status r.lo r.hi, storeReply mem b.recvAddr r.body⟩ := by
  simp only [sendMsg, conversation, sendHeader_eq, pagesAndRest_eq, sendBody_eq, recvTo_run, Call.bytes,
    sendList_append, bind_assoc, pure_bind, Tree.perform_bind, Tree.op_bind, port,
    (onPort_sendList _).bind_eq, (onPort_sendByte _).bind_eq, (onPort_takeBytes _ _).bind_eq, port_pure]

lemma port_transfer : ∃ after : Response → Machine,
    port pcr acr (transfer b mem destRom (.start rom)) = (conversation ⟨b, mem⟩ 0xae >>= fun r =>
      pure ({ b.received r.status r.lo r.hi with command := rom }, after r)) ∧
    ∀ r, (after r).stores = inBank destRom b.recvAddr r.body ∧ (after r).OwnBank rom := by
  have hcopy : (copyStoreByte storeByteCode.length [] rom).2 = 0xae := rfl
  obtain ⟨sent, hsent⟩ : ∃ m, m = (Machine.fetch .rom)^[(wordOf b.sendLo b.sendHi).toNat]
    ((Machine.fetch .rom)^[6] ((Machine.start rom).fetch .rom)) := ⟨_, rfl⟩
  have hhome : sent.AtHome rom := hsent ▸ ((Machine.atHome_start rom).fetch.iterate 6).iterate _
  have hstores : sent.stores = [] := by
    rw [hsent, Machine.iterate_stores, Machine.iterate_stores]
    rfl
  refine ⟨fun r => (((sent.fetch .rom).fetch .rom).storeAll destRom rom b.recvAddr r.body).fetch .rom, ?_,
    fun r => ⟨?_, ?_⟩⟩
  · simp only [transfer, conversation, sendRound_header, pagesAndRest_eq, sendRound_run, sendBody_eq,
      recvRound_run, Call.bytes, sendList_append, bind_assoc, pure_bind, Tree.perform_bind, Tree.op_bind, port,
      (onPort_sendList _).bind_eq, (onPort_sendByte _).bind_eq, (onPort_takeBytes _ _).bind_eq, port_pure,
      ← hsent, hhome.romsel, hcopy]
  · have hbody := Machine.storeAll_stores destRom rom b.recvAddr r.body ((sent.fetch .rom).fetch .rom)
    have hnone : ((sent.fetch .rom).fetch .rom).stores = [] := hstores
    rwa [hnone, List.nil_append] at hbody
  · exact (hhome.fetch.fetch.storeAll b.recvAddr r.body).fetch.ownBank

/-- **The two drivers agree.**  On the user port they hold the same conversation but for the byte with which
the response is started: that is the first byte of the routine in page 3 for the one, and the high byte of
the receive address for the other.  Both store the body of the response at the receive address, `upcomm`
in the bank of its choice; and that bank is never selected while the ROM runs. -/
theorem drivers_agree :
    ∃ after : Response → Machine,
      port pcr acr (transfer b mem destRom (.start rom)) = (do
        let r ← conversation ⟨b, mem⟩ 0xae
        pure ({ b.received r.status r.lo r.hi with command := rom }, after r)) ∧
      port pcr acr (sendMsg ⟨b, mem⟩) = (do
        let r ← conversation ⟨b, mem⟩ (hiByte b.recvAddr)
        pure ⟨b.received r.status r.lo r.hi, storeReply mem b.recvAddr r.body⟩) ∧
      (∀ r, (after r).stores = inBank destRom b.recvAddr r.body ∧
        storeAt mem (after r).stores = storeReply mem b.recvAddr r.body ∧ (after r).OwnBank rom) ∧
      ∀ first, (conversation ⟨b, mem⟩ first).Ends fun r => r.body.length = (wordOf r.lo r.hi).toNat := by
  obtain ⟨after, htransfer, hafter⟩ := port_transfer b mem destRom rom pcr acr
  refine ⟨after, htransfer, port_sendMsg b mem pcr acr, fun r => ?_, fun first => conversation_ends first _⟩
  obtain ⟨hstores, hhome⟩ := hafter r
  refine ⟨hstores, ?_, hhome⟩
  rw [hstores, storeAt_inBank]

/-- The bytes written when all answers are zero. -/
def written {α : Type} : Bbc α → List Byte
  | .ret _ => []
  | .op (.putDrb v) k => v :: written (k ())
  | .op .getPcr k => written (k 0)
  | .op .getAcr k => written (k 0)
  | .op .getDrb k => written (k 0)
  | .op (.setPcr _) k => written (k ())
  | .op (.setAcr _) k => written (k ())
  | .op (.setDdrb _) k => written (k ())
  | .op .untilCb1 k => written (k ())

/-- The first byte written to an input differs in a call of the README. -/
theorem sumCall_differs :
    let b : ParamBlock := ⟨0x00, 0x00, 0x10, 0x02, 0x00, 0x00, 0x0000, 0x0900⟩
    let mem : Mem := fun _ => 0
    written (port 0 0 (transfer b mem 7 (.start 7))) ≠ written (port 0 0 (sendMsg ⟨b, mem⟩)) := by
  decide

end Udfs.Uptx
