import Udfs.Link.Code
import Udfs.Link.Resets

/-!
# The code follows the thread

As long as the response is stored apart from the parameter block and from `data_ptr`, the code in
its memory performs the operations of the thread `send_msg`, and leaves the parameter block and the
memory that the thread ends with.
-/

namespace Udfs.Link

/-! ## Addresses -/

lemma word_add_sub (p : Word) {i : ℕ} (h : i < 65536) : (p + BitVec.ofNat 16 i - p).toNat = i := by
  have hp := p.isLt
  simp only [BitVec.toNat_sub, BitVec.toNat_add, BitVec.toNat_ofNat]
  omega

lemma toNat_byte_ofNat (i : ℕ) : (BitVec.ofNat 8 i : Byte).toNat = i % 256 := BitVec.toNat_ofNat ..

lemma byte_ofNat_succ (i : ℕ) : (BitVec.ofNat 8 i : Byte) + 1 = BitVec.ofNat 8 (i + 1) :=
  (BitVec.ofNat_add ..).symm

lemma byte_ofNat_eq_zero {i : ℕ} : (BitVec.ofNat 8 i : Byte) = 0 ↔ i % 256 = 0 := by
  rw [← toNat_eq_zero, toNat_byte_ofNat]

lemma word_add_succ (p : Word) (i : ℕ) : p + BitVec.ofNat 16 i + 1 = p + BitVec.ofNat 16 (i + 1) := by
  rw [BitVec.add_assoc]
  exact congrArg _ (BitVec.ofNat_add ..).symm

/-- A pointer whose high byte has been counted up, and Y. -/
lemma wordOf_page (lo hi : Byte) (i : ℕ) :
    wordOf lo (hi + BitVec.ofNat 8 (i / 256)) + (BitVec.ofNat 8 i : Byte).setWidth 16
      = wordOf lo hi + BitVec.ofNat 16 i := by
  have hl := byte_lt lo
  have hh := byte_lt hi
  apply BitVec.eq_of_toNat_eq
  simp only [BitVec.toNat_add, BitVec.toNat_setWidth, toNat_wordOf, BitVec.toNat_ofNat]
  omega

/-! ## Sending -/

section Sending

variable (m : Mem) (pcr acr : Byte)

/-- How many bytes the body has. -/
abbrev sendCount : ℕ := (wordOf (m Loc.sendLength) (m (Loc.sendLength + 1))).toNat

/-- The memory at `Tell AVR to send.`: `data_ptr` has been set for the response. -/
def turnedMem : Mem := fun p =>
  if p = Loc.dataPtr then m Loc.recvAddr
  else if p = Loc.dataPtr + 1 then m (Loc.recvAddr + 1)
  else if p = Loc.sendLength + 1 then 0
  else m p

/-- The code when `i` bytes of the body have been sent. -/
def bodyAt (i : ℕ) : Cpu :=
  if i < sendCount m then
    ⟨.put (if i < 256 * (m (Loc.sendLength + 1)).toNat then .page else .rest),
      bodyMem m (wordAt m Loc.sendAddr + BitVec.ofNat 16 i), BitVec.ofNat 8 i, pcr, acr,
      pagesSent m (i / 256)⟩
  else ⟨.turnBack, m (Loc.recvAddr + 1), 0, pcr, acr, turnedMem m⟩

lemma addr_pagesSent (w : Place) (a : Byte) (i : ℕ) :
    Cpu.addr ⟨w, a, BitVec.ofNat 8 i, pcr, acr, pagesSent m (i / 256)⟩
      = wordAt m Loc.sendAddr + BitVec.ofNat 16 i := wordOf_page _ _ i

variable {m pcr acr}

lemma sendAt_pagesSent {w : Place} {a : Byte} {i : ℕ} (hi : i < 65536) (v : Site) :
    Cpu.sendAt ⟨w, a, BitVec.ofNat 8 i, pcr, acr, pagesSent m (i / 256)⟩ v
      = ⟨.put v, bodyMem m (wordAt m Loc.sendAddr + BitVec.ofNat 16 i), BitVec.ofNat 8 i, pcr, acr,
        pagesSent m (i / 256)⟩ := by
  rw [Cpu.sendAt, addr_pagesSent, bodyMem, word_add_sub _ hi]

/-- `data_ptr` is set for the body. -/
lemma pagesSent_zero (m : Mem) : pagesSent m 0 = Function.update (Function.update m Loc.dataPtr
    (m Loc.sendAddr)) (Loc.dataPtr + 1) (m (Loc.sendAddr + 1)) := by
  funext p
  simp only [pagesSent, Function.update_apply, BitVec.add_zero, BitVec.sub_zero]
  split_ifs <;> first | rfl | simp_all

/-- `inc data_ptr+1` and `dec send_length+1`. -/
lemma nextPage_pagesSent (w : Place) (a y : Byte) (k : ℕ) :
    (Cpu.inc ⟨w, a, y, pcr, acr, pagesSent m k⟩ (Loc.dataPtr + 1)).dec (Loc.sendLength + 1)
      = ⟨w, a, y, pcr, acr, pagesSent m (k + 1)⟩ := by
  have h1 : BitVec.ofNat 8 (k + 1) = (BitVec.ofNat 8 k : Byte) + 1 := (byte_ofNat_succ k).symm
  simp only [Cpu.inc, Cpu.dec, Cpu.store, Cpu.mk.injEq, true_and]
  funext p
  by_cases hcount : p = Loc.sendLength + 1
  · subst hcount
    simp only [pagesSent, h1, Function.update_self]
    exact sub_sub _ _ _
  by_cases hptr : p = Loc.dataPtr + 1
  · subst hptr
    simp only [pagesSent, h1, Function.update_self, Function.update_of_ne hcount]
    exact add_assoc _ _ _
  · simp only [Function.update_of_ne hcount, Function.update_of_ne hptr, pagesSent, if_neg hptr,
      if_neg hcount]

/-- `data_ptr` is set for the response. -/
lemma setPtr_pagesSent (w : Place) (a y : Byte) :
    Cpu.setPtr ⟨w, a, y, pcr, acr, pagesSent m (m (Loc.sendLength + 1)).toNat⟩ Loc.recvAddr
      = ⟨w, m (Loc.recvAddr + 1), y, pcr, acr, turnedMem m⟩ := by
  simp only [Cpu.setPtr, Cpu.store, Cpu.mk.injEq, true_and]
  refine ⟨rfl, ?_⟩
  funext p
  simp only [turnedMem, Function.update_apply, pagesSent]
  split_ifs with h1 h2 h3 <;> first | rfl | simp_all

lemma sendCount_eq : sendCount m = (m Loc.sendLength).toNat + 256 * (m (Loc.sendLength + 1)).toNat :=
  toNat_wordOf _ _

lemma sendCount_lt : sendCount m < 65536 := BitVec.isLt _

/-- `send_final_page` when the pages have been sent. -/
lemma sendFinalPage_pagesSent (w : Place) (a : Byte) {i : ℕ}
    (hi : 256 * (m (Loc.sendLength + 1)).toNat ≤ i) (hn : i ≤ sendCount m) :
    Cpu.sendFinalPage ⟨w, a, BitVec.ofNat 8 i, pcr, acr, pagesSent m (i / 256)⟩ = bodyAt m pcr acr i := by
  have hlo := byte_lt (m Loc.sendLength)
  have hcount := sendCount_eq (m := m)
  have hlt := sendCount_lt (m := m)
  have hpage : i / 256 = (m (Loc.sendLength + 1)).toNat := by omega
  have hstop : (BitVec.ofNat 8 i : Byte) = m Loc.sendLength ↔ i = sendCount m := by
    rw [← BitVec.toNat_inj, toNat_byte_ofNat]
    omega
  have hsl : pagesSent m (i / 256) Loc.sendLength = m Loc.sendLength := rfl
  simp only [Cpu.sendFinalPage, bodyAt, hsl, hstop]
  by_cases he : i = sendCount m
  · rw [if_pos he, if_neg (by omega), hpage, setPtr_pagesSent]
  · rw [if_neg he, if_pos (by omega), if_neg (by omega)]
    exact sendAt_pagesSent (by omega) _

/-- The code at a byte of the body. -/
lemma bodyAt_of_lt {i : ℕ} (h : i < sendCount m) : bodyAt m pcr acr i =
    ⟨.put (if i < 256 * (m (Loc.sendLength + 1)).toNat then .page else .rest),
      bodyMem m (wordAt m Loc.sendAddr + BitVec.ofNat 16 i), BitVec.ofNat 8 i, pcr, acr,
      pagesSent m (i / 256)⟩ := if_pos h

/-- The page loop, and `send_final_page` at its end. -/
lemma pageSent_pagesSent (w : Place) (a : Byte) {i : ℕ} (hi : i < 256 * (m (Loc.sendLength + 1)).toNat) :
    Cpu.pageSent ⟨w, a, BitVec.ofNat 8 i, pcr, acr, pagesSent m (i / 256)⟩
      = bodyAt m pcr acr (i + 1) := by
  have hcount := sendCount_eq (m := m)
  have hlt := sendCount_lt (m := m)
  have hhi := byte_lt (m (Loc.sendLength + 1))
  simp only [Cpu.pageSent, byte_ofNat_succ]
  by_cases hend : (i + 1) % 256 = 0
  · have hpage : i / 256 + 1 = (i + 1) / 256 := by omega
    have hleft : pagesSent m ((i + 1) / 256) (Loc.sendLength + 1) = 0 ↔
        256 * (m (Loc.sendLength + 1)).toNat ≤ i + 1 := by
      have : pagesSent m ((i + 1) / 256) (Loc.sendLength + 1)
          = m (Loc.sendLength + 1) - BitVec.ofNat 8 ((i + 1) / 256) := rfl
      rw [this, ← toNat_eq_zero, BitVec.toNat_sub, toNat_byte_ofNat]
      omega
    rw [if_neg (not_not.2 (byte_ofNat_eq_zero.2 hend)), nextPage_pagesSent, hpage]
    simp only [ne_eq, hleft]
    by_cases hmore : 256 * (m (Loc.sendLength + 1)).toNat ≤ i + 1
    · rw [if_neg (not_not.2 hmore)]
      exact sendFinalPage_pagesSent _ _ hmore (by omega)
    · rw [if_pos hmore, sendAt_pagesSent (by omega), bodyAt_of_lt (by omega), if_pos (by omega)]
  · have hpage : i / 256 = (i + 1) / 256 := by omega
    rw [if_pos (mt byte_ofNat_eq_zero.1 hend), hpage, sendAt_pagesSent (by omega),
      bodyAt_of_lt (by omega), if_pos (by omega)]

/-- A byte of the body has been sent. -/
lemma sent_bodyAt (pcr acr : Byte) {i : ℕ} (hi : i < sendCount m) :
    Cpu.sent { bodyAt m pcr acr i with
        place := .ack (if i < 256 * (m (Loc.sendLength + 1)).toNat then .page else .rest) }
      (if i < 256 * (m (Loc.sendLength + 1)).toNat then .page else .rest)
      = bodyAt m pcr acr (i + 1) := by
  rw [bodyAt_of_lt hi]
  have hcount := sendCount_eq (m := m)
  split_ifs with hpage
  · exact pageSent_pagesSent _ _ hpage
  · have hlo := byte_lt (m Loc.sendLength)
    have hsame : i / 256 = (i + 1) / 256 := by omega
    simp only [Cpu.sent, byte_ofNat_succ, hsame]
    exact sendFinalPage_pagesSent _ _ (by omega) (by omega)

end Sending

/-! ## Receiving -/

section Receiving

variable (m : Mem) (pcr acr rc lo hi : Byte)

/-- The memory when the bytes `l` of the body have been stored, over `k` full pages. -/
def recvMem (k : ℕ) (l : List Byte) : Mem := fun p =>
  if p = Loc.dataPtr then m Loc.recvAddr
  else if p = Loc.dataPtr + 1 then m (Loc.recvAddr + 1) + BitVec.ofNat 8 k
  else if p = Loc.channel then rc
  else if p = Loc.param1 then lo
  else if p = Loc.param2 then hi - BitVec.ofNat 8 k
  else if p = Loc.sendLength then lo
  else if p = Loc.sendLength + 1 then hi
  else storeReply (bodyMem m) (wordAt m Loc.recvAddr) l p

/-- How many bytes are announced. -/
abbrev recvCount : ℕ := (wordOf lo hi).toNat

/-- The call of `send_byte` when `i` bytes have been stored. -/
def recvSite (i : ℕ) : Site :=
  if i < 256 * hi.toNat then .pageIn else if i < recvCount lo hi then .restIn else .drop

/-- The code when the bytes `l` have been stored. -/
def recvAt (a : Byte) (l : List Byte) : Cpu :=
  ⟨.put (recvSite lo hi l.length), a, BitVec.ofNat 8 l.length, pcr, acr,
    recvMem m rc lo hi (l.length / 256) l⟩

variable {m pcr acr rc lo hi}

lemma recvCount_eq (lo hi : Byte) : recvCount lo hi = lo.toNat + 256 * hi.toNat := toNat_wordOf _ _

/-- The memory that the response finds. -/
lemma lengthStored (m : Mem) (rc lo hi : Byte) :
    Function.update (Function.update (Function.update (Function.update (Function.update (turnedMem m)
      Loc.channel rc) Loc.param1 lo) Loc.sendLength lo) Loc.param2 hi) (Loc.sendLength + 1) hi
      = recvMem m rc lo hi 0 [] := by
  funext p
  simp only [Function.update_apply, turnedMem, recvMem, storeReply, bodyMem, pagesSent]
  split_ifs <;> first | rfl | simp_all

/-- A byte of the response is stored apart from what the code counts in. -/
lemma storeAt_recvMem (w : Place) (a v : Byte) {k : ℕ} {l : List Byte} (hk : k = l.length / 256)
    (h : ¬ Scratch (wordAt m Loc.recvAddr + BitVec.ofNat 16 l.length)) :
    Cpu.storeAt ⟨w, a, BitVec.ofNat 8 l.length, pcr, acr, recvMem m rc lo hi k l⟩ v
      = ⟨w, v, BitVec.ofNat 8 (l.length + 1), pcr, acr, recvMem m rc lo hi k (l ++ [v])⟩ := by
  subst hk
  have haddr : Cpu.addr ⟨w, a, BitVec.ofNat 8 l.length, pcr, acr,
      recvMem m rc lo hi (l.length / 256) l⟩ = wordAt m Loc.recvAddr + BitVec.ofNat 16 l.length :=
    wordOf_page _ _ _
  rw [Cpu.storeAt, Cpu.store, haddr]
  simp only [byte_ofNat_succ, Cpu.mk.injEq, true_and]
  funext p
  simp only [recvMem, storeReply_append, Function.update_apply]
  by_cases hp : p = wordAt m Loc.recvAddr + BitVec.ofNat 16 l.length
  · rw [← hp] at h
    have hne : ∀ q, Scratch q → p ≠ q := fun q hq he => h (he ▸ hq)
    rw [if_pos hp, if_neg (hne _ (by decide)), if_neg (hne _ (by decide)), if_neg (hne _ (by decide)),
      if_neg (hne _ (by decide)), if_neg (hne _ (by decide)), if_neg (hne _ (by decide)),
      if_neg (hne _ (by decide)), if_pos hp]
  · simp only [if_neg hp]

/-- `inc data_ptr+1` and `dec param2`. -/
lemma nextPage_recvMem (w : Place) (a y : Byte) (k : ℕ) (l : List Byte) :
    (Cpu.inc ⟨w, a, y, pcr, acr, recvMem m rc lo hi k l⟩ (Loc.dataPtr + 1)).dec Loc.param2
      = ⟨w, a, y, pcr, acr, recvMem m rc lo hi (k + 1) l⟩ := by
  have h1 : BitVec.ofNat 8 (k + 1) = (BitVec.ofNat 8 k : Byte) + 1 := (byte_ofNat_succ k).symm
  simp only [Cpu.inc, Cpu.dec, Cpu.store, Cpu.mk.injEq, true_and]
  funext p
  by_cases hcount : p = Loc.param2
  · subst hcount
    simp only [recvMem, h1, Function.update_self]
    exact sub_sub _ _ _
  by_cases hptr : p = Loc.dataPtr + 1
  · subst hptr
    simp only [recvMem, h1, Function.update_self, Function.update_of_ne hcount]
    exact add_assoc _ _ _
  · simp only [Function.update_of_ne hcount, Function.update_of_ne hptr, recvMem, if_neg hptr,
      if_neg hcount]

/-- `recv_final_page` when the pages have been stored. -/
lemma recvFinalPage_recvMem (w : Place) (a : Byte) {l : List Byte} (hl : 256 * hi.toNat ≤ l.length)
    (hn : l.length ≤ recvCount lo hi) :
    Cpu.recvFinalPage ⟨w, a, BitVec.ofNat 8 l.length, pcr, acr, recvMem m rc lo hi (l.length / 256) l⟩
      = recvAt m pcr acr rc lo hi a l := by
  have hlo := byte_lt lo
  have hcount := recvCount_eq lo hi
  have hstop : (BitVec.ofNat 8 l.length : Byte) = lo ↔ l.length = recvCount lo hi := by
    rw [← BitVec.toNat_inj, toNat_byte_ofNat]
    omega
  have hparam : recvMem m rc lo hi (l.length / 256) l Loc.param1 = lo := rfl
  simp only [Cpu.recvFinalPage, Cpu.send, hparam, hstop, recvAt, recvSite]
  by_cases he : l.length = recvCount lo hi
  · rw [if_pos he, if_neg (by omega), if_neg (by omega)]
  · rw [if_neg he, if_neg (by omega), if_pos (by omega)]

/-- A byte of the body has been received. -/
lemma got_recvAt (pcr acr rc a v : Byte) {l : List Byte} (hl : l.length < recvCount lo hi)
    (h : ¬ Scratch (wordAt m Loc.recvAddr + BitVec.ofNat 16 l.length)) :
    Cpu.got ⟨.get (recvSite lo hi l.length), a, BitVec.ofNat 8 l.length, pcr, acr,
        recvMem m rc lo hi (l.length / 256) l⟩ v (recvSite lo hi l.length)
      = recvAt m pcr acr rc lo hi v (l ++ [v]) := by
  have hcount := recvCount_eq lo hi
  have hlen : (l ++ [v]).length = l.length + 1 := by simp
  have hhi := byte_lt hi
  by_cases hpage : l.length < 256 * hi.toNat
  · have hsite : recvSite lo hi l.length = .pageIn := if_pos hpage
    rw [hsite]
    simp only [Cpu.got, Cpu.pageReceived, storeAt_recvMem _ _ _ rfl h]
    by_cases hend : (l.length + 1) % 256 = 0
    · have hk : l.length / 256 + 1 = (l ++ [v]).length / 256 := by omega
      rw [if_neg (not_not.2 (byte_ofNat_eq_zero.2 hend)), nextPage_recvMem, hk]
      have hleft : recvMem m rc lo hi ((l ++ [v]).length / 256) (l ++ [v]) Loc.param2 = 0 ↔
          256 * hi.toNat ≤ (l ++ [v]).length := by
        have : recvMem m rc lo hi ((l ++ [v]).length / 256) (l ++ [v]) Loc.param2
            = hi - BitVec.ofNat 8 ((l ++ [v]).length / 256) := rfl
        rw [this, ← toNat_eq_zero, BitVec.toNat_sub, toNat_byte_ofNat]
        omega
      simp only [ne_eq, hleft, ← hlen]
      by_cases hmore : 256 * hi.toNat ≤ (l ++ [v]).length
      · rw [if_neg (not_not.2 hmore)]
        exact recvFinalPage_recvMem _ _ hmore (by omega)
      · rw [if_pos hmore, recvAt, recvSite, if_pos (by omega)]
        rfl
    · have hk : l.length / 256 = (l ++ [v]).length / 256 := by omega
      rw [if_pos (mt byte_ofNat_eq_zero.1 hend), hk, ← hlen, recvAt, recvSite, if_pos (by omega)]
      rfl
  · have hlo := byte_lt lo
    have hsite : recvSite lo hi l.length = .restIn := by rw [recvSite, if_neg hpage, if_pos hl]
    have hk : l.length / 256 = (l ++ [v]).length / 256 := by omega
    rw [hsite]
    simp only [Cpu.got, storeAt_recvMem _ _ _ rfl h, ← hlen]
    rw [hk]
    exact recvFinalPage_recvMem _ _ (by omega) (by omega)

end Receiving

/-! ## The whole call -/

/-- What the code leaves: the parameter block that the thread ends with, and its memory but for what
`send_msg` counts in. -/
def Leaves (r : Call) (c : Cpu) : Prop :=
  blockOf c.mem = r.block ∧ ∀ p, ¬ Scratch p → c.mem p = r.mem p

/-- The response announced does not fit into the user's memory. -/
def TooLong (p : Word) (r : Call) : Prop :=
  ¬ InUserMem p (wordOf r.block.sendLo r.block.sendHi).toNat

/-- The code follows a thread, as long as the response fits. -/
abbrev Follows (p : Word) (t : Bbc Call) (c : Cpu) : Prop := t.Follows Cpu.next Leaves (TooLong p) c

section Code

variable {p : Word}

/-- `send_byte`. -/
lemma follows_sendByte {k : Unit → Bbc Call} {c : Cpu} {w : Site} (hp : c.place = .put w)
    (h : Follows p (k ()) (Cpu.sent { c with place := .ack w } w)) :
    Follows p (sendByte c.a >>= k) c := by
  obtain ⟨place, a, y, pcr, acr, mem⟩ := c
  obtain rfl := hp
  exact Tree.follows_op rfl fun _ => Tree.follows_op rfl fun _ => h

/-- `send_byte`, and `ldx drb` or `lda drb` after it. -/
lemma follows_recvByte {k : Byte → Bbc Call} {c : Cpu} {w : Site} (hp : c.place = .put w)
    (hw : Cpu.sent { c with place := .ack w } w = { c with place := .get w, a := 0x10 })
    (h : ∀ v, Follows p (k v) (Cpu.got { c with place := .get w, a := 0x10 } v w)) :
    Follows p (sendByte c.a >>= fun _ => via .getDrb >>= k) c := by
  refine follows_sendByte hp ?_
  rw [hw]
  exact Tree.follows_op rfl h

variable (m : Mem) {pcr acr : Byte}

/-- The loop over the header sends a byte and reads the next one of the parameter block. -/
lemma follows_headerByte {k : Unit → Bbc Call} {b b' y z : Byte} (hy : y + 1 = z ∧ z ≠ 6)
    (hb : pagesSent m 0 (Loc.channel + z.setWidth 16) = b')
    (h : Follows p (k ()) ⟨.put .header, b', z, pcr, acr, pagesSent m 0⟩) :
    Follows p (sendByte b >>= k) ⟨.put .header, b, y, pcr, acr, pagesSent m 0⟩ := by
  obtain ⟨rfl, hy⟩ := hy
  have hsent : Cpu.sent ⟨.ack .header, b, y, pcr, acr, pagesSent m 0⟩ .header
      = ⟨.put .header, pagesSent m 0 (Loc.channel + (y + 1).setWidth 16), y + 1, pcr, acr,
        pagesSent m 0⟩ := if_pos hy
  rw [hb] at hsent
  exact follows_sendByte rfl (hsent ▸ h)

/-- The loop over the header ends, and the body begins. -/
lemma sent_header_last (a : Byte) :
    Cpu.sent ⟨.ack .header, a, 5, pcr, acr, pagesSent m 0⟩ .header = bodyAt m pcr acr 0 := by
  have hcount := sendCount_eq (m := m)
  have hhigh : pagesSent m 0 (Loc.sendLength + 1) = m (Loc.sendLength + 1) := sub_zero _
  rw [Cpu.sent, Cpu.headerSent]
  simp only [show (5 : Byte) + 1 = 6 from rfl, ne_eq, not_true_eq_false, if_false, hhigh]
  by_cases hz : m (Loc.sendLength + 1) = 0
  · have h0 := toNat_eq_zero.2 hz
    rw [if_pos hz, hz]
    exact sendFinalPage_pagesSent (i := 0) _ _ (by omega) (by omega)
  · have h0 : (m (Loc.sendLength + 1)).toNat ≠ 0 := mt toNat_eq_zero.1 hz
    rw [if_neg hz, bodyAt_of_lt (by omega), if_pos (by omega)]
    exact sendAt_pagesSent (i := 0) (by omega) _

/-- The header is sent from the parameter block. -/
lemma follows_header {k : Unit → Bbc Call} (h : Follows p (k ()) (bodyAt m pcr acr 0)) :
    Follows p (loopY (fun y _ => sendByte ((blockOf m).base y)) 6 256 0 () >>= k)
      ⟨.put .header, m Loc.channel, 0, pcr, acr, pagesSent m 0⟩ := by
  rw [sendHeader_eq]
  simp only [sendList, bind_assoc, pure_bind]
  refine follows_headerByte m (z := 1) (by decide) rfl ?_
  refine follows_headerByte m (z := 2) (by decide) rfl ?_
  refine follows_headerByte m (z := 3) (by decide) rfl ?_
  refine follows_headerByte m (z := 4) (by decide) rfl ?_
  refine follows_headerByte m (z := 5) (by decide) (sub_zero _) ?_
  exact follows_sendByte rfl ((sent_header_last m _).symm ▸ h)

/-- The body is sent from memory. -/
lemma follows_body (pcr acr : Byte) {k : Unit → Bbc Call} (h : Follows p (k ()) (bodyAt m pcr acr (sendCount m))) (d : ℕ) :
    ∀ i, i + d = sendCount m → Follows p (overAddrs (fun q _ => sendByte (bodyMem m q)) d
      (wordAt m Loc.sendAddr + BitVec.ofNat 16 i) () >>= k) (bodyAt m pcr acr i) := by
  induction d with
  | zero =>
      intro i hi
      obtain rfl : i = sendCount m := hi
      exact h
  | succ d ih =>
      intro i hi
      have hlt : i < sendCount m := by omega
      have hsent := sent_bodyAt pcr acr hlt
      rw [overAddrs, bind_assoc, word_add_succ]
      rw [bodyAt_of_lt hlt] at hsent ⊢
      exact follows_sendByte rfl (hsent ▸ ih (i + 1) (by omega))

variable {m} {rc lo hi : Byte}

/-- The body of the response is stored. -/
lemma follows_recvBody (pcr acr rc : Byte) (happ : InUserMem (wordAt m Loc.recvAddr) (recvCount lo hi))
    {k : Mem × Byte → Bbc Call}
    (h : ∀ a l, l.length = recvCount lo hi →
      Follows p (k (storeReply (bodyMem m) (wordAt m Loc.recvAddr) l, a)) (recvAt m pcr acr rc lo hi a l))
    (d : ℕ) : ∀ a l, l.length + d = recvCount lo hi →
      Follows p (overAddrs recvTo d (wordAt m Loc.recvAddr + BitVec.ofNat 16 l.length)
        (storeReply (bodyMem m) (wordAt m Loc.recvAddr) l, a) >>= k) (recvAt m pcr acr rc lo hi a l) := by
  induction d with
  | zero => exact fun a l hl => h a l hl
  | succ d ih =>
      intro a l hl
      have hlt : l.length < recvCount lo hi := by omega
      have hsite : ∃ w, recvSite lo hi l.length = w ∧ (w = .pageIn ∨ w = .restIn) := by
        rw [recvSite]
        split_ifs
        · exact ⟨_, rfl, Or.inl rfl⟩
        · exact ⟨_, rfl, Or.inr rfl⟩
      obtain ⟨w, hw, hcase⟩ := hsite
      have hgot := fun v => got_recvAt pcr acr rc 0x10 v hlt (happ _ hlt).2.2
      rw [overAddrs, bind_assoc, recvTo]
      simp only [bind_assoc, pure_bind]
      rw [hw] at hgot
      refine follows_recvByte (c := recvAt m pcr acr rc lo hi a l) (w := w) (by rw [recvAt, hw]) ?_
        fun v => ?_
      · rcases hcase with rfl | rfl <;> rfl
      · have hlen : (l ++ [v]).length = l.length + 1 := by simp
        have hnext := ih v (l ++ [v]) (by omega)
        rw [storeReply_append, hlen, ← word_add_succ] at hnext
        exact hgot v ▸ hnext

/-- The length of the response is stored, and its body begins. -/
lemma got_lengthHigh (m : Mem) (pcr acr rc lo hi a : Byte) :
    Cpu.got ⟨.get .lengthHigh, a, 0, pcr, acr, Function.update (Function.update (Function.update
        (turnedMem m) Loc.channel rc) Loc.param1 lo) Loc.sendLength lo⟩ hi .lengthHigh
      = recvAt m pcr acr rc lo hi a [] := by
  have hstored := lengthStored m rc lo hi
  simp only [Cpu.got, Cpu.store, hstored]
  by_cases hz : hi = 0
  · have h0 := toNat_eq_zero.2 hz
    rw [if_pos hz]
    exact recvFinalPage_recvMem (l := []) _ _ (by simp [h0]) (Nat.zero_le _)
  · have h0 : hi.toNat ≠ 0 := mt toNat_eq_zero.1 hz
    rw [if_neg hz, recvAt, recvSite, if_pos (by simp; omega)]
    rfl

/-- What is left of the thread when the length of the response has been received. -/
def recvThread (c : Call) (pcr acr rc lo hi : Byte) : Bbc Call := do
  let (mem, a) ← pagesAndRest recvTo lo hi c.block.recvAddr (c.mem, 0x10)
  sendByte a
  via (.setAcr acr)
  via (.setPcr pcr)
  pure ⟨c.block.received rc lo hi, mem⟩

/-- What the code leaves when the body has been stored. -/
lemma leaves_recvAt (happ : InUserMem (wordAt m Loc.recvAddr) (recvCount lo hi)) {l : List Byte}
    (hl : l.length = recvCount lo hi) (w : Place) (a y : Byte) :
    Leaves ⟨(blockOf m).received rc lo hi, storeReply (bodyMem m) (wordAt m Loc.recvAddr) l⟩
      ⟨w, a, y, pcr, acr, recvMem m rc lo hi (l.length / 256) l⟩ := by
  have hlo := byte_lt lo
  have hcount := recvCount_eq lo hi
  have hpages : l.length / 256 = hi.toNat := by omega
  constructor
  · -- the rest of the block is as it was
    have hkept : ∀ q, Scratch q → storeReply (bodyMem m) (wordAt m Loc.recvAddr) l q = bodyMem m q :=
      fun q hq => storeReply_frame l _ _ q fun i hi he => (happ i (hl ▸ hi)).2.2 (he ▸ hq)
    have hcommand : recvMem m rc lo hi (l.length / 256) l Loc.command = m Loc.command :=
      hkept Loc.command (by decide)
    have hsend : wordAt (recvMem m rc lo hi (l.length / 256) l) Loc.sendAddr = wordAt m Loc.sendAddr :=
      congrArg₂ wordOf (hkept Loc.sendAddr (by decide)) (hkept (Loc.sendAddr + 1) (by decide))
    have hrecv : wordAt (recvMem m rc lo hi (l.length / 256) l) Loc.recvAddr = wordAt m Loc.recvAddr :=
      congrArg₂ wordOf (hkept Loc.recvAddr (by decide)) (hkept (Loc.recvAddr + 1) (by decide))
    have hparam2 : recvMem m rc lo hi (l.length / 256) l Loc.param2 = 0 := by
      have : recvMem m rc lo hi (l.length / 256) l Loc.param2 = hi - BitVec.ofNat 8 (l.length / 256) :=
        rfl
      rw [this, hpages, BitVec.ofNat_toNat, BitVec.setWidth_eq, BitVec.sub_self]
      rfl
    simp only [blockOf, ParamBlock.received, hcommand, hsend, hrecv, hparam2]
    rfl
  · intro q hq
    have hne : ∀ r, Scratch r → q ≠ r := fun r hr he => hq (he ▸ hr)
    simp only [recvMem]
    rw [if_neg (hne _ (by decide)), if_neg (hne _ (by decide)), if_neg (hne _ (by decide)),
      if_neg (hne _ (by decide)), if_neg (hne _ (by decide)), if_neg (hne _ (by decide)),
      if_neg (hne _ (by decide))]

/-- The body of the response, and the end. -/
lemma follows_recvThread (happ : InUserMem (wordAt m Loc.recvAddr) (recvCount lo hi)) :
    Follows p (recvThread (callOf m) pcr acr rc lo hi) (recvAt m pcr acr rc lo hi 0x10 []) := by
  have hptr : (callOf m).block.recvAddr = wordAt m Loc.recvAddr + BitVec.ofNat 16 ([] : List Byte).length :=
    (BitVec.add_zero _).symm
  have hbody := follows_recvBody (p := p) pcr acr rc happ
    (k := fun s => do
      sendByte s.2
      via (.setAcr acr)
      via (.setPcr pcr)
      pure ⟨(callOf m).block.received rc lo hi, s.1⟩) (fun a l hl => ?_) (recvCount lo hi) 0x10 []
      (Nat.zero_add _)
  · rw [recvThread, pagesAndRest_eq, hptr]
    exact hbody
  · have hsite : recvSite lo hi l.length = .drop := by
      have := recvCount_eq lo hi
      rw [recvSite, if_neg (by omega), if_neg (by omega)]
    refine follows_sendByte (c := recvAt m pcr acr rc lo hi a l) (w := .drop) (by rw [recvAt, hsite]) ?_
    refine Tree.follows_op rfl fun _ => Tree.follows_op rfl fun _ => ⟨rfl, ?_⟩
    exact leaves_recvAt happ hl _ _ _

lemma ends_recvThread (c : Call) (pcr acr : Byte) (happ : ¬ InUserMem p (recvCount lo hi)) :
    (recvThread c pcr acr rc lo hi).Ends (TooLong p) := by
  rw [recvThread]
  exact Tree.ends_bind _ fun s => Tree.ends_bind _ fun _ _ _ => happ

/-- The response, from `Tell AVR to send.` on. -/
lemma follows_reply : Follows (wordAt m Loc.recvAddr) (do
      sendByte (hiByte (callOf m).block.recvAddr)
      sendByte 0x10
      let status ← via .getDrb
      sendByte 0x10
      let lo ← via .getDrb
      sendByte 0x10
      let hi ← via .getDrb
      recvThread (callOf m) pcr acr status lo hi)
    ⟨.put .tell, m (Loc.recvAddr + 1), 0, pcr, acr, turnedMem m⟩ := by
  have ha : hiByte (callOf m).block.recvAddr = m (Loc.recvAddr + 1) := hiByte_wordOf _ _
  rw [ha]
  refine follows_sendByte (w := .tell) rfl ?_
  refine follows_recvByte (w := .status) rfl rfl fun rc => ?_
  refine follows_recvByte (w := .lengthLow) rfl rfl fun lo => ?_
  refine follows_sendByte (w := .lengthHigh) rfl ?_
  refine ⟨_, rfl, fun hi => ?_⟩
  by_cases happ : InUserMem (wordAt m Loc.recvAddr) (recvCount lo hi)
  · have hgot := got_lengthHigh m pcr acr rc lo hi 0x10
    exact Or.inl (hgot.symm ▸ follows_recvThread happ)
  · exact Or.inr (ends_recvThread _ _ _ happ)

/-- **The code follows the thread** as long as the response that is announced fits into the user's
memory. -/
theorem follows_sendMsg (m : Mem) :
    Follows (wordAt m Loc.recvAddr) (sendMsg (callOf m)) (Cpu.enter m) := by
  refine Tree.follows_op rfl fun pcr => Tree.follows_op rfl fun acr => ?_
  refine Tree.follows_op rfl fun _ => Tree.follows_op rfl fun _ => ?_
  refine Tree.follows_op rfl fun _ => Tree.follows_op rfl fun _ => Tree.follows_op rfl fun _ => ?_
  refine Tree.follows_op rfl fun _ => ?_
  have hstart : (⟨.put .header, m Loc.channel, 0, pcr, acr, Function.update (Function.update m
      Loc.dataPtr (m Loc.sendAddr)) (Loc.dataPtr + 1) (m (Loc.sendAddr + 1))⟩ : Cpu)
        = ⟨.put .header, m Loc.channel, 0, pcr, acr, pagesSent m 0⟩ := by
    rw [pagesSent_zero]
  have hptr : (callOf m).block.sendAddr = wordAt m Loc.sendAddr + BitVec.ofNat 16 0 :=
    (BitVec.add_zero _).symm
  have hbody := follows_body (p := wordAt m Loc.recvAddr) m pcr acr
    (k := fun _ => do
      via (.setDdrb 0x00)
      sendByte (hiByte (callOf m).block.recvAddr)
      sendByte 0x10
      let status ← via .getDrb
      sendByte 0x10
      let lo ← via .getDrb
      sendByte 0x10
      let hi ← via .getDrb
      recvThread (callOf m) pcr acr status lo hi) ?_ (sendCount m) 0 (Nat.zero_add _)
  · refine hstart ▸ follows_header m ?_
    rw [pagesAndRest_eq, hptr]
    exact hbody
  · rw [bodyAt, if_neg (lt_irrefl _)]
    exact Tree.follows_op rfl fun _ => follows_reply

end Code

end Udfs.Link
