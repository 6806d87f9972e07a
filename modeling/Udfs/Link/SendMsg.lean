import Udfs.Lib.Byte
import Udfs.Lib.Thread

/-!
# The ROM: `send_msg`

`send_msg` sends a header and a body to the AVR and stores the response, one byte at a
time, through the user VIA.  It counts pages of 256 bytes and a rest.  This file embeds it
as a thread over the operations it performs on the VIA, and shows that its loops go over
consecutive addresses, as many as the two length bytes say.

Here the parameter block and the pointer `data_ptr` lie apart from the memory that is sent and
stored to.  `Code` has them in that memory.
-/

namespace Udfs.Link

/-- The operations of the ROM on the VIA. -/
inductive BbcOp where
  | getPcr
  | setPcr (v : Byte)
  | getAcr
  | setAcr (v : Byte)
  | setDdrb (v : Byte)
  -- `sta drb`
  | putDrb (v : Byte)
  -- `lda drb`
  | getDrb
  -- the loop of `send_byte` on bit 4 of `ifr`
  | untilCb1

/-- What an operation answers. -/
abbrev BbcOp.Ans : BbcOp → Type
  | getPcr => Byte
  | getAcr => Byte
  | getDrb => Byte
  | _ => Unit

/-- A thread of the ROM. -/
abbrev Bbc (α : Type) : Type := Tree BbcOp BbcOp.Ans α

/-- A single operation. -/
abbrev via (o : BbcOp) : Bbc o.Ans := Tree.perform o

/-- The parameter block, `base` … `base+9` at `$0d42`. -/
structure ParamBlock where
  channel : Byte
  command : Byte
  param1 : Byte
  param2 : Byte
  sendLo : Byte
  sendHi : Byte
  sendAddr : Word
  recvAddr : Word

/-- `lda base,y`. -/
def ParamBlock.base (b : ParamBlock) (y : Byte) : Byte :=
  match y.toNat with
  | 0 => b.channel
  | 1 => b.command
  | 2 => b.param1
  | 3 => b.param2
  | 4 => b.sendLo
  | 5 => b.sendHi
  | 6 => loByte b.sendAddr
  | 7 => hiByte b.sendAddr
  | 8 => loByte b.recvAddr
  | _ => hiByte b.recvAddr

/-- The memory that is sent from and stored to. -/
abbrev Mem : Type := Word → Byte

/-- A call of `send_msg`. -/
structure Call where
  block : ParamBlock
  mem : Mem

/-- Send a byte and wait for the acknowledge; A is left holding the flag bit. -/
def sendByte (a : Byte) : Bbc Unit := do
  via (.putDrb a)
  via .untilCb1

/-- A loop that ends with `iny` and a branch back unless Y is `stop`: `t` bounds it. -/
def loopY {σ : Type} (body : Byte → σ → Bbc σ) (stop : Byte) : ℕ → Byte → σ → Bbc σ
  | 0, _, s => pure s
  | t + 1, y, s => do
      let s ← body y s
      if y + 1 = stop then pure s else loopY body stop t (y + 1) s

/-- The page loop: `body` at the 256 addresses from `ptr` on, then `inc data_ptr+1` and
`dec` of the page count. -/
def pages {σ : Type} (body : Word → σ → Bbc σ) : ℕ → Word → σ → Bbc (Word × σ)
  | 0, ptr, s => pure (ptr, s)
  | n + 1, ptr, s => do
      let s ← loopY (fun y => body (ptr + y.setWidth 16)) 0 256 0 s
      pages body n (ptr + 0x0100) s

/-- The page loop for the high length byte, then the rest up to the low one. -/
def pagesAndRest {σ : Type} (body : Word → σ → Bbc σ) (lo hi : Byte) (ptr : Word) (s : σ) :
    Bbc σ := do
  let (ptr, s) ← pages body hi.toNat ptr s
  -- `cpy send_length` with Y at 0
  if lo = 0 then pure s
  else loopY (fun y => body (ptr + y.setWidth 16)) lo 256 0 s

/-- What a byte received does: the memory after it is stored, and A. -/
def recvTo (ptr : Word) (s : Mem × Byte) : Bbc (Mem × Byte) := do
  sendByte s.2
  let v ← via .getDrb
  pure (Function.update s.1 ptr v, v)

/-- The parameter block and the memory after a response with this status and length. -/
def ParamBlock.received (b : ParamBlock) (status lo hi : Byte) : ParamBlock :=
  -- `param2` has counted the pages down
  { b with channel := status, param1 := lo, param2 := 0, sendLo := lo, sendHi := hi }

/-- `send_msg`. -/
def sendMsg (c : Call) : Bbc Call := do
  let b := c.block
  let pcr ← via .getPcr
  let acr ← via .getAcr
  via (.setAcr 0x00)
  via (.setDdrb 0x00)
  via (.setPcr 0xc0)
  via (.setPcr 0xe0)
  via (.setPcr 0x80)
  via (.setDdrb 0xff)
  loopY (fun y _ => sendByte (b.base y)) 6 256 0 ()
  pagesAndRest (fun ptr _ => sendByte (c.mem ptr)) b.sendLo b.sendHi b.sendAddr ()
  via (.setDdrb 0x00)
  sendByte (hiByte b.recvAddr)
  sendByte 0x10
  let status ← via .getDrb
  sendByte 0x10
  let lo ← via .getDrb
  sendByte 0x10
  let hi ← via .getDrb
  let (mem, a) ← pagesAndRest recvTo lo hi b.recvAddr (c.mem, 0x10)
  sendByte a
  via (.setAcr acr)
  via (.setPcr pcr)
  pure ⟨b.received status lo hi, mem⟩

/-! ## The loops go over consecutive addresses -/

/-- `body` at `n` consecutive addresses. -/
def overAddrs {σ : Type} (body : Word → σ → Bbc σ) : ℕ → Word → σ → Bbc σ
  | 0, _, s => pure s
  | n + 1, ptr, s => do
      let s ← body ptr s
      overAddrs body n (ptr + 1) s

lemma word_one : (1 : Word).toNat = 1 := rfl

lemma add_one_ofNat (ptr : Word) (n : ℕ) : ptr + 1 + BitVec.ofNat 16 n = ptr + BitVec.ofNat 16 (n + 1) := by
  apply BitVec.eq_of_toNat_eq
  simp only [BitVec.toNat_add, BitVec.toNat_ofNat, word_one]
  omega

variable {σ : Type} (body : Word → σ → Bbc σ)

lemma overAddrs_add (m n : ℕ) (ptr : Word) (s : σ) :
    overAddrs body (m + n) ptr s
      = overAddrs body m ptr s >>= overAddrs body n (ptr + BitVec.ofNat 16 m) := by
  induction m generalizing ptr s with
  | zero => simp [overAddrs]
  | succ m ih =>
      rw [show m + 1 + n = m + n + 1 by omega, overAddrs, overAddrs, bind_assoc]
      refine congrArg _ (funext fun s' => ?_)
      rw [ih, add_one_ofNat]

/-- A loop that starts at `y` and has `k` t to go before Y is `stop`. -/
lemma loopY_eq (ptr : Word) (stop : Byte) {t k : ℕ} {y : Byte} (s : σ) (hk : k + 1 ≤ t)
    (hle : y.toNat + (k + 1) ≤ 256) (hstop : (y.toNat + (k + 1)) % 256 = stop.toNat) :
    loopY (fun y => body (ptr + y.setWidth 16)) stop t y s
      = overAddrs body (k + 1) (ptr + y.setWidth 16) s := by
  induction t generalizing k y s with
  | zero => omega
  | succ t ih =>
      have h1 : (y + 1).toNat = (y.toNat + 1) % 256 := by
        rw [BitVec.toNat_add]
        rfl
      rw [loopY, overAddrs]
      refine congrArg _ (funext fun s' => ?_)
      cases k with
      | zero =>
          rw [if_pos (BitVec.eq_of_toNat_eq (by omega))]
          rfl
      | succ k =>
          have hne : y + 1 ≠ stop := fun h => by
            have := congrArg BitVec.toNat h
            omega
          have hptr : ptr + (y + 1).setWidth 16 = ptr + y.setWidth 16 + 1 := by
            apply BitVec.eq_of_toNat_eq
            simp only [BitVec.toNat_add, BitVec.toNat_setWidth, h1, word_one]
            omega
          rw [if_neg hne, ih (k := k) s' (by omega) (by omega) (by omega), hptr]

lemma pages_eq (n : ℕ) (ptr : Word) (s : σ) :
    pages body n ptr s
      = overAddrs body (256 * n) ptr s >>= fun s => pure (ptr + BitVec.ofNat 16 (256 * n), s) := by
  induction n generalizing ptr s with
  | zero => simp [pages, overAddrs]
  | succ n ih =>
      have hpage := loopY_eq body ptr 0 (t := 256) (k := 255) (y := 0) s (by omega) (by decide)
        (by decide)
      have hzero : ptr + (0 : Byte).setWidth 16 = ptr := by simp
      have hptr : ptr + 0x0100 + BitVec.ofNat 16 (256 * n) = ptr + BitVec.ofNat 16 (256 * (n + 1)) := by
        apply BitVec.eq_of_toNat_eq
        have h256 : (256 : Word).toNat = 256 := rfl
        simp only [BitVec.toNat_add, BitVec.toNat_ofNat, h256]
        omega
      rw [show 256 * (n + 1) = 256 + 256 * n by omega] at hptr ⊢
      rw [pages, hpage, hzero, overAddrs_add body 256 (256 * n), bind_assoc]
      refine congrArg _ (funext fun s' => ?_)
      rw [ih, hptr]
      rfl

/-- **The pages and the rest cover exactly the bytes that the two length bytes announce.** -/
lemma pagesAndRest_eq (lo hi : Byte) (ptr : Word) (s : σ) :
    pagesAndRest body lo hi ptr s = overAddrs body (wordOf lo hi).toNat ptr s := by
  have hlo := byte_lt lo
  rw [pagesAndRest, pages_eq, toNat_wordOf, Nat.add_comm lo.toNat,
    overAddrs_add body (256 * hi.toNat) lo.toNat, bind_assoc]
  refine congrArg _ (funext fun s' => ?_)
  simp only [pure_bind]
  by_cases h0 : lo = 0
  · rw [if_pos h0, toNat_eq_zero.2 h0]
    rfl
  · have hne : lo.toNat ≠ 0 := fun h => h0 (toNat_eq_zero.1 h)
    have hrest := loopY_eq body (ptr + BitVec.ofNat 16 (256 * hi.toNat)) lo (t := 256)
      (k := lo.toNat - 1) (y := 0) s' (by omega) (by simp; omega) (by simp; omega)
    rw [if_neg h0, hrest, show lo.toNat - 1 + 1 = lo.toNat by omega]
    simp

end Udfs.Link
