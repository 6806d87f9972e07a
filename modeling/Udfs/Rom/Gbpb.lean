import Udfs.Lib.Counter
import Udfs.Rom.Streams

/-!
# Transferring many bytes

OSGBPB works on a copy of its control block: a handle, the address, the number of bytes and PTR,
four bytes each.  The number is complemented and counted up, so that it becomes zero when all
bytes have been transferred; every byte goes through OSBGET or OSBPUT, and the block is written
back at the end.
-/

namespace Udfs.Rom

/-! ## The call -/

/-- `argsv_rdseqptr_or_filelen` for PTR. -/
def argsReadPtr (h : Byte) : Routine Num24 := do
  let y ← openHandle h
  let s ← Prog.get
  pure (s.chan y).ptr

/-- `$9728`: the address within the machine. -/
def blockDest (b : ℕ → Byte) : ℕ := (b 1).toNat + 256 * (b 2).toNat

/-- `$9765` and `$977d`: transfer a byte; the carry, and the block with the address moved on. -/
def transferByte (a : Byte) (b : ℕ → Byte) : Routine (Bool × (ℕ → Byte)) :=
  if a = 3 ∨ a = 4 then do
    let r ← bgetv (b 0)
    if r.2 then pure (true, b)
    else do
      Prog.modify fun s => { s with mem := Function.update s.mem (blockDest b) r.1 }
      pure (false, (incBytes 4 1 b).1)
  else do
    let s ← Prog.get
    bputv (b 0) (s.mem (blockDest b))
    pure (false, (incBytes 4 1 b).1)

/-- `$9656`: transfer bytes until the number becomes zero; the carry tells that it has not. -/
def gbpbLoop (a : Byte) : ℕ → (ℕ → Byte) → Routine (Bool × (ℕ → Byte))
  | 0, b => pure (false, b)
  | k + 1, b =>
      let c := incBytes 4 5 b
      if c.2 then pure (false, c.1)
      else do
        let r ← transferByte a c.1
        if r.1 then pure r
        else gbpbLoop a k (incBytes 4 9 r.2).1

/-- `$9644`: PTR in the block. -/
def putPtr (b : ℕ → Byte) (p : Num24) : ℕ → Byte := fun i =>
  if i = 9 then p.lo else if i = 10 then p.mid else if i = 11 then p.hi else if i = 12 then 0 else b i

/-- `$9756`: the address of the control block in `$b4`. -/
def pointToBlock (cb : ℕ) : Routine Unit :=
  Prog.modify fun s => { s with
    mem := Function.update (Function.update s.mem 0xb4 (BitVec.ofNat 8 cb)) 0xb5 (BitVec.ofNat 8 (cb / 256)) }

/-- `$9679`: the first `n` bytes of the copy go back to the control block, the last of them first. -/
def putBlock (b : ℕ → Byte) (cb : ℕ) : ℕ → (ℕ → Byte) → ℕ → Byte
  | 0, m => m
  | n + 1, m => putBlock b cb n (Function.update m ((cb + n) % 65536) (b n))

/-- `$95fd`: the block is copied, the bytes are transferred, and the block is written back; the carry. -/
def gbpbCopied (a : Byte) (cb : ℕ) : Routine Bool := do
  let s ← Prog.get
  let b : ℕ → Byte := fun i => s.mem ((cb + i) % 65536)
  Prog.when (a = 1 ∨ a = 3) (argsWritePtr (b 0) ⟨b 9, b 10, b 11⟩)
  let p ← argsReadPtr (b 0)
  let r ← gbpbLoop a (leVal 4 5 b + 1) (notBytes 4 5 (putPtr b p))
  let b := (incBytes 4 5 (notBytes 4 5 r.2)).1
  pointToBlock cb
  Prog.modify fun s => { s with mem := putBlock b cb 13 s.mem }
  pure r.1

/-- `gbpbv_entry` with A from 1 to 4, without a Tube, for the control block at `cb`; the carry.  Of the
zero page only `$b4` and `$b5` are part of the memory; the others that the routine uses hold nothing of it. -/
def gbpb (a : Byte) (cb : ℕ) : Routine Bool := do
  pointToBlock cb
  gbpbCopied a cb

/-! ## The fields of the block -/

section Fields

variable {b : ℕ → Byte} {x y : ℕ}

lemma leVal_inc (b : ℕ → Byte) : leVal 4 x (incBytes 4 x b).1 = (leVal 4 x b + 1) % 4294967296 :=
  (incBytes_val b).1

lemma leVal_inc_of_ne (b : ℕ → Byte) (h : x + 4 ≤ y ∨ y + 4 ≤ x) :
    leVal 4 y (incBytes 4 x b).1 = leVal 4 y b :=
  leVal_congr fun a h1 h2 => incBytes_of_not b (by omega)

lemma leVal_not_of_ne (b : ℕ → Byte) (h : x + 4 ≤ y ∨ y + 4 ≤ x) :
    leVal 4 y (notBytes 4 x b) = leVal 4 y b :=
  leVal_congr fun a h1 h2 => notBytes_of_not b (by omega)

lemma blockDest_eq (b : ℕ → Byte) : blockDest b = leVal 4 1 b % 65536 := by
  have h1 := byte_lt (b 1)
  have h2 := byte_lt (b 2)
  have hval : leVal 4 1 b = (b 1).toNat + 256 * ((b 2).toNat + 256 * ((b 3).toNat +
      256 * ((b 4).toNat + 256 * 0))) := rfl
  rw [blockDest, hval]
  omega

lemma leVal_shift (k x c : ℕ) (m : ℕ → Byte) : leVal k x (fun i => m (c + i)) = leVal k (c + x) m := by
  induction k generalizing x with
  | zero => rfl
  | succ k ih => rw [leVal, leVal, ih, Nat.add_assoc]

lemma putPtr_val (b : ℕ → Byte) (p : Num24) : leVal 4 9 (putPtr b p) = p.val := by
  have h0 : (0 : Byte).toNat = 0 := rfl
  simp [leVal, putPtr, Num24.val]
  omega

lemma putPtr_of_lt (b : ℕ → Byte) (p : Num24) {i : ℕ} (h : i < 9) : putPtr b p i = b i := by
  rw [putPtr, if_neg (by omega), if_neg (by omega), if_neg (by omega), if_neg (by omega)]

end Fields

/-- A block that does not reach over the end of the memory is stored at consecutive addresses. -/
lemma putBlock_eq {cb n : ℕ} (b : ℕ → Byte) (h : cb + n ≤ 65536) (m : ℕ → Byte) :
    putBlock b cb n m = copyBytes b 0 cb n m := by
  induction n generalizing m with
  | zero =>
      funext x
      rw [putBlock, copyBytes_of_not _ _ (by omega)]
  | succ n ih =>
      rw [putBlock, ih (by omega), Nat.mod_eq_of_lt (by omega)]
      funext x
      by_cases hx : cb ≤ x ∧ x < cb + n
      · rw [copyBytes, copyBytes, if_pos hx, if_pos (by omega)]
      · rw [copyBytes_of_not _ _ (by omega)]
        by_cases hn : x = cb + n
        · rw [hn, Function.update_self, copyBytes, if_pos (by omega)]
          congr 1
          omega
        · rw [Function.update_of_ne hn, copyBytes_of_not _ _ (by omega)]

lemma copyBytes_cons (src dst : ℕ → Byte) (p q n : ℕ) :
    copyBytes src (p + 1) (q + 1) n (Function.update dst q (src p)) = copyBytes src p q (n + 1) dst := by
  funext a
  simp only [copyBytes, Function.update_apply]
  split_ifs <;> first | rfl | omega | (congr 1; omega)

/-- The addresses the filing system itself works on: the zero page and the stack, and its tables
and buffers below `$1900`. -/
def Workspace (a : ℕ) : Prop := a < 0x0200 ∨ (0x0d00 ≤ a ∧ a < 0x1900)

instance (a : ℕ) : Decidable (Workspace a) := inferInstanceAs (Decidable (_ ∨ _))

/-- RAM that the filing system itself does not work on. -/
def UserRam (a : ℕ) : Prop := a < 0x8000 ∧ ¬ Workspace a

instance (a : ℕ) : Decidable (UserRam a) := inferInstanceAs (Decidable (_ ∧ _))

/-- Memory that a program may have its data in. -/
def UserData (q n : ℕ) : Prop := ∀ i < n, UserRam (q + i)

instance (q n : ℕ) : Decidable (UserData q n) := inferInstanceAs (Decidable (∀ _ < _, _))

lemma slots_page {p : Byte × Byte} (hp : p ∈ slots) :
    0x12 ≤ ((p.1 >>> 5) + (0x11 : Byte)).toNat ∧ ((p.1 >>> 5) + (0x11 : Byte)).toNat ≤ 0x16 := by
  simp only [slots, List.mem_cons, List.not_mem_nil, or_false] at hp
  rcases hp with rfl | rfl | rfl | rfl | rfl <;> decide

/-! ## The loop -/

/-- A channel that can be read through: it is in use, coherent, and has its own page for buffer. -/
structure Readable (s : State) (p : Byte × Byte) : Prop where
  slot : p ∈ slots
  used : s.Used p
  coherent : Coherent s (s.chan p.1)
  page : (s.chan p.1).page = (p.1 >>> 5) + 0x11

section Loop

variable {p : Byte × Byte} {s : State}

lemma Readable.buffer_workspace (h : Readable s p) {i : ℕ} (hi : i < 256) :
    Workspace ((s.chan p.1).buffer + i) := by
  obtain ⟨h1, h2⟩ := slots_page h.slot
  rw [Chan.buffer, h.page, Workspace]
  omega

lemma Readable.of_keeps {s' : State} (h : Readable s p) (hk : Keeps p.1 s s')
    (hc : Coherent s' (s'.chan p.1)) : Readable s' p := by
  obtain ⟨m, d, c, f, x, o, he⟩ := hk.frame
  refine ⟨h.slot, ?_, hc, hk.same.page.trans h.page⟩
  rw [he]
  exact h.used

/-- Memory that is changed outside the buffer changes nothing that is read. -/
lemma Readable.withMem (h : Readable s p) {m : ℕ → Byte}
    (hm : ∀ i < 256, m ((s.chan p.1).buffer + i) = s.mem ((s.chan p.1).buffer + i)) :
    Readable { s with mem := m } p ∧ ({ s with mem := m } : State).stream p.1 = s.stream p.1 := by
  set s' : State := { s with mem := m } with hs'
  refine ⟨⟨h.slot, h.used, h.coherent.congr ⟨rfl, rfl, rfl, rfl, rfl⟩ rfl hm, h.page⟩, ?_⟩
  rw [State.stream, State.stream, Stream.mk.injEq]
  refine ⟨funext fun i => ?_, rfl, rfl, rfl⟩
  show s'.shown (s.chan p.1) i = s.shown (s.chan p.1) i
  have hbyte : s'.mem _ = s.mem _ := hm _ (Nat.mod_lt i (by decide))
  rw [State.shown, State.shown, hbyte]
  rfl

/-- A byte stored outside the workspace changes nothing that is read. -/
lemma Readable.store (h : Readable s p) {q : ℕ} (hq : ¬ Workspace q) (v : Byte) :
    Readable { s with mem := Function.update s.mem q v } p ∧
      ({ s with mem := Function.update s.mem q v } : State).stream p.1 = s.stream p.1 := by
  refine h.withMem fun i hi => Function.update_of_ne ?_ _ _
  rintro rfl
  exact hq (h.buffer_workspace hi)

/-- The memory outside the workspace. -/
def SameOutside (m m' : ℕ → Byte) : Prop := ∀ x, ¬ Workspace x → m' x = m x

lemma Readable.sameOutside {s' : State} (h : Readable s p) (hk : Keeps p.1 s s') :
    SameOutside s.mem s'.mem := by
  intro x hx
  refine hk.mem x ?_
  by_contra hin
  refine hx ?_
  have he : x = (s.chan p.1).buffer + (x - (s.chan p.1).buffer) := by omega
  rw [he]
  exact h.buffer_workspace (by omega)

/-- What `n` bytes left to transfer lead to, with `k` of them left in the file. -/
structure Transferred (s : State) (p : Byte × Byte) (b : ℕ → Byte) (n k : ℕ) (s' : State)
    (b' : ℕ → Byte) : Prop where
  handle : b' 0 = b 0
  address : leVal 4 1 b' = (leVal 4 1 b + k) % 4294967296
  count : leVal 4 5 b' = (4294967296 - (n - k)) % 4294967296
  pointer : leVal 4 9 b' = (leVal 4 9 b + k) % 4294967296
  ptr : (s'.chan p.1).ptr.val = (s.chan p.1).ptr.val + k
  mem : SameOutside (copyBytes (s.shown (s.chan p.1)) (s.chan p.1).ptr.val (leVal 4 1 b % 65536) k s.mem)
    s'.mem

/-- At the end of the file nothing is transferred. -/
lemma transferByte_end {a : Byte} (ha : a = 3 ∨ a = 4) (hr : Readable s p) (htold : ¬ (s.chan p.1).Told)
    {b : ℕ → Byte} (hb : b 0 = handleOf p) (hend : (s.chan p.1).ext.val ≤ (s.chan p.1).ptr.val) :
    ∃ s', (transferByte a b).run s = .ok (true, b) s' ∧ SameOutside s.mem s'.mem ∧
      (s'.chan p.1).ptr = (s.chan p.1).ptr := by
  have hnot : ¬ (s.stream p.1).ptr < (s.stream p.1).length := not_lt.2 hend
  have hfalse : ¬ (s.stream p.1).told = true := fun h => htold (of_decide_eq_true h)
  obtain ⟨s', hrun, hk, -, hstream⟩ := bgetv_reads hr.slot hr.used hr.coherent
  rw [Stream.get, if_neg hnot, if_neg hfalse] at hrun hstream
  refine ⟨s', ?_, hr.sameOutside hk, Num24.val_injective (congrArg Stream.ptr hstream)⟩
  rw [transferByte, if_pos ha, hb, Prog.run_bind_ok hrun]
  rfl

/-- Before it a byte is stored, and the address moves on. -/
lemma transferByte_get {a : Byte} (ha : a = 3 ∨ a = 4) (hr : Readable s p)
    {b : ℕ → Byte} (hb : b 0 = handleOf p) (hlt : (s.chan p.1).ptr.val < (s.chan p.1).ext.val)
    (hplace : ¬ Workspace (leVal 4 1 b % 65536)) :
    ∃ s', (transferByte a b).run s = .ok (false, (incBytes 4 1 b).1) s' ∧ Readable s' p ∧
      s'.stream p.1 = { s.stream p.1 with ptr := (s.chan p.1).ptr.val + 1 } ∧
      ∀ x, ¬ Workspace x → s'.mem x = Function.update s.mem (leVal 4 1 b % 65536)
        (s.shown (s.chan p.1) (s.chan p.1).ptr.val) x := by
  have hget : (s.stream p.1).ptr < (s.stream p.1).length := hlt
  obtain ⟨s', hrun, hk, hc, hstream⟩ := bgetv_reads hr.slot hr.used hr.coherent
  rw [Stream.get, if_pos hget] at hrun hstream
  set v := (s.stream p.1).data (s.stream p.1).ptr with hv
  rw [← blockDest_eq] at hplace ⊢
  obtain ⟨hr', hst'⟩ := (hr.of_keeps hk hc).store hplace v
  refine ⟨{ s' with mem := Function.update s'.mem (blockDest b) v }, ?_, hr', hst'.trans hstream,
    fun x hx => ?_⟩
  · rw [transferByte, if_pos ha, hb, Prog.run_bind_ok hrun]
    rfl
  · show Function.update s'.mem (blockDest b) v x = _
    rw [Function.update_apply, Function.update_apply, hr.sameOutside hk x hx]
    rfl

/-- The block after a round of the loop. -/
def stepBlock (b : ℕ → Byte) : ℕ → Byte := (incBytes 4 9 (incBytes 4 1 (incBytes 4 5 b).1).1).1

lemma stepBlock_zero (b : ℕ → Byte) : stepBlock b 0 = b 0 := by
  rw [stepBlock, incBytes_of_not _ (by omega), incBytes_of_not _ (by omega), incBytes_of_not _ (by omega)]

lemma stepBlock_address (b : ℕ → Byte) :
    leVal 4 1 (stepBlock b) = (leVal 4 1 b + 1) % 4294967296 := by
  rw [stepBlock, leVal_inc_of_ne _ (by omega), leVal_inc, leVal_inc_of_ne _ (by omega)]

lemma stepBlock_count (b : ℕ → Byte) : leVal 4 5 (stepBlock b) = (leVal 4 5 b + 1) % 4294967296 := by
  rw [stepBlock, leVal_inc_of_ne _ (by omega), leVal_inc_of_ne _ (by omega), leVal_inc]

lemma stepBlock_pointer (b : ℕ → Byte) :
    leVal 4 9 (stepBlock b) = (leVal 4 9 b + 1) % 4294967296 := by
  rw [stepBlock, leVal_inc, leVal_inc_of_ne _ (by omega), leVal_inc_of_ne _ (by omega)]

/-- One byte and then `k` more are `k + 1` bytes. -/
lemma Transferred.step {s₂ s' : State} {b b' : ℕ → Byte} {n k : ℕ}
    (hstream : s₂.stream p.1 = { s.stream p.1 with ptr := (s.chan p.1).ptr.val + 1 })
    (hmem : ∀ x, ¬ Workspace x → s₂.mem x = Function.update s.mem (leVal 4 1 b % 65536)
      (s.shown (s.chan p.1) (s.chan p.1).ptr.val) x)
    (hfree : ∀ i < k + 1, ¬ Workspace ((leVal 4 1 b + i) % 65536))
    (h : Transferred s₂ p (stepBlock b) n k s' b') : Transferred s p b (n + 1) (k + 1) s' b' := by
  have hptr : (s₂.chan p.1).ptr.val = (s.chan p.1).ptr.val + 1 := congrArg Stream.ptr hstream
  have hdata : s₂.shown (s₂.chan p.1) = s.shown (s.chan p.1) := congrArg Stream.data hstream
  refine ⟨h.handle.trans (stepBlock_zero b), ?_, ?_, ?_, ?_, fun x hx => ?_⟩
  · rw [h.address, stepBlock_address]
    omega
  · rw [h.count]
    omega
  · rw [h.pointer, stepBlock_pointer]
    omega
  · rw [h.ptr, hptr]
    omega
  · have hnext : k = 0 ∨ leVal 4 1 (stepBlock b) % 65536 = leVal 4 1 b % 65536 + 1 := by
      -- were the next address 0, it would be in the workspace
      rw [stepBlock_address]
      by_contra hne
      rw [not_or] at hne
      refine hfree 1 (by omega) (Or.inl ?_)
      omega
    rw [h.mem x hx, hdata, hptr, ← copyBytes_cons]
    rcases hnext with hk0 | hnext
    · rw [hk0, copyBytes_of_not _ _ (by omega), copyBytes_of_not _ _ (by omega)]
      exact hmem x hx
    · rw [hnext, copyBytes, copyBytes, hmem x hx]

/-- The loop reads as many bytes as it should, or up to the end of the file. -/
lemma gbpbLoop_get {a : Byte} (ha : a = 3 ∨ a = 4) (n : ℕ) : ∀ (s : State) (b : ℕ → Byte),
    Readable s p → ¬ (s.chan p.1).Told → b 0 = handleOf p → leVal 4 5 b + n + 1 = 4294967296 →
    (∀ i < min n ((s.chan p.1).ext.val - (s.chan p.1).ptr.val),
      ¬ Workspace ((leVal 4 1 b + i) % 65536)) →
    ∃ s' b', (gbpbLoop a (n + 1) b).run s
        = .ok (decide (min n ((s.chan p.1).ext.val - (s.chan p.1).ptr.val) < n), b') s' ∧
      Transferred s p b n (min n ((s.chan p.1).ext.val - (s.chan p.1).ptr.val)) s' b' := by
  induction n with
  | zero =>
      intro s b hr htold hb hcount hfree
      have hz : (incBytes 4 5 b).2 = true := (incBytes_val b).2.2 (by omega)
      have hlt1 := leVal_lt 4 1 b
      have hlt9 := leVal_lt 4 9 b
      refine ⟨s, (incBytes 4 5 b).1, ?_, ?_⟩
      · rw [gbpbLoop]
        simp only [hz, if_true]
        simp
      · rw [Nat.zero_min]
        refine ⟨incBytes_of_not b (by omega), ?_, ?_, ?_, rfl, fun x _ => ?_⟩
        · rw [leVal_inc_of_ne b (by omega)]
          omega
        · rw [leVal_inc]
          omega
        · rw [leVal_inc_of_ne b (by omega)]
          omega
        · exact (copyBytes_of_not _ _ (by omega)).symm
  | succ n ih =>
      intro s b hr htold hb hcount hfree
      have hz : ¬ (incBytes 4 5 b).2 = true := fun h => by
        have := (incBytes_val b).2.1 h
        omega
      have hhandle : (incBytes 4 5 b).1 0 = handleOf p := (incBytes_of_not b (by omega)).trans hb
      have haddr : leVal 4 1 (incBytes 4 5 b).1 = leVal 4 1 b := leVal_inc_of_ne b (by omega)
      have hloop : (gbpbLoop a (n + 1 + 1) b).run s = (do
          let r ← transferByte a (incBytes 4 5 b).1
          if r.1 then pure r else gbpbLoop a (n + 1) (incBytes 4 9 r.2).1 : Routine _).run s := by
        rw [gbpbLoop]
        simp only [hz]
        rfl
      rw [hloop]
      by_cases hlt : (s.chan p.1).ptr.val < (s.chan p.1).ext.val
      · have hk : min (n + 1) ((s.chan p.1).ext.val - (s.chan p.1).ptr.val)
            = min n ((s.chan p.1).ext.val - ((s.chan p.1).ptr.val + 1)) + 1 := by omega
        rw [hk] at hfree ⊢
        obtain ⟨s₂, hrun, hr₂, hstream, hmem⟩ := transferByte_get ha hr hhandle hlt
          (by rw [haddr]; exact hfree 0 (Nat.succ_pos _))
        rw [haddr] at hmem
        have hptr₂ : (s₂.chan p.1).ptr.val = (s.chan p.1).ptr.val + 1 := congrArg Stream.ptr hstream
        have hext₂ : (s₂.chan p.1).ext.val = (s.chan p.1).ext.val := congrArg Stream.length hstream
        have htold₂ : ¬ (s₂.chan p.1).Told := fun h =>
          htold (of_decide_eq_true ((congrArg Stream.told hstream).symm.trans (decide_eq_true h)))
        have hih := ih s₂ (stepBlock b) hr₂ htold₂ ((stepBlock_zero b).trans hb)
          (by rw [stepBlock_count]; omega)
        rw [hptr₂, hext₂] at hih
        obtain ⟨s', b', hrest, hdone⟩ := hih fun i hi => by
          have hnext := hfree (i + 1) (Nat.succ_lt_succ hi)
          have hmod : (leVal 4 1 (stepBlock b) + i) % 65536 = (leVal 4 1 b + (i + 1)) % 65536 := by
            rw [stepBlock_address]
            omega
          rwa [hmod]
        refine ⟨s', b', ?_, hdone.step hstream hmem hfree⟩
        unfold stepBlock at hrest
        rw [Prog.run_bind_ok hrun]
        simpa using hrest
      · have hk0 : (s.chan p.1).ext.val - (s.chan p.1).ptr.val = 0 := Nat.sub_eq_zero_of_le (not_lt.1 hlt)
        obtain ⟨s', hrun, hmem, hptr⟩ := transferByte_end ha hr htold hhandle (not_lt.1 hlt)
        rw [hk0, Nat.min_zero]
        refine ⟨s', (incBytes 4 5 b).1, ?_, ?_⟩
        · rw [Prog.run_bind_ok hrun]
          simp
        · have hlt1 := leVal_lt 4 1 b
          have hlt9 := leVal_lt 4 9 b
          refine ⟨incBytes_of_not b (by omega), ?_, ?_, ?_, congrArg Num24.val hptr, fun x hx => ?_⟩
          · omega
          · rw [leVal_inc]
            omega
          · rw [leVal_inc_of_ne b (by omega)]
            omega
          · rw [copyBytes_of_not _ _ (by omega)]
            exact hmem x hx

/-! ## The whole call -/

lemma argsReadPtr_run (h : Readable s p) :
    ∃ s', (argsReadPtr (handleOf p)).run s = .ok (s.chan p.1).ptr s' ∧ Readable s' p ∧
      s'.mem = s.mem ∧ s'.stream p.1 = s.stream p.1 := by
  set t : State := { s with filenameParam := s.filenameParam, curDrv := s.curDrv, chanOff := p.1 } with ht
  refine ⟨t, ?_, h.of_keeps (keeps_scratch p.1 s _ _ _) (h.coherent.scratch _ _ _), rfl, rfl⟩
  rw [argsReadPtr, Prog.run_bind_ok (openHandle_run h.slot h.used), Prog.run_bind_ok (Prog.run_get _)]
  rfl

/-- PTR when the transfer begins: with A=3 it is taken from the block. -/
def startPtr (s : State) (p : Byte × Byte) (a : Byte) (cb : ℕ) : ℕ :=
  if a = 3 then leVal 4 (cb + 9) s.mem else (s.chan p.1).ptr.val

/-- The bytes there are to read. -/
def bytesToRead (s : State) (p : Byte × Byte) (a : Byte) (cb : ℕ) : ℕ :=
  min (leVal 4 (cb + 5) s.mem) ((s.chan p.1).ext.val - startPtr s p a cb)

/-- PTR is set, for the call that asks for it. -/
lemma beginRead_run (h : Readable s p) {a : Byte} (ha : a = 3 ∨ a = 4) {cb : ℕ}
    (hh : s.mem cb = handleOf p) (hptr : a = 3 → leVal 4 (cb + 9) s.mem ≤ (s.chan p.1).ext.val)
    (htold : a = 4 → ¬ (s.chan p.1).Told) :
    ∃ s', (Prog.when (a = 1 ∨ a = 3) (argsWritePtr (s.mem (cb + 0))
          ⟨s.mem (cb + 9), s.mem (cb + 10), s.mem (cb + 11)⟩)).run s = .ok () s' ∧
      Readable s' p ∧ SameOutside s.mem s'.mem ∧
      s'.stream p.1 = { s.stream p.1 with ptr := startPtr s p a cb, told := false } := by
  rcases ha with rfl | rfl
  · have hle := hptr rfl
    have hbound := (s.chan p.1).ext.val_lt
    have hval : leVal 4 (cb + 9) s.mem = (s.mem (cb + 9)).toNat + 256 * ((s.mem (cb + 10)).toNat +
        256 * ((s.mem (cb + 11)).toNat + 256 * ((s.mem (cb + 12)).toNat + 256 * 0))) := rfl
    have hnum : (⟨s.mem (cb + 9), s.mem (cb + 10), s.mem (cb + 11)⟩ : Num24).val
        = leVal 4 (cb + 9) s.mem := by
      rw [hval, Num24.val]
      simp only
      omega
    obtain ⟨s', hrun, hk, hc, hstream⟩ := argsWritePtr_reads h.slot h.used h.coherent.backed
      (hnum.trans_le hle)
    refine ⟨s', ?_, h.of_keeps hk hc, h.sameOutside hk, ?_⟩
    · rw [Prog.when, if_pos (Or.inr rfl), Nat.add_zero, hh, hrun]
    · rw [hstream, Stream.seek, hnum, startPtr, if_pos rfl]
  · refine ⟨s, ?_, h, fun _ _ => rfl, ?_⟩
    · rw [Prog.when, if_neg (by decide)]
      rfl
    · rw [startPtr, if_neg (by decide), State.stream, decide_eq_false (htold rfl)]

/-- What a reading call leaves: the bytes in memory, the block moved on by as many as were read, and
PTR; outside the workspace nothing else is changed. -/
structure BlockRead (s : State) (p : Byte × Byte) (cb q k : ℕ) (s' : State) : Prop where
  handle : s'.mem cb = s.mem cb
  address : leVal 4 (cb + 1) s'.mem = (leVal 4 (cb + 1) s.mem + k) % 4294967296
  count : leVal 4 (cb + 5) s'.mem = leVal 4 (cb + 5) s.mem - k
  pointer : leVal 4 (cb + 9) s'.mem = q + k
  ptr : (s'.chan p.1).ptr.val = q + k
  mem : ∀ x, ¬ Workspace x → ¬ (cb ≤ x ∧ x < cb + 13) → s'.mem x =
    copyBytes (s.shown (s.chan p.1)) q (leVal 4 (cb + 1) s.mem % 65536) k s.mem x

section Copies

variable {b m : ℕ → Byte} {cb x : ℕ}

/-- The copy of the block that the transfer starts from: PTR put into it, the number inverted. -/
def begunBlock (b : ℕ → Byte) (ptr : Num24) : ℕ → Byte := notBytes 4 5 (putPtr b ptr)

/-- The copy that is written back: the number as it is again. -/
def endedBlock (b : ℕ → Byte) : ℕ → Byte := (incBytes 4 5 (notBytes 4 5 b)).1

lemma begunBlock_zero (ptr : Num24) : begunBlock b ptr 0 = b 0 := by
  rw [begunBlock, notBytes_of_not _ (by omega), putPtr_of_lt _ _ (by omega)]

lemma begunBlock_address (ptr : Num24) : leVal 4 1 (begunBlock b ptr) = leVal 4 1 b := by
  rw [begunBlock, leVal_not_of_ne _ (by omega), leVal_congr fun i _ hi => putPtr_of_lt b _ (by omega)]

lemma begunBlock_count (ptr : Num24) : leVal 4 5 (begunBlock b ptr) + leVal 4 5 b + 1 = 4294967296 := by
  have hsum := notBytes_val (k := 4) (x := 5) (putPtr b ptr)
  rwa [leVal_congr (m := putPtr b _) fun i _ hi => putPtr_of_lt b _ (by omega)] at hsum

lemma begunBlock_pointer (ptr : Num24) : leVal 4 9 (begunBlock b ptr) = ptr.val := by
  rw [begunBlock, leVal_not_of_ne _ (by omega), putPtr_val]

lemma endedBlock_zero : endedBlock b 0 = b 0 := by
  rw [endedBlock, incBytes_of_not _ (by omega), notBytes_of_not _ (by omega)]

lemma endedBlock_of_ne (h : x + 4 ≤ 5 ∨ 9 ≤ x) : leVal 4 x (endedBlock b) = leVal 4 x b := by
  rw [endedBlock, leVal_inc_of_ne _ (by omega), leVal_not_of_ne _ (by omega)]

lemma endedBlock_count : leVal 4 5 (endedBlock b) = (4294967296 - leVal 4 5 b) % 4294967296 := by
  have hsum : leVal 4 5 (notBytes 4 5 b) + leVal 4 5 b + 1 = 4294967296 := notBytes_val b
  rw [endedBlock, leVal_inc]
  congr 1
  omega

/-- A field of the block as it is read. -/
lemma leVal_block (hcb : cb + 13 ≤ 65536) (hx : x + 4 ≤ 13) :
    leVal 4 x (fun i => m ((cb + i) % 65536)) = leVal 4 (cb + x) m := by
  rw [← leVal_shift]
  exact leVal_congr fun i _ hi => congrArg m (Nat.mod_eq_of_lt (by omega))

/-- A byte of the block that is written back. -/
lemma putBlock_apply (hcb : cb + 13 ≤ 65536) (hx : x < 13) : putBlock b cb 13 m (cb + x) = b x := by
  rw [putBlock_eq b hcb m, copyBytes_apply b m 0 cb hx, Nat.zero_add]

/-- A field of it. -/
lemma leVal_putBlock (hcb : cb + 13 ≤ 65536) (hx : x + 4 ≤ 13) :
    leVal 4 (cb + x) (putBlock b cb 13 m) = leVal 4 x b := by
  rw [← leVal_shift]
  exact leVal_congr fun i _ hi => putBlock_apply hcb (by omega)

end Copies

/-- The call from the copy of the block on. -/
lemma gbpbCopied_reads (h : Readable s p) {a : Byte} (ha : a = 3 ∨ a = 4) {cb : ℕ} (hcb : cb + 13 ≤ 65536)
    (hh : s.mem cb = handleOf p) (hptr : a = 3 → leVal 4 (cb + 9) s.mem ≤ (s.chan p.1).ext.val)
    (htold : a = 4 → ¬ (s.chan p.1).Told)
    (hfree : ∀ i < bytesToRead s p a cb, ¬ Workspace ((leVal 4 (cb + 1) s.mem + i) % 65536)) :
    ∃ s', (gbpbCopied a cb).run s = .ok (decide (bytesToRead s p a cb < leVal 4 (cb + 5) s.mem)) s' ∧
      BlockRead s p cb (startPtr s p a cb) (bytesToRead s p a cb) s' := by
  obtain ⟨s₁, hrun₁, hr₁, hmem₁, hst₁⟩ := beginRead_run h ha hh hptr htold
  obtain ⟨s₂, hrun₂, hr₂, hmem₂, hst₂⟩ := argsReadPtr_run hr₁
  set b : ℕ → Byte := fun i => s.mem ((cb + i) % 65536) with hb
  have hbyte : ∀ i < 13, b i = s.mem (cb + i) := fun i hi => congrArg s.mem (Nat.mod_eq_of_lt (by omega))
  set q := startPtr s p a cb with hq
  set N := leVal 4 (cb + 5) s.mem with hN
  have hstream := hst₂.trans hst₁
  have hptr₁ : (s₁.chan p.1).ptr.val = q := congrArg Stream.ptr hst₁
  have hptr₂ : (s₂.chan p.1).ptr.val = q := congrArg Stream.ptr hstream
  have hext₂ : (s₂.chan p.1).ext.val = (s.chan p.1).ext.val := congrArg Stream.length hstream
  have htold₂ : ¬ (s₂.chan p.1).Told := fun ht => by
    have hfalse := congrArg Stream.told hstream
    cases hfalse.symm.trans (decide_eq_true ht)
  have hdata : s₂.shown (s₂.chan p.1) = s.shown (s.chan p.1) := congrArg Stream.data hstream
  -- the copy of the block that the loop starts from
  set b₀ := begunBlock b (s₁.chan p.1).ptr with hb₀
  have hzero : b₀ 0 = handleOf p := (begunBlock_zero _).trans ((hbyte 0 (by omega)).trans hh)
  have haddr : leVal 4 1 b₀ = leVal 4 (cb + 1) s.mem :=
    (begunBlock_address _).trans (leVal_block hcb (by omega))
  have hnum : leVal 4 5 b = N := leVal_block hcb (by omega)
  have hcount : leVal 4 5 b₀ + N + 1 = 4294967296 := hnum ▸ begunBlock_count _
  have hpointer : leVal 4 9 b₀ = q := (begunBlock_pointer _).trans hptr₁
  have hk : bytesToRead s p a cb = min N ((s₂.chan p.1).ext.val - (s₂.chan p.1).ptr.val) := by
    rw [bytesToRead, hptr₂, hext₂]
  rw [hk] at hfree ⊢
  obtain ⟨s₃, b', hrun₃, hdone⟩ := gbpbLoop_get ha N s₂ b₀ hr₂ htold₂ hzero hcount (by rwa [haddr])
  set k := min N ((s₂.chan p.1).ext.val - (s₂.chan p.1).ptr.val) with hkdef
  set m := Function.update (Function.update s₃.mem 0xb4 (BitVec.ofNat 8 cb)) 0xb5
    (BitVec.ofNat 8 (cb / 256)) with hm
  refine ⟨{ s₃ with mem := putBlock (endedBlock b') cb 13 m }, ?_, ?_, ?_, ?_, ?_, ?_, fun x hx hout => ?_⟩
  · have hrun₁' : (Prog.when (a = 1 ∨ a = 3) (argsWritePtr (b 0) ⟨b 9, b 10, b 11⟩)).run s = .ok () s₁ := by
      rw [hbyte 0 (by omega), hbyte 9 (by omega), hbyte 10 (by omega), hbyte 11 (by omega)]
      exact hrun₁
    have hrun₂' : (argsReadPtr (b 0)).run s₁ = .ok (s₁.chan p.1).ptr s₂ := by
      rw [hbyte 0 (by omega), Nat.add_zero, hh]
      exact hrun₂
    rw [gbpbCopied, Prog.run_bind_ok (Prog.run_get s)]
    simp only [← hb]
    rw [Prog.run_bind_ok hrun₁', Prog.run_bind_ok hrun₂', hnum, ← begunBlock, Prog.run_bind_ok hrun₃]
    rfl
  · have hback : putBlock (endedBlock b') cb 13 m cb = endedBlock b' 0 :=
      putBlock_apply (x := 0) hcb (by omega)
    exact hback.trans (endedBlock_zero.trans (hdone.handle.trans (hzero.trans hh.symm)))
  · rw [leVal_putBlock hcb (by omega), endedBlock_of_ne (by omega), hdone.address, haddr]
  · have hN4 : N < 4294967296 := leVal_lt 4 (cb + 5) s.mem
    rw [leVal_putBlock hcb (by omega), endedBlock_count, hdone.count]
    omega
  · have hlt := (s₁.chan p.1).ptr.val_lt
    have hbound := (s.chan p.1).ext.val_lt
    rw [leVal_putBlock hcb (by omega), endedBlock_of_ne (by omega), hdone.pointer, hpointer]
    omega
  · rw [← hptr₂]
    exact hdone.ptr
  · have hmem := hdone.mem x hx
    have hsame : s₂.mem x = s.mem x := by rw [hmem₂, hmem₁ x hx]
    have hm4 : m x = s₃.mem x := by
      rw [hm, Function.update_of_ne fun he => hx (Or.inl (by omega)),
        Function.update_of_ne fun he => hx (Or.inl (by omega))]
    show putBlock (endedBlock b') cb 13 m x = _
    rw [putBlock_eq _ hcb, copyBytes_of_not _ _ (by omega), hm4, hmem, hdata, hptr₂, haddr, copyBytes,
      copyBytes, hsame]

/-- **OSGBPB reads what OSBGET would.**  For every control block in RAM outside the workspace of the filing
system with the handle of a channel that can be read through, A=3 with a pointer not above EXT or A=4 with
the end of the file not told, and every number of bytes: unless a byte would be stored in the workspace or
outside RAM, the call stores as many bytes of the file as it was asked for or as there are from PTR on, at
consecutive addresses, and writes the block back with the address and PTR moved on and the number
of bytes that are missing; the carry is set exactly if there are any. -/
theorem gbpb_reads (h : Readable s p) {a : Byte} (ha : a = 3 ∨ a = 4) {cb : ℕ}
    (hblock : ∀ i < 13, UserRam (cb + i)) (hh : s.mem cb = handleOf p)
    (hptr : a = 3 → leVal 4 (cb + 9) s.mem ≤ (s.chan p.1).ext.val) (htold : a = 4 → ¬ (s.chan p.1).Told)
    (hfree : ∀ i < bytesToRead s p a cb, UserRam ((leVal 4 (cb + 1) s.mem + i) % 65536)) :
    ∃ s', (gbpb a cb).run s = .ok (decide (bytesToRead s p a cb < leVal 4 (cb + 5) s.mem)) s' ∧
      BlockRead s p cb (startPtr s p a cb) (bytesToRead s p a cb) s' := by
  set m := Function.update (Function.update s.mem 0xb4 (BitVec.ofNat 8 cb)) 0xb5 (BitVec.ofNat 8 (cb / 256))
    with hm
  have hout : ∀ x, ¬ Workspace x → m x = s.mem x := fun x hx => by
    rw [hm, Function.update_of_ne fun he => hx (Or.inl (by omega)),
      Function.update_of_ne fun he => hx (Or.inl (by omega))]
  have hbuffer : ∀ i < 256, m ((s.chan p.1).buffer + i) = s.mem ((s.chan p.1).buffer + i) := fun i hi => by
    have hge : 0x1200 ≤ (s.chan p.1).buffer := by
      obtain ⟨h1, -⟩ := slots_page h.slot
      rw [Chan.buffer, h.page]
      omega
    rw [hm, Function.update_of_ne (by omega), Function.update_of_ne (by omega)]
  obtain ⟨ht, hstream⟩ := h.withMem hbuffer
  set t : State := { s with mem := m } with htdef
  have hfield : ∀ x, x + 4 ≤ 13 → leVal 4 (cb + x) t.mem = leVal 4 (cb + x) s.mem := fun x hx =>
    leVal_congr fun i h1 h2 => by
      obtain ⟨j, rfl⟩ := Nat.exists_eq_add_of_le (show cb ≤ i by omega)
      exact hout _ (hblock j (by omega)).2
  have hstart : startPtr t p a cb = startPtr s p a cb := by rw [startPtr, startPtr, hfield 9 (by omega)]
  have hbytes : bytesToRead t p a cb = bytesToRead s p a cb := by
    rw [bytesToRead, bytesToRead, hfield 5 (by omega), hstart]
  have hlast := (hblock 12 (by omega)).1
  have hcb := hout cb (hblock 0 (by omega)).2
  obtain ⟨s', hrun, hread⟩ := gbpbCopied_reads ht ha (show cb + 13 ≤ 65536 by omega) (hcb.trans hh)
    (fun h3 => by rw [hfield 9 (by omega)]; exact hptr h3) htold fun i hi => by
      rw [hbytes] at hi
      rw [hfield 1 (by omega)]
      exact (hfree i hi).2
  rw [hbytes, hfield 5 (by omega)] at hrun
  rw [hbytes, hstart] at hread
  refine ⟨s', hrun, hread.handle.trans hcb, ?_, ?_, hread.pointer, hread.ptr, fun x hx hnot => ?_⟩
  · rw [hread.address, hfield 1 (by omega)]
  · rw [hread.count, hfield 5 (by omega)]
  · have hshown : t.shown (t.chan p.1) = s.shown (s.chan p.1) := congrArg Stream.data hstream
    have hsame : t.mem x = s.mem x := hout x hx
    rw [hread.mem x hx hnot, hfield 1 (by omega), hshown, copyBytes, copyBytes, hsame]

end Loop

/-- The file of two bytes is open with the handle `$11`, and a control block at `$2000` asks for `n`
bytes to be stored from an address of page `page` on. -/
def asking (lo page n : Byte) : State :=
  { twoBytesOpen with
    mem := fun a => if a = 0x2000 then 0x11 else if a = 0x2001 then lo else if a = 0x2002 then page
      else if a = 0x2005 then n else 0 }

lemma asking_readable (lo page n : Byte) : Readable (asking lo page n) (0x20, 0x80) := by
  have hslot : ((0x20, 0x80) : Byte × Byte) ∈ slots := by simp [slots]
  have hused : twoBytesOpen.Used (0x20, 0x80) := by decide
  obtain ⟨hc, -, -, hpage⟩ := (inputs_reachable twoBytesOpen_reachable).input _ hslot hused
  -- nothing has been read yet, so the buffer does not matter
  have hsec : (twoBytesOpen.chan 0x20).sec = 0 := by decide
  exact ⟨hslot, hused, ⟨hc.start_ge, hc.inside, hc.ptr_le, hc.hasDisk, hc.valid,
    fun _ hz => absurd hsec hz, hc.dirty⟩, hpage⟩

/-- Three bytes to `$3000`: two are read, and the carry is set. -/
theorem asking_three : ∃ s', (gbpb 4 0x2000).run (asking 0 0x30 3) = .ok true s' ∧
    BlockRead (asking 0 0x30 3) (0x20, 0x80) 0x2000 0 2 s' := by
  refine gbpb_reads (asking_readable 0 0x30 3) (Or.inr rfl) (by decide) rfl (by decide) (fun _ => by decide)
    fun i hi => ?_
  have hlen : bytesToRead (asking 0 0x30 3) (0x20, 0x80) 4 0x2000 = 2 := by decide
  rw [hlen] at hi
  interval_cases i <;> decide

/-- The file of two bytes is open with the handle `$11`, and a control block at `$b0` asks for one byte to be
stored at `$3000`. -/
def askingAtB0 : State :=
  { twoBytesOpen with
    mem := fun a => if a = 0xb0 then 0x11 else if a = 0xb2 then 0x30 else if a = 0xb5 then 1 else 0 }

/-- Two bytes to `$1201`: the first one is stored over the second, in the buffer of the channel.  And for the
block at `$b0` no byte is read: the routine has its own address where the number of bytes was. -/
theorem asking_ontoBuffer :
    (¬ ∃ c s', (gbpb 4 0x2000).run (asking 1 0x12 2) = .ok c s' ∧
      ∀ i < 2, s'.mem (0x1201 + i) = (asking 1 0x12 2).shown ((asking 1 0x12 2).chan 0x20) i) ∧
    ¬ ∃ c s', (gbpb 4 0xb0).run askingAtB0 = .ok c s' ∧
      s'.mem 0x3000 = askingAtB0.shown (askingAtB0.chan 0x20) 0 := by
  constructor
  · rintro ⟨c, s', hrun, hbytes⟩
    have hstored : ((gbpb 4 0x2000).run (asking 1 0x12 2)).state.mem 0x1202 = 0x61 := by decide +kernel
    have hfile : (asking 1 0x12 2).shown ((asking 1 0x12 2).chan 0x20) 1 = 0x62 := by decide +kernel
    rw [hrun] at hstored
    have h1 := hbytes 1 (by decide)
    rw [hfile] at h1
    exact absurd (hstored.symm.trans h1) (by decide)
  · rintro ⟨c, s', hrun, hbyte⟩
    have hstored : ((gbpb 4 0xb0).run askingAtB0).state.mem 0x3000 = 0 := by decide +kernel
    have hfile : askingAtB0.shown (askingAtB0.chan 0x20) 0 = 0x61 := by decide +kernel
    rw [hrun] at hstored
    rw [hfile] at hbyte
    exact absurd (hstored.symm.trans hbyte) (by decide)

end Udfs.Rom
