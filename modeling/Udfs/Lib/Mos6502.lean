import Udfs.Lib.Byte

/-!
# The 6502: the stack, copies and jumps

The instructions of the processor that move bytes between its registers, the stack and memory, count
and jump, over a program that is given as a list of instructions with their addresses.  A block of the
program is run by running its instructions one after the other.
-/

namespace Udfs.Mos6502

/-! ## The processor -/

/-- The registers, and the memory.  The flags N and Z are kept as the byte that they tell about. -/
structure Cpu where
  a : Byte
  x : Byte
  y : Byte
  s : Byte
  pc : Word
  nz : Byte
  mem : Word → Byte

/-- The address of a byte of the stack. -/
def stackAt (i : Byte) : Word := 0x0100 + i.setWidth 16

namespace Cpu

def push (c : Cpu) (v : Byte) : Cpu := { c with s := c.s - 1, mem := Function.update c.mem (stackAt c.s) v }

/-- The byte that is pulled next. -/
def top (c : Cpu) : Byte := c.mem (stackAt (c.s + 1))

def pull (c : Cpu) : Cpu := { c with s := c.s + 1 }

end Cpu

inductive Instr where
  | pha
  | pla
  | tax
  | tay
  | txa
  | tya
  | tsx
  | dex
  | dey
  | ldaImm (v : Byte)
  | ldyImm (v : Byte)
  | ldaAbsX (w : Word)
  | staAbsX (w : Word)
  | bne (w : Word)
  | jmp (w : Word)
  | jsr (w : Word)
  | rts
deriving DecidableEq, Repr

namespace Instr

def size : Instr → ℕ
  | ldaImm _ => 2
  | ldyImm _ => 2
  | bne _ => 2
  | ldaAbsX _ => 3
  | staAbsX _ => 3
  | jmp _ => 3
  | jsr _ => 3
  | _ => 1

/-- What an instruction does, with `pc` behind it. -/
def exec : Instr → Cpu → Cpu
  | pha, c => c.push c.a
  | pla, c => { c.pull with a := c.top, nz := c.top }
  | tax, c => { c with x := c.a, nz := c.a }
  | tay, c => { c with y := c.a, nz := c.a }
  | txa, c => { c with a := c.x, nz := c.x }
  | tya, c => { c with a := c.y, nz := c.y }
  | tsx, c => { c with x := c.s, nz := c.s }
  | dex, c => { c with x := c.x - 1, nz := c.x - 1 }
  | dey, c => { c with y := c.y - 1, nz := c.y - 1 }
  | ldaImm v, c => { c with a := v, nz := v }
  | ldyImm v, c => { c with y := v, nz := v }
  | ldaAbsX w, c => { c with a := c.mem (w + c.x.setWidth 16), nz := c.mem (w + c.x.setWidth 16) }
  | staAbsX w, c => { c with mem := Function.update c.mem (w + c.x.setWidth 16) c.a }
  | bne w, c => { c with pc := if c.nz = 0 then c.pc else w }
  | jmp w, c => { c with pc := w }
  | jsr w, c => { (c.push (hiByte (c.pc - 1))).push (loByte (c.pc - 1)) with pc := w }
  | rts, c => { c.pull.pull with pc := wordOf c.top c.pull.top + 1 }

/-- An instruction behind which the next one follows. -/
def Straight : Instr → Bool
  | bne _ => false
  | jmp _ => false
  | jsr _ => false
  | rts => false
  | _ => true

/-- An instruction, as it is fetched. -/
def step (i : Instr) (c : Cpu) : Cpu := i.exec { c with pc := c.pc + BitVec.ofNat 16 i.size }

lemma step_pc {i : Instr} (h : i.Straight = true) (c : Cpu) :
    (i.step c).pc = c.pc + BitVec.ofNat 16 i.size := by
  cases i <;> first | rfl | cases h

end Instr

/-! ## Programs -/

/-- A program: its instructions, with their addresses. -/
abbrev Code : Type := List (Word × Instr)

variable {code : Code} {c c' : Cpu} {l : List Instr}

/-- Steps of a program. -/
def Runs (code : Code) : Cpu → Cpu → Prop :=
  Relation.ReflTransGen fun c c' => ∃ i, code.lookup c.pc = some i ∧ c' = i.step c

lemma Runs.trans {c'' : Cpu} (h : Runs code c c') (h' : Runs code c' c'') : Runs code c c'' :=
  Relation.ReflTransGen.trans h h'

/-- The program has instructions one behind the other. -/
def CodeAt (code : Code) : Word → List Instr → Prop
  | _, [] => True
  | p, i :: l => code.lookup p = some i ∧ CodeAt code (p + BitVec.ofNat 16 i.size) l

instance decidableCodeAt : ∀ (p : Word) (l : List Instr), Decidable (CodeAt code p l)
  | _, [] => isTrue trivial
  | p, i :: l =>
      have := decidableCodeAt (p + BitVec.ofNat 16 i.size) l
      inferInstanceAs (Decidable (_ ∧ _))

/-- Instructions one after the other. -/
def steps : List Instr → Cpu → Cpu
  | [], c => c
  | i :: l, c => steps l (i.step c)

/-- **A block**: its instructions are run one after the other; only the last one may jump. -/
lemma runs_steps (hcode : CodeAt code c.pc l) (hl : ∀ i ∈ l.dropLast, i.Straight = true) :
    Runs code c (steps l c) := by
  induction l generalizing c with
  | nil => exact .refl
  | cons i l ih =>
      obtain ⟨hlookup, hrest⟩ := hcode
      refine Relation.ReflTransGen.head ⟨i, hlookup, rfl⟩ ?_
      cases l with
      | nil => exact .refl
      | cons j l =>
          obtain ⟨hi, hl⟩ := List.forall_mem_cons.1 hl
          refine ih ?_ hl
          rw [Instr.step_pc hi]
          exact hrest

/-! ## The stack below a place -/

/-- The stack pointer when `k` bytes have been pushed. -/
def down (s : Byte) (k : ℕ) : Byte := s - BitVec.ofNat 8 k

/-- The byte of the stack `k` below `s`. -/
def cell (s : Byte) (k : ℕ) : Word := stackAt (down s k)

section Stack

variable {s i j : Byte} {k m n : ℕ}

lemma down_zero (s : Byte) : down s 0 = s := BitVec.sub_zero s

lemma down_sub_one (s : Byte) (k : ℕ) : down s k - 1 = down s (k + 1) := by
  rw [down, down, BitVec.ofNat_add, sub_sub]
  rfl

lemma down_add_one (s : Byte) (k : ℕ) : down s (k + 1) + 1 = down s k := by
  rw [← down_sub_one, sub_add_cancel]

lemma toNat_down (h : k ≤ s.toNat) : (down s k).toNat = s.toNat - k := by
  have hs := byte_lt s
  rw [down, BitVec.toNat_sub, BitVec.toNat_ofNat]
  omega

lemma toNat_stackAt (i : Byte) : (stackAt i).toNat = 0x100 + i.toNat := by
  have hi := byte_lt i
  have hpage : (0x0100 : Word).toNat = 0x100 := rfl
  rw [stackAt, BitVec.toNat_add, BitVec.toNat_setWidth, hpage]
  omega

lemma stackAt_inj : stackAt i = stackAt j ↔ i = j := by
  refine ⟨fun h => BitVec.eq_of_toNat_eq ?_, fun h => h ▸ rfl⟩
  have hnat := congrArg BitVec.toNat h
  rw [toNat_stackAt, toNat_stackAt] at hnat
  omega

lemma cell_inj (hm : m ≤ s.toNat) (hn : n ≤ s.toNat) : cell s m = cell s n ↔ m = n := by
  refine ⟨fun h => ?_, fun h => h ▸ rfl⟩
  have hnat := congrArg BitVec.toNat (stackAt_inj.1 h)
  rw [toNat_down hm, toNat_down hn] at hnat
  omega

/-- What is above `s` is none of the bytes below. -/
lemma stackAt_ne_cell (h : s < i) (hk : k ≤ s.toNat) : stackAt i ≠ cell s k := by
  intro heq
  have hnat := congrArg BitVec.toNat (stackAt_inj.1 heq)
  have hlt : s.toNat < i.toNat := h
  rw [toNat_down hk] at hnat
  omega

/-- A byte of the stack, by an address behind the index register. -/
lemma indexed_cell {w : Word} (hw : w = 0x0100 + BitVec.ofNat 16 n) (hk : n + k ≤ s.toNat) :
    w + (down s (n + k)).setWidth 16 = cell s k := by
  have hs := byte_lt s
  have hpage : (0x0100 : Word).toNat = 0x100 := rfl
  apply BitVec.eq_of_toNat_eq
  rw [cell, toNat_stackAt, hw, BitVec.toNat_add, BitVec.toNat_add, BitVec.toNat_setWidth, toNat_down hk,
    toNat_down (by omega), BitVec.toNat_ofNat, hpage]
  omega

end Stack

end Udfs.Mos6502
