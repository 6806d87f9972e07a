import Udfs.Lib.Mos6502

/-!
# Registers that are kept over a subroutine

A subroutine that begins with `jsr remember_axy` goes on with its registers, and with an address on the
stack that its own `rts` returns to: there the registers are restored and the subroutine is left.  To get
the address under its own return address, `remember_axy` pushes a copy of that and of the registers, and
then moves ten bytes of the stack up by two places.
-/

namespace Udfs.Rom

open Mos6502

/-- `remember_axy`, and the routine at `$8411`. -/
def rememberCode : Code := [
  (0x83e1, .pha),
  (0x83e2, .txa),
  (0x83e3, .pha),
  (0x83e4, .tya),
  (0x83e5, .pha),
  (0x83e6, .ldaImm 0x84),
  (0x83e8, .pha),
  (0x83e9, .ldaImm 0x03),
  (0x83eb, .pha),
  (0x83ec, .ldyImm 0x05),
  (0x83ee, .tsx),
  (0x83ef, .ldaAbsX 0x0107),
  (0x83f2, .pha),
  (0x83f3, .dey),
  (0x83f4, .bne 0x83ee),
  (0x83f6, .ldyImm 0x0a),
  (0x83f8, .ldaAbsX 0x0109),
  (0x83fb, .staAbsX 0x010b),
  (0x83fe, .dex),
  (0x83ff, .dey),
  (0x8400, .bne 0x83f8),
  (0x8402, .pla),
  (0x8403, .pla),
  (0x8404, .pla),
  (0x8405, .tay),
  (0x8406, .pla),
  (0x8407, .tax),
  (0x8408, .pla),
  (0x8409, .rts),
  (0x840a, .tsx),
  (0x840b, .staAbsX 0x0103),
  (0x840e, .jmp 0x8404),
  (0x8411, .pha),
  (0x8412, .txa),
  (0x8413, .pha),
  (0x8414, .tya),
  (0x8415, .pha),
  (0x8416, .ldaImm 0x84),
  (0x8418, .pha),
  (0x8419, .ldaImm 0x09),
  (0x841b, .pha),
  (0x841c, .bne 0x83ec)]

section Blocks

variable {s : Byte} {c : Cpu} {k : ℕ} {m : Word → Byte}

/-- Memory `m'` is `m` with the bytes `k` to `k + n` below `s` put in from `f`. -/
structure Stacked (s : Byte) (k n : ℕ) (f : ℕ → Byte) (m m' : Word → Byte) : Prop where
  at_cell : ∀ j ≤ n, m' (cell s (k + j)) = f j
  frame : ∀ w, (∀ j ≤ n, w ≠ cell s (k + j)) → m' w = m w

lemma Stacked.one (v : Byte) : Stacked s k 0 (fun _ => v) m (Function.update m (cell s k) v) where
  at_cell j hj := by
    rw [Nat.le_zero.1 hj]
    exact Function.update_self ..
  frame w hw := Function.update_of_ne (hw 0 le_rfl) ..

/-- One byte more at the front. -/
lemma Stacked.cons {n : ℕ} {f : ℕ → Byte} {v : Byte} {m' : Word → Byte} (hk : k + (n + 1) ≤ s.toNat)
    (hv : f 0 = v)
    (h : Stacked s (k + 1) n (fun j => f (j + 1)) (Function.update m (cell s k) v) m') :
    Stacked s k (n + 1) f m m' where
  at_cell j hj := by
    cases j with
    | zero =>
        have hne : ∀ i ≤ n, cell s k ≠ cell s (k + 1 + i) := fun i hi heq => by
          rw [cell_inj (by omega) (by omega)] at heq
          omega
        rw [Nat.add_zero, h.frame _ hne, hv, Function.update_self]
    | succ j =>
        have hnext := h.at_cell j (by omega)
        rwa [Nat.add_assoc, Nat.add_comm 1 j] at hnext
  frame w hw := by
    have hrest : ∀ j ≤ n, w ≠ cell s (k + 1 + j) := fun j hj => by
      rw [Nat.add_assoc, Nat.add_comm 1 j]
      exact hw (j + 1) (by omega)
    rw [h.frame w hrest]
    exact Function.update_of_ne (hw 0 (Nat.zero_le _)) ..

lemma count_sub_one (n : ℕ) : BitVec.ofNat 8 (n + 1) - 1 = BitVec.ofNat 8 n := by
  rw [BitVec.ofNat_add]
  exact add_sub_cancel_right _ _

lemma count_ne_zero {n : ℕ} (h : n < 255) : BitVec.ofNat 8 (n + 1) ≠ 0 := by
  intro hzero
  have := congrArg BitVec.toNat hzero
  rw [BitVec.toNat_ofNat] at this
  simp at this
  omega

/-- A round of the first loop: the byte seven places up is pushed. -/
lemma copy_round (hs : 7 + k ≤ s.toNat) (hpc : c.pc = 0x83ee) (hsp : c.s = down s (7 + k)) :
    ∃ c', Runs rememberCode c c' ∧ c'.pc = (if c.y - 1 = 0 then 0x83f6 else 0x83ee) ∧ c'.y = c.y - 1 ∧
      c'.x = c.s ∧ c'.s = down s (7 + k + 1) ∧
      c'.mem = Function.update c.mem (cell s (7 + k)) (c.mem (cell s k)) := by
  have hread : (0x0107 : Word) + c.s.setWidth 16 = cell s k := hsp ▸ indexed_cell rfl hs
  refine ⟨_, runs_steps (l := [.tsx, .ldaAbsX 0x0107, .pha, .dey, .bne 0x83ee]) ?_ (by decide), ?_, rfl, rfl,
    ?_, ?_⟩
  · rw [hpc]
    decide +kernel
  · simp only [steps, Instr.step, Instr.exec, Cpu.push, hpc]
    rfl
  · rw [← down_sub_one, ← hsp]
    rfl
  · rw [← hread, cell, ← hsp]
    rfl

/-- **The first loop**: bytes of the frame are pushed again, from the top. -/
lemma copy_loop (n : ℕ) (hn : n < 5) (hs : 7 + k + n ≤ s.toNat) (hpc : c.pc = 0x83ee)
    (hsp : c.s = down s (7 + k)) (hy : c.y = BitVec.ofNat 8 (n + 1)) :
    ∃ c', Runs rememberCode c c' ∧ c'.pc = 0x83f6 ∧ c'.x = down s (7 + k + n) ∧
      c'.s = down s (7 + k + n + 1) ∧
      Stacked s (7 + k) n (fun j => c.mem (cell s (k + j))) c.mem c'.mem := by
  induction n generalizing c k with
  | zero =>
      obtain ⟨c', hrun, hpc', -, hx, hsp', hmem⟩ := copy_round (by omega) hpc hsp
      rw [hy, count_sub_one, if_pos (show BitVec.ofNat 8 0 = 0 from rfl)] at hpc'
      refine ⟨c', hrun, hpc', hx.trans hsp, hsp', ?_, ?_⟩
      · intro j hj
        rw [hmem, (Stacked.one _).at_cell j hj, Nat.le_zero.1 hj, Nat.add_zero]
      · intro w hw
        rw [hmem, (Stacked.one _).frame w hw]
  | succ n ih =>
      obtain ⟨c', hrun, hpc', hy', hx, hsp', hmem⟩ := copy_round (by omega) hpc hsp
      rw [hy, count_sub_one] at hpc' hy'
      rw [if_neg (count_ne_zero (by omega))] at hpc'
      obtain ⟨c₂, hrun₂, hpc₂, hx₂, hsp₂, hfill⟩ := ih (k := k + 1) (by omega) (by omega) hpc' hsp' hy'
      have hsum : 7 + (k + 1) + n = 7 + k + (n + 1) := by omega
      rw [hsum] at hx₂ hsp₂
      refine ⟨c₂, hrun.trans hrun₂, hpc₂, hx₂, hsp₂, Stacked.cons hs rfl ?_⟩
      -- the bytes still to be pushed have not been written to
      have hread : ∀ j ≤ n, c'.mem (cell s (k + 1 + j)) = c.mem (cell s (k + (j + 1))) := fun j hj => by
        have hne : cell s (k + (j + 1)) ≠ cell s (7 + k) := fun heq => by
          rw [cell_inj (by omega) (by omega)] at heq
          omega
        rw [hmem, Nat.add_assoc, Nat.add_comm 1 j, Function.update_of_ne hne]
      refine ⟨fun j hj => ?_, fun w hw => ?_⟩
      · exact (hfill.at_cell j hj).trans (hread j hj)
      · rw [hfill.frame w hw, hmem]
        rfl

/-- A round of the second loop: a byte is moved up by two places. -/
lemma slide_round (hs : 11 + k ≤ s.toNat) (hpc : c.pc = 0x83f8) (hx : c.x = down s (11 + k)) :
    ∃ c', Runs rememberCode c c' ∧ c'.pc = (if c.y - 1 = 0 then 0x8402 else 0x83f8) ∧ c'.y = c.y - 1 ∧
      c'.x = down s (11 + k + 1) ∧ c'.s = c.s ∧
      c'.mem = Function.update c.mem (cell s k) (c.mem (cell s (k + 2))) := by
  have hread : (0x0109 : Word) + c.x.setWidth 16 = cell s (k + 2) := by
    have hplace : 11 + k = 9 + (k + 2) := by omega
    rw [hx, hplace]
    exact indexed_cell rfl (by omega)
  have hwrite : (0x010b : Word) + c.x.setWidth 16 = cell s k := hx ▸ indexed_cell rfl hs
  refine ⟨_, runs_steps (l := [.ldaAbsX 0x0109, .staAbsX 0x010b, .dex, .dey, .bne 0x83f8]) ?_ (by decide), ?_,
    rfl, ?_, rfl, ?_⟩
  · rw [hpc]
    decide +kernel
  · simp only [steps, Instr.step, Instr.exec, hpc]
    rfl
  · rw [← down_sub_one, ← hx]
    rfl
  · rw [← hread, ← hwrite]
    rfl

/-- **The second loop**: bytes of the stack move up by two places. -/
lemma slide_loop (n : ℕ) (hn : n < 255) (hs : 11 + k + n ≤ s.toNat) (hpc : c.pc = 0x83f8)
    (hx : c.x = down s (11 + k)) (hy : c.y = BitVec.ofNat 8 (n + 1)) :
    ∃ c', Runs rememberCode c c' ∧ c'.pc = 0x8402 ∧ c'.s = c.s ∧
      Stacked s k n (fun j => c.mem (cell s (k + j + 2))) c.mem c'.mem := by
  induction n generalizing c k with
  | zero =>
      obtain ⟨c', hrun, hpc', -, -, hsp, hmem⟩ := slide_round (by omega) hpc hx
      rw [hy, count_sub_one, if_pos (show BitVec.ofNat 8 0 = 0 from rfl)] at hpc'
      refine ⟨c', hrun, hpc', hsp, ?_, ?_⟩
      · intro j hj
        rw [hmem, (Stacked.one _).at_cell j hj, Nat.le_zero.1 hj, Nat.add_zero]
      · intro w hw
        rw [hmem, (Stacked.one _).frame w hw]
  | succ n ih =>
      obtain ⟨c', hrun, hpc', hy', hx', hsp, hmem⟩ := slide_round (by omega) hpc hx
      rw [hy, count_sub_one] at hpc' hy'
      rw [if_neg (count_ne_zero (by omega))] at hpc'
      obtain ⟨c₂, hrun₂, hpc₂, hsp₂, hfill⟩ := ih (k := k + 1) (by omega) (by omega) hpc' hx' hy'
      refine ⟨c₂, hrun.trans hrun₂, hpc₂, hsp₂.trans hsp, Stacked.cons (by omega) rfl ?_⟩
      -- the bytes still to be moved have not been written to
      have hread : ∀ j ≤ n, c'.mem (cell s (k + 1 + j + 2)) = c.mem (cell s (k + (j + 1) + 2)) := by
        intro j hj
        have hne : cell s (k + (j + 1) + 2) ≠ cell s k := fun heq => by
          rw [cell_inj (by omega) (by omega)] at heq
          omega
        rw [hmem, Nat.add_assoc k 1, Nat.add_comm 1 j, Function.update_of_ne hne]
      refine ⟨fun j hj => ?_, fun w hw => ?_⟩
      · exact (hfill.at_cell j hj).trans (hread j hj)
      · rw [hfill.frame w hw, hmem]

/-- The frame below the return address: the registers, and the address that is planted. -/
def frameBytes (c : Cpu) (plant : Byte) (j : ℕ) : Byte := [c.a, c.x, c.y, 0x84, plant].getD j 0

/-- The registers and the planted address are pushed. -/
lemma frame_filled (plant : Byte) (hs : 6 ≤ s.toNat) :
    Stacked s 2 4 (frameBytes c plant) m
      (Function.update (Function.update (Function.update (Function.update (Function.update m
        (cell s 2) c.a) (cell s 3) c.x) (cell s 4) c.y) (cell s 5) 0x84) (cell s 6) plant) := by
  refine Stacked.cons (by omega) rfl (Stacked.cons (by omega) rfl (Stacked.cons (by omega) rfl
    (Stacked.cons (by omega) rfl ⟨fun j hj => ?_, fun w hw => ?_⟩)))
  · rw [Nat.le_zero.1 hj]
    exact Function.update_self ..
  · exact Function.update_of_ne (hw 0 le_rfl) ..

/-- Where a routine plants the address for the `rts` of the body: behind it the registers are restored. -/
inductive Plants : Word → Byte → Prop
  | rememberAxy : Plants 0x83e1 0x03
  | keepA : Plants 0x8411 0x09

variable {entry : Word} {plant : Byte}

lemma save_runs (h : Plants entry plant) (hs : 6 ≤ s.toNat) (hpc : c.pc = entry) (hsp : c.s = down s 2) :
    ∃ c', Runs rememberCode c c' ∧ c'.pc = 0x83ee ∧ c'.y = 5 ∧ c'.s = down s 7 ∧
      Stacked s 2 4 (frameBytes c plant) c.mem c'.mem := by
  cases h with
  | rememberAxy =>
      refine ⟨_, runs_steps (l := [.pha, .txa, .pha, .tya, .pha, .ldaImm 0x84, .pha, .ldaImm 0x03, .pha,
        .ldyImm 0x05]) ?_ (by decide), ?_, rfl, ?_, ?_⟩
      · rw [hpc]
        decide +kernel
      · simp only [steps, Instr.step, Instr.exec, Cpu.push, hpc]
        rfl
      · simp only [steps, Instr.step, Instr.exec, Cpu.push, hsp, down_sub_one]
      · simp only [steps, Instr.step, Instr.exec, Cpu.push, hsp, down_sub_one]
        exact frame_filled _ hs
  | keepA =>
      have hpush : Runs rememberCode c (steps [.pha, .txa, .pha, .tya, .pha, .ldaImm 0x84, .pha,
          .ldaImm 0x09, .pha, .bne 0x83ec] c) :=
        runs_steps (by rw [hpc]; decide +kernel) (by decide)
      refine ⟨_, hpush.trans (runs_steps (l := [.ldyImm 0x05]) ?_ (by decide)), rfl, rfl, ?_, ?_⟩
      · exact (show CodeAt rememberCode 0x83ec [.ldyImm 0x05] by decide +kernel)
      · simp only [steps, Instr.step, Instr.exec, Cpu.push, hsp, down_sub_one]
      · simp only [steps, Instr.step, Instr.exec, Cpu.push, hsp, down_sub_one]
        exact frame_filled _ hs

/-- The registers are restored and the subroutine returns. -/
lemma restore_runs (hpc : c.pc = 0x8404) :
    ∃ c', Runs rememberCode c c' ∧ c'.y = c.mem (stackAt (c.s + 1)) ∧ c'.x = c.mem (stackAt (c.s + 1 + 1)) ∧
      c'.a = c.mem (stackAt (c.s + 1 + 1 + 1)) ∧ c'.s = c.s + 1 + 1 + 1 + 1 + 1 ∧
      c'.pc = wordOf (c.mem (stackAt (c.s + 1 + 1 + 1 + 1))) (c.mem (stackAt (c.s + 1 + 1 + 1 + 1 + 1))) + 1 ∧
      c'.mem = c.mem := by
  refine ⟨_, runs_steps (l := [.pla, .tay, .pla, .tax, .pla, .rts]) ?_ (by decide), rfl, rfl, rfl, rfl, rfl,
    rfl⟩
  rw [hpc]
  decide +kernel

/-- **The frame**: at the top the registers and the planted address, below them the return address, and
below that the registers again. -/
lemma frame_runs (h : Plants entry plant) (hs : 20 ≤ s.toNat) (hpc : c.pc = entry) (hsp : c.s = down s 2) :
    ∃ c', Runs rememberCode c c' ∧ c'.pc = 0x8402 ∧ c'.s = down s 12 ∧
      (∀ j < 5, c'.mem (cell s j) = frameBytes c plant j) ∧
      (∀ j < 2, c'.mem (cell s (5 + j)) = c.mem (cell s j)) ∧
      (∀ j < 3, c'.mem (cell s (7 + j)) = frameBytes c plant j) ∧
      ∀ w, (∀ j ≤ 11, w ≠ cell s j) → c'.mem w = c.mem w := by
  obtain ⟨c₁, hrun₁, hpc₁, hy₁, hs₁, hsave⟩ := save_runs h (by omega) hpc hsp
  obtain ⟨c₂, hrun₂, hpc₂, hx₂, hs₂, hcopy⟩ := copy_loop (k := 0) 4 (by omega) (by omega) hpc₁ hs₁ hy₁
  have hcount : Runs rememberCode c₂ { c₂ with pc := 0x83f8, y := 0x0a, nz := 0x0a } := by
    refine .single ⟨.ldyImm 0x0a, by rw [hpc₂]; decide +kernel, ?_⟩
    rw [Instr.step, Instr.exec, hpc₂]
    rfl
  obtain ⟨c₃, hrun₃, hpc₃, hs₃, hslide⟩ := slide_loop (c := { c₂ with pc := 0x83f8, y := 0x0a, nz := 0x0a })
    (k := 0) 9 (by omega) (by omega) rfl hx₂ rfl
  have hne : ∀ i ≤ 20, ∀ j ≤ 20, i ≠ j → cell s i ≠ cell s j := fun i hi j hj hij heq =>
    hij ((cell_inj (by omega) (by omega)).1 heq)
  have hmoved : ∀ j < 10, c₃.mem (cell s j) = c₂.mem (cell s (j + 2)) := fun j hj => by
    have hcell := hslide.at_cell j (by omega)
    simp only [Nat.zero_add] at hcell
    exact hcell
  have hcopied : ∀ j < 5, c₂.mem (cell s (7 + j)) = c₁.mem (cell s j) := fun j hj => by
    have hcell := hcopy.at_cell j (by omega)
    simp only [Nat.zero_add] at hcell
    exact hcell
  have hsaved : ∀ j < 5, c₁.mem (cell s (j + 2)) = frameBytes c plant j := fun j hj => by
    rw [Nat.add_comm]
    exact hsave.at_cell j (by omega)
  refine ⟨c₃, ((hrun₁.trans hrun₂).trans hcount).trans hrun₃, hpc₃, hs₃.trans hs₂, fun j hj => ?_,
    fun j hj => ?_, fun j hj => ?_, fun w hw => ?_⟩
  · rw [hmoved j (by omega), hcopy.frame _ fun i hi => hne _ (by omega) _ (by omega) (by omega), hsaved j hj]
  · rw [hmoved (5 + j) (by omega), Nat.add_right_comm, hcopied j (by omega)]
    exact hsave.frame _ fun i hi => hne _ (by omega) _ (by omega) (by omega)
  · have hplace : 7 + j + 2 = 7 + (j + 2) := by omega
    rw [hmoved (7 + j) (by omega), hplace, hcopied (j + 2) (by omega), hsaved j (by omega)]
  · rw [hslide.frame w fun i hi => hw _ (by omega)]
    exact (hcopy.frame w fun i hi => hw _ (by omega)).trans (hsave.frame w fun i hi => hw _ (by omega))

/-- The body goes on behind the `jsr`, with the registers and the frame above it. -/
lemma remember_runs (h : Plants entry plant) (hs : 20 ≤ s.toNat) (hpc : c.pc = entry) (hsp : c.s = down s 2) :
    ∃ c', Runs rememberCode c c' ∧ c'.pc = wordOf (c.mem (cell s 1)) (c.mem (cell s 0)) + 1 ∧
      c'.a = c.a ∧ c'.x = c.x ∧ c'.y = c.y ∧ c'.s = down s 5 ∧
      (∀ j < 5, c'.mem (cell s j) = frameBytes c plant j) ∧
      ∀ w, (∀ j ≤ 11, w ≠ cell s j) → c'.mem w = c.mem w := by
  obtain ⟨c₁, hrun₁, hpc₁, hs₁, htop, hreturn, hregs, hframe⟩ := frame_runs h hs hpc hsp
  have hdrop : Runs rememberCode c₁ (steps [.pla, .pla] c₁) :=
    runs_steps (by rw [hpc₁]; decide +kernel) (by decide)
  have hpc₂ : (steps [.pla, .pla] c₁).pc = 0x8404 := by
    rw [steps, steps, steps, Instr.step_pc rfl, Instr.step_pc rfl, hpc₁]
    rfl
  have hs₂ : (steps [.pla, .pla] c₁).s = down s 10 := by
    have hpulled : (steps [.pla, .pla] c₁).s = c₁.s + 1 + 1 := rfl
    rw [hpulled, hs₁, down_add_one, down_add_one]
  have hmem₂ : (steps [.pla, .pla] c₁).mem = c₁.mem := rfl
  obtain ⟨c₂, hrun₂, hy, hx, ha, hs₃, hpc₃, hmem₃⟩ := restore_runs hpc₂
  simp only [hs₂, hmem₂, down_add_one] at hy hx ha hs₃ hpc₃ hmem₃
  refine ⟨c₂, (hrun₁.trans hdrop).trans hrun₂, ?_, ?_, ?_, ?_, hs₃, fun j hj => ?_, fun w hw => ?_⟩
  · rw [hpc₃]
    exact congrArg (· + 1) (congrArg₂ wordOf (hreturn 1 (by omega)) (hreturn 0 (by omega)))
  · exact ha.trans (hregs 0 (by omega))
  · exact hx.trans (hregs 1 (by omega))
  · exact hy.trans (hregs 2 (by omega))
  · rw [hmem₃, htop j hj]
  · rw [hmem₃, hframe w hw]

/-- The `rts` of the body goes to the planted address. -/
lemma rts_planted {a : Cpu} (hsp : c.s = down s 5)
    (hmem : ∀ j < 5, c.mem (cell s j) = frameBytes a plant j) :
    Instr.rts.step c = { c with s := down s 3, pc := wordOf plant 0x84 + 1 } := by
  have hlo : c.mem (stackAt (c.s + 1)) = plant := by
    rw [hsp, down_add_one]
    exact hmem 4 (by omega)
  have hhi : c.mem (stackAt (c.s + 1 + 1)) = 0x84 := by
    rw [hsp, down_add_one, down_add_one]
    exact hmem 3 (by omega)
  have hs : c.s + 1 + 1 = down s 3 := by
    rw [hsp, down_add_one, down_add_one]
  have hstep : Instr.rts.step c = { c with
      s := c.s + 1 + 1
      pc := wordOf (c.mem (stackAt (c.s + 1))) (c.mem (stackAt (c.s + 1 + 1))) + 1 } := rfl
  rw [hstep, hlo, hhi, hs]

end Blocks

/-- The body of a subroutine leaves the stack as it found it. -/
def Balanced (c c' : Cpu) : Prop := c'.s = c.s ∧ ∀ i, c.s < i → c'.mem (stackAt i) = c.mem (stackAt i)

/-- Where the subroutine that was entered at `c` is back in its caller. -/
structure Returned (c c' : Cpu) : Prop where
  pc : c'.pc = (Instr.rts.step c).pc
  x : c'.x = c.x
  y : c'.y = c.y
  s : c'.s = (Instr.rts.step c).s
  stack : ∀ i, c.s < i → c'.mem (stackAt i) = c.mem (stackAt i)

/-- A subroutine that begins at `c` with a `jsr` to `entry` goes on with the registers as they are, and after
any body its `rts` gets back to its caller with the registers as they were, and `a` in A. -/
def Kept (entry : Word) (c : Cpu) (a : Cpu → Byte) : Prop :=
  ∃ c₁, Runs rememberCode ((Instr.jsr entry).step c) c₁ ∧
    (c₁.pc = c.pc + 3 ∧ c₁.a = c.a ∧ c₁.x = c.x ∧ c₁.y = c.y) ∧
    ∀ c₂, Balanced c₁ c₂ → ∃ c₃, Runs rememberCode (Instr.rts.step c₂) c₃ ∧ Returned c c₃ ∧ c₃.a = a c₂

/-- There is room on the stack: twenty bytes below, and the return address above. -/
def StackRoom (c : Cpu) : Prop := 20 ≤ c.s.toNat ∧ c.s.toNat ≤ 253

section Kept

variable {c c₁ c₂ : Cpu} {entry : Word} {plant : Byte}

/-- The `jsr` at the beginning, and the routine. -/
lemma jsr_runs (h : Plants entry plant) (hroom : StackRoom c) :
    ∃ c₁, Runs rememberCode ((Instr.jsr entry).step c) c₁ ∧
      (c₁.pc = c.pc + 3 ∧ c₁.a = c.a ∧ c₁.x = c.x ∧ c₁.y = c.y) ∧ c₁.s = down c.s 5 ∧
      (∀ j < 5, c₁.mem (cell c.s j) = frameBytes c plant j) ∧
      ∀ i, c.s < i → c₁.mem (stackAt i) = c.mem (stackAt i) := by
  obtain ⟨hbelow, -⟩ := hroom
  have hpushed : ((Instr.jsr entry).step c).s = down c.s 2 := by
    rw [← down_sub_one, ← down_sub_one, down_zero]
    rfl
  have hmem : ((Instr.jsr entry).step c).mem = Function.update (Function.update c.mem (cell c.s 0)
      (hiByte (c.pc + 3 - 1))) (cell c.s 1) (loByte (c.pc + 3 - 1)) := by
    rw [cell, cell, ← down_sub_one, down_zero]
    rfl
  have hne : cell c.s 0 ≠ cell c.s 1 := fun heq => by
    rw [cell_inj (by omega) (by omega)] at heq
    omega
  obtain ⟨c₁, hrun, hpc, ha, hx, hy, hs, hframe, hrest⟩ := remember_runs h hbelow rfl hpushed
  refine ⟨c₁, hrun, ⟨?_, ha, hx, hy⟩, hs, hframe, fun i hi => ?_⟩
  · rw [hpc, hmem, Function.update_self, Function.update_of_ne hne, Function.update_self, wordOf_lo_hi,
      sub_add_cancel]
  · have habove : ∀ j ≤ 11, stackAt i ≠ cell c.s j := fun j hj => stackAt_ne_cell hi (by omega)
    rw [hrest _ habove, hmem, Function.update_of_ne (habove 1 (by omega)),
      Function.update_of_ne (habove 0 (by omega))]

/-- The registers are restored from the frame. -/
lemma restored (hroom : StackRoom c) (hs : c₂.s = down c.s 3) (hpc : c₂.pc = 0x8404)
    (hx : c₂.mem (cell c.s 1) = c.x) (hy : c₂.mem (cell c.s 2) = c.y)
    (hstack : ∀ i, c.s < i → c₂.mem (stackAt i) = c.mem (stackAt i)) :
    ∃ c₃, Runs rememberCode c₂ c₃ ∧ Returned c c₃ ∧ c₃.a = c₂.mem (cell c.s 0) := by
  obtain ⟨-, habove⟩ := hroom
  obtain ⟨c₃, hrun, hy₃, hx₃, ha₃, hs₃, hpc₃, hmem₃⟩ := restore_runs hpc
  simp only [hs, down_add_one, down_zero] at hy₃ hx₃ ha₃ hs₃ hpc₃
  have hone := toNat_add_one_of_lt (a := c.s) (by omega)
  have htwo := toNat_add_one_of_lt (a := c.s + 1) (by omega)
  have hlo : c₂.mem (stackAt (c.s + 1)) = c.mem (stackAt (c.s + 1)) := hstack _ (BitVec.lt_def.2 (by omega))
  have hhi : c₂.mem (stackAt (c.s + 1 + 1)) = c.mem (stackAt (c.s + 1 + 1)) :=
    hstack _ (BitVec.lt_def.2 (by omega))
  rw [hlo, hhi] at hpc₃
  have hzero : cell c.s 0 = stackAt c.s := congrArg stackAt (down_zero _)
  refine ⟨c₃, hrun, ⟨hpc₃, hx₃.trans hx, hy₃.trans hy, hs₃, fun i hi => ?_⟩, hzero ▸ ha₃⟩
  rw [hmem₃, hstack i hi]

/-- `$840a`: the frame gets the A of the body. -/
lemma keepA_runs {s : Byte} (hs : 3 ≤ s.toNat) (hsp : c.s = down s 3) (hpc : c.pc = 0x840a) :
    ∃ c', Runs rememberCode c c' ∧ c'.s = c.s ∧ c'.pc = 0x8404 ∧
      c'.mem = Function.update c.mem (cell s 0) c.a := by
  have hwrite : (0x0103 : Word) + c.s.setWidth 16 = cell s 0 := by
    rw [hsp]
    exact indexed_cell (n := 3) (k := 0) rfl hs
  refine ⟨_, runs_steps (l := [.tsx, .staAbsX 0x0103, .jmp 0x8404]) ?_ (by decide), rfl, rfl, ?_⟩
  · rw [hpc]
    decide +kernel
  · rw [← hwrite]
    rfl

/-- What a body leaves of the frame, and of the stack above it. -/
lemma Balanced.frame (h : Balanced c₁ c₂) (hroom : StackRoom c) (hs : c₁.s = down c.s 5)
    (hframe : ∀ j < 5, c₁.mem (cell c.s j) = frameBytes c plant j)
    (habove : ∀ i, c.s < i → c₁.mem (stackAt i) = c.mem (stackAt i)) :
    c₂.s = down c.s 5 ∧ (∀ j < 5, c₂.mem (cell c.s j) = frameBytes c plant j) ∧
      ∀ i, c.s < i → c₂.mem (stackAt i) = c.mem (stackAt i) := by
  obtain ⟨hs₂, hstack⟩ := h
  have hbelow := hroom.1
  refine ⟨hs₂.trans hs, fun j hj => ?_, fun i hi => ?_⟩
  · refine (hstack _ (BitVec.lt_def.2 ?_)).trans (hframe j hj)
    rw [hs, toNat_down (by omega), toNat_down (by omega)]
    omega
  · refine (hstack _ (BitVec.lt_def.2 ?_)).trans (habove i hi)
    have hlt : c.s.toNat < i.toNat := hi
    rw [hs, toNat_down (by omega)]
    omega

end Kept

/-- **The registers are kept**, all of them or all but A. -/
theorem rememberAxy_keeps (c : Cpu) (h : StackRoom c) :
    Kept 0x83e1 c (fun _ => c.a) ∧ Kept 0x8411 c fun c' => c'.a := by
  have hbelow := h.1
  constructor
  · obtain ⟨c₁, hrun, hregs, hs, hframe, habove⟩ := jsr_runs .rememberAxy h
    refine ⟨c₁, hrun, hregs, fun c₂ hbal => ?_⟩
    obtain ⟨hs₂, hframe₂, habove₂⟩ := hbal.frame h hs hframe habove
    rw [rts_planted hs₂ hframe₂]
    have hpc : ({ c₂ with s := down c.s 3, pc := wordOf 0x03 0x84 + 1 } : Cpu).pc = 0x8404 := rfl
    obtain ⟨c₃, hrun₃, hret, ha⟩ := restored h rfl hpc (hframe₂ 1 (by omega)) (hframe₂ 2 (by omega)) habove₂
    exact ⟨c₃, hrun₃, hret, ha.trans (hframe₂ 0 (by omega))⟩
  · obtain ⟨c₁, hrun, hregs, hs, hframe, habove⟩ := jsr_runs .keepA h
    refine ⟨c₁, hrun, hregs, fun c₂ hbal => ?_⟩
    obtain ⟨hs₂, hframe₂, habove₂⟩ := hbal.frame h hs hframe habove
    rw [rts_planted hs₂ hframe₂]
    obtain ⟨c', hrun', hs', hpc', hmem'⟩ := keepA_runs (s := c.s)
      (c := { c₂ with s := down c.s 3, pc := 0x840a }) (by omega) rfl rfl
    have hother : ∀ j < 5, j ≠ 0 → c'.mem (cell c.s j) = frameBytes c 0x09 j := fun j hj hj0 => by
      rw [hmem', Function.update_of_ne fun heq => hj0 ((cell_inj (by omega) (by omega)).1 heq)]
      exact hframe₂ j hj
    have habove' : ∀ i, c.s < i → c'.mem (stackAt i) = c.mem (stackAt i) := fun i hi => by
      rw [hmem', Function.update_of_ne (stackAt_ne_cell hi (Nat.zero_le _))]
      exact habove₂ i hi
    obtain ⟨c₃, hrun₃, hret, ha⟩ := restored h hs' hpc' (hother 1 (by omega) (by omega))
      (hother 2 (by omega) (by omega)) habove'
    refine ⟨c₃, hrun'.trans hrun₃, hret, ha.trans ?_⟩
    rw [hmem', Function.update_self]

/-- A subroutine that is entered with eleven in A. -/
def entered : Cpu where
  a := 11
  x := 0
  y := 0
  s := 0xf0
  pc := 0x809c
  nz := 11
  mem := fun _ => 0

theorem entered_keeps : Kept 0x83e1 entered (fun _ => entered.a) ∧ Kept 0x8411 entered fun c' => c'.a :=
  rememberAxy_keeps entered ⟨by decide, by decide⟩

end Udfs.Rom
