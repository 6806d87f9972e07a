import Udfs.D6502.Assembler

/-!
# Assembling what is disassembled

The line of an instruction is read as the operand that was printed.  The assembler makes the same bytes
of it, with one exception: an absolute operand below `$100` that has a symbol is printed as a zero-page
operand is, and becomes one if the instruction has that form.
-/

namespace Udfs.D6502

/-! ## One instruction -/

/-- The zero-page form of an absolute one. -/
def AddrMode.zeroForm : AddrMode → Option AddrMode
  | .abs => some .zp
  | .absx => some .zpx
  | .absy => some .zpy
  | _ => none

/-- The absolute operand of an instruction has a symbol below `$100`, and the instruction has a
zero-page form. -/
def Shortened (symbols : Word → Option String) (b lo hi : Byte) : Prop :=
  ((symbols (wordOf lo hi)).isSome ∧ (wordOf lo hi).toNat < 0x100) ∧
    ∃ mode ∈ (opcodeOf b).addrMode.zeroForm, (opcode (opcodeOf b).mnemonic.toList mode).isSome

/-- The operand that is read. -/
def operandOf (symbols : Word → Option String) (next : Word) (lo hi : Byte) : AddrMode → Operand
  | .ill => .none
  | .imp => .none
  | .acc => .none
  | .imm => .immediate ⟨lo.setWidth 16, true⟩
  | .abs => .direct ⟨wordOf lo hi, (symbols (wordOf lo hi)).isSome ∧ (wordOf lo hi).toNat < 0x100⟩
  | .zp => .direct ⟨lo.setWidth 16, true⟩
  | .ind => .indirect ⟨wordOf lo hi, (symbols (wordOf lo hi)).isSome ∧ (wordOf lo hi).toNat < 0x100⟩
  | .absx => .directX ⟨wordOf lo hi, (symbols (wordOf lo hi)).isSome ∧ (wordOf lo hi).toNat < 0x100⟩
  | .absy => .directY ⟨wordOf lo hi, (symbols (wordOf lo hi)).isSome ∧ (wordOf lo hi).toNat < 0x100⟩
  | .indx => .indirectX ⟨lo.setWidth 16, true⟩
  | .indy => .indirectY ⟨lo.setWidth 16, true⟩
  | .zpx => .directX ⟨lo.setWidth 16, true⟩
  | .zpy => .directY ⟨lo.setWidth 16, true⟩
  | .rel => .direct ⟨next + lo.signExtend 16, (symbols (next + lo.signExtend 16)).isSome ∧
      (next + lo.signExtend 16).toNat < 0x100⟩

/-- The value that is printed as an operand. -/
def operandValue (next : Word) (lo hi : Byte) : AddrMode → Option Word
  | .ill => none
  | .imp => none
  | .acc => none
  | .abs => some (wordOf lo hi)
  | .ind => some (wordOf lo hi)
  | .absx => some (wordOf lo hi)
  | .absy => some (wordOf lo hi)
  | .rel => some (next + lo.signExtend 16)
  | _ => some (lo.setWidth 16)

section Operands

variable {value : String → Word} {symbols : Word → Option String} {next pc : Word} {b lo hi : Byte}

/-- **An operand is read as it was printed.** -/
lemma readOperand_operandText (mode : AddrMode)
    (hs : ∀ w ∈ operandValue next lo hi mode, ∀ s, symbols w = some s → value s = w) (r : List Tok) :
    readOperand value (operandText symbols next lo hi mode ++ (text "\t; 0x" ++ r))
      = some (operandOf symbols next lo hi mode) := by
  cases mode with
  | ill => exact readOperand_none r
  | imp => exact readOperand_none r
  | acc => exact readOperand_none r
  | imm => exact readOperand_immediate (shows_value02 lo (hs _ rfl)) r
  | abs =>
      rw [operandText, List.append_assoc, List.append_assoc,
        readOperand_direct (shows_value04 (wordOf lo hi) (hs _ rfl)) _ rfl]
      rfl
  | zp =>
      rw [operandText, List.append_assoc, List.append_assoc,
        readOperand_direct (shows_value02 lo (hs _ rfl)) _ rfl]
      rfl
  | ind =>
      rw [operandText, List.append_assoc, List.append_assoc,
        readOperand_brackets (shows_value04 (wordOf lo hi) (hs _ rfl)) _ rfl]
      rfl
  | absx =>
      rw [operandText, List.append_assoc, List.append_assoc,
        readOperand_direct (shows_value04 (wordOf lo hi) (hs _ rfl)) _ rfl]
      rfl
  | absy =>
      rw [operandText, List.append_assoc, List.append_assoc,
        readOperand_direct (shows_value04 (wordOf lo hi) (hs _ rfl)) _ rfl]
      rfl
  | indx =>
      rw [operandText, List.append_assoc, List.append_assoc,
        readOperand_brackets (shows_value02 lo (hs _ rfl)) _ rfl]
      rfl
  | indy =>
      rw [operandText, List.append_assoc, List.append_assoc,
        readOperand_brackets (shows_value02 lo (hs _ rfl)) _ rfl]
      rfl
  | zpx =>
      rw [operandText, List.append_assoc, List.append_assoc,
        readOperand_direct (shows_value02 lo (hs _ rfl)) _ rfl]
      rfl
  | zpy =>
      rw [operandText, List.append_assoc, List.append_assoc,
        readOperand_direct (shows_value02 lo (hs _ rfl)) _ rfl]
      rfl
  | rel =>
      rw [operandText, List.append_assoc,
        readOperand_direct (shows_value04 (next + lo.signExtend 16) (hs _ rfl)) _ rfl]
      rfl

lemma emitByte_setWidth (lo op : Byte) (narrow : Bool) :
    emitByte ⟨lo.setWidth 16, narrow⟩ op = some [op, lo] := by
  have hlo := byte_lt lo
  have hnat : (lo.setWidth 16).toNat = lo.toNat := by
    rw [BitVec.toNat_setWidth]
    omega
  have hbyte : loByte (lo.setWidth 16) = lo := by
    apply BitVec.eq_of_toNat_eq
    rw [toNat_loByte, hnat]
    omega
  rw [emitByte, if_pos (by rw [hnat]; omega), hbyte]

lemma emitWord_wordOf (op : Byte) (narrow : Bool) :
    emitWord ⟨wordOf lo hi, narrow⟩ op = [op, lo, hi] := by
  rw [emitWord, loByte_wordOf, hiByte_wordOf]

lemma emitBranch_signExtend (pc : Word) (lo op : Byte) (narrow : Bool) :
    emitBranch pc ⟨pc + 2 + lo.signExtend 16, narrow⟩ op = some [op, lo] := by
  have hback : (pc + 2 + lo.signExtend 16 - (pc + 2)).setWidth 8 = lo := by
    rw [add_sub_cancel_left]
    revert lo
    decide +kernel
  rw [emitBranch, hback]
  exact if_pos rfl

/-- A form that is not shortened. -/
lemma emitShortest_wide {m : List Char} {zero absolute : AddrMode} {v : Value} {op : Byte}
    (habs : opcode m absolute = some op) (hz : v.narrow = true → opcode m zero = none) :
    emitShortest m zero absolute v = some (emitWord v op) := by
  rw [emitShortest, habs]
  cases hn : v.narrow with
  | true => rw [hz hn]; rfl
  | false => cases opcode m zero <;> rfl

lemma emitShortest_narrow {m : List Char} {zero absolute : AddrMode} {v : Value} {op : Byte}
    (hzero : opcode m zero = some op) (hn : v.narrow = true) :
    emitShortest m zero absolute v = emitByte v op := by
  rw [emitShortest, hzero, hn]

/-- **The bytes of an instruction**, unless its operand is shortened. -/
lemma encode_operandOf (h : Known b) (hns : ¬ Shortened symbols b lo hi) :
    encode pc (opcodeOf b).mnemonic.toList (operandOf symbols (pc + 2) lo hi (opcodeOf b).addrMode)
      = some ([b, lo, hi].take (instrSize b)) := by
  have hop := h.opcode
  have hwide : ∀ mode ∈ (opcodeOf b).addrMode.zeroForm,
      decide ((symbols (wordOf lo hi)).isSome ∧ (wordOf lo hi).toNat < 0x100) = true →
        opcode (opcodeOf b).mnemonic.toList mode = none := by
    intro mode hmode hnarrow
    by_contra hne
    exact hns ⟨of_decide_eq_true hnarrow, mode, hmode, Option.isSome_iff_ne_none.2 hne⟩
  have hrel := h.rel
  have himp := h.imp
  have hill := h.legal
  rw [instrSize]
  cases hm : (opcodeOf b).addrMode <;> rw [hm] at hop hwide hrel himp hill
  case ill => exact absurd rfl hill
  case imp => simp [operandOf, encode, hop, AddrMode.size]
  case acc => simp [operandOf, encode, hop, himp rfl, AddrMode.size]
  case imm => simp [operandOf, encode, hop, emitByte_setWidth, AddrMode.size]
  case abs =>
    rw [operandOf, encode, hrel (Or.inr rfl)]
    exact (emitShortest_wide hop (hwide _ rfl)).trans (congrArg some (emitWord_wordOf ..))
  case zp =>
    rw [operandOf, encode, hrel (Or.inl rfl)]
    exact (emitShortest_narrow hop rfl).trans (emitByte_setWidth ..)
  case ind => simp [operandOf, encode, hop, emitWord_wordOf, AddrMode.size]
  case absx =>
    rw [operandOf, encode]
    exact (emitShortest_wide hop (hwide _ rfl)).trans (congrArg some (emitWord_wordOf ..))
  case absy =>
    rw [operandOf, encode]
    exact (emitShortest_wide hop (hwide _ rfl)).trans (congrArg some (emitWord_wordOf ..))
  case indx => simp [operandOf, encode, hop, emitByte_setWidth, AddrMode.size]
  case indy => simp [operandOf, encode, hop, emitByte_setWidth, AddrMode.size]
  case zpx =>
    rw [operandOf, encode]
    exact (emitShortest_narrow hop rfl).trans (emitByte_setWidth ..)
  case zpy =>
    rw [operandOf, encode]
    exact (emitShortest_narrow hop rfl).trans (emitByte_setWidth ..)
  case rel =>
    rw [operandOf, encode, hop]
    exact emitBranch_signExtend ..

/-- A shortened operand makes another opcode of the instruction. -/
lemma encode_shortened (h : Known b) (hs : Shortened symbols b lo hi) {bytes : List Byte}
    (henc : encode pc (opcodeOf b).mnemonic.toList
      (operandOf symbols (pc + 2) lo hi (opcodeOf b).addrMode) = some bytes) :
    ∃ op r, op ≠ b ∧ bytes = op :: r := by
  obtain ⟨hnarrow, mode, hmode, hop⟩ := hs
  obtain ⟨op, hop⟩ := Option.isSome_iff_exists.1 hop
  have hother : op ≠ b := by
    rintro rfl
    rw [opcode_addrMode hop] at hmode
    cases mode <;> cases hmode
  have hrel := h.rel
  have hhead : emitByte ⟨wordOf lo hi, (symbols (wordOf lo hi)).isSome ∧ (wordOf lo hi).toNat < 0x100⟩ op
      = some bytes := by
    cases hm : (opcodeOf b).addrMode <;> rw [hm] at hmode henc hrel <;> cases hmode
    case abs =>
      rw [operandOf, encode, hrel (Or.inr rfl)] at henc
      rw [← henc]
      exact (emitShortest_narrow hop (decide_eq_true hnarrow)).symm
    case absx =>
      rw [operandOf, encode] at henc
      rw [← henc]
      exact (emitShortest_narrow hop (decide_eq_true hnarrow)).symm
    case absy =>
      rw [operandOf, encode] at henc
      rw [← henc]
      exact (emitShortest_narrow hop (decide_eq_true hnarrow)).symm
  rw [emitByte, if_pos hnarrow.2] at hhead
  exact ⟨op, _, hother, (Option.some.inj hhead).symm⟩

end Operands

/-! ## One line -/

/-- The value that is printed as the operand of the instruction at an index. -/
def Context.operandAt (c : Context) (i : ℕ) : Option Word :=
  operandValue (c.orgAddr + BitVec.ofNat 16 (i + 2)) (c.byteAt (i + 1)) (c.byteAt (i + 2))
    (opcodeOf (c.byteAt i)).addrMode

/-- The symbol that is printed as the operand of the instruction at an index, if one is, stands for its address
where it is printed. -/
def Context.Resolved (c : Context) (value : Word → String → Word) (i : ℕ) : Prop :=
  ∀ w ∈ c.operandAt i, ∀ s, c.symbols w = some s → value (c.orgAddr + BitVec.ofNat 16 i) s = w

/-- The line of an instruction, with its label. -/
def lineText (c : Context) (i : ℕ) : List Tok :=
  labelText (c.labelAt i) ++ (text "\t" ++ (text (opcodeOf (c.byteAt i)).mnemonic ++
    (operandText c.symbols (c.orgAddr + BitVec.ofNat 16 (i + 2)) (c.byteAt (i + 1)) (c.byteAt (i + 2))
      (opcodeOf (c.byteAt i)).addrMode ++
    (text "\t; 0x" ++ hex04 (c.orgAddr + BitVec.ofNat 16 i)))))

lemma lineText_eq (c : Context) (i : ℕ) :
    labelText (c.labelAt i) ++ instrText c i = lineText c i ++ [.chr '\n'] := by
  simp only [lineText, instrText, List.append_assoc]
  rfl

section Lines

variable {value : String → Word} {c : Context} {i : ℕ} {pc : Word}

lemma readWord_operandText (symbols : Word → Option String) (next : Word) (lo hi : Byte) (mode : AddrMode)
    (r : List Tok) :
    readWord (operandText symbols next lo hi mode ++ (text "\t; 0x" ++ r))
      = ([], operandText symbols next lo hi mode ++ (text "\t; 0x" ++ r)) := by
  cases mode <;> rfl

/-- A line without a label. -/
lemma assembleLine_tab (l : List Tok) : assembleLine value pc (text "\t" ++ l) = (do
    let operand ← readOperand value (readWord l).2
    encode pc (readWord l).1 operand) := rfl

/-- **A line is assembled to the mnemonic with the operand that was printed.** -/
lemma assembleLine_lineText (hs : ∀ w ∈ c.operandAt i, ∀ s, c.symbols w = some s → value s = w)
    (h : Known (c.byteAt i)) (hpc : pc = c.orgAddr + BitVec.ofNat 16 i) :
    assembleLine value pc (lineText c i)
      = encode pc (opcodeOf (c.byteAt i)).mnemonic.toList
          (operandOf c.symbols (pc + 2) (c.byteAt (i + 1)) (c.byteAt (i + 2))
            (opcodeOf (c.byteAt i)).addrMode) := by
  have hnext : c.orgAddr + BitVec.ofNat 16 (i + 2) = pc + 2 := by
    rw [hpc, BitVec.ofNat_add, BitVec.add_assoc]
    rfl
  have hbody : ∀ r, assembleLine value pc (labelText (c.labelAt i) ++ (text "\t" ++ r))
      = assembleLine value pc (text "\t" ++ r) := fun r => by
    cases c.labelAt i <;> rfl
  rw [lineText, hbody, assembleLine_tab, text, readWord_text h.letters (readWord_operandText ..),
    readOperand_operandText _ hs, hnext]
  rfl

lemma newline_hex02 (b : Byte) : Tok.chr '\n' ∉ hex02 b := by
  revert b
  decide +kernel

lemma newline_hex04 (w : Word) : Tok.chr '\n' ∉ hex04 w := by
  rw [hex04, List.mem_append]
  exact not_or.2 ⟨newline_hex02 _, newline_hex02 _⟩

lemma newline_value02 (symbols : Word → Option String) (b : Byte) : Tok.chr '\n' ∉ value02 symbols b := by
  rw [value02]
  cases symbols (b.setWidth 16) with
  | some s => simp
  | none =>
      rw [List.mem_append]
      exact not_or.2 ⟨by decide, newline_hex02 _⟩

lemma newline_value04 (symbols : Word → Option String) (w : Word) : Tok.chr '\n' ∉ value04 symbols w := by
  rw [value04]
  cases symbols w with
  | some s => simp
  | none =>
      rw [List.mem_append]
      exact not_or.2 ⟨by decide, newline_hex04 _⟩

lemma newline_operandText (symbols : Word → Option String) (next : Word) (lo hi : Byte) (mode : AddrMode) :
    Tok.chr '\n' ∉ operandText symbols next lo hi mode := by
  cases mode <;>
    simp [operandText, newline_value02, newline_value04, text]

/-- The line is one line. -/
lemma newline_lineText (h : Known (c.byteAt i)) : Tok.chr '\n' ∉ lineText c i := by
  have hlabel : Tok.chr '\n' ∉ labelText (c.labelAt i) := by
    cases c.labelAt i <;> simp [labelText]
  have hmnemonic : Tok.chr '\n' ∉ text (opcodeOf (c.byteAt i)).mnemonic := by
    intro hmem
    obtain ⟨d, hd, heq⟩ := List.mem_map.1 hmem
    have hletter := h.letters d hd
    rw [Tok.chr.inj heq] at hletter
    exact absurd hletter (by decide)
  have htab : Tok.chr '\n' ∉ text "\t" := by decide
  have hcomment : Tok.chr '\n' ∉ text "\t; 0x" := by decide
  simp [lineText, hlabel, hmnemonic, htab, hcomment, newline_operandText, newline_hex04]

lemma lines_append {l : List Tok} (h : Tok.chr '\n' ∉ l) (r : List Tok) :
    lines (l ++ .chr '\n' :: r) = l :: lines r := by
  induction l with
  | nil => rw [List.nil_append, lines, if_pos rfl]
  | cons t l ih =>
      obtain ⟨ht, hl⟩ := not_or.1 (mt List.mem_cons.2 h)
      rw [List.cons_append, lines, if_neg (Ne.symm ht), ih hl]

end Lines

/-! ## A run of instructions -/

/-- The legal instructions at the places `l`, one behind the other and marked as code, take the bytes
from `i` up to `j`. -/
inductive Instrs (c : Context) : ℕ → List ℕ → ℕ → Prop
  | nil (i : ℕ) : Instrs c i [] i
  | cons {i j : ℕ} {l : List ℕ} (legal : Legal (c.byteAt i)) (le : i + instrSize (c.byteAt i) ≤ 16384)
      (code : ∀ k, i ≤ k → k < i + instrSize (c.byteAt i) → c.markAt k ≠ 0x62 ∧ c.markAt k ≠ 0x74)
      (rest : Instrs c (i + instrSize (c.byteAt i)) l j) : Instrs c i (i :: l) j

/-- As many rounds of the loop as there are places `l` print the bytes from `i` up to `j`, and what they
print is assembled to these bytes. -/
def Reassembles (c : Context) (value : Word → String → Word) (i : ℕ) (l : List ℕ) (j : ℕ) : Prop :=
  ∃ s out, (mainLoop l.length).run c = .ok () s ∧ s.index.toNat = j ∧ s.out = c.out ++ out ∧
    assemble value (c.orgAddr + c.index) out = some ((List.range' i (j - i)).map c.byteAt)

section Runs

variable {value : Word → String → Word} {c : Context} {i j : ℕ} {l : List ℕ}

/-- What is printed for instructions. -/
def linesText (c : Context) (l : List ℕ) : List Tok := l.flatMap fun e => lineText c e ++ [.chr '\n']

lemma instrSize_pos (b : Byte) : 0 < instrSize b := Nat.add_pos_left Nat.one_pos _

lemma Instrs.le (h : Instrs c i l j) : i ≤ j := by
  induction h with
  | nil i => exact le_rfl
  | cons _ _ _ _ ih => omega

lemma Instrs.lt (h : Instrs c i l j) (hi : i < 65536) : j < 65536 := by
  induction h with
  | nil i => exact hi
  | cons _ le _ _ ih => exact ih (by omega)

/-- The rounds print the instructions, whatever has been printed before. -/
lemma mainLoop_instrs (h : Instrs c i l j) (hlen : 16384 ≤ c.data.length) (n : ℕ) (t : List Tok)
    (hi : (c.adv n t).index.toNat = i) :
    Prog.wp (mainLoop l.length) (fun _ s => s = c.adv (n + (j - i)) (t ++ linesText c l)) (fun _ _ => False)
      (c.adv n t) := by
  induction h generalizing n t with
  | nil i =>
      rw [Nat.sub_self, Nat.add_zero, linesText, List.flatMap_nil, List.append_nil]
      rfl
  | @cons i j l legal le code rest ih =>
      have hpos := instrSize_pos (c.byteAt i)
      have hend := rest.le
      obtain ⟨hb, ht⟩ := code i le_rfl (by omega)
      rw [List.length_cons, mainLoop, Prog.wp_bind, Prog.wp_get, hi, if_pos (by omega), Prog.wp_bind]
      refine Prog.wp_mono (d6502_instruction hi (by omega) hlen hb ht) ?_ fun _ _ he => absurd le (by
        rw [Context.adv_data, Context.adv_byteAt] at he
        omega)
      rintro _ s ⟨rfl, -⟩
      have hnext : ((c.adv n t).adv (instrSize (c.byteAt i)) (lineText c i ++ [.chr '\n'])).index.toNat
          = i + instrSize (c.byteAt i) := by
        rw [Context.adv_index _ (by omega), hi]
      have hline : labelText ((c.adv n t).labelAt i) ++ instrText (c.adv n t) i = lineText c i ++ [.chr '\n'] :=
        lineText_eq c i
      rw [hline, Context.adv_byteAt]
      rw [Context.adv_adv] at hnext ⊢
      refine Prog.wp_mono (ih _ _ hnext) ?_ fun _ _ he => he
      rintro _ s rfl
      have hsize : n + instrSize (c.byteAt i) + (j - (i + instrSize (c.byteAt i))) = n + (j - i) := by omega
      rw [hsize, linesText, linesText, List.flatMap_cons, List.append_assoc]

/-- The bytes of an instruction, out of those of the run. -/
lemma range'_instr {i j n : ℕ} (f : ℕ → Byte) (h : i + n ≤ j) :
    (List.range' i (j - i)).map f = (List.range' i n).map f ++ (List.range' (i + n) (j - (i + n))).map f := by
  rw [← List.map_append, List.range'_append_1]
  congr 2
  omega

lemma instr_bytes (c : Context) (i : ℕ) :
    [c.byteAt i, c.byteAt (i + 1), c.byteAt (i + 2)].take (instrSize (c.byteAt i))
      = (List.range' i (instrSize (c.byteAt i))).map c.byteAt := by
  rw [instrSize]
  cases (opcodeOf (c.byteAt i)).addrMode <;> rfl

/-- **The lines of a run are assembled to its bytes** exactly when no operand is shortened. -/
lemma assemble_linesText_iff (h : Instrs c i l j) (hs : ∀ e ∈ l, c.Resolved value e) :
    assemble value (c.orgAddr + BitVec.ofNat 16 i) (linesText c l)
        = some ((List.range' i (j - i)).map c.byteAt) ↔
      ∀ e ∈ l, ¬ Shortened c.symbols (c.byteAt e) (c.byteAt (e + 1)) (c.byteAt (e + 2)) := by
  induction h with
  | nil i => simp [assemble, linesText, lines, assembleLines]
  | @cons i j l legal le code rest ih =>
      have hres : ∀ w ∈ c.operandAt i, ∀ s, c.symbols w = some s → value (c.orgAddr + BitVec.ofNat 16 i) s = w :=
        hs i List.mem_cons_self
      have hline := assembleLine_lineText hres legal.known rfl
      have ih := ih fun e he => hs e (List.mem_cons_of_mem _ he)
      have hlines : lines (linesText c (i :: l)) = lineText c i :: lines (linesText c l) := by
        rw [linesText, List.flatMap_cons, List.append_assoc, List.singleton_append,
          lines_append (newline_lineText legal.known)]
        rfl
      rw [assemble, hlines, assembleLines, hline, range'_instr _ rest.le, ← instr_bytes, List.forall_mem_cons]
      by_cases hshort : Shortened c.symbols (c.byteAt i) (c.byteAt (i + 1)) (c.byteAt (i + 2))
      · refine iff_of_false (fun heq => ?_) fun hall => hall.1 hshort
        obtain ⟨bytes, henc, heq⟩ := Option.bind_eq_some_iff.1 heq
        obtain ⟨r, -, heq⟩ := Option.bind_eq_some_iff.1 heq
        obtain ⟨op, r', hother, rfl⟩ := encode_shortened legal.known hshort henc
        have hfirst : [c.byteAt i, c.byteAt (i + 1), c.byteAt (i + 2)].take (instrSize (c.byteAt i))
            = c.byteAt i ::
              [c.byteAt (i + 1), c.byteAt (i + 2)].take (opcodeOf (c.byteAt i)).addrMode.size := by
          rw [instrSize, Nat.add_comm 1, List.take_succ_cons]
        rw [hfirst] at heq
        exact hother (List.cons.inj (Option.some.inj heq)).1
      · have hpc : c.orgAddr + BitVec.ofNat 16 i + BitVec.ofNat 16 (instrSize (c.byteAt i))
            = c.orgAddr + BitVec.ofNat 16 (i + instrSize (c.byteAt i)) := by
          rw [BitVec.ofNat_add, BitVec.add_assoc]
        have hlen : ([c.byteAt i, c.byteAt (i + 1), c.byteAt (i + 2)].take (instrSize (c.byteAt i))).length
            = instrSize (c.byteAt i) := by
          rw [instr_bytes, List.length_map, List.length_range']
        rw [encode_operandOf legal.known hshort, ← ih, Option.bind_eq_bind, Option.bind_some, hlen, hpc, assemble]
        cases hrest : assembleLines value (c.orgAddr + BitVec.ofNat 16 (i + instrSize (c.byteAt i)))
            (lines (linesText c l)) with
        | none => simp
        | some bytes => simp [hshort]

/-- The run reassembles if the lines of its instructions do. -/
lemma reassembles_iff_assemble (hi : c.index.toNat = i) (hlen : 16384 ≤ c.data.length) (h : Instrs c i l j) :
    Reassembles c value i l j ↔ assemble value (c.orgAddr + BitVec.ofNat 16 i) (linesText c l)
      = some ((List.range' i (j - i)).map c.byteAt) := by
  have hzero : c.adv 0 [] = c := by simp [Context.adv]
  have hspec := mainLoop_instrs h hlen 0 [] (by rw [hzero, hi])
  rw [hzero, List.nil_append, Nat.zero_add] at hspec
  have hindex : c.index = BitVec.ofNat 16 i := by
    rw [← hi, BitVec.ofNat_toNat, BitVec.setWidth_eq]
  rw [← hindex]
  constructor
  · rintro ⟨s, out, hrun, -, hout, hbytes⟩
    rw [Prog.wp_of_ok hrun] at hspec
    rw [hspec] at hout
    rwa [List.append_cancel_left hout]
  · intro hbytes
    obtain ⟨_, s, hrun, rfl⟩ := Prog.exists_ok hspec fun _ _ he => he
    have hle := h.le
    have hlt := h.lt (hi ▸ c.index.isLt)
    refine ⟨_, _, hrun, ?_, rfl, hbytes⟩
    rw [Context.adv_index _ (by omega), hi]
    omega

/-- **Disassembled code reassembles** exactly when no instruction of the run has its operand shortened. -/
theorem mainLoop_reassembles_iff (hi : c.index.toNat = i) (hlen : 16384 ≤ c.data.length)
    (h : Instrs c i l j) (hs : ∀ e ∈ l, c.Resolved value e) :
    Reassembles c value i l j ↔
      ∀ e ∈ l, ¬ Shortened c.symbols (c.byteAt e) (c.byteAt (e + 1)) (c.byteAt (e + 2)) :=
  (reassembles_iff_assemble hi hlen h).trans (assemble_linesText_iff h hs)

end Runs

/-- An image that begins with some code. -/
def imageOf (code : List Byte) (symbols : Word → Option String) : Context where
  data := code ++ List.replicate 16384 0xea
  index := 0
  orgAddr := 0x8000
  symbols := symbols
  map := fun _ => 0
  out := []

lemma imageOf_length (code : List Byte) (symbols : Word → Option String) :
    16384 ≤ (imageOf code symbols).data.length := by
  rw [imageOf, List.length_append, List.length_replicate]
  omega

/-- The next instruction of an image. -/
lemma instrs_imageOf {code : List Byte} {symbols : Word → Option String} {i j : ℕ} {l : List ℕ} (b : Byte)
    (n : ℕ) (hb : (imageOf code symbols).byteAt i = b) (legal : Legal b) (hn : instrSize b = n) (hi : i + n ≤ 16384)
    (rest : Instrs (imageOf code symbols) (i + n) l j) : Instrs (imageOf code symbols) i (i :: l) j := by
  subst hb hn
  refine .cons legal hi (fun k _ hk => ?_) rest
  have hmark : (imageOf code symbols).markAt k = 0 := dif_pos (by omega)
  rw [hmark]
  decide

/-- Two labels of the name `+`. -/
def twoPlus (a : Word) : Option String := if a = 0x8003 ∨ a = 0x8006 then some "+" else none

/-- A branch to each of them. -/
def plusImage : Context := imageOf [0xd0, 0x01, 0xea, 0xd0, 0x01, 0xea] twoPlus

/-- A `+` is the next label of that name. -/
def nextPlus (pc : Word) (_ : String) : Word := if pc.toNat < 0x8003 then 0x8003 else 0x8006

lemma plusImage_instrs : Instrs plusImage 0 [0, 2, 3, 5] 6 :=
  instrs_imageOf 0xd0 2 rfl (by decide +kernel) (by decide +kernel) (by omega) <|
  instrs_imageOf 0xea 1 rfl (by decide +kernel) (by decide +kernel) (by omega) <|
  instrs_imageOf 0xd0 2 rfl (by decide +kernel) (by decide +kernel) (by omega) <|
  instrs_imageOf 0xea 1 rfl (by decide +kernel) (by decide +kernel) (by omega) (.nil 6)

/-- Both branches are printed as `bne +`, and reassemble. -/
theorem plusImage_reassembles : Reassembles plusImage nextPlus 0 [0, 2, 3, 5] 6 := by
  refine (mainLoop_reassembles_iff rfl (imageOf_length _ _) plusImage_instrs ?_).2 ?_
  · intro e he w hw s hsym
    simp only [List.mem_cons, List.not_mem_nil, or_false] at he
    rcases he with rfl | rfl | rfl | rfl
    · cases hw
      rfl
    · cases hw
    · cases hw
      rfl
    · cases hw
  · rintro e he ⟨-, mode, hmode, -⟩
    simp only [List.mem_cons, List.not_mem_nil, or_false] at he
    rcases he with rfl | rfl | rfl | rfl <;> cases hmode

/-- The symbol at `$0070`. -/
def zp70 (a : Word) : Option String := if a = 0x70 then some "zp70" else none

/-- An image that begins with `lda $0070`, of three bytes. -/
def loadImage : Context := imageOf [0xad, 0x70, 0x00] zp70

lemma loadImage_instrs : Instrs loadImage 0 [0] 3 :=
  instrs_imageOf 0xad 3 rfl (by decide +kernel) (by decide +kernel) (by omega) (.nil 3)

/-- With the symbol it is printed as `lda zp70`, which is an instruction of two bytes. -/
theorem loadImage_shortened : Instrs loadImage 0 [0] 3 ∧
    (∀ a s, zp70 a = some s → (fun _ _ => 0x70 : Word → String → Word) a s = a) ∧
    ¬ Reassembles loadImage (fun _ _ => 0x70) 0 [0] 3 := by
  have hvalue : ∀ a s, zp70 a = some s → (fun _ _ => 0x70 : Word → String → Word) a s = a := by
    intro a s h
    rw [zp70] at h
    split at h
    · next ha => exact ha.symm
    · cases h
  refine ⟨loadImage_instrs, hvalue, fun h => ?_⟩
  have hlines := (reassembles_iff_assemble rfl (imageOf_length _ _) loadImage_instrs).1 h
  refine (assemble_linesText_iff loadImage_instrs fun e _ w _ s hs => ?_).1 hlines 0 List.mem_cons_self
    ⟨⟨rfl, by decide⟩, .zp, rfl, by decide +kernel⟩
  exact hvalue w s hs

end Udfs.D6502
