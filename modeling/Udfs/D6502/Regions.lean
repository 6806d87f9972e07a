import Udfs.D6502.Program

/-!
# What one call of `d6502` prints

A region of bytes or of text is printed to its end, and the end is where the map no longer goes on
alike; a region that goes on to the end of the map is not noticed to end there.  An instruction
takes its operand from the file.
-/

namespace Udfs.D6502

namespace Context

variable (c : Context)

/-- The byte at an index of the file. -/
def byteAt (i : ℕ) : Byte := c.data.getD i 0

/-- The symbol for the byte at an index. -/
def labelAt (i : ℕ) : Option String := c.symbols (c.orgAddr + BitVec.ofNat 16 i)

/-- The map at an index inside it. -/
def markAt (i : ℕ) : Byte := if h : i < 16384 then c.map ⟨i, h⟩ else 0

/-- `n` bytes have been read and `l` has been printed. -/
def adv (n : ℕ) (l : List Tok) : Context :=
  { c with index := c.index + BitVec.ofNat 16 n, out := c.out ++ l }

variable (m n i : ℕ) (l l' : List Tok)

@[simp] lemma adv_data : (c.adv n l).data = c.data := rfl

@[simp] lemma adv_orgAddr : (c.adv n l).orgAddr = c.orgAddr := rfl

@[simp] lemma adv_symbols : (c.adv n l).symbols = c.symbols := rfl

@[simp] lemma adv_byteAt : (c.adv n l).byteAt i = c.byteAt i := rfl

@[simp] lemma adv_labelAt : (c.adv n l).labelAt i = c.labelAt i := rfl

@[simp] lemma adv_markAt : (c.adv n l).markAt i = c.markAt i := rfl

@[simp] lemma adv_out : (c.adv n l).out = c.out ++ l := rfl

@[simp] lemma adv_adv : (c.adv m l).adv n l' = c.adv (m + n) (l ++ l') := by
  simp only [adv, BitVec.ofNat_add, BitVec.add_assoc, List.append_assoc]

variable {c n}

lemma adv_index (h : c.index.toNat + n < 65536) : (c.adv n l).index.toNat = c.index.toNat + n := by
  rw [adv, BitVec.toNat_add, BitVec.toNat_ofNat]
  omega

@[simp] lemma adv_zero_index : (c.adv 0 l).index = c.index := BitVec.add_zero _

lemma labelAt_index : c.symbols (c.orgAddr + c.index) = c.labelAt c.index.toNat := by
  rw [labelAt, BitVec.ofNat_toNat, BitVec.setWidth_eq]

lemma data_eq (h : i < c.data.length) : c.data[i]? = some (c.byteAt i) := by
  rw [byteAt, List.getElem?_eq_getElem h, List.getD_eq_getElem _ _ h]

end Context

/-! ## One step each -/

section Steps

variable {c : Context} {l : List Tok}

lemma wp_printf {Q : Unit → Context → Prop} {E : Fault → Context → Prop} :
    Prog.wp (printf l) Q E c ↔ Q () (c.adv 0 l) := by
  have hzero : c.index + BitVec.ofNat 16 0 = c.index := BitVec.add_zero _
  rw [Context.adv, hzero]
  exact Iff.rfl

lemma wp_getByte {Q : Byte → Context → Prop} {E : Fault → Context → Prop} (h : c.index.toNat < c.data.length) :
    Prog.wp getByte Q E c ↔ Q (c.byteAt c.index.toNat) (c.adv 1 []) := by
  have hnil : c.out ++ [] = c.out := List.append_nil _
  rw [getByte, Prog.wp_bind, Prog.wp_get, Context.data_eq _ h, Context.adv, hnil]
  exact Iff.rfl

lemma wp_getByte_behind {Q : Byte → Context → Prop} {E : Fault → Context → Prop}
    (h : c.data.length ≤ c.index.toNat) :
    Prog.wp getByte Q E c ↔ E (.data c.index.toNat) c := by
  rw [getByte, Prog.wp_bind, Prog.wp_get, List.getElem?_eq_none h]
  exact Iff.rfl

lemma wp_mapHere {Q : Byte → Context → Prop} {E : Fault → Context → Prop} (h : c.index.toNat < 16384) :
    Prog.wp mapHere Q E c ↔ Q (c.markAt c.index.toNat) c := by
  rw [mapHere, Prog.wp_bind, Prog.wp_get, dif_pos h, Context.markAt, dif_pos h]
  exact Iff.rfl

lemma wp_mapHere_behind {Q : Byte → Context → Prop} {E : Fault → Context → Prop}
    (h : 16384 ≤ c.index.toNat) :
    Prog.wp mapHere Q E c ↔ E (.map c.index.toNat) c := by
  rw [mapHere, Prog.wp_bind, Prog.wp_get, dif_neg (by omega)]
  exact Iff.rfl

lemma wp_getLabel {Q : Option String → Context → Prop} {E : Fault → Context → Prop} :
    Prog.wp getLabel Q E c ↔ Q (c.labelAt c.index.toNat) c := by
  rw [← Context.labelAt_index]
  exact Iff.rfl

end Steps

/-! ## Regions -/

/-- A byte with the symbol for its address, if it has one. -/
abbrev Cell : Type := Option String × Byte

/-- The `n` bytes from index `i` on. -/
def Context.cells (c : Context) (i n : ℕ) : List Cell :=
  (List.range' i n).map fun k => (c.labelAt k, c.byteAt k)

lemma Context.cells_succ (c : Context) (i n : ℕ) :
    c.cells i (n + 1) = (c.labelAt i, c.byteAt i) :: c.cells (i + 1) n := rfl

/-- The text of a region of bytes after the first. -/
def bytesText : List Cell → List Tok
  | [] => []
  | (some label, b) :: r => text "\n" ++ [.sym label] ++ text "\t$" ++ hex02 b ++ bytesText r
  | (none, b) :: r => text ", $" ++ hex02 b ++ bytesText r

/-- The text of a region of text after the first byte, up to the quote that closes it. -/
def quotedText : Bool → List Cell → List Tok
  | inQuotes, [] => if inQuotes then text "\"\n" else text "\n"
  | inQuotes, (some label, b) :: r =>
      text (if inQuotes then "\"\n" else "\n") ++ [.sym label] ++ text "\t!text " ++
        textByte inQuotes false b ++ quotedText (Printable b) r
  | inQuotes, (none, b) :: r => textByte inQuotes true b ++ quotedText (Printable b) r

/-- The text of a region, without the label before it. -/
def regionText (m : Byte) : List Cell → List Tok
  | [] => []
  | (_, b) :: r =>
      if m = 0x62 then text "\t!byte $" ++ hex02 b ++ bytesText r ++ text "\n"
      else text "\t!text " ++ (if Printable b then text "\"" ++ charOf b else text "$" ++ hex02 b) ++
        quotedText (Printable b) r

/-- The label in front of a region. -/
def labelText : Option String → List Tok
  | some label => [.sym label]
  | none => []

section Regions

variable {c : Context} {m : Byte} {i j n t : ℕ}

/-- The `n` bytes from the index `i` on, which the program is at, are marked with `m`, and then the map
goes on otherwise or ends. -/
structure Region (c : Context) (m : Byte) (i n : ℕ) : Prop where
  index : c.index.toNat = i
  le : i + n ≤ 16384
  length : 16384 ≤ c.data.length
  mark : ∀ k, i ≤ k → k < i + n → c.markAt k = m
  stop : i + n < 16384 → c.markAt (i + n) ≠ m

lemma Region.next (h : Region c m i (n + 1)) (l : List Tok) : Region (c.adv 1 l) m (i + 1) n where
  index := by
    have := h.le
    rw [Context.adv_index _ (by rw [h.index]; omega), h.index]
  le := by
    have := h.le
    omega
  length := h.length
  mark k h1 h2 := h.mark k (by omega) (by omega)
  stop hlt := by
    rw [Nat.add_assoc, Nat.add_comm 1 n] at hlt ⊢
    exact h.stop hlt

lemma Region.lt (h : Region c m i (n + 1)) : c.index.toNat < 16384 := by
  have := h.le
  rw [h.index]
  omega

lemma Region.lt_length (h : Region c m i (n + 1)) : c.index.toNat < c.data.length :=
  h.lt.trans_le h.length

lemma Region.mark_here (h : Region c m i (n + 1)) : c.markAt c.index.toNat = m := by
  rw [h.index]
  exact h.mark i le_rfl (by omega)

/-- The region ends inside the map with `l` printed, or it is not noticed to end. -/
def Ended (c : Context) (i n : ℕ) (l : List Tok) (s : Context) : Prop :=
  s = c.adv n l ∧ i + n < 16384

lemma Ended.next {l l' : List Tok} {s : Context} (h : Ended (c.adv 1 l) (i + 1) n l' s) :
    Ended c i (n + 1) (l ++ l') s := by
  obtain ⟨rfl, hlt⟩ := h
  refine ⟨?_, by omega⟩
  rw [Context.adv_adv, Nat.add_comm 1 n]

/-- The loop prints what is marked as bytes, and reads the map behind it. -/
lemma byteLoop_spec (h : Region c 0x62 i n) (ht : n < t) :
    Prog.wp (byteLoop t) (fun _ => Ended c i n (bytesText (c.cells i n))) (fun _ _ => i + n = 16384) c := by
  induction t generalizing c i n with
  | zero => omega
  | succ t ih =>
      rw [byteLoop, Prog.wp_bind]
      cases n with
      | zero =>
          by_cases hend : i < 16384
          · rw [wp_mapHere (h.index ▸ hend), h.index, Prog.wp_ite]
            refine ⟨fun hm => absurd hm (h.stop hend), fun _ => ⟨?_, hend⟩⟩
            simp [Context.adv, Context.cells, bytesText]
          · have := h.le
            rw [wp_mapHere_behind (by rw [h.index]; omega)]
            omega
      | succ n =>
          have hloop : ∀ l, Prog.wp (byteLoop t)
              (fun _ => Ended c i (n + 1) (l ++ bytesText (c.cells (i + 1) n)))
              (fun _ _ => i + (n + 1) = 16384) (c.adv 1 l) := by
            intro l
            refine Prog.wp_mono (ih (h.next l) (by omega)) (fun _ _ hs => hs.next) ?_
            intro _ _ he
            omega
          rw [wp_mapHere h.lt, if_pos h.mark_here, Prog.wp_bind, wp_getLabel, h.index, Context.cells_succ]
          cases hlabel : c.labelAt i with
          | some label =>
              simp only [Prog.wp_bind, wp_getByte h.lt_length, wp_printf, Context.adv_adv, h.index,
                List.nil_append, Nat.add_zero]
              exact hloop _
          | none =>
              simp only [Prog.wp_bind, wp_getByte h.lt_length, wp_printf, Context.adv_adv, h.index,
                List.nil_append, Nat.add_zero]
              exact hloop _

/-- The end of a region of text. -/
def closeText (inQuotes : Bool) : List Tok := if inQuotes then text "\"\n" else text "\n"

/-- The loop prints what is marked as text, and reads the map behind it. -/
lemma textLoop_spec (q : Bool) (h : Region c 0x74 i n) (ht : n < t) :
    Prog.wp (textLoop t q true)
      (fun r s => ∃ l, Ended c i n l s ∧ l ++ closeText r = quotedText q (c.cells i n))
      (fun _ _ => i + n = 16384) c := by
  induction t generalizing c i n q with
  | zero => omega
  | succ t ih =>
      rw [textLoop, Prog.wp_bind]
      cases n with
      | zero =>
          by_cases hend : i < 16384
          · rw [wp_mapHere (h.index ▸ hend), h.index, Prog.wp_ite]
            refine ⟨fun hm => absurd hm (h.stop hend), fun _ => ⟨[], ⟨?_, hend⟩, rfl⟩⟩
            simp [Context.adv]
          · have := h.le
            rw [wp_mapHere_behind (by rw [h.index]; omega)]
            omega
      | succ n =>
          have hloop : ∀ l, Prog.wp (textLoop t (Printable (c.byteAt i)) true)
              (fun r s => ∃ l', Ended c i (n + 1) l' s ∧
                l' ++ closeText r = l ++ quotedText (Printable (c.byteAt i)) (c.cells (i + 1) n))
              (fun _ _ => i + (n + 1) = 16384) (c.adv 1 l) := by
            intro l
            refine Prog.wp_mono (ih (Printable (c.byteAt i)) (h.next l) (by omega)) ?_ ?_
            · rintro r s ⟨l', hs, hl'⟩
              refine ⟨l ++ l', hs.next, ?_⟩
              rw [List.append_assoc, hl']
              rfl
            · intro _ _ he
              omega
          rw [wp_mapHere h.lt, if_pos h.mark_here, Prog.wp_bind, wp_getLabel, h.index, Context.cells_succ]
          cases hlabel : c.labelAt i with
          | some label =>
              have hbyte : ∀ l, (c.adv 0 l).index.toNat < (c.adv 0 l).data.length := fun l => by
                rw [Context.adv_zero_index]
                exact h.lt_length
              simp only [Prog.wp_bind, wp_printf, wp_getByte (hbyte _), Context.adv_adv, Context.adv_byteAt,
                Context.adv_zero_index, h.index, List.append_nil, Nat.zero_add, Nat.add_zero]
              exact hloop _
          | none =>
              simp only [Prog.wp_bind, wp_getByte h.lt_length, wp_printf, Context.adv_adv, h.index,
                List.nil_append, Nat.add_zero]
              exact hloop _

lemma printLabel_spec (c : Context) :
    Prog.wp printLabel (fun _ s => s = c.adv 0 (labelText (c.labelAt c.index.toNat))) (fun _ _ => False) c := by
  rw [printLabel, Prog.wp_bind, wp_getLabel]
  cases c.labelAt c.index.toNat with
  | some label => exact wp_printf.2 rfl
  | none =>
      have hnil : c.adv 0 [] = c := by simp [Context.adv]
      exact hnil.symm

lemma printBytes_spec (h : Region c 0x62 i (n + 1)) :
    Prog.wp printBytes (fun _ => Ended c i (n + 1) (regionText 0x62 (c.cells i (n + 1))))
      (fun _ _ => i + (n + 1) = 16384) c := by
  have hle := h.le
  rw [printBytes, Prog.wp_bind, wp_getByte h.lt_length]
  simp only [Prog.wp_bind, wp_printf, Context.adv_adv, h.index, List.nil_append, Nat.add_zero]
  refine Prog.wp_mono (byteLoop_spec (h.next _) (by omega)) ?_ fun _ _ he => by omega
  rintro _ s ⟨rfl, hlt⟩
  refine ⟨?_, by omega⟩
  rw [Context.adv_adv, Context.adv_adv, Nat.add_zero, Nat.add_comm 1 n]
  rfl

lemma printText_spec (h : Region c 0x74 i (n + 1)) :
    Prog.wp printText (fun _ => Ended c i (n + 1) (regionText 0x74 (c.cells i (n + 1))))
      (fun _ _ => i + (n + 1) = 16384) c := by
  have hle := h.le
  rw [printText, Prog.wp_bind, wp_getByte h.lt_length]
  simp only [Prog.wp_bind, wp_printf, Context.adv_adv, h.index, List.nil_append, Nat.add_zero]
  refine Prog.wp_mono (textLoop_spec _ (h.next _) (by omega)) ?_ fun _ _ he => by omega
  rintro r s ⟨l, ⟨rfl, hlt⟩, hl⟩
  refine ⟨?_, by omega⟩
  rw [Context.adv_adv, Context.adv_adv, Nat.add_zero, Nat.add_comm 1 n]
  refine congrArg (c.adv (n + 1)) ?_
  exact congrArg _ hl

/-- **A region of data**: the label of its first byte, and then all of it. -/
lemma d6502_region (hm : m = 0x62 ∨ m = 0x74) (h : Region c m i (n + 1)) :
    Prog.wp d6502
      (fun _ => Ended c i (n + 1) (labelText (c.labelAt i) ++ regionText m (c.cells i (n + 1))))
      (fun _ _ => i + (n + 1) = 16384) c := by
  rw [d6502, Prog.wp_bind]
  refine Prog.wp_mono (printLabel_spec c) ?_ fun _ _ he => he.elim
  rintro _ s rfl
  have hz : Region (c.adv 0 (labelText (c.labelAt c.index.toNat))) m i (n + 1) :=
    ⟨(congrArg BitVec.toNat (Context.adv_zero_index ..)).trans h.index, h.le, h.length, h.mark, h.stop⟩
  have hended : ∀ s, Ended (c.adv 0 (labelText (c.labelAt c.index.toNat))) i (n + 1)
      (regionText m (c.cells i (n + 1))) s →
        Ended c i (n + 1) (labelText (c.labelAt i) ++ regionText m (c.cells i (n + 1))) s := by
    rintro s ⟨rfl, hlt⟩
    refine ⟨?_, hlt⟩
    rw [Context.adv_adv, Nat.zero_add, h.index]
  rw [Prog.wp_bind, wp_mapHere hz.lt, hz.mark_here]
  rcases hm with rfl | rfl
  · rw [if_pos rfl]
    exact Prog.wp_mono (printBytes_spec hz) (fun _ => hended) fun _ _ he => he
  · rw [if_neg (by decide), Prog.wp_bind, wp_mapHere hz.lt, hz.mark_here, if_pos rfl]
    exact Prog.wp_mono (printText_spec hz) (fun _ => hended) fun _ _ he => he

end Regions

/-! ## Instructions -/

/-- The number of bytes of the operand. -/
def AddrMode.size : AddrMode → ℕ
  | .ill => 0
  | .imp => 0
  | .acc => 0
  | .abs => 2
  | .ind => 2
  | .absx => 2
  | .absy => 2
  | _ => 1

/-- What is printed for an operand of the two bytes `lo` and `hi`, or of the first of them; `next`
is the address behind the first. -/
def operandText (symbols : Word → Option String) (next : Word) (lo hi : Byte) : AddrMode → List Tok
  | .ill => []
  | .imp => []
  | .acc => []
  | .imm => text " #" ++ value02 symbols lo ++ text ""
  | .abs => text " " ++ value04 symbols (wordOf lo hi) ++ text ""
  | .zp => text " " ++ value02 symbols lo ++ text ""
  | .ind => text " (" ++ value04 symbols (wordOf lo hi) ++ text ")"
  | .absx => text " " ++ value04 symbols (wordOf lo hi) ++ text ",x"
  | .absy => text " " ++ value04 symbols (wordOf lo hi) ++ text ",y"
  | .indx => text " (" ++ value02 symbols lo ++ text ",x)"
  | .indy => text " (" ++ value02 symbols lo ++ text "),y"
  | .zpx => text " " ++ value02 symbols lo ++ text ",x"
  | .zpy => text " " ++ value02 symbols lo ++ text ",y"
  | .rel => text " " ++ value04 symbols (next + lo.signExtend 16)

section Instructions

variable {c : Context} {i n : ℕ}

/-- The file has the `n` bytes from `i` on, and the program is behind them with `l` printed. -/
def Taken (c : Context) (i n : ℕ) (l : List Tok) (s : Context) : Prop :=
  s = c.adv n l ∧ i + n ≤ c.data.length

lemma doByte_spec (before after : String) (hi : c.index.toNat = i) :
    Prog.wp (doByte before after)
      (fun _ => Taken c i 1 (text before ++ value02 c.symbols (c.byteAt i) ++ text after))
      (fun _ _ => c.data.length < i + 1) c := by
  rw [doByte, Prog.wp_bind]
  by_cases h : c.index.toNat < c.data.length
  · simp only [wp_getByte h, Prog.wp_bind, Prog.wp_get, wp_printf, Context.adv_adv, Context.adv_symbols, hi,
      List.nil_append, Nat.add_zero]
    exact ⟨rfl, hi ▸ h⟩
  · rw [wp_getByte_behind (by omega)]
    omega

lemma doWord_spec (before after : String) (hi : c.index.toNat = i) (hlt : i + 1 < 65536) :
    Prog.wp (doWord before after)
      (fun _ => Taken c i 2
        (text before ++ value04 c.symbols (wordOf (c.byteAt i) (c.byteAt (i + 1))) ++ text after))
      (fun _ _ => c.data.length < i + 2) c := by
  have hnext : (c.adv 1 []).index.toNat = i + 1 := by
    rw [Context.adv_index _ (by omega), hi]
  rw [doWord, Prog.wp_bind]
  by_cases h : c.index.toNat < c.data.length
  · rw [wp_getByte h, Prog.wp_bind]
    by_cases h' : (c.adv 1 []).index.toNat < (c.adv 1 []).data.length
    · simp only [wp_getByte h', Prog.wp_bind, Prog.wp_get, wp_printf, Context.adv_adv, Context.adv_symbols,
        Context.adv_byteAt, hnext, hi, List.nil_append, Nat.add_zero]
      refine ⟨rfl, ?_⟩
      rwa [hnext] at h'
    · rw [wp_getByte_behind (by omega), ← Context.adv_data c 1 []]
      omega
  · rw [wp_getByte_behind (by omega)]
    omega

lemma doREL_spec (hi : c.index.toNat = i) :
    Prog.wp doREL
      (fun _ => Taken c i 1 (operandText c.symbols (c.orgAddr + BitVec.ofNat 16 (i + 1)) (c.byteAt i)
        (c.byteAt (i + 1)) .rel))
      (fun _ _ => c.data.length < i + 1) c := by
  have hindex : (c.adv 1 []).index = BitVec.ofNat 16 (i + 1) := by
    rw [Context.adv, BitVec.ofNat_add, ← hi, BitVec.ofNat_toNat, BitVec.setWidth_eq]
  rw [doREL, Prog.wp_bind]
  by_cases h : c.index.toNat < c.data.length
  · simp only [wp_getByte h, Prog.wp_bind, Prog.wp_get, wp_printf, Context.adv_adv, Context.adv_symbols,
      Context.adv_orgAddr, hindex, hi, List.nil_append, Nat.add_zero]
    exact ⟨rfl, hi ▸ h⟩
  · rw [wp_getByte_behind (by omega)]
    omega

/-- An operand is taken from the file, or the file ends in it. -/
lemma doOperand_spec (mode : AddrMode) (hi : c.index.toNat = i) (hle : i ≤ c.data.length)
    (hlt : i + 1 < 65536) :
    Prog.wp (doOperand mode)
      (fun _ => Taken c i mode.size
        (operandText c.symbols (c.orgAddr + BitVec.ofNat 16 (i + 1)) (c.byteAt i) (c.byteAt (i + 1)) mode))
      (fun _ _ => c.data.length < i + mode.size) c := by
  have hnone : Taken c i 0 [] c := by
    refine ⟨?_, hle⟩
    simp [Context.adv]
  cases mode with
  | ill => exact hnone
  | imp => exact hnone
  | acc => exact hnone
  | abs => exact doWord_spec _ _ hi hlt
  | ind => exact doWord_spec _ _ hi hlt
  | absx => exact doWord_spec _ _ hi hlt
  | absy => exact doWord_spec _ _ hi hlt
  | rel => exact doREL_spec hi
  | imm => exact doByte_spec _ _ hi
  | zp => exact doByte_spec _ _ hi
  | indx => exact doByte_spec _ _ hi
  | indy => exact doByte_spec _ _ hi
  | zpx => exact doByte_spec _ _ hi
  | zpy => exact doByte_spec _ _ hi

/-- The size of the instruction that an opcode begins. -/
def instrSize (b : Byte) : ℕ := 1 + (opcodeOf b).addrMode.size

/-- The line that is printed for an instruction, without the label before it. -/
def instrText (c : Context) (i : ℕ) : List Tok :=
  text "\t" ++ text (opcodeOf (c.byteAt i)).mnemonic ++
    operandText c.symbols (c.orgAddr + BitVec.ofNat 16 (i + 2)) (c.byteAt (i + 1)) (c.byteAt (i + 2))
      (opcodeOf (c.byteAt i)).addrMode ++
    (text "\t; 0x" ++ hex04 (c.orgAddr + BitVec.ofNat 16 i) ++ text "\n")

lemma Taken.after {k : ℕ} {l l' : List Tok} {s : Context} (h : Taken (c.adv k l) (i + k) n l' s) :
    Taken c i (k + n) (l ++ l') s := by
  obtain ⟨rfl, hle⟩ := h
  rw [Context.adv_data, Nat.add_assoc] at hle
  exact ⟨Context.adv_adv .., hle⟩

lemma printInstruction_spec (hi : c.index.toNat = i) (hlt : i < 16384) (hlen : 16384 ≤ c.data.length) :
    Prog.wp printInstruction (fun _ => Taken c i (instrSize (c.byteAt i)) (instrText c i))
      (fun _ _ => c.data.length < i + instrSize (c.byteAt i)) c := by
  have hbyte : c.index.toNat < c.data.length := by
    rw [hi]
    exact hlt.trans_le hlen
  have haddr : c.orgAddr + c.index = c.orgAddr + BitVec.ofNat 16 i := by
    rw [← hi, BitVec.ofNat_toNat, BitVec.setWidth_eq]
  rw [printInstruction, Prog.wp_bind, Prog.wp_get, Prog.wp_bind, wp_getByte hbyte]
  simp only [Prog.wp_bind, wp_printf, Context.adv_adv, hi, haddr, List.nil_append, Nat.add_zero]
  set l := text "\t" ++ text (opcodeOf (c.byteAt i)).mnemonic
  have hindex : (c.adv 1 l).index.toNat = i + 1 := by
    rw [Context.adv_index _ (by omega), hi]
  refine Prog.wp_mono (doOperand_spec _ hindex (by rw [Context.adv_data]; omega) (by omega)) ?_ ?_
  · rintro _ s hs
    obtain ⟨rfl, hle⟩ := hs.after
    refine ⟨?_, hle⟩
    rw [Context.adv_adv, Nat.add_zero]
    rfl
  · intro _ _ he
    rw [Context.adv_data] at he
    rw [instrSize]
    omega

/-- **An instruction**: its label, and then its line. -/
lemma d6502_instruction (hi : c.index.toNat = i) (hlt : i < 16384) (hlen : 16384 ≤ c.data.length)
    (hb : c.markAt i ≠ 0x62) (ht : c.markAt i ≠ 0x74) :
    Prog.wp d6502
      (fun _ => Taken c i (instrSize (c.byteAt i)) (labelText (c.labelAt i) ++ instrText c i))
      (fun _ _ => c.data.length < i + instrSize (c.byteAt i)) c := by
  rw [d6502, Prog.wp_bind]
  refine Prog.wp_mono (printLabel_spec c) ?_ fun _ _ he => he.elim
  rintro _ s rfl
  rw [hi]
  have hi' : (c.adv 0 (labelText (c.labelAt i))).index.toNat = i :=
    (congrArg BitVec.toNat (Context.adv_zero_index ..)).trans hi
  rw [Prog.wp_bind, wp_mapHere (hi'.trans_lt hlt), hi', Context.adv_markAt, if_neg hb, Prog.wp_bind,
    wp_mapHere (hi'.trans_lt hlt), hi', Context.adv_markAt, if_neg ht]
  refine Prog.wp_mono (printInstruction_spec hi' hlt hlen) ?_ fun _ _ he => he
  rintro _ s hs
  have htaken := Taken.after (k := 0) hs
  rw [Nat.zero_add] at htaken
  exact htaken

end Instructions

end Udfs.D6502
