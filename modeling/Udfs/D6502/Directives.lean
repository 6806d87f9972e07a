import Udfs.D6502.Bounds

/-!
# Reading data back

An assembler reads the lines that are printed for a region of data character by character.  A line is
a label, if there is one, a tab, the name of a directive and its operands, which are numbers and, for
text, strings of printable characters between double quotes.

The disassembler prints a region of text so that the region is read back, with the labels where they
belong, unless there is a double quote in it; and a region of bytes, unless there is a label in it
behind the first byte, for which it does not begin a new directive.
-/

namespace Udfs.D6502

/-! ## The reader -/

/-- A byte that may be written in a string. -/
def Quotable (b : Byte) : Prop := Printable b ∧ b ≠ 0x22

instance (b : Byte) : Decidable (Quotable b) := inferInstanceAs (Decidable (_ ∧ _))

/-- A byte as it is written: as a number, or in a string. -/
inductive Item where
  | number (b : Byte)
  | quoted (b : Byte) (h : Quotable b)

/-- The byte. -/
def Item.value : Item → Byte
  | number b => b
  | quoted b _ => b

/-- `!byte` or `!text`, with the label in front and the operands. -/
structure Directive where
  label : Option String
  isText : Bool
  items : List Item

/-- The bytes of a directive, of which the first has the label. -/
def Directive.cells (d : Directive) : List Cell :=
  match d.items with
  | [] => []
  | x :: r => (d.label, x.value) :: r.map fun y => (none, y.value)

/-- A place in a line. -/
inductive Place where
  | line
  | labelled
  | word (w : List Char)
  | operand
  | number
  | digit (n : ℕ)
  | string
  | behind

/-- What has been read. -/
structure Reader where
  directives : List Directive
  current : Directive
  place : Place

namespace Reader

/-- The next line. -/
def start (ds : List Directive) : Reader := ⟨ds, ⟨none, false, []⟩, .line⟩

/-- Go on to another place. -/
def goto (r : Reader) (p : Place) : Reader := { r with place := p }

/-- A byte of the directive. -/
def push (r : Reader) (x : Item) (p : Place) : Reader :=
  { r with current := { r.current with items := r.current.items ++ [x] }, place := p }

/-- The operands begin. -/
def opens (r : Reader) (isText : Bool) : Reader :=
  { r with current := { r.current with isText := isText }, place := .operand }

end Reader

/-- The value of a hexadecimal digit. -/
def hexValue (c : Char) : Option ℕ :=
  if 0x30 ≤ c.toNat ∧ c.toNat ≤ 0x39 then some (c.toNat - 0x30)
  else if 0x61 ≤ c.toNat ∧ c.toNat ≤ 0x66 then some (c.toNat - 0x57)
  else none

/-- A character in a string. -/
def Reader.quote (r : Reader) (c : Char) : Option Reader :=
  if h : c.toNat < 128 ∧ Quotable (BitVec.ofNat 8 c.toNat) then
    some (r.push (.quoted (BitVec.ofNat 8 c.toNat) h.2) .string)
  else none

/-- A character. -/
def Reader.readChar (r : Reader) (c : Char) : Option Reader :=
  match r.place with
  | .line => if c = '\t' then some (r.goto (.word [])) else none
  | .labelled => if c = '\t' then some (r.goto (.word [])) else none
  | .word w =>
      if c = ' ' then
        if w = "!byte".toList then some (r.opens false)
        else if w = "!text".toList then some (r.opens true)
        else none
      else if c = '\n' then none
      else some (r.goto (.word (w ++ [c])))
  | .operand =>
      if c = ' ' then some r
      else if c = '$' then some (r.goto .number)
      else if c = '"' ∧ r.current.isText then some (r.goto .string)
      else none
  | .number => (hexValue c).map fun n => r.goto (.digit n)
  | .digit n => (hexValue c).map fun k => r.push (.number (BitVec.ofNat 8 (16 * n + k))) .behind
  | .string => if c = '"' then some (r.goto .behind) else r.quote c
  | .behind =>
      if c = ',' then some (r.goto .operand)
      else if c = '\n' then some (Reader.start (r.directives ++ [r.current]))
      else none

/-- A character or a symbol. -/
def Reader.read (r : Reader) : Tok → Option Reader
  | .chr c => r.readChar c
  | .sym s =>
      match r.place with
      | .line => some { r with current := { r.current with label := some s }, place := .labelled }
      | _ => none

/-- The directives of a text, if it is made of lines with directives. -/
def readDirectives (l : List Tok) : Option (List Directive) :=
  match l.foldlM Reader.read (Reader.start []) with
  | some ⟨ds, ⟨none, _, []⟩, .line⟩ => some ds
  | _ => none

/-- The region of `n` bytes from the index `i` on is printed as directives with these bytes, and each
symbol labels the directive that begins with its byte. -/
def PrintsData (c : Context) (i n : ℕ) : Prop :=
  ∃ s l ds, d6502.run c = .ok () s ∧ s.out = c.out ++ l ∧ readDirectives l = some ds ∧
    ds.flatMap Directive.cells = c.cells i n

/-! ## Pieces of a line -/

/-- A text takes the reader from `r` to `r'`. -/
def Reads (l : List Tok) (r r' : Reader) : Prop := l.foldlM Reader.read r = some r'

section Pieces

variable {l l' : List Tok} {r r' r'' : Reader} {b : Byte} {x : Item}

/-- What stands behind a piece that is read. -/
lemma Reads.append_iff (h : Reads l r r') : Reads (l ++ l') r r'' ↔ Reads l' r' r'' := by
  rw [Reads, List.foldlM_append, show l.foldlM Reader.read r = some r' from h]
  exact Iff.rfl

lemma Reads.append {m : Reader} (h : Reads l r m) (h' : Reads l' m r') : Reads (l ++ l') r r' :=
  h.append_iff.2 h'

lemma hexValue_hexDigit {n : ℕ} (h : n < 16) : hexValue (hexDigit n) = some n := by
  interval_cases n <;> decide

lemma charOf_toNat (b : Byte) : (Char.ofNat b.toNat).toNat = b.toNat := by
  revert b
  decide +kernel

/-- A number. -/
lemma reads_hex02 (hp : r.place = .number) : Reads (hex02 b) r (r.push (.number b) .behind) := by
  have hb := byte_lt b
  have hval : BitVec.ofNat 8 (16 * (b.toNat / 16) + b.toNat % 16) = b := by
    rw [Nat.div_add_mod]
    exact BitVec.ofNat_toNat 8 b |>.trans (BitVec.setWidth_eq b)
  obtain ⟨ds, d, p⟩ := r
  subst hp
  simp only [Reads, hex02, List.foldlM_cons, List.foldlM_nil, Reader.read, Reader.readChar,
    hexValue_hexDigit (by omega : b.toNat / 16 < 16), hexValue_hexDigit (by omega : b.toNat % 16 < 16),
    Option.map_some, Option.bind_eq_bind, Option.bind_some, Reader.goto, hval]
  rfl

/-- A character of a string. -/
lemma reads_charOf (hp : r.place = .string) (hq : Quotable b) :
    Reads (charOf b) r (r.push (.quoted b hq) .string) := by
  have hb : BitVec.ofNat 8 (Char.ofNat b.toNat).toNat = b := by
    rw [charOf_toNat]
    exact BitVec.ofNat_toNat 8 b |>.trans (BitVec.setWidth_eq b)
  have hlt : (Char.ofNat b.toNat).toNat < 128 := by
    rw [charOf_toNat]
    have := hq.1.2
    omega
  have hne : Char.ofNat b.toNat ≠ '"' := by
    intro he
    have hq34 := congrArg Char.toNat he
    rw [charOf_toNat] at hq34
    exact hq.2 (BitVec.eq_of_toNat_eq hq34)
  obtain ⟨ds, d, p⟩ := r
  subst hp
  simp only [Reads, charOf, List.foldlM_cons, List.foldlM_nil, Reader.read, Reader.readChar, if_neg hne,
    Reader.quote, hb, hlt, hq, and_self, dif_pos]
  rfl

/-! The formats, at the places where they are printed. -/

lemma reads_label (s : String) (ds : List Directive) :
    Reads [.sym s] (.start ds) ⟨ds, ⟨some s, false, []⟩, .labelled⟩ := rfl

lemma reads_byteDirective (hp : r.place = .line ∨ r.place = .labelled) :
    Reads (text "\t!byte $") r ((r.opens false).goto .number) := by
  obtain ⟨ds, d, p⟩ := r
  rcases hp with hp | hp <;> subst hp <;> rfl

lemma reads_textDirective (hp : r.place = .line ∨ r.place = .labelled) :
    Reads (text "\t!text ") r (r.opens true) := by
  obtain ⟨ds, d, p⟩ := r
  rcases hp with hp | hp <;> subst hp <;> rfl

lemma reads_nextNumber (hp : r.place = .behind) :
    Reads (text ", $" ++ hex02 b) r (r.push (.number b) .behind) := by
  have hcomma : Reads (text ", $") r (r.goto .number) := by
    obtain ⟨ds, d, p⟩ := r
    subst hp
    rfl
  exact hcomma.append (reads_hex02 rfl)

lemma reads_newline (hp : r.place = .behind) :
    Reads (text "\n") r (.start (r.directives ++ [r.current])) := by
  obtain ⟨ds, d, p⟩ := r
  subst hp
  rfl

lemma reads_closing (hp : r.place = .string) :
    Reads (text "\"\n") r (.start (r.directives ++ [r.current])) := by
  obtain ⟨ds, d, p⟩ := r
  subst hp
  rfl

end Pieces

/-! ## What has been read -/

/-- The bytes read, with the labels of directives. -/
def Reader.cells (r : Reader) : List Cell := r.directives.flatMap Directive.cells ++ r.current.cells

section Cells

variable {r : Reader} {x : Item} {p : Place} {ds : List Directive}

lemma cells_start (ds : List Directive) : (Reader.start ds).cells = ds.flatMap Directive.cells :=
  List.append_nil _

lemma cells_close (r : Reader) :
    (Reader.start (r.directives ++ [r.current])).cells = r.cells := by
  rw [cells_start, List.flatMap_append, List.flatMap_singleton, Reader.cells]

/-- A byte behind the first of a directive. -/
lemma cells_push (h : r.current.items ≠ []) : (r.push x p).cells = r.cells ++ [(none, x.value)] := by
  obtain ⟨y, l, hl⟩ := List.exists_cons_of_ne_nil h
  simp only [Reader.cells, Reader.push, Directive.cells, hl, List.cons_append, List.map_append,
    List.map_cons, List.map_nil, List.append_assoc]

/-- The first byte of a directive. -/
lemma cells_push_first (h : r.current.items = []) :
    (r.push x p).cells = r.directives.flatMap Directive.cells ++ [(r.current.label, x.value)] := by
  simp only [Reader.cells, Reader.push, Directive.cells, h, List.nil_append, List.map_nil]

lemma items_push (r : Reader) (x : Item) (p : Place) : (r.push x p).current.items ≠ [] := by
  simp [Reader.push]

lemma readDirectives_of_reads {l : List Tok} (h : Reads l (.start []) (.start ds)) :
    readDirectives l = some ds := by
  rw [readDirectives, show l.foldlM Reader.read (.start []) = some (.start ds) from h]
  rfl

end Cells

/-! ## Regions of bytes -/

section Bytes

variable {r : Reader} {l : List Cell}

/-- Without labels a region of bytes is read back. -/
lemma reads_bytesText (hp : r.place = .behind) (hi : r.current.items ≠ []) (hl : ∀ x ∈ l, x.1 = none) :
    ∃ r', Reads (bytesText l) r r' ∧ r'.place = .behind ∧ r'.cells = r.cells ++ l := by
  induction l generalizing r with
  | nil => exact ⟨r, rfl, hp, (List.append_nil _).symm⟩
  | cons x l ih =>
      obtain ⟨label, b⟩ := x
      obtain rfl : label = none := hl _ List.mem_cons_self
      obtain ⟨r', hr, hp', hcells⟩ := ih (r := r.push (.number b) .behind) rfl
        (items_push r _ _) fun y hy => hl y (List.mem_cons_of_mem _ hy)
      refine ⟨r', (reads_nextNumber hp).append hr, hp', ?_⟩
      rw [hcells, cells_push hi, List.append_assoc]
      rfl

/-- A line with a number where its directive should be is not read. -/
lemma not_reads_word {l : List Tok} {r' : Reader} {w : List Char} (hp : r.place = .word ('$' :: w))
    (h : Reads l r r') : ∃ w, r'.place = .word ('$' :: w) := by
  induction l generalizing r w with
  | nil =>
      obtain rfl : r = r' := Option.some.inj h
      exact ⟨w, hp⟩
  | cons t l ih =>
      rw [Reads, List.foldlM_cons, Option.bind_eq_bind, Option.bind_eq_some_iff] at h
      obtain ⟨r₁, hr₁, h⟩ := h
      cases t with
      | sym s =>
          simp only [Reader.read, hp] at hr₁
          cases hr₁
      | chr c =>
          simp only [Reader.read, Reader.readChar, hp] at hr₁
          have hbyte : '$' :: w ≠ "!byte".toList := fun he => absurd (List.cons.inj he).1 (by decide)
          have htext : '$' :: w ≠ "!text".toList := fun he => absurd (List.cons.inj he).1 (by decide)
          rw [if_neg hbyte, if_neg htext] at hr₁
          split_ifs at hr₁
          cases hr₁
          exact ih (r := r.goto (.word ('$' :: w ++ [c]))) rfl h

/-- With a label a region of bytes is not read. -/
lemma not_reads_bytesText {s : List Tok} {r' : Reader} (hp : r.place = .behind)
    (hl : ∃ x ∈ l, x.1 ≠ none) (h : Reads (bytesText l ++ s) r r') :
    ∃ w, r'.place = .word ('$' :: w) := by
  induction l generalizing r with
  | nil =>
      obtain ⟨x, hx, -⟩ := hl
      cases hx
  | cons x l ih =>
      obtain ⟨label, b⟩ := x
      cases label with
      | some label =>
          have hline : Reads (text "\n" ++ [.sym label] ++ text "\t$") r
              ⟨r.directives ++ [r.current], ⟨some label, false, []⟩, .word ['$']⟩ := by
            refine ((reads_newline hp).append (reads_label label _)).append ?_
            rfl
          rw [bytesText, List.append_assoc, List.append_assoc, hline.append_iff] at h
          exact not_reads_word rfl h
      | none =>
          rw [bytesText, List.append_assoc, (reads_nextNumber hp).append_iff] at h
          refine ih rfl ?_ h
          obtain ⟨x, hx, hne⟩ := hl
          exact ⟨x, (List.mem_cons.1 hx).resolve_left fun he => hne (congrArg Prod.fst he), hne⟩

end Bytes

/-! ## Regions of text -/

/-- A byte of a text as it is printed. -/
def itemOf (b : Byte) : Item := if h : Quotable b then .quoted b h else .number b

@[simp] lemma itemOf_value (b : Byte) : (itemOf b).value = b := by
  rw [itemOf]
  split <;> rfl

/-- The flags `inQuotes` and `needComma` say where the reader is: in a string, behind a number, or,
behind a label, where the first operand is due, whatever `inQuotes` says. -/
structure InText (q needComma : Bool) (r : Reader) : Prop where
  isText : r.current.isText = true
  place : r.place = if needComma then (if q then .string else .behind) else .operand

section Text

variable {r : Reader} {l : List Cell} {q needComma : Bool} {b : Byte}

lemma InText.push (h : InText q needComma r) (b : Byte) :
    InText (Printable b) true (r.push (itemOf b) (if Printable b then .string else .behind)) := by
  refine ⟨h.isText, ?_⟩
  by_cases hp : Printable b <;> simp [Reader.push, hp]

/-- **The transitions of the text printer.**  A byte is printed as the flags and the reader need it. -/
lemma reads_textByte (h : InText q needComma r) (hb : b ≠ 0x22) :
    Reads (textByte q needComma b) r (r.push (itemOf b) (if Printable b then .string else .behind)) := by
  obtain ⟨ds, ⟨label, isText, items⟩, p⟩ := r
  obtain ⟨rfl, hplace⟩ : isText = true ∧ p = _ := ⟨h.isText, h.place⟩
  subst hplace
  by_cases hp : Printable b
  · have hitem : itemOf b = .quoted b ⟨hp, hb⟩ := dif_pos ⟨hp, hb⟩
    rw [textByte, if_pos hp, if_pos hp, hitem]
    cases q <;> cases needComma
    · exact Reads.append (m := ⟨ds, ⟨label, true, items⟩, .string⟩) rfl (reads_charOf rfl _)
    · exact Reads.append (m := ⟨ds, ⟨label, true, items⟩, .string⟩) rfl (reads_charOf rfl _)
    · exact Reads.append (m := ⟨ds, ⟨label, true, items⟩, .string⟩) rfl (reads_charOf rfl _)
    · exact reads_charOf rfl _
  · have hitem : itemOf b = .number b := dif_neg fun hq => hp hq.1
    rw [textByte, if_neg hp, if_neg hp, hitem]
    cases q <;> cases needComma <;>
      exact Reads.append (m := ⟨ds, ⟨label, true, items⟩, .number⟩) rfl (reads_hex02 rfl)

/-- The end of a line of text. -/
lemma reads_closeText (h : InText q true r) :
    Reads (text (if q then "\"\n" else "\n")) r (.start (r.directives ++ [r.current])) := by
  have hp := h.place
  cases q with
  | true => exact reads_closing hp
  | false => exact reads_newline hp

/-- Without double quotes a region of text is read back. -/
lemma reads_quotedText (h : InText q true r) (hi : r.current.items ≠ []) (hl : ∀ x ∈ l, x.2 ≠ 0x22) :
    ∃ ds, Reads (quotedText q l) r (.start ds) ∧ ds.flatMap Directive.cells = r.cells ++ l := by
  induction l generalizing r q with
  | nil =>
      refine ⟨_, ?_, (cells_start _).symm.trans ((cells_close r).trans (List.append_nil _).symm)⟩
      have hclose := reads_closeText h
      cases q <;> exact hclose
  | cons x l ih =>
      obtain ⟨label, b⟩ := x
      have hb : b ≠ 0x22 := hl _ List.mem_cons_self
      have hrest : ∀ y ∈ l, y.2 ≠ 0x22 := fun y hy => hl y (List.mem_cons_of_mem _ hy)
      cases label with
      | none =>
          obtain ⟨ds, hds, hcells⟩ := ih (h.push b) (items_push r _ _) hrest
          refine ⟨ds, (reads_textByte h hb).append hds, ?_⟩
          rw [hcells, cells_push hi, List.append_assoc, itemOf_value]
          rfl
      | some label =>
          set r₁ : Reader := ⟨r.directives ++ [r.current], ⟨some label, true, []⟩, .operand⟩ with hr₁
          have hline : Reads (text (if q then "\"\n" else "\n") ++ [.sym label] ++ text "\t!text ") r r₁ :=
            ((reads_closeText h).append (reads_label label _)).append (reads_textDirective (Or.inr rfl))
          have h₁ : InText q false r₁ := ⟨rfl, rfl⟩
          obtain ⟨ds, hds, hcells⟩ := ih (h₁.push b) (items_push r₁ _ _) hrest
          refine ⟨ds, (hline.append (reads_textByte h₁ hb)).append hds, ?_⟩
          rw [hcells, cells_push_first rfl, itemOf_value, hr₁, List.append_assoc, ← cells_start, cells_close]
          rfl

end Text

/-! ## Counting dollar signs

A dollar sign is printed for each number, and for each byte that is one.  So it is with what is read,
and therefore every number that is read was printed as one, and no double quote is read. -/

/-- The dollar signs in a byte as it is read. -/
def Item.dollars : Item → ℕ
  | number _ => 1
  | quoted b _ => if b = 0x24 then 1 else 0

/-- The dollar signs in a byte as it is printed. -/
def dollarsOf (b : Byte) : ℕ := if Printable b then (if b = 0x24 then 1 else 0) else 1

/-- The dollar signs before a place. -/
def Place.dollars : Place → ℕ
  | .word w => w.count '$'
  | .number => 1
  | .digit _ => 1
  | _ => 0

/-- The operands read. -/
def Reader.items (r : Reader) : List Item := r.directives.flatMap Directive.items ++ r.current.items

/-- The dollar signs read. -/
def Reader.dollars (r : Reader) : ℕ := (r.items.map Item.dollars).sum + r.place.dollars

section Dollars

variable {r r' : Reader} {l : List Tok} {t : Tok}

lemma items_start (r : Reader) : (Reader.start (r.directives ++ [r.current])).items = r.items := by
  simp [Reader.start, Reader.items]

lemma dollars_goto (p : Place) : (r.goto p).dollars = (r.items.map Item.dollars).sum + p.dollars := rfl

lemma dollars_push (x : Item) (p : Place) :
    (r.push x p).dollars = (r.items.map Item.dollars).sum + x.dollars + p.dollars := by
  simp [Reader.dollars, Reader.items, Reader.push, ← List.append_assoc]

lemma quote_dollars {c : Char} (hp : r.place = .string) (h : r.quote c = some r') :
    r'.dollars = r.dollars + if c = '$' then 1 else 0 := by
  rw [Reader.quote] at h
  split_ifs at h with hc
  cases h
  have hbyte : BitVec.ofNat 8 c.toNat = (0x24 : Byte) ↔ c = '$' := by
    constructor
    · intro he
      have hnat := congrArg BitVec.toNat he
      rw [BitVec.toNat_ofNat] at hnat
      have h24 : (0x24 : Byte).toNat = 36 := rfl
      exact Char.toNat_inj.1 (show c.toNat = 36 by omega)
    · rintro rfl
      rfl
  rw [dollars_push, Reader.dollars, hp, Item.dollars]
  simp only [hbyte, Place.dollars, Nat.add_zero]

lemma readChar_dollars {c : Char} (h : r.readChar c = some r') :
    r'.dollars = r.dollars + if c = '$' then 1 else 0 := by
  have hr : r.dollars = (r.items.map Item.dollars).sum + r.place.dollars := rfl
  rw [Reader.readChar] at h
  cases hp : r.place with
  | line =>
      simp only [hp] at h hr
      split_ifs at h with hc
      cases h
      subst hc
      rw [hr]
      rfl
  | labelled =>
      simp only [hp] at h hr
      split_ifs at h with hc
      cases h
      subst hc
      rw [hr]
      rfl
  | word w =>
      simp only [hp] at h hr
      split_ifs at h with hc hw hw' hn
      · cases h
        subst hc hw
        rw [hr]
        rfl
      · cases h
        subst hc hw'
        rw [hr]
        rfl
      · cases h
        rw [hr, dollars_goto, Place.dollars, Place.dollars, List.count_append, List.count_singleton]
        simp only [beq_iff_eq, Nat.add_assoc]
  | operand =>
      simp only [hp] at h hr
      split_ifs at h with h1 h2 h3
      · cases h
        subst h1
        rfl
      · cases h
        subst h2
        rw [hr]
        rfl
      · cases h
        obtain ⟨rfl, -⟩ := h3
        rw [hr]
        rfl
  | number =>
      simp only [hp] at h hr
      obtain ⟨n, hn, rfl⟩ := Option.map_eq_some_iff.1 h
      have hc : c ≠ '$' := by
        rintro rfl
        cases hn
      rw [hr, if_neg hc]
      rfl
  | digit n =>
      simp only [hp] at h hr
      obtain ⟨k, hk, rfl⟩ := Option.map_eq_some_iff.1 h
      have hc : c ≠ '$' := by
        rintro rfl
        cases hk
      rw [hr, if_neg hc, dollars_push]
      rfl
  | string =>
      simp only [hp] at h hr
      split_ifs at h with hc
      · cases h
        subst hc
        rw [hr]
        rfl
      · exact quote_dollars hp h
  | behind =>
      simp only [hp] at h hr
      split_ifs at h with h1 h2
      · cases h
        subst h1
        rw [hr]
        rfl
      · cases h
        subst h2
        rw [hr, Reader.dollars, items_start]
        rfl

lemma read_dollars (h : r.read t = some r') :
    r'.dollars = r.dollars + if t = .chr '$' then 1 else 0 := by
  cases t with
  | chr c =>
      rw [readChar_dollars h]
      simp
  | sym s =>
      rw [Reader.read] at h
      cases hp : r.place <;> simp only [hp] at h <;> cases h
      simp [Reader.dollars, hp, Reader.items, Place.dollars]

/-- Reading keeps the number of dollar signs. -/
lemma Reads.dollars (h : Reads l r r') : r'.dollars = r.dollars + l.count (.chr '$') := by
  induction l generalizing r with
  | nil =>
      obtain rfl : r = r' := Option.some.inj h
      rfl
  | cons t l ih =>
      rw [Reads, List.foldlM_cons, Option.bind_eq_bind, Option.bind_eq_some_iff] at h
      obtain ⟨r₁, hr₁, h⟩ := h
      rw [ih h, read_dollars hr₁, List.count_cons]
      simp only [beq_iff_eq]
      omega

/-! So does printing. -/

lemma hexDigit_ne {n : ℕ} (h : n < 16) : hexDigit n ≠ '$' := by
  interval_cases n <;> decide

lemma count_hex02 (b : Byte) : (hex02 b).count (.chr '$') = 0 := by
  have hb := byte_lt b
  rw [List.count_eq_zero, hex02]
  have h1 := hexDigit_ne (by omega : b.toNat / 16 < 16)
  have h2 := hexDigit_ne (by omega : b.toNat % 16 < 16)
  simp [h1.symm, h2.symm]

lemma count_charOf {b : Byte} (hp : Printable b) : (charOf b).count (.chr '$') = dollarsOf b := by
  revert b
  decide +kernel

lemma count_textByte (q needComma : Bool) (b : Byte) :
    (textByte q needComma b).count (.chr '$') = dollarsOf b := by
  rw [textByte]
  split_ifs with hp
  all_goals first
    | rw [List.count_append, count_charOf hp]; exact Nat.zero_add _
    | rw [count_charOf hp]
    | rw [List.count_append, count_hex02, dollarsOf, if_neg hp]; rfl

lemma count_quotedText (q : Bool) (l : List Cell) :
    (quotedText q l).count (.chr '$') = (l.map fun x => dollarsOf x.2).sum := by
  induction l generalizing q with
  | nil => cases q <;> rfl
  | cons x l ih =>
      obtain ⟨label, b⟩ := x
      rw [List.map_cons, List.sum_cons]
      cases label with
      | none => rw [quotedText, List.count_append, count_textByte, ih]
      | some label =>
          have hline : (text (if q then "\"\n" else "\n") ++ [Tok.sym label] ++ text "\t!text ").count
              (Tok.chr '$') = 0 := by
            cases q <;> rfl
          rw [quotedText, List.count_append, List.count_append, hline, count_textByte, ih, Nat.zero_add]

end Dollars

/-! ## Whole regions -/

section Whole

variable {c : Context} {i n : ℕ} {m : Byte} {label : Option String} {b : Byte} {l : List Cell}
  {ds : List Directive}

lemma reads_labelText (label : Option String) :
    ∃ p, (p = .line ∨ p = .labelled) ∧ Reads (labelText label) (.start []) ⟨[], ⟨label, false, []⟩, p⟩ := by
  cases label with
  | none => exact ⟨.line, Or.inl rfl, rfl⟩
  | some s => exact ⟨.labelled, Or.inr rfl, reads_label s []⟩

lemma reads_of_readDirectives {k : List Tok} (h : readDirectives k = some ds) :
    ∃ t, Reads k (.start []) ⟨ds, ⟨none, t, []⟩, .line⟩ := by
  rw [readDirectives] at h
  split at h
  · next ds' t hread =>
      cases h
      exact ⟨t, hread⟩
  · cases h

/-- The first byte of a region of bytes. -/
lemma reads_firstByte (label : Option String) (b : Byte) :
    Reads (labelText label ++ (text "\t!byte $" ++ hex02 b)) (.start [])
      ⟨[], ⟨label, false, [.number b]⟩, .behind⟩ := by
  obtain ⟨p, hp, hlabel⟩ := reads_labelText label
  exact hlabel.append ((reads_byteDirective hp).append (reads_hex02 rfl))

lemma readDirectives_bytes (hl : ∀ x ∈ l, x.1 = none) :
    ∃ ds, readDirectives (labelText label ++ regionText 0x62 ((label, b) :: l)) = some ds ∧
      ds.flatMap Directive.cells = (label, b) :: l := by
  obtain ⟨r', hr, hp, hcells⟩ := reads_bytesText (r := ⟨[], ⟨label, false, [.number b]⟩, .behind⟩) rfl
    (List.cons_ne_nil _ _) hl
  refine ⟨r'.directives ++ [r'.current], readDirectives_of_reads ?_, ?_⟩
  · rw [regionText, if_pos rfl, ← List.append_assoc, ← List.append_assoc]
    exact ((reads_firstByte label b).append hr).append (reads_newline hp)
  · rw [← cells_start, cells_close, hcells]
    rfl

lemma not_readDirectives_bytes (hl : ∃ x ∈ l, x.1 ≠ none) :
    readDirectives (labelText label ++ regionText 0x62 ((label, b) :: l)) ≠ some ds := by
  intro h
  obtain ⟨t, hread⟩ := reads_of_readDirectives h
  rw [regionText, if_pos rfl, List.append_assoc, ← List.append_assoc, (reads_firstByte label b).append_iff] at hread
  obtain ⟨w, hw⟩ := not_reads_bytesText rfl hl hread
  cases hw

/-- The first byte of a region of text. -/
lemma reads_firstText (label : Option String) (hb : b ≠ 0x22) :
    Reads (labelText label ++
        (text "\t!text " ++ if Printable b then text "\"" ++ charOf b else text "$" ++ hex02 b)) (.start [])
      ⟨[], ⟨label, true, [itemOf b]⟩, if Printable b then .string else .behind⟩ := by
  obtain ⟨p, hp, hlabel⟩ := reads_labelText label
  have hfirst : InText false false ⟨[], ⟨label, true, []⟩, .operand⟩ := ⟨rfl, rfl⟩
  exact hlabel.append ((reads_textDirective hp).append (reads_textByte hfirst hb))

lemma readDirectives_text (hb : b ≠ 0x22) (hl : ∀ x ∈ l, x.2 ≠ 0x22) :
    ∃ ds, readDirectives (labelText label ++ regionText 0x74 ((label, b) :: l)) = some ds ∧
      ds.flatMap Directive.cells = (label, b) :: l := by
  have hin : InText (Printable b) true
      ⟨[], ⟨label, true, [itemOf b]⟩, if Printable b then .string else .behind⟩ := by
    refine ⟨rfl, ?_⟩
    by_cases hp : Printable b <;> simp [hp]
  obtain ⟨ds, hds, hcells⟩ := reads_quotedText hin (List.cons_ne_nil _ _) hl
  refine ⟨ds, readDirectives_of_reads ?_, ?_⟩
  · rw [regionText, if_neg (by decide), ← List.append_assoc]
    exact (reads_firstText label hb).append hds
  · rw [hcells]
    simp [Reader.cells, Directive.cells]

/-- A byte is read with at least as many dollar signs as it is printed with, and a double quote with
more. -/
lemma dollarsOf_le (x : Item) : dollarsOf x.value ≤ x.dollars ∧ (x.value = 0x22 → dollarsOf x.value < x.dollars) := by
  cases x with
  | number b =>
      have hle : ∀ b, dollarsOf b ≤ 1 ∧ (b = 0x22 → dollarsOf b < 1) := by decide +kernel
      exact hle b
  | quoted b h =>
      refine ⟨?_, fun he => absurd he h.2⟩
      rw [Item.value, dollarsOf, if_pos h.1, Item.dollars]

lemma directive_values (d : Directive) : d.cells.map Prod.snd = d.items.map Item.value := by
  rw [Directive.cells]
  cases d.items with
  | nil => rfl
  | cons x r => simp

lemma count_regionText (label : Option String) (l : List Cell) :
    (labelText label ++ regionText 0x74 l).count (Tok.chr '$') = (l.map fun x => dollarsOf x.2).sum := by
  have hlabel : (labelText label).count (Tok.chr '$') = 0 := by cases label <;> rfl
  rw [List.count_append, hlabel, Nat.zero_add]
  cases l with
  | nil => rfl
  | cons x l =>
      have hfirst := count_textByte false false x.2
      rw [regionText, if_neg (by decide), List.count_append, List.count_append, count_quotedText, List.map_cons,
        List.sum_cons, ← hfirst]
      exact congrArg (· + _) (Nat.zero_add _)

/-- A region of text with a double quote is not read back. -/
lemma not_mem_of_readDirectives
    (hread : readDirectives (labelText label ++ regionText 0x74 l) = some ds)
    (hcells : ds.flatMap Directive.cells = l) : ∀ x ∈ l, x.2 ≠ 0x22 := by
  obtain ⟨t, hreads⟩ := reads_of_readDirectives hread
  have hvalues : (ds.flatMap Directive.items).map Item.value = l.map Prod.snd := by
    rw [← hcells, List.map_flatMap, List.map_flatMap]
    exact List.flatMap_congr fun d _ => (directive_values d).symm
  have hsum : ((ds.flatMap Directive.items).map Item.dollars).sum
      = ((ds.flatMap Directive.items).map (dollarsOf ∘ Item.value)).sum := by
    have hcount := hreads.dollars
    have hprinted : (l.map fun x => dollarsOf x.2) = (l.map Prod.snd).map dollarsOf := by
      rw [List.map_map]
      rfl
    rw [count_regionText, hprinted, ← hvalues, List.map_map, Reader.dollars, Reader.items, List.append_nil] at hcount
    simpa [Reader.dollars, Reader.items, Reader.start, Place.dollars] using hcount
  intro x hx h22
  have hmem : x.2 ∈ (ds.flatMap Directive.items).map Item.value := by
    rw [hvalues]
    exact List.mem_map_of_mem hx
  obtain ⟨y, hy, hval⟩ := List.mem_map.1 hmem
  have hlt := List.sum_lt_sum (l := ds.flatMap Directive.items) (fun x => dollarsOf x.value) Item.dollars
    (fun z _ => (dollarsOf_le z).1) ⟨y, hy, (dollarsOf_le y).2 (hval.trans h22)⟩
  exact hlt.ne hsum.symm

lemma mem_cells {x : Cell} : x ∈ c.cells i n ↔ ∃ k, (i ≤ k ∧ k < i + n) ∧ (c.labelAt k, c.byteAt k) = x := by
  rw [Context.cells, List.mem_map]
  simp only [List.mem_range'_1]

/-- What a region is printed as, if it does not go up to the end of the map. -/
lemma printsData_iff_reads (hm : IsData m) (h : Region c m i (n + 1)) :
    PrintsData c i (n + 1) ↔ i + (n + 1) < 16384 ∧ ∃ ds,
      readDirectives (labelText (c.labelAt i) ++ regionText m (c.cells i (n + 1))) = some ds ∧
        ds.flatMap Directive.cells = c.cells i (n + 1) := by
  have hspec := d6502_region hm h
  constructor
  · rintro ⟨s, l, ds, hrun, hout, hread, hcells⟩
    rw [Prog.wp_of_ok hrun] at hspec
    obtain ⟨rfl, hlt⟩ := hspec
    rw [List.append_cancel_left hout] at *
    exact ⟨hlt, ds, hread, hcells⟩
  · rintro ⟨hlt, ds, hread, hcells⟩
    obtain ⟨_, s, hrun, rfl, -⟩ := Prog.exists_ok hspec fun _ _ he => absurd he hlt.ne
    exact ⟨_, _, ds, hrun, rfl, hread, hcells⟩

/-- **Disassembled data reassembles** exactly when the region ends inside the map, a region of bytes has
no symbol behind its first byte, and a region of text has no double quote. -/
theorem d6502_printsData_iff (hm : IsData m) (hn : 0 < n) (h : Region c m i n) :
    PrintsData c i n ↔ i + n < 16384 ∧ (m = 0x62 → ∀ k, i < k → k < i + n → c.labelAt k = none) ∧
      (m = 0x74 → ∀ k, i ≤ k → k < i + n → c.byteAt k ≠ 0x22) := by
  obtain ⟨n, rfl⟩ : ∃ k, n = k + 1 := ⟨n - 1, by omega⟩
  rw [printsData_iff_reads hm h]
  refine and_congr_right fun hlt => ?_
  rw [Context.cells_succ]
  rcases hm with rfl | rfl
  · have htail : (∀ x ∈ c.cells (i + 1) n, x.1 = none) ↔ ∀ k, i < k → k < i + (n + 1) → c.labelAt k = none := by
      simp only [mem_cells]
      constructor
      · exact fun hall k h1 h2 => hall _ ⟨k, ⟨h1, by omega⟩, rfl⟩
      · rintro hall _ ⟨k, ⟨h1, h2⟩, rfl⟩
        exact hall k h1 (by omega)
    simp only [forall_const, (by decide : (0x62 : Byte) ≠ 0x74), false_implies, and_true, ← htail]
    constructor
    · rintro ⟨ds, hread, -⟩
      by_contra hlabel
      push Not at hlabel
      exact not_readDirectives_bytes hlabel hread
    · exact readDirectives_bytes
  · have hall : (∀ x ∈ c.cells i (n + 1), x.2 ≠ 0x22) ↔ ∀ k, i ≤ k → k < i + (n + 1) → c.byteAt k ≠ 0x22 := by
      simp only [mem_cells]
      constructor
      · exact fun hall k h1 h2 => hall _ ⟨k, ⟨h1, h2⟩, rfl⟩
      · rintro hall _ ⟨k, ⟨h1, h2⟩, rfl⟩
        exact hall k h1 h2
    simp only [forall_const, (by decide : (0x74 : Byte) ≠ 0x62), false_implies, true_and, ← hall]
    rw [Context.cells_succ]
    constructor
    · rintro ⟨ds, hread, hcells⟩
      exact not_mem_of_readDirectives hread hcells
    · intro hq
      exact readDirectives_text (hq _ List.mem_cons_self) fun x hx => hq x (List.mem_cons_of_mem _ hx)

end Whole

/-- An image of equal bytes, of which the first two are text. -/
def twoChars (b : Byte) : Context where
  data := List.replicate 16384 b
  index := 0
  orgAddr := 0x8000
  symbols := fun _ => none
  map := fun i => if i.val < 2 then 0x74 else 0
  out := []

lemma twoChars_region (b : Byte) : Region (twoChars b) 0x74 0 2 where
  index := rfl
  le := by omega
  length := List.length_replicate.ge
  mark k _ hk := by
    rw [Context.markAt, dif_pos (by omega)]
    exact if_pos (by exact hk)
  stop _ := by
    have hmark : (twoChars b).markAt 2 = 0 := dif_pos (by omega)
    rw [Nat.zero_add, hmark]
    decide

lemma twoChars_byteAt (b : Byte) {k : ℕ} (hk : k < 16384) : (twoChars b).byteAt k = b := by
  rw [Context.byteAt, twoChars, List.getD_eq_getElem _ _ (by rwa [List.length_replicate]), List.getElem_replicate]

/-- Two letters, each with a symbol. -/
def labelled : Context :=
  { twoChars 0x41 with
    symbols := fun a => if a = 0x8000 then some "text" else if a = 0x8001 then some "rest" else none }

lemma labelled_region : Region labelled 0x74 0 2 where
  index := rfl
  le := by omega
  length := (twoChars_region 0x41).length
  mark := (twoChars_region 0x41).mark
  stop := (twoChars_region 0x41).stop

lemma labelled_byteAt {k : ℕ} (hk : k < 16384) : labelled.byteAt k = 0x41 := twoChars_byteAt 0x41 hk

/-- They are printed as a directive each, with its symbol. -/
theorem twoLetters_printsData :
    PrintsData labelled 0 2 ∧ labelled.cells 0 2 = [(some "text", 0x41), (some "rest", 0x41)] := by
  constructor
  · refine (d6502_printsData_iff (Or.inr rfl) (by omega) labelled_region).2 ⟨by omega, ?_, fun _ k _ hk => ?_⟩
    · exact fun h => absurd h (by decide)
    · rw [labelled_byteAt (by omega)]
      decide
  · rw [Context.cells_succ, Context.cells_succ, labelled_byteAt (by omega), labelled_byteAt (by omega)]
    rfl

/-- Two double quotes are not read back. -/
theorem twoQuotes_misread : Region (twoChars 0x22) 0x74 0 2 ∧ ¬ PrintsData (twoChars 0x22) 0 2 := by
  refine ⟨twoChars_region _, fun h => ?_⟩
  obtain ⟨-, ds, hread, hcells⟩ := (printsData_iff_reads (Or.inr rfl) (twoChars_region _)).1 h
  refine not_mem_of_readDirectives hread hcells _ (mem_cells.2 ⟨0, ⟨le_rfl, by omega⟩, rfl⟩) ?_
  exact twoChars_byteAt (k := 0) _ (by omega)

end Udfs.D6502
