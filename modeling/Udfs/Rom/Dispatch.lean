import Udfs.Rom.Search

/-!
# Which command a line is for

The names of the commands stand one behind the other in a table, each with the address of its routine,
of which the first byte has bit 7 set, and a byte about its parameters.  The loop compares the line
with a name up to its first character that differs, and goes on to the address from wherever it is.
A line is for the first command of which it has the whole name and then no letter, or the beginning
of the name and then a full stop; the last entry of the table has no name and takes the others.
-/

namespace Udfs.Rom

/-! ## The table -/

/-- The table at `cmdtxt_access`, up to the entry without a name. -/
def cmdtxt_access : List Byte :=
  ascii "ACCESS" ++ [0x88, 0xd1] ++ ascii "2" ++
  ascii "BACKUP" ++ [0x9c, 0xba] ++ ascii "T" ++
  ascii "COMPACT" ++ [0x9a, 0xbf, 0x0a] ++
  ascii "COPY" ++ [0x9d] ++ ascii "&d" ++
  ascii "DELETE" ++ [0x86, 0xfd, 0x01] ++
  ascii "DESTROY" ++ [0x87, 0x0f, 0x02] ++
  ascii "DIR" ++ [0x88] ++ ascii "M" ++ [0x09] ++
  ascii "DRIVE" ++ [0x87] ++ ascii "t" ++ [0x0a] ++
  ascii "ENABLE" ++ [0x8a] ++ ascii "8" ++ [0x00] ++
  ascii "INFO" ++ [0x82, 0x83, 0x02] ++
  ascii "LIB" ++ [0x88] ++ ascii "Q" ++ [0x09] ++
  ascii "RENAME" ++ [0x8a] ++ ascii "l" ++ [0x87] ++
  ascii "TITLE" ++ [0x88, 0xa2, 0x0b] ++
  ascii "WIPE" ++ [0x86, 0xc2, 0x02, 0xb0] ++ ascii "&" ++ [0x00]

/-! ## The loop -/

/-- The registers at `go_cmd_code`. -/
structure Cursor where
  x : Byte
  y : Byte
deriving DecidableEq, Repr

section Loop

variable (table : List Byte) (line : Byte → Byte)

/-- `cmdtxt_access,x`. -/
def tableAt (x : Byte) : Byte := table.getD x.toNat 0

/-- `$868a`: compare a name; the result tells whether its end was reached. -/
def compareCommand : ℕ → Cursor → Bool × Cursor
  | 0, c => (false, c)
  | n + 1, c =>
      let c : Cursor := ⟨c.x + 1, c.y + 1⟩
      if (tableAt table c.x).msb then (true, c)
      else if (tableAt table c.x ^^^ line c.y) &&& 0x5f = 0 then compareCommand n c
      else (false, c)

/-- `$8698`: on to the address. -/
def skipToAddress : ℕ → Byte → Byte
  | 0, x => x
  | n + 1, x => if (tableAt table x).msb then x else skipToAddress n (x + 1)

/-- `unrecognised_loop` with the text at `start`: the next entry, or `go_cmd_code`. -/
def unrecognisedRound (start x : Byte) : Byte ⊕ Cursor :=
  let x := x + 1 + 1 + 1
  if (tableAt table x).msb then .inr ⟨x, start⟩
  else
    let r := compareCommand table line 256 ⟨x - 1, start - 1⟩
    if r.1 then if notLetter (line r.2.y) then .inr r.2 else .inl r.2.x
    else
      let x := skipToAddress table 256 r.2.x
      if line r.2.y ≠ 0x2e then .inl x else .inr ⟨x, r.2.y + 1⟩

def unrecognisedLoop (start : Byte) : ℕ → Byte → Option Cursor
  | 0, _ => none
  | n + 1, x =>
      match unrecognisedRound table line start x with
      | .inl x => unrecognisedLoop start n x
      | .inr c => some c

/-- The address to which `go_cmd_code` returns. -/
def goCmdCode (c : Cursor) : Word := wordOf (table.getD (c.x.toNat + 1) 0) (tableAt table c.x) + 1

end Loop

/-- `fscv3_unrecognised_cmd` with the line at `y`: the routine it goes to, and the registers. -/
def fscv3UnrecognisedCmd (gsinit : (Byte → Byte) → Byte → Byte) (line : Byte → Byte) (y : Byte) :
    Option (Word × Cursor) :=
  (unrecognisedLoop cmdtxt_access line (gsinit line y) 256 0xfd).map fun c => (goCmdCode cmdtxt_access c, c)

/-! ## Commands -/

/-- An entry of the table. -/
structure Command where
  name : List Byte
  hi : Byte
  lo : Byte
  param : Byte
  plain : ∀ c ∈ name, c.msb = false
  rom : hi.msb = true

namespace Command

def bytes (e : Command) : List Byte := e.name ++ [e.hi, e.lo, e.param]

/-- The routine: `rts` goes behind the address. -/
def handler (e : Command) : Word := wordOf e.lo e.hi + 1

end Command

/-- Characters that agree up to bits 5 and 7. -/
def Same (a b : Byte) : Prop := a &&& 0x5f = b &&& 0x5f

instance (a b : Byte) : Decidable (Same a b) := inferInstanceAs (Decidable (_ = _))

/-- The text begins with `k` characters of a name. -/
def Common (name : List Byte) (text : ℕ → Byte) (k : ℕ) : Prop :=
  k ≤ name.length ∧ ∀ j < k, Same (name.getD j 0) (text j)

/-- The text begins with `k` characters of a name and no more. -/
def LongestCommon (name : List Byte) (text : ℕ → Byte) (k : ℕ) : Prop :=
  Common name text k ∧ ¬ Common name text (k + 1)

/-- The text is for a command by the first `n` characters: the whole name with no letter behind it, or its
beginning and a full stop. -/
inductive Command.Takes (e : Command) (text : ℕ → Byte) : ℕ → Prop
  | whole (common : Common e.name text e.name.length) (letter : ¬ Letter (text e.name.length)) :
      Takes e text e.name.length
  | short {k : ℕ} (longest : LongestCommon e.name text k) (lt : k < e.name.length) (stop : text k = 0x2e) :
      Takes e text (k + 1)

/-- The text at `z`. -/
def textAt (line : Byte → Byte) (z : Byte) (k : ℕ) : Byte := line (z + BitVec.ofNat 8 k)

/-! ## One entry -/

section Entry

variable {table : List Byte} {line : Byte → Byte} {x z hi b : Byte} {c : Cursor} {name r : List Byte}
  {text : ℕ → Byte} {e : Command} {k m n : ℕ}

lemma same_iff (a b : Byte) : (a ^^^ b) &&& 0x5f = 0 ↔ Same a b := xor_and_eq_zero a b 0x5f

lemma notLetter_iff (a : Byte) : notLetter a = true ↔ ¬ Letter a := by
  rw [notLetter_eq, Bool.not_eq_true', decide_eq_false_iff_not]

lemma common_zero (name : List Byte) (text : ℕ → Byte) : Common name text 0 :=
  ⟨Nat.zero_le _, fun _ hj => absurd hj (Nat.not_lt_zero _)⟩

lemma common_cons (a : Byte) : Common (a :: name) text (k + 1) ↔
    Same a (text 0) ∧ Common name (fun j => text (j + 1)) k := by
  constructor
  · rintro ⟨hle, hsame⟩
    refine ⟨hsame 0 (Nat.succ_pos k), Nat.le_of_succ_le_succ hle, fun j hj => ?_⟩
    exact hsame (j + 1) (Nat.succ_lt_succ hj)
  · rintro ⟨hfirst, hle, hsame⟩
    refine ⟨Nat.succ_le_succ hle, fun j hj => ?_⟩
    cases j with
    | zero => exact hfirst
    | succ j => exact hsame j (Nat.lt_of_succ_lt_succ hj)

lemma longestCommon_cons (a : Byte) (ha : Same a (text 0)) :
    LongestCommon (a :: name) text (k + 1) ↔ LongestCommon name (fun j => text (j + 1)) k := by
  rw [LongestCommon, LongestCommon, common_cons, common_cons]
  simp [ha]

lemma Common.le (h : Common name text k) (hm : m ≤ k) : Common name text m :=
  ⟨hm.trans h.1, fun j hj => h.2 j (hj.trans_le hm)⟩

lemma LongestCommon.unique (h : LongestCommon name text k) (h' : LongestCommon name text m) : k = m := by
  rcases lt_trichotomy k m with hlt | heq | hgt
  · exact absurd (h'.1.le hlt) h.2
  · exact heq
  · exact absurd (h.1.le hgt) h'.2

lemma textAt_succ (line : Byte → Byte) (z : Byte) (j : ℕ) :
    textAt line (z + 1) j = textAt line z (j + 1) := by
  rw [textAt, textAt, Nat.add_comm j, BitVec.ofNat_add, ← BitVec.add_assoc]
  rfl

/-- Where the table goes on with a byte. -/
lemma tableAt_drop (hlen : table.length ≤ 255) (h : table.drop x.toNat = b :: r) :
    tableAt table x = b ∧ table.drop (x + 1).toNat = r := by
  have hlt : x.toNat < table.length := by
    by_contra hge
    rw [List.drop_eq_nil_of_le (by omega)] at h
    cases h
  rw [toNat_add_one_of_lt (by omega), ← List.drop_drop, h, tableAt, List.getD_eq_getElem?_getD]
  refine ⟨?_, rfl⟩
  rw [List.drop_eq_getElem_cons hlt] at h
  rw [List.getElem?_eq_getElem hlt, (List.cons.inj h).1]
  rfl

lemma add_ofNat_zero (w : Byte) : w + BitVec.ofNat 8 0 = w := BitVec.add_zero w

/-- A name is compared up to its end or to the first character that differs. -/
lemma compareCommand_spec (line : Byte → Byte) (hlen : table.length ≤ 255)
    (h : table.drop (c.x + 1).toNat = name ++ hi :: r) (hname : ∀ a ∈ name, a.msb = false)
    (hhi : hi.msb = true) (hn : name.length < n) :
    ∃ k, LongestCommon name (textAt line (c.y + 1)) k ∧
      compareCommand table line n c
        = (decide (k = name.length), ⟨c.x + 1 + BitVec.ofNat 8 k, c.y + 1 + BitVec.ofNat 8 k⟩) ∧
      table.drop (c.x + 1 + BitVec.ofNat 8 k).toNat = name.drop k ++ hi :: r := by
  induction name generalizing c n with
  | nil =>
      obtain ⟨n, rfl⟩ : ∃ m, n = m + 1 := ⟨n - 1, by omega⟩
      refine ⟨0, ⟨common_zero _ _, fun hc => absurd hc.1 (by simp)⟩, ?_, by simpa using h⟩
      simp only [compareCommand, (tableAt_drop hlen h).1, hhi, if_true, add_ofNat_zero, List.length_nil,
        decide_true]
  | cons a name ih =>
      obtain ⟨n, rfl⟩ : ∃ m, n = m + 1 := ⟨n - 1, by omega⟩
      obtain ⟨ha, hname⟩ := List.forall_mem_cons.1 hname
      obtain ⟨hat, hnext⟩ := tableAt_drop hlen h
      have hfirst : textAt line (c.y + 1) 0 = line (c.y + 1) := by simp [textAt]
      by_cases hsame : Same a (line (c.y + 1))
      · obtain ⟨k, hk, hrun, hdrop⟩ := ih (c := ⟨c.x + 1, c.y + 1⟩) (n := n) hnext hname
          (by rw [List.length_cons] at hn; omega)
        have hadd : ∀ w : Byte, w + 1 + 1 + BitVec.ofNat 8 k = w + 1 + BitVec.ofNat 8 (k + 1) := fun w => by
          rw [Nat.add_comm k, BitVec.ofNat_add, ← BitVec.add_assoc]
          rfl
        rw [hadd] at hdrop
        refine ⟨k + 1, (longestCommon_cons a (hfirst ▸ hsame)).2 ?_, ?_, hdrop⟩
        · have htext : textAt line (c.y + 1 + 1) = fun j => textAt line (c.y + 1) (j + 1) :=
            funext (textAt_succ line _)
          rwa [htext] at hk
        · rw [compareCommand]
          simp only [hat, ha, Bool.false_eq_true, if_false, if_pos ((same_iff _ _).2 hsame), hrun, hadd,
            List.length_cons, Nat.add_right_cancel_iff]
      · refine ⟨0, ⟨common_zero _ _, fun hc => hsame ?_⟩, ?_, by simpa using h⟩
        · rw [← hfirst]
          exact ((common_cons a).1 hc).1
        · have hlen0 : decide (0 = (a :: name).length) = false := decide_eq_false (Nat.succ_ne_zero _).symm
          simp only [compareCommand, hat, ha, Bool.false_eq_true, if_false, if_neg (mt (same_iff _ _).1 hsame),
            add_ofNat_zero, hlen0]

/-- From anywhere in a name the address is reached. -/
lemma skipToAddress_spec (hlen : table.length ≤ 255) (h : table.drop x.toNat = name ++ hi :: r)
    (hname : ∀ a ∈ name, a.msb = false) (hhi : hi.msb = true) (hn : name.length < n) :
    skipToAddress table n x = x + BitVec.ofNat 8 name.length := by
  induction name generalizing x n with
  | nil =>
      obtain ⟨n, rfl⟩ : ∃ m, n = m + 1 := ⟨n - 1, by omega⟩
      rw [skipToAddress, (tableAt_drop hlen h).1, if_pos hhi]
      simp
  | cons a name ih =>
      obtain ⟨n, rfl⟩ : ∃ m, n = m + 1 := ⟨n - 1, by omega⟩
      obtain ⟨ha, hname⟩ := List.forall_mem_cons.1 hname
      obtain ⟨hat, hnext⟩ := tableAt_drop hlen h
      rw [skipToAddress, hat, if_neg (by rw [ha]; exact Bool.false_ne_true),
        ih hnext hname (by rw [List.length_cons] at hn; omega), List.length_cons, Nat.add_comm name.length,
        BitVec.ofNat_add, BitVec.add_assoc]
      rfl

/-- The table behind some of its bytes. -/
lemma drop_add (hlen : table.length ≤ 255) (h : table.drop x.toNat = name ++ b :: r) :
    table.drop (x + BitVec.ofNat 8 name.length).toNat = b :: r := by
  induction name generalizing x with
  | nil => simpa using h
  | cons a name ih =>
      have hlen1 : x + BitVec.ofNat 8 (a :: name).length = x + 1 + BitVec.ofNat 8 name.length := by
        rw [List.length_cons, Nat.add_comm name.length, BitVec.ofNat_add, ← BitVec.add_assoc]
        rfl
      rw [hlen1]
      exact ih (tableAt_drop hlen h).2

/-- By how much of a name the text has, it is for the command or not. -/
lemma takes_iff (h : LongestCommon e.name text k) : e.Takes text n ↔
    (k = e.name.length ∧ ¬ Letter (text k) ∧ n = k) ∨ (k < e.name.length ∧ text k = 0x2e ∧ n = k + 1) := by
  constructor
  · rintro (⟨hcommon, hletter⟩ | ⟨hlongest, hlt, hstop⟩)
    · have hk : k = e.name.length := by
        refine le_antisymm h.1.1 (not_lt.1 fun hlt => h.2 (hcommon.le hlt))
      exact Or.inl ⟨hk, hk ▸ hletter, hk.symm⟩
    · rw [h.unique hlongest]
      exact Or.inr ⟨hlt, hstop, rfl⟩
  · rintro (⟨rfl, hletter, rfl⟩ | ⟨hlt, hstop, rfl⟩)
    · exact .whole h.1 hletter
    · exact .short h hlt hstop

/-- **One round** at the entry of a command: it is taken, or its address is passed over. -/
lemma unrecognisedRound_entry (line : Byte → Byte) (z : Byte) (hlen : table.length ≤ 255)
    (h : table.drop (x + 1 + 1 + 1).toNat = e.bytes ++ r) (hne : e.name ≠ []) :
    (∀ n, e.Takes (textAt line z) n → unrecognisedRound table line z x
      = .inr ⟨x + 1 + 1 + 1 + BitVec.ofNat 8 e.name.length, z + BitVec.ofNat 8 n⟩) ∧
    ((∀ n, ¬ e.Takes (textAt line z) n) → unrecognisedRound table line z x
      = .inl (x + 1 + 1 + 1 + BitVec.ofNat 8 e.name.length)) := by
  obtain ⟨w, hw⟩ : ∃ w, w = x + 1 + 1 + 1 := ⟨_, rfl⟩
  have hbytes : table.drop w.toNat = e.name ++ e.hi :: e.lo :: e.param :: r := by
    rw [hw, h, Command.bytes, List.append_assoc]
    rfl
  have hback : ∀ v : Byte, v - 1 + 1 = v := fun v => sub_add_cancel v 1
  have hlong : e.name.length < 256 := by
    have := congrArg List.length hbytes
    simp only [List.length_drop, List.length_append, List.length_cons] at this
    omega
  have hfirst : ¬ (tableAt table w).msb = true := by
    obtain ⟨a, name, hname⟩ := List.exists_cons_of_ne_nil hne
    rw [hname] at hbytes
    rw [(tableAt_drop hlen hbytes).1, e.plain a (hname ▸ List.mem_cons_self)]
    exact Bool.false_ne_true
  obtain ⟨k, hk, hrun, hdrop⟩ := compareCommand_spec (c := ⟨w - 1, z - 1⟩) (n := 256) line hlen
    ((hback w).symm ▸ hbytes) e.plain e.rom hlong
  simp only [hback] at hk hrun hdrop
  have htext : line (z + BitVec.ofNat 8 k) = textAt line z k := rfl
  rw [unrecognisedRound, ← hw]
  simp only [if_neg hfirst, hrun, takes_iff hk, notLetter_iff, htext]
  by_cases hfull : k = e.name.length
  · simp only [decide_eq_true hfull, if_true]
    by_cases hletter : Letter (textAt line z k)
    · refine ⟨fun n hn => ?_, fun _ => ?_⟩
      · rcases hn with ⟨-, hnot, -⟩ | ⟨hlt, -⟩
        · exact absurd hletter hnot
        · exact absurd hfull hlt.ne
      · rw [if_neg (not_not.2 hletter), hfull]
    · refine ⟨fun n hn => ?_, fun hnone => absurd (Or.inl ⟨hfull, hletter, rfl⟩) (hnone k)⟩
      rcases hn with ⟨-, -, rfl⟩ | ⟨hlt, -⟩
      · rw [if_pos hletter, hfull]
      · exact absurd hfull hlt.ne
  · have hlt : k < e.name.length := lt_of_le_of_ne hk.1.1 hfull
    have hskip : skipToAddress table 256 (w + BitVec.ofNat 8 k) = w + BitVec.ofNat 8 e.name.length := by
      rw [skipToAddress_spec hlen hdrop (fun a ha => e.plain a (List.mem_of_mem_drop ha)) e.rom
        (by rw [List.length_drop]; omega), BitVec.add_assoc, ← BitVec.ofNat_add, List.length_drop,
        Nat.add_sub_cancel' hlt.le]
    simp only [decide_eq_false hfull, Bool.false_eq_true, if_false, hskip]
    by_cases hstop : textAt line z k = 0x2e
    · refine ⟨fun n hn => ?_, fun hnone => absurd (Or.inr ⟨hlt, hstop, rfl⟩) (hnone (k + 1))⟩
      rcases hn with ⟨heq, -⟩ | ⟨-, -, rfl⟩
      · exact absurd heq hfull
      · rw [if_neg (not_not.2 hstop), BitVec.ofNat_add, ← BitVec.add_assoc]
        rfl
    · refine ⟨fun n hn => ?_, fun _ => if_pos hstop⟩
      rcases hn with ⟨heq, -⟩ | ⟨-, hdot, -⟩
      · exact absurd heq hfull
      · exact absurd hdot hstop

/-- One round at an entry without a name. -/
lemma unrecognisedRound_last (line : Byte → Byte) (z : Byte) (hlen : table.length ≤ 255)
    (h : table.drop (x + 1 + 1 + 1).toNat = e.bytes ++ r) (hnil : e.name = []) :
    unrecognisedRound table line z x = .inr ⟨x + 1 + 1 + 1, z⟩ := by
  have hbytes : table.drop (x + 1 + 1 + 1).toNat = e.hi :: e.lo :: e.param :: r := by
    rw [h, Command.bytes, hnil]
    rfl
  rw [unrecognisedRound, (tableAt_drop hlen hbytes).1]
  exact if_pos e.rom

/-- The address of an entry is the address of its routine. -/
lemma goCmdCode_entry (hlen : table.length ≤ 255) (h : table.drop x.toNat = [e.hi, e.lo, e.param] ++ r)
    (y : Byte) :
    goCmdCode table ⟨x, y⟩ = e.handler := by
  obtain ⟨hhi, hnext⟩ := tableAt_drop hlen h
  have hlt : x.toNat < 255 := by
    have := congrArg List.length h
    simp only [List.length_drop, List.length_append, List.length_cons, List.length_nil] at this
    omega
  have hlo := (tableAt_drop hlen hnext).1
  rw [tableAt, toNat_add_one_of_lt hlt] at hlo
  rw [goCmdCode, hlo, hhi, Command.handler]

end Entry

/-! ## The table of commands -/

/-- Entries one behind the other. -/
def packed (es : List Command) : List Byte := es.flatMap Command.bytes

section Table

variable {es l l' : List Command} {cat e : Command} {line : Byte → Byte} {x z : Byte} {n : ℕ}

/-- The offset of the entry behind the entries `l`. -/
def offset (l : List Command) : Byte := BitVec.ofNat 8 (packed l).length

/-- The loop is at the entry behind `l`. -/
def AtEntry (es l l' : List Command) (x : Byte) : Prop := es = l ++ l' ∧ x + 1 + 1 + 1 = offset l

lemma AtEntry.drop (hlen : (packed es ++ cat.bytes).length ≤ 255) (h : AtEntry es l l' x) :
    (packed es ++ cat.bytes).drop (x + 1 + 1 + 1).toNat = packed l' ++ cat.bytes := by
  obtain ⟨rfl, hx⟩ := h
  have hsplit : packed (l ++ l') = packed l ++ packed l' := List.flatMap_append
  rw [hsplit, List.append_assoc] at hlen ⊢
  have hle : (packed l).length ≤ 255 := by
    rw [List.length_append] at hlen
    omega
  have hnat : (x + 1 + 1 + 1).toNat = (packed l).length := by
    rw [hx, offset, BitVec.toNat_ofNat]
    omega
  rw [hnat, List.drop_left]

lemma AtEntry.drop_entry (h : AtEntry es l (e :: l') x) (hlen : (packed es ++ cat.bytes).length ≤ 255) :
    (packed es ++ cat.bytes).drop (x + 1 + 1 + 1).toNat = e.bytes ++ (packed l' ++ cat.bytes) := by
  rw [h.drop hlen, packed, List.flatMap_cons, List.append_assoc]
  rfl

lemma AtEntry.drop_last (h : AtEntry es l [] x) (hlen : (packed es ++ cat.bytes).length ≤ 255) :
    (packed es ++ cat.bytes).drop (x + 1 + 1 + 1).toNat = cat.bytes ++ [] := by
  rw [h.drop hlen, packed, List.flatMap_nil, List.nil_append, List.append_nil]

/-- Behind an entry comes the next. -/
lemma AtEntry.next (h : AtEntry es l (e :: l') x) :
    AtEntry es (l ++ [e]) l' (x + 1 + 1 + 1 + BitVec.ofNat 8 e.name.length) := by
  obtain ⟨rfl, hx⟩ := h
  refine ⟨by simp, ?_⟩
  have hlen : (packed (l ++ [e])).length = (packed l).length + e.name.length + 3 := by
    simp [packed, Command.bytes, Nat.add_assoc]
  have hthree : BitVec.ofNat 8 3 = (1 + 1 + 1 : Byte) := rfl
  rw [hx, offset, offset, hlen, BitVec.ofNat_add, BitVec.ofNat_add, hthree, ← BitVec.add_assoc,
    ← BitVec.add_assoc]

/-- **The loop**: it goes to the first command that takes the text, and to the last entry if none does. -/
lemma unrecognisedLoop_spec (line : Byte → Byte) (hlen : (packed es ++ cat.bytes).length ≤ 255)
    (hes : ∀ e ∈ es, e.name ≠ []) (hcat : cat.name = []) (h : AtEntry es l l' x) (hn : l'.length < n) :
    (∀ m e m' k, l' = m ++ e :: m' → (∀ d ∈ m, ∀ j, ¬ d.Takes (textAt line z) j) →
      e.Takes (textAt line z) k → unrecognisedLoop (packed es ++ cat.bytes) line z n x
        = some ⟨offset (l ++ m) + BitVec.ofNat 8 e.name.length, z + BitVec.ofNat 8 k⟩) ∧
    ((∀ d ∈ l', ∀ j, ¬ d.Takes (textAt line z) j) →
      unrecognisedLoop (packed es ++ cat.bytes) line z n x = some ⟨offset es, z⟩) := by
  induction l' generalizing l x n with
  | nil =>
      obtain ⟨n, rfl⟩ : ∃ m, n = m + 1 := ⟨n - 1, by omega⟩
      have hlast := unrecognisedRound_last line z hlen (h.drop_last hlen) hcat
      refine ⟨fun m e m' k hm => absurd hm (by simp), fun _ => ?_⟩
      rw [unrecognisedLoop, hlast, h.2, h.1, List.append_nil]
  | cons e l' ih =>
      obtain ⟨n, rfl⟩ : ∃ m, n = m + 1 := ⟨n - 1, by omega⟩
      have hne : e.name ≠ [] := hes e (by rw [h.1]; simp)
      obtain ⟨htakes, hskip⟩ := unrecognisedRound_entry line z hlen (h.drop_entry hlen) hne
      obtain ⟨ihtakes, ihlast⟩ := ih (n := n) h.next (by rw [List.length_cons] at hn; omega)
      refine ⟨fun m d m' k hm hnone hd => ?_, fun hnone => ?_⟩
      · cases m with
        | nil =>
            obtain ⟨rfl, rfl⟩ := List.cons.inj hm
            rw [unrecognisedLoop, htakes k hd, h.2, List.append_nil]
        | cons b m =>
            obtain ⟨rfl, rfl⟩ := List.cons.inj hm
            obtain ⟨hb, hnone⟩ := List.forall_mem_cons.1 hnone
            have hlater := ihtakes m d m' k rfl hnone hd
            rw [List.append_assoc] at hlater
            rw [unrecognisedLoop, hskip hb]
            exact hlater
      · obtain ⟨he, hnone⟩ := List.forall_mem_cons.1 hnone
        rw [unrecognisedLoop, hskip he]
        exact ihlast hnone

/-- The loop is at the entries, one after the other. -/
lemma atEntry_of_round (hlen : (packed es ++ cat.bytes).length ≤ 255) (hes : ∀ e ∈ es, e.name ≠ [])
    (hcat : cat.name = []) (h : AtEntry es l l' x) {w : Byte}
    (hround : unrecognisedRound (packed es ++ cat.bytes) line z x = .inl w) : ∃ m m', AtEntry es m m' w := by
  cases l' with
  | nil =>
      have hlast := unrecognisedRound_last line z hlen (h.drop_last hlen) hcat
      rw [hlast] at hround
      cases hround
  | cons e l' =>
      have hne : e.name ≠ [] := hes e (by rw [h.1]; simp)
      obtain ⟨htakes, hskip⟩ := unrecognisedRound_entry line z hlen (h.drop_entry hlen) hne
      by_cases htake : ∃ k, e.Takes (textAt line z) k
      · obtain ⟨k, hk⟩ := htake
        rw [htakes k hk] at hround
        cases hround
      · rw [hskip (not_exists.1 htake)] at hround
        cases hround
        exact ⟨_, _, h.next⟩

/-- The loop could be at any entry. -/
lemma atEntry_offset (h : es = l ++ l') : AtEntry es l l' (offset l - 1 - 1 - 1) := by
  refine ⟨h, ?_⟩
  rw [sub_add_cancel, sub_add_cancel, sub_add_cancel]

/-- The routine that an entry leads to. -/
lemma goCmdCode_packed (hlen : (packed es ++ cat.bytes).length ≤ 255) (h : es = l ++ e :: l') (y : Byte) :
    goCmdCode (packed es ++ cat.bytes) ⟨offset l + BitVec.ofNat 8 e.name.length, y⟩ = e.handler := by
  have hdrop := (atEntry_offset h).drop_entry hlen
  have hbytes : e.bytes ++ (packed l' ++ cat.bytes)
      = e.name ++ e.hi :: ([e.lo, e.param] ++ (packed l' ++ cat.bytes)) := List.append_assoc ..
  rw [(atEntry_offset h).2, hbytes] at hdrop
  exact goCmdCode_entry hlen (drop_add hlen hdrop) y

lemma goCmdCode_last (hlen : (packed es ++ cat.bytes).length ≤ 255) (hcat : cat.name = []) (y : Byte) :
    goCmdCode (packed es ++ cat.bytes) ⟨offset es, y⟩ = cat.handler := by
  have hend : AtEntry es es [] (offset es - 1 - 1 - 1) := atEntry_offset (List.append_nil es).symm
  have hdrop := hend.drop_last hlen
  have hbytes : cat.bytes = [cat.hi, cat.lo, cat.param] := by
    rw [Command.bytes, hcat, List.nil_append]
  rw [hend.2] at hdrop
  exact goCmdCode_entry hlen (hdrop.trans (congrArg (· ++ []) hbytes)) y

end Table

/-! ## The commands of the filing system -/

/-- The commands, in the order of the table. -/
def commands : List Command := [
  ⟨ascii "ACCESS", 0x88, 0xd1, 0x32, by decide +kernel, by decide⟩,
  ⟨ascii "BACKUP", 0x9c, 0xba, 0x54, by decide +kernel, by decide⟩,
  ⟨ascii "COMPACT", 0x9a, 0xbf, 0x0a, by decide +kernel, by decide⟩,
  ⟨ascii "COPY", 0x9d, 0x26, 0x64, by decide +kernel, by decide⟩,
  ⟨ascii "DELETE", 0x86, 0xfd, 0x01, by decide +kernel, by decide⟩,
  ⟨ascii "DESTROY", 0x87, 0x0f, 0x02, by decide +kernel, by decide⟩,
  ⟨ascii "DIR", 0x88, 0x4d, 0x09, by decide +kernel, by decide⟩,
  ⟨ascii "DRIVE", 0x87, 0x74, 0x0a, by decide +kernel, by decide⟩,
  ⟨ascii "ENABLE", 0x8a, 0x38, 0x00, by decide +kernel, by decide⟩,
  ⟨ascii "INFO", 0x82, 0x83, 0x02, by decide +kernel, by decide⟩,
  ⟨ascii "LIB", 0x88, 0x51, 0x09, by decide +kernel, by decide⟩,
  ⟨ascii "RENAME", 0x8a, 0x6c, 0x87, by decide +kernel, by decide⟩,
  ⟨ascii "TITLE", 0x88, 0xa2, 0x0b, by decide +kernel, by decide⟩,
  ⟨ascii "WIPE", 0x86, 0xc2, 0x02, by decide +kernel, by decide⟩]

/-- The entry without a name. -/
def catchAll : Command := ⟨[], 0xb0, 0x26, 0x00, by decide, by decide⟩

lemma cmdtxt_access_eq : cmdtxt_access = packed commands ++ catchAll.bytes := by
  decide +kernel

lemma commands_named : ∀ e ∈ commands, e.name ≠ [] := by
  decide

/-- Where a line with its text at `z` goes: to the first command that takes the text, with `Y` behind what
makes it the command's, and otherwise to the last entry with `Y` at the text.  `X` is at the address in
the table. -/
def Dispatched (line : Byte → Byte) (z : Byte) (r : Option (Word × Cursor)) : Prop :=
  (∀ l e l' n, commands = l ++ e :: l' → (∀ d ∈ l, ∀ m, ¬ d.Takes (textAt line z) m) →
    e.Takes (textAt line z) n →
      r = some (e.handler, ⟨offset l + BitVec.ofNat 8 e.name.length, z + BitVec.ofNat 8 n⟩)) ∧
  ((∀ d ∈ commands, ∀ m, ¬ d.Takes (textAt line z) m) → r = some (catchAll.handler, ⟨offset commands, z⟩))

/-- The text of a line begins at `z`, behind spaces, and not with a double quote. -/
def TextBegins (line : Byte → Byte) (y z : Byte) : Prop :=
  ∃ k, z = y + BitVec.ofNat 8 k ∧ (∀ j < k, line (y + BitVec.ofNat 8 j) = 0x20) ∧ line z ≠ 0x20 ∧ line z ≠ 0x22

/-- What is known of `GSINIT`: it finds the first character that is not a space.  At a double quote it may
go further. -/
def SkipsSpaces (gsinit : (Byte → Byte) → Byte → Byte) : Prop :=
  ∀ line y z, TextBegins line y z → gsinit line y = z

/-- The values of `X` at `unrecognised_loop`. -/
def Reached (line : Byte → Byte) (z : Byte) : Byte → Prop :=
  Relation.ReflTransGen (fun x x' => unrecognisedRound cmdtxt_access line z x = .inl x') 0xfd

/-- **A line goes to the routine of its command**, and the loop is always at the beginning of an entry. -/
theorem fscv3UnrecognisedCmd_dispatches {gsinit : (Byte → Byte) → Byte → Byte} (h : SkipsSpaces gsinit)
    (line : Byte → Byte) (y : Byte) :
    (∀ z, TextBegins line y z → Dispatched line z (fscv3UnrecognisedCmd gsinit line y)) ∧
    Dispatched line (gsinit line y) (fscv3UnrecognisedCmd gsinit line y) ∧
    ∀ x, Reached line (gsinit line y) x → ∃ l l', commands = l ++ l' ∧ x + 1 + 1 + 1 = offset l := by
  have hlen : (packed commands ++ catchAll.bytes).length ≤ 255 := by decide +kernel
  have hstart : AtEntry commands [] commands 0xfd := ⟨rfl, rfl⟩
  have hdispatched : Dispatched line (gsinit line y) (fscv3UnrecognisedCmd gsinit line y) := by
    rw [fscv3UnrecognisedCmd, cmdtxt_access_eq]
    obtain ⟨htakes, hlast⟩ := unrecognisedLoop_spec (z := gsinit line y) (n := 256) line hlen
      commands_named rfl hstart (by decide)
    refine ⟨fun l e l' n hsplit hnone he => ?_, fun hnone => ?_⟩
    · rw [htakes l e l' n hsplit hnone he, Option.map_some, List.nil_append, goCmdCode_packed hlen hsplit]
    · rw [hlast hnone, Option.map_some, goCmdCode_last hlen rfl]
  refine ⟨fun z hz => h line y z hz ▸ hdispatched, hdispatched, fun x hx => ?_⟩
  induction hx with
  | refl => exact ⟨[], commands, hstart⟩
  | tail _ hround ih =>
      obtain ⟨l, l', hl⟩ := ih
      rw [cmdtxt_access_eq] at hround
      exact atEntry_of_round hlen commands_named rfl hl hround

/-- `GSINIT` over at most `n` characters: spaces are skipped, and one double quote. -/
def skipBlanks (line : Byte → Byte) : ℕ → Byte → Byte
  | 0, y => y
  | n + 1, y => if line y = 0x20 then skipBlanks line n (y + 1) else if line y = 0x22 then y + 1 else y

lemma skipBlanks_spaces {line : Byte → Byte} {y : Byte} {k n : ℕ}
    (h : ∀ j < k, line (y + BitVec.ofNat 8 j) = 0x20) (hend : line (y + BitVec.ofNat 8 k) ≠ 0x20)
    (hquote : line (y + BitVec.ofNat 8 k) ≠ 0x22) (hn : k < n) :
    skipBlanks line n y = y + BitVec.ofNat 8 k := by
  induction k generalizing y n with
  | zero =>
      obtain ⟨n, rfl⟩ : ∃ m, n = m + 1 := ⟨n - 1, by omega⟩
      rw [add_ofNat_zero] at hend hquote ⊢
      rw [skipBlanks, if_neg hend, if_neg hquote]
  | succ k ih =>
      obtain ⟨n, rfl⟩ : ∃ m, n = m + 1 := ⟨n - 1, by omega⟩
      have hstep : ∀ j, y + BitVec.ofNat 8 (j + 1) = y + 1 + BitVec.ofNat 8 j := fun j => by
        rw [Nat.add_comm j, BitVec.ofNat_add, ← BitVec.add_assoc]
        rfl
      have hfirst := h 0 (Nat.succ_pos k)
      rw [add_ofNat_zero] at hfirst
      rw [hstep] at hend hquote ⊢
      rw [skipBlanks, if_pos hfirst]
      exact ih (fun j hj => hstep j ▸ h (j + 1) (Nat.succ_lt_succ hj)) hend hquote (by omega)

lemma skipBlanks_skipsSpaces : SkipsSpaces fun line y => skipBlanks line 256 y := by
  rintro line y z ⟨k, rfl, hspaces, hne, hquote⟩
  have hk : k < 256 := by
    by_contra hge
    have hwrap : BitVec.ofNat 8 (k - 256) = BitVec.ofNat 8 k := by
      apply BitVec.eq_of_toNat_eq
      rw [BitVec.toNat_ofNat, BitVec.toNat_ofNat]
      omega
    exact hne (hwrap ▸ hspaces (k - 256) (by omega))
  exact skipBlanks_spaces hspaces hne hquote hk

/-- The line ` a.`. -/
def shortLine (i : Byte) : Byte := if i = 0 then 0x20 else if i = 1 then 0x61 else if i = 2 then 0x2e else 0x0d

/-- It is for `ACCESS`. -/
theorem shortLine_dispatched :
    fscv3UnrecognisedCmd (fun line y => skipBlanks line 256 y) shortLine 0 = some (0x88d2, ⟨6, 3⟩) := by
  have hbegins : TextBegins shortLine 0 1 := by
    refine ⟨1, rfl, fun j hj => ?_, by decide, by decide⟩
    rw [Nat.lt_one_iff.1 hj]
    rfl
  have hlongest : LongestCommon (ascii "ACCESS") (textAt shortLine 1) 1 := by
    refine ⟨⟨by decide, fun j hj => ?_⟩, fun hcommon => absurd (hcommon.2 1 (by decide)) (by decide)⟩
    rw [Nat.lt_one_iff.1 hj]
    decide
  have htakes : Command.Takes ⟨ascii "ACCESS", 0x88, 0xd1, 0x32, by decide, by decide⟩
      (textAt shortLine 1) 2 := .short hlongest (by decide) rfl
  exact ((fscv3UnrecognisedCmd_dispatches skipBlanks_skipsSpaces shortLine 0).1 1 hbegins).1 [] _ _ 2 rfl
    (List.forall_mem_nil _) htakes

end Udfs.Rom
