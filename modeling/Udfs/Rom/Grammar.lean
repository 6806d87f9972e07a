import Udfs.Rom.Catalogue

/-!
# File specifications

A file specification is meant to be a drive, a directory and a name, of which only the name must be
there.  The reader takes prefixes as long as there are any and stores the first character of each
part before it knows what the part is.  A text that ends with a prefix is taken, and leaves a
character of the prefix as the name.
-/

namespace Udfs.Rom

/-! ## The texts -/

/-- A directory as it is written before its dot: nothing, or one character. -/
inductive DirPrefix where
  | empty
  | char (a : Byte) (h : a ≠ 0x2e ∧ a ≠ 0x3a)

namespace DirPrefix

def chars : DirPrefix → List Byte
  | empty => [0x2e]
  | char a _ => [a, 0x2e]

/-- The directory that is meant: a space for none, the wildcard for `*`. -/
def value : DirPrefix → Byte
  | empty => 0x20
  | char a _ => if a = 0x2a then 0x23 else a

end DirPrefix

/-- A part of the text before the name. -/
inductive Part where
  | drive (d : Fin 4)
  | dir (e : DirPrefix)

namespace Part

def chars : Part → List Byte
  | drive d => [0x3a, 0x30 + BitVec.ofNat 8 d.val, 0x2e]
  | dir e => e.chars

/-- What the reader does at a part. -/
def store : Part → Fsp → Fsp
  | drive d, f => { f.put 0 0x3a with drv := BitVec.ofNat 8 d.val }.put 7 0x24
  | dir .empty, f => (f.put 0 0x2e).put 7 0x20
  | dir (.char a h), f => (f.put 0 a).put 7 (DirPrefix.char a h).value

end Part

/-- The characters of parts one after the other. -/
def partChars (l : List Part) : List Byte := l.flatMap Part.chars

/-- The text does not go on with a part, and not with a drive either. -/
def StartsName : List Byte → Prop
  | [] => False
  | a :: l => a ≠ 0x2e ∧ a ≠ 0x3a ∧ l.head? ≠ some 0x2e

/-- A name of at most seven characters, with `*` only at its end. -/
structure IsName (n : List Byte) : Prop where
  starts : StartsName n
  length : n.length ≤ 7
  star : (0x2a : Byte) ∉ n.dropLast

/-- The characters of a name as they are searched for. -/
def nameAt (n : List Byte) (i : ℕ) : Byte :=
  if n.getLast? = some 0x2a ∧ n.length ≤ i + 1 then 0x23 else n.getD i 0x20

/-- The parts before a name: a drive, if given, and a directory, if given. -/
def partsOf (d : Option (Fin 4)) (e : Option DirPrefix) : List Part :=
  d.toList.map .drive ++ e.toList.map .dir

/-- A well-formed file specification. -/
structure FileSpec where
  drive : Option (Fin 4)
  dir : Option DirPrefix
  name : List Byte
  isName : IsName name

namespace FileSpec

def text (p : FileSpec) : List Byte := partChars (partsOf p.drive p.dir) ++ p.name

/-- The fields that it stands for, with the current directory and drive. -/
def fsp (p : FileSpec) (dir drv : Byte) : Fsp where
  name := fun i =>
    if i = 7 then
      match p.dir with
      | some e => e.value
      | none => if p.drive = none then dir else 0x24
    else nameAt p.name i
  drv :=
    match p.drive with
    | some d => BitVec.ofNat 8 d.val
    | none => drv &&& 3

end FileSpec

/-! ## The parts -/

section Parts

variable (l : List Byte) (f : Fsp)

/-- The reader goes on after a part. -/
lemma fspCont_part (p : Part) : fspCont (p.chars ++ l) f = fspCont l (p.store f) := by
  rcases p with d | e
  · have hlow : 0x30 ≤ (0x30 + BitVec.ofNat 8 d.val : Byte).toNat ∧
        (0x30 + BitVec.ofNat 8 d.val : Byte).toNat < 0x34 := by
      revert d
      decide
    have hval : (0x30 + BitVec.ofNat 8 d.val - 0x30 : Byte) &&& 3 = BitVec.ofNat 8 d.val := by
      revert d
      decide
    simp only [Part.chars, List.cons_append, List.nil_append, fspCont, if_pos hlow, hval]
    rfl
  · rcases e with _ | ⟨a, h1, h2⟩
    · rw [fspCont.eq_def]
      rfl
    · by_cases hstar : a = 0x2a
      · simp only [Part.chars, DirPrefix.chars, List.cons_append, List.nil_append, fspCont, if_neg h1,
          if_neg h2, if_pos hstar, if_true, Part.store, DirPrefix.value]
      · simp only [Part.chars, DirPrefix.chars, List.cons_append, List.nil_append, fspCont, if_neg h1,
          if_neg h2, if_neg hstar, Part.store, DirPrefix.value]
        rfl

lemma fspCont_parts (ps : List Part) :
    fspCont (partChars ps ++ l) f = fspCont l (ps.foldl (fun f p => p.store f) f) := by
  induction ps generalizing f with
  | nil => rfl
  | cons p ps ih =>
      rw [partChars, List.flatMap_cons, List.append_assoc, fspCont_part]
      exact ih (p.store f)

end Parts

/-- A text begins with a part in one way at most. -/
lemma Part.chars_inj {p q : Part} {x y : List Byte} (h : p.chars ++ x = q.chars ++ y) :
    p = q ∧ x = y := by
  have hdigit : ∀ d e : Fin 4, (0x30 + BitVec.ofNat 8 d.val : Byte) = 0x30 + BitVec.ofNat 8 e.val →
      d = e := by decide
  rcases p with d | (_ | ⟨a, ha⟩) <;> rcases q with e | (_ | ⟨b, hb⟩) <;>
    simp only [Part.chars, DirPrefix.chars, List.cons_append, List.nil_append, List.cons.injEq] at h
  · exact ⟨congrArg Part.drive (hdigit d e h.2.1), h.2.2.2⟩
  · exact absurd h.1 (by decide)
  · exact absurd h.1.symm hb.2
  · exact absurd h.1 (by decide)
  · exact ⟨rfl, h.2⟩
  · exact absurd h.1.symm hb.1
  · exact absurd h.1 ha.2
  · exact absurd h.1 ha.1
  · obtain ⟨rfl, -, hxy⟩ := h
    exact ⟨rfl, hxy⟩

/-- What may stand after the last part: nothing, a drive that nothing follows, or a name. -/
inductive Tail : List Byte → Prop where
  | nothing : Tail []
  | drive (d : Fin 4) : Tail [0x3a, 0x30 + BitVec.ofNat 8 d.val]
  | name {n : List Byte} (h : StartsName n) : Tail n

lemma Tail.ne_part {r : List Byte} (h : Tail r) (p : Part) (x : List Byte) : r ≠ p.chars ++ x := by
  cases h with
  | nothing =>
      intro h
      rcases p with d | (_ | ⟨a, ha⟩) <;> cases h
  | drive d =>
      rcases p with e | (_ | ⟨a, ha⟩)
      · intro h
        cases (List.cons.inj (List.cons.inj h).2).2
      · intro h
        exact absurd (List.cons.inj h).1 (by decide)
      · intro h
        exact ha.2 (List.cons.inj h).1.symm
  | name hn =>
      rintro rfl
      rcases p with e | (_ | ⟨a, ha⟩)
      · exact hn.2.1 rfl
      · exact hn.1 rfl
      · exact hn.2.2 rfl

/-- A text is taken apart in one way at most. -/
lemma parts_unique {ps : List Part} : ∀ {qs : List Part} {r t : List Byte}, Tail r → Tail t →
    partChars ps ++ r = partChars qs ++ t → ps = qs ∧ r = t := by
  induction ps with
  | nil =>
      intro qs r t hr ht h
      rcases qs with _ | ⟨q, qs⟩
      · exact ⟨rfl, h⟩
      · rw [partChars, partChars, List.flatMap_cons, List.append_assoc] at h
        exact absurd h (hr.ne_part q _)
  | cons p ps ih =>
      intro qs r t hr ht h
      rcases qs with _ | ⟨q, qs⟩
      · rw [partChars, partChars, List.flatMap_cons, List.append_assoc] at h
        exact absurd h.symm (ht.ne_part p _)
      · rw [partChars, partChars, List.flatMap_cons, List.flatMap_cons, List.append_assoc,
          List.append_assoc] at h
        obtain ⟨rfl, hrest⟩ := Part.chars_inj h
        obtain ⟨rfl, rfl⟩ := ih hr ht hrest
        exact ⟨rfl, rfl⟩

/-! ## The name -/

section Star

variable {a : Byte} (ha : a ≠ 0x2a) (l : List Byte)

include ha

lemma star_dropLast_cons : (0x2a : Byte) ∈ (a :: l).dropLast ↔ (0x2a : Byte) ∈ l.dropLast := by
  rcases l with _ | ⟨b, l⟩
  · rfl
  · rw [List.dropLast_cons_cons, List.mem_cons]
    exact or_iff_right fun h => ha h.symm

lemma star_last_cons : (a :: l).getLast? = some 0x2a ↔ l.getLast? = some 0x2a := by
  rcases l with _ | ⟨b, l⟩
  · exact iff_of_false (fun h => ha (Option.some.inj h)) nofun
  · rw [List.getLast?_cons_cons]

end Star

/-- The characters of a name from index `x` on are taken when they fit and only the last is `*`. -/
lemma nameChars_taken (l : List Byte) : ∀ (x : ℕ) (f : Fsp), x ≤ 7 →
    (nameChars l x f).2
      = if x + l.length ≤ 7 ∧ (0x2a : Byte) ∉ l.dropLast then none else some .badFilename := by
  induction l with
  | nil =>
      intro x f hx
      rw [if_pos ⟨hx, List.not_mem_nil⟩]
      rfl
  | cons a l ih =>
      intro x f hx
      rw [nameChars]
      by_cases h7 : x = 7
      · rw [if_pos h7, if_neg]
        rintro ⟨hlen, -⟩
        rw [List.length_cons] at hlen
        omega
      rw [if_neg h7]
      rcases l with _ | ⟨b, l⟩
      · have hfits : x + [a].length ≤ 7 ∧ (0x2a : Byte) ∉ [a].dropLast :=
          ⟨by rw [List.length_singleton]; omega, List.not_mem_nil⟩
        rw [if_pos hfits, if_pos rfl]
        split_ifs <;> rfl
      · by_cases hstar : a = 0x2a
        · rw [if_pos hstar, if_neg (List.cons_ne_nil b l), if_neg]
          rintro ⟨-, hno⟩
          rw [hstar] at hno
          exact hno List.mem_cons_self
        · rw [if_neg hstar, ih (x + 1) _ (by omega)]
          have hmem := star_dropLast_cons hstar (b :: l)
          have hlen : x + (a :: b :: l).length = x + 1 + (b :: l).length := by
            rw [List.length_cons]
            omega
          exact if_congr (and_congr (by rw [hlen]) (not_congr hmem.symm)) rfl rfl

lemma Fsp.put_name (f : Fsp) {x : ℕ} (hx : x < 8) (a : Byte) (i : Fin 8) :
    (f.put (Fin.ofNat 8 x) a).name i = if i.val = x then a else f.name i := by
  have hi : i = Fin.ofNat 8 x ↔ i.val = x := by
    rw [Fin.ext_iff, Fin.val_ofNat, Nat.mod_eq_of_lt hx]
  exact (Function.update_apply ..).trans (if_congr hi rfl rfl)

/-- What they become: the end of a name that is a `*` stands for everything from there on. -/
lemma nameChars_name (l : List Byte) : ∀ (x : ℕ) (f : Fsp), x + l.length ≤ 7 →
    (0x2a : Byte) ∉ l.dropLast → (nameChars l x f).1.drv = f.drv ∧
      ∀ i : Fin 8, (nameChars l x f).1.name i =
        if x ≤ i.val ∧ i.val < 7 then
          if l.getLast? = some 0x2a ∧ x + l.length ≤ i.val + 1 then 0x23
          else l.getD (i.val - x) (f.name i)
        else f.name i := by
  induction l with
  | nil =>
      intro x f hlen hstar
      refine ⟨rfl, fun i => ?_⟩
      rw [nameChars]
      split_ifs with hi hlast
      · cases hlast.1
      · rfl
      · rfl
  | cons a l ih =>
      intro x f hlen hstar
      rw [List.length_cons] at hlen
      rw [nameChars, if_neg (by omega)]
      by_cases ha : a = 0x2a
      · have hl : l = [] := by
          by_contra hne
          rw [ha, List.dropLast_cons_of_ne_nil hne] at hstar
          exact hstar List.mem_cons_self
        rw [if_pos ha, if_pos hl]
        refine ⟨rfl, fun i => ?_⟩
        show (if x ≤ i.val ∧ i.val < 7 then 0x23 else f.name i) = _
        rw [ha, hl]
        by_cases hi : x ≤ i.val ∧ i.val < 7
        · rw [if_pos hi, if_pos hi, if_pos ⟨rfl, by rw [List.length_singleton]; omega⟩]
        · rw [if_neg hi, if_neg hi]
      · have hlast := star_last_cons ha l
        rw [star_dropLast_cons ha] at hstar
        obtain ⟨hdrv, hname⟩ := ih (x + 1) (f.put (Fin.ofNat 8 x) a) (by omega) hstar
        rw [if_neg ha]
        refine ⟨hdrv, fun i => ?_⟩
        have hi := i.isLt
        rw [hname i, f.put_name (by omega)]
        simp only [hlast, List.length_cons]
        rcases lt_trichotomy i.val x with hlt | heq | hgt
        · rw [if_neg (by omega), if_neg (by omega), if_neg (by omega)]
        · rw [if_neg (by omega), if_pos heq, if_pos (by omega), if_neg, heq, Nat.sub_self]
          · rfl
          · rintro ⟨hl, hle⟩
            have hnil : l = [] := List.eq_nil_of_length_eq_zero (by omega)
            rw [hnil] at hl
            cases hl
        · obtain ⟨k, hk⟩ : ∃ k, i.val = x + 1 + k := ⟨i.val - (x + 1), by omega⟩
          have hsub : i.val - (x + 1) = k := by omega
          have hsub' : i.val - x = k + 1 := by omega
          rw [if_neg (by omega : ¬ i.val = x), hsub, hsub', List.getD_cons_succ]
          exact if_congr (by omega) (if_congr (and_congr Iff.rfl (by omega)) rfl rfl) rfl

/-- A name as the reader has left it. -/
structure Named (n : List Byte) (f g : Fsp) : Prop where
  drv : g.drv = f.drv
  dir : g.name 7 = f.name 7
  chars : ∀ i : Fin 8, i ≠ 7 → g.name i = nameAt n i

section Name

variable {n : List Byte} (f : Fsp)

/-- A name is taken if it fits and only its last character is `*`, and refused otherwise. -/
lemma fspCont_name (hn : StartsName n) : (fspCont n f).2
    = if n.length ≤ 7 ∧ (0x2a : Byte) ∉ n.dropLast then none else some .badFilename := by
  rcases n with _ | ⟨a, l⟩
  · exact hn.elim
  obtain ⟨h1, h2, hdot⟩ := hn
  rw [fspCont.eq_def]
  simp only [if_neg h1, if_neg h2]
  rcases l with _ | ⟨e, l⟩
  · have hfits : [a].length ≤ 7 ∧ (0x2a : Byte) ∉ [a].dropLast := ⟨by simp, List.not_mem_nil⟩
    rw [if_pos hfits]
    split_ifs <;> rfl
  · have he : e ≠ 0x2e := fun h => hdot (congrArg some h)
    simp only [if_neg he]
    by_cases ha : a = 0x2a
    · rw [if_pos ha, if_neg]
      rintro ⟨-, hno⟩
      rw [ha] at hno
      exact hno List.mem_cons_self
    · rw [if_neg ha, nameChars_taken _ _ _ (by decide)]
      have hmem := star_dropLast_cons ha (e :: l)
      refine if_congr (and_congr ?_ (not_congr hmem.symm)) rfl rfl
      rw [List.length_cons (a := a), Nat.add_comm]

lemma fspCont_named (h : IsName n) (hblank : ∀ i : Fin 8, i ≠ 0 → i ≠ 7 → f.name i = 0x20) :
    Named n f (fspCont n f).1 := by
  obtain ⟨hn, hlen, hstar⟩ := h
  rcases n with _ | ⟨a, l⟩
  · exact hn.elim
  obtain ⟨h1, h2, hdot⟩ := hn
  rw [fspCont.eq_def]
  simp only [if_neg h1, if_neg h2]
  rcases l with _ | ⟨e, l⟩
  · by_cases ha : a = 0x2a
    · rw [if_pos ha]
      refine ⟨rfl, rfl, fun i hi => ?_⟩
      have hlt : i.val < 7 := by
        have := i.isLt
        have h7 : i.val ≠ 7 := fun h => hi (Fin.ext h)
        omega
      rw [nameAt, ha, if_pos ⟨rfl, by rw [List.length_singleton]; omega⟩]
      exact if_pos ⟨Nat.zero_le _, hlt⟩
    · rw [if_neg ha]
      refine ⟨rfl, rfl, fun i hi => ?_⟩
      rw [nameAt, if_neg fun h => ha (Option.some.inj h.1)]
      by_cases h0 : i = 0
      · rw [h0]
        rfl
      · obtain ⟨k, hk⟩ := Nat.exists_eq_succ_of_ne_zero fun h => h0 (Fin.ext h)
        rw [hk]
        exact (Function.update_of_ne h0 ..).trans (hblank i h0 hi)
  · have he : e ≠ 0x2e := fun h => hdot (congrArg some h)
    have ha : a ≠ 0x2a := by
      rintro rfl
      exact hstar List.mem_cons_self
    have hlast := star_last_cons ha (e :: l)
    rw [star_dropLast_cons ha] at hstar
    simp only [if_neg he, if_neg ha]
    rw [List.length_cons] at hlen
    obtain ⟨hdrv, hname⟩ := nameChars_name (e :: l) 1 (f.put 0 a) (by omega) hstar
    refine ⟨hdrv, hname 7, fun i hi => ?_⟩
    have h7 : i.val ≠ 7 := fun h => hi (Fin.ext h)
    have hlt := i.isLt
    rw [hname i, nameAt, List.length_cons (a := a)]
    simp only [hlast]
    by_cases h0 : i = 0
    · rw [h0, if_neg (by decide), if_neg]
      · rfl
      · rintro ⟨-, hle⟩
        simp at hle
    · obtain ⟨k, hk⟩ := Nat.exists_eq_succ_of_ne_zero fun h => h0 (Fin.ext h)
      have hput : (f.put 0 a).name i = 0x20 := (Function.update_of_ne h0 ..).trans (hblank i h0 hi)
      rw [if_pos (by omega), hput]
      refine if_congr (and_congr Iff.rfl (by omega)) rfl ?_
      rw [hk, List.getD_cons_succ]
      rfl

end Name

/-! ## Every text -/

/-- A text that the reader takes is a row of parts and what may stand after it. -/
lemma taken_parts (k : ℕ) : ∀ (l : List Byte) (f : Fsp), l.length ≤ k → (fspCont l f).2 = none →
    ∃ ps r, l = partChars ps ++ r ∧ Tail r ∧ (StartsName r → IsName r) := by
  have hdigit : ∀ d : Byte, 0x30 ≤ d.toNat ∧ d.toNat < 0x34 →
      ∃ e : Fin 4, d = 0x30 + BitVec.ofNat 8 e.val := by decide
  induction k with
  | zero =>
      intro l f hl _
      obtain rfl := List.eq_nil_of_length_eq_zero (Nat.le_zero.1 hl)
      exact ⟨[], [], rfl, .nothing, fun h => h.elim⟩
  | succ k ih =>
      intro l f hl h
      -- a part is taken off, and the rest is shorter
      have hpart : ∀ (p : Part) (x : List Byte), l = p.chars ++ x → x.length ≤ k →
          ∃ ps r, l = partChars ps ++ r ∧ Tail r ∧ (StartsName r → IsName r) := by
        rintro p x rfl hx
        rw [fspCont_part] at h
        obtain ⟨ps, r, rfl, hr⟩ := ih x _ hx h
        exact ⟨p :: ps, r, by rw [partChars, partChars, List.flatMap_cons, List.append_assoc], hr⟩
      rcases l with _ | ⟨a, l⟩
      · exact ⟨[], [], rfl, .nothing, fun h => h.elim⟩
      rw [List.length_cons] at hl
      by_cases hdot : a = 0x2e
      · exact hpart (.dir .empty) l (by rw [hdot]; rfl) (by omega)
      by_cases hcolon : a = 0x3a
      · rw [fspCont.eq_def] at h
        simp only [if_neg hdot, if_pos hcolon] at h
        rcases l with _ | ⟨d, l⟩
        · cases h
        by_cases hd : 0x30 ≤ d.toNat ∧ d.toNat < 0x34
        · obtain ⟨e, rfl⟩ := hdigit d hd
          rcases l with _ | ⟨b, l⟩
          · exact ⟨[], _, rfl, hcolon ▸ .drive e, fun h => absurd hcolon h.2.1⟩
          · by_cases hb : b = 0x2e
            · exact hpart (.drive e) l (by rw [hcolon, hb]; rfl) (by simp at hl; omega)
            · simp only [if_pos hd, if_neg hb] at h
              cases h
        · simp only [if_neg hd] at h
          cases h
      by_cases hname : l.head? = some 0x2e
      · obtain ⟨l, rfl⟩ := List.head?_eq_some_iff.1 hname
        exact hpart (.dir (.char a ⟨hdot, hcolon⟩)) l rfl (by simp at hl; omega)
      · have hn : StartsName (a :: l) := ⟨hdot, hcolon, hname⟩
        refine ⟨[], a :: l, rfl, .name hn, fun _ => ?_⟩
        rw [fspCont_name f hn] at h
        split_ifs at h with hfits
        exact ⟨hn, hfits.1, hfits.2⟩

/-- The fields after a drive and a directory. -/
lemma partsOf_store (d : Option (Fin 4)) (e : Option DirPrefix) (f : Fsp) :
    ((partsOf d e).foldl (fun f p => p.store f) f).drv
        = (match d with | some d => BitVec.ofNat 8 d.val | none => f.drv) ∧
      ((partsOf d e).foldl (fun f p => p.store f) f).name 7
        = (match e with | some e => e.value | none => if d = none then f.name 7 else 0x24) ∧
      ∀ i : Fin 8, i ≠ 0 → i ≠ 7 →
        ((partsOf d e).foldl (fun f p => p.store f) f).name i = f.name i := by
  rcases d with _ | d <;> rcases e with _ | (_ | ⟨a, ha⟩) <;>
    refine ⟨rfl, rfl, fun i h0 h7 => ?_⟩ <;>
    simp [partsOf, Part.store, Fsp.put, h0, h7]

namespace FileSpec

/-- A well-formed specification is read as what it stands for. -/
lemma fsp_text (p : FileSpec) (s : State) : s.fsp p.text = (p.fsp s.defDir s.defDrv, none) := by
  obtain ⟨hdrv, hdir, hblank⟩ := partsOf_store p.drive p.dir (defaultFsp s.defDir s.defDrv)
  rw [State.fsp, text, fspCont_parts]
  set g := (partsOf p.drive p.dir).foldl (fun f p => p.store f) (defaultFsp s.defDir s.defDrv)
  have hspaces : ∀ i : Fin 8, i ≠ 0 → i ≠ 7 → g.name i = 0x20 := fun i h0 h7 =>
    (hblank i h0 h7).trans (if_neg h7)
  have herr := fspCont_name g p.isName.starts
  rw [if_pos ⟨p.isName.length, p.isName.star⟩] at herr
  obtain ⟨hdrv', hdir', hchars⟩ := fspCont_named g p.isName hspaces
  refine Prod.ext ?_ herr
  generalize (fspCont p.name g).1 = r at hdrv' hdir' hchars
  obtain ⟨name, drv⟩ := r
  simp only at hdrv' hdir' hchars
  have hname : name = (p.fsp s.defDir s.defDrv).name := by
    funext i
    by_cases h7 : i = 7
    · rw [h7, hdir', hdir]
      rfl
    · rw [hchars i h7]
      exact (if_neg h7).symm
  rw [hname, hdrv', hdrv]
  rfl

end FileSpec

/-! ## What is read exactly -/

/-- The reader takes the text if it is a well-formed specification and not otherwise, and leaves in
the fields what it stands for; a name that is too long or has a `*` before its end is refused. -/
structure ReadsExactly (s : State) (l : List Byte) : Prop where
  sound : ∀ s', (readFsp l).run s = .ok () s' →
    ∃ p : FileSpec, p.text = l ∧ s' = s.withFsp (p.fsp s.defDir s.defDrv)
  complete : ∀ p : FileSpec, p.text = l →
    (readFsp l).run s = .ok () (s.withFsp (p.fsp s.defDir s.defDrv))
  refused : ∀ d e n, partChars (partsOf d e) ++ n = l → StartsName n → ¬ IsName n →
    ∃ s', (readFsp l).run s = .err .badFilename s'

/-- Nothing follows the parts, or only a drive without its dot. -/
def Unfinished (l : List Byte) : Prop :=
  ∃ ps, l = partChars ps ∨ ∃ d : Fin 4, l = partChars ps ++ [0x3a, 0x30 + BitVec.ofNat 8 d.val]

/-- A name follows other parts than a drive, if any, and a directory, if any. -/
def Overprefixed (l : List Byte) : Prop :=
  ∃ ps n, l = partChars ps ++ n ∧ IsName n ∧ ∀ d e, ps ≠ partsOf d e

lemma readFsp_ok_iff (s : State) (l : List Byte) :
    (∃ s', (readFsp l).run s = .ok () s') ↔ (s.fsp l).2 = none := by
  rw [readFsp_run]
  cases (s.fsp l).2 with
  | none => exact iff_of_true ⟨_, rfl⟩ rfl
  | some e => exact iff_of_false nofun nofun

/-- A text that is not finished is taken. -/
lemma Unfinished.taken {l : List Byte} (h : Unfinished l) (f : Fsp) : (fspCont l f).2 = none := by
  have hlow : ∀ d : Fin 4, 0x30 ≤ (0x30 + BitVec.ofNat 8 d.val : Byte).toNat ∧
      (0x30 + BitVec.ofNat 8 d.val : Byte).toNat < 0x34 := by decide
  obtain ⟨ps, rfl | ⟨d, rfl⟩⟩ := h
  · rw [← List.append_nil (partChars ps), fspCont_parts]
    rfl
  · rw [fspCont_parts, fspCont.eq_def]
    simp only [if_pos (hlow d)]
    rfl

/-- **File specifications are read exactly but for texts that end too early or have too many
parts.** -/
theorem readFsp_exact_iff (s : State) (l : List Byte) :
    ReadsExactly s l ↔ ¬ (Unfinished l ∨ Overprefixed l) := by
  have hcomplete : ∀ p : FileSpec, p.text = l →
      (readFsp l).run s = .ok () (s.withFsp (p.fsp s.defDir s.defDrv)) := by
    rintro p rfl
    rw [readFsp_run, p.fsp_text s]
  constructor
  · intro h hbad
    have htaken : (s.fsp l).2 = none := by
      obtain hun | ⟨ps, n, rfl, hn, -⟩ := hbad
      · exact hun.taken _
      · rw [State.fsp, fspCont_parts, fspCont_name _ hn.starts, if_pos ⟨hn.length, hn.star⟩]
    obtain ⟨s', hrun⟩ := (readFsp_ok_iff s l).2 htaken
    obtain ⟨p, htext, -⟩ := h.sound s' hrun
    have hp : Tail p.name := .name p.isName.starts
    obtain ⟨ps, rfl | ⟨d, rfl⟩⟩ | ⟨ps, n, rfl, hn, hps⟩ := hbad
    · rw [← List.append_nil (partChars ps)] at htext
      obtain ⟨-, hname⟩ := parts_unique hp .nothing htext
      have hstarts := p.isName.starts
      rw [hname] at hstarts
      exact hstarts
    · obtain ⟨-, hname⟩ := parts_unique hp (.drive d) htext
      have hstarts := p.isName.starts
      rw [hname] at hstarts
      exact hstarts.2.1 rfl
    · obtain ⟨hparts, -⟩ := parts_unique hp (.name hn.starts) htext
      exact hps _ _ hparts.symm
  · intro hgood
    refine ⟨fun s' hrun => ?_, hcomplete, ?_⟩
    · obtain ⟨ps, r, rfl, htail, hname⟩ :=
        taken_parts l.length l _ le_rfl ((readFsp_ok_iff s l).1 ⟨s', hrun⟩)
      cases htail with
      | nothing => exact absurd (Or.inl ⟨ps, Or.inl (List.append_nil _)⟩) hgood
      | drive d => exact absurd (Or.inl ⟨ps, Or.inr ⟨d, rfl⟩⟩) hgood
      | name hn =>
          by_cases hparts : ∃ d e, ps = partsOf d e
          · obtain ⟨d, e, rfl⟩ := hparts
            have hread := hcomplete ⟨d, e, r, hname hn⟩ rfl
            rw [hread] at hrun
            injection hrun with _ hs
            exact ⟨⟨d, e, r, hname hn⟩, rfl, hs.symm⟩
          · refine absurd (Or.inr ⟨ps, r, rfl, hname hn, fun d e h => hparts ⟨d, e, h⟩⟩) hgood
    · rintro d e n rfl hn hnot
      have herr : (s.fsp (partChars (partsOf d e) ++ n)).2 = some .badFilename := by
        rw [State.fsp, fspCont_parts, fspCont_name _ hn, if_neg]
        exact fun h => hnot ⟨hn, h.1, h.2⟩
      refine ⟨s.withFsp (s.fsp (partChars (partsOf d e) ++ n)).1, ?_⟩
      rw [readFsp_run, herr]

/-- The text `:1` leaves its colon as the name. -/
theorem readFsp_driveAlone : ¬ ReadsExactly (stateWithDisk 0 0) [0x3a, 0x31] := by
  intro h
  obtain ⟨p, htext, -⟩ := h.sound _ rfl
  have hstarts := p.isName.starts
  have hparts : p.text = partChars [] ++ [0x3a, 0x31] := htext
  obtain ⟨-, hname⟩ := parts_unique (.name hstarts) (.drive 1) hparts
  rw [hname] at hstarts
  exact hstarts.2.1 rfl

end Udfs.Rom
