import Udfs.Lib.Selection
import Udfs.Rom.Search

/-!
# Printing the catalogue

`*CAT` prints the entries sorted.  It takes the least of those that are left, prints it and sets
bit 7 of the first character of its name, which tells that it has been printed; the catalogue in
memory is spoilt by that and read again when it is next needed.  To have the files of the current
directory come first, their directory character is made zero beforehand.
-/

namespace Udfs.Rom

/-! ## The command -/

/-- What is printed for one entry: the layout before it, which entry it is, and the name. -/
structure Shown where
  layout : List Byte
  entry : ℕ
  name : List Byte

/-- The catalogue in memory, the directory printed last (`$aa`), the column (`$a8`), and what has been
printed. -/
structure CatState where
  cat : ℕ → Byte
  lastDir : Byte
  column : Byte
  shown : List Shown

/-- `$84c8`: the entries of the current directory get the directory character 0, or `$80` when they
are locked. -/
def hideDir (dir : Byte) : ℕ → Byte → (ℕ → Byte) → ℕ → Byte
  | 0, _, c => c
  | k + 1, y, c =>
      if (c 0x0f05).toNat ≤ y.toNat then c
      else hideDir dir k (y + 8) <|
        if (c (0x0e0f + y.toNat) ^^^ dir) &&& 0x7f = 0 then
          Function.update c (0x0e0f + y.toNat) (c (0x0e0f + y.toNat) &&& 0x80)
        else c

/-- `$84f6`: the first entry from `y` on that has not been printed. -/
def nextLeft (c : ℕ → Byte) : ℕ → Byte → Option Byte
  | 0, _ => none
  | k + 1, y =>
      if (c 0x0f05).toNat ≤ y.toNat then none
      else if 128 ≤ (c (0x0e08 + y.toNat)).toNat then nextLeft c k (y + 8)
      else some y

/-- `$8505`: the eight characters of an entry at `$1060`, without bit 7. -/
def leastName (c : ℕ → Byte) (y : Byte) : ℕ → Byte := fun j => c (0x0e08 + y.toNat + j) &&& 0x7f

/-- `$851b`: subtract the characters of the least name so far, the last one first. -/
def subtractName (c b : ℕ → Byte) : ℕ → Byte → Bool → Bool × Byte
  | 0, y, carry => (carry, y)
  | k + 1, y, carry => subtractName c b k (y - 1) (sbc (c (0x0e0e + y.toNat)) (b k) carry).2

/-- `$8518`: the carry is clear when the entry is less than the least one so far; `y` is at the entry
again. -/
def compareLeast (c b : ℕ → Byte) (y : Byte) : Bool × Byte :=
  let r := subtractName c b 7 y true
  ((sbc (c (0x0e0f + (r.2 + 7).toNat) &&& 0x7f) (b 7) r.1).2, r.2 + 7)

/-- `$8513`: go through the entries from `y` on, with the least one so far and its name. -/
def findLeast (c : ℕ → Byte) : ℕ → Byte → (ℕ → Byte) → Byte → Byte × (ℕ → Byte)
  | 0, ab, b, _ => (ab, b)
  | k + 1, ab, b, y =>
      match nextLeft c 32 y with
      | none => (ab, b)
      | some z =>
          let r := compareLeast c b z
          if r.1 then findLeast c k ab b (r.2 + 8)
          else findLeast c k r.2 (leastName c r.2) (r.2 + 8)

/-- `prt_filename`: the directory character unless it is 0, the name, and whether it is locked. -/
def prtFilename (c : ℕ → Byte) (y : ℕ) : List Byte :=
  (if c (0x0e0f + y) &&& 0x7f = 0 then [0x20, 0x20] else [c (0x0e0f + y) &&& 0x7f, 0x2e])
    ++ (List.range 7).map (fun j => c (0x0e08 + y + j) &&& 0x7f)
    ++ [0x20, 0x20, if 128 ≤ (c (0x0e0f + y)).toNat then 0x4c else 0x20, 0x20]

/-- `$8541`: the layout before an entry of directory `d`, and the column after it.  An empty line
stands between the current directory and the others. -/
def layoutOf (s : CatState) (d : Byte) : List Byte × Byte :=
  if d ≠ s.lastDir ∧ s.lastDir = 0 then ([0x0d, 0x0d], 0)
  else if s.column ≠ 0 then ([0x0d], 0)
  else ([0x20, 0x20, 0x20, 0x20, 0x20], 1)

/-- `$8537`: mark the least entry and print it. -/
def showLeast (s : CatState) (ab d : Byte) : CatState :=
  let c := Function.update s.cat (0x0e08 + ab.toNat) (s.cat (0x0e08 + ab.toNat) ||| 0x80)
  let l := layoutOf s d
  ⟨c, d, l.2, s.shown ++ [⟨l.1 ++ [0x20, 0x20], ab.toNat, prtFilename c ab.toNat⟩]⟩

/-- `pc12`: print the least of the entries left until there is none. -/
def catLoop : ℕ → CatState → Option CatState
  | 0, _ => none
  | k + 1, s =>
      match nextLeft s.cat 32 0 with
      | none => some s
      | some y =>
          let r := findLeast s.cat 32 y (leastName s.cat y) (y + 8)
          catLoop k (showLeast s r.1 (r.2 7))

/-- `$84c6`: the entries of a catalogue, for the current directory `dir`. -/
def catEntries (dir : Byte) (c : ℕ → Byte) : Option CatState :=
  catLoop 32 ⟨hideDir dir 32 0 c, 0, 0xff, []⟩

/-- `*CAT` without its heading, from the loading of the catalogue on.  The names in memory are spoilt,
so it does not count as loaded any more. -/
def starCat : Routine (Option (List Shown)) := do
  loadCurDrvCat
  let s ← Prog.get
  match catEntries s.defDir s.cat with
  | none => pure none
  | some r => do
      Prog.modify fun s => { s with cat := r.cat, curDrvCat := 0xff }
      pure (some r.shown)

/-- On the machine the command prints the entries of the disk in the current drive. -/
lemma starCat_run {s : State} (h : s.HasDisk s.curDrv) {r : CatState}
    (hr : catEntries s.defDir (s.catOf s.curDrv) = some r) :
    starCat.run s = .ok (some r.shown) { s with cat := r.cat, curDrvCat := 0xff } := by
  rw [starCat, Prog.run_bind_ok (loadCurDrvCat_run h), Prog.run_bind_ok (Prog.run_get _)]
  show (match catEntries s.defDir (s.catOf s.curDrv) with
    | none => pure none
    | some r => do
        Prog.modify fun s => { s with cat := r.cat, curDrvCat := 0xff }
        pure (some r.shown) : Routine (Option (List Shown))).run s.catLoaded = _
  rw [hr]
  rfl

/-! ## The comparison -/

/-- The carry of a subtraction goes on from the lower places. -/
lemma sbc_carry (a b : Byte) (carry : Bool) :
    (sbc a b carry).2 = true ↔ b.toNat < a.toNat ∨ (b.toNat = a.toNat ∧ carry = true) := by
  have ha := byte_lt a
  have hb := byte_lt b
  rw [sbc, decide_eq_true_iff]
  cases carry <;> simp <;> omega

lemma cons_le_cons_nat {a b : ℕ} {l m : List ℕ} :
    a :: l ≤ b :: m ↔ a < b ∨ (a = b ∧ l ≤ m) := by
  rw [← not_lt, List.cons_lt_cons_iff, ← not_lt (a := m)]
  rcases lt_trichotomy a b with h | rfl | h
  · exact iff_of_true (by omega) (Or.inl h)
  · simp
  · exact iff_of_false (not_not.2 (Or.inl h)) (by omega)

/-- The characters of a name, as numbers. -/
def nameVals (k : ℕ) (f : ℕ → Byte) : List ℕ := (List.range k).map fun j => (f j).toNat

/-- Subtracting two names from the last character on compares them from the first one on. -/
lemma subtractName_carry (c b : ℕ → Byte) {o : ℕ} (ho : 7 ≤ o) (k : ℕ) :
    ∀ (y : Byte) (carry : Bool) (u v : List ℕ), y.toNat + 7 = o + k → (carry = true ↔ u ≤ v) →
      ((subtractName c b k y carry).1 = true ↔
          nameVals k b ++ u ≤ nameVals k (fun j => c (0x0e08 + o + j)) ++ v) ∧
        (subtractName c b k y carry).2.toNat + 7 = o := by
  induction k with
  | zero =>
      intro y carry u v hy hcarry
      exact ⟨hcarry, hy⟩
  | succ k ih =>
      intro y carry u v hy hcarry
      have hy1 := toNat_sub_one (y := y) (by omega)
      have haddr : 0x0e0e + y.toNat = 0x0e08 + o + k := by omega
      have hnext : (sbc (c (0x0e0e + y.toNat)) (b k) carry).2 = true ↔
          (b k).toNat :: u ≤ (c (0x0e08 + o + k)).toNat :: v := by
        rw [sbc_carry, haddr, cons_le_cons_nat, hcarry]
      have hsplit : ∀ (f : ℕ → Byte) (w : List ℕ),
          nameVals (k + 1) f ++ w = nameVals k f ++ (f k).toNat :: w := by
        intro f w
        rw [nameVals, List.range_succ, List.map_append, List.append_assoc]
        rfl
      rw [hsplit, hsplit]
      exact ih (y - 1) _ _ _ (by omega) hnext

/-- What an entry is sorted by: the directory and then the characters of the name. -/
def catKey (c : ℕ → Byte) (o : ℕ) : List ℕ :=
  (c (0x0e0f + o) &&& 0x7f).toNat :: nameVals 7 fun j => c (0x0e08 + o + j)

lemma compareLeast_spec (c b : ℕ → Byte) {y : Byte} (hy : 7 ≤ y.toNat) :
    (compareLeast c b y).2 = y ∧
      ((compareLeast c b y).1 = true ↔ (b 7).toNat :: nameVals 7 b ≤ catKey c y.toNat) := by
  obtain ⟨hcarry, hend⟩ := subtractName_carry c b (o := y.toNat) hy 7 y true [] [] rfl
    (iff_of_true rfl le_rfl)
  have h7 : (7 : Byte).toNat = 7 := rfl
  have hback : (subtractName c b 7 y true).2 + 7 = y := by
    apply BitVec.eq_of_toNat_eq
    rw [BitVec.toNat_add, h7, hend]
    exact Nat.mod_eq_of_lt (byte_lt y)
  rw [List.append_nil, List.append_nil] at hcarry
  refine ⟨hback, ?_⟩
  rw [compareLeast, hback, sbc_carry, hcarry, catKey, cons_le_cons_nat]

/-! ## The entries that are left -/

/-- The catalogue `c'` is `c` with the entries outside `left` marked as printed. -/
structure Marked (c : ℕ → Byte) (left : Finset ℕ) (c' : ℕ → Byte) : Prop where
  sub : ∀ i ∈ left, i < entryCount c
  count : c' 0x0f05 = c 0x0f05
  same : ∀ i ∈ left, ∀ j < 8, c' (0x0e08 + 8 * i + j) = c (0x0e08 + 8 * i + j)
  marked : ∀ i < entryCount c, i ∉ left → 128 ≤ (c' (0x0e08 + 8 * i)).toNat

/-- The characters of the names have bit 7 clear. -/
def PlainNames (c : ℕ → Byte) : Prop :=
  ∀ i < entryCount c, ∀ j < 7, (c (0x0e08 + 8 * i + j)).toNat < 128

section Left

variable {c c' : ℕ → Byte} {left : Finset ℕ}

lemma Marked.dir_eq (h : Marked c left c') {i : ℕ} (hi : i ∈ left) :
    c' (0x0e0f + 8 * i) = c (0x0e0f + 8 * i) := by
  have hseven := h.same i hi 7 (by omega)
  rwa [show 0x0e08 + 8 * i + 7 = 0x0e0f + 8 * i by omega] at hseven

lemma Marked.catKey_eq (h : Marked c left c') {i : ℕ} (hi : i ∈ left) :
    catKey c' (8 * i) = catKey c (8 * i) := by
  rw [catKey, catKey, h.dir_eq hi, nameVals, nameVals]
  congr 1
  refine List.map_congr_left fun j hj => ?_
  rw [h.same i hi j (by have := List.mem_range.1 hj; omega)]

lemma Marked.prtFilename_eq (h : Marked c left c') {i : ℕ} (hi : i ∈ left) :
    prtFilename c' (8 * i) = prtFilename c (8 * i) := by
  have hname : (List.range 7).map (fun j => c' (0x0e08 + 8 * i + j) &&& 0x7f)
      = (List.range 7).map fun j => c (0x0e08 + 8 * i + j) &&& 0x7f :=
    List.map_congr_left fun j hj => by
      rw [h.same i hi j (by have := List.mem_range.1 hj; omega)]
  rw [prtFilename, prtFilename, h.dir_eq hi, hname]

/-- The scan comes to the next entry that is left. -/
lemma nextLeft_spec (hn : entryCount c ≤ 31) (hplain : PlainNames c) (h : Marked c left c') (k : ℕ) :
    ∀ (i : ℕ) (y : Byte), i ≤ entryCount c → y.toNat = 8 * i → entryCount c - i < k →
      (∃ j z, nextLeft c' k y = some z ∧ z.toNat = 8 * j ∧ j ∈ left ∧ i ≤ j ∧
          ∀ m ∈ left, i ≤ m → j ≤ m) ∨
        (nextLeft c' k y = none ∧ ∀ m ∈ left, m < i) := by
  induction k with
  | zero => intro i y _ _ hk; omega
  | succ k ih =>
      intro i y hi hy hk
      have hle : (c' 0x0f05).toNat ≤ y.toNat ↔ entryCount c ≤ i := by
        rw [h.count, hy, entryCount]
        omega
      rw [nextLeft]
      by_cases hend : entryCount c ≤ i
      · rw [if_pos (hle.2 hend)]
        exact Or.inr ⟨rfl, fun m hm => lt_of_lt_of_le (h.sub m hm) hend⟩
      · have hy8 : (y + 8).toNat = 8 * (i + 1) := by
          rw [toNat_add_eight hy (by omega)]
          ring
        rw [if_neg (mt hle.1 hend), hy]
        by_cases hleft : i ∈ left
        · have hlow : ¬ 128 ≤ (c' (0x0e08 + 8 * i)).toNat := by
            have hsame := h.same i hleft 0 (by omega)
            have hname := hplain i (by omega) 0 (by omega)
            rw [Nat.add_zero] at hsame hname
            rw [hsame]
            omega
          rw [if_neg hlow]
          exact Or.inl ⟨i, y, rfl, hy, hleft, le_rfl, fun m _ hm => hm⟩
        · rw [if_pos (h.marked i (by omega) hleft)]
          have hne : ∀ m ∈ left, i ≤ m → i + 1 ≤ m := by
            intro m hm him
            rcases Nat.eq_or_lt_of_le him with rfl | hlt
            · exact absurd hm hleft
            · exact hlt
          obtain ⟨j, z, hz, hzj, hj, hij, hmin⟩ | ⟨hnone, hall⟩ :=
            ih (i + 1) (y + 8) (by omega) hy8 (by omega)
          · exact Or.inl ⟨j, z, hz, hzj, hj, by omega, fun m hm him => hmin m hm (hne m hm him)⟩
          · refine Or.inr ⟨hnone, fun m hm => ?_⟩
            by_contra hge
            have := hall m hm
            have := hne m hm (by omega)
            omega

instance (c : ℕ → Byte) : Decidable (PlainNames c) :=
  inferInstanceAs (Decidable (∀ i < entryCount c, ∀ j < 7, (c (0x0e08 + 8 * i + j)).toNat < 128))

/-- The name kept is that of the entry. -/
structure Least (c : ℕ → Byte) (left : Finset ℕ) (a : ℕ) (ab : Byte) (b : ℕ → Byte) : Prop where
  entry : ab.toNat = 8 * a
  mem : a ∈ left
  key : (b 7).toNat :: nameVals 7 b = catKey c (8 * a)

lemma toNat_and_low {x : Byte} (h : x.toNat < 128) : x &&& 0x7f = x := by
  revert x
  decide

lemma least_of_mem (hplain : PlainNames c) (h : Marked c left c') {a : ℕ} {y : Byte} (ha : a ∈ left)
    (hy : y.toNat = 8 * a) : Least c left a y (leastName c' y) := by
  refine ⟨hy, ha, ?_⟩
  rw [← h.catKey_eq ha, catKey, leastName, hy]
  congr 1
  · rw [show 0x0e08 + 8 * a + 7 = 0x0e0f + 8 * a by omega]
  · refine List.map_congr_left fun j hj => ?_
    have hj := List.mem_range.1 hj
    have hlow := hplain a (h.sub a ha) j hj
    rw [← h.same a ha j (by omega)] at hlow
    show (c' (0x0e08 + y.toNat + j) &&& 0x7f).toNat = _
    rw [hy, toNat_and_low hlow]

/-- The scan over the rest keeps the least. -/
lemma findLeast_spec (hn : entryCount c ≤ 31) (hplain : PlainNames c) (h : Marked c left c') (k : ℕ) :
    ∀ (a i : ℕ) (ab y : Byte) (b : ℕ → Byte), Least c left a ab b → a < i → i ≤ entryCount c →
      y.toNat = 8 * i → entryCount c - i < k →
      (∀ m ∈ left, m < i → catKey c (8 * a) ≤ catKey c (8 * m)) →
      ∃ a', Least c left a' (findLeast c' k ab b y).1 (findLeast c' k ab b y).2 ∧
        ∀ m ∈ left, catKey c (8 * a') ≤ catKey c (8 * m) := by
  induction k with
  | zero => intro a i ab y b _ _ _ _ hk; omega
  | succ k ih =>
      intro a i ab y b hl ha hi hy hk hmin
      obtain ⟨j, z, hz, hzj, hj, hij, hnext⟩ | ⟨hnone, hall⟩ := nextLeft_spec hn hplain h 32 i y hi hy
        (by omega)
      · have hjn := h.sub j hj
        obtain ⟨hback, hcmp⟩ := compareLeast_spec c' b (y := z) (by omega)
        rw [hl.key, hzj, h.catKey_eq hj] at hcmp
        have hz8 : (z + 8).toNat = 8 * (j + 1) := by
          rw [toNat_add_eight hzj (by omega)]
          ring
        have hbelow : ∀ m ∈ left, m < j + 1 → m < i ∨ m = j := by
          intro m hm hmj
          by_contra hno
          rw [not_or] at hno
          have := hnext m hm (by omega)
          omega
        rw [findLeast, hz]
        simp only [hback]
        by_cases hle : catKey c (8 * a) ≤ catKey c (8 * j)
        · rw [if_pos (hcmp.2 hle)]
          refine ih a (j + 1) ab (z + 8) b hl (by omega) (by omega) hz8 (by omega) fun m hm hmj => ?_
          rcases hbelow m hm hmj with hmi | rfl
          · exact hmin m hm hmi
          · exact hle
        · rw [if_neg (mt hcmp.1 hle)]
          refine ih j (j + 1) z (z + 8) (leastName c' z) (least_of_mem hplain h hj hzj) (by omega)
            (by omega) hz8 (by omega) fun m hm hmj => ?_
          rcases hbelow m hm hmj with hmi | rfl
          · exact ((not_le.1 hle).trans_le (hmin m hm hmi)).le
          · exact le_rfl
      · rw [findLeast, hnone]
        exact ⟨a, hl, fun m hm => hmin m hm (hall m hm)⟩

lemma or_top (x : Byte) : 128 ≤ (x ||| 0x80).toNat := by
  revert x
  decide

/-- Marking an entry leaves the others. -/
lemma Marked.mark (h : Marked c left c') {a : ℕ} (ha : a ∈ left) :
    Marked c (left.erase a)
      (Function.update c' (0x0e08 + 8 * a) (c' (0x0e08 + 8 * a) ||| 0x80)) := by
  have hbound := h.sub a ha
  refine ⟨fun i hi => h.sub i (Finset.mem_of_mem_erase hi), ?_, fun i hi j hj => ?_, fun i hi hleft => ?_⟩
  · rw [Function.update_of_ne (by omega)]
    exact h.count
  · have hne := Finset.ne_of_mem_erase hi
    rw [Function.update_of_ne (by omega)]
    exact h.same i (Finset.mem_of_mem_erase hi) j hj
  · by_cases hia : i = a
    · rw [hia, Function.update_self]
      exact or_top _
    · rw [Function.update_of_ne (by omega)]
      exact h.marked i hi fun hmem => hleft (Finset.mem_erase.2 ⟨hia, hmem⟩)

lemma prtFilename_mark (c' : ℕ → Byte) (o : ℕ) :
    prtFilename (Function.update c' (0x0e08 + o) (c' (0x0e08 + o) ||| 0x80)) o = prtFilename c' o := by
  have hlow : ∀ x : Byte, (x ||| 0x80) &&& 0x7f = x &&& 0x7f := by decide
  have hname : ∀ j, Function.update c' (0x0e08 + o) (c' (0x0e08 + o) ||| 0x80) (0x0e08 + o + j) &&& 0x7f
      = c' (0x0e08 + o + j) &&& 0x7f := by
    intro j
    by_cases hj : j = 0
    · rw [hj, Nat.add_zero, Function.update_self, hlow]
    · rw [Function.update_of_ne (by omega)]
  simp only [prtFilename, hname, Function.update_of_ne (show 0x0e0f + o ≠ 0x0e08 + o by omega)]

/-- One more entry is printed, as it is before it is marked. -/
lemma showLeast_shown (s : CatState) (ab d : Byte) :
    ∃ x, (showLeast s ab d).shown = s.shown ++ [x] ∧ x.entry = ab.toNat ∧
      x.name = prtFilename s.cat ab.toNat :=
  ⟨_, rfl, rfl, prtFilename_mark s.cat ab.toNat⟩

/-- The loop prints those that are left, always a least one of them. -/
lemma catLoop_spec (hn : entryCount c ≤ 31) (hplain : PlainNames c) (k : ℕ) :
    ∀ (left : Finset ℕ) (s : CatState), Marked c left s.cat → left.card < k →
      ∃ s' l, catLoop k s = some s' ∧ Picks (fun i => catKey c (8 * i)) left l ∧
        ∃ e, s'.shown = s.shown ++ e ∧ e.map Shown.entry = l.map (8 * ·) ∧
          ∀ x ∈ e, x.name = prtFilename c x.entry := by
  induction k with
  | zero => intro left s _ hk; omega
  | succ k ih =>
      intro left s h hk
      obtain ⟨j, z, hz, hzj, hj, -, hnext⟩ | ⟨hnone, hall⟩ :=
        nextLeft_spec hn hplain h 32 0 0 (Nat.zero_le _) rfl (by omega)
      · obtain ⟨a, hleast, hmin⟩ := findLeast_spec hn hplain h 32 j (j + 1) z (z + 8)
          (leastName s.cat z) (least_of_mem hplain h hj hzj) (Nat.lt_succ_self j)
          (by have := h.sub j hj; omega) (by
            have := h.sub j hj
            rw [toNat_add_eight hzj (by omega)]
            ring) (by omega) fun m hm hmj => by
              have : m = j := by
                have := hnext m hm (Nat.zero_le m)
                omega
              rw [this]
        set r := findLeast s.cat 32 z (leastName s.cat z) (z + 8) with hr
        have hmark : Marked c (left.erase a) (showLeast s r.1 (r.2 7)).cat := by
          rw [showLeast, hleast.entry]
          exact h.mark hleast.mem
        obtain ⟨s', l, hrun, hpicks, e, hshown, hentry, hname⟩ := ih (left.erase a) _ hmark (by
          rw [Finset.card_erase_of_mem hleast.mem]
          have := Finset.card_pos.2 ⟨a, hleast.mem⟩
          omega)
        obtain ⟨x, hx, hxa, hxname⟩ := showLeast_shown s r.1 (r.2 7)
        rw [hleast.entry] at hxa hxname
        refine ⟨s', a :: l, ?_, .pick hleast.mem hmin hpicks, x :: e, ?_, ?_, ?_⟩
        · rw [catLoop, hz]
          exact hrun
        · rw [hshown, hx, List.append_assoc]
          rfl
        · rw [List.map_cons, List.map_cons, hentry, hxa]
        · intro x' hx'
          rcases List.mem_cons.1 hx' with rfl | hx'
          · rw [hxname, hxa, h.prtFilename_eq hleast.mem]
          · exact hname x' hx'
      · have hempty : left = ∅ := Finset.eq_empty_of_forall_notMem fun m hm => by
          have := hall m hm
          omega
        rw [catLoop, hnone, hempty]
        exact ⟨s, [], rfl, .none, [], (List.append_nil _).symm, rfl, fun x hx => absurd hx (List.not_mem_nil)⟩

end Left

/-! ## The whole list -/

/-- The directory character that an entry is sorted by and printed with: 0 in the current directory. -/
def shownDir (dir d : Byte) : Byte := if d &&& 0x7f = dir &&& 0x7f then 0 else d &&& 0x7f

/-- The directory character that `$84c8` leaves. -/
def hiddenDir (dir d : Byte) : Byte := if (d ^^^ dir) &&& 0x7f = 0 then d &&& 0x80 else d

lemma hiddenDir_low (dir d : Byte) : hiddenDir dir d &&& 0x7f = shownDir dir d := by
  have htop : ∀ d : Byte, (d &&& 0x80) &&& 0x7f = 0 := by decide
  rw [hiddenDir, shownDir]
  by_cases h : d &&& 0x7f = dir &&& 0x7f
  · rw [if_pos h, if_pos ((xor_and_eq_zero _ _ _).2 h), htop]
  · rw [if_neg h, if_neg (mt (xor_and_eq_zero _ _ _).1 h)]

lemma hiddenDir_locked (dir d : Byte) : 128 ≤ (hiddenDir dir d).toNat ↔ 128 ≤ d.toNat := by
  have htop : ∀ d : Byte, 128 ≤ (d &&& 0x80).toNat ↔ 128 ≤ d.toNat := by decide
  rw [hiddenDir]
  split_ifs
  · exact htop d
  · rfl

section Hide

variable {dir : Byte} {c : ℕ → Byte}

lemma hideDir_step {k : ℕ} {y : Byte} {i : ℕ} (hy : y.toNat = 8 * i) (hi : i < entryCount c) :
    hideDir dir (k + 1) y c = hideDir dir k (y + 8)
      (Function.update c (0x0e0f + 8 * i) (hiddenDir dir (c (0x0e0f + 8 * i)))) := by
  have hlt : ¬ (c 0x0f05).toNat ≤ y.toNat := by
    rw [hy]
    rw [entryCount] at hi
    omega
  rw [hideDir, if_neg hlt, hy, hiddenDir]
  split_ifs
  · rfl
  · rw [Function.update_eq_self]

/-- The directory characters of the entries from `i` on are changed, and nothing else. -/
lemma hideDir_spec (k : ℕ) : ∀ (i : ℕ) (y : Byte) (c : ℕ → Byte), entryCount c ≤ 31 →
    i ≤ entryCount c → y.toNat = 8 * i → entryCount c - i < k →
      (∀ m, i ≤ m → m < entryCount c →
        hideDir dir k y c (0x0e0f + 8 * m) = hiddenDir dir (c (0x0e0f + 8 * m))) ∧
      ∀ a, (∀ m, i ≤ m → m < entryCount c → a ≠ 0x0e0f + 8 * m) → hideDir dir k y c a = c a := by
  induction k with
  | zero => intro i y c _ _ _ hk; omega
  | succ k ih =>
      intro i y c hn hi hy hk
      by_cases hend : entryCount c ≤ i
      · have hle : (c 0x0f05).toNat ≤ y.toNat := by
          rw [hy]
          rw [entryCount] at hend
          omega
        rw [hideDir, if_pos hle]
        exact ⟨fun m h1 h2 => by omega, fun a _ => rfl⟩
      · set c₁ := Function.update c (0x0e0f + 8 * i) (hiddenDir dir (c (0x0e0f + 8 * i))) with hc₁
        have hcount : entryCount c₁ = entryCount c := by
          rw [entryCount, entryCount, hc₁, Function.update_of_ne (by omega)]
        have hy8 : (y + 8).toNat = 8 * (i + 1) := by
          rw [toNat_add_eight hy (by omega)]
          ring
        obtain ⟨hchanged, hsame⟩ := ih (i + 1) (y + 8) c₁ (by omega) (by omega) hy8 (by omega)
        rw [hcount] at hchanged hsame
        rw [hideDir_step hy (by omega)]
        constructor
        · intro m h1 h2
          rcases Nat.eq_or_lt_of_le h1 with rfl | h1
          · rw [hsame _ fun m' h3 _ => by omega, hc₁, Function.update_self]
          · rw [hchanged m h1 h2, hc₁, Function.update_of_ne (by omega)]
        · intro a ha
          rw [hsame a fun m h1 h2 => ha m (by omega) h2, hc₁,
            Function.update_of_ne (ha i le_rfl (by omega))]

/-- The catalogue with the current directory hidden. -/
abbrev hidden (dir : Byte) (c : ℕ → Byte) : ℕ → Byte := hideDir dir 32 0 c

lemma hidden_dir (hn : entryCount c ≤ 31) {i : ℕ} (hi : i < entryCount c) :
    hidden dir c (0x0e0f + 8 * i) = hiddenDir dir (c (0x0e0f + 8 * i)) :=
  (hideDir_spec 32 0 0 c hn (Nat.zero_le _) rfl (by omega)).1 i (Nat.zero_le i) hi

lemma hidden_name (hn : entryCount c ≤ 31) {i j : ℕ} (hj : j < 7) :
    hidden dir c (0x0e08 + 8 * i + j) = c (0x0e08 + 8 * i + j) :=
  (hideDir_spec 32 0 0 c hn (Nat.zero_le _) rfl (by omega)).2 _ fun m _ _ => by omega

lemma hidden_count (hn : entryCount c ≤ 31) : entryCount (hidden dir c) = entryCount c := by
  have hsame : hidden dir c 0x0f05 = c 0x0f05 :=
    (hideDir_spec 32 0 0 c hn (Nat.zero_le _) rfl (by omega)).2 _ fun m _ _ => by omega
  rw [entryCount, entryCount, hsame]

end Hide

/-- What the entries come sorted by. -/
def sortKey (dir : Byte) (c : ℕ → Byte) (o : ℕ) : List ℕ :=
  (shownDir dir (c (0x0e0f + o))).toNat :: nameVals 7 fun j => c (0x0e08 + o + j)

/-- First the current directory, then the others by directory, and each by the name. -/
def listKey (dir : Byte) (c : ℕ → Byte) (o : ℕ) : List ℕ :=
  (if c (0x0e0f + o) &&& 0x7f = dir &&& 0x7f then 0 else 1) :: (c (0x0e0f + o) &&& 0x7f).toNat ::
    nameVals 7 fun j => c (0x0e08 + o + j)

/-- What is printed of an entry. -/
def shownName (dir : Byte) (c : ℕ → Byte) (o : ℕ) : List Byte :=
  (if shownDir dir (c (0x0e0f + o)) = 0 then [0x20, 0x20]
    else [shownDir dir (c (0x0e0f + o)), 0x2e])
    ++ (List.range 7).map (fun j => c (0x0e08 + o + j) &&& 0x7f)
    ++ [0x20, 0x20, if 128 ≤ (c (0x0e0f + o)).toNat then 0x4c else 0x20, 0x20]

section Whole

variable {dir : Byte} {c : ℕ → Byte}

lemma catKey_hidden (hn : entryCount c ≤ 31) {i : ℕ} (hi : i < entryCount c) :
    catKey (hidden dir c) (8 * i) = sortKey dir c (8 * i) := by
  rw [catKey, sortKey, hidden_dir hn hi, hiddenDir_low, nameVals, nameVals]
  congr 1
  exact List.map_congr_left fun j hj => by rw [hidden_name hn (List.mem_range.1 hj)]

lemma prtFilename_hidden (hn : entryCount c ≤ 31) {i : ℕ} (hi : i < entryCount c) :
    prtFilename (hidden dir c) (8 * i) = shownName dir c (8 * i) := by
  have hname : (List.range 7).map (fun j => hidden dir c (0x0e08 + 8 * i + j) &&& 0x7f)
      = (List.range 7).map fun j => c (0x0e08 + 8 * i + j) &&& 0x7f :=
    List.map_congr_left fun j hj => by rw [hidden_name hn (List.mem_range.1 hj)]
  rw [prtFilename, shownName, hidden_dir hn hi, hiddenDir_low, hname]
  simp only [hiddenDir_locked]

/-- If only the current directory is hidden, it comes first. -/
lemma listKey_le {o p : ℕ} (ho : c (0x0e0f + o) &&& 0x7f = 0 → dir &&& 0x7f = 0)
    (h : sortKey dir c o ≤ sortKey dir c p) : listKey dir c o ≤ listKey dir c p := by
  rw [sortKey, sortKey, cons_le_cons_nat, shownDir, shownDir] at h
  rw [listKey, listKey, cons_le_cons_nat, cons_le_cons_nat]
  by_cases h1 : c (0x0e0f + o) &&& 0x7f = dir &&& 0x7f <;>
    by_cases h2 : c (0x0e0f + p) &&& 0x7f = dir &&& 0x7f
  · rw [if_pos h1, if_pos h2] at h
    rw [if_pos h1, if_pos h2]
    exact Or.inr ⟨rfl, Or.inr ⟨by rw [h1, h2], (h.resolve_left (lt_irrefl _)).2⟩⟩
  · rw [if_pos h1, if_neg h2]
    exact Or.inl Nat.one_pos
  · rw [if_neg h1, if_pos h2] at h
    rcases h with h | ⟨h, -⟩
    · exact absurd h (Nat.not_lt_zero _)
    · have hzero := toNat_eq_zero.1 h
      exact absurd (hzero.trans (ho hzero).symm) h1
  · rw [if_neg h1, if_neg h2] at h
    rw [if_neg h1, if_neg h2]
    exact Or.inr ⟨rfl, h⟩

/-- **`*CAT` prints a sorted permutation.**  For every catalogue of at most 31 entries the characters of
whose names have bit 7 clear, and every current directory, the printing ends, and every entry has been
printed exactly once, in ascending order of the directory and the name, where the current directory
counts as character 0.  So if no entry of another directory has that character, the current directory
comes first.  This is what the command prints on the machine for the disk in the current drive. -/
theorem catEntries_sorted (dir : Byte) (c : ℕ → Byte) (hn : entryCount c ≤ 31)
    (hplain : PlainNames c) :
    ∃ s, catEntries dir c = some s ∧
      (s.shown.map Shown.entry).Perm ((List.range (entryCount c)).map (8 * ·)) ∧
      (s.shown.map Shown.entry).Pairwise (fun o p => sortKey dir c o ≤ sortKey dir c p) ∧
      (∀ x ∈ s.shown, x.name = shownName dir c x.entry) ∧
      ((∀ i < entryCount c, c (0x0e0f + 8 * i) &&& 0x7f = 0 → dir &&& 0x7f = 0) →
        (s.shown.map Shown.entry).Pairwise fun o p => listKey dir c o ≤ listKey dir c p) ∧
      ∀ t : State, t.HasDisk t.curDrv → t.defDir = dir → t.catOf t.curDrv = c →
        starCat.run t = .ok (some s.shown) { t with cat := s.cat, curDrvCat := 0xff } := by
  have hcount : entryCount (hidden dir c) = entryCount c := hidden_count hn
  have hplain' : PlainNames (hidden dir c) := fun i hi j hj => by
    rw [hidden_name hn hj]
    exact hplain i (by rwa [hcount] at hi) j hj
  have hstart : Marked (hidden dir c) (Finset.range (entryCount c)) (hidden dir c) := by
    refine ⟨fun i hi => ?_, rfl, fun i _ j _ => rfl, fun i hi hno => ?_⟩
    · rw [hcount]
      exact Finset.mem_range.1 hi
    · rw [hcount] at hi
      exact absurd (Finset.mem_range.2 hi) hno
  obtain ⟨s, l, hrun, hpicks, e, hshown, hentry, hname⟩ :=
    catLoop_spec (by rw [hcount]; exact hn) hplain' 32 _ ⟨hidden dir c, 0, 0xff, []⟩ hstart
      (by rw [Finset.card_range]; omega)
  rw [List.nil_append] at hshown
  have hlt : ∀ i ∈ l, i < entryCount c := fun i hi => Finset.mem_range.1 ((hpicks.mem_iff i).1 hi)
  have hperm : l.Perm (List.range (entryCount c)) :=
    (List.perm_ext_iff_of_nodup hpicks.nodup List.nodup_range).2 fun i => by
      rw [hpicks.mem_iff, Finset.mem_range, List.mem_range]
  have hsorted : l.Pairwise fun i j => sortKey dir c (8 * i) ≤ sortKey dir c (8 * j) :=
    hpicks.pairwise.imp_of_mem fun {i j} hi hj h => by
      rwa [catKey_hidden hn (hlt i hi), catKey_hidden hn (hlt j hj)] at h
  refine ⟨s, hrun, ?_, ?_, ?_, ?_, ?_⟩
  · rw [hshown, hentry]
    exact hperm.map _
  · rw [hshown, hentry, List.pairwise_map]
    exact hsorted
  · rw [hshown]
    intro x hx
    have hmem : x.entry ∈ l.map (8 * ·) := hentry ▸ List.mem_map_of_mem hx
    obtain ⟨i, hi, hix⟩ := List.mem_map.1 hmem
    rw [hname x hx, ← hix]
    exact prtFilename_hidden hn (hlt i hi)
  · intro hnul
    rw [hshown, hentry, List.pairwise_map]
    exact hsorted.imp_of_mem fun {i j} hi _ h => listKey_le (hnul i (hlt i hi)) h
  · rintro t hdisk rfl rfl
    exact starCat_run hdisk hrun

end Whole

/-- A disk with `$.B` and a file `A` whose directory character is 0. -/
def nulDir : ℕ → Byte := fun a =>
  if a = 0x0f05 then 16 else if a = 0x0e08 then 0x42 else if a = 0x0e10 then 0x41
  else if a = 0x0e0f then 0x24 else if a = 0x0e17 then 0 else 0x20

theorem nulDir_sorted :
    ∃ s, catEntries 0x24 nulDir = some s ∧
      (s.shown.map Shown.entry).Perm ((List.range (entryCount nulDir)).map (8 * ·)) ∧
      (s.shown.map Shown.entry).Pairwise (fun o p => sortKey 0x24 nulDir o ≤ sortKey 0x24 nulDir p) ∧
      (∀ x ∈ s.shown, x.name = shownName 0x24 nulDir x.entry) ∧
      ((∀ i < entryCount nulDir, nulDir (0x0e0f + 8 * i) &&& 0x7f = 0 → (0x24 : Byte) &&& 0x7f = 0) →
        (s.shown.map Shown.entry).Pairwise fun o p => listKey 0x24 nulDir o ≤ listKey 0x24 nulDir p) ∧
      ∀ t : State, t.HasDisk t.curDrv → t.defDir = 0x24 → t.catOf t.curDrv = nulDir →
        starCat.run t = .ok (some s.shown) { t with cat := s.cat, curDrvCat := 0xff } :=
  catEntries_sorted 0x24 nulDir (by decide) (by decide)

/-- In the directory `$` the file of directory 0 is printed among its files, here before `B`. -/
theorem nulDir_mixed :
    PlainNames nulDir ∧ ∃ s, catEntries 0x24 nulDir = some s ∧
      ¬ (s.shown.map Shown.entry).Pairwise fun o p => listKey 0x24 nulDir o ≤ listKey 0x24 nulDir p := by
  have hrun : (catEntries 0x24 nulDir).map (fun s => s.shown.map Shown.entry) = some [8, 0] := by
    decide
  obtain ⟨s, hs, hentries⟩ := Option.map_eq_some_iff.1 hrun
  refine ⟨by decide, s, hs, ?_⟩
  rw [hentries]
  decide

end Udfs.Rom
