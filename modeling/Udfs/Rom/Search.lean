import Udfs.Rom.Catalogue

/-!
# What a search finds

The comparison loop runs its two registers down together and lines them up with the entry
again after a mismatch at any of the eight characters; the scan starts one entry before the
first, at the wrapped offset `$f8`.  Together they go through the entries in order: the call
of `$8296` and the calls of `$829d` after it return the offsets of the matching entries one by
one, and then none.
-/

namespace Udfs.Rom

/-! ## One character -/

/-- A letter of either case. -/
def Letter (a : Byte) : Prop :=
  (0x41 ≤ a.toNat ∧ a.toNat ≤ 0x5a) ∨ (0x61 ≤ a.toNat ∧ a.toNat ≤ 0x7a)

instance (a : Byte) : Decidable (Letter a) := inferInstanceAs (Decidable (_ ∨ _))

/-- A character of a pattern covers a character of a name: it is the wildcard, or they agree up to
bit 7, or it is a letter and they agree up to bit 7 and the case bit. -/
def Covers (w p e : Byte) : Prop :=
  p = w ∨ p &&& 0x7f = e &&& 0x7f ∨ (Letter p ∧ p &&& 0x5f = e &&& 0x5f)

instance (w p e : Byte) : Decidable (Covers w p e) := inferInstanceAs (Decidable (_ ∨ _ ∨ _))

lemma notLetter_eq (a : Byte) : notLetter a = !decide (Letter a) := by
  revert a
  decide

/-- Two bytes differ under a mask exactly when the masked bytes differ. -/
lemma xor_and_eq_zero (a e m : Byte) : (a ^^^ e) &&& m = 0 ↔ a &&& m = e &&& m := by
  have hdist : (a ^^^ e) &&& m = (a &&& m) ^^^ (e &&& m) := by
    ext i
    simp [Bool.and_xor_distrib_right]
  rw [hdist]
  exact BitVec.xor_eq_zero_iff

lemma and_of_and (a e : Byte) (h : a &&& 0x7f = e &&& 0x7f) : a &&& 0x5f = e &&& 0x5f := by
  have hmask : (0x5f : Byte) = 0x7f &&& 0x5f := rfl
  rw [hmask, ← BitVec.and_assoc, ← BitVec.and_assoc, h]

lemma matchChar_iff (w p e : Byte) : matchChar w p e = true ↔ Covers w p e := by
  have hd : ((p ^^^ e) &&& 0xdf) &&& 0x7f = (p ^^^ e) &&& 0x5f := BitVec.and_assoc _ _ _
  have hf : ((p ^^^ e) &&& 0xff) &&& 0x7f = (p ^^^ e) &&& 0x7f := BitVec.and_assoc _ _ _
  rw [matchChar, Covers, Bool.or_eq_true, decide_eq_true_iff, decide_eq_true_iff, notLetter_eq]
  by_cases hl : Letter p
  · simp only [hl, decide_true, Bool.not_true, Bool.false_eq_true, if_false, hd, xor_and_eq_zero,
      true_and]
    refine or_congr_right ⟨Or.inr, ?_⟩
    rintro (h | h)
    · exact and_of_and p e h
    · exact h
  · simp only [hl, decide_false, Bool.not_false, if_true, hf, xor_and_eq_zero, false_and, or_false]

/-- A pattern covers a name. -/
def CoversName (w : Byte) (f e : Fin 8 → Byte) : Prop := ∀ i, Covers w (f i) (e i)

instance (w : Byte) (f e : Fin 8 → Byte) : Decidable (CoversName w f e) :=
  inferInstanceAs (Decidable (∀ _, _))

/-! ## One entry -/

variable {w : Byte} {f : Fin 8 → Byte} {c : ℕ → Byte}

lemma toNat_sub_one {y : Byte} (h : 1 ≤ y.toNat) : (y - 1).toNat = y.toNat - 1 := by
  have h1 : (1 : Byte).toNat = 1 := rfl
  have hy := byte_lt y
  rw [BitVec.toNat_sub, h1]
  omega

lemma skipName_toNat (x : ℕ) : ∀ y : Byte, x ≤ y.toNat → (skipName x y).toNat = y.toNat - x := by
  induction x with
  | zero => intro y _; rfl
  | succ x ih =>
      intro y hy
      have h1 := toNat_sub_one (show 1 ≤ y.toNat by omega)
      rw [skipName, ih (y - 1) (by omega), h1]
      omega

/-- The comparison looks at every character, and leaves `y` at the entry whatever it finds. -/
lemma compareName_spec (x : ℕ) : ∀ y : Byte, x ≤ y.toNat →
    (compareName w f c x y).2.toNat = y.toNat - x ∧
      ((compareName w f c x y).1 = true ↔
        ∀ j < x, Covers w (f (Fin.ofNat 8 j)) (c (0x0e08 + (y.toNat - x) + j))) := by
  induction x with
  | zero =>
      intro y _
      exact ⟨rfl, iff_of_true rfl fun j hj => absurd hj (Nat.not_lt_zero j)⟩
  | succ x ih =>
      intro y hy
      have h1 := toNat_sub_one (show 1 ≤ y.toNat by omega)
      have hlast : 0x0e08 + (y.toNat - (x + 1)) + x = 0x0e07 + y.toNat := by omega
      obtain ⟨hend, hall⟩ := ih (y - 1) (by omega)
      rw [h1, Nat.sub_sub, Nat.add_comm 1 x] at hend hall
      rw [compareName]
      by_cases hm : matchChar w (f (Fin.ofNat 8 x)) (c (0x0e07 + y.toNat)) = true
      · rw [if_pos hm]
        refine ⟨hend, hall.trans ⟨fun h j hj => ?_, fun h j hj => h j (by omega)⟩⟩
        rcases Nat.lt_succ_iff_lt_or_eq.1 hj with hlt | rfl
        · exact h j hlt
        · rw [hlast]
          exact (matchChar_iff _ _ _).1 hm
      · rw [if_neg hm]
        refine ⟨skipName_toNat (x + 1) y hy, iff_of_false Bool.false_ne_true fun h => hm ?_⟩
        have := h x (Nat.lt_succ_self x)
        rw [hlast] at this
        exact (matchChar_iff _ _ _).2 this

lemma compareName_entry {y : Byte} {o : ℕ} (h : y.toNat = o + 8) :
    (compareName w f c 8 y).2.toNat = o ∧
      ((compareName w f c 8 y).1 = true ↔ CoversName w f (entryName c o)) := by
  obtain ⟨hend, hall⟩ := compareName_spec (w := w) (f := f) (c := c) 8 y (by omega)
  have ho : y.toNat - 8 = o := by omega
  rw [ho] at hend hall
  refine ⟨hend, hall.trans ⟨fun h i => ?_, fun h j hj => ?_⟩⟩
  · have := h i i.isLt
    rwa [Fin.ofNat_eq_cast, Fin.cast_val_eq_self] at this
  · have hfin : Fin.ofNat 8 j = ⟨j, hj⟩ := Fin.ext (Nat.mod_eq_of_lt hj)
    rw [hfin]
    exact h ⟨j, hj⟩

/-! ## The entries in order -/

/-- The offsets of the matching entries from the `i`-th on, in a catalogue of `n`. -/
def hitsFrom (w : Byte) (f : Fin 8 → Byte) (c : ℕ → Byte) (n i : ℕ) : List ℕ :=
  ((List.range' i (n - i)).map (8 * ·)).filter fun o => decide (CoversName w f (entryName c o))

lemma hitsFrom_eq_nil {n i : ℕ} (h : n ≤ i) : hitsFrom w f c n i = [] := by
  rw [hitsFrom, Nat.sub_eq_zero_of_le h]
  rfl

lemma hitsFrom_step {n i : ℕ} (h : i < n) :
    hitsFrom w f c n i
      = if CoversName w f (entryName c (8 * i)) then 8 * i :: hitsFrom w f c n (i + 1)
        else hitsFrom w f c n (i + 1) := by
  rw [hitsFrom, show n - i = n - (i + 1) + 1 by omega, List.range'_succ, List.map_cons,
    List.filter_cons, hitsFrom]
  simp only [decide_eq_true_iff]

lemma toNat_add_eight {y : Byte} {o : ℕ} (h : y.toNat = o) (hlt : o + 8 < 256) :
    (y + 8).toNat = o + 8 := by
  have h8 : (8 : Byte).toNat = 8 := rfl
  rw [BitVec.toNat_add, h8]
  omega

/-- The number of entries that a count byte makes the scan look at. -/
def entryCount (c : ℕ → Byte) : ℕ := ((c 0x0f05).toNat + 7) / 8

lemma entryCount_of_eq {n : ℕ} (h : (c 0x0f05).toNat = 8 * n) : entryCount c = n := by
  rw [entryCount, h]
  omega

/-- The scan finds the first of the matching entries. -/
lemma nextEntry_eq {n : ℕ} (hn : n ≤ 31) (hcount : entryCount c = n) (k : ℕ) :
    ∀ (i : ℕ) (y : Byte), (y + 8).toNat = 8 * i → n - i < k →
      (nextEntry w f c k y).map BitVec.toNat = (hitsFrom w f c n i).head? := by
  induction k with
  | zero => intro i y _ hk; omega
  | succ k ih =>
      intro i y hy hk
      have hle : (c 0x0f05).toNat ≤ 8 * i ↔ n ≤ i := by
        rw [← hcount, entryCount]
        omega
      rw [nextEntry, hy]
      by_cases hi : i < n
      · have hy8 : (y + 8 + 8).toNat = 8 * i + 8 := toNat_add_eight hy (by omega)
        obtain ⟨hend, hmatch⟩ := compareName_entry (w := w) (f := f) (c := c) hy8
        rw [if_neg (by rw [hle]; omega), hitsFrom_step hi]
        by_cases hm : CoversName w f (entryName c (8 * i))
        · rw [if_pos hm, if_pos (hmatch.2 hm), Option.map_some, hend]
          rfl
        · rw [if_neg hm, if_neg fun h => hm (hmatch.1 h)]
          refine ih (i + 1) _ ?_ (by omega)
          rw [toNat_add_eight hend (by omega)]
          ring
      · rw [if_pos (hle.2 (by omega)), hitsFrom_eq_nil (by omega)]
        rfl

/-- After the first hit come the hits behind it. -/
lemma hitsFrom_cons {n o : ℕ} {l : List ℕ} (d : ℕ) :
    ∀ i, n - i = d → hitsFrom w f c n i = o :: l →
      ∃ j, i ≤ j ∧ j < n ∧ o = 8 * j ∧ l = hitsFrom w f c n (j + 1) ∧
        CoversName w f (entryName c (8 * j)) ∧
        ∀ j', i ≤ j' → j' < j → ¬ CoversName w f (entryName c (8 * j')) := by
  induction d with
  | zero =>
      intro i hd h
      rw [hitsFrom_eq_nil (by omega)] at h
      cases h
  | succ d ih =>
      intro i hd h
      rw [hitsFrom_step (by omega)] at h
      split at h
      · rename_i hcov
        obtain ⟨rfl, rfl⟩ := List.cons.inj h
        exact ⟨i, le_rfl, by omega, rfl, rfl, hcov, fun j' h1 h2 => by omega⟩
      · rename_i hcov
        obtain ⟨j, hj, hlt, ho, hl, hmatch, hbefore⟩ := ih (i + 1) (by omega) h
        refine ⟨j, by omega, hlt, ho, hl, hmatch, fun j' h1 h2 => ?_⟩
        rcases Nat.eq_or_lt_of_le h1 with rfl | h1
        · exact hcov
        · exact hbefore j' h1 h2

/-! ## The calls -/

/-- A first call, and `$829d` called again after each that has found something: the calls return
the given offsets one by one, each with `$10ce` at it, and then none. -/
def Enumerates (x : Routine (Option ℕ)) : List ℕ → State → Prop
  | [], s => ∃ s', x.run s = .ok none s'
  | o :: l, s => ∃ s', x.run s = .ok (some o) s' ∧ s'.catEntry.toNat = o ∧ Enumerates searchNext l s'

lemma Enumerates.of_run {x y : Routine (Option ℕ)} {l : List ℕ} {s t : State}
    (h : Enumerates x l s) (hrun : y.run t = x.run s) : Enumerates y l t := by
  cases l with
  | nil =>
      obtain ⟨s', hs'⟩ := h
      exact ⟨s', hrun.trans hs'⟩
  | cons o l =>
      obtain ⟨s', hs', hrest⟩ := h
      exact ⟨s', hrun.trans hs', hrest⟩

lemma getCatNextentry2_run (y : Byte) (s : State) :
    (getCatNextentry2 y).run s
      = match nextEntry s.wildcard s.filenameParam s.cat 32 y with
        | none => .ok none s
        | some z => .ok (some z.toNat) { s with catEntry := z } := by
  rw [getCatNextentry2, Prog.run_bind, Prog.run_get]
  cases h : nextEntry s.wildcard s.filenameParam s.cat 32 y <;> simp only [h] <;> rfl

lemma searchNext_run (s : State) : searchNext.run s = (getCatNextentry2 s.catEntry).run s :=
  Prog.run_bind_ok (Prog.run_get s)

/-- What a scan does, in terms of the entries that match. -/
lemma getCatNextentry2_hits {s : State} {n i : ℕ} {y : Byte} (hcount : s.count = 8 * n) (hn : n ≤ 31)
    (hy : (y + 8).toNat = 8 * i) :
    (∃ o l, hitsFrom s.wildcard s.filenameParam s.cat n i = o :: l ∧
        ∃ z : Byte, z.toNat = o ∧ (getCatNextentry2 y).run s = .ok (some o) { s with catEntry := z }) ∨
      (hitsFrom s.wildcard s.filenameParam s.cat n i = [] ∧
        (getCatNextentry2 y).run s = .ok none s) := by
  have hnext := nextEntry_eq (w := s.wildcard) (f := s.filenameParam) hn (entryCount_of_eq hcount)
    32 i y hy (by omega)
  rw [getCatNextentry2_run]
  rcases hfound : nextEntry s.wildcard s.filenameParam s.cat 32 y with _ | z
  · rw [hfound] at hnext
    exact Or.inr ⟨List.head?_eq_none_iff.1 hnext.symm, rfl⟩
  · rw [hfound] at hnext
    obtain ⟨l, hl⟩ := List.head?_eq_some_iff.1 hnext.symm
    exact Or.inl ⟨z.toNat, l, hl, z, rfl, rfl⟩

lemma enumerates_from {n : ℕ} (hn : n ≤ 31) (l : List ℕ) :
    ∀ (i : ℕ) (y : Byte) (s : State), s.count = 8 * n → (y + 8).toNat = 8 * i →
      hitsFrom s.wildcard s.filenameParam s.cat n i = l → Enumerates (getCatNextentry2 y) l s := by
  induction l with
  | nil =>
      intro i y s hcount hy hl
      rcases getCatNextentry2_hits hcount hn hy with ⟨o, l', hl', -⟩ | ⟨-, hrun⟩
      · rw [hl] at hl'
        cases hl'
      · exact ⟨s, hrun⟩
  | cons o l ih =>
      intro i y s hcount hy hl
      rcases getCatNextentry2_hits hcount hn hy with ⟨o', l', hl', z, hz, hrun⟩ | ⟨hnil, -⟩
      · obtain ⟨rfl, rfl⟩ := List.cons.inj (hl.symm.trans hl')
        obtain ⟨j, -, hj, rfl, hrest, -⟩ := hitsFrom_cons _ i rfl hl
        refine ⟨_, hrun, hz, ?_⟩
        -- the next scan starts behind the entry found
        have hz8 : (z + 8).toNat = 8 * (j + 1) := by
          rw [toNat_add_eight hz (by omega)]
          ring
        exact (ih (j + 1) z { s with catEntry := z } hcount hz8 hrest.symm).of_run (searchNext_run _)
      · rw [hl] at hnil
        cases hnil

namespace State

/-- The entry that `$8296` finds. -/
def found (s : State) : Option Byte :=
  nextEntry s.wildcard s.filenameParam (s.catOf s.curDrv) 32 0xf8

/-- The state that `$8296` leaves. -/
def searched (s : State) : State := { s.catLoaded with catEntry := s.found.getD s.catEntry }

end State

lemma searchCat_run {s : State} (h : s.HasDisk s.curDrv) :
    searchCat.run s = .ok (s.found.map BitVec.toNat) s.searched := by
  rw [searchCat, Prog.run_bind_ok (loadCurDrvCat_run h), getCatNextentry2_run, State.searched]
  change (match s.found with
    | none => Outcome.ok none s.catLoaded
    | some z => Outcome.ok (some z.toNat) { s.catLoaded with catEntry := z }) = _
  cases s.found <;> rfl

lemma searchCat_noDisk {s : State} (h : ¬ s.HasDisk s.curDrv) :
    searchCat.run s = .err .noDisk s :=
  Prog.run_bind_err (loadCurDrvCat_noDisk h)

lemma searchCat_spec (s : State) :
    Prog.wp searchCat
      (fun r s' => r = s.found.map BitVec.toNat ∧ s' = s.searched ∧ s.HasDisk s.curDrv)
      (fun e s' => s' = s ∧ e = .noDisk) s := by
  by_cases h : s.HasDisk s.curDrv
  · exact (Prog.wp_of_ok (searchCat_run h)).2 ⟨rfl, rfl, h⟩
  · exact (Prog.wp_of_err (searchCat_noDisk h)).2 ⟨rfl, rfl⟩

/-- The `i`-th entry is the first one that the pattern covers. -/
structure FirstMatch (w : Byte) (f : Fin 8 → Byte) (c : ℕ → Byte) (n i : ℕ) : Prop where
  lt : i < n
  covers : CoversName w f (entryName c (8 * i))
  before : ∀ j < i, ¬ CoversName w f (entryName c (8 * j))

/-- The scan from the start finds the first match, if there is one. -/
lemma nextEntry_first (h : entryCount c ≤ 31) :
    (∃ i z, nextEntry w f c 32 0xf8 = some z ∧ z.toNat = 8 * i ∧
        FirstMatch w f c (entryCount c) i) ∨
      (nextEntry w f c 32 0xf8 = none ∧
        ∀ i < entryCount c, ¬ CoversName w f (entryName c (8 * i))) := by
  have hnext := nextEntry_eq (w := w) (f := f) h rfl 32 0 0xf8 rfl (by omega)
  rcases hfound : nextEntry w f c 32 0xf8 with _ | z
  · rw [hfound, eq_comm, Option.map_none, List.head?_eq_none_iff, hitsFrom,
      List.filter_eq_nil_iff] at hnext
    refine Or.inr ⟨rfl, fun i hi => ?_⟩
    have := hnext (8 * i) (List.mem_map.2 ⟨i, List.mem_range'_1.2 ⟨Nat.zero_le i, by omega⟩, rfl⟩)
    simpa using this
  · rw [hfound, Option.map_some, eq_comm, List.head?_eq_some_iff] at hnext
    obtain ⟨l, hl⟩ := hnext
    obtain ⟨i, -, hi, hz, -, hcov, hbefore⟩ := hitsFrom_cons _ 0 rfl hl
    exact Or.inl ⟨i, z, rfl, hz, hi, hcov, fun j hj => hbefore j (Nat.zero_le j) hj⟩

/-- **A search enumerates exactly the matching entries.**  For every catalogue of at most 31
entries, every pattern and every wildcard character, `$8296` and the calls of `$829d` after it
return the offsets of the entries that the pattern covers, in catalogue order, and then none;
without a disk in the drive the first call leaves with No disk. -/
theorem searchCat_enumerates (s : State) (n : ℕ) (hn : n ≤ 31)
    (hcount : (s.catOf s.curDrv 0x0f05).toNat = 8 * n) :
    (s.HasDisk s.curDrv →
      Enumerates searchCat (((List.range n).map (8 * ·)).filter fun o =>
        decide (CoversName s.wildcard s.filenameParam (entryName (s.catOf s.curDrv) o))) s) ∧
      (¬ s.HasDisk s.curDrv → searchCat.run s = .err .noDisk s) := by
  constructor
  · intro hdisk
    have henum := enumerates_from hn _ 0 0xf8 s.catLoaded hcount rfl rfl
    rw [hitsFrom, Nat.sub_zero, ← List.range_eq_range'] at henum
    exact henum.of_run (Prog.run_bind_ok (loadCurDrvCat_run hdisk))
  · intro hdisk
    exact searchCat_noDisk hdisk

/-- A disk with the files A.AAAAAAA and B.BBBBBBB, and the pattern `b.b######`. -/
def twoFiles : State :=
  { stateWithDisk 0 0 with
    cats := fun _ a => if a = 0x0f05 then 16 else if a < 0x0e10 then 0x41 else 0x42
    wildcard := 0x23
    filenameParam := fun i => if i = 0 ∨ i = 7 then 0x62 else 0x23 }

theorem twoFiles_enumerated : Enumerates searchCat [8] twoFiles :=
  (searchCat_enumerates twoFiles 2 (by decide) rfl).1 (by unfold State.HasDisk; decide)

end Udfs.Rom
