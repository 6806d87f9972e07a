import Udfs.Rom.Search
import Udfs.Rom.Sharing

/-!
# Renaming a file

`*RENAME` keeps the offset of the entry that the first specification names, reads the second
specification, and searches for that name to see that it is not taken.  The second search loads
the catalogue of the second specification's drive over the first, and the offset is then used
in that catalogue.
-/

namespace Udfs.Rom

/-! ## The command -/

/-- `$8aa9`: the name and directory at `y`. -/
def putName (c : ℕ → Byte) (y : ℕ) (name : Fin 8 → Byte) : ℕ → Byte := fun a =>
  if h : 0x0e08 + y ≤ a ∧ a < 0x0e10 + y then name ⟨a - (0x0e08 + y), nameByte_lt h⟩ else c a

/-- `cmd_rename`. -/
def cmdRename (old new : List Byte) : Routine Unit := do
  Prog.modify fun s => { s with wildcard := 0xff }
  if old = [] then Prog.fail .syntaxError
  else do
    readFsp old
    match ← searchCat with
    | none => Prog.fail .fileNotFound
    | some y => do
        checkLockedOpen y
        if new = [] then Prog.fail .syntaxError
        else do
          readFsp new
          match ← searchCat with
          | some _ => Prog.fail .fileExists
          | none => do
              Prog.modify fun s => { s with cat := putName s.cat y s.filenameParam }
              saveCat

/-- What is known of a renaming that has finished: where the first search stopped, that the second
found nothing, and what has been saved. -/
lemma cmdRename_spec (old new : List Byte) (s : State) :
    Prog.wp (cmdRename old new)
      (fun _ s' => ∃ z : Byte,
        nextEntry 0xff (s.fsp old).1.name (s.catOf (s.fsp old).1.drv) 32 0xf8 = some z ∧
        nextEntry 0xff (s.fsp new).1.name (s.catOf (s.fsp new).1.drv) 32 0xf8 = none ∧
        s'.catNo = s.catNo ∧
        s'.cats = Function.update s.cats (s.catNo (s.fsp new).1.drv)
          (cycledCat (putName (s.catOf (s.fsp new).1.drv) z.toNat (s.fsp new).1.name)))
      (fun _ _ => True) s := by
  simp only [cmdRename, Prog.wp_bind, Prog.wp_modify, Prog.wp_ite, Prog.wp_fail, implies_true,
    true_and]
  intro _
  refine Prog.wp_mono (readFsp_spec old _) ?_ fun _ _ _ => trivial
  rintro _ s₁ ⟨rfl, -⟩
  refine Prog.wp_mono (searchCat_spec _) ?_ fun _ _ _ => trivial
  rintro r s₂ ⟨rfl, rfl, -⟩
  rcases hold : State.found _ with _ | z
  · exact trivial
  simp only [Option.map_some, Prog.wp_bind]
  refine Prog.wp_mono (checkLockedOpen_spec _ _) ?_ fun _ _ _ => trivial
  rintro _ s₃ ⟨⟨p, rfl⟩, -⟩
  simp only [Prog.wp_ite, Prog.wp_fail, Prog.wp_bind, implies_true, true_and]
  intro _
  refine Prog.wp_mono (readFsp_spec new _) ?_ fun _ _ _ => trivial
  rintro _ s₄ ⟨rfl, -⟩
  refine Prog.wp_mono (searchCat_spec _) ?_ fun _ _ _ => trivial
  rintro r s₅ ⟨rfl, rfl, -⟩
  rcases hnew : State.found _ with _ | z'
  · simp only [Option.map_none, Prog.wp_bind, Prog.wp_modify]
    refine Prog.wp_mono (saveCat_spec _) ?_ fun _ _ _ => trivial
    rintro _ s₆ ⟨rfl, -⟩
    exact ⟨z, hold, hnew, rfl, rfl⟩
  · exact trivial

/-! ## Names -/

/-- Two entries have the same name, as a search with the one for the other compares them; bit 7
is not part of a name. -/
def SameName (e e' : Fin 8 → Byte) : Prop := CoversName 0xff (fun i => e i &&& 0x7f) e'

instance (e e' : Fin 8 → Byte) : Decidable (SameName e e') := inferInstanceAs (Decidable (∀ _, _))

lemma covers_low (p e : Byte) :
    Covers 0xff (p &&& 0x7f) e ↔
      p &&& 0x7f = e &&& 0x7f ∨ (Letter (p &&& 0x7f) ∧ p &&& 0x5f = e &&& 0x5f) := by
  have hne : p &&& 0x7f ≠ 0xff := by
    revert p
    decide
  have h7 : (p &&& 0x7f) &&& 0x7f = p &&& 0x7f := BitVec.and_assoc _ _ _
  have h5 : (p &&& 0x7f) &&& 0x5f = p &&& 0x5f := BitVec.and_assoc _ _ _
  rw [Covers, h7, h5]
  exact or_iff_right hne

lemma letter_low (p : Byte) :
    Letter (p &&& 0x7f) ↔ 0x41 ≤ (p &&& 0x5f).toNat ∧ (p &&& 0x5f).toNat ≤ 0x5a := by
  revert p
  decide

lemma SameName.symm {e e' : Fin 8 → Byte} (h : SameName e e') : SameName e' e := by
  intro i
  have hi := (covers_low (e i) (e' i)).1 (h i)
  refine (covers_low (e' i) (e i)).2 ?_
  rcases hi with heq | ⟨hletter, heq⟩
  · exact Or.inl heq.symm
  · refine Or.inr ⟨?_, heq.symm⟩
    rwa [letter_low, ← heq, ← letter_low]

/-- No two entries of the catalogue have the same name. -/
def DistinctNames (c : ℕ → Byte) : Prop :=
  ∀ i < entryCount c, ∀ j < entryCount c, i ≠ j →
    ¬ SameName (entryName c (8 * i)) (entryName c (8 * j))

/-! ## The catalogue that is saved -/

section Saved

variable (c : ℕ → Byte) {i j : ℕ} (name : Fin 8 → Byte)

lemma bcdInc_ne (a : Byte) : bcdInc a ≠ a := by
  revert a
  decide

lemma cycledCat_cycle_ne : cycledCat c 0x0f04 ≠ c 0x0f04 := by
  rw [cycledCat, Function.update_self]
  exact bcdInc_ne _

lemma putName_of_le {a : ℕ} (hi : i ≤ 30) (ha : 0x0f00 ≤ a) : putName c (8 * i) name a = c a := by
  rw [putName, dif_neg (by omega)]

lemma entryName_renamed_self (hi : i ≤ 30) :
    entryName (cycledCat (putName c (8 * i) name)) (8 * i) = name := by
  funext k
  have hk := k.isLt
  rw [entryName, cycledCat_of_ne _ (by omega), putName, dif_pos (by omega)]
  exact congrArg name (Fin.ext (by simp))

lemma entryName_renamed_of_ne (hj : j ≤ 30) (h : j ≠ i) :
    entryName (cycledCat (putName c (8 * i) name)) (8 * j) = entryName c (8 * j) := by
  funext k
  have hk := k.isLt
  rw [entryName, cycledCat_of_ne _ (by omega), putName, dif_neg (by omega), entryName]

lemma entryCount_renamed (hi : i ≤ 30) :
    entryCount (cycledCat (putName c (8 * i) name)) = entryCount c := by
  rw [entryCount, cycledCat_of_ne _ (by decide), putName_of_le c name hi (by decide), entryCount]

/-- Renaming an entry keeps the names distinct exactly when no other entry has the new name. -/
lemma distinctNames_renamed_iff (hn : entryCount c ≤ 31) (hi : i < entryCount c)
    (hc : DistinctNames c) :
    DistinctNames (cycledCat (putName c (8 * i) name)) ↔
      ∀ j < entryCount c, j ≠ i → ¬ SameName name (entryName c (8 * j)) := by
  have hself := entryName_renamed_self c (i := i) name (by omega)
  have hother := fun j (hj : j < entryCount c) (hne : j ≠ i) =>
    entryName_renamed_of_ne c (i := i) (j := j) name (by omega) hne
  rw [DistinctNames, entryCount_renamed c name (by omega)]
  constructor
  · intro h j hj hne
    have hij := h i hi j hj hne.symm
    rwa [hself, hother j hj hne] at hij
  · intro h j hj k hk hne
    by_cases hji : j = i
    · subst hji
      rw [hself, hother k hk hne.symm]
      exact h k hk hne.symm
    · rw [hother j hj hji]
      by_cases hki : k = i
      · subst hki
        rw [hself]
        exact fun hs => h j hj hji hs.symm
      · rw [hother k hk hki]
        exact hc j hj k hk hne

end Saved

/-! ## What renaming changes -/

/-- The catalogues differ only in the name of the `i`-th entry on drive `d`, and in the cycle number
of that catalogue. -/
structure RenamedOnly (s s' : State) (d : Byte) (i : ℕ) (name : Fin 8 → Byte) : Prop where
  renamed : ∀ a, a ≠ 0x0f04 → s'.cats (s.catNo d) a = putName (s.catOf d) (8 * i) name a
  others : ∀ k, k ≠ s.catNo d → s'.cats k = s.cats k

/-- No catalogue with distinct names gets two entries with the same name. -/
def KeepsDistinct (s s' : State) : Prop := ∀ k, DistinctNames (s.cats k) → DistinctNames (s'.cats k)

/-- **When `*RENAME` touches only its file.**  A renaming that finishes has found an entry with its
first specification.  It changes nothing but the name of that entry, and keeps the names of every
catalogue distinct, exactly when both specifications lead to the same catalogue, and in that
catalogue, if its names are distinct, no other entry has the new name with bit 7 ignored. -/
theorem cmdRename_touchesOnly_iff (s s' : State) (old new : List Byte)
    (hcount : ∀ k, (s.cats k 0x0f05).toNat ≤ 248)
    (hrun : (cmdRename old new).run s = .ok () s') :
    ∃ i, FirstMatch 0xff (s.fsp old).1.name (s.catOf (s.fsp old).1.drv)
        (entryCount (s.catOf (s.fsp old).1.drv)) i ∧
      (RenamedOnly s s' (s.fsp old).1.drv i (s.fsp new).1.name ∧ KeepsDistinct s s' ↔
        s.catNo (s.fsp old).1.drv = s.catNo (s.fsp new).1.drv ∧
          (DistinctNames (s.catOf (s.fsp old).1.drv) →
            ∀ j < entryCount (s.catOf (s.fsp old).1.drv), j ≠ i →
              ¬ SameName (s.fsp new).1.name (entryName (s.catOf (s.fsp old).1.drv) (8 * j)))) := by
  have hspec := cmdRename_spec old new s
  rw [Prog.wp_of_ok hrun] at hspec
  obtain ⟨z, hfound, -, -, hcats⟩ := hspec
  set N := (s.fsp new).1.name
  set d₁ := (s.fsp old).1.drv
  set d₂ := (s.fsp new).1.drv
  have hle : ∀ k, entryCount (s.cats k) ≤ 31 := by
    intro k
    have := hcount k
    rw [entryCount]
    omega
  rcases nextEntry_first (w := 0xff) (f := (s.fsp old).1.name) (hle (s.catNo d₁)) with
    ⟨i, z', hz', hi, hmatch⟩ | ⟨hnone, -⟩
  swap
  · cases hnone.symm.trans hfound
  obtain rfl : z' = z := Option.some.inj (hz'.symm.trans hfound)
  refine ⟨i, hmatch, ?_⟩
  rw [hi] at hcats
  have hlt := hmatch.lt
  have hi30 : i ≤ 30 := by
    have := hle (s.catNo d₁)
    omega
  constructor
  · rintro ⟨⟨-, hothers⟩, hkeep⟩
    have hno : s.catNo d₁ = s.catNo d₂ := by
      by_contra hne
      -- the other drive's catalogue has got a new cycle number
      have hsame := congrFun (hothers (s.catNo d₂) (Ne.symm hne)) 0x0f04
      rw [hcats, Function.update_self] at hsame
      refine cycledCat_cycle_ne (putName (s.catOf d₂) (8 * i) N) ?_
      rw [hsame, putName_of_le _ _ hi30 (by decide), State.catOf]
    refine ⟨hno, fun hdistinct => ?_⟩
    have hd := hkeep (s.catNo d₁) hdistinct
    rw [hcats, hno, Function.update_self, State.catOf, ← hno] at hd
    exact (distinctNames_renamed_iff _ _ (hle _) hlt hdistinct).1 hd
  · rintro ⟨hno, hfree⟩
    have hcats' : s'.cats = Function.update s.cats (s.catNo d₁)
        (cycledCat (putName (s.catOf d₁) (8 * i) N)) := by
      rw [hcats, State.catOf, State.catOf, hno]
    refine ⟨⟨fun a ha => ?_, fun k hk => ?_⟩, fun k hk => ?_⟩
    · rw [hcats', Function.update_self, cycledCat_of_ne _ ha]
    · rw [hcats', Function.update_of_ne hk]
    · by_cases he : k = s.catNo d₁
      · subst he
        rw [hcats', Function.update_self]
        exact (distinctNames_renamed_iff _ _ (hle _) hlt hk).2 (hfree hk)
      · rw [hcats', Function.update_of_ne he]
        exact hk

/-- Two writable drives with catalogues of their own: a file `$.A` in the first, none in the
second. -/
def twoDrives : State :=
  { stateWithDisk 0 0 with
    diskMark := fun _ => 0x54
    defDir := 0x24
    catNo := fun d => d.toNat
    cats := fun k a =>
      if k ≠ 0 then 0
      else if a = 0x0f05 then 8
      else if a = 0x0e08 then 0x41
      else if a = 0x0e0f then 0x24
      else 0x20 }

/-- `*RENAME A B` touches only the file. -/
theorem renameAB_touchesOnly : ∃ s' i, (cmdRename [0x41] [0x42]).run twoDrives = .ok () s' ∧
    RenamedOnly twoDrives s' 0 i (twoDrives.fsp [0x42]).1.name ∧ KeepsDistinct twoDrives s' := by
  have hcount : ∀ k, (twoDrives.cats k 0x0f05).toNat ≤ 248 := by
    intro k
    by_cases hk : k = 0 <;> simp [twoDrives, hk]
  obtain ⟨i, hmatch, hiff⟩ := cmdRename_touchesOnly_iff twoDrives _ [0x41] [0x42] hcount rfl
  have hi : i < 1 := hmatch.lt
  refine ⟨_, i, rfl, hiff.2 ⟨rfl, fun _ j hj hne => ?_⟩⟩
  have hj1 : j < 1 := hj
  omega

/-- `*RENAME :0.A :1.B` finishes and changes the catalogue of drive 1. -/
theorem renameAcross_not_touchesOnly :
    ∃ s', (cmdRename [0x3a, 0x30, 0x2e, 0x41] [0x3a, 0x31, 0x2e, 0x42]).run twoDrives = .ok () s' ∧
      ∀ i, ¬ RenamedOnly twoDrives s' 0 i
        (twoDrives.fsp [0x3a, 0x31, 0x2e, 0x42]).1.name := by
  refine ⟨_, rfl, fun i h => ?_⟩
  have hcycle := congrFun (h.others 1 (by decide)) 0x0f04
  exact absurd hcycle (by decide)

end Udfs.Rom
