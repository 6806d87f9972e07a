import Udfs.Rom.Entries

/-!
# Where a new file is put

The search for room goes from the last entry up, so it meets the gaps from the bottom of the
disk: the new file goes to the lowest gap that its sectors fit into, at the bottom of it, and
its entry between the entries of the two neighbours.
-/

namespace Udfs.Rom

open Extents

/-! ## The search -/

section Search

variable {c : ℕ → Byte} {n : ℕ} {len : Num24}

/-- The sectors of the new file fit into the `i`-th gap of the catalogue. -/
abbrev GapFits (c : ℕ → Byte) (n : ℕ) (len : Num24) (i : ℕ) : Prop :=
  Fits Entry.start Entry.sectors 2 (totalSectors c) (entries c n) (sectorsOf len.val) i

/-- The entries take disjoint runs of sectors between sector 2 and the end of the disk. -/
abbrev WellPacked (c : ℕ → Byte) (n : ℕ) : Prop :=
  Packed Entry.start Entry.sectors 2 (totalSectors c) (entries c n)

/-- The bottom of the `i`-th gap. -/
abbrev gapAt (c : ℕ → Byte) (n i : ℕ) : ℕ := gapBase Entry.start Entry.sectors 2 (entries c n) i

lemma firstBlock_gap (hp : WellPacked c n) (hT : 2 ≤ totalSectors c) {i : ℕ} (hi : i ≤ n)
    {c4 c5 : Byte} (hval : 256 * c4.toNat + c5.toNat = gapAt c n i) :
    firstBlock c (8 * i) c4 c5 len = true ↔ GapFits c n len i := by
  have hle := hp.gapBase_le_gapTop hT (i := i) (by simpa using hi)
  rw [gapAt] at hval
  rw [gapTop_entries c hi, ← hval] at hle
  rw [firstBlock_iff c (8 * i) len hle, GapFits, Fits, gapTop_entries c hi, ← hval]

lemma nextBlock_gap {i : ℕ} (hi : i < n) :
    256 * (nextBlock c (8 * i)).1.toNat + (nextBlock c (8 * i)).2.toNat = gapAt c n i := by
  rw [nextBlock_val, gapAt, gapBase_of_lt (by simpa using hi), entries_getElem]

/-- From the `i`-th gap on upwards, the search stops at the first gap that is large enough. -/
lemma findGap_spec (len : Num24) (hp : WellPacked c n) (hT : 2 ≤ totalSectors c) (i : ℕ) :
    ∀ (k : ℕ) (c4 c5 : Byte), i ≤ n → i < k → 256 * c4.toNat + c5.toNat = gapAt c n i →
      (findGap c len k (8 * i) c4 c5 = none ∧ ∀ j ≤ i, ¬ GapFits c n len j) ∨
        ∃ j d4 d5, j ≤ i ∧ findGap c len k (8 * i) c4 c5 = some (8 * j, d4, d5) ∧
          256 * d4.toNat + d5.toNat = gapAt c n j ∧ GapFits c n len j ∧
          ∀ j', j < j' → j' ≤ i → ¬ GapFits c n len j' := by
  induction i with
  | zero =>
      intro k c4 c5 hi hk hval
      obtain ⟨k, rfl⟩ : ∃ m, k = m + 1 := ⟨k - 1, by omega⟩
      rw [findGap]
      by_cases hfit : GapFits c n len 0
      · rw [if_pos ((firstBlock_gap hp hT hi hval).2 hfit)]
        exact Or.inr ⟨0, c4, c5, le_rfl, rfl, hval, hfit, fun j' h1 h2 => by omega⟩
      · rw [if_neg (mt (firstBlock_gap hp hT hi hval).1 hfit), if_pos rfl]
        refine Or.inl ⟨rfl, fun j hj => ?_⟩
        obtain rfl : j = 0 := Nat.le_zero.1 hj
        exact hfit
  | succ i ih =>
      intro k c4 c5 hi hk hval
      obtain ⟨k, rfl⟩ : ∃ m, k = m + 1 := ⟨k - 1, by omega⟩
      rw [findGap]
      by_cases hfit : GapFits c n len (i + 1)
      · rw [if_pos ((firstBlock_gap hp hT hi hval).2 hfit)]
        exact Or.inr ⟨i + 1, c4, c5, le_rfl, rfl, hval, hfit, fun j' h1 h2 => by omega⟩
      · have hsub : 8 * (i + 1) - 8 = 8 * i := by omega
        rw [if_neg (mt (firstBlock_gap hp hT hi hval).1 hfit), if_neg (by omega), hsub]
        rcases ih k _ _ (by omega) (by omega) (nextBlock_gap (n := n) (by omega)) with
          ⟨hnone, hall⟩ | ⟨j, d4, d5, hj, hsome, hbase, hgap, hbelow⟩
        · refine Or.inl ⟨hnone, fun j hj => ?_⟩
          rcases Nat.le_succ_iff.1 hj with hle | rfl
          · exact hall j hle
          · exact hfit
        · refine Or.inr ⟨j, d4, d5, by omega, hsome, hbase, hgap, fun j' h1 h2 => ?_⟩
          rcases Nat.le_succ_iff.1 h2 with hle | rfl
          · exact hbelow j' h1 hle
          · exact hfit

end Search

/-! ## The new entry -/

lemma mixedByte_start (a b d e : Byte) : (mixedByte a b d e) &&& 3 = e &&& 3 :=
  and_three_congr (by simp [mixedByte]) (by simp [mixedByte])

lemma mixedByte_length (a b d e : Byte) : lsr4And3 (mixedByte a b d e) = b &&& 3 :=
  and_three_congr (by simp [mixedByte]) (by simp [mixedByte])

/-- The entry of a new file at the given sector. -/
def newEntry (s : State) (f : FileBlock) (len : Num24) (c4 c5 : Byte) : Entry :=
  ⟨s.filenameParam, newInfo f len c4 c5⟩

lemma newEntry_start (s : State) (f : FileBlock) (len : Num24) {c4 c5 : Byte} (h : c4.toNat < 4) :
    (newEntry s f len c4 c5).start = 256 * c4.toNat + c5.toNat := by
  have h3 := congrArg BitVec.toNat (mixedByte_start f.w1076 len.hi f.w1074 c4)
  rw [toNat_and_three, toNat_and_three] at h3
  simp only [Entry.start, newEntry, newInfo, Matrix.cons_val]
  omega

lemma newEntry_length (s : State) (f : FileBlock) {len : Num24} (c4 c5 : Byte)
    (h : len.val < 262144) : (newEntry s f len c4 c5).length = len.val := by
  have h3 := congrArg BitVec.toNat (mixedByte_length f.w1076 len.hi f.w1074 c4)
  rw [lsr4And3_toNat, toNat_and_three] at h3
  simp only [Num24.val] at h
  simp only [Entry.length, newEntry, newInfo, Matrix.cons_val, Num24.val]
  omega

namespace State

/-- The bytes above the `i`-th entry moved up, the new entry in the gap, and the count. -/
def placed (s : State) (n i : ℕ) (e : Entry) : State :=
  let d := putEntry (shiftUp s.cat (8 * n - 8 * i) (8 * n)) (8 * i) e.name e.info
  { s with cat := Function.update d 0x0f05 (d 0x0f05 + 8) }

end State

/-- What a creation leaves in the buffer when it has found a place: the entry at `i` put into the
list, everything else in the list and the size of the disk as they were. -/
structure Placed (s : State) (n i : ℕ) (e : Entry) (s' : State) : Prop where
  count : s'.count = 8 * (n + 1)
  entries : entries s'.cat (n + 1) = (entries s.cat n).insertIdx i e
  total : totalSectors s'.cat = totalSectors s.cat

lemma Placed.of_ejected {s t t' : State} {n i : ℕ} {e : Entry} (h : Placed s n i e t)
    (he : t.Ejected t') : Placed s n i e t' := by
  obtain rfl | ⟨x, -, rfl⟩ := he
  · exact h
  · exact ⟨h.count, h.entries, h.total⟩

lemma placed_cycled (s : State) {n i : ℕ} (e : Entry) (hn : n ≤ 30) (hi : i ≤ n)
    (hcount : s.count = 8 * n) : Placed s n i e (s.placed n i e).cycled := by
  set d := putEntry (shiftUp s.cat (8 * n - 8 * i) (8 * n)) (8 * i) e.name e.info with hd
  have hhead : ∀ a, 0x0f00 ≤ a → a < 0x0f08 → d a = s.cat a := by
    intro a h1 h2
    rw [hd, putEntry, dif_neg (by omega), dif_neg (by omega),
      shiftUp_apply _ _ _ _ (by omega) (by omega), if_neg (by rw [InPages]; omega)]
  refine ⟨?_, ?_, ?_⟩
  · have h8 : (8 : Byte).toNat = 8 := rfl
    have hc : (s.cat 0x0f05).toNat = 8 * n := hcount
    simp only [State.count, State.cycled, State.placed, ← hd]
    rw [Function.update_of_ne (by decide), Function.update_self, hhead _ (by decide) (by decide),
      BitVec.toNat_add, h8, hc]
    omega
  · simp only [State.cycled, State.placed, ← hd]
    rw [entries_update _ _ (by omega) (by decide) (by decide),
      entries_update _ _ (by omega) (by decide) (by decide), hd, entries_putEntry _ _ _ hn hi]
  · simp only [State.cycled, State.placed, ← hd, totalSectors, boundAt]
    rw [Function.update_of_ne (by decide), Function.update_of_ne (by decide),
      Function.update_of_ne (by decide), Function.update_of_ne (by decide),
      hhead _ (by decide) (by decide), hhead _ (by decide) (by decide)]

/-- A creation that has found its place ends there, with the catalogue saved or the drive's
refusal. -/
lemma writeNewEntry_spec (f : FileBlock) (len : Num24) (c4 c5 : Byte) (s : State) {n i : ℕ}
    (hn : n ≤ 30) (hi : i ≤ n) (hcount : s.count = 8 * n) :
    Prog.wp (writeNewEntry f len (8 * i) c4 c5)
      (fun y s' => y = 8 * i ∧ s.CanWrite s.curDrv ∧ Placed s n i (newEntry s f len c4 c5) s' ∧
        s'.catOf s.curDrv = s'.cat)
      (fun e s' => e.Refusal ∧ ¬ s.CanWrite s.curDrv ∧ Placed s n i (newEntry s f len c4 c5) s')
      { s with cat := shiftUp s.cat (8 * n - 8 * i) (8 * n) } := by
  have hplaced := placed_cycled s (newEntry s f len c4 c5) hn hi hcount
  simp only [writeNewEntry, Prog.wp_bind, Prog.wp_modify, Prog.wp_pure]
  refine Prog.wp_mono (saveCat_spec (s.placed n i (newEntry s f len c4 c5))) ?_ ?_
  · rintro _ s' ⟨rfl, hw⟩
    exact ⟨trivial, hw, ⟨hplaced.count, hplaced.entries, hplaced.total⟩, Function.update_self ..⟩
  · rintro e s' ⟨hej, hw, hr⟩
    exact ⟨hr, hw, hplaced.of_ejected hej⟩

/-- The lowest gap that the new file fits into. -/
def LowestGap (c : ℕ → Byte) (n : ℕ) (len : Num24) (i : ℕ) : Prop :=
  i ≤ n ∧ GapFits c n len i ∧ ∀ j, i < j → j ≤ n → ¬ GapFits c n len j

/-- What is asked of a new entry for the `i`-th gap. -/
structure NewEntryAt (s : State) (f : FileBlock) (len : Num24) (n i : ℕ) (e : Entry) : Prop where
  name : e.name = s.filenameParam
  start : e.start = gapAt s.cat n i
  length : e.length = len.val

lemma newEntryAt {s : State} {f : FileBlock} {len : Num24} {n i : ℕ} {c4 c5 : Byte} (hi : i ≤ n)
    (hfit : GapFits s.cat n len i) (hval : 256 * c4.toNat + c5.toNat = gapAt s.cat n i) :
    NewEntryAt s f len n i (newEntry s f len c4 c5) := by
  -- both fit because they lie below the end of the disk, which has ten bits
  have hbound : boundAt s.cat (8 * i) < 1024 := by
    have := byte_lt (s.cat (0x0f07 + 8 * i))
    rw [boundAt]
    omega
  rw [GapFits, Fits, gapTop_entries s.cat hi] at hfit
  have hlen : sectorsOf len.val ≤ 1023 := by omega
  rw [sectorsOf_le_iff] at hlen
  refine ⟨rfl, ?_, newEntry_length s f c4 c5 (by omega)⟩
  rw [newEntry_start s f len (by rw [gapAt] at hval; omega), hval]

/-- The two ways `$899d` goes on. -/
lemma addEntry_cases {s : State} {n : ℕ} (f : FileBlock) (len : Num24) (h1 : 1 ≤ n) (h30 : n ≤ 30)
    (hcount : s.count = 8 * n) (hp : WellPacked s.cat n) :
    ((∀ i ≤ n, ¬ GapFits s.cat n len i) ∧ (addEntry f len).run s = .err .diskFull s) ∨
      ∃ i c4 c5, LowestGap s.cat n len i ∧ 256 * c4.toNat + c5.toNat = gapAt s.cat n i ∧
        (addEntry f len).run s = (writeNewEntry f len (8 * i) c4 c5).run
          { s with cat := shiftUp s.cat (8 * n - 8 * i) (8 * n) } := by
  have hT : 2 ≤ totalSectors s.cat := by
    have hmem : entryAt s.cat 0 ∈ entries s.cat n :=
      List.mem_map.2 ⟨0, List.mem_range.2 (by omega), rfl⟩
    obtain ⟨hlo, htop⟩ := hp.mem _ hmem
    omega
  have hbottom : 256 * (0 : Byte).toNat + (2 : Byte).toNat = gapAt s.cat n n := by
    rw [gapAt, gapBase_of_le (by simp)]
    rfl
  rw [addEntry, Prog.run_bind, Prog.run_get]
  simp only [hcount, if_neg (show ¬ 8 * n = 0 by omega), if_neg (show ¬ 0xf8 ≤ 8 * n by omega)]
  rcases findGap_spec len hp hT n 32 0 2 le_rfl (by omega) hbottom with
    ⟨hnone, hall⟩ | ⟨i, c4, c5, hi, hsome, hval, hfit, hbelow⟩
  · rw [hnone]
    exact Or.inl ⟨hall, rfl⟩
  · rw [hsome]
    refine Or.inr ⟨i, c4, c5, ⟨hi, hfit, hbelow⟩, hval, ?_⟩
    simp only [Prog.run_bind, Prog.run_modify, hcount]

lemma LowestGap.unique {c : ℕ → Byte} {n : ℕ} {len : Num24} {i j : ℕ} (hi : LowestGap c n len i)
    (hj : LowestGap c n len j) : i = j := by
  rcases lt_trichotomy i j with hlt | he | hlt
  · exact absurd hj.2.1 (hi.2.2 j hlt hj.1)
  · exact he
  · exact absurd hi.2.1 (hj.2.2 i hlt hi.1)

/-- **First fit.**  For every catalogue of 1 to 30 entries packed between sector 2 and the end of
the disk and every length, `$899d` raises Disk full exactly when the file fits into no gap, and
then leaves the state alone.  Otherwise the list it leaves is the old list with an entry of the
right name and length put at the bottom of the lowest gap it fits into; the call returns that
entry, and the catalogue behind the drive is the one in the buffer, unless the drive refuses to
be written. -/
theorem addEntry_firstFit (s : State) (f : FileBlock) (len : Num24) (n : ℕ) (h1 : 1 ≤ n)
    (h30 : n ≤ 30) (hcount : s.count = 8 * n) (hp : WellPacked s.cat n) :
    ((∃ s', (addEntry f len).run s = .err .diskFull s') ↔ ∀ i ≤ n, ¬ GapFits s.cat n len i) ∧
      ((∀ i ≤ n, ¬ GapFits s.cat n len i) → (addEntry f len).run s = .err .diskFull s) ∧
      ∀ i, LowestGap s.cat n len i → ∃ e, NewEntryAt s f len n i e ∧
        Prog.wp (addEntry f len)
          (fun y s' => y = 8 * i ∧ s.CanWrite s.curDrv ∧ Placed s n i e s' ∧
            s'.catOf s.curDrv = s'.cat)
          (fun e' s' => e'.Refusal ∧ ¬ s.CanWrite s.curDrv ∧ Placed s n i e s') s := by
  rcases addEntry_cases f len h1 h30 hcount hp with
    ⟨hall, hrun⟩ | ⟨i, c4, c5, hlow, hval, hrun⟩
  · exact ⟨iff_of_true ⟨s, hrun⟩ hall, fun _ => hrun, fun i hi => absurd hi.2.1 (hall i hi.1)⟩
  · have hsome : ¬ ∀ i ≤ n, ¬ GapFits s.cat n len i := fun h => h i hlow.1 hlow.2.1
    have hspec := writeNewEntry_spec f len c4 c5 s h30 hlow.1 hcount
    rw [Prog.wp, ← hrun, ← Prog.wp] at hspec
    refine ⟨iff_of_false ?_ hsome, fun h => absurd h hsome, fun j hj => ?_⟩
    · rintro ⟨s', hs'⟩
      rw [Prog.wp_of_err hs'] at hspec
      rcases hspec.1 with h | h <;> cases h
    · obtain rfl := hlow.unique hj
      exact ⟨_, newEntryAt hlow.1 hlow.2.1 hval, hspec⟩

/-- A writable 800-sector disk with files at the sectors 20 to 24, 10 and 11, and 2 to 4. -/
def threeFiles : State :=
  { stateWithDisk 0 0 with
    diskMark := fun _ => 0x54
    cat := fun a =>
      if a = 0x0f05 then 24 else if a = 0x0f06 then 3 else if a = 0x0f07 then 0x20
      else if a = 0x0f0d then 5 else if a = 0x0f0f then 20
      else if a = 0x0f15 then 2 else if a = 0x0f17 then 10
      else if a = 0x0f1d then 3 else if a = 0x0f1f then 2
      else 0 }

/-- A file of six sectors does not fit between the lower two files and goes above the second, its
entry between theirs. -/
theorem threeFiles_placed : ∃ e s', NewEntryAt threeFiles ⟨0, 0, 0, 0, 0, 0, 0, 6, 0, 0, 0, 0⟩ ⟨0, 6, 0⟩
      3 1 e ∧ e.start = 12 ∧
    (addEntry ⟨0, 0, 0, 0, 0, 0, 0, 6, 0, 0, 0, 0⟩ ⟨0, 6, 0⟩).run threeFiles = .ok 8 s' ∧
      Placed threeFiles 3 1 e s' ∧ s'.catOf 0 = s'.cat := by
  have hp : WellPacked threeFiles.cat 3 := ⟨by decide, by decide, by decide, by decide, by decide, by
    decide, trivial⟩
  have hlow : LowestGap threeFiles.cat 3 ⟨0, 6, 0⟩ 1 := by
    refine ⟨by decide, by decide, fun j h1 h2 => ?_⟩
    obtain rfl | rfl : j = 2 ∨ j = 3 := by omega
    · decide
    · decide
  obtain ⟨e, hnew, hwp⟩ := (addEntry_firstFit threeFiles ⟨0, 0, 0, 0, 0, 0, 0, 6, 0, 0, 0, 0⟩ ⟨0, 6, 0⟩
    3 (by decide) (by decide) (by decide) hp).2.2 1 hlow
  obtain ⟨y, s', hrun, rfl, -, hplaced, hsaved⟩ :=
    Prog.exists_ok hwp fun _ _ h => h.2.1 (by decide)
  exact ⟨e, s', hnew, hnew.start.trans (by decide), hrun, hplaced, hsaved⟩

end Udfs.Rom
