import Udfs.Rom.Gbpb
import Udfs.Rom.Search

/-!
# Listing a directory

OSGBPB with A=8 gives the names of the current directory, as many as it is asked for, and leaves in
its control block where it has come to, so that a list may be asked for in parts.  Whether an entry
belongs to the directory is decided by a comparison of its own, which takes the case of letters from
the character in the entry, where its top bit is the lock, and not from the one that is looked for.
-/

namespace Udfs.Rom

/-! ## The call -/

/-- The control block and the bytes stored so far, each with its address. -/
structure Listing where
  block : ℕ → Byte
  stores : List (ℕ × Byte)

namespace Listing

/-- The bytes in the order in which they are stored. -/
def output (r : Listing) : List Byte := r.stores.map Prod.snd

/-- `$976a`: store a byte and count the address up. -/
def put (r : Listing) (v : Byte) : Listing :=
  ⟨(incBytes 4 1 r.block).1, r.stores ++ [(blockDest r.block, v)]⟩

/-- `$96c5`: leave in the block the entry come to, and the cycle number of the catalogue. -/
def leave (r : Listing) (c : ℕ → Byte) (y : Byte) : Listing :=
  { r with block := Function.update (Function.update r.block 9 y) 0 (c 0x0f04) }

end Listing

/-- `$969d`: the directory character of an entry belongs to the directory. -/
def listTest (dir e : Byte) : Bool :=
  ((e ^^^ dir) &&& (if notLetter e then 0xff else 0xdf)) &&& 0x7f = 0

/-- `$9698`: the next entry of the directory from the one at `y` on, over at most `k` entries;
whether there is one, and the entry come to. -/
def nextListed (dir : Byte) (c : ℕ → Byte) : ℕ → Byte → Bool × Byte
  | 0, y => (false, y)
  | k + 1, y =>
      if (c 0x0f05).toNat ≤ y.toNat then (false, y)
      else if listTest dir (c (0x0e0f + y.toNat)) then (true, y)
      else if y + 8 = 0 then (true, 0)
      else nextListed dir c k (y + 8)

/-- `$96b9`: the characters of a name. -/
def giveName (c : ℕ → Byte) : ℕ → Byte → Listing → Byte × Listing
  | 0, y, r => (y, r)
  | k + 1, y, r => giveName c k (y + 1) (r.put (c (0x0e08 + y.toNat)))

/-- `$9695`: the name of the next entry, with its length; the carry tells that there is none. -/
def listEntry (dir : Byte) (c : ℕ → Byte) (r : Listing) : Bool × Listing :=
  let e := nextListed dir c 32 (r.block 9)
  if e.1 then
    let p := giveName c 7 e.2 (r.put 7)
    (false, p.2.leave c p.1)
  else (true, r.leave c e.2)

/-- `$9651`: entries until the number becomes zero; the carry tells that it has not. -/
def listLoop (dir : Byte) (c : ℕ → Byte) : ℕ → Listing → Bool × Listing
  | 0, r => (false, r)
  | k + 1, r =>
      let b := incBytes 4 5 r.block
      if b.2 then (false, { r with block := b.1 })
      else
        let e := listEntry dir c { r with block := b.1 }
        if e.1 then e else listLoop dir c k { e.2 with block := (incBytes 4 9 e.2.block).1 }

/-- A call of OSGBPB with A=8 with the control block `b`: the carry, the block left and what has been
stored. -/
def listNames (dir : Byte) (c b : ℕ → Byte) : Bool × Listing :=
  let r := listLoop dir c (leVal 4 5 b + 1) ⟨notBytes 4 5 b, []⟩
  (r.1, { r.2 with block := (incBytes 4 5 (notBytes 4 5 r.2.block)).1 })

/-- `$9683`: the same on the machine, for the current directory of the current drive. -/
def gbpbNames (cb : ℕ) : Routine Bool := do
  Prog.modify fun s => s.withFsp ⟨Function.update s.filenameParam 7 s.defDir, s.defDrv &&& 3⟩
  loadCurDrvCat
  let s ← Prog.get
  let r := listNames (s.filenameParam 7) s.cat fun i => s.mem (cb + i)
  Prog.modify fun s => { s with
    mem := r.2.stores.foldl (fun m p => Function.update m p.1 p.2) s.mem }
  Prog.modify fun s => { s with mem := copyBytes r.2.block 0 cb 13 s.mem }
  pure r.1

/-- A block with the pointer of another one. -/
def withPointer (b prev : ℕ → Byte) : ℕ → Byte := fun i => if 9 ≤ i ∧ i < 13 then prev i else b i

/-- Calls one after the other, each going on from the pointer that the one before has left. -/
def listCalls (dir : Byte) (c : ℕ → Byte) : (ℕ → Byte) → List (ℕ → Byte) → List (Bool × List Byte)
  | _, [] => []
  | prev, b :: l =>
      let r := listNames dir c (withPointer b prev)
      (r.1, r.2.output) :: listCalls dir c r.2.block l

namespace State

/-- The block at `cb` written for another call: all of it but the pointer that the last one left. -/
def asked (s : State) (cb : ℕ) (b : ℕ → Byte) : State :=
  { s with mem := copyBytes (withPointer b fun i => s.mem (cb + i)) 0 cb 13 s.mem }

/-- The state with the catalogue of the current directory. -/
def inDir (s : State) : State :=
  s.withFsp ⟨Function.update s.filenameParam 7 s.defDir, s.defDrv &&& 3⟩

/-- The call for the control block at `cb` in the current directory. -/
def namesOf (s : State) (cb : ℕ) : Bool × Listing :=
  listNames s.defDir (s.catOf (s.defDrv &&& 3)) fun i => s.mem (cb + i)

end State

/-- The same calls on the machine, with the block at `cb`: the carry of each, and what it has stored. -/
def namesCalls (cb : ℕ) : List (ℕ → Byte) → Routine (List (Bool × List Byte))
  | [] => pure []
  | b :: l => do
      Prog.modify fun s => s.asked cb b
      let s ← Prog.get
      let carry ← gbpbNames cb
      let rest ← namesCalls cb l
      pure ((carry, (s.namesOf cb).2.output) :: rest)

/-- On the machine a call lists the current directory as the disk in the current drive has it, stores
the bytes and then the block; without a disk it leaves with No disk. -/
lemma gbpbNames_run (cb : ℕ) (s : State) :
    (s.HasDisk (s.defDrv &&& 3) → (gbpbNames cb).run s
        = .ok (s.namesOf cb).1 { s.inDir.catLoaded with
            mem := copyBytes (s.namesOf cb).2.block 0 cb 13
              ((s.namesOf cb).2.stores.foldl (fun m p => Function.update m p.1 p.2) s.mem) }) ∧
      (¬ s.HasDisk (s.defDrv &&& 3) → (gbpbNames cb).run s = .err .noDisk s.inDir) := by
  constructor
  · intro h
    rw [gbpbNames, Prog.run_bind_ok (Prog.run_modify _ _)]
    refine (Prog.run_bind_ok (loadCurDrvCat_run (s := s.inDir) h)).trans ?_
    rfl
  · intro h
    rw [gbpbNames, Prog.run_bind_ok (Prog.run_modify _ _)]
    exact Prog.run_bind_err (loadCurDrvCat_noDisk (s := s.inDir) h)

/-! ## What the comparison does -/

/-- The characters agree up to bit 7, or the entry's is a letter and they agree up to its case. -/
lemma listTest_iff (dir e : Byte) : listTest dir e = true ↔
    e &&& 0x7f = dir &&& 0x7f ∨ (Letter e ∧ e &&& 0x5f = dir &&& 0x5f) := by
  have hne : e ≠ ~~~ e := by
    revert e
    decide
  have hmatch : listTest dir e = matchChar (~~~ e) e dir := by
    rw [matchChar, decide_eq_false hne, Bool.false_or, listTest]
  rw [hmatch, matchChar_iff, Covers]
  exact or_iff_right hne

/-- The directory characters that the list and a search for all names of the directory take
differently: another directory than `#` when that is the current one, which a search takes for the
wildcard; and the same letter in the other case when the entry is locked or the current directory
has its top bit set. -/
def Mislisted (dir e : Byte) : Prop :=
  (dir = 0x23 ∧ e &&& 0x7f ≠ 0x23) ∨
    (e &&& 0x7f ≠ dir &&& 0x7f ∧ e &&& 0x5f = dir &&& 0x5f ∧
      ((Letter dir ∧ 128 ≤ e.toNat) ∨ (Letter e ∧ 128 ≤ dir.toNat)))

instance (dir e : Byte) : Decidable (Mislisted dir e) := inferInstanceAs (Decidable (_ ∨ _))

section Letters

variable {a b : Byte}

lemma letter_lt (h : Letter a) : a.toNat < 128 := by
  obtain ⟨-, h⟩ | ⟨-, h⟩ := h <;> omega

/-- Whether a character below 128 is a letter is seen without its case bit. -/
lemma letter_congr (ha : a.toNat < 128) (hb : b.toNat < 128) (h : a &&& 0x5f = b &&& 0x5f) :
    Letter a ↔ Letter b := by
  have hcase : ∀ a : Byte, a.toNat < 128 → (Letter a ↔
      0x41 ≤ (a &&& 0x5f).toNat ∧ (a &&& 0x5f).toNat ≤ 0x5a) := by decide
  rw [hcase a ha, hcase b hb, h]

end Letters

/-- To the directory `#` the list gives a file of `#` only, and a search every file. -/
lemma mislisted_hash (e : Byte) :
    Mislisted 0x23 e ↔ ¬ (listTest 0x23 e = true ↔ Covers 0x23 0x23 e) := by
  -- no letter looks like the wildcard
  have hcase : ∀ a : Byte, Letter a → a &&& 0x5f ≠ 0x23 &&& 0x5f := by decide
  have hno : ¬ Letter (0x23 : Byte) := by decide
  have hlow : ¬ 128 ≤ (0x23 : Byte).toNat := by decide
  have hsame : (0x23 : Byte) &&& 0x7f = 0x23 := rfl
  have hletter : ¬ (Letter e ∧ e &&& 0x5f = 0x23 &&& 0x5f) := fun h => hcase e h.1 h.2
  rw [listTest_iff, Covers, Mislisted]
  simp only [hno, hlow, hsame, hletter, true_and, false_and, and_false, or_false, true_or, iff_true]

/-- They are the ones that only one of the two takes. -/
lemma mislisted_iff (dir e : Byte) :
    Mislisted dir e ↔ ¬ (listTest dir e = true ↔ Covers 0x23 dir e) := by
  by_cases hhash : dir = 0x23
  · rw [hhash]
    exact mislisted_hash e
  · rw [listTest_iff, Covers, Mislisted]
    by_cases hsame : e &&& 0x7f = dir &&& 0x7f
    · simp only [hhash, hsame, false_and, ne_eq, not_true_eq_false, true_or, or_true, or_self]
    · by_cases hcase : e &&& 0x5f = dir &&& 0x5f
      · have hcongr := letter_congr (a := e) (b := dir)
        have he := letter_lt (a := e)
        have hd := letter_lt (a := dir)
        simp only [hhash, hsame, hcase, eq_comm (a := dir &&& 0x7f), false_and, ne_eq,
          not_false_eq_true, true_and, and_true, false_or]
        constructor
        · rintro (⟨h1, h2⟩ | ⟨h1, h2⟩) h
          · exact absurd (he (h.2 h1)) (by omega)
          · exact absurd (hd (h.1 h1)) (by omega)
        · intro h
          by_cases h1 : 128 ≤ e.toNat
          · refine Or.inl ⟨?_, h1⟩
            by_contra hno
            exact h (iff_of_false (fun hl => absurd (he hl) (by omega)) hno)
          · by_cases h2 : 128 ≤ dir.toNat
            · refine Or.inr ⟨?_, h2⟩
              by_contra hno
              exact h (iff_of_false hno fun hl => absurd (hd hl) (by omega))
            · exact absurd (hcongr (by omega) (by omega) hcase) h
      · simp only [hhash, hsame, hcase, eq_comm (a := dir &&& 0x7f), eq_comm (a := dir &&& 0x5f),
          false_and, and_false, or_self, not_true_eq_false]

/-- A current directory below 128 gets no more from the list than from a search, the others no
less. -/
lemma listTest_mono (dir : Byte) :
    (∀ e, listTest dir e = true → Covers 0x23 dir e) ∨
      (∀ e, Covers 0x23 dir e → listTest dir e = true) := by
  by_cases hdir : dir.toNat < 128
  · refine Or.inl fun e h => ?_
    obtain h | ⟨hl, hcase⟩ := (listTest_iff dir e).1 h
    · exact Or.inr (Or.inl h.symm)
    · exact Or.inr (Or.inr ⟨(letter_congr (letter_lt hl) hdir hcase).1 hl, hcase.symm⟩)
  · refine Or.inr fun e h => (listTest_iff dir e).2 ?_
    obtain rfl | h | ⟨hl, -⟩ := h
    · exact absurd (by decide) hdir
    · exact Or.inl h.symm
    · exact absurd (letter_lt hl) hdir

/-! ## The entries of a scan -/

/-- The offsets of the entries from the `i`-th on, in a catalogue of `n`, that a test takes. -/
def offsets (t : ℕ → Bool) (n i : ℕ) : List ℕ := ((List.range' i (n - i)).map (8 * ·)).filter t

section Offsets

variable {t u : ℕ → Bool} {n i : ℕ}

lemma offsets_of_le (h : n ≤ i) : offsets t n i = [] := by
  rw [offsets, Nat.sub_eq_zero_of_le h]
  rfl

lemma offsets_step (h : i < n) :
    offsets t n i = if t (8 * i) then 8 * i :: offsets t n (i + 1) else offsets t n (i + 1) := by
  rw [offsets, show n - i = n - (i + 1) + 1 by omega, List.range'_succ, List.map_cons,
    List.filter_cons, offsets]

lemma mem_offsets {j : ℕ} (hi : i ≤ j) (hj : j < n) : 8 * j ∈ offsets t n i ↔ t (8 * j) = true := by
  rw [offsets, List.mem_filter]
  exact and_iff_right (List.mem_map.2 ⟨j, List.mem_range'_1.2 ⟨hi, by omega⟩, rfl⟩)

lemma length_offsets_le : (offsets t n i).length ≤ n - i := by
  refine (List.length_filter_le _ _).trans ?_
  rw [List.length_map, List.length_range']

lemma offsets_sublist (h : ∀ o, t o = true → u o = true) : (offsets t n i).Sublist (offsets u n i) :=
  List.monotone_filter_right _ h

/-- Two tests one of which takes whatever the other takes are told apart by how many they take. -/
lemma offsets_inj (h : (∀ o, t o = true → u o = true) ∨ (∀ o, u o = true → t o = true))
    (hlen : (offsets t n i).length = (offsets u n i).length) {j : ℕ} (hi : i ≤ j) (hj : j < n) :
    t (8 * j) = true ↔ u (8 * j) = true := by
  have heq : offsets t n i = offsets u n i := by
    rcases h with h | h
    · exact (offsets_sublist h).eq_of_length hlen
    · exact ((offsets_sublist h).eq_of_length hlen.symm).symm
  rw [← mem_offsets hi hj, heq, mem_offsets hi hj]

lemma offsets_congr (h : ∀ j < n, t (8 * j) = u (8 * j)) : offsets t n i = offsets u n i := by
  refine List.filter_congr fun o ho => ?_
  obtain ⟨j, hj, rfl⟩ := List.mem_map.1 ho
  exact h j (by have := List.mem_range'_1.1 hj; omega)

end Offsets

/-! ## One call -/

/-- The name of an entry as it is stored. -/
def record (c : ℕ → Byte) (o : ℕ) : List Byte := 7 :: (List.range 7).map fun j => c (0x0e08 + o + j)

section Calls

variable (dir : Byte) {c : ℕ → Byte} {n : ℕ}

/-- The entries of the directory from the `i`-th on. -/
abbrev listed (dir : Byte) (c : ℕ → Byte) (n i : ℕ) : List ℕ :=
  offsets (fun o => listTest dir (c (0x0e0f + o))) n i

/-- The scan comes to the next of the entries, or to the end of the catalogue. -/
lemma nextListed_spec (hn : n ≤ 31) (hcount : entryCount c = n) (k : ℕ) :
    ∀ (i : ℕ) (y : Byte), i ≤ n → y.toNat = 8 * i → n - i < k →
      (∃ j z, nextListed dir c k y = (true, z) ∧ z.toNat = 8 * j ∧ j < n ∧
          listed dir c n i = 8 * j :: listed dir c n (j + 1)) ∨
        (∃ z, nextListed dir c k y = (false, z) ∧ z.toNat = 8 * n ∧ listed dir c n i = []) := by
  induction k with
  | zero => intro i y _ _ hk; omega
  | succ k ih =>
      intro i y hi hy hk
      have hle : (c 0x0f05).toNat ≤ 8 * i ↔ n ≤ i := by
        rw [← hcount, entryCount]
        omega
      rw [nextListed, hy]
      by_cases hend : n ≤ i
      · have heq : i = n := le_antisymm hi hend
        rw [if_pos (hle.2 hend)]
        exact Or.inr ⟨y, rfl, by omega, offsets_of_le hend⟩
      · have hy8 : (y + 8).toNat = 8 * (i + 1) := by
          rw [toNat_add_eight hy (by omega)]
          ring
        rw [if_neg (by rw [hle]; omega), listed, offsets_step (by omega)]
        by_cases ht : listTest dir (c (0x0e0f + 8 * i)) = true
        · rw [if_pos ht, if_pos ht]
          exact Or.inl ⟨i, y, rfl, hy, by omega, rfl⟩
        · have hne : y + 8 ≠ 0 := fun h => by
            have h0 : (0 : Byte).toNat = 0 := rfl
            rw [h, h0] at hy8
            omega
          rw [if_neg ht, if_neg hne, if_neg ht]
          exact ih (i + 1) (y + 8) (by omega) hy8 (by omega)

lemma put_block {r : Listing} {v : Byte} {i : ℕ} (h : 5 ≤ i) : (r.put v).block i = r.block i :=
  incBytes_of_not _ (by omega)

lemma put_output (r : Listing) (v : Byte) : (r.put v).output = r.output ++ [v] := by
  rw [Listing.output, Listing.put, List.map_append]
  rfl

lemma giveName_spec (k : ℕ) : ∀ (y : Byte) (r : Listing), y.toNat + k < 256 →
    (giveName c k y r).1.toNat = y.toNat + k ∧
      (giveName c k y r).2.output
        = r.output ++ (List.range k).map (fun j => c (0x0e08 + y.toNat + j)) ∧
      ∀ i, 5 ≤ i → (giveName c k y r).2.block i = r.block i := by
  induction k with
  | zero =>
      intro y r _
      exact ⟨rfl, (List.append_nil _).symm, fun i _ => rfl⟩
  | succ k ih =>
      intro y r hy
      have hy1 := toNat_add_one_of_lt (a := y) (by omega)
      obtain ⟨hend, hout, hblock⟩ := ih (y + 1) (r.put (c (0x0e08 + y.toNat))) (by omega)
      rw [giveName]
      refine ⟨by omega, ?_, fun i hi => (hblock i hi).trans (put_block hi)⟩
      have hrest : (List.range k).map (fun j => c (0x0e08 + y.toNat + (j + 1)))
          = (List.range k).map fun j => c (0x0e08 + (y.toNat + 1) + j) :=
        List.map_congr_left fun j _ => congrArg c (by omega)
      rw [hout, put_output, List.append_assoc, List.range_succ_eq_map, List.map_cons, List.map_map,
        hy1, ← hrest]
      rfl

lemma leave_number {r : Listing} {y : Byte} : leVal 4 5 (r.leave c y).block = leVal 4 5 r.block :=
  leVal_congr fun a h1 h2 => by
    show Function.update (Function.update r.block 9 y) 0 (c 0x0f04) a = r.block a
    rw [Function.update_of_ne (by omega), Function.update_of_ne (by omega)]

lemma leave_output {r : Listing} {y : Byte} : (r.leave c y).output = r.output := rfl

lemma leave_pointer {r : Listing} {y : Byte} : (r.leave c y).block 9 = y := rfl

lemma listEntry_found {r : Listing} {z : Byte} (h : nextListed dir c 32 (r.block 9) = (true, z)) :
    listEntry dir c r
      = (false, (giveName c 7 z (r.put 7)).2.leave c (giveName c 7 z (r.put 7)).1) := by
  simp only [listEntry, h, if_true]

lemma listEntry_none {r : Listing} {z : Byte} (h : nextListed dir c 32 (r.block 9) = (false, z)) :
    listEntry dir c r = (true, r.leave c z) := by
  simp only [listEntry, h, Bool.false_eq_true, if_false]

/-- One entry: its name is stored and the pointer is left on its last byte. -/
lemma listEntry_spec (hn : n ≤ 31) (hcount : entryCount c = n) {i : ℕ} (hi : i ≤ n)
    {r : Listing} (hy : (r.block 9).toNat = 8 * i) :
    (∃ j r', listEntry dir c r = (false, r') ∧ j < n ∧
        listed dir c n i = 8 * j :: listed dir c n (j + 1) ∧
        r'.output = r.output ++ record c (8 * j) ∧ leVal 4 5 r'.block = leVal 4 5 r.block ∧
        (r'.block 9).toNat = 8 * j + 7) ∨
      (∃ r', listEntry dir c r = (true, r') ∧ listed dir c n i = [] ∧ r'.output = r.output ∧
        leVal 4 5 r'.block = leVal 4 5 r.block ∧ (r'.block 9).toNat = 8 * n) := by
  obtain ⟨j, z, hnext, hz, hj, hlist⟩ | ⟨z, hnext, hz, hlist⟩ :=
    nextListed_spec dir hn hcount 32 i (r.block 9) hi hy (by omega)
  · obtain ⟨hend, hout, hblock⟩ := giveName_spec (c := c) 7 z (r.put 7) (by omega)
    rw [put_output, List.append_assoc, hz, List.singleton_append, ← record] at hout
    have hnum : leVal 4 5 (giveName c 7 z (r.put 7)).2.block = leVal 4 5 r.block :=
      leVal_congr fun a h1 _ => (hblock a h1).trans (put_block h1)
    refine Or.inl ⟨j, _, listEntry_found dir hnext, hj, hlist, leave_output.trans hout,
      leave_number.trans hnum, ?_⟩
    rw [leave_pointer, hend, hz]
  · refine Or.inr ⟨_, listEntry_none dir hnext, hlist, rfl, leave_number, ?_⟩
    rw [leave_pointer, hz]

/-- The loop gives as many entries as are asked for, or the rest of them. -/
lemma listLoop_spec (hn : n ≤ 31) (hcount : entryCount c = n) (m : ℕ) :
    ∀ (i : ℕ) (r : Listing), i ≤ n → (r.block 9).toNat = 8 * i →
      leVal 4 5 r.block + m + 1 = 4294967296 →
      ∃ i' r', listLoop dir c (m + 1) r = (decide ((listed dir c n i).length < m), r') ∧ i' ≤ n ∧
        (r'.block 9).toNat = 8 * i' ∧
        r'.output = r.output ++ ((listed dir c n i).take m).flatMap (record c) ∧
        (listed dir c n i).drop m = listed dir c n i' := by
  induction m with
  | zero =>
      intro i r hi hy hnum
      have hz : (incBytes 4 5 r.block).2 = true := (incBytes_val r.block).2.2 (by omega)
      refine ⟨i, { r with block := (incBytes 4 5 r.block).1 }, ?_, hi, ?_, ?_, rfl⟩
      · rw [listLoop]
        simp only [hz, if_true, Nat.not_lt_zero, decide_false]
      · rw [← hy]
        exact congrArg BitVec.toNat (incBytes_of_not r.block (by omega))
      · exact (List.append_nil _).symm
  | succ m ih =>
      intro i r hi hy hnum
      have hz : ¬ (incBytes 4 5 r.block).2 = true := fun h => by
        have := (incBytes_val r.block).2.1 h
        omega
      have hnum₁ : leVal 4 5 (incBytes 4 5 r.block).1 + m + 1 = 4294967296 := by
        rw [leVal_inc]
        omega
      have hy₁ : ((incBytes 4 5 r.block).1 9).toNat = 8 * i := by
        rw [incBytes_of_not r.block (by omega), hy]
      rw [listLoop]
      simp only [hz]
      set r₁ : Listing := { r with block := (incBytes 4 5 r.block).1 } with hr₁
      obtain ⟨j, r₂, hentry, hj, hlist, hout, hnum₂, hy₂⟩ | ⟨r₂, hentry, hlist, hout, hnum₂, hy₂⟩ :=
        listEntry_spec dir (r := r₁) hn hcount hi hy₁
      · have hnext : ((incBytes 4 9 r₂.block).1 9).toNat = 8 * (j + 1) := by
          rw [incBytes_first, toNat_add_one_of_lt (by omega), hy₂]
          ring
        obtain ⟨i', r', hrun, hi', hy', hout', hdrop⟩ :=
          ih (j + 1) { r₂ with block := (incBytes 4 9 r₂.block).1 } (by omega) hnext (by
            show leVal 4 5 (incBytes 4 9 r₂.block).1 + m + 1 = 4294967296
            rw [leVal_inc_of_ne _ (by omega), hnum₂]
            exact hnum₁)
        refine ⟨i', r', ?_, hi', hy', ?_, ?_⟩
        · rw [hentry, hlist, List.length_cons]
          simp only [Nat.succ_lt_succ_iff]
          exact hrun
        · rw [hout', hlist, List.take_succ_cons, List.flatMap_cons, ← List.append_assoc]
          exact congrArg (· ++ _) hout
        · rw [hlist, List.drop_succ_cons]
          exact hdrop
      · refine ⟨n, r₂, ?_, le_rfl, hy₂, ?_, ?_⟩
        · rw [hentry, hlist]
          simp
        · rw [hlist, hout]
          exact (List.append_nil _).symm
        · rw [hlist, listed, offsets_of_le le_rfl]
          rfl

/-! ## Calls one after the other -/

/-- Give a list out in parts of the given sizes, telling each time whether it has run short. -/
def giveOut {α : Type*} : List (List α) → List ℕ → List (Bool × List α)
  | _, [] => []
  | l, k :: ks => (decide (l.length < k), (l.take k).flatten) :: giveOut (l.drop k) ks

/-- A call goes on from the entry that the pointer has come to. -/
lemma listNames_spec (hn : n ≤ 31) (hcount : entryCount c = n) {i : ℕ} (hi : i ≤ n)
    {b : ℕ → Byte} (hy : (b 9).toNat = 8 * i) :
    (listNames dir c b).1 = decide ((listed dir c n i).length < leVal 4 5 b) ∧
      (listNames dir c b).2.output = ((listed dir c n i).take (leVal 4 5 b)).flatMap (record c) ∧
      ∃ i' ≤ n, ((listNames dir c b).2.block 9).toNat = 8 * i' ∧
        (listed dir c n i).drop (leVal 4 5 b) = listed dir c n i' := by
  have hnum := notBytes_val (k := 4) (x := 5) b
  have hfirst : notBytes 4 5 b 9 = b 9 := notBytes_of_not b (by omega)
  obtain ⟨i', r, hrun, hi', hy', hout, hdrop⟩ :=
    listLoop_spec dir hn hcount (leVal 4 5 b) i ⟨notBytes 4 5 b, []⟩ hi
      (by rw [← hy, ← hfirst]) hnum
  have hkeep : (incBytes 4 5 (notBytes 4 5 r.block)).1 9 = r.block 9 := by
    rw [incBytes_of_not _ (by omega), notBytes_of_not _ (by omega)]
  rw [listNames, hrun]
  refine ⟨rfl, hout, i', hi', ?_, hdrop⟩
  rw [← hy', ← hkeep]

/-- The calls together give the entries out in the parts asked for. -/
lemma listCalls_spec (hn : n ≤ 31) (hcount : entryCount c = n) (bs : List (ℕ → Byte)) :
    ∀ (i : ℕ) (prev : ℕ → Byte), i ≤ n → (prev 9).toNat = 8 * i →
      listCalls dir c prev bs
        = giveOut ((listed dir c n i).map (record c)) (bs.map (leVal 4 5)) := by
  induction bs with
  | nil => intro i prev _ _; rfl
  | cons b bs ih =>
      intro i prev hi hy
      have hk : leVal 4 5 (withPointer b prev) = leVal 4 5 b :=
        leVal_congr fun a h1 h2 => if_neg (by omega)
      have hp : ((withPointer b prev) 9).toNat = 8 * i := hy
      obtain ⟨hcarry, hout, i', hi', hy', hdrop⟩ := listNames_spec dir hn hcount hi hp
      rw [hk] at hcarry hout hdrop
      rw [listCalls, List.map_cons, giveOut, hcarry, hout, List.length_map, ← List.map_take,
        ← List.map_drop, hdrop, List.flatMap_def, ih i' _ hi' hy']

end Calls

/-! ## The calls on the machine -/

section Machine

variable {cb : ℕ} {s : State}

/-- A block written for another call asks for as many names as the program says, from the pointer on. -/
lemma asked_block (s : State) (cb : ℕ) (b : ℕ → Byte) {i : ℕ} (hi : i < 13) :
    (s.asked cb b).mem (cb + i) = withPointer b (fun j => s.mem (cb + j)) i := by
  have hcopy := copyBytes_apply (withPointer b fun j => s.mem (cb + j)) s.mem 0 cb hi
  rwa [Nat.zero_add] at hcopy

/-- The state that a call for the block at `cb` leaves. -/
def State.namesGiven (s : State) (cb : ℕ) : State :=
  { s.inDir.catLoaded with
    mem := copyBytes (s.namesOf cb).2.block 0 cb 13
      ((s.namesOf cb).2.stores.foldl (fun m p => Function.update m p.1 p.2) s.mem) }

lemma namesGiven_block (s : State) (cb : ℕ) {i : ℕ} (hi : i < 13) :
    (s.namesGiven cb).mem (cb + i) = (s.namesOf cb).2.block i := by
  have hcopy := copyBytes_apply (s.namesOf cb).2.block
    ((s.namesOf cb).2.stores.foldl (fun m p => Function.update m p.1 p.2) s.mem) 0 cb hi
  rwa [Nat.zero_add] at hcopy

/-- The calls on the machine give the entries out from the pointer of the block on. -/
lemma namesCalls_spec (cb : ℕ) (bs : List (ℕ → Byte)) :
    ∀ (s : State) (i : ℕ), s.HasDisk (s.defDrv &&& 3) → entryCount (s.catOf (s.defDrv &&& 3)) ≤ 31 →
      i ≤ entryCount (s.catOf (s.defDrv &&& 3)) → (s.mem (cb + 9)).toNat = 8 * i →
      ∃ s', (namesCalls cb bs).run s
        = .ok (giveOut ((listed s.defDir (s.catOf (s.defDrv &&& 3))
            (entryCount (s.catOf (s.defDrv &&& 3))) i).map (record (s.catOf (s.defDrv &&& 3))))
            (bs.map (leVal 4 5))) s' := by
  induction bs with
  | nil => intro s i _ _ _ _; exact ⟨s, rfl⟩
  | cons b bs ih =>
      intro s i hdisk hn hi hy
      set c := s.catOf (s.defDrv &&& 3) with hc
      have hk : leVal 4 5 (fun j => (s.asked cb b).mem (cb + j)) = leVal 4 5 b :=
        leVal_congr fun a h1 h2 => (asked_block s cb b (by omega)).trans (if_neg (by omega))
      have hp : ((s.asked cb b).mem (cb + 9)).toNat = 8 * i := by
        rw [asked_block s cb b (by omega)]
        exact hy
      obtain ⟨hcarry, hout, i', hi', hy', hdrop⟩ :=
        listNames_spec s.defDir (c := c) (b := fun j => (s.asked cb b).mem (cb + j)) hn rfl hi hp
      rw [hk] at hcarry hout hdrop
      have hcall : (gbpbNames cb).run (s.asked cb b)
          = .ok ((s.asked cb b).namesOf cb).1 ((s.asked cb b).namesGiven cb) :=
        (gbpbNames_run cb (s.asked cb b)).1 hdisk
      have hnext : (((s.asked cb b).namesGiven cb).mem (cb + 9)).toNat = 8 * i' := by
        rw [namesGiven_block _ cb (by omega)]
        exact hy'
      obtain ⟨s', hrest⟩ := ih ((s.asked cb b).namesGiven cb) i' hdisk hn hi' hnext
      refine ⟨s', ?_⟩
      rw [namesCalls, Prog.run_bind_ok (Prog.run_modify _ _), Prog.run_bind_ok (Prog.run_get _),
        Prog.run_bind_ok hcall, Prog.run_bind_ok hrest, List.map_cons, giveOut, List.length_map,
        ← List.map_take, ← List.map_drop, hdrop, ← List.flatMap_def, ← hcarry, ← hout]
      rfl

/-- **The machine lists the directory.**  With a disk in the current drive and the pointer at the
start, the calls answer as `listCalls` does for the current directory and the catalogue of that disk.
The names go to memory apart from the catalogue buffer, which is read while they are stored. -/
theorem namesCalls_listed (hdisk : s.HasDisk (s.defDrv &&& 3))
    (hn : entryCount (s.catOf (s.defDrv &&& 3)) ≤ 31) (hstart : s.mem (cb + 9) = 0)
    (bs : List (ℕ → Byte)) :
    ∃ s', (namesCalls cb bs).run s
      = .ok (listCalls s.defDir (s.catOf (s.defDrv &&& 3)) (fun _ => 0) bs) s' := by
  obtain ⟨s', hrun⟩ := namesCalls_spec cb bs s 0 hdisk hn (Nat.zero_le _) (by rw [hstart]; rfl)
  refine ⟨s', hrun.trans ?_⟩
  rw [listCalls_spec s.defDir hn rfl bs 0 (fun _ => 0) (Nat.zero_le _) rfl]

end Machine

/-! ## The list and a search -/

/-- The pattern for all names of a directory. -/
def allOf (dir : Byte) : Fin 8 → Byte := fun i => if i = 7 then dir else 0x23

lemma coversName_allOf (dir : Byte) (c : ℕ → Byte) (o : ℕ) :
    CoversName 0x23 (allOf dir) (entryName c o) ↔ Covers 0x23 dir (c (0x0e0f + o)) := by
  have h7 : entryName c o 7 = c (0x0e0f + o) := by
    rw [entryName]
    congr 1
    show 0x0e08 + o + 7 = 0x0e0f + o
    omega
  constructor
  · intro h
    have := h 7
    rwa [h7, allOf, if_pos rfl] at this
  · intro h i
    rw [allOf]
    split_ifs with hi
    · rw [hi, h7]
      exact h
    · exact Or.inl rfl

/-- A block that asks for `k` names. -/
def askFor (k : ℕ) : ℕ → Byte := fun i => if i = 5 then BitVec.ofNat 8 k else 0

lemma askFor_val {k : ℕ} (h : k < 256) : leVal 4 5 (askFor k) = k := by
  simp [leVal, askFor]
  omega

lemma length_flatten_record (c : ℕ → Byte) (l : List ℕ) :
    ((l.map (record c)).flatten).length = 8 * l.length := by
  induction l with
  | nil => rfl
  | cons o l ih =>
      rw [List.map_cons, List.flatten_cons, List.length_append, ih, List.length_cons]
      show 8 + 8 * l.length = 8 * (l.length + 1)
      ring

/-- **The list of a directory is what a search finds, save for some directory characters.**  Whatever
the parts in which it is asked for, the calls give the length and the name of each entry that a search
for all names of the directory finds, in catalogue order, with the carry when there are fewer than
asked for, exactly if the directory character of no entry is one that the two take differently.  The
destination is apart from the catalogue buffer, so that the calls read the same catalogue all along. -/
theorem listCalls_iff (dir : Byte) (c : ℕ → Byte) (hn : entryCount c ≤ 31) :
    (∀ bs, listCalls dir c (fun _ => 0) bs
        = giveOut ((hitsFrom 0x23 (allOf dir) c (entryCount c) 0).map (record c)) (bs.map (leVal 4 5))) ↔
      ∀ i < entryCount c, ¬ Mislisted dir (c (0x0e0f + 8 * i)) := by
  set u : ℕ → Bool := fun o => decide (CoversName 0x23 (allOf dir) (entryName c o)) with hu
  have hfound : ∀ o, u o = true ↔ Covers 0x23 dir (c (0x0e0f + o)) := fun o => by
    rw [hu, decide_eq_true_iff, coversName_allOf]
  have hhits : hitsFrom 0x23 (allOf dir) c (entryCount c) 0 = offsets u (entryCount c) 0 := rfl
  have hagree : (∀ i < entryCount c, ¬ Mislisted dir (c (0x0e0f + 8 * i))) ↔
      ∀ i < entryCount c, listTest dir (c (0x0e0f + 8 * i)) = true ↔ u (8 * i) = true := by
    refine forall₂_congr fun i _ => ?_
    rw [mislisted_iff, not_not, hfound]
  rw [hagree]
  constructor
  · intro h i hi
    refine offsets_inj (t := fun o => listTest dir (c (0x0e0f + o))) ?_ ?_ (Nat.zero_le i) hi
    · simp only [hfound]
      exact (listTest_mono dir).imp (fun h o => h _) fun h o => h _
    · -- asked for as many names as there are entries, the list gives all it has
      have hall := h [askFor (entryCount c)]
      rw [listCalls_spec dir hn rfl [askFor (entryCount c)] 0 (fun _ => 0) (Nat.zero_le _) rfl, hhits,
        List.map_singleton, askFor_val (by omega), giveOut, giveOut, giveOut, giveOut] at hall
      have hlen := congrArg List.length (Prod.ext_iff.1 (List.cons.inj hall).1).2
      have hle : ∀ t : ℕ → Bool, ((offsets t (entryCount c) 0).map (record c)).length ≤ entryCount c := fun t => by
        have := length_offsets_le (t := t) (n := entryCount c) (i := 0)
        rwa [List.length_map]
      rw [List.take_of_length_le (hle _), List.take_of_length_le (hle _), length_flatten_record,
        length_flatten_record] at hlen
      omega
  · intro h bs
    rw [listCalls_spec dir hn rfl bs 0 (fun _ => 0) (Nat.zero_le _) rfl, hhits, listed,
      offsets_congr fun j hj => Bool.eq_iff_iff.2 (h j hj)]

/-- A disk whose only file is `a.a`, which is locked. -/
def lockedSmall : ℕ → Byte := fun i =>
  if i = 0x0e08 then 0x61 else if i = 0x0e0f then 0xe1 else if i = 0x0f05 then 8 else 0x20

/-- In the directory `a` the list gives what a search finds, which is the file: it is as it should be
there. -/
theorem listCalls_iff_lockedSmall :
    (∀ bs, listCalls 0x61 lockedSmall (fun _ => 0) bs
        = giveOut ((hitsFrom 0x23 (allOf 0x61) lockedSmall 1 0).map (record lockedSmall))
          (bs.map (leVal 4 5))) ∧
      hitsFrom 0x23 (allOf 0x61) lockedSmall 1 0 = [0] :=
  ⟨(listCalls_iff 0x61 lockedSmall (by decide)).2 (by decide), by decide⟩

/-- In the directory `A` a search finds it, and the list leaves it out. -/
theorem lockedSmall_leftOut :
    ¬ ∀ bs, listCalls 0x41 lockedSmall (fun _ => 0) bs
        = giveOut ((hitsFrom 0x23 (allOf 0x41) lockedSmall (entryCount lockedSmall) 0).map
            (record lockedSmall)) (bs.map (leVal 4 5)) := by
  intro h
  have hone := congrArg (List.map Prod.fst) (h [askFor 1])
  revert hone
  decide

end Udfs.Rom
