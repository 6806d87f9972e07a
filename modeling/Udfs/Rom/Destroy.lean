import Udfs.Rom.Search
import Udfs.Rom.Sharing

/-!
# Deleting many files

`*DESTROY` lists the files that its specification names, asks, and deletes those of them that
are not locked.  The entries are taken out of the catalogue while it is being searched: after a
deletion the search goes on from the entry before the one that has gone.
-/

namespace Udfs.Rom

/-! ## The command -/

/-- `$8271`. -/
def findFile : Routine ℕ := do
  match ← searchCat with
  | some y => pure y
  | none => Prog.fail .fileNotFound

/-- `$8727`: go on through the matches, of which those that are not locked are printed. -/
def listFrom : ℕ → Routine Unit
  | 0 => pure ()
  | k + 1 => do
      match ← searchNext with
      | none => pure ()
      | some _ => listFrom k

/-- `$81a1`: the catalogue must still have the cycle number it had. -/
def checkDisk : Routine Unit := do
  let s ← Prog.get
  loadCurDrvCat
  let t ← Prog.get
  if s.cat 0x0f04 = t.cat 0x0f04 then pure () else Prog.fail .diskChanged

/-- `$874e`: delete the match at `y` unless it is locked, and go on through the matches. -/
def destroyFrom : ℕ → ℕ → Routine Unit
  | 0, _ => pure ()
  | k + 1, y => do
      let s ← Prog.get
      Prog.when ((s.cat (0x0e0f + y)).toNat < 128) do
        deleteEntry y
        -- the search goes on with the entry that has moved down
        Prog.modify fun s => { s with catEntry := s.catEntry - 8 }
      match ← searchNext with
      | none => pure ()
      | some y => destroyFrom k y

/-- `cmd_destroy`, with the byte at `$10c8` and the answer to the question.  The search before the
loop goes through the catalogue that `$8271` has found a match in. -/
def cmdDestroy (w10c8 : Byte) (chars : List Byte) (confirmed : Bool) : Routine Unit := do
  if 128 ≤ w10c8.toNat then Prog.fail .notEnabled
  else do
    Prog.modify fun s => { s with wildcard := 0x23 }
    if chars = [] then Prog.fail .syntaxError
    else do
      readFsp chars
      let _ ← findFile
      listFrom 32
      if confirmed then do
        checkDisk
        match ← searchCat with
        | none => pure ()
        | some y => do
            destroyFrom 32 y
            saveCat
      else pure ()

/-! ## Sieving a list from an index on -/

section Sieve

variable {α : Type} (p : α → Bool) {l : List α} {i j : ℕ}

/-- The list with the elements from the `i`-th on that fail a test taken out. -/
def sieve (l : List α) (i : ℕ) : List α := l.take i ++ (l.drop i).filter p

lemma sieve_succ (hi : i < l.length) (hp : p l[i] = true) : sieve p l i = sieve p l (i + 1) := by
  rw [sieve, sieve, List.drop_eq_getElem_cons hi, List.filter_cons_of_pos hp,
    List.take_succ_eq_append_getElem hi, List.append_assoc]
  rfl

lemma sieve_of_le (hij : i ≤ j) (hj : j ≤ l.length)
    (hp : ∀ k (hk : k < l.length), i ≤ k → k < j → p l[k] = true) : sieve p l i = sieve p l j := by
  induction j, hij using Nat.le_induction with
  | base => rfl
  | succ j hij ih =>
      rw [ih (by omega) fun k hk h1 h2 => hp k hk h1 (by omega)]
      exact sieve_succ p (by omega) (hp j (by omega) hij (by omega))

lemma sieve_length : sieve p l l.length = l := by
  rw [sieve, List.take_length, List.drop_length, List.filter_nil, List.append_nil]

/-- Taking out an element that fails the test. -/
lemma sieve_eraseIdx (hj : j < l.length) (hp : p l[j] = false) :
    sieve p (l.eraseIdx j) j = sieve p l j := by
  have hlen : (l.take j).length = j := List.length_take_of_le hj.le
  have herase : l.eraseIdx j = l.take j ++ l.drop (j + 1) := List.eraseIdx_eq_take_drop_succ ..
  have htake : (l.take j ++ l.drop (j + 1)).take j = l.take j := List.take_left' hlen
  have hdrop : (l.take j ++ l.drop (j + 1)).drop j = l.drop (j + 1) := List.drop_left' hlen
  rw [herase, sieve, htake, hdrop, sieve, List.drop_eq_getElem_cons hj,
    List.filter_cons_of_neg (by rw [hp]; exact Bool.false_ne_true)]

end Sieve

/-! ## What the loop does -/

namespace State

/-- Some channel is open for a file of the given name on a drive. -/
def OpenOn (s : State) (d : Byte) (e : Fin 8 → Byte) : Prop :=
  ∃ p ∈ slots, s.Used p ∧ ((s.chan p.1).flags ^^^ d) &&& 3 = 0 ∧
    ∀ i, (e i ^^^ (s.chan p.1).name i) &&& 0x7f = 0

lemma isOpen_iff (s : State) (x : ℕ) : s.IsOpen x ↔ s.OpenOn s.curDrv (entryName s.cat x) := by
  simp only [IsOpen, OpenOn, Shares, sameFile, Bool.and_eq_true, decide_eq_true_iff]

lemma isLocked_iff (s : State) (x : ℕ) : s.IsLocked x ↔ (entryAt s.cat x).Locked := by
  have h7 : 0x0e08 + x + ((7 : Fin 8) : ℕ) = 0x0e0f + x := by simp; omega
  simp only [IsLocked, Entry.Locked, entryAt, entryName, h7]

/-- The second state differs from the first only in the catalogue buffer and in what a search and
the check for open files leave behind. -/
def Scanned (s s' : State) : Prop :=
  ∃ c e o b, s' = { s with cat := c, catEntry := e, chanOff := o, freeBit := b }

lemma Scanned.refl (s : State) : s.Scanned s := ⟨_, _, _, _, rfl⟩

lemma Scanned.trans {s t u : State} (h : s.Scanned t) (h' : t.Scanned u) : s.Scanned u := by
  obtain ⟨c, e, o, b, rfl⟩ := h
  obtain ⟨c', e', o', b', rfl⟩ := h'
  exact ⟨c', e', o', b', rfl⟩

/-- An entry stays if the pattern does not cover it or its file is locked. -/
def stays (s : State) (e : Entry) : Bool :=
  decide (CoversName s.wildcard s.filenameParam e.name → e.Locked)

/-- No file that the pattern covers is open. -/
def MatchesClosed (s : State) (n : ℕ) : Prop :=
  ∀ e ∈ entries s.cat n, CoversName s.wildcard s.filenameParam e.name → ¬ s.OpenOn s.curDrv e.name

end State

/-- A catalogue whose entries are those of another sieved from an index on. -/
structure SievedCat (p : Entry → Bool) (c : ℕ → Byte) (n i : ℕ) (c' : ℕ → Byte) : Prop where
  count : (c' 0x0f05).toNat = 8 * (sieve p (entries c n) i).length
  entries : entries c' (sieve p (entries c n) i).length = sieve p (entries c n) i
  header : ∀ a, InHeader a → c' a = c a

lemma SievedCat.of_sieve {p : Entry → Bool} {c d c' : ℕ → Byte} {n m i j : ℕ}
    (h : SievedCat p d m j c') (he : sieve p (Rom.entries d m) j = sieve p (Rom.entries c n) i)
    (hh : ∀ a, InHeader a → d a = c a) : SievedCat p c n i c' := by
  obtain ⟨hcount, hentries, hheader⟩ := h
  rw [he] at hcount hentries
  exact ⟨hcount, hentries, fun a ha => (hheader a ha).trans (hh a ha)⟩

/-- What the loop leaves from the `i`-th entry on. -/
def Destroyed (s : State) (n i : ℕ) (s' : State) : Prop :=
  s.Scanned s' ∧ SievedCat s.stays s.cat n i s'.cat

/-- The search after a match, and the loop from what it finds on. -/
lemma resume_spec {k : ℕ}
    (ih : ∀ (s : State) (n j : ℕ), s.count = 8 * n → n ≤ 31 → j < n → n - j ≤ k →
      s.catEntry.toNat = 8 * j → CoversName s.wildcard s.filenameParam (entryName s.cat (8 * j)) →
      s.MatchesClosed n →
      Prog.wp (destroyFrom k (8 * j)) (fun _ s' => Destroyed s n j s') (fun _ _ => False) s)
    (s : State) {n i : ℕ} (hcount : s.count = 8 * n) (hn : n ≤ 31) (hi : i ≤ n) (hk : n - i ≤ k)
    (hy : (s.catEntry + 8).toNat = 8 * i) (hopen : s.MatchesClosed n) :
    Prog.wp (do
        match ← searchNext with
        | none => pure ()
        | some y => destroyFrom k y)
      (fun _ s' => Destroyed s n i s') (fun _ _ => False) s := by
  have hlen : (entries s.cat n).length = n := entries_length s.cat n
  rw [Prog.wp_bind]
  rcases getCatNextentry2_hits hcount hn hy with ⟨o, l, hl, z, hz, hrun⟩ | ⟨hnil, hrun⟩
  · obtain ⟨j, hij, hj, rfl, -, hcov, hbefore⟩ := hitsFrom_cons _ i rfl hl
    rw [Prog.wp_of_ok ((searchNext_run s).trans hrun)]
    refine Prog.wp_mono (ih { s with catEntry := z } n j hcount hn hj (by omega) hz hcov hopen) ?_
      fun _ _ he => he
    rintro _ s' ⟨hscan, hsieved⟩
    refine ⟨State.Scanned.trans ⟨_, _, _, _, rfl⟩ hscan, ?_⟩
    -- the entries passed over stay
    have hsieve : sieve s.stays (entries s.cat n) i = sieve s.stays (entries s.cat n) j := by
      refine sieve_of_le _ hij (by omega) fun k hk h1 h2 => decide_eq_true fun hc => ?_
      rw [entries_getElem] at hc
      exact absurd hc (hbefore k h1 h2)
    exact hsieved.of_sieve hsieve.symm fun _ _ => rfl
  · rw [Prog.wp_of_ok ((searchNext_run s).trans hrun), Prog.wp_pure]
    have hsieve : sieve s.stays (entries s.cat n) i = entries s.cat n := by
      rw [sieve_of_le s.stays (hi.trans hlen.ge) le_rfl, sieve_length]
      intro k hk h1 h2
      refine decide_eq_true fun hc => ?_
      rw [entries_getElem] at hc
      have hmem := (List.filter_eq_nil_iff.1 hnil) (8 * k)
        (List.mem_map.2 ⟨k, List.mem_range'_1.2 ⟨h1, by omega⟩, rfl⟩)
      exact absurd (decide_eq_true hc) hmem
    refine ⟨State.Scanned.refl s, ?_, ?_, fun _ _ => rfl⟩
    · rw [hsieve, hlen]
      exact hcount
    · rw [hsieve, hlen]

/-- From a match on, the loop takes out the matches that are not locked. -/
lemma destroyFrom_spec (k : ℕ) : ∀ (s : State) (n j : ℕ), s.count = 8 * n → n ≤ 31 → j < n →
    n - j ≤ k → s.catEntry.toNat = 8 * j →
    CoversName s.wildcard s.filenameParam (entryName s.cat (8 * j)) → s.MatchesClosed n →
    Prog.wp (destroyFrom k (8 * j)) (fun _ s' => Destroyed s n j s') (fun _ _ => False) s := by
  induction k with
  | zero => intro s n j _ _ hj hk; omega
  | succ k ih =>
      intro s n j hcount hn hj hk hentry hcov hopen
      have hlen : j < (entries s.cat n).length := by rwa [entries_length]
      have hget := entries_getElem s.cat hlen
      have hlocked := s.isLocked_iff (8 * j)
      simp only [destroyFrom, Prog.wp_bind, Prog.wp_get, Prog.wp_when, Prog.wp_modify]
      constructor
      · intro hlt
        have hnot : ¬ s.IsLocked (8 * j) := Nat.not_le.2 hlt
        refine Prog.wp_mono (deleteEntry_spec s (i := j) hcount) ?_ ?_
        · rintro _ s' ⟨q, rfl⟩
          have hfail : s.stays (entries s.cat n)[j] = false := by
            rw [hget]
            exact decide_eq_false fun h => hnot (hlocked.2 (h hcov))
          have hcat := entries_deletedCat s.cat hn hj
          set t : State := { s.noting q with cat := deletedCat s.cat n j, catEntry := s.catEntry - 8 }
          have hy : (t.catEntry + 8).toNat = 8 * j := by rw [← hentry, BitVec.sub_add_cancel]
          have hclosed : t.MatchesClosed (n - 1) := by
            intro e he hc
            rw [show entries t.cat (n - 1) = _ from hcat] at he
            exact hopen e (List.mem_of_mem_eraseIdx he) hc
          refine (Prog.wp_bind _ _).1 (Prog.wp_mono (resume_spec ih t
            (deletedCat_count s.cat hn hj hcount) (by omega) (by omega) (by omega) hy hclosed) ?_
            fun _ _ he => he)
          rintro _ s' ⟨hscan, hsieved⟩
          refine ⟨State.Scanned.trans ⟨_, _, _, _, rfl⟩ hscan, ?_⟩
          refine hsieved.of_sieve ?_ fun a ha => deletedCat_header s.cat hn hj ha
          rw [show entries t.cat (n - 1) = _ from hcat]
          exact sieve_eraseIdx _ hlen hfail
        · rintro e s' ⟨-, ⟨hl, -⟩ | ⟨-, ho, -⟩⟩
          · exact hnot hl
          · exact hopen _ (mem_entries hj) hcov ((s.isOpen_iff _).1 ho)
      · intro hle
        have hstay : s.stays (entries s.cat n)[j] = true := by
          rw [hget]
          exact decide_eq_true fun _ => hlocked.1 (Nat.not_lt.1 hle)
        have hy : (s.catEntry + 8).toNat = 8 * (j + 1) := by
          rw [toNat_add_eight hentry (by omega)]
          ring
        refine (Prog.wp_bind _ _).1 (Prog.wp_mono (resume_spec ih s hcount hn (by omega) (by omega)
          hy hopen) ?_ fun _ _ he => he)
        rintro _ s' ⟨hscan, hsieved⟩
        exact ⟨hscan, hsieved.of_sieve (sieve_succ _ hlen hstay).symm fun _ _ => rfl⟩

/-! ## The whole command -/

lemma findFile_spec (s : State) :
    Prog.wp findFile
      (fun y s' => ∃ z, s.found = some z ∧ y = z.toNat ∧ s' = s.searched ∧ s.HasDisk s.curDrv)
      (fun e s' => (s' = s.searched ∧ s.found = none ∧ e = .fileNotFound) ∨
        (s' = s ∧ ¬ s.HasDisk s.curDrv ∧ e = .noDisk)) s := by
  rw [findFile, Prog.wp_bind]
  by_cases hdisk : s.HasDisk s.curDrv
  · rw [Prog.wp_of_ok (searchCat_run hdisk)]
    rcases hfound : s.found with _ | z
    · exact Or.inl ⟨rfl, rfl, rfl⟩
    · exact ⟨z, rfl, rfl, rfl, hdisk⟩
  · rw [Prog.wp_of_err (searchCat_noDisk hdisk)]
    exact Or.inr ⟨rfl, hdisk, rfl⟩

/-- Listing leaves no more behind than the place of the last match. -/
lemma listFrom_spec (k : ℕ) : ∀ s : State,
    Prog.wp (listFrom k) (fun _ s' => ∃ e, s' = { s with catEntry := e }) (fun _ _ => False) s := by
  induction k with
  | zero => intro s; exact ⟨s.catEntry, rfl⟩
  | succ k ih =>
      intro s
      rw [listFrom, Prog.wp_bind, Prog.wp, searchNext_run, getCatNextentry2_run]
      cases nextEntry s.wildcard s.filenameParam s.cat 32 s.catEntry with
      | none => exact ⟨s.catEntry, rfl⟩
      | some z =>
          refine Prog.wp_mono (ih { s with catEntry := z }) ?_ fun _ _ he => he
          rintro _ s' ⟨e, rfl⟩
          exact ⟨e, rfl⟩

lemma checkDisk_run {s : State} (hdisk : s.HasDisk s.curDrv)
    (h : s.cat 0x0f04 = s.catOf s.curDrv 0x0f04) : checkDisk.run s = .ok () s.catLoaded := by
  rw [checkDisk, Prog.run_bind_ok (Prog.run_get s), Prog.run_bind_ok (loadCurDrvCat_run hdisk),
    Prog.run_bind_ok (Prog.run_get _)]
  exact congrFun (if_pos h) _

lemma sieve_zero {α : Type} (p : α → Bool) (l : List α) : sieve p l 0 = l.filter p := rfl

/-- The catalogue that `*DESTROY` should save: the old one without the matches that are not locked,
the count and the cycle number to suit, the other bytes of the header as they were. -/
structure DestroyedCat (f : Fin 8 → Byte) (c : ℕ → Byte) (n : ℕ) (c' : ℕ → Byte) : Prop where
  entries : ∃ l, l = (entries c n).filter (fun e => decide (CoversName 0x23 f e.name → e.Locked)) ∧
    (c' 0x0f05).toNat = 8 * l.length ∧ entries c' l.length = l
  cycle : c' 0x0f04 = bcdInc (c 0x0f04)
  header : ∀ a, InHeader a → a ≠ 0x0f04 → c' a = c a

/-- Sieving from the first match on is sieving the whole list. -/
lemma destroyedCat_of_sieved {f : Fin 8 → Byte} {c c' : ℕ → Byte} {n i : ℕ} (hn : n ≤ 31)
    (hmatch : FirstMatch 0x23 f c n i)
    (h : SievedCat (fun e => decide (CoversName 0x23 f e.name → e.Locked)) c n i c') :
    DestroyedCat f c n (cycledCat c') := by
  set p : Entry → Bool := fun e => decide (CoversName 0x23 f e.name → e.Locked)
  have hsieve : sieve p (entries c n) i = (entries c n).filter p := by
    rw [← sieve_zero, sieve_of_le p (Nat.zero_le i) (by rw [entries_length]; exact hmatch.lt.le)]
    intro k hk _ h2
    refine decide_eq_true fun hc => absurd ?_ (hmatch.before k h2)
    rwa [entries_getElem] at hc
  obtain ⟨hcount, hentries, hheader⟩ := h
  rw [hsieve] at hcount hentries
  have hlen : ((entries c n).filter p).length ≤ 31 := by
    have := List.length_filter_le p (entries c n)
    rw [entries_length] at this
    exact this.trans hn
  refine ⟨⟨_, rfl, ?_, ?_⟩, ?_, fun a ha hne => ?_⟩
  · rw [cycledCat_of_ne _ (by decide)]
    exact hcount
  · rw [cycledCat, entries_update _ _ hlen (by decide) (by decide)]
    exact hentries
  · rw [cycledCat, Function.update_self, hheader _ ⟨by decide, Or.inr (by decide)⟩]
  · rw [cycledCat_of_ne _ hne]
    exact hheader a ha

/-- **`*DESTROY` removes exactly the unlocked matches.**  For every catalogue of at most 31 entries
and every specification, if no file that it names is open and the user confirms, the catalogue
saved behind the drive is the old one without the matches that are not locked, in the old order.
When the command leaves with an error nothing is saved, and the error tells why: the command is
not enabled, no or a bad specification is given, there is no disk, no file has the name, or the
drive may not be written. -/
theorem cmdDestroy_removes (s : State) (w10c8 : Byte) (chars : List Byte) (n : ℕ) (hn : n ≤ 31)
    (hcount : (s.catOf (s.fsp chars).1.drv 0x0f05).toNat = 8 * n)
    (hopen : ∀ e ∈ entries (s.catOf (s.fsp chars).1.drv) n,
      CoversName 0x23 (s.fsp chars).1.name e.name → ¬ s.OpenOn (s.fsp chars).1.drv e.name) :
    Prog.wp (cmdDestroy w10c8 chars true)
      (fun _ s' => ∃ c', DestroyedCat (s.fsp chars).1.name (s.catOf (s.fsp chars).1.drv) n c' ∧
        s'.catNo = s.catNo ∧ s'.cats = Function.update s.cats (s.catNo (s.fsp chars).1.drv) c')
      (fun e s' => s'.cats = s.cats ∧
        ((128 ≤ w10c8.toNat ∧ e = .notEnabled) ∨ (chars = [] ∧ e = .syntaxError) ∨
          (s.fsp chars).2 = some e ∨ (¬ s.HasDisk (s.fsp chars).1.drv ∧ e = .noDisk) ∨
          ((∀ e' ∈ entries (s.catOf (s.fsp chars).1.drv) n,
            ¬ CoversName 0x23 (s.fsp chars).1.name e'.name) ∧ e = .fileNotFound) ∨
          (¬ s.CanWrite (s.fsp chars).1.drv ∧ e.Refusal))) s := by
  simp only [cmdDestroy, Prog.wp_bind, Prog.wp_modify, Prog.wp_ite, Prog.wp_fail]
  refine ⟨fun h => ⟨trivial, Or.inl ⟨h, trivial⟩⟩, fun _ => ⟨fun h => ⟨trivial, Or.inr (Or.inl ⟨h, trivial⟩)⟩,
    fun _ => ?_⟩⟩
  have hle : entryCount (s.catOf (s.fsp chars).1.drv) = n := entryCount_of_eq hcount
  have hfirst := nextEntry_first (w := 0x23) (f := (s.fsp chars).1.name)
    (c := s.catOf (s.fsp chars).1.drv) (by omega)
  rw [hle] at hfirst
  refine Prog.wp_mono (readFsp_spec chars _) ?_ ?_
  swap
  · rintro e s' ⟨rfl, he⟩
    exact ⟨rfl, Or.inr (Or.inr (Or.inl he))⟩
  rintro _ t ⟨rfl, -⟩
  set t : State := ({ s with wildcard := 0x23 } : State).withFsp (s.fsp chars).1 with ht
  refine Prog.wp_mono (findFile_spec t) ?_ ?_
  swap
  · rintro e s' (⟨rfl, hnone, rfl⟩ | ⟨rfl, hdisk, rfl⟩)
    · refine ⟨rfl, Or.inr (Or.inr (Or.inr (Or.inr (Or.inl ⟨fun e he => ?_, rfl⟩))))⟩
      obtain ⟨j, hj, rfl⟩ := List.mem_map.1 he
      rcases hfirst with ⟨i, z, hz, -, -⟩ | ⟨-, hall⟩
      · cases hnone.symm.trans hz
      · exact hall j (List.mem_range.1 hj)
    · exact ⟨rfl, Or.inr (Or.inr (Or.inr (Or.inl ⟨hdisk, rfl⟩)))⟩
  rintro y u ⟨z, hz, rfl, rfl, hdisk⟩
  refine Prog.wp_mono (listFrom_spec 32 _) ?_ fun _ _ he => he.elim
  rintro _ u ⟨e, rfl⟩
  obtain ⟨i, z', hz', hzi, hmatch⟩ := hfirst.resolve_right fun h => by cases h.1.symm.trans hz
  obtain rfl : z' = z := Option.some.inj (hz'.symm.trans hz)
  refine ⟨fun _ => ?_, fun h => absurd trivial h⟩
  set v : State := { t.searched with catEntry := e }
  rw [Prog.wp_of_ok (checkDisk_run (s := v) hdisk rfl),
    Prog.wp_of_ok (searchCat_run (s := v.catLoaded) hdisk), show v.catLoaded.found = some z' from hz]
  simp only [Option.map_some, Prog.wp_bind]
  set w := v.catLoaded.searched
  have hentry : w.catEntry.toNat = 8 * i := by
    rw [← hzi]
    exact congrArg (fun o => (Option.getD o v.catEntry).toNat) hz
  rw [hzi]
  refine Prog.wp_mono (destroyFrom_spec 32 w n i hcount hn hmatch.lt (by omega) hentry hmatch.covers
    hopen) ?_ fun _ _ he => he.elim
  rintro _ s' ⟨⟨c, e', o, b, rfl⟩, hsieved⟩
  refine Prog.wp_mono (saveCat_spec _) ?_ ?_
  · rintro _ s'' ⟨rfl, -⟩
    exact ⟨_, destroyedCat_of_sieved hn hmatch hsieved, rfl, rfl⟩
  · rintro e s'' ⟨hej, hw, href⟩
    refine ⟨?_, Or.inr (Or.inr (Or.inr (Or.inr (Or.inr ⟨hw, href⟩))))⟩
    obtain rfl | ⟨x, -, rfl⟩ := hej <;> rfl

/-- A writable disk with the files `$.A` and, locked, `$.B`. -/
def lockedAndNot : State :=
  { stateWithDisk 0 0 with
    diskMark := fun _ => 0x54
    defDir := 0x24
    cats := fun _ a =>
      if a = 0x0f05 then 16
      else if a = 0x0e08 then 0x41
      else if a = 0x0e0f then 0x24
      else if a = 0x0e10 then 0x42
      else if a = 0x0e17 then 0xa4
      else 0x20 }

/-- `*DESTROY *` takes out the first of them. -/
theorem destroyAll_removes : ∃ s', (cmdDestroy 0 [0x2a] true).run lockedAndNot = .ok () s' ∧
    ∃ c', DestroyedCat (lockedAndNot.fsp [0x2a]).1.name (lockedAndNot.catOf 0) 2 c' ∧
      s'.catNo = lockedAndNot.catNo ∧
      s'.cats = Function.update lockedAndNot.cats (lockedAndNot.catNo 0) c' := by
  have h := cmdDestroy_removes lockedAndNot 0 [0x2a] 2 (by decide) rfl ?_
  · exact ⟨_, rfl, h⟩
  · rintro e - - ⟨p, -, hused, -⟩
    exact hused (BitVec.zero_and)

end Udfs.Rom
