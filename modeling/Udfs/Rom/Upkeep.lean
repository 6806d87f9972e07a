import Udfs.Rom.Holding

/-!
# The entries of open files

Whatever edits the catalogue edits the copy in the buffer first: a creation puts an entry in, a
deletion takes one out, `*RENAME` gives one another name and `*ACCESS` another attribute.  Each of
them leaves the entries of open files in the buffer, so that saving it leaves them on the disk.
-/

namespace Udfs.Rom

/-! ## The commands -/

/-- `cmd_delete`. -/
def cmdDelete (chars : List Byte) : Routine Unit := do
  Prog.modify fun s => { s with wildcard := 0xff }
  if chars = [] then Prog.fail .syntaxError
  else do
    readFsp chars
    let y ← findFile
    deleteEntry y
    saveCat

/-- `$86cc`: ask about the match at `y` unless it is locked, and go on through the matches.  Escape
ends the answers. -/
def wipeFrom : ℕ → List Bool → ℕ → Routine Unit
  | 0, _, _ => pure ()
  | k + 1, l, y => do
      let s ← Prog.get
      if 128 ≤ (s.cat (0x0e0f + y)).toNat then
        match ← searchNext with
        | none => pure ()
        | some y => wipeFrom k l y
      else
        match l with
        | [] => pure ()
        | yes :: l => do
            Prog.when (yes = true) do
              checkDisk
              deleteEntry y
              saveCat
              Prog.modify fun s => { s with catEntry := s.catEntry - 8 }
            match ← searchNext with
            | none => pure ()
            | some y => wipeFrom k l y

/-- `cmd_wipe`, with the answers to its questions. -/
def cmdWipe (chars : List Byte) (answers : List Bool) : Routine Unit := do
  Prog.modify fun s => { s with wildcard := 0x23 }
  if chars = [] then Prog.fail .syntaxError
  else do
    readFsp chars
    let y ← findFile
    wipeFrom 32 answers y

/-- `$8905`: the attribute that the letters stand for. -/
def accessAttr : List Byte → Byte → Option Byte
  | [], aa => some aa
  | a :: l, _ => if a = 0x4c then accessAttr l 0x80 else none

/-- `file_found`: put the attribute into the entry at `y` and into the matches behind it. -/
def accessFrom (aa : Byte) : ℕ → ℕ → Routine Unit
  | 0, _ => pure ()
  | k + 1, y => do
      checkOpen y
      Prog.modify fun s =>
        { s with cat := Function.update s.cat (0x0e0f + y) ((s.cat (0x0e0f + y) &&& 0x7f) ||| aa) }
      match ← searchNext with
      | none => pure ()
      | some y => accessFrom aa k y

/-- `cmd_access`. -/
def cmdAccess (chars attrs : List Byte) : Routine Unit := do
  Prog.modify fun s => { s with wildcard := 0x23 }
  if chars = [] then Prog.fail .syntaxError
  else do
    readFsp chars
    match accessAttr attrs 0 with
    | none => Prog.fail .badAttribute
    | some aa => do
        match ← searchCat with
        | none => Prog.fail .fileNotFound
        | some y => do
            accessFrom aa 32 y
            saveCat

/-! ## The catalogue in the buffer -/

/-- The buffer has a catalogue of drive `d`, the current drive, in which the channels in use have
their entries, as they have on the disk. -/
structure Buffered (d : Byte) (n : ℕ) (s : State) : Prop where
  held : Held d s
  drv : s.curDrv = d
  linked : Linked s d n s.cat

section Links

variable {d : Byte} {n i : ℕ} {s s' : State} {c c' : ℕ → Byte}

lemma Linked.of_sameChans (h : Linked s d n c) (hs : SameChans s s') : Linked s' d n c where
  le := h.le
  count := h.count
  drv p hp hu := by
    rw [hs.2]
    exact h.drv p hp ((hs.used p).1 hu)
  entry p hp hu := by
    rw [hs.2]
    exact h.entry p hp ((hs.used p).1 hu)

lemma Held.of_sameChans (h : Held d s) (hs : SameChans s s') (hcat : s'.catOf d = s.catOf d) :
    Held d s' := by
  obtain ⟨n, hl⟩ := h.linked
  refine ⟨⟨by rw [hs.1]; exact h.table.bits, fun p hp hu => ?_⟩, n, hcat ▸ hl.of_sameChans hs⟩
  rw [hs.2]
  exact h.table.bit p hp ((hs.used p).1 hu)

/-- The `i`-th entry of the catalogue is of no file that is open. -/
def Unheld (s : State) (c : ℕ → Byte) (i : ℕ) : Prop :=
  ∀ p ∈ slots, s.Used p → ¬ (s.chan p.1).NamedBy (entryAt c (8 * i))

lemma Linked.delete (h : Linked s d n c) (hi : i < n) (hun : Unheld s c i) :
    Linked s d (n - 1) (deletedCat c n i) where
  le := by have := h.le; omega
  count := deletedCat_count c h.le hi h.count
  drv := h.drv
  entry p hp hu := by
    obtain ⟨e, he, hnamed⟩ := h.entry p hp hu
    refine ⟨e, ?_, hnamed⟩
    rw [entries_deletedCat c h.le hi]
    obtain ⟨j, hj, rfl⟩ := List.mem_iff_getElem.1 he
    refine List.mem_eraseIdx_iff_getElem.2 ⟨j, hj, ?_, rfl⟩
    rintro rfl
    rw [entries_getElem] at hnamed
    exact hun p hp hu hnamed

lemma Linked.insert (h : Linked s d n c) (hn : n ≤ 30) (hi : i ≤ n) {e : Entry}
    (hcount : (c' 0x0f05).toNat = 8 * (n + 1)) (hentries : entries c' (n + 1) = (entries c n).insertIdx i e) :
    Linked s d (n + 1) c' where
  le := by omega
  count := hcount
  drv := h.drv
  entry p hp hu := by
    obtain ⟨e', he, hnamed⟩ := h.entry p hp hu
    refine ⟨e', ?_, hnamed⟩
    rw [hentries, List.mem_insertIdx (by simpa using hi)]
    exact Or.inr he

/-- Another name for an entry of no open file. -/
lemma Linked.rename (h : Linked s d n c) (hi : i < n) (hun : Unheld s c i)
    (hcount : c' 0x0f05 = c 0x0f05) (hother : ∀ j < n, j ≠ i → entryAt c' (8 * j) = entryAt c (8 * j)) :
    Linked s d n c' where
  le := h.le
  count := by
    rw [hcount]
    exact h.count
  drv := h.drv
  entry p hp hu := by
    obtain ⟨e, he, hnamed⟩ := h.entry p hp hu
    refine ⟨e, ?_, hnamed⟩
    obtain ⟨j, hj, rfl⟩ := List.mem_map.1 he
    have hne : j ≠ i := by
      rintro rfl
      exact hun p hp hu hnamed
    exact List.mem_map.2 ⟨j, hj, hother j (List.mem_range.1 hj) hne⟩

/-- The check for open files sees to it. -/
lemma Buffered.unheld (h : Buffered d n s) (hopen : ¬ s.IsOpen (8 * i)) : Unheld s s.cat i := by
  have hthree : ∀ f : Byte, (f &&& 3) &&& 3 = f &&& 3 := by decide
  rintro p hp hu ⟨hname, -⟩
  refine hopen ⟨p, hp, hu, ?_⟩
  rw [State.sameFile, Bool.and_eq_true, decide_eq_true_iff, decide_eq_true_iff]
  refine ⟨?_, fun j => ?_⟩
  · have hdrv := h.linked.drv p hp hu
    rw [xor_and_eq_zero, h.drv, ← hdrv, Chan.drv]
    exact (hthree _).symm
  · rw [xor_and_eq_zero]
    exact hname j

/-- Nothing has changed that an entry is found by. -/
lemma Linked.of_starts (h : Linked s d n c) (hc : StartsKept c c') : Linked s d n c' where
  le := h.le
  count := (congrArg BitVec.toNat hc.count).trans h.count
  drv := h.drv
  entry p hp hu := by
    obtain ⟨e, he, hname, hstart⟩ := h.entry p hp hu
    obtain ⟨j, hj, rfl⟩ := List.mem_map.1 he
    have hlt := List.mem_range.1 hj
    have hle := h.le
    refine ⟨entryAt c' (8 * j), mem_entries hlt, fun k => ?_, (hc.start_eq j).trans hstart⟩
    exact (hc.entryName_eq (by omega) k).trans (hname k)

lemma Buffered.of_same (h : Buffered d n s) (hs : SameChans s s') (hcat : s'.catOf d = s.catOf d)
    (hdrv : s'.curDrv = s.curDrv) (hl : Linked s d n s'.cat) : Buffered d n s' :=
  ⟨h.held.of_sameChans hs hcat, hdrv.trans h.drv, hl.of_sameChans hs⟩

/-- The buffer has the catalogue as it is on the disk. -/
structure Current (d : Byte) (n : ℕ) (s : State) : Prop extends Buffered d n s where
  cat : s.cat = s.catOf d

lemma Buffered.catEntry (h : Buffered d n s) (z : Byte) : Buffered d n { s with catEntry := z } :=
  ⟨h.held.of_sameChans ⟨rfl, rfl⟩ rfl, h.drv, h.linked.of_sameChans ⟨rfl, rfl⟩⟩

lemma Current.catEntry (h : Current d n s) (z : Byte) : Current d n { s with catEntry := z } :=
  ⟨h.toBuffered.catEntry z, h.cat⟩

/-- The catalogue in the buffer becomes the one on the disk, or nothing happens. -/
lemma saveCat_current (h : Buffered d n s) :
    Prog.wp saveCat (fun _ s' => Current d n s' ∧ s' = s.cycled.catSaved) (fun _ => Held d) s := by
  refine Prog.wp_mono (saveCat_spec s) ?_ ?_
  · rintro _ s' ⟨rfl, -⟩
    have hcat : s.cycled.catSaved.catOf d = cycledCat s.cat := State.catSaved_catOf h.drv
    have hlinked : Linked s.cycled.catSaved d n (cycledCat s.cat) :=
      (h.linked.of_starts (StartsKept.refl _).cycled).of_sameChans ⟨rfl, rfl⟩
    have hbits : TableOk s.cycled.catSaved := ⟨h.held.table.bits, h.held.table.bit⟩
    exact ⟨⟨⟨⟨hbits, n, hcat ▸ hlinked⟩, h.drv, hlinked⟩, hcat.symm⟩, rfl⟩
  · rintro e s' ⟨hej, -⟩
    obtain rfl | ⟨x, -, rfl⟩ := hej <;> exact h.held.of_sameChans ⟨rfl, rfl⟩ rfl

/-- The catalogue is loaded. -/
lemma Linked.catLoaded (h : Held d s) (hd : s.curDrv = d) (hl : Linked s d n (s.catOf d)) :
    Current d n s.catLoaded := by
  have hcat : s.catLoaded.cat = s.catOf d := congrArg s.catOf hd
  refine ⟨⟨h.of_sameChans ⟨rfl, rfl⟩ rfl, hd, ?_⟩, hcat⟩
  rw [hcat]
  exact hl.of_sameChans ⟨rfl, rfl⟩

lemma Current.catLoaded (h : Current d n s) : Current d n s.catLoaded := by
  refine Linked.catLoaded h.held h.drv ?_
  rw [← h.cat]
  exact h.linked

/-- A search loads the catalogue and stops at an entry, if at all. -/
lemma searchCat_current (h : Held d s) (hd : s.curDrv = d) :
    Prog.wp searchCat
      (fun r s' => ∃ n, Current d n s' ∧ s' = s.searched ∧
        ∀ x, r = some x → ∃ i : ℕ, i < n ∧ x = 8 * i ∧ s'.catEntry.toNat = 8 * i)
      (fun _ => Held d) s := by
  refine Prog.wp_mono (searchCat_spec s) ?_ ?_
  · rintro r s' ⟨rfl, rfl, -⟩
    obtain ⟨n, hl⟩ := h.linked
    refine ⟨n, (hl.catLoaded h hd).catEntry _, rfl, fun x hx => ?_⟩
    obtain ⟨z, hz, rfl⟩ := Option.map_eq_some_iff.1 hx
    have hcount : (s.catOf s.curDrv 0x0f05).toNat = 8 * n := by
      rw [hd]
      exact hl.count
    obtain ⟨i, hi, hzi⟩ := State.found_entry hl.le hcount hz
    refine ⟨i, hi, hzi, ?_⟩
    rw [State.searched, hz]
    exact hzi
  · rintro e s' ⟨rfl, -⟩
    exact h

/-- The catalogue is read again, and must have the cycle number it had. -/
lemma checkDisk_spec (s : State) :
    Prog.wp checkDisk (fun _ t => t = s.catLoaded) (fun _ t => t = s ∨ t = s.catLoaded) s := by
  simp only [checkDisk, Prog.wp_bind, Prog.wp_get]
  refine Prog.wp_mono (loadCurDrvCat_spec s) ?_ fun _ _ he => Or.inl he.1
  rintro _ t ⟨rfl, -⟩
  rw [Prog.wp_ite]
  exact ⟨fun _ => rfl, fun _ => Or.inr rfl⟩

/-! ## Taking out and putting in -/

lemma deleteEntry_buffered (h : Buffered d n s) (hi : i < n) :
    Prog.wp (deleteEntry (8 * i))
      (fun _ s' => Buffered d (n - 1) s' ∧ ∃ p, s' = { s.noting p with cat := deletedCat s.cat n i })
      (fun _ => Held d) s := by
  simp only [deleteEntry, Prog.wp_bind, Prog.wp_modify]
  refine Prog.wp_mono (checkLockedOpen_spec (8 * i) s) ?_ ?_
  · rintro _ s' ⟨⟨p, rfl⟩, -, hopen⟩
    have hc : (s.noting p).count = 8 * n := h.linked.count
    rw [hc]
    have hl := h.linked.delete hi (h.unheld hopen)
    exact ⟨⟨h.held.of_sameChans ⟨rfl, rfl⟩ rfl, h.drv, hl.of_sameChans ⟨rfl, rfl⟩⟩, p, rfl⟩
  · rintro e s' ⟨⟨p, rfl⟩, -⟩
    exact h.held.of_sameChans ⟨rfl, rfl⟩ rfl

lemma writeNewEntry_current (f : FileBlock) (len : Num24) (c4 c5 : Byte) (h : Buffered d n s)
    (hn : n ≤ 30) (hi : i ≤ n) :
    Prog.wp (writeNewEntry f len (8 * i) c4 c5)
      (fun x s' => Current d (n + 1) s' ∧ x = 8 * i) (fun _ => Held d)
      { s with cat := shiftUp s.cat (8 * n - 8 * i) (8 * n) } := by
  have hcount : s.count = 8 * n := h.linked.count
  have hplaced := placed_cycled s (newEntry s f len c4 c5) hn hi hcount
  set t := s.placed n i (newEntry s f len c4 c5) with ht
  have hcyc : ∀ a, a ≠ 0x0f04 → t.cycled.cat a = t.cat a := fun a ha => Function.update_of_ne ha ..
  have hentries : entries t.cat (n + 1) = (entries s.cat n).insertIdx i (newEntry s f len c4 c5) := by
    rw [← hplaced.entries]
    exact (entries_update t.cat _ (by omega) (by decide) (by decide)).symm
  have hl : Linked s d (n + 1) t.cat :=
    h.linked.insert hn hi ((congrArg BitVec.toNat (hcyc _ (by decide))).symm.trans hplaced.count) hentries
  simp only [writeNewEntry, Prog.wp_bind, Prog.wp_modify, Prog.wp_pure]
  have hput : Buffered d (n + 1) t :=
    ⟨h.held.of_sameChans ⟨rfl, rfl⟩ rfl, h.drv, hl.of_sameChans ⟨rfl, rfl⟩⟩
  refine Prog.wp_mono (saveCat_current hput) ?_ fun _ _ he => he
  rintro _ s' ⟨hr, -⟩
  exact ⟨hr, trivial⟩

/-- The place found is one of those between the entries. -/
lemma findGap_offset {len : Num24} {k : ℕ} {r : ℕ × Byte × Byte} : ∀ {i : ℕ} {c4 c5 : Byte},
    findGap c len k (8 * i) c4 c5 = some r → ∃ j ≤ i, r.1 = 8 * j := by
  induction k with
  | zero => intro i c4 c5 h; cases h
  | succ k ih =>
      intro i c4 c5 h
      rw [findGap] at h
      split_ifs at h with hfit h0
      · cases h
        exact ⟨i, le_rfl, rfl⟩
      · have hsub : 8 * i - 8 = 8 * (i - 1) := by omega
        rw [hsub] at h
        obtain ⟨j, hj, hr⟩ := ih h
        exact ⟨j, by omega, hr⟩

/-- A new entry, wherever it goes. -/
lemma addEntry_current (f : FileBlock) (len : Num24) (h : Buffered d n s) :
    Prog.wp (addEntry f len) (fun x s' => ∃ m i : ℕ, Current d m s' ∧ i < m ∧ x = 8 * i) (fun _ => Held d) s := by
  have hcount : s.count = 8 * n := h.linked.count
  rw [addEntry, Prog.wp_bind, Prog.wp_get]
  simp only [hcount]
  split_ifs with h0 hfull
  · obtain rfl : n = 0 := by omega
    have hput := writeNewEntry_current (i := 0) f len 0 2 h (Nat.zero_le 30) le_rfl
    rw [Nat.mul_zero, Nat.sub_zero, shiftUp] at hput
    refine Prog.wp_mono hput ?_ fun _ _ he => he
    rintro x s' ⟨hr, rfl⟩
    exact ⟨1, 0, hr, Nat.one_pos, rfl⟩
  · exact h.held
  · rcases hgap : findGap s.cat len 32 (8 * n) 0 2 with _ | ⟨y, c4, c5⟩
    · exact h.held
    · obtain ⟨i, hi, rfl⟩ := findGap_offset hgap
      simp only [Prog.wp_bind, Prog.wp_modify, hcount]
      refine Prog.wp_mono (writeNewEntry_current f len c4 c5 h (by omega) hi) ?_ fun _ _ he => he
      rintro x s' ⟨hr, rfl⟩
      exact ⟨_, i, hr, by omega, rfl⟩

/-! ## Creating and opening -/

lemma readFsp_held (chars : List Byte) (h : Held d s) (hd : (s.fsp chars).1.drv = d) :
    Prog.wp (readFsp chars)
      (fun _ s' => s' = s.withFsp (s.fsp chars).1 ∧ Held d s' ∧ s'.curDrv = d) (fun _ => Held d) s := by
  refine Prog.wp_mono (readFsp_spec chars s) ?_ ?_
  · rintro _ s' ⟨rfl, -⟩
    exact ⟨rfl, h.of_sameChans ⟨rfl, rfl⟩ rfl, hd⟩
  · rintro e s' ⟨rfl, -⟩
    exact h.of_sameChans ⟨rfl, rfl⟩ rfl

lemma createFile_current (chars : List Byte) (f : FileBlock) (h : Held d s)
    (hd : (s.fsp chars).1.drv = d) :
    Prog.wp (createFile chars f) (fun x s' => ∃ m i : ℕ, Current d m s' ∧ i < m ∧ x = 8 * i)
      (fun _ => Held d) s := by
  rw [createFile, Prog.wp_bind]
  refine Prog.wp_mono (readFsp_held chars h hd) ?_ fun _ _ he => he
  rintro _ t ⟨-, ht, htd⟩
  rw [Prog.wp_bind]
  refine Prog.wp_mono (searchCat_current ht htd) ?_ fun _ _ he => he
  rintro r u ⟨n, hu, -, hr⟩
  rcases r with _ | x
  · exact addEntry_current f f.length hu.toBuffered
  · obtain ⟨i, hi, rfl, -⟩ := hr x rfl
    simp only [Prog.wp_bind]
    refine Prog.wp_mono (deleteEntry_buffered hu.toBuffered hi) ?_ fun _ _ he => he
    rintro _ v ⟨hv, -⟩
    exact addEntry_current f f.length hv

lemma locate_current (a : Byte) (chars : List Byte) (h : Held d s) (hd : (s.fsp chars).1.drv = d) :
    Prog.wp (locate a chars)
      (fun r s' => Held d s' ∧ ∀ x, r = some x → ∃ m i : ℕ, Current d m s' ∧ i < m ∧ x = 8 * i)
      (fun _ => Held d) s := by
  rw [locate, Prog.wp_bind]
  refine Prog.wp_mono (readFsp_held chars h hd) ?_ fun _ _ he => he
  rintro _ t ⟨rfl, ht, htd⟩
  rw [Prog.wp_bind]
  refine Prog.wp_mono (searchCat_current ht htd) ?_ fun _ _ he => he
  rintro r u ⟨n, hu, hsearched, hr⟩
  rcases r with _ | x
  · simp only [Prog.wp_ite, Prog.wp_bind, Prog.wp_pure]
    refine ⟨fun _ => ⟨hu.held, fun x hx => by cases hx⟩, fun _ => ?_⟩
    have hdrv : (u.fsp chars).1.drv = d := by
      rw [hsearched]
      exact hd
    refine Prog.wp_mono (createFile_current chars findBlock hu.held hdrv) ?_ fun _ _ he => he
    rintro y v ⟨m, i, hv, hi, rfl⟩
    exact ⟨hv.held, fun x hx => ⟨m, i, hv, hi, (Option.some.inj hx).symm⟩⟩
  · obtain ⟨i, hi, rfl, -⟩ := hr x rfl
    exact ⟨hu.held, fun x hx => ⟨n, i, hu, hi, (Option.some.inj hx).symm⟩⟩

/-- The channel that is opened is for the entry it is opened on. -/
lemma Current.opened (h : Current d n s) (hi : i < n) (hd : d &&& 3 = d) (a : Byte) {p : Byte × Byte}
    (hp : p ∈ slots) : Held d (s.opened a (8 * i) p) where
  table := h.held.table.opened a (8 * i) hp
  linked := by
    have hself := opened_chan_self s a (8 * i) p
    have hdrv : ((s.opened a (8 * i) p).chan p.1).drv = d := by
      rw [hself, newChan_drv, h.drv, hd]
    have hnamed : ((s.opened a (8 * i) p).chan p.1).NamedBy (entryAt s.cat (8 * i)) := by
      rw [hself]
      exact ⟨fun j => (newChan_name ..).symm, rfl⟩
    have hold : ∀ q ∈ slots, q ≠ p → (s.opened a (8 * i) p).Used q →
        s.Used q ∧ (s.opened a (8 * i) p).chan q.1 = s.chan q.1 := fun q hq hne hu =>
      ⟨((used_opened s a (8 * i) hp hq).1 hu).resolve_left hne, opened_chan_of_ne s a (8 * i) hp hq hne⟩
    have hl := h.linked
    rw [h.cat] at hl hnamed
    refine ⟨n, hl.le, hl.count, fun q hq hu => ?_, fun q hq hu => ?_⟩
    · by_cases hqp : q = p
      · rw [hqp, hdrv]
      · obtain ⟨hu', hchan⟩ := hold q hq hqp hu
        rw [hchan, hl.drv q hq hu']
    · by_cases hqp : q = p
      · rw [hqp]
        exact ⟨_, mem_entries hi, hnamed⟩
      · obtain ⟨hu', hchan⟩ := hold q hq hqp hu
        rw [hchan]
        exact hl.entry q hq hu'

lemma openFile_held (a : Byte) (chars : List Byte) (h : Held d s) (hd : (s.fsp chars).1.drv = d)
    (h3 : d &&& 3 = d) : Prog.wp (openFile a chars) (fun _ => Held d) (fun _ => Held d) s := by
  rw [openFile, Prog.wp_bind]
  refine Prog.wp_mono (locate_current a chars h hd) ?_ fun _ _ he => he
  rintro r t ⟨ht, hr⟩
  rcases r with _ | x
  · exact ht
  · obtain ⟨m, i, hcur, hi, rfl⟩ := hr x rfl
    refine Prog.wp_mono (openFound_spec a (8 * i) t) ?_ ?_
    · rintro _ u ⟨-, -, p, hp, -, -, rfl⟩
      exact hcur.opened hi h3 a hp
    · rintro e u ⟨⟨p, rfl⟩, -⟩
      exact ht.of_sameChans ⟨rfl, rfl⟩ rfl

/-! ## Deleting, renaming and locking -/

/-- Going on from the entry before the `i`-th finds another one of the catalogue, if any. -/
lemma searchNext_hit (hcount : (s.cat 0x0f05).toNat = 8 * n) (hle : n ≤ 31)
    (hy : (s.catEntry + 8).toNat = 8 * i) :
    Prog.wp searchNext
      (fun r t => (r = none ∧ t = s) ∨ ∃ j < n, r = some (8 * j) ∧
        ∃ z : Byte, z.toNat = 8 * j ∧ t = { s with catEntry := z })
      (fun _ _ => False) s := by
  rcases getCatNextentry2_hits hcount hle hy with ⟨o, l, hl, z, hz, hrun⟩ | ⟨-, hrun⟩
  · obtain ⟨j, -, hj, rfl, -⟩ := hitsFrom_cons _ i rfl hl
    rw [Prog.wp_of_ok ((searchNext_run s).trans hrun)]
    exact Or.inr ⟨j, hj, rfl, z, hz, rfl⟩
  · rw [Prog.wp_of_ok ((searchNext_run s).trans hrun)]
    exact Or.inl ⟨rfl, rfl⟩

/-- The place behind an entry, and the place of an entry that has been taken out. -/
lemma catEntry_next {z : Byte} (hz : z.toNat = 8 * i) (hi : i < 31) : (z + 8).toNat = 8 * (i + 1) := by
  rw [toNat_add_eight hz (by omega)]
  ring

/-- An invariant `H` that deletions on drive `d` keep.  While the catalogue is edited, `B n` says that
the buffer has `n` entries and may be saved. -/
structure Deletable (d : Byte) (H : State → Prop) (B : ℕ → State → Prop) : Prop where
  held : ∀ {n s}, B n s → H s
  count : ∀ {n s}, B n s → n ≤ 31 ∧ (s.cat 0x0f05).toNat = 8 * n
  drv : ∀ {n s}, B n s → s.curDrv = d
  wildcard : ∀ {s} (w : Byte), H s → H { s with wildcard := w }
  withFsp : ∀ {s} (f : Fsp), H s → H (s.withFsp f)
  load : ∀ {s}, H s → s.curDrv = d → ∃ n, B n s.catLoaded
  entry : ∀ {n s} (z : Byte), B n s → B n { s with catEntry := z }
  delete : ∀ {n i s}, B n s → i < n → Prog.wp (deleteEntry (8 * i))
    (fun _ t => B (n - 1) t ∧ ∃ p, t = { s.noting p with cat := deletedCat s.cat n i }) (fun _ => H) s
  save : ∀ {n s}, B n s → Prog.wp saveCat (fun _ t => B n t ∧ t = s.cycled.catSaved) (fun _ => H) s

namespace Deletable

variable {H : State → Prop} {B : ℕ → State → Prop}

lemma readFsp (h : Deletable d H B) (chars : List Byte) (hs : H s) (hd : (s.fsp chars).1.drv = d) :
    Prog.wp (Rom.readFsp chars) (fun _ t => H t ∧ t.curDrv = d) (fun _ => H) s := by
  refine Prog.wp_mono (readFsp_spec chars s) ?_ ?_
  · rintro _ t ⟨rfl, -⟩
    exact ⟨h.withFsp _ hs, hd⟩
  · rintro e t ⟨rfl, -⟩
    exact h.withFsp _ hs

/-- A search loads the catalogue and stops at an entry, if at all. -/
lemma searchCat (h : Deletable d H B) (hs : H s) (hd : s.curDrv = d) :
    Prog.wp Rom.searchCat
      (fun r t => ∃ n, B n t ∧ t.cat = t.catOf d ∧
        ∀ x, r = some x → ∃ i : ℕ, i < n ∧ x = 8 * i ∧ t.catEntry.toNat = 8 * i)
      (fun _ => H) s := by
  refine Prog.wp_mono (searchCat_spec s) ?_ ?_
  · rintro r t ⟨rfl, rfl, -⟩
    obtain ⟨n, hb⟩ := h.load hs hd
    obtain ⟨hle, hcount⟩ := h.count hb
    refine ⟨n, h.entry _ hb, congrArg s.catOf hd, fun x hx => ?_⟩
    obtain ⟨z, hz, rfl⟩ := Option.map_eq_some_iff.1 hx
    obtain ⟨i, hi, hzi⟩ := State.found_entry hle hcount hz
    refine ⟨i, hi, hzi, ?_⟩
    rw [State.searched, hz]
    exact hzi
  · rintro e t ⟨rfl, -⟩
    exact hs

lemma findFile (h : Deletable d H B) (hs : H s) (hd : s.curDrv = d) :
    Prog.wp Rom.findFile
      (fun y t => ∃ n i : ℕ, B n t ∧ t.cat = t.catOf d ∧ i < n ∧ y = 8 * i ∧ t.catEntry.toNat = 8 * i)
      (fun _ => H) s := by
  rw [Rom.findFile, Prog.wp_bind]
  refine Prog.wp_mono (h.searchCat hs hd) ?_ fun _ _ he => he
  rintro r t ⟨n, ht, hcat, hr⟩
  rcases r with _ | x
  · exact h.held ht
  · obtain ⟨i, hi, rfl, hentry⟩ := hr x rfl
    exact ⟨n, i, ht, hcat, hi, rfl, hentry⟩

lemma cmdDelete (h : Deletable d H B) (chars : List Byte) (hs : H s) (hd : (s.fsp chars).1.drv = d) :
    Prog.wp (Rom.cmdDelete chars) (fun _ => H) (fun _ => H) s := by
  simp only [Rom.cmdDelete, Prog.wp_bind, Prog.wp_modify, Prog.wp_ite, Prog.wp_fail]
  refine ⟨fun _ => h.wildcard _ hs, fun _ => ?_⟩
  refine Prog.wp_mono (h.readFsp chars (h.wildcard 0xff hs) hd) ?_ fun _ _ he => he
  rintro _ u ⟨hu, hud⟩
  refine Prog.wp_mono (h.findFile hu hud) ?_ fun _ _ he => he
  rintro y v ⟨n, i, hv, -, hi, rfl, -⟩
  refine Prog.wp_mono (h.delete hv hi) ?_ fun _ _ he => he
  rintro _ w ⟨hw, -⟩
  exact Prog.wp_mono (h.save hw) (fun _ _ hx => h.held hx.1) fun _ _ he => he

lemma destroyFrom (h : Deletable d H B) (k : ℕ) : ∀ {s : State} {n i : ℕ}, B n s → i < n →
    s.catEntry.toNat = 8 * i →
    Prog.wp (Rom.destroyFrom k (8 * i)) (fun _ t => ∃ m, B m t) (fun _ => H) s := by
  induction k with
  | zero => exact fun hb _ _ => ⟨_, hb⟩
  | succ k ih =>
      intro s n i hb hi hentry
      have hnext : ∀ {t : State} {m j : ℕ}, B m t → (t.catEntry + 8).toNat = 8 * j →
          Prog.wp (do
            match ← searchNext with
            | none => pure ()
            | some y => Rom.destroyFrom k y) (fun _ t => ∃ m, B m t) (fun _ => H) t := by
        intro t m j ht hy
        obtain ⟨hle, hcount⟩ := h.count ht
        rw [Prog.wp_bind]
        refine Prog.wp_mono (searchNext_hit hcount hle hy) ?_ fun _ _ hf => hf.elim
        rintro r u (⟨rfl, rfl⟩ | ⟨j', hj', rfl, z, hz, rfl⟩)
        · exact ⟨m, ht⟩
        · exact ih (h.entry z ht) hj' hz
      simp only [Rom.destroyFrom, Prog.wp_bind, Prog.wp_get, Prog.wp_when, Prog.wp_modify]
      refine ⟨fun _ => ?_, fun _ => ?_⟩
      · refine Prog.wp_mono (h.delete hb hi) ?_ fun _ _ he => he
        rintro _ t ⟨ht, p, rfl⟩
        refine (Prog.wp_bind _ _).1 (hnext (h.entry (s.catEntry - 8) ht) (j := i) ?_)
        rw [BitVec.sub_add_cancel]
        exact hentry
      · have hle := (h.count hb).1
        exact (Prog.wp_bind _ _).1 (hnext hb (catEntry_next hentry (by omega)))

lemma cmdDestroy (h : Deletable d H B) (w10c8 : Byte) (chars : List Byte) (confirmed : Bool) (hs : H s)
    (hd : (s.fsp chars).1.drv = d) :
    Prog.wp (Rom.cmdDestroy w10c8 chars confirmed) (fun _ => H) (fun _ => H) s := by
  simp only [Rom.cmdDestroy, Prog.wp_bind, Prog.wp_modify, Prog.wp_ite, Prog.wp_fail, Prog.wp_pure]
  refine ⟨fun _ => hs, fun _ => ⟨fun _ => h.wildcard _ hs, fun _ => ?_⟩⟩
  refine Prog.wp_mono (h.readFsp chars (h.wildcard 0x23 hs) hd) ?_ fun _ _ he => he
  rintro _ u ⟨hu, hud⟩
  refine Prog.wp_mono (h.findFile hu hud) ?_ fun _ _ he => he
  rintro y v ⟨n, i, hv, -, -, rfl, -⟩
  refine Prog.wp_mono (listFrom_spec 32 v) ?_ fun _ _ hf => hf.elim
  rintro _ w ⟨z, rfl⟩
  have hz := h.entry z hv
  have hw := h.held hz
  obtain ⟨m, hm⟩ := h.load hw (h.drv hz)
  refine ⟨fun _ => ?_, fun _ => hw⟩
  refine Prog.wp_mono (checkDisk_spec _) ?_ ?_
  · rintro _ x rfl
    refine Prog.wp_mono (h.searchCat (h.held hm) (h.drv hm)) ?_ fun _ _ he => he
    rintro r x ⟨m, hx, -, hr⟩
    rcases r with _ | y
    · exact h.held hx
    · obtain ⟨j, hj, rfl, hentry⟩ := hr y rfl
      simp only [Prog.wp_bind]
      refine Prog.wp_mono (h.destroyFrom 32 hx hj hentry) ?_ fun _ _ he => he
      rintro _ x' ⟨m', hx'⟩
      exact Prog.wp_mono (h.save hx') (fun _ _ hx => h.held hx.1) fun _ _ he => he
  · rintro e x (rfl | rfl)
    · exact hw
    · exact h.held hm

/-- Reading the catalogue again that is in the buffer. -/
lemma reload (h : Deletable d H B) (hb : B n s) (hcat : s.cat = s.catOf d) : B n s.catLoaded := by
  obtain ⟨m, hm⟩ := h.load (h.held hb) (h.drv hb)
  have hload : s.catLoaded.cat = s.cat := by
    rw [hcat, ← h.drv hb]
    rfl
  obtain rfl : m = n := by
    have hcount := (h.count hm).2
    rw [hload, (h.count hb).2] at hcount
    omega
  exact hm

lemma wipeFrom (h : Deletable d H B) (k : ℕ) : ∀ {l : List Bool} {s : State} {n i : ℕ}, B n s →
    s.cat = s.catOf d → i < n → s.catEntry.toNat = 8 * i →
    Prog.wp (Rom.wipeFrom k l (8 * i)) (fun _ => H) (fun _ => H) s := by
  induction k with
  | zero => exact fun hb _ _ _ => h.held hb
  | succ k ih =>
      intro l s n i hb hcat hi hentry
      have hnext : ∀ {l : List Bool} {t : State} {m j : ℕ}, B m t → t.cat = t.catOf d →
          (t.catEntry + 8).toNat = 8 * j → Prog.wp (do
            match ← searchNext with
            | none => pure ()
            | some y => Rom.wipeFrom k l y) (fun _ => H) (fun _ => H) t := by
        intro l t m j ht htcat hy
        obtain ⟨hle, hcount⟩ := h.count ht
        rw [Prog.wp_bind]
        refine Prog.wp_mono (searchNext_hit hcount hle hy) ?_ fun _ _ hf => hf.elim
        rintro r u (⟨rfl, rfl⟩ | ⟨j', hj', rfl, z, hz, rfl⟩)
        · exact h.held ht
        · exact ih (h.entry z ht) htcat hj' hz
      have hle := (h.count hb).1
      unfold Rom.wipeFrom
      rw [Prog.wp_bind, Prog.wp_get, Prog.wp_ite]
      refine ⟨fun _ => hnext hb hcat (catEntry_next hentry (by omega)), fun _ => ?_⟩
      rcases l with _ | ⟨yes, l⟩
      · exact h.held hb
      · simp only [Prog.wp_bind, Prog.wp_when, Prog.wp_modify]
        refine ⟨fun _ => ?_, fun _ => (Prog.wp_bind _ _).1 (hnext hb hcat (catEntry_next hentry (by omega)))⟩
        have hload := h.reload hb hcat
        refine Prog.wp_mono (checkDisk_spec s) ?_ ?_
        · rintro _ t rfl
          refine Prog.wp_mono (h.delete hload hi) ?_ fun _ _ he => he
          rintro _ u ⟨hu, p, hdeleted⟩
          refine Prog.wp_mono (h.save hu) ?_ fun _ _ he => he
          rintro _ v ⟨hv, hsaved⟩
          have hudrv : u.curDrv = d := h.drv hu
          have hvcat : v.cat = v.catOf d := by
            rw [hsaved]
            exact (State.catSaved_catOf (s := u.cycled) hudrv).symm
          have hventry : v.catEntry = s.catEntry := by
            rw [hsaved, hdeleted]
            rfl
          refine (Prog.wp_bind _ _).1 (hnext (h.entry (v.catEntry - 8) hv) hvcat (j := i) ?_)
          rw [hventry, BitVec.sub_add_cancel]
          exact hentry
        · rintro e t (rfl | rfl)
          · exact h.held hb
          · exact h.held hload

lemma cmdWipe (h : Deletable d H B) (chars : List Byte) (answers : List Bool) (hs : H s)
    (hd : (s.fsp chars).1.drv = d) :
    Prog.wp (Rom.cmdWipe chars answers) (fun _ => H) (fun _ => H) s := by
  simp only [Rom.cmdWipe, Prog.wp_bind, Prog.wp_modify, Prog.wp_ite, Prog.wp_fail]
  refine ⟨fun _ => h.wildcard _ hs, fun _ => ?_⟩
  refine Prog.wp_mono (h.readFsp chars (h.wildcard 0x23 hs) hd) ?_ fun _ _ he => he
  rintro _ u ⟨hu, hud⟩
  refine Prog.wp_mono (h.findFile hu hud) ?_ fun _ _ he => he
  rintro y v ⟨n, i, hv, hcat, hi, rfl, hentry⟩
  exact h.wipeFrom 32 hv hcat hi hentry

end Deletable

/-- The channels keep their entries. -/
lemma held_deletable (d : Byte) : Deletable d (Held d) (Buffered d) where
  held hb := hb.held
  count hb := ⟨hb.linked.le, hb.linked.count⟩
  drv hb := hb.drv
  wildcard _ hs := hs.of_sameChans ⟨rfl, rfl⟩ rfl
  withFsp _ hs := hs.of_sameChans ⟨rfl, rfl⟩ rfl
  load hs hd := by
    obtain ⟨n, hl⟩ := hs.linked
    exact ⟨n, (hl.catLoaded hs hd).toBuffered⟩
  entry z hb := hb.catEntry z
  delete hb hi := deleteEntry_buffered hb hi
  save hb := Prog.wp_mono (saveCat_current hb) (fun _ _ ht => ⟨ht.1.toBuffered, ht.2⟩) fun _ _ he => he

lemma accessAttr_high {l : List Byte} {aa a : Byte} (h : accessAttr l aa = some a) (haa : aa &&& 0x7f = 0) :
    a &&& 0x7f = 0 := by
  induction l generalizing aa with
  | nil =>
      obtain rfl : aa = a := Option.some.inj h
      exact haa
  | cons b l ih =>
      rw [accessAttr] at h
      split_ifs at h
      exact ih h rfl

/-- The attribute is not part of the name. -/
lemma putAttr_kept (c : ℕ → Byte) {aa : Byte} (haa : aa &&& 0x7f = 0) (hi : i < 31) :
    StartsKept c (Function.update c (0x0e0f + 8 * i) ((c (0x0e0f + 8 * i) &&& 0x7f) ||| aa)) := by
  have hname : ((c (0x0e0f + 8 * i) &&& 0x7f) ||| aa) &&& 0x7f = c (0x0e0f + 8 * i) &&& 0x7f := by
    rw [BitVec.and_or_distrib_right, haa, BitVec.and_assoc, BitVec.and_self]
    exact BitVec.or_zero
  exact StartsKept.update c (by omega) (fun _ => hname) (by omega) (by omega)

lemma accessFrom_buffered {aa : Byte} (haa : aa &&& 0x7f = 0) (k : ℕ) : ∀ {s : State} {n i : ℕ},
    Buffered d n s → i < n → s.catEntry.toNat = 8 * i →
    Prog.wp (accessFrom aa k (8 * i)) (fun _ s' => ∃ m, Buffered d m s') (fun _ => Held d) s := by
  induction k with
  | zero => exact fun h _ _ => ⟨_, h⟩
  | succ k ih =>
      intro s n i h hi hentry
      have hle := h.linked.le
      simp only [accessFrom, Prog.wp_bind, Prog.wp_modify]
      refine Prog.wp_mono (checkOpen_spec (8 * i) s) ?_ ?_
      · rintro _ t ⟨⟨p, rfl⟩, -⟩
        have hput := h.linked.of_starts (putAttr_kept s.cat haa (i := i) (by omega))
        set t : State := { s.noting p with
          cat := Function.update s.cat (0x0e0f + 8 * i) ((s.cat (0x0e0f + 8 * i) &&& 0x7f) ||| aa) }
        have ht : Buffered d n t :=
          ⟨h.held.of_sameChans ⟨rfl, rfl⟩ rfl, h.drv, hput.of_sameChans ⟨rfl, rfl⟩⟩
        refine Prog.wp_mono (searchNext_hit ht.linked.count hle (catEntry_next hentry (by omega))) ?_
          fun _ _ hf => hf.elim
        rintro r u (⟨rfl, rfl⟩ | ⟨j, hj, rfl, z, hz, rfl⟩)
        · exact ⟨n, ht⟩
        · exact ih (ht.catEntry z) hj hz
      · rintro e t ⟨⟨p, rfl⟩, -⟩
        exact h.held.of_sameChans ⟨rfl, rfl⟩ rfl

lemma cmdAccess_held (chars attrs : List Byte) (h : Held d s) (hd : (s.fsp chars).1.drv = d) :
    Prog.wp (cmdAccess chars attrs) (fun _ => Held d) (fun _ => Held d) s := by
  simp only [cmdAccess, Prog.wp_bind, Prog.wp_modify, Prog.wp_ite, Prog.wp_fail]
  set t : State := { s with wildcard := 0x23 }
  have ht : Held d t := h.of_sameChans ⟨rfl, rfl⟩ rfl
  refine ⟨fun _ => ht, fun _ => ?_⟩
  refine Prog.wp_mono (readFsp_held chars ht hd) ?_ fun _ _ he => he
  rintro _ u ⟨-, hu, hud⟩
  rcases hattr : accessAttr attrs 0 with _ | aa
  · exact hu
  · simp only [Prog.wp_bind]
    refine Prog.wp_mono (searchCat_current hu hud) ?_ fun _ _ he => he
    rintro r v ⟨n, hv, -, hr⟩
    rcases r with _ | y
    · exact hv.held
    · obtain ⟨i, hi, rfl, hentry⟩ := hr y rfl
      simp only [Prog.wp_bind]
      refine Prog.wp_mono (accessFrom_buffered (accessAttr_high hattr rfl) 32 hv.toBuffered hi hentry) ?_
        fun _ _ he => he
      rintro _ w ⟨m, hw⟩
      exact Prog.wp_mono (saveCat_current hw) (fun _ _ hx => hx.1.held) fun _ _ he => he

lemma cmdRename_held (old new : List Byte) (h : Held d s) (hold : (s.fsp old).1.drv = d)
    (hnew : (s.fsp new).1.drv = d) :
    Prog.wp (cmdRename old new) (fun _ => Held d) (fun _ => Held d) s := by
  simp only [cmdRename, Prog.wp_bind, Prog.wp_modify, Prog.wp_ite, Prog.wp_fail]
  set t : State := { s with wildcard := 0xff }
  have ht : Held d t := h.of_sameChans ⟨rfl, rfl⟩ rfl
  refine ⟨fun _ => ht, fun _ => ?_⟩
  refine Prog.wp_mono (readFsp_held old ht hold) ?_ fun _ _ he => he
  rintro _ u ⟨rfl, hu, hud⟩
  refine Prog.wp_mono (searchCat_current hu hud) ?_ fun _ _ he => he
  rintro r v ⟨n, hv, hsearched, hr⟩
  rcases r with _ | y
  · exact hv.held
  obtain ⟨i, hi, rfl, -⟩ := hr y rfl
  simp only [Prog.wp_bind]
  refine Prog.wp_mono (checkLockedOpen_spec (8 * i) v) ?_ ?_
  swap
  · rintro e w ⟨⟨p, rfl⟩, -⟩
    exact hv.held.of_sameChans ⟨rfl, rfl⟩ rfl
  rintro _ w ⟨⟨p, rfl⟩, -, hopen⟩
  have hun := hv.toBuffered.unheld hopen
  have hw : Held d (v.noting p) := hv.held.of_sameChans ⟨rfl, rfl⟩ rfl
  simp only [Prog.wp_ite, Prog.wp_fail, Prog.wp_bind]
  refine ⟨fun _ => hw, fun _ => ?_⟩
  have hdrv : ((v.noting p).fsp new).1.drv = d := by
    rw [hsearched]
    exact hnew
  refine Prog.wp_mono (readFsp_held new hw hdrv) ?_ fun _ _ he => he
  rintro _ x ⟨rfl, hx, hxd⟩
  refine Prog.wp_mono (searchCat_current hx hxd) ?_ fun _ _ he => he
  rintro r x' ⟨m, hx', hsearched', -⟩
  rcases r with _ | y'
  swap
  · exact hx'.held
  -- the catalogue is the one the first search has found the entry in
  have hcat : x'.cat = v.cat := by
    rw [hx'.cat, hv.cat, hsearched']
    rfl
  have hl : Linked v d n x'.cat := hcat ▸ hv.linked
  simp only [Prog.wp_bind, Prog.wp_modify]
  have hle := hv.linked.le
  have hput : Linked v d n (putName x'.cat (8 * i) x'.filenameParam) := by
    refine hl.rename hi (hcat ▸ hun) (putName_of_le _ _ (by omega) (by decide)) fun j hj hne => ?_
    refine entryAt_congr (fun k hk => ?_) fun k hk => ?_ <;> rw [putName, dif_neg (by omega)]
  have hsame : SameChans v x' := by
    rw [hsearched']
    exact ⟨rfl, rfl⟩
  have hbuf : Buffered d n { x' with cat := putName x'.cat (8 * i) x'.filenameParam } :=
    ⟨hx'.held.of_sameChans ⟨rfl, rfl⟩ rfl, hx'.drv, hput.of_sameChans hsame⟩
  exact Prog.wp_mono (saveCat_current hbuf) (fun _ _ hs => hs.1.held) fun _ _ he => he

end Links

end Udfs.Rom
