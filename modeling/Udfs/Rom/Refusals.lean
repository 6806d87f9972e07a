import Udfs.Rom.Exclusion
import Udfs.Rom.Placement

/-!
# Refused openings

OSFIND refuses to open a file that is locked, that another channel has open, or for which there is
no channel left.  For a file that exists nothing has been done by then.  A file opened for output
that does not exist is made first, and its entry has been saved when the opening is refused.
-/

namespace Udfs.Rom

/-- The catalogues behind the server and the channels are what they were. -/
def Untouched (s s' : State) : Prop := s'.cats = s.cats ∧ SameChans s s'

/-- A creation finds a place for a file of the given length. -/
def HasPlace (c : ℕ → Byte) (len : Num24) : Prop :=
  (c 0x0f05).toNat = 0 ∨
    (c 0x0f05).toNat < 0xf8 ∧ findGap c len 32 (c 0x0f05).toNat 0 2 ≠ none

/-- Opening a file with `a` makes an entry for it. -/
structure MakesEntry (s : State) (a : Byte) (chars : List Byte) : Prop where
  output : a &&& 0x40 = 0
  parsed : (s.fsp chars).2 = none
  absent : (s.withFsp (s.fsp chars).1).found = none
  place : HasPlace (s.catOf (s.fsp chars).1.drv) findBlock.length
  writable : s.CanWrite (s.fsp chars).1.drv

namespace Fsp

/-- The channel block is for a file of this name on this drive. -/
def IsOf (f : Fsp) (c : Chan) : Prop :=
  (c.flags ^^^ f.drv) &&& 3 = 0 ∧ ∀ i, (f.name i ^^^ c.name i) &&& 0x7f = 0

/-- What stands against opening a file of this name once it has an entry: the top bit of its
directory, a channel that has such a file open and does not share it, or that all channels are in
use. -/
def Refused (f : Fsp) (s : State) (a : Byte) : Prop :=
  128 ≤ (f.name 7).toNat ∨
    (∃ p ∈ slots, s.Used p ∧ f.IsOf (s.chan p.1) ∧ ¬ (s.ReadOnly p ∧ a &&& 0x80 = 0)) ∨
    ∀ p ∈ slots, s.Used p

end Fsp

/-! ## Making an entry -/

/-- The place found is that of an entry, or the one after the last. -/
lemma findGap_place (c : ℕ → Byte) (len : Num24) (k : ℕ) : ∀ (j y : ℕ) (c4 c5 d4 d5 : Byte),
    findGap c len k (8 * j) c4 c5 = some (y, d4, d5) → ∃ i ≤ j, y = 8 * i := by
  induction k with
  | zero => intro j y c4 c5 d4 d5 h; cases h
  | succ k ih =>
      intro j y c4 c5 d4 d5 h
      rw [findGap] at h
      split_ifs at h with hfits hzero
      · cases h
        exact ⟨j, le_rfl, rfl⟩
      · obtain ⟨j, rfl⟩ := Nat.exists_eq_succ_of_ne_zero (by omega : j ≠ 0)
        rw [Nat.mul_succ, Nat.add_sub_cancel] at h
        obtain ⟨i, hi, hy⟩ := ih j y _ _ _ _ h
        exact ⟨i, hi.trans (Nat.le_succ j), hy⟩

section Making

variable (f : FileBlock) (len : Num24) {s : State} {n : ℕ}

/-- What a creation leaves: the new entry in the catalogue of the drive, or the drive's refusal. -/
lemma writeNewEntry_saves (c4 c5 : Byte) (i : ℕ) :
    Prog.wp (writeNewEntry f len (8 * i) c4 c5)
      (fun y s' => y = 8 * i ∧ s.CanWrite s.curDrv ∧
        s' = (s.placed n i (newEntry s f len c4 c5)).cycled.catSaved)
      (fun _ s' => ¬ s.CanWrite s.curDrv ∧ s'.cats = s.cats)
      { s with cat := shiftUp s.cat (8 * n - 8 * i) (8 * n) } := by
  simp only [writeNewEntry, Prog.wp_bind, Prog.wp_modify, Prog.wp_pure]
  refine Prog.wp_mono (saveCat_spec (s.placed n i (newEntry s f len c4 c5))) ?_ ?_
  · rintro _ s' ⟨rfl, hw⟩
    exact ⟨trivial, hw, rfl⟩
  · rintro _ s' ⟨hej, hw, -⟩
    refine ⟨hw, ?_⟩
    obtain rfl | ⟨x, -, rfl⟩ := hej <;> rfl

/-- An entry is made when there is a place for it and the drive may be written, and otherwise no
catalogue is saved. -/
lemma addEntry_saves (hcount : s.count = 8 * n) :
    Prog.wp (addEntry f len)
      (fun y s' => (HasPlace s.cat len ∧ s.CanWrite s.curDrv) ∧ ∃ i ≤ n, n ≤ 30 ∧ y = 8 * i ∧
        ∃ c4 c5, s' = (s.placed n i (newEntry s f len c4 c5)).cycled.catSaved)
      (fun _ s' => ¬ (HasPlace s.cat len ∧ s.CanWrite s.curDrv) ∧ s'.cats = s.cats) s := by
  have hbyte : (s.cat 0x0f05).toNat = 8 * n := hcount
  rw [addEntry, Prog.wp_bind, Prog.wp_get]
  split_ifs with hempty hfull
  · have hn : n = 0 := by omega
    subst hn
    refine Prog.wp_mono (writeNewEntry_saves f len (n := 0) 0 2 0) ?_ ?_
    · rintro y s' ⟨rfl, hw, hs'⟩
      exact ⟨⟨Or.inl hempty, hw⟩, 0, le_rfl, by decide, rfl, 0, 2, hs'⟩
    · rintro _ s' ⟨hw, hcats⟩
      exact ⟨fun h => hw h.2, hcats⟩
  · refine ⟨?_, rfl⟩
    rintro ⟨h | ⟨h, -⟩, -⟩ <;> omega
  · rw [hcount]
    rcases hgap : findGap s.cat len 32 (8 * n) 0 2 with _ | ⟨y, c4, c5⟩
    · refine ⟨?_, rfl⟩
      rintro ⟨h | ⟨-, h⟩, -⟩
      · exact hempty h
      · rw [hbyte] at h
        exact h hgap
    · obtain ⟨i, hi, rfl⟩ := findGap_place _ _ _ _ _ _ _ _ _ hgap
      have hplace : HasPlace s.cat len := Or.inr ⟨by omega, by
        rw [hbyte, hgap]
        exact Option.some_ne_none _⟩
      simp only [Prog.wp_bind, Prog.wp_modify, hcount]
      refine Prog.wp_mono (writeNewEntry_saves f len (n := n) c4 c5 i) ?_ ?_
      · rintro y s' ⟨rfl, hw, hs'⟩
        exact ⟨⟨hplace, hw⟩, i, hi, by omega, rfl, c4, c5, hs'⟩
      · rintro _ s' ⟨hw, hcats⟩
        exact ⟨fun h => hw h.2, hcats⟩

end Making

/-- A saved entry is in the catalogue behind the server, which has changed by it. -/
lemma saved_entry {s : State} {n i : ℕ} (e : Entry) (hn : n ≤ 30) (hi : i ≤ n) (hcount : s.count = 8 * n)
    (hcat : s.cat = s.catOf s.curDrv) :
    (s.placed n i e).cycled.catSaved.cats ≠ s.cats ∧
      entryName (s.placed n i e).cycled.catSaved.cat (8 * i) = e.name := by
  have hplaced := placed_cycled s e hn hi hcount
  constructor
  · intro h
    have hcat' : (s.placed n i e).cycled.cat = s.cat := by
      rw [hcat]
      refine Eq.trans ?_ (congrFun h (s.catNo s.curDrv))
      exact (Function.update_self (s.catNo s.curDrv) (s.placed n i e).cycled.cat s.cats).symm
    have hc := hplaced.count
    rw [State.count, hcat'] at hc
    rw [State.count] at hcount
    omega
  · have hlen : i < (entries (s.placed n i e).cycled.cat (n + 1)).length := by simp; omega
    have hget : entryAt (s.placed n i e).cycled.cat (8 * i) = e := by
      rw [← entries_getElem _ hlen]
      simp only [hplaced.entries]
      exact List.getElem_insertIdx_self ..
    exact congrArg Entry.name hget

/-- Looking for the entry to open changes a catalogue only by making an entry. -/
lemma locate_saves (a : Byte) (chars : List Byte) (s : State) {n : ℕ}
    (hcount : (s.catOf (s.fsp chars).1.drv 0x0f05).toNat = 8 * n) :
    Prog.wp (locate a chars)
      (fun r t => (¬ MakesEntry s a chars ∧ t.cats = s.cats) ∨
        (MakesEntry s a chars ∧ t.cats ≠ s.cats ∧ t.curDrv = (s.fsp chars).1.drv ∧
          ∃ x, r = some x ∧ entryName t.cat x = (s.fsp chars).1.name))
      (fun _ t => ¬ MakesEntry s a chars ∧ t.cats = s.cats) s := by
  set u := s.withFsp (s.fsp chars).1 with hu
  rw [locate, Prog.wp_bind]
  refine Prog.wp_mono (readFsp_spec chars s) ?_ ?_
  · rintro _ t ⟨rfl, hparsed⟩
    rw [Prog.wp_bind]
    by_cases hdisk : u.HasDisk u.curDrv
    · refine (Prog.wp_of_ok (searchCat_run hdisk)).2 ?_
      rcases hfound : u.found with _ | z
      · simp only [Option.map_none, Prog.wp_ite, Prog.wp_pure]
        refine ⟨fun hin => Or.inl ⟨fun h => hin h.output, rfl⟩, fun hout => ?_⟩
        have hiff : HasPlace (u.catOf u.curDrv) findBlock.length ∧ u.CanWrite u.curDrv ↔
            MakesEntry s a chars :=
          ⟨fun h => ⟨not_not.1 hout, hparsed, hfound, h.1, h.2⟩, fun h => ⟨h.place, h.writable⟩⟩
        -- the name is read and looked for once more
        have hread : (readFsp chars).run u.searched = .ok () u.searched := by
          rw [readFsp_run]
          have hagain : (u.searched.fsp chars).2 = none := hparsed
          rw [hagain]
          rfl
        have hagain : u.searched.found = none := hfound
        have hsearch := searchCat_run (s := u.searched) hdisk
        rw [hagain] at hsearch
        set w := u.searched.searched with hw
        have hadd := addEntry_saves findBlock findBlock.length (s := w) (n := n) hcount
        rw [Prog.wp_bind, createFile, Prog.wp_bind, Prog.wp_of_ok hread, Prog.wp_bind,
          Prog.wp_of_ok hsearch]
        refine Prog.wp_mono hadd ?_ ?_
        · rintro y t ⟨hmakes, i, hi, hn, rfl, c4, c5, rfl⟩
          obtain ⟨hcats, hname⟩ := saved_entry (s := w) (newEntry w findBlock findBlock.length c4 c5)
            hn hi (hcount : w.count = 8 * n) (rfl : w.cat = w.catOf w.curDrv)
          exact Or.inr ⟨hiff.1 hmakes, hcats, rfl, 8 * i, rfl, hname⟩
        · rintro _ t ⟨hno, hcats⟩
          exact ⟨fun h => hno (hiff.2 h), hcats⟩
      · refine Or.inl ⟨fun h => ?_, rfl⟩
        have habsent := h.absent
        rw [hfound] at habsent
        cases habsent
    · refine (Prog.wp_of_err (searchCat_noDisk hdisk)).2 ?_
      exact ⟨fun h => hdisk h.writable.2.1, rfl⟩
  · rintro e t ⟨rfl, herr⟩
    refine ⟨fun h => ?_, rfl⟩
    have hparsed := h.parsed
    rw [herr] at hparsed
    cases hparsed

/-! ## Opening what has been made -/

/-- With a new entry for the name an opening is refused exactly as the name and the channels have
it. -/
lemma refused_iff {f : Fsp} {s t : State} {a : Byte} {x : ℕ} (hout : a &&& 0x40 = 0)
    (hsame : SameChans s t) (hdrv : t.curDrv = f.drv) (hname : entryName t.cat x = f.name) :
    f.Refused s a ↔ t.LockedFor a x ∨ ¬ t.Permits a x slots ∨ ∀ p ∈ slots, t.Used p := by
  have hlock : t.LockedFor a x ↔ 128 ≤ (f.name 7).toNat := by
    have haddr : 0x0e08 + x + 7 = 0x0e0f + x := by omega
    have hdir : f.name 7 = t.cat (0x0e0f + x) := by
      rw [← hname, ← haddr]
      rfl
    rw [hdir]
    exact ⟨fun h => h.2, fun h => ⟨hout, h⟩⟩
  have hfile : ∀ p : Byte × Byte, t.sameFile x p.1 = true ↔ f.IsOf (s.chan p.1) := by
    intro p
    simp only [State.sameFile, hname, hdrv, hsame.2, Bool.and_eq_true, decide_eq_true_eq, Fsp.IsOf]
  have hper : ¬ t.Permits a x slots ↔
      ∃ p ∈ slots, s.Used p ∧ f.IsOf (s.chan p.1) ∧ ¬ (s.ReadOnly p ∧ a &&& 0x80 = 0) := by
    simp only [State.Permits, State.Shares, hfile, hsame.used, hsame.readOnly, not_forall, exists_prop,
      and_assoc]
  rw [Fsp.Refused, hlock, hper]
  simp only [hsame.used]

/-- **A failed opening changes nothing unless it has made the file.**  For every catalogue, every set
of open channels, every way to open a file and every name: the catalogues and the channels are left
as they were by every error exactly when the opening makes no entry or is not refused after that. -/
theorem openFile_untouched_iff (a : Byte) (chars : List Byte) (s : State) (n : ℕ)
    (hcount : (s.catOf (s.fsp chars).1.drv 0x0f05).toNat = 8 * n) :
    (∀ e s', (openFile a chars).run s = .err e s' → Untouched s s') ↔
      ¬ (MakesEntry s a chars ∧ (s.fsp chars).1.Refused s a) := by
  have hloc := Prog.wp_and (locate_sameChans a chars s) (locate_saves a chars s hcount)
  rw [Prog.wp] at hloc
  rw [openFile, Prog.run_bind]
  rcases hrun : (locate a chars).run s with ⟨r, t⟩ | ⟨e, t⟩
  · rw [hrun] at hloc
    obtain ⟨hsame, ⟨hno, hcats⟩ | ⟨hmakes, hcats, hdrv, x, rfl, hname⟩⟩ := hloc
    · refine iff_of_true ?_ fun h => hno h.1
      intro e s' herr
      rcases r with _ | x
      · cases herr
      · have hfound := openFound_spec a x t
        rw [Prog.wp_of_err herr] at hfound
        obtain ⟨⟨p, rfl⟩, -⟩ := hfound
        exact ⟨hcats, hsame⟩
    · have href := refused_iff hmakes.output hsame hdrv hname
      have hfound := openFound_spec a x t
      rw [Prog.wp] at hfound
      change (∀ e s', (openFound a x).run t = .err e s' → Untouched s s') ↔ _
      rcases hopen : (openFound a x).run t with ⟨h, u⟩ | ⟨e, u⟩
      · rw [hopen] at hfound
        obtain ⟨hlock, hper, p, hp, hfree, -⟩ := hfound
        refine iff_of_true (fun _ _ herr => by cases herr) fun h => ?_
        obtain hl | hl | hl := href.1 h.2
        · exact hlock hl
        · exact hl hper
        · exact hfree (hl p hp)
      · rw [hopen] at hfound
        obtain ⟨⟨p, rfl⟩, hwhy⟩ := hfound
        refine iff_of_false (fun h => hcats (h e _ rfl).1) fun h => h ⟨hmakes, href.2 ?_⟩
        obtain ⟨hl, -⟩ | ⟨-, ⟨hl, -⟩ | ⟨-, hl, -⟩⟩ := hwhy
        · exact Or.inl hl
        · exact Or.inr (Or.inl hl)
        · exact Or.inr (Or.inr hl)
  · rw [hrun] at hloc
    obtain ⟨hsame, hno, hcats⟩ := hloc
    refine iff_of_true ?_ fun h => hno h.1
    rintro _ _ ⟨⟩
    exact ⟨hcats, hsame⟩

/-- The file of `twoBytes` on a writable disk of 800 sectors, with all channels in use. -/
def allInUse : State :=
  { twoBytes with
    inUse := 0xf8
    diskMark := fun _ => 0x54
    cats := fun n =>
      Function.update (Function.update (twoBytes.cats n) 0x0f06 0x03) 0x0f07 0x20 }

/-- The file that is there cannot be opened for output any more, and nothing is changed. -/
theorem allInUse_untouched :
    ∃ s', (openFile 0x80 [0x41]).run allInUse = .err .tooManyFilesOpen s' ∧ Untouched allInUse s' := by
  have hsafe := (openFile_untouched_iff 0x80 [0x41] allInUse 1 rfl).2 fun h =>
    absurd h.1.absent (by decide)
  exact ⟨((openFile 0x80 [0x41]).run allInUse).state, rfl, hsafe _ _ rfl⟩

/-- A new file cannot be opened for output either, and is made. -/
theorem allInUse_made : ¬ ∀ e s', (openFile 0x80 [0x42]).run allInUse = .err e s' →
    Untouched allInUse s' := by
  intro h
  have hrun : (openFile 0x80 [0x42]).run allInUse
      = .err .tooManyFilesOpen ((openFile 0x80 [0x42]).run allInUse).state := rfl
  have hcats := congrFun (congrFun (h _ _ hrun).1 0) 0x0f05
  exact absurd hcats (by decide)

end Udfs.Rom
