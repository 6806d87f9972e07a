import Udfs.Lib.Transition
import Udfs.Rom.Upkeep

/-!
# Open files over whole runs

Calls that open, close and extend files, create, delete, rename and lock them, and `*COMPACT`, one
after the other on one drive.  `*COMPACT` begins by closing the channel at offset 0, which is none,
so the files that are open stay open, and it gives their entries new start sectors.  All other calls
leave the start sector of every open file where its channel has it.
-/

namespace Udfs.Rom

open Extents

/-! ## What `*COMPACT` moves -/

/-- The `j`-th entry has no data, or stands where it would be put. -/
def Unmoved (c : ℕ → Byte) (n j : ℕ) : Prop :=
  (entryAt c (8 * j)).sectors = 0 ∨ (entryAt c (8 * j)).start = placeAt c n (j + 1) % 1024

/-- The same files in the same order, some of them at the same place. -/
structure KeptStarts (U : ℕ → Prop) (c₀ : ℕ → Byte) (n : ℕ) (c : ℕ → Byte) : Prop where
  count : c 0x0f05 = c₀ 0x0f05
  name : ∀ j < n, entryName c (8 * j) = entryName c₀ (8 * j)
  start : ∀ j < n, U j → (entryAt c (8 * j)).start = (entryAt c₀ (8 * j)).start

section Catalogues

variable {U : ℕ → Prop} {c₀ c : ℕ → Byte} {n i : ℕ}

lemma sectors_le (e : Entry) : e.sectors ≤ 1024 := by
  have h4 := byte_lt (e.info 4)
  have h5 := byte_lt (e.info 5)
  rw [Entry.sectors, sectorsOf_le_iff, Entry.length]
  omega

lemma placeAt_le (c : ℕ → Byte) (n k : ℕ) : ∀ j, j + k = n → placeAt c n j ≤ 2 + 1024 * k := by
  induction k with
  | zero =>
      rintro j rfl
      exact (placeAt_self c).le
  | succ k ih =>
      intro j hj
      have hstep := placeAt_step c (n := n) (j := j) (by omega)
      have hnext := ih (j + 1) (by omega)
      have hle := sectors_le (entryAt c (8 * j))
      omega

/-- A start sector that has been put has ten bits. -/
lemma startingAt_start_mod (e : Entry) (p : Num16) : (e.startingAt p).start = p.val % 1024 := by
  have h6 : (e.startingAt p).info 6 &&& 3 = p.hi &&& 3 :=
    and_three_congr (a := (e.info 6 &&& 0xfc) ||| p.hi) (by simp) (by simp)
  have hnat := congrArg BitVec.toNat h6
  have hlo := byte_lt p.lo
  have h7 : (e.startingAt p).info 7 = p.lo := rfl
  rw [toNat_and_three, toNat_and_three] at hnat
  rw [Entry.start, hnat, h7, Num16.val]
  omega

/-- An entry with data gets its place. -/
lemma KeptStarts.putStart (h : KeptStarts U c₀ n c) (hU : U i → Unmoved c₀ n i) (hn : n ≤ 31) (hi : i < n)
    (hbefore : entryAt c (8 * i) = entryAt c₀ (8 * i)) (hz : (entryAt c₀ (8 * i)).sectors ≠ 0) {p : Num16}
    (hp : p.val = placeAt c₀ n (i + 1)) : KeptStarts U c₀ n (putStart c (8 * i) p) := by
  have hself := entryAt_putStart_self c (i := i) p
  have hother : ∀ j < n, j ≠ i → entryAt (Rom.putStart c (8 * i) p) (8 * j) = entryAt c (8 * j) :=
    fun j hj hne => entryAt_putStart_of_ne c p (by omega) (by omega) hne
  refine ⟨(putStart_header c p (by decide)).trans h.count, fun j hj => ?_, fun j hj hun => ?_⟩
  · by_cases hji : j = i
    · subst hji
      exact (congrArg Entry.name hself).trans (h.name j hj)
    · exact (congrArg Entry.name (hother j hj hji)).trans (h.name j hj)
  · by_cases hji : j = i
    · subst hji
      rw [hself, startingAt_start_mod, hp, ← (hU hun).resolve_left hz]
    · rw [hother j hj hji]
      exact h.start j hj hun

lemma KeptStarts.cycled (h : KeptStarts U c₀ n c) (hn : n ≤ 31) : KeptStarts U c₀ n (cycledCat c) := by
  have he : ∀ j < n, entryAt (cycledCat c) (8 * j) = entryAt c (8 * j) :=
    fun j hj => entryAt_cycledCat c (by omega)
  refine ⟨(cycledCat_of_ne c (by decide)).trans h.count, fun j hj => ?_, fun j hj hun => ?_⟩
  · exact (congrArg Entry.name (he j hj)).trans (h.name j hj)
  · rw [he j hj]
    exact h.start j hj hun

end Catalogues

/-! ## The loop -/

/-- Neither the channels nor the catalogues have changed. -/
structure Undisturbed (s t : State) : Prop where
  chans : SameChans s t
  drv : t.curDrv = s.curDrv
  cat : t.cat = s.cat
  cats : ∀ d, t.catOf d = s.catOf d

lemma Undisturbed.trans {s t u : State} (h : Undisturbed s t) (h' : Undisturbed t u) :
    Undisturbed s u where
  chans := h.chans.trans h'.chans
  drv := h'.drv.trans h.drv
  cat := h'.cat.trans h.cat
  cats d := (h'.cats d).trans (h.cats d)

lemma Undisturbed.of_ejected {s t : State} (h : s.Ejected t) : Undisturbed s t := by
  obtain rfl | ⟨x, -, rfl⟩ := h <;> exact ⟨⟨rfl, rfl⟩, rfl, rfl, fun _ => rfl⟩

/-- Moving a file gives the sector behind it. -/
lemma moveFile_undisturbed (bufPage : Byte) {bufSize : Byte} (hb : bufSize ≠ 0) (k : ℕ) :
    ∀ (pages src dst : Num16) (s : State), 0 < pages.val → pages.val ≤ k →
      dst.val + pages.val < 65536 →
      Prog.wp (moveFile bufPage bufSize k pages src dst)
        (fun pos t => pos.val = dst.val + pages.val ∧ Undisturbed s t) (fun _ => Undisturbed s) s := by
  induction k with
  | zero => intro pages src dst s h0 hk; omega
  | succ k ih =>
      intro pages src dst s h0 hk hlt
      have hbuf : bufSize.toNat ≠ 0 := fun h => hb (toNat_eq_zero.1 h)
      have hc := chunkOf_toNat pages bufSize
      set c3 := chunkOf pages bufSize with hc3
      have hdst := Num16.addPages_val (n := dst) (k := c3) (by omega)
      have hsub := Num16.subPages_val (n := pages) (k := c3) (by omega)
      rw [moveFile, ← hc3, Prog.wp_bind]
      refine Prog.wp_mono (loadMemBlock_spec _ s) ?_ ?_
      swap
      · rintro e t rfl
        exact ⟨⟨rfl, rfl⟩, rfl, rfl, fun _ => rfl⟩
      rintro _ t rfl
      set u := s.blockLoaded ⟨0, bufPage, 0, c3, src.hi, src.lo⟩
      have hu : Undisturbed s u := ⟨⟨rfl, rfl⟩, rfl, rfl, fun _ => rfl⟩
      rw [Prog.wp_bind]
      refine Prog.wp_mono (saveMemBlock_spec _ u) ?_ fun _ t ht => hu.trans (.of_ejected ht)
      rintro _ t rfl
      set v := u.blockSaved ⟨0, bufPage, 0, c3, dst.hi, dst.lo⟩
      have hv : Undisturbed s v := ⟨⟨rfl, rfl⟩, rfl, rfl, fun _ => rfl⟩
      simp only [Num16.val_eq_zero, hsub]
      rw [Prog.wp_ite]
      refine ⟨fun hlast => ⟨by omega, hv⟩, fun hmore => ?_⟩
      refine Prog.wp_mono (ih (pages.subPages c3) (src.addPages c3) (dst.addPages c3) v (by omega)
        (by omega) (by omega)) ?_ fun _ t ht => hv.trans ht
      rintro pos t ⟨hpos, ht⟩
      exact ⟨by omega, hv.trans ht⟩

/-- Between two entries: those below the `i`-th are as they were, and some of the others too. -/
structure Halfway (U : ℕ → Prop) (d : Byte) (n : ℕ) (c₀ : ℕ → Byte) (i : ℕ) (s₀ s : State) : Prop where
  chans : SameChans s₀ s
  drv : s.curDrv = d
  cat : s.cat = s.catOf d
  kept : KeptStarts U c₀ n s.cat
  canWrite : s.CanWrite d → s₀.CanWrite d
  before : ∀ j < i, entryAt s.cat (8 * j) = entryAt c₀ (8 * j)

section Loop

variable {U : ℕ → Prop} {d bufSize : Byte} {n i : ℕ} {c₀ : ℕ → Byte} {s₀ s : State}

lemma Halfway.skip (h : Halfway U d n c₀ (i + 1) s₀ s) : Halfway U d n c₀ i s₀ s :=
  ⟨h.chans, h.drv, h.cat, h.kept, h.canWrite, fun j hj => h.before j (by omega)⟩

lemma compactEntry_halfway (bufPage : Byte) (hb : bufSize ≠ 0) (hn : n ≤ 31) (hi : i < n)
    (hU : s₀.CanWrite d → ∀ j < n, U j → Unmoved c₀ n j) {pos : Num16}
    (hpos : pos.val = placeAt c₀ n (i + 1)) (h : Halfway U d n c₀ (i + 1) s₀ s) :
    Prog.wp (compactEntry bufPage bufSize (8 * i) pos)
      (fun pos' t => pos'.val = placeAt c₀ n i ∧ Halfway U d n c₀ i s₀ t)
      (fun _ t => SameChans s₀ t ∧ KeptStarts U c₀ n (t.catOf d)) s := by
  set e := entryAt c₀ (8 * i) with he
  have hbefore : entryAt s.cat (8 * i) = e := h.before i (Nat.lt_succ_self i)
  have hinfo : entryInfo s.cat (8 * i) = e.info := congrArg Entry.info hbefore
  have hplace := placeAt_le c₀ n (n - i) i (by omega)
  have hstep : placeAt c₀ n i = pos.val + e.sectors := by rw [placeAt_step _ hi, hpos]
  have hle := sectors_le e
  have hpages : (pagesOf e.info).val = e.sectors := pagesOf_val e.name e.info
  rw [compactEntry, Prog.wp_bind, Prog.wp_get]
  simp only [hinfo, empty_iff e]
  split_ifs with hz hst
  · exact ⟨by omega, h.skip⟩
  · refine ⟨?_, h.skip⟩
    rw [Num16.add_val (by omega), hpages, hstep]
  · simp only [Prog.wp_bind, Prog.wp_modify]
    set u : State := { s with cat := putStart s.cat (8 * i) pos } with hu
    have hcat : s.catOf d = s.cat := h.cat.symm
    refine Prog.wp_mono (saveCat_spec u) ?_ ?_
    · rintro _ v ⟨rfl, hw₀⟩
      have hwrite : s.CanWrite d := h.drv ▸ hw₀
      have hkept := h.kept.putStart (hU (h.canWrite hwrite) i hi) hn hi hbefore hz hpos
      have hv : u.cycled.catSaved.catOf d = cycledCat u.cat := State.catSaved_catOf h.drv
      refine Prog.wp_mono (moveFile_undisturbed bufPage hb 1024 (pagesOf e.info) _ pos u.cycled.catSaved
        (by omega) (by omega) (by omega)) ?_ ?_
      · rintro pos' w ⟨hpos', hw⟩
        have hwd : w.curDrv = d := hw.drv.trans h.drv
        have hwcat : w.catOf d = cycledCat u.cat := (hw.cats d).trans hv
        refine Prog.wp_mono (loadCurDrvCat_spec w) ?_ ?_
        · rintro _ x ⟨rfl, -⟩
          have hxcat : w.catLoaded.cat = cycledCat u.cat := by
            rw [State.catLoaded, hwd]
            exact hwcat
          refine ⟨by omega, h.chans.trans hw.chans, hwd, hxcat.trans hwcat.symm, ?_,
            fun _ => h.canWrite hwrite, fun j hj => ?_⟩
          · rw [hxcat]
            exact hkept.cycled hn
          · rw [hxcat, entryAt_cycledCat _ (by omega),
              entryAt_putStart_of_ne s.cat pos (by omega) (by omega) (by omega)]
            exact h.before j (by omega)
        · rintro _ x ⟨rfl, -⟩
          exact ⟨h.chans.trans hw.chans, hwcat ▸ hkept.cycled hn⟩
      · rintro _ w hw
        refine ⟨h.chans.trans hw.chans, ?_⟩
        rw [hw.cats, hv]
        exact hkept.cycled hn
    · rintro e v ⟨hej, -⟩
      have hv := Undisturbed.of_ejected hej
      refine ⟨h.chans.trans hv.chans, ?_⟩
      rw [hv.cats]
      exact hcat ▸ h.kept

lemma compactFrom_halfway (bufPage : Byte) (hb : bufSize ≠ 0) (hn : n ≤ 31)
    (hU : s₀.CanWrite d → ∀ j < n, U j → Unmoved c₀ n j) (i : ℕ) :
    ∀ (k : ℕ) (s : State) (cc : Byte) (pos : Num16), i ≤ n → i < k → cc.toNat = 8 * i →
      pos.val = placeAt c₀ n i → Halfway U d n c₀ i s₀ s →
      Prog.wp (compactFrom bufPage bufSize k cc pos)
        (fun _ t => SameChans s₀ t ∧ KeptStarts U c₀ n (t.catOf d))
        (fun _ t => SameChans s₀ t ∧ KeptStarts U c₀ n (t.catOf d)) s := by
  have h8 : (8 : Byte).toNat = 8 := rfl
  induction i with
  | zero =>
      intro k s cc pos _ hk hcc _ h
      obtain ⟨k, rfl⟩ : ∃ m, k = m + 1 := ⟨k - 1, by omega⟩
      obtain rfl : cc = 0 := toNat_eq_zero.1 hcc
      exact ⟨h.chans, h.cat ▸ h.kept⟩
  | succ i ih =>
      intro k s cc pos hi hk hcc hpos h
      obtain ⟨k, rfl⟩ : ∃ m, k = m + 1 := ⟨k - 1, by omega⟩
      have hsub : (cc - 8).toNat = 8 * i := by
        rw [BitVec.toNat_sub, h8, hcc]
        omega
      have hne : cc - 8 ≠ 0xf8 := by
        intro h
        have hnat := congrArg BitVec.toNat h
        rw [hsub] at hnat
        have hf8 : (0xf8 : Byte).toNat = 248 := rfl
        omega
      rw [compactFrom, if_neg hne, hsub, Prog.wp_bind]
      refine Prog.wp_mono (compactEntry_halfway bufPage hb hn hi hU hpos h) ?_ fun _ _ he => he
      rintro pos' t ⟨hpos', ht⟩
      exact ih k t (cc - 8) pos' (by omega) (by omega) hsub hpos' ht

end Loop

/-! ## The command -/

/-- The files that are open on the drive are not moved, as they stand where they would be put or the
drive may not be written. -/
def OpenUnmoved (d : Byte) (s : State) : Prop :=
  ∀ p ∈ slots, s.Used p → ∃ i < entryCount (s.catOf d),
    (s.chan p.1).NamedBy (entryAt (s.catOf d) (8 * i)) ∧
      (s.CanWrite d → Unmoved (s.catOf d) (entryCount (s.catOf d)) i)

section Command

variable {d : Byte} {s t : State}

/-- A catalogue with the files in use where they were holds them. -/
lemma Held.of_keptStarts (h : Held d s) (hs : SameChans s t) (hun : OpenUnmoved d s)
    (hk : KeptStarts (fun j => s.CanWrite d → Unmoved (s.catOf d) (entryCount (s.catOf d)) j) (s.catOf d)
      (entryCount (s.catOf d)) (t.catOf d)) : Held d t := by
  obtain ⟨n, hl⟩ := h.linked
  have hn := entryCount_of_eq hl.count
  rw [OpenUnmoved, hn] at hun
  rw [hn] at hk
  refine ⟨⟨by rw [hs.1]; exact h.table.bits, fun p hp hu => ?_⟩, n, ?_⟩
  · rw [hs.2]
    exact h.table.bit p hp ((hs.used p).1 hu)
  · refine Linked.of_sameChans ⟨hl.le, ?_, hl.drv, fun p hp hu => ?_⟩ hs
    · rw [hk.count]
      exact hl.count
    · obtain ⟨i, hi, ⟨hname, hstart⟩, hunmoved⟩ := hun p hp hu
      refine ⟨_, mem_entries hi, fun j => ?_, ?_⟩
      · rw [← hname j]
        exact congrArg (· &&& 0x7f) (congrFun (hk.name i hi) j)
      · rw [hk.start i hi hunmoved, hstart]

lemma cmdCompact_held (bufPage : Byte) {bufSize : Byte} (hb : bufSize ≠ 0) {chars : List Byte}
    (h : Held d s) (hd : ∀ e, s.drvParam chars = some e → e = d) (hun : OpenUnmoved d s) :
    Prog.wp (cmdCompact bufPage bufSize chars) (fun _ => Held d) (fun _ => Held d) s := by
  rw [cmdCompact, Prog.wp_bind, Prog.wp_get]
  rcases hdrv : s.drvParam chars with _ | e
  · exact h
  obtain rfl := hd e hdrv
  obtain ⟨n, hl⟩ := h.linked
  have hn := entryCount_of_eq hl.count
  have hle := hl.le
  -- nothing is closed, because the channel at offset 0 is none
  set u : State := { s with curDrv := e, chanOff := 0 }
  have hclose : (updateCatnfile 0).run { s with curDrv := e } = .ok () u := rfl
  simp only [Prog.wp_bind, Prog.wp_modify]
  rw [Prog.wp_of_ok hclose]
  refine Prog.wp_mono (loadCurDrvCat_spec u) ?_ ?_
  · rintro _ v ⟨rfl, -⟩
    have hstart : Halfway (fun j => s.CanWrite e → Unmoved (s.catOf e) n j) e n (s.catOf e) n s
        u.catLoaded := by
      refine ⟨⟨rfl, rfl⟩, rfl, rfl, ⟨rfl, fun _ _ => rfl, fun _ _ _ => rfl⟩, fun hw => hw, fun _ _ => rfl⟩
    rw [Prog.wp_get]
    refine Prog.wp_mono (compactFrom_halfway bufPage hb hle (fun hw _ _ hU => hU hw) n 32
      u.catLoaded _ ⟨2, 0⟩ le_rfl (by omega) hl.count (placeAt_self _).symm hstart) ?_ ?_
    · rintro _ w ⟨hs, hk⟩
      exact h.of_keptStarts hs hun (hn.symm ▸ hk)
    · rintro _ w ⟨hs, hk⟩
      exact h.of_keptStarts hs hun (hn.symm ▸ hk)
  · rintro _ v ⟨rfl, -⟩
    exact h.of_sameChans ⟨rfl, rfl⟩ rfl

end Command

/-! ## Runs -/

/-- The calls. -/
inductive Call where
  /-- OSFIND with A not 0 -/
  | opening (a : Byte) (chars : List Byte)
  /-- OSFIND with A=0 -/
  | closing (h : Byte)
  /-- OSBPUT, which extends the file when it has no space left -/
  | put (h v : Byte)
  /-- the creation of a file -/
  | create (chars : List Byte) (f : FileBlock)
  | delete (chars : List Byte)
  | wipe (chars : List Byte) (answers : List Bool)
  | destroy (w10c8 : Byte) (chars : List Byte) (confirmed : Bool)
  | rename (old new : List Byte)
  | access (chars attrs : List Byte)
  | compact (bufPage bufSize : Byte) (chars : List Byte)

namespace Call

/-- The routine behind a call. -/
def routine : Call → Routine Unit
  | opening a chars => do let _ ← openFile a chars
  | closing h => closeFiles h
  | put h v => bputv h v
  | create chars f => do let _ ← createFile chars f
  | delete chars => cmdDelete chars
  | wipe chars answers => cmdWipe chars answers
  | destroy w10c8 chars confirmed => cmdDestroy w10c8 chars confirmed
  | rename old new => cmdRename old new
  | access chars attrs => cmdAccess chars attrs
  | compact bufPage bufSize chars => do let _ ← cmdCompact bufPage bufSize chars

/-- The call is for drive `d`.  A `*COMPACT` without a page for its buffer would not end. -/
def OnDrive (d : Byte) (s : State) : Call → Prop
  | opening _ chars => (s.fsp chars).1.drv = d
  | closing _ => True
  | put _ _ => True
  | create chars _ => (s.fsp chars).1.drv = d
  | delete chars => (s.fsp chars).1.drv = d
  | wipe chars _ => (s.fsp chars).1.drv = d
  | destroy _ chars _ => (s.fsp chars).1.drv = d
  | rename old new => (s.fsp old).1.drv = d ∧ (s.fsp new).1.drv = d
  | access chars _ => (s.fsp chars).1.drv = d
  | compact _ bufSize chars => bufSize ≠ 0 ∧ ∀ e, s.drvParam chars = some e → e = d

/-- A `*COMPACT` is not given while a file is open that it moves. -/
def SparesOpen (d : Byte) (s : State) : Call → Prop
  | compact _ _ _ => OpenUnmoved d s
  | _ => True

end Call

/-- A call for drive `d`, ending well or with an error. -/
def CallStep (d : Byte) (s s' : State) : Prop :=
  ∃ c : Call, c.OnDrive d s ∧ s' = (c.routine.run s).state

/-- A call for drive `d` that is no `*COMPACT` of files that are open. -/
def SparingStep (d : Byte) (s s' : State) : Prop :=
  ∃ c : Call, c.OnDrive d s ∧ c.SparesOpen d s ∧ s' = (c.routine.run s).state

/-- No file is open, and the drive has a catalogue. -/
def Unopened (d : Byte) (s : State) : Prop :=
  s.inUse = 0 ∧ ∃ n ≤ 31, (s.catOf d 0x0f05).toNat = 8 * n

/-- Every channel in use is for drive `d`, and its file has an entry there with the start sector that
the channel has; what OSBGET reads at PTR is counted from the start sector of this entry. -/
def EntriesFollowed (d : Byte) (s : State) : Prop :=
  ∀ p ∈ slots, s.Used p → (s.chan p.1).drv = d ∧ ∃ i < entryCount (s.catOf d),
    (∀ j, entryName (s.catOf d) (8 * i) j &&& 0x7f = (s.chan p.1).name j &&& 0x7f) ∧
    (entryAt (s.catOf d) (8 * i)).start = (s.chan p.1).start ∧
    ((s.chan p.1).start + (s.chan p.1).ptr.val / 256 < 65536 → (s.chan p.1).atSector.sec
      = (entryAt (s.catOf d) (8 * i)).start + (s.chan p.1).ptr.val / 256)

section Runs

variable {d : Byte} {s s' : State}

lemma Unopened.held (h : Unopened d s) : Held d s := by
  obtain ⟨h0, n, hn, hcount⟩ := h
  have hfree : ∀ p, ¬ s.Used p := fun p hu => hu (by rw [h0]; exact BitVec.zero_and)
  refine ⟨⟨?_, fun p _ hu => absurd hu (hfree p)⟩, n, hn, hcount, fun p _ hu => absurd hu (hfree p),
    fun p _ hu => absurd hu (hfree p)⟩
  rw [h0]
  exact BitVec.zero_and

lemma Held.entriesFollowed (h : Held d s) : EntriesFollowed d s := by
  obtain ⟨n, hl⟩ := h.linked
  intro p hp hu
  obtain ⟨e, he, hname, hstart⟩ := hl.entry p hp hu
  obtain ⟨i, hi, rfl⟩ := List.mem_map.1 he
  refine ⟨hl.drv p hp hu, i, ?_, hname, hstart, fun hlt => ?_⟩
  · rw [entryCount_of_eq hl.count]
    exact List.mem_range.1 hi
  · rw [hstart]
    exact Chan.atSector_sec hlt

/-- Every call keeps the entries of open files. -/
lemma Held.call (h : Held d s) (h3 : d &&& 3 = d) (c : Call) (hd : c.OnDrive d s)
    (hun : c.SparesOpen d s) : Prog.wp c.routine (fun _ => Held d) (fun _ => Held d) s := by
  have hsteady : ∀ {x : Routine Unit}, Prog.wp x (fun _ => Steady d s) (fun _ => Steady d s) s →
      Prog.wp x (fun _ => Held d) (fun _ => Held d) s :=
    fun hx => Prog.wp_mono hx (fun _ _ ht => ht.held h) fun _ _ ht => ht.held h
  cases c with
  | opening a chars => exact (Prog.wp_bind _ _).2 (openFile_held a chars h hd h3)
  | closing y => exact hsteady (closeFiles_steady y h)
  | put y v => exact hsteady (bputv_steady y v h)
  | create chars f =>
      refine (Prog.wp_bind _ _).2 (Prog.wp_mono (createFile_current chars f h hd) ?_ fun _ _ he => he)
      rintro x t ⟨m, i, ht, -⟩
      exact ht.held
  | delete chars => exact (held_deletable d).cmdDelete chars h hd
  | wipe chars answers => exact (held_deletable d).cmdWipe chars answers h hd
  | destroy w10c8 chars confirmed => exact (held_deletable d).cmdDestroy w10c8 chars confirmed h hd
  | rename old new => exact cmdRename_held old new h hd.1 hd.2
  | access chars attrs => exact cmdAccess_held chars attrs h hd
  | compact bufPage bufSize chars =>
      exact (Prog.wp_bind _ _).2 (cmdCompact_held bufPage hd.1 h hd.2 hun)

lemma Held.step (h : Held d s) (h3 : d &&& 3 = d) (hstep : SparingStep d s s') : Held d s' := by
  obtain ⟨c, hd, hun, rfl⟩ := hstep
  exact Prog.wp_state (h.call h3 c hd hun)

/-- **Open files keep their sectors.**  In every run of calls on one drive that begins with no file
open, and in which no `*COMPACT` is given while a file is open that it would move, every channel in
use has the start sector that the entry of its file has. -/
theorem runs_entriesFollowed (h3 : d &&& 3 = d) (h : Reachable (Unopened d) (SparingStep d) s) :
    EntriesFollowed d s :=
  (h.invariant (fun _ h0 => Unopened.held h0) fun _ _ hh hstep => Held.step hh h3 hstep).entriesFollowed

end Runs

/-- A writable disk with the file `$.A` in sector 5 and nothing below it. -/
def gapBelow : State :=
  { twoBytes with
    diskMark := fun _ => 0x54
    cats := fun n => Function.update (Function.update (twoBytes.cats n) 0x0f0f 5) 0x0f06 3 }

/-- The file has been opened for input. -/
def gapBelowOpen : State := ((Call.opening 0x40 [0x41]).routine.run gapBelow).state

lemma gapBelow_unopened : Unopened 0 gapBelow := ⟨rfl, 1, by decide, rfl⟩

theorem gapBelowOpen_followed : EntriesFollowed 0 gapBelowOpen :=
  runs_entriesFollowed (d := 0) rfl
    (.next (.start gapBelow_unopened) ⟨.opening 0x40 [0x41], rfl, trivial, rfl⟩)

/-- `*COMPACT` then moves the file to sector 2, and the channel goes on with sector 5. -/
theorem gapBelowOpen_compacted : ¬ ∀ s, Reachable (Unopened 0) (CallStep 0) s → EntriesFollowed 0 s := by
  intro h
  set t := ((Call.compact 0x19 1 []).routine.run gapBelowOpen).state with ht
  have hopen : Reachable (Unopened 0) (CallStep 0) gapBelowOpen :=
    .next (.start gapBelow_unopened) ⟨.opening 0x40 [0x41], rfl, rfl⟩
  have hon : (Call.compact 0x19 1 []).OnDrive 0 gapBelowOpen := by
    refine ⟨by decide, fun e he => ?_⟩
    exact (Option.some.inj he).symm
  have hfacts : t.Used (0x20, 0x80) ∧ entryCount (t.catOf 0) = 1 ∧ (entryAt (t.catOf 0) 0).start = 2 ∧
      (t.chan 0x20).start = 5 := by
    rw [ht]
    decide +kernel
  obtain ⟨hu, hone, h2, h5⟩ := hfacts
  obtain ⟨-, i, hi, -, hstart, -⟩ := h t (.next hopen ⟨_, hon, rfl⟩) (0x20, 0x80) (by simp [slots]) hu
  obtain rfl : i = 0 := by omega
  exact absurd (h2.symm.trans (hstart.trans h5)) (by decide)

end Udfs.Rom
