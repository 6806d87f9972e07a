import Udfs.Rom.Coherence
import Udfs.Rom.Refusals
import Udfs.Rom.Space

/-!
# The layout of a disk

Files are made, deleted, extended and closed in any order on one drive, from an empty catalogue on.
The entries stay packed between sector 2 and the end of the disk.  There are two exceptions.  A file
that comes into a catalogue without any other entry is put at sector 2 whatever its length, and a
length that is written back goes to the entry that a search finds for the name of the channel, which
may be that of another file.
-/

namespace Udfs.Rom

open Extents

/-! ## Entries that come and go -/

section Buffers

variable {s t : State} {d : Byte} {T n i : ℕ} {c c' : ℕ → Byte}

/-- The channels are the same, and the catalogue on the disk is packed. -/
lemma Tidy.of_sameChans (h : Tidy d T s) (hs : SameChans s t) (hw : t.CanWrite d → s.CanWrite d)
    (hl : ∃ n, Laid t d T n (t.catOf d)) : Tidy d T t where
  table := by
    refine ⟨by rw [hs.1]; exact h.table.bits, fun q hq hu => ?_⟩
    rw [hs.2]
    exact h.table.bit q hq ((hs.used q).1 hu)
  sized hwt q hq hu := by
    rw [hs.2]
    exact h.sized (hw hwt) q hq ((hs.used q).1 hu)
  apart q hq r hr hne huq hur hal := by
    rw [hs.2] at hal
    rw [hs.readOnly, hs.readOnly]
    exact h.apart q hq r hr hne ((hs.used q).1 huq) ((hs.used r).1 hur) hal
  laid := hl

/-- Only the working storage and the buffer have changed. -/
lemma Tidy.of_idle (h : Tidy d T s) (hs : Idle s t) : Tidy d T t :=
  (hs.closes d).tidy_of_cat h (hs.cats.catOf d)

lemma Tidy.held (h : Tidy d T s) : Held d s := by
  obtain ⟨n, hl⟩ := h.laid
  exact ⟨h.table, n, hl.toLinked⟩

lemma Laid.cycled (h : Laid s d T n c) : Laid s d T n (cycledCat c) where
  toLinked := h.toLinked.of_starts (StartsKept.refl c).cycled
  packed := by
    have htotal : totalSectors (cycledCat c) = totalSectors c := (StartsKept.refl c).cycled.boundAt_eq 0
    rw [WellPacked, htotal, cycledCat, entries_update c _ h.le (by decide) (by decide)]
    exact h.packed
  total := ((StartsKept.refl c).cycled.boundAt_eq 0).trans h.total
  space hw p hp hu hro := by
    have hle := h.le
    obtain ⟨j, hj, hb⟩ := h.space hw p hp hu hro
    refine ⟨j, hj, ?_⟩
    rw [entryAt_cycledCat c (by omega)]
    exact hb

lemma deletedCat_total (c : ℕ → Byte) (hn : n ≤ 31) (hi : i < n) :
    totalSectors (deletedCat c n i) = totalSectors c := by
  have h6 : InHeader 0x0f06 := ⟨by decide, by decide⟩
  have h7 : InHeader 0x0f07 := ⟨by decide, by decide⟩
  rw [totalSectors, totalSectors, boundAt, boundAt, deletedCat_header c hn hi h6, deletedCat_header c hn hi h7]

/-- An entry of no open file is taken out. -/
lemma Laid.delete (h : Laid s d T n c) (hi : i < n) (hun : Unheld s c i) :
    Laid s d T (n - 1) (deletedCat c n i) where
  toLinked := h.toLinked.delete hi hun
  packed := by
    rw [WellPacked, deletedCat_total c h.le hi, entries_deletedCat c h.le hi]
    exact h.packed.eraseIdx i
  total := (deletedCat_total c h.le hi).trans h.total
  space hw p hp hu hro := by
    obtain ⟨j, hj, hb, hle⟩ := h.space hw p hp hu hro
    have hne : j ≠ i := by
      rintro rfl
      exact hun p hp hu hb
    have hmem : entryAt c (8 * j) ∈ entries (deletedCat c n i) (n - 1) := by
      rw [entries_deletedCat c h.le hi]
      exact List.mem_eraseIdx_iff_getElem.2 ⟨j, by simpa using hj, hne, entries_getElem c _⟩
    obtain ⟨k, hk, he⟩ := List.mem_map.1 hmem
    refine ⟨k, List.mem_range.1 hk, ?_⟩
    rw [he]
    exact ⟨hb, hle⟩

/-- An entry is put in. -/
lemma Laid.insert (h : Laid s d T n c) (hn : n ≤ 30) (hi : i ≤ n) {e : Entry}
    (hcount : (c' 0x0f05).toNat = 8 * (n + 1)) (hentries : entries c' (n + 1) = (entries c n).insertIdx i e)
    (htotal : totalSectors c' = totalSectors c)
    (hpacked : Packed Entry.start Entry.sectors 2 T ((entries c n).insertIdx i e)) :
    Laid s d T (n + 1) c' where
  toLinked := h.toLinked.insert hn hi hcount hentries
  packed := by
    rw [WellPacked, hentries, htotal, h.total]
    exact hpacked
  total := htotal.trans h.total
  space hw p hp hu hro := by
    obtain ⟨j, hj, hb, hle⟩ := h.space hw p hp hu hro
    have hmem : entryAt c (8 * j) ∈ entries c' (n + 1) := by
      rw [hentries, List.mem_insertIdx (by simpa using hi)]
      exact Or.inr (mem_entries hj)
    obtain ⟨k, hk, he⟩ := List.mem_map.1 hmem
    refine ⟨k, List.mem_range.1 hk, ?_⟩
    rw [he]
    exact ⟨hb, hle⟩

/-- The catalogue of drive `d` is in the buffer, which may have been edited. -/
structure Fitted (d : Byte) (T n : ℕ) (s : State) : Prop where
  tidy : Tidy d T s
  drv : s.curDrv = d
  laid : Laid s d T n s.cat

lemma Fitted.of_idle (h : Fitted d T n s) (hs : Idle s t) (hd : t.curDrv = s.curDrv)
    (hl : Laid s d T i t.cat) : Fitted d T i t :=
  ⟨h.tidy.of_idle hs, hd.trans h.drv, hl.of_sameChans hs.chans (hs.canWrite d)⟩

/-- What is saved is packed. -/
lemma saveCat_tidy (h : Tidy d T s) (hd : s.curDrv = d) (hl : s.CanWrite d → Laid s d T n s.cat) :
    Prog.wp saveCat (fun _ t => Fitted d T n t ∧ t.cat = t.catOf d) (fun _ => Tidy d T) s := by
  refine Prog.wp_mono (saveCat_spec s) ?_ ?_
  · rintro _ t ⟨rfl, hw⟩
    have hcat : s.cycled.catSaved.catOf d = cycledCat s.cat := State.catSaved_catOf hd
    have hsame : SameChans s s.cycled.catSaved := ⟨rfl, rfl⟩
    have hlaid : Laid s.cycled.catSaved d T n (cycledCat s.cat) :=
      (hl (hd ▸ hw)).cycled.of_sameChans hsame fun hw => hw
    refine ⟨⟨h.of_sameChans hsame (fun hw => hw) ⟨n, ?_⟩, hd, hlaid⟩, hcat.symm⟩
    rw [hcat]
    exact hlaid
  · rintro _ t ⟨hej, -⟩
    have hidle : Idle s s.cycled := ⟨⟨rfl, rfl⟩, ⟨rfl, rfl, rfl⟩, fun _ hw => hw⟩
    exact h.of_idle (hidle.trans (.of_ejected hej))

/-- Without an error an entry is of no open file, and not locked. -/
lemma deleteEntry_fitted (h : Fitted d T n s) (hi : i < n) :
    Prog.wp (deleteEntry (8 * i))
      (fun _ t => Fitted d T (n - 1) t ∧ (¬ s.IsLocked (8 * i) ∧ ¬ s.IsOpen (8 * i)) ∧
        (t.CanWrite d → s.CanWrite d)) (fun _ => Tidy d T) s := by
  have hbuf : Buffered d n s := ⟨h.tidy.held, h.drv, h.laid.toLinked⟩
  simp only [deleteEntry, Prog.wp_bind, Prog.wp_modify]
  refine Prog.wp_mono (checkLockedOpen_spec (8 * i) s) ?_ ?_
  · rintro _ t ⟨⟨p, rfl⟩, hfree⟩
    have hc : (s.noting p).count = 8 * n := h.laid.count
    rw [hc]
    have hidle : Idle s { s.noting p with cat := deletedCat s.cat n i } :=
      ⟨⟨rfl, rfl⟩, ⟨rfl, rfl, rfl⟩, fun _ hw => hw⟩
    exact ⟨h.of_idle hidle rfl (h.laid.delete hi (hbuf.unheld hfree.2)), hfree, fun hw => hw⟩
  · rintro e t ⟨⟨p, rfl⟩, -⟩
    have hidle : Idle s (s.noting p) := ⟨⟨rfl, rfl⟩, ⟨rfl, rfl, rfl⟩, fun _ hw => hw⟩
    exact h.tidy.of_idle hidle

/-- The length of a new entry has eighteen bits. -/
lemma newEntry_length_mod (s : State) (f : FileBlock) (len : Num24) (c4 c5 : Byte) :
    (newEntry s f len c4 c5).length = len.val % 262144 := by
  have h3 := congrArg BitVec.toNat (mixedByte_length f.w1076 len.hi f.w1074 c4)
  have hlo := byte_lt len.lo
  have hmid := byte_lt len.mid
  rw [lsr4And3_toNat, toNat_and_three] at h3
  simp only [Entry.length, newEntry, newInfo, Matrix.cons_val, Num24.val]
  omega

/-- A new entry is put in where it keeps the entries packed, and saved. -/
lemma writeNewEntry_tidy (f : FileBlock) (len : Num24) (c4 c5 : Byte) (h : Fitted d T n s) (hn : n ≤ 30)
    (hi : i ≤ n) (hpacked : s.CanWrite d →
      Packed Entry.start Entry.sectors 2 T ((entries s.cat n).insertIdx i (newEntry s f len c4 c5))) :
    Prog.wp (writeNewEntry f len (8 * i) c4 c5)
      (fun x t => Fitted d T (n + 1) t ∧ t.cat = t.catOf d ∧ x = 8 * i) (fun _ => Tidy d T)
      { s with cat := shiftUp s.cat (8 * n - 8 * i) (8 * n) } := by
  have hplaced := placed_cycled s (newEntry s f len c4 c5) hn hi h.laid.count
  set t := s.placed n i (newEntry s f len c4 c5)
  have hcyc : ∀ a, a ≠ 0x0f04 → t.cycled.cat a = t.cat a := fun a ha => Function.update_of_ne ha ..
  have hentries : entries t.cat (n + 1) = (entries s.cat n).insertIdx i (newEntry s f len c4 c5) := by
    rw [← hplaced.entries]
    exact (entries_update t.cat _ (by omega) (by decide) (by decide)).symm
  have htotal : totalSectors t.cat = totalSectors s.cat := by
    rw [← hplaced.total, totalSectors, totalSectors, boundAt, boundAt, hcyc _ (by decide), hcyc _ (by decide)]
  have hcount := (congrArg BitVec.toNat (hcyc 0x0f05 (by decide))).symm.trans hplaced.count
  have hidle : Idle s t := ⟨⟨rfl, rfl⟩, ⟨rfl, rfl, rfl⟩, fun _ hw => hw⟩
  simp only [writeNewEntry, Prog.wp_bind, Prog.wp_modify, Prog.wp_pure]
  refine Prog.wp_mono (saveCat_tidy (n := n + 1) (h.tidy.of_idle hidle) h.drv fun hw => ?_) ?_ fun _ _ ht => ht
  · exact (h.laid.insert hn hi hcount hentries htotal (hpacked hw)).of_sameChans hidle.chans fun hw => hw
  · rintro _ u ⟨hu, hcat⟩
    exact ⟨hu, hcat, trivial⟩

/-- A new entry goes where its sectors fit, unless there is no other. -/
lemma addEntry_tidy (f : FileBlock) (len : Num24) (h : Fitted d T n s)
    (hfit : n = 0 → s.CanWrite d → 2 + sectorsOf (len.val % 262144) ≤ T) :
    Prog.wp (addEntry f len)
      (fun x t => ∃ m i : ℕ, Fitted d T m t ∧ t.cat = t.catOf d ∧ i < m ∧ x = 8 * i) (fun _ => Tidy d T) s := by
  have hcount : s.count = 8 * n := h.laid.count
  have hle := h.laid.le
  rcases Nat.eq_zero_or_pos n with rfl | hpos
  · have hput := writeNewEntry_tidy (i := 0) f len 0 2 h (Nat.zero_le 30) le_rfl fun hw => ?_
    · rw [addEntry, Prog.wp_bind, Prog.wp_get, if_pos hcount]
      refine Prog.wp_mono hput ?_ fun _ _ ht => ht
      rintro x t ⟨ht, hcat, rfl⟩
      exact ⟨1, 0, ht, hcat, Nat.one_pos, rfl⟩
    · have hstart : (newEntry s f len 0 2).start = 2 := newEntry_start s f len (by decide)
      refine ⟨hstart.ge, ?_, trivial⟩
      rw [hstart, Entry.sectors, newEntry_length_mod]
      exact hfit rfl hw
  · by_cases hfull : n = 31
    · rw [addEntry, Prog.wp_bind, Prog.wp_get, if_neg (by omega), if_pos (by omega), Prog.wp_fail]
      exact h.tidy
    · rcases addEntry_cases f len hpos (by omega) hcount h.laid.packed with
        ⟨-, hrun⟩ | ⟨i, c4, c5, hlow, hval, hrun⟩
      · rw [Prog.wp_of_err hrun]
        exact h.tidy
      · rw [Prog.wp, hrun, ← Prog.wp]
        have hnew := newEntryAt (f := f) hlow.1 hlow.2.1 hval
        refine Prog.wp_mono (writeNewEntry_tidy f len c4 c5 h (by omega) hlow.1 fun _ => ?_) ?_ fun _ _ ht => ht
        · rw [← h.laid.total]
          refine h.laid.packed.insertIdx (by simpa using hlow.1) hnew.start ?_
          rw [Entry.sectors, hnew.length]
          exact hlow.2.1
        · rintro x t ⟨ht, hcat, rfl⟩
          exact ⟨n + 1, i, ht, hcat, by have := hlow.1; omega, rfl⟩

/-! ## Creating and deleting -/

lemma readFsp_tidy (chars : List Byte) (h : Tidy d T s) (hd : (s.fsp chars).1.drv = d) :
    Prog.wp (readFsp chars)
      (fun _ t => t = s.withFsp (s.fsp chars).1 ∧ (s.fsp chars).2 = none ∧ Tidy d T t ∧ t.curDrv = d)
      (fun _ => Tidy d T) s := by
  have hidle : Idle s (s.withFsp (s.fsp chars).1) := ⟨⟨rfl, rfl⟩, ⟨rfl, rfl, rfl⟩, fun _ hw => hw⟩
  refine Prog.wp_mono (readFsp_spec chars s) ?_ ?_
  · rintro _ t ⟨rfl, hok⟩
    exact ⟨rfl, hok, h.of_idle hidle, hd⟩
  · rintro e t ⟨rfl, -⟩
    exact h.of_idle hidle

/-- A search loads the catalogue, and stops at the first entry that the name covers. -/
lemma searchCat_fitted (h : Tidy d T s) (hd : s.curDrv = d) :
    Prog.wp searchCat
      (fun r t => ∃ n, Fitted d T n t ∧ t = s.searched ∧
        ((∃ i, r = some (8 * i) ∧ FirstMatch s.wildcard s.filenameParam (s.catOf d) n i) ∨
          (r = none ∧ ∀ i < n, ¬ CoversName s.wildcard s.filenameParam (entryName (s.catOf d) (8 * i)))))
      (fun _ => Tidy d T) s := by
  refine Prog.wp_mono (searchCat_spec s) ?_ ?_
  · rintro r t ⟨rfl, rfl, -⟩
    obtain ⟨n, hl⟩ := h.laid
    have hn := entryCount_of_eq hl.count
    have hidle : Idle s s.searched := ⟨⟨rfl, rfl⟩, ⟨rfl, rfl, rfl⟩, fun _ hw => hw⟩
    have hcat : s.searched.cat = s.catOf d := congrArg s.catOf hd
    refine ⟨n, ⟨h.of_idle hidle, hd, ?_⟩, rfl, ?_⟩
    · rw [hcat]
      exact hl.of_sameChans hidle.chans fun hw => hw
    · rw [State.found, hd]
      rcases nextEntry_first (w := s.wildcard) (f := s.filenameParam) (hn.trans_le hl.le) with
        ⟨i, z, hz, hi, hmatch⟩ | ⟨hnone, hall⟩
      · rw [hz, ← hn]
        exact Or.inl ⟨i, congrArg some hi, hmatch⟩
      · rw [hnone, ← hn]
        exact Or.inr ⟨rfl, hall⟩
  · rintro e t ⟨rfl, -⟩
    exact h

/-- A creation leaves the new entry alone in the catalogue: there is no other, or only the one that it
replaces. -/
structure EntersAlone (d : Byte) (s : State) (chars : List Byte) : Prop where
  canWrite : s.CanWrite d
  parsed : (s.fsp chars).2 = none
  alone : entryCount (s.catOf d) = 0 ∨ entryCount (s.catOf d) = 1 ∧
    CoversName s.wildcard (s.fsp chars).1.name (entryName (s.catOf d) 0) ∧
    ¬ (entryAt (s.catOf d) 0).Locked ∧ ¬ s.OpenOn d (entryName (s.catOf d) 0)

lemma createFile_tidy (chars : List Byte) (f : FileBlock) (h : Tidy d T s) (hd : (s.fsp chars).1.drv = d)
    (hfit : EntersAlone d s chars → 2 + sectorsOf (f.length.val % 262144) ≤ T) :
    Prog.wp (createFile chars f)
      (fun x t => ∃ m i : ℕ, Fitted d T m t ∧ t.cat = t.catOf d ∧ i < m ∧ x = 8 * i) (fun _ => Tidy d T) s := by
  rw [createFile, Prog.wp_bind]
  refine Prog.wp_mono (readFsp_tidy chars h hd) ?_ fun _ _ ht => ht
  rintro _ t ⟨rfl, hok, ht, htd⟩
  rw [Prog.wp_bind]
  refine Prog.wp_mono (searchCat_fitted ht htd) ?_ fun _ _ hu => hu
  rintro r u ⟨n, hu, rfl, hr⟩
  set u := (s.withFsp (s.fsp chars).1).searched with hudef
  have hcat : u.cat = s.catOf d := congrArg s.catOf hd
  have hn : entryCount (s.catOf d) = n := by
    rw [← hcat]
    exact entryCount_of_eq hu.laid.count
  rcases hr with ⟨i, rfl, hmatch⟩ | ⟨rfl, -⟩
  · simp only [Prog.wp_bind]
    refine Prog.wp_mono (deleteEntry_fitted hu hmatch.lt) ?_ fun _ _ hv => hv
    rintro _ v ⟨hv, ⟨hlocked, hopen⟩, hvw⟩
    refine addEntry_tidy f f.length hv fun h0 hw => hfit ⟨hvw hw, hok, Or.inr ?_⟩
    have hlt := hmatch.lt
    obtain rfl : i = 0 := by omega
    rw [State.isLocked_iff, hcat] at hlocked
    rw [State.isOpen_iff, hcat, hu.drv] at hopen
    exact ⟨by omega, hmatch.covers, hlocked, hopen⟩
  · exact addEntry_tidy f f.length hu fun h0 hw => hfit ⟨hw, hok, Or.inl (hn.trans h0)⟩

/-- The commands set the wildcard. -/
lemma Tidy.withWildcard (h : Tidy d T s) (w : Byte) : Tidy d T { s with wildcard := w } := by
  obtain ⟨n, hl⟩ := h.laid
  exact h.of_sameChans ⟨rfl, rfl⟩ (fun hw => hw) ⟨n, hl.of_sameChans ⟨rfl, rfl⟩ fun hw => hw⟩

lemma findFile_fitted (h : Tidy d T s) (hd : s.curDrv = d) :
    Prog.wp findFile (fun y t => ∃ n i : ℕ, Fitted d T n t ∧ i < n ∧ y = 8 * i) (fun _ => Tidy d T) s := by
  rw [findFile, Prog.wp_bind]
  refine Prog.wp_mono (searchCat_fitted h hd) ?_ fun _ _ ht => ht
  rintro r t ⟨n, ht, -, ⟨i, rfl, hmatch⟩ | ⟨rfl, -⟩⟩
  · exact ⟨n, i, ht, hmatch.lt, rfl⟩
  · exact ht.tidy

lemma cmdDelete_tidy (chars : List Byte) (h : Tidy d T s) (hd : (s.fsp chars).1.drv = d) :
    Prog.wp (cmdDelete chars) (fun _ => Tidy d T) (fun _ => Tidy d T) s := by
  have hw := h.withWildcard 0xff
  simp only [cmdDelete, Prog.wp_bind, Prog.wp_modify, Prog.wp_ite, Prog.wp_fail]
  refine ⟨fun _ => hw, fun _ => ?_⟩
  refine Prog.wp_mono (readFsp_tidy chars hw hd) ?_ fun _ _ ht => ht
  rintro _ t ⟨-, -, ht, htd⟩
  refine Prog.wp_mono (findFile_fitted ht htd) ?_ fun _ _ hu => hu
  rintro y u ⟨n, i, hu, hi, rfl⟩
  refine Prog.wp_mono (deleteEntry_fitted hu hi) ?_ fun _ _ hv => hv
  rintro _ v ⟨hv, -, -⟩
  exact Prog.wp_mono (saveCat_tidy hv.tidy hv.drv fun _ => hv.laid) (fun _ _ hx => hx.1.tidy) fun _ _ hx => hx

/-! ## Opening -/

/-- An entry's sectors, as a number of bytes. -/
lemma spaceOf_val (e : Entry) (h : e.sectors < 1024) :
    (spaceOf e.info).lo = 0 ∧ (spaceOf e.info).val = 256 * e.sectors := by
  simp only [Entry.sectors, Entry.length, sectorsOf] at h ⊢
  rw [spaceOf]
  generalize e.info 4 = l0 at h ⊢
  generalize e.info 5 = l1 at h ⊢
  generalize e.info 6 = m at h ⊢
  have h0 := adc_eq l0 0xff false
  have h1 := adc_eq l1 0 (adc l0 0xff false).2
  have h2 := adc_eq (m ||| 0x0f) 0 (adc l1 0 (adc l0 0xff false).2).2
  have hor : ∀ m : Byte, (m ||| 0x0f).toNat = 16 * (m.toNat / 16) + 15 := by decide
  have hff : (0xff : Byte).toNat = 255 := rfl
  have hz : (0 : Byte).toNat = 0 := rfl
  have hb0 := byte_lt (adc l0 0xff false).1
  have hb1 := byte_lt (adc l1 0 (adc l0 0xff false).2).1
  have hb2 := byte_lt (adc (m ||| 0x0f) 0 (adc l1 0 (adc l0 0xff false).2).2).1
  have hc0 := toNat_bool_le (adc l0 0xff false).2
  have hc1 := toNat_bool_le (adc l1 0 (adc l0 0xff false).2).2
  have hc2 := toNat_bool_le (adc (m ||| 0x0f) 0 (adc l1 0 (adc l0 0xff false).2).2).2
  have hl0 := byte_lt l0
  have hl1 := byte_lt l1
  have hm := byte_lt m
  rw [hor, hz] at h2
  rw [hz] at h1
  simp only [hff, Bool.toNat_false] at h0
  refine ⟨rfl, ?_⟩
  simp only [Num24.val, lsr4And3_toNat, hz]
  generalize adc l0 0xff false = r0 at *
  generalize adc l1 0 r0.2 = r1 at *
  generalize adc (m ||| 0x0f) 0 r1.2 = r2 at *
  -- the carry goes on into the two bits above the filled ones
  have htop : r2.1.toNat / 16 % 4 = (m.toNat / 16 + r1.2.toNat) % 4 := by
    have hq : m.toNat / 16 ≤ 15 := by omega
    generalize m.toNat / 16 = q at h2 hq ⊢
    have hk : r2.2.toNat = 0 ∧ r2.1.toNat / 16 = q + r1.2.toNat ∨ r2.1.toNat = 0 ∧ q + r1.2.toNat = 16 := by
      rcases Nat.le_one_iff_eq_zero_or_eq_one.1 hc2 with hk | hk <;> rw [hk] at h2 <;> omega
    rcases hk with ⟨-, hk⟩ | ⟨hk, hq'⟩
    · rw [hk]
    · rw [hk, hq']
  have hsec : (l0.toNat + 256 * l1.toNat + 65536 * (m.toNat / 16 % 4) + 255) / 256
      = l1.toNat + r0.2.toNat + 256 * (m.toNat / 16 % 4) := by omega
  rw [hsec] at h ⊢
  rw [htop]
  omega

/-- The channel for an entry that is opened counts the sectors of the entry. -/
lemma newChan_sized {a drv y b : Byte} (hdrv : drv &&& 3 = drv) (e : Entry) (h : e.sectors < 1024) :
    (newChan a drv y b e.name e.info).Sized := by
  obtain ⟨hlo, hval⟩ := spaceOf_val e h
  have h0 : (⟨0, 0, 0⟩ : Num24).val = 0 := rfl
  have hlen : e.length ≤ 256 * e.sectors := (sectorsOf_le_iff _ _).1 le_rfl
  refine ⟨hlo, Nat.zero_le _, ?_, fun _ hdue => ?_⟩
  · show (if a &&& 0x40 ≠ 0 then (⟨e.info 4, e.info 5, lsr4And3 (e.info 6)⟩ : Num24) else ⟨0, 0, 0⟩).val
      ≤ (spaceOf e.info).val
    rw [hval]
    split_ifs
    · rw [Num24.val, lsr4And3_toNat]
      exact hlen
    · exact Nat.zero_le _
  · show (if a &&& 0x40 ≠ 0 then (⟨e.info 4, e.info 5, lsr4And3 (e.info 6)⟩ : Num24) else ⟨0, 0, 0⟩).val = 0
    -- a file that is opened for input or update has no length to be written
    have hin : ∀ b : Byte, b &&& 3 = b → (b ||| 0) &&& 0x20 = 0 := by decide
    split_ifs with hin'
    · refine absurd ?_ hdue
      show (drv ||| (if a &&& 0x40 ≠ 0 then 0 else 0x20)) &&& 0x20 = 0
      rw [if_pos hin']
      exact hin drv hdrv
    · rfl

/-- A channel that is opened has the sectors of the entry that it is opened on. -/
lemma Fitted.opened (h : Fitted d T n s) (hcat : s.cat = s.catOf d) (h3 : d &&& 3 = d) (hi : i < n) {a : Byte}
    (hmode : OpenMode a) (hper : s.Permits a (8 * i) slots) {p : Byte × Byte} (hp : p ∈ slots)
    (hfree : ¬ s.Used p) : Tidy d T (s.opened a (8 * i) p) := by
  have hself := opened_chan_self s a (8 * i) p
  have hother : ∀ q ∈ slots, q ≠ p → (s.opened a (8 * i) p).chan q.1 = s.chan q.1 :=
    fun q hq hqp => opened_chan_of_ne s a (8 * i) hp hq hqp
  have hold : ∀ q ∈ slots, q ≠ p → (s.opened a (8 * i) p).Used q → s.Used q :=
    fun q hq hqp hu => ((used_opened s a (8 * i) hp hq).1 hu).resolve_left hqp
  have hfit := (wellPacked_iff.1 h.laid.packed i hi).2
  have hbound : boundAt s.cat (8 * i) < 1024 := by
    have := byte_lt (s.cat (0x0f07 + 8 * i))
    rw [boundAt]
    omega
  have hsec : (entryAt s.cat (8 * i)).sectors < 1024 := by omega
  have hcurrent : Current d n s := ⟨⟨h.tidy.held, h.drv, h.laid.toLinked⟩, hcat⟩
  have hheld := hcurrent.opened hi h3 a hp
  have hinv : FindInv s {q | q ∈ slots ∧ s.Used q} :=
    ⟨h.tidy.table, fun q hq => hq.1, fun q hq => ⟨fun hu => ⟨hq, hu⟩, fun hu => hu.2⟩,
      fun q hq r hr hne => h.tidy.apart q hq.1 r hr.1 hne hq.2 hr.2⟩
  have hinv' := hinv.opened hmode hper hp hfree
  refine ⟨hheld.table, fun hw q hq hu => ?_, fun q hq r hr hne huq hur => ?_, ?_⟩
  · by_cases hqp : q = p
    · rw [hqp, hself]
      exact newChan_sized (by rw [h.drv]; exact h3) (entryAt s.cat (8 * i)) hsec
    · rw [hother q hq hqp]
      exact h.tidy.sized hw q hq (hold q hq hqp hu)
  · exact hinv'.exclusive q ((hinv'.used_iff q hq).1 huq) r ((hinv'.used_iff r hr).1 hur) hne
  · obtain ⟨m, hm⟩ := hheld.linked
    have hcatOf : (s.opened a (8 * i) p).catOf d = s.cat := hcat.symm
    obtain rfl : m = n := by
      have h1 := hm.count
      have h2 := h.laid.count
      rw [hcatOf] at h1
      omega
    refine ⟨m, hm, ?_, ?_, fun hw q hq hu hro => ?_⟩ <;> rw [hcatOf]
    · exact h.laid.packed
    · exact h.laid.total
    · by_cases hqp : q = p
      · rw [hqp, hself]
        refine ⟨i, hi, ⟨fun j => (newChan_name ..).symm, rfl⟩, ?_⟩
        exact (spaceOf_val (entryAt s.cat (8 * i)) hsec).2.le
      · rw [State.ReadOnly, hother q hq hqp] at hro
        rw [hother q hq hqp]
        exact h.laid.space hw q hq (hold q hq hqp hu) hro

/-- A file that is made for an opening for output comes into a catalogue without any entry. -/
structure OpensAlone (d : Byte) (s : State) (a : Byte) (chars : List Byte) : Prop where
  output : a &&& 0x40 = 0
  canWrite : s.CanWrite d
  parsed : (s.fsp chars).2 = none
  empty : entryCount (s.catOf d) = 0

lemma locate_tidy (a : Byte) (chars : List Byte) (h : Tidy d T s) (hd : (s.fsp chars).1.drv = d)
    (hfit : OpensAlone d s a chars → 2 + sectorsOf (findBlock.length.val % 262144) ≤ T) :
    Prog.wp (locate a chars)
      (fun r t => Tidy d T t ∧ ∀ x, r = some x → ∃ m i : ℕ, Fitted d T m t ∧ t.cat = t.catOf d ∧ i < m ∧ x = 8 * i)
      (fun _ => Tidy d T) s := by
  rw [locate, Prog.wp_bind]
  refine Prog.wp_mono (readFsp_tidy chars h hd) ?_ fun _ _ ht => ht
  rintro _ t ⟨rfl, hok, ht, htd⟩
  rw [Prog.wp_bind]
  refine Prog.wp_mono (searchCat_fitted ht htd) ?_ fun _ _ hu => hu
  rintro r u ⟨n, hu, rfl, hr⟩
  set u := (s.withFsp (s.fsp chars).1).searched with hudef
  have hcat : u.cat = s.catOf d := congrArg s.catOf hd
  rcases hr with ⟨i, rfl, hmatch⟩ | ⟨rfl, hnone⟩
  · refine ⟨hu.tidy, fun x hx => ⟨n, i, hu, hcat, hmatch.lt, (Option.some.inj hx).symm⟩⟩
  · have hn : entryCount (s.catOf d) = n := by
      rw [← hcat]
      exact entryCount_of_eq hu.laid.count
    simp only [Prog.wp_ite, Prog.wp_pure, Prog.wp_bind]
    refine ⟨fun _ => ⟨hu.tidy, fun x hx => by cases hx⟩, fun hout => ?_⟩
    refine Prog.wp_mono (createFile_tidy chars findBlock hu.tidy hd fun halone => ?_) ?_ fun _ _ hv => hv
    · refine hfit ⟨not_not.1 hout, halone.canWrite, hok, ?_⟩
      rcases halone.alone with h0 | ⟨h1, hcov, -⟩
      · exact h0
      · have h1' : n = 1 := hn.symm.trans h1
        exact absurd hcov (hnone 0 (by omega))
    · rintro x v ⟨m, i, hv, hvcat, hi, rfl⟩
      exact ⟨hv.tidy, fun x hx => ⟨m, i, hv, hvcat, hi, (Option.some.inj hx).symm⟩⟩

lemma openFile_tidy {a : Byte} (chars : List Byte) (h : Tidy d T s) (hd : (s.fsp chars).1.drv = d)
    (h3 : d &&& 3 = d) (hmode : OpenMode a)
    (hfit : OpensAlone d s a chars → 2 + sectorsOf (findBlock.length.val % 262144) ≤ T) :
    Prog.wp (openFile a chars) (fun _ => Tidy d T) (fun _ => Tidy d T) s := by
  rw [openFile, Prog.wp_bind]
  refine Prog.wp_mono (locate_tidy a chars h hd hfit) ?_ fun _ _ ht => ht
  rintro r t ⟨ht, hr⟩
  rcases r with _ | x
  · exact ht
  · obtain ⟨m, i, hfitted, hcat, hi, rfl⟩ := hr x rfl
    refine Prog.wp_mono (openFound_spec a (8 * i) t) ?_ ?_
    · rintro _ u ⟨-, hper, p, hp, hfree, -, rfl⟩
      exact hfitted.opened hcat h3 hi hmode hper hp hfree
    · rintro e u ⟨⟨p, rfl⟩, -⟩
      exact ht.of_idle ⟨⟨rfl, rfl⟩, ⟨rfl, rfl, rfl⟩, fun _ hw => hw⟩

end Buffers

/-! ## Runs -/

namespace Call

/-- Creations, deletions, extensions and closes, and the openings that make the channels for them. -/
def OfFiles : Call → Prop
  | opening a _ => OpenMode a
  | closing _ => True
  | put _ _ => True
  | create _ _ => True
  | delete _ => True
  | _ => False

/-- A file that becomes the only one of the disk is not too long for it, and a length is written into
no entry of another name. -/
def Fits (d : Byte) (s : State) : Call → Prop
  | opening a chars => OpensAlone d s a chars →
      2 + sectorsOf (findBlock.length.val % 262144) ≤ totalSectors (s.catOf d)
  | closing y => DueOwn d s fun z => y = 0 ∨ z = (handleOffset y).1
  | put y _ => ExtendsOwn d s (handleOffset y).1
  | create chars f => EntersAlone d s chars →
      2 + sectorsOf (f.length.val % 262144) ≤ totalSectors (s.catOf d)
  | _ => True

end Call

/-- A call for files of drive `d`, ending well or with an error. -/
def FileStep (d : Byte) (s s' : State) : Prop :=
  ∃ c : Call, c.OfFiles ∧ c.OnDrive d s ∧ s' = (c.routine.run s).state

/-- A call for files of drive `d` that puts no file and no length where it does not fit. -/
def FittingStep (d : Byte) (s s' : State) : Prop :=
  ∃ c : Call, c.OfFiles ∧ c.OnDrive d s ∧ c.Fits d s ∧ s' = (c.routine.run s).state

/-- A disk of `T` sectors without any file, and no file open. -/
def EmptyDisk (d : Byte) (T : ℕ) (s : State) : Prop :=
  s.inUse = 0 ∧ s.catOf d 0x0f05 = 0 ∧ totalSectors (s.catOf d) = T

/-- The files of a drive lie one below the other between sector 2 and the end of the disk. -/
structure LaidOut (d : Byte) (T : ℕ) (s : State) : Prop where
  total : totalSectors (s.catOf d) = T
  count : ∃ n ≤ 31, (s.catOf d 0x0f05).toNat = 8 * n
  above : ∀ i < entryCount (s.catOf d), 2 ≤ (entryAt (s.catOf d) (8 * i)).start
  first : 0 < entryCount (s.catOf d) →
    (entryAt (s.catOf d) 0).start + sectorsOf (entryAt (s.catOf d) 0).length ≤ T
  below : ∀ i, i + 1 < entryCount (s.catOf d) → (entryAt (s.catOf d) (8 * (i + 1))).start
    + sectorsOf (entryAt (s.catOf d) (8 * (i + 1))).length ≤ (entryAt (s.catOf d) (8 * i)).start

section Runs

variable {d : Byte} {T : ℕ} {s s' : State}

lemma EmptyDisk.tidy (h : EmptyDisk d T s) : Tidy d T s := by
  obtain ⟨h0, hcount, htotal⟩ := h
  have hfree : ∀ p, ¬ s.Used p := fun p hu => hu (by rw [h0]; exact BitVec.zero_and)
  refine ⟨⟨by rw [h0]; exact BitVec.zero_and, fun p _ hu => absurd hu (hfree p)⟩,
    fun _ p _ hu => absurd hu (hfree p), fun p _ q _ _ hu => absurd hu (hfree p), 0, ?_⟩
  exact ⟨⟨Nat.zero_le 31, congrArg BitVec.toNat hcount, fun p _ hu => absurd hu (hfree p),
    fun p _ hu => absurd hu (hfree p)⟩, trivial, htotal, fun _ p _ hu => absurd hu (hfree p)⟩

lemma Tidy.laidOut (h : Tidy d T s) : LaidOut d T s := by
  obtain ⟨n, hl⟩ := h.laid
  have hn := entryCount_of_eq hl.count
  have hpacked := wellPacked_iff.1 hl.packed
  refine ⟨hl.total, ⟨n, hl.le, hl.count⟩, fun i hi => ?_, fun hpos => ?_, fun i hi => ?_⟩ <;> rw [hn] at *
  · exact (hpacked i hi).1
  · rw [← hl.total]
    exact (hpacked 0 hpos).2
  · rw [entryAt_start _ (8 * i)]
    exact (hpacked (i + 1) hi).2

/-- A call that fits keeps the files apart. -/
lemma Tidy.call (h : Tidy d T s) (h3 : d &&& 3 = d) {c : Call} (hc : c.OfFiles) (hd : c.OnDrive d s)
    (hfit : c.Fits d s) : Prog.wp c.routine (fun _ => Tidy d T) (fun _ => Tidy d T) s := by
  have htotal : totalSectors (s.catOf d) = T := by
    obtain ⟨n, hl⟩ := h.laid
    exact hl.total
  cases c with
  | opening a chars =>
      exact (Prog.wp_bind _ _).2 (openFile_tidy chars h hd h3 hc fun halone => htotal ▸ hfit halone)
  | closing y => exact closeFiles_tidy y h hfit
  | put y v => exact bputv_tidy y v h hfit
  | create chars f =>
      refine (Prog.wp_bind _ _).2 (Prog.wp_mono (createFile_tidy chars f h hd fun halone => htotal ▸ hfit halone)
        ?_ fun _ _ ht => ht)
      rintro x t ⟨m, i, ht, -⟩
      exact ht.tidy
  | delete chars => exact cmdDelete_tidy chars h hd
  | wipe _ _ => exact absurd hc not_false
  | destroy _ _ _ => exact absurd hc not_false
  | rename _ _ => exact absurd hc not_false
  | access _ _ => exact absurd hc not_false
  | compact _ _ _ => exact absurd hc not_false

lemma Tidy.step (h : Tidy d T s) (h3 : d &&& 3 = d) (hstep : FittingStep d s s') : Tidy d T s' := by
  obtain ⟨c, hc, hd, hfit, rfl⟩ := hstep
  exact Prog.wp_state (h.call h3 hc hd hfit)

/-- **The files of a disk stay apart.**  In every run of openings, closes, OSBPUTs, creations and
deletions on one drive that begins with an empty catalogue, and in which no file that becomes the
only one is too long for the disk and no length is written into an entry of another name, the
catalogue has at most 31 entries, which lie one below the other between sector 2 and the end of
the disk. -/
theorem runs_laidOut (h3 : d &&& 3 = d) (h : Reachable (EmptyDisk d T) (FittingStep d) s) : LaidOut d T s :=
  (h.invariant (fun _ h0 => EmptyDisk.tidy h0) fun _ _ ht hstep => Tidy.step ht h3 hstep).laidOut

end Runs

/-- A writable disk of 800 sectors without any file. -/
def emptyDisk : State :=
  { stateWithDisk 0 0 with
    defDir := 0x24
    diskMark := fun _ => 0x54
    cats := fun _ a => if a = 0x0f06 then 3 else if a = 0x0f07 then 0x20 else 0 }

lemma emptyDisk_empty : EmptyDisk 0 800 emptyDisk := ⟨rfl, rfl, by decide⟩

/-- The empty disk after the first `n` of some calls. -/
def afterCalls (l : List Call) (n : ℕ) : State :=
  (l.take n).foldl (fun s c => (c.routine.run s).state) emptyDisk

lemma afterCalls_succ {l : List Call} {n : ℕ} {c : Call} (h : l[n]? = some c) :
    afterCalls l (n + 1) = (c.routine.run (afterCalls l n)).state := by
  rw [afterCalls, List.take_add_one, h, List.foldl_append]
  rfl

lemma afterCalls_reachable {l : List Call} {n : ℕ} {c : Call}
    (h : Reachable (EmptyDisk 0 800) (FittingStep 0) (afterCalls l n)) (hc : l[n]? = some c)
    (hf : c.OfFiles) (hd : c.OnDrive 0 (afterCalls l n)) (hfit : c.Fits 0 (afterCalls l n)) :
    Reachable (EmptyDisk 0 800) (FittingStep 0) (afterCalls l (n + 1)) :=
  h.next ⟨c, hf, hd, hfit, afterCalls_succ hc⟩

/-- Three files are made, `A` and `C` of a sector and `B` of none, which lies below them; `A` is deleted,
and `B` is opened, extended into its place and closed. -/
def extending : List Call :=
  [.create [0x41] ⟨0, 0, 0, 0, 0, 0, 0, 1, 0, 0, 0, 0⟩,
    .create [0x42] ⟨0, 0, 0, 0, 0, 0, 0, 0, 0, 0, 0, 0⟩,
    .create [0x43] ⟨0, 0, 0, 0, 0, 0, 0, 1, 0, 0, 0, 0⟩,
    .delete [0x41], .opening 0xc0 [0x42], .put 0x11 0x55, .closing 0x11]

theorem extending_laidOut : LaidOut 0 800 (afterCalls extending 7) ∧
    (List.range 2).map (fun i => ((entryAt ((afterCalls extending 7).catOf 0) (8 * i)).start,
      (entryAt ((afterCalls extending 7).catOf 0) (8 * i)).length)) = [(3, 256), (2, 1)] := by
  have hdrv : ∀ n < 5, ∀ x ∈ [0x41, 0x42, 0x43], ((afterCalls extending n).fsp [x]).1.drv = 0 := by
    decide +kernel
  have hown : ∀ n ∈ [5, 6], (afterCalls extending n).FindsOwn ((afterCalls extending n).chan 0x20) := by
    decide +kernel
  have h0 : Reachable (EmptyDisk 0 800) (FittingStep 0) (afterCalls extending 0) := .start emptyDisk_empty
  have h1 := afterCalls_reachable h0 rfl trivial (hdrv 0 (by decide) 0x41 (by decide)) fun _ => by
    decide +kernel
  have h2 := afterCalls_reachable h1 rfl trivial (hdrv 1 (by decide) 0x42 (by decide)) fun _ => by
    decide +kernel
  have h3 := afterCalls_reachable h2 rfl trivial (hdrv 2 (by decide) 0x43 (by decide)) fun _ => by
    decide +kernel
  have h4 := afterCalls_reachable h3 rfl trivial (hdrv 3 (by decide) 0x41 (by decide)) trivial
  have h5 := afterCalls_reachable h4 rfl (Or.inr (Or.inr rfl)) (hdrv 4 (by decide) 0x42 (by decide))
    fun _ => by decide +kernel
  have h6 := afterCalls_reachable h5 rfl trivial trivial fun _ q _ hq _ _ _ => by
    rw [hq]
    exact hown 5 (by decide)
  have h7 := afterCalls_reachable h6 rfl trivial trivial fun _ q _ hq _ _ => by
    obtain hq | hq := hq
    · exact absurd hq (by decide)
    · rw [hq]
      exact hown 6 (by decide)
  exact ⟨runs_laidOut rfl h7, by decide +kernel⟩

/-- A file of 799 sectors. -/
def allButOne : Call := .create [0x41] ⟨0, 0, 0, 0, 0, 0, 0, 0x1f, 0, 0, 0, 3⟩

/-- It is put at sector 2 of a disk of 800 sectors. -/
theorem emptyDisk_overfilled : ¬ ∀ s, Reachable (EmptyDisk 0 800) (FileStep 0) s → LaidOut 0 800 s := by
  intro h
  set t := (allButOne.routine.run emptyDisk).state with ht
  have hfirst := (h t (.next (.start emptyDisk_empty) ⟨allButOne, trivial, rfl, rfl⟩)).first
  have hfacts : entryCount (t.catOf 0) = 1 ∧ (entryAt (t.catOf 0) 0).start = 2 ∧
      sectorsOf (entryAt (t.catOf 0) 0).length = 799 := by
    rw [ht]
    decide +kernel
  obtain ⟨h1, h2, h799⟩ := hfacts
  have hle := hfirst (by omega)
  omega

end Udfs.Rom
