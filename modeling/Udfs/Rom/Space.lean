import Udfs.Rom.Overrun
import Udfs.Rom.Placement
import Udfs.Rom.Upkeep

/-!
# The space of open files

A file that is open for writing has the sectors that its entry had when it was opened, or all up to
the next file once OSBPUT has asked for them; its channel counts them.  Closing writes the length
back, which is never more than that.  So the entries stay packed while lengths are written, as long
as a length goes to the entry of the file it is the length of.
-/

namespace Udfs.Rom

open Extents

/-! ## Lengths in a catalogue -/

/-- Every entry lies above sector 2 and ends below the one before it. -/
lemma wellPacked_iff {c : ℕ → Byte} {n : ℕ} : WellPacked c n ↔
    ∀ i < n, 2 ≤ (entryAt c (8 * i)).start ∧
      (entryAt c (8 * i)).start + (entryAt c (8 * i)).sectors ≤ boundAt c (8 * i) := by
  rw [WellPacked, packed_iff]
  refine ⟨fun h i hi => ?_, fun h i hi => ?_⟩
  · have hlt : i < (entries c n).length := by simpa using hi
    have hpacked := h i hlt
    rwa [entries_getElem, gapTop_entries c hi.le] at hpacked
  · have hlt : i < n := by simpa using hi
    rw [entries_getElem, gapTop_entries c hlt.le]
    exact h i hlt

/-- The `i`-th entry has been given a length; the names and the starts are what they were. -/
structure LengthPut (c : ℕ → Byte) (i len : ℕ) (c' : ℕ → Byte) : Prop where
  kept : StartsKept c c'
  length : (entryAt c' (8 * i)).length = len
  other : ∀ j < 31, j ≠ i → (entryAt c' (8 * j)).length = (entryAt c (8 * j)).length

section Lengths

variable {c c' : ℕ → Byte} {i j n len : ℕ}

/-- The bits of the length that are in the mixed byte. -/
lemma keepLow_length (a m : Byte) :
    ((((a <<< 4) ^^^ m) &&& 0x30) ^^^ m).toNat / 16 % 4 = a.toNat % 4 := by
  have hbits : lsr4And3 ((((a <<< 4) ^^^ m) &&& 0x30) ^^^ m) = a &&& 3 := by
    refine and_three_congr ?_ ?_ <;> simp
  have hnat := congrArg BitVec.toNat hbits
  rwa [lsr4And3_toNat, toNat_and_three] at hnat

lemma length_eq (c : ℕ → Byte) (y : ℕ) : (entryAt c y).length
    = (c (0x0f0c + y)).toNat + 256 * (c (0x0f0d + y)).toNat + 65536 * ((c (0x0f0e + y)).toNat / 16 % 4) := by
  have e4 : 0x0f08 + y + ((4 : Fin 8) : ℕ) = 0x0f0c + y := by simp; omega
  have e5 : 0x0f08 + y + ((5 : Fin 8) : ℕ) = 0x0f0d + y := by simp; omega
  have e6 : 0x0f08 + y + ((6 : Fin 8) : ℕ) = 0x0f0e + y := by simp; omega
  simp only [Entry.length, entryAt, entryInfo, e4, e5, e6]

lemma length_congr (h4 : c' (0x0f0c + j) = c (0x0f0c + j)) (h5 : c' (0x0f0d + j) = c (0x0f0d + j))
    (h6 : c' (0x0f0e + j) = c (0x0f0e + j)) : (entryAt c' j).length = (entryAt c j).length := by
  rw [length_eq, length_eq, h4, h5, h6]

/-- Counting the cycle changes no length. -/
lemma LengthPut.cycled (h : LengthPut c i len c') : LengthPut c i len (cycledCat c') := by
  have hlen : ∀ j, (entryAt (cycledCat c') (8 * j)).length = (entryAt c' (8 * j)).length := fun j =>
    length_congr (cycledCat_of_ne _ (by omega)) (cycledCat_of_ne _ (by omega)) (cycledCat_of_ne _ (by omega))
  exact ⟨h.kept.cycled, (hlen i).trans h.length, fun j hj hne => (hlen j).trans (h.other j hj hne)⟩

/-- Three bytes of the entry have been written. -/
lemma LengthPut.of_bytes {len : Num24} (hkept : StartsKept c c') (h4 : c' (0x0f0c + 8 * i) = len.lo)
    (h5 : c' (0x0f0d + 8 * i) = len.mid)
    (h6 : c' (0x0f0e + 8 * i) = ((len.hi <<< 4) ^^^ c (0x0f0e + 8 * i)) &&& 0x30 ^^^ c (0x0f0e + 8 * i))
    (hother : ∀ a, 0x0f08 ≤ a → a < 0x0f0c + 8 * i ∨ 0x0f0e + 8 * i < a → c' a = c a) :
    LengthPut c i (len.val % 262144) c' := by
  refine ⟨hkept, ?_, fun j _ hne => ?_⟩
  · have hlo := byte_lt len.lo
    have hmid := byte_lt len.mid
    rw [length_eq, h4, h5, h6, keepLow_length, Num24.val]
    omega
  · exact length_congr (hother _ (by omega) (by omega)) (hother _ (by omega) (by omega))
      (hother _ (by omega) (by omega))

lemma putLength_put (c : ℕ → Byte) (i : ℕ) (len : Num24) :
    LengthPut c i (len.val % 262144) (putLength c (8 * i) len) := by
  refine .of_bytes (putLength_kept c i len) ?_ ?_ ?_ fun a h8 ha => ?_
  · rw [putLength, Function.update_of_ne (by omega), Function.update_of_ne (by omega), Function.update_self]
  · rw [putLength, Function.update_of_ne (by omega), Function.update_self]
  · rw [putLength, Function.update_self, Function.update_of_ne (by omega), Function.update_of_ne (by omega)]
  · rw [putLength, Function.update_of_ne (by omega), Function.update_of_ne (by omega),
      Function.update_of_ne (by omega)]

/-- All the room up to the next file. -/
lemma putRoom_put (c : ℕ → Byte) (i : ℕ) (r : Byte × Byte) :
    LengthPut c i ((⟨0, r.1, r.2⟩ : Num24).val % 262144)
      (cycledCat (Function.update (Function.update (Function.update c (0x0f0e + 8 * i)
        (((r.2 <<< 4) ^^^ c (0x0f0e + 8 * i)) &&& 0x30 ^^^ c (0x0f0e + 8 * i))) (0x0f0d + 8 * i) r.1)
        (0x0f0c + 8 * i) 0)) := by
  set c' := Function.update (Function.update (Function.update c (0x0f0e + 8 * i)
    (((r.2 <<< 4) ^^^ c (0x0f0e + 8 * i)) &&& 0x30 ^^^ c (0x0f0e + 8 * i))) (0x0f0d + 8 * i) r.1)
    (0x0f0c + 8 * i) 0 with hc'
  refine .of_bytes (putRoom_kept c i r) ?_ ?_ ?_ fun a h8 ha => ?_
  · rw [cycledCat_of_ne _ (by omega), hc', Function.update_self]
  · rw [cycledCat_of_ne _ (by omega), hc', Function.update_of_ne (by omega), Function.update_self]
  · rw [cycledCat_of_ne _ (by omega), hc', Function.update_of_ne (by omega), Function.update_of_ne (by omega),
      Function.update_self]
  · rw [cycledCat_of_ne _ (by omega), hc', Function.update_of_ne (by omega), Function.update_of_ne (by omega),
      Function.update_of_ne (by omega)]

/-- Entries stay packed when one gets a length that ends below the next file. -/
lemma LengthPut.wellPacked (h : LengthPut c i len c') (hn : n ≤ 31) (hp : WellPacked c n)
    (hfit : (entryAt c (8 * i)).start + sectorsOf len ≤ boundAt c (8 * i)) : WellPacked c' n := by
  rw [wellPacked_iff] at hp ⊢
  intro j hj
  have hsectors : j ≠ i → (entryAt c' (8 * j)).sectors = (entryAt c (8 * j)).sectors := fun hne =>
    congrArg sectorsOf (h.other j (by omega) hne)
  rw [h.kept.start_eq, h.kept.boundAt_eq]
  refine ⟨(hp j hj).1, ?_⟩
  by_cases hji : j = i
  · subst hji
    rw [Entry.sectors, h.length]
    exact hfit
  · rw [hsectors hji]
    exact (hp j hj).2

lemma LengthPut.total (h : LengthPut c i len c') : totalSectors c' = totalSectors c := h.kept.boundAt_eq 0

end Lengths

/-! ## Channels and their space -/

/-- The channel counts whole sectors, and neither PTR nor EXT is beyond them.  A length that a channel
for reading alone would write back is 0. -/
structure Chan.Sized (c : Chan) : Prop where
  whole : c.alloc.lo = 0
  ptr_le : c.ptr.val ≤ c.alloc.val
  ext_le : c.ext.val ≤ c.alloc.val
  due : c.name 6 &&& 0x80 ≠ 0 → c.flags &&& 0x20 ≠ 0 → c.ext.val = 0

/-- The catalogue has its entries packed on a disk of `T` sectors, and every file that is open for
writing has the sectors that its channel counts. -/
structure Laid (s : State) (d : Byte) (T n : ℕ) (c : ℕ → Byte) : Prop extends Linked s d n c where
  packed : WellPacked c n
  total : totalSectors c = T
  space : s.CanWrite d → ∀ p ∈ slots, s.Used p → ¬ s.ReadOnly p → ∃ i < n, (s.chan p.1).NamedBy (entryAt c (8 * i)) ∧
    (s.chan p.1).alloc.val ≤ 256 * (entryAt c (8 * i)).sectors

/-- The channels in use are in order, no two of them for one file unless both are for reading alone,
and the files have their sectors on drive `d`. -/
structure Tidy (d : Byte) (T : ℕ) (s : State) : Prop where
  table : TableOk s
  sized : s.CanWrite d → ∀ p ∈ slots, s.Used p → (s.chan p.1).Sized
  apart : ∀ p ∈ slots, ∀ q ∈ slots, p ≠ q → s.Used p → s.Used q → (s.chan p.1).Alike (s.chan q.1) →
    s.ReadOnly p ∧ s.ReadOnly q
  laid : ∃ n, Laid s d T n (s.catOf d)

/-- If the entry found for a channel starts where the channel says, it has the name too. -/
def State.FindsOwn (s : State) (c : Chan) : Prop :=
  ∀ x, s.entryOf c = some x → (entryAt (s.catOf c.drv) x.toNat).start = c.start →
    ∀ j, entryName (s.catOf c.drv) x.toNat j &&& 0x7f = c.name j &&& 0x7f

instance (s : State) (c : Chan) : Decidable (s.FindsOwn c) :=
  decidable_of_iff (∀ x ∈ s.entryOf c, (entryAt (s.catOf c.drv) x.toNat).start = c.start →
    ∀ j, entryName (s.catOf c.drv) x.toNat j &&& 0x7f = c.name j &&& 0x7f) Iff.rfl

section Entries

variable {s t : State} {d : Byte} {T n i : ℕ} {c c' : ℕ → Byte} {p : Byte × Byte}

/-- The channels in use are for the same entries, and count the same sectors. -/
lemma Laid.of_entries (h : Laid s d T n c) (hw : t.CanWrite d → s.CanWrite d) (hs : ∀ q ∈ slots, t.Used q → s.Used q ∧
    (s.chan q.1).SameEntry (t.chan q.1) ∧ (t.chan q.1).alloc = (s.chan q.1).alloc) : Laid t d T n c where
  le := h.le
  count := h.count
  drv q hq hu := (hs q hq hu).2.1.drv.trans (h.drv q hq (hs q hq hu).1)
  entry q hq hu := by
    obtain ⟨e, he, hb⟩ := h.entry q hq (hs q hq hu).1
    exact ⟨e, he, (hs q hq hu).2.1.namedBy hb⟩
  packed := h.packed
  total := h.total
  space hwt q hq hu hro := by
    obtain ⟨hu', hc, halloc⟩ := hs q hq hu
    rw [State.ReadOnly, hc.name] at hro
    obtain ⟨i, hi, hb, hle⟩ := h.space (hw hwt) q hq hu' hro
    exact ⟨i, hi, hc.namedBy hb, halloc ▸ hle⟩

/-- Some channels have been closed. -/
lemma Laid.of_used (h : Laid s d T n c) (hw : t.CanWrite d → s.CanWrite d)
    (hs : ∀ q ∈ slots, t.Used q → s.Used q ∧ t.chan q.1 = s.chan q.1) : Laid t d T n c := by
  refine h.of_entries hw fun q hq hu => ?_
  obtain ⟨hu', hc⟩ := hs q hq hu
  exact ⟨hu', hc ▸ Chan.SameEntry.refl _, congrArg Chan.alloc hc⟩

lemma Laid.of_sameChans (h : Laid s d T n c) (hs : SameChans s t) (hw : t.CanWrite d → s.CanWrite d) :
    Laid t d T n c :=
  h.of_used hw fun q _ hu => ⟨(hs.used q).1 hu, by rw [hs.2]⟩

/-- A channel's own pattern covers the names of its entries. -/
lemma Chan.NamedBy.covers {b : Chan} {e : Entry} (h : b.NamedBy e) (w : Byte) :
    CoversName w (fun i => if i = 7 then b.name 7 &&& 0x7f else b.name i) e.name := by
  intro j
  refine Or.inr (Or.inl ?_)
  beta_reduce
  by_cases hj : j = 7
  · subst hj
    rw [if_pos rfl, h.1 7, BitVec.and_assoc, BitVec.and_self]
  · rw [if_neg hj, h.1 j]

/-- The entry that is found is the first one of the sectors of the file. -/
lemma Laid.found_eq (h : Laid s d T n (s.catOf d)) (hp : p ∈ slots) (hu : s.Used p) {x : Byte}
    (hx : s.entryOf (s.chan p.1) = some x) (hi : x.toNat = 8 * i)
    (hstart : (entryAt (s.catOf d) (8 * i)).start = (s.chan p.1).start) {j : ℕ} (hj : j < n)
    (hnamed : (s.chan p.1).NamedBy (entryAt (s.catOf d) (8 * j)))
    (hsec : (entryAt (s.catOf d) (8 * j)).sectors ≠ 0) : i = j := by
  have hdrv := h.drv p hp hu
  have hcount := entryCount_of_eq h.count
  have hle := h.le
  -- what is found is the first match
  obtain ⟨z, hz, hfirst⟩ : ∃ k, x.toNat = 8 * k ∧ FirstMatch s.wildcard
      (fun i => if i = 7 then (s.chan p.1).name 7 &&& 0x7f else (s.chan p.1).name i) (s.catOf d) n k := by
    rcases nextEntry_first (c := s.catOf d) (w := s.wildcard)
      (f := fun i => if i = 7 then (s.chan p.1).name 7 &&& 0x7f else (s.chan p.1).name i)
      (hcount.trans_le hle) with ⟨k, z, hz, hk, hmatch⟩ | ⟨hnone, -⟩
    · rw [State.entryOf, hdrv, hz] at hx
      obtain rfl := Option.some.inj hx
      exact ⟨k, hk, hcount ▸ hmatch⟩
    · rw [State.entryOf, hdrv, hnone] at hx
      cases hx
  obtain rfl : z = i := by omega
  rcases lt_trichotomy z j with hlt | heq | hlt
  · have hpair := List.pairwise_iff_getElem.1 h.packed.pairwise z j (by simpa using hfirst.lt)
      (by simpa using hj) hlt
    rw [entries_getElem, entries_getElem, hstart, hnamed.2] at hpair
    omega
  · exact heq
  · exact absurd (hnamed.covers s.wildcard) (hfirst.before j hlt)

/-- The entry found for a channel is one of the catalogue's. -/
lemma Laid.found_lt (h : Laid s d T n (s.catOf d)) (hp : p ∈ slots) (hu : s.Used p) {x : Byte}
    (hx : s.entryOf (s.chan p.1) = some x) : ∃ i < n, x.toNat = 8 * i := by
  have hdrv := h.drv p hp hu
  obtain ⟨i, hin, hi⟩ := State.entryOf_eq (by rw [hdrv, entryCount_of_eq h.count]; exact h.le) hx
  rw [hdrv, entryCount_of_eq h.count] at hin
  exact ⟨i, hin, hi⟩

/-- The space that a channel counts ends below the next file. -/
lemma Laid.alloc_le (h : Laid s d T n (s.catOf d)) (hw : s.CanWrite d) (hp : p ∈ slots) (hu : s.Used p)
    (hro : ¬ s.ReadOnly p) {x : Byte} (hx : s.entryOf (s.chan p.1) = some x) (hi : x.toNat = 8 * i)
    (hstart : (entryAt (s.catOf d) (8 * i)).start = (s.chan p.1).start) :
    (s.chan p.1).alloc.val ≤ 256 * (boundAt (s.catOf d) (8 * i) - (s.chan p.1).start) := by
  obtain ⟨j, hj, hnamed, hle⟩ := h.space hw p hp hu hro
  by_cases h0 : (entryAt (s.catOf d) (8 * j)).sectors = 0
  · omega
  · obtain rfl := h.found_eq hp hu hx hi hstart hj hnamed h0
    have hfit := (wellPacked_iff.1 h.packed i hj).2
    rw [hstart] at hfit
    omega

/-- A length has been written for the file of a channel, into an entry of its name and its start. -/
lemma Tidy.lengthPut (h : Tidy d T s) (hl : Laid s d T n (s.catOf d)) (hw : s.CanWrite d) (hp : p ∈ slots) (hu : s.Used p)
    (hown : s.FindsOwn (s.chan p.1)) {x : Byte} (hx : s.entryOf (s.chan p.1) = some x)
    (hi : x.toNat = 8 * i) (hstart : (entryAt (s.catOf d) (8 * i)).start = (s.chan p.1).start) {len : ℕ}
    (hput : LengthPut (s.catOf d) i len c')
    (hfit : (s.chan p.1).start + sectorsOf len ≤ boundAt (s.catOf d) (8 * i))
    (hothers : ∀ q ∈ slots, t.Used q → s.Used q ∧ (s.chan q.1).SameEntry (t.chan q.1) ∧
      (q ≠ p → t.chan q.1 = s.chan q.1))
    (hself : t.Used p → (t.chan p.1).alloc.val ≤ 256 * sectorsOf len) : Laid t d T n c' := by
  have hle := hl.le
  have hdrv := hl.drv p hp hu
  have hin : i < n := by
    obtain ⟨k, hk, hxk⟩ := hl.found_lt hp hu hx
    omega
  have hname : ∀ j < n, ∀ k, entryName c' (8 * j) k &&& 0x7f = entryName (s.catOf d) (8 * j) k &&& 0x7f :=
    fun j hj k => hput.kept.entryName_eq (by omega) k
  have hnamed : ∀ {b : Chan} {j : ℕ}, j < n → b.NamedBy (entryAt (s.catOf d) (8 * j)) →
      b.NamedBy (entryAt c' (8 * j)) := fun hj hb =>
    ⟨fun k => (hname _ hj k).trans (hb.1 k), (hput.kept.start_eq _).trans hb.2⟩
  have hownName := hown x hx (by rw [hdrv, hi]; exact hstart)
  rw [hdrv, hi] at hownName
  refine ⟨⟨hle, ?_, fun q hq huq => ?_, fun q hq huq => ?_⟩, ?_, hput.total.trans hl.total,
    fun _ q hq huq hroq => ?_⟩
  · rw [hput.kept.count]
    exact hl.count
  · obtain ⟨hus, hc, -⟩ := hothers q hq huq
    exact hc.drv.trans (hl.drv q hq hus)
  · obtain ⟨hus, hc, -⟩ := hothers q hq huq
    obtain ⟨e, he, hb⟩ := hl.entry q hq hus
    obtain ⟨j, hj, rfl⟩ := List.mem_map.1 he
    exact ⟨_, mem_entries (List.mem_range.1 hj), hc.namedBy (hnamed (List.mem_range.1 hj) hb)⟩
  · exact hput.wellPacked hle hl.packed (by rw [hstart]; exact hfit)
  · obtain ⟨hus, hc, hsame⟩ := hothers q hq huq
    by_cases hqp : q = p
    · subst hqp
      refine ⟨i, hin, hc.namedBy (hnamed hin ⟨hownName, hstart⟩), ?_⟩
      rw [Entry.sectors, hput.length]
      exact hself huq
    · rw [State.ReadOnly, hsame hqp] at hroq
      rw [hsame hqp]
      obtain ⟨j, hj, hb, hspace⟩ := hl.space hw q hq hus hroq
      refine ⟨j, hj, hnamed hj hb, ?_⟩
      -- no other file that is open for writing has the entry
      have hne : j ≠ i := by
        rintro rfl
        refine hroq (h.apart p hp q hq (Ne.symm hqp) hu hus ⟨?_, fun k => ?_⟩).2
        · rw [hdrv, hl.drv q hq hus]
        · exact (hownName k).symm.trans (hb.1 k)
      have hsec : (entryAt c' (8 * j)).sectors = (entryAt (s.catOf d) (8 * j)).sectors :=
        congrArg sectorsOf (hput.other j (by omega) hne)
      rw [hsec]
      exact hspace

end Entries

/-! ## Closing -/

/-- Neither the channels nor a catalogue has changed, and no drive has become writable. -/
structure Idle (s s' : State) : Prop where
  chans : SameChans s s'
  cats : SameCats s s'
  canWrite : ∀ d, s'.CanWrite d → s.CanWrite d

lemma Idle.trans {s s' s'' : State} (h : Idle s s') (h' : Idle s' s'') : Idle s s'' :=
  ⟨h.chans.trans h'.chans, h.cats.trans h'.cats, fun d hw => h.canWrite d (h'.canWrite d hw)⟩

lemma Idle.of_ejected {s s' : State} (h : s.Ejected s') : Idle s s' := by
  refine ⟨.of_ejected h, ?_, fun d hw => ?_⟩
  · obtain rfl | ⟨x, -, rfl⟩ := h <;> exact ⟨rfl, rfl, rfl⟩
  · obtain rfl | ⟨x, -, rfl⟩ := h
    · exact hw
    · by_cases hd : d = x
      · subst hd
        have hdisk : (Function.update s.diskHi d 0xff d).toNat < 128 := hw.2.1
        rw [Function.update_self] at hdisk
        exact absurd hdisk (by decide)
      · simpa only [State.CanWrite, State.HasDisk, Function.update_of_ne hd] using hw

/-- Some channels have been closed, and their lengths written. -/
structure Closes (d : Byte) (s s' : State) : Prop where
  wildcard : s'.wildcard = s.wildcard
  starts : StartsKept (s.catOf d) (s'.catOf d)
  inUse : ∃ m, s'.inUse = m &&& s.inUse
  used : ∀ q ∈ slots, s'.Used q → s.Used q ∧ s'.chan q.1 = s.chan q.1
  canWrite : s'.CanWrite d → s.CanWrite d

lemma Idle.closes {s s' : State} (h : Idle s s') (d : Byte) : Closes d s s' where
  wildcard := h.cats.wildcard
  starts := by
    rw [h.cats.catOf]
    exact StartsKept.refl _
  inUse := ⟨BitVec.allOnes 8, by rw [h.chans.1, BitVec.allOnes_and]⟩
  used q _ hu := ⟨(h.chans.used q).1 hu, by rw [h.chans.2]⟩
  canWrite := h.canWrite d

namespace Closes

variable {d : Byte} {T n : ℕ} {s s' s'' : State}

lemma trans (h : Closes d s s') (h' : Closes d s' s'') : Closes d s s'' where
  wildcard := h'.wildcard.trans h.wildcard
  starts := h.starts.trans h'.starts
  inUse := by
    obtain ⟨m, hm⟩ := h.inUse
    obtain ⟨m', hm'⟩ := h'.inUse
    exact ⟨m' &&& m, by rw [hm', hm, BitVec.and_assoc]⟩
  used q hq hu := by
    obtain ⟨hu', hc'⟩ := h'.used q hq hu
    obtain ⟨hu'', hc''⟩ := h.used q hq hu'
    exact ⟨hu'', hc'.trans hc''⟩
  canWrite hw := h.canWrite (h'.canWrite hw)

lemma tidy (h : Closes d s s') (ht : Tidy d T s) (hl : ∃ n, Laid s' d T n (s'.catOf d)) : Tidy d T s' where
  table := by
    refine ⟨?_, fun q hq hu => ?_⟩
    · obtain ⟨m, hm⟩ := h.inUse
      rw [hm, BitVec.and_assoc, ht.table.bits]
      exact BitVec.and_zero
    · rw [(h.used q hq hu).2]
      exact ht.table.bit q hq (h.used q hq hu).1
  sized hw q hq hu := by
    rw [(h.used q hq hu).2]
    exact ht.sized (h.canWrite hw) q hq (h.used q hq hu).1
  apart q hq r hr hne huq hur hal := by
    obtain ⟨hu, hc⟩ := h.used q hq huq
    obtain ⟨hu', hc'⟩ := h.used r hr hur
    rw [hc, hc'] at hal
    rw [State.ReadOnly, State.ReadOnly, hc, hc']
    exact ht.apart q hq r hr hne hu hu' hal
  laid := hl

/-- The catalogue is the same. -/
lemma tidy_of_cat (h : Closes d s s') (ht : Tidy d T s) (hcat : s'.catOf d = s.catOf d) : Tidy d T s' := by
  obtain ⟨n, hl⟩ := ht.laid
  refine h.tidy ht ⟨n, ?_⟩
  rw [hcat]
  exact hl.of_used h.canWrite h.used

/-- A channel that is still in use finds what it found. -/
lemma findsOwn (h : Closes d s s') (hn : entryCount (s.catOf d) ≤ 31) {b : Chan} (hd : b.drv = d)
    (hown : s.FindsOwn b) : s'.FindsOwn b := by
  have hentry : s'.entryOf b = s.entryOf b := by
    rw [State.entryOf, State.entryOf, h.wildcard, hd, h.starts.nextEntry_eq hn]
  intro x hx hstart j
  rw [hentry] at hx
  have hname := hown x hx
  rw [hd] at hname hstart
  obtain ⟨i, hi, hxi⟩ := State.entryOf_eq (by rw [hd]; exact hn) hx
  rw [hd] at hi
  rw [hxi] at hname hstart
  rw [h.starts.start_eq] at hstart
  rw [hd, hxi, h.starts.entryName_eq (by omega)]
  exact hname hstart j

end Closes

section Close

variable {s t : State} {d : Byte} {T : ℕ} {p : Byte × Byte}

/-- The entry of a channel is found where it was, or nothing but the working storage has changed. -/
lemma setupSaveToMedia_spec {y : Byte} (hoff : s.chanOff = y) (hdrv : s.curDrv = (s.chan y).drv)
    (hdir : s.filenameParam 7 = (s.chan y).name 7 &&& 0x7f) :
    Prog.wp (setupSaveToMedia y)
      (fun _ t => ∃ x f, s.entryOf (s.chan y) = some x ∧
        (entryAt (s.catOf (s.chan y).drv) x.toNat).start = (s.chan y).start ∧
        t = { s with
          filenameParam := f
          cat := s.catOf s.curDrv
          curDrvCat := s.curDrv
          catEntry := x
          chanEntry := x.toNat })
      (fun _ => Idle s) s := by
  by_cases hdisk : s.HasDisk s.curDrv
  · rcases s.gone_or_found (s.chan y) with hgone | ⟨x, hx, hstart⟩
    · obtain ⟨f, c, g, x, e, hrun⟩ := setupSaveToMedia_gone hoff hdisk hdrv hdir hgone
      rw [Prog.wp_of_err hrun]
      exact ⟨⟨rfl, rfl⟩, ⟨rfl, rfl, rfl⟩, fun _ hw => hw⟩
    · obtain ⟨f, hrun⟩ := setupSaveToMedia_run hoff hdisk hdrv hdir hx hstart
      rw [Prog.wp_of_ok hrun]
      exact ⟨x, f, hx, hstart, rfl⟩
  · have hrun := searchCat_noDisk (s := { s with
      filenameParam := fun i => if i = 7 then s.filenameParam 7 else (s.chan y).name i }) hdisk
    rw [setupSaveToMedia, Prog.wp_bind, Prog.wp_modify, Prog.wp_bind, Prog.wp_of_err hrun]
    exact ⟨⟨rfl, rfl⟩, ⟨rfl, rfl, rfl⟩, fun _ hw => hw⟩

/-- The channel is taken out of use. -/
def State.closed (s : State) (p : Byte × Byte) : State :=
  { s with chanOff := p.1, inUse := ~~~ (s.chan p.1).bit &&& s.inUse }

lemma closed_used (ht : TableOk s) (hp : p ∈ slots) (hu : s.Used p) {q : Byte × Byte} (hq : q ∈ slots) :
    (s.closed p).Used q ↔ s.Used q ∧ q ≠ p := by
  rw [State.Used, State.Used, State.closed, ht.bit p hp hu]
  by_cases hqp : q = p
  · rw [hqp, clear_and_self]
    exact iff_of_false (fun h => h rfl) fun h => h.2 rfl
  · rw [clear_and_of_disjoint _ _ _ (slots_disjoint hp hq (Ne.symm hqp)).2.1]
    exact ⟨fun h => ⟨h, hqp⟩, fun h => h.1⟩

lemma isHandleInUse_used (hp : p ∈ slots) (hu : s.Used p) :
    (isHandleInUse p.1).run s = .ok true { s with chanOff := p.1 } := by
  obtain ⟨-, hmask, hne, hbits⟩ := handleOf_slots hp
  rw [isHandleInUse, Prog.run_bind_ok (Prog.run_modify _ s), hmask, if_neg hne,
    Prog.run_bind_ok (Prog.run_get _), Prog.run_pure, hbits]
  exact congrArg (fun b => Outcome.ok b _) (decide_eq_true hu)

/-- What is done when a channel in use has been taken out of use. -/
lemma updateCatnfile_eq (hp : p ∈ slots) (hu : s.Used p) :
    (updateCatnfile p.1).run s = (Prog.when ((s.chan p.1).flags &&& 0x60 ≠ 0) do
      setFileDrv p.1
      setupSaveToMedia p.1
      lengthToMedia p.1
      fileToMediaY p.1 : Routine Unit).run (s.closed p) := by
  rw [updateCatnfile, Prog.run_bind_ok (isHandleInUse_used hp hu), if_pos rfl,
    Prog.run_bind_ok (Prog.run_get _)]
  exact Prog.run_bind_ok (Prog.run_modify _ _)

/-- A channel that is not in use any more is changed. -/
lemma fileToMediaY_closes (y : Byte) (hunused : ∀ q ∈ slots, s.Used q → q.1 ≠ s.chanOff) :
    Prog.wp (fileToMediaY y) (fun _ t => Closes d s t ∧ t.catOf d = s.catOf d)
      (fun _ t => Closes d s t ∧ t.catOf d = s.catOf d) s := by
  have hrefl : Closes d s s := Idle.closes ⟨⟨rfl, rfl⟩, ⟨rfl, rfl, rfl⟩, fun _ hw => hw⟩ d
  simp only [fileToMediaY, Prog.wp_bind, Prog.wp_get, Prog.wp_ite, Prog.wp_pure]
  refine ⟨fun _ => ⟨hrefl, trivial⟩, fun _ => ?_⟩
  refine Prog.wp_mono (saveMemBlock_spec _ s) ?_ ?_
  · rintro _ t rfl
    refine ⟨⟨rfl, StartsKept.refl _, ⟨BitVec.allOnes 8, (BitVec.allOnes_and ..).symm⟩, fun q hq hu => ?_,
      fun hw => hw⟩, rfl⟩
    exact ⟨hu, State.setChan_chan_of_ne _ _ (hunused q hq hu)⟩
  · rintro _ t hej
    exact ⟨(Idle.of_ejected hej).closes d, (Idle.of_ejected hej).cats.catOf d⟩

/-- The length of a file that is closed ends below the next file. -/
lemma Tidy.ext_fits (h : Tidy d T s) {n i : ℕ} (hl : Laid s d T n (s.catOf d)) (hw : s.CanWrite d) (hp : p ∈ slots)
    (hu : s.Used p) (hdue : (s.chan p.1).flags &&& 0x20 ≠ 0) {x : Byte}
    (hx : s.entryOf (s.chan p.1) = some x) (hi : x.toNat = 8 * i) (hin : i < n)
    (hstart : (entryAt (s.catOf d) (8 * i)).start = (s.chan p.1).start) :
    (s.chan p.1).start + sectorsOf ((s.chan p.1).ext.val % 262144) ≤ boundAt (s.catOf d) (8 * i) := by
  have hbelow := (wellPacked_iff.1 hl.packed i hin).2
  have hmod := Nat.mod_le (s.chan p.1).ext.val 262144
  rw [hstart] at hbelow
  have hle : (s.chan p.1).ext.val ≤ 256 * (boundAt (s.catOf d) (8 * i) - (s.chan p.1).start) := by
    by_cases hro : s.ReadOnly p
    · rw [(h.sized hw p hp hu).due hro hdue]
      exact Nat.zero_le _
    · exact (h.sized hw p hp hu).ext_le.trans (hl.alloc_le hw hp hu hro hx hi hstart)
  have hsec := (sectorsOf_le_iff _ _).2 (hmod.trans hle)
  omega

/-- Closing a channel keeps the catalogue packed, when a length that is due goes to its own entry. -/
lemma updateCatnfile_tidy (h : Tidy d T s) (hp : p ∈ slots) (hu : s.Used p)
    (hown : s.CanWrite d → (s.chan p.1).flags &&& 0x20 ≠ 0 → s.FindsOwn (s.chan p.1)) :
    Prog.wp (updateCatnfile p.1) (fun _ t => Tidy d T t ∧ Closes d s t)
      (fun _ t => Tidy d T t ∧ Closes d s t) s := by
  obtain ⟨n, hl⟩ := h.laid
  have hdrv := hl.drv p hp hu
  have hclosed : Closes d s (s.closed p) :=
    ⟨rfl, StartsKept.refl _, ⟨_, rfl⟩, fun q hq hq' => ⟨((closed_used h.table hp hu hq).1 hq').1, rfl⟩,
      fun hw => hw⟩
  have hv := hclosed.tidy_of_cat h rfl
  have hsame : ∀ t, Idle (s.closed p) t → Tidy d T t ∧ Closes d s t := fun t ht =>
    ⟨(ht.closes d).tidy_of_cat hv (ht.cats.catOf d), hclosed.trans (ht.closes d)⟩
  have hunused : ∀ t : State, t.inUse = (s.closed p).inUse → ∀ q ∈ slots, t.Used q → s.Used q ∧ q ≠ p := by
    intro t ht q hq hq'
    rw [State.Used, ht] at hq'
    exact (closed_used h.table hp hu hq).1 hq'
  rw [Prog.wp, updateCatnfile_eq hp hu, ← Prog.wp, Prog.wp_when]
  refine ⟨fun _ => ?_, fun _ => ⟨hv, hclosed⟩⟩
  set w := (s.closed p).fileSelected p.1 with hw
  have hset : (setFileDrv p.1).run (s.closed p) = .ok () w := rfl
  rw [Prog.wp_bind, Prog.wp_of_ok hset, Prog.wp_bind]
  have hdir : w.filenameParam 7 = (w.chan p.1).name 7 &&& 0x7f :=
    Function.update_self 7 _ (s.closed p).filenameParam
  refine Prog.wp_mono (setupSaveToMedia_spec (s := w) (y := p.1) rfl rfl hdir) ?_ ?_
  swap
  · rintro _ t ⟨hs, hc, hw⟩
    exact hsame t ⟨⟨hs.1, hs.2⟩, ⟨hc.1, hc.2, hc.3⟩, hw⟩
  rintro _ t ⟨x, f, hx, hstart, ht⟩
  have htsame : Idle (s.closed p) t := by
    rw [ht]
    exact ⟨⟨rfl, rfl⟩, ⟨rfl, rfl, rfl⟩, fun _ hw => hw⟩
  obtain ⟨htidy, htcl⟩ := hsame t htsame
  have hx' : s.entryOf (s.chan p.1) = some x := hx
  have hstart' : (entryAt (s.catOf d) x.toNat).start = (s.chan p.1).start := by
    rw [← hdrv]
    exact hstart
  obtain ⟨i, hin, hi⟩ := hl.found_lt hp hu hx'
  rw [hi] at hstart'
  have hfinish : ∀ u : State, u.chanOff = p.1 → u.inUse = (s.closed p).inUse → Tidy d T u → Closes d s u →
      Prog.wp (fileToMediaY p.1) (fun _ t => Tidy d T t ∧ Closes d s t)
        (fun _ t => Tidy d T t ∧ Closes d s t) u := by
    intro u hoff hin htidy hcl
    have hdone : ∀ t, Closes d u t ∧ t.catOf d = u.catOf d → Tidy d T t ∧ Closes d s t := fun t ht =>
      ⟨ht.1.tidy_of_cat htidy ht.2, hcl.trans ht.1⟩
    refine Prog.wp_mono (fileToMediaY_closes p.1 fun q hq hq' => ?_) (fun _ t ht => hdone t ht) fun _ t ht =>
      hdone t ht
    rw [hoff]
    exact (slots_disjoint hq hp (hunused u hin q hq hq').2).1
  rw [lengthToMedia, Prog.wp_bind, Prog.wp_bind, Prog.wp_get, Prog.wp_when]
  have hoff : t.chanOff = p.1 := by rw [ht]; rfl
  refine ⟨fun hdue => ?_, fun _ => hfinish t hoff htsame.chans.1 htidy htcl⟩
  rw [htsame.chans.2] at hdue
  rw [Prog.wp_bind, Prog.wp_modify]
  set u : State := { t with cat := putLength t.cat t.chanEntry (t.chan p.1).ext } with hu'
  have hucat : u.cat = putLength (s.catOf d) (8 * i) (s.chan p.1).ext := by
    rw [hu', ht, ← hdrv, ← hi]
    rfl
  have hucur : u.curDrv = d := by
    rw [hu', ht, ← hdrv]
    rfl
  refine Prog.wp_mono (saveCat_spec u) ?_ ?_
  · rintro _ z ⟨rfl, hwu⟩
    have hw : s.CanWrite d := htcl.canWrite (hucur ▸ hwu)
    have hput := (putLength_put (s.catOf d) i (s.chan p.1).ext).cycled
    have hcat : u.cycled.catSaved.catOf d = cycledCat (putLength (s.catOf d) (8 * i) (s.chan p.1).ext) := by
      rw [← hucat]
      exact State.catSaved_catOf hucur
    have hcl : Closes d s u.cycled.catSaved := by
      refine ⟨htcl.wildcard, ?_, htcl.inUse, htcl.used, fun _ => hw⟩
      rw [hcat]
      exact hput.kept
    refine hfinish u.cycled.catSaved hoff htsame.chans.1 (hcl.tidy h ⟨n, ?_⟩) hcl
    rw [hcat]
    refine h.lengthPut hl hw hp hu (hown hw hdue) hx' hi hstart' hput (h.ext_fits hl hw hp hu hdue hx' hi hin hstart')
      (fun q hq huq => ?_) fun huq => absurd rfl (hunused u.cycled.catSaved htsame.chans.1 p hp huq).2
    obtain ⟨hus, hc⟩ := hcl.used q hq huq
    exact ⟨hus, hc ▸ Chan.SameEntry.refl _, fun _ => hc⟩
  · rintro _ z ⟨hej, -⟩
    obtain ⟨hs, hc, hw⟩ := Idle.of_ejected hej
    exact hsame z (htsame.trans ⟨⟨hs.1, hs.2⟩, ⟨hc.1, hc.2, hc.3⟩, hw⟩)

lemma isHandleInUse_unused (ht : TableOk s) {y : Byte} (hy : y &&& 0xe0 = y)
    (hno : ¬ ∃ q ∈ slots, q.1 = y ∧ s.Used q) : (isHandleInUse y).run s = .ok false { s with chanOff := y } := by
  have hidle : y ≠ 0 → s.inUse &&& handleMask y = 0 := fun h0 => by
    by_contra huse
    exact hno (used_of_mask ht hy h0 huse)
  rw [isHandleInUse, Prog.run_bind_ok (Prog.run_modify _ s), hy]
  split_ifs with h0
  · rfl
  · exact congrArg (fun b => Outcome.ok b _) (decide_eq_false (not_not.2 (hidle h0)))

/-- Closing whatever is open at an offset. -/
lemma updateCatnfile_keeps {y : Byte} (hy : y &&& 0xe0 = y) (h : Tidy d T s)
    (hown : s.CanWrite d → ∀ q ∈ slots, q.1 = y → s.Used q → (s.chan q.1).flags &&& 0x20 ≠ 0 →
      s.FindsOwn (s.chan q.1)) :
    Prog.wp (updateCatnfile y) (fun _ t => Tidy d T t ∧ Closes d s t)
      (fun _ t => Tidy d T t ∧ Closes d s t) s := by
  by_cases hused : ∃ q ∈ slots, q.1 = y ∧ s.Used q
  · obtain ⟨q, hq, rfl, hu⟩ := hused
    exact updateCatnfile_tidy h hq hu fun hw => hown hw q hq rfl hu
  · have hrun := isHandleInUse_unused h.table hy hused
    have hsame : Idle s { s with chanOff := y } := ⟨⟨rfl, rfl⟩, ⟨rfl, rfl, rfl⟩, fun _ hw => hw⟩
    have hcl := hsame.closes d
    rw [updateCatnfile, Prog.wp_bind, Prog.wp_of_ok hrun, if_neg Bool.false_ne_true, Prog.wp_pure]
    exact ⟨hcl.tidy_of_cat h rfl, hcl⟩

/-- Every length that is due for one of these channels goes to its own entry. -/
def DueOwn (d : Byte) (s : State) (l : Byte → Prop) : Prop :=
  s.CanWrite d → ∀ q ∈ slots, l q.1 → s.Used q → (s.chan q.1).flags &&& 0x20 ≠ 0 → s.FindsOwn (s.chan q.1)

lemma Closes.dueOwn {l : Byte → Prop} (h : Closes d s t) (hs : Tidy d T s) (hown : DueOwn d s l) :
    DueOwn d t l := by
  obtain ⟨n, hl⟩ := hs.laid
  intro hw q hq hlq hu hdue
  obtain ⟨hu', hc⟩ := h.used q hq hu
  rw [hc] at hdue ⊢
  exact h.findsOwn ((entryCount_of_eq hl.count).trans_le hl.le) (hl.drv q hq hu')
    (hown (h.canWrite hw) q hq hlq hu' hdue)

lemma closeFrom_tidy (n : ℕ) : ∀ (a : Byte) (s : State), a &&& 0xe0 = a → Tidy d T s →
    DueOwn d s (fun _ => True) → Prog.wp (closeFrom n a) (fun _ => Tidy d T) (fun _ => Tidy d T) s := by
  have hnext : ∀ a : Byte, a &&& 0xe0 = a → (a + 0x20) &&& 0xe0 = a + 0x20 := by decide
  induction n with
  | zero => exact fun _ _ _ h _ => h
  | succ n ih =>
      intro a s ha h hown
      rw [closeFrom, Prog.wp_ite, Prog.wp_bind]
      refine ⟨fun _ => h, fun _ => ?_⟩
      refine Prog.wp_mono (updateCatnfile_keeps (hnext a ha) h fun hw q hq _ => hown hw q hq trivial) ?_
        fun _ _ ht => ht.1
      rintro _ t ⟨ht, hcl⟩
      exact ih (a + 0x20) t (hnext a ha) ht (hcl.dueOwn h hown)

lemma closeFiles_tidy (y : Byte) (h : Tidy d T s)
    (hown : DueOwn d s fun z => y = 0 ∨ z = (handleOffset y).1) :
    Prog.wp (closeFiles y) (fun _ => Tidy d T) (fun _ => Tidy d T) s := by
  have hoff : ∀ y : Byte, (handleOffset y).1 &&& 0xe0 = (handleOffset y).1 := by decide
  rw [closeFiles, Prog.wp_ite, Prog.wp_ite]
  refine ⟨fun h0 => ?_, fun _ => ⟨fun _ => h, fun _ => ?_⟩⟩
  · exact closeFrom_tidy 8 0 s rfl h fun hw q hq _ => hown hw q hq (Or.inl h0)
  · exact Prog.wp_mono (updateCatnfile_keeps (hoff y) h fun hw q hq hqy => hown hw q hq (Or.inr hqy))
      (fun _ _ ht => ht.1) fun _ _ ht => ht.1

end Close

/-! ## Writing a byte -/

section Put

variable {s t : State} {d : Byte} {T : ℕ} {p : Byte × Byte}

/-- Something changes in the block of one channel, and not which file it is for. -/
lemma Tidy.changed (h : Tidy d T s) (hin : t.inUse = s.inUse)
    (hother : ∀ q ∈ slots, q ≠ p → t.chan q.1 = s.chan q.1) (hself : (s.chan p.1).SameEntry (t.chan p.1))
    (hw : t.CanWrite d → s.CanWrite d ∧ (t.chan p.1).Sized) (hl : ∃ n, Laid t d T n (t.catOf d)) :
    Tidy d T t := by
  have hused : ∀ q, t.Used q ↔ s.Used q := fun q => by rw [State.Used, State.Used, hin]
  have hentry : ∀ q ∈ slots, (s.chan q.1).SameEntry (t.chan q.1) := fun q hq => by
    by_cases hqp : q = p
    · rw [hqp]
      exact hself
    · rw [hother q hq hqp]
      exact Chan.SameEntry.refl _
  refine ⟨⟨by rw [hin]; exact h.table.bits, fun q hq hu => ?_⟩, fun hwt q hq hu => ?_,
    fun q hq r hr hne huq hur hal => ?_, hl⟩
  · exact (hentry q hq).bit.trans (h.table.bit q hq ((hused q).1 hu))
  · by_cases hqp : q = p
    · rw [hqp]
      exact (hw hwt).2
    · rw [hother q hq hqp]
      exact h.sized (hw hwt).1 q hq ((hused q).1 hu)
  · rw [State.ReadOnly, State.ReadOnly, (hentry q hq).name, (hentry r hr).name]
    refine h.apart q hq r hr hne ((hused q).1 huq) ((hused r).1 hur) ?_
    obtain ⟨hdrv, hname⟩ := hal
    rw [(hentry q hq).drv, (hentry r hr).drv] at hdrv
    rw [(hentry q hq).name, (hentry r hr).name] at hname
    exact ⟨hdrv, hname⟩

/-- The channel is ready for one more byte. -/
structure Roomy (d : Byte) (T : ℕ) (p : Byte × Byte) (s : State) : Prop where
  tidy : Tidy d T s
  used : s.Used p
  off : s.chanOff = p.1
  writable : ¬ s.ReadOnly p
  room : s.CanWrite d → (s.chan p.1).ptr.val < (s.chan p.1).alloc.val

/-- The channel `p` has become `b`, which is for the same entry, and the others are as they were. -/
structure Replaced (d : Byte) (p : Byte × Byte) (b : Chan) (s t : State) : Prop where
  inUse : t.inUse = s.inUse
  self : t.chan p.1 = b
  other : ∀ q ∈ slots, q ≠ p → t.chan q.1 = s.chan q.1
  same : (s.chan p.1).SameEntry b
  canWrite : t.CanWrite d → s.CanWrite d

namespace Replaced

variable {b : Chan}

lemma used (h : Replaced d p b s t) (q : Byte × Byte) : t.Used q ↔ s.Used q := by
  rw [State.Used, State.Used, h.inUse]

lemma entry (h : Replaced d p b s t) : ∀ q ∈ slots, (s.chan q.1).SameEntry (t.chan q.1) := by
  intro q hq
  by_cases hqp : q = p
  · rw [hqp, h.self]
    exact h.same
  · rw [h.other q hq hqp]
    exact Chan.SameEntry.refl _

lemma idle {u : State} (h : Replaced d p b s t) (hu : Idle t u) : Replaced d p b s u where
  inUse := hu.chans.1.trans h.inUse
  self := (congrFun hu.chans.2 p.1).trans h.self
  other q hq hqp := (congrFun hu.chans.2 q.1).trans (h.other q hq hqp)
  same := h.same
  canWrite hw := h.canWrite (hu.canWrite d hw)

lemma tidy (h : Replaced d p b s t) (hp : p ∈ slots) (hs : Tidy d T s) (hsized : s.CanWrite d → b.Sized)
    (hl : ∃ n, Laid t d T n (t.catOf d)) : Tidy d T t := by
  refine hs.changed h.inUse h.other (h.entry p hp) (fun hw => ⟨h.canWrite hw, ?_⟩) hl
  rw [h.self]
  exact hsized (h.canWrite hw)

/-- On a disk that cannot be written to it does not matter what the channel counts. -/
lemma laid {n : ℕ} (h : Replaced d p b s t) (hl : Laid s d T n (s.catOf d)) (hcat : t.catOf d = s.catOf d)
    (hno : ¬ t.CanWrite d) : Laid t d T n (t.catOf d) := by
  rw [hcat]
  refine ⟨⟨hl.le, hl.count, fun q hq hu => ?_, fun q hq hu => ?_⟩, hl.packed, hl.total, fun hw => absurd hw hno⟩
  · exact (h.entry q hq).drv.trans (hl.drv q hq ((h.used q).1 hu))
  · obtain ⟨e, he, hbe⟩ := hl.entry q hq ((h.used q).1 hu)
    exact ⟨e, he, (h.entry q hq).namedBy hbe⟩

lemma roomy (h : Replaced d p b s t) (ht : Tidy d T t) (hu : s.Used p) (hoff : t.chanOff = p.1)
    (hro : ¬ s.ReadOnly p) (hroom : s.CanWrite d → b.ptr.val < b.alloc.val) : Roomy d T p t where
  tidy := ht
  used := (h.used p).2 hu
  off := hoff
  writable := by
    rw [State.ReadOnly, h.self, h.same.name]
    exact hro
  room hw := by
    rw [h.self]
    exact hroom (h.canWrite hw)

end Replaced

/-- The channel counts the sectors of `r`. -/
def Chan.withRoom (c : Chan) (r : Byte × Byte) : Chan := { c with alloc := ⟨c.alloc.lo, r.1, r.2⟩ }

/-- A file that fills its space: sectors up to the next file other than those it has are more. -/
lemma Chan.Sized.withRoom {c : Chan} {r : Byte × Byte} {k : ℕ} (h : c.Sized) (hfull : c.ptr = c.alloc)
    (hle : c.alloc.val ≤ 256 * k) (hroom : (⟨0, r.1, r.2⟩ : Num24).val = 256 * k)
    (hne : ¬ (r.2 = c.alloc.hi ∧ r.1 = c.alloc.mid)) (hro : c.name 6 &&& 0x80 = 0) :
    (c.withRoom r).alloc.val = 256 * k ∧ (c.withRoom r).ptr.val < (c.withRoom r).alloc.val ∧
      (c.withRoom r).Sized := by
  have halloc : (c.withRoom r).alloc.val = 256 * k := by
    rw [← hroom, Chan.withRoom, h.whole]
  have hmore : c.alloc.val ≠ (c.withRoom r).alloc.val := by
    intro he
    refine hne ?_
    rw [Num24.val_injective he]
    exact ⟨rfl, rfl⟩
  have hptr : (c.withRoom r).ptr.val = c.alloc.val := congrArg Num24.val hfull
  have hext : (c.withRoom r).ext.val ≤ c.alloc.val := h.ext_le
  exact ⟨halloc, by omega, h.whole, by omega, by omega, fun hname => absurd hro hname⟩

/-- The entry found for a channel, and the room up to the next file. -/
lemma roomOf_found {n i : ℕ} (hl : Laid s d T n (s.catOf d)) (hin : i < n)
    (hstart : (entryAt (s.catOf d) (8 * i)).start = (s.chan p.1).start) :
    (s.chan p.1).start ≤ boundAt (s.catOf d) (8 * i) ∧
      (⟨0, (roomOf (s.catOf d) (8 * i)).1, (roomOf (s.catOf d) (8 * i)).2⟩ : Num24).val
        = 256 * (boundAt (s.catOf d) (8 * i) - (s.chan p.1).start) ∧
      boundAt (s.catOf d) (8 * i) < 1024 := by
  have hbelow := (wellPacked_iff.1 hl.packed i hin).2
  have hval := roomOf_val (c := s.catOf d) (x := 8 * i) (by omega)
  have hhi := byte_lt (s.catOf d (0x0f07 + 8 * i))
  have h0 : (0 : Byte).toNat = 0 := rfl
  rw [hstart] at hval hbelow
  refine ⟨by omega, ?_, ?_⟩
  · simp only [Num24.val, h0]
    omega
  · rw [boundAt]
    omega

/-- There is no more room: the file is closed before the error. -/
lemma cantExtend_tidy (h : Tidy d T s) (hp : p ∈ slots) (hu : s.Used p) (hidle : Idle s t)
    (hown : s.CanWrite d → s.FindsOwn (s.chan p.1)) :
    Prog.wp (do
      updateCatnfile p.1
      Prog.fail .cantExtend : Routine Unit) (fun _ _ => False) (fun _ => Tidy d T) t := by
  obtain ⟨n, hl⟩ := h.laid
  have hcloses := hidle.closes d
  rw [Prog.wp_bind]
  refine Prog.wp_mono (updateCatnfile_tidy (hcloses.tidy_of_cat h (hidle.cats.catOf d)) hp
    ((hidle.chans.used p).2 hu) fun hw _ => ?_) (fun _ z hz => hz.1) fun _ z hz => hz.1
  rw [hidle.chans.2]
  exact hcloses.findsOwn ((entryCount_of_eq hl.count).trans_le hl.le) (hl.drv p hp hu)
    (hown (hidle.canWrite d hw))

/-- A file that fills its space gets all the room up to the next file, or is closed. -/
lemma extendFile_tidy (h : Tidy d T s) (hp : p ∈ slots) (hu : s.Used p) (hro : ¬ s.ReadOnly p)
    (hoff : s.chanOff = p.1) (hcur : s.curDrv = (s.chan p.1).drv)
    (hdir : s.filenameParam 7 = (s.chan p.1).name 7 &&& 0x7f) (hfull : (s.chan p.1).ptr = (s.chan p.1).alloc)
    (hown : s.CanWrite d → s.FindsOwn (s.chan p.1)) :
    Prog.wp (extendFile p.1) (fun _ t => Roomy d T p t ∧ (s.chan p.1).SameEntry (t.chan p.1))
      (fun _ => Tidy d T) s := by
  obtain ⟨n, hl⟩ := h.laid
  have hdrv := hl.drv p hp hu
  have hcd : s.curDrv = d := hcur.trans hdrv
  rw [extendFile, Prog.wp_bind]
  refine Prog.wp_mono (setupSaveToMedia_spec hoff hcur hdir) ?_ ?_
  swap
  · rintro _ t ht
    exact (ht.closes d).tidy_of_cat h (ht.cats.catOf d)
  rintro _ t ⟨x, f, hx, hstart, ht⟩
  obtain ⟨i, hin, hi⟩ := hl.found_lt hp hu hx
  rw [hdrv, hi] at hstart
  obtain ⟨hbelow, hroom, hbound⟩ := roomOf_found hl hin hstart
  have htcat : t.cat = s.catOf d := by rw [ht, ← hcd]
  have hte : t.chanEntry = 8 * i := by rw [ht, ← hi]
  have hidle : Idle s t := by
    rw [ht]
    exact ⟨⟨rfl, rfl⟩, ⟨rfl, rfl, rfl⟩, fun _ hw => hw⟩
  have htoff : t.chanOff = p.1 := by rw [ht, ← hoff]
  have htd : t.curDrv = d := by rw [ht, ← hcd]
  rw [Prog.wp_bind, Prog.wp_get]
  simp only [hte, htcat]
  set r := roomOf (s.catOf d) (8 * i) with hr
  set m := s.catOf d (0x0f0e + 8 * i) with hm
  rw [Prog.wp_bind, Prog.wp_modify, htcat, Prog.wp_ite, hidle.chans.2]
  refine ⟨fun _ => ?_, fun hne => ?_⟩
  · refine Prog.wp_mono (cantExtend_tidy h hp hu ?_ hown) (fun _ _ hno => hno.elim) fun _ _ hz => hz
    exact ⟨⟨hidle.chans.1, rfl⟩, ⟨hidle.cats.1, hidle.cats.2, hidle.cats.3⟩, hidle.canWrite⟩
  · have hgrown : s.CanWrite d → _ := fun hw => (h.sized hw p hp hu).withRoom hfull
      (hl.alloc_le hw hp hu hro hx hi hstart) hroom hne (not_not.1 hro)
    simp only [Prog.wp_bind, Prog.wp_modify, modifyChan]
    set c₂ := Function.update (Function.update (Function.update (s.catOf d) (0x0f0e + 8 * i)
      (((r.2 <<< 4) ^^^ m) &&& 0x30 ^^^ m)) (0x0f0d + 8 * i) r.1) (0x0f0c + 8 * i) 0
    set u : State := { t with
      cat := c₂, chan := Function.update s.chan p.1 ((s.chan p.1).withRoom r) }
    have hreplaced : Replaced d p ((s.chan p.1).withRoom r) s u.cycled :=
      ⟨hidle.chans.1, Function.update_self .., fun q hq hqp =>
        Function.update_of_ne (slots_disjoint hq hp hqp).1 .., ⟨rfl, rfl, rfl, rfl⟩, hidle.canWrite d⟩
    refine Prog.wp_mono (saveCat_spec u) ?_ ?_
    · rintro _ z ⟨rfl, hwu⟩
      have hw : s.CanWrite d := hidle.canWrite d (htd ▸ hwu)
      obtain ⟨halloc, hmore, hsized⟩ := hgrown hw
      have hz : Replaced d p ((s.chan p.1).withRoom r) s u.cycled.catSaved :=
        ⟨hreplaced.inUse, hreplaced.self, hreplaced.other, hreplaced.same, fun _ => hw⟩
      have hzcat : u.cycled.catSaved.catOf d = cycledCat c₂ := by
        rw [← htd]
        exact Function.update_self ..
      have hput : LengthPut (s.catOf d) i ((⟨0, r.1, r.2⟩ : Num24).val % 262144) (cycledCat c₂) :=
        putRoom_put (s.catOf d) i r
      have hsec : sectorsOf ((⟨0, r.1, r.2⟩ : Num24).val % 262144)
          = boundAt (s.catOf d) (8 * i) - (s.chan p.1).start := by
        rw [hroom, sectorsOf]
        omega
      have hlaid : Laid u.cycled.catSaved d T n (u.cycled.catSaved.catOf d) := by
        rw [hzcat]
        refine h.lengthPut hl hw hp hu (hown hw) hx hi hstart hput (by rw [hsec]; omega) (fun q hq hq' => ?_)
          fun _ => ?_
        · exact ⟨(hz.used q).1 hq', hz.entry q hq, hz.other q hq⟩
        · rw [hz.self, hsec, halloc]
      refine ⟨hz.roomy (hz.tidy hp h (fun _ => hsized) ⟨n, hlaid⟩) hu htoff hro fun _ => hmore, ?_⟩
      rw [hz.self]
      exact hz.same
    · -- the entry has not been written, and never will be
      rintro _ z ⟨hej, hwu, -⟩
      have hidle' := Idle.of_ejected hej
      have hno : ¬ z.CanWrite d := fun hwz => hwu (htd ▸ hidle'.canWrite d hwz)
      have hz := hreplaced.idle hidle'
      have hzcat : z.catOf d = s.catOf d := (hidle'.cats.catOf d).trans (hidle.cats.catOf d)
      exact hz.tidy hp h (fun hw => (hgrown hw).2.2) ⟨n, hz.laid hl hzcat hno⟩

/-- The buffer of a channel is for another sector; its file and its place there are the same. -/
structure Rebuffered (p : Byte × Byte) (s s' : State) : Prop where
  inUse : s'.inUse = s.inUse
  off : s'.chanOff = s.chanOff
  cats : SameCats s s'
  canWrite : ∀ d, s'.CanWrite d → s.CanWrite d
  self : (s.chan p.1).SameFile (s'.chan p.1) ∧ (s'.chan p.1).ptr = (s.chan p.1).ptr
  other : ∀ z, z ≠ p.1 → s'.chan z = s.chan z

namespace Rebuffered

lemma of_idle (h : Idle s t) (hoff : t.chanOff = s.chanOff) : Rebuffered p s t where
  inUse := h.chans.1
  off := hoff
  cats := h.cats
  canWrite := h.canWrite
  self := by
    rw [h.chans.2]
    exact ⟨Chan.SameFile.refl _, rfl⟩
  other z _ := by rw [h.chans.2]

lemma refl (s : State) : Rebuffered p s s := of_idle ⟨⟨rfl, rfl⟩, ⟨rfl, rfl, rfl⟩, fun _ hw => hw⟩ rfl

lemma trans {u : State} (h : Rebuffered p s t) (h' : Rebuffered p t u) : Rebuffered p s u where
  inUse := h'.inUse.trans h.inUse
  off := h'.off.trans h.off
  cats := h.cats.trans h'.cats
  canWrite d hw := h.canWrite d (h'.canWrite d hw)
  self := ⟨h.self.1.trans h'.self.1, h'.self.2.trans h.self.2⟩
  other z hz := (h'.other z hz).trans (h.other z hz)

lemma setChan {b : Chan} (hb : (s.chan p.1).SameFile b) (hptr : b.ptr = (s.chan p.1).ptr) :
    Rebuffered p s (s.setChan p.1 b) where
  inUse := rfl
  off := rfl
  cats := ⟨rfl, rfl, rfl⟩
  canWrite _ hw := hw
  self := by
    rw [State.setChan_chan]
    exact ⟨hb, hptr⟩
  other z hz := State.setChan_chan_of_ne _ _ hz

/-- The catalogue and the space are what they were. -/
lemma roomy (h : Rebuffered p s t) (hp : p ∈ slots) (hs : Roomy d T p s) : Roomy d T p t := by
  have hself : (s.chan p.1).SameEntry (t.chan p.1) := .of_sameFile h.self.1
  have hother : ∀ q ∈ slots, q ≠ p → t.chan q.1 = s.chan q.1 := fun q hq hqp =>
    h.other q.1 (slots_disjoint hq hp hqp).1
  have hro : ¬ t.ReadOnly p := by
    rw [State.ReadOnly, hself.name]
    exact hs.writable
  obtain ⟨n, hl⟩ := hs.tidy.laid
  refine ⟨hs.tidy.changed h.inUse hother hself (fun hw => ⟨h.canWrite d hw, ?_⟩) ⟨n, ?_⟩, ?_, h.off.trans hs.off,
    hro, fun hw => ?_⟩
  · obtain ⟨hwhole, hptr, hext, -⟩ := hs.tidy.sized (h.canWrite d hw) p hp hs.used
    refine ⟨?_, ?_, ?_, fun hname => absurd hname hro⟩
    · rw [h.self.1.alloc]
      exact hwhole
    · rw [h.self.2, h.self.1.alloc]
      exact hptr
    · rw [h.self.1.ext, h.self.1.alloc]
      exact hext
  · rw [h.cats.catOf]
    refine hl.of_entries (h.canWrite d) fun q hq hu => ⟨?_, ?_, ?_⟩
    · rw [State.Used, ← h.inUse]
      exact hu
    · by_cases hqp : q = p
      · rw [hqp]
        exact hself
      · rw [hother q hq hqp]
        exact Chan.SameEntry.refl _
    · by_cases hqp : q = p
      · rw [hqp, h.self.1.alloc]
      · rw [hother q hq hqp]
  · rw [State.Used, h.inUse]
    exact hs.used
  · rw [h.self.2, h.self.1.alloc]
    exact hs.room (h.canWrite d hw)

end Rebuffered

lemma fileToMediaY_rebuffered (hoff : s.chanOff = p.1) (y : Byte) :
    Prog.wp (fileToMediaY y) (fun _ => Rebuffered p s) (fun _ => Rebuffered p s) s := by
  simp only [fileToMediaY, Prog.wp_bind, Prog.wp_get, Prog.wp_ite, Prog.wp_pure, hoff]
  refine ⟨fun _ => Rebuffered.refl s, fun _ => ?_⟩
  refine Prog.wp_mono (saveMemBlock_spec _ s) ?_ ?_
  · rintro _ t rfl
    set u := s.blockSaved (bufferReq (s.chan p.1).page (s.chan p.1).secHi (s.chan p.1).secLo)
    have hsu : Rebuffered p s u := .of_idle ⟨⟨rfl, rfl⟩, ⟨rfl, rfl, rfl⟩, fun _ hw => hw⟩ rfl
    exact hsu.trans (Rebuffered.setChan (s := u) (u.chan p.1).cleaned_sameFile rfl)
  · rintro _ t hej
    refine .of_idle (.of_ejected hej) ?_
    obtain rfl | ⟨x, -, rfl⟩ := hej <;> rfl

lemma mediaToFile_rebuffered (hoff : s.chanOff = p.1) :
    Prog.wp mediaToFile (fun _ => Rebuffered p s) (fun _ => Rebuffered p s) s := by
  simp only [mediaToFile, Prog.wp_bind, Prog.wp_get, modifyChan, Prog.wp_modify, hoff]
  have hu : Rebuffered p s (s.setChan p.1 (s.chan p.1).atSector) :=
    Rebuffered.setChan (s.chan p.1).atSector_sameFile rfl
  refine Prog.wp_mono (loadMemBlock_spec _ _) ?_ ?_
  · rintro _ t rfl
    exact hu.trans (.of_idle ⟨⟨rfl, rfl⟩, ⟨rfl, rfl, rfl⟩, fun _ hw => hw⟩ rfl)
  · rintro _ t rfl
    exact hu

lemma readyBuffer_rebuffered (hoff : s.chanOff = p.1) :
    Prog.wp (readyBuffer p.1) (fun _ => Rebuffered p s) (fun _ => Rebuffered p s) s := by
  rw [readyBuffer, Prog.wp_bind, Prog.wp_get, Prog.wp_when]
  refine ⟨fun _ => ?_, fun _ => Rebuffered.refl s⟩
  rw [Prog.wp_bind]
  refine Prog.wp_mono (fileToMediaY_rebuffered hoff p.1) ?_ fun _ _ ht => ht
  intro _ t ht
  have htoff : t.chanOff = p.1 := ht.off.trans hoff
  rw [Prog.wp_ite]
  refine ⟨fun _ => ?_, fun _ => ?_⟩
  · exact ht.trans (Rebuffered.setChan (t.chan p.1).atSector_sameFile rfl)
  · exact Prog.wp_mono (mediaToFile_rebuffered htoff) (fun _ _ hu => ht.trans hu) fun _ _ hu => ht.trans hu

/-- A byte more, as long as there is space. -/
lemma Chan.Sized.put {c : Chan} (h : c.Sized) (hlt : c.ptr.val < c.alloc.val) (hro : c.name 6 &&& 0x80 = 0) :
    c.put.Sized := by
  have hbound := c.alloc.val_lt
  set e : Chan := { c with flags := 0x40 ||| c.flags } with he
  obtain ⟨hsame, hptr, -⟩ := e.advance_spec (show c.ptr.val + 1 < 16777216 by omega)
  have hptr' : e.advance.ptr.val = c.ptr.val + 1 := hptr
  have halloc : e.advance.alloc = c.alloc := hsame.alloc
  have hname : e.advance.name 6 &&& 0x80 = 0 := by
    rw [hsame.name]
    exact hro
  have hput : c.put = e.advance.lengthen := rfl
  rw [hput, Chan.lengthen]
  split_ifs with hlong
  · refine ⟨?_, ?_, ?_, fun hn => absurd hname hn⟩
    · exact (congrArg Num24.lo halloc).trans h.whole
    · show e.advance.ptr.val ≤ e.advance.alloc.val
      rw [halloc]
      omega
    · show e.advance.ptr.val ≤ e.advance.alloc.val
      rw [halloc]
      omega
  · refine ⟨?_, ?_, ?_, fun hn => absurd hname hn⟩
    · exact (congrArg Num24.lo halloc).trans h.whole
    · rw [halloc]
      omega
    · rw [hsame.ext, halloc]
      exact h.ext_le

/-- A file that OSBPUT is to extend on the channel at the offset has the entry that is found for it. -/
def ExtendsOwn (d : Byte) (s : State) (y : Byte) : Prop :=
  s.CanWrite d → ∀ q ∈ slots, q.1 = y → s.Used q → (s.chan q.1).Unlocked →
    (s.chan q.1).ptr = (s.chan q.1).alloc → s.FindsOwn (s.chan q.1)

/-- OSBPUT keeps the catalogue packed, when a file that fills its space has the entry found for it. -/
lemma bputAt_tidy (v : Byte) (h : Tidy d T s) (hp : p ∈ slots) (hu : s.Used p) (hoff : s.chanOff = p.1)
    (hown : s.CanWrite d → (s.chan p.1).Unlocked → (s.chan p.1).ptr = (s.chan p.1).alloc → s.FindsOwn (s.chan p.1)) :
    Prog.wp (bputAt p.1 v) (fun _ => Tidy d T) (fun _ => Tidy d T) s := by
  obtain ⟨n, hl⟩ := h.laid
  rw [bputAt, Prog.wp_bind, Prog.wp_get, Prog.wp_ite, Prog.wp_ite]
  refine ⟨fun _ => h, fun h6 => ⟨fun _ => h, fun h7 => ?_⟩⟩
  have hro : ¬ s.ReadOnly p := fun hro => h6 ((by decide : ∀ b : Byte, b &&& 0x80 ≠ 0 → 128 ≤ b.toNat) _ hro)
  set w := s.fileSelected p.1 with hw
  have hset : (setFileDrv p.1).run s = .ok () w := rfl
  have hidle : Idle s w := ⟨⟨rfl, rfl⟩, ⟨rfl, rfl, rfl⟩, fun _ hw => hw⟩
  have hwt : Tidy d T w := (hidle.closes d).tidy_of_cat h rfl
  have hdir : w.filenameParam 7 = (w.chan p.1).name 7 &&& 0x7f := Function.update_self 7 _ s.filenameParam
  rw [Prog.wp_bind, Prog.wp_of_ok hset, Prog.wp_bind]
  have hrest : ∀ t, Roomy d T p t → Prog.wp (do
      readyBuffer p.1
      Prog.modify fun s => { s with
        mem := Function.update s.mem (256 * (s.chan p.1).page.toNat + (s.chan p.1).ptr.lo.toNat) v }
      modifyChan p.1 fun c => { c with flags := 0x40 ||| c.flags }.advance.lengthen : Routine Unit)
      (fun _ => Tidy d T) (fun _ => Tidy d T) t := by
    intro t ht
    rw [Prog.wp_bind]
    refine Prog.wp_mono (readyBuffer_rebuffered ht.off) ?_ fun _ u hu => (hu.roomy hp ht).tidy
    intro _ u hbuf
    have hur := hbuf.roomy hp ht
    simp only [Prog.wp_bind, Prog.wp_modify, modifyChan]
    set x : State := { u with
      mem := Function.update u.mem (256 * (u.chan p.1).page.toNat + (u.chan p.1).ptr.lo.toNat) v } with hx
    have hself : (x.setChan p.1 (x.chan p.1).put).chan p.1 = (u.chan p.1).put := State.setChan_chan _ _ _
    have hother : ∀ q ∈ slots, q ≠ p → (x.setChan p.1 (x.chan p.1).put).chan q.1 = u.chan q.1 :=
      fun q hq hqp => State.setChan_chan_of_ne _ _ (slots_disjoint hq hp hqp).1
    have hentry : (u.chan p.1).SameEntry (u.chan p.1).put := written_sameEntry _
    have hput : x.CanWrite d → (u.chan p.1).put.Sized := fun hww =>
      ((hur.tidy.sized hww p hp hur.used).put (hur.room hww) (not_not.1 hur.writable))
    obtain ⟨m, hm⟩ := hur.tidy.laid
    have halloc : (u.chan p.1).put.alloc = (u.chan p.1).alloc := by
      rw [Chan.put, Chan.lengthen]
      split_ifs <;> rw [Chan.advance] <;> split_ifs <;> rfl
    refine hur.tidy.changed (t := x.setChan p.1 (x.chan p.1).put) (p := p) rfl hother ?_ (fun hww => ?_) ⟨m, ?_⟩
    · rw [hself]
      exact hentry
    · rw [hself]
      exact ⟨hww, hput hww⟩
    · refine hm.of_entries (t := x.setChan p.1 (x.chan p.1).put) (fun hww => hww) fun q hq hq' => ⟨hq', ?_⟩
      by_cases hqp : q = p
      · rw [hqp, hself]
        exact ⟨hentry, halloc⟩
      · rw [hother q hq hqp]
        exact ⟨Chan.SameEntry.refl _, rfl⟩
  rw [Prog.wp_when]
  refine ⟨fun hfull => ?_, fun hfull => hrest w ⟨hwt, hu, hoff, hro, fun hww => ?_⟩⟩
  · have hptr := comparePtr_fst.1 hfull
    refine Prog.wp_mono (extendFile_tidy hwt hp hu hro hoff rfl hdir hptr fun hw => ?_) (fun _ t ht => hrest t ht.1)
      fun _ _ ht => ht
    exact hown hw ⟨Nat.lt_of_not_le h6, Nat.lt_of_not_le h7⟩ hptr
  · have hle := (hwt.sized hww p hp hu).ptr_le
    refine lt_of_le_of_ne hle fun he => hfull ?_
    exact comparePtr_fst.2 (Num24.val_injective he)

lemma bputv_tidy (y v : Byte) (h : Tidy d T s)
    (hown : ExtendsOwn d s (handleOffset y).1) :
    Prog.wp (bputv y v) (fun _ => Tidy d T) (fun _ => Tidy d T) s := by
  have hoff : ∀ y : Byte, (handleOffset y).1 &&& 0xe0 = (handleOffset y).1 := by decide
  by_cases hused : ∃ q ∈ slots, q.1 = (handleOffset y).1 ∧ s.Used q
  · obtain ⟨q, hq, hqy, hu⟩ := hused
    have hidle : Idle s { s with chanOff := q.1 } := ⟨⟨rfl, rfl⟩, ⟨rfl, rfl, rfl⟩, fun _ hw => hw⟩
    rw [bputv, Prog.wp_bind, openHandle, ← hqy, Prog.wp_bind, Prog.wp_of_ok (isHandleInUse_used hq hu), if_pos rfl]
    rw [Prog.wp_bind, Prog.wp_get]
    exact bputAt_tidy v ((hidle.closes d).tidy_of_cat h rfl) hq hu rfl fun hw => hown hw q hq hqy hu
  · have hrun := isHandleInUse_unused h.table (hoff y) hused
    have hidle : Idle s { s with chanOff := (handleOffset y).1 } :=
      ⟨⟨rfl, rfl⟩, ⟨rfl, rfl, rfl⟩, fun _ hw => hw⟩
    rw [bputv, Prog.wp_bind, openHandle, Prog.wp_bind, Prog.wp_of_ok hrun, if_neg Bool.false_ne_true]
    exact (hidle.closes d).tidy_of_cat h rfl

end Put

end Udfs.Rom
