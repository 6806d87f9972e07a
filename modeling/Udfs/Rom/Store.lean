import Udfs.Lib.Keyed
import Udfs.Rom.Compact
import Udfs.Rom.Layout
import Udfs.Rom.Osfile
import Udfs.Rom.Rename

/-!
# A disk as a store of files

What a disk keeps is files, found by their names: a name stands for all its spellings in capital and
small letters, and a file has two addresses, a lock and its bytes.  Where the bytes lie on the disk, and
in which order the catalogue lists the files, is nothing that a caller can tell.
-/

namespace Udfs.Rom

/-! ## Names as keys -/

/-- A character without bit 7, and a letter without its case. -/
def foldChar (a : Byte) : Byte := if Letter (a &&& 0x7f) then a &&& 0x5f else a &&& 0x7f

/-- What names the search tells apart. -/
def nameKey (n : Fin 8 → Byte) : Fin 8 → Byte := fun i => foldChar (n i)

/-- Bit 7 is clear in every character. -/
def Plain (n : Fin 8 → Byte) : Prop := ∀ i, (n i).toNat < 128

namespace Entry

/-- The eighteen bits of the load address. -/
def load (e : Entry) : ℕ := (e.info 0).toNat + 256 * (e.info 1).toNat + 65536 * ((e.info 6).toNat / 4 % 4)

/-- The eighteen bits of the execution address. -/
def exec (e : Entry) : ℕ := (e.info 2).toNat + 256 * (e.info 3).toNat + 65536 * ((e.info 6).toNat / 64)

/-- The name as a search sees it. -/
def key (e : Entry) : Fin 8 → Byte := nameKey e.name

end Entry

/-- A file without its place on the disk: the name with the lock in its top bit, the addresses, and
the bytes. -/
@[ext] structure StoredFile where
  name : Fin 8 → Byte
  load : ℕ
  exec : ℕ
  bytes : List Byte

/-- Files by their keys. -/
abbrev Store : Type := (Fin 8 → Byte) → Option StoredFile

namespace State

/-- The file of an entry. -/
def fileOf (s : State) (d : Byte) (e : Entry) : StoredFile :=
  ⟨e.name, e.load, e.exec, (List.range e.length).map (s.fileByte d e)⟩

/-- The files on drive `d`. -/
def store (s : State) (d : Byte) : Store := fun k =>
  (Keyed.lookup Entry.key (entries (s.catOf d) (entryCount (s.catOf d))) k).map (s.fileOf d)

end State

/-! ## What the control block is told -/

/-- Four bytes of a number. -/
def le32 (v : ℕ) : List Byte :=
  [BitVec.ofNat 8 v, BitVec.ofNat 8 (v / 256), BitVec.ofNat 8 (v / 65536), BitVec.ofNat 8 (v / 16777216)]

/-- Bytes laid over memory. -/
def overlay (l : List Byte) (q : ℕ) (m : ℕ → Byte) : ℕ → Byte := fun a =>
  if q ≤ a ∧ a < q + l.length then l.getD (a - q) 0 else m a

/-- The sixteen bytes behind the address of the name: the addresses and the length of a file, and
its lock. -/
def report (load exec length : ℕ) (locked : Prop) [Decidable locked] : List Byte :=
  le32 (hostAddr load) ++ le32 (hostAddr exec) ++ le32 length ++ le32 (if locked then 0x0a else 0)

/-- The control block at `p` with the report on an entry. -/
def reported (e : Entry) (p : ℕ) (m : ℕ → Byte) : ℕ → Byte :=
  overlay (report e.load e.exec e.length e.Locked) (p + 2) m

lemma le32_eq {b0 b1 b2 b3 : Byte} {v : ℕ}
    (h : b0.toNat + 256 * b1.toNat + 65536 * (b2.toNat + 256 * b3.toNat) = v) :
    le32 v = [b0, b1, b2, b3] := by
  have h0 := byte_lt b0
  have h1 := byte_lt b1
  have h2 := byte_lt b2
  have h3 := byte_lt b3
  have hof : ∀ (b : Byte) (k : ℕ), k % 256 = b.toNat → BitVec.ofNat 8 k = b := by
    intro b k hk
    exact BitVec.eq_of_toNat_eq (by rw [BitVec.toNat_ofNat]; exact hk)
  rw [le32, hof b0 v (by omega), hof b1 (v / 256) (by omega), hof b2 (v / 65536) (by omega),
    hof b3 (v / 16777216) (by omega)]

section Report

variable (c : ℕ → Byte) (y : ℕ)

lemma expandEntry_tail (blk : ℕ → Byte) :
    (List.range 3).map (fun i => expandEntry c y blk (i + 15)) = [0, 0, 0] := by
  by_cases hload : (c (0x0f0e + y) >>> 2) &&& 3 = 3 <;>
    by_cases hexec : (c (0x0f0e + y) >>> 2 >>> 2 >>> 2) &&& 3 = 3 <;>
    by_cases hlock : 128 ≤ (c (0x0e0f + y)).toNat <;>
    simp only [expandEntry, storeTop, storePair, hload, hexec, hlock, if_true, if_false] <;>
    simp [List.range, List.range.loop]

lemma storeTop_outside (blk : ℕ → Byte) {o a : ℕ} (v : Byte) (h : a ≠ o ∧ a ≠ o + 1) :
    (storeTop blk o v).1 a = blk a := by
  simp only [storeTop]
  split_ifs
  · simp only [Function.update_of_ne h.2, Function.update_of_ne h.1]
  · exact Function.update_of_ne h.1 ..

lemma storePair_outside (blk : ℕ → Byte) {o a : ℕ} (h : a ≠ o ∧ a ≠ o + 1) :
    storePair c y blk o a = blk a := by
  rw [storePair, Function.update_of_ne h.2, Function.update_of_ne h.1]

/-- Outside its sixteen bytes the block stays. -/
lemma expandEntry_outside (blk : ℕ → Byte) {a : ℕ} (h : a < 2 ∨ 18 ≤ a) : expandEntry c y blk a = blk a := by
  have hlock : ∀ b : ℕ → Byte,
      (if 128 ≤ (c (0x0e0f + y)).toNat then Function.update b 0x0e 0x0a else b) a = b a := by
    intro b
    split_ifs
    · exact Function.update_of_ne (by omega) ..
    · rfl
  change (storeTop (Function.update (storeTop _ 4 _).1 0x0c _) 8 _).1 a = _
  rw [storeTop_outside _ _ (by omega), Function.update_of_ne (by omega),
    storeTop_outside _ _ (by omega), hlock, storePair_outside _ _ _ (by omega),
    storePair_outside _ _ _ (by omega), storePair_outside _ _ _ (by omega), if_neg (by omega)]

/-- `$837e` reports on the entry. -/
lemma expandEntry_report (blk : ℕ → Byte) :
    (List.range 16).map (fun i => expandEntry c y blk (i + 2))
      = report (entryAt c y).load (entryAt c y).exec (entryAt c y).length (entryAt c y).Locked := by
  have hsplit : (List.range 16).map (fun i => expandEntry c y blk (i + 2))
      = (List.range 13).map (fun i => expandEntry c y blk (i + 2))
        ++ (List.range 3).map (fun i => expandEntry c y blk (i + 15)) := rfl
  have hoff : ∀ k : Fin 8, c (0x0f08 + k.val + y) = (entryAt c y).info k := by
    intro k
    rw [Nat.add_right_comm]
    rfl
  have h7 : c (0x0e0f + y) = (entryAt c y).name 7 := congrArg c (Nat.add_right_comm 0x0e08 7 y)
  have hshift2 : ∀ a : Byte, (a >>> 2).toNat = a.toNat / 4 := by decide
  have hshift6 : ∀ a : Byte, (a >>> 2 >>> 2 >>> 2).toNat % 4 = a.toNat / 64 := by decide
  have hmid : ∀ a : Byte, ((a >>> 2 >>> 2) &&& 3).toNat = a.toNat / 16 % 4 := by decide
  have i0 : c (0x0f08 + y) = (entryAt c y).info 0 := hoff 0
  have i1 : c (0x0f09 + y) = (entryAt c y).info 1 := hoff 1
  have i2 : c (0x0f0a + y) = (entryAt c y).info 2 := hoff 2
  have i3 : c (0x0f0b + y) = (entryAt c y).info 3 := hoff 3
  have i4 : c (0x0f0c + y) = (entryAt c y).info 4 := hoff 4
  have i5 : c (0x0f0d + y) = (entryAt c y).info 5 := hoff 5
  have i6 : c (0x0f0e + y) = (entryAt c y).info 6 := hoff 6
  rw [hsplit, expandEntry_bytes, expandEntry_tail, i0, i1, i2, i3, i4, i5, i6, h7]
  generalize entryAt c y = e
  have hload : le32 (hostAddr e.load) = [e.info 0, e.info 1, (upperHalf ((e.info 6 >>> 2) &&& 3)).1,
      (upperHalf ((e.info 6 >>> 2) &&& 3)).2] := by
    have h0 := byte_lt (e.info 0)
    have h1 := byte_lt (e.info 1)
    refine le32_eq ?_
    rw [upperHalf_val _ (by omega), hshift2]
    rfl
  have hexec : le32 (hostAddr e.exec) = [e.info 2, e.info 3,
      (upperHalf ((e.info 6 >>> 2 >>> 2 >>> 2) &&& 3)).1,
      (upperHalf ((e.info 6 >>> 2 >>> 2 >>> 2) &&& 3)).2] := by
    have h2 := byte_lt (e.info 2)
    have h3 := byte_lt (e.info 3)
    refine le32_eq ?_
    rw [upperHalf_val _ (by omega), hshift6]
    rfl
  have hlength : le32 e.length = [e.info 4, e.info 5, (e.info 6 >>> 2 >>> 2) &&& 3, 0] := by
    refine le32_eq ?_
    rw [hmid]
    rfl
  have hlock : le32 (if e.Locked then 0x0a else 0)
      = [if 128 ≤ (e.name 7).toNat then 0x0a else 0, 0, 0, 0] := by
    by_cases h : e.Locked
    · have h' : 128 ≤ (e.name 7).toNat := h
      rw [if_pos h, if_pos h']
      rfl
    · have h' : ¬ 128 ≤ (e.name 7).toNat := h
      rw [if_neg h, if_neg h']
      rfl
  rw [report, hload, hexec, hlength, hlock]
  rfl

/-- The control block after `$837e`. -/
lemma expandAt_reported (p : ℕ) (m : ℕ → Byte) : expandAt c y p m = reported (entryAt c y) p m := by
  have hreport := expandEntry_report c y fun o => m (p + o)
  funext a
  rw [reported, overlay, ← hreport, expandAt]
  simp only [List.length_map, List.length_range]
  by_cases hp : p ≤ a
  · rw [if_pos hp]
    by_cases hin : 2 ≤ a - p ∧ a - p < 18
    · have hlen : a - (p + 2) < 16 := by omega
      have hadd : a - (p + 2) + 2 = a - p := by omega
      rw [if_pos (by omega), List.getD_eq_getElem _ _ (by simpa using hlen), List.getElem_map,
        List.getElem_range, hadd]
    · have hadd : p + (a - p) = a := by omega
      rw [if_neg (by omega), expandEntry_outside _ _ _ (by omega), hadd]
  · rw [if_neg hp, if_neg (by omega)]

end Report

/-! ## Catalogues in order -/

/-- A catalogue of `n` files on a disk of `T` sectors: the files take disjoint runs of sectors, and no two
have the same name. -/
structure Orderly (T n : ℕ) (c : ℕ → Byte) : Prop where
  count : (c 0x0f05).toNat = 8 * n
  few : n ≤ 31
  packed : WellPacked c n
  total : totalSectors c = T
  distinct : Keyed.Distinct Entry.key (entries c n)

section Catalogues

variable {T n i : ℕ} {c c' : ℕ → Byte}

/-- Only the cycle number is counted. -/
lemma entries_cycledCat (c : ℕ → Byte) (hn : n ≤ 31) : entries (cycledCat c) n = entries c n :=
  entries_update c _ hn (by decide) (by decide)

lemma Orderly.of_entries (h : Orderly T n c) (hcount : (c' 0x0f05).toNat = 8 * n)
    (htotal : totalSectors c' = totalSectors c) (he : entries c' n = entries c n) : Orderly T n c' where
  count := hcount
  few := h.few
  packed := by
    rw [WellPacked, he, htotal]
    exact h.packed
  total := htotal.trans h.total
  distinct := by
    rw [he]
    exact h.distinct

lemma totalSectors_cycledCat (c : ℕ → Byte) : totalSectors (cycledCat c) = totalSectors c := by
  rw [totalSectors, boundAt, cycledCat_of_ne _ (by decide), cycledCat_of_ne _ (by decide), totalSectors,
    boundAt]

lemma Orderly.cycled (h : Orderly T n c) : Orderly T n (cycledCat c) :=
  h.of_entries (by rw [cycledCat_of_ne _ (by decide)]; exact h.count) (totalSectors_cycledCat c)
    (entries_cycledCat c h.few)

lemma Orderly.delete (h : Orderly T n c) (hi : i < n) : Orderly T (n - 1) (deletedCat c n i) where
  count := deletedCat_count c h.few hi h.count
  few := by have := h.few; omega
  packed := by
    rw [WellPacked, deletedCat_total c h.few hi, entries_deletedCat c h.few hi]
    exact h.packed.eraseIdx i
  total := (deletedCat_total c h.few hi).trans h.total
  distinct := by
    rw [entries_deletedCat c h.few hi]
    exact h.distinct.eraseIdx i

/-- The address is one of the entry at `y`. -/
def InEntry (y a : ℕ) : Prop := (0x0e08 + y ≤ a ∧ a < 0x0e10 + y) ∨ (0x0f08 + y ≤ a ∧ a < 0x0f10 + y)

/-- Only bytes of the `i`-th entry change, and neither its place nor its key. -/
structure Edited (i : ℕ) (c c' : ℕ → Byte) : Prop where
  outside : ∀ a, ¬ InEntry (8 * i) a → c' a = c a
  start : (entryAt c' (8 * i)).start = (entryAt c (8 * i)).start
  length : (entryAt c' (8 * i)).length = (entryAt c (8 * i)).length
  key : (entryAt c' (8 * i)).key = (entryAt c (8 * i)).key

lemma Edited.other (h : Edited i c c') {j : ℕ} (hj : j < 31) (hi : i < 31) (hne : j ≠ i) :
    entryAt c' (8 * j) = entryAt c (8 * j) := by
  refine entryAt_congr (fun k hk => h.outside _ ?_) fun k hk => h.outside _ ?_ <;>
    · rw [InEntry]
      omega

lemma Edited.entries (h : Edited i c c') (hn : n ≤ 31) (hi : i < n) :
    entries c' n = (entries c n).set i (entryAt c' (8 * i)) := by
  refine List.ext_getElem (by simp) fun j h1 h2 => ?_
  have hj : j < n := by simpa using h1
  rw [entries_getElem _ h1, List.getElem_set]
  split_ifs with hij
  · rw [hij]
  · rw [entries_getElem, h.other (by omega) (by omega) (Ne.symm hij)]

lemma Edited.orderly (h : Edited i c c') (ho : Orderly T n c) (hi : i < n) : Orderly T n c' := by
  have hn := ho.few
  have hcount : c' 0x0f05 = c 0x0f05 := h.outside _ (by rw [InEntry]; omega)
  have hbound : ∀ j < n, boundAt c' (8 * j) = boundAt c (8 * j) := by
    intro j hj
    cases j with
    | zero =>
        rw [boundAt, h.outside _ (by rw [InEntry]; omega), h.outside _ (by rw [InEntry]; omega), boundAt]
    | succ j =>
        have hstart : (entryAt c' (8 * j)).start = (entryAt c (8 * j)).start := by
          by_cases hji : j = i
          · rw [hji, h.start]
          · rw [h.other (by omega) (by omega) hji]
        rw [entryAt_start, entryAt_start] at hstart
        exact hstart
  refine ⟨by rw [hcount, ho.count], hn, wellPacked_iff.2 fun j hj => ?_,
    (hbound 0 (by omega)).trans ho.total, ?_⟩
  · have hpacked := wellPacked_iff.1 ho.packed j hj
    rw [hbound j hj]
    by_cases hji : j = i
    · subst hji
      rw [Entry.sectors, h.start, h.length]
      exact hpacked
    · rw [h.other (by omega) (by omega) hji]
      exact hpacked
  · rw [h.entries hn hi]
    refine ho.distinct.set (by simpa using hi) ?_
    rw [entries_getElem]
    exact h.key

lemma Orderly.inside (h : Orderly T n c) (hi : i < n) :
    2 ≤ (entryAt c (8 * i)).start ∧ (entryAt c (8 * i)).start + (entryAt c (8 * i)).sectors ≤ T := by
  have hmem := Extents.Packed.mem h.packed _ (mem_entries (c := c) hi)
  rwa [h.total] at hmem

end Catalogues

/-! ## Stores behind the server -/

/-- A drive with a disk of `T` sectors whose catalogue is in order, and which may be written. -/
structure Sound (d : Byte) (T : ℕ) (s : State) : Prop where
  canWrite : s.CanWrite d
  small : T ≤ 800
  orderly : ∃ n, Orderly T n (s.catOf d)

section Stores

variable {T n i : ℕ} {c : ℕ → Byte} {d : Byte} {s t : State}

lemma State.store_apply (h : Orderly T n (s.catOf d)) (k : Fin 8 → Byte) :
    s.store d k = (Keyed.lookup Entry.key (entries (s.catOf d) n) k).map (s.fileOf d) := by
  rw [State.store, entryCount_of_eq h.count]

lemma State.store_getElem (h : Orderly T n (s.catOf d)) (hi : i < n) :
    s.store d (entryAt (s.catOf d) (8 * i)).key = some (s.fileOf d (entryAt (s.catOf d) (8 * i))) := by
  have hlen : i < (entries (s.catOf d) n).length := by simpa using hi
  have hget := Keyed.lookup_getElem h.distinct hlen
  rw [entries_getElem] at hget
  rw [State.store_apply h, hget]
  rfl

/-- The store goes by the entries that are found and by the bytes of their files. -/
lemma State.store_of_lookup {m : ℕ} (h : Orderly T n (s.catOf d)) (ht : Orderly T m (t.catOf d))
    {k : Fin 8 → Byte} {o : Option Entry}
    (hlook : Keyed.lookup Entry.key (entries (t.catOf d) m)
      = Function.update (Keyed.lookup Entry.key (entries (s.catOf d) n)) k o)
    (hfiles : ∀ e ∈ entries (s.catOf d) n, e.key ≠ k → t.fileOf d e = s.fileOf d e) :
    t.store d = Function.update (s.store d) k (o.map (t.fileOf d)) := by
  funext j
  rw [State.store_apply ht, hlook]
  by_cases hj : j = k
  · rw [hj, Function.update_self, Function.update_self]
  · rw [Function.update_of_ne hj, Function.update_of_ne hj, State.store_apply h]
    rcases hfind : Keyed.lookup Entry.key (entries (s.catOf d) n) j with _ | e
    · rfl
    · obtain ⟨hmem, rfl⟩ := (Keyed.lookup_eq_some h.distinct).1 hfind
      exact congrArg some (hfiles e hmem hj)

end Stores

end Udfs.Rom
