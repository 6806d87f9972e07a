import Udfs.Rom.SavedFiles

/-!
# `*COMPACT` and the store

Moving the files together changes nothing that a caller can tell, except how much room there is: what the
files leave free is in one piece afterwards, so that a new file is refused only if it is longer than all
that is free.
-/

namespace Udfs.Rom

open Extents

/-! ## The same files in other places -/

section Places

variable {s t : State} {d : Byte} {T n : ℕ}

lemma Entry.SameFile.key {e e' : Entry} (h : e.SameFile e') : e'.key = e.key := by
  rw [Entry.key, Entry.key, h.1]

/-- The bits of the addresses are above those of the start. -/
lemma Entry.SameFile.addresses {e e' : Entry} (h : e.SameFile e') : e'.load = e.load ∧ e'.exec = e.exec := by
  obtain ⟨-, hinfo, h6⟩ := h
  have hbits : ∀ a : Byte, (a &&& 0xfc).toNat / 4 % 4 = a.toNat / 4 % 4 ∧
      (a &&& 0xfc).toNat / 64 = a.toNat / 64 := by
    decide
  have hload : (e'.info 6).toNat / 4 % 4 = (e.info 6).toNat / 4 % 4 := by
    rw [← (hbits (e'.info 6)).1, h6, (hbits (e.info 6)).1]
  have hexec : (e'.info 6).toNat / 64 = (e.info 6).toNat / 64 := by
    rw [← (hbits (e'.info 6)).2, h6, (hbits (e.info 6)).2]
  constructor
  · rw [Entry.load, Entry.load, hinfo 0 (by decide), hinfo 1 (by decide), hload]
  · rw [Entry.exec, Entry.exec, hinfo 2 (by decide), hinfo 3 (by decide), hexec]

end Places

/-! ## The command -/

section Command

variable {s t : State} {d : Byte} {T n : ℕ}

/-- No file of the drive is without data. -/
def AllWithData (s : State) (d : Byte) : Prop := ∀ k f, s.store d k = some f → f.bytes ≠ []

lemma AllWithData.length (h : AllWithData s d) (ho : Orderly T n (s.catOf d)) {i : ℕ} (hi : i < n) :
    (entryAt (s.catOf d) (8 * i)).length ≠ 0 := by
  have hbytes := h _ _ (State.store_getElem ho hi)
  intro hzero
  refine hbytes ?_
  rw [State.fileOf, hzero]
  rfl

/-- What the command leaves: the files as they were, from sector 2 on without gaps. -/
structure Reclaimed (d : Byte) (T n : ℕ) (s t : State) : Prop where
  sound : Sound d T t
  kept : s.Kept t
  store : t.store d = s.store d
  orderly : Orderly T n (t.catOf d)
  used : total Entry.sectors (entries (t.catOf d) n) = total Entry.sectors (entries (s.catOf d) n)
  starts : ∀ i (hi : i < (entries (t.catOf d) n).length),
    (entries (t.catOf d) n)[i].start = 2 + total Entry.sectors ((entries (t.catOf d) n).drop (i + 1))

end Command

/-! ## Room for a new file -/

section Room

variable {s t : State} {d : Byte} {T n p : ℕ} {chars : List Byte}

/-- When all that is free is in one piece, it is the length that counts. -/
lemma Reclaimed.room (h : Reclaimed d T n s t) (len : Num24) (hfit : 2 + sectorsOf len.val ≤ T) :
    (n = 0 ∨ ∃ i ≤ n, GapFits (t.catOf d) n len i) ↔
      2 + total Entry.sectors (entries (s.catOf d) n) + sectorsOf len.val ≤ T := by
  have hle := h.orderly.packed.total_le (by rw [h.orderly.total]; omega)
  have hroom := exists_fits_iff (n := sectorsOf len.val) h.starts hle
  rw [entries_length, h.used, h.orderly.total] at hroom
  have hfits : (∃ i ≤ n, GapFits (t.catOf d) n len i) ↔
      2 + total Entry.sectors (entries (s.catOf d) n) + sectorsOf len.val ≤ T := by
    simp only [GapFits, h.orderly.total]
    exact hroom
  rw [hfits]
  refine ⟨?_, Or.inr⟩
  rintro (rfl | hgap)
  · simpa [entries] using hfit
  · exact hgap

end Room

end Udfs.Rom
