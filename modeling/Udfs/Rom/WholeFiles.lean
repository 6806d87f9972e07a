import Udfs.Lib.Calls
import Udfs.Rom.Answers
import Udfs.Rom.Refusals

/-!
# OSFILE without saving

The name is looked up, and the entry reported on, loaded from, changed or deleted.  Each of these calls is a
step of the store machine and leaves the drive sound.
-/

namespace Udfs.Rom

/-! ## Blocks of any length -/

section Blocks

variable {r : BlockReq} {s : State}

end Blocks

/-! ## Finding the file -/

namespace State

/-- The state when the name has been read and looked for. -/
def looked (s : State) (chars : List Byte) : State :=
  (({ s with wildcard := 0xff } : State).withFsp (s.fsp chars).1).searched

/-- The channels, and what names are read with. -/
structure Kept (s t : State) : Prop where
  chans : SameChans s t
  defDir : t.defDir = s.defDir
  defDrv : t.defDrv = s.defDrv

lemma Kept.refl (s : State) : s.Kept s := ⟨⟨rfl, rfl⟩, rfl, rfl⟩

lemma Kept.trans {s t u : State} (h : s.Kept t) (h' : t.Kept u) : s.Kept u :=
  ⟨h.chans.trans h'.chans, h'.defDir.trans h.defDir, h'.defDrv.trans h.defDrv⟩

lemma Kept.fsp {s t : State} (h : s.Kept t) : t.fsp = s.fsp := by
  funext chars
  rw [State.fsp, State.fsp, h.defDir, h.defDrv]

end State

/-- A call names a file of drive `d`, if its text can be read, and by a plain name. -/
structure Addresses (d : Byte) (s : State) (chars : List Byte) : Prop where
  drv : (s.fsp chars).1.drv = d
  plain : Plain (s.fsp chars).1.name

section Finding

variable {s : State} {d : Byte} {T : ℕ} {chars : List Byte}

end Finding

/-! ## The functions that leave the store alone -/

section Functions

variable {s t : State} {d : Byte} {T n i p : ℕ} {chars : List Byte} {a : Byte}

lemma Sound.looked (h : Sound d T s) : Sound d T (s.looked chars) := ⟨h.canWrite, h.small, h.orderly⟩

lemma State.Kept.looked (s : State) (chars : List Byte) : s.Kept (s.looked chars) := ⟨⟨rfl, rfl⟩, rfl, rfl⟩

/-- The catalogue that has been searched is the drive's. -/
lemma Addresses.looked_cat (ha : Addresses d s chars) : (s.looked chars).cat = s.catOf d :=
  congrArg s.catOf ha.drv

/-- The report on a file is the one on its entry. -/
lemma fileOf_reportAt (s : State) (d : Byte) (e : Entry) (p : ℕ) (m : ℕ → Byte) :
    (s.fileOf d e).reportAt p m = reported e p m := by
  have hlen : (s.fileOf d e).bytes.length = e.length := by simp [State.fileOf]
  rw [StoredFile.reportAt, hlen]
  rfl

variable (h : Sound d T s) (ha : Addresses d s chars) (hok : (s.fsp chars).2 = none)

include h ha hok

end Functions

/-! ## Saving the catalogue -/

section Saving

variable {s t v : State} {d : Byte} {T n m i : ℕ}

/-- What the files are read from, and the channels, are those of `s`; the buffer, the memory and the working
storage may be others. -/
structure State.Beside (s v : State) : Prop extends s.Kept v where
  cats : v.cats = s.cats
  catNo : v.catNo = s.catNo
  drives : s.SameDrives v
  disk : v.disk = s.disk

lemma State.Beside.catOf (h : s.Beside v) (d : Byte) : v.catOf d = s.catOf d := by
  rw [State.catOf, State.catOf, h.cats, h.catNo]

lemma State.Beside.fileOf (h : s.Beside v) (d : Byte) : v.fileOf d = s.fileOf d := by
  funext e
  have hbyte : v.fileByte d e = s.fileByte d e := by
    funext b
    exact (congrFun h.disk _).trans (congrArg (fun k => s.disk (k + b)) (h.drives.addrOn d e.start))
  rw [State.fileOf, hbyte, State.fileOf]

lemma State.Beside.store (h : s.Beside v) (d : Byte) : v.store d = s.store d := by
  funext k
  rw [State.store, h.fileOf, h.catOf]
  rfl

lemma State.Beside.sound (h : s.Beside v) (hs : Sound d T s) : Sound d T v := by
  refine ⟨(h.drives.canWrite d).2 hs.canWrite, hs.small, ?_⟩
  rw [h.catOf]
  exact hs.orderly

end Saving

/-! ## Changing a file -/

section Changing

variable {s v : State} {d : Byte} {T i p : ℕ} {chars : List Byte} {a : Byte}
  {f : ℕ → (ℕ → Byte) → ℕ → Byte} {g : StoredFile → StoredFile}

/-- The state with the name looked up, whatever a check for open files has noted. -/
lemma Addresses.beside (ha : Addresses d s chars) (hv : (s.looked chars).Noted v) :
    s.Beside v ∧ v.curDrv = d ∧ v.cat = s.catOf d ∧ v.mem = s.mem := by
  obtain ⟨q, rfl⟩ := hv
  exact ⟨⟨⟨⟨rfl, rfl⟩, rfl, rfl⟩, rfl, rfl, ⟨rfl, rfl, rfl, rfl, rfl⟩, rfl⟩, ha.drv, ha.looked_cat, rfl⟩

variable (h : Sound d T s) (ha : Addresses d s chars) (hok : (s.fsp chars).2 = none)

include h ha hok

end Changing

/-! ## Deleting a file -/

section Deleting

variable {s v : State} {d : Byte} {T n i p : ℕ} {chars : List Byte}

variable (h : Sound d T s) (ha : Addresses d s chars) (hok : (s.fsp chars).2 = none)

include h ha hok

end Deleting

end Udfs.Rom
