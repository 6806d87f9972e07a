import Udfs.Rom.Store

/-!
# What OSFILE answers

A store machine says what the functions of OSFILE do to the files of a drive and to the caller's memory,
without entries or a catalogue; of the sectors it knows how many there are, and not where the files lie.
Functions 1 to 4 write into the file's entry, and there they do to the file what the machine says.
-/

namespace Udfs.Rom

/-! ## The store machine -/

/-- A call of OSFILE: the function, the control block and the text of the name. -/
structure OsfileCall where
  a : Byte
  p : ℕ
  chars : List Byte

namespace StoredFile

/-- The attribute bit of a locked file. -/
def Locked (f : StoredFile) : Prop := 128 ≤ (f.name 7).toNat

instance (f : StoredFile) : Decidable f.Locked := inferInstanceAs (Decidable (_ ≤ _))

/-- The file with another load address. -/
def withLoad (f : StoredFile) (b : FileBlock) : StoredFile := { f with load := b.load }

/-- The file with another execution address. -/
def withExec (f : StoredFile) (b : FileBlock) : StoredFile := { f with exec := b.exec }

/-- The file locked or unlocked. -/
def withAttr (f : StoredFile) (b : FileBlock) : StoredFile :=
  { f with
    name := Function.update f.name 7 (if b.c4 &&& 0x0a = 0 then f.name 7 &&& 0x7f else f.name 7 ||| 0x80) }

/-- What functions 1 to 4 make of a file. -/
def changed (f : StoredFile) (a : Byte) (b : FileBlock) : StoredFile :=
  if a = 1 then ((f.withLoad b).withExec b).withAttr b
  else if a = 2 then f.withLoad b
  else if a = 3 then f.withExec b
  else f.withAttr b

/-- The control block at `p` with the report on the file. -/
def reportAt (f : StoredFile) (p : ℕ) (m : ℕ → Byte) : ℕ → Byte :=
  overlay (report f.load f.exec f.bytes.length f.Locked) (p + 2) m

/-- Where the bytes go: to the address in the control block when the execution address there has a low
byte of 0, and to the file's own otherwise. -/
def loadAddr (f : StoredFile) (b : FileBlock) : ℕ :=
  if b.c0 = 0 then b.be.toNat + 256 * b.bf.toNat else f.load % 65536

end StoredFile

namespace Store

/-- `l` has the keys of all the files. -/
structure Lists (g : Store) (l : List (Fin 8 → Byte)) : Prop where
  nodup : l.Nodup
  mem : ∀ k, k ∈ l ↔ g k ≠ none

/-- The sectors of the file under a key. -/
def sectors (g : Store) (k : Fin 8 → Byte) : ℕ := ((g k).map fun f => sectorsOf f.bytes.length).getD 0

/-- There is a place for another file, and there are `k` free sectors for it on a disk of `T`. -/
def HasRoom (T : ℕ) (g : Store) (k : ℕ) : Prop :=
  ∃ l, Lists g l ∧ l.length ≤ 30 ∧ 2 + (l.map g.sectors).sum + k ≤ T

/-- Why another file of `k` sectors may be refused: there are 31 files, or the free sectors may lie in pieces
that are all too small, one piece above each file and one below them. -/
def MayRefuse (T : ℕ) (g : Store) (k : ℕ) (e : Err) : Prop :=
  ∃ l, Lists g l ∧ (e = .catalogueFull ∧ l.length = 31 ∨
    e = .diskFull ∧ l.length ≤ 30 ∧ T + (l.length + 1) ≤ 2 + (l.map g.sectors).sum + (l.length + 1) * k)

end Store

section Machine

variable (T : ℕ) (parse : List Byte → Fsp × Option Err) (held : (Fin 8 → Byte) → Prop)

/-- The call names a file. -/
def OsfileCall.Names (c : OsfileCall) (n : Fin 8 → Byte) : Prop :=
  (parse c.chars).2 = none ∧ (parse c.chars).1.name = n

/-- What keeps function `a` from changing a file: the lock keeps all but function 4 from it, an open
channel functions 0, 4 and 6. -/
def Refuses (a : Byte) (f : StoredFile) (e : Err) : Prop :=
  if f.Locked ∧ a ≠ 4 then e = .fileLocked else held f.name ∧ a ∈ [0, 4, 6] ∧ e = .fileOpen

/-- The name is free for a save, or its file may be replaced. -/
def Replaceable (g : Store) (n : Fin 8 → Byte) : Prop :=
  ∀ f, g (nameKey n) = some f → ∀ e, ¬ Refuses held 0 f e

/-- A file with what a save takes over from the name and the control block. -/
structure SavedAs (b : FileBlock) (n : Fin 8 → Byte) (f : StoredFile) : Prop where
  name : f.name = n
  load : f.load = b.load
  exec : f.exec = b.exec
  length : f.bytes.length = b.length.val

/-- How a call is answered, from one store and memory to the next, on a disk of `T` sectors.  Only a save has
a choice, when there is room for the file but not in every order of the others. -/
inductive Answers : Store × (ℕ → Byte) → OsfileCall → Except Err Byte → Store × (ℕ → Byte) → Prop where
  | other {g m c} (ha : c.a ∉ [0xff, 0, 1, 2, 3, 4, 5, 6]) : Answers (g, m) c (.ok c.a) (g, m)
  | badName {g m c e} (ha : c.a ∈ [0xff, 0, 1, 2, 3, 4, 5, 6]) (he : (parse c.chars).2 = some e) :
      Answers (g, m) c (.error e) (g, m)
  | absent {g m c n} (ha : c.a ∈ [1, 2, 3, 4, 5, 6]) (hn : c.Names parse n) (hg : g (nameKey n) = none) :
      Answers (g, m) c (.ok 0) (g, m)
  | loadAbsent {g m c n} (ha : c.a = 0xff) (hn : c.Names parse n) (hg : g (nameKey n) = none) :
      Answers (g, m) c (.error .fileNotFound) (g, m)
  | load {g m c n f} (ha : c.a = 0xff) (hn : c.Names parse n) (hg : g (nameKey n) = some f)
      (hle : f.bytes.length ≤ 0xff00) :
      Answers (g, m) c (.ok 1) (g, overlay f.bytes (f.loadAddr (controlBlock m c.p)) (f.reportAt c.p m))
  | loadLong {g m c n f} (ha : c.a = 0xff) (hn : c.Names parse n) (hg : g (nameKey n) = some f)
      (hgt : 0xff00 < f.bytes.length) :
      Answers (g, m) c (.error .blockTooBig) (g, f.reportAt c.p m)
  | refused {g m c n f e} (ha : c.a ∈ [0, 1, 2, 3, 4, 6]) (hn : c.Names parse n) (hg : g (nameKey n) = some f)
      (he : Refuses held c.a f e) :
      -- a deletion has reported on an open file by then
      Answers (g, m) c (.error e) (g, if c.a = 6 ∧ e = .fileOpen then f.reportAt c.p m else m)
  | full {g m c n e} (ha : c.a = 0) (hn : c.Names parse n) (hg : Replaceable held g n)
      (he : Store.MayRefuse T (Function.update g (nameKey n) none)
        (sectorsOf (controlBlock m c.p).length.val) e) : Answers (g, m) c (.error e) (g, m)
  | save {g m c n f} (ha : c.a = 0) (hn : c.Names parse n) (hg : Replaceable held g n)
      (hroom : Store.HasRoom T (Function.update g (nameKey n) none) (sectorsOf f.bytes.length))
      (hf : SavedAs (controlBlock m c.p) n f) (hle : f.bytes.length ≤ 0xff00)
      -- the bytes are those in memory after the report
      (hbytes : f.bytes = (List.range f.bytes.length).map fun i => f.reportAt c.p m
        ((controlBlock m c.p).c2.toNat + 256 * (controlBlock m c.p).c3.toNat + i)) :
      Answers (g, m) c (.ok 1) (Function.update g (nameKey n) (some f), f.reportAt c.p m)
  | saveLong {g m c n f} (ha : c.a = 0) (hn : c.Names parse n) (hg : Replaceable held g n)
      (hroom : Store.HasRoom T (Function.update g (nameKey n) none) (sectorsOf f.bytes.length))
      (hf : SavedAs (controlBlock m c.p) n f) (hgt : 0xff00 < f.bytes.length) :
      -- the file is there, but its bytes are what was on the disk
      Answers (g, m) c (.error .blockTooBig) (Function.update g (nameKey n) (some f), f.reportAt c.p m)
  | change {g m c n f} (ha : c.a ∈ [1, 2, 3, 4]) (hn : c.Names parse n) (hg : g (nameKey n) = some f)
      (hr : ∀ e, ¬ Refuses held c.a f e) :
      Answers (g, m) c (.ok 1)
        (Function.update g (nameKey n) (some (f.changed c.a (controlBlock m c.p))), m)
  | info {g m c n f} (ha : c.a = 5) (hn : c.Names parse n) (hg : g (nameKey n) = some f) :
      Answers (g, m) c (.ok 1) (g, f.reportAt c.p m)
  | delete {g m c n f} (ha : c.a = 6) (hn : c.Names parse n) (hg : g (nameKey n) = some f)
      (hr : ∀ e, ¬ Refuses held 6 f e) :
      Answers (g, m) c (.ok 1) (Function.update g (nameKey n) none, f.reportAt c.p m)

end Machine

/-! ## Changing an entry -/

section Edits

variable {i : ℕ} (b : FileBlock) (c : ℕ → Byte)

lemma entryAt_info (c : ℕ → Byte) (y : ℕ) (k : Fin 8) : (entryAt c y).info k = c (0x0f08 + k.val + y) :=
  congrArg c (Nat.add_right_comm ..)

/-- The entry is that of the file changed by `f`. -/
structure Rewrites (i : ℕ) (f : StoredFile → StoredFile) (c c' : ℕ → Byte) : Prop extends Edited i c c' where
  file : ∀ bytes,
    (⟨(entryAt c' (8 * i)).name, (entryAt c' (8 * i)).load, (entryAt c' (8 * i)).exec, bytes⟩ : StoredFile)
    = f ⟨(entryAt c (8 * i)).name, (entryAt c (8 * i)).load, (entryAt c (8 * i)).exec, bytes⟩

lemma Rewrites.trans {c c' c'' : ℕ → Byte} {f g : StoredFile → StoredFile} (h : Rewrites i f c c')
    (h' : Rewrites i g c' c'') : Rewrites i (fun x => g (f x)) c c'' where
  outside a ha := (h'.outside a ha).trans (h.outside a ha)
  start := h'.start.trans h.start
  length := h'.length.trans h.length
  key := h'.key.trans h.key
  file bytes := (h'.file bytes).trans (congrArg g (h.file bytes))

end Edits

end Udfs.Rom
