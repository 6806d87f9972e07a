import Udfs.Rom.Gbpb
import Udfs.Rom.WholeFiles

/-!
# OSFILE and the store

A save replaces the file of its name by a new one in the gap that is found for it.  With it every call of
OSFILE on a sound drive is a step of the store machine, so that a whole sequence of calls is a run of it.
-/

namespace Udfs.Rom

open Extents

/-! ## Saving a file -/

section Making

variable {s v : State} {d : Byte} {T n m i p : ℕ} {chars : List Byte}

/-- A new entry that fits, and the catalogue it makes. -/
structure NewFile (T m : ℕ) (v : State) (f : FileBlock) (len : Num24) (j : ℕ) (e : Entry) : Prop where
  place : j ≤ m ∧ m ≤ 30
  name : e.name = v.filenameParam
  load : e.load = f.load
  exec : e.exec = f.exec
  length : e.length = len.val
  packed : Packed Entry.start Entry.sectors 2 T ((entries v.cat m).insertIdx j e)

/-- The catalogue with the new entry in the buffer. -/
lemma NewFile.orderly {f : FileBlock} {len : Num24} {j : ℕ} {e : Entry} (hnew : NewFile T m v f len j e)
    (hm : Orderly T m v.cat) (hfree : Keyed.lookup Entry.key (entries v.cat m) e.key = none) :
    Orderly T (m + 1) (v.placed m j e).cycled.cat := by
  have hplaced := placed_cycled v e hnew.place.2 hnew.place.1 hm.count
  refine ⟨hplaced.count, by have := hnew.place.2; omega, ?_, hplaced.total.trans hm.total, ?_⟩
  · rw [WellPacked, hplaced.entries, hplaced.total, hm.total]
    exact hnew.packed
  · rw [hplaced.entries]
    exact hm.distinct.insertIdx (by simpa using hnew.place.1) (Keyed.lookup_eq_none.1 hfree)

/-- The new entry is found under its name, and every other file as before. -/
lemma NewFile.store (hv : s.Beside v) (hd : v.curDrv = d) (hn : Orderly T n (s.catOf d))
    (hm : Orderly T m v.cat) {f : FileBlock} {len : Num24} {j : ℕ} {e : Entry}
      (hnew : NewFile T m v f len j e)
    (hlook : Keyed.lookup Entry.key (entries v.cat m)
      = Function.update (Keyed.lookup Entry.key (entries (s.catOf d) n)) e.key none) :
    Orderly T (m + 1) ((v.placed m j e).cycled.catSaved.catOf d) ∧
      entryAt ((v.placed m j e).cycled.catSaved.catOf d) (8 * j) = e ∧
      (v.placed m j e).cycled.catSaved.store d = Function.update (s.store d) e.key (some (s.fileOf d e)) := by
  set t := (v.placed m j e).cycled.catSaved with ht
  have hcat : t.catOf d = (v.placed m j e).cycled.cat := State.catSaved_catOf hd
  have hfree : Keyed.lookup Entry.key (entries v.cat m) e.key = none := by
    rw [hlook, Function.update_self]
  have horderly := hnew.orderly hm hfree
  have hplaced := placed_cycled v e hnew.place.2 hnew.place.1 hm.count
  have hlen : j < (entries (v.placed m j e).cycled.cat (m + 1)).length := by
    have := hnew.place.1
    simp
    omega
  rw [← hcat] at horderly
  have hfile : t.fileOf d = s.fileOf d := hv.fileOf d
  refine ⟨horderly, ?_, ?_⟩
  · rw [hcat, ← entries_getElem _ hlen]
    simp only [hplaced.entries]
    exact List.getElem_insertIdx_self ..
  · have hlook' : Keyed.lookup Entry.key (entries (t.catOf d) (m + 1))
        = Function.update (Keyed.lookup Entry.key (entries (s.catOf d) n)) e.key (some e) := by
      rw [hcat, hplaced.entries, Keyed.lookup_insertIdx hm.distinct (by simpa using hnew.place.1) hfree,
        hlook,
        Function.update_idem]
    rw [State.store_of_lookup hn horderly hlook' fun x _ _ => congrFun hfile x, hfile]
    rfl

/-- The files of distinct entries, as a store has them, take the sectors of the entries. -/
lemma lists_entries {l : List Entry} (hl : Keyed.Distinct Entry.key l) {g : Store}
    (hg : ∀ k, g k = (Keyed.lookup Entry.key l k).map (s.fileOf d)) :
    Store.Lists g (l.map Entry.key) ∧ ((l.map Entry.key).map g.sectors).sum = total Entry.sectors l := by
  refine ⟨⟨hl, fun k => ?_⟩, ?_⟩
  · rw [hg, Ne, Option.map_eq_none_iff, Keyed.lookup_eq_none]
    simp only [List.mem_map, not_forall, not_not, exists_prop]
  · rw [total, List.map_map]
    congr 1
    refine List.map_congr_left fun e he => ?_
    have hlen : (s.fileOf d e).bytes.length = e.length := by simp [State.fileOf]
    have hfile : g e.key = some (s.fileOf d e) := by
      rw [hg, (Keyed.lookup_eq_some hl).2 ⟨he, rfl⟩, Option.map_some]
    rw [Function.comp_apply, Store.sectors, hfile, Option.map_some, Option.getD_some, hlen]
    rfl

/-- What the catalogue without the file of a name says of the room for another. -/
lemma lists_without (hn : Orderly T n (s.catOf d)) (hm : Orderly T m v.cat) {k : Fin 8 → Byte}
    (hlook : Keyed.lookup Entry.key (entries v.cat m)
      = Function.update (Keyed.lookup Entry.key (entries (s.catOf d) n)) k none) :
    ∃ l, Store.Lists (Function.update (s.store d) k none) l ∧ l.length = m ∧
      (l.map (Store.sectors (Function.update (s.store d) k none))).sum = total Entry.sectors (entries v.cat m) := by
  obtain ⟨hlists, hsum⟩ := lists_entries (s := s) (d := d) hm.distinct
    (g := Function.update (s.store d) k none) fun x => by
      rw [hlook, Function.update_apply, Function.update_apply, State.store_apply hn]
      split_ifs <;> rfl
  exact ⟨_, hlists, by simp, hsum⟩

/-- A new file has had room. -/
lemma NewFile.hasRoom {f : FileBlock} {len : Num24} {j : ℕ} {e : Entry} (hnew : NewFile T m v f len j e)
    (hn : Orderly T n (s.catOf d)) (hm : Orderly T m v.cat) (htwo : 2 ≤ T) {k : Fin 8 → Byte}
    (hlook : Keyed.lookup Entry.key (entries v.cat m)
      = Function.update (Keyed.lookup Entry.key (entries (s.catOf d) n)) k none) :
    Store.HasRoom T (Function.update (s.store d) k none) e.sectors := by
  obtain ⟨l, hl, hlen, hsum⟩ := lists_without hn hm hlook
  refine ⟨l, hl, hlen.trans_le hnew.place.2, ?_⟩
  have hle := hnew.packed.total_le htwo
  rw [total_insertIdx (by simpa using hnew.place.1)] at hle
  rw [hsum]
  omega

/-- Two files have no byte of the disk in common. -/
lemma Orderly.apart {c : ℕ → Byte} (h : Orderly T n c) {i j : ℕ} (hi : i < n) (hj : j < n) (hne : i ≠ j) :
    (entryAt c (8 * i)).start + (entryAt c (8 * i)).sectors ≤ (entryAt c (8 * j)).start ∨
      (entryAt c (8 * j)).start + (entryAt c (8 * j)).sectors ≤ (entryAt c (8 * i)).start := by
  have hpair := List.pairwise_iff_getElem.1 h.packed.pairwise
  have hilen : i < (entries c n).length := by simpa using hi
  have hjlen : j < (entries c n).length := by simpa using hj
  rcases Nat.lt_or_gt_of_ne hne with hlt | hlt
  · have hdis := hpair i j hilen hjlen hlt
    rw [entries_getElem, entries_getElem] at hdis
    exact Or.inr hdis
  · have hdis := hpair j i hjlen hilen hlt
    rw [entries_getElem, entries_getElem] at hdis
    exact Or.inl hdis

/-- What the save asks for is what the entry says. -/
lemma saveRequest_entry {c : ℕ → Byte} {y : ℕ} {e : Entry} (b : FileBlock) (he : entryAt c y = e)
    (hlen : e.length = b.length.val) :
    (saveRequest b c y).start = e.start ∧ (saveRequest b c y).length = e.length := by
  subst he
  have h6 : (entryAt c y).info 6 = c (0x0f0e + y) := entryAt_info c y 6
  have h7 : (entryAt c y).info 7 = c (0x0f0f + y) := entryAt_info c y 7
  constructor
  · rw [BlockReq.start, Entry.start, h6, h7]
    rfl
  · have h4 := byte_lt ((entryAt c y).info 4)
    have h5 := byte_lt ((entryAt c y).info 5)
    have hlo := byte_lt b.length.lo
    have hmid := byte_lt b.length.mid
    rw [Entry.length, Num24.val, h6] at hlen
    rw [BlockReq.length, BlockReq.byteLength, Entry.length, h6]
    simp only [saveRequest]
    omega

/-- The entry `e` of the file to be saved has been made and reported in `u`, and `r` is the request for its
sectors. -/
structure Entered (d : Byte) (T : ℕ) (s : State) (p : ℕ) (chars : List Byte) (e : Entry) (u : State)
    (r : BlockReq) : Prop where
  sound : Sound d T u
  kept : s.Kept u
  drv : u.curDrv = d
  listed : ∃ n j, Orderly T n (u.catOf d) ∧ j < n ∧ entryAt (u.catOf d) (8 * j) = e
  start : r.start = e.start
  length : r.length = e.length
  dest : r.dest = (controlBlock s.mem p).c2.toNat + 256 * (controlBlock s.mem p).c3.toNat
  reported : ∀ w : State, (w.fileOf d e).reportAt p s.mem = u.mem
  key : e.key = nameKey (s.fsp chars).1.name
  store : u.store d = Function.update (s.store d) e.key (some (s.fileOf d e))
  room : Store.HasRoom T (Function.update (s.store d) e.key none) (sectorsOf e.length)
  saved : ∀ x : StoredFile, x.name = e.name → x.load = e.load → x.exec = e.exec →
    x.bytes.length = e.length → SavedAs (controlBlock s.mem p) (s.fsp chars).1.name x

section Entered

variable {e : Entry} {u : State} {r : BlockReq}

end Entered

/-- What the making of the entry and the report leave. -/
lemma NewFile.entered (h : Sound d T s) (hv : s.Beside v) (hd : v.curDrv = d) (ho : Orderly T n (s.catOf d))
    (hm : Orderly T m v.cat) (hvmem : v.mem = s.mem) (hname : v.filenameParam = (s.fsp chars).1.name)
    (htwo : 2 ≤ T) {j : ℕ} {e : Entry}
    (hnew : NewFile T m v (controlBlock s.mem p) (controlBlock s.mem p).length j e)
    (hlook : Keyed.lookup Entry.key (entries v.cat m) = Function.update
      (Keyed.lookup Entry.key (entries (s.catOf d) n)) (nameKey (s.fsp chars).1.name) none) :
    Entered d T s p chars e ((v.placed m j e).cycled.catSaved.told (8 * j) p)
      (saveRequest (controlBlock s.mem p) ((v.placed m j e).cycled.catSaved.told (8 * j) p).cat (8 * j)) := by
  set u := (v.placed m j e).cycled.catSaved.told (8 * j) p with hu
  have hkey : e.key = nameKey (s.fsp chars).1.name := by
    rw [Entry.key, hnew.name, hname]
  obtain ⟨horderly, hentry, hstore⟩ := hnew.store hv hd ho hm (by rw [hkey]; exact hlook)
  have hcat : u.cat = u.catOf d := (State.catSaved_catOf (s := (v.placed m j e).cycled) hd).symm
  have hentry' : entryAt u.cat (8 * j) = e := by
    rw [hcat]
    exact hentry
  have hmem : u.mem = reported e p s.mem := by
    have hexpand : u.mem = expandAt u.cat (8 * j) p v.mem := rfl
    rw [hexpand, expandAt_reported, hentry', hvmem]
  obtain ⟨hstart, hlength⟩ := saveRequest_entry (controlBlock s.mem p) hentry' hnew.length
  have hj : j < m + 1 := by
    have := hnew.place.1
    omega
  refine ⟨⟨(hv.drives.canWrite d).2 h.canWrite, h.small, m + 1, horderly⟩, ⟨hv.chans, hv.defDir, hv.defDrv⟩, hd,
    ⟨m + 1, j, horderly, hj, hentry⟩, hstart, hlength, rfl, fun w => ?_, hkey, hstore, ?_,
    fun x h1 h2 h3 h4 => ?_⟩
  · rw [fileOf_reportAt, hmem]
  · rw [hkey]
    exact hnew.hasRoom ho hm htwo hlook
  · exact ⟨h1.trans (hnew.name.trans hname), h2.trans hnew.load, h3.trans hnew.exec, h4.trans hnew.length⟩

variable (h : Sound d T s) (ha : Addresses d s chars) (hok : (s.fsp chars).2 = none)

include h ha hok

end Making

/-! ## Every call, and every sequence of calls -/

/-- A call that keeps to drive `d`, has its control block, what is saved and what is loaded in the RAM that is
left to programs, and does not save a file that is longer than the disk. -/
structure Sensible (d : Byte) (T : ℕ) (s : State) (c : OsfileCall) : Prop where
  addresses : (s.fsp c.chars).2 = none → Addresses d s c.chars
  fits : c.a = 0 → 2 + sectorsOf (controlBlock s.mem c.p).length.val ≤ T
  block : UserData c.p 18
  source : c.a = 0 → (controlBlock s.mem c.p).length.val ≤ 0xff00 →
    UserData ((controlBlock s.mem c.p).c2.toNat + 256 * (controlBlock s.mem c.p).c3.toNat)
      (controlBlock s.mem c.p).length.val
  dest : c.a = 0xff → ∀ f ∈ s.store d (nameKey (s.fsp c.chars).1.name), f.bytes.length ≤ 0xff00 →
    UserData (f.loadAddr (controlBlock s.mem c.p)) f.bytes.length

section Calls

variable {s t : State} {d : Byte} {T p : ℕ} {chars : List Byte} {a : Byte}

end Calls

end Udfs.Rom
