import Udfs.Lib.Transition
import Udfs.Rom.Reading

/-!
# Files open for input

Up to five files are open for input and read in any order, each from its own place.  The channels
share the scratch of the filing system and the current drive, and nothing else: every channel has
a buffer of its own, and no buffer is ever written to, so each handle reads its file as if it were
alone.
-/

namespace Udfs.Rom

/-! ## The channel table -/

section Table

variable {p q : Byte × Byte}

lemma slots_disjoint (hp : p ∈ slots) (hq : q ∈ slots) (h : p ≠ q) :
    p.1 ≠ q.1 ∧ p.2 &&& q.2 = 0 ∧ (p.1 >>> 5) + 0x11 ≠ (q.1 >>> 5) + (0x11 : Byte) := by
  simp only [slots, List.mem_cons, List.not_mem_nil, or_false] at hp hq
  rcases hp with rfl | rfl | rfl | rfl | rfl <;> rcases hq with rfl | rfl | rfl | rfl | rfl <;>
    first
    | exact absurd rfl h
    | exact ⟨by decide, by decide, by decide⟩

lemma slots_bit (hp : p ∈ slots) : p.2 &&& p.2 ≠ 0 := by
  simp only [slots, List.mem_cons, List.not_mem_nil, or_false] at hp
  rcases hp with rfl | rfl | rfl | rfl | rfl <;> decide

/-- A channel that has been opened is in use, and the others are as before. -/
lemma used_opened (s : State) (a : Byte) (x : ℕ) (hp : p ∈ slots) (hq : q ∈ slots) :
    (s.opened a x p).Used q ↔ q = p ∨ s.Used q := by
  have hsplit : (s.opened a x p).inUse &&& q.2 = (p.2 &&& q.2) ||| (s.inUse &&& q.2) :=
    BitVec.and_or_distrib_right
  rw [State.Used, State.Used, hsplit]
  by_cases h : q = p
  · subst h
    refine iff_of_true (fun h0 => slots_bit hp ?_) (Or.inl rfl)
    exact ((BitVec.or_eq_zero_iff).1 h0).1
  · obtain ⟨-, hbit, -⟩ := slots_disjoint hp hq (Ne.symm h)
    rw [hbit, show (0 : Byte) ||| (s.inUse &&& q.2) = s.inUse &&& q.2 from BitVec.zero_or]
    simp only [h, false_or]

end Table

/-! ## What a channel depends on -/

lemma Keeps.sameDrives {y : Byte} {s s' : State} (h : Keeps y s s') : s.SameDrives s' := by
  obtain ⟨m, d, c, f, x, o, rfl⟩ := h.frame
  exact ⟨rfl, rfl, rfl, rfl, rfl⟩

/-- A channel stays coherent while its buffer, the disk and the drives stay as they are. -/
lemma Coherent.congr {s s' : State} {c : Chan} (h : Coherent s c) (hdrives : s.SameDrives s')
    (hdisk : s'.disk = s.disk) (hmem : ∀ i < 256, s'.mem (c.buffer + i) = s.mem (c.buffer + i)) :
    Coherent s' c where
  start_ge := h.start_ge
  inside := h.inside
  ptr_le := h.ptr_le
  hasDisk := (hdrives.hasDisk _).2 h.hasDisk
  valid := h.valid
  clean hd hz i hi := by
    rw [hmem i hi, hdisk, hdrives.addrOn]
    exact h.clean hd hz i hi
  dirty hd := ⟨(h.dirty hd).1, (hdrives.canWrite _).2 (h.dirty hd).2⟩

/-! ## The channels open for input -/

/-- A channel open for input. -/
structure InputOn (s : State) (p : Byte × Byte) : Prop where
  coherent : Coherent s (s.chan p.1)
  clean : ¬ (s.chan p.1).Dirty
  readOnly : s.ReadOnly p
  page : (s.chan p.1).page = (p.1 >>> 5) + 0x11

/-- Every channel in use is open for input. -/
structure Inputs (s : State) : Prop where
  hasDisk : s.HasDisk 0
  input : ∀ p ∈ slots, s.Used p → InputOn s p

/-- The file of a channel as it is on the disk. -/
def State.imageStream (s : State) (p : Byte × Byte) : Stream :=
  { s.stream p.1 with data := s.imageByte (s.chan p.1) }

lemma InputOn.stream_eq {s : State} {p : Byte × Byte} (h : InputOn s p) :
    s.stream p.1 = s.imageStream p := by
  rw [State.imageStream, State.stream]
  exact congrArg (fun f => Stream.mk f _ _ _) (funext fun i => h.coherent.shown_clean h.clean i)

section Others

variable {p q : Byte × Byte} {s s' : State}

/-- Reading through one channel leaves the others as they are. -/
lemma InputOn.of_keeps (hp : p ∈ slots) (hq : q ∈ slots) (hne : q ≠ p) (h : InputOn s q)
    (hpage : (s.chan p.1).page = (p.1 >>> 5) + 0x11) (hclean : ¬ (s.chan p.1).Dirty)
    (hk : Keeps p.1 s s') : InputOn s' q ∧ s'.imageStream q = s.imageStream q := by
  obtain ⟨hoff, -, hpages⟩ := slots_disjoint hq hp hne
  have hchan : s'.chan q.1 = s.chan q.1 := hk.chan_of_ne hoff
  have hdisk := hk.disk hclean
  have hdrives := hk.sameDrives
  -- the pages of the two buffers differ
  have hmem : ∀ i < 256, s'.mem ((s.chan q.1).buffer + i) = s.mem ((s.chan q.1).buffer + i) := by
    intro i hi
    refine hk.mem _ ?_
    have hpq : (s.chan q.1).page.toNat ≠ (s.chan p.1).page.toNat := by
      rw [h.page, hpage]
      exact fun he => hpages (BitVec.eq_of_toNat_eq he)
    simp only [Chan.buffer]
    omega
  refine ⟨⟨?_, ?_, ?_, ?_⟩, ?_⟩
  · rw [hchan]
    exact h.coherent.congr hdrives hdisk hmem
  · rw [hchan]
    exact h.clean
  · rw [State.ReadOnly, hchan]
    exact h.readOnly
  · rw [hchan]
    exact h.page
  · have hbyte : ∀ i, s'.imageByte (s.chan q.1) i = s.imageByte (s.chan q.1) i := by
      intro i
      rw [State.imageByte, State.imageByte, hdisk, hdrives.addrOn]
    simp only [State.imageStream, State.stream, hchan]
    exact congrArg (fun f => Stream.mk f _ _ _) (funext hbyte)

/-- The channel read through stays open for input. -/
lemma InputOn.of_reads {α : Type} {x : Routine α} {r : Except Err α × Stream} (h : InputOn s p)
    (hr : Reads x p.1 r s) : ∃ s', x.run s = (match r.1 with | .ok a => .ok a s' | .error e => .err e s') ∧
      Keeps p.1 s s' ∧ InputOn s' p ∧ s'.imageStream p = r.2 := by
  obtain ⟨s', hrun, hk, hc, hstream⟩ := hr
  have hp : InputOn s' p := by
    refine ⟨hc, mt hk.dirty h.clean, ?_, ?_⟩
    · rw [State.ReadOnly, hk.same.name]
      exact h.readOnly
    · rw [hk.same.page]
      exact h.page
  exact ⟨s', hrun, hk, hp, hp.stream_eq.symm.trans hstream⟩

end Others

/-! ## The calls -/

/-- A call on an open handle. -/
inductive ReadOp where
  -- OSBGET
  | get (p : Byte × Byte)
  -- OSARGS with A=1
  | seek (p : Byte × Byte) (n : Num24)

namespace ReadOp

/-- The handle is open, and a new PTR is not above EXT. -/
def Valid (s : State) : ReadOp → Prop
  | get p => p ∈ slots ∧ s.Used p
  | seek p n => p ∈ slots ∧ s.Used p ∧ n.val ≤ (s.chan p.1).ext.val

/-- The call; OSBGET gives a byte and the carry. -/
def call : ReadOp → Routine (Option (Byte × Bool))
  | get p => do
      let r ← bgetv (handleOf p)
      pure (some r)
  | seek p n => do
      argsWritePtr (handleOf p) n
      pure none

/-- What the call should do to the files. -/
def apply (d : Byte × Byte → Stream) : ReadOp →
    Except Err (Option (Byte × Bool)) × (Byte × Byte → Stream)
  | get p => ((d p).get.1.map some, Function.update d p (d p).get.2)
  | seek p n => (.ok none, Function.update d p ((d p).seek n.val))

/-- The answers to one call after another, and the state they leave. -/
def answers : List ReadOp → State → List (Except Err (Option (Byte × Bool))) × State
  | [], s => ([], s)
  | op :: l, s =>
      match op.call.run s with
      | .ok r s' => (.ok r :: (answers l s').1, (answers l s').2)
      | .err e s' => (.error e :: (answers l s').1, (answers l s').2)

/-- What the answers should be. -/
def replies : List ReadOp → (Byte × Byte → Stream) →
    List (Except Err (Option (Byte × Bool))) × (Byte × Byte → Stream)
  | [], d => ([], d)
  | op :: l, d => ((apply d op).1 :: (replies l (apply d op).2).1, (replies l (apply d op).2).2)

end ReadOp

/-- What is the same while files are only read. -/
structure SameTable (s s' : State) : Prop where
  inUse : s'.inUse = s.inUse
  disk : s'.disk = s.disk
  drives : s.SameDrives s'
  file : ∀ y, (s.chan y).SameFile (s'.chan y)

lemma SameTable.refl (s : State) : SameTable s s :=
  ⟨rfl, rfl, ⟨rfl, rfl, rfl, rfl, rfl⟩, fun _ => Chan.SameFile.refl _⟩

lemma SameTable.trans {s s' s'' : State} (h : SameTable s s') (h' : SameTable s' s'') :
    SameTable s s'' where
  inUse := h'.inUse.trans h.inUse
  disk := h'.disk.trans h.disk
  drives := ⟨h'.drives.lo.trans h.drives.lo, h'.drives.hi.trans h.drives.hi,
    h'.drives.loInv.trans h.drives.loInv, h'.drives.hiInv.trans h.drives.hiInv,
    h'.drives.mark.trans h.drives.mark⟩
  file y := (h.file y).trans (h'.file y)

lemma Keeps.sameTable {y : Byte} {s s' : State} (h : Keeps y s s') (hd : ¬ (s.chan y).Dirty) :
    SameTable s s' where
  inUse := by
    obtain ⟨m, d, c, f, x, o, rfl⟩ := h.frame
    rfl
  disk := h.disk hd
  drives := h.sameDrives
  file z := by
    by_cases hz : z = y
    · rw [hz]
      exact h.same
    · rw [h.chan_of_ne hz]
      exact Chan.SameFile.refl _

lemma SameTable.valid {s s' : State} (h : SameTable s s') {op : ReadOp} :
    op.Valid s' ↔ op.Valid s := by
  cases op with
  | get p => simp only [ReadOp.Valid, State.Used, h.inUse]
  | seek p n => simp only [ReadOp.Valid, State.Used, h.inUse, (h.file p.1).ext]

/-- A call through one channel, in terms of all of them. -/
lemma Inputs.step {s : State} (h : Inputs s) {p : Byte × Byte} (hp : p ∈ slots) (hu : s.Used p)
    {α : Type} {x : Routine α} {r : Except Err α × Stream} (hr : Reads x p.1 r s) :
    ∃ s', x.run s = (match r.1 with | .ok a => .ok a s' | .error e => .err e s') ∧
      Inputs s' ∧ SameTable s s' ∧
      ∀ q ∈ slots, s.Used q → s'.imageStream q = Function.update s.imageStream p r.2 q := by
  have hin := h.input p hp hu
  obtain ⟨s', hrun, hk, hp', hstream⟩ := hin.of_reads hr
  have htable := hk.sameTable hin.clean
  refine ⟨s', hrun, ⟨?_, fun q hq hqu => ?_⟩, htable, fun q hq hqu => ?_⟩
  · exact (htable.drives.hasDisk 0).2 h.hasDisk
  · by_cases hne : q = p
    · rw [hne]
      exact hp'
    · have hqs : s.Used q := by rwa [State.Used, htable.inUse] at hqu
      exact ((h.input q hq hqs).of_keeps hp hq hne hin.page hin.clean hk).1
  · by_cases hne : q = p
    · rw [hne, Function.update_self]
      exact hstream
    · rw [Function.update_of_ne hne]
      exact ((h.input q hq hqu).of_keeps hp hq hne hin.page hin.clean hk).2

/-- Two accounts of the files agree on the handles that are open. -/
def AgreeOn (s : State) (d d' : Byte × Byte → Stream) : Prop := ∀ q ∈ slots, s.Used q → d q = d' q

/-- A call answers as it should and leaves the files as it should. -/
lemma Inputs.call_answers {s : State} (h : Inputs s) {op : ReadOp} (hop : op.Valid s) :
    ∃ s', op.call.run s = (match (op.apply s.imageStream).1 with
        | .ok a => .ok a s'
        | .error e => .err e s') ∧
      Inputs s' ∧ SameTable s s' ∧ AgreeOn s s'.imageStream (op.apply s.imageStream).2 := by
  cases op with
  | get p =>
      obtain ⟨hp, hu⟩ := hop
      have hin := h.input p hp hu
      obtain ⟨s', hrun, hin', htable, hagree⟩ := h.step hp hu (bgetv_reads hp hu hin.coherent)
      rw [hin.stream_eq] at hrun hagree
      refine ⟨s', ?_, hin', htable, hagree⟩
      rw [ReadOp.call, Prog.run_bind, hrun, ReadOp.apply]
      cases (s.imageStream p).get.1 <;> rfl
  | seek p n =>
      obtain ⟨hp, hu, hn⟩ := hop
      have hin := h.input p hp hu
      obtain ⟨s', hrun, hin', htable, hagree⟩ := h.step hp hu (argsWritePtr_reads hp hu hin.coherent.backed hn)
      rw [hin.stream_eq] at hagree
      refine ⟨s', ?_, hin', htable, hagree⟩
      rw [ReadOp.call, Prog.run_bind, hrun]
      rfl

lemma ReadOp.apply_congr {s : State} {d d' : Byte × Byte → Stream} (h : AgreeOn s d d') {op : ReadOp}
    (hop : op.Valid s) : (op.apply d).1 = (op.apply d').1 ∧ AgreeOn s (op.apply d).2 (op.apply d').2 := by
  have hupdate : ∀ (p : Byte × Byte) (f : Stream),
      AgreeOn s (Function.update d p f) (Function.update d' p f) := by
    intro p f q hq hu
    by_cases hqp : q = p
    · rw [hqp, Function.update_self, Function.update_self]
    · rw [Function.update_of_ne hqp, Function.update_of_ne hqp]
      exact h q hq hu
  cases op with
  | get p =>
      have hd := h p hop.1 hop.2
      simp only [ReadOp.apply, hd]
      exact ⟨trivial, hupdate p _⟩
  | seek p n =>
      have hd := h p hop.1 hop.2.1
      simp only [ReadOp.apply, hd]
      exact ⟨trivial, hupdate p _⟩

/-- One call after another, from files that agree with those on the disk. -/
lemma Inputs.answers_eq (l : List ReadOp) : ∀ (s : State) (d : Byte × Byte → Stream), Inputs s →
    (∀ op ∈ l, op.Valid s) → AgreeOn s s.imageStream d →
    (ReadOp.answers l s).1 = (ReadOp.replies l d).1 ∧ SameTable s (ReadOp.answers l s).2 ∧
      AgreeOn s (ReadOp.answers l s).2.imageStream (ReadOp.replies l d).2 := by
  induction l with
  | nil =>
      intro s d _ _ hd
      exact ⟨rfl, SameTable.refl s, hd⟩
  | cons op l ih =>
      intro s d h hl hd
      have hop := hl op List.mem_cons_self
      obtain ⟨s', hrun, hin, htable, hagree⟩ := h.call_answers hop
      obtain ⟨hanswer, hrest⟩ := ReadOp.apply_congr hd hop
      have hused : ∀ q, s'.Used q ↔ s.Used q := fun q => by rw [State.Used, State.Used, htable.inUse]
      have hagree' : AgreeOn s' s'.imageStream (op.apply d).2 := by
        intro q hq hu
        rw [hagree q hq ((hused q).1 hu)]
        exact hrest q hq ((hused q).1 hu)
      obtain ⟨h1, h2, h3⟩ := ih s' (op.apply d).2 hin
        (fun op' hmem => htable.valid.2 (hl op' (List.mem_cons_of_mem op hmem))) hagree'
      rw [hanswer] at hrun
      rw [ReadOp.answers, ReadOp.replies]
      cases hr : (op.apply d).1 with
      | ok a =>
          rw [hr] at hrun
          simp only [hrun]
          exact ⟨congrArg (Except.ok a :: ·) h1, htable.trans h2, fun q hq hu => h3 q hq ((hused q).2 hu)⟩
      | error e =>
          rw [hr] at hrun
          simp only [hrun]
          exact ⟨congrArg (Except.error e :: ·) h1, htable.trans h2, fun q hq hu => h3 q hq ((hused q).2 hu)⟩

/-! ## Opening for input -/

/-- The file lies on the disk, behind the catalogue. -/
def Entry.OnDisk (e : Entry) : Prop := 2 ≤ e.start ∧ e.start + e.sectors ≤ 800

instance (e : Entry) : Decidable e.OnDisk := inferInstanceAs (Decidable (_ ∧ _))

/-- What the channels depend on is the same. -/
lemma Inputs.congr {s s' : State} (h : Inputs s) (hmem : s'.mem = s.mem) (hchan : s'.chan = s.chan)
    (hdisk : s'.disk = s.disk) (hdrives : s.SameDrives s') (huse : s'.inUse = s.inUse) : Inputs s' := by
  refine ⟨(hdrives.hasDisk 0).2 h.hasDisk, fun p hp hu => ?_⟩
  rw [State.Used, huse] at hu
  obtain ⟨hc, hclean, hro, hpage⟩ := h.input p hp hu
  refine ⟨?_, ?_, ?_, ?_⟩
  · rw [hchan]
    exact hc.congr hdrives hdisk fun i _ => by rw [hmem]
  · rwa [hchan]
  · rwa [State.ReadOnly, hchan]
  · rwa [hchan]

/-- The channel of a file that is opened for input has no flags, and the place and the length of its
entry. -/
lemma newChan_fields {s : State} (hdrv : s.curDrv = 0) (x : ℕ) (y b : Byte) :
    (newChan 0x40 s.curDrv y b (entryName s.cat x) (entryInfo s.cat x)).flags = 0 ∧
      (newChan 0x40 s.curDrv y b (entryName s.cat x) (entryInfo s.cat x)).start = (entryAt s.cat x).start ∧
      (newChan 0x40 s.curDrv y b (entryName s.cat x) (entryInfo s.cat x)).ext.val
        = (entryAt s.cat x).length := by
  refine ⟨by rw [newChan, hdrv]; rfl, rfl, ?_⟩
  have h2 := lsr4And3_toNat (entryInfo s.cat x 6)
  have h40 : (0x40 : Byte) &&& 0x40 ≠ 0 := by decide
  rw [newChan, Num24.val, Entry.length]
  simp only [if_pos h40, h2]
  rfl

/-- The channel of a file that has just been opened for input. -/
lemma newChan_input {s : State} (hdisk : s.HasDisk 0) (hdrv : s.curDrv = 0) {x : ℕ}
    (he : (entryAt s.cat x).OnDisk) (y b : Byte) :
    Coherent s (newChan 0x40 s.curDrv y b (entryName s.cat x) (entryInfo s.cat x)) ∧
      ¬ (newChan 0x40 s.curDrv y b (entryName s.cat x) (entryInfo s.cat x)).Dirty := by
  obtain ⟨hflags, hstart, hext⟩ := newChan_fields hdrv x y b
  set c := newChan 0x40 s.curDrv y b (entryName s.cat x) (entryInfo s.cat x) with hc
  have hd : ¬ c.Dirty := by rw [Chan.Dirty, hflags]; decide
  have hv : ¬ c.Valid := by rw [Chan.Valid, hflags]; decide
  have hx : c.drv = 0 := by rw [Chan.drv, hflags]; rfl
  obtain ⟨h2, h800⟩ := he
  have hlen := (sectorsOf_le_iff (entryAt s.cat x).length _).1 le_rfl
  rw [Entry.sectors] at h800
  refine ⟨⟨?_, ?_, Nat.zero_le _, ?_, fun h => absurd h hv, fun _ h => absurd rfl h, fun h => absurd h hd⟩, hd⟩
  · rwa [hstart]
  · rw [hstart, hext]
    omega
  · rwa [hx]

/-- Opening the entry at `x` for input. -/
lemma Inputs.opened {s : State} (h : Inputs s) (hdrv : s.curDrv = 0) {x : ℕ}
    (he : (entryAt s.cat x).OnDisk) {p : Byte × Byte} (hp : p ∈ slots) : Inputs (s.opened 0x40 x p) := by
  have hdrives : s.SameDrives (s.opened 0x40 x p) := ⟨rfl, rfl, rfl, rfl, rfl⟩
  refine ⟨h.hasDisk, fun q hq hu => ?_⟩
  by_cases hqp : q = p
  · subst hqp
    have hchan : (s.opened 0x40 x q).chan q.1
        = newChan 0x40 s.curDrv q.1 q.2 (entryName s.cat x) (entryInfo s.cat x) := State.setChan_chan _ _ _
    obtain ⟨hc, hd⟩ := newChan_input h.hasDisk hdrv he q.1 q.2
    have hro : ∀ b : Byte, (0x80 ||| b) &&& 0x80 ≠ 0 := by decide
    refine ⟨?_, ?_, ?_, ?_⟩
    · rw [hchan]
      exact hc.congr hdrives rfl fun _ _ => rfl
    · rwa [hchan]
    · rw [State.ReadOnly, hchan]
      exact hro _
    · rw [hchan]
      rfl
  · have hchan : (s.opened 0x40 x p).chan q.1 = s.chan q.1 :=
      State.setChan_chan_of_ne _ _ (slots_disjoint hq hp hqp).1
    obtain ⟨hc, hclean, hro, hpage⟩ := h.input q hq (((used_opened s 0x40 x hp hq).1 hu).resolve_left hqp)
    refine ⟨?_, ?_, ?_, ?_⟩
    · rw [hchan]
      exact hc.congr hdrives rfl fun _ _ => rfl
    · rwa [hchan]
    · rwa [State.ReadOnly, hchan]
    · rwa [hchan]

/-- The name is for drive 0, and the first entry that it covers lies on the disk. -/
def OpensOnDisk (s : State) (chars : List Byte) : Prop :=
  (s.fsp chars).1.drv = 0 ∧ ∀ z, (s.withFsp (s.fsp chars).1).found = some z →
    (entryAt (s.catOf 0) z.toNat).OnDisk

/-- OSFIND with A = `$40` keeps the channels that are open, and opens one of the same kind. -/
lemma Inputs.openFile {s : State} (h : Inputs s) {chars : List Byte} (hon : OpensOnDisk s chars) :
    Inputs ((openFile 0x40 chars).run s).state := by
  obtain ⟨hdrv, hentry⟩ := hon
  refine Prog.wp_state ?_
  have hfsp : Inputs (s.withFsp (s.fsp chars).1) := h.congr rfl rfl rfl ⟨rfl, rfl, rfl, rfl, rfl⟩ rfl
  simp only [Rom.openFile, locate, Prog.wp_bind]
  refine Prog.wp_mono (readFsp_spec chars s) ?_ ?_
  swap
  · rintro e s' ⟨rfl, -⟩
    exact hfsp
  rintro _ t ⟨rfl, -⟩
  set t := s.withFsp (s.fsp chars).1 with ht
  have hsearched : Inputs t.searched := hfsp.congr rfl rfl rfl ⟨rfl, rfl, rfl, rfl, rfl⟩ rfl
  refine Prog.wp_mono (searchCat_spec t) ?_ ?_
  swap
  · rintro e s' ⟨rfl, -⟩
    exact hfsp
  rintro r u ⟨rfl, rfl, -⟩
  rcases hfound : t.found with _ | z
  · exact hsearched
  · rw [Option.map_some, Prog.wp_pure]
    have hcat : t.searched.cat = s.catOf 0 := congrArg (fun d => s.cats (s.catNo d)) hdrv
    have hon : (entryAt t.searched.cat z.toNat).OnDisk := by
      rw [hcat]
      exact hentry z hfound
    refine Prog.wp_mono (openFound_spec 0x40 z.toNat t.searched) ?_ ?_
    · rintro hh s' ⟨-, -, p, hp, -, -, rfl⟩
      exact hsearched.opened hdrv hon hp
    · rintro e s' ⟨⟨q, rfl⟩, -⟩
      exact hsearched.congr rfl rfl rfl ⟨rfl, rfl, rfl, rfl, rfl⟩ rfl

/-- The array of an entry of drive 0: the bytes of the disk from its first sector on, as many as it says,
and PTR at the first. -/
def State.entryStream (s : State) (e : Entry) : Stream where
  data i := s.disk (s.addrOn 0 e.start + i)
  length := e.length
  ptr := 0
  told := false

/-- A handle is in use as it was, and reads what it read. -/
def SameHandle (s t : State) (q : Byte × Byte) : Prop := (t.Used q ↔ s.Used q) ∧ t.imageStream q = s.imageStream q

/-- A name of which there is no file gives handle 0.  For any other a free handle gets the array of the entry
that is found; the other handles keep theirs. -/
def OpensArray (s : State) (chars : List Byte) (h : Byte) (t : State) : Prop :=
  ((s.withFsp (s.fsp chars).1).found = none ∧ h = 0 ∧ ∀ q ∈ slots, SameHandle s t q) ∨
    ∃ z, (s.withFsp (s.fsp chars).1).found = some z ∧ ∃ p ∈ slots, ¬ s.Used p ∧ t.Used p ∧ h = handleOf p ∧
      t.imageStream p = s.entryStream (entryAt (s.catOf 0) z.toNat) ∧
      ∀ q ∈ slots, q ≠ p → SameHandle s t q

lemma opened_imageStream {s : State} (hdrv : s.curDrv = 0) (x : ℕ) (p : Byte × Byte) :
    (s.opened 0x40 x p).imageStream p = s.entryStream (entryAt s.cat x) := by
  obtain ⟨hflags, hstart, hext⟩ := newChan_fields hdrv x p.1 p.2
  have hchan : (s.opened 0x40 x p).chan p.1
      = newChan 0x40 s.curDrv p.1 p.2 (entryName s.cat x) (entryInfo s.cat x) := State.setChan_chan _ _ _
  rw [← hchan] at hflags hstart hext
  have hptr : ((s.opened 0x40 x p).chan p.1).ptr.val = 0 := by
    rw [hchan]
    rfl
  have htold : decide ((s.opened 0x40 x p).chan p.1).Told = false := by
    rw [decide_eq_false_iff_not, Chan.Told, hflags]
    decide
  have hbyte : (s.opened 0x40 x p).imageByte ((s.opened 0x40 x p).chan p.1)
      = fun i => s.disk (s.addrOn 0 (entryAt s.cat x).start + i) := by
    funext i
    rw [State.imageByte, hstart, Chan.drv, hflags]
    rfl
  rw [State.imageStream, State.stream, State.entryStream, hbyte, hext, hptr, htold]

lemma opened_others {s : State} (x : ℕ) {p q : Byte × Byte} (hp : p ∈ slots) (hq : q ∈ slots) (hne : q ≠ p) :
    SameHandle s (s.opened 0x40 x p) q := by
  have hchan : (s.opened 0x40 x p).chan q.1 = s.chan q.1 :=
    State.setChan_chan_of_ne _ _ (slots_disjoint hq hp hne).1
  refine ⟨(used_opened s 0x40 x hp hq).trans (or_iff_right hne), ?_⟩
  simp only [State.imageStream, State.stream, hchan]
  rfl

/-- OSFIND with A = `$40` gives a file a handle and an array. -/
lemma openFile_array {s t : State} {chars : List Byte} {h : Byte} (hdrv : (s.fsp chars).1.drv = 0)
    (hrun : (openFile 0x40 chars).run s = .ok h t) : OpensArray s chars h t := by
  suffices hwp : Prog.wp (openFile 0x40 chars) (fun h t => OpensArray s chars h t) (fun _ _ => True) s from
    (Prog.wp_of_ok hrun).1 hwp
  simp only [Rom.openFile, locate, Prog.wp_bind]
  refine Prog.wp_mono (readFsp_spec chars s) ?_ fun _ _ _ => trivial
  rintro _ u ⟨rfl, -⟩
  set u := s.withFsp (s.fsp chars).1 with hu
  refine Prog.wp_mono (searchCat_spec u) ?_ fun _ _ _ => trivial
  rintro r w ⟨rfl, rfl, -⟩
  rcases hfound : u.found with _ | z
  · exact Or.inl ⟨hfound, rfl, fun q _ => ⟨Iff.rfl, rfl⟩⟩
  · rw [Option.map_some, Prog.wp_pure]
    have hcat : u.searched.cat = s.catOf 0 := congrArg (fun d => s.cats (s.catNo d)) hdrv
    refine Prog.wp_mono (openFound_spec 0x40 z.toNat u.searched) ?_ fun _ _ _ => trivial
    rintro hh s' ⟨-, -, p, hp, hfree, rfl, rfl⟩
    have hsame : ∀ q, SameHandle s u.searched q := fun q => ⟨Iff.rfl, rfl⟩
    refine Or.inr ⟨z, hfound, p, hp, hfree, (used_opened _ _ _ hp hp).2 (Or.inl rfl), rfl, ?_,
      fun q hq hne => ?_⟩
    · rw [opened_imageStream (s := u.searched) hdrv, hcat]
      rfl
    · obtain ⟨huse, hstream⟩ := opened_others (s := u.searched) z.toNat hp hq hne
      exact ⟨huse.trans (hsame q).1, hstream.trans (hsame q).2⟩

/-! ## Runs -/

/-- A disk in drive 0, and no file open. -/
def NoneOpen (s : State) : Prop := s.HasDisk 0 ∧ s.inUse = 0

/-- A file is opened for input, or one that is open is read. -/
inductive ReadStep (s : State) : State → Prop where
  | opened (chars : List Byte) (h : OpensOnDisk s chars) :
      ReadStep s ((openFile 0x40 chars).run s).state
  | called (op : ReadOp) (h : op.Valid s) : ReadStep s (op.call.run s).state

lemma inputs_reachable {s : State} (h : Reachable NoneOpen ReadStep s) : Inputs s := by
  refine Reachable.invariant (P := Inputs) ?_ ?_ h
  · rintro s ⟨hdisk, huse⟩
    refine ⟨hdisk, fun p _ hu => absurd ?_ hu⟩
    rw [huse]
    exact BitVec.zero_and
  · rintro s s' hs (⟨chars, hon⟩ | ⟨op, hop⟩)
    · exact hs.openFile hon
    · obtain ⟨s', hrun, hin, -⟩ := hs.call_answers hop
      rw [hrun]
      cases (op.apply s.imageStream).1 with
      | ok a => exact hin
      | error e => exact hin

/-- **Reading refines byte arrays.**  In every state that openings for input, OSBGET and OSARGS have
led to, and for every sequence of OSBGET and OSARGS on the open handles, each setting PTR not above
EXT, every call answers as it would if each handle read an array of its own: the bytes of the disk
from the first sector of its file on, up to EXT, then once `$fe` with the carry set, and then the
error EOF until PTR is set.  The calls leave PTR of every handle where those arrays have it, and
change neither the disk nor which handles are open nor their files.  And an opening gives a handle that was
free the array of the entry found, from its first byte on, and leaves the other handles theirs. -/
theorem reading_refines {s : State} (h : Reachable NoneOpen ReadStep s) (l : List ReadOp)
    (hl : ∀ op ∈ l, op.Valid s) :
    (ReadOp.answers l s).1 = (ReadOp.replies l s.imageStream).1 ∧
      AgreeOn s (ReadOp.answers l s).2.imageStream (ReadOp.replies l s.imageStream).2 ∧
      SameTable s (ReadOp.answers l s).2 ∧
      ∀ chars h t, OpensOnDisk s chars → (openFile 0x40 chars).run s = .ok h t → OpensArray s chars h t := by
  obtain ⟨hanswers, htable, hagree⟩ :=
    (inputs_reachable h).answers_eq l s s.imageStream hl fun q _ _ => rfl
  exact ⟨hanswers, hagree, htable, fun chars h t hon hrun => openFile_array hon.1 hrun⟩

/-- A disk with the file `$.A`, two bytes at sector 2. -/
def twoBytes : State :=
  { stateWithDisk 0 0 with
    defDir := 0x24
    wildcard := 0x23
    disk := fun a => if a = 512 then 0x61 else if a = 513 then 0x62 else 0
    cats := fun _ a =>
      if a = 0x0f05 then 8
      else if a = 0x0e08 then 0x41
      else if a = 0x0e0f then 0x24
      else if a = 0x0f0c then 2
      else if a = 0x0f0f then 2
      else if a < 0x0f00 then 0x20
      else 0 }

/-- The file has been opened on the channel with the handle `$11`. -/
def twoBytesOpen : State := ((openFile 0x40 [0x41]).run twoBytes).state

lemma twoBytesOpen_reachable : Reachable NoneOpen ReadStep twoBytesOpen := by
  have hdisk : twoBytes.HasDisk 0 := Nat.succ_pos 127
  refine .next (.start ⟨hdisk, rfl⟩) (.opened [0x41] ⟨rfl, fun z hz => ?_⟩)
  obtain rfl : z = 0 := Option.some.inj (hz.symm.trans rfl)
  decide

theorem twoBytes_read :
    (ReadOp.answers [.get (0x20, 0x80), .seek (0x20, 0x80) ⟨1, 0, 0⟩, .get (0x20, 0x80),
        .get (0x20, 0x80), .get (0x20, 0x80)] twoBytesOpen).1
      = [.ok (some (0x61, false)), .ok none, .ok (some (0x62, false)), .ok (some (0xfe, true)),
        .error .eof] := by
  refine (reading_refines twoBytesOpen_reachable _ ?_).1.trans ?_
  · intro op hop
    have hmem : ((0x20, 0x80) : Byte × Byte) ∈ slots := by simp [slots]
    have hused : twoBytesOpen.Used (0x20, 0x80) := by decide
    have hlen : (1 : ℕ) ≤ (twoBytesOpen.chan 0x20).ext.val := by decide
    simp only [List.mem_cons, List.not_mem_nil, or_false] at hop
    rcases hop with rfl | rfl | rfl | rfl | rfl <;>
      first
      | exact ⟨hmem, hused⟩
      | exact ⟨hmem, hused, hlen⟩
  · rfl

end Udfs.Rom
