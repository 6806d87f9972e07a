import Udfs.Lib.Calls
import Udfs.Rom.Overrun
import Udfs.Rom.Updating

/-!
# Several files at once

Up to five files are open, for input or for update.  They share the scratch of the filing system,
the catalogues and the disk.  As long as the sectors granted to a file that is written to are
nobody else's, every handle behaves as a file of its own, in whatever order the handles are used.
-/

namespace Udfs.Rom

/-! ## What one channel leaves of another -/

section Frame

variable {p q : Byte × Byte} {n m : ℕ} {s s' : State}

/-- A file has the room it had when its catalogue keeps the names and the starts. -/
lemma HasRoom.of_starts {c : Chan} (h : HasRoom s c n) (hwild : s'.wildcard = s.wildcard)
    (hfew : entryCount (s.catOf c.drv) ≤ 31) (hkept : StartsKept (s.catOf c.drv) (s'.catOf c.drv)) :
    HasRoom s' c n := by
  have hentry : s'.entryOf c = s.entryOf c := by
    rw [State.entryOf, State.entryOf, hwild, hkept.nextEntry_eq hfew]
  refine ⟨h.inside, h.ext_le, h.room.imp_right ?_⟩
  rintro ⟨x, hx, hstart, hle⟩
  obtain ⟨i, -, hi⟩ := State.entryOf_eq hfew hx
  refine ⟨x, hentry.trans hx, ?_, ?_⟩
  · rw [hi] at hstart ⊢
    rw [hkept.start_eq, hstart]
  · rw [hi] at hle ⊢
    rw [hkept.boundAt_eq]
    exact hle

/-- A call on one channel leaves another as it is, when the sectors granted to the other one are left. -/
lemma ChanOn.frame (h : ChanOn s q m) (hp : p ∈ slots) (hq : q ∈ slots) (hne : q ≠ p)
    (hpage : (s.chan p.1).page = (p.1 >>> 5) + 0x11) (ht : Touches p n s s')
    (hdisk : ∀ a, s.fileBase (s.chan q.1) ≤ a → a < s.fileBase (s.chan q.1) + 256 * sectorsOf m →
      s'.disk a = s.disk a) :
    ChanOn s' q m ∧ (s.stream q.1).Agrees (s'.stream q.1) := by
  obtain ⟨hoff, -, hpages⟩ := slots_disjoint hq hp hne
  have hchan : s'.chan q.1 = s.chan q.1 := ht.other q.1 hoff
  have hmem : ∀ i < 256, s'.mem ((s.chan q.1).buffer + i) = s.mem ((s.chan q.1).buffer + i) := by
    intro i hi
    refine ht.mem _ ?_
    have hpq : (s.chan q.1).page.toNat ≠ (s.chan p.1).page.toNat := by
      rw [h.page, hpage]
      exact fun he => hpages (BitVec.eq_of_toNat_eq he)
    simp only [Chan.buffer]
    omega
  have himage : ∀ i < m, s'.imageByte (s.chan q.1) i = s.imageByte (s.chan q.1) i := by
    intro i hi
    rw [State.imageByte, State.imageByte, ht.drives.addrOn]
    refine hdisk _ ?_ ?_
    · exact Nat.le_add_right _ _
    · rw [State.fileBase, sectorsOf]
      omega
  refine ⟨⟨⟨?_, ?_, ?_, ?_, ?_, ?_⟩, ?_, ?_, ?_, ?_⟩, ⟨?_, ?_, ?_, ?_⟩⟩
  · rw [hchan]
    exact h.start_ge
  · rw [hchan]
    exact h.ptr_le
  · rw [hchan]
    exact h.ext_le
  · rw [hchan]
    exact h.inside
  · rw [hchan, ht.drives.hasDisk]
    exact h.hasDisk
  · rw [hchan]
    exact h.page
  · rw [hchan]
    exact h.valid
  · rw [hchan]
    intro hd hz i hi
    obtain ⟨k, hk, hsec⟩ := h.own hz
    obtain ⟨hlow, hhigh⟩ := grantedSector s (s.chan q.1) hk hsec
    rw [hmem i hi, ht.drives.addrOn, hdisk _ (by omega) (by omega)]
    exact h.clean hd hz i hi
  · rw [hchan]
    exact h.own
  · rw [hchan, ht.drives.canWrite]
    exact h.dirty
  · intro i hi
    have hi' : i < m := lt_of_lt_of_le hi h.ext_le
    simp only [State.stream, hchan, State.shown]
    split_ifs
    · exact hmem _ (Nat.mod_lt _ (by decide))
    · exact himage i hi'
  · simp [State.stream, hchan]
  · simp [State.stream, hchan]
  · simp [State.stream, hchan]

lemma UpdateOn.frame (h : UpdateOn s q m) (hp : p ∈ slots) (hq : q ∈ slots) (hne : q ≠ p)
    (ht : Touches p n s s') (hc : ChanOn s' q m) : UpdateOn s' q m := by
  have hchan : s'.chan q.1 = s.chan q.1 := ht.other q.1 (slots_disjoint hq hp hne).1
  have hkept := ht.starts _ h.few
  refine ⟨hc, ⟨?_, ?_, ?_, ?_⟩⟩ <;> rw [hchan]
  · exact h.room.of_starts ht.wildcard h.few hkept
  · rw [ht.drives.canWrite]
    exact h.canWrite
  · exact h.unlocked
  · rw [hkept.entryCount_eq]
    exact h.few

lemma ReadOn.frame (h : ReadOn s q m) (hp : p ∈ slots) (hq : q ∈ slots) (hne : q ≠ p)
    (ht : Touches p n s s') (hc : ChanOn s' q m) : ReadOn s' q m := by
  have hchan : s'.chan q.1 = s.chan q.1 := ht.other q.1 (slots_disjoint hq hp hne).1
  refine ⟨hc, ?_, ?_⟩
  · rw [State.ReadOnly, hchan]
    exact h.readOnly
  · rw [hchan]
    exact h.unwritten

end Frame

/-- The channels in use are open for update or for input, with `g` bytes granted to each, and the sectors
granted to a file that is written to are not those of another one. -/
structure Files (g : Byte × Byte → ℕ) (s : State) : Prop where
  channel : ∀ p ∈ slots, s.Used p → UpdateOn s p (g p) ∨ ReadOn s p (g p)
  apart : ∀ p ∈ slots, ∀ q ∈ slots, p ≠ q → s.Used p → s.Used q → ¬ s.ReadOnly p →
    s.fileBase (s.chan p.1) + 256 * sectorsOf (g p) ≤ s.fileBase (s.chan q.1) ∨
      s.fileBase (s.chan q.1) + 256 * sectorsOf (g q) ≤ s.fileBase (s.chan p.1)

section Several

variable {g : Byte × Byte → ℕ} {p : Byte × Byte} {s s' : State}

lemma Files.chanOn (h : Files g s) (hp : p ∈ slots) (hu : s.Used p) : ChanOn s p (g p) := by
  obtain hup | hrd := h.channel p hp hu
  · exact hup.toChanOn
  · exact hrd.toChanOn

lemma UpdateOn.not_readOnly {n : ℕ} (h : UpdateOn s p n) : ¬ s.ReadOnly p := by
  have hbit : ∀ f : Byte, f.toNat < 128 → ¬ f &&& 0x80 ≠ 0 := by decide
  exact hbit _ h.unlocked.1

/-- A call on one channel leaves the files of the others as they are. -/
lemma Files.step (h : Files g s) (hp : p ∈ slots) (hu : s.Used p) (ht : Touches p (g p) s s')
    (hself : UpdateOn s' p (g p) ∨ ReadOn s' p (g p)) (hread : s.ReadOnly p → s'.disk = s.disk) :
    Files g s' ∧ ∀ q ∈ slots, q ≠ p → s.Used q → (s.stream q.1).Agrees (s'.stream q.1) := by
  have hframe : ∀ q ∈ slots, q ≠ p → s.Used q →
      ChanOn s' q (g q) ∧ (s.stream q.1).Agrees (s'.stream q.1) := by
    intro q hq hqp huq
    refine (h.chanOn hq huq).frame hp hq hqp (h.chanOn hp hu).page ht fun a hlow hhigh => ?_
    by_cases hrp : s.ReadOnly p
    · rw [hread hrp]
    · refine ht.disk a ?_
      have := h.apart p hp q hq (Ne.symm hqp) hu huq hrp
      omega
  refine ⟨⟨fun q hq huq => ?_, fun q hq r hr hqr huq hur hroq => ?_⟩, fun q hq hqp huq =>
    (hframe q hq hqp huq).2⟩
  · by_cases hqp : q = p
    · rw [hqp]
      exact hself
    · have huq' := (ht.used q).1 huq
      have hc := (hframe q hq hqp huq').1
      obtain hup | hrd := h.channel q hq huq'
      · exact .inl (hup.frame hp hq hqp ht hc)
      · exact .inr (hrd.frame hp hq hqp ht hc)
  · rw [ht.toCarried.fileBase, ht.toCarried.fileBase]
    exact h.apart q hq r hr hqr ((ht.used q).1 huq) ((ht.used r).1 hur) (mt (ht.readOnly q).2 hroq)

end Several

/-! ## The calls -/

/-- A call on an open handle. -/
inductive FileOp where
  -- OSBGET
  | get (p : Byte × Byte)
  -- OSBPUT
  | put (p : Byte × Byte) (v : Byte)
  -- OSARGS with A=1
  | seek (p : Byte × Byte) (n : Num24)

namespace FileOp

/-- The call; OSBGET gives a byte and the carry. -/
def call : FileOp → Routine (Option (Byte × Bool))
  | get p => do
      let r ← bgetv (handleOf p)
      pure (some r)
  | put p v => do
      bputv (handleOf p) v
      pure none
  | seek p n => do
      argsWritePtr (handleOf p) n
      pure none

/-- The handle is one of those open at the start, a new PTR is not above EXT, and a file that is written to
has room. -/
def Valid (s : State) (g : Byte × Byte → ℕ) (d : Byte × Byte → Stream) : FileOp → Prop
  | get p => p ∈ slots ∧ s.Used p
  | put p _ => p ∈ slots ∧ s.Used p ∧ (¬ s.ReadOnly p → (d p).ptr < g p)
  | seek p n => p ∈ slots ∧ s.Used p ∧ n.val ≤ (d p).length

/-- What the call should do to the files. -/
def apply (s : State) (d : Byte × Byte → Stream) :
    FileOp → Except Err (Option (Byte × Bool)) × (Byte × Byte → Stream)
  | get p => ((d p).get.1.map some, Function.update d p (d p).get.2)
  | put p v =>
      if s.ReadOnly p then (.error .fileReadOnly, d) else (.ok none, Function.update d p ((d p).put v))
  | seek p n => (.ok none, Function.update d p ((d p).seek n.val))

end FileOp

/-- The files that the handles open at the start show, when `d` is what they should be now. -/
structure Shows (s₀ : State) (g : Byte × Byte → ℕ) (d : Byte × Byte → Stream) (s : State) : Prop where
  files : Files g s
  carried : Carried s₀ s
  agrees : ∀ p ∈ slots, s₀.Used p → (d p).Agrees (s.stream p.1)

section Answers

variable {g : Byte × Byte → ℕ} {s₀ s s' : State} {d : Byte × Byte → Stream} {p : Byte × Byte} {f : Stream}

/-- A call on one channel, in terms of all of them. -/
lemma Shows.step (h : Shows s₀ g d s) (hp : p ∈ slots) (hu : s₀.Used p) (ht : Touches p (g p) s s')
    (hself : UpdateOn s' p (g p) ∨ ReadOn s' p (g p)) (hread : s.ReadOnly p → s'.disk = s.disk)
    (hf : f.Agrees (s'.stream p.1)) : Shows s₀ g (Function.update d p f) s' := by
  obtain ⟨hfiles, hothers⟩ := h.files.step hp ((h.carried.used p).2 hu) ht hself hread
  refine ⟨hfiles, h.carried.trans ht.toCarried, fun q hq huq => ?_⟩
  by_cases hqp : q = p
  · rw [hqp, Function.update_self]
    exact hf
  · rw [Function.update_of_ne hqp]
    exact (h.agrees q hq huq).trans (hothers q hq hqp ((h.carried.used q).2 huq))

/-- OSBGET reads the next byte of its own file. -/
lemma Shows.get (h : Shows s₀ g d s) (hp : p ∈ slots) (hu : s₀.Used p) :
    (Calls.answer (FileOp.get p).call s).1 = ((FileOp.get p).apply s₀ d).1 ∧
      Shows s₀ g ((FileOp.get p).apply s₀ d).2 (Calls.answer (FileOp.get p).call s).2 := by
  have hus := (h.carried.used p).2 hu
  obtain ⟨s', hrun, hk, hc, ht, hstream⟩ := (h.files.chanOn hp hus).get hp hus
  obtain ⟨hget, hagrees⟩ := (h.agrees p hp hu).get
  have hshows : Shows s₀ g (Function.update d p (d p).get.2) s' := by
    refine h.step hp hu ht ?_ (fun hro => ?_) (hstream ▸ hagrees)
    · obtain hup | hrd := h.files.channel p hp hus
      · exact .inl (hup.of_keeps hk hc)
      · exact .inr (hrd.of_keeps hk hc)
    · obtain hup | hrd := h.files.channel p hp hus
      · exact absurd hro hup.not_readOnly
      · exact hk.disk hrd.unwritten
  rw [hget] at hrun
  simp only [FileOp.apply]
  cases hval : (d p).get.1 with
  | ok a =>
      rw [hval] at hrun
      have hcall : (FileOp.get p).call.run s = .ok (some a) s' := by
        rw [FileOp.call, Prog.run_bind_ok hrun, Prog.run_pure]
      rw [Calls.answer_ok hcall]
      exact ⟨rfl, hshows⟩
  | error e =>
      rw [hval] at hrun
      have hcall : (FileOp.get p).call.run s = .err e s' := by
        rw [FileOp.call, Prog.run_bind_err hrun]
      rw [Calls.answer_err hcall]
      exact ⟨rfl, hshows⟩

/-- OSBPUT writes the next byte of its own file, if that is open for update. -/
lemma Shows.put (h : Shows s₀ g d s) (hp : p ∈ slots) (hu : s₀.Used p) (v : Byte)
    (hroom : ¬ s₀.ReadOnly p → (d p).ptr < g p) :
    (Calls.answer (FileOp.put p v).call s).1 = ((FileOp.put p v).apply s₀ d).1 ∧
      Shows s₀ g ((FileOp.put p v).apply s₀ d).2 (Calls.answer (FileOp.put p v).call s).2 := by
  have hus := (h.carried.used p).2 hu
  have hag := h.agrees p hp hu
  simp only [FileOp.apply]
  obtain hup | hrd := h.files.channel p hp hus
  · have hro : ¬ s₀.ReadOnly p := mt (h.carried.readOnly p).2 hup.not_readOnly
    have hlt : (s.chan p.1).ptr.val < g p := hag.ptr.trans_lt (hroom hro)
    obtain ⟨s', hrun, hup', ht, hput⟩ := hup.put hp hus hlt v
    have hle : (d p).ptr ≤ (d p).length := by
      rw [← hag.ptr, ← hag.length]
      exact hup.ptr_le
    have hcall : (FileOp.put p v).call.run s = .ok none s' := by
      rw [FileOp.call, Prog.run_bind_ok hrun, Prog.run_pure]
    rw [Calls.answer_ok hcall, if_neg hro]
    exact ⟨rfl, h.step hp hu ht (.inl hup') (fun hro' => absurd hro' hup.not_readOnly)
      ((hag.put hle v).trans hput)⟩
  · have hro : s₀.ReadOnly p := (h.carried.readOnly p).1 hrd.readOnly
    obtain ⟨s', hrun, hrd', ht, hdisk, hstream⟩ := hrd.put hp hus v
    have hcall : (FileOp.put p v).call.run s = .err .fileReadOnly s' := by
      rw [FileOp.call, Prog.run_bind_err hrun]
    have hshows := h.step hp hu ht (.inr hrd') (fun _ => hdisk) (f := d p) (hstream ▸ hag)
    rw [Function.update_eq_self] at hshows
    rw [Calls.answer_err hcall, if_pos hro]
    exact ⟨rfl, hshows⟩

/-- OSARGS moves PTR of its own file. -/
lemma Shows.seek (h : Shows s₀ g d s) (hp : p ∈ slots) (hu : s₀.Used p) {n : Num24}
    (hn : n.val ≤ (d p).length) :
    (Calls.answer (FileOp.seek p n).call s).1 = ((FileOp.seek p n).apply s₀ d).1 ∧
      Shows s₀ g ((FileOp.seek p n).apply s₀ d).2 (Calls.answer (FileOp.seek p n).call s).2 := by
  have hus := (h.carried.used p).2 hu
  have hag := h.agrees p hp hu
  have hn' : n.val ≤ (s.chan p.1).ext.val := hn.trans_eq hag.length.symm
  obtain ⟨s', hrun, hk, hc, ht, hstream⟩ := (h.files.chanOn hp hus).seek hp hus hn'
  have hcall : (FileOp.seek p n).call.run s = .ok none s' := by
    rw [FileOp.call, Prog.run_bind_ok hrun, Prog.run_pure]
  rw [Calls.answer_ok hcall]
  refine ⟨rfl, h.step hp hu ht ?_ (fun hro => ?_) (hstream ▸ hag.seek n.val)⟩
  · obtain hup | hrd := h.files.channel p hp hus
    · exact .inl (hup.of_keeps hk hc)
    · exact .inr (hrd.of_keeps hk hc)
  · obtain hup | hrd := h.files.channel p hp hus
    · exact absurd hro hup.not_readOnly
    · exact hk.disk hrd.unwritten

/-- Every call answers as a file of its own would. -/
lemma files_simulate (s₀ : State) (g : Byte × Byte → ℕ) :
    Calls.Simulates FileOp.call (FileOp.Valid s₀ g) (fun d op => op.apply s₀ d) (Shows s₀ g) := by
  intro d s op h hop
  cases op with
  | get p => exact h.get hop.1 hop.2
  | put p v => exact h.put hop.1 hop.2.1 v hop.2.2
  | seek p n => exact h.seek hop.1 hop.2.1 hop.2.2

end Answers

/-- The files that the channels show. -/
def State.files (s : State) (p : Byte × Byte) : Stream := s.stream p.1

/-- One call after another. -/
lemma Files.run {g : Byte × Byte → ℕ} {s : State} (h : Files g s) {l : List FileOp}
    (hl : Calls.Allowed (FileOp.Valid s g) (fun d op => op.apply s d) l s.files) :
    (Calls.answers FileOp.call l s).1 = (Calls.replies (fun d op => FileOp.apply s d op) l s.files).1 ∧
      Shows s g (Calls.replies (fun d op => FileOp.apply s d op) l s.files).2
        (Calls.answers FileOp.call l s).2 :=
  (files_simulate s g).run l ⟨h, Carried.refl s, fun _ _ _ => .refl _⟩ hl

/-- **Every handle is a file of its own.**  Up to five files are open, any of them for update as long as
the sectors granted to it are nobody else's.  Whatever calls of OSBGET, OSBPUT and OSARGS are made on the
handles, in whatever order, as long as no PTR is put above EXT and no file is written beyond what is granted
to it, the answers are those of so many separate files, and afterwards the channels show what these files
hold. -/
theorem files_refine {g : Byte × Byte → ℕ} {s : State} (h : Files g s) (l : List FileOp)
    (hl : Calls.Allowed (FileOp.Valid s g) (fun d op => op.apply s d) l s.files) :
    (Calls.answers FileOp.call l s).1 = (Calls.replies (fun d op => FileOp.apply s d op) l s.files).1 ∧
      Files g (Calls.answers FileOp.call l s).2 ∧
      ∀ p ∈ slots, s.Used p → ((Calls.replies (fun d op => FileOp.apply s d op) l s.files).2 p).Agrees
        ((Calls.answers FileOp.call l s).2.files p) := by
  obtain ⟨hanswers, hend⟩ := h.run hl
  exact ⟨hanswers, hend.files, hend.agrees⟩

/-- A writable disk that is full: `$.A` of a sector at sector 2, and `$.B` of one at sector 3. -/
def fullDisk : State :=
  { stateWithDisk 0 0 with
    diskMark := fun _ => 0x54
    defDir := 0x24
    wildcard := 0x23
    disk := fun a => if 768 ≤ a then 0x42 else 0x61
    cats := fun _ a =>
      if a = 0x0f05 then 16
      else if a = 0x0f07 then 4
      else if a = 0x0e08 then 0x42
      else if a = 0x0e10 then 0x41
      else if a = 0x0e0f ∨ a = 0x0e17 then 0x24
      else if a = 0x0f0d ∨ a = 0x0f15 then 1
      else if a = 0x0f0f then 3
      else if a = 0x0f17 then 2
      else if a < 0x0f00 then 0x20
      else 0 }

/-- `$.A` is open for update with the handle `$11`, and `$.B` for input with the handle `$12`. -/
def bothOpen : State := ((openFile 0x40 [0x42]).run ((openFile 0xc0 [0x41]).run fullDisk).state).state

lemma bothOpen_used {p : Byte × Byte} (hp : p ∈ slots) (hu : bothOpen.Used p) :
    p = (0x20, 0x80) ∨ p = (0x40, 0x40) := by
  simp only [slots, List.mem_cons, List.not_mem_nil, or_false] at hp
  rcases hp with rfl | rfl | rfl | rfl | rfl
  · exact absurd hu (by decide)
  · exact absurd hu (by decide)
  · exact absurd hu (by decide)
  · exact .inr rfl
  · exact .inl rfl

/-- Each has its sector, and the two are not the same. -/
lemma bothOpen_files : Files (fun _ => 256) bothOpen where
  channel p hp hu := by
    obtain rfl | rfl := bothOpen_used hp hu
    · exact .inl ⟨⟨⟨by decide, by decide, by decide, by decide, by decide, by decide⟩, fun h => absurd rfl h,
        fun _ h => absurd rfl h, fun h => absurd rfl h, fun h => absurd rfl h⟩,
        ⟨⟨by decide, by decide, .inl (by decide)⟩, by decide, by decide, by decide⟩⟩
    · exact .inr ⟨⟨⟨by decide, by decide, by decide, by decide, by decide, by decide⟩, fun h => absurd rfl h,
        fun _ h => absurd rfl h, fun h => absurd rfl h, fun h => absurd rfl h⟩, by decide,
        by unfold Chan.Dirty; decide⟩
  apart p hp q hq hne hu hu' hro := by
    obtain rfl | rfl := bothOpen_used hp hu
    · obtain rfl | rfl := bothOpen_used hq hu'
      · exact absurd rfl hne
      · exact .inl (by decide)
    · exact absurd (by decide) hro

/-- A byte is written to `$.A` and read again, with reads of `$.B` in between. -/
theorem bothOpen_refines :
    (Calls.answers FileOp.call [.put (0x20, 0x80) 7, .get (0x40, 0x40), .seek (0x20, 0x80) ⟨0, 0, 0⟩,
      .get (0x20, 0x80), .get (0x20, 0x80), .get (0x40, 0x40)] bothOpen).1
      = [.ok none, .ok (some (0x42, false)), .ok none, .ok (some (7, false)), .ok (some (0x61, false)),
        .ok (some (0x42, false))] :=
  (files_refine bothOpen_files [.put (0x20, 0x80) 7, .get (0x40, 0x40), .seek (0x20, 0x80) ⟨0, 0, 0⟩,
    .get (0x20, 0x80), .get (0x20, 0x80), .get (0x40, 0x40)]
    ⟨⟨by decide, by decide, fun _ => by decide⟩, ⟨by decide, by decide⟩,
      ⟨by decide, by decide, Nat.zero_le _⟩, ⟨by decide, by decide⟩, ⟨by decide, by decide⟩,
      ⟨by decide, by decide⟩, trivial⟩).1

end Udfs.Rom
