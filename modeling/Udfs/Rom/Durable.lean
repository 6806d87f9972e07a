import Udfs.Rom.Files
import Udfs.Rom.Space

/-!
# What is written is read again

Closing a file whose length has changed writes the length to its catalogue entry and the buffer to
its sector.  What the channel showed is then on the disk, under the name the file was opened with,
and opening the file again gives a channel that shows the same bytes from the first to the last.
-/

namespace Udfs.Rom

/-! ## Closing -/

/-- The entry that is found for a channel, and starts where the channel says. -/
def HasEntry (s : State) (c : Chan) (x : Byte) : Prop :=
  s.entryOf c = some x ∧ (entryAt (s.catOf c.drv) x.toNat).start = c.start

/-- A file has been closed: what the channel showed is on the disk, and its entry has the length. -/
structure Stored (s : State) (p : Byte × Byte) (x : Byte) (t : State) : Prop where
  inUse : t.inUse = ~~~ (s.chan p.1).bit &&& s.inUse
  other : ∀ q ∈ slots, q ≠ p → t.chan q.1 = s.chan q.1
  drives : s.SameDrives t
  wildcard : t.wildcard = s.wildcard
  defDir : t.defDir = s.defDir
  defDrv : t.defDrv = s.defDrv
  put : ∃ i, x.toNat = 8 * i ∧ i < 31 ∧
    LengthPut (s.catOf (s.chan p.1).drv) i ((s.chan p.1).ext.val % 262144) (t.catOf (s.chan p.1).drv)
  data : ∀ j < (s.chan p.1).ext.val, t.disk (s.fileBase (s.chan p.1) + j) = s.shown (s.chan p.1) j

section Close

variable {p : Byte × Byte} {n : ℕ} {s t : State}

lemma State.SameDrives.trans {s s' s'' : State} (h : s.SameDrives s') (h' : s'.SameDrives s'') :
    s.SameDrives s'' :=
  ⟨h'.lo.trans h.lo, h'.hi.trans h.hi, h'.loInv.trans h.loInv, h'.hiInv.trans h.hiInv, h'.mark.trans h.mark⟩

/-- A channel goes with its buffer as long as both stay, with the disk and the drives. -/
lemma ChanOn.congr (h : ChanOn s p n) (hchan : t.chan = s.chan) (hmem : t.mem = s.mem)
    (hdisk : t.disk = s.disk) (hdrives : s.SameDrives t) : ChanOn t p n := by
  refine ⟨⟨?_, ?_, ?_, ?_, ?_, ?_⟩, ?_, ?_, ?_, ?_⟩ <;> rw [hchan]
  · exact h.start_ge
  · exact h.ptr_le
  · exact h.ext_le
  · exact h.inside
  · exact (hdrives.hasDisk _).2 h.hasDisk
  · exact h.page
  · exact h.valid
  · rw [hmem, hdisk, hdrives.addrOn]
    exact h.clean
  · exact h.own
  · rw [hdrives.canWrite]
    exact h.dirty

/-- The handle of a channel leads to its block. -/
lemma closeFiles_handle (hp : p ∈ slots) (s : State) :
    (closeFiles (handleOf p)).run s = (updateCatnfile p.1).run s := by
  simp only [slots, List.mem_cons, List.not_mem_nil, or_false] at hp
  rcases hp with rfl | rfl | rfl | rfl | rfl <;> rfl

/-- The length is written to the entry that was found. -/
lemma lengthToMedia_run {y : Byte} (hw : s.CanWrite s.curDrv) (hlen : (s.chan y).Changed) :
    (lengthToMedia y).run s = .ok ()
      ({ s with cat := putLength s.cat s.chanEntry (s.chan y).ext } : State).cycled.catSaved := by
  have h20 : (s.chan y).flags &&& 0x20 ≠ 0 := hlen
  rw [lengthToMedia, Prog.run_bind_ok (Prog.run_get s), Prog.when, if_pos h20,
    Prog.run_bind_ok (Prog.run_modify _ s)]
  exact saveCat_run (s := { s with cat := putLength s.cat s.chanEntry (s.chan y).ext }) hw

/-- Closing a file whose length has changed. -/
lemma UpdateOn.close (h : UpdateOn s p n) (hp : p ∈ slots) (hu : s.Used p) (hlen : (s.chan p.1).Changed)
    {x : Byte} (hx : HasEntry s (s.chan p.1) x) :
    ∃ t, (closeFiles (handleOf p)).run s = .ok () t ∧ Stored s p x t := by
  obtain ⟨hentry, hstart⟩ := hx
  obtain ⟨i, hi, hxi⟩ := State.entryOf_eq h.few hentry
  have h60 : (s.chan p.1).flags &&& 0x60 ≠ 0 := by
    have hbit : ∀ f : Byte, f &&& 0x20 ≠ 0 → f &&& 0x60 ≠ 0 := by decide
    exact hbit _ hlen
  set w : State := (s.closed p).fileSelected p.1 with hw
  have hset : (setFileDrv p.1).run (s.closed p) = .ok () w := rfl
  obtain ⟨f, hsetup⟩ := setupSaveToMedia_run (s := w) (y := p.1) (x := x) rfl h.canWrite.2.1 rfl
    (Function.update_self 7 _ (s.closed p).filenameParam) hentry hstart
  set u : State := { w with
    filenameParam := f
    cat := w.catOf w.curDrv
    curDrvCat := w.curDrv
    catEntry := x
    chanEntry := x.toNat } with hu'
  have hlength := lengthToMedia_run (s := u) (y := p.1) h.canWrite hlen
  set v : State := ({ u with cat := putLength u.cat u.chanEntry (u.chan p.1).ext } : State).cycled.catSaved
    with hv
  -- the channel and its buffer are what they were
  have hcv : ChanOn v p n := h.toChanOn.congr rfl rfl rfl ⟨rfl, rfl, rfl, rfl, rfl⟩
  have hsv : s.SameDrives v := ⟨rfl, rfl, rfl, rfl, rfl⟩
  obtain ⟨t, hflush, hct, hvt, hcats, hclean, hsame, hstream, -, -⟩ := hcv.writtenBack rfl rfl
  have hput : LengthPut (s.catOf (s.chan p.1).drv) i ((s.chan p.1).ext.val % 262144)
      (v.catOf (s.chan p.1).drv) := by
    have hcat : v.catOf (s.chan p.1).drv
        = cycledCat (putLength (s.catOf (s.chan p.1).drv) x.toNat (s.chan p.1).ext) := Function.update_self ..
    rw [hcat, hxi]
    exact (putLength_put _ _ _).cycled
  refine ⟨t, ?_, ⟨hvt.inUse, fun q hq hqp => hvt.other q.1 (slots_disjoint hq hp hqp).1, hsv.trans hvt.drives,
    hvt.wildcard, hvt.defDir, hvt.defDrv, ⟨i, hxi, by have := h.few; omega, ?_⟩, fun j hj => ?_⟩⟩
  · rw [closeFiles_handle hp, updateCatnfile_eq hp hu, Prog.when, if_pos h60, Prog.run_bind_ok hset,
      Prog.run_bind_ok hsetup, Prog.run_bind_ok hlength]
    exact hflush
  · rw [hcats.catOf]
    exact hput
  · have hshown := congrArg (fun g => Stream.data g j) hstream
    have hbase : t.fileBase (t.chan p.1) = s.fileBase (s.chan p.1) := hvt.toCarried.fileBase p.1
    have himage := hct.coherent.shown_clean hclean j
    rw [State.imageByte] at himage
    rw [← hbase]
    exact himage.symm.trans hshown

end Close

/-! ## Opening again -/

/-- The files with the names of the entry that are open on the drive are open for input. -/
def FreeToRead (s : State) (p : Byte × Byte) (x : Byte) : Prop :=
  ∀ q ∈ slots, q ≠ p → s.Used q → (s.chan q.1).drv = (s.chan p.1).drv →
    (∀ i, entryName (s.catOf (s.chan p.1).drv) x.toNat i &&& 0x7f = (s.chan q.1).name i &&& 0x7f) → s.ReadOnly q

/-- The string names the file of the channel: on its drive, the entry found for it is the one. -/
structure Names (s : State) (chars : List Byte) (p : Byte × Byte) (x : Byte) : Prop where
  parsed : (s.fsp chars).2 = none
  drv : (s.fsp chars).1.drv = (s.chan p.1).drv
  found : (s.withFsp (s.fsp chars).1).found = some x

section Reopen

variable {p : Byte × Byte} {n : ℕ} {s t : State} {x : Byte} (chars : List Byte)

/-- A channel that has just been opened for input shows the sectors of its entry. -/
lemma newChan_shows {c : ℕ → Byte} {d y b : Byte} {x : ℕ} (hd : d &&& 3 = d) :
    (newChan 0x40 d y b (entryName c x) (entryInfo c x)).drv = d ∧
      (newChan 0x40 d y b (entryName c x) (entryInfo c x)).ext.val = (entryAt c x).length ∧
      (newChan 0x40 d y b (entryName c x) (entryInfo c x)).ptr.val = 0 ∧
      ¬ (newChan 0x40 d y b (entryName c x) (entryInfo c x)).Told ∧
      (newChan 0x40 d y b (entryName c x) (entryInfo c x)).start = (entryAt c x).start ∧
      (newChan 0x40 d y b (entryName c x) (entryInfo c x)).sec = 0 := by
  have h40 : (0x40 : Byte) &&& 0x40 ≠ 0 := by decide
  have hflags : (newChan 0x40 d y b (entryName c x) (entryInfo c x)).flags = d := by
    have h0 : d ||| 0 = d := BitVec.or_zero
    rw [newChan, if_pos h40]
    exact h0
  have htold : ∀ e : Byte, e &&& 3 = e → ¬ e &&& 0x10 ≠ 0 := by decide
  refine ⟨?_, ?_, rfl, ?_, rfl, rfl⟩
  · rw [Chan.drv, hflags, hd]
  · have h2 := lsr4And3_toNat (entryInfo c x 6)
    rw [newChan, Num24.val, Entry.length]
    simp only [if_pos h40, h2]
    rfl
  · rw [Chan.Told, hflags]
    exact htold d hd

/-- Opening a file for input that nobody is writing to, on a free channel. -/
lemma openFile_input (hparse : (t.fsp chars).2 = none)
    (hdrv : (t.fsp chars).1.drv &&& 3 = (t.fsp chars).1.drv) (hdisk : t.HasDisk (t.fsp chars).1.drv)
    (hfound : (t.withFsp (t.fsp chars).1).found = some x)
    (hfree : ∀ q ∈ slots, t.Used q → (t.chan q.1).drv = (t.fsp chars).1.drv →
      (∀ i, entryName (t.catOf (t.fsp chars).1.drv) x.toNat i &&& 0x7f = (t.chan q.1).name i &&& 0x7f) →
      t.ReadOnly q)
    (hroom : ∃ q ∈ slots, ¬ t.Used q) :
    ∃ q ∈ slots, ¬ t.Used q ∧ (openFile 0x40 chars).run t
      = .ok (handleOf q) ((t.withFsp (t.fsp chars).1).searched.opened 0x40 x.toNat q) := by
  set u : State := t.withFsp (t.fsp chars).1 with hu
  have hread : (readFsp chars).run t = .ok () u := by
    rw [readFsp_run, hparse]
  have hsearch : searchCat.run u = .ok (some x.toNat) u.searched := by
    have hrun := searchCat_run (s := u) hdisk
    rw [hfound] at hrun
    exact hrun
  have hlocate : (locate 0x40 chars).run t = .ok (some x.toNat) u.searched := by
    rw [locate, Prog.run_bind_ok hread, Prog.run_bind_ok hsearch]
    rfl
  have hpermits : u.searched.Permits 0x40 x.toNat slots := by
    rintro q hq ⟨huq, hsame⟩
    refine ⟨hfree q hq huq ?_ ?_, by decide⟩
    · rw [State.sameFile, Bool.and_eq_true, decide_eq_true_iff, decide_eq_true_iff] at hsame
      have hbits := (xor_and_eq_zero _ _ _).1 hsame.1
      exact hbits.trans hdrv
    · intro i
      rw [State.sameFile, Bool.and_eq_true, decide_eq_true_iff, decide_eq_true_iff] at hsame
      exact (xor_and_eq_zero _ _ _).1 (hsame.2 i)
  obtain ⟨hh, v, hopen, -, -, q, hq, hnot, rfl, rfl⟩ :=
    Prog.exists_ok (openFound_spec 0x40 x.toNat u.searched) fun e v he => by
      obtain ⟨hlocked, -⟩ | ⟨-, ⟨hno, -⟩ | ⟨-, hall, -⟩⟩ := he.2
      · exact absurd hlocked.1 (by decide)
      · exact hno hpermits
      · obtain ⟨q, hq, hnot⟩ := hroom
        exact hnot (hall q hq)
  refine ⟨q, hq, hnot, ?_⟩
  rw [openFile, Prog.run_bind_ok hlocate]
  exact hopen

/-- The entry is found as before when the names and the starts are kept. -/
lemma HasEntry.carried {y : Byte} (h : HasEntry s (s.chan y) x) (hcar : Carried s t)
    (hfew : entryCount (s.catOf (s.chan y).drv) ≤ 31) : HasEntry t (t.chan y) x := by
  have hself := hcar.entry y
  have hkept := hcar.starts _ hfew
  obtain ⟨i, -, hi⟩ := State.entryOf_eq hfew h.1
  refine ⟨?_, ?_⟩
  · rw [State.entryOf, hcar.wildcard, hself.name, hself.drv, hkept.nextEntry_eq hfew]
    exact h.1
  · rw [hself.drv, hi, hkept.start_eq, ← hi, h.2, Chan.start, Chan.start, hself.info]

/-- The channel closed is free, and the others are as before. -/
lemma Stored.used_iff (h : Stored s p x t) (hp : p ∈ slots) (hbit : (s.chan p.1).bit = p.2) {q : Byte × Byte}
    (hq : q ∈ slots) : t.Used q ↔ s.Used q ∧ q ≠ p := by
  rw [State.Used, h.inUse, hbit]
  by_cases hqp : q = p
  · rw [hqp, clear_and_self]
    exact iff_of_false (fun hne => hne rfl) fun hne => hne.2 rfl
  · rw [clear_and_of_disjoint _ _ _ (slots_disjoint hp hq (Ne.symm hqp)).2.1]
    exact ⟨fun hne => ⟨hne, hqp⟩, fun hne => hne.1⟩

/-- The file of an entry that has just been opened for input, with its bytes on the disk. -/
lemma opened_shows {u : State} {q : Byte × Byte} {d : Byte} {c : ℕ → Byte} {e : ℕ} {f : Stream}
    (hd : d &&& 3 = d) (hchan : u.chan q.1 = newChan 0x40 d q.1 q.2 (entryName c e) (entryInfo c e))
    (hdisk : u.HasDisk d) (hstart : 2 ≤ (entryAt c e).start) (hlen : (entryAt c e).length = f.length)
    (hle : f.length ≤ n) (hinside : 256 * (entryAt c e).start + n ≤ 256 * 800)
    (hdata : ∀ i < f.length, u.disk (u.addrOn d (entryAt c e).start + i) = f.data i) :
    ReadOn u q n ∧ (f.seek 0).Agrees (u.files q) := by
  obtain ⟨hcd, hext, hptr, htold, hcstart, hsec⟩ := newChan_shows (c := c) (y := q.1) (b := q.2) (x := e) hd
  have hflag : (newChan 0x40 d q.1 q.2 (entryName c e) (entryInfo c e)).flags = d := by
    have h40 : (0x40 : Byte) &&& 0x40 ≠ 0 := by decide
    rw [newChan, if_pos h40]
    exact BitVec.or_zero
  have hbits : ∀ b : Byte, b &&& 3 = b → b &&& 0x80 = 0 ∧ b &&& 0x40 = 0 := by decide
  obtain ⟨h80, h40⟩ := hbits d hd
  have hro : ∀ b : Byte, (0x80 ||| b) &&& 0x80 ≠ 0 := by decide
  have hclean : ¬ (u.chan q.1).Dirty := by
    rw [hchan, Chan.Dirty, hflag, not_not]
    exact h40
  refine ⟨⟨⟨⟨?_, ?_, ?_, ?_, ?_, ?_⟩, ?_, ?_, ?_, fun hdirty => absurd hdirty hclean⟩, ?_, hclean⟩,
    ⟨fun i hi => ?_, ?_, ?_, ?_⟩⟩
  · rw [hchan, hcstart]
    exact hstart
  · rw [hchan, hptr]
    exact Nat.zero_le _
  · rw [hchan, hext, hlen]
    exact hle
  · rw [hchan, hcstart]
    exact hinside
  · rw [hchan, hcd]
    exact hdisk
  · rw [hchan]
    rfl
  · intro hv
    rw [hchan, Chan.Valid, hflag] at hv
    exact absurd h80 hv
  · rw [hchan, hsec]
    exact fun _ hne => absurd rfl hne
  · rw [hchan, hsec]
    exact fun hne => absurd rfl hne
  · rw [State.ReadOnly, hchan]
    exact hro _
  · have hz : ¬ ((u.chan q.1).sec ≠ 0 ∧ (u.chan q.1).sec = (u.chan q.1).start + i / 256) := by
      rw [hchan, hsec]
      exact fun hne => hne.1 rfl
    simp only [State.files, State.stream]
    rw [State.shown, if_neg hz, State.imageByte, hchan, hcd, hcstart]
    exact hdata i hi
  · simp only [State.files, State.stream, hchan, hext, hlen]
    rfl
  · simp only [State.files, State.stream, hchan, hptr]
    rfl
  · simp only [State.files, State.stream, hchan]
    exact decide_eq_false htold

/-- **What is written is read again.**  Several files are open; one of them is open for update, and its
length has changed since it was opened, as it always has for a file opened for output.  After any calls on
the open handles this file is closed, and opened for input under a name that finds its entry.  Both succeed,
and the new channel, which stands at the beginning, shows the file that the calls should have made: every
byte, and the length. -/
theorem reopened_shows {g : Byte × Byte → ℕ} (h : Files g s) (hp : p ∈ slots) (hu : s.Used p)
    (hbit : (s.chan p.1).bit = p.2) (hro : ¬ s.ReadOnly p) (hlen : (s.chan p.1).Changed)
    (hx : HasEntry s (s.chan p.1) x) (hfree : FreeToRead s p x) (hname : Names s chars p x) (l : List FileOp)
    (hl : Calls.Allowed (FileOp.Valid s g) (fun d op => op.apply s d) l s.files) :
    ∃ t q u, (closeFiles (handleOf p)).run (Calls.answers FileOp.call l s).2 = .ok () t ∧
      (openFile 0x40 chars).run t = .ok (handleOf q) u ∧ q ∈ slots ∧ u.Used q ∧ ReadOn u q (g p) ∧
      (((Calls.replies (fun d op => FileOp.apply s d op) l s.files).2 p).seek 0).Agrees (u.files q) := by
  obtain ⟨-, hshows⟩ := h.run hl
  set w := (Calls.answers FileOp.call l s).2 with hw
  have hcar := hshows.carried
  have huw : w.Used p := (hcar.used p).2 hu
  have hupdate : UpdateOn w p (g p) := (hshows.files.channel p hp huw).resolve_right fun hr =>
    hro ((hcar.readOnly p).1 hr.readOnly)
  have hstart : UpdateOn s p (g p) := (h.channel p hp hu).resolve_right fun hr => hro hr.readOnly
  have hself := hcar.entry p.1
  have hkept := hcar.starts _ hstart.few
  have hbitw : (w.chan p.1).bit = p.2 := hself.bit.trans hbit
  obtain ⟨t, hclose, hstored⟩ := hupdate.close hp huw (hcar.changed p.1 hlen) (hx.carried hcar hstart.few)
  obtain ⟨i, hxi, hi, hput⟩ := hstored.put
  rw [hself.drv] at hput
  have hall : StartsKept (s.catOf (s.chan p.1).drv) (t.catOf (s.chan p.1).drv) := hkept.trans hput.kept
  -- the name is taken apart as before, and finds the same entry
  have hfsp : t.fsp chars = s.fsp chars := by
    rw [State.fsp, State.fsp, hstored.defDir, hstored.defDrv, hcar.defDir, hcar.defDrv]
  have hdrv : (t.fsp chars).1.drv = (s.chan p.1).drv := hfsp ▸ hname.drv
  have hmask : (s.chan p.1).drv &&& 3 = (s.chan p.1).drv := by
    have h3 : ∀ f : Byte, f &&& 3 &&& 3 = f &&& 3 := by decide
    exact h3 _
  have hdisk : t.HasDisk (s.chan p.1).drv := by
    rw [hstored.drives.hasDisk, hcar.drives.hasDisk]
    exact hstart.hasDisk
  have hfound : (t.withFsp (t.fsp chars).1).found = some x := by
    have hwild : t.wildcard = s.wildcard := hstored.wildcard.trans hcar.wildcard
    rw [← hname.found]
    show nextEntry t.wildcard (t.fsp chars).1.name (t.catOf (t.fsp chars).1.drv) 32 0xf8
      = nextEntry s.wildcard (s.fsp chars).1.name (s.catOf (s.fsp chars).1.drv) 32 0xf8
    rw [hwild, hdrv, hname.drv, hfsp]
    exact hall.nextEntry_eq hstart.few
  obtain ⟨q, hq, hnot, hopen⟩ := openFile_input (t := t) (x := x) chars (hfsp ▸ hname.parsed)
    (by rw [hdrv, hmask]) (by rw [hdrv]; exact hdisk) hfound (fun q hq huq hd hsame => by
      obtain ⟨huqw, hqp⟩ := (hstored.used_iff hp hbitw hq).1 huq
      have hchan := hstored.other q hq hqp
      rw [State.ReadOnly, hchan]
      rw [hchan, hdrv] at hd hsame
      refine (hcar.readOnly q).2 (hfree q hq hqp ((hcar.used q).1 huqw) ?_ fun j => ?_)
      · rw [← hd, (hcar.entry q.1).drv]
      · rw [← (hcar.entry q.1).name, ← hsame j, hxi]
        exact (hall.entryName_eq hi j).symm)
    ⟨p, hp, fun hup => ((hstored.used_iff hp hbitw hp).1 hup).2 rfl⟩
  set v := (t.withFsp (t.fsp chars).1).searched with hv
  have hcat : v.cat = t.catOf (s.chan p.1).drv := congrArg t.catOf hdrv
  have hcur : v.curDrv = (s.chan p.1).drv := hdrv
  have hchan : (v.opened 0x40 x.toNat q).chan q.1
      = newChan 0x40 (s.chan p.1).drv q.1 q.2 (entryName (t.catOf (s.chan p.1).drv) x.toNat)
        (entryInfo (t.catOf (s.chan p.1).drv) x.toNat) := by
    rw [← hcat, ← hcur]
    exact State.setChan_chan _ _ _
  have hentry : (entryAt (t.catOf (s.chan p.1).drv) x.toNat).start = (w.chan p.1).start := by
    rw [hxi, hall.start_eq, ← hxi, hx.2, Chan.start, Chan.start, hself.info]
  have hag := hshows.agrees p hp hu
  have hinside := hupdate.inside
  have hstart2 := hupdate.start_ge
  have hextle := hupdate.ext_le
  have hlength : (w.chan p.1).ext.val = ((Calls.replies (fun d op => FileOp.apply s d op) l s.files).2 p).length :=
    hag.length
  have hshown := opened_shows (u := v.opened 0x40 x.toNat q) (n := g p)
    (f := (Calls.replies (fun d op => FileOp.apply s d op) l s.files).2 p) hmask hchan hdisk
    (by rw [hentry]; exact hstart2)
    (by rw [hxi, hput.length, Nat.mod_eq_of_lt (by omega)]; exact hlength)
    (by rw [← hlength]; exact hextle) (by rw [hentry]; exact hinside) (fun j hj => by
      rw [hentry, ← hag.data j hj]
      have hbyte := hstored.data j (hlength ▸ hj)
      rw [State.fileBase, hself.drv] at hbyte
      have haddr : (v.opened 0x40 x.toNat q).addrOn (s.chan p.1).drv (w.chan p.1).start
          = w.addrOn (s.chan p.1).drv (w.chan p.1).start := hstored.drives.addrOn _ _
      rw [haddr]
      exact hbyte)
  exact ⟨t, q, v.opened 0x40 x.toNat q, hclose, hopen, hq, (used_opened v 0x40 x.toNat hq hq).2 (.inl rfl), hshown⟩

end Reopen

/-- `$.B` is open for input with the handle `$11`, and `$.A` for output with the handle `$12`. -/
def inAndOut : State := ((openFile 0x80 [0x41]).run ((openFile 0x40 [0x42]).run fullDisk).state).state

lemma inAndOut_used {p : Byte × Byte} (hp : p ∈ slots) (hu : inAndOut.Used p) :
    p = (0x20, 0x80) ∨ p = (0x40, 0x40) := by
  simp only [slots, List.mem_cons, List.not_mem_nil, or_false] at hp
  rcases hp with rfl | rfl | rfl | rfl | rfl
  · exact absurd hu (by decide)
  · exact absurd hu (by decide)
  · exact absurd hu (by decide)
  · exact .inr rfl
  · exact .inl rfl

lemma inAndOut_files : Files (fun _ => 256) inAndOut where
  channel p hp hu := by
    obtain rfl | rfl := inAndOut_used hp hu
    · exact .inr ⟨⟨⟨by decide, by decide, by decide, by decide, by decide, by decide⟩, fun h => absurd rfl h,
        fun _ h => absurd rfl h, fun h => absurd rfl h, fun h => absurd rfl h⟩, by decide,
        by unfold Chan.Dirty; decide⟩
    · exact .inl ⟨⟨⟨by decide, by decide, by decide, by decide, by decide, by decide⟩, fun h => absurd rfl h,
        fun _ h => absurd rfl h, fun h => absurd rfl h, fun h => absurd rfl h⟩,
        ⟨⟨by decide, by decide, .inl (by decide)⟩, by decide, by decide, by decide⟩⟩
  apart p hp q hq hne hu hu' hro := by
    obtain rfl | rfl := inAndOut_used hp hu
    · exact absurd (by decide) hro
    · obtain rfl | rfl := inAndOut_used hq hu'
      · exact .inl (by decide)
      · exact absurd rfl hne

/-- A byte is written between reads of the other file, the file closed, opened again and found to hold the
byte. -/
theorem inAndOut_reopened :
    ∃ t q u, (closeFiles 0x12).run (Calls.answers FileOp.call [.get (0x20, 0x80), .put (0x40, 0x40) 7,
        .get (0x20, 0x80)] inAndOut).2 = .ok () t ∧
      (openFile 0x40 [0x41]).run t = .ok (handleOf q) u ∧ (u.files q).length = 1 ∧ (u.files q).data 0 = 7 := by
  obtain ⟨t, q, u, hclose, hopen, -, -, -, hagrees⟩ := reopened_shows (p := (0x40, 0x40)) (x := 8)
    [0x41] inAndOut_files (by decide) (by decide) (by decide) (by decide)
    (by unfold Chan.Changed; decide) ⟨rfl, by decide⟩
    (fun q hq hne hu _ _ => by
      obtain rfl | rfl := inAndOut_used hq hu
      · decide
      · exact absurd rfl hne) ⟨by decide, by decide, rfl⟩
    [.get (0x20, 0x80), .put (0x40, 0x40) 7, .get (0x20, 0x80)]
    ⟨⟨by decide, by decide⟩, ⟨by decide, by decide, fun _ => by decide⟩, ⟨by decide, by decide⟩, trivial⟩
  exact ⟨t, q, u, hclose, hopen, hagrees.length, hagrees.data 0 (by decide)⟩

end Udfs.Rom
