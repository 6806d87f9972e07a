import Udfs.Lib.Transition
import Udfs.Rom.Closing

/-!
# Readers and writers

A run of OSFIND calls opens and closes files in any order.  Which channels are open is followed
beside the run; the bits of `$10c0` are set for these, and a file that is open on two channels is
open for input on both.
-/

namespace Udfs.Rom

/-- The ways to open a file: for input, for output and for update. -/
def OpenMode (a : Byte) : Prop := a = 0x40 ∨ a = 0x80 ∨ a = 0xc0

/-- A handle is that of a free channel, on which the entry found is opened; an error opens
nothing. -/
lemma openFile_spec (a : Byte) (chars : List Byte) (s : State) :
    Prog.wp (openFile a chars)
      (fun h s' => (h = 0 ∧ SameChans s s') ∨ ∃ x t, (locate a chars).run s = .ok (some x) t ∧
        t.Permits a x slots ∧ ∃ p ∈ slots, ¬ t.Used p ∧ h = handleOf p ∧ s' = t.opened a x p)
      (fun _ s' => SameChans s s') s := by
  have hloc := locate_sameChans a chars s
  rw [openFile, Prog.wp_bind]
  rw [Prog.wp] at hloc ⊢
  rcases hrun : (locate a chars).run s with ⟨_ | x, t⟩ | ⟨e, t⟩
  · rw [hrun] at hloc
    exact Or.inl ⟨rfl, hloc⟩
  · rw [hrun] at hloc
    refine Prog.wp_mono (openFound_spec a x t) ?_ ?_
    · rintro h s' ⟨-, hper, hfree⟩
      exact Or.inr ⟨x, t, rfl, hper, hfree⟩
    · rintro e s' ⟨hn, -⟩
      exact hloc.trans (.of_noted hn)
  · rw [hrun] at hloc
    exact hloc

/-! ## Two channels for one file -/

/-- The channels have the same drive, directory and name; bit 7 of a character is not part of
it. -/
def Chan.Alike (c d : Chan) : Prop :=
  c.drv = d.drv ∧ ∀ i, c.name i &&& 0x7f = d.name i &&& 0x7f

lemma Chan.Alike.symm {c d : Chan} (h : c.Alike d) : d.Alike c := ⟨h.1.symm, fun i => (h.2 i).symm⟩

section NewChan

variable (a drv y b : Byte) (name info : Fin 8 → Byte)

lemma newChan_drv : (newChan a drv y b name info).drv = drv &&& 3 := by
  have h0 : ∀ d : Byte, (d ||| 0) &&& 3 = d &&& 3 := by decide
  have h20 : ∀ d : Byte, (d ||| 0x20) &&& 3 = d &&& 3 := by decide
  simp only [Chan.drv, newChan]
  split_ifs
  · exact h0 drv
  · exact h20 drv

lemma newChan_name (i : Fin 8) : (newChan a drv y b name info).name i &&& 0x7f = name i &&& 0x7f := by
  have h7 : ∀ d : Byte, (0x80 ||| d) &&& 0x7f = d &&& 0x7f := by decide
  simp only [newChan]
  by_cases hro : a &&& 0x40 ≠ 0 ∧ a &&& 0x80 = 0
  · rw [if_pos hro]
    by_cases hi : i = 6
    · rw [hi, Function.update_self]
      exact h7 _
    · rw [Function.update_of_ne hi]
  · rw [if_neg hro]

end NewChan

/-- The comparison of `$8fba` is with the channel that would be opened. -/
lemma newChan_alike (s : State) (a y b : Byte) (x : ℕ) (z : Byte) :
    (newChan a s.curDrv y b (entryName s.cat x) (entryInfo s.cat x)).Alike (s.chan z) ↔
      s.sameFile x z = true := by
  rw [State.sameFile, Bool.and_eq_true, decide_eq_true_iff, decide_eq_true_iff, Chan.Alike, newChan_drv]
  simp only [newChan_name, xor_and_eq_zero, Chan.drv]
  exact and_congr_left fun _ => eq_comm

lemma newChan_readOnly (drv y b : Byte) (name info : Fin 8 → Byte) :
    (newChan 0x40 drv y b name info).name 6 &&& 0x80 ≠ 0 := by
  have h : ∀ d : Byte, (0x80 ||| d) &&& 0x80 ≠ 0 := by decide
  exact h _

section Opened

variable (s : State) (a : Byte) (x : ℕ)

lemma opened_chan_self (p : Byte × Byte) : (s.opened a x p).chan p.1
    = newChan a s.curDrv p.1 p.2 (entryName s.cat x) (entryInfo s.cat x) := State.setChan_chan _ _ _

lemma opened_chan_of_ne {p q : Byte × Byte} (hp : p ∈ slots) (hq : q ∈ slots) (h : q ≠ p) :
    (s.opened a x p).chan q.1 = s.chan q.1 :=
  State.setChan_chan_of_ne _ _ (slots_disjoint hq hp h).1

/-- The new channel has the bit of its offset. -/
lemma TableOk.opened {s : State} (h : TableOk s) {p : Byte × Byte} (hp : p ∈ slots) :
    TableOk (s.opened a x p) where
  bits := by
    have hbits : (s.opened a x p).inUse &&& 7 = (p.2 &&& 7) ||| (s.inUse &&& 7) :=
      BitVec.and_or_distrib_right
    rw [hbits, h.bits, slots_bits hp]
    rfl
  bit q hq hu := by
    by_cases hqp : q = p
    · rw [hqp, opened_chan_self]
      rfl
    · rw [opened_chan_of_ne s a x hp hq hqp]
      exact h.bit q hq (((used_opened s a x hp hq).1 hu).resolve_left hqp)

end Opened

/-! ## Runs -/

/-- Nothing is open. -/
def NothingOpen (z : State × Set (Byte × Byte)) : Prop := z.1.inUse = 0 ∧ z.2 = ∅

/-- A call of OSFIND, and which channels are open after it.  A handle that is returned is open; one
that is to be closed is not open any more, whether or not that ends with an error.  An error
while all files are being closed is about the channel at `$10c2`, and those behind it stay open. -/
inductive FindStep : State × Set (Byte × Byte) → State × Set (Byte × Byte) → Prop where
  | opened {s s' : State} {G : Set (Byte × Byte)} (a : Byte) (chars : List Byte) (h : Byte)
      (hmode : OpenMode a) (hrun : (openFile a chars).run s = .ok h s') :
      FindStep (s, G) (s', G ∪ {p | p ∈ slots ∧ handleOf p = h})
  | refused {s s' : State} {G : Set (Byte × Byte)} (a : Byte) (chars : List Byte) (e : Err)
      (hmode : OpenMode a) (hrun : (openFile a chars).run s = .err e s') : FindStep (s, G) (s', G)
  | closed {s s' : State} {G : Set (Byte × Byte)} (h : Byte) (h0 : h ≠ 0)
      (hrun : (closeFiles h).run s = .ok () s') : FindStep (s, G) (s', {p ∈ G | handleOf p ≠ h})
  | closedErr {s s' : State} {G : Set (Byte × Byte)} (h : Byte) (h0 : h ≠ 0) (e : Err)
      (hrun : (closeFiles h).run s = .err e s') : FindStep (s, G) (s', {p ∈ G | handleOf p ≠ h})
  | closedAll {s s' : State} {G : Set (Byte × Byte)} (hrun : (closeFiles 0).run s = .ok () s') :
      FindStep (s, G) (s', ∅)
  | closedAllErr {s s' : State} {G : Set (Byte × Byte)} (e : Err)
      (hrun : (closeFiles 0).run s = .err e s') :
      FindStep (s, G) (s', {p ∈ G | s'.chanOff.toNat < p.1.toNat})

/-- The channels in use are those that are open, each block holds the bit of its offset, and of two
channels for one file both are read-only. -/
structure FindInv (s : State) (G : Set (Byte × Byte)) : Prop where
  table : TableOk s
  slot : ∀ p ∈ G, p ∈ slots
  used_iff : ∀ p ∈ slots, s.Used p ↔ p ∈ G
  exclusive : ∀ p ∈ G, ∀ q ∈ G, p ≠ q → (s.chan p.1).Alike (s.chan q.1) → s.ReadOnly p ∧ s.ReadOnly q

namespace FindInv

variable {s s' : State} {G : Set (Byte × Byte)}

lemma start (h : s.inUse = 0) : FindInv s ∅ where
  table := by
    refine ⟨?_, fun p _ hu => absurd ?_ hu⟩
    · rw [h]
      exact BitVec.zero_and
    · rw [h]
      exact BitVec.zero_and
  slot p hp := absurd hp (Set.notMem_empty p)
  used_iff p _ := by
    refine iff_of_false (fun hu => hu ?_) (Set.notMem_empty p)
    rw [h]
    exact BitVec.zero_and
  exclusive p hp := absurd hp (Set.notMem_empty p)

lemma of_sameChans (h : FindInv s G) (hs : SameChans s s') : FindInv s' G where
  table := by
    refine ⟨by rw [hs.1]; exact h.table.bits, fun p hp hu => ?_⟩
    rw [hs.2]
    exact h.table.bit p hp ((hs.used p).1 hu)
  slot := h.slot
  used_iff p hp := (hs.used p).trans (h.used_iff p hp)
  exclusive p hp q hq hne hal := by
    rw [hs.readOnly, hs.readOnly]
    rw [hs.2] at hal
    exact h.exclusive p hp q hq hne hal

/-- Channels that are closed leave the others as they were. -/
lemma of_shrunk (h : FindInv s G) (hs : Shrunk s s') {G' : Set (Byte × Byte)} (hsub : G' ⊆ G)
    (hused : ∀ p ∈ slots, s'.Used p ↔ p ∈ G') : FindInv s' G' where
  table := hs.tableOk h.table
  slot p hp := h.slot p (hsub hp)
  used_iff := hused
  exclusive p hp q hq hne hal := by
    have hro : ∀ y, s'.ReadOnly y ↔ s.ReadOnly y := fun y => by
      rw [State.ReadOnly, State.ReadOnly, (hs.names y.1).1]
    rw [hro, hro]
    refine h.exclusive p (hsub hp) q (hsub hq) hne ?_
    obtain ⟨hdrv, hname⟩ := hal
    rw [(hs.names p.1).2.2, (hs.names q.1).2.2] at hdrv
    rw [(hs.names p.1).1, (hs.names q.1).1] at hname
    exact ⟨hdrv, hname⟩

/-- A channel that is opened on a file shares it only when both are for reading alone. -/
lemma opened (h : FindInv s G) {a : Byte} (hmode : OpenMode a) {x : ℕ} (hper : s.Permits a x slots)
    {p : Byte × Byte} (hp : p ∈ slots) (hfree : ¬ s.Used p) : FindInv (s.opened a x p) (insert p G) := by
  have hself := opened_chan_self s a x p
  have hother : ∀ q ∈ G, q ≠ p ∧ (s.opened a x p).chan q.1 = s.chan q.1 := by
    intro q hq
    have hne : q ≠ p := by
      rintro rfl
      exact hfree ((h.used_iff q hp).2 hq)
    exact ⟨hne, opened_chan_of_ne s a x hp (h.slot q hq) hne⟩
  -- what the search has permitted
  have hshare : ∀ q ∈ G, (newChan a s.curDrv p.1 p.2 (entryName s.cat x) (entryInfo s.cat x)).Alike
      (s.chan q.1) → (s.opened a x p).ReadOnly p ∧ (s.opened a x p).ReadOnly q := by
    intro q hq hal
    obtain ⟨hro, hin⟩ := hper q (h.slot q hq) ⟨(h.used_iff q (h.slot q hq)).2 hq, (newChan_alike ..).1 hal⟩
    have ha : a = 0x40 := by
      rcases hmode with rfl | rfl | rfl
      · rfl
      · exact absurd hin (by decide)
      · exact absurd hin (by decide)
    constructor
    · rw [State.ReadOnly, hself, ha]
      exact newChan_readOnly s.curDrv p.1 p.2 _ _
    · rw [State.ReadOnly, (hother q hq).2]
      exact hro
  refine ⟨h.table.opened a x hp, ?_, fun q hq => ?_, ?_⟩
  · rintro q (rfl | hq)
    · exact hp
    · exact h.slot q hq
  · rw [used_opened s a x hp hq, h.used_iff q hq]
    exact Iff.rfl
  · rintro q (rfl | hq) r (rfl | hr) hne hal
    · exact absurd rfl hne
    · rw [hself, (hother r hr).2] at hal
      exact hshare r hr hal
    · rw [hself, (hother q hq).2] at hal
      exact (hshare q hq hal.symm).symm
    · rw [(hother q hq).2, (hother r hr).2] at hal
      rw [State.ReadOnly, State.ReadOnly, (hother q hq).2, (hother r hr).2]
      exact h.exclusive q hq r hr hne hal

lemma step {z z' : State × Set (Byte × Byte)} (h : FindInv z.1 z.2) (hstep : FindStep z z') :
    FindInv z'.1 z'.2 := by
  cases hstep with
  | @opened s s' G a chars handle hmode hrun =>
      have hspec := openFile_spec a chars s
      rw [Prog.wp_of_ok hrun] at hspec
      obtain ⟨rfl, hsame⟩ | ⟨x, t, hloc, hper, p, hp, hfree, rfl, rfl⟩ := hspec
      · have hnone : G ∪ {p | p ∈ slots ∧ handleOf p = 0} = G := by
          refine Set.union_eq_self_of_subset_right ?_
          rintro p ⟨hp, h0⟩
          exact absurd (h0 ▸ (handleOf_range hp).1) (by decide)
        rw [hnone]
        exact h.of_sameChans hsame
      · have hnew : G ∪ {q | q ∈ slots ∧ handleOf q = handleOf p} = insert p G := by
          rw [Set.union_comm, Set.insert_eq]
          refine congrArg (· ∪ G) (Set.ext fun q => ⟨fun hq => handleOf_inj hq.1 hp hq.2, ?_⟩)
          rintro rfl
          exact ⟨hp, rfl⟩
        have hsame := locate_sameChans a chars s
        rw [Prog.wp_of_ok hloc] at hsame
        rw [hnew]
        exact (h.of_sameChans hsame).opened hmode hper hp hfree
  | @refused s s' G a chars e hmode hrun =>
      have hspec := openFile_spec a chars s
      rw [Prog.wp_of_err hrun] at hspec
      exact h.of_sameChans hspec
  | @closed s s' G handle h0 hrun =>
      have hspec := closeFiles_spec h0 s h.table
      rw [Prog.wp_of_ok hrun] at hspec
      refine h.of_shrunk hspec.1 (fun p hp => hp.1) fun p hp => ?_
      rw [hspec.2 p hp, h.used_iff p hp]
      exact Iff.rfl
  | @closedErr s s' G handle h0 e hrun =>
      have hspec := closeFiles_spec h0 s h.table
      rw [Prog.wp_of_err hrun] at hspec
      refine h.of_shrunk hspec.1 (fun p hp => hp.1) fun p hp => ?_
      rw [hspec.2 p hp, h.used_iff p hp]
      exact Iff.rfl
  | @closedAll s s' G hrun =>
      have hspec := closeFrom_spec 8 0 s rfl (by decide) h.table
      rw [Prog.wp_of_ok (show (closeFrom 8 0).run s = _ from hrun)] at hspec
      refine h.of_shrunk hspec.1 (Set.empty_subset G) fun p hp => ?_
      rw [hspec.2 p hp]
      refine iff_of_false (fun hu => (handleOf_slots hp).2.2.1 ?_) (Set.notMem_empty p)
      exact toNat_eq_zero.1 (Nat.le_zero.1 hu.2)
  | @closedAllErr s s' G e hrun =>
      have hspec := closeFrom_spec 8 0 s rfl (by decide) h.table
      rw [Prog.wp_of_err (show (closeFrom 8 0).run s = _ from hrun)] at hspec
      refine h.of_shrunk hspec.1 (fun p hp => hp.1) fun p hp => ?_
      rw [hspec.2.2 p hp, h.used_iff p hp]
      refine and_congr_right fun _ => or_iff_right fun h0 => (handleOf_slots hp).2.2.1 ?_
      exact toNat_eq_zero.1 (Nat.le_zero.1 h0)

end FindInv

/-! ## What an opening may answer -/

/-- The file of the entry at `x` is open on a channel, and not both that channel and the new one
would be for reading alone. -/
def Conflict (t : State) (G : Set (Byte × Byte)) (a : Byte) (x : ℕ) : Prop :=
  ∃ p ∈ G, t.sameFile x p.1 = true ∧ ¬ (a = 0x40 ∧ t.ReadOnly p)

/-- The error of an opening that is not possible; for output a locked file is refused before the
channels are looked at. -/
def refusal (t : State) (a : Byte) (x : ℕ) (e : Err) : Err := if t.LockedFor a x then .fileLocked else e

/-- What is asked of an opening while the channels of `G` are open.  The entry is found, or made, before the
channels are looked at, and an error in that is the answer. -/
structure OpensApart (s : State) (G : Set (Byte × Byte)) (a : Byte) (chars : List Byte) : Prop where
  -- a handle is that of a channel that was not open
  fresh : ∀ h s', (openFile a chars).run s = .ok h s' → h = 0 ∨ ∃ p ∈ slots, p ∉ G ∧ h = handleOf p
  -- an error leaves the open channels as they are
  refused : ∀ e s', (openFile a chars).run s = .err e s' → ∀ p ∈ slots, s'.Used p ↔ p ∈ G
  before : ∀ e s', (locate a chars).run s = .err e s' → (openFile a chars).run s = .err e s'
  absent : ∀ s', (locate a chars).run s = .ok none s' → (openFile a chars).run s = .ok 0 s'
  conflict : ∀ x t, (locate a chars).run s = .ok (some x) t → Conflict t G a x →
    ∃ s', (openFile a chars).run s = .err (refusal t a x .fileOpen) s'
  full : ∀ x t, (locate a chars).run s = .ok (some x) t → ¬ Conflict t G a x → (∀ p ∈ slots, p ∈ G) →
    ∃ s', (openFile a chars).run s = .err (refusal t a x .tooManyFilesOpen) s'
  opens : ∀ x t, (locate a chars).run s = .ok (some x) t → ¬ t.LockedFor a x → ¬ Conflict t G a x →
    ¬ (∀ p ∈ slots, p ∈ G) → ∃ p ∈ slots, p ∉ G ∧ (openFile a chars).run s = .ok (handleOf p) (t.opened a x p)

namespace FindInv

variable {s : State} {G : Set (Byte × Byte)}

lemma conflict_iff (h : FindInv s G) {a : Byte} (hmode : OpenMode a) (x : ℕ) :
    Conflict s G a x ↔ ¬ s.Permits a x slots := by
  have hin : a &&& 0x80 = 0 ↔ a = 0x40 := by
    rcases hmode with rfl | rfl | rfl <;> decide
  constructor
  · rintro ⟨p, hp, hsame, hno⟩ hper
    obtain ⟨hro, ha⟩ := hper p (h.slot p hp) ⟨(h.used_iff p (h.slot p hp)).2 hp, hsame⟩
    exact hno ⟨hin.1 ha, hro⟩
  · intro hno
    by_contra hc
    refine hno fun p hp ⟨hu, hsame⟩ => ?_
    by_contra hro
    exact hc ⟨p, (h.used_iff p hp).1 hu, hsame, fun h' => hro ⟨h'.2, hin.2 h'.1⟩⟩

lemma opensApart (h : FindInv s G) {a : Byte} (hmode : OpenMode a) (chars : List Byte) :
    OpensApart s G a chars := by
  have hspec := openFile_spec a chars s
  have hloc := locate_sameChans a chars s
  have hfound : ∀ x t, (locate a chars).run s = .ok (some x) t →
      FindInv t G ∧ (openFile a chars).run s = (openFound a x).run t := by
    intro x t hrun
    rw [Prog.wp_of_ok hrun] at hloc
    exact ⟨h.of_sameChans hloc, Prog.run_bind_ok hrun⟩
  refine ⟨fun handle s' hrun => ?_, fun e s' hrun p hp => ?_, fun e s' hrun => ?_, fun s' hrun => ?_,
    fun x t hrun hc => ?_, fun x t hrun hc hall => ?_, fun x t hrun hlock hc hroom => ?_⟩
  · rw [Prog.wp_of_ok hrun] at hspec
    obtain ⟨rfl, -⟩ | ⟨x, t, hx, -, p, hp, hfree, rfl, -⟩ := hspec
    · exact Or.inl rfl
    · exact Or.inr ⟨p, hp, fun hG => hfree (((hfound x t hx).1.used_iff p hp).2 hG), rfl⟩
  · rw [Prog.wp_of_err hrun] at hspec
    rw [hspec.used, h.used_iff p hp]
  · exact Prog.run_bind_err hrun
  · exact Prog.run_bind_ok hrun
  · obtain ⟨ht, heq⟩ := hfound x t hrun
    have hper := (ht.conflict_iff hmode x).1 hc
    obtain ⟨e, s', herr, -, hcases⟩ := Prog.exists_err (openFound_spec a x t) fun _ _ hq => hper hq.2.1
    refine ⟨s', ?_⟩
    rw [heq, herr, refusal]
    obtain ⟨hlock, rfl⟩ | ⟨hlock, ⟨-, rfl⟩ | ⟨hyes, -⟩⟩ := hcases
    · rw [if_pos hlock]
    · rw [if_neg hlock]
    · exact absurd hyes hper
  · obtain ⟨ht, heq⟩ := hfound x t hrun
    have hper := not_not.1 (mt (ht.conflict_iff hmode x).2 hc)
    have hnone : ∀ p ∈ slots, ¬ ¬ t.Used p := fun p hp => not_not.2 ((ht.used_iff p hp).2 (hall p hp))
    obtain ⟨e, s', herr, -, hcases⟩ := Prog.exists_err (openFound_spec a x t) fun _ _ hq => by
      obtain ⟨-, -, p, hp, hfree, -⟩ := hq
      exact hnone p hp hfree
    refine ⟨s', ?_⟩
    rw [heq, herr, refusal]
    obtain ⟨hlock, rfl⟩ | ⟨hlock, ⟨hno, -⟩ | ⟨-, -, rfl⟩⟩ := hcases
    · rw [if_pos hlock]
    · exact absurd hper hno
    · rw [if_neg hlock]
  · obtain ⟨ht, heq⟩ := hfound x t hrun
    have hper := not_not.1 (mt (ht.conflict_iff hmode x).2 hc)
    obtain ⟨handle, s', hok, -, -, p, hp, hfree, rfl, rfl⟩ := Prog.exists_ok (openFound_spec a x t) fun _ _ he => by
      obtain ⟨-, ⟨hl, -⟩ | ⟨-, ⟨hno, -⟩ | ⟨-, hall, -⟩⟩⟩ := he
      · exact hlock hl
      · exact hno hper
      · exact hroom fun p hp => (ht.used_iff p hp).1 (hall p hp)
    exact ⟨p, hp, fun hG => hfree ((ht.used_iff p hp).2 hG), heq.trans hok⟩

end FindInv

lemma findInv_reachable {s : State} {G : Set (Byte × Byte)} (h : Reachable NothingOpen FindStep (s, G)) :
    FindInv s G := by
  refine Reachable.invariant (P := fun z => FindInv z.1 z.2) ?_ (fun z z' hz hs => hz.step hs) h
  rintro ⟨s, G⟩ ⟨h0, rfl⟩
  exact .start h0

/-- **Many readers or one writer.**  In every state that a sequence of OSFIND calls leads to, the
bits of `$10c0` are set exactly for the channels that are open, every channel block holds the bit
that belongs to its offset, and whenever two open channels have the same drive, directory and name
both are read-only.  An opening begins with finding the entry, or making it for a new name that is
opened for output, and an error in that is its answer.  With the entry, one for output of a locked file
raises File locked; otherwise one of a file that is already open, with the new channel or the old one not
for reading alone, raises File open, one of another file while all five channels are open raises Too many
files open, and any other returns the handle of a channel that was not open.  No error changes which
channels are open. -/
theorem openChannels_exclusive {s : State} {G : Set (Byte × Byte)}
    (h : Reachable NothingOpen FindStep (s, G)) :
    FindInv s G ∧ (∀ p ∈ slots, handleMask p.1 = p.2) ∧
      (∀ p ∈ slots, ∀ q ∈ slots, p.1 = q.1 ↔ p.2 = q.2) ∧
      ∀ a chars, OpenMode a → OpensApart s G a chars := by
  have hinv := findInv_reachable h
  refine ⟨hinv, fun p hp => (handleOf_slots hp).2.2.2, fun p hp q hq => ?_, fun a chars hmode =>
    hinv.opensApart hmode chars⟩
  by_cases hpq : p = q
  · rw [hpq]
    exact iff_of_true rfl rfl
  · obtain ⟨hoff, hbit, -⟩ := slots_disjoint hp hq hpq
    refine iff_of_false hoff fun he => slots_bit hq ?_
    rw [he] at hbit
    exact hbit

/-- The file of `twoBytesOpen` is open on the channel with the handle `$11`. -/
lemma twoBytesOpen_found :
    Reachable NothingOpen FindStep (twoBytesOpen, ∅ ∪ {p | p ∈ slots ∧ handleOf p = 0x11}) :=
  .next (.start (s := (twoBytes, ∅)) ⟨rfl, rfl⟩) (.opened 0x40 [0x41] 0x11 (Or.inl rfl) rfl)

theorem twoBytesOpen_refuses : ∃ s', (openFile 0xc0 [0x41]).run twoBytesOpen = .err .fileOpen s' := by
  have hmem : ((0x20, 0x80) : Byte × Byte) ∈ slots := by simp [slots]
  have hopens := (openChannels_exclusive twoBytesOpen_found).2.2.2 0xc0 [0x41] (Or.inr (Or.inr rfl))
  refine hopens.conflict 0 _ rfl ⟨(0x20, 0x80), Or.inr ⟨hmem, rfl⟩, by decide, fun h => ?_⟩
  exact absurd h.1 (by decide)

/-- The same disk with the file locked. -/
def lockedFile : State := { twoBytes with cats := fun n => Function.update (twoBytes.cats n) 0x0e0f 0xa4 }

/-- The locked file is open for input. -/
def lockedOpen : State := ((openFile 0x40 [0x41]).run lockedFile).state

/-- The file of `twoBytes` opened for input as many times. -/
def opensOf : ℕ → State
  | 0 => twoBytes
  | n + 1 => ((openFile 0x40 [0x41]).run (opensOf n)).state

/-- The channels that are open then, the last one opened first. -/
def openSlots (n : ℕ) : Set (Byte × Byte) := {p | p ∈ (slots.drop (5 - n))}

lemma opensOf_reachable {n : ℕ} (h : n ≤ 5) : Reachable NothingOpen FindStep (opensOf n, openSlots n) := by
  induction n with
  | zero => exact .start ⟨rfl, Set.ext fun p => by simp [openSlots, slots]⟩
  | succ n ih =>
      have hnext : ∀ p ∈ slots, (openFile 0x40 [0x41]).run (opensOf n) = .ok (handleOf p) (opensOf (n + 1)) →
          openSlots (n + 1) = insert p (openSlots n) →
          Reachable NothingOpen FindStep (opensOf (n + 1), openSlots (n + 1)) := by
        intro p hp hrun hslots
        have hstep := FindStep.opened (G := openSlots n) 0x40 [0x41] _ (Or.inl rfl) hrun
        have hone : {q | q ∈ slots ∧ handleOf q = handleOf p} = {p} := by
          refine Set.ext fun q => ⟨fun hq => handleOf_inj hq.1 hp hq.2, ?_⟩
          rintro rfl
          exact ⟨hp, rfl⟩
        rw [hone, Set.union_comm, ← Set.insert_eq, ← hslots] at hstep
        exact (ih (by omega)).next hstep
      have hinsert : ∀ p l, slots.drop (5 - (n + 1)) = p :: l → slots.drop (5 - n) = l →
          openSlots (n + 1) = insert p (openSlots n) := fun p l h1 h2 => by
        rw [openSlots, openSlots, h1, h2]
        exact Set.ext fun q => List.mem_cons
      have hlt : n < 5 := h
      clear h ih
      interval_cases n
      · exact hnext (0x20, 0x80) (by simp [slots]) rfl (hinsert _ _ rfl rfl)
      · exact hnext (0x40, 0x40) (by simp [slots]) rfl (hinsert _ _ rfl rfl)
      · exact hnext (0x60, 0x20) (by simp [slots]) rfl (hinsert _ _ rfl rfl)
      · exact hnext (0x80, 0x10) (by simp [slots]) rfl (hinsert _ _ rfl rfl)
      · exact hnext (0xa0, 0x08) (by simp [slots]) rfl (hinsert _ _ rfl rfl)

/-- Opening it for output raises File locked, although it is open; and with all five channels open, the
opening of a new name for output raises Disk read only, because the file would be made first. -/
theorem lockedOpen_refuses :
    (∃ s G x t s', Reachable NothingOpen FindStep (s, G) ∧ (locate 0x80 [0x41]).run s = .ok (some x) t ∧
      Conflict t G 0x80 x ∧ (openFile 0x80 [0x41]).run s = .err .fileLocked s') ∧
    ∃ s G s', Reachable NothingOpen FindStep (s, G) ∧ (∀ p ∈ slots, p ∈ G) ∧
      (openFile 0x80 [0x42]).run s = .err .diskReadOnly s' := by
  have hmem : ((0x20, 0x80) : Byte × Byte) ∈ slots := by simp [slots]
  refine ⟨⟨lockedOpen, ∅ ∪ {p | p ∈ slots ∧ handleOf p = 0x11}, 0, _, _, ?_, rfl,
    ⟨(0x20, 0x80), Or.inr ⟨hmem, rfl⟩, by decide, fun h => absurd h.1 (by decide)⟩, rfl⟩,
    opensOf 5, openSlots 5, _, opensOf_reachable le_rfl, fun p hp => hp, rfl⟩
  exact .next (.start (s := (lockedFile, ∅)) ⟨rfl, rfl⟩) (.opened 0x40 [0x41] 0x11 (Or.inl rfl) rfl)

end Udfs.Rom
