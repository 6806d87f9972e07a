import Udfs.Rom.Search
import Udfs.Rom.Sharing

/-!
# Opening a file

OSFIND looks at all channels that have the file open, going on from each one that permits it, and
takes the last free channel it has noted.  A file may be opened for input while it is open for
input, and not otherwise.
-/

namespace Udfs.Rom

namespace State

/-- The channel is for reading alone. -/
def ReadOnly (s : State) (p : Byte × Byte) : Prop := (s.chan p.1).name 6 &&& 0x80 ≠ 0

instance (s : State) (p : Byte × Byte) : Decidable (s.ReadOnly p) := inferInstanceAs (Decidable (_ ≠ _))

/-- The channels of the list that share the file of the entry at `x` let it be opened with `a`. -/
def Permits (s : State) (a : Byte) (x : ℕ) (l : List (Byte × Byte)) : Prop :=
  ∀ p ∈ l, s.Shares x p → s.ReadOnly p ∧ a &&& 0x80 = 0

/-- A channel is noted if there is a free one. -/
lemma lastFree_cases (s : State) (l : List (Byte × Byte)) : ∀ d,
    ((∀ p ∈ l, s.Used p) ∧ s.lastFree d l = d) ∨ (s.lastFree d l ∈ l ∧ ¬ s.Used (s.lastFree d l)) := by
  induction l with
  | nil => intro d; exact Or.inl ⟨by rintro p ⟨⟩, rfl⟩
  | cons p l ih =>
      intro d
      rw [lastFree]
      rcases ih (if s.Used p then d else p) with ⟨hall, he⟩ | ⟨hmem, hfree⟩
      · rw [he]
        split_ifs with hp
        · refine Or.inl ⟨?_, rfl⟩
          rintro q (_ | ⟨_, hq⟩)
          · exact hp
          · exact hall q hq
        · exact Or.inr ⟨List.mem_cons_self, hp⟩
      · exact Or.inr ⟨List.mem_cons_of_mem p hmem, hfree⟩

end State

/-- From a channel on: the search goes on after each channel that permits the opening. -/
lemma scanSharers_spec (a : Byte) (x : ℕ) (l : List (Byte × Byte)) :
    ∀ (l₁ : List (Byte × Byte)) (n : ℕ) (s : State), slots = l₁ ++ l → l.length ≤ n →
      Prog.wp (do
          let r ← walk x l
          checkSharers a x n r)
        (fun _ s' => s' = s.noting (s.lastFree (s.chanOff, s.freeBit) l) ∧ s.Permits a x l)
        (fun e s' => s.Noted s' ∧ ¬ s.Permits a x l ∧ e = .fileOpen) s := by
  induction l with
  | nil =>
      intro l₁ n s _ _
      have hpure : checkSharers a x n none = pure () := by cases n <;> rfl
      rw [walk, Prog.wp_bind, Prog.wp_pure, hpure]
      exact ⟨rfl, by rintro p ⟨⟩⟩
  | cons p l ih =>
      intro l₁ n s hslots hn
      have hslots' : slots = (l₁ ++ [p]) ++ l := by rw [hslots, List.append_assoc]; rfl
      have hle : l.length < n := hn
      have hcons : ∀ t : State, t.inUse = s.inUse → t.chan = s.chan → t.cat = s.cat →
          t.curDrv = s.curDrv → ((s.Shares x p → s.ReadOnly p ∧ a &&& 0x80 = 0) ∧ t.Permits a x l ↔
            s.Permits a x (p :: l)) := by
        intro t h1 h2 h3 h4
        have hpermits : t.Permits a x l ↔ s.Permits a x l := by
          simp only [State.Permits, State.Shares, State.ReadOnly, State.Used, State.sameFile, h1, h2, h3, h4]
        rw [hpermits, State.Permits, State.Permits, List.forall_mem_cons]
      rw [Prog.wp_bind]
      simp only [walk, Prog.wp_bind, Prog.wp_get, Prog.wp_ite, Prog.wp_modify, Prog.wp_pure]
      refine ⟨fun hfree => ?_, fun hused => ⟨fun hsame => ?_, fun hsame => ?_⟩⟩
      · have hnot : ¬ s.Used p := not_not.2 hfree
        have hiff := hcons (s.noting p) rfl rfl rfl rfl
        refine (Prog.wp_bind _ _).1 (Prog.wp_mono (ih (l₁ ++ [p]) n (s.noting p) hslots' hle.le) ?_ ?_)
        · rintro _ s' ⟨rfl, hper⟩
          refine ⟨?_, hiff.1 ⟨fun h => absurd h.1 hnot, hper⟩⟩
          have hcongr : (s.noting p).lastFree p l = s.lastFree p l :=
            State.lastFree_congr (show (s.noting p).inUse = s.inUse from rfl) l p
          rw [State.lastFree, if_neg hnot]
          exact congrArg s.noting hcongr
        · rintro e s' ⟨hnoted, hper, rfl⟩
          exact ⟨State.Noted.trans ⟨p, rfl⟩ hnoted, fun h => hper (hiff.2 h).2, rfl⟩
      · have hshares : s.Shares x p := ⟨hused, hsame⟩
        have hiff := hcons s rfl rfl rfl rfl
        obtain ⟨n, rfl⟩ : ∃ m, n = m + 1 := ⟨n - 1, by omega⟩
        obtain ⟨y, b⟩ := p
        rw [checkSharers, findNextChannel_eq x hslots]
        simp only [Prog.wp_bind, Prog.wp_get, Prog.wp_ite, Prog.wp_fail]
        refine ⟨fun hro => ⟨State.Noted.refl s, fun h => (hiff.2 h).1 hshares |>.1 hro, trivial⟩,
          fun hro => ⟨fun hout => ⟨State.Noted.refl s, fun h => hout ((hiff.2 h).1 hshares).2, trivial⟩,
            fun hout => ?_⟩⟩
        refine (Prog.wp_bind _ _).1 (Prog.wp_mono (ih (l₁ ++ [(y, b)]) n s hslots' (by omega)) ?_ ?_)
        · rintro _ s' ⟨rfl, hper⟩
          refine ⟨?_, hiff.1 ⟨fun _ => ⟨hro, not_not.1 hout⟩, hper⟩⟩
          rw [State.lastFree, if_pos (show s.Used (y, b) from hused)]
        · rintro e s' ⟨hnoted, hper, rfl⟩
          exact ⟨hnoted, fun h => hper (hiff.2 h).2, rfl⟩
      · have hiff := hcons s rfl rfl rfl rfl
        refine (Prog.wp_bind _ _).1 (Prog.wp_mono (ih (l₁ ++ [p]) n s hslots' hle.le) ?_ ?_)
        · rintro _ s' ⟨rfl, hper⟩
          refine ⟨?_, hiff.1 ⟨fun h => absurd h.2 hsame, hper⟩⟩
          rw [State.lastFree, if_pos (show s.Used p from hused)]
        · rintro e s' ⟨hnoted, hper, rfl⟩
          exact ⟨hnoted, fun h => hper (hiff.2 h).2, rfl⟩

/-! ## Opening an entry -/

namespace State

/-- The state when the entry at `x` has been opened with `a` on a channel. -/
def opened (s : State) (a : Byte) (x : ℕ) (p : Byte × Byte) : State :=
  { (s.noting p).setChan p.1 (newChan a s.curDrv p.1 p.2 (entryName s.cat x) (entryInfo s.cat x))
    with inUse := p.2 ||| s.inUse }

end State

/-- The channels are looked at, and the last free one taken. -/
lemma openShared_spec (a : Byte) (x : ℕ) (s : State) :
    Prog.wp (do
        let r ← findChannel x
        checkSharers a x 5 r
        let s ← Prog.get
        if s.chanOff = 0 then Prog.fail .tooManyFilesOpen else openChannel a x)
      (fun h s' => s.Permits a x slots ∧
        ∃ p ∈ slots, ¬ s.Used p ∧ h = handleOf p ∧ s' = s.opened a x p)
      (fun e s' => s.Noted s' ∧ ((¬ s.Permits a x slots ∧ e = .fileOpen) ∨
        (s.Permits a x slots ∧ (∀ p ∈ slots, s.Used p) ∧ e = .tooManyFilesOpen))) s := by
  have hscan := scanSharers_spec a x slots [] 5 { s with chanOff := 0 } rfl le_rfl
  simp only [findChannel, Prog.wp_bind, Prog.wp_modify, scanChannels_eq] at hscan ⊢
  refine Prog.wp_mono hscan ?_ ?_
  · intro r t h
    refine Prog.wp_mono h ?_ ?_
    · rintro _ s' ⟨rfl, hper⟩
      simp only [Prog.wp_get, Prog.wp_ite, Prog.wp_fail]
      have hlast : ({ s with chanOff := 0 } : State).lastFree (0, s.freeBit) slots
          = s.lastFree (0, s.freeBit) slots := State.lastFree_congr rfl slots _
      rw [hlast]
      rcases s.lastFree_cases slots (0, s.freeBit) with ⟨hall, he⟩ | ⟨hmem, hfree⟩
      · rw [he]
        exact ⟨fun _ => ⟨⟨_, rfl⟩, Or.inr ⟨hper, hall, trivial⟩⟩, fun h => absurd rfl h⟩
      · generalize s.lastFree (0, s.freeBit) slots = p at hmem hfree
        refine ⟨fun h => absurd h (handleOf_slots hmem).2.2.1, fun _ => ?_⟩
        exact ⟨hper, p, hmem, hfree, rfl, rfl⟩
    · rintro e s' ⟨hn, hper, rfl⟩
      exact ⟨State.Noted.trans ⟨(0, s.freeBit), rfl⟩ hn, Or.inl ⟨hper, rfl⟩⟩
  · rintro e s' ⟨hn, hper, rfl⟩
    exact ⟨State.Noted.trans ⟨(0, s.freeBit), rfl⟩ hn, Or.inl ⟨hper, rfl⟩⟩

namespace State

/-- The opening is for output, and the file is locked. -/
def LockedFor (s : State) (a : Byte) (x : ℕ) : Prop := a &&& 0x40 = 0 ∧ s.IsLocked x

instance (s : State) (a : Byte) (x : ℕ) : Decidable (s.LockedFor a x) :=
  inferInstanceAs (Decidable (_ = _ ∧ 128 ≤ (s.cat (0x0e0f + x)).toNat))

end State

/-- The entry at `x` is opened on a free channel, or the error tells why not; the channels are not
looked at when the file is locked. -/
lemma openFound_spec (a : Byte) (x : ℕ) (s : State) :
    Prog.wp (openFound a x)
      (fun h s' => ¬ s.LockedFor a x ∧ s.Permits a x slots ∧
        ∃ p ∈ slots, ¬ s.Used p ∧ h = handleOf p ∧ s' = s.opened a x p)
      (fun e s' => s.Noted s' ∧ (s.LockedFor a x ∧ e = .fileLocked ∨ ¬ s.LockedFor a x ∧
        ((¬ s.Permits a x slots ∧ e = .fileOpen) ∨
          (s.Permits a x slots ∧ (∀ p ∈ slots, s.Used p) ∧ e = .tooManyFilesOpen)))) s := by
  rw [openFound, Prog.wp_bind, Prog.wp_when]
  refine ⟨fun hin => ?_, fun hin => ?_⟩
  · refine Prog.wp_mono (checkLocked_spec x s) ?_ ?_
    · rintro _ s' ⟨rfl, hlock⟩
      have hno : ¬ s'.LockedFor a x := fun h => hlock h.2
      refine Prog.wp_mono (openShared_spec a x s') (fun h t ho => ⟨hno, ho⟩) ?_
      rintro e t ⟨hn, he⟩
      exact ⟨hn, Or.inr ⟨hno, he⟩⟩
    · rintro e s' ⟨rfl, hlock, rfl⟩
      exact ⟨State.Noted.refl s', Or.inl ⟨⟨hin, hlock⟩, rfl⟩⟩
  · have hno : ¬ s.LockedFor a x := fun h => hin h.1
    refine Prog.wp_mono (openShared_spec a x s) (fun h t ho => ⟨hno, ho⟩) ?_
    rintro e t ⟨hn, he⟩
    exact ⟨hn, Or.inr ⟨hno, he⟩⟩

end Udfs.Rom
