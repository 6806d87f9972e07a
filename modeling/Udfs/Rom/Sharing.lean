import Udfs.Rom.Channels
import Udfs.Rom.Entries

/-!
# The channels that share a file

`$8f9e` goes through the five channels from the offset `$a0` with the bit `$08` down to the
offset `$20` with the bit `$80`.  The search reads the channel table and notes free channels
on its way, and changes nothing else; it stops at the first channel in use that has the same
drive, directory and name as an entry.
-/

namespace Udfs.Rom

/-- The offsets and bits of the channels, in the order in which they are looked at. -/
def slots : List (Byte × Byte) :=
  [(0xa0, 0x08), (0x80, 0x10), (0x60, 0x20), (0x40, 0x40), (0x20, 0x80)]

/-- The handle of a channel. -/
def handleOf (p : Byte × Byte) : Byte := (p.1 >>> 5) ||| 0x10

lemma handleOf_slots {p : Byte × Byte} (hp : p ∈ slots) : (handleOffset (handleOf p)).1 = p.1 ∧
    p.1 &&& 0xe0 = p.1 ∧ p.1 ≠ 0 ∧ handleMask p.1 = p.2 := by
  simp only [slots, List.mem_cons, List.not_mem_nil, or_false] at hp
  rcases hp with rfl | rfl | rfl | rfl | rfl <;> exact ⟨rfl, rfl, by decide, rfl⟩

/-- `$8fab` over a list of channels. -/
def walk (x : ℕ) : List (Byte × Byte) → Routine (Option (Byte × Byte))
  | [] => pure none
  | p :: l => do
      let s ← Prog.get
      if s.inUse &&& p.2 = 0 then do
        Prog.modify fun s => { s with chanOff := p.1, freeBit := p.2 }
        walk x l
      else if s.sameFile x p.1 then pure (some p)
      else walk x l

/-- Subtracting from the offset and shifting the bit goes through the list. -/
lemma scanChannels_eq (x : ℕ) : scanChannels x 5 0xa0 0x08 = walk x slots := rfl

lemma findNextChannel_eq (x : ℕ) {p : Byte × Byte} {l₁ l₂ : List (Byte × Byte)}
    (h : slots = l₁ ++ p :: l₂) : findNextChannel x p.1 p.2 = walk x l₂ := by
  rw [slots] at h
  rcases l₁ with _ | ⟨q₁, _ | ⟨q₂, _ | ⟨q₃, _ | ⟨q₄, _ | ⟨q₅, l₁⟩⟩⟩⟩⟩ <;>
    simp only [List.nil_append, List.cons_append, List.cons.injEq] at h
  · obtain ⟨rfl, rfl⟩ := h; rfl
  · obtain ⟨-, rfl, rfl⟩ := h; rfl
  · obtain ⟨-, -, rfl, rfl⟩ := h; rfl
  · obtain ⟨-, -, -, rfl, rfl⟩ := h; rfl
  · obtain ⟨-, -, -, -, rfl, rfl⟩ := h; rfl
  · obtain ⟨-, -, -, -, -, h⟩ := h
    simp at h

namespace State

/-- The channel is in use. -/
def Used (s : State) (p : Byte × Byte) : Prop := s.inUse &&& p.2 ≠ 0

instance (s : State) (p : Byte × Byte) : Decidable (s.Used p) := inferInstanceAs (Decidable (_ ≠ _))

/-- The channel is in use for the file of the entry at `x`. -/
def Shares (s : State) (x : ℕ) (p : Byte × Byte) : Prop := s.Used p ∧ s.sameFile x p.1 = true

instance (s : State) (x : ℕ) (p : Byte × Byte) : Decidable (s.Shares x p) :=
  inferInstanceAs (Decidable (_ ∧ _))

/-- The last free channel of a list, or what was noted before. -/
def lastFree (s : State) : Byte × Byte → List (Byte × Byte) → Byte × Byte
  | d, [] => d
  | d, p :: l => lastFree s (if s.Used p then d else p) l

/-- The state with a free channel noted. -/
def noting (s : State) (p : Byte × Byte) : State := { s with chanOff := p.1, freeBit := p.2 }

/-- The same state but for the free channel noted. -/
def Noted (s s' : State) : Prop := ∃ p, s' = s.noting p

lemma Noted.refl (s : State) : s.Noted s := ⟨(s.chanOff, s.freeBit), rfl⟩

lemma lastFree_congr {s t : State} (h : t.inUse = s.inUse) (l : List (Byte × Byte)) :
    ∀ d, t.lastFree d l = s.lastFree d l := by
  induction l with
  | nil => intro d; rfl
  | cons p l ih =>
      intro d
      have hused : t.Used p ↔ s.Used p := by rw [Used, Used, h]
      simp only [lastFree, hused, ih]

lemma Noted.trans {s t u : State} (h : s.Noted t) (h' : t.Noted u) : s.Noted u := by
  obtain ⟨p, rfl⟩ := h
  obtain ⟨q, rfl⟩ := h'
  exact ⟨q, rfl⟩

end State

/-- The search stops at the first channel that shares the file; if there is none it has noted the
last free one. -/
lemma walk_spec (x : ℕ) (l : List (Byte × Byte)) : ∀ s : State,
    Prog.wp (walk x l)
      (fun r s' => s.Noted s' ∧ r = l.find? (fun p => decide (s.Shares x p)) ∧
        (r = none → s' = s.noting (s.lastFree (s.chanOff, s.freeBit) l)))
      (fun _ _ => False) s := by
  induction l with
  | nil => intro s; exact ⟨State.Noted.refl s, rfl, fun _ => rfl⟩
  | cons p l ih =>
      intro s
      simp only [walk, Prog.wp_bind, Prog.wp_get, Prog.wp_ite, Prog.wp_modify, Prog.wp_pure]
      refine ⟨fun hfree => ?_, fun hused => ⟨fun hsame => ?_, fun hsame => ?_⟩⟩
      · have hnot : ¬ s.Used p := not_not.2 hfree
        refine Prog.wp_mono (ih (s.noting p)) ?_ fun _ _ he => he
        rintro r s' ⟨hn, hr, hlast⟩
        refine ⟨State.Noted.trans ⟨p, rfl⟩ hn, ?_, fun hnone => ?_⟩
        · simp only [hr, List.find?_cons, State.Shares, hnot, false_and, decide_false]
          rfl
        · have hcongr : (s.noting p).lastFree p l = s.lastFree p l :=
            State.lastFree_congr (show (s.noting p).inUse = s.inUse from rfl) l p
          rw [State.lastFree, if_neg hnot, hlast hnone]
          exact congrArg s.noting hcongr
      · have hshares : s.Shares x p := ⟨hused, hsame⟩
        refine ⟨State.Noted.refl s, ?_, by rintro ⟨⟩⟩
        simp only [List.find?_cons, hshares, decide_true]
      · refine Prog.wp_mono (ih s) ?_ fun _ _ he => he
        rintro r s' ⟨hn, hr, hlast⟩
        refine ⟨hn, ?_, fun hnone => ?_⟩
        · have hnot : ¬ s.Shares x p := fun h => hsame h.2
          simp only [hr, List.find?_cons, hnot, decide_false]
        · have hp : s.Used p := hused
          rw [State.lastFree, if_pos hp, hlast hnone]

lemma findChannel_spec (x : ℕ) (s : State) :
    Prog.wp (findChannel x)
      (fun r s' => s.Noted s' ∧ r = slots.find? (fun p => decide (s.Shares x p)) ∧
        (r = none → s' = s.noting (s.lastFree (0, s.freeBit) slots)))
      (fun _ _ => False) s := by
  simp only [findChannel, Prog.wp_bind, Prog.wp_modify, scanChannels_eq]
  refine Prog.wp_mono (walk_spec x slots { s with chanOff := 0 }) ?_ fun _ _ he => he
  rintro r s' ⟨hn, hr, hlast⟩
  exact ⟨State.Noted.trans ⟨(0, s.freeBit), rfl⟩ hn, hr, hlast⟩

namespace State

/-- Some channel has the file of the entry at `x` open. -/
def IsOpen (s : State) (x : ℕ) : Prop := ∃ p ∈ slots, s.Shares x p

instance (s : State) (x : ℕ) : Decidable (s.IsOpen x) := inferInstanceAs (Decidable (∃ _ ∈ _, _))

/-- The file of the entry at `x` is locked. -/
def IsLocked (s : State) (x : ℕ) : Prop := 128 ≤ (s.cat (0x0e0f + x)).toNat

end State

lemma checkOpen_spec (x : ℕ) (s : State) :
    Prog.wp (checkOpen x) (fun _ s' => s.Noted s' ∧ ¬ s.IsOpen x)
      (fun e s' => s.Noted s' ∧ s.IsOpen x ∧ e = .fileOpen) s := by
  simp only [checkOpen, Prog.wp_bind, Prog.wp_ite, Prog.wp_pure, Prog.wp_fail]
  refine Prog.wp_mono (findChannel_spec x s) ?_ fun _ _ he => he.elim
  rintro r s' ⟨hn, hr, -⟩
  refine ⟨fun hnone => ⟨hn, ?_⟩, fun hsome => ⟨hn, ?_, trivial⟩⟩
  · rw [hnone, eq_comm, List.find?_eq_none] at hr
    rintro ⟨p, hp, hs⟩
    exact hr p hp (decide_eq_true hs)
  · obtain ⟨p, hp⟩ := Option.ne_none_iff_exists'.1 hsome
    rw [hp, eq_comm] at hr
    have hs := List.find?_some hr
    exact ⟨p, List.mem_of_find?_eq_some hr, of_decide_eq_true hs⟩

lemma checkLocked_spec (x : ℕ) (s : State) :
    Prog.wp (checkLocked x) (fun _ s' => s' = s ∧ ¬ s.IsLocked x)
      (fun e s' => s' = s ∧ s.IsLocked x ∧ e = .fileLocked) s := by
  simp only [checkLocked, Prog.wp_bind, Prog.wp_get, Prog.wp_ite, Prog.wp_fail, Prog.wp_pure]
  exact ⟨fun h => ⟨trivial, h, trivial⟩, fun h => ⟨trivial, h⟩⟩

lemma checkLockedOpen_spec (x : ℕ) (s : State) :
    Prog.wp (checkLockedOpen x) (fun _ s' => s.Noted s' ∧ ¬ s.IsLocked x ∧ ¬ s.IsOpen x)
      (fun e s' => s.Noted s' ∧
        (s.IsLocked x ∧ e = .fileLocked ∨ ¬ s.IsLocked x ∧ s.IsOpen x ∧ e = .fileOpen)) s := by
  simp only [checkLockedOpen, Prog.wp_bind]
  refine Prog.wp_mono (checkLocked_spec x s) ?_ ?_
  · rintro _ s' ⟨rfl, hlock⟩
    refine Prog.wp_mono (checkOpen_spec x s') ?_ ?_
    · rintro _ t ⟨hn, hopen⟩
      exact ⟨hn, hlock, hopen⟩
    · rintro e t ⟨hn, hopen, rfl⟩
      exact ⟨hn, Or.inr ⟨hlock, hopen, rfl⟩⟩
  · rintro e s' ⟨rfl, hlock, rfl⟩
    exact ⟨State.Noted.refl s', Or.inl ⟨hlock, rfl⟩⟩

/-- A deletion takes the entry out, unless its file is locked or open. -/
lemma deleteEntry_spec (s : State) {n i : ℕ} (hcount : s.count = 8 * n) :
    Prog.wp (deleteEntry (8 * i))
      (fun _ s' => ∃ p, s' = { s.noting p with cat := deletedCat s.cat n i })
      (fun e s' => s.Noted s' ∧ (s.IsLocked (8 * i) ∧ e = .fileLocked ∨
        ¬ s.IsLocked (8 * i) ∧ s.IsOpen (8 * i) ∧ e = .fileOpen)) s := by
  simp only [deleteEntry, Prog.wp_bind, Prog.wp_modify]
  refine Prog.wp_mono (checkLockedOpen_spec (8 * i) s) ?_ fun _ _ he => he
  rintro _ s' ⟨⟨p, rfl⟩, -⟩
  have hc : (s.noting p).count = 8 * n := hcount
  rw [hc]
  exact ⟨p, rfl⟩

end Udfs.Rom
