import Udfs.Rom.Streams

/-!
# The channel table under OSFIND

What closing a channel, closing all of them, and finding or making a file do to the set of
channels in use.  A channel counts as closed when its bit in `$10c0` is cleared, also when the
writing back of its length or its buffer fails after that.
-/

namespace Udfs.Rom

/-! ## What opening and closing leave alone -/

/-- The names, drives and bits in the channel blocks are the same. -/
def SameNames (s s' : State) : Prop :=
  ∀ y, (s'.chan y).name = (s.chan y).name ∧ (s'.chan y).bit = (s.chan y).bit ∧
    (s'.chan y).drv = (s.chan y).drv

/-- The channels are as they were, but for their buffers. -/
structure Aside (s s' : State) : Prop where
  inUse : s'.inUse = s.inUse
  chanOff : s'.chanOff = s.chanOff
  names : SameNames s s'

namespace Aside

variable {s s' s'' : State}

lemma refl (s : State) : Aside s s := ⟨rfl, rfl, fun _ => ⟨rfl, rfl, rfl⟩⟩

lemma trans (h : Aside s s') (h' : Aside s' s'') : Aside s s'' where
  inUse := h'.inUse.trans h.inUse
  chanOff := h'.chanOff.trans h.chanOff
  names y := ⟨(h'.names y).1.trans (h.names y).1, (h'.names y).2.1.trans (h.names y).2.1,
    (h'.names y).2.2.trans (h.names y).2.2⟩

lemma of_chan (h1 : s'.inUse = s.inUse) (h2 : s'.chanOff = s.chanOff) (h3 : s'.chan = s.chan) :
    Aside s s' :=
  ⟨h1, h2, fun _ => by rw [h3]; exact ⟨rfl, rfl, rfl⟩⟩

lemma of_ejected (h : s.Ejected s') : Aside s s' := by
  obtain rfl | ⟨x, -, rfl⟩ := h
  · exact refl s'
  · exact of_chan rfl rfl rfl

/-- A routine that may be followed by another. -/
lemma bind {α β : Type} {x : Routine α} {f : α → Routine β} {s : State}
    (hx : Prog.wp x (fun _ => Aside s) (fun _ => Aside s) s)
    (hf : ∀ a t, Aside s t → Prog.wp (f a) (fun _ => Aside t) (fun _ => Aside t) t) :
    Prog.wp (x >>= f) (fun _ => Aside s) (fun _ => Aside s) s :=
  Prog.wp_bind_trans (R := Aside) trans hx hf

end Aside

lemma setFileDrv_aside (y : Byte) (s : State) :
    Prog.wp (setFileDrv y) (fun _ => Aside s) (fun _ => Aside s) s :=
  Aside.of_chan rfl rfl rfl

lemma searchCat_aside (s : State) : Prog.wp searchCat (fun _ => Aside s) (fun _ => Aside s) s := by
  refine Prog.wp_mono (searchCat_spec s) ?_ ?_
  · rintro _ s' ⟨-, rfl, -⟩
    exact Aside.of_chan rfl rfl rfl
  · rintro _ s' ⟨rfl, -⟩
    exact Aside.refl s'

lemma saveCat_aside (s : State) : Prog.wp saveCat (fun _ => Aside s) (fun _ => Aside s) s := by
  refine Prog.wp_mono (saveCat_spec s) ?_ ?_
  · rintro _ s' ⟨rfl, -⟩
    exact Aside.of_chan rfl rfl rfl
  · rintro _ s' ⟨hej, -⟩
    have hcycled : Aside s s.cycled := Aside.of_chan rfl rfl rfl
    exact hcycled.trans (Aside.of_ejected hej)

lemma setupSaveToMedia_aside (y : Byte) (s : State) :
    Prog.wp (setupSaveToMedia y) (fun _ => Aside s) (fun _ => Aside s) s := by
  refine Aside.bind (Aside.of_chan rfl rfl rfl) fun _ t _ => ?_
  refine Aside.bind (searchCat_aside t) fun r u _ => ?_
  cases r with
  | none => exact Aside.refl u
  | some x =>
      simp only [Prog.wp_bind, Prog.wp_modify, Prog.wp_get, Prog.wp_ite, Prog.wp_fail, Prog.wp_pure]
      have h : Aside u { u with chanEntry := x } := Aside.of_chan rfl rfl rfl
      exact ⟨fun _ => h, fun _ => ⟨fun _ => h, fun _ => h⟩⟩

lemma lengthToMedia_aside (y : Byte) (s : State) :
    Prog.wp (lengthToMedia y) (fun _ => Aside s) (fun _ => Aside s) s := by
  refine Aside.bind (Aside.refl s) fun s' t _ => ?_
  rw [Prog.wp_when]
  refine ⟨fun _ => ?_, fun _ => Aside.refl t⟩
  exact Aside.bind (Aside.of_chan rfl rfl rfl) fun _ u _ => saveCat_aside u

lemma fileToMediaY_aside (y : Byte) (s : State) :
    Prog.wp (fileToMediaY y) (fun _ => Aside s) (fun _ => Aside s) s := by
  have hdrv : ∀ f : Byte, (f &&& 0xbf) &&& 3 = f &&& 3 := by decide
  simp only [fileToMediaY, Prog.wp_bind, Prog.wp_get, Prog.wp_ite, Prog.wp_pure]
  refine ⟨fun _ => Aside.refl s, fun _ => ?_⟩
  refine Prog.wp_mono (saveMemBlock_spec _ s) ?_ fun _ _ h => Aside.of_ejected h
  rintro _ t rfl
  refine ⟨rfl, rfl, fun z => ?_⟩
  by_cases hz : z = s.chanOff
  · subst hz
    simp only [State.setChan, Function.update_self]
    exact ⟨rfl, rfl, hdrv _⟩
  · simp only [State.setChan, Function.update_of_ne hz]
    exact ⟨rfl, rfl, rfl⟩

/-! ## Closing -/

/-- The table of channels: no other bits in `$10c0`, and in every block in use the bit of its own
offset. -/
structure TableOk (s : State) : Prop where
  bits : s.inUse &&& 7 = 0
  bit : ∀ p ∈ slots, s.Used p → (s.chan p.1).bit = p.2

/-- Some channels have been closed. -/
structure Shrunk (s s' : State) : Prop where
  names : SameNames s s'
  used : ∀ p ∈ slots, s'.Used p → s.Used p
  bits : s'.inUse &&& 7 = 0

lemma Shrunk.tableOk {s s' : State} (h : Shrunk s s') (ht : TableOk s) : TableOk s' where
  bits := h.bits
  bit p hp hu := ((h.names p.1).2.1).trans (ht.bit p hp (h.used p hp hu))

lemma Shrunk.trans {s s' s'' : State} (h : Shrunk s s') (h' : Shrunk s' s'') : Shrunk s s'' where
  names y := ⟨(h'.names y).1.trans (h.names y).1, (h'.names y).2.1.trans (h.names y).2.1,
    (h'.names y).2.2.trans (h.names y).2.2⟩
  used p hp hu := h.used p hp (h'.used p hp hu)
  bits := h'.bits

/-- The offsets of channels and their bits. -/
lemma offset_cases {y : Byte} (hy : y &&& 0xe0 = y) (h0 : y ≠ 0) :
    (∃ p ∈ slots, p.1 = y ∧ handleMask y = p.2) ∨
      (handleMask y &&& 7 = handleMask y ∧ ∀ p ∈ slots, p.1 ≠ y) := by
  have hcases : y = 0x20 ∨ y = 0x40 ∨ y = 0x60 ∨ y = 0x80 ∨ y = 0xa0 ∨ y = 0xc0 ∨ y = 0xe0 := by
    revert y
    decide
  rcases hcases with rfl | rfl | rfl | rfl | rfl | rfl | rfl
  · exact Or.inl ⟨(0x20, 0x80), by simp [slots], rfl, rfl⟩
  · exact Or.inl ⟨(0x40, 0x40), by simp [slots], rfl, rfl⟩
  · exact Or.inl ⟨(0x60, 0x20), by simp [slots], rfl, rfl⟩
  · exact Or.inl ⟨(0x80, 0x10), by simp [slots], rfl, rfl⟩
  · exact Or.inl ⟨(0xa0, 0x08), by simp [slots], rfl, rfl⟩
  · refine Or.inr ⟨by decide, fun p hp => ?_⟩
    simp only [slots, List.mem_cons, List.not_mem_nil, or_false] at hp
    rcases hp with rfl | rfl | rfl | rfl | rfl <;> decide
  · refine Or.inr ⟨by decide, fun p hp => ?_⟩
    simp only [slots, List.mem_cons, List.not_mem_nil, or_false] at hp
    rcases hp with rfl | rfl | rfl | rfl | rfl <;> decide

section Bits

variable (u b c : Byte)

lemma clear_and_self : (~~~ b &&& u) &&& b = 0 := by
  rw [BitVec.and_assoc, BitVec.and_comm u, ← BitVec.and_assoc, BitVec.and_comm (~~~ b),
    BitVec.and_not_self]
  exact BitVec.zero_and

lemma clear_and_of_disjoint (h : b &&& c = 0) : (~~~ b &&& u) &&& c = u &&& c := by
  apply BitVec.eq_of_getLsbD_eq
  intro i hi
  have hbit := congrArg (fun v => v.getLsbD i) h
  simp only [BitVec.getLsbD_and, BitVec.getLsbD_not] at hbit ⊢
  cases hb : b.getLsbD i <;> cases hc : c.getLsbD i <;> simp_all

lemma clear_and_seven (h : u &&& 7 = 0) : (~~~ b &&& u) &&& 7 = 0 := by
  rw [BitVec.and_assoc, h]
  exact BitVec.and_zero

end Bits

/-- An offset that is in use is one of the five, and closing it clears its bit and then looks after
the catalogue. -/
lemma updateCatnfile_used {p : Byte × Byte} (hp : p ∈ slots) {s : State} (hu : s.Used p) :
    Prog.wp (updateCatnfile p.1)
      (fun _ => Aside { s with chanOff := p.1, inUse := ~~~ (s.chan p.1).bit &&& s.inUse })
      (fun _ => Aside { s with chanOff := p.1, inUse := ~~~ (s.chan p.1).bit &&& s.inUse }) s := by
  obtain ⟨-, hmask, hne, hbits⟩ := handleOf_slots hp
  set v : State := { s with chanOff := p.1, inUse := ~~~ (s.chan p.1).bit &&& s.inUse }
  have hrun : (isHandleInUse p.1).run s = .ok true { s with chanOff := p.1 } := by
    rw [isHandleInUse, Prog.run_bind_ok (Prog.run_modify _ s), hmask, if_neg hne,
      Prog.run_bind_ok (Prog.run_get _), Prog.run_pure, hbits]
    exact congrArg (fun b => Outcome.ok b _) (decide_eq_true hu)
  have hwrite : Prog.wp (do
      setFileDrv p.1
      setupSaveToMedia p.1
      lengthToMedia p.1
      fileToMediaY p.1) (fun _ => Aside v) (fun _ => Aside v) v := by
    refine Aside.bind (setFileDrv_aside p.1 v) fun _ w _ => ?_
    refine Aside.bind (setupSaveToMedia_aside p.1 w) fun _ w _ => ?_
    exact Aside.bind (lengthToMedia_aside p.1 w) fun _ w _ => fileToMediaY_aside p.1 w
  rw [updateCatnfile, Prog.wp_bind, Prog.wp_of_ok hrun, if_pos rfl, Prog.wp_bind, Prog.wp_get]
  refine (Prog.wp_bind _ _).2 ?_
  rw [Prog.wp_modify, Prog.wp_when]
  exact ⟨fun _ => hwrite, fun _ => Aside.refl v⟩

/-- Closing one channel. -/
lemma updateCatnfile_spec {y : Byte} (hy : y &&& 0xe0 = y) (h0 : y ≠ 0) (s : State) (ht : TableOk s) :
    Prog.wp (updateCatnfile y)
      (fun _ s' => Shrunk s s' ∧ ∀ p ∈ slots, s'.Used p ↔ s.Used p ∧ p.1 ≠ y)
      (fun _ s' => Shrunk s s' ∧ (∀ p ∈ slots, s'.Used p ↔ s.Used p ∧ p.1 ≠ y) ∧ s'.chanOff = y) s := by
  by_cases huse : s.inUse &&& handleMask y = 0
  · have hrun : (isHandleInUse y).run s = .ok false { s with chanOff := y } := by
      rw [isHandleInUse, Prog.run_bind_ok (Prog.run_modify _ s), hy, if_neg h0,
        Prog.run_bind_ok (Prog.run_get _), Prog.run_pure]
      exact congrArg (fun b => Outcome.ok b _) (decide_eq_false (not_not.2 huse))
    rw [updateCatnfile, Prog.wp_bind, Prog.wp_of_ok hrun, if_neg Bool.false_ne_true, Prog.wp_pure]
    refine ⟨⟨fun _ => ⟨rfl, rfl, rfl⟩, fun _ _ h => h, ht.bits⟩, fun p hp => ?_⟩
    refine ⟨fun hu => ⟨hu, ?_⟩, fun h => h.1⟩
    rintro rfl
    refine hu ?_
    rw [← (handleOf_slots hp).2.2.2]
    exact huse
  · obtain ⟨p, hp, rfl, hmask⟩ : ∃ p ∈ slots, p.1 = y ∧ handleMask y = p.2 := by
      refine (offset_cases hy h0).resolve_right fun h => huse ?_
      rw [← h.1, BitVec.and_comm (handleMask y), ← BitVec.and_assoc, ht.bits]
      exact BitVec.zero_and
    have hu : s.Used p := by
      rw [State.Used, ← hmask]
      exact huse
    have hshrunk : ∀ s', Aside { s with chanOff := p.1, inUse := ~~~ (s.chan p.1).bit &&& s.inUse } s' →
        Shrunk s s' ∧ ∀ q ∈ slots, s'.Used q ↔ s.Used q ∧ q.1 ≠ p.1 := by
      intro s' ha
      have hin : s'.inUse = ~~~ p.2 &&& s.inUse := ha.inUse.trans (by rw [ht.bit p hp hu])
      have hused : ∀ q ∈ slots, s'.Used q ↔ s.Used q ∧ q.1 ≠ p.1 := by
        intro q hq
        rw [State.Used, State.Used, hin]
        by_cases hqp : q = p
        · rw [hqp, clear_and_self]
          exact iff_of_false (fun h => h rfl) fun h => h.2 rfl
        · obtain ⟨hoff, hdis, -⟩ := slots_disjoint hp hq (Ne.symm hqp)
          rw [clear_and_of_disjoint _ _ _ hdis]
          exact ⟨fun h => ⟨h, hoff.symm⟩, fun h => h.1⟩
      refine ⟨⟨ha.names, fun q hq h => ((hused q hq).1 h).1, ?_⟩, hused⟩
      rw [hin]
      exact clear_and_seven _ _ ht.bits
    refine Prog.wp_mono (updateCatnfile_used hp hu) (fun _ s' h => hshrunk s' h) fun _ s' h => ?_
    obtain ⟨h1, h2⟩ := hshrunk s' h
    exact ⟨h1, h2, h.chanOff⟩

lemma slots_offset {p : Byte × Byte} (hp : p ∈ slots) : p.1.toNat % 32 = 0 ∧ p.1.toNat ≤ 160 := by
  simp only [slots, List.mem_cons, List.not_mem_nil, or_false] at hp
  rcases hp with rfl | rfl | rfl | rfl | rfl <;> decide

lemma offset_iff (y : Byte) : y &&& 0xe0 = y ↔ y.toNat % 32 = 0 := by
  revert y
  decide

/-- Closing the channels after an offset, or those up to the one that the error is about. -/
lemma closeFrom_spec (n : ℕ) : ∀ (a : Byte) (s : State), a.toNat % 32 = 0 → 256 ≤ a.toNat + 32 * n →
    TableOk s →
    Prog.wp (closeFrom n a)
      (fun _ s' => Shrunk s s' ∧ ∀ p ∈ slots, s'.Used p ↔ s.Used p ∧ p.1.toNat ≤ a.toNat)
      (fun _ s' => Shrunk s s' ∧ a.toNat < s'.chanOff.toNat ∧ ∀ p ∈ slots, s'.Used p ↔
        s.Used p ∧ (p.1.toNat ≤ a.toNat ∨ s'.chanOff.toNat < p.1.toNat)) s := by
  have h20 : (0x20 : Byte).toNat = 32 := rfl
  induction n with
  | zero =>
      intro a s _ h256 _
      have := byte_lt a
      omega
  | succ n ih =>
      intro a s ha h256 ht
      have hlt := byte_lt a
      rw [closeFrom]
      split_ifs with hlast
      · have hall : ∀ p ∈ slots, p.1.toNat ≤ a.toNat := by
          intro p hp
          have hnat := congrArg BitVec.toNat hlast
          rw [BitVec.toNat_add, h20] at hnat
          have h0 : (0 : Byte).toNat = 0 := rfl
          have := (slots_offset hp).2
          omega
        exact ⟨⟨fun _ => ⟨rfl, rfl, rfl⟩, fun _ _ h => h, ht.bits⟩,
          fun p hp => ⟨fun h => ⟨h, hall p hp⟩, fun h => h.1⟩⟩
      · have hnext : (a + 0x20).toNat = a.toNat + 32 := by
          have hne : (a + 0x20).toNat ≠ 0 := fun h => hlast (toNat_eq_zero.1 h)
          rw [BitVec.toNat_add, h20] at hne ⊢
          omega
        -- the channel at the offset itself is closed, and the others after it
        have hoff : ∀ p ∈ slots, (p.1 ≠ a + 0x20 ↔ p.1.toNat ≤ a.toNat ∨ a.toNat + 32 < p.1.toNat) := by
          intro p hp
          have hmod := (slots_offset hp).1
          rw [Ne, ← BitVec.toNat_inj, hnext]
          omega
        rw [Prog.wp_bind]
        refine Prog.wp_mono (updateCatnfile_spec ((offset_iff _).2 (by omega)) hlast s ht) ?_ ?_
        · rintro _ t ⟨hsh, hused⟩
          refine Prog.wp_mono (ih (a + 0x20) t (by omega) (by omega) (hsh.tableOk ht)) ?_ ?_
          · rintro _ s' ⟨hsh', hused'⟩
            refine ⟨hsh.trans hsh', fun p hp => ?_⟩
            rw [hused' p hp, hused p hp, hoff p hp, hnext, and_assoc]
            refine and_congr_right fun _ => ?_
            omega
          · rintro _ s' ⟨hsh', hafter, hused'⟩
            refine ⟨hsh.trans hsh', by omega, fun p hp => ?_⟩
            rw [hused' p hp, hused p hp, hoff p hp, hnext, and_assoc]
            refine and_congr_right fun _ => ?_
            omega
        · rintro _ s' ⟨hsh, hused, hat⟩
          rw [hat, hnext]
          refine ⟨hsh, by omega, fun p hp => ?_⟩
          rw [hused p hp, hoff p hp]

/-- The channel of a handle. -/
lemma handleOf_iff {p : Byte × Byte} (hp : p ∈ slots) {h : Byte} (h1 : 0x10 ≤ h.toNat)
    (h2 : h.toNat < 0x18) : p.1 ≠ h <<< 5 ↔ handleOf p ≠ h := by
  revert h
  simp only [slots, List.mem_cons, List.not_mem_nil, or_false] at hp
  rcases hp with rfl | rfl | rfl | rfl | rfl <;> decide

lemma handleOf_range {p : Byte × Byte} (hp : p ∈ slots) :
    0x10 ≤ (handleOf p).toNat ∧ (handleOf p).toNat < 0x18 := by
  simp only [slots, List.mem_cons, List.not_mem_nil, or_false] at hp
  rcases hp with rfl | rfl | rfl | rfl | rfl <;> decide

lemma handleOf_inj {p q : Byte × Byte} (hp : p ∈ slots) (hq : q ∈ slots) (h : handleOf p = handleOf q) :
    p = q := by
  have hoff : p.1 = q.1 := by rw [← (handleOf_slots hp).1, ← (handleOf_slots hq).1, h]
  refine Prod.ext hoff ?_
  rw [← (handleOf_slots hp).2.2.2, ← (handleOf_slots hq).2.2.2, hoff]

lemma slots_bits {p : Byte × Byte} (hp : p ∈ slots) : p.2 &&& 7 = 0 := by
  simp only [slots, List.mem_cons, List.not_mem_nil, or_false] at hp
  rcases hp with rfl | rfl | rfl | rfl | rfl <;> rfl

/-- Closing one handle, whether or not what was in memory gets to the disk. -/
lemma closeFiles_spec {h : Byte} (h0 : h ≠ 0) (s : State) (ht : TableOk s) :
    Prog.wp (closeFiles h)
      (fun _ s' => Shrunk s s' ∧ ∀ p ∈ slots, s'.Used p ↔ s.Used p ∧ handleOf p ≠ h)
      (fun _ s' => Shrunk s s' ∧ ∀ p ∈ slots, s'.Used p ↔ s.Used p ∧ handleOf p ≠ h) s := by
  have hsame : Shrunk s s := ⟨fun _ => ⟨rfl, rfl, rfl⟩, fun _ _ h => h, ht.bits⟩
  rw [closeFiles, if_neg h0]
  by_cases hr : 0x10 ≤ h.toNat ∧ h.toNat < 0x18
  · obtain ⟨h1, h2⟩ := hr
    have hoff : handleOffset h = (h <<< 5, false) := if_pos ⟨h1, h2⟩
    have hmask : ∀ h : Byte, (h <<< 5) &&& 0xe0 = h <<< 5 := by decide
    rw [hoff, if_neg Bool.false_ne_true]
    by_cases hy : h <<< 5 = 0
    · rw [hy]
      refine ⟨⟨fun _ => ⟨rfl, rfl, rfl⟩, fun _ _ h => h, ht.bits⟩, fun p hp => ?_⟩
      have hne : handleOf p ≠ h := by
        rw [← handleOf_iff hp h1 h2, hy]
        exact (handleOf_slots hp).2.2.1
      exact ⟨fun hu => ⟨hu, hne⟩, fun hu => hu.1⟩
    · refine Prog.wp_mono (updateCatnfile_spec (hmask h) hy s ht) ?_ ?_
      · rintro _ s' ⟨hsh, hused⟩
        refine ⟨hsh, fun p hp => ?_⟩
        rw [hused p hp, handleOf_iff hp h1 h2]
      · rintro _ s' ⟨hsh, hused, -⟩
        refine ⟨hsh, fun p hp => ?_⟩
        rw [hused p hp, handleOf_iff hp h1 h2]
  · have hoff : handleOffset h = ((8 : Byte) <<< 5, true) := if_neg hr
    rw [hoff, if_pos rfl]
    refine ⟨hsame, fun p hp => ⟨fun hu => ⟨hu, ?_⟩, fun hu => hu.1⟩⟩
    rintro rfl
    exact hr (handleOf_range hp)

/-! ## Opening -/

/-- The channel table is the same. -/
def SameChans (s s' : State) : Prop := s'.inUse = s.inUse ∧ s'.chan = s.chan

namespace SameChans

variable {s s' s'' : State}

lemma trans (h : SameChans s s') (h' : SameChans s' s'') : SameChans s s'' :=
  ⟨h'.1.trans h.1, h'.2.trans h.2⟩

lemma of_noted (h : s.Noted s') : SameChans s s' := by
  obtain ⟨p, rfl⟩ := h
  exact ⟨rfl, rfl⟩

lemma of_ejected (h : s.Ejected s') : SameChans s s' := by
  obtain rfl | ⟨x, -, rfl⟩ := h <;> exact ⟨rfl, rfl⟩

lemma used (h : SameChans s s') (p : Byte × Byte) : s'.Used p ↔ s.Used p := by
  rw [State.Used, State.Used, h.1]

lemma readOnly (h : SameChans s s') (p : Byte × Byte) : s'.ReadOnly p ↔ s.ReadOnly p := by
  rw [State.ReadOnly, State.ReadOnly, h.2]

end SameChans

lemma readFsp_sameChans (chars : List Byte) (s : State) :
    Prog.wp (readFsp chars) (fun _ => SameChans s) (fun _ => SameChans s) s := by
  refine Prog.wp_mono (readFsp_spec chars s) ?_ ?_
  · rintro _ s' ⟨rfl, -⟩
    exact ⟨rfl, rfl⟩
  · rintro _ s' ⟨rfl, -⟩
    exact ⟨rfl, rfl⟩

lemma searchCat_sameChans (s : State) :
    Prog.wp searchCat (fun _ => SameChans s) (fun _ => SameChans s) s := by
  refine Prog.wp_mono (searchCat_spec s) ?_ ?_
  · rintro _ s' ⟨-, rfl, -⟩
    exact ⟨rfl, rfl⟩
  · rintro _ s' ⟨rfl, -⟩
    exact ⟨rfl, rfl⟩

lemma deleteEntry_sameChans (y : ℕ) (s : State) :
    Prog.wp (deleteEntry y) (fun _ => SameChans s) (fun _ => SameChans s) s := by
  refine Prog.wp_bind_trans (R := SameChans) SameChans.trans ?_ fun _ t _ => ?_
  · refine Prog.wp_mono (checkLockedOpen_spec y s) ?_ ?_
    · rintro _ s' ⟨hn, -⟩
      exact .of_noted hn
    · rintro _ s' ⟨hn, -⟩
      exact .of_noted hn
  · exact ⟨rfl, rfl⟩

lemma writeNewEntry_sameChans (f : FileBlock) (len : Num24) (y : ℕ) (c4 c5 : Byte) (s : State) :
    Prog.wp (writeNewEntry f len y c4 c5) (fun _ => SameChans s) (fun _ => SameChans s) s := by
  refine Prog.wp_bind_trans (R := SameChans) SameChans.trans ⟨rfl, rfl⟩ fun _ t _ => ?_
  refine Prog.wp_bind_trans (R := SameChans) SameChans.trans ⟨rfl, rfl⟩ fun _ t _ => ?_
  refine Prog.wp_bind_trans (R := SameChans) SameChans.trans ?_ fun _ t _ => ⟨rfl, rfl⟩
  refine Prog.wp_mono (saveCat_spec t) ?_ ?_
  · rintro _ s' ⟨rfl, -⟩
    exact ⟨rfl, rfl⟩
  · rintro _ s' ⟨hej, -⟩
    have hcycled : SameChans t t.cycled := ⟨rfl, rfl⟩
    exact hcycled.trans (SameChans.of_ejected hej)

lemma addEntry_sameChans (f : FileBlock) (len : Num24) (s : State) :
    Prog.wp (addEntry f len) (fun _ => SameChans s) (fun _ => SameChans s) s := by
  rw [addEntry, Prog.wp_bind, Prog.wp_get]
  split_ifs
  · exact writeNewEntry_sameChans f len 0 0 2 s
  · exact ⟨rfl, rfl⟩
  · rcases findGap s.cat len 32 s.count 0 2 with _ | ⟨y, c4, c5⟩
    · exact ⟨rfl, rfl⟩
    · refine Prog.wp_bind_trans (R := SameChans) SameChans.trans ⟨rfl, rfl⟩ fun _ t _ => ?_
      exact writeNewEntry_sameChans f len y c4 c5 t

/-- Finding a file or making one opens and closes nothing. -/
lemma locate_sameChans (a : Byte) (chars : List Byte) (s : State) :
    Prog.wp (locate a chars) (fun _ => SameChans s) (fun _ => SameChans s) s := by
  refine Prog.wp_bind_trans (R := SameChans) SameChans.trans (readFsp_sameChans chars s) fun _ t _ => ?_
  refine Prog.wp_bind_trans (R := SameChans) SameChans.trans (searchCat_sameChans t) fun r t _ => ?_
  rcases r with _ | x
  · simp only
    split_ifs
    · exact ⟨rfl, rfl⟩
    · refine Prog.wp_bind_trans (R := SameChans) SameChans.trans ?_ fun _ t _ => ⟨rfl, rfl⟩
      refine Prog.wp_bind_trans (R := SameChans) SameChans.trans (readFsp_sameChans chars t) fun _ t _ => ?_
      refine Prog.wp_bind_trans (R := SameChans) SameChans.trans (searchCat_sameChans t) fun r t _ => ?_
      rcases r with _ | y
      · exact addEntry_sameChans _ _ t
      · refine Prog.wp_bind_trans (R := SameChans) SameChans.trans (deleteEntry_sameChans y t) fun _ t _ => ?_
        exact addEntry_sameChans _ _ t
  · exact ⟨rfl, rfl⟩

end Udfs.Rom
