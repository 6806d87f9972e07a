import Udfs.Rom.Streams
import Udfs.Rom.Writing

/-!
# PTR beyond the end of a file

OSARGS with a place beyond the end moves PTR to the end and puts zeros there one by one.  A buffer
that counts as valid for the page that PTR came from still counts as valid then, and takes the
zeros up to the end of a page.
-/

namespace Udfs.Rom

section Zeros

variable {y : Byte} {n : Num24}

lemma putZeros_done {s : State} (he : (s.chan y).ext.val = n.val) (m : ℕ) :
    (putZeros y n m).run s = .ok () s := by
  cases m with
  | zero => rfl
  | succ m =>
      have hcover : extCovers (s.chan y).ext n = true := extCovers_iff.2 he.ge
      rw [putZeros, Prog.run_bind_ok (Prog.run_get s), if_pos hcover]
      rfl

lemma putZeros_step {s s' : State} (hlt : (s.chan y).ext.val < n.val) (m : ℕ)
    (hrun : (bputAt y 0).run s = .ok () s') :
    (putZeros y n (m + 1)).run s = (putZeros y n m).run s' := by
  have hcover : ¬ extCovers (s.chan y).ext n = true := fun h => absurd (extCovers_iff.1 h) (by omega)
  rw [putZeros, Prog.run_bind_ok (Prog.run_get s), if_neg hcover, Prog.run_bind_ok hrun]

/-- The bytes below `e` are as before, and those from `e` up to `n` are zero. -/
def ZeroedFrom (s s' : State) (y : Byte) (e n : ℕ) : Prop :=
  (∀ i < e, s'.shown (s'.chan y) i = s.shown (s.chan y) i) ∧
    ∀ i, e ≤ i → i < n → s'.shown (s'.chan y) i = 0

/-- A buffer that is for the page in which the file ends takes the zeros where they belong. -/
lemma putZeros_run (m : ℕ) : ∀ s : State, AtEnd s y n.val → (s.chan y).ext.val ≤ n.val →
    n.val < (s.chan y).ext.val + m →
    ((s.chan y).Valid → (s.chan y).sec = (s.chan y).start + (s.chan y).ext.val / 256) →
    ∃ s', (putZeros y n m).run s = .ok () s' ∧ AtEnd s' y n.val ∧ (s'.chan y).ext.val = n.val ∧
      ZeroedFrom s s' y (s.chan y).ext.val n.val := by
  induction m with
  | zero => intro s _ h1 h2 _; omega
  | succ m ih =>
      intro s h hle hm hpage
      by_cases he : (s.chan y).ext.val = n.val
      · refine ⟨s, putZeros_done he _, h, he, fun i _ => rfl, fun i h1 h2 => by omega⟩
      · have hlt : (s.chan y).ext.val < n.val := by omega
        have hin := h.room.inside
        -- either way the zero goes to the end of the file
        obtain ⟨t, hrun, hput, hbelow, hat⟩ : ∃ t, (bputAt y 0).run s = .ok () t ∧
            PutOn s t y n.val ((s.chan y).ext.val / 256) ∧
            (∀ i < (s.chan y).ext.val, t.shown (t.chan y) i = s.shown (s.chan y) i) ∧
            t.shown (t.chan y) (s.chan y).ext.val = 0 := by
          by_cases hv : (s.chan y).Valid
          · have hsec := hpage hv
            obtain ⟨t, hrun, hput, hshown⟩ := bputAt_valid h hlt hv hsec (by omega) 0
            refine ⟨t, hrun, hput, fun i hi => ?_, ?_⟩
            · have hne : ¬ (i / 256 = (s.chan y).ext.val / 256 ∧ i % 256 = (s.chan y).ext.val % 256) := by
                omega
              rw [hshown, if_neg hne]
            · rw [hshown, if_pos ⟨rfl, rfl⟩]
          · exact bputAt_invalid h hlt hv 0
        obtain ⟨s', hrest, hend, hext, hkeep, hzero⟩ :=
          ih t hput.atEnd (by rw [hput.ext]; omega) (by rw [hput.ext]; omega) fun hv => by
            rw [hput.sec, hput.start, hput.ext, hput.valid.1 hv]
        rw [hput.ext] at hkeep hzero
        refine ⟨s', (putZeros_step hlt m hrun).trans hrest, hend, hext, fun i hi => ?_, fun i h1 h2 => ?_⟩
        · rw [hkeep i (by omega), hbelow i hi]
        · rcases Nat.eq_or_lt_of_le h1 with rfl | h1
          · rw [hkeep _ (Nat.lt_succ_self _), hat]
          · exact hzero i h1 h2

/-- A place that zeros put into a buffer for page `k` go to, from the end `e` on and up to the end of
a page or `n`. -/
def Strays (k e n i : ℕ) : Prop :=
  i / 256 = k ∧ e % 256 ≤ i % 256 ∧ i % 256 < e % 256 + (n - e)

instance (k e n i : ℕ) : Decidable (Strays k e n i) := inferInstanceAs (Decidable (_ ∧ _ ∧ _))

/-- A buffer for an earlier page takes the zeros up to the end of a page. -/
lemma putZeros_stray (k m : ℕ) : ∀ s : State, AtEnd s y n.val → (s.chan y).ext.val ≤ n.val →
    n.val < (s.chan y).ext.val + m → (s.chan y).Valid → (s.chan y).sec = (s.chan y).start + k →
    k < (s.chan y).ext.val / 256 →
    ∃ s', (putZeros y n m).run s = .ok () s' ∧ AtEnd s' y n.val ∧ (s'.chan y).ext.val = n.val ∧
      ∀ i < n.val, s'.shown (s'.chan y) i =
        if (s.chan y).ext.val / 256 < i / 256 ∨ Strays k (s.chan y).ext.val n.val i then 0
        else s.shown (s.chan y) i := by
  induction m with
  | zero => intro s _ h1 h2; omega
  | succ m ih =>
      intro s h hle hm hv hsec hk
      have hin := h.room.inside
      by_cases he : (s.chan y).ext.val = n.val
      · refine ⟨s, putZeros_done he _, h, he, fun i hi => ?_⟩
        have hno : ¬ ((s.chan y).ext.val / 256 < i / 256 ∨ Strays k (s.chan y).ext.val n.val i) := by
          rw [Strays]
          omega
        rw [if_neg hno]
      · have hlt : (s.chan y).ext.val < n.val := by omega
        obtain ⟨t, hrun, hput, hshown⟩ := bputAt_valid h hlt hv hsec (by omega) 0
        by_cases hpage : ((s.chan y).ext.val + 1) / 256 = (s.chan y).ext.val / 256
        · obtain ⟨s', hrest, hend, hext, hall⟩ := ih t hput.atEnd (by rw [hput.ext]; omega)
            (by rw [hput.ext]; omega) (hput.valid.2 hpage) (by rw [hput.sec, hput.start])
            (by rw [hput.ext, hpage]; exact hk)
          refine ⟨s', (putZeros_step hlt m hrun).trans hrest, hend, hext, fun i hi => ?_⟩
          have hiff : (((s.chan y).ext.val + 1) / 256 < i / 256 ∨ Strays k ((s.chan y).ext.val + 1) n.val i) ∨
                (i / 256 = k ∧ i % 256 = (s.chan y).ext.val % 256) ↔
              (s.chan y).ext.val / 256 < i / 256 ∨ Strays k (s.chan y).ext.val n.val i := by
            simp only [Strays]
            omega
          rw [hall i hi, hshown, hput.ext, ← ite_or]
          exact if_congr hiff rfl rfl
        · -- the page is full; the next zero goes to the end of the file
          obtain ⟨s', hrest, hend, hext, hkeep, hzero⟩ := putZeros_run m t hput.atEnd
            (by rw [hput.ext]; omega) (by rw [hput.ext]; omega) fun hv' => absurd (hput.valid.1 hv') hpage
          rw [hput.ext] at hkeep hzero
          refine ⟨s', (putZeros_step hlt m hrun).trans hrest, hend, hext, fun i hi => ?_⟩
          by_cases hi' : i < (s.chan y).ext.val + 1
          · have hiff : i / 256 = k ∧ i % 256 = (s.chan y).ext.val % 256 ↔
                (s.chan y).ext.val / 256 < i / 256 ∨ Strays k (s.chan y).ext.val n.val i := by
              simp only [Strays]
              omega
            rw [hkeep i hi', hshown]
            exact if_congr hiff rfl rfl
          · have hafter : (s.chan y).ext.val / 256 < i / 256 := by omega
            rw [hzero i (by omega) hi, if_pos (Or.inl hafter)]

end Zeros

/-! ## Reading back -/

/-- The byte at a place of a file, as OSARGS and OSBGET deliver it. -/
def readAt (h : Byte) (k : Num24) : Routine (Byte × Bool) := do
  argsWritePtr h k
  bgetv h

/-- The byte at `k`, read through the channel, is `v`. -/
def ReadsAs (s : State) (p : Byte × Byte) (k : Num24) (v : Byte) : Prop :=
  ∃ s', (readAt (handleOf p) k).run s = .ok (v, false) s'

lemma readsAs_iff {s : State} {p : Byte × Byte} (hp : p ∈ slots) (hu : s.Used p)
    (hc : Backed s (s.chan p.1)) {k : Num24} (hk : k.val < (s.chan p.1).ext.val) (v : Byte) :
    ReadsAs s p k v ↔ s.shown (s.chan p.1) k.val = v := by
  obtain ⟨t, hrun, hkeep, hct, hstream⟩ := argsWritePtr_reads hp hu hc hk.le
  have hut : t.Used p := by
    obtain ⟨m, d, c, f, x, o, rfl⟩ := hkeep.frame
    exact hu
  obtain ⟨u, hrun', -⟩ := bgetv_reads hp hut hct
  have hlt : ((s.stream p.1).seek k.val).ptr < ((s.stream p.1).seek k.val).length := hk
  rw [hstream, Stream.get, if_pos hlt] at hrun'
  have hread : (readAt (handleOf p) k).run s = .ok (s.shown (s.chan p.1) k.val, false) u := by
    rw [readAt, Prog.run_bind_ok hrun]
    exact hrun'
  rw [ReadsAs, hread]
  constructor
  · rintro ⟨s', hs'⟩
    exact congrArg Prod.fst (Outcome.ok.inj hs').1
  · rintro rfl
    exact ⟨u, rfl⟩

/-! ## The call -/

/-- A file that is open for writing, on a disk that may be written.  A buffer that counts as valid is
for one of its sectors. -/
structure ForUpdate (s : State) (p : Byte × Byte) : Prop where
  slot : p ∈ slots
  used : s.Used p
  backed : Backed s (s.chan p.1)
  valid : (s.chan p.1).Valid → (s.chan p.1).start ≤ (s.chan p.1).sec ∧
    (s.chan p.1).sec ≤ (s.chan p.1).start + (s.chan p.1).ext.val / 256
  canWrite : s.CanWrite (s.chan p.1).drv
  unlocked : ((s.chan p.1).name 6).toNat < 128 ∧ ((s.chan p.1).name 7).toNat < 128

/-- Setting PTR to `n` makes the file `n` bytes long, with zeros from the old end on and everything
below it as before. -/
def ExtendsByZeros (s : State) (p : Byte × Byte) (n : Num24) : Prop :=
  ∃ s', (argsWritePtr (handleOf p) n).run s = .ok () s' ∧ (s'.chan p.1).ext = n ∧
    (∀ k v, k.val < (s.chan p.1).ext.val → ReadsAs s p k v → ReadsAs s' p k v) ∧
    ∀ k, (s.chan p.1).ext.val ≤ k.val → k.val < n.val → ReadsAs s' p k 0

/-- The buffer does not count as valid, or is for the page in which the file ends, or what the zeros
are put on and what they are not put on is zero already. -/
def ZerosLand (s : State) (c : Chan) (n : ℕ) : Prop :=
  ¬ c.Valid ∨ c.sec = c.start + c.ext.val / 256 ∨
    ∀ j < 256, c.ext.val % 256 ≤ j → j < c.ext.val % 256 + (n - c.ext.val) →
      s.shown c (256 * (c.sec - c.start) + j) = 0 ∧ s.shown c (256 * (c.ext.val / 256) + j) = 0

lemma exists_num24 {i : ℕ} (h : i < 16777216) : ∃ k : Num24, k.val = i := by
  refine ⟨⟨BitVec.ofNat 8 i, BitVec.ofNat 8 (i / 256), BitVec.ofNat 8 (i / 65536)⟩, ?_⟩
  simp only [Num24.val, BitVec.toNat_ofNat]
  omega

/-- Reading back is looking at what the channel shows. -/
lemma extendsByZeros_iff {s s' : State} {p : Byte × Byte} {n : Num24} (h : ForUpdate s p)
    (hn : (s.chan p.1).ext.val < n.val) (hrun : (argsWritePtr (handleOf p) n).run s = .ok () s')
    (hu : s'.Used p) (hc : Backed s' (s'.chan p.1)) (hext : (s'.chan p.1).ext = n) :
    ExtendsByZeros s p n ↔ (∀ i < (s.chan p.1).ext.val,
        s'.shown (s'.chan p.1) i = s.shown (s.chan p.1) i) ∧
      ∀ i, (s.chan p.1).ext.val ≤ i → i < n.val → s'.shown (s'.chan p.1) i = 0 := by
  have hbound := n.val_lt
  have hread : ∀ k : Num24, k.val < n.val → ∀ v,
      (ReadsAs s' p k v ↔ s'.shown (s'.chan p.1) k.val = v) :=
    fun k hk => readsAs_iff h.slot hu hc (hext ▸ hk)
  have hread' : ∀ k : Num24, k.val < (s.chan p.1).ext.val → ∀ v,
      (ReadsAs s p k v ↔ s.shown (s.chan p.1) k.val = v) :=
    fun k hk => readsAs_iff h.slot h.used h.backed hk
  constructor
  · rintro ⟨t, hrun', -, hbelow, hzero⟩
    obtain rfl : s' = t := (Outcome.ok.inj (hrun.symm.trans hrun')).2
    refine ⟨fun i hi => ?_, fun i h1 h2 => ?_⟩
    · obtain ⟨k, rfl⟩ := exists_num24 (i := i) (by omega)
      exact (hread k (by omega) _).1 (hbelow k _ hi ((hread' k hi _).2 rfl))
    · obtain ⟨k, rfl⟩ := exists_num24 (i := i) (by omega)
      exact (hread k h2 0).1 (hzero k h1 h2)
  · rintro ⟨hbelow, hzero⟩
    refine ⟨s', hrun, hext, fun k v hk hv => ?_, fun k h1 h2 => ?_⟩
    · rw [hread k (by omega), hbelow _ hk]
      exact (hread' k hk v).1 hv
    · exact (hread k h2 0).2 (hzero _ h1 h2)

lemma AtEnd.backed {s : State} {y : Byte} {n : ℕ} (h : AtEnd s y n) (he : (s.chan y).ext.val = n) :
    Backed s (s.chan y) :=
  ⟨h.start_ge, he ▸ h.room.inside, h.canWrite.2.1, h.clean, fun hd => ⟨h.dirty hd, h.canWrite⟩⟩

section Call

variable {s : State} {p : Byte × Byte} {n : Num24}

/-- The channel when PTR has been moved to the end. -/
lemma ForUpdate.atEnd (h : ForUpdate s p) (hroom : HasRoom s (s.chan p.1) n.val) :
    AtEnd (({ s with chanOff := p.1 } : State).setChan p.1
      { s.chan p.1 with ptr := (s.chan p.1).ext }) p.1 n.val := by
  have hmask := (handleOf_slots h.slot).2.2.2
  have hc := h.backed
  refine ⟨⟨?_, rfl, ?_, ?_, ?_, ?_, ?_⟩, ?_, ?_⟩ <;> try rw [State.setChan_chan]
  · rw [hmask]
    exact h.used
  · exact hc.start_ge
  · exact hroom.congr rfl rfl rfl rfl rfl rfl rfl hroom.ext_le
  · exact h.canWrite
  · exact h.unlocked
  · exact hc.clean
  · exact fun hd => (hc.dirty hd).1

/-- The call, given what putting the zeros does. -/
lemma argsWritePtr_run (h : ForUpdate s p) {t : State}
    (hzeros : (putZeros p.1 n (n.val + 1)).run (({ s with chanOff := p.1 } : State).setChan p.1
      { s.chan p.1 with ptr := (s.chan p.1).ext }) = .ok () t)
    (ht : AtEnd t p.1 n.val) (he : (t.chan p.1).ext.val = n.val) :
    ∃ s', (argsWritePtr (handleOf p) n).run s = .ok () s' ∧ s'.Used p ∧ Backed s' (s'.chan p.1) ∧
      (s'.chan p.1).ext = n ∧ ∀ i, s'.shown (s'.chan p.1) i = t.shown (t.chan p.1) i := by
  obtain ⟨-, hc, hstream⟩ := movePtr_coherent (ht.backed he) he.ge
  have hmask := (handleOf_slots h.slot).2.2.2
  have hchan : (t.setChan p.1 ((t.chan p.1).movePtr n)).chan p.1 = (t.chan p.1).movePtr n :=
    State.setChan_chan _ _ _
  refine ⟨t.setChan p.1 ((t.chan p.1).movePtr n), ?_, ?_, ?_, ?_, ?_⟩
  · rw [argsWritePtr, Prog.run_bind_ok (openHandle_run h.slot h.used), mmcSetPtrToExt, modifyChan,
      Prog.run_bind_ok (Prog.run_modify _ _), Prog.run_bind_ok hzeros]
    rfl
  · rw [State.Used, ← hmask]
    exact ht.used
  · rw [hchan]
    exact hc.backed
  · rw [hchan]
    exact Num24.val_injective he
  · exact fun i => congrFun (congrArg Stream.data hstream) i

end Call

/-- The zeros that stray do no harm if they change nothing and are not missed. -/
lemma strays_harmless_iff {k e n : ℕ} (hk : k < e / 256) (f : ℕ → Byte) :
    ((∀ i < e, (if e / 256 < i / 256 ∨ Strays k e n i then 0 else f i) = f i) ∧
        ∀ i, e ≤ i → i < n → (if e / 256 < i / 256 ∨ Strays k e n i then 0 else f i) = 0) ↔
      ∀ j < 256, e % 256 ≤ j → j < e % 256 + (n - e) → f (256 * k + j) = 0 ∧ f (256 * (e / 256) + j) = 0 := by
  constructor
  · rintro ⟨hbelow, hzero⟩ j h256 h1 h2
    constructor
    · have hstray : e / 256 < (256 * k + j) / 256 ∨ Strays k e n (256 * k + j) := by
        rw [Strays]
        omega
      have := hbelow (256 * k + j) (by omega)
      rw [if_pos hstray] at this
      exact this.symm
    · have hno : ¬ (e / 256 < (256 * (e / 256) + j) / 256 ∨ Strays k e n (256 * (e / 256) + j)) := by
        rw [Strays]
        omega
      have := hzero (256 * (e / 256) + j) (by omega) (by omega)
      rwa [if_neg hno] at this
  · intro h
    refine ⟨fun i hi => ?_, fun i h1 h2 => ?_⟩
    · split_ifs with hs
      · obtain ⟨h1, h2, h3⟩ := hs.resolve_left (by omega)
        have hi' : 256 * k + i % 256 = i := by omega
        rw [← hi']
        exact (h (i % 256) (by omega) h2 h3).1.symm
      · rfl
    · split_ifs with hs
      · rfl
      · have hi' : 256 * (e / 256) + i % 256 = i := by omega
        rw [← hi']
        exact (h (i % 256) (by omega) (by omega) (by omega)).2

/-- **Extending through PTR.**  For every file open for update, every PTR, every state of its buffer
and every new place beyond the end for which there is room, OSARGS makes the file that long with
zeros from the old end on and everything below as before, exactly when the buffer does not count
as valid, or is for the page in which the file ends, or the bytes that the zeros are put on in its
page and those that they are missing from behind the end are zero already. -/
theorem argsWritePtr_extends_iff {s : State} {p : Byte × Byte} {n : Num24} (h : ForUpdate s p)
    (hn : (s.chan p.1).ext.val < n.val) (hroom : HasRoom s (s.chan p.1) n.val) :
    ExtendsByZeros s p n ↔ ZerosLand s (s.chan p.1) n.val := by
  have hend := h.atEnd hroom
  set t := ({ s with chanOff := p.1 } : State).setChan p.1
    { s.chan p.1 with ptr := (s.chan p.1).ext } with ht
  have hchan : t.chan p.1 = { s.chan p.1 with ptr := (s.chan p.1).ext } := State.setChan_chan _ _ _
  have hshown : ∀ i, t.shown (t.chan p.1) i = s.shown (s.chan p.1) i := by
    rw [hchan]
    exact State.shown_congr rfl rfl ⟨rfl, rfl, rfl, rfl, rfl⟩ rfl rfl rfl rfl
  have hext : (t.chan p.1).ext = (s.chan p.1).ext := by rw [hchan]
  have hsec : (t.chan p.1).sec = (s.chan p.1).sec := by
    rw [hchan]
    rfl
  have hstart : (t.chan p.1).start = (s.chan p.1).start := by
    rw [hchan]
    rfl
  have hvalid : (t.chan p.1).Valid ↔ (s.chan p.1).Valid := by
    rw [hchan]
    exact Iff.rfl
  by_cases hstray : (s.chan p.1).Valid ∧ (s.chan p.1).sec ≠ (s.chan p.1).start + (s.chan p.1).ext.val / 256
  · obtain ⟨hv, hpage⟩ := hstray
    obtain ⟨hge, hle⟩ := h.valid hv
    have hk : (s.chan p.1).sec - (s.chan p.1).start < (s.chan p.1).ext.val / 256 := by omega
    obtain ⟨u, hrun, hu, he, hall⟩ := putZeros_stray ((s.chan p.1).sec - (s.chan p.1).start) (n.val + 1) t
      hend (by rw [hext]; omega) (by omega) (hvalid.2 hv) (by rw [hsec, hstart]; omega) (by rw [hext]; exact hk)
    obtain ⟨s', hcall, hused, hback, hs', hsame⟩ := argsWritePtr_run h hrun hu he
    rw [extendsByZeros_iff h hn hcall hused hback hs', ZerosLand, ← strays_harmless_iff hk]
    have hfinal : ∀ i < n.val, s'.shown (s'.chan p.1) i =
        if (s.chan p.1).ext.val / 256 < i / 256 ∨
          Strays ((s.chan p.1).sec - (s.chan p.1).start) (s.chan p.1).ext.val n.val i then 0
        else s.shown (s.chan p.1) i := fun i hi => by rw [hsame, hall i hi, hext, hshown]
    constructor
    · rintro ⟨hbelow, hzero⟩
      refine Or.inr (Or.inr ⟨fun i hi => ?_, fun i h1 h2 => ?_⟩)
      · rw [← hfinal i (by omega), hbelow i hi]
      · rw [← hfinal i h2, hzero i h1 h2]
    · intro hland
      obtain ⟨hbelow, hzero⟩ := (hland.resolve_left (not_not.2 hv)).resolve_left hpage
      refine ⟨fun i hi => ?_, fun i h1 h2 => ?_⟩
      · rw [hfinal i (by omega), hbelow i hi]
      · rw [hfinal i h2, hzero i h1 h2]
  · have hland : (s.chan p.1).Valid → (s.chan p.1).sec = (s.chan p.1).start + (s.chan p.1).ext.val / 256 :=
      fun hv => not_not.1 fun hne => hstray ⟨hv, hne⟩
    obtain ⟨u, hrun, hu, he, hkeep, hzero⟩ := putZeros_run (n.val + 1) t hend (by rw [hext]; omega)
      (by omega) fun hv => by
        rw [hsec, hstart, hext]
        exact hland (hvalid.1 hv)
    obtain ⟨s', hcall, hused, hback, hs', hsame⟩ := argsWritePtr_run h hrun hu he
    refine iff_of_true ((extendsByZeros_iff h hn hcall hused hback hs').2 ⟨fun i hi => ?_, fun i h1 h2 => ?_⟩)
      ?_
    · rw [hsame, hkeep i (by rw [hext]; exact hi), hshown]
    · rw [hsame]
      exact hzero i (by rw [hext]; exact h1) h2
    · by_cases hv : (s.chan p.1).Valid
      · exact Or.inr (Or.inl (hland hv))
      · exact Or.inl hv

/-- A disk with the file `$.A` at sector 2, 257 bytes long, the second of them `$62`. -/
def longFile : State :=
  { twoBytes with
    diskMark := fun _ => 0x54
    cats := fun n => Function.update (Function.update (twoBytes.cats n) 0x0f0c 1) 0x0f0d 1 }

/-- The file has been opened for update on the channel with the handle `$11`. -/
def longFileOpen : State := ((openFile 0xc0 [0x41]).run longFile).state

/-- Its first byte has been read. -/
def longFileRead : State := ((bgetv 0x11).run longFileOpen).state

lemma longFileOpen_coherent : Coherent longFileOpen (longFileOpen.chan 0x20) where
  start_ge := by decide
  inside := by decide
  ptr_le := by decide
  hasDisk := by unfold State.HasDisk; decide
  valid h := absurd rfl h
  clean _ h := absurd rfl h
  dirty h := absurd rfl h

lemma longFileOpen_forUpdate : ForUpdate longFileOpen (0x20, 0x80) where
  slot := by simp [slots]
  used := by decide
  backed := longFileOpen_coherent.backed
  valid h := absurd rfl h
  canWrite := by unfold State.CanWrite State.HasDisk; decide
  unlocked := by decide

lemma longFileRead_forUpdate : ForUpdate longFileRead (0x20, 0x80) := by
  obtain ⟨s', hrun, -, hc, -⟩ :=
    bgetv_reads longFileOpen_forUpdate.slot longFileOpen_forUpdate.used longFileOpen_coherent
  have hstate : longFileRead = s' := congrArg Outcome.state hrun
  refine ⟨longFileOpen_forUpdate.slot, by decide, ?_, fun _ => by decide, ?_, by decide⟩
  · rw [hstate]
    exact hc.backed
  · unfold State.CanWrite State.HasDisk
    decide

theorem longFileOpen_extends : ExtendsByZeros longFileOpen (0x20, 0x80) ⟨2, 1, 0⟩ :=
  (argsWritePtr_extends_iff longFileOpen_forUpdate (by decide)
    ⟨by decide, by decide, Or.inl (by decide)⟩).2 (Or.inl (not_not.2 rfl))

/-- With the first page in the buffer, the zero is put on the second byte. -/
theorem longFileRead_not_extends : ForUpdate longFileRead (0x20, 0x80) ∧
    (longFileRead.chan 0x20).ext.val < 258 ∧ HasRoom longFileRead (longFileRead.chan 0x20) 258 ∧
    ¬ ExtendsByZeros longFileRead (0x20, 0x80) ⟨2, 1, 0⟩ := by
  refine ⟨longFileRead_forUpdate, by decide, ⟨by decide, by decide, Or.inl (by decide)⟩, ?_⟩
  rintro ⟨s', hrun, -, hbelow, -⟩
  obtain ⟨t, ht⟩ := hbelow ⟨1, 0, 0⟩ 0x62 (by decide) ⟨_, rfl⟩
  have hzero : ∃ u, (do
      argsWritePtr 0x11 ⟨2, 1, 0⟩
      readAt 0x11 ⟨1, 0, 0⟩).run longFileRead = .ok (0, false) u := ⟨_, rfl⟩
  obtain ⟨u, hu⟩ := hzero
  have hboth := (Prog.run_bind_ok (f := fun _ => readAt 0x11 ⟨1, 0, 0⟩) hrun).symm.trans hu
  have hne := congrArg Prod.fst (Outcome.ok.inj (ht.symm.trans hboth)).1
  exact absurd hne (by decide)

end Udfs.Rom
