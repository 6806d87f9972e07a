import Udfs.D6502.Regions

/-!
# Where the disassembler reads

`main` goes from region to region until its index is behind the map.  The regions are determined by
the map and by the opcodes.  Only a region of data that goes up to the end of the map, and an
instruction that the end of the file cuts off, make it read where it should not.
-/

namespace Udfs.D6502

/-- The marks of bytes and of text. -/
def IsData (m : Byte) : Prop := m = 0x62 ∨ m = 0x74

instance (m : Byte) : Decidable (IsData m) := inferInstanceAs (Decidable (_ ∨ _))

/-- The bytes from `i` up to `j` are marked alike, and `j` is not or is the end of the map. -/
structure Alike (c : Context) (i j : ℕ) : Prop where
  lt : i < j
  le : j ≤ 16384
  mark : ∀ k, i ≤ k → k < j → c.markAt k = c.markAt i
  stop : j < 16384 → c.markAt j ≠ c.markAt i

/-- A region begins at `i`, and the next one at `j`. -/
inductive Next (c : Context) : ℕ → ℕ → Prop where
  | data {i j : ℕ} (hi : i < 16384) (hm : IsData (c.markAt i)) (h : Alike c i j) : Next c i j
  | code {i : ℕ} (hi : i < 16384) (hm : ¬ IsData (c.markAt i)) : Next c i (i + instrSize (c.byteAt i))

/-- A region begins at `i`, or the last one ends there. -/
def Boundary (c : Context) (i : ℕ) : Prop := Relation.ReflTransGen (Next c) 0 i

/-- The region that begins at `i` ends before the map does, if it is data, and is in the file, if it
is an instruction. -/
def EndsInside (c : Context) (i : ℕ) : Prop :=
  if IsData (c.markAt i) then ∃ j, i < j ∧ j < 16384 ∧ c.markAt j ≠ c.markAt i
  else i + instrSize (c.byteAt i) ≤ c.data.length

/-- The loop of `main` reads nothing behind the map and nothing behind the file, and ends; if the last
region ends at `0x4000`, it ends there. -/
def StaysInside (c : Context) : Prop :=
  ∃ s, (mainLoop 16384).run c = .ok () s ∧ 0x4000 ≤ s.index.toNat ∧
    (Boundary c 0x4000 → s.index.toNat = 0x4000)

variable {c s : Context} {i j k n t : ℕ}

lemma Alike.unique (h : Alike c i j) (h' : Alike c i k) : j = k := by
  rcases lt_trichotomy j k with hlt | heq | hgt
  · exact absurd (h'.mark j h.lt.le hlt) (h.stop (hlt.trans_le h'.le))
  · exact heq
  · exact absurd (h.mark k h'.lt.le hgt) (h'.stop (hgt.trans_le h.le))

lemma next_rightUnique (c : Context) : Relator.RightUnique (Next c) := by
  intro i j k hj hk
  cases hj with
  | data hi hm h =>
      cases hk with
      | data _ _ h' => exact h.unique h'
      | code _ hm' => exact absurd hm hm'
  | code hi hm =>
      cases hk with
      | data _ hm' _ => exact absurd hm' hm
      | code _ _ => rfl

lemma Next.lt (h : Next c i j) : i < 16384 := by
  cases h with
  | data hi => exact hi
  | code hi => exact hi

/-- Marks alike go on up to some place. -/
lemma exists_alike (c : Context) (hi : i < 16384) : ∃ j, Alike c i j := by
  have hex : ∃ j, i < j ∧ (j = 16384 ∨ c.markAt j ≠ c.markAt i) := ⟨16384, hi, Or.inl rfl⟩
  have hmin : ∀ k, i < k → k < Nat.find hex → k ≠ 16384 ∧ c.markAt k = c.markAt i := by
    intro k hik hk
    have hnot := Nat.find_min hex hk
    push Not at hnot
    exact hnot hik
  obtain ⟨hlt, hend⟩ := Nat.find_spec hex
  refine ⟨Nat.find hex, hlt, ?_, fun k h1 h2 => ?_, fun h => hend.resolve_left h.ne⟩
  · by_contra hgt
    exact (hmin 16384 hi (by omega)).1 rfl
  · rcases h1.eq_or_lt with rfl | h1
    · rfl
    · exact (hmin k h1 h2).2

lemma Alike.region (h : Alike c i (i + n)) (hc : c.index.toNat = i) (hlen : 16384 ≤ c.data.length) :
    Region c (c.markAt i) i n :=
  ⟨hc, h.le, hlen, h.mark, h.stop⟩

/-- A region of data ends inside the map exactly when another mark comes. -/
lemma Alike.endsInside_iff (h : Alike c i j) (hm : IsData (c.markAt i)) :
    EndsInside c i ↔ j < 16384 := by
  rw [EndsInside, if_pos hm]
  constructor
  · rintro ⟨k, hik, hk, hne⟩
    by_contra hj
    exact hne (h.mark k hik.le (by omega))
  · exact fun hj => ⟨j, h.lt, hj, h.stop hj⟩

/-- One call of `d6502` goes on to the next region, if the region ends inside. -/
lemma d6502_next (hc : c.index.toNat = i) (hi : i < 16384) (hlen : 16384 ≤ c.data.length) :
    Prog.wp d6502
      (fun _ s => EndsInside c i ∧ ∃ n l, Next c i (i + n) ∧ 0 < n ∧ s = c.adv n l)
      (fun _ _ => ¬ EndsInside c i) c := by
  by_cases hm : IsData (c.markAt i)
  · obtain ⟨j, hj⟩ := exists_alike c hi
    obtain ⟨n, rfl⟩ : ∃ n, j = i + (n + 1) := ⟨j - i - 1, by have := hj.lt; omega⟩
    refine Prog.wp_mono (d6502_region hm (hj.region hc hlen)) ?_ ?_
    · rintro _ s ⟨rfl, hlt⟩
      exact ⟨(hj.endsInside_iff hm).2 hlt, n + 1, _, .data hi hm hj, n.succ_pos, rfl⟩
    · intro _ _ he
      rw [hj.endsInside_iff hm]
      omega
  · obtain ⟨hb, ht⟩ := not_or.1 hm
    refine Prog.wp_mono (d6502_instruction hc hi hlen hb ht) ?_ ?_
    · rintro _ s ⟨rfl, hle⟩
      rw [EndsInside, if_neg hm]
      exact ⟨hle, _, _, .code hi hm, by rw [instrSize]; omega, rfl⟩
    · intro _ _ he
      rw [EndsInside, if_neg hm]
      omega

lemma Next.of_adv {l : List Tok} (h : Next (c.adv k l) i j) : Next c i j := by
  cases h with
  | data hi hm h => exact .data hi hm ⟨h.lt, h.le, h.mark, h.stop⟩
  | code hi hm => exact .code hi hm

lemma instrSize_le (b : Byte) : instrSize b ≤ 3 := by
  rw [instrSize]
  cases (opcodeOf b).addrMode <;> decide

lemma Next.le (h : Next c i j) : j ≤ 16386 := by
  cases h with
  | data _ _ h => exact h.le.trans (by omega)
  | code hi _ =>
      have := instrSize_le (c.byteAt i)
      omega

/-- The regions from `i` on end inside, and the index is behind the last one. -/
structure Passed (c : Context) (i : ℕ) (s : Context) : Prop where
  inside : ∀ e, Relation.ReflTransGen (Next c) i e → e < 16384 → EndsInside c e
  reached : Relation.ReflTransGen (Next c) i s.index.toNat
  ended : 16384 ≤ s.index.toNat

/-- A region from `i` on does not end inside. -/
def Stuck (c : Context) (i : ℕ) : Prop :=
  ∃ e, Relation.ReflTransGen (Next c) i e ∧ e < 16384 ∧ ¬ EndsInside c e

/-- There is no region behind the map. -/
lemma eq_of_reached (hi : 16384 ≤ i) (h : Relation.ReflTransGen (Next c) i j) : i = j := by
  rcases h.cases_head with heq | ⟨k, hk, -⟩
  · exact heq
  · exact absurd hk.lt (by omega)

lemma passed_of_le (hs : s.index.toNat = i) (hi : 16384 ≤ i) : Passed c i s where
  inside e he hlt := by
    have := eq_of_reached hi he
    omega
  reached := hs ▸ .refl
  ended := hs ▸ hi

lemma Passed.head (h : Passed c j s) (hn : Next c i j) (hin : EndsInside c i) : Passed c i s where
  inside e he hlt := by
    rcases he.cases_head with rfl | ⟨k, hk, hke⟩
    · exact hin
    · rw [← next_rightUnique c hn hk] at hke
      exact h.inside e hke hlt
  reached := .head hn h.reached
  ended := h.ended

lemma adv_index_of_zero (hc : c.index = 0) (l : List Tok) (hi : i < 65536) :
    (c.adv i l).index.toNat = i := by
  have hzero : c.index.toNat = 0 := congrArg BitVec.toNat hc
  rw [Context.adv_index _ (by omega), hzero, Nat.zero_add]

/-- **The loop of `main`** goes through all regions from `i` on, or comes to one that does not end
inside. -/
lemma mainLoop_spec (hc : c.index = 0) (hlen : 16384 ≤ c.data.length) (l : List Tok) (hi : i ≤ 16386)
    (ht : 16384 ≤ i + t) :
    Prog.wp (mainLoop t) (fun _ => Passed c i) (fun _ _ => Stuck c i) (c.adv i l) := by
  induction t generalizing i l with
  | zero => exact passed_of_le (adv_index_of_zero hc l (by omega)) ht
  | succ t ih =>
      have hindex := adv_index_of_zero hc l (by omega : i < 65536)
      rw [mainLoop, Prog.wp_bind, Prog.wp_get, hindex, Prog.wp_ite]
      refine ⟨fun hlt => ?_, fun hge => passed_of_le hindex (by omega)⟩
      rw [Prog.wp_bind]
      refine Prog.wp_mono (d6502_next hindex hlt hlen) ?_ fun _ _ he => ⟨i, .refl, hlt, he⟩
      rintro _ s ⟨hin, n, l', hnext, hpos, rfl⟩
      have hn := hnext.of_adv
      rw [Context.adv_adv]
      refine Prog.wp_mono (ih (l ++ l') hn.le (by omega)) (fun _ _ hs => hs.head hn hin) ?_
      rintro _ _ ⟨e, he, hlt, hout⟩
      exact ⟨e, .head hn he, hlt, hout⟩

lemma mainLoop_start (hc : c.index = 0) (hlen : 16384 ≤ c.data.length) :
    Prog.wp (mainLoop 16384) (fun _ => Passed c 0) (fun _ _ => Stuck c 0) c := by
  have hstart : c.adv 0 [] = c := by simp [Context.adv]
  have hspec := mainLoop_spec (t := 16384) hc hlen [] (Nat.zero_le _) (Nat.le_add_left ..)
  rwa [hstart] at hspec

lemma StaysInside.endsInside (h : StaysInside c) (hc : c.index = 0) (hlen : 16384 ≤ c.data.length)
    (hb : Boundary c i) (hi : i < 16384) : EndsInside c i := by
  obtain ⟨s, hrun, -, -⟩ := h
  have hspec := mainLoop_start hc hlen
  rw [Prog.wp_of_ok hrun] at hspec
  exact hspec.inside i hb hi

/-- **The disassembler stays inside its tables** exactly when every region ends inside. -/
theorem mainLoop_staysInside_iff (c : Context) (hc : c.index = 0) (hlen : 16384 ≤ c.data.length) :
    StaysInside c ↔ ∀ i, Boundary c i → i < 16384 → EndsInside c i := by
  constructor
  · exact fun h i hb hi => h.endsInside hc hlen hb hi
  · intro hin
    obtain ⟨_, s, hrun, hs⟩ := Prog.exists_ok (mainLoop_start hc hlen) fun _ _ ⟨e, he, hlt, hout⟩ => hout (hin e he hlt)
    refine ⟨s, hrun, hs.ended, fun hb => ?_⟩
    rcases hb.total_of_right_unique (next_rightUnique c) hs.reached with h | h
    · exact (eq_of_reached le_rfl h).symm
    · exact eq_of_reached hs.ended h

/-- An image of `nop`s. -/
def nops (map : Fin 16384 → Byte) : Context where
  data := List.replicate 16384 0xea
  index := 0
  orgAddr := 0x8000
  symbols := fun _ => none
  map := map
  out := []

lemma nops_size (map : Fin 16384 → Byte) (hi : i < 16384) : instrSize ((nops map).byteAt i) = 1 := by
  have hbyte : (nops map).byteAt i = 0xea := by
    rw [Context.byteAt, nops, List.getD_eq_getElem _ _ (by rwa [List.length_replicate]),
      List.getElem_replicate]
  rw [hbyte]
  decide +kernel

/-- A map with a region of bytes between code. -/
def bytesInside (i : Fin 16384) : Byte := if 0x100 ≤ i.val ∧ i.val < 0x180 then 0x62 else 0

theorem nops_staysInside : StaysInside (nops bytesInside) := by
  have hmark : ∀ i < 16384, (nops bytesInside).markAt i = if 0x100 ≤ i ∧ i < 0x180 then 0x62 else 0 :=
    fun i hi => dif_pos hi
  refine (mainLoop_staysInside_iff _ rfl List.length_replicate.ge).2 fun i _ hi => ?_
  rw [EndsInside, hmark i hi]
  by_cases hdata : 0x100 ≤ i ∧ i < 0x180
  · -- the code behind the bytes ends their region
    have hbytes : IsData 0x62 := Or.inl rfl
    rw [if_pos hdata, if_pos hbytes]
    refine ⟨0x180, hdata.2, by omega, ?_⟩
    rw [hmark _ (by omega), if_neg (by omega)]
    decide
  · rw [if_neg hdata, if_neg (by decide), nops_size _ hi]
    exact hi.trans_eq List.length_replicate.symm

/-- A map with code and behind it text to the end, as `initMap` makes it. -/
def textEnd (i : Fin 16384) : Byte := if i.val < 0x3a3b then 0 else 0x74

lemma textEnd_boundary (i : ℕ) (hi : i ≤ 0x3a3b) : Boundary (nops textEnd) i := by
  induction i with
  | zero => exact .refl
  | succ i ih =>
      have hmark : (nops textEnd).markAt i = 0 := by
        rw [Context.markAt, dif_pos (by omega)]
        exact if_pos (by exact hi)
      have hstep : Next (nops textEnd) i (i + instrSize ((nops textEnd).byteAt i)) := by
        refine .code (by omega) ?_
        rw [hmark]
        decide
      rw [nops_size _ (by omega)] at hstep
      exact (ih (by omega)).tail hstep

/-- The last region does not end inside. -/
lemma textEnd_endsInside : ¬ EndsInside (nops textEnd) 0x3a3b := by
  have hmark : ∀ i, 0x3a3b ≤ i → i < 16384 → (nops textEnd).markAt i = 0x74 := by
    intro i h1 h2
    rw [Context.markAt, dif_pos h2]
    exact if_neg (not_lt.2 h1)
  have hdata : IsData 0x74 := Or.inr rfl
  rw [EndsInside, hmark 0x3a3b le_rfl (by omega), if_pos hdata]
  rintro ⟨j, h1, h2, hne⟩
  exact hne (hmark j h1.le h2)

/-- The disassembler reads the map behind its end. -/
theorem textEnd_leaves : ¬ StaysInside (nops textEnd) := fun h =>
  textEnd_endsInside (h.endsInside rfl List.length_replicate.ge (textEnd_boundary _ le_rfl) (by omega))

end Udfs.D6502
