import Mathlib

/-!
# Extents packed from the top down

A list of objects that each take a run of cells, listed by decreasing position, so that every
object lies between the end of the next one and the start of the one before it, the first
below `top` and the last above `lo`.  Between two neighbours there is a gap, and one more at
either end; an object is inserted by putting it at the bottom of a gap.
-/

namespace Udfs

namespace Extents

variable {α : Type*} (st sz : α → ℕ)

/-- The objects lie below `top` and above `lo`, each below the one before it. -/
def Packed (lo : ℕ) : ℕ → List α → Prop
  | _, [] => True
  | top, a :: l => lo ≤ st a ∧ st a + sz a ≤ top ∧ Packed lo (st a) l

/-- The bottom of the `i`-th gap: the end of the `i`-th object, or `lo` after the last one. -/
def gapBase (lo : ℕ) (l : List α) (i : ℕ) : ℕ := (l[i]?.map fun a => st a + sz a).getD lo

/-- The top of the `i`-th gap: the start of the object before it, or `top` before the first. -/
def gapTop (top : ℕ) : List α → ℕ → ℕ
  | _, 0 => top
  | l, i + 1 => (l[i]?.map st).getD top

/-- `n` cells fit into the `i`-th gap. -/
def Fits (lo top : ℕ) (l : List α) (n i : ℕ) : Prop := gapBase st sz lo l i + n ≤ gapTop st top l i

instance (lo top : ℕ) (l : List α) (n i : ℕ) : Decidable (Fits st sz lo top l n i) :=
  inferInstanceAs (Decidable (_ ≤ _))

variable {st sz} {lo top : ℕ} {l : List α} {a : α}

@[simp] lemma gapBase_cons_succ (a : α) (l : List α) (i : ℕ) :
    gapBase st sz lo (a :: l) (i + 1) = gapBase st sz lo l i := by
  rw [gapBase, gapBase, List.getElem?_cons_succ]

@[simp] lemma gapBase_cons_zero (a : α) (l : List α) :
    gapBase st sz lo (a :: l) 0 = st a + sz a := rfl

@[simp] lemma gapTop_zero (l : List α) : gapTop st top l 0 = top := rfl

lemma gapTop_cons_succ {i : ℕ} (hi : i ≤ l.length) :
    gapTop st top (a :: l) (i + 1) = gapTop st (st a) l i := by
  cases i with
  | zero => rfl
  | succ i =>
      have hlt : i < l.length := by omega
      simp only [gapTop, List.getElem?_cons_succ, List.getElem?_eq_getElem hlt, Option.map_some,
        Option.getD_some]

lemma gapBase_of_lt {i : ℕ} (hi : i < l.length) :
    gapBase st sz lo l i = st l[i] + sz l[i] := by
  rw [gapBase, List.getElem?_eq_getElem hi]
  rfl

lemma gapBase_of_le {i : ℕ} (hi : l.length ≤ i) : gapBase st sz lo l i = lo := by
  rw [gapBase, List.getElem?_eq_none hi]
  rfl

lemma gapTop_succ_of_lt {i : ℕ} (hi : i < l.length) : gapTop st top l (i + 1) = st l[i] := by
  rw [gapTop, List.getElem?_eq_getElem hi]
  rfl

/-! ## What packing means -/

lemma Packed.top_mono {top' : ℕ} (h : Packed st sz lo top l) (ht : top ≤ top') :
    Packed st sz lo top' l := by
  cases l with
  | nil => exact trivial
  | cons a l => exact ⟨h.1, h.2.1.trans ht, h.2.2⟩

/-- Packing, object by object. -/
lemma packed_iff : ∀ {top : ℕ} {l : List α}, Packed st sz lo top l ↔
    ∀ i (hi : i < l.length), lo ≤ st l[i] ∧ st l[i] + sz l[i] ≤ gapTop st top l i := by
  intro top l
  induction l generalizing top with
  | nil => exact iff_of_true trivial fun i hi => absurd hi (Nat.not_lt_zero i)
  | cons a l ih =>
      constructor
      · rintro ⟨hlo, htop, hrest⟩ i hi
        cases i with
        | zero => exact ⟨hlo, htop⟩
        | succ i =>
            have hlt : i < l.length := Nat.lt_of_succ_lt_succ hi
            rw [gapTop_cons_succ hlt.le]
            exact (ih.1 hrest) i hlt
      · intro h
        refine ⟨(h 0 (Nat.succ_pos _)).1, (h 0 (Nat.succ_pos _)).2, ih.2 fun i hi => ?_⟩
        have := h (i + 1) (Nat.succ_lt_succ hi)
        rwa [gapTop_cons_succ hi.le] at this

lemma Packed.mem (h : Packed st sz lo top l) : ∀ a ∈ l, lo ≤ st a ∧ st a + sz a ≤ top := by
  induction l generalizing top with
  | nil => rintro a ⟨⟩
  | cons b l ih =>
      obtain ⟨hlo, htop, hrest⟩ := h
      rintro a (_ | ⟨_, ha⟩)
      · exact ⟨hlo, htop⟩
      · obtain ⟨h1, h2⟩ := ih hrest a ha
        exact ⟨h1, by omega⟩

/-- No two objects share a cell. -/
lemma Packed.pairwise (h : Packed st sz lo top l) : l.Pairwise fun a b => st b + sz b ≤ st a := by
  induction l generalizing top with
  | nil => exact List.Pairwise.nil
  | cons a l ih =>
      obtain ⟨-, -, hrest⟩ := h
      exact List.Pairwise.cons (fun b hb => (hrest.mem b hb).2) (ih hrest)

/-- Every gap has its bottom below its top. -/
lemma Packed.gapBase_le_gapTop (h : Packed st sz lo top l) (ht : lo ≤ top) :
    ∀ {i : ℕ}, i ≤ l.length → gapBase st sz lo l i ≤ gapTop st top l i := by
  induction l generalizing top with
  | nil =>
      intro i hi
      obtain rfl : i = 0 := Nat.le_zero.1 hi
      exact ht
  | cons a l ih =>
      obtain ⟨hlo, htop, hrest⟩ := h
      intro i hi
      cases i with
      | zero => exact htop
      | succ i =>
          have hi' : i ≤ l.length := Nat.le_of_succ_le_succ hi
          rw [gapBase_cons_succ, gapTop_cons_succ hi']
          exact ih hrest hlo hi'

/-! ## Taking out, putting in, changing -/

lemma Packed.eraseIdx (h : Packed st sz lo top l) (i : ℕ) : Packed st sz lo top (l.eraseIdx i) := by
  induction l generalizing top i with
  | nil => exact trivial
  | cons a l ih =>
      obtain ⟨hlo, htop, hrest⟩ := h
      cases i with
      | zero => exact hrest.top_mono (by omega)
      | succ i => exact ⟨hlo, htop, ih hrest i⟩

/-- An object put at the bottom of a gap that it fits into. -/
lemma Packed.insertIdx (h : Packed st sz lo top l) {i : ℕ} (hi : i ≤ l.length)
    (hst : st a = gapBase st sz lo l i) (hfit : Fits st sz lo top l (sz a) i) :
    Packed st sz lo top (l.insertIdx i a) := by
  induction l generalizing top i with
  | nil =>
      obtain rfl : i = 0 := Nat.le_zero.1 hi
      rw [Fits, ← hst, gapTop_zero] at hfit
      exact ⟨hst.ge, hfit, trivial⟩
  | cons b l ih =>
      obtain ⟨hlo, htop, hrest⟩ := h
      cases i with
      | zero =>
          rw [Fits, ← hst, gapTop_zero] at hfit
          rw [gapBase_cons_zero] at hst
          exact ⟨by omega, hfit, hlo, hst.ge, hrest⟩
      | succ i =>
          have hi' : i ≤ l.length := Nat.le_of_succ_le_succ hi
          rw [gapBase_cons_succ] at hst
          rw [Fits, gapBase_cons_succ, gapTop_cons_succ hi'] at hfit
          exact ⟨hlo, htop, ih hrest hi' hst hfit⟩

/-- An object that keeps its place and stays below the one before it. -/
lemma Packed.set (h : Packed st sz lo top l) {i : ℕ} (hi : i < l.length) (hst : st a = st l[i])
    (hfit : st a + sz a ≤ gapTop st top l i) : Packed st sz lo top (l.set i a) := by
  induction l generalizing top i with
  | nil => exact absurd hi (Nat.not_lt_zero i)
  | cons b l ih =>
      obtain ⟨hlo, htop, hrest⟩ := h
      cases i with
      | zero =>
          rw [List.getElem_cons_zero] at hst
          exact ⟨hst.ge.trans' hlo, hfit, by rw [hst]; exact hrest⟩
      | succ i =>
          have hi' : i < l.length := Nat.lt_of_succ_lt_succ hi
          rw [gapTop_cons_succ hi'.le] at hfit
          exact ⟨hlo, htop, ih hrest hi' hst hfit⟩

/-! ## Closing the gaps -/

/-- The cells the objects take. -/
def total (sz : α → ℕ) (l : List α) : ℕ := (l.map sz).sum

@[simp] lemma total_nil : total sz ([] : List α) = 0 := rfl

@[simp] lemma total_cons (a : α) (l : List α) : total sz (a :: l) = sz a + total sz l := by
  simp [total]

lemma total_drop {i : ℕ} (hi : i < l.length) :
    total sz (l.drop i) = sz l[i] + total sz (l.drop (i + 1)) := by
  rw [List.drop_eq_getElem_cons hi, total_cons]

lemma total_drop_le {i j : ℕ} (h : i ≤ j) : total sz (l.drop j) ≤ total sz (l.drop i) := by
  induction j, h using Nat.le_induction with
  | base => exact le_rfl
  | succ j hij ih =>
      by_cases hj : j < l.length
      · rw [total_drop hj] at ih
        omega
      · rw [List.drop_eq_nil_of_le (by omega)]
        exact Nat.zero_le _

/-- The objects fit between `lo` and `top` without gaps. -/
lemma Packed.total_le (h : Packed st sz lo top l) (ht : lo ≤ top) : lo + total sz l ≤ top := by
  induction l generalizing top with
  | nil => simpa using ht
  | cons a l ih =>
      obtain ⟨hlo, htop, hrest⟩ := h
      have := ih hrest hlo
      rw [total_cons]
      omega

lemma Packed.drop (h : Packed st sz lo top l) {i : ℕ} (hi : i < l.length) :
    Packed st sz lo (st l[i]) (l.drop (i + 1)) := by
  induction l generalizing top i with
  | nil => exact absurd hi (Nat.not_lt_zero i)
  | cons a l ih =>
      cases i with
      | zero => exact h.2.2
      | succ i => exact ih h.2.2 (Nat.lt_of_succ_lt_succ hi)

/-- Below an object there is room for all that come after it. -/
lemma Packed.total_drop_le (h : Packed st sz lo top l) {i : ℕ} (hi : i < l.length) :
    lo + total sz (l.drop (i + 1)) ≤ st l[i] :=
  (h.drop hi).total_le (h.mem _ (List.getElem_mem hi)).1

lemma total_insertIdx {i : ℕ} (hi : i ≤ l.length) : total sz (l.insertIdx i a) = sz a + total sz l := by
  have hperm := (List.perm_insertIdx a l hi).map sz
  rw [total, hperm.sum_eq, List.map_cons, List.sum_cons, total]

/-- When the objects follow one another from `lo` on, all that is free is above the first. -/
lemma exists_fits_iff {n : ℕ} (hst : ∀ i (hi : i < l.length), st l[i] = lo + total sz (l.drop (i + 1)))
    (htop : lo + total sz l ≤ top) : (∃ i ≤ l.length, Fits st sz lo top l n i) ↔ lo + total sz l + n ≤ top := by
  have hbase : ∀ i ≤ l.length, gapBase st sz lo l i = lo + total sz (l.drop i) := by
    intro i hi
    rcases Nat.lt_or_eq_of_le hi with hlt | rfl
    · rw [gapBase_of_lt hlt, hst i hlt, total_drop hlt]
      omega
    · rw [gapBase_of_le le_rfl, List.drop_length, total_nil, Nat.add_zero]
  constructor
  · rintro ⟨i, hi, hfits⟩
    rw [Fits, hbase i hi] at hfits
    cases i with
    | zero =>
        rw [gapTop_zero, List.drop_zero] at hfits
        exact hfits
    | succ i =>
        -- between two objects there is room for nothing
        rw [gapTop_succ_of_lt hi, hst i hi] at hfits
        omega
  · intro hle
    refine ⟨0, Nat.zero_le _, ?_⟩
    rw [Fits, hbase 0 (Nat.zero_le _), gapTop_zero, List.drop_zero]
    exact hle

/-- Where the objects are, and how large, when the gaps between those that take cells have been
closed; an object without cells stays where it is. -/
def settle (st sz : α → ℕ) (lo : ℕ) : List α → List (ℕ × ℕ)
  | [] => []
  | a :: l => (if sz a = 0 then st a else lo + total sz l, sz a) :: settle st sz lo l

/-- The objects without cells stand right above those that come after them. -/
def Tight (st sz : α → ℕ) (lo : ℕ) : List α → Prop
  | [] => True
  | a :: l => (sz a = 0 → st a = lo + total sz l) ∧ Tight st sz lo l

/-- Those that have an object with cells before them do. -/
def TightAfter (st sz : α → ℕ) (lo : ℕ) : List α → Prop
  | [] => True
  | a :: l => if sz a = 0 then TightAfter st sz lo l else Tight st sz lo l

lemma packed_settle_total (h : Packed st sz lo top l) :
    Packed Prod.fst Prod.snd lo (lo + total sz l) (settle st sz lo l) ↔ Tight st sz lo l := by
  induction l generalizing top with
  | nil => exact Iff.rfl
  | cons a l ih =>
      obtain ⟨hlo, htop, hrest⟩ := h
      have hroom := hrest.total_le hlo
      have hl := ih hrest
      simp only [settle, Packed, Tight, total_cons]
      by_cases hz : sz a = 0
      · simp only [hz, if_true, Nat.zero_add, Nat.add_zero, true_imp_iff]
        constructor
        · rintro ⟨-, hle, hp⟩
          have he : st a = lo + total sz l := le_antisymm hle hroom
          exact ⟨he, hl.1 (he ▸ hp)⟩
        · rintro ⟨he, ht⟩
          exact ⟨hlo, he.le, he ▸ hl.2 ht⟩
      · simp only [hz, if_false, false_imp_iff, true_and, ← hl]
        exact ⟨fun hp => hp.2.2, fun hp => ⟨Nat.le_add_right .., by omega, hp⟩⟩

lemma packed_settle (h : Packed st sz lo top l) :
    Packed Prod.fst Prod.snd lo top (settle st sz lo l) ↔ TightAfter st sz lo l := by
  induction l generalizing top with
  | nil => exact Iff.rfl
  | cons a l ih =>
      obtain ⟨hlo, htop, hrest⟩ := h
      have hroom := hrest.total_le hlo
      simp only [settle, Packed, TightAfter]
      by_cases hz : sz a = 0
      · simp only [hz, if_true, Nat.add_zero, ← ih hrest]
        exact ⟨fun hp => hp.2.2, fun hp => ⟨hlo, by omega, hp⟩⟩
      · simp only [hz, if_false, ← packed_settle_total hrest]
        exact ⟨fun hp => hp.2.2, fun hp => ⟨Nat.le_add_right .., by omega, hp⟩⟩

lemma packed_map : Packed Prod.fst Prod.snd lo top (l.map fun a => (st a, sz a)) ↔
    Packed st sz lo top l := by
  induction l generalizing top with
  | nil => exact Iff.rfl
  | cons a l ih => exact and_congr_right fun _ => and_congr_right fun _ => ih

@[simp] lemma settle_length : (settle st sz lo l).length = l.length := by
  induction l with
  | nil => rfl
  | cons a l ih => exact congrArg (· + 1) ih

lemma settle_getElem {i : ℕ} (hi : i < l.length) (hi' : i < (settle st sz lo l).length) :
    (settle st sz lo l)[i]
      = (if sz l[i] = 0 then st l[i] else lo + total sz (l.drop (i + 1)), sz l[i]) := by
  induction l generalizing i with
  | nil => exact absurd hi (Nat.not_lt_zero i)
  | cons a l ih =>
      cases i with
      | zero => rfl
      | succ i => exact ih (Nat.lt_of_succ_lt_succ hi) _

lemma tight_iff : Tight st sz lo l ↔ ∀ i (hi : i < l.length), sz l[i] = 0 →
    st l[i] = lo + total sz (l.drop (i + 1)) := by
  induction l with
  | nil => exact iff_of_true trivial fun i hi => absurd hi (Nat.not_lt_zero i)
  | cons a l ih =>
      rw [Tight, ih]
      constructor
      · rintro ⟨h0, hl⟩ i hi hz
        cases i with
        | zero => exact h0 hz
        | succ i => exact hl i (Nat.lt_of_succ_lt_succ hi) hz
      · intro h
        exact ⟨fun hz => h 0 (Nat.succ_pos _) hz, fun i hi hz => h (i + 1) (Nat.succ_lt_succ hi) hz⟩

lemma tightAfter_iff : TightAfter st sz lo l ↔ ∀ i j (hi : i < l.length) (hj : j < i),
    sz l[i] = 0 → sz l[j] ≠ 0 → st l[i] = lo + total sz (l.drop (i + 1)) := by
  induction l with
  | nil => exact iff_of_true trivial fun i j hi => absurd hi (Nat.not_lt_zero i)
  | cons a l ih =>
      rw [TightAfter]
      split_ifs with hz
      · rw [ih]
        constructor
        · intro h i j hi hj hzi hzj
          cases j with
          | zero => exact absurd hz hzj
          | succ j =>
              cases i with
              | zero => exact absurd hj (Nat.not_lt_zero _)
              | succ i => exact h i j (Nat.lt_of_succ_lt_succ hi) (Nat.lt_of_succ_lt_succ hj) hzi hzj
        · intro h i j hi hj hzi hzj
          exact h (i + 1) (j + 1) (Nat.succ_lt_succ hi) (Nat.succ_lt_succ hj) hzi hzj
      · rw [tight_iff]
        constructor
        · intro h i j hi hj hzi hzj
          cases i with
          | zero => exact absurd hj (Nat.not_lt_zero _)
          | succ i => exact h i (Nat.lt_of_succ_lt_succ hi) hzi
        · intro h i hi hzi
          exact h (i + 1) 0 (Nat.succ_lt_succ hi) (Nat.succ_pos i) hzi hz

end Extents

end Udfs
