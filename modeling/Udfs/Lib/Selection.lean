import Mathlib

/-!
# Picking the least, over and over

From a finite set something least is taken, then something least of what is left, until nothing is
left.  What comes out is the set in ascending order, each member once.
-/

namespace Udfs

variable {ι κ : Type*} [DecidableEq ι] [LE κ]

/-- Taking one with a least key of those left, until none is left, gives the list. -/
inductive Picks (key : ι → κ) : Finset ι → List ι → Prop where
  | none : Picks key ∅ []
  | pick {s : Finset ι} {i : ι} {l : List ι} : i ∈ s → (∀ j ∈ s, key i ≤ key j) →
      Picks key (s.erase i) l → Picks key s (i :: l)

namespace Picks

variable {key : ι → κ} {s : Finset ι} {l : List ι}

/-- Exactly the members are picked. -/
lemma mem_iff (h : Picks key s l) (i : ι) : i ∈ l ↔ i ∈ s := by
  induction h with
  | none => simp
  | pick hi _ _ ih =>
      rw [List.mem_cons, ih, Finset.mem_erase]
      constructor
      · rintro (rfl | h)
        · exact hi
        · exact h.2
      · intro h
        exact or_iff_not_imp_left.2 fun hne => ⟨hne, h⟩

/-- None is picked twice. -/
lemma nodup (h : Picks key s l) : l.Nodup := by
  induction h with
  | none => exact List.nodup_nil
  | pick _ _ hl ih =>
      refine List.nodup_cons.2 ⟨fun hmem => ?_, ih⟩
      exact Finset.notMem_erase _ _ ((hl.mem_iff _).1 hmem)

/-- Each comes before those with a greater key. -/
lemma pairwise (h : Picks key s l) : l.Pairwise fun i j => key i ≤ key j := by
  induction h with
  | none => exact List.Pairwise.nil
  | pick _ hmin hl ih =>
      refine List.pairwise_cons.2 ⟨fun j hj => hmin j ?_, ih⟩
      exact Finset.mem_of_mem_erase ((hl.mem_iff j).1 hj)

/-- With the same keys the same list can be picked. -/
lemma congr {key' : ι → κ} (h : Picks key s l) (he : ∀ i ∈ s, key i = key' i) :
    Picks key' s l := by
  induction h with
  | none => exact .none
  | pick hi hmin _ ih =>
      refine .pick hi (fun j hj => ?_) (ih fun j hj => he j (Finset.mem_of_mem_erase hj))
      rw [← he _ hi, ← he j hj]
      exact hmin j hj

end Picks

end Udfs
