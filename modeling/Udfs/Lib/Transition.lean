import Mathlib

/-!
# Runs of a transition system

What every run keeps, and where every run gets.  A system is a set of initial states and a
step relation.
-/

namespace Udfs

variable {σ : Type} {init : σ → Prop} {step : σ → σ → Prop} {P Q : σ → Prop}

/-- A state that some run reaches. -/
inductive Reachable (init : σ → Prop) (step : σ → σ → Prop) : σ → Prop where
  | start {s : σ} : init s → Reachable init step s
  | next {s s' : σ} : Reachable init step s → step s s' → Reachable init step s'

/-- What holds at the start and is kept by every step holds in every reachable state. -/
lemma Reachable.invariant (hinit : ∀ s, init s → P s) (hstep : ∀ s s', P s → step s s' → P s')
    {s : σ} (h : Reachable init step s) : P s := by
  induction h with
  | start h => exact hinit _ h
  | next _ hs ih => exact hstep _ _ ih hs

/-- Fewer steps reach fewer states. -/
lemma Reachable.mono {step' : σ → σ → Prop} (hsub : ∀ s s', step s s' → step' s s') {s : σ}
    (h : Reachable init step s) : Reachable init step' s := by
  induction h with
  | start h => exact .start h
  | next _ hs ih => exact ih.next (hsub _ _ hs)

/-- Every run from the state comes to `P`, and none gets stuck before it. -/
inductive Inevitably (step : σ → σ → Prop) (P : σ → Prop) : σ → Prop where
  | now {s : σ} : P s → Inevitably step P s
  | later {s : σ} : (∃ s', step s s') → (∀ s', step s s' → Inevitably step P s') →
      Inevitably step P s

lemma Inevitably.mono {s : σ} (h : Inevitably step P s) (hPQ : ∀ s, P s → Q s) : Inevitably step Q s := by
  induction h with
  | now hP => exact .now (hPQ _ hP)
  | later hmove _ ih => exact .later hmove ih

/-- A property that some step keeps wherever there is a step still holds in some state at `P`. -/
lemma Inevitably.exists_of_kept {J : σ → Prop} {s : σ} (h : Inevitably step P s) (hJ : J s)
    (hkeep : ∀ s s', J s → step s s' → ∃ t, step s t ∧ J t) : ∃ t, P t ∧ J t := by
  induction h with
  | now hP => exact ⟨_, hP, hJ⟩
  | later hmove _ ih =>
      obtain ⟨s', hs'⟩ := hmove
      obtain ⟨t, ht, hJt⟩ := hkeep _ s' hJ hs'
      exact ih t ht hJt

/-- What is inevitable in a system is so in one that it simulates and that has a step wherever it
has one. -/
lemma Inevitably.of_simulation {τ : Type} {step' : τ → τ → Prop} {Q : τ → Prop} (R : τ → σ → Prop)
    (hPQ : ∀ t s, R t s → P s → Q t)
    (hmove : ∀ t s s', R t s → step s s' → ∃ t', step' t t')
    (hsim : ∀ t s t', R t s → step' t t' → ∃ s', step s s' ∧ R t' s')
    {s : σ} (h : Inevitably step P s) : ∀ {t : τ}, R t s → Inevitably step' Q t := by
  induction h with
  | now hP => exact fun hR => .now (hPQ _ _ hR hP)
  | later hgo _ ih =>
      intro t hR
      obtain ⟨s', hs'⟩ := hgo
      refine .later (hmove t _ s' hR hs') fun t' ht' => ?_
      obtain ⟨u, hu, hRu⟩ := hsim t _ t' hR ht'
      exact ih u hu hRu

/-- Runs that can go on until they are at `P`, and go down in a well-founded order as long as
they are not, get to `P`.  The invariant tells at which place of the order a state is. -/
lemma Inevitably.of_wellFounded {ι : Type} {lt : ι → ι → Prop} (hwf : WellFounded lt)
    (Inv : ι → σ → Prop) (hmove : ∀ i s, Inv i s → ¬ P s → ∃ s', step s s')
    (hdown : ∀ i s s', Inv i s → ¬ P s → step s s' → ∃ j, lt j i ∧ Inv j s') :
    ∀ i s, Inv i s → Inevitably step P s := by
  intro i
  induction i using hwf.induction with
  | _ i ih =>
      intro s hs
      by_cases hP : P s
      · exact .now hP
      · refine .later (hmove i s hs hP) fun s' hstep => ?_
        obtain ⟨j, hlt, hj⟩ := hdown i s s' hs hP hstep
        exact ih j hlt s' hj

end Udfs
