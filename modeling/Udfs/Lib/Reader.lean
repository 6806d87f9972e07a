import Mathlib

/-!
# Readers of a text

A text has a character at every position, and behind every position comes the next one.  A reader goes
through it from a position on and gives a value and the position behind, or nothing.  A grammar tells
which characters stand for which value; `Reads` says that a reader gives a value exactly where the text
goes on with characters that stand for it, and rejects everything else.
-/

namespace Udfs

section

variable {I C α β : Type} (next : I → I) (text : I → C)

/-- The text between two positions. -/
inductive Spells : I → List C → I → Prop
  | nil (y : I) : Spells y [] y
  | cons {y z : I} {l : List C} (rest : Spells (next y) l z) : Spells y (text y :: l) z

/-- The text at a position begins with these characters. -/
def Begins (y : I) (l : List C) : Prop := ∃ z, Spells next text y l z

/-- The reader gives a value exactly where the text goes on with characters for it. -/
def Reads (p : StateT I Option α) (G : List C → α → Prop) : Prop :=
  ∀ y v z, p y = some (v, z) ↔ ∃ l, G l v ∧ Spells next text y l z

/-- Characters for a value, and behind them characters for another. -/
def Follow (G : List C → α → Prop) (H : α → List C → β → Prop) (l : List C) (w : β) : Prop :=
  ∃ l₁ l₂ v, G l₁ v ∧ H v l₂ w ∧ l = l₁ ++ l₂

variable {next text} {G G' : List C → α → Prop} {H : α → List C → β → Prop} {p : StateT I Option α}
  {q : α → StateT I Option β} {y z : I} {a : C} {l l' : List C} {v : α}

/-! ## The text -/

lemma spells_nil : Spells next text y [] z ↔ y = z := by
  constructor
  · rintro ⟨⟩
    rfl
  · rintro rfl
    exact .nil y

lemma spells_cons : Spells next text y (a :: l) z ↔ text y = a ∧ Spells next text (next y) l z := by
  constructor
  · intro h
    cases h with
    | cons rest => exact ⟨rfl, rest⟩
  · rintro ⟨rfl, rest⟩
    exact .cons rest

lemma spells_append : Spells next text y (l ++ l') z ↔
    ∃ w, Spells next text y l w ∧ Spells next text w l' z := by
  induction l generalizing y with
  | nil => simp [spells_nil]
  | cons a l ih => simp only [List.cons_append, spells_cons, ih, and_assoc, exists_and_left]

lemma begins_append : Begins next text y (l ++ l') ↔
    ∃ w, Spells next text y l w ∧ Begins next text w l' := by
  constructor
  · rintro ⟨z, hz⟩
    obtain ⟨w, hl, hl'⟩ := spells_append.1 hz
    exact ⟨w, hl, z, hl'⟩
  · rintro ⟨w, hl, z, hl'⟩
    exact ⟨z, spells_append.2 ⟨w, hl, hl'⟩⟩

lemma begins_cons : Begins next text y (a :: l) ↔ text y = a ∧ Begins next text (next y) l := by
  simp only [Begins, spells_cons, exists_and_left]

instance decidableBegins [DecidableEq C] : ∀ (y : I) (l : List C), Decidable (Begins next text y l)
  | y, [] => isTrue ⟨y, .nil y⟩
  | y, _ :: l =>
      have := decidableBegins (next y) l
      decidable_of_iff _ begins_cons.symm

/-! ## Readers -/

lemma Reads.congr (h : Reads next text p G) (hG : ∀ l v, G l v ↔ G' l v) : Reads next text p G' := by
  intro y v z
  simp only [h y v z, hG]

lemma Reads.eq_some (h : Reads next text p G) (hv : G l v) (hl : Spells next text y l z) :
    p y = some (v, z) := (h y v z).2 ⟨l, hv, hl⟩

/-- What is rejected. -/
lemma Reads.eq_none (h : Reads next text p G) (hno : ¬ ∃ l v, G l v ∧ Begins next text y l) :
    p y = none := by
  cases hp : p y with
  | none => rfl
  | some r =>
      obtain ⟨l, hv, hl⟩ := (h y r.1 r.2).1 hp
      exact absurd ⟨l, r.1, hv, r.2, hl⟩ hno

lemma reads_pure (v : α) : Reads next text (pure v) (fun l w => l = [] ∧ w = v) := by
  intro y w z
  constructor
  · rintro ⟨⟩
    exact ⟨[], ⟨rfl, rfl⟩, .nil y⟩
  · rintro ⟨l, ⟨rfl, rfl⟩, hl⟩
    rw [spells_nil.1 hl]
    rfl

/-- **One reader after another.** -/
lemma Reads.bind (hp : Reads next text p G) (hq : ∀ v, Reads next text (q v) (H v)) :
    Reads next text (p >>= q) (Follow G H) := by
  intro y w z
  have hbind : (p >>= q) y = (p y).bind fun r => q r.1 r.2 := rfl
  rw [hbind, Option.bind_eq_some_iff]
  constructor
  · rintro ⟨⟨v, x⟩, hv, hw⟩
    obtain ⟨l₁, hG, hl₁⟩ := (hp y v x).1 hv
    obtain ⟨l₂, hH, hl₂⟩ := (hq v x w z).1 hw
    exact ⟨l₁ ++ l₂, ⟨l₁, l₂, v, hG, hH, rfl⟩, spells_append.2 ⟨x, hl₁, hl₂⟩⟩
  · rintro ⟨l, ⟨l₁, l₂, v, hG, hH, rfl⟩, hl⟩
    obtain ⟨x, hl₁, hl₂⟩ := spells_append.1 hl
    exact ⟨(v, x), hp.eq_some hG hl₁, (hq v).eq_some hH hl₂⟩

/-- A reader of a single character. -/
lemma reads_item (f : C → Option α) (hp : ∀ y, p y = (f (text y)).map fun v => (v, next y)) :
    Reads next text p (fun l v => ∃ a, f a = some v ∧ l = [a]) := by
  intro y v z
  rw [hp, Option.map_eq_some_iff]
  constructor
  · rintro ⟨w, hw, heq⟩
    obtain ⟨rfl, rfl⟩ := Prod.mk.inj heq
    exact ⟨[text y], ⟨text y, hw, rfl⟩, .cons (.nil _)⟩
  · rintro ⟨l, ⟨a, ha, rfl⟩, hl⟩
    obtain ⟨rfl, hz⟩ := spells_cons.1 hl
    exact ⟨v, ha, by rw [spells_nil.1 hz]⟩


/-- **A choice by the next character.** -/
lemma Reads.choose {c : C → Prop} [DecidablePred c] {p₁ p₂ : StateT I Option α} {G₁ G₂ : List C → α → Prop}
    (h₁ : Reads next text p₁ G₁) (h₂ : Reads next text p₂ G₂)
    (hp : ∀ y, p y = if c (text y) then p₁ y else p₂ y)
    (hne₁ : ∀ v, ¬ G₁ [] v) (hne₂ : ∀ v, ¬ G₂ [] v) :
    Reads next text p (fun l v => ∃ a ∈ l.head?, if c a then G₁ l v else G₂ l v) := by
  have hhead : ∀ {y z : I} {l : List C}, l ≠ [] → Spells next text y l z → text y ∈ l.head? := by
    intro y z l hl h
    obtain ⟨a, l, rfl⟩ := List.exists_cons_of_ne_nil hl
    rw [(spells_cons.1 h).1]
    rfl
  intro y v z
  rw [hp]
  constructor
  · intro h
    by_cases hy : c (text y)
    · rw [if_pos hy] at h
      obtain ⟨l, hG, hl⟩ := (h₁ y v z).1 h
      have hnil : l ≠ [] := fun hnil => hne₁ v (hnil ▸ hG)
      exact ⟨l, ⟨text y, hhead hnil hl, by rwa [if_pos hy]⟩, hl⟩
    · rw [if_neg hy] at h
      obtain ⟨l, hG, hl⟩ := (h₂ y v z).1 h
      have hnil : l ≠ [] := fun hnil => hne₂ v (hnil ▸ hG)
      exact ⟨l, ⟨text y, hhead hnil hl, by rwa [if_neg hy]⟩, hl⟩
  · rintro ⟨l, ⟨a, ha, hG⟩, hl⟩
    obtain ⟨l, rfl⟩ := List.head?_eq_some_iff.1 ha
    rw [(spells_cons.1 hl).1]
    by_cases hc : c a
    · rw [if_pos hc] at hG ⊢
      exact h₁.eq_some hG hl
    · rw [if_neg hc] at hG ⊢
      exact h₂.eq_some hG hl

end

end Udfs
