import Mathlib

/-!
# Lists searched by a key

A list of objects of which each has a key that no other has is a finite map that has kept its
order.  Taking an object out, putting one in and replacing one by another with its key change what
is found under that key and nothing else, wherever in the list it happens.
-/

namespace Udfs

namespace Keyed

variable {α κ : Type*} (key : α → κ)

/-! ## Distinct keys -/

/-- No two objects have the same key. -/
def Distinct (l : List α) : Prop := (l.map key).Nodup

variable {key} {l : List α} {a b : α} {k : κ} {i : ℕ}

lemma Distinct.inj (h : Distinct key l) (ha : a ∈ l) (hb : b ∈ l) (he : key a = key b) : a = b :=
  List.inj_on_of_nodup_map h ha hb he

lemma Distinct.eraseIdx (h : Distinct key l) (i : ℕ) : Distinct key (l.eraseIdx i) :=
  h.sublist ((List.eraseIdx_sublist l i).map key)

lemma Distinct.insertIdx (h : Distinct key l) (hi : i ≤ l.length) (ha : ∀ b ∈ l, key b ≠ key a) :
    Distinct key (l.insertIdx i a) := by
  have hperm := (List.perm_insertIdx a l hi).map key
  rw [Distinct, hperm.nodup_iff, List.map_cons, List.nodup_cons]
  refine ⟨fun hmem => ?_, h⟩
  obtain ⟨b, hb, he⟩ := List.mem_map.1 hmem
  exact ha b hb he

lemma Distinct.set (h : Distinct key l) (hi : i < l.length) (ha : key a = key l[i]) :
    Distinct key (l.set i a) := by
  have hmap : (l.set i a).map key = l.map key := by
    rw [List.map_set, ha]
    exact List.ext_getElem (by simp) fun j h1 h2 => by
      rw [List.getElem_set]
      split_ifs with hij
      · subst hij
        simp
      · rfl
  rw [Distinct, hmap]
  exact h

/-! ## What is found under a key -/

variable [DecidableEq κ]

variable (key) in
/-- The object with a key. -/
def lookup (l : List α) (k : κ) : Option α := l.find? fun a => key a = k

lemma lookup_eq_none : lookup key l k = none ↔ ∀ a ∈ l, key a ≠ k := by
  simp [lookup]

/-- The object found is the one that has the key. -/
lemma lookup_eq_some (h : Distinct key l) : lookup key l k = some a ↔ a ∈ l ∧ key a = k := by
  constructor
  · intro hfind
    exact ⟨List.mem_of_find?_eq_some hfind, by simpa using List.find?_some hfind⟩
  · rintro ⟨hmem, rfl⟩
    obtain ⟨b, hb⟩ : ∃ b, lookup key l (key a) = some b := by
      rw [← Option.ne_none_iff_exists']
      intro hnone
      exact lookup_eq_none.1 hnone a hmem rfl
    have hkey : key b = key a := by simpa using List.find?_some hb
    rw [hb, h.inj (List.mem_of_find?_eq_some hb) hmem hkey]

lemma lookup_getElem (h : Distinct key l) (hi : i < l.length) : lookup key l (key l[i]) = some l[i] :=
  (lookup_eq_some h).2 ⟨List.getElem_mem hi, rfl⟩

lemma lookup_insertIdx (h : Distinct key l) (hi : i ≤ l.length) (ha : lookup key l (key a) = none) :
    lookup key (l.insertIdx i a) = Function.update (lookup key l) (key a) (some a) := by
  have hd := h.insertIdx hi (lookup_eq_none.1 ha)
  funext k
  by_cases hk : k = key a
  · subst hk
    rw [Function.update_self, lookup_eq_some hd]
    exact ⟨(List.mem_insertIdx hi).2 (Or.inl rfl), rfl⟩
  · rw [Function.update_of_ne hk]
    ext b
    rw [lookup_eq_some hd, lookup_eq_some h, List.mem_insertIdx hi]
    constructor
    · rintro ⟨rfl | hb, rfl⟩
      · exact absurd rfl hk
      · exact ⟨hb, rfl⟩
    · rintro ⟨hb, rfl⟩
      exact ⟨Or.inr hb, rfl⟩

end Keyed

end Udfs
