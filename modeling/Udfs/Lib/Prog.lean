import Mathlib

/-!
# Programs with a state and an error exit

A program reads and changes a state and ends either with a value or with an error; in
both cases it leaves a state behind.  An error does not undo what was done before it.

`wp x Q E s` says that the program `x`, run from `s`, ends with a value as `Q` demands
or with an error as `E` demands.  The rules below evaluate it through every way of
building a program, so that a routine is checked by rewriting with the rules and citing
one `wp` fact for each routine it calls.
-/

namespace Udfs

/-- How a run of a program ends. -/
inductive Outcome (σ ε α : Type) where
  | ok (a : α) (s : σ)
  | err (e : ε) (s : σ)

namespace Outcome

variable {σ ε α : Type}

/-- The state left behind. -/
def state : Outcome σ ε α → σ
  | ok _ s => s
  | err _ s => s

@[simp] lemma state_ok (a : α) (s : σ) : (ok a s : Outcome σ ε α).state = s := rfl

@[simp] lemma state_err (e : ε) (s : σ) : (err e s : Outcome σ ε α).state = s := rfl

end Outcome

/-- A program over states `σ` with errors `ε` and values `α`. -/
def Prog (σ ε α : Type) : Type := σ → Outcome σ ε α

namespace Prog

variable {σ ε α β : Type}

/-- Run a program. -/
def run (x : Prog σ ε α) (s : σ) : Outcome σ ε α := x s

instance : Monad (Prog σ ε) where
  pure a := fun s => .ok a s
  bind x f := fun s =>
    match x s with
    | .ok a s' => f a s'
    | .err e s' => .err e s'

/-- The current state. -/
def get : Prog σ ε σ := fun s => .ok s s

/-- A value read off the current state. -/
def gets (f : σ → α) : Prog σ ε α := fun s => .ok (f s) s

/-- Change the state. -/
def modify (f : σ → σ) : Prog σ ε Unit := fun s => .ok () (f s)

/-- Leave with an error, keeping the state. -/
def fail (e : ε) : Prog σ ε α := fun s => .err e s

/-- Do something under a condition. -/
def when (c : Prop) [Decidable c] (x : Prog σ ε Unit) : Prog σ ε Unit := if c then x else pure ()

/-- A program on the first part of the state. -/
def beside {τ : Type} (x : Prog σ ε α) : Prog (σ × τ) ε α := fun s =>
  match x.run s.1 with
  | .ok a t => .ok a (t, s.2)
  | .err e t => .err e (t, s.2)

@[simp] lemma run_pure (a : α) (s : σ) : (pure a : Prog σ ε α).run s = .ok a s := rfl

@[simp] lemma run_get (s : σ) : (get : Prog σ ε σ).run s = .ok s s := rfl

@[simp] lemma run_gets (f : σ → α) (s : σ) : (gets f : Prog σ ε α).run s = .ok (f s) s := rfl

@[simp] lemma run_modify (f : σ → σ) (s : σ) : (modify f : Prog σ ε Unit).run s = .ok () (f s) := rfl

@[simp] lemma run_fail (e : ε) (s : σ) : (fail e : Prog σ ε α).run s = .err e s := rfl

lemma run_bind (x : Prog σ ε α) (f : α → Prog σ ε β) (s : σ) :
    (x >>= f).run s = match x.run s with
      | .ok a s' => (f a).run s'
      | .err e s' => .err e s' := rfl

lemma run_bind_ok {x : Prog σ ε α} {f : α → Prog σ ε β} {s s' : σ} {a : α}
    (h : x.run s = .ok a s') : (x >>= f).run s = (f a).run s' := by
  rw [run_bind, h]

lemma run_bind_err {x : Prog σ ε α} {f : α → Prog σ ε β} {s s' : σ} {e : ε}
    (h : x.run s = .err e s') : (x >>= f).run s = .err e s' := by
  rw [run_bind, h]

lemma run_beside {τ : Type} (x : Prog σ ε α) (s : σ × τ) : x.beside.run s = match x.run s.1 with
    | .ok a t => .ok a (t, s.2)
    | .err e t => .err e (t, s.2) := rfl

lemma run_beside_congr {τ : Type} {x y : Prog σ ε α} {s : σ × τ} (h : x.run s.1 = y.run s.1) :
    x.beside.run s = y.beside.run s := by
  rw [run_beside, run_beside, h]

lemma run_beside_ok {τ : Type} {x : Prog σ ε α} {s : σ × τ} {a : α} {t : σ} (h : x.run s.1 = .ok a t) :
    x.beside.run s = .ok a (t, s.2) := by
  rw [run_beside, h]

lemma run_beside_err {τ : Type} {x : Prog σ ε α} {s : σ × τ} {e : ε} {t : σ} (h : x.run s.1 = .err e t) :
    x.beside.run s = .err e (t, s.2) := by
  rw [run_beside, h]

/-- The beginning of a program may be run as a program of its own. -/
lemma run_bind_assoc {γ : Type} (x : Prog σ ε α) (f : α → Prog σ ε β) (g : β → Prog σ ε γ) (s : σ) :
    (x >>= fun a => f a >>= g).run s = ((x >>= f) >>= g).run s := by
  rw [run_bind, run_bind, run_bind]
  cases x.run s <;> rfl

/-! ## Weakest preconditions -/

/-- The run from `s` ends with a value as `Q` demands or with an error as `E` demands. -/
def wp (x : Prog σ ε α) (Q : α → σ → Prop) (E : ε → σ → Prop) (s : σ) : Prop :=
  match x.run s with
  | .ok a s' => Q a s'
  | .err e s' => E e s'

variable {x : Prog σ ε α} {Q Q' : α → σ → Prop} {E E' : ε → σ → Prop} {s s' : σ}

lemma wp_of_ok {a : α} (h : x.run s = .ok a s') : wp x Q E s ↔ Q a s' := by
  rw [wp, h]

lemma wp_of_err {e : ε} (h : x.run s = .err e s') : wp x Q E s ↔ E e s' := by
  rw [wp, h]

@[simp] lemma wp_pure (a : α) : wp (pure a : Prog σ ε α) Q E s ↔ Q a s := Iff.rfl

@[simp] lemma wp_get {Q : σ → σ → Prop} : wp (get : Prog σ ε σ) Q E s ↔ Q s s := Iff.rfl

@[simp] lemma wp_gets (f : σ → α) : wp (gets f : Prog σ ε α) Q E s ↔ Q (f s) s := Iff.rfl

@[simp] lemma wp_modify (f : σ → σ) {Q : Unit → σ → Prop} :
    wp (modify f : Prog σ ε Unit) Q E s ↔ Q () (f s) := Iff.rfl

@[simp] lemma wp_fail (e : ε) : wp (fail e : Prog σ ε α) Q E s ↔ E e s := Iff.rfl

@[simp] lemma wp_bind (x : Prog σ ε α) (f : α → Prog σ ε β) {Q : β → σ → Prop} :
    wp (x >>= f) Q E s ↔ wp x (fun a t => wp (f a) Q E t) E s := by
  rw [wp, wp, run_bind]
  cases x.run s <;> rfl

lemma wp_ite {c : Prop} [Decidable c] (x y : Prog σ ε α) :
    wp (if c then x else y) Q E s ↔ (c → wp x Q E s) ∧ (¬ c → wp y Q E s) := by
  by_cases h : c <;> simp [h]

lemma wp_when {c : Prop} [Decidable c] {x : Prog σ ε Unit} {Q : Unit → σ → Prop} :
    wp (when c x) Q E s ↔ (c → wp x Q E s) ∧ (¬ c → Q () s) := wp_ite x _

/-- What is demanded may be weakened. -/
lemma wp_mono (h : wp x Q E s) (hQ : ∀ a t, Q a t → Q' a t) (hE : ∀ e t, E e t → E' e t) :
    wp x Q' E' s := by
  rw [wp] at h ⊢
  cases hx : x.run s with
  | ok a t => rw [hx] at h; exact hQ a t h
  | err e t => rw [hx] at h; exact hE e t h

lemma wp_and (h : wp x Q E s) (h' : wp x Q' E' s) :
    wp x (fun a t => Q a t ∧ Q' a t) (fun e t => E e t ∧ E' e t) s := by
  rw [wp] at h h' ⊢
  cases hx : x.run s with
  | ok a t => rw [hx] at h h'; exact ⟨h, h'⟩
  | err e t => rw [hx] at h h'; exact ⟨h, h'⟩

/-- What every part of a program does to the state, the whole does. -/
lemma wp_bind_trans {R : σ → σ → Prop} (htrans : ∀ {s t u}, R s t → R t u → R s u) {f : α → Prog σ ε β}
    (hx : wp x (fun _ => R s) (fun _ => R s) s)
    (hf : ∀ a t, R s t → wp (f a) (fun _ => R t) (fun _ => R t) t) :
    wp (x >>= f) (fun _ => R s) (fun _ => R s) s := by
  rw [wp_bind]
  refine wp_mono hx (fun a t h => ?_) fun _ _ h => h
  exact wp_mono (hf a t h) (fun _ _ h' => htrans h h') fun _ _ h' => htrans h h'

/-- A run that cannot end with an error ends with a value. -/
lemma exists_ok (h : wp x Q E s) (hE : ∀ e t, ¬ E e t) : ∃ a t, x.run s = .ok a t ∧ Q a t := by
  rw [wp] at h
  cases hx : x.run s with
  | ok a t => rw [hx] at h; exact ⟨a, t, rfl, h⟩
  | err e t => rw [hx] at h; exact absurd h (hE e t)

/-- A run that cannot end with a value ends with an error. -/
lemma exists_err (h : wp x Q E s) (hQ : ∀ a t, ¬ Q a t) : ∃ e t, x.run s = .err e t ∧ E e t := by
  rw [wp] at h
  cases hx : x.run s with
  | ok a t => rw [hx] at h; exact absurd h (hQ a t)
  | err e t => rw [hx] at h; exact ⟨e, t, rfl, h⟩

/-- A demand on the state alone holds of the state left behind. -/
lemma wp_state {P : σ → Prop} (h : wp x (fun _ => P) (fun _ => P) s) : P (x.run s).state := by
  rw [wp] at h
  cases hx : x.run s with
  | ok a t => rw [hx] at h; exact h
  | err e t => rw [hx] at h; exact h

end Prog

end Udfs
