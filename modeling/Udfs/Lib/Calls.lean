import Udfs.Lib.Prog

/-!
# Calls answered one after another

A machine is called again and again, and answers every call with a value or an error.  An abstract
machine says what the answers should be, and which calls may be made of it next.  When every call
is answered as the abstract machine answers it, and leaves the two machines related as they were,
then so is every sequence of calls.
-/

namespace Udfs

namespace Calls

variable {Op α ρ σ ε : Type}

/-- The answer to a call, and the state it leaves. -/
def answer (x : Prog σ ε ρ) (s : σ) : Except ε ρ × σ :=
  match x.run s with
  | .ok r s' => (.ok r, s')
  | .err e s' => (.error e, s')

/-- The answers to one call after another. -/
def answers (call : Op → Prog σ ε ρ) : List Op → σ → List (Except ε ρ) × σ
  | [], s => ([], s)
  | op :: l, s =>
      let r := answer (call op) s
      let rest := answers call l r.2
      (r.1 :: rest.1, rest.2)

/-- What an abstract machine answers. -/
def replies (apply : α → Op → Except ε ρ × α) : List Op → α → List (Except ε ρ) × α
  | [], a => ([], a)
  | op :: l, a =>
      let r := apply a op
      let rest := replies apply l r.2
      (r.1 :: rest.1, rest.2)

/-- Every call of the sequence may be made of the abstract machine when its turn comes. -/
def Allowed (valid : α → Op → Prop) (apply : α → Op → Except ε ρ × α) : List Op → α → Prop
  | [], _ => True
  | op :: l, a => valid a op ∧ Allowed valid apply l (apply a op).2

lemma answer_ok {x : Prog σ ε ρ} {s s' : σ} {r : ρ} (h : x.run s = .ok r s') : answer x s = (.ok r, s') := by
  rw [answer, h]

lemma answer_err {x : Prog σ ε ρ} {s s' : σ} {e : ε} (h : x.run s = .err e s') :
    answer x s = (.error e, s') := by
  rw [answer, h]

lemma answer_beside {τ : Type} (x : Prog σ ε ρ) (s : σ × τ) :
    answer x.beside s = ((answer x s.1).1, (answer x s.1).2, s.2) := by
  rcases hrun : x.run s.1 with ⟨r, t⟩ | ⟨e, t⟩
  · rw [answer_ok (Prog.run_beside_ok hrun), answer_ok hrun]
  · rw [answer_err (Prog.run_beside_err hrun), answer_err hrun]

/-- One call keeps the machines related. -/
def Simulates (call : Op → Prog σ ε ρ) (valid : α → Op → Prop) (apply : α → Op → Except ε ρ × α)
    (Rel : α → σ → Prop) : Prop :=
  ∀ a s op, Rel a s → valid a op →
    (answer (call op) s).1 = (apply a op).1 ∧ Rel (apply a op).2 (answer (call op) s).2

variable {call : Op → Prog σ ε ρ} {valid : α → Op → Prop} {apply : α → Op → Except ε ρ × α}
  {Rel : α → σ → Prop}

/-- Calls that may be made in every state. -/
lemma allowed_of_forall {ok : Op → Prop} (h : ∀ {a op}, ok op → valid a op) (l : List Op) :
    (∀ op ∈ l, ok op) → ∀ a, Allowed valid apply l a := by
  induction l with
  | nil =>
      intro _ a
      trivial
  | cons op l ih =>
      intro hl a
      exact ⟨h (hl op List.mem_cons_self), ih (fun op' hop => hl op' (List.mem_cons_of_mem _ hop)) _⟩

/-- And so does every sequence of calls. -/
lemma Simulates.run (h : Simulates call valid apply Rel) (l : List Op) :
    ∀ {a : α} {s : σ}, Rel a s → Allowed valid apply l a →
      (answers call l s).1 = (replies apply l a).1 ∧ Rel (replies apply l a).2 (answers call l s).2 := by
  induction l with
  | nil =>
      intro a s hrel _
      exact ⟨rfl, hrel⟩
  | cons op l ih =>
      intro a s hrel hl
      obtain ⟨hop, hrest⟩ := hl
      obtain ⟨hanswer, hrel'⟩ := h a s op hrel hop
      obtain ⟨hanswers, hfinal⟩ := ih hrel' hrest
      simp only [answers, replies]
      exact ⟨by rw [hanswer, hanswers], hfinal⟩

/-! ## Answers left open -/

end Calls

end Udfs
