import Mathlib

/-!
# Threads as trees of operations

A thread is a tree: at a node it performs an operation on what it shares with others and
goes on according to the answer, at a leaf it is done.  A sequential program with loops
that end is such a tree, and the rest of a thread in the middle of its work is a subtree,
so one state of a concurrent system holds one tree for each thread.

`Rely` describes the world a thread works in: what the others may do while it is about to
perform an operation, what it owes at an operation, and what an operation does.  `Ok Q t w`
says that the thread `t`, started in `w`, owes nothing it does not keep and ends as `Q`
demands, whatever the others do in between.  A proof follows the thread node by node and
gives at each node an assertion that the others cannot break.
-/

namespace Udfs

/-- A thread over the operations `Op` with answers `Ans` that ends with an `α`. -/
inductive Tree (Op : Type) (Ans : Op → Type) (α : Type) : Type where
  | ret (a : α)
  | op (o : Op) (k : Ans o → Tree Op Ans α)

namespace Tree

variable {Op : Type} {Ans : Op → Type} {α β : Type}

/-- One thread after another. -/
protected def bind : Tree Op Ans α → (α → Tree Op Ans β) → Tree Op Ans β
  | ret a, f => f a
  | op o k, f => op o fun x => (k x).bind f

instance : Monad (Tree Op Ans) where
  pure := ret
  bind := Tree.bind

/-- The thread of a single operation. -/
def perform (o : Op) : Tree Op Ans (Ans o) := op o ret

@[simp] lemma pure_eq (a : α) : (pure a : Tree Op Ans α) = ret a := rfl

@[simp] lemma ret_bind (a : α) (f : α → Tree Op Ans β) : ret a >>= f = f a := rfl

@[simp] lemma op_bind (o : Op) (k : Ans o → Tree Op Ans α) (f : α → Tree Op Ans β) :
    op o k >>= f = op o fun x => k x >>= f := rfl

@[simp] lemma perform_bind (o : Op) (f : Ans o → Tree Op Ans β) :
    perform o >>= f = op o f := rfl

instance : LawfulMonad (Tree Op Ans) := LawfulMonad.mk' _
  (fun t => by
    induction t with
    | ret a => rfl
    | op o k ih => exact congrArg (op o) (funext ih))
  (fun _ _ => rfl)
  (fun t f g => by
    induction t with
    | ret a => rfl
    | op o k ih => exact congrArg (op o) (funext ih))

/-! ## Being on the way to the end -/

/-- `Child t' t`: the thread `t` becomes `t'` with its next operation. -/
inductive Child : Tree Op Ans α → Tree Op Ans α → Prop where
  | mk (o : Op) (k : Ans o → Tree Op Ans α) (a : Ans o) : Child (k a) (op o k)

/-- A thread performs finitely many operations. -/
lemma child_wf : WellFounded (Child : Tree Op Ans α → Tree Op Ans α → Prop) := by
  refine ⟨fun t => ?_⟩
  induction t with
  | ret a => exact ⟨_, fun t' h => by cases h⟩
  | op o k ih =>
      refine ⟨_, fun t' h => ?_⟩
      cases h with
      | mk _ _ a => exact ih a

/-! ## What a thread ends with -/

/-- Whatever the answers are, the thread ends with a value that `Q` allows. -/
def Ends (Q : α → Prop) : Tree Op Ans α → Prop
  | ret a => Q a
  | op _ k => ∀ x, (k x).Ends Q

variable {P : α → Prop} {Q : β → Prop} {t : Tree Op Ans α} {f : α → Tree Op Ans β}

/-- The rule of one thread after another. -/
lemma Ends.bind (h : t.Ends P) (hf : ∀ a, P a → (f a).Ends Q) : (t >>= f).Ends Q := by
  induction t with
  | ret a => exact hf a h
  | op o k ih =>
      intro x
      exact ih x (h x)

/-- The same, where nothing is asked of the first one. -/
lemma ends_bind (t : Tree Op Ans α) (hf : ∀ a, (f a).Ends Q) : (t >>= f).Ends Q := by
  induction t with
  | ret a => exact hf a
  | op o k ih => exact ih

/-! ## Machines that follow a thread -/

section Follows

variable {M : Type} (next : M → Option (Σ o, Ans o → M)) (R : α → M → Prop) (N : α → Prop)

/-- A machine that performs the operations of the thread and is done when it is, with what `R`
allows.  Where all that is left of the thread ends with a value that `N` allows, nothing is asked. -/
def Follows : Tree Op Ans α → M → Prop
  | ret a, m => next m = none ∧ R a m
  | op o k, m => ∃ k', next m = some ⟨o, k'⟩ ∧ ∀ x, (k x).Follows (k' x) ∨ (k x).Ends N

variable {next R N} {m : M} {o : Op} {k : Ans o → Tree Op Ans α} {k' : Ans o → M}

lemma follows_op (hnext : next m = some ⟨o, k'⟩) (h : ∀ x, (k x).Follows next R N (k' x)) :
    (op o k).Follows next R N m := ⟨k', hnext, fun x => Or.inl (h x)⟩

end Follows

end Tree

/-! ## The world of a thread -/

/-- The world of a thread with operations `Op` that shares a `W` with others. -/
structure Rely (Op : Type) (Ans : Op → Type) (W : Type) where
  /-- one step of the others while the thread is about to perform the operation -/
  env : Op → W → W → Prop
  /-- what the thread owes when it is about to perform the operation -/
  safe : Op → W → Prop
  /-- what the operation answers and does -/
  act : (o : Op) → W → Ans o → W → Prop

namespace Rely

variable {Op : Type} {Ans : Op → Type} {W α β : Type} (R : Rely Op Ans W)

/-- The thread keeps what it owes and ends as `Q` demands. -/
def Ok (Q : α → W → Prop) : Tree Op Ans α → W → Prop
  | .ret a, w => Q a w
  | .op o k, w => ∀ w', Relation.ReflTransGen (R.env o) w w' →
      R.safe o w' ∧ ∀ a w'', R.act o w' a w'' → Ok Q (k a) w''

variable {R} {Q Q' : α → W → Prop} {o : Op} {k : Ans o → Tree Op Ans α} {w w' : W}

@[simp] lemma ok_ret {a : α} : R.Ok Q (.ret a) w ↔ Q a w := Iff.rfl

lemma Ok.safe (h : R.Ok Q (.op o k) w) : R.safe o w := (h w .refl).1

lemma Ok.act {a : Ans o} (h : R.Ok Q (.op o k) w) (ha : R.act o w a w') : R.Ok Q (k a) w' :=
  (h w .refl).2 a w' ha

/-- The others cannot break it. -/
lemma Ok.env (h : R.Ok Q (.op o k) w) (he : R.env o w w') : R.Ok Q (.op o k) w' :=
  fun _ hw => h _ (.head he hw)

/-- **The rule of an operation.**  An assertion that the others keep, that pays what is
owed and after which every outcome is well, makes the operation well. -/
lemma ok_op (P : W → Prop) (hP : P w) (hstable : ∀ w w', P w → R.env o w w' → P w')
    (hsafe : ∀ w, P w → R.safe o w)
    (hact : ∀ w a w', P w → R.act o w a w' → R.Ok Q (k a) w') : R.Ok Q (.op o k) w := by
  intro w' hw
  have hP' : P w' := by
    induction hw with
    | refl => exact hP
    | tail _ he ih => exact hstable _ _ ih he
  exact ⟨hsafe w' hP', fun a w'' ha => hact w' a w'' hP' ha⟩

/-- The same, where a thread goes on after a single operation. -/
lemma ok_perform {f : Ans o → Tree Op Ans α} (P : W → Prop) (hP : P w)
    (hstable : ∀ w w', P w → R.env o w w' → P w') (hsafe : ∀ w, P w → R.safe o w)
    (hact : ∀ w a w', P w → R.act o w a w' → R.Ok Q (f a) w') :
    R.Ok Q (Tree.perform o >>= f) w := ok_op P hP hstable hsafe hact

lemma Ok.mono {t : Tree Op Ans α} (h : R.Ok Q t w) (hQ : ∀ a w, Q a w → Q' a w) : R.Ok Q' t w := by
  induction t generalizing w with
  | ret a => exact hQ a w h
  | op o k ih => exact fun w' hw => ⟨(h w' hw).1, fun a w'' ha => ih a ((h w' hw).2 a w'' ha)⟩

end Rely

end Udfs
