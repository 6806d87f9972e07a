import Udfs.Lib.Byte

/-!
# Counters in memory

Numbers of several bytes, the lowest first, that are counted up byte by byte as long as a byte
becomes zero.
-/

namespace Udfs

/-- The number that the `k` bytes from `x` on hold. -/
def leVal : ℕ → ℕ → (ℕ → Byte) → ℕ
  | 0, _, _ => 0
  | k + 1, x, m => (m x).toNat + 256 * leVal k (x + 1) m

/-- Count the `k` bytes from `x` on up by one; whether all of them have become zero. -/
def incBytes : ℕ → ℕ → (ℕ → Byte) → (ℕ → Byte) × Bool
  | 0, _, m => (m, true)
  | k + 1, x, m =>
      if m x + 1 = 0 then incBytes k (x + 1) (Function.update m x (m x + 1))
      else (Function.update m x (m x + 1), false)

/-- Complement the `k` bytes from `x` on. -/
def notBytes (k x : ℕ) (m : ℕ → Byte) : ℕ → Byte := fun a =>
  if x ≤ a ∧ a < x + k then ~~~ m a else m a

variable {m m' : ℕ → Byte} {k x : ℕ}

lemma leVal_congr (h : ∀ a, x ≤ a → a < x + k → m a = m' a) : leVal k x m = leVal k x m' := by
  induction k generalizing x with
  | zero => rfl
  | succ k ih =>
      rw [leVal, leVal, h x le_rfl (by omega), ih fun a h1 h2 => h a (by omega) (by omega)]

lemma leVal_lt (k x : ℕ) (m : ℕ → Byte) : leVal k x m < 256 ^ k := by
  induction k generalizing x with
  | zero => exact Nat.one_pos
  | succ k ih =>
      have hb := byte_lt (m x)
      have hl := ih (x + 1)
      rw [leVal, pow_succ]
      omega

lemma incBytes_of_not (m : ℕ → Byte) {a : ℕ} (h : a < x ∨ x + k ≤ a) :
    (incBytes k x m).1 a = m a := by
  induction k generalizing x m with
  | zero => rfl
  | succ k ih =>
      have hne : a ≠ x := by omega
      rw [incBytes]
      split_ifs
      · rw [ih _ (by omega), Function.update_of_ne hne]
      · exact Function.update_of_ne hne ..

lemma incBytes_first (k x : ℕ) (m : ℕ → Byte) : (incBytes (k + 1) x m).1 x = m x + 1 := by
  rw [incBytes]
  split_ifs
  · rw [incBytes_of_not _ (by omega), Function.update_self]
  · exact Function.update_self ..

lemma incBytes_val (m : ℕ → Byte) : leVal k x (incBytes k x m).1 = (leVal k x m + 1) % 256 ^ k ∧
    ((incBytes k x m).2 = true ↔ leVal k x m + 1 = 256 ^ k) := by
  induction k generalizing x m with
  | zero => exact ⟨(Nat.mod_one 1).symm, iff_of_true rfl rfl⟩
  | succ k ih =>
      have hb := byte_lt (m x)
      have h1 : (1 : Byte).toNat = 1 := rfl
      have h0 : (0 : Byte).toNat = 0 := rfl
      have hadd : (m x + 1).toNat = ((m x).toNat + 1) % 256 := by rw [BitVec.toNat_add, h1]
      have hup : leVal k (x + 1) (Function.update m x (m x + 1)) = leVal k (x + 1) m :=
        leVal_congr fun a h1 _ => Function.update_of_ne (by omega) ..
      have hlt := leVal_lt k (x + 1) m
      rw [incBytes]
      split_ifs with hz
      · have hnat := congrArg BitVec.toNat hz
        rw [hadd, h0] at hnat
        obtain ⟨hval, hflag⟩ := ih (x := x + 1) (Function.update m x (m x + 1))
        have hx : (incBytes k (x + 1) (Function.update m x (m x + 1))).1 x = 0 := by
          rw [incBytes_of_not _ (by omega), Function.update_self, hz]
        rw [hup] at hval hflag
        have hcarry : (m x).toNat + 256 * leVal k (x + 1) m + 1 = 256 * (leVal k (x + 1) m + 1) := by
          omega
        constructor
        · rw [leVal, leVal, hx, hval, h0, hcarry, pow_succ', Nat.mul_mod_mul_left, Nat.zero_add]
        · rw [hflag, leVal, hcarry, pow_succ']
          omega
      · have hnat : (m x).toNat ≠ 255 := by
          intro he
          refine hz (BitVec.eq_of_toNat_eq ?_)
          rw [hadd, he, h0]
        have hsmall : (m x).toNat + 256 * leVal k (x + 1) m + 1 < 256 ^ (k + 1) := by
          rw [pow_succ']
          omega
        constructor
        · simp only [leVal, Function.update_self, hup, hadd]
          rw [Nat.mod_eq_of_lt (by omega), Nat.mod_eq_of_lt hsmall]
          omega
        · rw [leVal]
          exact iff_of_false (by simp) hsmall.ne

lemma notBytes_of_not (m : ℕ → Byte) {a : ℕ} (h : a < x ∨ x + k ≤ a) : notBytes k x m a = m a := by
  rw [notBytes, if_neg (by omega)]

lemma toNat_not_byte (b : Byte) : (~~~ b).toNat = 255 - b.toNat := by
  rw [BitVec.toNat_not]

/-- A number and its complement make up the largest one. -/
lemma notBytes_val (m : ℕ → Byte) : leVal k x (notBytes k x m) + leVal k x m + 1 = 256 ^ k := by
  induction k generalizing x with
  | zero => rfl
  | succ k ih =>
      have hb := byte_lt (m x)
      have hx : notBytes (k + 1) x m x = ~~~ m x := if_pos ⟨le_rfl, by omega⟩
      have hrest : leVal k (x + 1) (notBytes (k + 1) x m) = leVal k (x + 1) (notBytes k (x + 1) m) :=
        leVal_congr fun a h1 h2 => by rw [notBytes, notBytes, if_pos (by omega), if_pos (by omega)]
      have hsum := ih (x := x + 1)
      rw [leVal, leVal, hx, hrest, toNat_not_byte, pow_succ']
      omega

end Udfs
