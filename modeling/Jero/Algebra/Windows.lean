import Mathlib.Tactic

namespace Jero.Algebra

theorem mod_two_pow_succ (x n : Nat) :
    x % 2 ^ (n + 1) = x % 2 ^ n + (x.testBit n).toNat * 2 ^ n := by
  rw [Nat.mod_pow_succ, Nat.testBit_eq_decide_div_mod_eq, Nat.mul_comm]
  rcases Nat.mod_two_eq_zero_or_one (x / 2 ^ n) with h | h
  · rw [h, decide_eq_false Nat.zero_ne_one, Bool.toNat_false]
  · rw [h, decide_eq_true rfl, Bool.toNat_true]

theorem div_pow_step (base k n : Nat) :
    n / base ^ k = base * (n / base ^ (k + 1)) + n / base ^ k % base := by
  rw [pow_succ, ← Nat.div_div_eq_div_mul, Nat.div_add_mod]

section
variable {E : Type}

def window (base k : Nat) (terms : List (Nat × E)) : List (Nat × E) :=
  terms.map fun t => (t.1 / base ^ k % base, t.2)

def high (base k : Nat) (terms : List (Nat × E)) : List (Nat × E) :=
  terms.map fun t => (t.1 / base ^ k, t.2)

@[simp] theorem window_cons (base k : Nat) (t : Nat × E) (terms : List (Nat × E)) :
    window base k (t :: terms) = (t.1 / base ^ k % base, t.2) :: window base k terms := rfl

@[simp] theorem high_cons (base k : Nat) (t : Nat × E) (terms : List (Nat × E)) :
    high base k (t :: terms) = (t.1 / base ^ k, t.2) :: high base k terms := rfl

theorem high_zero (base : Nat) (terms : List (Nat × E)) : high base 0 terms = terms := by
  simp [high]

end
variable {E : Type} [AddCommGroup E]

def termSum (terms : List (Nat × E)) : E := (terms.map fun t => t.1 • t.2).sum

@[simp] theorem termSum_nil : termSum ([] : List (Nat × E)) = 0 := rfl

@[simp] theorem termSum_cons (t : Nat × E) (terms : List (Nat × E)) :
    termSum (t :: terms) = t.1 • t.2 + termSum terms := rfl

theorem termSum_append (xs ys : List (Nat × E)) : termSum (xs ++ ys) = termSum xs + termSum ys := by
  rw [termSum, List.map_append, List.sum_append]
  rfl

theorem termSum_high_step (base k : Nat) (terms : List (Nat × E)) :
    termSum (high base k terms) =
      base • termSum (high base (k + 1) terms) + termSum (window base k terms) := by
  induction terms with
  | nil => simp [high, window]
  | cons t terms ih =>
    rw [high_cons, high_cons, window_cons, termSum_cons, termSum_cons, termSum_cons, ih]
    conv_lhs => rw [div_pow_step base k t.1]
    rw [add_smul, mul_smul, smul_add]
    abel

theorem termSum_high_top {base k : Nat} {terms : List (Nat × E)}
    (h : ∀ t ∈ terms, t.1 < base ^ k) : termSum (high base k terms) = 0 := by
  induction terms with
  | nil => rfl
  | cons t terms ih =>
    rw [high_cons, termSum_cons, Nat.div_eq_of_lt (h t List.mem_cons_self), zero_smul, zero_add]
    exact ih fun s hs => h s (List.mem_cons_of_mem t hs)

end Jero.Algebra
