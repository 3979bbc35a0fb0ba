import Mathlib.Tactic

namespace Jero.Lists

def digitsAt (b : Nat) : Nat → Nat → List Nat
  | 0, _ => []
  | w + 1, n => n % b :: digitsAt b w (n / b)

theorem length_digitsAt (b w n : Nat) : (digitsAt b w n).length = w := by
  induction w generalizing n with
  | zero => rfl
  | succ w ih => rw [digitsAt, List.length_cons, ih]

theorem digitsAt_lt {b : Nat} (hb : 0 < b) (w n : Nat) : ∀ d ∈ digitsAt b w n, d < b := by
  induction w generalizing n with
  | zero =>
    intro d hd
    cases hd
  | succ w ih => exact List.forall_mem_cons.mpr ⟨Nat.mod_lt n hb, ih (n / b)⟩

theorem ofDigits_digitsAt {b w n : Nat} (h : n < b ^ w) : Nat.ofDigits b (digitsAt b w n) = n := by
  induction w generalizing n with
  | zero =>
    obtain rfl : n = 0 := by simpa using h
    rfl
  | succ w ih =>
    rw [digitsAt, Nat.ofDigits_cons, ih]
    · exact Nat.mod_add_div n b
    · rw [pow_succ, mul_comm] at h
      exact Nat.div_lt_of_lt_mul h

theorem digitsAt_zero (b w : Nat) : digitsAt b w 0 = List.replicate w 0 := by
  induction w with
  | zero => rfl
  | succ w ih => rw [digitsAt, Nat.zero_mod, Nat.zero_div, ih, List.replicate_succ]

theorem digitsAt_ofDigits {b : Nat} (hb : 1 < b) (ds : List Nat) (hds : ∀ d ∈ ds, d < b) :
    digitsAt b ds.length (Nat.ofDigits b ds) = ds := by
  refine Nat.ofDigits_inj_of_len_eq hb (length_digitsAt _ _ _) (digitsAt_lt (by omega) _ _) hds ?_
  exact ofDigits_digitsAt (Nat.ofDigits_lt_base_pow_length hb hds)

end Jero.Lists
