import Jero.Machine.Word

namespace Jero.Machine

def littleEndian : List UInt8 → Nat
  | [] => 0
  | b :: bytes => b.toNat + 256 * littleEndian bytes

theorem littleEndian_lt (bytes : List UInt8) : littleEndian bytes < 256 ^ bytes.length := by
  induction bytes with
  | nil => exact Nat.one_pos
  | cons b bytes ih =>
    have hb := b.toNat_lt
    rw [littleEndian, List.length_cons, Nat.pow_succ]
    omega

theorem littleEndian_append (a b : List UInt8) :
    littleEndian (a ++ b) = littleEndian a + 256 ^ a.length * littleEndian b := by
  induction a with
  | nil => simp [littleEndian]
  | cons x a ih =>
    rw [List.cons_append, littleEndian, ih, littleEndian, List.length_cons, Nat.pow_succ]
    ring

def mul64 (a b : Nat) : Nat × Nat := (wrap (a * b), a * b / 2 ^ 64)

theorem mul64_eq (a b : Nat) : a * b = (mul64 a b).1 + 2 ^ 64 * (mul64 a b).2 :=
  (Nat.mod_add_div _ _).symm

def mul64Portable (a b : Nat) : Nat × Nat :=
  let aLow := a % 2 ^ 32
  let aHigh := a / 2 ^ 32
  let bLow := b % 2 ^ 32
  let bHigh := b / 2 ^ 32
  let res1 := wrap (aLow * bLow)
  let lowRes1 := res1 % 2 ^ 32
  let res2 := wrap (aHigh * bLow + res1 / 2 ^ 32)
  let highResHigh1 := res2 / 2 ^ 32
  let highResLow1 := res2 % 2 ^ 32
  let res3 := wrap (aLow * bHigh)
  let lowRes2 := res3 % 2 ^ 32
  let res4 := wrap (aHigh * bHigh + res3 / 2 ^ 32)
  let highResHigh2 := res4 / 2 ^ 32
  let highResLow2 := res4 % 2 ^ 32
  let r1 := wrap (highResLow1 + lowRes2)
  let r2 := wrap (highResHigh1 + highResLow2 + r1 / 2 ^ 32)
  let r3 := wrap (highResHigh2 + r2 / 2 ^ 32)
  (wrap (r1 * 2 ^ 32) ||| lowRes1, r2 % 2 ^ 32 ||| wrap (r3 * 2 ^ 32))

def cadd (a b : Nat) : Bool := decide (wrap (a + b) < a)

def cadc (a b : Nat) (c : Bool) : Bool :=
  decide (wrap (a + b) < a) || (c && decide (wrap (a + b) = 2 ^ 64 - 1))

variable {a b : Nat}

theorem cadd_eq (ha : a < 2 ^ 64) (hb : b < 2 ^ 64) : cadd a b = decide (2 ^ 64 ≤ a + b) := by
  unfold cadd wrap
  rw [decide_eq_decide]
  omega

theorem cadc_eq (ha : a < 2 ^ 64) (hb : b < 2 ^ 64) (c : Bool) :
    cadc a b c = decide (2 ^ 64 ≤ a + b + c.toNat) := by
  unfold cadc wrap
  cases c with
  | false =>
    rw [Bool.false_and, Bool.or_false, decide_eq_decide, Bool.toNat_false]
    omega
  | true =>
    rw [Bool.true_and, ← Bool.decide_or, decide_eq_decide, Bool.toNat_true]
    omega

theorem carry_toNat {n : Nat} (h : n < 2 ^ 65) : (decide (2 ^ 64 ≤ n)).toNat = n / 2 ^ 64 := by
  rcases Nat.lt_or_ge n (2 ^ 64) with hlt | hge
  · rw [decide_eq_false (Nat.not_le.mpr hlt), Nat.div_eq_of_lt hlt]
    rfl
  · rw [decide_eq_true hge, Bool.toNat_true]
    omega

theorem high_or_low (high low : Nat) :
    high * 2 ^ 32 ||| low % 2 ^ 32 = high * 2 ^ 32 + low % 2 ^ 32 := by
  rw [Nat.mul_comm]
  exact (Nat.two_pow_add_eq_or_of_lt (Nat.mod_lt _ (by norm_num)) high).symm

theorem low_or_high (high low : Nat) :
    low % 2 ^ 32 ||| high * 2 ^ 32 = high * 2 ^ 32 + low % 2 ^ 32 := by
  rw [Nat.or_comm, high_or_low]

theorem wrap_shift (n : Nat) : wrap (n * 2 ^ 32) = n % 2 ^ 32 * 2 ^ 32 := by
  unfold wrap
  omega

theorem mul64Portable_eq (ha : a < 2 ^ 64) (hb : b < 2 ^ 64) : mul64Portable a b = mul64 a b := by
  have hsplit : a * b = a / 2 ^ 32 * (b / 2 ^ 32) * 2 ^ 64 +
      (a / 2 ^ 32 * (b % 2 ^ 32) + a % 2 ^ 32 * (b / 2 ^ 32)) * 2 ^ 32 +
      a % 2 ^ 32 * (b % 2 ^ 32) := by
    conv_lhs => rw [← Nat.div_add_mod a (2 ^ 32), ← Nat.div_add_mod b (2 ^ 32)]
    ring
  have hal : a % 2 ^ 32 ≤ 2 ^ 32 - 1 := by omega
  have hah : a / 2 ^ 32 ≤ 2 ^ 32 - 1 := by omega
  have hbl : b % 2 ^ 32 ≤ 2 ^ 32 - 1 := by omega
  have hbh : b / 2 ^ 32 ≤ 2 ^ 32 - 1 := by omega
  have hll := Nat.mul_le_mul hal hbl
  have hhl := Nat.mul_le_mul hah hbl
  have hlh := Nat.mul_le_mul hal hbh
  have hhh := Nat.mul_le_mul hah hbh
  simp only [mul64Portable, mul64, wrap_shift, high_or_low, low_or_high]
  generalize a % 2 ^ 32 * (b % 2 ^ 32) = ll at *
  generalize a / 2 ^ 32 * (b % 2 ^ 32) = hl at *
  generalize a % 2 ^ 32 * (b / 2 ^ 32) = lh at *
  generalize a / 2 ^ 32 * (b / 2 ^ 32) = hh at *
  rw [hsplit]
  refine Prod.ext ?_ ?_ <;> simp only [wrap] <;> omega

def hiDword (v : Nat) : Nat := v / 2 ^ 32

def loDword (v : Nat) : Nat := v % 2 ^ 32

def mul128 (multiplier multiplicand : Nat) : Except String (Nat × Nat) := do
  let a := hiDword multiplier
  let b := loDword multiplier
  let c := hiDword multiplicand
  let d := loDword multiplicand
  let ac := wrap (a * c)
  let ad := wrap (a * d)
  let bc := wrap (b * c)
  let bd := wrap (b * d)
  let adbc := wrap (ad + bc)
  let adbcCarry := if adbc < ad then 1 else 0
  let productLo := wrap (bd + wrap (adbc * 2 ^ 32))
  let productLoCarry := if productLo < bd then 1 else 0
  let productHi := wrap (ac + adbc / 2 ^ 32 + wrap (adbcCarry * 2 ^ 32) + productLoCarry)
  check (decide (ac ≤ productHi)) "ac <= *product_hi"
  pure (productHi, productLo)

def div128By64 (dividendHi dividendLo divisor : Nat) : Nat × Nat :=
  let q := (dividendHi * 2 ^ 64 + dividendLo) / divisor
  (wrap (q / 2 ^ 64), wrap q)

theorem dword_mul_lt {a b : Nat} (ha : a < 2 ^ 32) (hb : b < 2 ^ 32) :
    a * b ≤ 2 ^ 64 - 2 ^ 33 + 1 := by
  have hmul := Nat.mul_le_mul (Nat.le_pred_of_lt ha) (Nat.le_pred_of_lt hb)
  exact hmul.trans (by norm_num)

theorem mul_dwords (m n : Nat) :
    m * n = hiDword m * hiDword n * 2 ^ 64 +
      (hiDword m * loDword n + loDword m * hiDword n) * 2 ^ 32 + loDword m * loDword n := by
  have hm : m = hiDword m * 2 ^ 32 + loDword m := (Nat.div_add_mod' m _).symm
  have hn : n = hiDword n * 2 ^ 32 + loDword n := (Nat.div_add_mod' n _).symm
  conv_lhs => rw [hm, hn]
  ring

theorem carry_eq {x y : Nat} (hx : x < 2 ^ 64) (hy : y < 2 ^ 64) :
    (if wrap (x + y) < x then 1 else 0) = (x + y) / 2 ^ 64 := by
  by_cases h : wrap (x + y) < x
  · rw [if_pos h]
    simp only [wrap] at h
    omega
  · rw [if_neg h]
    simp only [wrap] at h
    omega

theorem product_words {ac mid bd : Nat} (h : ac * 2 ^ 64 + mid * 2 ^ 32 + bd < 2 ^ 128) :
    wrap (ac + wrap mid / 2 ^ 32 + wrap (mid / 2 ^ 64 * 2 ^ 32) +
        (bd + wrap (wrap mid * 2 ^ 32)) / 2 ^ 64) =
      (ac * 2 ^ 64 + mid * 2 ^ 32 + bd) / 2 ^ 64 ∧
    wrap (bd + wrap (wrap mid * 2 ^ 32)) = (ac * 2 ^ 64 + mid * 2 ^ 32 + bd) % 2 ^ 64 := by
  simp only [wrap]
  omega

theorem mul128_eq {m n : Nat} (hm : m < 2 ^ 64) (hn : n < 2 ^ 64) :
    mul128 m n = .ok (mul64 m n).swap := by
  have ha : hiDword m < 2 ^ 32 := Nat.div_lt_of_lt_mul (by omega)
  have hb : loDword m < 2 ^ 32 := Nat.mod_lt m (by norm_num)
  have hc : hiDword n < 2 ^ 32 := Nat.div_lt_of_lt_mul (by omega)
  have hd : loDword n < 2 ^ 32 := Nat.mod_lt n (by norm_num)
  have had := dword_mul_lt ha hd
  have hbc := dword_mul_lt hb hc
  have hbd := dword_mul_lt hb hd
  have hmn : m * n < 2 ^ 128 := by
    calc m * n < 2 ^ 64 * 2 ^ 64 := Nat.mul_lt_mul'' hm hn
      _ = 2 ^ 128 := by norm_num
  rw [mul_dwords m n] at hmn
  simp only [mul128, mul64, Prod.swap_prod_mk, mul_dwords m n]
  rw [wrap_of_lt (n := hiDword m * hiDword n) (by omega),
    wrap_of_lt (n := hiDword m * loDword n) (by omega),
    wrap_of_lt (n := loDword m * hiDword n) (by omega),
    wrap_of_lt (n := loDword m * loDword n) (by omega),
    carry_eq (x := hiDword m * loDword n) (by omega) (by omega),
    carry_eq (x := loDword m * loDword n) (by omega) (wrap_lt _)]
  obtain ⟨hhi, hlo⟩ := product_words hmn
  rw [hhi, hlo]
  refine (check_decide ?_ _ _).trans rfl
  omega

theorem div128By64_eq {p : Nat} (h : p < 2 ^ 128) (divisor : Nat) :
    div128By64 (p / 2 ^ 64) (wrap p) divisor =
      (p / divisor / 2 ^ 64, wrap (p / divisor)) := by
  have hle := Nat.div_le_self p divisor
  have hlt : p / divisor / 2 ^ 64 < 2 ^ 64 := Nat.div_lt_of_lt_mul (by omega)
  have hwords : p / 2 ^ 64 * 2 ^ 64 + wrap p = p := Nat.div_add_mod' p _
  simp only [div128By64, hwords, wrap_of_lt hlt]

theorem div128By64_twice {p : Nat} (h : p < 2 ^ 128) (divisor : Nat) :
    div128By64 (div128By64 (p / 2 ^ 64) (wrap p) divisor).1
        (div128By64 (p / 2 ^ 64) (wrap p) divisor).2 divisor =
      (p / divisor / divisor / 2 ^ 64, wrap (p / divisor / divisor)) := by
  rw [div128By64_eq h]
  exact div128By64_eq ((Nat.div_le_self p divisor).trans_lt h) divisor

end Jero.Machine
