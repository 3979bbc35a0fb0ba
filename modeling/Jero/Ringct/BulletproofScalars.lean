import Jero.Algebra.Folding
import Jero.Ringct.BulletproofPlus

namespace Jero.Ringct
open Jero.Algebra Jero.Machine List Function Nat
section
variable {F : Type} [Field F]

theorem squareWhile_two_pow (k : Nat) (y : F) : squareWhile (2 ^ k) y = y ^ 2 ^ k := by
  induction k generalizing y with
  | zero =>
    rw [squareWhile, if_neg (by decide), pow_zero, pow_one]
  | succ k ih =>
    have hhalf : 2 ^ (k + 1) / 2 = 2 ^ k := by omega
    have hlarge : 1 < 2 ^ (k + 1) := Nat.one_lt_two_pow (succ_ne_zero k)
    rw [squareWhile, if_pos hlarge, hhalf, ih, ← pow_two, ← pow_mul, pow_succ' 2 k]

theorem sum_pow_double (x : F) (m : Nat) :
    x ^ m * ∑ j ∈ Finset.range m, x ^ (j + 1) + ∑ j ∈ Finset.range m, x ^ (j + 1) =
      ∑ j ∈ Finset.range (2 * m), x ^ (j + 1) := by
  rw [two_mul, Finset.sum_range_add, Finset.mul_sum, add_comm]
  congr 1
  refine Finset.sum_congr rfl ?_
  intro j _
  rw [← pow_add, add_assoc]

theorem evenPowersLoop_eq (k m : Nat) (x : F) :
    evenPowersLoop (2 * 2 ^ k) (x ^ m) (∑ j ∈ Finset.range m, x ^ (j + 1)) =
      ∑ j ∈ Finset.range (m * 2 ^ k), x ^ (j + 1) := by
  induction k generalizing m with
  | zero =>
    rw [evenPowersLoop, if_neg (by decide), pow_zero, mul_one]
  | succ k ih =>
    have hpos := Nat.two_pow_pos k
    have hhalf : 2 * 2 ^ (k + 1) / 2 = 2 * 2 ^ k := by omega
    have hlarge : 2 < 2 * 2 ^ (k + 1) := by omega
    have hcount : 2 * m * 2 ^ k = m * 2 ^ (k + 1) := by ring
    rw [evenPowersLoop, if_pos hlarge, hhalf, sum_pow_double, ← pow_add, ← two_mul, ih, hcount]

theorem and_pred_two_pow (k : Nat) : 2 * 2 ^ k &&& (2 * 2 ^ k - 1) = 0 := by
  rw [← pow_succ', and_two_pow_sub_one_eq_mod, mod_self]

theorem scalarPowersLoop_eq (x : F) (n : Nat) :
    scalarPowersLoop x n = (∑ i ∈ Finset.range (n + 1), x ^ i, x ^ max n 1) := by
  induction n with
  | zero => simp [scalarPowersLoop]
  | succ n ih =>
    have hstep : scalarPowersLoop x (n + 1) =
        ((scalarPowersLoop x n).1 +
          (if 1 < n + 1 then (scalarPowersLoop x n).2 * x else (scalarPowersLoop x n).2),
          if 1 < n + 1 then (scalarPowersLoop x n).2 * x else (scalarPowersLoop x n).2) := by
      rw [scalarPowersLoop, range_succ, foldl_append]
      rfl
    have hprev : (if 1 < n + 1 then (scalarPowersLoop x n).2 * x else (scalarPowersLoop x n).2) =
        x ^ (n + 1) := by
      rw [ih]
      by_cases hn : 1 < n + 1
      · have hmax : max n 1 = n := max_eq_left (by omega)
        rw [if_pos hn, hmax, pow_succ]
      · obtain rfl : n = 0 := by omega
        rw [if_neg hn]
        rfl
    rw [hstep, hprev, ih, Finset.sum_range_succ _ (n + 1), max_eq_left (le_add_left 1 n)]

theorem not_power_of_two (k : Nat) : (2 ^ (k + 1) + 1) &&& 2 ^ (k + 1) ≠ 0 := by
  intro h
  have hbit := congrArg (fun n => n.testBit (k + 1)) h
  simp only [testBit_and, testBit_two_pow_add_eq, testBit_two_pow_self,
    zero_testBit, Bool.and_true] at hbit
  rw [testBit_lt_two_pow (Nat.one_lt_two_pow (succ_ne_zero k))] at hbit
  cases hbit

theorem twoSixtyFourMinusOne_eq : (twoSixtyFourMinusOne : F) = 2 ^ 64 - 1 := by
  simp only [twoSixtyFourMinusOne, iterate_succ, iterate_zero, comp, id_eq]
  norm_num

theorem sumOfEvenPowers_eq (z : F) (k : Nat) :
    sumOfEvenPowers z (2 * 2 ^ k) = .ok (∑ j ∈ Finset.range (2 ^ k), (z * z) ^ (j + 1)) := by
  have hpos := Nat.two_pow_pos k
  have hloop := evenPowersLoop_eq k 1 (z * z)
  rw [pow_one, Finset.sum_range_one, zero_add, pow_one, one_mul] at hloop
  rw [sumOfEvenPowers, check_decide (and_pred_two_pow k), check_decide (by omega), hloop]
  rfl

theorem sumOfScalarPowers_eq (y : F) (k : Nat) :
    sumOfScalarPowers y (2 ^ (k + 1)) = .ok (∑ i ∈ Finset.range (2 ^ (k + 1)), y ^ (i + 1)) := by
  have hpos := Nat.two_pow_pos k
  have hne : 2 ^ (k + 1) ≠ 1 := by omega
  have hsum : ∑ i ∈ Finset.range (2 ^ (k + 1) + 1), y ^ i - 1 =
      ∑ i ∈ Finset.range (2 ^ (k + 1)), y ^ (i + 1) := by
    rw [Finset.sum_range_succ', pow_zero, add_sub_cancel_right]
  rw [sumOfScalarPowers, check_decide (by omega), if_neg hne,
    if_neg (not_power_of_two k), scalarPowersLoop_eq, hsum]
  rfl

end
section
variable {F : Type} [Field F] [DecidableEq F] {xs : List F}

theorem invertForward_eq (hxs : ∀ x ∈ xs, x ≠ 0) {n : Nat} {acc : F} (hacc : acc ≠ 0)
    (hfirst : n = 0 → acc = 1) :
    ∃ scratch final, invertForward xs n acc = .ok (scratch, final) ∧ final ≠ 0 ∧
      invertBackward final⁻¹ (xs.zip scratch) = (acc⁻¹, xs.map (·⁻¹)) := by
  induction xs generalizing n acc with
  | nil => exact ⟨[], acc, rfl, hacc, rfl⟩
  | cons x xs ih =>
    have hx := hxs x mem_cons_self
    have hnext : (if n = 0 then x else acc * x) = acc * x := by
      split
      case isTrue hn => rw [hfirst hn, one_mul]
      case isFalse => rfl
    obtain ⟨scratch, final, hforward, hfinal, hbackward⟩ :=
      ih (fun w hw => hxs w (mem_cons_of_mem x hw)) (mul_ne_zero hacc hx)
        (fun hn => absurd hn (succ_ne_zero n))
    refine ⟨acc :: scratch, final, ?_, hfinal, ?_⟩
    · rw [invertForward, check_decide hx, hnext, hforward]
      rfl
    · have hfold : invertBackward final⁻¹ ((x :: xs).zip (acc :: scratch)) =
          ((acc * x)⁻¹ * x, (acc * x)⁻¹ * acc :: xs.map (·⁻¹)) := by
        rw [zip_cons_cons, invertBackward, foldr_cons, ← invertBackward, hbackward]
      have hhead : (acc * x)⁻¹ * acc = x⁻¹ := by
        field_simp
      have hcarry : (acc * x)⁻¹ * x = acc⁻¹ := by
        field_simp
      rw [hfold, hhead, hcarry, map_cons]

theorem invertBatch_eq (hxs : ∀ x ∈ xs, x ≠ 0) : invertBatch xs = .ok (xs.map (·⁻¹)) := by
  obtain ⟨scratch, final, hforward, hfinal, hbackward⟩ :=
    invertForward_eq hxs one_ne_zero (fun _ : 0 = 0 => rfl)
  have hinvert : invert final = .ok final⁻¹ := by
    rw [invert, check_decide hfinal]
    rfl
  rw [invertBatch, hforward, ok_bind, hinvert, ok_bind, hbackward]
  rfl

end
variable {F : Type} [Field F] {double : F → F} {i : Nat}

theorem firstRow_eq (hdouble : ∀ x, double x = x * 2) (zSquared : F) (n i : Nat) (hi : i ≤ n) :
    (List.range n).foldl (fun d i => Function.update d (i + 1) (double (d i)))
      (Function.update (fun _ => 0) 0 zSquared) i = zSquared * 2 ^ i := by
  induction n generalizing i with
  | zero =>
    obtain rfl := le_zero.mp hi
    rw [range_zero, foldl_nil, update_self, pow_zero, mul_one]
  | succ n ih =>
    rw [range_succ, foldl_append, foldl_cons, foldl_nil]
    rcases lt_or_eq_of_le hi with hlt | rfl
    · rw [update_of_ne hlt.ne, ih i (le_of_lt_succ hlt)]
    · rw [update_self, ih n le_rfl, hdouble, pow_succ, mul_assoc]

theorem nextRow_eq (zSquared : F) (d : Nat → F) (j : Nat) {n : Nat} (hn : n ≤ maxN) (t : Nat) :
    (List.range n).foldl
        (fun d i => Function.update d ((j + 1) * maxN + i) (d (j * maxN + i) * zSquared)) d t =
      if (j + 1) * maxN ≤ t ∧ t < (j + 1) * maxN + n then d (t - maxN) * zSquared else d t := by
  induction n generalizing t with
  | zero =>
    rw [range_zero, foldl_nil, if_neg (by omega)]
  | succ n ih =>
    have hrow : (j + 1) * maxN = j * maxN + maxN := succ_mul j maxN
    rw [range_succ, foldl_append, foldl_cons, foldl_nil, ih (le_of_succ_le hn), if_neg (by omega)]
    by_cases ht : t = (j + 1) * maxN + n
    · have hback : t - maxN = j * maxN + n := by omega
      rw [ht, update_self, if_pos (by omega), ← ht, hback]
    · rw [update_of_ne ht, ih (le_of_succ_le hn)]
      by_cases hin : (j + 1) * maxN ≤ t ∧ t < (j + 1) * maxN + n
      · rw [if_pos hin, if_pos (by omega)]
      · rw [if_neg hin, if_neg (by omega)]

theorem windowedVector_eq (hdouble : ∀ x, double x = x * 2) (zSquared : F) {M j : Nat}
    (hj : j < M) (hi : i < maxN) :
    windowedVector double zSquared M (j * maxN + i) = zSquared ^ (j + 1) * 2 ^ i := by
  have hrows : ∀ rows j i, j ≤ rows → i < maxN →
      (range rows).foldl
        (fun d j => (range maxN).foldl
          (fun d i => update d ((j + 1) * maxN + i) (d (j * maxN + i) * zSquared)) d)
        ((range (maxN - 1)).foldl (fun d i => update d (i + 1) (double (d i)))
          (update (fun _ => 0) 0 zSquared)) (j * maxN + i) =
        zSquared ^ (j + 1) * 2 ^ i := by
    intro rows
    induction rows with
    | zero =>
      intro j i hj hi
      obtain rfl := le_zero.mp hj
      rw [range_zero, foldl_nil, Nat.zero_mul, zero_add, pow_one]
      exact firstRow_eq hdouble zSquared _ i (by omega)
    | succ rows ih =>
      intro j i hj hi
      rw [range_succ, foldl_append, foldl_cons, foldl_nil, nextRow_eq zSquared _ rows le_rfl]
      rcases lt_or_eq_of_le hj with hlt | rfl
      · have hearlier : j * maxN + maxN ≤ (rows + 1) * maxN := by
          rw [← succ_mul]
          exact mul_le_mul_right maxN hlt
        rw [if_neg (by omega), ih j i (le_of_lt_succ hlt) hi]
      · have hback : (rows + 1) * maxN + i - maxN = rows * maxN + i := by
          rw [succ_mul]
          omega
        rw [if_pos (by omega), hback, ih rows i le_rfl hi, pow_succ _ (rows + 1)]
        ring
  exact hrows (M - 1) j i (by omega) hi

theorem sum_windowedVector (hdouble : ∀ x, double x = x * 2) (zSquared : F) (M : Nat) :
    ∑ i ∈ Finset.range (M * maxN), windowedVector double zSquared M i =
      (2 ^ 64 - 1) * ∑ j ∈ Finset.range M, zSquared ^ (j + 1) := by
  have hbits : ∑ i ∈ Finset.range maxN, (2 : F) ^ i = 2 ^ 64 - 1 := by
    have hgeom := geom_sum_mul (2 : F) maxN
    rw [show (2 : F) - 1 = 1 by norm_num, mul_one] at hgeom
    exact hgeom
  rw [sum_range_rows, Finset.mul_sum]
  refine Finset.sum_congr rfl ?_
  intro j hj
  have hrow : ∀ i ∈ Finset.range maxN, windowedVector double zSquared M (j * maxN + i) =
      zSquared ^ (j + 1) * 2 ^ i :=
    fun i hi => windowedVector_eq hdouble zSquared (Finset.mem_range.mp hj) (Finset.mem_range.mp hi)
  rw [Finset.sum_congr rfl hrow, ← Finset.mul_sum, hbits, mul_comm]

theorem challengeSlots_eq (challenge inverse : F) (n : Nat) (cache : Nat → F) (t : Nat) :
    challengeSlots challenge inverse n cache t =
      if t < 2 * n then cache (t / 2) * (if t.testBit 0 then challenge else inverse)
      else cache t := by
  induction n generalizing cache with
  | zero => rw [challengeSlots, if_neg (not_lt_zero t)]
  | succ n ih =>
    have hhalf : (2 * n + 1) / 2 = n := by omega
    have hupper : update cache (2 * n + 1) (cache n * challenge) n = cache n :=
      update_of_ne (by omega) _ _
    rw [challengeSlots, hhalf, hupper, ih]
    by_cases hlow : t < 2 * n
    · rw [if_pos hlow, if_pos (show t < 2 * (n + 1) by omega), update_of_ne (by omega),
        update_of_ne (by omega)]
    · rw [if_neg hlow]
      by_cases heven : t = 2 * n
      · have hbit : (2 * n).testBit 0 = false := by
          rw [testBit_zero]
          simp
        rw [heven, update_self, if_pos (show 2 * n < 2 * (n + 1) by omega),
          Nat.mul_div_cancel_left n Nat.two_pos, hbit, if_neg Bool.false_ne_true]
      · rw [update_of_ne heven]
        by_cases hodd : t = 2 * n + 1
        · have hbit : (2 * n + 1).testBit 0 = true := by
            rw [testBit_zero]
            simp
          rw [hodd, update_self, if_pos (show 2 * n + 1 < 2 * (n + 1) by omega), hhalf, hbit,
            if_pos rfl]
        · rw [update_of_ne hodd, if_neg (by omega)]

def challengeProduct (challenges inverses : Nat → F) (rounds i : Nat) : F :=
  ∏ j ∈ Finset.range rounds, if i.testBit (rounds - 1 - j) then challenges j else inverses j

theorem challengeProduct_succ (challenges inverses : Nat → F) (rounds i : Nat) :
    challengeProduct challenges inverses (rounds + 1) i =
      challengeProduct challenges inverses rounds (i / 2) *
        (if i.testBit 0 then challenges rounds else inverses rounds) := by
  rw [challengeProduct, challengeProduct, Finset.prod_range_succ, Nat.add_sub_cancel, Nat.sub_self]
  congr 1
  refine Finset.prod_congr rfl ?_
  intro j hj
  have hj := Finset.mem_range.mp hj
  have hbit : i.testBit (rounds - j) = (i / 2).testBit (rounds - 1 - j) := by
    rw [testBit_div_two]
    congr 1
    omega
  rw [hbit]

theorem challengeProducts_eq (challenges inverses cache : Nat → F) {rounds : Nat}
    (hrounds : 0 < rounds) (hi : i < 2 ^ rounds) :
    challengeProducts challenges inverses rounds cache i =
      challengeProduct challenges inverses rounds i := by
  have hloop : ∀ n i, i < 2 ^ (n + 1) →
      (range n).foldl
        (fun cache j =>
          challengeSlots (challenges (j + 1)) (inverses (j + 1)) (2 ^ (j + 1)) cache)
        (update (update cache 0 (inverses 0)) 1 (challenges 0)) i =
        challengeProduct challenges inverses (n + 1) i := by
    intro n
    induction n with
    | zero =>
      intro i hi
      rw [range_zero, foldl_nil, challengeProduct_succ, challengeProduct,
        Finset.prod_range_zero, one_mul]
      interval_cases i
      · rfl
      · rfl
    | succ n ih =>
      intro i hi
      rw [range_succ, foldl_append, foldl_cons, foldl_nil, challengeSlots_eq,
        if_pos (by omega), ih (i / 2) (by omega), challengeProduct_succ _ _ (n + 1)]
  obtain ⟨n, rfl⟩ : ∃ n, rounds = n + 1 := ⟨rounds - 1, by omega⟩
  exact hloop n i hi

theorem complement_and {k : Nat} (hk : k ≤ 64) (hi : i < 2 ^ k) :
    (2 ^ 64 - 1 - i) &&& (2 ^ k - 1) = 2 ^ k - 1 - i := by
  obtain ⟨q, hq⟩ : 2 ^ k ∣ 2 ^ 64 := Nat.pow_dvd_pow 2 hk
  have hpos : 0 < q := by
    rcases Nat.eq_zero_or_pos q with rfl | h
    · rw [Nat.mul_zero] at hq
      omega
    · exact h
  have hsplit : 2 ^ 64 - 1 - i = (2 ^ k - 1 - i) + 2 ^ k * (q - 1) := by
    obtain ⟨r, rfl⟩ : ∃ r, q = r + 1 := ⟨q - 1, by omega⟩
    rw [mul_succ] at hq
    rw [Nat.add_sub_cancel, hq]
    omega
  rw [and_two_pow_sub_one_eq_mod, hsplit, add_mul_mod_self_left, mod_eq_of_lt (by omega)]

structure GeneratorsAfter (cache d : Nat → F) (MN : Nat) (e2zw es1w yinv : F)
    (acc final : GeneratorScalars F) (n : Nat) : Prop where
  gi : ∀ t, final.giScalars t =
    if t < n then acc.giScalars t + (acc.er1wy * yinv ^ t * cache t + e2zw) else acc.giScalars t
  hi : ∀ t, final.hiScalars t =
    if t < n then acc.hiScalars t + (acc.minusE2wy * yinv ^ t * d t +
      (es1w * cache ((2 ^ 64 - 1 - t) &&& (MN - 1)) + (0 - e2zw))) else acc.hiScalars t
  er1wy : final.er1wy = acc.er1wy * yinv ^ n
  minusE2wy : final.minusE2wy = acc.minusE2wy * yinv ^ n

theorem generators_after (cache d : Nat → F) (MN : Nat) (e2zw es1w yinv : F)
    (acc : GeneratorScalars F) (n : Nat) :
    GeneratorsAfter cache d MN e2zw es1w yinv acc
      ((List.range n).foldl (generatorStep cache d MN e2zw es1w yinv) acc) n := by
  induction n with
  | zero =>
    refine ⟨fun t => (if_neg (not_lt_zero t)).symm, fun t => (if_neg (not_lt_zero t)).symm, ?_, ?_⟩
    · rw [pow_zero, mul_one]
      rfl
    · rw [pow_zero, mul_one]
      rfl
  | succ n ih =>
    rw [range_succ, foldl_append, foldl_cons, foldl_nil]
    refine ⟨fun t => ?_, fun t => ?_, ?_, ?_⟩
    · rw [generatorStep]
      dsimp only
      rw [ih.gi n, if_neg (lt_irrefl n), ih.er1wy]
      by_cases ht : t = n
      · rw [ht, update_self, if_pos (lt_succ_self n)]
      · rw [update_of_ne ht, ih.gi t]
        exact if_congr (by omega) rfl rfl
    · rw [generatorStep]
      dsimp only
      rw [ih.hi n, if_neg (lt_irrefl n), ih.minusE2wy]
      by_cases ht : t = n
      · rw [ht, update_self, if_pos (lt_succ_self n)]
      · rw [update_of_ne ht, ih.hi t]
        exact if_congr (by omega) rfl rfl
    · rw [generatorStep]
      dsimp only
      rw [ih.er1wy, pow_succ, mul_assoc]
    · rw [generatorStep]
      dsimp only
      rw [ih.minusE2wy, pow_succ, mul_assoc]

end Jero.Ringct
