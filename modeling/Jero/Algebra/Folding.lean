import Mathlib.Tactic

namespace Jero.Algebra
open Finset

theorem sum_range_rows {M : Type} [AddCommMonoid M] (f : Nat → M) (rows width : Nat) :
    ∑ t ∈ Finset.range (rows * width), f t =
      ∑ j ∈ Finset.range rows, ∑ i ∈ Finset.range width, f (j * width + i) := by
  induction rows with
  | zero => rw [Nat.zero_mul, sum_range_zero, sum_range_zero]
  | succ rows ih => rw [Nat.succ_mul, sum_range_add, ih, sum_range_succ]

variable {n : Nat}

theorem sum_range_ite {M : Type} [AddCommMonoid M] (f : Nat → M) {m : Nat} (h : m ≤ n) :
    ∑ i ∈ Finset.range n, (if i < m then f i else 0) = ∑ i ∈ Finset.range m, f i := by
  have hzero : ∀ i ∈ range n, i ∉ range m → (if i < m then f i else 0) = 0 := by
    intro i _ hi
    exact if_neg fun hlt => hi (mem_range.mpr hlt)
  rw [← sum_subset (range_subset_range.mpr h) hzero]
  exact sum_congr rfl fun i hi => if_pos (mem_range.mp hi)

variable {F E : Type} [Field F] [AddCommGroup E] [Module F E]

def pairing (n : Nat) (a : Nat → F) (g : Nat → E) : E := ∑ i ∈ Finset.range n, a i • g i

def weightedPairing (n : Nat) (y : F) (a b : Nat → F) : F :=
  ∑ i ∈ Finset.range n, a i * b i * y ^ (i + 1)

def upper {α : Type} (n : Nat) (f : Nat → α) (i : Nat) : α := f (n + i)

theorem pairing_split (n : Nat) (a : Nat → F) (g : Nat → E) :
    pairing (2 * n) a g = pairing n a g + pairing n (upper n a) (upper n g) := by
  rw [two_mul]
  exact sum_range_add _ n n

variable {a a' : Nat → F}

theorem pairing_congr {g g' : Nat → E} (ha : ∀ i < n, a i = a' i) (hg : ∀ i < n, g i = g' i) :
    pairing n a g = pairing n a' g' := by
  refine sum_congr rfl ?_
  intro i hi
  rw [ha i (mem_range.mp hi), hg i (mem_range.mp hi)]

theorem pairing_fold (n : Nat) (a : Nat → F) (g : Nat → E) (x c u v : F) :
    pairing n (fun i => a i * x + upper n a i * c) (fun i => u • g i + v • upper n g i) =
      (x * u) • pairing n a g + (x * v) • pairing n a (upper n g) +
        (c * u) • pairing n (upper n a) g + (c * v) • pairing n (upper n a) (upper n g) := by
  rw [pairing, pairing, pairing, pairing, pairing, smul_sum, smul_sum,
    smul_sum, smul_sum, ← sum_add_distrib, ← sum_add_distrib, ← sum_add_distrib]
  refine sum_congr rfl ?_
  intro i _
  module

theorem pairing_mul_left (n : Nat) (c : F) (a : Nat → F) (g : Nat → E) :
    pairing n (fun i => a i * c) g = c • pairing n a g := by
  rw [pairing, pairing, smul_sum]
  refine sum_congr rfl ?_
  intro i _
  module

theorem pairing_scaled {c : F} (h : ∀ i < n, a i = a' i * c) (g : Nat → E) :
    pairing n a g = c • pairing n a' g := by
  rw [pairing_congr h fun _ _ => rfl, pairing_mul_left]

theorem pairing_generators (u v : F) {c : Nat → F} (g : Nat → E) (hlow : ∀ i < n, a i = c i * u)
    (hhigh : ∀ i < n, upper n a i = c i * v) :
    pairing n c (fun i => u • g i + v • upper n g i) = pairing (2 * n) a g := by
  rw [pairing_split, pairing_scaled hlow, pairing_scaled hhigh, pairing, pairing, pairing,
    smul_sum, smul_sum, ← sum_add_distrib]
  refine sum_congr rfl ?_
  intro i _
  module

theorem weightedPairing_eq (n : Nat) (y : F) (a b : Nat → F) :
    weightedPairing n y a b = pairing n a fun i => b i * y ^ (i + 1) := by
  refine sum_congr rfl ?_
  intro i _
  rw [smul_eq_mul, mul_assoc]

theorem weightedPairing_congr (y : F) {b b' : Nat → F} (ha : ∀ i < n, a i = a' i)
    (hb : ∀ i < n, b i = b' i) : weightedPairing n y a b = weightedPairing n y a' b' := by
  rw [weightedPairing_eq, weightedPairing_eq]
  exact pairing_congr ha fun i hi => congrArg (· * y ^ (i + 1)) (hb i hi)

theorem weightedPairing_split (n : Nat) (y : F) (a b : Nat → F) :
    weightedPairing (2 * n) y a b =
      weightedPairing n y a b + y ^ n * weightedPairing n y (upper n a) (upper n b) := by
  rw [weightedPairing, two_mul, sum_range_add, weightedPairing, weightedPairing, mul_sum]
  congr 1
  refine sum_congr rfl ?_
  intro i _
  rw [upper, upper, add_assoc n i 1, pow_add]
  ring

theorem weightedPairing_fold (n : Nat) (y : F) (a b : Nat → F) (x c u v : F) :
    weightedPairing n y (fun i => a i * x + upper n a i * c)
        (fun i => b i * u + upper n b i * v) =
      x * u * weightedPairing n y a b + x * v * weightedPairing n y a (upper n b) +
        c * u * weightedPairing n y (upper n a) b +
        c * v * weightedPairing n y (upper n a) (upper n b) := by
  rw [weightedPairing, weightedPairing, weightedPairing, weightedPairing, weightedPairing,
    mul_sum, mul_sum, mul_sum, mul_sum, ← sum_add_distrib, ← sum_add_distrib, ← sum_add_distrib]
  refine sum_congr rfl ?_
  intro i _
  ring

theorem weightedPairing_mul_left (n : Nat) (y c : F) (a b : Nat → F) :
    weightedPairing n y (fun i => a i * c) b = c * weightedPairing n y a b := by
  rw [weightedPairing, weightedPairing, mul_sum]
  refine sum_congr rfl ?_
  intro i _
  ring

end Jero.Algebra
