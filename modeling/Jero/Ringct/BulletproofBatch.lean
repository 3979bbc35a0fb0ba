import Jero.Ringct.BulletproofScalars
import Jero.Ringct.MultiexpSum

namespace Jero.Ringct
open Jero.Algebra Jero.Machine Finset
section
variable {E : Type}

def Bounded (data : List (MultiexpData E)) : Prop := ∀ d ∈ data, d.scalar < 2 ^ keyBits

theorem Bounded.append {xs ys : List (MultiexpData E)} (hx : Bounded xs) (hy : Bounded ys) :
    Bounded (xs ++ ys) := by
  intro d hd
  rcases List.mem_append.mp hd with h | h
  · exact hx d h
  · exact hy d h

theorem bounded_nil : Bounded ([] : List (MultiexpData E)) := fun _ h => nomatch h

theorem bounded_flatMap {f : Nat → List (MultiexpData E)} (hf : ∀ i, Bounded (f i)) (n : Nat) :
    Bounded ((List.range n).flatMap f) := by
  intro d hd
  obtain ⟨i, -, hi⟩ := List.mem_flatMap.mp hd
  exact hf i d hi

end
section
variable {E : Type} [AddCommGroup E]

theorem dataSum_append (xs ys : List (MultiexpData E)) :
    dataSum (xs ++ ys) = dataSum xs + dataSum ys := by
  rw [dataSum, List.map_append, List.sum_append]
  rfl

theorem dataSum_cons (d : MultiexpData E) (data : List (MultiexpData E)) :
    dataSum (d :: data) = d.scalar • d.point + dataSum data := rfl

theorem dataSum_range (f : Nat → List (MultiexpData E)) (n : Nat) :
    dataSum ((List.range n).flatMap f) = ∑ i ∈ Finset.range n, dataSum (f i) := by
  induction n with
  | zero => rfl
  | succ n ih =>
    rw [List.range_succ, List.flatMap_append, dataSum_append, ih, sum_range_succ,
      List.flatMap_singleton]

end
namespace ProofData
variable {F : Type} (pd : ProofData F)

def rounds : Nat := pd.logM + logN

theorem two_pow_rounds : 2 ^ pd.logM * maxN = 2 ^ pd.rounds := by
  rw [rounds, pow_add]
  rfl

variable [Field F]

def challenge (j : Nat) : F := pd.challenges.getD j 0

def product (i : Nat) : F :=
  challengeProduct pd.challenge (fun j => (pd.challenge j)⁻¹) pd.rounds i

def window : Nat → F := windowedVector (fun x => x + x) (pd.z * pd.z) (2 ^ pd.logM)

end ProofData
namespace BulletproofParams
variable {F E : Type} [Field F] [AddCommGroup E] [Module F E] (p : BulletproofParams F E)

theorem term_smul (x : F) (point : E) : (p.term x point).scalar • (p.term x point).point =
    x • point := by
  rw [term, ← Nat.cast_smul_eq_nsmul F, p.cast_bits]

theorem dataSum_terms (x y : F) (P Q : E) : dataSum [p.term x P, p.term y Q] = x • P + y • Q := by
  rw [dataSum_cons, dataSum_cons, p.term_smul, p.term_smul]
  exact congrArg (x • P + ·) (add_zero (y • Q))

theorem bounded_cons {x : F} {point : E} {data : List (MultiexpData E)} (h : Bounded data) :
    Bounded (p.term x point :: data) := by
  intro d hd
  rcases List.mem_cons.mp hd with rfl | hd
  · exact p.bits_lt x
  · exact h d hd

def commitmentFold (zSquared : F) (V : List E) : E :=
  V.foldr (fun v acc => zSquared • (scalarmult8 (F := F) v + acc)) 0

theorem commitmentFold_cons (zSquared : F) (v : E) (V : List E) :
    commitmentFold zSquared (v :: V) =
      zSquared • (scalarmult8 (F := F) v + commitmentFold zSquared V) := rfl

theorem dataSum_commitmentTerms (zSquared temp : F) (V : List E) :
    dataSum (p.commitmentTerms zSquared temp V) = temp • commitmentFold zSquared V := by
  induction V generalizing temp with
  | nil => exact (smul_zero temp).symm
  | cons v V ih =>
    rw [commitmentTerms, dataSum_cons, p.term_smul, ih, commitmentFold_cons, smul_smul, smul_add]

theorem bounded_commitmentTerms (zSquared temp : F) (V : List E) :
    Bounded (p.commitmentTerms zSquared temp V) := by
  induction V generalizing temp with
  | nil => exact bounded_nil
  | cons v V ih => exact p.bounded_cons (ih _)

def roundFold (pd : ProofData F) (L R : List E) : E :=
  ∑ j ∈ Finset.range pd.rounds,
    ((pd.challenge j * pd.challenge j) • scalarmult8 (F := F) (L.getD j 0) +
      ((pd.challenge j)⁻¹ * (pd.challenge j)⁻¹) • scalarmult8 (F := F) (R.getD j 0))

variable {pd : ProofData F}

theorem dataSum_roundTerms {inverses : Nat → F}
    (hinv : ∀ j < pd.rounds, inverses j = (pd.challenge j)⁻¹) (c : F) (L R : List E) :
    dataSum (p.roundTerms pd.challenge inverses c L R pd.rounds) = c • roundFold pd L R := by
  rw [roundTerms, dataSum_range, roundFold, smul_sum]
  refine sum_congr rfl ?_
  intro j hj
  rw [p.dataSum_terms, hinv j (mem_range.mp hj)]
  module

section
variable (proof : BulletproofPlus F E) (pd : ProofData F)

def giCoefficient (i : Nat) : F :=
  pd.e * proof.r1 * (pd.y⁻¹) ^ i * pd.product i + pd.e * pd.e * pd.z

def hiCoefficient (i : Nat) : F :=
  -(pd.e * pd.e) * pd.y ^ 2 ^ pd.rounds * (pd.y⁻¹) ^ i * pd.window i +
    (pd.e * proof.s1 * pd.product (2 ^ pd.rounds - 1 - i) - pd.e * pd.e * pd.z)

def hCoefficient : F :=
  ((pd.z * pd.z - pd.z) * ∑ i ∈ Finset.range (2 ^ pd.rounds), pd.y ^ (i + 1) +
      pd.y ^ 2 ^ pd.rounds * pd.y * pd.z *
        ((2 ^ 64 - 1) * ∑ j ∈ Finset.range (2 ^ pd.logM), (pd.z * pd.z) ^ (j + 1))) *
      (pd.e * pd.e) +
    proof.r1 * pd.y * proof.s1

def residual : E :=
  ∑ i ∈ Finset.range (2 ^ pd.rounds),
      (giCoefficient proof pd i • p.Gi i + hiCoefficient proof pd i • p.Hi i) +
    (-(pd.e * pd.e) * (pd.y ^ 2 ^ pd.rounds * pd.y)) • commitmentFold (pd.z * pd.z) proof.V -
    scalarmult8 (F := F) proof.B - pd.e • scalarmult8 (F := F) proof.A1 -
    (pd.e * pd.e) • scalarmult8 (F := F) proof.A - (pd.e * pd.e) • roundFold pd proof.L proof.R +
    proof.d1 • p.G + hCoefficient proof pd • p.H

end

def element (n : Nat) (acc : WeightedBatch F E) : E :=
  ∑ i ∈ Finset.range n, (acc.giScalars i • p.Gi i + acc.hiScalars i • p.Hi i) +
    dataSum acc.data + acc.gScalar • p.G + acc.hScalar • p.H

structure Inverses (inverses : List F) (pd : ProofData F) : Prop where
  challenge : ∀ j < pd.rounds, inverses.getD (pd.invOffset + j) 0 = (pd.challenge j)⁻¹
  y : inverses.getD (pd.invOffset + pd.rounds) 0 = pd.y⁻¹

theorem product_of_inverses {inverses : List F} (h : Inverses inverses pd)
    (cache : Nat → F) {i : Nat} (hi : i < 2 ^ pd.rounds) :
    challengeProducts pd.challenge (fun j => inverses.getD (pd.invOffset + j) 0) pd.rounds cache i =
      pd.product i := by
  have hrounds : 0 < pd.rounds := Nat.succ_pos _
  rw [challengeProducts_eq _ _ _ hrounds hi, ProofData.product, challengeProduct, challengeProduct]
  refine prod_congr rfl ?_
  intro j hj
  rw [h.challenge j (mem_range.mp hj)]

section
variable {F E : Type} [Field F] (inverses : List F) (acc : WeightedBatch F E)
variable (proof : BulletproofPlus F E) (weight : F) (pd : ProofData F)

def stepCache : Nat → F :=
  challengeProducts pd.challenge (fun j => inverses.getD (pd.invOffset + j) 0) pd.rounds
    acc.challengesCache

def stepGenerators : GeneratorScalars F :=
  (List.range (2 ^ pd.rounds)).foldl
    (generatorStep (stepCache inverses acc pd) pd.window (2 ^ pd.rounds)
      (pd.e * pd.e * pd.z * weight) (pd.e * proof.s1 * weight)
      (inverses.getD (pd.invOffset + pd.rounds) 0))
    { giScalars := acc.giScalars
      hiScalars := acc.hiScalars
      er1wy := pd.e * proof.r1 * weight
      minusE2wy := (0 - pd.e * pd.e) * weight * pd.y ^ 2 ^ pd.rounds }

end
variable (inverses : List F) (acc : WeightedBatch F E) (proof : BulletproofPlus F E) (weight : F)
variable (pd : ProofData F)

def stepData : List (MultiexpData E) :=
  p.commitmentTerms (pd.z * pd.z)
      ((0 - pd.e * pd.e) * (pd.y ^ 2 ^ pd.rounds * pd.y) * weight) proof.V ++
    [p.term (-1 * weight) (scalarmult8 (F := F) proof.B),
      p.term (-1 * weight * pd.e) (scalarmult8 (F := F) proof.A1),
      p.term (-1 * weight * pd.e * pd.e) (scalarmult8 (F := F) proof.A)] ++
    p.roundTerms pd.challenge (fun j => inverses.getD (pd.invOffset + j) 0)
      (-1 * weight * pd.e * pd.e) proof.L proof.R pd.rounds

def accumulated : WeightedBatch F E where
  gScalar := weight * proof.d1 + acc.gScalar
  hScalar := hCoefficient proof pd * weight + acc.hScalar
  giScalars := (stepGenerators inverses acc proof weight pd).giScalars
  hiScalars := (stepGenerators inverses acc proof weight pd).hiScalars
  challengesCache := stepCache inverses acc pd
  data := acc.data ++ p.stepData inverses proof weight pd

theorem bounded_stepData : Bounded (p.stepData inverses proof weight pd) :=
  ((p.bounded_commitmentTerms _ _ _).append
    (p.bounded_cons (p.bounded_cons (p.bounded_cons bounded_nil)))).append
    (bounded_flatMap (fun _ => p.bounded_cons (p.bounded_cons bounded_nil)) _)

theorem accumulate_eq [DecidableEq F] (hsize : proof.L.length = 6 + pd.logM) :
    p.accumulate inverses acc ((proof, weight), pd) =
      .ok (p.accumulated inverses acc proof weight pd) := by
  have hrounds : 0 < pd.logM + logN := Nat.succ_pos _
  have hsumY : sumOfScalarPowers pd.y (2 ^ pd.rounds) =
      .ok (∑ i ∈ range (2 ^ pd.rounds), pd.y ^ (i + 1)) :=
    sumOfScalarPowers_eq pd.y (pd.logM + 5)
  rw [accumulate]
  dsimp only
  rw [check_decide hsize, sumOfEvenPowers_eq, ok_bind, pd.two_pow_rounds,
    hsumY, ok_bind, check_decide hrounds, squareWhile_two_pow, twoSixtyFourMinusOne_eq]
  rfl

variable {inverses pd} (hinv : Inverses inverses pd)
include hinv

theorem stepGenerators_sum (hlog : pd.rounds ≤ 64) {n : Nat} (hn : 2 ^ pd.rounds ≤ n) :
    ∑ i ∈ Finset.range n, ((stepGenerators inverses acc proof weight pd).giScalars i • p.Gi i +
        (stepGenerators inverses acc proof weight pd).hiScalars i • p.Hi i) =
      ∑ i ∈ Finset.range n, (acc.giScalars i • p.Gi i + acc.hiScalars i • p.Hi i) +
        weight • ∑ i ∈ Finset.range (2 ^ pd.rounds),
          (giCoefficient proof pd i • p.Gi i + hiCoefficient proof pd i • p.Hi i) := by
  rw [smul_sum, ← sum_range_ite _ hn, ← sum_add_distrib]
  refine sum_congr rfl ?_
  intro i _
  rw [stepGenerators, (generators_after _ _ _ _ _ _ _ _).gi, (generators_after _ _ _ _ _ _ _ _).hi]
  split
  case isTrue ht =>
    rw [complement_and hlog ht, stepCache, product_of_inverses hinv _ ht,
      product_of_inverses hinv _ (by omega), hinv.y, giCoefficient, hiCoefficient]
    module
  case isFalse => rw [add_zero]

theorem dataSum_stepData :
    dataSum (p.stepData inverses proof weight pd) =
      weight • ((-(pd.e * pd.e) * (pd.y ^ 2 ^ pd.rounds * pd.y)) •
          commitmentFold (pd.z * pd.z) proof.V -
        scalarmult8 (F := F) proof.B - pd.e • scalarmult8 (F := F) proof.A1 -
        (pd.e * pd.e) • scalarmult8 (F := F) proof.A -
        (pd.e * pd.e) • roundFold pd proof.L proof.R) := by
  rw [stepData, dataSum_append, dataSum_append, p.dataSum_commitmentTerms,
    p.dataSum_roundTerms hinv.challenge, dataSum_cons, p.dataSum_terms, p.term_smul]
  module

theorem element_accumulated (hlog : pd.rounds ≤ 64) {n : Nat} (hn : 2 ^ pd.rounds ≤ n) :
    p.element n (p.accumulated inverses acc proof weight pd) =
      p.element n acc + weight • p.residual proof pd := by
  rw [element, accumulated]
  rw [p.stepGenerators_sum acc proof weight hinv hlog hn, dataSum_append,
    p.dataSum_stepData proof weight hinv, element, residual]
  module

end BulletproofParams
end Jero.Ringct
