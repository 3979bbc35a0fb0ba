import Jero.Ringct.BulletproofRounds

namespace Jero.Ringct
open Jero.Algebra Jero.Machine Finset Nat
variable {sv : List UInt64}
section
variable {F : Type} [Field F]

def powerFold (zSquared : F) (xs : List F) : F :=
  xs.foldr (fun x acc => zSquared * (x + acc)) 0

theorem powerFold_cons (zSquared x : F) (xs : List F) :
    powerFold zSquared (x :: xs) = zSquared * (x + powerFold zSquared xs) := rfl

theorem maskSum_eq (zSquared c : F) (gamma : List F) (alpha : F) :
    (maskSum zSquared c gamma alpha).1 = alpha + c * powerFold zSquared gamma := by
  have hfold : ∀ (alpha t : F), (gamma.foldl
      (fun acc g => (c * (acc.2 * zSquared) * g + acc.1, acc.2 * zSquared)) (alpha, t)).1 =
        alpha + c * t * powerFold zSquared gamma := by
    induction gamma with
    | nil =>
      intro alpha t
      rw [List.foldl_nil, powerFold, List.foldr_nil, mul_zero, add_zero]
    | cons g gamma ih =>
      intro alpha t
      rw [List.foldl_cons, ih, powerFold_cons]
      ring
  have hstart := hfold alpha 1
  rwa [mul_one] at hstart

theorem powerFold_eq_sum (zSquared : F) (xs : List F) {M : Nat} (h : xs.length ≤ M) :
    powerFold zSquared xs = ∑ j ∈ Finset.range M, zSquared ^ (j + 1) * xs.getD j 0 := by
  induction xs generalizing M with
  | nil =>
    refine (sum_eq_zero ?_).symm
    intro j _
    exact mul_zero _
  | cons x xs ih =>
    obtain ⟨m, rfl⟩ : ∃ m, M = m + 1 := ⟨M - 1, by rw [List.length_cons] at h; omega⟩
    have hshift : ∀ j ∈ range m, zSquared ^ (j + 1 + 1) * (x :: xs).getD (j + 1) 0 =
        zSquared * (zSquared ^ (j + 1) * xs.getD j 0) := by
      intro j _
      rw [List.getD_cons_succ, pow_succ]
      ring
    rw [powerFold_cons, ih (le_of_succ_le_succ h), sum_range_succ',
      sum_congr rfl hshift, ← mul_sum, List.getD_cons_zero, zero_add, pow_one]
    ring

theorem sum_bits (v : Nat) (n : Nat) :
    ∑ i ∈ Finset.range n, (if v.testBit i then (1 : F) else 0) * 2 ^ i = ((v % 2 ^ n : Nat) : F) := by
  induction n with
  | zero => rw [sum_range_zero, pow_zero, mod_one, cast_zero]
  | succ n ih =>
    rw [sum_range_succ, ih, mod_two_pow_succ, cast_add, cast_mul]
    cases v.testBit n with
    | false => rw [if_neg Bool.false_ne_true, Bool.toNat_false, cast_zero, zero_mul, zero_mul]
    | true =>
      rw [if_pos rfl, Bool.toNat_true, cast_one, cast_pow, cast_ofNat]

theorem svBit_eq (sv : List UInt64) (j : Nat) {i : Nat} (hi : i < maxN) :
    svBit sv (j * maxN + i) = (sv.getD j 0).toNat.testBit i := by
  have hrow : (j * maxN + i) / maxN = j := by
    rw [mul_comm, mul_add_div (by decide), div_eq_of_lt hi, add_zero]
  have hcol : (j * maxN + i) % maxN = i := by
    rw [mul_comm, mul_add_mod, mod_eq_of_lt hi]
  rw [svBit, hrow, hcol, List.getD_eq_getElem?_getD]
  cases sv[j]? with
  | none => exact (zero_testBit i).symm
  | some v => rfl

def aLeft (sv : List UInt64) (t : Nat) : F := if svBit sv t then 1 else 0

def aRight (sv : List UInt64) (t : Nat) : F := if svBit sv t then 0 else -1

theorem sum_value {double : F → F} (hdouble : ∀ x, double x = x * 2) (zSquared : F)
    {M : Nat} (h : sv.length ≤ M) :
    ∑ t ∈ Finset.range (M * maxN), aLeft sv t * windowedVector double zSquared M t =
      powerFold zSquared (sv.map fun v => (v.toNat : F)) := by
  have hlen : (sv.map fun v => (v.toNat : F)).length ≤ M := by
    rwa [List.length_map]
  rw [powerFold_eq_sum zSquared _ hlen, sum_range_rows]
  refine sum_congr rfl ?_
  intro j hj
  have hrow : ∀ i ∈ range maxN, aLeft sv (j * maxN + i) *
      windowedVector double zSquared M (j * maxN + i) =
        zSquared ^ (j + 1) * ((if (sv.getD j 0).toNat.testBit i then (1 : F) else 0) * 2 ^ i) := by
    intro i hi
    have hi := mem_range.mp hi
    rw [windowedVector_eq hdouble zSquared (mem_range.mp hj) hi, aLeft, svBit_eq sv j hi]
    ring
  have hword : (sv.getD j 0).toNat % 2 ^ maxN = (sv.getD j 0).toNat :=
    mod_eq_of_lt (sv.getD j 0).toNat_lt
  have hget : (sv.map fun v => (v.toNat : F)).getD j 0 = ((sv.getD j 0).toNat : F) := by
    rw [List.getD_eq_getElem?_getD, List.getD_eq_getElem?_getD, List.getElem?_map]
    cases sv[j]? with
    | none => exact cast_zero.symm
    | some v => rfl
  rw [sum_congr rfl hrow, ← mul_sum, sum_bits, hword, hget]

theorem weighted_witness {y z : F} {n : Nat} {d : Nat → F} :
    weightedPairing n y (fun i => aLeft sv i - z) (fun i => aRight sv i + z + d i * y ^ (n - i)) =
      (z - z * z) * ∑ i ∈ Finset.range n, y ^ (i + 1) +
        y ^ n * y * (∑ i ∈ Finset.range n, aLeft sv i * d i - z * ∑ i ∈ Finset.range n, d i) := by
  have hterm : ∀ i ∈ range n,
      (aLeft sv i - z) * (aRight sv i + z + d i * y ^ (n - i)) * y ^ (i + 1) =
        (z - z * z) * y ^ (i + 1) + (y ^ n * y * (aLeft sv i * d i) - y ^ n * y * z * d i) := by
    intro i hi
    have hi := mem_range.mp hi
    have hpow : y ^ (n - i) * y ^ (i + 1) = y ^ n * y := by
      rw [← pow_add, ← pow_succ]
      congr 1
      omega
    have hbit : (aLeft sv i - z) * (aRight sv i + z) = z - z * z := by
      rw [aLeft, aRight]
      split
      · ring
      · ring
    calc (aLeft sv i - z) * (aRight sv i + z + d i * y ^ (n - i)) * y ^ (i + 1) =
        (aLeft sv i - z) * (aRight sv i + z) * y ^ (i + 1) +
          (aLeft sv i - z) * d i * (y ^ (n - i) * y ^ (i + 1)) := by ring
      _ = _ := by
        rw [hbit, hpow]
        ring
  rw [weightedPairing, sum_congr rfl hterm, sum_add_distrib, sum_sub_distrib,
    ← mul_sum, ← mul_sum, ← mul_sum]
  ring

end
namespace BulletproofParams
variable {F E : Type} [Field F] [AddCommGroup E] [Module F E] (p : BulletproofParams F E)

def commit (x : UInt64) (g : F) : E :=
  (g * p.invEight) • p.G + (x.toNat * p.invEight) • p.H

variable {gamma : List F}

theorem commitmentFold_commit (zSquared : F) {v : List UInt64} (h : v.length = gamma.length) :
    commitmentFold zSquared (List.zipWith p.commit v gamma) =
      powerFold zSquared gamma • p.G + powerFold zSquared (v.map fun x => (x.toNat : F)) • p.H := by
  induction v generalizing gamma with
  | nil =>
    obtain rfl := List.length_eq_zero_iff.mp h.symm
    simp [commitmentFold, powerFold]
  | cons x v ih =>
    cases gamma with
    | nil => cases h
    | cons g gamma =>
      rw [List.zipWith_cons_cons, commitmentFold_cons, ih (succ.inj h), commit, scalarmult8_add,
        p.scalarmult8_term, p.scalarmult8_term, List.map_cons, powerFold_cons, powerFold_cons]
      module

def finalProof (y : F) (draws : ProverDraws F) (V : List E) (A : E) (st : ProverState F E) :
    BulletproofPlus F E :=
  let a := st.aprime.get 0
  let b := st.bprime.get 0
  let A1 := p.invEight • (draws.r • st.Gprime.get 0 + draws.s • st.Hprime.get 0 +
    draws.d • p.G + (draws.r * y * b + draws.s * y * a) • p.H)
  let B := (draws.eta * p.invEight) • p.G + (draws.r * y * draws.s * p.invEight) • p.H
  let e := p.transcriptUpdate st.transcript [.point A1, .point B]
  { V := V
    A := A
    A1 := A1
    B := B
    r1 := a * e + draws.r
    s1 := b * e + draws.s
    d1 := st.alpha1 * (e * e) + (draws.d * e + draws.eta)
    L := st.L
    R := st.R }

theorem finalRound_eq [DecidableEq F] (hhash : ∀ l, p.hashToScalar l ≠ 0) (y : F)
    (draws : ProverDraws F) (V : List E) (A : E) (st : ProverState F E) :
    p.finalRound y draws V A st = .ok (some (p.finalProof y draws V A st)) := by
  have hA1 : multiexp p.higiCache
      [p.term (draws.r * p.invEight) (st.Gprime.get 0),
        p.term (draws.s * p.invEight) (st.Hprime.get 0), p.term (draws.d * p.invEight) p.G,
        p.term ((draws.r * y * st.bprime.get 0 + draws.s * y * st.aprime.get 0) * p.invEight)
          p.H] 0 = .ok (p.finalProof y draws V A st).A1 := by
    rw [p.multiexp_terms (p.bounded_cons (p.bounded_cons (p.bounded_cons (p.bounded_cons
      bounded_nil)))), dataSum_cons, dataSum_cons, p.dataSum_terms, p.term_smul, p.term_smul,
      finalProof]
    refine congrArg Except.ok ?_
    module
  rw [finalRound]
  rw [hA1, ok_bind]
  exact if_neg (hhash _)

structure Opening (F E : Type) where
  a : F
  b : F
  r : F
  s : F
  d : F
  eta : F
  alpha : F
  alpha1 : F
  G : E
  H : E

def leftWitness (pd : ProofData F) (sv : List UInt64) (i : Nat) : F := aLeft sv i - pd.z

def rightWitness (pd : ProofData F) (sv : List UInt64) (i : Nat) : F :=
  aRight sv i + pd.z + pd.window i * pd.y ^ (2 ^ pd.rounds - i)

structure OpensAs (proof : BulletproofPlus F E) (pd : ProofData F) (sv : List UInt64)
    (gamma : List F) (o : Opening F E) : Prop where
  y : pd.y ≠ 0
  size : sv.length ≤ 2 ^ pd.logM
  G : o.G = pairing (2 ^ pd.rounds) (fun i => (pd.y⁻¹) ^ i * pd.product i) p.Gi
  H : o.H = pairing (2 ^ pd.rounds) (fun i => pd.product (2 ^ pd.rounds - 1 - i)) p.Hi
  V : commitmentFold (pd.z * pd.z) proof.V = powerFold (pd.z * pd.z) gamma • p.G +
    powerFold (pd.z * pd.z) (sv.map fun x => (x.toNat : F)) • p.H
  A : scalarmult8 (F := F) proof.A = pairing (2 ^ pd.rounds) (aLeft (F := F) sv) p.Gi +
    pairing (2 ^ pd.rounds) (aRight (F := F) sv) p.Hi + o.alpha • p.G
  A1 : scalarmult8 (F := F) proof.A1 =
    o.r • o.G + o.s • o.H + o.d • p.G + (o.r * pd.y * o.b + o.s * pd.y * o.a) • p.H
  B : scalarmult8 (F := F) proof.B = o.eta • p.G + (o.r * pd.y * o.s) • p.H
  r1 : proof.r1 = o.a * pd.e + o.r
  s1 : proof.s1 = o.b * pd.e + o.s
  d1 : proof.d1 = o.alpha1 * (pd.e * pd.e) + (o.d * pd.e + o.eta)
  rounds : o.a • o.G + o.b • o.H + (o.a * o.b * pd.y) • p.H + o.alpha1 • p.G =
    pairing (2 ^ pd.rounds) (leftWitness pd sv) p.Gi +
      pairing (2 ^ pd.rounds) (rightWitness pd sv) p.Hi +
      weightedPairing (2 ^ pd.rounds) pd.y (leftWitness pd sv) (rightWitness pd sv) • p.H +
      (o.alpha + pd.y ^ 2 ^ pd.rounds * pd.y * powerFold (pd.z * pd.z) gamma) • p.G +
      roundFold pd proof.L proof.R

section
variable {p} {proof : BulletproofPlus F E} {pd : ProofData F} {sv : List UInt64} {gamma : List F}
variable {o : Opening F E} (h : p.OpensAs proof pd sv gamma o)

include h in
theorem OpensAs.generators :
    ∑ i ∈ Finset.range (2 ^ pd.rounds),
        (giCoefficient proof pd i • p.Gi i + hiCoefficient proof pd i • p.Hi i) =
      (pd.e * proof.r1) • o.G + (pd.e * proof.s1) • o.H +
        (pd.e * pd.e) • (pairing (2 ^ pd.rounds) (fun _ => pd.z) p.Gi -
          pairing (2 ^ pd.rounds)
            (fun i => pd.z + pd.window i * pd.y ^ (2 ^ pd.rounds - i)) p.Hi) := by
  rw [h.G, h.H, pairing, pairing, pairing, pairing, smul_sum, smul_sum,
    ← sum_sub_distrib, smul_sum, ← sum_add_distrib, ← sum_add_distrib]
  refine sum_congr rfl ?_
  intro i hi
  have hpow : pd.y ^ 2 ^ pd.rounds * (pd.y⁻¹) ^ i = pd.y ^ (2 ^ pd.rounds - i) := by
    rw [inv_pow, pow_sub₀ _ h.y (mem_range.mp hi).le]
  rw [giCoefficient, hiCoefficient, ← hpow]
  module

theorem pairing_leftWitness (n : Nat) (g : Nat → E) : pairing n (leftWitness pd sv) g =
    pairing n (aLeft (F := F) sv) g - pairing n (fun _ => pd.z) g := by
  rw [pairing, pairing, pairing, ← sum_sub_distrib]
  exact sum_congr rfl fun i _ => sub_smul _ _ _

theorem pairing_rightWitness (n : Nat) (g : Nat → E) : pairing n (rightWitness pd sv) g =
    pairing n (aRight (F := F) sv) g +
      pairing n (fun i => pd.z + pd.window i * pd.y ^ (2 ^ pd.rounds - i)) g := by
  rw [pairing, pairing, pairing, ← sum_add_distrib]
  refine sum_congr rfl ?_
  intro i _
  rw [rightWitness, add_assoc, add_smul]

include h

theorem OpensAs.weighted :
    weightedPairing (2 ^ pd.rounds) pd.y (leftWitness pd sv) (rightWitness pd sv) =
      (pd.z - pd.z * pd.z) * ∑ i ∈ Finset.range (2 ^ pd.rounds), pd.y ^ (i + 1) +
        pd.y ^ 2 ^ pd.rounds * pd.y *
          (powerFold (pd.z * pd.z) (sv.map fun x => (x.toNat : F)) - pd.z * ((2 ^ 64 - 1) *
            ∑ j ∈ Finset.range (2 ^ pd.logM), (pd.z * pd.z) ^ (j + 1))) := by
  have hdouble : ∀ x : F, x + x = x * 2 := fun x => (mul_two x).symm
  have hvalue := sum_value hdouble (pd.z * pd.z) h.size
  have hwindow := sum_windowedVector hdouble (pd.z * pd.z) (2 ^ pd.logM)
  rw [pd.two_pow_rounds] at hvalue hwindow
  rw [← hvalue, ← hwindow]
  exact weighted_witness

theorem OpensAs.residual_eq_zero : p.residual proof pd = 0 := by
  have hrounds := h.rounds
  rw [h.weighted, pairing_leftWitness, pairing_rightWitness] at hrounds
  have hfold := eq_sub_of_add_eq' hrounds.symm
  rw [residual, h.generators, h.V, h.B, h.A1, h.A, hCoefficient, hfold, h.r1, h.s1, h.d1]
  module

omit h
end

theorem scalarmult8_A (sv : List UInt64) (n : Nat) (alpha : F) :
    scalarmult8 (F := F) (pairing n (bitVector sv n p.invEight 0).get p.Gi +
        pairing n (bitVector sv n 0 (-p.invEight)).get p.Hi + (alpha * p.invEight) • p.G) =
      pairing n (aLeft (F := F) sv) p.Gi + pairing n (aRight (F := F) sv) p.Hi + alpha • p.G := by
  have hleft : ∀ i < n, (bitVector sv n p.invEight 0).get i = aLeft sv i * p.invEight := by
    intro i _
    rw [bitVector, aLeft]
    dsimp only
    split
    · rw [one_mul]
    · rw [zero_mul]
  have hright : ∀ i < n, (bitVector sv n 0 (-p.invEight)).get i = aRight sv i * p.invEight := by
    intro i _
    rw [bitVector, aRight]
    dsimp only
    split
    · rw [zero_mul]
    · rw [neg_one_mul]
  rw [pairing_scaled hleft, pairing_scaled hright, scalarmult8_add, scalarmult8_add,
    p.scalarmult8_invEight, p.scalarmult8_invEight, p.scalarmult8_term]

variable {V : List E} {A : E} {k : Nat} {draws : ProverDraws F} {st final : ProverState F E}
variable {Ls Rs : List E}

def openingOf (draws : ProverDraws F) (final : ProverState F E) : Opening F E where
  a := final.aprime.get 0
  b := final.bprime.get 0
  r := draws.r
  s := draws.s
  d := draws.d
  eta := draws.eta
  alpha := draws.alpha
  alpha1 := final.alpha1
  G := final.Gprime.get 0
  H := final.Hprime.get 0

structure StartsFrom (V : List E) (A : E) (sv : List UInt64) (gamma : List F) (alpha : F) (k : Nat)
    (st : ProverState F E) : Prop where
  rounds : k = Nat.clog 2 V.length + logN
  sized : Sized (2 ^ k) st
  a : ∀ i < 2 ^ k, st.aprime.get i = aLeft sv i - p.zOf V A
  b : ∀ i < 2 ^ k, st.bprime.get i = aRight sv i + p.zOf V A +
    windowedVector (fun x => x + x) (p.zOf V A * p.zOf V A) (2 ^ Nat.clog 2 V.length) i *
      p.yOf V A ^ (2 ^ k - i)
  G : st.Gprime.get = p.Gi
  H : st.Hprime.get = p.Hi
  alpha1 : st.alpha1 = alpha +
    p.yOf V A ^ 2 ^ k * p.yOf V A * powerFold (p.zOf V A * p.zOf V A) gamma
  transcript : st.transcript = .scalar (p.zOf V A)
  L : st.L = []
  R : st.R = []

def provedData (V : List E) (A : E) (draws : ProverDraws F) (final : ProverState F E)
    (Ls Rs : List E) : ProofData F where
  y := p.yOf V A
  z := p.zOf V A
  e := p.transcriptUpdate final.transcript
    [.point (p.finalProof (p.yOf V A) draws V A final).A1,
      .point (p.finalProof (p.yOf V A) draws V A final).B]
  challenges := (p.roundTranscript (.scalar (p.zOf V A)) (Ls.zip Rs)).1
  logM := Nat.clog 2 V.length
  invOffset := 0

section
variable {sv : List UInt64} {gamma : List F} (hstart : p.StartsFrom V A sv gamma draws.alpha k st)
include hstart

theorem finalProof_L {y : F} (h : p.Reduced y k st final Ls Rs) :
    (p.finalProof (p.yOf V A) draws V A final).L = Ls := by
  rw [finalProof, h.L, hstart.L, List.nil_append]

theorem finalProof_R {y : F} (h : p.Reduced y k st final Ls Rs) :
    (p.finalProof (p.yOf V A) draws V A final).R = Rs := by
  rw [finalProof, h.R, hstart.R, List.nil_append]

theorem dataOf_finalProof (h : p.Reduced (p.yOf V A) k st final Ls Rs) :
    p.dataOf 0 (p.finalProof (p.yOf V A) draws V A final) = p.provedData V A draws final Ls Rs := by
  have htranscript := h.transcript
  rw [hstart.transcript] at htranscript
  rw [dataOf, roundsOf, p.finalProof_L hstart h, p.finalProof_R hstart h, provedData, htranscript]
  rfl

end

theorem challenges_ne_zero (hhash : ∀ l, p.hashToScalar l ≠ 0) (transcript : Key F E)
    (l : List (E × E)) : ∀ x ∈ (p.roundTranscript transcript l).1, x ≠ 0 := by
  induction l generalizing transcript with
  | nil => exact fun _ h => (nomatch h)
  | cons lr l ih => exact List.forall_mem_cons.mpr ⟨hhash _, ih _⟩

theorem statement_one (y : F) (st : ProverState F E) :
    p.statement y 1 st = st.aprime.get 0 • st.Gprime.get 0 + st.bprime.get 0 • st.Hprime.get 0 +
      (st.aprime.get 0 * st.bprime.get 0 * y) • p.H + st.alpha1 • p.G := by
  rw [statement, pairing, pairing, weightedPairing, sum_range_one, sum_range_one,
    sum_range_one, zero_add, pow_one]

theorem finalProof_opens (hhash : ∀ l, p.hashToScalar l ≠ 0)
    (hlen : sv.length = gamma.length) (hV : V = List.zipWith p.commit sv gamma)
    (hA : scalarmult8 (F := F) A = pairing (2 ^ k) (aLeft (F := F) sv) p.Gi +
      pairing (2 ^ k) (aRight (F := F) sv) p.Hi + draws.alpha • p.G)
    (hstart : p.StartsFrom V A sv gamma draws.alpha k st)
    (h : p.Reduced (p.yOf V A) k st final Ls Rs) :
    p.OpensAs (p.finalProof (p.yOf V A) draws V A final) (p.provedData V A draws final Ls Rs) sv
      gamma (openingOf draws final) := by
  have hVlen : V.length = sv.length := by
    rw [hV, List.length_zipWith, hlen, min_self]
  have hG := h.G
  have hH := h.H
  have hstatement := h.statement
  rw [hstart.transcript] at hG hH hstatement
  rw [hstart.G] at hG
  rw [hstart.H] at hH
  rw [p.statement_one, BulletproofParams.statement, hstart.G, hstart.H, hstart.alpha1,
    pairing_congr hstart.a fun _ _ => rfl, pairing_congr hstart.b fun _ _ => rfl,
    weightedPairing_congr _ hstart.a hstart.b] at hstatement
  have hL := p.finalProof_L hstart h
  have hR := p.finalProof_R hstart h
  obtain rfl := hstart.rounds
  refine ⟨hhash _, ?_, hG, hH, ?_, hA, p.scalarmult8_invEight _, ?_, rfl, rfl, rfl, ?_⟩
  · exact hVlen ▸ le_pow_clog one_lt_two V.length
  · exact hV ▸ p.commitmentFold_commit _ hlen
  · rw [finalProof, scalarmult8_add, p.scalarmult8_term, p.scalarmult8_term]
    rfl
  · rw [hL, hR]
    exact hstatement

variable [DecidableEq F]

theorem proveInner_spec (hhash : ∀ l, p.hashToScalar l ≠ 0)
    (hlen : sv.length = gamma.length) (hV : V = List.zipWith p.commit sv gamma)
    (hk : k = Nat.clog 2 V.length + logN) (hsize : 2 ^ k ≤ maxN * maxM)
    (hA : scalarmult8 (F := F) A = pairing (2 ^ k) (aLeft (F := F) sv) p.Gi +
      pairing (2 ^ k) (aRight (F := F) sv) p.Hi + draws.alpha • p.G) :
    ∃ proof, p.proveInner V A sv gamma (2 ^ clog 2 V.length) (p.yOf V A) (p.zOf V A) draws =
        .ok (some proof) ∧ proof.V = V ∧ proof.L.length = k ∧ proof.R.length = k ∧
      p.residual proof (p.dataOf 0 proof) = 0 := by
  have hy : p.yOf V A ≠ 0 := hhash _
  have hMN : 2 ^ clog 2 V.length * maxN = 2 ^ k := by
    rw [hk, pow_add]
    rfl
  obtain ⟨powers, hpowers, hpow⟩ := vectorOfScalarPowers_eq (p.yOf V A)
    (show 2 ≤ 2 ^ k + 2 from le_add_left 2 _)
  have hdouble : (fun x : F => x * 2) = fun x => x + x := funext mul_two
  have hadd : vectorAdd
      (vectorAddScalar (bitVector (F := F) sv (2 ^ k) 0 (-1)) (p.zOf V A))
      ⟨2 ^ k, fun i => windowedVector (fun x => x + x) (p.zOf V A * p.zOf V A)
        (2 ^ clog 2 V.length) i * powers (2 ^ k - i)⟩ =
      .ok ⟨2 ^ k, fun i => aRight sv i + p.zOf V A +
        windowedVector (fun x => x + x) (p.zOf V A * p.zOf V A) (2 ^ clog 2 V.length) i *
          powers (2 ^ k - i)⟩ := vectorAdd_mk _ _ _
  have hstart : p.StartsFrom V A sv gamma draws.alpha k {
      aprime := vectorSubtract (bitVector sv (2 ^ k) 1 0) (p.zOf V A)
      bprime := ⟨2 ^ k, fun i => aRight sv i + p.zOf V A +
        windowedVector (fun x => x + x) (p.zOf V A * p.zOf V A) (2 ^ clog 2 V.length) i *
          powers (2 ^ k - i)⟩
      Gprime := ⟨2 ^ k, p.Gi⟩
      Hprime := ⟨2 ^ k, p.Hi⟩
      alpha1 := (maskSum (p.zOf V A * p.zOf V A) (powers (2 ^ k + 1)) gamma draws.alpha).1
      transcript := .scalar (p.zOf V A)
      L := []
      R := [] } := by
    refine ⟨hk, ⟨rfl, rfl, rfl, rfl⟩, fun _ _ => rfl, ?_, rfl, rfl, ?_, rfl, rfl, rfl⟩
    · intro i _
      dsimp only
      rw [hpow _ (by omega)]
    · dsimp only
      rw [maskSum_eq, hpow _ (by omega), pow_succ]
  obtain ⟨final, Ls, Rs, hrun, hreduced⟩ := p.innerRounds_spec draws hhash hy hsize
    (fun i hi => hpow i (by omega))
    (fun i hi => (inversePowers_eq _ _ hi).trans (inv_pow _ _)) 0 hstart.sized
  refine ⟨p.finalProof (p.yOf V A) draws V A final, ?_, rfl, ?_, ?_, ?_⟩
  · rw [proveInner]
    rw [hMN, hpowers, ok_bind, hdouble, hadd, ok_bind, invert_eq hy, ok_bind, hrun, ok_bind]
    exact p.finalRound_eq hhash _ draws V A final
  · rw [p.finalProof_L hstart hreduced, hreduced.lengthL]
  · rw [p.finalProof_R hstart hreduced, hreduced.lengthR]
  · rw [p.dataOf_finalProof hstart hreduced]
    exact (p.finalProof_opens hhash hlen hV hA hstart hreduced).residual_eq_zero

theorem proveAttempt_spec (hhash : ∀ l, p.hashToScalar l ≠ 0)
    (hlen : sv.length = gamma.length) (hpos : 1 ≤ sv.length) (hle : sv.length ≤ maxM)
    (draws : ProverDraws F) :
    ∃ proof, p.proveAttempt (List.zipWith p.commit sv gamma) sv gamma (2 ^ logMFor sv.length) draws =
        .ok (some proof) ∧ proof.WellSized ∧ p.residual proof (p.dataOf 0 proof) = 0 := by
  have hVlen : (List.zipWith p.commit sv gamma).length = sv.length := by
    rw [List.length_zipWith, hlen, min_self]
  have hclog := clog_le_four hle
  have hMN : 2 ^ clog 2 sv.length * maxN = 2 ^ (clog 2 sv.length + logN) := by
    rw [pow_add]
    rfl
  have hsize : 2 ^ (clog 2 sv.length + logN) ≤ maxN * maxM :=
    (Nat.pow_le_pow_right Nat.two_pos (Nat.add_le_add_right hclog logN)).trans (by decide)
  have hexponent := p.vectorExponent_eq
    (a := bitVector sv (2 ^ (clog 2 sv.length + logN)) p.invEight 0)
    (b := bitVector sv (2 ^ (clog 2 sv.length + logN)) 0 (-p.invEight)) rfl hsize
  obtain ⟨proof, hprove, hproofV, hL, hR, hresidual⟩ := p.proveInner_spec hhash hlen rfl
    (congrArg (clog 2 · + logN) hVlen.symm) hsize
    (p.scalarmult8_A sv (2 ^ (clog 2 sv.length + logN)) draws.alpha)
  refine ⟨proof, ?_, ⟨?_, ?_, ?_, ?_⟩, hresidual⟩
  · rw [hVlen] at hprove
    rw [logMFor_eq hpos hle, proveAttempt, hMN, hexponent, ok_bind]
    exact (if_neg (hhash _)).trans ((if_neg (hhash _)).trans hprove)
  · rwa [hproofV, hVlen]
  · rwa [hproofV, hVlen]
  · rw [hL, hR]
  · rw [hL, hproofV, hVlen, add_comm]

theorem prove_verifies [DecidableEq E] (hhash : ∀ l, p.hashToScalar l ≠ 0) (v : List UInt64)
    (gamma : List F) (hlen : v.length = gamma.length) (hpos : 1 ≤ v.length)
    (hle : v.length ≤ 16) (draws : ProverDraws F) (later : List (ProverDraws F)) :
    ∃ proof, p.bulletproofPlusProve v gamma (draws :: later) = .ok (some proof) ∧
      ∀ weight : F, weight ≠ 0 → p.bulletproofPlusVerify [(proof, weight)] = true := by
  obtain ⟨proof, hattempt, hsized, hresidual⟩ := p.proveAttempt_spec hhash hlen hpos hle draws
  have hnonempty : (!v.isEmpty) = true := by
    cases v with
    | nil => cases hpos
    | cons x v => rfl
  have hM : 2 ^ logMFor v.length ≤ maxM := by
    rw [logMFor_eq hpos hle]
    exact Nat.pow_le_pow_right two_pos (clog_le_four hle)
  refine ⟨proof, ?_, ?_⟩
  · rw [bulletproofPlusProve, check_decide hlen, check_true hnonempty]
    rw [check_decide hM, tryAgain]
    exact congrArg (fun attempt => attempt >>= _) hattempt
  · intro weight _
    refine p.verify_iff.mpr ⟨?_, ?_⟩
    · rw [List.forall_mem_singleton]
      exact ⟨hsized, hhash _, hhash _, p.challenges_ne_zero hhash _ _, hhash _⟩
    · rw [weightedResiduals, List.map_singleton, List.sum_singleton, hresidual, smul_zero]

end BulletproofParams

def sampleParams : BulletproofParams (ZMod 3) (ZMod 3) where
  G := 1
  H := 2
  Gi := fun i => i
  Hi := fun i => 2 * i + 1
  invEight := 2
  eight_mul_invEight := by decide
  bits := ZMod.val
  bits_lt := fun x => x.val_lt.trans (by decide)
  cast_bits := ZMod.natCast_zmod_val
  initialTranscript := 1
  hashToScalar := fun l => if l.length = 1 then 1 else 2

def sampleDraws : ProverDraws (ZMod 3) where
  alpha := 1
  dL := fun i => i
  dR := fun i => i + 1
  r := 2
  s := 1
  d := 0
  eta := 2

theorem sample_prove_verifies :
    ∃ proof, sampleParams.bulletproofPlusProve [5, 0, 2 ^ 64 - 1] [1, 2, 0] [sampleDraws] =
        .ok (some proof) ∧
      ∀ weight : ZMod 3, weight ≠ 0 →
        sampleParams.bulletproofPlusVerify [(proof, weight)] = true := by
  refine sampleParams.prove_verifies ?_ [5, 0, 2 ^ 64 - 1] [1, 2, 0] rfl (by decide) (by decide)
    sampleDraws []
  intro l
  dsimp only [sampleParams]
  split
  · decide
  · decide

end Jero.Ringct
