import Jero.Machine.Word
import Jero.Ringct.Multiexp

namespace Jero.Ringct
open Jero.Machine Function

def maxN : Nat := 64

def logN : Nat := 6

def maxM : Nat := 16

inductive Key (F E : Type) where
  | scalar (x : F)
  | point (p : E)

structure BulletproofParams (F E : Type) [Field F] [AddCommGroup E] [Module F E] where
  G : E
  H : E
  Gi : Nat → E
  Hi : Nat → E
  invEight : F
  eight_mul_invEight : 8 * invEight = 1
  bits : F → Nat
  bits_lt : ∀ x, bits x < 2 ^ keyBits
  cast_bits : ∀ x, (bits x : F) = x
  initialTranscript : E
  hashToScalar : List (Key F E) → F

structure BulletproofPlus (F E : Type) where
  V : List E
  A : E
  A1 : E
  B : E
  r1 : F
  s1 : F
  d1 : F
  L : List E
  R : List E

structure ProofData (F : Type) where
  y : F
  z : F
  e : F
  challenges : List F
  logM : Nat
  invOffset : Nat

structure BatchData (F : Type) where
  maxLength : Nat
  invOffset : Nat
  proofData : List (ProofData F)
  toInvert : List F

structure WeightedBatch (F E : Type) where
  gScalar : F
  hScalar : F
  giScalars : Nat → F
  hiScalars : Nat → F
  challengesCache : Nat → F
  data : List (MultiexpData E)

structure GeneratorScalars (F : Type) where
  giScalars : Nat → F
  hiScalars : Nat → F
  er1wy : F
  minusE2wy : F

def BatchData.empty {F : Type} : BatchData F where
  maxLength := 0
  invOffset := 0
  proofData := []
  toInvert := []

def WeightedBatch.empty {F E : Type} [Zero F] : WeightedBatch F E where
  gScalar := 0
  hScalar := 0
  giScalars := fun _ => 0
  hiScalars := fun _ => 0
  challengesCache := fun _ => 0
  data := []

def logMLoop (size : Nat) : Nat → Nat → Nat
  | 0, logM => logM
  | fuel + 1, logM =>
    if 2 ^ logM ≤ maxM ∧ 2 ^ logM < size then logMLoop size fuel (logM + 1) else logM

def logMFor (size : Nat) : Nat := logMLoop size (maxM + 1) 0

section
variable {F : Type} [Field F] [DecidableEq F]

def vectorOfScalarPowers (x : F) (n : Nat) : Except String (Nat → F) := do
  check (decide (n ≠ 0)) "Need n > 0"
  let res := update (fun _ => 0) 0 1
  if n = 1 then return res
  else
    return (List.range (n - 2)).foldl
      (fun res i => update res (i + 2) (res (i + 1) * x)) (update res 1 x)

def evenPowersLoop (n : Nat) (x1 res : F) : F :=
  if 2 < n then evenPowersLoop (n / 2) (x1 * x1) (x1 * res + res) else res
termination_by n
decreasing_by omega

def sumOfEvenPowers (x : F) (n : Nat) : Except String F := do
  check (decide (n &&& (n - 1) = 0)) "Need n to be a power of 2"
  check (decide (n ≠ 0)) "Need n > 0"
  return evenPowersLoop n (x * x) (x * x)

def scalarPowersDoubling (n : Nat) (x1 res : F) : F :=
  if 2 < n then scalarPowersDoubling (n / 2) (x1 * x1) (x1 * x1 * res + res) else res
termination_by n
decreasing_by omega

def scalarPowersLoop (x : F) (n : Nat) : F × F :=
  (List.range n).foldl
    (fun (acc : F × F) i =>
      let prev := if 1 < i + 1 then acc.2 * x else acc.2
      (acc.1 + prev, prev))
    (1, x)

def sumOfScalarPowers (x : F) (n : Nat) : Except String F := do
  check (decide (n ≠ 0)) "Need n > 0"
  if n = 1 then return x
  else if (n + 1) &&& n = 0 then return scalarPowersDoubling (n + 1) x (1 + x) - 1
  else return (scalarPowersLoop x n).1 - 1

def invert (x : F) : Except String F := do
  check (decide (x ≠ 0)) "Cannot invert zero!"
  return x⁻¹

def invertForward : List F → Nat → F → Except String (List F × F)
  | [], _, acc => .ok ([], acc)
  | x :: xs, n, acc => do
    check (decide (x ≠ 0)) "Cannot invert zero!"
    let rest ← invertForward xs (n + 1) (if n = 0 then x else acc * x)
    return (acc :: rest.1, rest.2)

def invertBackward (acc : F) (l : List (F × F)) : F × List F :=
  l.foldr (fun x st => (st.1 * x.1, st.1 * x.2 :: st.2)) (acc, [])

def invertBatch (x : List F) : Except String (List F) := do
  let forward ← invertForward x 0 1
  let acc ← invert forward.2
  return (invertBackward acc (x.zip forward.1)).2

def squareWhile (n : Nat) (y : F) : F :=
  if 1 < n then squareWhile (n / 2) (y * y) else y
termination_by n
decreasing_by omega

def windowedVector (double : F → F) (zSquared : F) (M : Nat) : Nat → F :=
  let first := (List.range (maxN - 1)).foldl
    (fun d i => update d (i + 1) (double (d i)))
    (update (fun _ => 0) 0 zSquared)
  (List.range (M - 1)).foldl
    (fun d j => (List.range maxN).foldl
      (fun d i => update d ((j + 1) * maxN + i) (d (j * maxN + i) * zSquared)) d)
    first

def twoSixtyFourMinusOne : F := (fun x => x * x)^[6] 2 - 1

def challengeSlots (challenge inverse : F) : Nat → (Nat → F) → Nat → F
  | 0, cache => cache
  | t + 1, cache =>
    let upper := update cache (2 * t + 1) (cache ((2 * t + 1) / 2) * challenge)
    let lower := update upper (2 * t) (upper ((2 * t + 1) / 2) * inverse)
    challengeSlots challenge inverse t lower

def challengeProducts (challenges inverses : Nat → F) (rounds : Nat) (cache : Nat → F) : Nat → F :=
  (List.range (rounds - 1)).foldl
    (fun cache j => challengeSlots (challenges (j + 1)) (inverses (j + 1)) (2 ^ (j + 1)) cache)
    (update (update cache 0 (inverses 0)) 1 (challenges 0))

def generatorStep (cache d : Nat → F) (MN : Nat) (e2zw es1w yinv : F)
    (acc : GeneratorScalars F) (i : Nat) : GeneratorScalars F :=
  let gScalar := acc.er1wy * cache i + e2zw
  let hScalar := es1w * cache ((2 ^ 64 - 1 - i) &&& (MN - 1)) + (0 - e2zw)
  { giScalars := update acc.giScalars i (acc.giScalars i + gScalar)
    hiScalars := update acc.hiScalars i
      (acc.hiScalars i + (acc.minusE2wy * d i + hScalar))
    er1wy := acc.er1wy * yinv
    minusE2wy := acc.minusE2wy * yinv }

end
namespace BulletproofParams
variable {F E : Type} [Field F] [DecidableEq F] [AddCommGroup E] [Module F E]
variable (p : BulletproofParams F E)

def term (x : F) (point : E) : MultiexpData E := ⟨p.bits x, point⟩

def higiCache : List E := (List.range (maxN * maxM)).flatMap fun i => [p.Gi i, p.Hi i]

def transcriptUpdate (transcript : Key F E) (update : List (Key F E)) : F :=
  p.hashToScalar (transcript :: update)

def roundChallenges (transcript : Key F E) : List (E × E) → Except String (List F × Key F E)
  | [] => .ok ([], transcript)
  | lr :: rest => do
    let challenge := p.transcriptUpdate transcript [.point lr.1, .point lr.2]
    check (decide (challenge ≠ 0)) "challenges[j] == 0"
    let tail ← roundChallenges (.scalar challenge) rest
    return (challenge :: tail.1, tail.2)

def readProof (invOffset : Nat) (proof : BulletproofPlus F E) : Except String (ProofData F) := do
  check (decide (1 ≤ proof.V.length)) "V does not have at least one element"
  check (decide (proof.V.length ≤ maxM)) "V has too many elements"
  check (decide (proof.L.length = proof.R.length)) "Mismatched L and R sizes"
  check (decide (0 < proof.L.length)) "Empty proof"
  let transcript := p.transcriptUpdate (.point p.initialTranscript)
    [.scalar (p.hashToScalar (proof.V.map Key.point))]
  let y := p.transcriptUpdate (.scalar transcript) [.point proof.A]
  check (decide (y ≠ 0)) "y == 0"
  let z := p.hashToScalar [.scalar y]
  check (decide (z ≠ 0)) "z == 0"
  check (decide (proof.L.length = 6 + logMFor proof.V.length)) "Proof is not the expected size"
  check (decide (0 < logMFor proof.V.length + logN)) "Zero rounds"
  let rounds ← p.roundChallenges (.scalar z) (proof.L.zip proof.R)
  let e := p.transcriptUpdate rounds.2 [.point proof.A1, .point proof.B]
  check (decide (e ≠ 0)) "e == 0"
  return {
    y := y
    z := z
    e := e
    challenges := rounds.1
    logM := logMFor proof.V.length
    invOffset := invOffset }

def readProofStep (batch : BatchData F) (proof : BulletproofPlus F E) :
    Except String (BatchData F) := do
  let pd ← p.readProof batch.invOffset proof
  return {
    maxLength := max batch.maxLength proof.L.length
    invOffset := batch.invOffset + (pd.logM + logN + 1)
    proofData := batch.proofData ++ [pd]
    toInvert := batch.toInvert ++ (pd.challenges ++ [pd.y]) }

def readProofs (proofs : List (BulletproofPlus F E)) : Except String (BatchData F) :=
  proofs.foldlM p.readProofStep .empty

def scalarmult8 (point : E) : E := (8 : F) • point

def commitmentTerms (zSquared temp : F) : List E → List (MultiexpData E)
  | [] => []
  | V :: rest =>
    p.term (temp * zSquared) (scalarmult8 (F := F) V) ::
      commitmentTerms zSquared (temp * zSquared) rest

def roundTerms (challenges inverses : Nat → F) (minusWe2 : F) (L R : List E) (rounds : Nat) :
    List (MultiexpData E) :=
  (List.range rounds).flatMap fun j =>
    [p.term (challenges j * challenges j * minusWe2) (scalarmult8 (F := F) (L.getD j 0)),
      p.term (inverses j * inverses j * minusWe2) (scalarmult8 (F := F) (R.getD j 0))]

def accumulate (inverses : List F) (acc : WeightedBatch F E)
    (x : (BulletproofPlus F E × F) × ProofData F) : Except String (WeightedBatch F E) := do
  let proof := x.1.1
  let weight := x.1.2
  let pd := x.2
  check (decide (proof.L.length = 6 + pd.logM)) "Proof is not the expected size"
  let M := 2 ^ pd.logM
  let MN := M * maxN
  let yMN := squareWhile MN pd.y
  let yMN1 := yMN * pd.y
  let e2 := pd.e * pd.e
  let zSquared := pd.z * pd.z
  let commitments := p.commitmentTerms zSquared ((0 - e2) * yMN1 * weight) proof.V
  let minusW := -1 * weight
  let minusWe := minusW * pd.e
  let minusWe2 := minusWe * pd.e
  let elements := [p.term minusW (scalarmult8 (F := F) proof.B),
    p.term minusWe (scalarmult8 (F := F) proof.A1), p.term minusWe2 (scalarmult8 (F := F) proof.A)]
  let d := windowedVector (fun x => x + x) zSquared M
  let evenPowers ← sumOfEvenPowers pd.z (2 * M)
  let sumD := twoSixtyFourMinusOne * evenPowers
  let sumY ← sumOfScalarPowers pd.y MN
  let h := ((zSquared - pd.z) * sumY + yMN1 * pd.z * sumD) * e2 + proof.r1 * pd.y * proof.s1
  let rounds := pd.logM + logN
  check (decide (0 < rounds)) "Zero rounds"
  let challenges := fun j => pd.challenges.getD j 0
  let challengesInv := fun j => inverses.getD (pd.invOffset + j) 0
  let yinv := inverses.getD (pd.invOffset + rounds) 0
  let cache := challengeProducts challenges challengesInv rounds acc.challengesCache
  let generators := (List.range MN).foldl
    (generatorStep cache d MN (e2 * pd.z * weight) (pd.e * proof.s1 * weight) yinv)
    { giScalars := acc.giScalars
      hiScalars := acc.hiScalars
      er1wy := pd.e * proof.r1 * weight
      minusE2wy := (0 - e2) * weight * yMN }
  return {
    gScalar := weight * proof.d1 + acc.gScalar
    hScalar := h * weight + acc.hScalar
    giScalars := generators.giScalars
    hiScalars := generators.hiScalars
    challengesCache := cache
    data := acc.data ++ (commitments ++ elements ++
      p.roundTerms challenges challengesInv minusWe2 proof.L proof.R rounds) }

def batchTerms (maxMN : Nat) (acc : WeightedBatch F E) : List (MultiexpData E) :=
  (List.range maxMN).flatMap
      (fun i => [p.term (acc.giScalars i) (p.Gi i), p.term (acc.hiScalars i) (p.Hi i)]) ++
    (acc.data ++ [p.term acc.gScalar p.G, p.term acc.hScalar p.H])

def testedElement (batch : List (BulletproofPlus F E × F)) : Except String E := do
  let read ← p.readProofs (batch.map Prod.fst)
  check (decide (read.maxLength < 32)) "At least one proof is too large"
  let inverses ← invertBatch read.toInvert
  let acc ← (batch.zip read.proofData).foldlM (p.accumulate inverses) .empty
  multiexp p.higiCache (p.batchTerms (2 ^ read.maxLength) acc) (2 * 2 ^ read.maxLength)

def bulletproofPlusVerify [DecidableEq E] (batch : List (BulletproofPlus F E × F)) : Bool :=
  match p.testedElement batch with
  | .ok element => decide (element = 0)
  | .error _ => false

end BulletproofParams
end Jero.Ringct
