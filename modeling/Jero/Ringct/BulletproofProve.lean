import Jero.Ringct.BulletproofPlus

namespace Jero.Ringct
open Jero.Machine

structure Vec (α : Type) where
  size : Nat
  get : Nat → α

structure ProverDraws (F : Type) where
  alpha : F
  dL : Nat → F
  dR : Nat → F
  r : F
  s : F
  d : F
  eta : F

structure ProverState (F E : Type) where
  aprime : Vec F
  bprime : Vec F
  Gprime : Vec E
  Hprime : Vec E
  alpha1 : F
  transcript : Key F E
  L : List E
  R : List E

section
variable {F : Type} [Field F]

def slice (a : Vec F) (start stop : Nat) : Except String (Vec F) := do
  check (decide (start < a.size)) "Invalid start index"
  check (decide (stop ≤ a.size)) "Invalid stop index"
  check (decide (start < stop)) "Invalid start/stop indices"
  return ⟨stop - start, fun i => a.get (start + i)⟩

def vectorAdd (a b : Vec F) : Except String (Vec F) := do
  check (decide (a.size = b.size)) "Incompatible sizes of a and b"
  return ⟨a.size, fun i => a.get i + b.get i⟩

def vectorAddScalar (a : Vec F) (b : F) : Vec F := ⟨a.size, fun i => a.get i + b⟩

def vectorSubtract (a : Vec F) (b : F) : Vec F := ⟨a.size, fun i => a.get i - b⟩

def vectorScalar (a : Vec F) (x : F) : Vec F := ⟨a.size, fun i => a.get i * x⟩

def weightedInnerProduct (a b : Vec F) (y : F) : Except String F := do
  check (decide (a.size = b.size)) "Incompatible sizes of a and b"
  return ((List.range a.size).foldl
    (fun (acc : F × F) i => (a.get i * b.get i * (acc.2 * y) + acc.1, acc.2 * y)) (0, 1)).1

def hadamardFold {E : Type} [AddCommGroup E] [Module F E] (v : Vec E) (a b : F) :
    Except String (Vec E) := do
  check (decide (v.size &&& 1 = 0)) "Vector size should be even"
  return ⟨v.size / 2, (List.range (v.size / 2)).foldl
    (fun g n => Function.update g n (a • g n + b • g (v.size / 2 + n))) v.get⟩

def inversePowers (yinv : F) (n : Nat) : Nat → F :=
  (List.range (n - 1)).foldl (fun res i => Function.update res (i + 1) (res i * yinv))
    (Function.update (fun _ => 0) 0 1)

def maskSum (zSquared yMN1 : F) (gamma : List F) (alpha : F) : F × F :=
  gamma.foldl
    (fun acc g => (yMN1 * (acc.2 * zSquared) * g + acc.1, acc.2 * zSquared)) (alpha, 1)

def svBit (sv : List UInt64) (t : Nat) : Bool :=
  match sv[t / maxN]? with
  | some v => v.toNat.testBit (t % maxN)
  | none => false

def bitVector (sv : List UInt64) (size : Nat) (one zero : F) : Vec F :=
  ⟨size, fun t => if svBit sv t then one else zero⟩

end
namespace BulletproofParams
variable {F E : Type} [Field F] [DecidableEq F] [AddCommGroup E] [Module F E]
variable (p : BulletproofParams F E)

def vectorExponent (a b : Vec F) : Except String E := do
  check (decide (a.size = b.size)) "Incompatible sizes of a and b"
  check (decide (a.size ≤ maxN * maxM)) "Incompatible sizes of a and maxN"
  multiexp p.higiCache
    ((List.range a.size).flatMap fun i =>
      [p.term (a.get i) (p.Gi i), p.term (b.get i) (p.Hi i)]) (2 * a.size)

def computeLR (size : Nat) (y : F) (G : Vec E) (G0 : Nat) (H : Vec E) (H0 : Nat) (a : Vec F)
    (a0 : Nat) (b : Vec F) (b0 : Nat) (c d : F) : Except String E := do
  check (decide (size + G0 ≤ G.size)) "Incompatible size for G"
  check (decide (size + H0 ≤ H.size)) "Incompatible size for H"
  check (decide (size + a0 ≤ a.size)) "Incompatible size for a"
  check (decide (size + b0 ≤ b.size)) "Incompatible size for b"
  check (decide (size ≤ maxN * maxM)) "size is too large"
  multiexp p.higiCache
    ((List.range size).flatMap (fun i =>
        [p.term (a.get (a0 + i) * y * p.invEight) (G.get (G0 + i)),
          p.term (b.get (b0 + i) * p.invEight) (H.get (H0 + i))]) ++
      [p.term (c * p.invEight) p.H, p.term (d * p.invEight) p.G]) 0

section
variable (y : F) (yPowers yinvpow : Nat → F) (draws : ProverDraws F)

def foldState (nprime : Nat) (st : ProverState F E) (L R : E) (challenge dL dR : F) :
    Except String (ProverState F E) := do
  let challengeInv ← invert challenge
  let Gprime ← hadamardFold st.Gprime challengeInv (yinvpow nprime * challenge)
  let Hprime ← hadamardFold st.Hprime challenge challengeInv
  let aLow ← slice st.aprime 0 nprime
  let aHigh ← slice st.aprime nprime st.aprime.size
  let aprime ← vectorAdd (vectorScalar aLow challenge)
    (vectorScalar aHigh (challengeInv * yPowers nprime))
  let bLow ← slice st.bprime 0 nprime
  let bHigh ← slice st.bprime nprime st.bprime.size
  let bprime ← vectorAdd (vectorScalar bLow challengeInv) (vectorScalar bHigh challenge)
  let alpha1 := dL * (challenge * challenge) + st.alpha1
  return {
    aprime := aprime
    bprime := bprime
    Gprime := Gprime
    Hprime := Hprime
    alpha1 := dR * (challengeInv * challengeInv) + alpha1
    transcript := .scalar challenge
    L := st.L ++ [L]
    R := st.R ++ [R] }

def proverRound (round nprime : Nat) (st : ProverState F E) :
    Except String (Option (ProverState F E)) := do
  let aLow ← slice st.aprime 0 nprime
  let bHigh ← slice st.bprime nprime st.bprime.size
  let cL ← weightedInnerProduct aLow bHigh y
  let aHigh ← slice st.aprime nprime st.aprime.size
  let bLow ← slice st.bprime 0 nprime
  let cR ← weightedInnerProduct (vectorScalar aHigh (yPowers nprime)) bLow y
  let L ← p.computeLR nprime (yinvpow nprime) st.Gprime nprime st.Hprime 0 st.aprime 0 st.bprime
    nprime cL (draws.dL round)
  let R ← p.computeLR nprime (yPowers nprime) st.Gprime 0 st.Hprime nprime st.aprime nprime
    st.bprime 0 cR (draws.dR round)
  let challenge := p.transcriptUpdate st.transcript [.point L, .point R]
  if challenge = 0 then return none
  else
    let next ← foldState yPowers yinvpow nprime st L R challenge (draws.dL round) (draws.dR round)
    return some next

def innerRounds (round nprime : Nat) (st : ProverState F E) :
    Except String (Option (ProverState F E)) :=
  if 1 < nprime then do
    let next ← p.proverRound y yPowers yinvpow draws round (nprime / 2) st
    match next with
    | none => return none
    | some next => innerRounds (round + 1) (nprime / 2) next
  else return some st
termination_by nprime
decreasing_by omega

def finalRound (V : List E) (A : E) (st : ProverState F E) :
    Except String (Option (BulletproofPlus F E)) := do
  let a := st.aprime.get 0
  let b := st.bprime.get 0
  let A1 ← multiexp p.higiCache
    [p.term (draws.r * p.invEight) (st.Gprime.get 0),
      p.term (draws.s * p.invEight) (st.Hprime.get 0), p.term (draws.d * p.invEight) p.G,
      p.term ((draws.r * y * b + draws.s * y * a) * p.invEight) p.H] 0
  let B := (draws.eta * p.invEight) • p.G + (draws.r * y * draws.s * p.invEight) • p.H
  let e := p.transcriptUpdate st.transcript [.point A1, .point B]
  if e = 0 then return none
  else
    return some {
      V := V
      A := A
      A1 := A1
      B := B
      r1 := a * e + draws.r
      s1 := b * e + draws.s
      d1 := st.alpha1 * (e * e) + (draws.d * e + draws.eta)
      L := st.L
      R := st.R }

end

def proveInner (V : List E) (A : E) (sv : List UInt64) (gamma : List F) (M : Nat) (y z : F)
    (draws : ProverDraws F) : Except String (Option (BulletproofPlus F E)) := do
  let MN := M * maxN
  let zSquared := z * z
  let d := windowedVector (fun x => x * 2) zSquared M
  let yPowers ← vectorOfScalarPowers y (MN + 2)
  let aL1 := vectorSubtract (bitVector sv MN 1 0) z
  let aR1 ← vectorAdd (vectorAddScalar (bitVector sv MN 0 (-1)) z)
    ⟨MN, fun i => d i * yPowers (MN - i)⟩
  let alpha1 := (maskSum zSquared (yPowers (MN + 1)) gamma draws.alpha).1
  let yinv ← invert y
  let rounds ← p.innerRounds y yPowers (inversePowers yinv MN) draws 0 MN
    { aprime := aL1
      bprime := aR1
      Gprime := ⟨MN, p.Gi⟩
      Hprime := ⟨MN, p.Hi⟩
      alpha1 := alpha1
      transcript := .scalar z
      L := []
      R := [] }
  match rounds with
  | none => return none
  | some st => p.finalRound y draws V A st

def proveAttempt (V : List E) (sv : List UInt64) (gamma : List F) (M : Nat)
    (draws : ProverDraws F) : Except String (Option (BulletproofPlus F E)) := do
  let transcript := p.transcriptUpdate (.point p.initialTranscript)
    [.scalar (p.hashToScalar (V.map Key.point))]
  let preA ← p.vectorExponent (bitVector sv (M * maxN) p.invEight 0)
    (bitVector sv (M * maxN) 0 (-p.invEight))
  let A := preA + (draws.alpha * p.invEight) • p.G
  let y := p.transcriptUpdate (.scalar transcript) [.point A]
  let z := p.hashToScalar [.scalar y]
  if y = 0 then return none
  else if z = 0 then return none
  else p.proveInner V A sv gamma M y z draws

def tryAgain (attempt : ProverDraws F → Except String (Option (BulletproofPlus F E))) :
    List (ProverDraws F) → Except String (Option (BulletproofPlus F E))
  | [] => .ok none
  | draws :: rest => do
    match ← attempt draws with
    | some proof => return some proof
    | none => tryAgain attempt rest

def bulletproofPlusProve (v : List UInt64) (gamma : List F) (draws : List (ProverDraws F)) :
    Except String (Option (BulletproofPlus F E)) := do
  check (decide (v.length = gamma.length)) "Incompatible sizes of v and gamma"
  check (!v.isEmpty) "sv is empty"
  let M := 2 ^ logMFor v.length
  check (decide (M ≤ maxM)) "sv/gamma are too large"
  let V := List.zipWith
    (fun (x : UInt64) g => (g * p.invEight) • p.G + (x.toNat * p.invEight) • p.H) v gamma
  tryAgain (p.proveAttempt V v gamma M) draws

end BulletproofParams
end Jero.Ringct
