import Jero.Ringct.Multiexp
import Jero.Serial.RctPrunable

namespace Jero.Ringct
open Jero.Serial (RctType)

def groupOrder : Nat := 2 ^ 252 + 27742317777372353535851937790883648493

abbrev Scalar := ZMod groupOrder

structure Generators (E : Type) [AddCommGroup E] [Module Scalar E] where
  G : E
  H : E
  order_H : addOrderOf H = groupOrder

def bulletproofMaxOutputs : Nat := 16

def atomCount : Nat := 64

def rangeProofBorromean : Nat := 0

def rangeProofPaddedBulletproof : Nat := 3

structure RctConfig where
  rangeProofType : Nat
  bpVersion : Int
deriving DecidableEq, Repr

inductive DeviceMode where
  | transactionCreateReal
  | transactionCreateFake
deriving DecidableEq, Repr

structure RctRandomness where
  atoms : Nat → Nat → Scalar
  pseudoMask : Nat → Scalar

structure RctSimple (E : Type) where
  type : RctType
  outPk : List E
  txnFee : UInt64
  pseudoOuts : List E
  prunablePseudoOuts : List E

def d2h (amount : UInt64) : Scalar := (amount.toNat : Scalar)

def d2b (amount : UInt64) (i : Nat) : Bool := amount.toNat.testBit i

def invEight : Scalar := 8⁻¹

section
variable {E K : Type} [AddCommGroup E] [Module Scalar E] (c : Generators E)

def genC (a : Scalar) (amount : UInt64) : E := a • c.G + d2h amount • c.H

def H2 (i : Nat) : E := (2 ^ i : Nat) • c.H

def proveRangeStep (ai : Nat → Scalar) (amount : UInt64) (acc : E × Scalar) (i : Nat) :
    E × Scalar :=
  let ci := if d2b amount i then ai i • c.G + H2 c i else ai i • c.G
  (acc.1 + ci, acc.2 + ai i)

def proveRange (ai : Nat → Scalar) (amount : UInt64) : E × Scalar :=
  (List.range atomCount).foldl (proveRangeStep c ai amount) (0, 0)

def eighthCommitment (mask : Scalar) (amount : UInt64) : E :=
  (mask * invEight) • c.G + (d2h amount * invEight) • c.H

def makeDummyBulletproof (outamounts : List UInt64) : List (E × Scalar) :=
  outamounts.map fun amount => (invEight • c.G + (d2h amount * invEight) • c.H, 1)

def proveRangeBulletproof (genCommitmentMask : K → Scalar) (amounts : List UInt64)
    (sk : List K) : Except String (List (E × Scalar)) :=
  if amounts.length ≠ sk.length then .error "Invalid amounts/sk sizes"
  else if amounts.isEmpty then .error "sv is empty"
  else if bulletproofMaxOutputs < amounts.length then .error "sv/gamma are too large"
  else .ok (List.zipWith
    (fun amount k => (eighthCommitment c (genCommitmentMask k) amount, genCommitmentMask k))
    amounts sk)

def provedCommitments (genCommitmentMask : K → Scalar) (outamounts : List UInt64)
    (amountKeys : List K) : DeviceMode → Except String (List (E × Scalar))
  | .transactionCreateFake => .ok (makeDummyBulletproof c outamounts)
  | .transactionCreateReal => proveRangeBulletproof c genCommitmentMask outamounts amountKeys

def bulletproofOutputs (mode : DeviceMode) (genCommitmentMask : K → Scalar)
    (outamounts : List UInt64) (amountKeys : List K) : Except String (List (E × Scalar)) := do
  let proved ← provedCommitments c genCommitmentMask outamounts amountKeys mode
  return proved.map fun x => ((8 : Scalar) • x.1, x.2)

def rctTypeFor (config : RctConfig) : Except String RctType :=
  if config.rangeProofType > rangeProofBorromean then
    if config.bpVersion = 0 ∨ config.bpVersion = 4 then .ok .bulletproofPlus
    else if config.bpVersion = 3 then .ok .clsag
    else if config.bpVersion = 2 then .ok .bulletproof2
    else if config.bpVersion = 1 then .ok .bulletproof
    else .error "Unsupported BP version"
  else .ok .simple

def sumMasks (masks : List Scalar) : Scalar := masks.foldl (fun sum mask => mask + sum) 0

def pseudoMasks (random : Nat → Scalar) (inputs : Nat) (sumout : Scalar) : List Scalar :=
  let drawn := (List.range (inputs - 1)).map random
  drawn ++ [sumout - sumMasks drawn]

structure RctInputs (K : Type) where
  inSk : List K
  destinations : List K
  inamounts : List UInt64
  outamounts : List UInt64
  txnFee : UInt64
  mixRing : List (List K)
  amountKeys : List K
  index : List Nat

def RctInputs.check (i : RctInputs K) : Except String Unit :=
  if i.inamounts.isEmpty then .error "Empty inamounts"
  else if i.inamounts.length ≠ i.inSk.length then .error "Different number of inamounts/inSk"
  else if i.outamounts.length ≠ i.destinations.length then
    .error "Different number of amounts/destinations"
  else if i.amountKeys.length ≠ i.destinations.length then
    .error "Different number of amount_keys/destinations"
  else if i.index.length ≠ i.inSk.length then .error "Different number of index/inSk"
  else if i.mixRing.length ≠ i.inSk.length then .error "Different number of mixRing/inSk"
  else if ¬ List.Forall₂ (fun n (ring : List K) => n < ring.length) i.index i.mixRing then
    .error "Bad index into mixRing"
  else .ok ()

def rangeProofOutputs (config : RctConfig) (mode : DeviceMode) (genCommitmentMask : K → Scalar)
    (random : RctRandomness) (i : RctInputs K) : Except String (List (E × Scalar)) :=
  if config.rangeProofType > rangeProofBorromean then
    if config.rangeProofType = rangeProofPaddedBulletproof then
      bulletproofOutputs c mode genCommitmentMask i.outamounts i.amountKeys
    else .error "Unsupported range proof type"
  else .ok (i.outamounts.mapIdx fun n amount => proveRange c (random.atoms n) amount)

def genRctSimple (config : RctConfig) (mode : DeviceMode) (genCommitmentMask : K → Scalar)
    (random : RctRandomness) (i : RctInputs K) : Except String (RctSimple E) := do
  i.check
  let type ← rctTypeFor config
  let outputs ← rangeProofOutputs c config mode genCommitmentMask random i
  let sumout := sumMasks (outputs.map Prod.snd)
  let masks := pseudoMasks random.pseudoMask i.inamounts.length sumout
  let pseudoOuts := List.zipWith (genC c) masks i.inamounts
  return {
    type := type
    outPk := outputs.map Prod.fst
    txnFee := i.txnFee
    pseudoOuts := if config.rangeProofType > rangeProofBorromean then [] else pseudoOuts
    prunablePseudoOuts := if config.rangeProofType > rangeProofBorromean then pseudoOuts else [] }

end
variable {E : Type} [AddCommGroup E] [Module Scalar E] (c : Generators E)

def addKeys : List E → E
  | [] => 0
  | a :: rest => rest.foldl (· + ·) a

def scalarmultH (a : Scalar) : E := a • c.H

def RctSimple.summedPseudoOuts (rv : RctSimple E) : List E :=
  if rv.type.isBulletproof || rv.type.isBulletproofPlus then rv.prunablePseudoOuts
  else rv.pseudoOuts

def commitmentSumCheck [DecidableEq E] (rv : RctSimple E) : Bool :=
  decide (addKeys rv.summedPseudoOuts = scalarmultH c (d2h rv.txnFee) + addKeys rv.outPk)

end Jero.Ringct
