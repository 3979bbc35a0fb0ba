import Jero.Tx.Semantic

namespace Jero.Chain
open Jero.Machine Jero.Tx

def difficultyTargetV1 : Nat := 60

def difficultyTargetV2 : Nat := 120

def moneySupply : Nat := 2 ^ 64 - 1

def emissionSpeedFactorPerMinute : Nat := 20

def finalSubsidyPerMinute : Nat := 300000000000

def baseReward (alreadyGeneratedCoins version : Nat) : Nat :=
  let target := if version < 2 then difficultyTargetV1 else difficultyTargetV2
  let targetMinutes := target / 60
  let emissionSpeedFactor := emissionSpeedFactorPerMinute - (targetMinutes - 1)
  max ((moneySupply - alreadyGeneratedCoins) / 2 ^ emissionSpeedFactor)
    (finalSubsidyPerMinute * targetMinutes)

def getBlockReward (medianWeight currentBlockWeight alreadyGeneratedCoins version : Nat) :
    Option Nat :=
  let base := baseReward alreadyGeneratedCoins version
  let median := max medianWeight (getMinBlockWeight version)
  if currentBlockWeight ≤ median then some base
  else if currentBlockWeight > wrap (2 * median) then none
  else
    let multiplicand := wrap (wsub (wrap (2 * median)) currentBlockWeight * currentBlockWeight)
    some (wrap (base * multiplicand / median / median))

end Jero.Chain
