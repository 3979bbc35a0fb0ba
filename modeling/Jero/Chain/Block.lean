import Jero.Lists.Median
import Jero.Chain.Reward
import Jero.Lists.SortedMap

namespace Jero.Chain
open Jero.Machine Jero.Lists Jero.Tx

def timestampCheckWindow : Nat := 60

def blockFutureTimeLimit : Nat := 60 * 60 * 2

def getAdjustedTime (now : Nat) (timestamps : List Nat) (height : Nat) : Nat :=
  if height < timestampCheckWindow then now
  else
    let window := (timestamps.drop (height - timestampCheckWindow)).take timestampCheckWindow
    let medianTs := wrap (median window + (timestampCheckWindow + 1) * difficultyTargetV2 / 2)
    let adjusted := wrap ((window.insertionSort (· ≤ ·)).getLastD 0 + difficultyTargetV2)
    if adjusted < medianTs then adjusted else medianTs

def checkBlockTimestamp (now : Nat) (timestamps : List Nat) (timestamp : Nat) : Bool × Nat :=
  if timestamp > wrap (now + blockFutureTimeLimit) then (false, 0)
  else if timestamps.length < timestampCheckWindow then (true, 0)
  else
    let medianTs := median timestamps
    if timestamp < medianTs then (false, medianTs) else (true, medianTs)

def checkBlockTimestampMainChain (now : Nat) (chain : List Nat) (timestamp : Nat) : Bool × Nat :=
  let h := chain.length
  let offset := if h ≥ timestampCheckWindow then h - timestampCheckWindow else 0
  checkBlockTimestamp now (chain.drop offset) timestamp

structure Block where
  majorVersion : Nat
  minorVersion : Nat
  timestamp : Nat
  prevId : Hash
  nonce : Nat
  minerTx : Transaction
  txHashes : List Hash
deriving DecidableEq, Repr

def getBlockHeight (b : Block) : Nat :=
  match b.minerTx.vin with
  | [.gen height] => height
  | _ => 0

def getBlockVote (b : Block) : Nat := if b.minorVersion = 0 then 1 else b.minorVersion

structure Entry where
  block : Block
  cumulativeDifficulty : Nat
  alreadyGeneratedCoins : Nat
deriving DecidableEq, Repr

structure BlockExtendedInfo where
  bl : Block
  height : Nat
  blockCumulativeWeight : Nat
  cumulativeDifficulty : Nat
  alreadyGeneratedCoins : Nat
deriving DecidableEq, Repr

def BlockExtendedInfo.entry (bei : BlockExtendedInfo) : Entry :=
  ⟨bei.bl, bei.cumulativeDifficulty, bei.alreadyGeneratedCoins⟩

inductive TxsVerdict where
  | refused (flagged : Bool)
  | wrongInputs
  | storeFailed
  | connected
deriving DecidableEq, Repr

structure ChainEnv where
  blockHash : Block → Hash
  fixedDifficulty : Nat
  now : Nat
  currentVersion : List Block → Nat
  idealVersion : Nat → Nat
  votedVersion : Nat → Nat
  checkpoints : SortedMap Nat Hash
  mainProofOfWork : List Block → Block → Nat → Bool
  seedhashEpochBlocks : Nat
  seedhashEpochLag : Nat
  altProofOfWork : Hash → Block → Nat → Nat → Bool
  prevalidateMinerTransaction : Block → Nat → Nat → Bool
  connectTxs : List Block → Block → TxsVerdict
  baseReward : List Block → Block → Nat
  altBlockWeight : Block → Option Nat

def blocks (chain : List Entry) : List Block := chain.map Entry.block

namespace ChainEnv
variable (env : ChainEnv)

def topHash (chain : List Entry) : Hash :=
  (chain.getLast?.map (fun e => env.blockHash e.block)).getD nullHash

def difficultyTarget (version : Nat) : Nat :=
  if version < 2 then difficultyTargetV1 else difficultyTargetV2

def getDifficultyTarget (chain : List Entry) : Nat :=
  difficultyTarget (env.currentVersion (blocks chain))

end ChainEnv
end Jero.Chain
