import Jero.Chain.Block

namespace Jero.Chain
open Jero.Machine Jero.Tx

def cryptonoteMaxBlockNumber : Nat := 500000000

def lockedTxAllowedDeltaBlocks : Nat := 1

def hfVersionDeterministicUnlockTime : Nat := 13

structure OutputData where
  pubkey : PublicKey
  unlockTime : Nat
  height : Nat
  commitment : Nat
deriving DecidableEq, Repr

structure CtKey where
  dest : PublicKey
  mask : Nat
deriving DecidableEq, Repr

def OutputData.ctKey (d : OutputData) : CtKey := ⟨d.pubkey, d.commitment⟩

def relativeOutputOffsetsToAbsolute : List Nat → List Nat
  | [] => []
  | off :: offs => off :: go off offs
where
  go (previous : Nat) : List Nat → List Nat
    | [] => []
    | off :: offs => wrap (off + previous) :: go (wrap (off + previous)) offs

structure Ledger where
  timestamps : List Nat
  hfVersion : Nat
  now : Nat
  outputs : Nat → List OutputData
  heights_sorted : ∀ amount, ((outputs amount).map OutputData.height).Pairwise (· ≤ ·)
  heights_lt : ∀ amount, ∀ d ∈ outputs amount, d.height < timestamps.length
  keyImageSpent : KeyImage → Bool
  scanTable : Hash → KeyImage → Option (List OutputData)
  prefixHash : Transaction → Hash
  makeInputVerificationId : Transaction → List (List CtKey) → Hash
  verInputProofsRings : Transaction → List (List CtKey) → Bool

namespace Ledger
variable (l : Ledger)

def height : Nat := l.timestamps.length

def getNumOutputs (amount : Nat) : Nat := (l.outputs amount).length

def getOutputKey (amount index : Nat) : Option OutputData := (l.outputs amount)[index]?

def getOutputKeys (amount : Nat) : List Nat → List OutputData
  | [] => []
  | index :: offsets =>
    match l.getOutputKey amount index with
    | none => []
    | some d => d :: getOutputKeys amount offsets

def isTxSpendtimeUnlocked (unlockTime : Nat) : Bool :=
  if unlockTime < cryptonoteMaxBlockNumber then
    decide (wrap (wsub l.height 1 + lockedTxAllowedDeltaBlocks) ≥ unlockTime)
  else
    let currentTime := if l.hfVersion ≥ hfVersionDeterministicUnlockTime then
      getAdjustedTime l.now l.timestamps l.height else l.now
    let delta := (if l.hfVersion < 2 then difficultyTargetV1 else difficultyTargetV2) *
      lockedTxAllowedDeltaBlocks
    decide (wrap (currentTime + delta) ≥ unlockTime)

def cachedOutputs (input : TxInToKey) (txPrefixHash : Hash) (absolute : List Nat) :
    Option (List OutputData) :=
  match l.scanTable txPrefixHash input.kImage with
  | none =>
    let outputs := l.getOutputKeys input.amount absolute
    if absolute.length ≠ outputs.length then none else some outputs
  | some cached =>
    if cached.length < absolute.length ∧ 0 < cached.length then
      let addOffsets := absolute.drop cached.length
      let addOutputs := l.getOutputKeys input.amount addOffsets
      if addOffsets.length ≠ addOutputs.length then none else some (cached ++ addOutputs)
    else some cached

def visitOutputs (amount : Nat) (outputs : List OutputData) :
    Nat → List Nat → List CtKey → Nat → Option (List CtKey) × Nat
  | _, [], keys, pmax => (some keys, pmax)
  | count, index :: rest, keys, pmax =>
    match if count < outputs.length then outputs[count]? else l.getOutputKey amount index with
    | none => (none, pmax)
    | some d =>
      if !l.isTxSpendtimeUnlocked d.unlockTime then (none, pmax)
      else visitOutputs amount outputs (count + 1) rest (keys ++ [d.ctKey])
        (if rest.isEmpty ∧ pmax < d.height then d.height else pmax)

def scanOutputkeysForIndexes (input : TxInToKey) (txPrefixHash : Hash) (pmax : Nat) :
    Option (List CtKey) × Nat :=
  if input.keyOffsets.isEmpty then (none, pmax)
  else
    let absolute := relativeOutputOffsetsToAbsolute input.keyOffsets
    match l.cachedOutputs input txPrefixHash absolute with
    | none => (none, pmax)
    | some outputs => l.visitOutputs input.amount outputs 0 absolute [] pmax

def checkTxInput (version : Nat) (input : TxInToKey) (txPrefixHash : Hash)
    (signatures : Option Nat) (pmax : Nat) : Option (List CtKey) × Nat :=
  match l.scanOutputkeysForIndexes input txPrefixHash pmax with
  | (none, pmax) => (none, pmax)
  | (some keys, pmax) =>
    if input.keyOffsets.length ≠ keys.length then (none, pmax)
    else if version = 1 ∧ signatures ≠ some keys.length then (none, pmax)
    else (some keys, pmax)

end Ledger

def defaultTxSpendableAge : Nat := 10

def hfVersionMin2Outputs : Nat := 12

def hfVersionSameMixin : Nat := 12

def hfVersionEnforceMinAge : Nat := 12

def hfVersionEnforceRct : Nat := 6

def hfVersionMinMixin4 : Nat := 6

def hfVersionMinMixin6 : Nat := 7

def hfVersionMinMixin10 : Nat := 8

def hfVersionMinMixin15 : Nat := 15

def minMixin (hfVersion : Nat) : Nat :=
  if hfVersion ≥ hfVersionMinMixin15 then 15
  else if hfVersion ≥ hfVersionMinMixin10 then 10
  else if hfVersion ≥ hfVersionMinMixin6 then 6
  else if hfVersion ≥ hfVersionMinMixin4 then 4
  else 2

structure MixinCount where
  unmixable : Nat
  mixable : Nat
  minActual : Nat
  maxActual : Nat
deriving DecidableEq, Repr

structure InputsResult where
  ok : Bool
  tvc : TxVerificationContext
  verificationId : Hash
  maxUsedBlockHeight : Nat
deriving DecidableEq, Repr

def keyImagesDescend : Option KeyImage → List TxIn → Bool
  | _, [] => true
  | none, .toKey input :: vin => keyImagesDescend (some input.kImage) vin
  | some last, .toKey input :: vin =>
    if last ≤ input.kImage then false else keyImagesDescend (some input.kImage) vin
  | last, _ :: vin => keyImagesDescend last vin

namespace Ledger
variable (l : Ledger)

def countMixin (c : MixinCount) : TxIn → MixinCount
  | .toKey input =>
    let mixable := input.amount = 0 ∨ l.getNumOutputs input.amount > minMixin l.hfVersion
    let ringMixin := wsub input.keyOffsets.length 1
    { unmixable := if mixable then c.unmixable else c.unmixable + 1
      mixable := if mixable then c.mixable + 1 else c.mixable
      minActual := if ringMixin < c.minActual then ringMixin else c.minActual
      maxActual := if ringMixin > c.maxActual then ringMixin else c.maxActual }
  | _ => c

def ringSizeAccepted (c : MixinCount) : Bool :=
  if c.minActual < minMixin l.hfVersion ∧
      ¬ (l.hfVersion = hfVersionMinMixin15 ∧ c.minActual = 10) then
    decide (c.unmixable ≠ 0 ∧ c.mixable ≤ 1)
  else
    decide (¬ ((l.hfVersion > hfVersionMinMixin15 ∧ c.minActual > 15) ∨
      (l.hfVersion = hfVersionMinMixin15 ∧ c.minActual ≠ 15 ∧ c.minActual ≠ 10) ∨
      (l.hfVersion < hfVersionMinMixin15 ∧ l.hfVersion ≥ hfVersionMinMixin10 + 2 ∧
        c.minActual > 10) ∨
      ((l.hfVersion = hfVersionMinMixin10 ∨ l.hfVersion = hfVersionMinMixin10 + 1) ∧
        c.minActual ≠ 10)))

def checkMixins (tx : Transaction) (tvc : TxVerificationContext) : Bool × TxVerificationContext :=
  let c := tx.vin.foldl l.countMixin ⟨0, 0, 2 ^ 64 - 1, 0⟩
  let maxTxVersion := if l.hfVersion ≤ 3 then 1 else 2
  let minTxVersion := if c.unmixable > 0 then 1 else if l.hfVersion ≥ hfVersionEnforceRct then 2 else 1
  if l.hfVersion ≥ hfVersionSameMixin ∧ c.minActual ≠ c.maxActual then
    (false, { tvc with lowMixin := true })
  else if !l.ringSizeAccepted c then (false, { tvc with lowMixin := true })
  else if tx.version > maxTxVersion then (false, { tvc with verifivationFailed := true })
  else if tx.version < minTxVersion then (false, { tvc with verifivationFailed := true })
  else (true, tvc)

def checkPrefix (tx : Transaction) (tvc : TxVerificationContext) : Bool × TxVerificationContext :=
  if l.hfVersion ≥ hfVersionMin2Outputs ∧ tx.version ≥ 2 ∧ tx.vout.length < 2 then
    (false, { tvc with tooFewOutputs := true })
  else
    let (mixinsOk, tvc) := if l.hfVersion ≥ 2 then l.checkMixins tx tvc else (true, tvc)
    if !mixinsOk then (false, tvc)
    else if l.hfVersion ≥ 7 ∧ !keyImagesDescend none tx.vin then
      (false, { tvc with verifivationFailed := true })
    else (true, tvc)

def checkRings (tx : Transaction) (tvc : TxVerificationContext) :
    Nat → List TxIn → List (List CtKey) → Nat →
      Bool × TxVerificationContext × List (List CtKey) × Nat
  | _, [], pubkeys, pmax => (true, tvc, pubkeys, pmax)
  | sigIndex, .toKey input :: vin, pubkeys, pmax =>
    if input.keyOffsets.isEmpty then (false, tvc, pubkeys, pmax)
    else if l.keyImageSpent input.kImage then
      (false, { tvc with doubleSpend := true }, pubkeys, pmax)
    else if tx.version = 1 ∧ ¬ sigIndex < tx.signatures.length then (false, tvc, pubkeys, pmax)
    else match l.checkTxInput tx.version input (l.prefixHash tx) tx.signatures[sigIndex]? pmax with
      | (none, pmax) => (false, tvc, pubkeys, pmax)
      | (some keys, pmax) => checkRings tx tvc (sigIndex + 1) vin (pubkeys ++ [keys]) pmax
  | _, _ :: _, pubkeys, pmax => (false, tvc, pubkeys, pmax)

def verifyProofs (tx : Transaction) (verificationId : Hash) (pubkeys : List (List CtKey)) :
    Bool × Hash :=
  if verificationId ≠ nullHash ∧ l.makeInputVerificationId tx pubkeys = verificationId then
    (true, verificationId)
  else if l.verInputProofsRings tx pubkeys then (true, l.makeInputVerificationId tx pubkeys)
  else (false, nullHash)

def checkTxInputs (tx : Transaction) (tvc : TxVerificationContext) (verificationId : Hash) :
    InputsResult :=
  let (prefixOk, tvc) := l.checkPrefix tx tvc
  if !prefixOk then ⟨false, tvc, verificationId, 0⟩
  else
    let (ringsOk, tvc, pubkeys, pmax) := l.checkRings tx tvc 0 tx.vin [] 0
    if !ringsOk then ⟨false, tvc, verificationId, pmax⟩
    else if l.hfVersion ≥ hfVersionEnforceMinAge ∧ ¬ pmax + defaultTxSpendableAge ≤ l.height then
      ⟨false, tvc, verificationId, pmax⟩
    else
      let (proofsOk, verificationId) := l.verifyProofs tx verificationId pubkeys
      ⟨proofsOk, tvc, verificationId, pmax⟩

end Ledger
end Jero.Chain
