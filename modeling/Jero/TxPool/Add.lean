import Jero.Tx.Semantic
import Jero.Lists.SortedMap

namespace Jero.TxPool
open Jero.Lists Jero.Tx Jero.Machine

inductive RelayCategory where
  | broadcasted
  | relayable
  | legacy
  | all
deriving DecidableEq, Repr

def matchesCategory (method : RelayMethod) (category : RelayCategory) : Bool :=
  match category with
  | .all => true
  | .relayable => method != .none
  | .broadcasted => method == .block || method == .fluff
  | .legacy => method == .block || method == .fluff || method == .none

def relayRank : RelayMethod → Nat
  | .none => 0
  | .loc => 1
  | .forward => 2
  | .stem => 3
  | .fluff => 4
  | .block => 5

structure TxMeta where
  maxUsedBlockId : Hash
  lastFailedId : Hash
  weight : Nat
  fee : Nat
  maxUsedBlockHeight : Nat
  lastFailedHeight : Nat
  receiveTime : Nat
  lastRelayedTime : Nat
  keptByBlock : Bool
  relayed : Bool
  doNotRelay : Bool
  doubleSpendSeen : Bool
  pruned : Bool
  isLocal : Bool
  dandelionppStem : Bool
  isForwarding : Bool
  validInputVerificationId : Hash
deriving DecidableEq, Repr

namespace TxMeta

def zero : TxMeta :=
  ⟨nullHash, nullHash, 0, 0, 0, 0, 0, 0, false, false, false, false, false, false, false, false,
    nullHash⟩

def setRelayMethod (m : TxMeta) (method : RelayMethod) : TxMeta :=
  { m with
    keptByBlock := method == .block
    doNotRelay := method == .none
    isLocal := method == .loc
    isForwarding := method == .forward
    dandelionppStem := method == .stem }

def getRelayMethod (m : TxMeta) : RelayMethod :=
  match m.keptByBlock, m.doNotRelay, m.isLocal, m.isForwarding, m.dandelionppStem with
  | true, false, false, false, false => .block
  | false, true, false, false, false => .none
  | false, false, true, false, false => .loc
  | false, false, false, true, false => .forward
  | false, false, false, false, true => .stem
  | _, _, _, _, _ => .fluff

def upgradeRelayMethod (m : TxMeta) (method : RelayMethod) : Bool × TxMeta :=
  if relayRank m.getRelayMethod < relayRank method then (true, m.setRelayMethod method)
  else (false, m)

def matchesRelay (m : TxMeta) (category : RelayCategory) : Bool :=
  matchesCategory m.getRelayMethod category

theorem getRelayMethod_setRelayMethod (m : TxMeta) (method : RelayMethod) :
    (m.setRelayMethod method).getRelayMethod = method := by
  cases method <;> rfl

end TxMeta

abbrev Blob := List UInt8

structure PoolEntry where
  txMeta : TxMeta
  blob : Blob
deriving DecidableEq, Repr

structure FeeKey where
  feeRate : Rat
  receiveTime : Nat
deriving DecidableEq, Repr

def txFeeCompare (a b : FeeKey) : Bool :=
  if a.feeRate > b.feeRate then true
  else if a.feeRate < b.feeRate then false
  else decide (a.receiveTime < b.receiveTime)

def insertByFee (key : FeeKey) (id : Hash) : List (FeeKey × Hash) → List (FeeKey × Hash)
  | [] => [(key, id)]
  | e :: rest => if txFeeCompare key e.1 then (key, id) :: e :: rest else e :: insertByFee key id rest

theorem insertByFee_perm (key : FeeKey) (id : Hash) (entries : List (FeeKey × Hash)) :
    (insertByFee key id entries).Perm ((key, id) :: entries) := by
  induction entries with
  | nil => exact List.Perm.refl _
  | cons e rest ih =>
    simp only [insertByFee]
    split
    · exact List.Perm.refl _
    · exact (ih.cons e).trans (List.Perm.swap _ _ _)

structure SortedTxs where
  entries : List (FeeKey × Hash)
  nodup : (entries.map Prod.snd).Nodup

namespace SortedTxs

def empty : SortedTxs := ⟨[], List.nodup_nil⟩

def ids (s : SortedTxs) : List Hash := s.entries.map Prod.snd

def insert (s : SortedTxs) (key : FeeKey) (id : Hash) : SortedTxs :=
  if h : id ∈ s.ids then s
  else ⟨insertByFee key id s.entries, by
    rw [((insertByFee_perm key id s.entries).map Prod.snd).nodup_iff, List.map_cons,
      List.nodup_cons]
    exact ⟨h, s.nodup⟩⟩

def erase (s : SortedTxs) (id : Hash) : SortedTxs :=
  ⟨s.entries.filter (fun e => e.2 ≠ id), s.nodup.sublist ((List.filter_sublist).map _)⟩

end SortedTxs

structure AddedTxInfo where
  receiveTime : Nat
  sensitive : Bool
deriving DecidableEq, Repr

structure RemovedTxInfo where
  txid : Hash
  sensitive : Bool
deriving DecidableEq, Repr

structure InputCheck where
  ok : Bool
  tvc : TxVerificationContext
  maxUsedBlockHeight : Nat
  maxUsedBlockId : Hash
deriving DecidableEq, Repr

structure Pool where
  db : SortedMap Hash PoolEntry
  spentKeyImages : SortedMap KeyImage (Finset Hash)
  txsByFeeAndReceiveTime : SortedTxs
  addedTxsById : SortedMap Hash AddedTxInfo
  addedTxsStartTime : Nat
  removedTxsByTime : List (Nat × RemovedTxInfo)
  removedTxsStartTime : Nat
  timedOutTransactions : Finset Hash
  parsedTxCache : SortedMap Hash Transaction
  inputCache : SortedMap Hash InputCheck
  txpoolMaxWeight : Nat
  txpoolWeight : Nat
  mineStemTxes : Bool
  cookie : Nat
  weightUnderflow : Bool

def Pool.empty (maxWeight : Nat) (mineStemTxes : Bool) : Pool :=
  ⟨.empty, .empty, .empty, .empty, 0, [], 0, ∅, .empty, .empty, maxWeight, 0, mineStemTxes, 0,
    false⟩

structure PoolEnv where
  parseTx : Blob → Option Transaction
  parseTxBase : Blob → Option Transaction
  parsePrefix : Blob → Option (List TxIn)
  checks : TxChecks
  feeRate : Nat → Nat → Rat

structure ChainView where
  height : Nat
  topHash : Hash
  cumulativeWeightMedian : Nat
  checkFee : Nat → Nat → Bool
  checkTxInputs : Transaction → TxVerificationContext → Hash → Bool → InputCheck × Hash

namespace Pool
variable (pool : Pool)

def getMeta (id : Hash) : Option TxMeta := (pool.db.find? id).map PoolEntry.txMeta

def getBlob (id : Hash) : Option Blob := (pool.db.find? id).map PoolEntry.blob

def txMatchesCategory (id : Hash) (category : RelayCategory) : Bool :=
  match pool.getMeta id with
  | none => false
  | some txMeta => txMeta.matchesRelay category

def addTxpoolTx (id : Hash) (blob : Blob) (txMeta : TxMeta) : Option Pool :=
  match pool.db.find? id with
  | some _ => none
  | none => some { pool with db := pool.db.insert id ⟨txMeta, blob⟩ }

def removeTxpoolTx (id : Hash) : Pool := { pool with db := pool.db.erase id }

def updateTxpoolTx (id : Hash) (txMeta : TxMeta) : Pool :=
  match pool.db.find? id with
  | none => pool
  | some entry => { pool with db := pool.db.insert id { entry with txMeta := txMeta } }

def clearCaches : Pool := { pool with inputCache := .empty, parsedTxCache := .empty }

end Pool

def maxTxExtraSize : Nat := 1060

def maxRemoved : Nat := 20000

def insertKeyImages (matchesLegacy : Bool) (id : Hash) (txRelay : RelayMethod) :
    List TxIn → SortedMap KeyImage (Finset Hash) → Bool × SortedMap KeyImage (Finset Hash)
  | [], images => (true, images)
  | .toKey input :: vin, images =>
    let imageSet := (images.find? input.kImage).getD ∅
    if txRelay ≠ .block ∧ ¬ (imageSet = ∅ ∨ imageSet = {id}) then (false, images)
    else
      let images' := images.insert input.kImage (insert id imageSet)
      if id ∉ imageSet ∨ matchesLegacy = false then
        insertKeyImages matchesLegacy id txRelay vin images'
      else (false, images')
  | _ :: _, images => (false, images)

def removeTransactionKeyimages (id : Hash) :
    List TxIn → SortedMap KeyImage (Finset Hash) → Bool × SortedMap KeyImage (Finset Hash)
  | [], images => (true, images)
  | .toKey input :: vin, images =>
    match images.find? input.kImage with
    | none => (false, images)
    | some imageSet =>
      if id ∉ imageSet then (false, images)
      else
        let rest := imageSet.erase id
        removeTransactionKeyimages id vin
          (if rest = ∅ then images.erase input.kImage else images.insert input.kImage rest)
  | _ :: _, images => (false, images)

structure AddArgs where
  tx : Transaction
  id : Hash
  blob : Blob
  txWeight : Nat
  txRelay : RelayMethod
  relayed : Bool
  version : Nat
  nicVerifiedHfVersion : Nat
  validInputVerificationId : Hash
  receiveTime : Nat
  embargoTime : Nat

def AddArgs.keptByBlock (a : AddArgs) : Bool := a.txRelay == .block

structure TakenTx where
  tx : Transaction
  blob : Blob
  txWeight : Nat
  fee : Nat
  validInputVerificationId : Hash
  relayed : Bool
  doNotRelay : Bool
  doubleSpendSeen : Bool
  pruned : Bool
deriving DecidableEq, Repr

namespace Pool
variable (pool : Pool)

def haveTxKeyimgAsSpent (kImage : KeyImage) (txid : Hash) : Bool :=
  match pool.spentKeyImages.find? kImage with
  | none => false
  | some imageSet =>
    if imageSet = ∅ then false
    else if imageSet ≠ {txid} then true
    else pool.txMatchesCategory txid .legacy

def haveTxKeyimgesAsSpent (tx : Transaction) (txid : Hash) : Bool :=
  (keyImages tx.vin).any (fun kImage => pool.haveTxKeyimgAsSpent kImage txid)

def markDoubleSpend (tx : Transaction) : Pool :=
  if checkInputsTypesSupported tx then
    let seen := fun id => (keyImages tx.vin).any (fun kImage =>
      decide (id ∈ (pool.spentKeyImages.find? kImage).getD ∅))
    let fresh := pool.db.entries.filter (fun e => seen e.1 && !e.2.txMeta.doubleSpendSeen)
    let marked := fresh.foldl (fun p e =>
      p.updateTxpoolTx e.1 { e.2.txMeta with doubleSpendSeen := true }) pool
    if fresh.isEmpty then marked else { marked with cookie := marked.cookie + 1 }
  else pool

def trackRemovedTx (now : Nat) (txid : Hash) (sensitive : Bool) : Pool :=
  let before := pool.removedTxsByTime.filter (fun e => e.1 ≤ now)
  let later := pool.removedTxsByTime.filter (fun e => ¬ e.1 ≤ now)
  let removed := before ++ (now, ⟨txid, sensitive⟩) :: later
  let start := if pool.removedTxsStartTime = 0 then now else pool.removedTxsStartTime
  if removed.length > maxRemoved then
    let kept := removed.drop (maxRemoved / 4 + 1)
    { pool with
      removedTxsByTime := kept
      removedTxsStartTime := (kept.head?.map Prod.fst).getD start }
  else
    let earliest := now - 30 * 60
    let kept := removed.filter (fun e => ¬ e.1 < earliest)
    if kept.length < removed.length then
      { pool with removedTxsByTime := kept, removedTxsStartTime := earliest }
    else { pool with removedTxsByTime := removed, removedTxsStartTime := start }

def addTxToTransientLists (now : Nat) (txid : Hash) (fee : Rat) (receiveTime : Nat)
    (sensitive : Bool) : Pool :=
  let sorted := match pool.addedTxsById.find? txid with
    | none => pool.txsByFeeAndReceiveTime
    | some _ => pool.txsByFeeAndReceiveTime.erase txid
  { pool with
    addedTxsById := pool.addedTxsById.insert txid ⟨now, sensitive⟩
    txsByFeeAndReceiveTime := sorted.insert ⟨fee, receiveTime⟩ txid
    addedTxsStartTime := if pool.addedTxsStartTime = 0 then now else pool.addedTxsStartTime }

def removeTxFromTransientLists (now : Nat) (txid : Hash) (sensitive : Bool) : Pool :=
  { pool with
    txsByFeeAndReceiveTime := pool.txsByFeeAndReceiveTime.erase txid
    addedTxsById := pool.addedTxsById.erase txid }.trackRemovedTx now txid sensitive

def reduceTxpoolWeight (weight : Nat) : Pool :=
  { pool with
    txpoolWeight := if weight > pool.txpoolWeight then 0 else pool.txpoolWeight - weight
    weightUnderflow := pool.weightUnderflow || decide (weight > pool.txpoolWeight) }

def insertKeyImages (vin : List TxIn) (id : Hash) (txRelay : RelayMethod) : Bool × Pool :=
  let (inserted, images) :=
    TxPool.insertKeyImages (pool.txMatchesCategory id .legacy) id txRelay vin pool.spentKeyImages
  (inserted, { pool with
    spentKeyImages := images
    cookie := if inserted then pool.cookie + 1 else pool.cookie })

def removeTransactionKeyimages (vin : List TxIn) (id : Hash) : Pool :=
  let (removed, images) := TxPool.removeTransactionKeyimages id vin pool.spentKeyImages
  { pool with
    spentKeyImages := images
    cookie := if removed then pool.cookie + 1 else pool.cookie }

def pruneLoop (env : PoolEnv) (now bytes : Nat) : List Hash → Pool → Bool × Bool × Pool
  | [], p => (true, false, p)
  | id :: ids, p =>
    if p.txpoolWeight ≤ bytes then (true, false, p)
    else match p.db.find? id with
      | none => pruneLoop env now bytes ids p
      | some entry =>
        if entry.txMeta.keptByBlock then pruneLoop env now bytes ids p
        else match env.parsePrefix entry.blob with
          | none => (false, false, p)
          | some vin =>
            let removed := (((p.removeTxpoolTx id).reduceTxpoolWeight entry.txMeta.weight
              ).removeTransactionKeyimages vin id).removeTxFromTransientLists now id
                (!entry.txMeta.matchesRelay .broadcasted)
            let (committed, _, final) := pruneLoop env now bytes ids removed
            (committed, true, final)

def prune (env : PoolEnv) (now bytes : Nat) : Pool :=
  let limit := if bytes = 0 then pool.txpoolMaxWeight else bytes
  let (committed, changed, final) :=
    pruneLoop env now limit pool.txsByFeeAndReceiveTime.ids.tail.reverse pool
  if !committed then { final with db := pool.db }
  else if changed then { final with cookie := final.cookie + 1 }
  else final

def checkTxInputs (chain : ChainView) (tx : Transaction) (txid verificationId : Hash)
    (tvc : TxVerificationContext) (keptByBlock : Bool) : InputCheck × Hash × Pool :=
  if keptByBlock then
    let (result, verificationId') := chain.checkTxInputs tx tvc verificationId true
    (result, verificationId', pool)
  else match pool.inputCache.find? txid with
    | some cached => (cached, verificationId, pool)
    | none =>
      let (result, verificationId') := chain.checkTxInputs tx tvc verificationId false
      (result, verificationId', { pool with inputCache := pool.inputCache.insert txid result })

def cacheParsedTx (keptByBlock : Bool) (id : Hash) (tx : Transaction) : Pool :=
  if keptByBlock && (pool.parsedTxCache.find? id).isNone then
    { pool with parsedTxCache := pool.parsedTxCache.insert id tx }
  else pool

def finishAdd (env : PoolEnv) (a : AddArgs) (txRelay : RelayMethod) (metaFee : Nat)
    (tvc : TxVerificationContext) : Bool × TxVerificationContext × Pool :=
  let weighed := { pool with
    txpoolWeight :=
      if tvc.addedToPool then wrap (pool.txpoolWeight + a.txWeight) else pool.txpoolWeight
    cookie := pool.cookie + 1 }
  (true,
    { tvc with
      verifivationFailed := false
      relay := if metaFee > 0 ∧ txRelay ≠ .forward then txRelay else tvc.relay },
    weighed.prune env a.receiveTime weighed.txpoolMaxWeight)

def addFailedKeptTx (env : PoolEnv) (a : AddArgs) (verificationId : Hash)
    (tvc : TxVerificationContext) : Bool × TxVerificationContext × Pool :=
  let fee := getTxFee a.tx
  let txMeta := { TxMeta.zero with
    weight := a.txWeight
    fee := fee
    receiveTime := a.receiveTime
    lastRelayedTime := a.receiveTime
    relayed := a.relayed
    doubleSpendSeen := pool.haveTxKeyimgesAsSpent a.tx a.id
    pruned := a.tx.pruned
    validInputVerificationId := verificationId }.setRelayMethod a.txRelay
  let (inserted, keyed) :=
    (pool.cacheParsedTx a.keptByBlock a.id a.tx).insertKeyImages a.tx.vin a.id a.txRelay
  if !inserted then (false, tvc, keyed)
  else match keyed.addTxpoolTx a.id a.blob txMeta with
    | none => (false, tvc, keyed)
    | some added =>
      (added.addTxToTransientLists a.receiveTime a.id (env.feeRate fee a.txWeight) a.receiveTime
        (!txMeta.matchesRelay .broadcasted)).finishAdd env a a.txRelay txMeta.fee
        { tvc with verifivationImpossible := true, addedToPool := true }

def addValidTx (env : PoolEnv) (a : AddArgs) (verificationId : Hash) (result : InputCheck) :
    Bool × TxVerificationContext × Pool :=
  let fee := getTxFee a.tx
  let cached := pool.cacheParsedTx a.keptByBlock a.id a.tx
  let existing := cached.getMeta a.id
  let found := existing.getD
    ({ TxMeta.zero with validInputVerificationId := verificationId }.setRelayMethod .none)
  let txRelay :=
    if existing.isSome ∧ a.txRelay = .stem ∧ found.dandelionppStem then .fluff else a.txRelay
  let (upgraded, relayMeta) := found.upgradeRelayMethod txRelay
  let tvc := { result.tvc with addedToPool := existing.isNone }
  if upgraded || existing.isNone then
    let txMeta := { relayMeta with
      lastRelayedTime :=
        if txRelay = .forward ∨ txRelay = .stem then a.embargoTime else 2 ^ 64 - 1
      receiveTime := a.receiveTime
      weight := a.txWeight
      fee := fee
      maxUsedBlockId := result.maxUsedBlockId
      maxUsedBlockHeight := result.maxUsedBlockHeight
      lastFailedHeight := 0
      lastFailedId := nullHash
      relayed := a.relayed
      doubleSpendSeen := false
      pruned := a.tx.pruned }
    let (inserted, keyed) := cached.insertKeyImages a.tx.vin a.id txRelay
    if !inserted then (false, result.tvc, keyed)
    else match (keyed.removeTxpoolTx a.id).addTxpoolTx a.id a.blob txMeta with
      | none => (false, result.tvc, keyed)
      | some added =>
        (added.addTxToTransientLists a.receiveTime a.id (env.feeRate fee a.txWeight) a.receiveTime
          (!txMeta.matchesRelay .broadcasted)).finishAdd env a txRelay txMeta.fee tvc
  else cached.finishAdd env a txRelay relayMeta.fee tvc

def addCheckedTx (env : PoolEnv) (chain : ChainView) (a : AddArgs) (tvc : TxVerificationContext) :
    Bool × TxVerificationContext × Pool :=
  let (result, verificationId, checked) := pool.checkTxInputs chain a.tx a.id
    a.validInputVerificationId { tvc with verifivationFailed := true } a.keptByBlock
  if result.ok then checked.addValidTx env a verificationId result
  else if a.keptByBlock then checked.addFailedKeptTx env a verificationId result.tvc
  else (false, { result.tvc with verifivationFailed := true, invalidInput := true }, checked)

def addTx (env : PoolEnv) (chain : ChainView) (a : AddArgs) (tvc : TxVerificationContext) :
    Bool × TxVerificationContext × Pool :=
  if !a.keptByBlock && decide (a.id ∈ pool.timedOutTransactions) then
    (false, { tvc with verifivationFailed := true, noDropOffense := true }, pool)
  else if !a.keptByBlock && !chain.checkFee a.txWeight (getTxFee a.tx) then
    (false, { tvc with verifivationFailed := true, noDropOffense := true, feeTooLow := true }, pool)
  else if !a.keptByBlock && decide (a.tx.extraSize > maxTxExtraSize) then
    (false, { tvc with verifivationFailed := true, noDropOffense := true, txExtraTooBig := true },
      pool)
  else if !a.keptByBlock && a.tx.unlockTime != 0 then
    (false,
      { tvc with verifivationFailed := true, noDropOffense := true, nonzeroUnlockTime := true }, pool)
  else if !a.keptByBlock && pool.haveTxKeyimgesAsSpent a.tx a.id then
    (false, { tvc with verifivationFailed := true, noDropOffense := true, doubleSpend := true },
      pool.markDoubleSpend a.tx)
  else if a.version = a.nicVerifiedHfVersion then pool.addCheckedTx env chain a tvc
  else
    let (nicOk, tvc) := verNonInputConsensus env.checks a.tx tvc a.version
    if nicOk then pool.addCheckedTx env chain a tvc
    else (false, { tvc with verifivationFailed := true }, pool)

def storedTx (env : PoolEnv) (id : Hash) (entry : PoolEntry) : Option Transaction :=
  match pool.parsedTxCache.find? id with
  | some tx => some tx
  | none => if entry.txMeta.pruned then env.parseTxBase entry.blob else env.parseTx entry.blob

def takeTx (env : PoolEnv) (now : Nat) (id : Hash) : Option TakenTx × Pool :=
  match pool.db.find? id with
  | none => (none, pool)
  | some entry =>
    match pool.storedTx env id entry with
    | none => (none, pool)
    | some tx =>
      let taken := (((pool.removeTxpoolTx id).reduceTxpoolWeight entry.txMeta.weight
        ).removeTransactionKeyimages tx.vin id).removeTxFromTransientLists now id
          (!entry.txMeta.matchesRelay .broadcasted)
      (some ⟨tx, entry.blob, entry.txMeta.weight, entry.txMeta.fee,
          entry.txMeta.validInputVerificationId, entry.txMeta.relayed, entry.txMeta.doNotRelay,
          entry.txMeta.doubleSpendSeen, entry.txMeta.pruned⟩,
        { taken with cookie := taken.cookie + 1 })

end Pool
end Jero.TxPool
