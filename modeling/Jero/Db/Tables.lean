import Jero.Lists.Numerals
import Jero.Lists.OrderedTable
import Jero.Serial.TxHash

namespace Jero.Db
open Jero.Common Jero.Lists Jero.Machine Jero.Serial List

def hashValue (k : Key) : Nat := Nat.ofDigits 256 (k.val.map UInt8.toNat)

theorem hashValue_injective : Function.Injective hashValue := by
  intro a b h
  have hbytes : a.val.map UInt8.toNat = b.val.map UInt8.toNat := by
    refine Nat.ofDigits_inj_of_len_eq (by norm_num) ?_ ?_ ?_ h
    · rw [length_map, length_map, a.property, b.property]
    · intro d hd
      obtain ⟨x, -, rfl⟩ := mem_map.mp hd
      exact x.toNat_lt
    · intro d hd
      obtain ⟨x, -, rfl⟩ := mem_map.mp hd
      exact x.toNat_lt
  exact Subtype.ext (map_injective_iff.mpr (fun _ _ => UInt8.toNat_inj.mp) hbytes)

instance compareHash32 : LinearOrder Key := LinearOrder.lift' hashValue hashValue_injective

structure DbEnv where
  getTransactionHash : Transaction → Key
  getTransactionPrunableHash : Transaction → Bytes → Key
  getBlockHash : Block → Key
  zeroCommit : UInt64 → Key
  scalarmultInvEight : Key → Key
  pruningSeed : Nat

structure BlockInfo where
  timestamp : UInt64
  coins : UInt64
  weight : Nat
  diffHi : Nat
  diffLo : Nat
  hash : Key
  cumRct : Nat
  longTermBlockWeight : Nat
deriving DecidableEq, Repr

structure TxIndex where
  txId : Nat
  unlockTime : UInt64
  blockId : Nat
deriving DecidableEq, Repr

structure OutTx where
  txHash : Key
  localIndex : Nat
deriving DecidableEq, Repr

structure OutputData where
  pubkey : Key
  unlockTime : UInt64
  height : Nat
  commitment : Option Key
deriving DecidableEq, Repr

structure OutKey where
  outputId : Nat
  data : OutputData
deriving DecidableEq, Repr

structure OutputTables where
  outputTxs : SortedMap Nat OutTx
  outputAmounts : SortedMap (Nat ×ₗ Nat) OutKey

structure TxTables where
  txIndices : SortedMap Key TxIndex
  txsPruned : SortedMap Nat Bytes
  txsPrunable : SortedMap Nat Bytes
  txsPrunableHash : SortedMap Nat Key
  txsPrunableTip : SortedMap Nat Nat
  txOutputs : SortedMap Nat (List Nat)

structure BlockTables where
  blocks : SortedMap Nat Bytes
  blockInfo : SortedMap Nat BlockInfo
  blockHeights : SortedMap Key Nat

structure BlockchainLMDB extends BlockTables, TxTables, OutputTables where
  spentKeys : SortedMap Key Unit

def BlockchainLMDB.empty : BlockchainLMDB where
  blocks := .empty
  blockInfo := .empty
  blockHeights := .empty
  txIndices := .empty
  txsPruned := .empty
  txsPrunable := .empty
  txsPrunableHash := .empty
  txsPrunableTip := .empty
  txOutputs := .empty
  outputTxs := .empty
  outputAmounts := .empty
  spentKeys := .empty

structure BlockchainDB where
  tables : BlockchainLMDB
  hfVersions : SortedMap Nat Nat

def BlockchainDB.empty : BlockchainDB := ⟨.empty, .empty⟩

structure TxRecord (env : DbEnv) where
  tx : Transaction
  blob : Bytes
  unprunableSize : Nat
  serialized : tx.serialize = some blob
  parsed : parseAndValidateTxFromBlob env.scalarmultInvEight false blob = some tx
  cached : unprunableSize = 0 ∨
    (writtenSizes 0 tx).map TxSizes.unprunableSize = some unprunableSize
  short : blob.length < 2 ^ 32

structure BlockRecord (env : DbEnv) where
  blk : Block
  miner : TxRecord env
  txs : List (TxRecord env)
  blockWeight : Nat
  longTermBlockWeight : Nat
  cumulativeDifficulty : Nat
  coinsGenerated : UInt64
  forkVersion : Nat
  minerTx : miner.tx = blk.minerTx
  survives : (blockToBlob blk).bind parseAndValidateBlockFromBlob = some blk

def found {α : Type} (o : Option α) (msg : String) : Except String α :=
  match o with
  | some a => .ok a
  | none => .error msg

def addSpentKey (spentKeys : SortedMap Key Unit) (kImage : Key) :
    Except String (SortedMap Key Unit) := do
  check (spentKeys.find? kImage).isNone "Attempting to add spent key image that's already in the db"
  pure (spentKeys.insert kImage ())

def addInputs : List TxIn → Bool → SortedMap Key Unit → Except String (Bool × SortedMap Key Unit)
  | [], minerTx, spentKeys => .ok (minerTx, spentKeys)
  | .toKey input :: vin, minerTx, spentKeys => do
    let spentKeys ← addSpentKey spentKeys input.kImage
    addInputs vin minerTx spentKeys
  | .gen _ :: vin, _, spentKeys => addInputs vin true spentKeys
  | _, _, _ => .error "Unexpected input type, aborting"

def removeInputs : List TxIn → SortedMap Key Unit → SortedMap Key Unit
  | [], spentKeys => spentKeys
  | .toKey input :: vin, spentKeys => removeInputs vin (spentKeys.erase input.kImage)
  | _ :: vin, spentKeys => removeInputs vin spentKeys

def OutputTables.numOutputs (o : OutputTables) : Nat :=
  match o.outputTxs.entries.getLast? with
  | none => 0
  | some last => last.1 + 1

def addOutput (height : Nat) (txHash : Key) (unlockTime : UInt64) (out : TxOut) (localIndex : Nat)
    (commitment : Option Key) (o : OutputTables) : Except String (Nat × OutputTables) := do
  let pubkey ← found (getOutputPublicKey out)
    "Could not get an output public key from a tx output."
  check (!(out.amount == 0 && commitment.isNone)) "RCT output without commitment"
  let outputTxs ← found (o.outputTxs.append o.numOutputs ⟨txHash, localIndex⟩)
    "Failed to add output tx hash to db transaction: "
  let amountIndex := (o.outputAmounts.dups out.amount.toNat).length
  let data := ⟨pubkey, unlockTime, height, if out.amount = 0 then commitment else none⟩
  let outputAmounts ← found
    (o.outputAmounts.appendDup out.amount.toNat amountIndex ⟨o.numOutputs, data⟩)
    "Failed to add output pubkey to db transaction: "
  pure (amountIndex, ⟨outputTxs, outputAmounts⟩)

def removeOutput (amount outIndex : Nat) (o : OutputTables) : Except String OutputTables := do
  let ok ← found (o.outputAmounts.find? (toLex (amount, outIndex)))
    "Attempting to get an output index by amount and amount index, but amount not found"
  let _ ← found (o.outputTxs.find? ok.outputId)
    "Unexpected: global output index not found in m_output_txs"
  pure ⟨o.outputTxs.erase ok.outputId, o.outputAmounts.erase (toLex (amount, outIndex))⟩

def removeOutputs : List Nat → List Nat → OutputTables → Except String OutputTables
  | amount :: amounts, outIndex :: outIndices, o => do
    let o ← removeOutputs amounts outIndices o
    removeOutput amount outIndex o
  | [], _, o => .ok o
  | _ :: _, [], _ => .error "amount output index out of range"

def isPseudoRct (tx : TransactionPrefix) : Bool :=
  decide (2 ≤ tx.version) && isCoinbase tx.vin

def removeTxOutputs (tx : TransactionPrefix) (indices : List Nat) (o : OutputTables) :
    Except String OutputTables := do
  check (!(indices.isEmpty && !tx.vout.isEmpty)) "tx has outputs, but no output indices found"
  removeOutputs (tx.vout.map fun out => if isPseudoRct tx then 0 else out.amount.toNat) indices o

variable (env : DbEnv)

def storedOutput (minerTx : Bool) (tx : Transaction) (i : Nat) (out : TxOut) :
    Except String (TxOut × Option Key) :=
  if minerTx && tx.version == 2 then .ok ({ out with amount := 0 }, some (env.zeroCommit out.amount))
  else if tx.version > 1 then
    match tx.rctSignatures.outPk[i]? with
    | some k => .ok (out, some k.mask)
    | none => .error "outPk index out of range"
  else .ok (out, none)

def addOutputs (height : Nat) (txHash : Key) (minerTx : Bool) (tx : Transaction) :
    Nat → List TxOut → OutputTables → Except String (List Nat × OutputTables)
  | _, [], o => .ok ([], o)
  | i, out :: vout, o => do
    let stored ← storedOutput env minerTx tx i out
    let added ← addOutput height txHash tx.unlockTime stored.1 i stored.2 o
    let rest ← addOutputs height txHash minerTx tx (i + 1) vout added.2
    pure (added.1 :: rest.1, rest.2)

variable {env}

def TxRecord.prunedSize (r : TxRecord env) : Except String Nat :=
  if r.unprunableSize = 0 then
    match transactionBase.write r.tx with
    | some base => .ok (unsignedInt base.length)
    | none => .error "Failed to serialize pruned tx"
  else .ok r.unprunableSize

def addPrunableHash (version : UInt64) (txId : Nat) (txPrunableHash : Key)
    (hashes : SortedMap Nat Key) : Except String (SortedMap Nat Key) :=
  if version > 1 then
    found (hashes.append txId txPrunableHash)
      "Failed to add prunable tx prunable hash to db transaction: "
  else .ok hashes

def removePrunableHash (version : UInt64) (txId : Nat) (hashes : SortedMap Nat Key) :
    Except String (SortedMap Nat Key) :=
  if version > 1 then do
    let _ ← found (hashes.find? txId) "Failed to locate prunable hash tx for removal: "
    pure (hashes.erase txId)
  else .ok hashes

def addTransactionData (height : Nat) (r : TxRecord env) (txHash txPrunableHash : Key)
    (t : TxTables) : Except String (Nat × TxTables) := do
  let txId := t.txsPruned.entries.length
  check (t.txIndices.find? txHash).isNone
    "Attempting to add transaction that's already in the db"
  let unprunableSize ← r.prunedSize
  check (decide (unprunableSize ≤ r.blob.length)) "pruned tx size is larger than tx size"
  let txsPruned ← found (t.txsPruned.append txId (r.blob.take unprunableSize))
    "Failed to add pruned tx blob to db transaction: "
  let txsPrunable ← found (t.txsPrunable.append txId (r.blob.drop unprunableSize))
    "Failed to add prunable tx blob to db transaction: "
  let txsPrunableHash ← addPrunableHash r.tx.version txId txPrunableHash t.txsPrunableHash
  pure (txId,
    { txIndices := t.txIndices.insert txHash ⟨txId, r.tx.unlockTime, height⟩
      txsPruned := txsPruned
      txsPrunable := txsPrunable
      txsPrunableHash := txsPrunableHash
      txsPrunableTip :=
        if env.pruningSeed ≠ 0 then t.txsPrunableTip.insert txId height else t.txsPrunableTip
      txOutputs := t.txOutputs })

def addTransaction (txHash : Key) (r : TxRecord env) (db : BlockchainLMDB) :
    Except String BlockchainLMDB := do
  let height := db.blocks.entries.length
  let prunableHash := env.getTransactionPrunableHash r.tx r.blob
  let inputs ← addInputs r.tx.vin false db.spentKeys
  let data ← addTransactionData height r txHash prunableHash db.toTxTables
  let outputs ← addOutputs env height txHash inputs.1 r.tx 0 r.tx.vout db.toOutputTables
  let txOutputs ← found (data.2.txOutputs.append data.1 outputs.1)
    "Failed to add <tx hash, amount output index array> to db transaction: "
  pure ⟨db.toBlockTables, { data.2 with txOutputs := txOutputs }, outputs.2, inputs.2⟩

def addTransactions : List Key → List (TxRecord env) → BlockchainLMDB → Except String BlockchainLMDB
  | txHash :: txHashes, r :: txs, db => do
    let db ← addTransaction txHash r db
    addTransactions txHashes txs db
  | _, _, db => .ok db

def BlockRecord.numRctOuts (b : BlockRecord env) : Nat :=
  (if b.blk.minerTx.version = 2 then b.blk.minerTx.vout.length else 0) +
    (b.txs.map fun r => r.tx.vout.countP fun out => out.amount = 0).sum

def checkParent (height : Nat) (prevId : Key) (t : BlockTables) : Except String Unit :=
  if height > 0 then do
    let parent ← found (t.blockHeights.find? prevId)
      "Failed to get top block hash to check for new block's parent: "
    check (decide (parent = height - 1)) "Top block is not new block's parent"
  else pure ()

def cumulativeRct (b : BlockRecord env) (height : Nat) (t : BlockTables) : Except String Nat :=
  if b.blk.majorVersion ≥ 4 then do
    let prev ← found (t.blockInfo.find? (wsub height 1)) "Failed to get block info: "
    pure (wrap (b.numRctOuts + prev.cumRct))
  else pure (wrap b.numRctOuts)

def addBlockData (b : BlockRecord env) (blkHash : Key) (t : BlockTables) :
    Except String BlockTables := do
  let height := t.blocks.entries.length
  check (t.blockHeights.find? blkHash).isNone "Attempting to add block that's already in the db"
  checkParent height b.blk.prevId t
  let blob ← found (blockToBlob b.blk) "Failed to serialize block"
  let blocks ← found (t.blocks.append height blob)
    "Failed to add block blob to db transaction: "
  let cumRct ← cumulativeRct b height t
  let info :=
    { timestamp := b.blk.timestamp
      coins := b.coinsGenerated
      weight := b.blockWeight
      diffHi := wrap (b.cumulativeDifficulty / 2 ^ 64)
      diffLo := wrap b.cumulativeDifficulty
      hash := blkHash
      cumRct := cumRct
      longTermBlockWeight := b.longTermBlockWeight }
  let blockInfo ← found (t.blockInfo.append height info)
    "Failed to add block info to db transaction: "
  pure ⟨blocks, blockInfo, t.blockHeights.insert blkHash height⟩

def addTables (b : BlockRecord env) (db : BlockchainLMDB) : Except String BlockchainLMDB := do
  check (decide (b.blk.txHashes.length = b.txs.length)) "Inconsistent tx/hashes sizes"
  let blkHash := env.getBlockHash b.blk
  let db ← addTransaction (env.getTransactionHash b.miner.tx) b.miner db
  let db ← addTransactions b.blk.txHashes b.txs db
  let blocks ← addBlockData b blkHash db.toBlockTables
  pure { db with toBlockTables := blocks }

def addHardfork (b : BlockRecord env) (height : Nat) (hfVersions : SortedMap Nat Nat) :
    SortedMap Nat Nat :=
  let vote := if b.blk.minorVersion = 0 then 1 else b.blk.minorVersion.toNat
  if b.blk.majorVersion.toNat = b.forkVersion ∧ b.forkVersion ≤ vote then
    hfVersions.insert height b.forkVersion
  else hfVersions

def addBlock (b : BlockRecord env) (db : BlockchainDB) : Except String BlockchainDB := do
  let tables ← addTables b db.tables
  pure ⟨tables, addHardfork b db.tables.blocks.entries.length db.hfVersions⟩

def getTxBlob (h : Key) (t : TxTables) : Option Bytes :=
  (t.txIndices.find? h).bind fun tip =>
    (t.txsPruned.find? tip.txId).bind fun pruned =>
      (t.txsPrunable.find? tip.txId).map fun prunable => pruned ++ prunable

def getPrunedTxBlob (h : Key) (t : TxTables) : Option Bytes :=
  (t.txIndices.find? h).bind fun tip => t.txsPruned.find? tip.txId

variable (env)

def getTx (h : Key) (t : TxTables) : Except String (Option Transaction) :=
  match getTxBlob h t with
  | none => .ok none
  | some blob =>
    match parseAndValidateTxFromBlob env.scalarmultInvEight false blob with
    | some tx => .ok (some tx)
    | none => .error "Failed to parse transaction from blob retrieved from the db"

def getPrunedTx (h : Key) (t : TxTables) : Except String (Option Transaction) :=
  match getPrunedTxBlob h t with
  | none => .ok none
  | some blob =>
    match parseAndValidateTxBaseFromBlob env.scalarmultInvEight false false blob with
    | some tx => .ok (some tx)
    | none => .error "Failed to parse transaction base from blob retrieved from the db"

def removeTransactionData (h : Key) (tx : TransactionPrefix) (t : TxTables) (o : OutputTables) :
    Except String (TxTables × OutputTables) := do
  let tip ← found (t.txIndices.find? h) "Attempting to remove transaction that isn't in the db"
  let _ ← found (t.txsPruned.find? tip.txId) "Failed to locate pruned tx for removal: "
  let txsPrunableHash ← removePrunableHash tx.version tip.txId t.txsPrunableHash
  let indices ← found (t.txOutputs.find? tip.txId) "Unexpected: no tx_outputs entry for tx id"
  let o ← removeTxOutputs tx indices o
  pure (
    { txIndices := t.txIndices.erase h
      txsPruned := t.txsPruned.erase tip.txId
      txsPrunable := t.txsPrunable.erase tip.txId
      txsPrunableHash := txsPrunableHash
      txsPrunableTip := t.txsPrunableTip.erase tip.txId
      txOutputs := t.txOutputs.erase tip.txId }, o)

def removeTransaction (h : Key) (db : BlockchainLMDB) : Except String BlockchainLMDB := do
  let read ← getPrunedTx env h db.toTxTables
  let tx ← found read "pruned tx not found in db"
  let removed ← removeTransactionData h tx.toTransactionPrefix db.toTxTables db.toOutputTables
  pure ⟨db.toBlockTables, removed.1, removed.2, removeInputs tx.vin db.spentKeys⟩

def nullTransaction : Transaction :=
  ⟨⟨1, 0, [], [], []⟩, [], ⟨RctSigBase.empty, RctSigPrunable.empty⟩, false⟩

def nullBlock : Block := ⟨⟨0, 0, 0, nullHash, 0⟩, nullTransaction, []⟩

def getTopBlock (t : BlockTables) : Except String Block :=
  let height := t.blocks.entries.length
  if height ≠ 0 then do
    let blob ← found (t.blocks.find? (height - 1))
      "Attempt to get block from height failed -- block not in db"
    found (parseAndValidateBlockFromBlob blob)
      "Failed to parse block from blob retrieved from the db"
  else pure nullBlock

def removeBlock (t : BlockTables) : Except String BlockTables := do
  let height := t.blocks.entries.length
  check (decide (height ≠ 0)) "Attempting to remove block from an empty blockchain"
  let info ← found (t.blockInfo.find? (height - 1))
    "Attempting to remove block that's not in the db: "
  let _ ← found (t.blockHeights.find? info.hash)
    "Failed to locate block height by hash for removal: "
  let _ ← found (t.blocks.find? (height - 1)) "Failed to locate block data for removal: "
  pure ⟨t.blocks.erase (height - 1), t.blockInfo.erase (height - 1), t.blockHeights.erase info.hash⟩

def orPruned (h : Key) (t : TxTables) : Option Transaction → Except String Transaction
  | some tx => .ok tx
  | none => do
    let pruned ← getPrunedTx env h t
    found pruned "Failed to get pruned or unpruned transaction from the db"

def popTransaction (h : Key) (db : BlockchainLMDB) : Except String (Transaction × BlockchainLMDB) := do
  let full ← getTx env h db.toTxTables
  let tx ← orPruned env h db.toTxTables full
  let db ← removeTransaction env h db
  pure (tx, db)

def popTransactions : List Key → BlockchainLMDB → Except String (List Transaction × BlockchainLMDB)
  | [], db => .ok ([], db)
  | h :: txHashes, db => do
    let popped ← popTransaction env h db
    let rest ← popTransactions txHashes popped.2
    pure (popped.1 :: rest.1, rest.2)

def popTables (db : BlockchainLMDB) : Except String (Block × List Transaction × BlockchainLMDB) := do
  let blk ← getTopBlock db.toBlockTables
  let blocks ← removeBlock db.toBlockTables
  let popped ← popTransactions env blk.txHashes.reverse { db with toBlockTables := blocks }
  let db ← removeTransaction env (env.getTransactionHash blk.minerTx) popped.2
  pure (blk, popped.1, db)

def popBlock (db : BlockchainDB) : Except String (Block × List Transaction × BlockchainDB) := do
  let popped ← popTables env db.tables
  pure (popped.1, popped.2.1, { db with tables := popped.2.2 })

end Jero.Db
