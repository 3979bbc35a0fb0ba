import Jero.TxPool.Add
import Jero.Chain.Emission
import Jero.Chain.Extend

namespace Jero.Chain
open Jero.Machine Jero.Lists Jero.Tx Jero.TxPool BlockVerificationContext

inductive PoolCall where
  | took (id : Hash) (taken : TakenTx)
  | added (args : AddArgs)

structure PoolLog where
  pool : Pool
  calls : List PoolCall

abbrev PoolSupplement := SortedMap Hash (Transaction × Blob)

structure BlockTx where
  tx : Transaction
  blob : Blob
  id : Hash
  txWeight : Nat
  foundInPool : Bool
  validInputVerificationId : Hash
deriving DecidableEq, Repr

structure FoundTx where
  row : BlockTx
  fee : Nat
  pruned : Bool

structure ConnectEnv where
  poolEnv : PoolEnv
  chainView : ChainView
  receiveTime : Nat
  embargoTime : Nat
  blocksHashCheck : List (Hash × Nat)
  weights : BlockWeights
  txExists : Hash → Bool
  checkTxInputs : Transaction → Hash → Bool
  verSupplement : PoolSupplement → Nat → Bool
  transactionWeight : Transaction → Nat → Nat
  prunedTransactionWeight : Transaction → Nat
  coinbaseWeight : Transaction → Nat
  longhashPasses : Block → Nat → Nat → Bool
  addBlock : Block → Nat → List BlockTx → Bool

structure TxLoop where
  log : PoolLog
  supplement : PoolSupplement
  txs : List BlockTx
  nPruned : Nat
  feeSummary : Nat
  cumulativeBlockWeight : Nat

inductive LoopExit where
  | alreadyInChain
  | missingTxs
  | wrongInputs
deriving DecidableEq, Repr

inductive ConnectResult where
  | refused (flagged missingTxs : Bool)
  | wrongInputs
  | storeFailed (verdict : MinerVerdict)
  | connected (verdict : MinerVerdict)
deriving DecidableEq, Repr

def ConnectResult.flagged : ConnectResult → Bool
  | .refused flagged _ => flagged
  | .wrongInputs => true
  | .storeFailed _ => true
  | .connected _ => false

def ConnectResult.accepted : ConnectResult → Bool
  | .connected _ => true
  | _ => false

structure HeaderCheck where
  fastCheck : Bool
  currentDiffic : Nat
deriving DecidableEq, Repr

structure BlockRun where
  accepted : Bool
  bvc : BlockVerificationContext
  missingTxs : Bool
  partialBlockReward : Bool
  chain : Blockchain
  log : PoolLog

namespace ConnectEnv
variable (ctx : ConnectEnv)

def fastCheck (height : Nat) (id : Hash) : Option Bool :=
  match ctx.blocksHashCheck[height]? with
  | none => some false
  | some expected =>
    if expected.1 = nullHash then some false
    else if id ≠ expected.1 then none
    else some true

def blockWeightAt (height : Nat) : Option Nat :=
  match ctx.blocksHashCheck[height]? with
  | none => none
  | some expected => if expected.2 = 0 then none else some expected.2

def takeTx (log : PoolLog) (id : Hash) : Option TakenTx × PoolLog :=
  match log.pool.takeTx ctx.poolEnv ctx.receiveTime id with
  | (none, pool) => (none, { log with pool := pool })
  | (some taken, pool) => (some taken, ⟨pool, log.calls ++ [.took id taken]⟩)

def findTx (st : TxLoop) (id : Hash) : Option FoundTx × TxLoop :=
  match ctx.takeTx st.log id with
  | (some taken, log) =>
    (some ⟨⟨taken.tx, taken.blob, id, taken.txWeight, true, taken.validInputVerificationId⟩,
      taken.fee, taken.pruned⟩, { st with log := log })
  | (none, log) =>
    match st.supplement.find? id with
    | none => (none, { st with log := log })
    | some (tx, blob) =>
      let txWeight :=
        if tx.pruned then ctx.prunedTransactionWeight tx else ctx.transactionWeight tx blob.length
      (some ⟨⟨tx, blob, id, txWeight, false, nullHash⟩, getTxFee tx, tx.pruned⟩,
        { st with log := log, supplement := st.supplement.erase id })

def recordTx (st : TxLoop) (found : FoundTx) : TxLoop :=
  { st with
    nPruned := if found.pruned then st.nPruned + 1 else st.nPruned
    txs := st.txs ++ [found.row] }

def connectTx (fastCheck : Bool) (st : TxLoop) (id : Hash) : Except (LoopExit × TxLoop) TxLoop :=
  if ctx.txExists id then .error (.alreadyInChain, st)
  else match ctx.findTx st id with
    | (none, st) => .error (.missingTxs, st)
    | (some found, st) =>
      if !fastCheck && !ctx.checkTxInputs found.row.tx found.row.validInputVerificationId then
        .error (.wrongInputs, recordTx st found)
      else .ok { recordTx st found with
        feeSummary := wrap (st.feeSummary + found.fee)
        cumulativeBlockWeight := wrap (st.cumulativeBlockWeight + found.row.txWeight) }

def connectTxs (fastCheck : Bool) : List Hash → TxLoop → Except (LoopExit × TxLoop) TxLoop
  | [], st => .ok st
  | id :: ids, st =>
    match ctx.connectTx fastCheck st id with
    | .error e => .error e
    | .ok st => connectTxs fastCheck ids st

def returnArgs (hfVersion : Nat) (row : BlockTx) : AddArgs :=
  ⟨row.tx, row.id, row.blob, row.txWeight, .block, true, hfVersion, hfVersion,
    row.validInputVerificationId, ctx.receiveTime, ctx.embargoTime⟩

def addTx (log : PoolLog) (args : AddArgs) : PoolLog :=
  ⟨(log.pool.addTx ctx.poolEnv ctx.chainView args .initial).2.2, log.calls ++ [.added args]⟩

def returnTxsToPool (hfVersion : Nat) : List BlockTx → PoolLog → PoolLog
  | [], log => log
  | row :: rows, log =>
    returnTxsToPool hfVersion rows
      (if row.foundInPool then ctx.addTx log (ctx.returnArgs hfVersion row) else log)

def startLoop (b : Block) (supplement : PoolSupplement) (pool : Pool) : TxLoop :=
  ⟨⟨pool, []⟩, supplement, [], 0, 0, ctx.coinbaseWeight b.minerTx⟩

def returning (hfVersion : Nat) (result : ConnectResult) (st : TxLoop) : ConnectResult × PoolLog :=
  (result, ctx.returnTxsToPool hfVersion st.txs st.log)

def exitResult : LoopExit → ConnectResult
  | .alreadyInChain => .refused true false
  | .missingTxs => .refused true true
  | .wrongInputs => .wrongInputs

def finishBlock (b : Block) (hfVersion alreadyGeneratedCoins blockWeight : Nat) (st : TxLoop) :
    ConnectResult × PoolLog :=
  match validateMinerTransaction ctx.weights b.minerTx blockWeight st.feeSummary
      alreadyGeneratedCoins hfVersion with
  | none => ctx.returning hfVersion (.refused true false) st
  | some verdict =>
    if ctx.addBlock b blockWeight st.txs then
      (.connected verdict, { st.log with pool := st.log.pool.clearCaches })
    else ctx.returning hfVersion (.storeFailed verdict) st

def connectLoop (b : Block) (height hfVersion alreadyGeneratedCoins : Nat)
    (loop : Except (LoopExit × TxLoop) TxLoop) : ConnectResult × PoolLog :=
  match loop with
  | .error (reason, st) => ctx.returning hfVersion (exitResult reason) st
  | .ok st =>
    if st.nPruned > 0 then
      match ctx.blockWeightAt height with
      | none => (.refused false false, st.log)
      | some weight => ctx.finishBlock b hfVersion alreadyGeneratedCoins weight st
    else ctx.finishBlock b hfVersion alreadyGeneratedCoins st.cumulativeBlockWeight st

variable (env : ChainEnv) (b : Block) (supplement : PoolSupplement) (s : Blockchain)

def checkHeader : Except BlockVerificationContext HeaderCheck × Blockchain :=
  let chain := s.db.chain
  let id := env.blockHash b
  let hfVersion := env.currentVersion (blocks chain)
  if b.prevId ≠ env.topHash chain then (.error .failed, s)
  else if !ChainEnv.hardforkCheck hfVersion b then (.error .failed, s)
  else if !(checkBlockTimestampMainChain env.now (timestampsOf chain) b.timestamp).1 then
    (.error .failed, s)
  else
    let (diff, s) := s.queryDifficulty env
    if diff = 0 then (.error .initial, s)
    else match ctx.fastCheck chain.length id with
      | none => (.error .failed, s)
      | some fastCheck =>
        if !fastCheck && !ctx.longhashPasses b chain.length diff then
          (.error { failed with badPow := true }, s)
        else if isInCheckpointZone env.checkpoints chain.length &&
            !checkBlock env.checkpoints chain.length id then (.error .failed, s)
        else if !env.prevalidateMinerTransaction b chain.length hfVersion then (.error .failed, s)
        else if !fastCheck && !ctx.verSupplement supplement hfVersion then (.error .failed, s)
        else (.ok ⟨fastCheck, diff⟩, s)

def runTxs (env : ChainEnv) (b : Block) (supplement : PoolSupplement) (chain : List Entry)
    (pool : Pool) (fastCheck : Bool) : ConnectResult × PoolLog :=
  ctx.connectLoop b chain.length (env.currentVersion (blocks chain)) (topGeneratedCoins chain)
    (ctx.connectTxs fastCheck b.txHashes (ctx.startLoop b supplement pool))

def settle (env : ChainEnv) (b : Block) (diff : Nat) (s : Blockchain) (log : PoolLog) :
    ConnectResult → BlockRun
  | .refused flagged missingTxs =>
    ⟨false, { initial with verifivationFailed := flagged }, missingTxs, false, s, log⟩
  | .wrongInputs =>
    ⟨false, .failed, false, false,
      { s with invalidBlocks := insert (env.blockHash b) s.invalidBlocks }, log⟩
  | .storeFailed verdict =>
    ⟨false, .failed, false, verdict.partialBlockReward, { s with batchSuccess := false }, log⟩
  | .connected verdict =>
    ⟨true, .added, false, verdict.partialBlockReward,
      ((s.connectBlock b diff verdict.baseReward).queryDifficulty env).2, log⟩

def handleBlockToMainChain (pool : Pool) : BlockRun :=
  match ctx.checkHeader env b supplement s with
  | (.error bvc, checked) => ⟨false, bvc, false, false, checked, ⟨pool, []⟩⟩
  | (.ok header, checked) =>
    let (result, log) := ctx.runTxs env b supplement s.db.chain pool header.fastCheck
    settle env b header.currentDiffic checked log result

end ConnectEnv
end Jero.Chain
