import Jero.TxPool.Add

namespace Jero.TxPool
open Jero.Machine Jero.Tx TakenTx

def mempoolTxLivetime : Nat := 86400 * 3

def mempoolTxFromAltBlockLivetime : Nat := 604800

def defaultTxpoolMaxWeight : Nat := 648000000

namespace TxMeta

def isStuck (now : Nat) (m : TxMeta) : Bool :=
  let txAge := if now ≥ m.receiveTime then now - m.receiveTime else 0
  (decide (txAge > mempoolTxLivetime) && !m.keptByBlock) ||
    (decide (txAge > mempoolTxFromAltBlockLivetime) && m.keptByBlock)

def relayedAt (m : TxMeta) (method : RelayMethod) (now embargo : Nat) : TxMeta :=
  let upgraded := (m.upgradeRelayMethod method).2
  { upgraded with
    relayed := true
    lastRelayedTime := if upgraded.dandelionppStem then embargo else now }

end TxMeta

def TakenTx.readdArgs (taken : Option TakenTx) (id : Hash) (m : TxMeta)
    (version now embargo : Nat) : AddArgs where
  tx := (taken.map tx).getD .empty
  id := id
  blob := (taken.map blob).getD []
  txWeight := m.weight
  txRelay := m.getRelayMethod
  relayed := (taken.map relayed).getD false
  version := version
  nicVerifiedHfVersion := 0
  validInputVerificationId := (taken.map validInputVerificationId).getD nullHash
  receiveTime := now
  embargoTime := embargo

namespace Pool
variable (pool : Pool)

def setRelayedTx (env : PoolEnv) (method : RelayMethod) (now embargo : Nat) (hash : Hash) :
    Bool × Pool :=
  match pool.getMeta hash with
  | none => (false, pool)
  | some m =>
    let m' := m.relayedAt method now embargo
    let updated := pool.updateTxpoolTx hash m'
    if !m.matchesRelay .broadcasted && m'.matchesRelay .broadcasted then
      (true, updated.addTxToTransientLists now hash (env.feeRate m'.fee m'.weight) now false)
    else (false, updated)

def setRelayed (env : PoolEnv) (method : RelayMethod) (now : Nat) :
    List (Hash × Nat) → Pool → List Bool × Pool
  | [], p => ([], p)
  | (hash, embargo) :: hashes, p =>
    let (wasJustBroadcasted, next) := p.setRelayedTx env method now embargo hash
    let (justBroadcasted, final) := setRelayed env method now hashes next
    (wasJustBroadcasted :: justBroadcasted, final)

def timeOutTx (now : Nat) (e : Hash × PoolEntry) : Pool :=
  let unlisted := pool.removeTxFromTransientLists now e.1 (!e.2.txMeta.matchesRelay .broadcasted)
  { unlisted with timedOutTransactions := insert e.1 unlisted.timedOutTransactions }

def dropStuckTx (env : PoolEnv) (e : Hash × PoolEntry) : Pool :=
  match pool.getBlob e.1 with
  | none => pool
  | some blob =>
    match env.parsePrefix blob with
    | none => pool
    | some vin =>
      ((pool.removeTxpoolTx e.1).reduceTxpoolWeight e.2.txMeta.weight).removeTransactionKeyimages
        vin e.1

def removeStuckTransactions (env : PoolEnv) (now : Nat) : Pool :=
  let remove := pool.db.entries.filter (fun e => e.2.txMeta.isStuck now)
  let unlisted := remove.foldl (fun p e => p.timeOutTx now e) pool
  if remove.isEmpty then unlisted
  else
    let dropped := remove.foldl (fun p e => p.dropStuckTx env e) unlisted
    { dropped with cookie := dropped.cookie + 1 }

def clearTransientInfo : Pool :=
  { pool with
    addedTxsById := .empty
    addedTxsStartTime := 0
    removedTxsByTime := []
    removedTxsStartTime := 0 }

def revalidateTx (env : PoolEnv) (chain : ChainView) (version : Nat) (now embargo : Hash → Nat)
    (id : Hash) (m : TxMeta) : Bool × Pool :=
  let (taken, rest) := pool.takeTx env (now id) id
  let (ok, _, added) := rest.addTx env chain
    (readdArgs taken id m version (now id) (embargo id)) .initial
  if !ok then (false, added)
  else match added.getMeta id with
    | none => (false, added)
    | some _ => (true, added.updateTxpoolTx id m)

def revalidateLoop (env : PoolEnv) (chain : ChainView) (version : Nat) (now embargo : Hash → Nat) :
    List (Hash × PoolEntry) → Pool → Nat × Pool
  | [], p => (0, p)
  | e :: txes, p =>
    let (ok, next) := p.revalidateTx env chain version now embargo e.1 e.2.txMeta
    let (added, final) := revalidateLoop env chain version now embargo txes next
    (if ok then added + 1 else added, final)

def validate (env : PoolEnv) (chain : ChainView) (version : Nat) (now embargo : Hash → Nat) :
    Nat × Pool :=
  let txes := pool.db.entries.filter (fun e => !e.2.txMeta.pruned)
  let (added, final) := revalidateLoop env chain version now embargo txes pool.clearTransientInfo
  let nRemoved := txes.length - added
  (nRemoved, if nRemoved > 0 then { final with cookie := final.cookie + 1 } else final)

def initPass (env : PoolEnv) (now : Nat) (kept : Bool) :
    List (Hash × PoolEntry) → List Hash → Pool → Bool × List Hash × Pool
  | [], remove, p => (true, remove, p)
  | e :: entries, remove, p =>
    if kept != e.2.txMeta.keptByBlock then initPass env now kept entries remove p
    else match env.parsePrefix e.2.blob with
      | none => initPass env now kept entries (remove ++ [e.1]) p
      | some vin =>
        let (inserted, keyed) := p.insertKeyImages vin e.1 e.2.txMeta.getRelayMethod
        if !inserted then (false, remove, keyed)
        else
          let listed := keyed.addTxToTransientLists now e.1
            (env.feeRate e.2.txMeta.fee e.2.txMeta.weight) e.2.txMeta.receiveTime
            (!e.2.txMeta.matchesRelay .broadcasted)
          initPass env now kept entries remove
            { listed with txpoolWeight := wrap (listed.txpoolWeight + e.2.txMeta.weight) }

def cleared (maxTxpoolWeight : Nat) : Pool :=
  { pool.clearTransientInfo with
    txpoolMaxWeight := if maxTxpoolWeight = 0 then defaultTxpoolMaxWeight else maxTxpoolWeight
    txsByFeeAndReceiveTime := .empty
    spentKeyImages := .empty
    txpoolWeight := 0 }

def init (env : PoolEnv) (now maxTxpoolWeight : Nat) (mineStemTxes : Bool) : Bool × Pool :=
  match initPass env now false pool.db.entries [] (pool.cleared maxTxpoolWeight) with
  | (false, _, p) => (false, p)
  | (true, remove, p) =>
    match initPass env now true pool.db.entries remove p with
    | (false, _, p) => (false, p)
    | (true, remove, p) =>
      (true, { remove.foldl removeTxpoolTx p with mineStemTxes := mineStemTxes, cookie := 0 })

def reopened : Pool := { Pool.empty defaultTxpoolMaxWeight false with db := pool.db }

end Pool

structure AddCall where
  chain : ChainView
  args : AddArgs
  tvc : TxVerificationContext

inductive PoolCall where
  | addTx (call : AddCall)
  | takeTx (now : Nat) (id : Hash)
  | prune (now bytes : Nat)
  | removeStuckTransactions (now : Nat)
  | setRelayed (method : RelayMethod) (now : Nat) (hashes : List (Hash × Nat))
  | validate (chain : ChainView) (version : Nat) (now embargo : Hash → Nat)
  | onBlockchainChange
  | init (now maxTxpoolWeight : Nat) (mineStemTxes : Bool)
  | restart (now maxTxpoolWeight : Nat) (mineStemTxes : Bool)

namespace Pool

def call (env : PoolEnv) (pool : Pool) : PoolCall → Pool
  | .addTx c => (pool.addTx env c.chain c.args c.tvc).2.2
  | .takeTx now id => (pool.takeTx env now id).2
  | .prune now bytes => pool.prune env now bytes
  | .removeStuckTransactions now => pool.removeStuckTransactions env now
  | .setRelayed method now hashes => (setRelayed env method now hashes pool).2
  | .validate chain version now embargo => (pool.validate env chain version now embargo).2
  | .onBlockchainChange => pool.clearCaches
  | .init now maxTxpoolWeight mineStemTxes => (pool.init env now maxTxpoolWeight mineStemTxes).2
  | .restart now maxTxpoolWeight mineStemTxes =>
    (pool.reopened.init env now maxTxpoolWeight mineStemTxes).2

def afterCalls (env : PoolEnv) (pool : Pool) (calls : List PoolCall) : Pool :=
  calls.foldl (call env) pool

end Pool
end Jero.TxPool
