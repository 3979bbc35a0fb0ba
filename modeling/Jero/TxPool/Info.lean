import Jero.Sync.Journal
import Jero.TxPool.Upkeep

namespace Jero.TxPool
open Jero.Lists Jero.Tx Jero.Sync List Bool Prod

structure TxDetails where
  txBlob : Blob
  weight : Nat
  fee : Nat
  maxUsedBlockId : Hash
  maxUsedBlockHeight : Nat
  keptByBlock : Bool
  lastFailedHeight : Nat
  lastFailedId : Hash
  receiveTime : Nat
  lastRelayedTime : Nat
  relayed : Bool
  doNotRelay : Bool
  doubleSpendSeen : Bool
deriving DecidableEq, Repr

structure PoolInfo where
  addedTxs : List (Hash × TxDetails)
  remainingAddedTxids : List Hash
  removedTxs : List Hash
  incremental : Bool
deriving DecidableEq, Repr

def PoolInfo.addedIds (info : PoolInfo) : Finset Hash :=
  (info.addedTxs.map fst ++ info.remainingAddedTxids).toFinset

def PoolInfo.applyTo (info : PoolInfo) (held : Finset Hash) : Finset Hash :=
  (held \ info.removedTxs.toFinset) ∪ info.addedIds

namespace Pool
variable (pool : Pool)

def getTransactionInfo (txid : Hash) (includeSensitiveData : Bool) : Option TxDetails :=
  match pool.db.find? txid with
  | none => none
  | some entry =>
    let m := entry.txMeta
    if !includeSensitiveData && !m.matchesRelay .broadcasted then none
    else some {
      txBlob := entry.blob
      weight := m.weight
      fee := m.fee
      maxUsedBlockId := m.maxUsedBlockId
      maxUsedBlockHeight := m.maxUsedBlockHeight
      keptByBlock := m.keptByBlock
      lastFailedHeight := m.lastFailedHeight
      lastFailedId := m.lastFailedId
      receiveTime := if includeSensitiveData then m.receiveTime else 0
      lastRelayedTime := if includeSensitiveData && !m.dandelionppStem then m.lastRelayedTime else 0
      relayed := m.relayed
      doNotRelay := m.doNotRelay
      doubleSpendSeen := m.doubleSpendSeen }

def collectInfo (includeSensitive : Bool) (maxAllowed : Nat) :
    List Hash → List (Hash × TxDetails) → List (Hash × TxDetails)
  | [], txs => txs
  | id :: ids, txs =>
    if txs.length < maxAllowed then
      match pool.getTransactionInfo id includeSensitive with
      | none => collectInfo includeSensitive maxAllowed ids txs
      | some details => collectInfo includeSensitive maxAllowed ids (txs ++ [(id, details)])
    else txs

def getTransactionsInfo (txids : List Hash) (includeSensitive : Bool) (maxTxCount : Nat) :
    List (Hash × TxDetails) :=
  let maxAllowed := if maxTxCount ≠ 0 then min maxTxCount txids.length else txids.length
  pool.collectInfo includeSensitive maxAllowed txids []

def givesIncremental (startTime : Nat) : Bool :=
  startTime != 0 &&
    (pool.addedTxsStartTime != 0 && pool.removedTxsStartTime != 0) &&
      !(decide (startTime ≤ pool.addedTxsStartTime) || decide (startTime ≤ pool.removedTxsStartTime))

def relevantTxids (startTime : Nat) (includeSensitive incremental : Bool) : List Hash :=
  (pool.addedTxsById.entries.filter (fun e =>
    !(!includeSensitive && e.2.sensitive) &&
      (!incremental || decide (startTime ≤ e.2.receiveTime)))).map fst

def removedSince (startTime : Nat) (includeSensitive : Bool) : List Hash :=
  ((pool.removedTxsByTime.filter (fun e => ¬ e.1 < startTime)).filter (fun e =>
    includeSensitive || !e.2.sensitive)).map (fun e => e.2.txid)

def getPoolInfo (startTime : Nat) (includeSensitive : Bool) (maxTxCount : Nat) : PoolInfo :=
  let incremental := pool.givesIncremental startTime
  let txids := pool.relevantTxids startTime includeSensitive incremental
  let addedTxs :=
    if txids.isEmpty then [] else pool.getTransactionsInfo txids includeSensitive maxTxCount
  { addedTxs := addedTxs
    remainingAddedTxids :=
      if addedTxs.length < txids.length then
        txids.filter (fun id => id ∉ addedTxs.map fst)
      else []
    removedTxs := if incremental then pool.removedSince startTime includeSensitive else []
    incremental := incremental }

variable {pool}

theorem collectInfo_sublist (pool : Pool) (includeSensitive : Bool) (maxAllowed : Nat)
    (ids : List Hash) (txs : List (Hash × TxDetails)) :
    ∃ found : List Hash, found.Sublist ids ∧
      (pool.collectInfo includeSensitive maxAllowed ids txs).map fst =
        txs.map fst ++ found := by
  induction ids generalizing txs with
  | nil => exact ⟨[], List.Sublist.refl _, (append_nil _).symm⟩
  | cons id ids ih =>
    rw [collectInfo]
    split
    · split
      · obtain ⟨found, hsub, heq⟩ := ih txs
        exact ⟨found, hsub.cons id, heq⟩
      · rename_i details _
        obtain ⟨found, hsub, heq⟩ := ih (txs ++ [(id, details)])
        refine ⟨id :: found, hsub.cons_cons id, ?_⟩
        rw [heq, map_append, append_assoc]
        rfl
    · exact ⟨[], nil_sublist _, (append_nil _).symm⟩

variable (startTime : Nat)

theorem mem_addedIds (includeSensitive : Bool) (maxTxCount : Nat) (id : Hash) :
    id ∈ (pool.getPoolInfo startTime includeSensitive maxTxCount).addedIds ↔
      id ∈ pool.relevantTxids startTime includeSensitive (pool.givesIncremental startTime) := by
  rw [getPoolInfo, PoolInfo.addedIds]
  generalize pool.relevantTxids startTime includeSensitive (pool.givesIncremental startTime) = txids
  have hsub : ((if txids.isEmpty then [] else
      pool.getTransactionsInfo txids includeSensitive maxTxCount).map fst).Sublist txids := by
    split
    · exact nil_sublist _
    · obtain ⟨found, hsub, heq⟩ := collectInfo_sublist pool includeSensitive
        (if maxTxCount ≠ 0 then min maxTxCount txids.length else txids.length) txids []
      rw [getTransactionsInfo, heq]
      exact hsub
  generalize (if txids.isEmpty then [] else
    pool.getTransactionsInfo txids includeSensitive maxTxCount) = addedTxs at hsub ⊢
  rw [mem_toFinset, mem_append]
  split
  · rw [mem_filter, decide_eq_true_eq]
    constructor
    · rintro (hadded | ⟨hremaining, -⟩)
      · exact hsub.subset hadded
      · exact hremaining
    · intro hid
      exact (em (id ∈ addedTxs.map fst)).imp_right (fun hnot => ⟨hid, hnot⟩)
  · rename_i hlen
    have hall : addedTxs.map fst = txids :=
      hsub.eq_of_length_le (by rw [length_map]; exact not_lt.mp hlen)
    rw [hall]
    simp

theorem mem_relevantTxids (includeSensitive incremental : Bool) (id : Hash) :
    id ∈ pool.relevantTxids startTime includeSensitive incremental ↔
      ∃ info, pool.addedTxsById.find? id = some info ∧
        visible includeSensitive info.sensitive = true ∧
          (incremental = true → startTime ≤ info.receiveTime) := by
  have hvisible : ∀ sensitive, (!(!includeSensitive && sensitive)) =
      visible includeSensitive sensitive := by
    intro sensitive
    rw [visible, Bool.not_and, Bool.not_not]
  simp only [relevantTxids, mem_map, mem_filter, SortedMap.mem_entries_iff, and_eq_true, hvisible]
  constructor
  · rintro ⟨⟨i, info⟩, ⟨hfind, hshown, hrecent⟩, rfl⟩
    refine ⟨info, hfind, hshown, ?_⟩
    intro hincremental
    simpa [hincremental] using hrecent
  · rintro ⟨info, hfind, hshown, hrecent⟩
    refine ⟨(id, info), ⟨hfind, hshown, ?_⟩, rfl⟩
    cases incremental with
    | false => rfl
    | true => simpa using hrecent rfl

theorem mem_removedSince (includeSensitive : Bool) (id : Hash) :
    id ∈ pool.removedSince startTime includeSensitive ↔
      ∃ e ∈ pool.removedTxsByTime, startTime ≤ e.1 ∧ e.2.txid = id ∧
        visible includeSensitive e.2.sensitive = true := by
  simp only [removedSince, mem_map, mem_filter, decide_eq_true_eq, not_lt]
  constructor
  · rintro ⟨e, ⟨⟨he, htime⟩, hvisible⟩, rfl⟩
    exact ⟨e, he, htime, rfl, hvisible⟩
  · rintro ⟨e, he, htime, rfl, hvisible⟩
    exact ⟨e, ⟨⟨he, htime⟩, hvisible⟩, rfl⟩

theorem givesIncremental_iff :
    pool.givesIncremental startTime = true ↔
      startTime ≠ 0 ∧ pool.addedTxsStartTime ≠ 0 ∧ pool.removedTxsStartTime ≠ 0 ∧
        pool.addedTxsStartTime < startTime ∧ pool.removedTxsStartTime < startTime := by
  simp only [givesIncremental, and_eq_true, not_eq_true', or_eq_false_iff,
    decide_eq_false_iff_not, not_le, bne_iff_ne]
  tauto

end Pool
end Jero.TxPool
