import Jero.Db.Tables

namespace Jero.Db
open Jero.Common Jero.Serial Jero.Lists Jero.Machine List Option Codec SortedMap Except
variable {x : List (List Signature) × RctSigBase × RctSigPrunable} {p : TransactionPrefix}

theorem baseShaped_of_tail (h : TailShaped p x) : BaseShaped p x.2.1 := by
  unfold TailShaped at h
  unfold BaseShaped
  split at h
  · rename_i hone
    rw [if_pos hone, h.2]
  · rename_i hone
    rw [if_neg hone]
    split at h
    · rename_i hempty
      rw [if_pos hempty, h]
    · rename_i hempty
      rw [if_neg hempty]
      exact h.2.1

theorem transactionTail_splits {v : Bytes} (h : (transactionTail p).write x = some v) :
    ∃ base rest, (baseTail p).write x.2.1 = some base ∧ v = base ++ rest := by
  unfold transactionTail at h
  unfold baseTail
  split at h
  · rename_i hone
    rw [if_pos hone]
    exact ⟨[], v, rfl, rfl⟩
  · rename_i hone
    rw [if_neg hone]
    split at h
    · rename_i hempty
      rw [if_pos hempty]
      exact ⟨[], v, rfl, rfl⟩
    · rename_i hempty
      rw [if_neg hempty]
      obtain ⟨nothing, rct, hnothing, hrct, rfl⟩ := seq_write.mp h
      obtain rfl := some.inj hnothing
      obtain ⟨base, prunable, hbase, -, rfl⟩ := dep_write.mp hrct
      exact ⟨base, prunable, hbase, rfl⟩

structure BaseSplit (t : Transaction) where
  head : Bytes
  base : Bytes
  prunable : Bytes
  writeHead : transactionPrefix.write t.toTransactionPrefix = some head
  writeBase : (baseTail t.toTransactionPrefix).write t.rctSignatures.toRctSigBase = some base

theorem baseSplit {t : Transaction} {blob : Bytes} (h : transaction.write t = some blob) :
    ∃ s : BaseSplit t, blob = (s.head ++ s.base) ++ s.prunable := by
  obtain ⟨head, tail, hhead, htail, rfl⟩ := transaction_write.mp h
  obtain ⟨base, rest, hbase, rfl⟩ := transactionTail_splits htail
  exact ⟨⟨head, base, rest, hhead, hbase⟩, (append_assoc head base rest).symm⟩

namespace BaseSplit
variable {t : Transaction} (s : BaseSplit t)

theorem write : transactionBase.write t = some (s.head ++ s.base) := by
  rw [transactionBase, image_write]
  exact dep_write.mpr ⟨s.head, s.base, s.writeHead, s.writeBase, rfl⟩

theorem writtenSize {size : Nat} (h : (writtenSizes 0 t).map TxSizes.unprunableSize = some size) :
    size = 0 ∨ size = unsignedInt (s.head ++ s.base).length := by
  have hbase := s.writeBase
  rw [writtenSizes, s.writeHead, bind_some] at h
  unfold baseTail at hbase
  split at h
  · rename_i hone
    rw [if_pos hone] at hbase
    obtain hnil := some.inj hbase
    obtain rfl := some.inj h
    rw [← hnil, append_nil]
    exact Or.inr rfl
  · rename_i hone
    rw [if_neg hone] at hbase
    split at h
    · exact Or.inl (some.inj h).symm
    · rename_i hempty
      rw [if_neg hempty] at hbase
      rw [hbase] at h
      obtain rfl := some.inj h
      rw [length_append]
      exact Or.inr rfl

theorem read (hshaped : t.Shaped) :
    ∃ u, transactionBase.read ((s.head ++ s.base) ++ s.prunable) = some (u, s.prunable) := by
  obtain ⟨w, hw, hread⟩ := transactionBase_lawful.restore t
    ⟨hshaped.readable, baseShaped_of_tail hshaped.tail⟩
  obtain rfl := some.inj (s.write.symm.trans hw)
  exact ⟨_, hread s.prunable⟩

end BaseSplit
namespace TxRecord
variable {env : DbEnv} (r : TxRecord env)

theorem shaped : r.tx.Shaped ∧ transaction.write r.tx = some r.blob := by
  obtain ⟨-, t₀, hread, hexpand⟩ := parseAndValidateTxFromBlob_inv r.parsed
  have hshaped := (transaction_lawful.fits hread).1
  refine ⟨expandTransaction1_shaped hexpand hshaped, ?_⟩
  rw [expandTransaction1_write hexpand hshaped, ← parsedTx_serialize hread hexpand, r.serialized]

theorem version : r.tx.version = 1 ∨ r.tx.version = 2 :=
  version_cases r.shaped.1.readable.version

theorem any_isGen : r.tx.vin.any TxIn.isGen = isCoinbase r.tx.vin :=
  Serial.any_isGen r.shaped.1.readable.vin.allowed

theorem stored_base :
    ∃ base prunable u, r.prunedSize = .ok base.length ∧ r.blob = base ++ prunable ∧
      parseAndValidateTxBaseFromBlob env.scalarmultInvEight false false base = some u ∧
      u.toTransactionPrefix = r.tx.toTransactionPrefix := by
  obtain ⟨hshaped, hwrite⟩ := r.shaped
  obtain ⟨s, hblob⟩ := baseSplit hwrite
  obtain ⟨hunchecked, t₀, hread, hexpand⟩ := parseAndValidateTxFromBlob_inv r.parsed
  obtain ⟨mid, rest, hfront, hbase⟩ := transaction_read_base hread
  have hsmall : unsignedInt (s.head ++ s.base).length = (s.head ++ s.base).length := by
    refine Nat.mod_eq_of_lt (lt_of_le_of_lt ?_ r.short)
    rw [hblob]
    exact (prefix_append _ _).length_le
  have hsize : r.prunedSize = .ok (s.head ++ s.base).length := by
    unfold prunedSize
    split
    · rw [s.write]
      exact congrArg Except.ok hsmall
    · rename_i hset
      rcases s.writtenSize (r.cached.resolve_left hset) with hzero | hsome
      · exact absurd hzero hset
      · rw [hsome, hsmall]
  have hrest : rest = s.prunable := by
    obtain ⟨u, hu⟩ := s.read hshaped
    rw [← hblob] at hu
    have hparsed := transactionBase_read hfront hbase
    exact (Prod.mk.inj (some.inj (hu.symm.trans hparsed))).2.symm
  have htake : r.blob.take (r.blob.length - rest.length) = s.head ++ s.base := by
    rw [hrest, hblob, length_append, Nat.add_sub_cancel, take_left]
  obtain ⟨u, hparse, hprefix, -⟩ := base_of_pruned hunchecked hfront hbase hexpand false
  rw [htake] at hparse
  exact ⟨s.head ++ s.base, s.prunable, u, hsize, hblob, hparse, hprefix⟩

end TxRecord
variable {out : TxOut} {o : OutputTables} {i : Nat} {α : Type} {msg : String}
  {result : Bool × SortedMap Key Unit} {spentKeys : SortedMap Key Unit} {vin : List TxIn}
  {commitment : Option Key} {unlockTime : UInt64} {localIndex : Nat}

theorem found_ok {o : Option α} {a : α} (h : found o msg = .ok a) : o = some a := by
  cases o with
  | none => cases h
  | some b => rw [ok.inj h]

theorem found_bind_some {β : Type} {o : Option α} {a : α} (h : o = some a) (msg : String)
    (f : α → Except String β) : (found o msg >>= f) = f a := by
  rw [h]
  rfl

theorem found_bind_ok {β : Type} {o : Option α} {f : α → Except String β} {b : β}
    (h : (found o msg >>= f) = .ok b) : ∃ a, o = some a ∧ f a = .ok b := by
  obtain ⟨a, hfound, hrest⟩ := bind_ok h
  exact ⟨a, found_ok hfound, hrest⟩

def keyImages (vin : List TxIn) : List Key :=
  vin.filterMap fun input =>
    match input with
    | .toKey input => some input.kImage
    | _ => none

structure InputsAdded (vin : List TxIn) (minerTx : Bool) (spentKeys : SortedMap Key Unit)
    (result : Bool × SortedMap Key Unit) : Prop where
  miner : result.1 = (minerTx || vin.any TxIn.isGen)
  fresh : ∀ k ∈ keyImages vin, spentKeys.find? k = none
  spent : ∀ j, result.2.find? j = if j ∈ keyImages vin then some () else spentKeys.find? j

theorem addInputs_added {minerTx : Bool} (h : addInputs vin minerTx spentKeys = .ok result) :
    InputsAdded vin minerTx spentKeys result := by
  induction vin generalizing minerTx spentKeys with
  | nil =>
    obtain rfl := ok.inj h
    exact ⟨(Bool.or_false minerTx).symm, nofun, fun _ => rfl⟩
  | cons input vin ih =>
    cases input with
    | gen height =>
      obtain ⟨hminer, hfresh, hspent⟩ := ih h
      refine ⟨?_, hfresh, hspent⟩
      rw [hminer, Bool.true_or, any_cons]
      cases minerTx <;> rfl
    | toKey input =>
      rw [addInputs] at h
      obtain ⟨first, hfirst, hrest⟩ := bind_ok h
      rw [addSpentKey] at hfirst
      obtain ⟨hnone, hfirst⟩ := check_bind_ok_iff.mp hfirst
      obtain rfl := ok.inj hfirst
      rw [isNone_iff_eq_none] at hnone
      obtain ⟨hminer, hfresh, hspent⟩ := ih hrest
      refine ⟨hminer, ?_, ?_⟩
      · intro k hk
        rcases mem_cons.mp hk with rfl | hk
        · exact hnone
        · have hk := hfresh k hk
          rw [find?_insert] at hk
          split at hk
          · cases hk
          · exact hk
      · intro j
        rw [hspent, find?_insert]
        change _ = if j ∈ input.kImage :: keyImages vin then _ else _
        by_cases hj : j ∈ keyImages vin
        · rw [if_pos hj, if_pos (mem_cons_of_mem _ hj)]
        · rw [if_neg hj]
          by_cases hi : j = input.kImage
          · rw [if_pos hi, if_pos (mem_cons.mpr (.inl hi))]
          · rw [if_neg hi, if_neg (by rw [mem_cons, not_or]; exact ⟨hi, hj⟩)]
    | toScript input => cases h
    | toScriptHash input => cases h

theorem removeInputs_eq (vin : List TxIn) (spentKeys : SortedMap Key Unit) :
    removeInputs vin spentKeys = (keyImages vin).foldl SortedMap.erase spentKeys := by
  induction vin generalizing spentKeys with
  | nil => rfl
  | cons input vin ih =>
    cases input with
    | gen height => exact ih spentKeys
    | toScript input => exact ih spentKeys
    | toScriptHash input => exact ih spentKeys
    | toKey input => exact ih (spentKeys.erase input.kImage)

theorem removeInputs_addInputs {minerTx : Bool} (h : addInputs vin minerTx spentKeys = .ok result) :
    removeInputs vin result.2 = spentKeys := by
  obtain ⟨-, hfresh, hspent⟩ := addInputs_added h
  refine eq_of_find? ?_
  intro j
  rw [removeInputs_eq, find?_foldl_erase, hspent]
  by_cases hj : j ∈ keyImages vin
  · rw [if_pos hj, hfresh j hj]
  · rw [if_neg hj, if_neg hj]

structure OutputAdded (height : Nat) (txHash : Key) (unlockTime : UInt64) (out : TxOut)
    (localIndex : Nat) (commitment : Option Key) (o : OutputTables) (result : Nat × OutputTables) :
    Prop where
  index : result.1 = (o.outputAmounts.dups out.amount.toNat).length
  committed : out.amount = 0 → commitment.isSome = true
  txs : o.outputTxs.append o.numOutputs ⟨txHash, localIndex⟩ = some result.2.outputTxs
  amounts : ∃ pubkey, o.outputAmounts.appendDup out.amount.toNat result.1
    ⟨o.numOutputs, pubkey, unlockTime, height, if out.amount = 0 then commitment else none⟩ =
      some result.2.outputAmounts

section
variable {height : Nat} {txHash : Key} {result : Nat × OutputTables}
  (h : addOutput height txHash unlockTime out localIndex commitment o = .ok result)
include h

theorem addOutput_added :
    OutputAdded height txHash unlockTime out localIndex commitment o result := by
  rw [addOutput] at h
  obtain ⟨pubkey, -, h⟩ := found_bind_ok h
  obtain ⟨hcommitted, h⟩ := check_bind_ok_iff.mp h
  obtain ⟨outputTxs, htxs, h⟩ := found_bind_ok h
  obtain ⟨outputAmounts, hamounts, h⟩ := found_bind_ok h
  obtain rfl := ok.inj h
  refine ⟨rfl, ?_, htxs, pubkey, hamounts⟩
  intro hzero
  rw [hzero] at hcommitted
  cases commitment with
  | none => cases hcommitted
  | some mask => rfl

end

def storedAmount (minerTx : Bool) (tx : TransactionPrefix) (out : TxOut) : Nat :=
  if minerTx && tx.version == 2 then 0 else out.amount.toNat

section
variable {env : DbEnv} {height : Nat} {txHash : Key} {minerTx : Bool} {tx : Transaction}

theorem storedOutput_amount {stored : TxOut × Option Key}
    (h : storedOutput env minerTx tx i out = .ok stored) :
    stored.1.amount.toNat = storedAmount minerTx tx.toTransactionPrefix out := by
  rw [storedOutput] at h
  rw [storedAmount]
  split at h
  · next hminer =>
    obtain rfl := ok.inj h
    rw [if_pos hminer]
    rfl
  · next hminer =>
    rw [if_neg hminer]
    split at h
    · split at h
      · obtain rfl := ok.inj h
        rfl
      · cases h
    · obtain rfl := ok.inj h
      rfl

variable {vout : List TxOut}

theorem addOutputs_cons {result : List Nat × OutputTables}
    (h : addOutputs env height txHash minerTx tx i (out :: vout) o = .ok result) :
    ∃ stored added rest, storedOutput env minerTx tx i out = .ok stored ∧
      addOutput height txHash tx.unlockTime stored.1 i stored.2 o = .ok added ∧
      addOutputs env height txHash minerTx tx (i + 1) vout added.2 = .ok rest ∧
      result = (added.1 :: rest.1, rest.2) := by
  rw [addOutputs] at h
  obtain ⟨stored, hstored, h⟩ := bind_ok h
  obtain ⟨added, hadded, h⟩ := bind_ok h
  obtain ⟨rest, hrest, h⟩ := bind_ok h
  exact ⟨stored, added, rest, hstored, hadded, hrest, (ok.inj h).symm⟩

theorem removeOutputs_addOutputs {result : List Nat × OutputTables}
    (h : addOutputs env height txHash minerTx tx i vout o = .ok result) :
    result.1.length = vout.length ∧
      removeOutputs (vout.map (storedAmount minerTx tx.toTransactionPrefix)) result.1 result.2 =
        .ok o := by
  induction vout generalizing i o result with
  | nil =>
    obtain rfl := ok.inj h
    exact ⟨rfl, rfl⟩
  | cons out vout ih =>
    obtain ⟨stored, added, rest, hstored, hadded, hrest, rfl⟩ := addOutputs_cons h
    obtain ⟨hlength, hremove⟩ := ih hrest
    refine ⟨by rw [length_cons, length_cons, hlength], ?_⟩
    rw [map_cons, removeOutputs, hremove, ok_bind, ← storedOutput_amount hstored]
    obtain ⟨-, -, htxs, pubkey, hamounts⟩ := addOutput_added hadded
    obtain ⟨hfreshTx, htxs⟩ := append_eq_some htxs
    obtain ⟨hfreshAmount, hamounts⟩ := appendDup_eq_some hamounts
    rw [removeOutput, hamounts, htxs, found_bind_some (find?_insert_self _ _ _),
      found_bind_some (find?_insert_self _ _ _), erase_insert hfreshTx, erase_insert hfreshAmount]
    rfl

end
variable {env : DbEnv}

theorem TxRecord.removedAmounts (r : TxRecord env) :
    (r.tx.vout.map fun out =>
      if isPseudoRct r.tx.toTransactionPrefix then 0 else out.amount.toNat) =
      r.tx.vout.map (storedAmount (isCoinbase r.tx.vin) r.tx.toTransactionPrefix) := by
  refine map_congr_left ?_
  intro out _
  rw [storedAmount, isPseudoRct]
  rcases r.version with hone | htwo
  · rw [hone]
    cases isCoinbase r.tx.vin <;> rfl
  · rw [htwo]
    cases isCoinbase r.tx.vin <;> rfl

structure DataAdded (height : Nat) (r : TxRecord env) (txHash prunableHash : Key) (t : TxTables)
    (result : Nat × TxTables) : Prop where
  txId : result.1 = t.txsPruned.entries.length
  fresh : t.txIndices.find? txHash = none
  indices : result.2.txIndices =
    t.txIndices.insert txHash ⟨result.1, r.tx.unlockTime, height⟩
  pruned : ∃ base prunable u, r.blob = base ++ prunable ∧
    t.txsPruned.append result.1 base = some result.2.txsPruned ∧
    t.txsPrunable.append result.1 prunable = some result.2.txsPrunable ∧
    parseAndValidateTxBaseFromBlob env.scalarmultInvEight false false base = some u ∧
    u.toTransactionPrefix = r.tx.toTransactionPrefix
  hashes : addPrunableHash r.tx.version result.1 prunableHash t.txsPrunableHash =
    .ok result.2.txsPrunableHash
  tip : result.2.txsPrunableTip =
    if env.pruningSeed ≠ 0 then t.txsPrunableTip.insert result.1 height else t.txsPrunableTip
  outputs : result.2.txOutputs = t.txOutputs

variable {t : TxTables}

def TxTables.TipsStored (t : TxTables) : Prop :=
  ∀ txId, t.txsPruned.find? txId = none → t.txsPrunableTip.find? txId = none

theorem erase_tip {height txId : Nat} (htips : t.TipsStored)
    (hfresh : t.txsPruned.find? txId = none) :
    (if env.pruningSeed ≠ 0 then t.txsPrunableTip.insert txId height
      else t.txsPrunableTip).erase txId = t.txsPrunableTip := by
  split
  · exact erase_insert (htips txId hfresh) height
  · exact erase_of_find? (htips txId hfresh)

structure TransactionAdded (txHash : Key) (r : TxRecord env) (db db' : BlockchainLMDB) where
  inputs : Bool × SortedMap Key Unit
  data : Nat × TxTables
  outputs : List Nat × OutputTables
  addInputs : addInputs r.tx.vin false db.spentKeys = .ok inputs
  addData : DataAdded db.blocks.entries.length r txHash
    (env.getTransactionPrunableHash r.tx r.blob) db.toTxTables data
  addOutputs : addOutputs env db.blocks.entries.length txHash inputs.1 r.tx 0 r.tx.vout
    db.toOutputTables = .ok outputs
  blockTables : db'.toBlockTables = db.toBlockTables
  spentKeys : db'.spentKeys = inputs.2
  outputTables : db'.toOutputTables = outputs.2
  txIndices : db'.txIndices = data.2.txIndices
  txsPruned : db'.txsPruned = data.2.txsPruned
  txsPrunable : db'.txsPrunable = data.2.txsPrunable
  txsPrunableHash : db'.txsPrunableHash = data.2.txsPrunableHash
  txsPrunableTip : db'.txsPrunableTip = data.2.txsPrunableTip
  txOutputs : db.txOutputs.append data.1 outputs.1 = some db'.txOutputs

theorem addTransaction_added {txHash : Key} {r : TxRecord env} {db db' : BlockchainLMDB}
    (h : addTransaction txHash r db = .ok db') : Nonempty (TransactionAdded txHash r db db') := by
  rw [addTransaction] at h
  obtain ⟨inputs, hinputs, h⟩ := bind_ok h
  obtain ⟨data, hdata, h⟩ := bind_ok h
  obtain ⟨outputs, houtputs, h⟩ := bind_ok h
  obtain ⟨txOutputs, htxOutputs, h⟩ := found_bind_ok h
  obtain rfl := ok.inj h
  have hadded : DataAdded db.blocks.entries.length r txHash (env.getTransactionPrunableHash r.tx
    r.blob) db.toTxTables data := by
    obtain ⟨base, prunable, u, hsize, hblob, hparse, hhead⟩ := r.stored_base
    rw [addTransactionData] at hdata
    obtain ⟨hfresh, hdata⟩ := check_bind_ok_iff.mp hdata
    rw [hsize, ok_bind] at hdata
    obtain ⟨-, hdata⟩ := check_bind_ok_iff.mp hdata
    obtain ⟨txsPruned, hpruned, hdata⟩ := found_bind_ok hdata
    obtain ⟨txsPrunable, hprunable, hdata⟩ := found_bind_ok hdata
    obtain ⟨hashes, hhashes, hdata⟩ := bind_ok hdata
    obtain rfl := ok.inj hdata
    rw [hblob, take_left] at hpruned
    rw [hblob, drop_left] at hprunable
    exact ⟨rfl, isNone_iff_eq_none.mp hfresh, rfl,
      ⟨base, prunable, u, hblob, hpruned, hprunable, hparse, hhead⟩, hhashes, rfl, rfl⟩
  rw [hadded.outputs] at htxOutputs
  exact ⟨⟨inputs, data, outputs, hinputs, hadded, houtputs, rfl, rfl, rfl, rfl, rfl, rfl, rfl, rfl,
    htxOutputs⟩⟩

namespace TransactionAdded
variable {txHash : Key} {r : TxRecord env} {db db' : BlockchainLMDB}
variable (a : TransactionAdded txHash r db db')
include a

theorem minerTx : a.inputs.1 = isCoinbase r.tx.vin := by
  rw [(addInputs_added a.addInputs).miner, Bool.false_or, r.any_isGen]

theorem find_index :
    db'.txIndices.find? txHash = some ⟨a.data.1, r.tx.unlockTime, db.blocks.entries.length⟩ := by
  rw [a.txIndices, a.addData.indices, find?_insert_self]

theorem getTx_added : getTx env txHash db'.toTxTables = .ok (some r.tx) := by
  obtain ⟨base, prunable, u, hblob, hpruned, hprunable, -, -⟩ := a.addData.pruned
  obtain ⟨-, hpruned⟩ := append_eq_some hpruned
  obtain ⟨-, hprunable⟩ := append_eq_some hprunable
  have hfull : getTxBlob txHash db'.toTxTables = some r.blob := by
    rw [getTxBlob, a.find_index, bind_some, a.txsPruned, hpruned,
      find?_insert_self, bind_some, a.txsPrunable, hprunable, find?_insert_self, map_some, hblob]
  rw [getTx, hfull]
  dsimp only
  rw [r.parsed]

theorem getPrunedTx_added :
    ∃ u, getPrunedTx env txHash db'.toTxTables = .ok (some u) ∧
      u.toTransactionPrefix = r.tx.toTransactionPrefix := by
  obtain ⟨base, prunable, u, -, hpruned, -, hparse, hhead⟩ := a.addData.pruned
  obtain ⟨-, hpruned⟩ := append_eq_some hpruned
  have hbase : getPrunedTxBlob txHash db'.toTxTables = some base := by
    rw [getPrunedTxBlob, a.find_index, bind_some, a.txsPruned, hpruned, find?_insert_self]
  refine ⟨u, ?_, hhead⟩
  rw [getPrunedTx, hbase]
  dsimp only
  rw [hparse]

theorem removeTxOutputs_added :
    removeTxOutputs r.tx.toTransactionPrefix a.outputs.1 db'.toOutputTables =
      .ok db.toOutputTables := by
  obtain ⟨hlength, hremove⟩ := removeOutputs_addOutputs a.addOutputs
  have hsame : a.outputs.1.isEmpty = r.tx.vout.isEmpty := by
    rw [Bool.eq_iff_iff, isEmpty_iff_length_eq_zero, isEmpty_iff_length_eq_zero, hlength]
  have hpresent : (!(a.outputs.1.isEmpty && !r.tx.vout.isEmpty)) = true := by
    rw [hsame, Bool.and_not_self]
    rfl
  rw [removeTxOutputs, check_true hpresent, r.removedAmounts, ← a.minerTx, a.outputTables]
  exact hremove

theorem removeTransactionData_added (htips : db.TipsStored) :
    removeTransactionData txHash r.tx.toTransactionPrefix db'.toTxTables db'.toOutputTables =
      .ok (db.toTxTables, db.toOutputTables) := by
  obtain ⟨base, prunable, u, -, hpruned, hprunable, -, -⟩ := a.addData.pruned
  obtain ⟨hfresh, hpruned⟩ := append_eq_some hpruned
  obtain ⟨hfreshPrunable, hprunable⟩ := append_eq_some hprunable
  obtain ⟨hfreshOutputs, houtputs⟩ := append_eq_some a.txOutputs
  have hstored : db'.txsPruned.find? a.data.1 = some base := by
    rw [a.txsPruned, hpruned, find?_insert_self]
  have hhashes : removePrunableHash r.tx.version a.data.1 db'.txsPrunableHash =
      .ok db.txsPrunableHash := by
    have h := a.addData.hashes
    rw [addPrunableHash] at h
    rw [a.txsPrunableHash, removePrunableHash]
    split at h
    · next hversion =>
      obtain ⟨hfresh, hhash⟩ := append_eq_some (found_ok h)
      rw [if_pos hversion, hhash, found_bind_some (find?_insert_self _ _ _), erase_insert hfresh]
      rfl
    · next hversion =>
      rw [if_neg hversion, ok.inj h]
  have hlisted : db'.txOutputs.find? a.data.1 = some a.outputs.1 := by
    rw [houtputs, find?_insert_self]
  rw [removeTransactionData, found_bind_some a.find_index, found_bind_some hstored, hhashes,
    ok_bind, found_bind_some hlisted, a.removeTxOutputs_added, ok_bind, houtputs,
    erase_insert hfreshOutputs, a.txIndices, a.addData.indices,
    erase_insert a.addData.fresh, a.txsPruned, hpruned, erase_insert hfresh,
    a.txsPrunable, hprunable, erase_insert hfreshPrunable, a.txsPrunableTip,
    a.addData.tip, erase_tip htips hfresh]
  rfl

theorem removeTransaction_added (htips : db.TipsStored) :
    removeTransaction env txHash db' = .ok db := by
  obtain ⟨u, hread, hhead⟩ := a.getPrunedTx_added
  rw [removeTransaction, hread, ok_bind, found_bind_some rfl, hhead,
    a.removeTransactionData_added htips, ok_bind, a.spentKeys,
    removeInputs_addInputs a.addInputs, a.blockTables]
  rfl

theorem tipsStored (htips : db.TipsStored) : db'.TipsStored := by
  obtain ⟨base, -, -, -, hpruned, -, -, -⟩ := a.addData.pruned
  obtain ⟨-, hpruned⟩ := append_eq_some hpruned
  intro txId habsent
  rw [a.txsPruned, hpruned, find?_insert] at habsent
  split at habsent
  · cases habsent
  · next hother =>
    rw [a.txsPrunableTip, a.addData.tip]
    split
    · rw [find?_insert, if_neg hother]
      exact htips txId habsent
    · exact htips txId habsent

theorem popTransaction_added (htips : db.TipsStored) :
    popTransaction env txHash db' = .ok (r.tx, db) := by
  rw [popTransaction, a.getTx_added, ok_bind, orPruned, ok_bind,
    a.removeTransaction_added htips, ok_bind]
  rfl

end TransactionAdded

theorem popTransactions_append (hs ks : List Key) (db : BlockchainLMDB) :
    popTransactions env (hs ++ ks) db =
      (popTransactions env hs db >>= fun first =>
        popTransactions env ks first.2 >>= fun second =>
          .ok (first.1 ++ second.1, second.2)) := by
  induction hs generalizing db with
  | nil =>
    rw [nil_append, popTransactions, ok_bind]
    cases popTransactions env ks db <;> rfl
  | cons h hs ih =>
    rw [cons_append, popTransactions, popTransactions]
    cases popTransaction env h db with
    | error msg => rfl
    | ok popped =>
      rw [ok_bind, ok_bind, ih]
      cases popTransactions env hs popped.2 with
      | error msg => rfl
      | ok first =>
        rw [ok_bind]
        change _ = (popTransactions env ks first.2 >>= fun second =>
          ok (popped.1 :: first.1 ++ second.1, second.2))
        cases popTransactions env ks first.2 <;> rfl

inductive TransactionsAdded : List Key → List (TxRecord env) → BlockchainLMDB → BlockchainLMDB →
    Prop
  | nil (db : BlockchainLMDB) : TransactionsAdded [] [] db db
  | cons {k : Key} {r : TxRecord env} {hs : List Key} {rs : List (TxRecord env)}
      {db middle db' : BlockchainLMDB} (a : TransactionAdded k r db middle)
      (hrest : TransactionsAdded hs rs middle db') : TransactionsAdded (k :: hs) (r :: rs) db db'

theorem addTransactions_added {hs : List Key} {rs : List (TxRecord env)} {db db' : BlockchainLMDB}
    (hlength : hs.length = rs.length) (h : addTransactions hs rs db = .ok db') :
    TransactionsAdded hs rs db db' := by
  induction hs generalizing rs db with
  | nil =>
    cases rs with
    | nil =>
      obtain rfl := ok.inj h
      exact .nil db
    | cons r rs => cases hlength
  | cons k hs ih =>
    cases rs with
    | nil => cases hlength
    | cons r rs =>
      rw [addTransactions] at h
      obtain ⟨middle, hfirst, hrest⟩ := bind_ok h
      obtain ⟨a⟩ := addTransaction_added hfirst
      exact .cons a (ih (Nat.succ.inj hlength) hrest)

namespace TransactionsAdded
variable {hs : List Key} {rs : List (TxRecord env)} {db db' : BlockchainLMDB}
  (h : TransactionsAdded hs rs db db')
include h

theorem blockTables :
    db'.toBlockTables = db.toBlockTables := by
  induction h with
  | nil db => rfl
  | cons a _ ih => exact ih.trans a.blockTables

theorem tipsStored (htips : db.TipsStored) :
    db'.TipsStored := by
  induction h with
  | nil db => exact htips
  | cons a _ ih => exact ih (a.tipsStored htips)

theorem popTransactions_added (htips : db.TipsStored) :
    popTransactions env hs.reverse db' = .ok ((rs.map TxRecord.tx).reverse, db) := by
  induction h with
  | nil db => rfl
  | cons a _ ih =>
    rw [reverse_cons, popTransactions_append, ih (a.tipsStored htips), ok_bind,
      popTransactions, a.popTransaction_added htips, ok_bind, popTransactions, ok_bind,
      map_cons, reverse_cons]
    rfl

end TransactionsAdded
end Jero.Db
