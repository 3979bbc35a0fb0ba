import Jero.Db.Undo

namespace Jero.Db
open Jero.Common Jero.Lists Jero.Machine Jero.Serial SortedMap List
section
variable {env : DbEnv} {b : BlockRecord env} {db db' : BlockchainLMDB}

structure BlockAdded (b : BlockRecord env) (blkHash : Key) (t t' : BlockTables) where
  blob : Bytes
  info : BlockInfo
  blockToBlob : blockToBlob b.blk = some blob
  hash : info.hash = blkHash
  freshHash : t.blockHeights.find? blkHash = none
  cumRct : cumulativeRct b t.blocks.entries.length t = .ok info.cumRct
  blocks : t.blocks.append t.blocks.entries.length blob = some t'.blocks
  blockInfo : t.blockInfo.append t.blocks.entries.length info = some t'.blockInfo
  blockHeights : t'.blockHeights = t.blockHeights.insert blkHash t.blocks.entries.length

theorem addBlockData_added {blkHash : Key} {t t' : BlockTables}
    (h : addBlockData b blkHash t = .ok t') : Nonempty (BlockAdded b blkHash t t') := by
  rw [addBlockData] at h
  obtain ⟨hfresh, h⟩ := check_bind_ok_iff.mp h
  obtain ⟨-, -, h⟩ := bind_ok h
  obtain ⟨blob, hblob, h⟩ := found_bind_ok h
  obtain ⟨blocks, hblocks, h⟩ := found_bind_ok h
  obtain ⟨cumRct, hcumRct, h⟩ := bind_ok h
  obtain ⟨blockInfo, hblockInfo, h⟩ := found_bind_ok h
  obtain rfl := Except.ok.inj h
  exact ⟨⟨blob, _, hblob, rfl, Option.isNone_iff_eq_none.mp hfresh, hcumRct, hblocks, hblockInfo,
    rfl⟩⟩

namespace BlockAdded
variable {blkHash : Key} {t t' : BlockTables} (a : BlockAdded b blkHash t t')
include a

theorem height : t'.blocks.entries.length = t.blocks.entries.length + 1 := by
  obtain ⟨hfresh, hblocks⟩ := append_eq_some a.blocks
  rw [hblocks, length_insert hfresh]

theorem find_block : t'.blocks.find? t.blocks.entries.length = some a.blob := by
  rw [(append_eq_some a.blocks).2, find?_insert_self]

theorem find_info : t'.blockInfo.find? t.blocks.entries.length = some a.info := by
  rw [(append_eq_some a.blockInfo).2, find?_insert_self]

theorem getTopBlock_added : getTopBlock t' = .ok b.blk := by
  have hsurvives := b.survives
  rw [a.blockToBlob, Option.bind_some] at hsurvives
  rw [getTopBlock, a.height, if_pos (Nat.succ_ne_zero _), Nat.add_sub_cancel,
    found_bind_some a.find_block, hsurvives]
  rfl

theorem removeBlock_added : removeBlock t' = .ok t := by
  obtain ⟨hfreshBlock, hblocks⟩ := append_eq_some a.blocks
  obtain ⟨hfreshInfo, hblockInfo⟩ := append_eq_some a.blockInfo
  have hheights : t'.blockHeights.find? a.info.hash = some t.blocks.entries.length := by
    rw [a.blockHeights, a.hash, find?_insert_self]
  rw [removeBlock, a.height, check_decide (Nat.succ_ne_zero _),
    Nat.add_sub_cancel, found_bind_some a.find_info, found_bind_some hheights,
    found_bind_some a.find_block, hblocks, erase_insert hfreshBlock, hblockInfo,
    erase_insert hfreshInfo, a.blockHeights, a.hash, erase_insert a.freshHash]
  rfl

end BlockAdded

structure Added (b : BlockRecord env) (db db' : BlockchainLMDB) where
  first : BlockchainLMDB
  last : BlockchainLMDB
  miner : TransactionAdded (env.getTransactionHash b.miner.tx) b.miner db first
  txs : TransactionsAdded b.blk.txHashes b.txs first last
  block : BlockAdded b (env.getBlockHash b.blk) last.toBlockTables db'.toBlockTables
  txTables : db'.toTxTables = last.toTxTables
  outputTables : db'.toOutputTables = last.toOutputTables
  spentKeys : db'.spentKeys = last.spentKeys

theorem addTables_added (h : addTables b db = .ok db') : Nonempty (Added b db db') := by
  rw [addTables] at h
  obtain ⟨hsizes, h⟩ := check_bind_ok_iff.mp h
  obtain ⟨first, hfirst, h⟩ := bind_ok h
  obtain ⟨last, hlast, h⟩ := bind_ok h
  obtain ⟨blocks, hblocks, h⟩ := bind_ok h
  obtain rfl := Except.ok.inj h
  obtain ⟨miner⟩ := addTransaction_added hfirst
  obtain ⟨block⟩ := addBlockData_added hblocks
  exact ⟨⟨first, last, miner, addTransactions_added (of_decide_eq_true hsizes) hlast, block, rfl,
    rfl, rfl⟩⟩

namespace Added
variable (a : Added b db db') (htips : db.TipsStored)
include a htips

theorem popTables_added : popTables env db' = .ok (b.blk, (b.txs.map TxRecord.tx).reverse, db) := by
  have hpop := a.txs.popTransactions_added (a.miner.tipsStored htips)
  have hremoved : ({ db' with toBlockTables := a.last.toBlockTables } : BlockchainLMDB) =
      a.last := by
    rw [a.txTables, a.outputTables, a.spentKeys]
  rw [popTables, a.block.getTopBlock_added, ok_bind, a.block.removeBlock_added, ok_bind, hremoved,
    hpop, ok_bind, ← b.minerTx, a.miner.removeTransaction_added htips]
  rfl

theorem tipsStored : db'.TipsStored := by
  rw [a.txTables]
  exact a.txs.tipsStored (a.miner.tipsStored htips)

end Added
end
variable {env : DbEnv}

inductive Reached (env : DbEnv) : List (BlockRecord env) → BlockchainDB → Prop
  | empty : Reached env [] .empty
  | add {bs : List (BlockRecord env)} {b : BlockRecord env} {db db' : BlockchainDB}
      (hreached : Reached env bs db) (hadd : addBlock b db = .ok db') :
      Reached env (bs ++ [b]) db'
  | pop {bs : List (BlockRecord env)} {blk : Block} {txs : List Transaction}
      {db db' : BlockchainDB} (hreached : Reached env bs db)
      (hpop : popBlock env db = .ok (blk, txs, db')) : Reached env bs.dropLast db'

inductive Built (env : DbEnv) : List (BlockRecord env) → BlockchainLMDB → Prop
  | empty : Built env [] .empty
  | add {bs : List (BlockRecord env)} {b : BlockRecord env} {db db' : BlockchainLMDB}
      (hbuilt : Built env bs db) (hadd : addTables b db = .ok db') : Built env (bs ++ [b]) db'

variable {bs : List (BlockRecord env)} {db : BlockchainLMDB}

theorem Built.tipsStored (h : Built env bs db) : db.TipsStored := by
  induction h with
  | empty => exact fun _ _ => rfl
  | add _ hadd ih =>
    obtain ⟨a⟩ := addTables_added hadd
    exact a.tipsStored ih

theorem Built.pop {popped : Block × List Transaction × BlockchainLMDB} (h : Built env bs db)
    (hpop : popTables env db = .ok popped) : Built env bs.dropLast popped.2.2 := by
  cases h with
  | empty => exact nomatch hpop
  | add hbuilt hadd =>
    obtain ⟨a⟩ := addTables_added hadd
    rw [a.popTables_added hbuilt.tipsStored] at hpop
    rw [List.dropLast_concat, ← Except.ok.inj hpop]
    exact hbuilt

theorem Reached.built {db : BlockchainDB} (h : Reached env bs db) : Built env bs db.tables := by
  induction h with
  | empty => exact .empty
  | add _ hadd ih =>
    obtain ⟨tables, htables, hrest⟩ := bind_ok hadd
    obtain rfl := Except.ok.inj hrest
    exact .add ih htables
  | pop _ hpop ih =>
    obtain ⟨popped, hpopped, hrest⟩ := bind_ok hpop
    obtain ⟨-, hrest⟩ := Prod.mk.inj (Except.ok.inj hrest)
    obtain rfl := (Prod.mk.inj hrest).2
    exact ih.pop hpopped

theorem Reached.popBlock_added {b : BlockRecord env} {db db' : BlockchainDB}
    (h : Reached env bs db) (hadd : addBlock b db = .ok db') : popBlock env db' =
      .ok (b.blk, (b.txs.map TxRecord.tx).reverse, { db' with tables := db.tables }) := by
  obtain ⟨tables, htables, hrest⟩ := bind_ok hadd
  obtain rfl := Except.ok.inj hrest
  obtain ⟨a⟩ := addTables_added htables
  rw [popBlock, a.popTables_added h.built.tipsStored]
  rfl

theorem Built.unique {db' : BlockchainLMDB} (h : Built env bs db) (h' : Built env bs db') :
    db = db' := by
  induction h generalizing db' with
  | empty =>
    generalize hbs : [] = bs at h'
    cases h' with
    | empty => rfl
    | add => simp at hbs
  | add _ hadd ih =>
    generalize hbs : _ ++ [_] = bs at h'
    cases h' with
    | empty => simp at hbs
    | add hbuilt hadd' =>
      obtain ⟨rfl, hlast⟩ := List.append_inj' hbs rfl
      obtain rfl := List.singleton_inj.mp hlast
      rw [ih hbuilt, hadd'] at hadd
      exact (Except.ok.inj hadd).symm

def OutputTables.rctOutputs (o : OutputTables) : List (Nat × OutKey) :=
  o.outputAmounts.dups 0

structure OutputTables.RctOrdered (o : OutputTables) : Prop where
  indexed : o.rctOutputs.map Prod.fst = List.range o.rctOutputs.length
  created : o.rctOutputs.Pairwise fun a b => a.2.outputId < b.2.outputId
  below : ∀ e ∈ o.rctOutputs, e.2.outputId < o.numOutputs

structure RctGrown (height count : Nat) (o o' : OutputTables) : Prop where
  grows : ∃ added, o'.rctOutputs = o.rctOutputs ++ added ∧ added.length = count ∧
    ∀ e ∈ added, e.2.data.height = height
  ordered : o.RctOrdered → o'.RctOrdered

namespace RctGrown
variable {height m n : Nat} {o o' o'' : OutputTables}

theorem refl (height : Nat) (o : OutputTables) : RctGrown height 0 o o :=
  ⟨⟨[], (append_nil _).symm, rfl, nofun⟩, id⟩

theorem trans (h : RctGrown height m o o') (k : RctGrown height n o' o'') :
    RctGrown height (m + n) o o'' := by
  obtain ⟨⟨first, hfirst, hm, hheights⟩, hordered⟩ := h
  obtain ⟨⟨second, hsecond, hn, kheights⟩, kordered⟩ := k
  refine ⟨⟨first ++ second, ?_, ?_, ?_⟩, fun ho => kordered (hordered ho)⟩
  · rw [hsecond, hfirst, append_assoc]
  · rw [length_append, hm, hn]
  · intro e he
    rcases mem_append.mp he with he | he
    · exact hheights e he
    · exact kheights e he

end RctGrown
section
variable {height : Nat} {txHash : Key} {unlockTime : UInt64} {out : TxOut} {localIndex : Nat}
  {commitment : Option Key} {o : OutputTables} {result : Nat × OutputTables}
variable (h : addOutput height txHash unlockTime out localIndex commitment o = .ok result)
include h

theorem addOutput_grown : RctGrown height (if out.amount.toNat = 0 then 1 else 0) o result.2 := by
  have houtputs : if out.amount.toNat = 0 then ∃ data, data.height = height ∧ result.2.rctOutputs =
    o.rctOutputs ++ [(o.rctOutputs.length, ⟨o.numOutputs, data⟩)] else result.2.rctOutputs =
    o.rctOutputs := by
    obtain ⟨hindex, -, -, pubkey, hamounts⟩ := addOutput_added h
    split
    · next hzero =>
      have hdups := dups_appendDup hamounts
      rw [hindex, hzero] at hdups
      exact ⟨_, rfl, hdups⟩
    · next hnonzero => exact dups_appendDup_of_ne hamounts (Ne.symm hnonzero)
  have hnext : result.2.numOutputs = o.numOutputs + 1 := by
    have hentries := append_entries (addOutput_added h).txs
    rw [OutputTables.numOutputs, hentries, getLast?_concat]
  split at houtputs
  · next hzero =>
    obtain ⟨data, hheight, houtputs⟩ := houtputs
    rw [if_pos hzero]
    refine ⟨⟨_, houtputs, rfl, ?_⟩, ?_⟩
    · intro e he
      rw [mem_singleton.mp he]
      exact hheight
    · rintro ⟨hindexed, hcreated, hbelow⟩
      refine ⟨?_, ?_, ?_⟩
      · rw [houtputs, map_append, hindexed, length_append, length_singleton, range_succ]
        rfl
      · rw [houtputs]
        refine pairwise_append.mpr ⟨hcreated, pairwise_singleton _ _, ?_⟩
        intro e he f hf
        rw [mem_singleton.mp hf]
        exact hbelow e he
      · intro e he
        rw [hnext]
        rw [houtputs] at he
        rcases mem_append.mp he with he | he
        · exact Nat.lt_succ_of_lt (hbelow e he)
        · rw [mem_singleton.mp he]
          exact Nat.lt_succ_self _
  · next hnonzero =>
    rw [if_neg hnonzero]
    refine ⟨⟨[], by rw [houtputs, append_nil], rfl, nofun⟩, ?_⟩
    rintro ⟨hindexed, hcreated, hbelow⟩
    refine ⟨by rw [houtputs]; exact hindexed, by rw [houtputs]; exact hcreated, ?_⟩
    intro e he
    rw [houtputs] at he
    rw [hnext]
    exact Nat.lt_succ_of_lt (hbelow e he)

end

def storedRct (minerTx : Bool) (tx : TransactionPrefix) : Nat :=
  tx.vout.countP fun out => storedAmount minerTx tx out = 0

variable {env : DbEnv} {height : Nat} {txHash : Key} {minerTx : Bool} {tx : Transaction}
section
variable {i : Nat} {vout : List TxOut} {o : OutputTables} {result : List Nat × OutputTables}
  (h : addOutputs env height txHash minerTx tx i vout o = .ok result)
include h

theorem addOutputs_grown :
    RctGrown height
      (vout.countP fun out => storedAmount minerTx tx.toTransactionPrefix out = 0) o result.2 := by
  induction vout generalizing i o result with
  | nil =>
    obtain rfl := Except.ok.inj h
    exact .refl height o
  | cons out vout ih =>
    obtain ⟨stored, added, rest, hstored, hadded, hrest, rfl⟩ := addOutputs_cons h
    have hfirst := addOutput_grown hadded
    rw [storedOutput_amount hstored] at hfirst
    have hgrown := hfirst.trans (ih hrest)
    rw [countP_cons, Nat.add_comm]
    simpa only [decide_eq_true_eq] using hgrown

theorem amount_ne_zero_of_version_one (hversion : tx.version = 1) :
    ∀ out ∈ vout, out.amount ≠ 0 := by
  induction vout generalizing i o result with
  | nil => exact nofun
  | cons out vout ih =>
    obtain ⟨stored, added, rest, hstored, hadded, hrest, -⟩ := addOutputs_cons h
    have hplain : stored = (out, none) := by
      rw [storedOutput, hversion] at hstored
      cases minerTx <;> exact (Except.ok.inj hstored).symm
    intro other hother
    rcases mem_cons.mp hother with rfl | hother
    · intro hzero
      have hcommitted := (addOutput_added hadded).committed
      rw [hplain] at hcommitted
      cases hcommitted hzero
    · exact ih hrest other hother

end
namespace TransactionAdded
variable {r : TxRecord env} {db db' : BlockchainLMDB} (a : TransactionAdded txHash r db db')
include a

theorem grown : RctGrown db.blocks.entries.length
    (storedRct (isCoinbase r.tx.vin) r.tx.toTransactionPrefix) db.toOutputTables
    db'.toOutputTables := by
  have hgrown := addOutputs_grown a.addOutputs
  rw [a.minerTx] at hgrown
  rw [a.outputTables]
  exact hgrown

theorem countP_eq_zero (hversion : r.tx.version = 1) :
    (r.tx.vout.countP fun out => out.amount = 0) = 0 := by
  rw [List.countP_eq_zero]
  intro out hout
  simpa using amount_ne_zero_of_version_one a.addOutputs hversion out hout

end TransactionAdded
variable {tx : TransactionPrefix}

theorem storedRct_spending :
    storedRct false tx = tx.vout.countP fun out => out.amount = 0 := by
  refine countP_congr ?_
  intro out _
  rw [decide_eq_true_eq, decide_eq_true_eq, storedAmount, Bool.false_and, if_neg (by decide)]
  exact ⟨fun h => UInt64.toNat_inj.mp h, fun h => by rw [h]; rfl⟩

theorem storedRct_miner_two (hversion : tx.version = 2) :
    storedRct true tx = tx.vout.length := by
  refine countP_eq_length.mpr ?_
  intro out _
  rw [decide_eq_true_eq, storedAmount, hversion]
  rfl

theorem storedRct_one {minerTx : Bool} (hversion : tx.version = 1) :
    storedRct minerTx tx = tx.vout.countP fun out => out.amount = 0 := by
  rw [← storedRct_spending]
  refine countP_congr ?_
  intro out _
  rw [storedAmount, storedAmount, hversion]
  cases minerTx <;> rfl

namespace TransactionsAdded
variable {hs : List Key} {rs : List (TxRecord env)} {db db' : BlockchainLMDB}

theorem grown (h : TransactionsAdded hs rs db db')
    (hspending : ∀ r ∈ rs, isCoinbase r.tx.vin = false) :
    RctGrown db.blocks.entries.length
      (rs.map fun r => r.tx.vout.countP fun out => out.amount = 0).sum db.toOutputTables
      db'.toOutputTables := by
  induction h with
  | nil db => exact .refl _ _
  | cons a _ ih =>
    have hone := a.grown
    rw [hspending _ mem_cons_self, storedRct_spending] at hone
    have hgrown := ih fun other hother => hspending other (mem_cons_of_mem _ hother)
    rw [a.blockTables] at hgrown
    exact hone.trans hgrown

theorem countP_eq_zero (h : TransactionsAdded hs rs db db') :
    ∀ r ∈ rs, r.tx.version = 1 → (r.tx.vout.countP fun out => out.amount = 0) = 0 := by
  induction h with
  | nil db => exact nofun
  | cons a _ ih =>
    intro other hother hversion
    rcases mem_cons.mp hother with rfl | hother
    · exact a.countP_eq_zero hversion
    · exact ih other hother hversion

end TransactionsAdded
end Jero.Db
