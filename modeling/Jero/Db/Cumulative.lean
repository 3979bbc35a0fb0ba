import Jero.Db.PopBlock

namespace Jero.Db
open Jero.Common Jero.Lists Jero.Machine Jero.Serial List Except
section
variable {env : DbEnv}

structure BlockRecord.Ordinary (b : BlockRecord env) : Prop where
  coinbase : isCoinbase b.miner.tx.vin = true
  spending : ∀ r ∈ b.txs, isCoinbase r.tx.vin = false

def BlockRecord.VersionOne (b : BlockRecord env) : Prop :=
  b.miner.tx.version = 1 ∧ ∀ r ∈ b.txs, r.tx.version = 1

namespace Added
variable {b : BlockRecord env} {db db' : BlockchainLMDB} (a : Added b db db')
include a

theorem miner_grown (hordinary : b.Ordinary) : RctGrown db.blocks.entries.length
    (if b.blk.minerTx.version = 2 then b.blk.minerTx.vout.length else 0) db.toOutputTables
    a.first.toOutputTables := by
  have hgrown := a.miner.grown
  rw [hordinary.coinbase] at hgrown
  rw [← b.minerTx]
  rcases b.miner.version with hone | htwo
  · rw [storedRct_one hone, a.miner.countP_eq_zero hone] at hgrown
    rw [if_neg (by rw [hone]; decide)]
    exact hgrown
  · rw [storedRct_miner_two htwo] at hgrown
    rw [if_pos htwo]
    exact hgrown

theorem numRctOuts_eq_zero (hone : b.VersionOne) : b.numRctOuts = 0 := by
  have hminer : b.blk.minerTx.version ≠ 2 := by
    rw [← b.minerTx, hone.1]
    decide
  rw [BlockRecord.numRctOuts, if_neg hminer, zero_add, sum_eq_zero_iff]
  intro count hcount
  obtain ⟨r, hr, rfl⟩ := mem_map.mp hcount
  exact a.txs.countP_eq_zero r hr (hone.2 r hr)

theorem stored : ∃ info, cumulativeRct b db.blocks.entries.length db.toBlockTables =
      .ok info.cumRct ∧
    (∀ i, db'.blockInfo.find? i =
      if i = db.blocks.entries.length then some info else db.blockInfo.find? i) ∧
    db'.blocks.entries.length = db.blocks.entries.length + 1 := by
  obtain ⟨first, last, miner, txs, block, -, -, -⟩ := a
  rw [txs.blockTables.trans miner.blockTables] at block
  refine ⟨block.info, block.cumRct, ?_, block.height⟩
  intro i
  rw [(SortedMap.append_eq_some block.blockInfo).2, SortedMap.find?_insert]

end Added

structure Lawful (bs : List (BlockRecord env)) : Prop where
  ordinary : ∀ b ∈ bs, b.Ordinary
  early : ∀ b ∈ bs, b.blk.majorVersion < 4 → b.VersionOne
  ascending : bs.Pairwise fun a b => b.blk.majorVersion < 4 → a.blk.majorVersion < 4

def BlockchainLMDB.rctOutputsUpTo (db : BlockchainLMDB) (height : Nat) : List (Nat × OutKey) :=
  db.rctOutputs.filter fun e => e.2.data.height ≤ height

structure Counted (bs : List (BlockRecord env)) (db : BlockchainLMDB) : Prop where
  height : db.blocks.entries.length = bs.length
  infos : ∀ i < bs.length, ∃ info, db.blockInfo.find? i = some info ∧
    info.cumRct = wrap (db.rctOutputsUpTo i).length
  absent : ∀ i, bs.length ≤ i → db.blockInfo.find? i = none
  heights : ∀ e ∈ db.rctOutputs, e.2.data.height < bs.length
  ordered : db.RctOrdered
  early : (∀ b ∈ bs, b.blk.majorVersion < 4) → db.rctOutputs = []

variable {bs : List (BlockRecord env)} {b : BlockRecord env}

theorem Lawful.init
    (h : Lawful (bs ++ [b])) : Lawful bs :=
  ⟨fun a ha => h.ordinary a (mem_append_left _ ha),
    fun a ha => h.early a (mem_append_left _ ha), (pairwise_append.mp h.ascending).1⟩

section
variable {bs : List (BlockRecord env)} {b : BlockRecord env} {db db' : BlockchainLMDB}

theorem Counted.upTo_all (h : Counted bs db) {i : Nat} (hi : bs.length ≤ i + 1) :
    db.rctOutputsUpTo i = db.rctOutputs := by
  refine filter_eq_self.mpr ?_
  intro e he
  have hlt := h.heights e he
  exact decide_eq_true (by omega)

theorem Counted.step (h : Counted bs db) (hlawful : Lawful (bs ++ [b]))
    (hsmall : bs.length < 2 ^ 64) (a : Added b db db') : Counted (bs ++ [b]) db' := by
  have hordinary := hlawful.ordinary b (mem_append_right _ mem_cons_self)
  obtain ⟨⟨added, houtputs, hcount, hheights⟩, hordered⟩ : RctGrown db.blocks.entries.length
    b.numRctOuts db.toOutputTables db'.toOutputTables := by
    have htxs := a.txs.grown hordinary.spending
    rw [a.miner.blockTables] at htxs
    rw [a.outputTables]
    exact (a.miner_grown hordinary).trans htxs
  have hlength : (bs ++ [b]).length = bs.length + 1 := length_append
  obtain ⟨last, hcum, hfind, hgrows⟩ := a.stored
  rw [h.height] at hcum hheights
  have hsum : last.cumRct = wrap (db.rctOutputs.length + b.numRctOuts) := by
    rw [cumulativeRct] at hcum
    split at hcum
    · obtain ⟨prev, hprev, hcum⟩ := found_bind_ok hcum
      rw [← ok.inj hcum]
      rcases eq_zero_or_pos bs.length with hfirst | hlater
      · rw [h.absent _ (by rw [hfirst]; exact Nat.zero_le _)] at hprev
        cases hprev
      · rw [wsub_of_le hlater hsmall] at hprev
        obtain ⟨info, hinfo, hcount⟩ := h.infos (bs.length - 1) (by omega)
        rw [hprev] at hinfo
        rw [Option.some.inj hinfo, hcount, h.upTo_all (by omega), wrap, wrap, Nat.add_mod_mod,
          add_comm, wrap]
    · next hearly =>
      have hearly : b.blk.majorVersion < 4 := UInt8.not_le.mp hearly
      have hone := hlawful.early b (mem_append_right _ mem_cons_self) hearly
      have hbefore : ∀ a ∈ bs, a.blk.majorVersion < 4 :=
        fun a ha => (pairwise_append.mp hlawful.ascending).2.2 a ha b mem_cons_self hearly
      rw [← ok.inj hcum, h.early hbefore, a.numRctOuts_eq_zero hone, length_nil]
  have hbelow : ∀ e ∈ db'.rctOutputs, e.2.data.height < bs.length + 1 := by
    intro e he
    rw [houtputs] at he
    rcases mem_append.mp he with he | he
    · exact Nat.lt_succ_of_lt (h.heights e he)
    · rw [hheights e he]
      exact Nat.lt_succ_self _
  refine ⟨?_, ?_, ?_, ?_, hordered h.ordered, ?_⟩
  · rw [hgrows, h.height, hlength]
  · intro i hi
    rw [hfind, h.height, BlockchainLMDB.rctOutputsUpTo, houtputs]
    split
    · next hlast =>
      refine ⟨_, rfl, ?_⟩
      have hall : (db.rctOutputs ++ added).filter (fun e => e.2.data.height ≤ i) =
          db.rctOutputs ++ added := by
        refine filter_eq_self.mpr ?_
        intro e he
        have hlt := hbelow e (by rw [houtputs]; exact he)
        exact decide_eq_true (by omega)
      rw [hall, length_append, hcount, hsum]
    · next hother =>
      rw [hlength] at hi
      obtain ⟨info, hinfo, hbefore⟩ := h.infos i (by omega)
      refine ⟨info, hinfo, ?_⟩
      have hnone : added.filter (fun e => e.2.data.height ≤ i) = [] := by
        refine filter_eq_nil_iff.mpr ?_
        intro e he
        rw [decide_eq_true_eq, hheights e he]
        omega
      rw [filter_append, hnone, append_nil]
      exact hbefore
  · intro i hi
    rw [hlength] at hi
    rw [hfind, h.height, if_neg (by omega)]
    exact h.absent i (by omega)
  · intro e he
    rw [hlength]
    exact hbelow e he
  · intro hearly
    have hlast := hearly b (mem_append_right _ mem_cons_self)
    have hone := hlawful.early b (mem_append_right _ mem_cons_self) hlast
    have hnone : added = [] := by
      rw [← length_eq_zero_iff, hcount]
      exact a.numRctOuts_eq_zero hone
    rw [houtputs, hnone, h.early (fun a ha => hearly a (mem_append_left _ ha))]
    rfl

end

theorem Built.counted {db : BlockchainLMDB} (h : Built env bs db)
    (hlawful : Lawful bs) (hsmall : bs.length ≤ 2 ^ 64) : Counted bs db := by
  induction h with
  | empty => exact ⟨rfl, nofun, fun _ _ => rfl, nofun, ⟨rfl, .nil, nofun⟩, fun _ => rfl⟩
  | add _ hadd ih =>
    obtain ⟨a⟩ := addTables_added hadd
    rw [length_append, length_singleton] at hsmall
    exact (ih hlawful.init (by omega)).step hlawful (by omega) a

theorem pop_block_undoes_add_block {bs : List (BlockRecord env)} {db : BlockchainDB}
    (h : Reached env bs db) :
    (∀ (b : BlockRecord env) db', addBlock b db = .ok db' →
      popBlock env db' =
        .ok (b.blk, (b.txs.map TxRecord.tx).reverse, { db' with tables := db.tables })) ∧
    (Lawful bs → bs.length ≤ 2 ^ 64 → db.tables.rctOutputs.length < 2 ^ 64 →
      (∀ i < bs.length, ∃ info, db.tables.blockInfo.find? i = some info ∧
        info.cumRct = (db.tables.rctOutputsUpTo i).length) ∧
      db.tables.rctOutputs.map Prod.fst = List.range db.tables.rctOutputs.length ∧
      db.tables.rctOutputs.Pairwise fun a b => a.2.outputId < b.2.outputId) := by
  refine ⟨fun b db' hadd => h.popBlock_added hadd, ?_⟩
  intro hlawful hsmall hfew
  have hcounted := h.built.counted hlawful hsmall
  refine ⟨?_, hcounted.ordered.indexed, hcounted.ordered.created⟩
  intro i hi
  obtain ⟨info, hinfo, hcount⟩ := hcounted.infos i hi
  exact ⟨info, hinfo, hcount.trans (wrap_of_lt ((length_filter_le _ _).trans_lt hfew))⟩

end

def sampleKey (n : UInt64) : Key := ⟨n.toUInt8 :: List.replicate 31 0, rfl⟩

def sampleEnv : DbEnv where
  getTransactionHash := fun tx => sampleKey tx.unlockTime
  getTransactionPrunableHash := fun _ _ => sampleKey 0
  getBlockHash := fun b => sampleKey b.timestamp
  zeroCommit := sampleKey
  scalarmultInvEight := id
  pruningSeed := 0

def sampleTx (version n : UInt64) (vin : List TxIn) (vout : List TxOut)
    (signatures : List (List Signature)) : Transaction :=
  ⟨⟨version, n, vin, vout, []⟩, signatures, ⟨RctSigBase.empty, RctSigPrunable.empty⟩, false⟩

def spendTx (n : UInt64) : Transaction :=
  sampleTx 1 n [.toKey ⟨0, [1], sampleKey n⟩] [] [[Blob.zero 64]]

def sampleTxRecord (tx : Transaction) (blob : Bytes)
    (h : tx.serialize = some blob ∧ parseAndValidateTxFromBlob id false blob = some tx ∧
      blob.length < 2 ^ 32) : TxRecord sampleEnv :=
  ⟨tx, blob, 0, h.1, h.2.1, .inl rfl, h.2.2⟩

def sampleBlock (major : UInt8) (tx : Transaction) (txHashes : List Key) : Block :=
  ⟨⟨major, major, tx.unlockTime, sampleKey (tx.unlockTime - 1), 0⟩, tx, txHashes⟩

def sampleRecord (major : UInt8) (miner : TxRecord sampleEnv) (txs : List (TxRecord sampleEnv))
    (txHashes : List Key) (h : (blockToBlob (sampleBlock major miner.tx txHashes)).bind
      parseAndValidateBlockFromBlob = some (sampleBlock major miner.tx txHashes)) :
    BlockRecord sampleEnv :=
  ⟨sampleBlock major miner.tx txHashes, miner, txs, 0, 0, 0, 0, major.toNat, rfl, h⟩

def sampleFirst : BlockRecord sampleEnv :=
  sampleRecord 1 (sampleTxRecord (sampleTx 1 0 [.gen 0] [] [[]]) [1, 0, 1, 0xff, 0, 0, 0]
    (by decide +kernel)) [] [] (by decide +kernel)

def sampleForked : BlockRecord sampleEnv :=
  sampleRecord 4
    (sampleTxRecord (sampleTx 2 1 [.gen 1] [⟨5, .toKey (sampleKey 9)⟩] [])
      ([2, 1, 1, 0xff, 1, 1, 5, 2, 9] ++ List.replicate 33 0) (by decide +kernel))
    [sampleTxRecord (spendTx 7) ([1, 7, 1, 2, 0, 1, 1, 7] ++ List.replicate 97 0)
      (by decide +kernel),
    sampleTxRecord (spendTx 8) ([1, 8, 1, 2, 0, 1, 1, 8] ++ List.replicate 97 0)
      (by decide +kernel)]
    [sampleKey 7, sampleKey 8] (by decide +kernel)

def sampleLast : BlockRecord sampleEnv :=
  sampleRecord 1 (sampleTxRecord (sampleTx 1 2 [.gen 2] [] [[]]) [1, 2, 1, 0xff, 2, 0, 0]
    (by decide +kernel)) [] [] (by decide +kernel)

theorem sample_ordinary : ∀ b ∈ [sampleFirst, sampleForked, sampleLast], b.Ordinary := by
  simp only [forall_mem_cons]
  refine ⟨⟨rfl, nofun⟩, ⟨rfl, ?_⟩, ⟨rfl, nofun⟩, forall_mem_nil _⟩
  exact forall_mem_cons.mpr ⟨rfl, forall_mem_cons.mpr ⟨rfl, nofun⟩⟩

theorem sample_early : ∀ b ∈ [sampleFirst, sampleForked, sampleLast],
    b.blk.majorVersion < 4 → b.VersionOne := by
  simp only [forall_mem_cons]
  exact ⟨fun _ => ⟨rfl, nofun⟩, fun h => absurd h (by decide), fun _ => ⟨rfl, nofun⟩,
    forall_mem_nil _⟩

theorem sample_blocks_added : ∃ db₀ db₁ db₂, addBlock sampleFirst .empty = .ok db₀ ∧
    addBlock sampleForked db₀ = .ok db₁ ∧ addBlock sampleLast db₁ = .ok db₂ ∧
    db₁.tables.rctOutputs.length = 1 ∧
    (db₂.tables.blockInfo.find? 2).map BlockInfo.cumRct = some 0 ∧
    (db₂.tables.rctOutputsUpTo 2).length = 1 := by
  have hrun : (do
      let db₀ ← addBlock sampleFirst .empty
      let db₁ ← addBlock sampleForked db₀
      let db₂ ← addBlock sampleLast db₁
      pure (db₁.tables.rctOutputs.length, (db₂.tables.blockInfo.find? 2).map BlockInfo.cumRct,
        (db₂.tables.rctOutputsUpTo 2).length)) = ok (1, some 0, 1) := by decide +kernel
  obtain ⟨db₀, h₀, hrun⟩ := bind_ok hrun
  obtain ⟨db₁, h₁, hrun⟩ := bind_ok hrun
  obtain ⟨db₂, h₂, hrun⟩ := bind_ok hrun
  obtain ⟨houtputs, hcounts⟩ := Prod.mk.inj (ok.inj hrun)
  exact ⟨db₀, db₁, db₂, h₀, h₁, h₂, houtputs, Prod.mk.inj hcounts⟩

theorem cumulative_count_restarts : ∃ (bs : List (BlockRecord sampleEnv)) (db : BlockchainDB),
    Reached sampleEnv bs db ∧
      (∀ b ∈ bs, b.Ordinary ∧ (b.blk.majorVersion < 4 → b.VersionOne)) ∧
      (db.tables.blockInfo.find? 2).map BlockInfo.cumRct = some 0 ∧
      (db.tables.rctOutputsUpTo 2).length = 1 := by
  obtain ⟨db₀, db₁, db₂, h₀, h₁, h₂, -, hcounts⟩ := sample_blocks_added
  exact ⟨_, db₂, .add (.add (.add .empty h₀) h₁) h₂,
    fun b hb => ⟨sample_ordinary b hb, sample_early b hb⟩, hcounts⟩

theorem spending_block_popped : ∃ db db' info, addBlock sampleForked db = .ok db' ∧
    popBlock sampleEnv db' =
      .ok (sampleForked.blk, [spendTx 8, spendTx 7], { db' with tables := db.tables }) ∧
    db'.tables.blockInfo.find? 1 = some info ∧
    info.cumRct = (db'.tables.rctOutputsUpTo 1).length := by
  obtain ⟨db, db', -, h₀, h₁, -, hfew, -⟩ := sample_blocks_added
  have hsub : ∀ b ∈ [] ++ [sampleFirst] ++ [sampleForked],
      b ∈ [sampleFirst, sampleForked, sampleLast] :=
    fun b hb => mem_append_left [sampleLast] hb
  have hlawful : Lawful ([] ++ [sampleFirst] ++ [sampleForked]) :=
    ⟨fun b hb => sample_ordinary b (hsub b hb), fun b hb => sample_early b (hsub b hb),
      pairwise_pair.mpr (fun _ => by decide)⟩
  obtain ⟨hinfos, -⟩ := (pop_block_undoes_add_block (.add (.add .empty h₀) h₁)).2 hlawful
    (by decide) (by rw [hfew]; decide)
  obtain ⟨info, hinfo, hcount⟩ := hinfos 1 (by decide)
  exact ⟨db, db', info, h₁, (pop_block_undoes_add_block (.add .empty h₀)).1 _ _ h₁, hinfo, hcount⟩

theorem tables_depend_only_on_chain {env : DbEnv} {bs : List (BlockRecord env)}
    {db db' : BlockchainDB} (h : Reached env bs db) (h' : Reached env bs db') :
    db.tables = db'.tables :=
  h.built.unique h'.built

theorem tables_after_rollback : ∃ db db' db'', addBlock sampleForked db = .ok db' ∧
    popBlock sampleEnv db' = .ok (sampleForked.blk, [spendTx 8, spendTx 7], db'') ∧
    db''.tables = db.tables := by
  obtain ⟨db, db', -, h₀, h₁, -⟩ := sample_blocks_added
  have hfirst : Reached sampleEnv ([] ++ [sampleFirst]) db := .add .empty h₀
  have hpop := hfirst.popBlock_added h₁
  exact ⟨db, db', _, h₁, hpop, tables_depend_only_on_chain (.pop (.add hfirst h₁) hpop) hfirst⟩

end Jero.Db
