import Jero.Chain.HandleBlock
import Jero.TxPool.Stored

namespace Jero.Chain
open Jero.Lists Jero.Tx Jero.TxPool List PoolCall

def HandedBack (calls : List PoolCall) : Prop :=
  ∀ before id taken after, calls = before ++ .took id taken :: after →
    ∃ args, .added args ∈ after ∧ args.id = id ∧ args.tx = taken.tx ∧ args.blob = taken.blob ∧
      args.txWeight = taken.txWeight ∧ args.txRelay = .block

def TookTx (calls : List PoolCall) : Prop := ∃ id taken, .took id taken ∈ calls

def FailsCleanly (run : BlockRun) : Prop :=
  run.accepted = false → TookTx run.log.calls →
    HandedBack run.log.calls ∧ run.bvc.verifivationFailed = true

def Unpruned (pool : Pool) (supplement : PoolSupplement) : Prop :=
  (∀ id entry, pool.db.find? id = some entry → entry.txMeta.pruned = false) ∧
    ∀ id found, supplement.find? id = some found → found.1.pruned = false

structure Tracked (unpruned : Prop) (st : TxLoop) : Prop where
  recorded : ∀ id taken, .took id taken ∈ st.log.calls →
    ⟨taken.tx, taken.blob, id, taken.txWeight, true, taken.validInputVerificationId⟩ ∈ st.txs
  whole : unpruned → Unpruned st.log.pool st.supplement ∧ st.nPruned = 0

namespace ConnectEnv
variable {ctx : ConnectEnv} {fastCheck : Bool} {unpruned : Prop} {st st' : TxLoop}

theorem takeTx_calls (log : PoolLog) (id : Hash) :
    (ctx.takeTx log id).2.calls = log.calls ++ ((ctx.takeTx log id).1.map (took id)).toList := by
  unfold takeTx
  split
  · exact (append_nil _).symm
  · rfl

theorem takeTx_unpruned {log : PoolLog} {supplement : PoolSupplement}
    (h : Unpruned log.pool supplement) (id : Hash) :
    (∀ taken ∈ (ctx.takeTx log id).1, taken.pruned = false) ∧
      Unpruned (ctx.takeTx log id).2.pool supplement := by
  cases hfind : log.pool.db.find? id with
  | none => simpa [takeTx, Pool.takeTx, hfind] using h
  | some entry =>
    cases htx : log.pool.storedTx ctx.poolEnv id entry with
    | none => simpa [takeTx, Pool.takeTx, hfind, htx] using h
    | some tx =>
      simp only [takeTx, Pool.takeTx, hfind, htx]
      refine ⟨fun taken htaken => Option.mem_some.mp htaken ▸ h.1 id entry hfind, ?_, h.2⟩
      intro j other hother
      rw [Pool.db_removeTxFromTransientLists] at hother
      change (log.pool.db.erase id).find? j = some other at hother
      rw [SortedMap.find?_erase] at hother
      split at hother
      · cases hother
      · exact h.1 j other hother

theorem findTx_tracked {id : Hash} {found : Option FoundTx} (h : ctx.findTx st id = (found, st'))
    (hst : Tracked unpruned st) :
    match found with
    | none => Tracked unpruned st'
    | some found => Tracked unpruned (recordTx st' found) := by
  have hcalls := ctx.takeTx_calls st.log id
  have hwhole := fun hclean => ctx.takeTx_unpruned (hst.whole hclean).1 id
  unfold findTx at h
  split at h
  · rename_i taken log htake
    rw [htake] at hcalls hwhole
    cases h
    refine ⟨?_, fun hclean => ⟨(hwhole hclean).2, ?_⟩⟩
    · intro j other hmem
      rcases mem_append.mp (hcalls ▸ hmem) with hold | hnew
      · exact mem_append_left _ (hst.recorded j other hold)
      · cases mem_singleton.mp hnew
        exact mem_append_right _ mem_cons_self
    · simp [recordTx, (hwhole hclean).1 taken rfl, (hst.whole hclean).2]
  · rename_i log htake
    rw [htake] at hcalls hwhole
    replace hcalls : log.calls = st.log.calls := hcalls.trans (append_nil _)
    split at h
    · cases h
      exact ⟨fun j other hmem => hst.recorded j other (hcalls ▸ hmem),
        fun hclean => ⟨(hwhole hclean).2, (hst.whole hclean).2⟩⟩
    · rename_i tx blob hfind
      cases h
      refine ⟨fun j other hmem => mem_append_left _ (hst.recorded j other (hcalls ▸ hmem)), ?_⟩
      intro hclean
      refine ⟨⟨(hwhole hclean).2.1, ?_⟩, ?_⟩
      · intro j other hother
        change (st.supplement.erase id).find? j = some other at hother
        rw [SortedMap.find?_erase] at hother
        split at hother
        · cases hother
        · exact (hwhole hclean).2.2 j other hother
      · have htx : tx.pruned = false := (hwhole hclean).2.2 id _ hfind
        simp [recordTx, htx, (hst.whole hclean).2]

def reached : Except (LoopExit × TxLoop) TxLoop → TxLoop
  | .error (_, st) => st
  | .ok st => st

theorem connectTx_tracked (hst : Tracked unpruned st) (id : Hash) :
    Tracked unpruned (reached (ctx.connectTx fastCheck st id)) := by
  unfold connectTx
  split
  · exact hst
  · split
    · rename_i st' hfind
      exact findTx_tracked hfind hst
    · rename_i found st' hfind
      have hrecorded : Tracked unpruned (recordTx st' found) := findTx_tracked hfind hst
      split
      · exact hrecorded
      · exact ⟨hrecorded.recorded, hrecorded.whole⟩

theorem connectTxs_tracked (hst : Tracked unpruned st) (ids : List Hash) :
    Tracked unpruned (reached (ctx.connectTxs fastCheck ids st)) := by
  induction ids generalizing st with
  | nil => exact hst
  | cons id ids ih =>
    have hstep : Tracked unpruned (reached (ctx.connectTx fastCheck st id)) :=
      connectTx_tracked hst id
    simp only [connectTxs]
    generalize ctx.connectTx fastCheck st id = r at hstep
    cases r with
    | error e => exact hstep
    | ok next => exact ih hstep

theorem returnTxsToPool_calls (hfVersion : Nat) (rows : List BlockTx) (log : PoolLog) :
    (ctx.returnTxsToPool hfVersion rows log).calls =
      log.calls ++ (rows.filter BlockTx.foundInPool).map
        (fun row => .added (ctx.returnArgs hfVersion row)) := by
  induction rows generalizing log with
  | nil => exact (append_nil _).symm
  | cons row rows ih =>
    rw [returnTxsToPool, ih]
    cases hrow : row.foundInPool with
    | false => rw [if_neg Bool.false_ne_true, filter_cons_of_neg (by simp [hrow])]
    | true =>
      rw [if_pos rfl, filter_cons_of_pos hrow, map_cons, append_cons]
      rfl

theorem returnTxsToPool_handedBack (hfVersion : Nat) (hst : Tracked unpruned st) :
    HandedBack (ctx.returnTxsToPool hfVersion st.txs st.log).calls := by
  intro before id taken after heq
  rw [returnTxsToPool_calls] at heq
  rcases append_eq_append_iff.mp heq with ⟨extra, -, hadded⟩ | ⟨tail, hcalls, hafter⟩
  · have hmem : took id taken ∈ extra ++ .took id taken :: after :=
      mem_append_right _ mem_cons_self
    rw [← hadded] at hmem
    obtain ⟨row, -, himpossible⟩ := mem_map.mp hmem
    cases himpossible
  · cases tail with
    | nil =>
      rw [nil_append] at hafter
      have hmem : took id taken ∈ took id taken :: after := mem_cons_self
      rw [hafter] at hmem
      obtain ⟨row, -, himpossible⟩ := mem_map.mp hmem
      cases himpossible
    | cons call tail =>
      obtain ⟨rfl, rfl⟩ := cons.inj hafter
      have hrow := hst.recorded id taken (hcalls ▸ mem_append_right _ mem_cons_self)
      refine ⟨ctx.returnArgs hfVersion _, mem_append_right _ (mem_map.mpr
        ⟨_, mem_filter.mpr ⟨hrow, rfl⟩, rfl⟩), rfl, rfl, rfl, rfl, rfl⟩

theorem finishBlock_outcome (b : Block) (hfVersion already weight : Nat) (hst : Tracked unpruned st) :
    (HandedBack (ctx.finishBlock b hfVersion already weight st).2.calls ∧
        (ctx.finishBlock b hfVersion already weight st).1.flagged = true) ∨
      (ctx.finishBlock b hfVersion already weight st).1.accepted = true := by
  unfold finishBlock
  split
  · exact .inl ⟨returnTxsToPool_handedBack hfVersion hst, rfl⟩
  · split
    · exact .inr rfl
    · exact .inl ⟨returnTxsToPool_handedBack hfVersion hst, rfl⟩

theorem exitResult_flagged (reason : LoopExit) : (exitResult reason).flagged = true := by
  cases reason <;> rfl

theorem connectLoop_outcome {loop : Except (LoopExit × TxLoop) TxLoop} (b : Block)
    (height hfVersion already : Nat) (hloop : Tracked unpruned (reached loop))
    (h : unpruned ∨ (ctx.blockWeightAt height).isSome) :
    (HandedBack (ctx.connectLoop b height hfVersion already loop).2.calls ∧
        (ctx.connectLoop b height hfVersion already loop).1.flagged = true) ∨
      (ctx.connectLoop b height hfVersion already loop).1.accepted = true := by
  cases loop with
  | error e => exact .inl ⟨returnTxsToPool_handedBack hfVersion hloop, exitResult_flagged e.1⟩
  | ok st =>
    simp only [connectLoop]
    split
    · rename_i hpruned
      split
      · rename_i hweight
        rcases h with hclean | hknown
        · exact absurd (hloop.whole hclean).2 hpruned.ne'
        · rw [hweight] at hknown
          cases hknown
      · exact finishBlock_outcome b hfVersion already _ hloop
    · exact finishBlock_outcome b hfVersion already _ hloop

section
variable (env : ChainEnv) (b : Block) (diff : Nat) (s : Blockchain) (log : PoolLog)
  (result : ConnectResult)

theorem settle_accepted : (settle env b diff s log result).accepted = result.accepted := by
  cases result <;> rfl

theorem settle_flagged :
    (settle env b diff s log result).bvc.verifivationFailed = result.flagged := by
  cases result <;> rfl

theorem settle_log : (settle env b diff s log result).log = log := by
  cases result <;> rfl

end

theorem failed_block_returns_txs (ctx : ConnectEnv) (env : ChainEnv) (b : Block)
    (supplement : PoolSupplement) (s : Blockchain) (pool : Pool)
    (h : Unpruned pool supplement ∨ (ctx.blockWeightAt s.db.chain.length).isSome) :
    FailsCleanly (ctx.handleBlockToMainChain env b supplement s pool) := by
  intro hrefused htook
  unfold handleBlockToMainChain at hrefused htook ⊢
  generalize ctx.checkHeader env b supplement s = header at hrefused htook ⊢
  obtain ⟨header | header, checked⟩ := header
  · obtain ⟨id, taken, hmem⟩ := htook
    exact (not_mem_nil hmem).elim
  · simp only [settle_accepted, settle_flagged, settle_log] at hrefused ⊢
    have hstart : Tracked (Unpruned pool supplement) (ctx.startLoop b supplement pool) :=
      ⟨fun _ _ h => (not_mem_nil h).elim, fun hclean => ⟨hclean, rfl⟩⟩
    rcases connectLoop_outcome b s.db.chain.length (env.currentVersion (blocks s.db.chain))
      (topGeneratedCoins s.db.chain) (connectTxs_tracked hstart b.txHashes) h with
      hclean | haccepted
    · exact hclean
    · exact absurd (hrefused.symm.trans haccepted) Bool.false_ne_true

def syncBlock : Block :=
  { ChainEnv.sampleBlock 1 120 1000 with txHashes := [7, 8] }

def syncChain : Blockchain :=
  ⟨⟨[⟨ChainEnv.sampleBlock 0 0 nullHash, 1, 0⟩], .empty⟩, none, true, .initial, ∅⟩

def syncPool : Pool :=
  { Pool.empty 1000 false with db := SortedMap.empty.insert 7 ⟨TxMeta.zero, []⟩ }

def prunedSupplement : PoolSupplement :=
  SortedMap.empty.insert 8 ({ Transaction.empty with pruned := true }, [])

def syncChecks : TxChecks where
  checkKey := fun _ => true
  keyImageInDomain := fun _ => true
  blobSize := fun _ => 0
  weight := fun _ => 0
  checkTxOutputs := fun _ tvc _ => (true, tvc)
  verRctSemantics := fun _ => true

def syncEnv : ConnectEnv where
  poolEnv := ⟨fun _ => some .empty, fun _ => some .empty, fun _ => some [], syncChecks, fun _ _ => 0⟩
  chainView := ⟨1, 1000, 0, fun _ _ => true, fun _ tvc id _ => (⟨true, tvc, 0, nullHash⟩, id)⟩
  receiveTime := 120
  embargoTime := 0
  blocksHashCheck := [(1000, 0), (2120, 0)]
  weights := ⟨0, []⟩
  txExists := fun _ => false
  checkTxInputs := fun _ _ => true
  verSupplement := fun _ _ => true
  transactionWeight := fun _ size => size
  prunedTransactionWeight := fun _ => 0
  coinbaseWeight := fun _ => 0
  longhashPasses := fun _ _ _ => true
  addBlock := fun _ _ _ => true

def weighedEnv : ConnectEnv :=
  { syncEnv with
    blocksHashCheck := [(1000, 0), (2120, 90)]
    addBlock := fun _ _ _ => false }

theorem unstored_block_returns_tx :
    let run := weighedEnv.handleBlockToMainChain ChainEnv.sampleEnv syncBlock prunedSupplement
      syncChain syncPool
    run.accepted = false ∧ TookTx run.log.calls ∧ FailsCleanly run :=
  ⟨rfl, ⟨7, _, mem_cons_self⟩, failed_block_returns_txs weighedEnv ChainEnv.sampleEnv syncBlock
    prunedSupplement syncChain syncPool (.inr rfl)⟩

theorem pruned_block_without_weight_loses_tx :
    let run := syncEnv.handleBlockToMainChain ChainEnv.sampleEnv syncBlock prunedSupplement
      syncChain syncPool
    run.accepted = false ∧ run.bvc.verifivationFailed = false ∧
      run.log.calls = [.took 7 ⟨.empty, [], 0, 0, nullHash, false, false, false, false⟩] ∧
      run.log.pool.getMeta 7 = none ∧ ¬ FailsCleanly run := by
  refine ⟨rfl, rfl, rfl, rfl, ?_⟩
  intro hclean
  exact Bool.false_ne_true (hclean rfl ⟨7, _, mem_singleton_self _⟩).2

end ConnectEnv
end Jero.Chain
