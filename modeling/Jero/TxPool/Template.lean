import Jero.TxPool.Add
import Jero.Chain.Reward

namespace Jero.TxPool
open Jero.Machine Jero.Tx Jero.Chain Jero.Lists List Option SortedMap Pool

def templateAcceptThreshold (amount : Nat) : Nat := wrap (roundToFloat32 amount)

structure Readiness where
  ready : Bool
  txMeta : TxMeta
  tx : Transaction
  pool : Pool

structure FillParams where
  medianWeight : Nat
  alreadyGeneratedCoins : Nat
  version : Nat
  includeSensitive : Bool

def FillParams.maxTotalWeight (p : FillParams) : Nat :=
  if p.version ≥ 5 then wsub (wrap (2 * p.medianWeight)) coinbaseBlobReservedSize
  else wsub (wrap (130 * p.medianWeight) / 100) coinbaseBlobReservedSize

structure FillState where
  pool : Pool
  txHashes : List Hash
  totalWeight : Nat
  fee : Nat
  bestCoinbase : Nat
  kImages : Finset KeyImage

inductive Verdict where
  | skip
  | stop
  | take (coinbase : Nat)
deriving DecidableEq, Repr

structure BacklogEntry where
  id : Hash
  weight : Nat
  fee : Nat
deriving DecidableEq, Repr

structure BacklogState where
  pool : Pool
  backlog : List BacklogEntry
  weight : Nat
  kImages : Finset KeyImage

namespace Pool
variable (pool : Pool)

def isTransactionReadyToGo (env : PoolEnv) (chain : ChainView) (txMeta : TxMeta) (txid : Hash)
    (blob : Blob) : Option Readiness :=
  if txMeta.lastFailedId = chain.topHash then some ⟨false, txMeta, .empty, pool⟩
  else
    let checked := match pool.inputCache.find? txid with
      | some cached => some (cached, txMeta.validInputVerificationId, Transaction.empty, pool)
      | none => (env.parseTx blob).map (fun tx =>
          let (result, verificationId, checked) := pool.checkTxInputs chain tx txid
            txMeta.validInputVerificationId .initial false
          (result, verificationId, tx, checked))
    checked.map (fun (result, verificationId, tx, checked) =>
      let used := { txMeta with
        validInputVerificationId := verificationId
        maxUsedBlockHeight := result.maxUsedBlockHeight
        maxUsedBlockId := result.maxUsedBlockId }
      if result.ok then ⟨true, used, tx, checked⟩
      else ⟨false, { used with
        lastFailedHeight := wsub chain.height 1
        lastFailedId := chain.topHash }, tx, checked⟩)

def weighTx (p : FillParams) (st : FillState) (txMeta : TxMeta) : Verdict :=
  let category := if p.includeSensitive then RelayCategory.legacy else .broadcasted
  if !txMeta.matchesRelay category &&
      !(st.pool.mineStemTxes && txMeta.getRelayMethod == .stem) then .skip
  else if txMeta.pruned then .skip
  else if p.maxTotalWeight < wrap (st.totalWeight + txMeta.weight) then .skip
  else if p.version ≥ 5 then
    match getBlockReward p.medianWeight (wrap (st.totalWeight + txMeta.weight))
        p.alreadyGeneratedCoins p.version with
    | none => .skip
    | some blockReward =>
      let coinbase := wrap (blockReward + st.fee + txMeta.fee)
      if coinbase < templateAcceptThreshold st.bestCoinbase then .skip else .take coinbase
  else if st.totalWeight > p.medianWeight then .stop
  else .take 0

def fillStep (env : PoolEnv) (chain : ChainView) (p : FillParams) (st : FillState) (id : Hash) :
    Bool × FillState :=
  match st.pool.db.find? id with
  | none => (false, st)
  | some entry =>
    match weighTx p st entry.txMeta with
    | .skip => (false, st)
    | .stop => (true, st)
    | .take coinbase =>
      match st.pool.isTransactionReadyToGo env chain entry.txMeta id entry.blob with
      | none => (false, st)
      | some r =>
        let updated :=
          if r.txMeta ≠ entry.txMeta then r.pool.updateTxpoolTx id r.txMeta else r.pool
        if !r.ready then (false, { st with pool := updated })
        else if haveKeyImages st.kImages r.tx.vin then (false, { st with pool := updated })
        else (false, {
          pool := updated
          txHashes := st.txHashes ++ [id]
          totalWeight := wrap (st.totalWeight + r.txMeta.weight)
          fee := wrap (st.fee + r.txMeta.fee)
          bestCoinbase := coinbase
          kImages := appendKeyImages st.kImages r.tx.vin })

def fillLoop (env : PoolEnv) (chain : ChainView) (p : FillParams) :
    List Hash → FillState → FillState
  | [], st => st
  | id :: ids, st =>
    match fillStep env chain p st id with
    | (true, st) => st
    | (false, st) => fillLoop env chain p ids st

def fillBlockTemplate (env : PoolEnv) (chain : ChainView) (p : FillParams) : Option FillState :=
  (getBlockReward p.medianWeight 0 p.alreadyGeneratedCoins p.version).map (fun bestCoinbase =>
    fillLoop env chain p pool.txsByFeeAndReceiveTime.ids ⟨pool, [], 0, 0, bestCoinbase, ∅⟩)

def paysBetter (a b : BacklogEntry) : Bool :=
  decide (wrap (a.fee * b.weight) > wrap (b.fee * a.weight))

def backlogCandidates (includeSensitive : Bool) : List BacklogEntry :=
  let category := if includeSensitive then RelayCategory.all else .broadcasted
  (pool.db.entries.filter (fun e => e.2.txMeta.matchesRelay category)).map (fun e =>
    ⟨e.1, e.2.txMeta.weight, e.2.txMeta.fee⟩)

def backlogOrder (chain : ChainView) (includeSensitive : Bool) : List BacklogEntry :=
  let tmp := pool.backlogCandidates includeSensitive
  let maxBacklogWeight := wrap (chain.cumulativeWeightMedian + chain.cumulativeWeightMedian / 8)
  if wrap (tmp.map BacklogEntry.weight).sum > maxBacklogWeight then
    tmp.mergeSort (fun a b => !paysBetter b a)
  else tmp

def backlogLoop (env : PoolEnv) (chain : ChainView) (maxBacklogWeight : Nat) :
    List BacklogEntry → BacklogState → BacklogState
  | [], st => st
  | e :: rest, st =>
    match st.pool.db.find? e.id with
    | none => backlogLoop env chain maxBacklogWeight rest st
    | some entry =>
      match st.pool.isTransactionReadyToGo env chain entry.txMeta e.id entry.blob with
      | none => backlogLoop env chain maxBacklogWeight rest st
      | some r =>
        if !r.ready || haveKeyImages st.kImages r.tx.vin then
          backlogLoop env chain maxBacklogWeight rest { st with pool := r.pool }
        else
          let next : BacklogState := ⟨r.pool, st.backlog ++ [e], wrap (st.weight + e.weight),
            appendKeyImages st.kImages r.tx.vin⟩
          if next.weight > maxBacklogWeight then next
          else backlogLoop env chain maxBacklogWeight rest next

def getBlockTemplateBacklog (env : PoolEnv) (chain : ChainView) (includeSensitive : Bool) :
    BacklogState :=
  backlogLoop env chain
    (wrap (chain.cumulativeWeightMedian + chain.cumulativeWeightMedian / 8))
    (pool.backlogOrder chain includeSensitive) ⟨pool, [], 0, ∅⟩

end Pool
variable {blob : Blob} {r : Readiness}

def Pool.txOf (pool : Pool) (env : PoolEnv) (id : Hash) : Option Transaction :=
  (pool.getBlob id).bind env.parseTx

def Pool.CachedReady (pool : Pool) (id : Hash) : Prop :=
  ∃ cached, pool.inputCache.find? id = some cached ∧ cached.ok = true

def Pool.Conflict (pool : Pool) (env : PoolEnv) (i j : Hash) : Prop :=
  ∃ tx ty, pool.txOf env i = some tx ∧ pool.txOf env j = some ty ∧
    ∃ k ∈ keyImages tx.vin, k ∈ keyImages ty.vin

def Pool.ConflictFree (pool : Pool) (env : PoolEnv) (placed : List Hash) : Prop :=
  placed.Pairwise (fun i j => ¬ pool.Conflict env i j)

def Pool.NoCachedConflict (pool : Pool) (env : PoolEnv) : Prop :=
  ∀ i j, i ≠ j → pool.Conflict env i j → ¬ pool.CachedReady i

structure Pool.SpendsDistinct (pool : Pool) (env : PoolEnv) : Prop where
  stored : ∀ id blob, pool.getBlob id = some blob →
    ∃ tx, env.parseTx blob = some tx ∧ AllToKey tx.vin ∧ (keyImages tx.vin).Nodup

variable {env : PoolEnv} {pool : Pool}

theorem Pool.Conflict.symm {i j : Hash} (h : pool.Conflict env i j) :
    pool.Conflict env j i := by
  obtain ⟨tx, ty, hx, hy, k, hkx, hky⟩ := h
  exact ⟨ty, tx, hy, hx, k, hky, hkx⟩

structure ReadyStep (env : PoolEnv) (pool : Pool) (id : Hash) (blob : Blob) (r : Readiness) :
    Prop where
  db : r.pool.db = pool.db
  sorted : r.pool.txsByFeeAndReceiveTime = pool.txsByFeeAndReceiveTime
  cache : ∀ j, j ≠ id → r.pool.inputCache.find? j = pool.inputCache.find? j
  tx : r.ready = true →
    (pool.CachedReady id ∧ r.tx = .empty) ∨ env.parseTx blob = some r.tx

variable {chain : ChainView} {id : Hash}

theorem isTransactionReadyToGo_step
    {txMeta : TxMeta} (h : pool.isTransactionReadyToGo env chain txMeta id blob = some r) :
    ReadyStep env pool id blob r := by
  simp only [isTransactionReadyToGo] at h
  split at h
  · obtain rfl := some.inj h
    exact ⟨rfl, rfl, fun _ _ => rfl, fun hready => by cases hready⟩
  · cases hcache : pool.inputCache.find? id with
    | some cached =>
      simp only [hcache, map_some, some.injEq] at h
      split at h
      · rename_i hok
        subst h
        exact ⟨rfl, rfl, fun _ _ => rfl, fun _ => .inl ⟨⟨cached, hcache, hok⟩, rfl⟩⟩
      · subst h
        exact ⟨rfl, rfl, fun _ _ => rfl, fun hready => by cases hready⟩
    | none =>
      cases hparse : env.parseTx blob with
      | none => simp [hcache, hparse] at h
      | some tx =>
        simp only [hcache, hparse, map_some, some.injEq, checkTxInputs,
          Bool.false_eq_true, if_false] at h
        split at h
        · subst h
          refine ⟨rfl, rfl, ?_, fun _ => .inr hparse⟩
          intro j hj
          rw [find?_insert, if_neg hj]
        · subst h
          refine ⟨rfl, rfl, ?_, fun hready => by cases hready⟩
          intro j hj
          rw [find?_insert, if_neg hj]

theorem getBlob_updateTxpoolTx (pool : Pool) (id : Hash) (txMeta : TxMeta) (j : Hash) :
    (pool.updateTxpoolTx id txMeta).getBlob j = pool.getBlob j := by
  unfold updateTxpoolTx
  cases hfind : pool.db.find? id with
  | none => rfl
  | some entry =>
    simp only [getBlob]
    rw [find?_insert]
    split
    · rename_i hj
      rw [hj, hfind]
      rfl
    · rfl

theorem Pool.find?_updateTxpoolTx_of_ne (pool : Pool) {j : Hash} (txMeta : TxMeta) (h : j ≠ id) :
    (pool.updateTxpoolTx id txMeta).db.find? j = pool.db.find? j := by
  unfold updateTxpoolTx
  cases pool.db.find? id with
  | none => rfl
  | some entry => exact (find?_insert _ _ _ _).trans (if_neg h)

theorem inputCache_updateTxpoolTx (pool : Pool) (id : Hash) (txMeta : TxMeta) :
    (pool.updateTxpoolTx id txMeta).inputCache = pool.inputCache := by
  unfold updateTxpoolTx
  split <;> rfl

structure Selecting (env : PoolEnv) (start pool : Pool) (kImages : Finset KeyImage)
    (placed remaining : List Hash) : Prop where
  blobs : ∀ id, pool.getBlob id = start.getBlob id
  cache : ∀ id ∈ remaining, pool.inputCache.find? id = start.inputCache.find? id
  apart : ∀ id ∈ placed, id ∉ remaining
  known : ∀ id ∈ placed, ∃ tx, start.txOf env id = some tx ∧
    ((∀ k ∈ keyImages tx.vin, k ∈ kImages) ∨ start.CachedReady id)
  free : start.ConflictFree env placed

namespace Selecting
variable {env : PoolEnv} {start pool next : Pool} {kImages : Finset KeyImage}
variable {placed remaining : List Hash} {id : Hash}

theorem initial (env : PoolEnv) (pool : Pool) (remaining : List Hash) :
    Selecting env pool pool ∅ [] remaining :=
  ⟨fun _ => rfl, fun _ _ => rfl, by simp, by simp, List.Pairwise.nil⟩

variable (h : Selecting env start pool kImages placed (id :: remaining)) (hid : id ∉ remaining)
include h hid
section
variable (hblobs : ∀ j, next.getBlob j = pool.getBlob j)
  (hcache : ∀ j, j ≠ id → next.inputCache.find? j = pool.inputCache.find? j)
include hblobs hcache

theorem skip : Selecting env start next kImages placed remaining := by
  refine ⟨fun j => (hblobs j).trans (h.blobs j), ?_, ?_, h.known, h.free⟩
  · intro j hj
    have hne : j ≠ id := by
      rintro rfl
      exact hid hj
    exact (hcache j hne).trans (h.cache j (mem_cons_of_mem _ hj))
  · intro j hj hmem
    exact h.apart j hj (mem_cons_of_mem _ hmem)

theorem place {tx : Transaction} (htx : start.txOf env id = some tx) {images : Finset KeyImage}
    (hgrow : ∀ k ∈ kImages, k ∈ images)
    (hknown : (∀ k ∈ keyImages tx.vin, k ∈ images) ∨ start.CachedReady id)
    (hnew : ∀ j ∈ placed, ¬ start.Conflict env j id) :
    Selecting env start next images (placed ++ [id]) remaining := by
  have hskip := h.skip hid hblobs hcache
  refine ⟨hskip.blobs, hskip.cache, ?_, ?_, ?_⟩
  · intro j hj
    rcases mem_append.mp hj with hold | hlast
    · exact hskip.apart j hold
    · rw [mem_singleton.mp hlast]
      exact hid
  · intro j hj
    rcases mem_append.mp hj with hold | hlast
    · obtain ⟨ty, hty, hseen⟩ := h.known j hold
      exact ⟨ty, hty, hseen.imp_left (fun himages k hk => hgrow k (himages k hk))⟩
    · rw [mem_singleton.mp hlast]
      exact ⟨tx, htx, hknown⟩
  · refine pairwise_append.mpr ⟨h.free, pairwise_singleton _ _, ?_⟩
    intro j hj i hi
    rw [mem_singleton.mp hi]
    exact hnew j hj

end

theorem take (hspends : start.SpendsDistinct env) (hcond : start.NoCachedConflict env)
    (hblob : pool.getBlob id = some blob) (hr : ReadyStep env pool id blob r)
    (hready : r.ready = true) (hfresh : haveKeyImages kImages r.tx.vin = false)
    (hblobs : ∀ j, next.getBlob j = r.pool.getBlob j)
    (hcache : next.inputCache = r.pool.inputCache) :
    Selecting env start next (appendKeyImages kImages r.tx.vin) (placed ++ [id]) remaining := by
  have hne : ∀ j ∈ placed, j ≠ id := by
    rintro j hj rfl
    exact h.apart j hj mem_cons_self
  have hstart : start.getBlob id = some blob := (h.blobs id).symm.trans hblob
  obtain ⟨tx, hparse, hkeys, hnodup⟩ := hspends.stored id blob hstart
  have htx : start.txOf env id = some tx := by
    rw [txOf, hstart]
    exact hparse
  have hblobs' : ∀ j, next.getBlob j = pool.getBlob j := by
    intro j
    rw [hblobs, getBlob, hr.db]
    rfl
  have hcache' : ∀ j, j ≠ id → next.inputCache.find? j = pool.inputCache.find? j := by
    intro j hj
    rw [hcache]
    exact hr.cache j hj
  rcases hr.tx hready with ⟨hcached, hempty⟩ | hparsed
  · have hstartCached : start.CachedReady id := by
      obtain ⟨cached, hfind, hok⟩ := hcached
      exact ⟨cached, (h.cache id mem_cons_self).symm.trans hfind, hok⟩
    rw [hempty]
    refine h.place hid hblobs' hcache' htx (fun k hk => hk) (.inr hstartCached) ?_
    intro j hj hconflict
    exact hcond id j (hne j hj).symm hconflict.symm hstartCached
  · obtain rfl : tx = r.tx := some.inj (hparse.symm.trans hparsed)
    have hnot := (haveKeyImages_eq_false hkeys kImages).mp hfresh
    have hmem := mem_appendKeyImages hkeys hnodup kImages hnot
    refine h.place hid hblobs' hcache' htx (fun k hk => (hmem k).mpr (.inl hk))
      (.inl (fun k hk => (hmem k).mpr (.inr hk))) ?_
    intro j hj hconflict
    obtain ⟨ty, hty, hseen | hcached⟩ := h.known j hj
    · obtain ⟨tx₁, tx₂, h₁, h₂, k, hk₁, hk₂⟩ := hconflict
      obtain rfl : tx₁ = ty := some.inj (h₁.symm.trans hty)
      obtain rfl : tx₂ = r.tx := some.inj (h₂.symm.trans htx)
      exact hnot k hk₂ (hseen k hk₁)
    · exact hcond j id (hne j hj) hconflict hcached

end Selecting
variable {env : PoolEnv} {chain : ChainView} {start : Pool}

inductive FillOutcome (env : PoolEnv) (st : FillState) (id : Hash) : FillState → Prop where
  | same : FillOutcome env st id st
  | checked (blob : Blob) (r : Readiness) (pool : Pool) :
      st.pool.getBlob id = some blob → ReadyStep env st.pool id blob r →
      (∀ j, pool.getBlob j = r.pool.getBlob j) → pool.inputCache = r.pool.inputCache →
      FillOutcome env st id { st with pool := pool }
  | placed (blob : Blob) (r : Readiness) (pool : Pool) (totalWeight fee bestCoinbase : Nat) :
      st.pool.getBlob id = some blob → ReadyStep env st.pool id blob r →
      (∀ j, pool.getBlob j = r.pool.getBlob j) → pool.inputCache = r.pool.inputCache →
      r.ready = true → haveKeyImages st.kImages r.tx.vin = false →
      FillOutcome env st id ⟨pool, st.txHashes ++ [id], totalWeight, fee, bestCoinbase,
        appendKeyImages st.kImages r.tx.vin⟩

theorem fillStep_cases (env : PoolEnv) (chain : ChainView) (p : FillParams) (st : FillState)
    (id : Hash) {motive : FillState → Prop} (same : motive st)
    (answered : ∀ entry coinbase r, st.pool.db.find? id = some entry →
      Pool.weighTx p st entry.txMeta = .take coinbase →
      st.pool.isTransactionReadyToGo env chain entry.txMeta id entry.blob = some r →
      ∀ pool, pool = (if r.txMeta ≠ entry.txMeta then r.pool.updateTxpoolTx id r.txMeta
        else r.pool) → motive { st with pool := pool } ∧
      (r.ready = true → haveKeyImages st.kImages r.tx.vin = false →
        motive ⟨pool, st.txHashes ++ [id], wrap (st.totalWeight + r.txMeta.weight),
          wrap (st.fee + r.txMeta.fee), coinbase, appendKeyImages st.kImages r.tx.vin⟩)) :
    motive (fillStep env chain p st id).2 := by
  unfold fillStep
  split
  · exact same
  rename_i entry hfind
  split
  · exact same
  · exact same
  rename_i coinbase hweigh
  split
  · exact same
  rename_i r hready
  obtain ⟨hchecked, hplaced⟩ := answered entry coinbase r hfind hweigh hready _ rfl
  simp only
  split
  · exact hchecked
  rename_i hrejected
  split
  · exact hchecked
  · rename_i hfresh
    exact hplaced (not_rejected hrejected) (Bool.eq_false_iff.mpr hfresh)

theorem fillLoop_induct {p : FillParams} {motive : List Hash → FillState → Prop}
    (stop : ∀ ids st, motive ids st → motive [] st)
    (step : ∀ id ids st, motive (id :: ids) st → motive ids (Pool.fillStep env chain p st id).2)
    (ids : List Hash) (st : FillState) (h : motive ids st) :
    motive [] (Pool.fillLoop env chain p ids st) := by
  induction ids generalizing st with
  | nil => exact h
  | cons id ids ih =>
    have hstep := step id ids st h
    simp only [fillLoop]
    split
    · rename_i next heq
      rw [heq] at hstep
      exact stop ids next hstep
    · rename_i next heq
      rw [heq] at hstep
      exact ih next hstep

theorem backlogLoop_induct {maxWeight : Nat} {motive : List BacklogEntry → BacklogState → Prop}
    (stop : ∀ entries st, motive entries st → motive [] st)
    (same : ∀ e entries st, motive (e :: entries) st → motive entries st)
    (answered : ∀ e entries st entry r, motive (e :: entries) st →
      st.pool.db.find? e.id = some entry →
      st.pool.isTransactionReadyToGo env chain entry.txMeta e.id entry.blob = some r →
      motive entries { st with pool := r.pool } ∧
      (r.ready = true → haveKeyImages st.kImages r.tx.vin = false →
        motive entries ⟨r.pool, st.backlog ++ [e], wrap (st.weight + e.weight),
          appendKeyImages st.kImages r.tx.vin⟩))
    (entries : List BacklogEntry) (st : BacklogState) (h : motive entries st) :
    motive [] (backlogLoop env chain maxWeight entries st) := by
  induction entries generalizing st with
  | nil => exact h
  | cons e entries ih =>
    unfold backlogLoop
    split
    · exact ih st (same e entries st h)
    rename_i entry hfind
    split
    · exact ih st (same e entries st h)
    rename_i r hready
    obtain ⟨hchecked, hplaced⟩ := answered e entries st entry r h hfind hready
    split
    · exact ih _ hchecked
    rename_i hnot
    simp only [Bool.or_eq_true, Bool.not_eq_true', not_or, Bool.not_eq_false,
      Bool.not_eq_true] at hnot
    have hnext := hplaced hnot.1 hnot.2
    simp only
    split
    · exact stop entries _ hnext
    · exact ih _ hnext

theorem fillStep_outcome (env : PoolEnv) (chain : ChainView) (p : FillParams) (st : FillState)
    (id : Hash) :
    FillOutcome env st id (Pool.fillStep env chain p st id).2 := by
  refine fillStep_cases env chain p st id .same ?_
  intro entry coinbase r hfind _ hready pool hpool
  have hblob : st.pool.getBlob id = some entry.blob := by rw [getBlob, hfind]; rfl
  have hstep := isTransactionReadyToGo_step hready
  have hsame : (∀ j, pool.getBlob j = r.pool.getBlob j) ∧ pool.inputCache = r.pool.inputCache := by
    rw [hpool]
    split
    · exact ⟨getBlob_updateTxpoolTx _ _ _, inputCache_updateTxpoolTx _ _ _⟩
    · exact ⟨fun _ => rfl, rfl⟩
  exact ⟨.checked entry.blob r pool hblob hstep hsame.1 hsame.2,
    .placed entry.blob r pool _ _ _ hblob hstep hsame.1 hsame.2⟩

theorem ReadyStep.getBlob (h : ReadyStep env pool id blob r) (j : Hash) :
    r.pool.getBlob j = pool.getBlob j := by
  rw [Pool.getBlob, h.db]
  rfl

variable (hspends : start.SpendsDistinct env) (hcond : start.NoCachedConflict env)
include hspends hcond

theorem fillLoop_selecting (p : FillParams) (ids : List Hash) (hids : ids.Nodup) (st : FillState)
    (h : Selecting env start st.pool st.kImages st.txHashes ids) :
    start.ConflictFree env (Pool.fillLoop env chain p ids st).txHashes := by
  refine (fillLoop_induct (motive := fun ids st => ids.Nodup ∧
    Selecting env start st.pool st.kImages st.txHashes ids) ?_ ?_ ids st ⟨hids, h⟩).2.free
  · rintro ids st ⟨-, h⟩
    exact ⟨.nil, h.blobs, by simp, by simp, h.known, h.free⟩
  · rintro id ids st ⟨hids, h⟩
    obtain ⟨hid, hrest⟩ := nodup_cons.mp hids
    refine ⟨hrest, ?_⟩
    have houtcome := fillStep_outcome env chain p st id
    generalize (Pool.fillStep env chain p st id).2 = next at houtcome ⊢
    cases houtcome with
    | same => exact h.skip hid (fun _ => rfl) (fun _ _ => rfl)
    | checked blob r pool hblob hstep hblobs hcache =>
      refine h.skip hid (fun j => (hblobs j).trans (hstep.getBlob j)) ?_
      intro j hj
      simp only [hcache]
      exact hstep.cache j hj
    | placed blob r pool totalWeight fee bestCoinbase hblob hstep hblobs hcache hready hfresh =>
      exact h.take hid hspends hcond hblob hstep hready hfresh hblobs hcache

theorem backlogLoop_selecting (maxWeight : Nat) (entries : List BacklogEntry)
    (hids : (entries.map BacklogEntry.id).Nodup) (st : BacklogState)
    (h : Selecting env start st.pool st.kImages (st.backlog.map BacklogEntry.id)
      (entries.map BacklogEntry.id)) :
    start.ConflictFree env
      ((Pool.backlogLoop env chain maxWeight entries st).backlog.map BacklogEntry.id) := by
  refine (backlogLoop_induct (motive := fun entries st => (entries.map BacklogEntry.id).Nodup ∧
    Selecting env start st.pool st.kImages (st.backlog.map BacklogEntry.id)
      (entries.map BacklogEntry.id)) ?_ ?_ ?_ entries st ⟨hids, h⟩).2.free
  · rintro entries st ⟨-, h⟩
    exact ⟨.nil, h.blobs, by simp, by simp, h.known, h.free⟩
  · rintro e entries st ⟨hids, h⟩
    obtain ⟨hid, hrest⟩ := nodup_cons.mp hids
    exact ⟨hrest, h.skip hid (fun _ => rfl) (fun _ _ => rfl)⟩
  · rintro e entries st entry r ⟨hids, h⟩ hfind hready
    obtain ⟨hid, hrest⟩ := nodup_cons.mp hids
    have hblob : st.pool.getBlob e.id = some entry.blob := by rw [getBlob, hfind]; rfl
    have hstep := isTransactionReadyToGo_step hready
    refine ⟨⟨hrest, h.skip hid hstep.getBlob hstep.cache⟩, fun hok hfresh => ⟨hrest, ?_⟩⟩
    rw [map_append]
    exact h.take hid hspends hcond hblob hstep hok hfresh (fun _ => rfl) rfl

end Jero.TxPool
