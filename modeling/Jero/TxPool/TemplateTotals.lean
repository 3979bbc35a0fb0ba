import Jero.Chain.RewardWords
import Jero.TxPool.DoubleSpend

namespace Jero.TxPool
open Jero.Machine Jero.Tx Jero.Chain List Option Pool Node
variable {pool : Pool} {blob : Blob} {r : Readiness} {txMeta : TxMeta}

theorem wrap_wrap_add (a b : Nat) : wrap (wrap a + b) = wrap (a + b) := Nat.mod_add_mod a (2 ^ 64) b

theorem wrap_add_wrap_add (a b c : Nat) : wrap (a + wrap b + c) = wrap (a + (b + c)) := by
  simp only [wrap]
  omega

namespace Pool

def weightOf (pool : Pool) (id : Hash) : Nat := ((pool.getMeta id).map TxMeta.weight).getD 0

def feeOf (pool : Pool) (id : Hash) : Nat := ((pool.getMeta id).map TxMeta.fee).getD 0

structure Eligible (env : PoolEnv) (chain : ChainView) (pool : Pool) (id : Hash) (entry : PoolEntry)
    (r : Readiness) : Prop where
  stored : pool.db.find? id = some entry
  unpruned : entry.txMeta.pruned = false
  answered : pool.isTransactionReadyToGo env chain entry.txMeta id entry.blob = some r
  ready : r.ready = true

structure TouchesOnly (pool next : Pool) (id : Hash) : Prop where
  db : ∀ j, j ≠ id → next.db.find? j = pool.db.find? j
  cache : ∀ j, j ≠ id → next.inputCache.find? j = pool.inputCache.find? j

theorem touchesOnly_update {env : PoolEnv} {id : Hash} (h : ReadyStep env pool id blob r)
    (old : TxMeta) :
    pool.TouchesOnly (if r.txMeta ≠ old then r.pool.updateTxpoolTx id r.txMeta else r.pool) id := by
  refine ⟨fun j hj => ?_, fun j hj => ?_⟩
  · split
    · rw [find?_updateTxpoolTx_of_ne _ _ hj, h.db]
    · rw [h.db]
  · split
    · rw [inputCache_updateTxpoolTx]
      exact h.cache j hj
    · exact h.cache j hj

variable {env : PoolEnv} {chain : ChainView} {id : Hash}
  (h : pool.isTransactionReadyToGo env chain txMeta id blob = some r)
include h

theorem ready_keeps : r.txMeta.weight = txMeta.weight ∧ r.txMeta.fee = txMeta.fee := by
  simp only [isTransactionReadyToGo] at h
  split at h
  · obtain rfl := some.inj h
    exact ⟨rfl, rfl⟩
  · obtain ⟨⟨result, verificationId, tx, checked⟩, -, hr⟩ := map_eq_some_iff.mp h
    subst hr
    split <;> exact ⟨rfl, rfl⟩

theorem ready_agrees {start : Pool}
    (hcache : pool.inputCache.find? id = start.inputCache.find? id) :
    ∃ r', start.isTransactionReadyToGo env chain txMeta id blob = some r' ∧ r'.ready = r.ready := by
  simp only [isTransactionReadyToGo] at h ⊢
  split at h
  · rename_i hfailed
    obtain rfl := some.inj h
    exact ⟨_, if_pos hfailed, rfl⟩
  · rename_i hfailed
    rw [if_neg hfailed, ← hcache]
    cases hfind : pool.inputCache.find? id with
    | some cached =>
      rw [hfind] at h
      obtain rfl := some.inj h
      refine ⟨_, rfl, ?_⟩
      dsimp only
      split <;> rfl
    | none =>
      rw [hfind] at h
      cases hparse : env.parseTx blob with
      | none =>
        rw [hparse] at h
        cases h
      | some tx =>
        rw [hparse] at h
        simp only [map_some, checkTxInputs, hfind, ← hcache] at h ⊢
        obtain rfl := some.inj h
        refine ⟨_, rfl, ?_⟩
        simp only [Bool.false_eq_true, if_false]
        split <;> rfl

end Pool

inductive FillEffect (env : PoolEnv) (chain : ChainView) (p : FillParams) (st : FillState)
    (id : Hash) : FillState → Prop where
  | kept (pool : Pool) : st.pool.TouchesOnly pool id →
      FillEffect env chain p st id { st with pool := pool }
  | placed (entry : PoolEntry) (r : Readiness) (coinbase : Nat) (pool : Pool) :
      st.pool.db.find? id = some entry → Pool.weighTx p st entry.txMeta = .take coinbase →
      st.pool.isTransactionReadyToGo env chain entry.txMeta id entry.blob = some r →
      r.ready = true → st.pool.TouchesOnly pool id →
      FillEffect env chain p st id ⟨pool, st.txHashes ++ [id],
        wrap (st.totalWeight + entry.txMeta.weight), wrap (st.fee + entry.txMeta.fee), coinbase,
        appendKeyImages st.kImages r.tx.vin⟩

theorem fillStep_effect (env : PoolEnv) (chain : ChainView) (p : FillParams) (st : FillState)
    (id : Hash) : FillEffect env chain p st id (Pool.fillStep env chain p st id).2 := by
  refine fillStep_cases env chain p st id (.kept st.pool ⟨fun _ _ => rfl, fun _ _ => rfl⟩) ?_
  rintro entry coinbase r hfind hweigh hready pool rfl
  have htouch := touchesOnly_update (isTransactionReadyToGo_step hready) entry.txMeta
  obtain ⟨hweight, hfee⟩ := ready_keeps hready
  rw [hweight, hfee]
  exact ⟨.kept _ htouch, fun hok _ => .placed entry r coinbase _ hfind hweigh hready hok htouch⟩

structure TakenFromV5 (p : FillParams) (st : FillState) (txMeta : TxMeta) (coinbase : Nat) :
    Prop where
  unpruned : txMeta.pruned = false
  fits : wrap (st.totalWeight + txMeta.weight) ≤ p.maxTotalWeight
  rewarded : ∃ reward, getBlockReward p.medianWeight (wrap (st.totalWeight + txMeta.weight))
    p.alreadyGeneratedCoins p.version = some reward ∧ coinbase = wrap (reward + st.fee + txMeta.fee)

theorem past_skip {c : Prop} [Decidable c] {v : Verdict} {coinbase : Nat}
    (h : (if c then Verdict.skip else v) = .take coinbase) : ¬ c ∧ v = .take coinbase := by
  split at h
  · cases h
  · exact ⟨‹_›, h⟩

theorem weighTx_take {p : FillParams} {st : FillState} {coinbase : Nat} (hversion : 5 ≤ p.version)
    (h : Pool.weighTx p st txMeta = .take coinbase) :
    TakenFromV5 p st txMeta coinbase := by
  obtain ⟨-, h⟩ := past_skip h
  obtain ⟨hpruned, h⟩ := past_skip h
  obtain ⟨hfits, h⟩ := past_skip h
  rw [if_pos hversion] at h
  cases hreward : getBlockReward p.medianWeight (wrap (st.totalWeight + txMeta.weight))
      p.alreadyGeneratedCoins p.version with
  | none =>
    rw [hreward] at h
    cases h
  | some reward =>
    rw [hreward] at h
    obtain ⟨-, h⟩ := past_skip h
    exact ⟨by simpa using hpruned, not_lt.mp hfits, reward, hreward, (Verdict.take.inj h).symm⟩

structure Totalled (env : PoolEnv) (chain : ChainView) (p : FillParams) (start : Pool)
    (st : FillState) (remaining : List Hash) : Prop where
  entries : ∀ id ∈ remaining, st.pool.db.find? id = start.db.find? id
  cache : ∀ id ∈ remaining, st.pool.inputCache.find? id = start.inputCache.find? id
  weight : st.totalWeight = (st.txHashes.map start.weightOf).sum
  bound : st.totalWeight ≤ p.maxTotalWeight
  fee : st.fee = wrap (st.txHashes.map start.feeOf).sum
  reward : ∃ reward, getBlockReward p.medianWeight st.totalWeight p.alreadyGeneratedCoins
    p.version = some reward ∧ st.bestCoinbase = wrap (reward + (st.txHashes.map start.feeOf).sum)
  eligible : ∀ id ∈ st.txHashes, ∃ entry r, Pool.Eligible env chain start id entry r

namespace Totalled
variable {env : PoolEnv} {chain : ChainView} {p : FillParams} {start : Pool}
variable {st next : FillState} {id : Hash} {remaining : List Hash}

theorem advance (h : Totalled env chain p start st (id :: remaining)) (hid : id ∉ remaining)
    (htouch : st.pool.TouchesOnly pool id) :
    (∀ j ∈ remaining, pool.db.find? j = start.db.find? j) ∧
      ∀ j ∈ remaining, pool.inputCache.find? j = start.inputCache.find? j := by
  have hne : ∀ j ∈ remaining, j ≠ id := by
    rintro j hj rfl
    exact hid hj
  exact ⟨fun j hj => (htouch.db j (hne j hj)).trans (h.entries j (mem_cons_of_mem _ hj)),
    fun j hj => (htouch.cache j (hne j hj)).trans (h.cache j (mem_cons_of_mem _ hj))⟩

theorem step (hversion : 5 ≤ p.version)
    (hweights : ∀ id, start.weightOf id + p.maxTotalWeight < 2 ^ 64) (hid : id ∉ remaining)
    (h : Totalled env chain p start st (id :: remaining))
    (heffect : FillEffect env chain p st id next) :
    Totalled env chain p start next remaining := by
  cases heffect with
  | kept pool htouch =>
    obtain ⟨hentries, hcache⟩ := h.advance hid htouch
    exact ⟨hentries, hcache, h.weight, h.bound, h.fee, h.reward, h.eligible⟩
  | placed entry r coinbase pool hfind hweigh hanswer hready htouch =>
    obtain ⟨hentries, hcache⟩ := h.advance hid htouch
    have hstored : start.db.find? id = some entry :=
      (h.entries id mem_cons_self).symm.trans hfind
    have hmeta : start.getMeta id = some entry.txMeta := by
      rw [getMeta, hstored]
      rfl
    have hweightOf : start.weightOf id = entry.txMeta.weight := by
      rw [weightOf, hmeta]
      rfl
    have hfeeOf : start.feeOf id = entry.txMeta.fee := by
      rw [feeOf, hmeta]
      rfl
    have hsum (f : Hash → Nat) :
        ((st.txHashes ++ [id]).map f).sum = (st.txHashes.map f).sum + f id := by simp
    obtain ⟨hpruned, hfits, reward, hreward, hcoinbase⟩ := weighTx_take hversion hweigh
    obtain ⟨r', hanswer', hready'⟩ := ready_agrees hanswer (h.cache id mem_cons_self)
    refine ⟨hentries, hcache, ?_, hfits, ?_, ⟨reward, hreward, ?_⟩, ?_⟩
    · have hlight := hweights id
      have hbound := h.bound
      rw [hsum, ← h.weight, ← hweightOf, wrap_of_lt (by omega)]
    · rw [h.fee, wrap_wrap_add, hsum, hfeeOf]
    · rw [hcoinbase, h.fee, wrap_add_wrap_add, hsum, hfeeOf]
    · intro j hj
      rcases mem_append.mp hj with hold | hlast
      · exact h.eligible j hold
      · rw [mem_singleton.mp hlast]
        exact ⟨entry, r', hstored, hpruned, hanswer', hready'.trans hready⟩

theorem run (hversion : 5 ≤ p.version)
    (hweights : ∀ id, start.weightOf id + p.maxTotalWeight < 2 ^ 64) (ids : List Hash)
    (hids : ids.Nodup) (h : Totalled env chain p start st ids) :
    Totalled env chain p start (Pool.fillLoop env chain p ids st) [] := by
  refine (fillLoop_induct (motive := fun ids st => ids.Nodup ∧ Totalled env chain p start st ids)
    ?_ ?_ ids st ⟨hids, h⟩).2
  · rintro ids st ⟨-, h⟩
    exact ⟨.nil, by simp, by simp, h.weight, h.bound, h.fee, h.reward, h.eligible⟩
  · rintro id ids st ⟨hids, h⟩
    obtain ⟨hid, hrest⟩ := nodup_cons.mp hids
    exact ⟨hrest, h.step hversion hweights hid (fillStep_effect env chain p st id)⟩

end Totalled

theorem template_totals (env : PoolEnv) (chain : ChainView) (pool : Pool) (p : FillParams)
    (hversion : 5 ≤ p.version) (hmedian : getMinBlockWeight p.version ≤ p.medianWeight)
    (hweights : ∀ id, pool.weightOf id + 2 * p.medianWeight < 2 ^ 64)
    (st : FillState) (hfill : pool.fillBlockTemplate env chain p = some st)
    (hfees : baseReward p.alreadyGeneratedCoins p.version + (st.txHashes.map pool.feeOf).sum <
      2 ^ 64) :
    st.totalWeight = (st.txHashes.map pool.weightOf).sum ∧
      st.totalWeight ≤ 2 * p.medianWeight - coinbaseBlobReservedSize ∧
      st.fee = (st.txHashes.map pool.feeOf).sum ∧
      (∀ id ∈ st.txHashes, ∃ entry r, Pool.Eligible env chain pool id entry r) ∧
      ∃ reward, getBlockReward p.medianWeight st.totalWeight p.alreadyGeneratedCoins p.version =
        some reward ∧ st.bestCoinbase = reward + st.fee := by
  obtain ⟨best, hbest, rfl⟩ := map_eq_some_iff.mp hfill
  have hword : best < 2 ^ 64 := (getBlockReward_le hbest).trans_lt (baseReward_lt _ _)
  have hstart : Totalled env chain p pool ⟨pool, [], 0, 0, best, ∅⟩
      pool.txsByFeeAndReceiveTime.ids :=
    ⟨fun _ _ => rfl, fun _ _ => rfl, rfl, Nat.zero_le _, rfl,
      ⟨best, hbest, (wrap_of_lt hword).symm⟩, by simp⟩
  have hreserved : coinbaseBlobReservedSize ≤ p.medianWeight := by
    refine le_trans ?_ hmedian
    rw [getMinBlockWeight, if_neg (by omega), if_neg (by omega)]
    decide
  have hmax : p.maxTotalWeight = 2 * p.medianWeight - coinbaseBlobReservedSize := by
    have hdouble : 2 * p.medianWeight < 2 ^ 64 := (Nat.le_add_left _ _).trans_lt (hweights 0)
    rw [FillParams.maxTotalWeight, if_pos hversion, wrap_of_lt hdouble,
      wsub_of_le (by omega) hdouble]
  have hlight : ∀ id, pool.weightOf id + p.maxTotalWeight < 2 ^ 64 := fun id =>
    (Nat.add_le_add_left (hmax.trans_le (Nat.sub_le _ _)) _).trans_lt (hweights id)
  have hrun := hstart.run hversion hlight pool.txsByFeeAndReceiveTime.ids
    pool.txsByFeeAndReceiveTime.nodup
  obtain ⟨reward, hreward, hcoinbase⟩ := hrun.reward
  have hfee := hrun.fee.trans (wrap_of_lt (lt_of_le_of_lt (Nat.le_add_left _ _) hfees))
  refine ⟨hrun.weight, hrun.bound.trans_eq hmax, hfee, hrun.eligible, reward, hreward, ?_⟩
  rw [hcoinbase, hfee]
  exact wrap_of_lt (lt_of_le_of_lt (Nat.add_le_add_right (getBlockReward_le hreward) _) hfees)

def spendingPool : Pool :=
  ([Op.add (spendingArgs 2 .fluff) .initial, .add (spendingArgs 1 .fluff) .initial].foldl
    (Node.step spendingEnv) ⟨.empty 1000000 false, sampleChain 5⟩).pool

theorem weightOf_spendingPool (id : Hash) : spendingPool.weightOf id ≤ 1500 := by
  have hweights : ∀ e ∈ spendingPool.db.entries, e.2.txMeta.weight = 1500 := by decide +kernel
  rw [weightOf, getMeta]
  cases hfind : spendingPool.db.find? id with
  | none => exact Nat.zero_le _
  | some e => exact (hweights (id, e) ((spendingPool.db.mem_entries_iff (id, e)).mpr hfind)).le

theorem two_tx_template_totals :
    ∃ st, spendingPool.fillBlockTemplate spendingEnv (sampleChain 5)
        ⟨300000, 2 ^ 63, 16, false⟩ = some st ∧
      st.txHashes = [2, 1] ∧ st.totalWeight = 3000 ∧ st.fee = 3 ∧
      ∃ reward, getBlockReward 300000 st.totalWeight (2 ^ 63) 16 = some reward ∧
        st.bestCoinbase = reward + st.fee := by
  have hids : (spendingPool.fillBlockTemplate spendingEnv (sampleChain 5)
      ⟨300000, 2 ^ 63, 16, false⟩).map FillState.txHashes = some [2, 1] := by decide +kernel
  obtain ⟨st, hfill, htxs⟩ := map_eq_some_iff.mp hids
  have hweight : (st.txHashes.map spendingPool.weightOf).sum = 3000 := by
    rw [htxs]
    decide +kernel
  have hfee : (st.txHashes.map spendingPool.feeOf).sum = 3 := by
    rw [htxs]
    decide +kernel
  obtain ⟨htotal, -, hfees, -, hreward⟩ := template_totals spendingEnv (sampleChain 5)
    spendingPool ⟨300000, 2 ^ 63, 16, false⟩ (by decide) (by decide)
    (fun id => (Nat.add_le_add_right (weightOf_spendingPool id) _).trans_lt (by decide)) st hfill
    (by rw [hfee]; decide)
  exact ⟨st, hfill, htxs, htotal.trans hweight, hfees.trans hfee, hreward⟩

end Jero.TxPool
