import Jero.TxPool.Template

namespace Jero.TxPool
open Jero.Lists Jero.Tx List Pool
variable {motive : Pool → Prop} {txRelay : RelayMethod} {vin : List TxIn}
namespace Pool
variable {p q r : Pool}

def StoredFrom (p q : Pool) : Prop :=
  ∀ id blob, q.getBlob id = some blob → p.getBlob id = some blob

theorem StoredFrom.trans (hpq : StoredFrom p q) (hqr : StoredFrom q r) : StoredFrom p r :=
  fun id blob h => hpq id blob (hqr id blob h)

theorem StoredFrom.of_db (h : q.db = p.db) : StoredFrom p q := by
  intro id blob hblob
  rw [getBlob, h] at hblob
  exact hblob

variable (p : Pool)

theorem storedFrom_removeTxpoolTx (id : Hash) : StoredFrom p (p.removeTxpoolTx id) := by
  intro j blob h
  simp only [getBlob, removeTxpoolTx] at h ⊢
  rw [SortedMap.find?_erase] at h
  split at h
  · cases h
  · exact h

theorem db_trackRemovedTx (now : Nat) (id : Hash) (sensitive : Bool) :
    (p.trackRemovedTx now id sensitive).db = p.db := by
  simp only [trackRemovedTx]
  split
  · rfl
  · split <;> rfl

theorem db_removeTxFromTransientLists (now : Nat) (id : Hash) (sensitive : Bool) :
    (p.removeTxFromTransientLists now id sensitive).db = p.db := db_trackRemovedTx _ _ _ _

variable (env : PoolEnv)

theorem storedFrom_pruneLoop (now bytes : Nat) (ids : List Hash) :
    StoredFrom p (pruneLoop env now bytes ids p).2.2 := by
  induction ids generalizing p with
  | nil => exact .of_db rfl
  | cons id ids ih =>
    simp only [pruneLoop]
    split
    · exact .of_db rfl
    · split
      · exact ih p
      · split
        · exact ih p
        · split
          · exact .of_db rfl
          · refine StoredFrom.trans ?_ (ih _)
            refine (storedFrom_removeTxpoolTx p id).trans (.of_db ?_)
            rw [db_removeTxFromTransientLists]
            rfl

theorem storedFrom_prune (now bytes : Nat) :
    StoredFrom p (p.prune env now bytes) := by
  simp only [prune]
  generalize (if bytes = 0 then p.txpoolMaxWeight else bytes) = limit
  have hloop := storedFrom_pruneLoop p env now limit p.txsByFeeAndReceiveTime.ids.tail.reverse
  split
  · exact .of_db rfl
  · split
    · exact hloop
    · exact hloop

theorem markDoubleSpend_induct (tx : Transaction)
    (cookie : ∀ q, motive q → motive { q with cookie := q.cookie + 1 })
    (mark : ∀ q id e, q.db.find? id = some e → motive q → motive
      (q.updateTxpoolTx id { e.txMeta with doubleSpendSeen := true }))
    (h : motive p) : motive (p.markDoubleSpend tx) := by
  have hfold : ∀ (entries : List (Hash × PoolEntry)) (q : Pool),
      (entries.map Prod.fst).Nodup → (∀ x ∈ entries, q.db.find? x.1 = some x.2) → motive q →
      motive (entries.foldl (fun p x =>
        p.updateTxpoolTx x.1 { x.2.txMeta with doubleSpendSeen := true }) q) := by
    intro entries
    induction entries with
    | nil => exact fun _ _ _ hq => hq
    | cons x entries ih =>
      intro q hnodup hstored hq
      obtain ⟨hx, hrest⟩ := forall_mem_cons.mp hstored
      obtain ⟨hnot, htail⟩ := nodup_cons.mp hnodup
      refine ih _ htail ?_ (mark q x.1 x.2 hx hq)
      intro y hy
      rw [find?_updateTxpoolTx_of_ne]
      · exact hrest y hy
      · intro heq
        exact hnot (heq ▸ mem_map_of_mem hy)
  simp only [markDoubleSpend]
  split
  · have hmarked := hfold (p.db.entries.filter (fun e => ((keyImages tx.vin).any (fun kImage =>
        decide (e.1 ∈ (p.spentKeyImages.find? kImage).getD ∅))) && !e.2.txMeta.doubleSpendSeen)) p
      (p.db.nodup_keys.sublist (filter_sublist.map Prod.fst))
      (fun e he => (p.db.mem_entries_iff e).mp (mem_of_mem_filter he)) h
    split
    · exact hmarked
    · exact cookie _ hmarked
  · exact h

theorem storedFrom_markDoubleSpend (tx : Transaction) : StoredFrom p (p.markDoubleSpend tx) := by
  refine markDoubleSpend_induct p tx (motive := StoredFrom p) (fun _ h => h) ?_ (.of_db rfl)
  intro q id e _ h i blob hblob
  rw [getBlob_updateTxpoolTx] at hblob
  exact h i blob hblob

theorem db_checkTxInputs (chain : ChainView) (tx : Transaction) (txid verificationId : Hash)
    (tvc : TxVerificationContext) (keptByBlock : Bool) :
    (p.checkTxInputs chain tx txid verificationId tvc keptByBlock).2.2.db = p.db := by
  simp only [checkTxInputs]
  split
  · rfl
  · split <;> rfl

theorem db_cacheParsedTx (keptByBlock : Bool) (id : Hash) (tx : Transaction) :
    (p.cacheParsedTx keptByBlock id tx).db = p.db := by
  unfold cacheParsedTx
  split <;> rfl

theorem storedFrom_finishAdd (a : AddArgs) (txRelay : RelayMethod) (metaFee : Nat)
    (tvc : TxVerificationContext) : StoredFrom p (p.finishAdd env a txRelay metaFee tvc).2.2 :=
  storedFrom_prune _ env _ _

theorem storedFrom_takeTx (now : Nat) (id : Hash) :
    StoredFrom p (p.takeTx env now id).2 := by
  unfold takeTx
  split
  · exact .of_db rfl
  · split
    · exact .of_db rfl
    · refine (storedFrom_removeTxpoolTx p id).trans (.of_db ?_)
      simp only [db_removeTxFromTransientLists]
      rfl

end Pool

theorem insertKeyImages_allToKey {matchesLegacy : Bool} {id : Hash}
    {images : SortedMap KeyImage (Finset Hash)}
    (h : (insertKeyImages matchesLegacy id txRelay vin images).1 = true) : AllToKey vin := by
  induction vin generalizing images with
  | nil => exact fun txin hmem => by cases hmem
  | cons txin vin ih =>
    cases txin with
    | toKey input =>
      simp only [insertKeyImages] at h
      split at h
      · cases h
      · split at h
        · exact forall_mem_cons.mpr ⟨⟨input, rfl⟩, ih h⟩
        · cases h
    | gen height => cases h
    | toScript => cases h
    | toScriptHash => cases h

theorem Pool.insertKeyImages_allToKey {p : Pool} {id : Hash}
    (h : ¬ (!(p.insertKeyImages vin id txRelay).1) = true) : AllToKey vin := by
  simp only [Bool.not_eq_true', Bool.not_eq_false] at h
  exact TxPool.insertKeyImages_allToKey h

def Stores (a : AddArgs) (p q : Pool) : Prop :=
  ∀ id blob, q.getBlob id = some blob →
    p.getBlob id = some blob ∨ (blob = a.blob ∧ AllToKey a.tx.vin)

namespace Stores
variable {a : AddArgs} {p q r : Pool}

theorem of_storedFrom (h : Pool.StoredFrom p q) : Stores a p q :=
  fun id blob hblob => .inl (h id blob hblob)

theorem storedFrom_trans (hpq : Pool.StoredFrom p q) (h : Stores a q r) : Stores a p r :=
  fun id blob hblob => (h id blob hblob).imp_left (hpq id blob)

theorem addTxpoolTx (hkeys : AllToKey a.tx.vin) (hpq : Pool.StoredFrom p q) {txMeta : TxMeta}
    (h : q.addTxpoolTx a.id a.blob txMeta = some r) : Stores a p r := by
  intro id blob hblob
  unfold Pool.addTxpoolTx at h
  split at h
  · cases h
  · obtain rfl := Option.some.inj h
    simp only [getBlob, SortedMap.find?_insert] at hblob
    split at hblob
    · obtain rfl := Option.some.inj hblob
      exact .inr ⟨rfl, hkeys⟩
    · exact .inl (hpq id blob hblob)

theorem finish (h : Stores a p q) (env : PoolEnv) (now receiveTime : Nat) (fee : Rat)
    (sensitive : Bool) (txRelay : RelayMethod) (metaFee : Nat) (tvc : TxVerificationContext) :
    Stores a p ((q.addTxToTransientLists now a.id fee receiveTime sensitive).finishAdd env a
      txRelay metaFee tvc).2.2 := by
  have hlisted : q.StoredFrom (q.addTxToTransientLists now a.id fee receiveTime sensitive) :=
    .of_db rfl
  have hkept := hlisted.trans (Pool.storedFrom_finishAdd _ env a txRelay metaFee tvc)
  exact fun id blob hblob => h id blob (hkept id blob hblob)

theorem addFailedKeptTx (p : Pool) (env : PoolEnv) (a : AddArgs) (verificationId : Hash)
    (tvc : TxVerificationContext) :
    Stores a p (p.addFailedKeptTx env a verificationId tvc).2.2 := by
  have hcached := Pool.db_cacheParsedTx p a.keptByBlock a.id a.tx
  simp only [Pool.addFailedKeptTx]
  split
  · exact of_storedFrom (.of_db hcached)
  · rename_i hinserted
    split
    · exact of_storedFrom (.of_db hcached)
    · rename_i added hadded
      have hkeyed : Pool.StoredFrom p ((p.cacheParsedTx a.keptByBlock a.id a.tx).insertKeyImages
          a.tx.vin a.id a.txRelay).2 := .of_db hcached
      apply finish
      exact addTxpoolTx (Pool.insertKeyImages_allToKey hinserted) hkeyed hadded

theorem addValidTx (p : Pool) (env : PoolEnv) (a : AddArgs) (verificationId : Hash)
    (result : InputCheck) : Stores a p (p.addValidTx env a verificationId result).2.2 := by
  have hcached := db_cacheParsedTx p a.keptByBlock a.id a.tx
  unfold Pool.addValidTx
  extract_lets fee cached existing base found txRelay
  clear_value txRelay
  simp only
  split
  · split
    · exact of_storedFrom (.of_db hcached)
    · rename_i hinserted
      split
      · exact of_storedFrom (.of_db hcached)
      · rename_i added hadded
        have hremoved : Pool.StoredFrom p
            ((cached.insertKeyImages a.tx.vin a.id txRelay).2.removeTxpoolTx a.id) :=
          Pool.StoredFrom.trans (.of_db hcached) (storedFrom_removeTxpoolTx _ a.id)
        apply finish
        exact addTxpoolTx (Pool.insertKeyImages_allToKey hinserted) hremoved hadded
  · exact of_storedFrom (Pool.StoredFrom.trans (.of_db hcached)
      (storedFrom_finishAdd _ _ _ _ _ _))

end Stores

def PassedNonInput (env : PoolEnv) (a : AddArgs) (tvc : TxVerificationContext) : Prop :=
  a.version = a.nicVerifiedHfVersion ∨
    (verNonInputConsensus env.checks a.tx tvc a.version).1 = true

variable (p : Pool) (env : PoolEnv) (chain : ChainView) (a : AddArgs) (tvc : TxVerificationContext)

theorem Stores.addCheckedTx : Stores a p (p.addCheckedTx env chain a tvc).2.2 := by
  have hchecked := Pool.db_checkTxInputs p chain a.tx a.id a.validInputVerificationId
    { tvc with verifivationFailed := true } a.keptByBlock
  simp only [Pool.addCheckedTx]
  split
  · exact storedFrom_trans (.of_db hchecked) (addValidTx _ _ _ _ _)
  · split
    · exact storedFrom_trans (.of_db hchecked) (addFailedKeptTx _ _ _ _ _)
    · exact of_storedFrom (.of_db hchecked)

theorem Pool.addTx_cases (same : motive p) (marked : motive (p.markDoubleSpend a.tx))
    (checked : ∀ tvc', PassedNonInput env a tvc →
      (a.keptByBlock = false → p.haveTxKeyimgesAsSpent a.tx a.id = false) → motive
      (p.addCheckedTx env chain a tvc').2.2) :
    motive (p.addTx env chain a tvc).2.2 := by
  unfold addTx
  split
  · exact same
  split
  · exact same
  split
  · exact same
  split
  · exact same
  split
  · exact marked
  rename_i hspent
  have hunspent : a.keptByBlock = false → p.haveTxKeyimgesAsSpent a.tx a.id = false := by
    intro hkept
    rw [hkept] at hspent
    exact Bool.eq_false_iff.mpr hspent
  split
  · rename_i hversion
    exact checked tvc (.inl hversion) hunspent
  simp only
  split
  · rename_i hnic
    exact checked _ (.inr hnic) hunspent
  · exact same

theorem addTx_stores :
    p.StoredFrom (p.addTx env chain a tvc).2.2 ∨
      (Stores a p (p.addTx env chain a tvc).2.2 ∧ PassedNonInput env a tvc) :=
  p.addTx_cases env chain a tvc (motive := fun q => p.StoredFrom q ∨
      (Stores a p q ∧ PassedNonInput env a tvc)) (.inl (.of_db rfl))
    (.inl (storedFrom_markDoubleSpend p a.tx))
    (fun tvc' hpassed _ => .inr ⟨Stores.addCheckedTx p env chain a tvc', hpassed⟩)

end Jero.TxPool
