import Jero.TxPool.Stored

namespace Jero.TxPool
open Jero.Lists Jero.Tx Jero.Chain List Pool List.Pairwise

theorem FillOutcome.storedFrom {env : PoolEnv} {st next : FillState} {id : Hash}
    (h : FillOutcome env st id next) : st.pool.StoredFrom next.pool := by
  cases h with
  | same => exact .of_db rfl
  | checked blob r pool hblob hstep hblobs hcache =>
    intro j b hj
    exact ((hblobs j).trans (hstep.getBlob j)).symm.trans hj
  | placed blob r pool totalWeight fee bestCoinbase hblob hstep hblobs hcache hready hfresh =>
    intro j b hj
    exact ((hblobs j).trans (hstep.getBlob j)).symm.trans hj

theorem fillLoop_storedFrom (env : PoolEnv) (chain : ChainView) (p : FillParams) (ids : List Hash)
    (st : FillState) : st.pool.StoredFrom (Pool.fillLoop env chain p ids st).pool :=
  fillLoop_induct (motive := fun _ next => st.pool.StoredFrom next.pool) (fun _ _ h => h)
    (fun id _ next h => h.trans (fillStep_outcome env chain p next id).storedFrom) ids st
    (.of_db rfl)

theorem backlogLoop_storedFrom (env : PoolEnv) (chain : ChainView) (maxWeight : Nat)
    (entries : List BacklogEntry) (st : BacklogState) :
    st.pool.StoredFrom (Pool.backlogLoop env chain maxWeight entries st).pool := by
  refine backlogLoop_induct (motive := fun _ next => st.pool.StoredFrom next.pool)
    (fun _ _ h => h) (fun _ _ _ h => h) ?_ entries st (.of_db rfl)
  intro e entries next entry r h _ hready
  have hchecked := h.trans (.of_db (isTransactionReadyToGo_step hready).db)
  exact ⟨hchecked, fun _ _ => hchecked⟩

theorem backlogOrder_ids (pool : Pool) (chain : ChainView) (includeSensitive : Bool) :
    ((pool.backlogOrder chain includeSensitive).map BacklogEntry.id).Nodup := by
  have hids : ((pool.backlogCandidates includeSensitive).map BacklogEntry.id).Nodup := by
    simp only [backlogCandidates, map_map]
    exact pool.db.nodup_keys.sublist (filter_sublist.map Prod.fst)
  simp only [backlogOrder]
  split
  · exact (((mergeSort_perm _ _).map BacklogEntry.id).nodup_iff).mpr hids
  · exact hids

structure Node where
  pool : Pool
  chain : ChainView

inductive Op where
  | add (a : AddArgs) (tvc : TxVerificationContext)
  | take (now : Nat) (id : Hash)
  | fill (p : FillParams)
  | backlog (includeSensitive : Bool)
  | tip (chain : ChainView)

structure AddArgs.WellFormed (env : PoolEnv) (a : AddArgs) : Prop where
  parses : env.parseTx a.blob = some a.tx
  verified : a.version = a.nicVerifiedHfVersion → checkTxInputsKeyimagesDiff ∅ a.tx.vin = true

def Op.WellFormed (env : PoolEnv) : Op → Prop
  | .add a _ => a.WellFormed env
  | _ => True

namespace Node

def step (env : PoolEnv) (node : Node) : Op → Node
  | .add a tvc => { node with pool := (node.pool.addTx env node.chain a tvc).2.2 }
  | .take now id => { node with pool := (node.pool.takeTx env now id).2 }
  | .fill p =>
    match node.pool.fillBlockTemplate env node.chain p with
    | none => node
    | some st => { node with pool := st.pool }
  | .backlog includeSensitive =>
    { node with pool := (node.pool.getBlockTemplateBacklog env node.chain includeSensitive).pool }
  | .tip chain => ⟨node.pool.clearCaches, chain⟩

def placed (env : PoolEnv) (node : Node) : Op → List Hash
  | .fill p => ((node.pool.fillBlockTemplate env node.chain p).map FillState.txHashes).getD []
  | .backlog includeSensitive =>
    (node.pool.getBlockTemplateBacklog env node.chain includeSensitive).backlog.map BacklogEntry.id
  | _ => []

def trace (env : PoolEnv) : Node → List Op → List (Node × Op)
  | _, [] => []
  | node, op :: ops => (node, op) :: trace env (node.step env op) ops

end Node
namespace Pool
variable {env : PoolEnv} {p q : Pool}

theorem SpendsDistinct.of_storedFrom (h : p.SpendsDistinct env) (hpq : p.StoredFrom q) :
    q.SpendsDistinct env :=
  ⟨fun id blob hblob => h.stored id blob (hpq id blob hblob)⟩

theorem SpendsDistinct.empty (env : PoolEnv) (maxWeight : Nat) (mineStemTxes : Bool) :
    (Pool.empty maxWeight mineStemTxes).SpendsDistinct env := by
  refine ⟨?_⟩
  intro id blob hblob
  cases hblob

end Pool
namespace Node
variable {env : PoolEnv}
section
variable {node : Node} (h : node.pool.SpendsDistinct env)
include h

theorem step_spendsDistinct {op : Op} (hop : op.WellFormed env) :
    (node.step env op).pool.SpendsDistinct env := by
  cases op with
  | add a tvc =>
    rcases addTx_stores node.pool env node.chain a tvc with hstored | ⟨hstores, hpassed⟩
    · exact h.of_storedFrom hstored
    · have hdiff : checkTxInputsKeyimagesDiff ∅ a.tx.vin = true :=
        hpassed.elim hop.verified (fun hnic => (verNonInputConsensus_passes hnic).keyimagesDiff)
      refine ⟨?_⟩
      intro id blob hblob
      rcases hstores id blob hblob with hold | ⟨rfl, hkeys⟩
      · exact h.stored id blob hold
      · exact ⟨a.tx, hop.parses, hkeys, (checkTxInputsKeyimagesDiff_nodup hdiff).1⟩
  | take now id => exact h.of_storedFrom (storedFrom_takeTx _ _ _ _)
  | fill p =>
    simp only [step, fillBlockTemplate]
    cases getBlockReward p.medianWeight 0 p.alreadyGeneratedCoins p.version with
    | none => exact h
    | some best => exact h.of_storedFrom (fillLoop_storedFrom env node.chain p _ ⟨_, _, _, _, _, _⟩)
  | backlog includeSensitive =>
    exact h.of_storedFrom (backlogLoop_storedFrom env node.chain _ _ ⟨_, _, _, _⟩)
  | tip chain => exact h.of_storedFrom (.of_db rfl)

theorem trace_spendsDistinct {ops : List Op} (hops : ∀ op ∈ ops, op.WellFormed env) :
    ∀ x ∈ trace env node ops, x.1.pool.SpendsDistinct env := by
  induction ops generalizing node with
  | nil =>
    intro x hx
    cases hx
  | cons op ops ih =>
    obtain ⟨hop, hrest⟩ := forall_mem_cons.mp hops
    exact forall_mem_cons.mpr ⟨h, ih (step_spendsDistinct h hop) hrest⟩

end

theorem template_never_double_spends (env : PoolEnv) (maxWeight : Nat) (mineStemTxes : Bool)
    (chain : ChainView) (ops : List Op) (hops : ∀ op ∈ ops, op.WellFormed env) :
    ∀ x ∈ trace env ⟨.empty maxWeight mineStemTxes, chain⟩ ops, x.1.pool.NoCachedConflict env →
      x.1.pool.ConflictFree env (x.1.placed env x.2) := by
  intro x hx hcond
  have hspends := trace_spendsDistinct (.empty env maxWeight mineStemTxes) hops x hx
  cases x.2 with
  | fill p =>
    simp only [placed, fillBlockTemplate]
    cases getBlockReward p.medianWeight 0 p.alreadyGeneratedCoins p.version with
    | none => exact nil
    | some best =>
      exact fillLoop_selecting hspends hcond p _ x.1.pool.txsByFeeAndReceiveTime.nodup ⟨_, _, _, _,
        _, _⟩
        (.initial env x.1.pool _)
  | backlog includeSensitive =>
    exact backlogLoop_selecting hspends hcond _ _ (backlogOrder_ids _ _ _) ⟨_, _, _, _⟩
      (.initial env x.1.pool _)
  | add a tvc => exact nil
  | take now id => exact nil
  | tip chain => exact nil

def sampleTx (fee : Nat) : Transaction :=
  ⟨2, 0, [.toKey ⟨0, [3, 1], 7⟩], [⟨0, .toTaggedKey 4⟩], 0, [], 1, fee, false⟩

def sampleEnv : PoolEnv where
  parseTx := fun blob => blob.head?.map (fun byte => sampleTx byte.toNat)
  parseTxBase := fun blob => blob.head?.map (fun byte => sampleTx byte.toNat)
  parsePrefix := fun blob => blob.head?.map (fun byte => (sampleTx byte.toNat).vin)
  checks := ⟨fun _ => true, fun _ => true, fun _ => 1500, fun _ => 1500, fun _ tvc _ => (true, tvc),
    fun _ => true⟩
  feeRate := fun fee weight => fee / weight

def sampleChain (topHash : Hash) : ChainView :=
  ⟨100, topHash, 300000, fun _ _ => true,
    fun _ tvc verificationId _ => (⟨true, tvc, 80, 6⟩, verificationId)⟩

def sampleAdd (fee : UInt8) (txRelay : RelayMethod) : Op :=
  .add ⟨sampleTx fee.toNat, fee.toNat, [fee], 1500, txRelay, true, 16, 0, nullHash, 1000, 0⟩ .initial

def sampleFill : Op := .fill ⟨300000, 2 ^ 63, 16, false⟩

theorem sampleAdd_wellFormed (fee : UInt8) (txRelay : RelayMethod) :
    (sampleAdd fee txRelay).WellFormed sampleEnv :=
  ⟨rfl, fun h => by cases h⟩

def sampleRun (ops : List Op) : Node :=
  ops.foldl (Node.step sampleEnv) ⟨.empty 1000000 false, sampleChain 5⟩

def spendingTx (image : Nat) : Transaction :=
  { sampleTx image with vin := [.toKey ⟨0, [3, 1], image⟩] }

def spendingEnv : PoolEnv :=
  { sampleEnv with
    parseTx := fun blob => blob.head?.map (fun byte => spendingTx byte.toNat)
    parseTxBase := fun blob => blob.head?.map (fun byte => spendingTx byte.toNat)
    parsePrefix := fun blob => blob.head?.map (fun byte => (spendingTx byte.toNat).vin) }

def spendingArgs (image : UInt8) (txRelay : RelayMethod) : AddArgs :=
  ⟨spendingTx image.toNat, image.toNat, [image], 1500, txRelay, true, 16, 0, nullHash, 1000, 0⟩

def returnedOps : List Op := [sampleAdd 2 .fluff, sampleAdd 1 .block]

theorem relayed_and_returned_tx_double_spend :
    (∀ op ∈ returnedOps ++ [sampleFill], op.WellFormed sampleEnv) ∧
      ∃ x ∈ trace sampleEnv ⟨.empty 1000000 false, sampleChain 5⟩ (returnedOps ++ [sampleFill]),
        ¬ x.1.pool.ConflictFree sampleEnv (x.1.placed sampleEnv x.2) := by
  refine ⟨?_, (sampleRun returnedOps, sampleFill), ?_, ?_⟩
  · simp only [returnedOps, forall_mem_cons, cons_append, nil_append]
    exact ⟨sampleAdd_wellFormed 2 .fluff, sampleAdd_wellFormed 1 .block, trivial, by simp⟩
  · exact mem_cons_of_mem _ (mem_cons_of_mem _ mem_cons_self)
  · have hplaced : (sampleRun returnedOps).placed sampleEnv sampleFill = [2, 1] := by
      decide +kernel
    have htwo : (sampleRun returnedOps).pool.txOf sampleEnv 2 = some (sampleTx 2) := by
      decide +kernel
    have hone : (sampleRun returnedOps).pool.txOf sampleEnv 1 = some (sampleTx 1) := by
      decide +kernel
    intro hfree
    rw [hplaced] at hfree
    exact (pairwise_pair.mp hfree) ⟨_, _, htwo, hone, 7, by decide, by decide⟩

def tipOps : List Op := [sampleAdd 2 .fluff, .tip (sampleChain 6), sampleAdd 1 .block]

theorem template_after_new_tip_keeps_one :
    ∃ x ∈ trace sampleEnv ⟨.empty 1000000 false, sampleChain 5⟩ (tipOps ++ [sampleFill]),
      x.1.placed sampleEnv x.2 = [2] ∧
        x.1.pool.ConflictFree sampleEnv (x.1.placed sampleEnv x.2) := by
  have hmem : (sampleRun tipOps, sampleFill) ∈
      trace sampleEnv ⟨.empty 1000000 false, sampleChain 5⟩ (tipOps ++ [sampleFill]) :=
    mem_cons_of_mem _ (mem_cons_of_mem _ (mem_cons_of_mem _ mem_cons_self))
  refine ⟨_, hmem, by decide +kernel, template_never_double_spends sampleEnv 1000000 false
    (sampleChain 5) (tipOps ++ [sampleFill]) ?_ _ hmem ?_⟩
  · simp only [tipOps, forall_mem_cons, cons_append, nil_append]
    exact ⟨sampleAdd_wellFormed 2 .fluff, trivial, sampleAdd_wellFormed 1 .block, trivial, by simp⟩
  · have hcache : (sampleRun tipOps).pool.inputCache.entries = [] := by decide +kernel
    rintro i j - - ⟨cached, hfind, -⟩
    rw [SortedMap.find?, hcache] at hfind
    cases hfind

end Node
end Jero.TxPool
