import Jero.Chain.DifficultyRuns

namespace Jero.Chain
open Jero.Machine Jero.Lists Jero.Tx List ChainEnv

deriving instance Encodable for TxInToKey

deriving instance Encodable for TxIn

deriving instance Encodable for TxOutTarget

deriving instance Encodable for TxOut

deriving instance Encodable for Transaction

deriving instance Encodable for Block

structure ChainEnv.SameRules (env env' : ChainEnv) : Prop where
  blockHash : env'.blockHash = env.blockHash
  fixedDifficulty : env'.fixedDifficulty = env.fixedDifficulty
  target : ∀ chain, env'.getDifficultyTarget chain = env.getDifficultyTarget chain
  baseReward : env'.baseReward = env.baseReward

variable {s : Blockchain}
namespace ChainEnv.SameRules
variable {env env' : ChainEnv} (h : env.SameRules env')
include h

theorem symm : env'.SameRules env :=
  ⟨h.blockHash.symm, h.fixedDifficulty.symm, fun chain => (h.target chain).symm,
    h.baseReward.symm⟩

variable (chain : List Entry)

theorem topHash : env'.topHash chain = env.topHash chain := by
  unfold ChainEnv.topHash
  rw [h.blockHash]

theorem freshDifficulty :
    env'.freshDifficulty chain = env.freshDifficulty chain := by
  unfold ChainEnv.freshDifficulty
  rw [h.target]

theorem difficultyAt : env'.difficultyAt chain = env.difficultyAt chain := by
  unfold ChainEnv.difficultyAt
  rw [h.fixedDifficulty, h.freshDifficulty]

theorem nextEntry (b : Block) :
    env'.nextEntry chain b = env.nextEntry chain b := by
  unfold ChainEnv.nextEntry
  rw [h.difficultyAt, h.baseReward]

theorem canonical {chain : List Entry} (hchain : env.Canonical chain) : env'.Canonical chain := by
  induction hchain with
  | nil => exact .nil
  | @snoc chain b _ hprev ih =>
    rw [← h.nextEntry]
    exact .snoc ih (hprev.trans (h.topHash chain).symm)

theorem hashDetermines (hdet : env.HashDetermines) : env'.HashDetermines := by
  intro c d hc hd htop
  rw [h.topHash, h.topHash] at htop
  exact hdet (h.symm.canonical hc) (h.symm.canonical hd) htop

theorem cachedFor {cached : List Entry} {cache : DifficultyCache}
    (hcached : CachedFor env cached cache) : CachedFor env' cached cache := by
  refine ⟨h.canonical hcached.canonical, ?_, ?_, hcached.window⟩
  · rw [h.topHash]
    exact hcached.topHash
  · rw [h.freshDifficulty]
    exact hcached.difficulty

theorem coherent (hs : Coherent env s) : Coherent env' s := by
  refine ⟨h.canonical hs.canonical, fun db hdb => h.canonical (hs.savedCanonical db hdb), ?_,
    hs.savedPrefix⟩
  intro hfixed
  obtain ⟨cached, hcached, hbase⟩ := hs.cached (h.fixedDifficulty.symm.trans hfixed)
  exact ⟨cached, h.cachedFor hcached, hbase⟩

end ChainEnv.SameRules

inductive Op where
  | getDifficultyForNextBlock
  | addNewBlock (fuel : Nat) (supplementOk : Bool) (b : Block)
  | handleAlternativeBlock (fuel : Nat) (supplementOk : Bool) (b : Block)
  | switchToAlternativeBlockchain (fuel : Nat) (altChain : List BlockExtendedInfo)
      (discardDisconnectedChain : Bool)
  | rollbackBlockchainSwitching (originalChain : List Block) (rollbackHeight : Nat)
  | popBlockFromBlockchain
  | popBlocks (nblocks : Nat)
  | checkAgainstCheckpoints (points : SortedMap Nat Hash) (enforce : Bool)
  | prepareHandleIncomingBlocks
  | cleanupHandleIncomingBlocks

namespace Blockchain

def opened (db : Db) : Blockchain := ⟨db, none, true, .initial, ∅⟩

def step (env : ChainEnv) (s : Blockchain) : Op → Blockchain
  | .getDifficultyForNextBlock => (s.queryDifficulty env).2
  | .addNewBlock fuel supplementOk b => stateAfter (addNewBlock env fuel supplementOk b s)
  | .handleAlternativeBlock fuel supplementOk b =>
    stateAfter (handleAlternativeBlock env fuel supplementOk b s)
  | .switchToAlternativeBlockchain fuel altChain discard =>
    stateAfter (switchToAlternativeBlockchain env fuel altChain discard s)
  | .rollbackBlockchainSwitching originalChain rollbackHeight =>
    stateAfter (rollbackBlockchainSwitching env originalChain rollbackHeight s)
  | .popBlockFromBlockchain => stateAfter (popBlock s)
  | .popBlocks nblocks => stateAfter (popBlocks nblocks s)
  | .checkAgainstCheckpoints points enforce =>
    stateAfter (checkAgainstCheckpoints env points enforce s)
  | .prepareHandleIncomingBlocks => s.prepareHandleIncomingBlocks
  | .cleanupHandleIncomingBlocks => s.cleanupHandleIncomingBlocks

def run (s : Blockchain) : List (ChainEnv × Op) → Blockchain
  | [] => s
  | (env, op) :: rest => run (s.step env op) rest

variable {env : ChainEnv}

theorem opened_coherent {db : Db} (hdb : env.Canonical db.chain) : Coherent env (opened db) :=
  Coherent.reset hdb (fun _ hsaved => nomatch hsaved)
    (fun _ => ⟨[], .nil, rfl, freshDifficulty_nil.symm, fun _ hne => absurd rfl hne⟩) rfl

theorem step_coherent (hdet : env.HashDetermines) (hs : Coherent env s) (op : Op) :
    Coherent env (s.step env op) := by
  cases op with
  | getDifficultyForNextBlock => exact queryDifficulty_coherent hs hdet
  | addNewBlock fuel supplementOk b =>
    exact addNewBlock_preserves hdet fuel supplementOk b s hs
  | handleAlternativeBlock fuel supplementOk b =>
    exact handleAlternativeBlockWith_preserves
      (switchToAlternativeBlockchain_preserves hdet fuel) supplementOk b s hs
  | switchToAlternativeBlockchain fuel altChain discard =>
    exact switchToAlternativeBlockchain_preserves hdet fuel altChain discard s hs
  | rollbackBlockchainSwitching original height =>
    exact rollback_preserves hdet original height s hs
  | popBlockFromBlockchain => exact popBlock_preserves s hs
  | popBlocks nblocks => exact popBlocks_preserves nblocks s hs
  | checkAgainstCheckpoints points enforce =>
    exact checkAgainstCheckpoints_preserves hdet points enforce s hs
  | prepareHandleIncomingBlocks => exact prepareHandleIncomingBlocks_coherent hs
  | cleanupHandleIncomingBlocks => exact cleanupHandleIncomingBlocks_coherent hs

theorem run_coherent (hdet : env.HashDetermines) (hs : Coherent env s) {ops : List (ChainEnv × Op)}
    (hops : ∀ o ∈ ops, env.SameRules o.1) : Coherent env (s.run ops) := by
  induction ops generalizing s with
  | nil => exact hs
  | cons o rest ih =>
    obtain ⟨hrules, hrest⟩ := forall_mem_cons.mp hops
    have hstep := step_coherent (hrules.hashDetermines hdet) (hrules.coherent hs) o.2
    exact ih (hrules.symm.coherent hstep) hrest

theorem cached_difficulty_is_fresh {env : ChainEnv} (hfixed : env.fixedDifficulty = 0)
    (hdet : env.HashDetermines) {db : Db} (hdb : env.Canonical db.chain)
    {ops : List (ChainEnv × Op)} (hops : ∀ o ∈ ops, env.SameRules o.1) :
    let s := (opened db).run ops
    let window := s.db.chain.drop (s.db.chain.length - min 735 (s.db.chain.length - 1))
    (s.queryDifficulty env).1 = nextDifficulty (timestampsOf window) (difficultiesOf window)
        (env.getDifficultyTarget s.db.chain) ∧
      env.Canonical s.db.chain := by
  intro s window
  have hs : Coherent env s := run_coherent hdet (opened_coherent hdb) hops
  refine ⟨?_, hs.canonical⟩
  rw [(queryDifficulty_eq hs hdet).1, difficultyAt, if_neg (not_not.mpr hfixed)]
  by_cases hnil : s.db.chain = []
  · have hwindow : window = [] := by
      simp only [window, hnil, drop_nil]
    rw [hwindow, hnil, freshDifficulty_nil]
    rfl
  · rw [freshDifficulty, windowEntries_eq hnil]
    rfl

def injectiveEnv (fixedDifficulty : Nat) : ChainEnv :=
  { sampleEnv with
    blockHash := fun b => Encodable.encode b + 1
    fixedDifficulty := fixedDifficulty }

def versionEnv (version : Nat) : ChainEnv :=
  { injectiveEnv 0 with currentVersion := fun _ => version }

theorem injective_hashDetermines {env : ChainEnv}
    (h : env.blockHash = fun b => Encodable.encode b + 1) : env.HashDetermines := by
  refine hashDetermines_of_injective ?_ ?_
  · intro a b hab
    rw [h] at hab
    exact Encodable.encode_injective (Nat.succ.inj hab)
  · intro b
    rw [h]
    exact Nat.succ_ne_zero _

def genesisDb : Db := ⟨[⟨sampleBlock 0 0 nullHash, 1, 0⟩], .empty⟩

theorem genesisDb_canonical (fixedDifficulty : Nat) :
    (injectiveEnv fixedDifficulty).Canonical genesisDb.chain := by
  have h : (injectiveEnv fixedDifficulty).Canonical ([] ++ [nextEntry _ []
    (sampleBlock 0 0 nullHash)]) := .snoc .nil rfl
  rw [nextEntry, difficultyAt_nil] at h
  exact h

theorem popped_in_batch_difficulty_is_fresh :
    let b := sampleBlock 1 120 ((injectiveEnv 0).blockHash (sampleBlock 0 0 nullHash))
    let s := (opened genesisDb).run [(injectiveEnv 0, .prepareHandleIncomingBlocks),
      (injectiveEnv 0, .addNewBlock 1 true b), ({ versionEnv 3 with now := 5 }, .popBlocks 1),
      (versionEnv 3, .getDifficultyForNextBlock), (injectiveEnv 0, .cleanupHandleIncomingBlocks)]
    let window := s.db.chain.drop (s.db.chain.length - min 735 (s.db.chain.length - 1))
    (s.queryDifficulty (injectiveEnv 0)).1 = nextDifficulty (timestampsOf window)
        (difficultiesOf window) ((injectiveEnv 0).getDifficultyTarget s.db.chain) ∧
      (injectiveEnv 0).Canonical s.db.chain :=
  cached_difficulty_is_fresh rfl (injective_hashDetermines rfl) (genesisDb_canonical 0)
    (by
      intro o ho
      simp only [mem_cons, not_mem_nil, or_false] at ho
      rcases ho with rfl | rfl | rfl | rfl | rfl <;> exact ⟨rfl, rfl, fun _ => rfl, rfl⟩)

def quickDb : Db :=
  let second := sampleBlock 1 1 ((injectiveEnv 0).topHash genesisDb.chain)
  let third := sampleBlock 2 2 ((injectiveEnv 0).blockHash second)
  ⟨genesisDb.chain ++ [⟨second, 2, 0⟩] ++ [⟨third, 3, 0⟩], .empty⟩

theorem quickDb_canonical (version : Nat) : (versionEnv version).Canonical quickDb.chain :=
  .snoc (.snoc (.snoc .nil rfl) rfl) rfl

theorem cached_difficulty_not_fresh :
    ((injectiveEnv 5).HashDetermines ∧ (injectiveEnv 5).Canonical genesisDb.chain ∧
      ((opened genesisDb).queryDifficulty (injectiveEnv 5)).1 = 5 ∧
      let window := genesisDb.chain.drop
        (genesisDb.chain.length - min 735 (genesisDb.chain.length - 1))
      nextDifficulty (timestampsOf window) (difficultiesOf window)
        ((injectiveEnv 5).getDifficultyTarget genesisDb.chain) = 1) ∧
    (∀ version, (versionEnv version).HashDetermines ∧
      (versionEnv version).Canonical quickDb.chain) ∧
    let s := (opened quickDb).run [(versionEnv 1, .getDifficultyForNextBlock)]
    let window := s.db.chain.drop (s.db.chain.length - min 735 (s.db.chain.length - 1))
    (s.queryDifficulty (versionEnv 2)).1 = 60 ∧
      nextDifficulty (timestampsOf window) (difficultiesOf window)
        ((versionEnv 2).getDifficultyTarget s.db.chain) = 120 := by
  exact ⟨⟨injective_hashDetermines rfl, genesisDb_canonical 5, rfl, rfl⟩,
    fun version => ⟨injective_hashDetermines rfl, quickDb_canonical version⟩, by decide +kernel⟩

end Blockchain
end Jero.Chain
