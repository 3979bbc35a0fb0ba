import Jero.Chain.DifficultyCache
import Jero.Chain.AltWalk

namespace Jero.Chain
open Jero.Machine Jero.Tx List
namespace ChainEnv
variable (env : ChainEnv)

structure AcceptsBlock (chain : List Entry) (diff : Nat) (b : Block) : Prop where
  prev : b.prevId = env.topHash chain
  version : hardforkCheck (env.currentVersion (blocks chain)) b = true
  timestamp : (checkBlockTimestampMainChain env.now (timestampsOf chain) b.timestamp).1 = true
  difficulty : diff ≠ 0
  proofOfWork : env.mainProofOfWork (blocks chain) b diff = true
  checkpoint : isInCheckpointZone env.checkpoints chain.length = true →
    checkBlock env.checkpoints chain.length (env.blockHash b) = true
  minerTx : env.prevalidateMinerTransaction b chain.length (env.currentVersion (blocks chain)) = true
  txs : env.connectTxs (blocks chain) b = .connected

end ChainEnv

structure Rejected (env : ChainEnv) (s : Blockchain)
    (r : (Bool × BlockVerificationContext) × Blockchain) : Prop where
  refused : r.1.1 = false
  notAdded : r.1.2.addedToMainChain = false
  db : r.2.db = s.db
  saved : r.2.saved = s.saved
  cache : r.2.cache = s.cache ∨ r.2.cache = (s.queryDifficulty env).2.cache

namespace Blockchain
variable {env : ChainEnv} {s : Blockchain} {b : Block}

theorem handleBlockToMainChain_accepts
    (h : env.AcceptsBlock s.db.chain (s.queryDifficulty env).1 b) :
    handleBlockToMainChain env b s = ((true, .added),
      (((s.queryDifficulty env).2.connectBlock b (s.queryDifficulty env).1
        (env.baseReward (blocks s.db.chain) b)).queryDifficulty env).2) := by
  have hzone : ¬ (isInCheckpointZone env.checkpoints s.db.chain.length &&
      !checkBlock env.checkpoints s.db.chain.length (env.blockHash b)) = true := by
    simp only [Bool.and_eq_true, Bool.not_eq_true', not_and, Bool.not_eq_false]
    exact h.checkpoint
  unfold handleBlockToMainChain
  simp only [h.prev, h.version, h.timestamp, h.proofOfWork, h.minerTx, h.txs, h.difficulty,
    ne_eq, not_true_eq_false, Bool.not_true, Bool.false_eq_true, if_false, if_neg hzone]

theorem handleBlockToMainChain_rejects
    (h : ¬ env.AcceptsBlock s.db.chain (s.queryDifficulty env).1 b) :
    Rejected env s (handleBlockToMainChain env b s) := by
  unfold handleBlockToMainChain
  simp only
  split
  · exact ⟨rfl, rfl, rfl, rfl, .inl rfl⟩
  rename_i hprev
  split
  · exact ⟨rfl, rfl, rfl, rfl, .inl rfl⟩
  rename_i hversion
  split
  · exact ⟨rfl, rfl, rfl, rfl, .inl rfl⟩
  rename_i htime
  split
  · exact ⟨rfl, rfl, rfl, rfl, .inr rfl⟩
  rename_i hdiff
  split
  · exact ⟨rfl, rfl, rfl, rfl, .inr rfl⟩
  rename_i hpow
  split
  · exact ⟨rfl, rfl, rfl, rfl, .inr rfl⟩
  rename_i hzone
  split
  · exact ⟨rfl, rfl, rfl, rfl, .inr rfl⟩
  rename_i hminer
  split
  · exact ⟨rfl, rfl, rfl, rfl, .inr rfl⟩
  · exact ⟨rfl, rfl, rfl, rfl, .inr rfl⟩
  · exact ⟨rfl, rfl, rfl, rfl, .inr rfl⟩
  · rename_i htxs
    refine absurd ⟨not_not.mp hprev, not_rejected hversion, not_rejected htime, hdiff,
      not_rejected hpow, ?_, not_rejected hminer, htxs⟩ h
    intro hin
    by_contra hbad
    exact hzone (by simp [hin, hbad])

theorem handleBlockToMainChain_coherent (hdet : env.HashDetermines) (h : Coherent env s)
    (b : Block) :
    Coherent env (handleBlockToMainChain env b s).2 := by
  obtain ⟨hfresh, hdb, hsaved, hreset, hcached⟩ := queryDifficulty_eq h hdet
  have hquery := queryDifficulty_coherent h hdet
  by_cases haccept : env.AcceptsBlock s.db.chain (s.queryDifficulty env).1 b
  · rw [handleBlockToMainChain_accepts haccept, hfresh]
    refine queryDifficulty_coherent ?_ hdet
    have hgrow : (s.queryDifficulty env).2.db.chain <+: _ := List.prefix_append _
      [env.nextEntry (s.queryDifficulty env).2.db.chain b]
    refine ⟨.snoc hquery.canonical haccept.prev, hquery.savedCanonical,
      fun hfixed => ⟨_, hcached hfixed, fun _ _ _ => hgrow⟩, ?_⟩
    intro hreset db hdb
    exact (hquery.savedPrefix hreset db hdb).trans hgrow
  · have hrej := handleBlockToMainChain_rejects haccept
    generalize handleBlockToMainChain env b s = r at hrej
    rcases hrej.cache with hsame | hsame
    · exact ⟨by rw [hrej.db]; exact h.canonical, by rw [hrej.saved]; exact h.savedCanonical,
        by rw [hsame, hrej.db]; exact h.cached,
        by rw [hsame, hrej.saved, hrej.db]; exact h.savedPrefix⟩
    · exact ⟨by rw [hrej.db]; exact h.canonical, by rw [hrej.saved]; exact h.savedCanonical,
        by rw [hsame, hrej.db]; exact hquery.cached,
        by rw [hsame, hrej.saved, hrej.db]; exact hquery.savedPrefix⟩

end Blockchain
variable {chain : List Entry} {e : Entry}

theorem blocks_append (a b : List Entry) : blocks (a ++ b) = blocks a ++ blocks b := map_append

namespace ChainEnv
variable (env : ChainEnv)

def extend (chain : List Entry) : List Block → List Entry
  | [] => chain
  | b :: rest => extend (chain ++ [env.nextEntry chain b]) rest

def Accepts (chain : List Entry) (b : Block) : Prop :=
  env.AcceptsBlock chain (env.difficultyAt chain) b

def AllAccepted : List Entry → List Block → Prop
  | _, [] => True
  | chain, b :: rest => env.Accepts chain b ∧ AllAccepted (chain ++ [env.nextEntry chain b]) rest

def LinkedFrom : Hash → List Block → Prop
  | _, [] => True
  | id, b :: rest => b.prevId = id ∧ LinkedFrom (env.blockHash b) rest

theorem blocks_extend (chain : List Entry) (bs : List Block) :
    blocks (env.extend chain bs) = blocks chain ++ bs := by
  induction bs generalizing chain with
  | nil => exact (append_nil _).symm
  | cons b rest ih =>
    rw [extend, ih, blocks_append, append_assoc]
    rfl

theorem length_extend (chain : List Entry) (bs : List Block) :
    (env.extend chain bs).length = chain.length + bs.length := by
  have hlen := congrArg length (env.blocks_extend chain bs)
  rwa [blocks, length_map, length_append, blocks, length_map] at hlen

theorem prefix_extend (chain : List Entry) (bs : List Block) : chain <+: env.extend chain bs := by
  induction bs generalizing chain with
  | nil => exact prefix_refl chain
  | cons b rest ih => exact (prefix_append _ _).trans (ih _)

variable {env}

theorem Canonical.take (h : env.Canonical chain) (n : Nat) : env.Canonical (chain.take n) := by
  induction h with
  | nil =>
    rw [take_nil]
    exact .nil
  | @snoc chain b hchain hprev ih =>
    rcases Nat.lt_or_ge chain.length n with hlt | hge
    · rw [take_of_length_le (by simpa using hlt)]
      exact .snoc hchain hprev
    · rw [take_append_of_le_length hge]
      exact ih

theorem Canonical.last (h : env.Canonical (chain ++ [e])) :
    e = env.nextEntry chain e.block ∧ e.block.prevId = env.topHash chain := by
  generalize hlist : chain ++ [e] = whole at h
  cases h with
  | nil => exact absurd hlist (by simp)
  | @snoc chain' b _ hprev =>
    obtain ⟨rfl, hlast⟩ := append_inj' hlist rfl
    obtain rfl := singleton_inj.mp hlast
    exact ⟨rfl, hprev⟩

theorem Canonical.at {tail : List Entry} (h : env.Canonical (chain ++ e :: tail)) :
    e = env.nextEntry chain e.block ∧ e.block.prevId = env.topHash chain := by
  have hhead : (chain ++ e :: tail).take (chain.length + 1) = chain ++ [e] := by
    rw [take_length_add_append]
    rfl
  have htake := h.take (chain.length + 1)
  rw [hhead] at htake
  exact htake.last

theorem Canonical.extend_blocks {tail : List Entry} (h : env.Canonical (chain ++ tail)) :
    env.extend chain (blocks tail) = chain ++ tail := by
  induction tail generalizing chain with
  | nil => exact (append_nil chain).symm
  | cons e tail ih =>
    obtain ⟨hentry, -⟩ := h.at
    rw [blocks, map_cons, extend, ← hentry]
    have hrest : env.Canonical ((chain ++ [e]) ++ tail) := by
      rwa [append_assoc]
    rw [← blocks, ih hrest, append_assoc]
    rfl

theorem Canonical.extend {bs : List Block} (h : env.Canonical chain)
    (hall : env.AllAccepted chain bs) : env.Canonical (env.extend chain bs) := by
  induction bs generalizing chain with
  | nil => exact h
  | cons b rest ih => exact ih (.snoc h hall.1.prev) hall.2

theorem topHash_take {i : Nat} (h : chain[i]? = some e) :
    env.topHash (chain.take (i + 1)) = env.blockHash e.block := by
  rw [take_add_one, h, Option.toList_some, topHash_concat]

theorem blockHeightOf_eq (h : env.Canonical chain) (hdet : env.HashDetermines) {i : Nat}
    (hi : chain[i]? = some e) :
    env.blockHeightOf chain (env.blockHash e.block) = some i := by
  obtain ⟨hlt, hget⟩ := List.getElem?_eq_some_iff.mp hi
  refine findIdx?_eq_some_iff_getElem.mpr ⟨hlt, by rw [hget]; exact beq_self_eq_true _, ?_⟩
  intro j hji hsame
  have hj : chain[j]? = some chain[j] := getElem?_eq_getElem (hji.trans hlt)
  have htop : env.topHash (chain.take (j + 1)) = env.topHash (chain.take (i + 1)) := by
    rw [topHash_take hj, topHash_take hi]
    exact beq_iff_eq.mp hsame
  have hlen := congrArg length (hdet (h.take _) (h.take _) htop)
  rw [length_take, length_take] at hlen
  omega

theorem blockExists_iff {id : Hash} :
    env.blockExists chain id = true ↔ ∃ b ∈ blocks chain, env.blockHash b = id := by
  simp [blockExists, blockHeightOf, blocks]

theorem topCumulativeDifficulty_mono {whole : List Entry} (h : env.Canonical whole)
    (hpre : chain <+: whole) : topCumulativeDifficulty chain ≤ topCumulativeDifficulty whole := by
  induction h generalizing chain with
  | nil => rw [prefix_nil.mp hpre]
  | @snoc whole b hwhole hprev ih =>
    rcases prefix_concat_iff.mp hpre with rfl | hpre
    · exact le_refl _
    · rw [topCumulativeDifficulty_concat]
      exact (ih hpre).trans (Nat.le_add_left _ _)

end ChainEnv
variable {altChain : List BlockExtendedInfo}
namespace ChainEnv
variable {env : ChainEnv} {db : Db} {b : Block} {supplementOk : Bool}

theorem examineAlternative_of_unknown_parent (halt : db.altBlocks.find? b.prevId = none)
    (hmain : env.blockExists db.chain b.prevId = false) :
    env.examineAlternative db b supplementOk = .ok .orphan ∨
      ∃ bvc, env.examineAlternative db b supplementOk = .ok (.refuse bvc) := by
  unfold examineAlternative
  rw [halt, hmain]
  split
  · exact .inr ⟨_, rfl⟩
  split
  · exact .inr ⟨_, rfl⟩
  split
  · exact .inr ⟨_, rfl⟩
  exact .inl rfl

structure AcceptsAlternative (env : ChainEnv) (db : Db) (b : Block)
    (altChain : List BlockExtendedInfo) (bei : BlockExtendedInfo) : Prop where
  bl : bei.bl = b
  height : bei.height = env.prevHeight db b.prevId + 1
  cumulative : bei.cumulativeDifficulty = env.prevCumulativeDifficulty db b.prevId +
    env.alternativeDifficulty db b altChain
  checkpoint : checkBlock env.checkpoints bei.height (env.blockHash b) = true
  fresh : db.altBlocks.find? (env.blockHash b) = none

theorem examineConnected_cases (altChain : List BlockExtendedInfo) (timestamps : List Nat) :
    (∃ bvc, env.examineConnected db b supplementOk altChain timestamps = .refuse bvc) ∨
      ∃ bei, AcceptsAlternative env db b altChain bei ∧
        env.examineConnected db b supplementOk altChain timestamps = .accept altChain bei
          (env.checkpoints.find? bei.height).isSome
          (decide (topCumulativeDifficulty db.chain < bei.cumulativeDifficulty)) := by
  unfold examineConnected
  split
  · exact .inl ⟨_, rfl⟩
  split
  · exact .inl ⟨_, rfl⟩
  rename_i hcheck
  split
  · exact .inl ⟨_, rfl⟩
  split
  · exact .inl ⟨_, rfl⟩
  split
  · exact .inl ⟨_, rfl⟩
  split
  · exact .inl ⟨_, rfl⟩
  split
  · exact .inl ⟨_, rfl⟩
  rename_i weight _
  split
  · exact .inl ⟨_, rfl⟩
  rename_i hfresh
  refine .inr ⟨env.acceptedInfo db b altChain weight, ⟨rfl, rfl, rfl, not_rejected hcheck, ?_⟩, rfl⟩
  exact Option.not_isSome_iff_eq_none.mp hfresh

theorem examineAlternative_of_known_parent {timestamps : List Nat}
    (hbuild : env.buildAltChain db b.prevId = .ok (some (altChain, timestamps)))
    (hparent : (db.altBlocks.find? b.prevId).isSome = true ∨ env.blockExists db.chain b.prevId =
      true) :
    (∃ bvc, env.examineAlternative db b supplementOk = .ok (.refuse bvc)) ∨
      ∃ bei, AcceptsAlternative env db b altChain bei ∧
        env.examineAlternative db b supplementOk = .ok (.accept altChain bei
          (env.checkpoints.find? bei.height).isSome
          (decide (topCumulativeDifficulty db.chain < bei.cumulativeDifficulty))) := by
  have hknown : ¬ ((db.altBlocks.find? b.prevId).isNone &&
      !env.blockExists db.chain b.prevId) = true := by
    rw [Bool.and_eq_true]
    rintro ⟨hnone, hmissing⟩
    rcases hparent with hsome | hexists
    · rw [Option.isNone_iff_eq_none.mp hnone] at hsome
      cases hsome
    · rw [hexists] at hmissing
      cases hmissing
  unfold examineAlternative
  rw [if_neg hknown, hbuild]
  split
  · exact .inl ⟨_, rfl⟩
  split
  · exact .inl ⟨_, rfl⟩
  split
  · exact .inl ⟨_, rfl⟩
  rcases examineConnected_cases altChain timestamps with ⟨bvc, hrefuse⟩ | ⟨bei, haccept, hverdict⟩
  · exact .inl ⟨bvc, congrArg Except.ok hrefuse⟩
  · exact .inr ⟨bei, haccept, congrArg Except.ok hverdict⟩

end ChainEnv
namespace Blockchain
variable {env : ChainEnv} {s : Blockchain} {b : Block} {supplementOk : Bool}
  {switch : List BlockExtendedInfo → Bool → Exec Blockchain Bool}

theorem handleAlternativeBlockWith_refuse {bvc : BlockVerificationContext}
    (h : env.examineAlternative s.db b supplementOk = .ok (.refuse bvc)) :
    handleAlternativeBlockWith env switch supplementOk b s = .ok (false, bvc) s.markReset := by
  simp only [handleAlternativeBlockWith, exec_modify_bind, exec_get_bind, markReset_db, h]
  rfl

theorem handleAlternativeBlockWith_orphan
    (h : env.examineAlternative s.db b supplementOk = .ok .orphan) :
    handleAlternativeBlockWith env switch supplementOk b s =
      .ok (true, { BlockVerificationContext.initial with markedAsOrphaned := true })
        s.markReset := by
  simp only [handleAlternativeBlockWith, exec_modify_bind, exec_get_bind, markReset_db, h]
  rfl

theorem handleAlternativeBlockWith_store {bei : BlockExtendedInfo}
    (h : env.examineAlternative s.db b supplementOk = .ok (.accept altChain bei false false)) :
    handleAlternativeBlockWith env switch supplementOk b s = .ok (true, .initial)
      (s.markReset.setAlts (s.db.altBlocks.insert (env.blockHash b) bei)) := by
  simp only [handleAlternativeBlockWith, exec_modify_bind, exec_get_bind, markReset_db, h]
  rfl

end Blockchain
end Jero.Chain
