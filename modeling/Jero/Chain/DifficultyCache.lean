import Jero.Chain.Blockchain

namespace Jero.Chain
open Jero.Tx Jero.Lists List ChainEnv

theorem topCumulativeDifficulty_concat (chain : List Entry) (e : Entry) :
    topCumulativeDifficulty (chain ++ [e]) = e.cumulativeDifficulty := by
  simp [topCumulativeDifficulty]

namespace ChainEnv
variable (env : ChainEnv)

theorem topHash_concat (chain : List Entry) (e : Entry) :
    env.topHash (chain ++ [e]) = env.blockHash e.block := by
  simp [topHash]

def difficultyAt (chain : List Entry) : Nat :=
  if env.fixedDifficulty ≠ 0 then if chain.length ≠ 0 then env.fixedDifficulty else 1
  else env.freshDifficulty chain

def nextEntry (chain : List Entry) (b : Block) : Entry :=
  ⟨b, env.difficultyAt chain + topCumulativeDifficulty chain,
    nextGeneratedCoins (topGeneratedCoins chain) (env.baseReward (blocks chain) b)⟩

inductive Canonical : List Entry → Prop where
  | nil : Canonical []
  | snoc {chain : List Entry} {b : Block} : Canonical chain → b.prevId = env.topHash chain →
      Canonical (chain ++ [env.nextEntry chain b])

def HashDetermines : Prop :=
  ∀ ⦃c d : List Entry⦄, env.Canonical c → env.Canonical d → env.topHash c = env.topHash d → c = d

variable {env}

theorem Canonical.dropLast {chain : List Entry} (h : env.Canonical chain) :
    env.Canonical chain.dropLast := by
  cases h with
  | nil => exact .nil
  | snoc hchain _ =>
    rw [dropLast_concat]
    exact hchain

theorem hashDetermines_of_injective (hinj : Function.Injective env.blockHash)
    (hnull : ∀ b, env.blockHash b ≠ nullHash) : env.HashDetermines := by
  intro c d hc
  induction hc generalizing d with
  | nil =>
    intro hd htop
    cases hd with
    | nil => rfl
    | snoc hd' hprev =>
      rw [topHash_concat] at htop
      exact absurd htop.symm (hnull _)
  | @snoc chain b hchain hprev ih =>
    intro hd htop
    cases hd with
    | nil =>
      rw [topHash_concat] at htop
      exact absurd htop (hnull _)
    | @snoc chain' b' hchain' hprev' =>
      rw [topHash_concat, topHash_concat] at htop
      obtain rfl : b = b' := hinj htop
      obtain rfl := ih hchain' (hprev.symm.trans hprev')
      rfl

theorem freshDifficulty_nil : env.freshDifficulty [] = 1 := by
  simp [freshDifficulty, windowEntries, timestampsOf, nextDifficulty]

theorem difficultyAt_nil : env.difficultyAt [] = 1 := by
  unfold difficultyAt
  split
  · rfl
  · exact freshDifficulty_nil

end ChainEnv

theorem keepLast_window {chain : List Entry} (e : Entry)
    (h : difficultyBlocksCount ≤ (windowEntries chain).length) (f : Entry → Nat) :
    keepLast ((windowEntries chain).map f ++ [f e]) = (windowEntries (chain ++ [e])).map f := by
  have hne : chain ≠ [] := by
    rintro rfl
    exact absurd h (by decide)
  rw [windowEntries_eq hne, length_drop] at h
  rw [windowEntries_eq hne, windowEntries_eq (by simp), length_append, length_singleton,
    keepLast, length_append, length_map, length_drop, length_singleton]
  have hcut : chain.length - min difficultyBlocksCount (chain.length - 1) ≤ chain.length := by omega
  have happ : (chain.drop (chain.length - min difficultyBlocksCount (chain.length - 1))).map f ++
      [f e] = ((chain ++ [e]).drop (chain.length -
        min difficultyBlocksCount (chain.length - 1))).map f := by
    rw [drop_append_of_le_length hcut, map_append, map_singleton]
  rw [happ, ← map_drop, drop_drop]
  refine congrArg (fun n => ((chain ++ [e]).drop n).map f) ?_
  omega

structure CachedFor (env : ChainEnv) (cached : List Entry) (cache : DifficultyCache) : Prop where
  canonical : env.Canonical cached
  topHash : cache.topHash = env.topHash cached
  difficulty : cache.difficulty = env.freshDifficulty cached
  window : cache.reset = false → cache.height ≠ 0 → cache.height = cached.length ∧
    cache.timestamps = timestampsOf (windowEntries cached) ∧
    cache.difficulties = difficultiesOf (windowEntries cached)

structure Coherent (env : ChainEnv) (s : Blockchain) : Prop where
  canonical : env.Canonical s.db.chain
  savedCanonical : ∀ db, s.saved = some db → env.Canonical db.chain
  cached : env.fixedDifficulty = 0 → ∃ cached, CachedFor env cached s.cache ∧
    (s.cache.reset = false → s.cache.height ≠ 0 → cached.length < s.db.chain.length →
      cached <+: s.db.chain)
  savedPrefix : s.cache.reset = false → ∀ db, s.saved = some db → db.chain <+: s.db.chain

section
variable {env : ChainEnv} {chain cached : List Entry} {cache : DifficultyCache}

theorem getDifficultyForNextBlock_miss (hfixed : env.fixedDifficulty = 0)
    (h : CachedFor env cached cache)
    (hbase : cache.reset = false → cache.height ≠ 0 → cached.length < chain.length →
      cached <+: chain) (hmiss : env.topHash chain ≠ cache.topHash) :
    env.getDifficultyForNextBlock chain cache =
      (env.freshDifficulty chain, { cache with
        timestamps := timestampsOf (windowEntries chain)
        difficulties := difficultiesOf (windowEntries chain)
        height := chain.length
        topHash := env.topHash chain
        difficulty := env.freshDifficulty chain }) := by
  rw [getDifficultyForNextBlock, if_neg (not_not.mpr hfixed), if_neg hmiss]
  by_cases hadvance : (if cache.reset then 0 else cache.height) ≠ 0 ∧
      chain.length = (if cache.reset then 0 else cache.height) + 1 ∧
      cache.timestamps.length ≥ difficultyBlocksCount
  · have hreset : cache.reset = false := by
      by_contra htrue
      rw [Bool.not_eq_false] at htrue
      exact hadvance.1 (by rw [htrue]; rfl)
    simp only [hreset, Bool.false_eq_true, if_false] at hadvance
    obtain ⟨hheight, hnext, hfull⟩ := hadvance
    obtain ⟨hlen, hts, hds⟩ := h.window hreset hheight
    obtain ⟨rest, hrest⟩ := hbase hreset hheight (by omega)
    obtain ⟨e, rfl⟩ : ∃ e, rest = [e] := by
      refine length_eq_one_iff.mp ?_
      rw [← hrest, length_append] at hnext
      omega
    subst hrest
    have hlast : (cached ++ [e]).drop ((cached ++ [e]).length - 1) = [e] := by simp
    rw [hts, timestampsOf, length_map] at hfull
    have htimes : keepLast (cache.timestamps ++ timestampsOf [e]) =
        timestampsOf (windowEntries (cached ++ [e])) := by
      rw [hts]
      exact keepLast_window e hfull (fun e => e.block.timestamp)
    have hdiffs : keepLast (cache.difficulties ++ difficultiesOf [e]) =
        difficultiesOf (windowEntries (cached ++ [e])) := by
      rw [hds]
      exact keepLast_window e hfull Entry.cumulativeDifficulty
    have hcond : cache.height ≠ 0 ∧ (cached ++ [e]).length = cache.height + 1 ∧
        cache.timestamps.length ≥ difficultyBlocksCount := by
      refine ⟨hheight, hnext, ?_⟩
      rw [hts, timestampsOf, length_map]
      exact hfull
    simp only [hreset, Bool.false_eq_true, if_false, if_pos hcond, hlast, htimes, hdiffs]
    rfl
  · simp only [if_neg hadvance]
    rfl

end
section
variable {env : ChainEnv} {s : Blockchain}

theorem Coherent.reset (hcanonical : env.Canonical s.db.chain)
    (hsaved : ∀ db, s.saved = some db → env.Canonical db.chain)
    (hcached : env.fixedDifficulty = 0 → ∃ cached, CachedFor env cached s.cache)
    (hreset : s.cache.reset = true) : Coherent env s := by
  refine ⟨hcanonical, hsaved, ?_, ?_⟩
  · intro hfixed
    obtain ⟨cached, hcached⟩ := hcached hfixed
    refine ⟨cached, hcached, ?_⟩
    intro hfalse
    rw [hreset] at hfalse
    cases hfalse
  · intro hfalse
    rw [hreset] at hfalse
    cases hfalse

end
namespace Blockchain
variable {env : ChainEnv} {s : Blockchain}

theorem queryDifficulty_hit (hfixed : env.fixedDifficulty = 0)
    (hhit : env.topHash s.db.chain = s.cache.topHash) :
    s.queryDifficulty env = (s.cache.difficulty, s) := by
  rw [queryDifficulty, getDifficultyForNextBlock, if_neg (not_not.mpr hfixed), if_pos hhit]

variable (h : Coherent env s)
include h

theorem queryDifficulty_eq (hdet : env.HashDetermines) :
    (s.queryDifficulty env).1 = env.difficultyAt s.db.chain ∧
      (s.queryDifficulty env).2.db = s.db ∧ (s.queryDifficulty env).2.saved = s.saved ∧
      (s.queryDifficulty env).2.cache.reset = s.cache.reset ∧
      (env.fixedDifficulty = 0 → CachedFor env s.db.chain (s.queryDifficulty env).2.cache) := by
  by_cases hfixed : env.fixedDifficulty = 0
  swap
  · rw [queryDifficulty, getDifficultyForNextBlock, difficultyAt, if_pos hfixed, if_pos hfixed]
    exact ⟨rfl, rfl, rfl, rfl, fun hzero => absurd hzero hfixed⟩
  obtain ⟨cached, hcached, hbase⟩ := h.cached hfixed
  rw [difficultyAt, if_neg (not_not.mpr hfixed)]
  by_cases hhit : env.topHash s.db.chain = s.cache.topHash
  · have hsame : s.db.chain = cached :=
      hdet h.canonical hcached.canonical (hhit.trans hcached.topHash)
    rw [queryDifficulty_hit hfixed hhit, hsame]
    exact ⟨hcached.difficulty, rfl, rfl, rfl, fun _ => hcached⟩
  · rw [queryDifficulty, getDifficultyForNextBlock_miss hfixed hcached hbase hhit]
    exact ⟨rfl, rfl, rfl, rfl, fun _ => ⟨h.canonical, rfl, rfl, fun _ _ => ⟨rfl, rfl, rfl⟩⟩⟩

theorem queryDifficulty_coherent (hdet : env.HashDetermines) :
    Coherent env (s.queryDifficulty env).2 := by
  obtain ⟨-, hdb, hsaved, hreset, hcached⟩ := queryDifficulty_eq h hdet
  refine ⟨?_, ?_, fun hfixed => ⟨s.db.chain, hcached hfixed, ?_⟩, ?_⟩
  · rw [hdb]
    exact h.canonical
  · rw [hsaved]
    exact h.savedCanonical
  · intro _ _ hlt
    rw [hdb] at hlt
    exact absurd hlt (lt_irrefl _)
  · rw [hreset, hsaved, hdb]
    exact h.savedPrefix

theorem markReset_setChain_coherent {chain : List Entry} (hchain : env.Canonical chain) :
    Coherent env (s.markReset.setChain chain) := by
  refine Coherent.reset hchain h.savedCanonical ?_ rfl
  intro hfixed
  obtain ⟨cached, hcached, -⟩ := h.cached hfixed
  exact ⟨cached, hcached.canonical, hcached.topHash, hcached.difficulty, fun hfalse => by cases hfalse⟩

theorem markReset_coherent : Coherent env s.markReset :=
  markReset_setChain_coherent h h.canonical

theorem setAlts_coherent (alts : SortedMap Hash BlockExtendedInfo) :
    Coherent env (s.setAlts alts) :=
  ⟨h.canonical, h.savedCanonical, h.cached, h.savedPrefix⟩

end Blockchain
end Jero.Chain
