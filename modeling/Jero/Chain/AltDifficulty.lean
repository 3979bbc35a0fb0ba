import Jero.Chain.Difficulty

namespace Jero.Chain
open Jero.Tx List BlockExtendedInfo
variable {altChain : List BlockExtendedInfo} {main : List Entry} {f : Nat} {bei : BlockExtendedInfo}

theorem windowEntries_eq {chain : List Entry} (h : chain ≠ []) :
    windowEntries chain =
      chain.drop (chain.length - min difficultyBlocksCount (chain.length - 1)) := by
  have hpos : 0 < chain.length := length_pos_iff.mpr h
  simp only [windowEntries]
  congr 1
  split_ifs <;> omega

theorem timestampsOf_append (a b : List Entry) :
    timestampsOf (a ++ b) = timestampsOf a ++ timestampsOf b := map_append

theorem difficultiesOf_append (a b : List Entry) :
    difficultiesOf (a ++ b) = difficultiesOf a ++ difficultiesOf b := map_append

namespace ChainEnv
variable (value : BlockExtendedInfo → Nat)

theorem fillBackwards_eq (rest : List BlockExtendedInfo)
    (count : Nat) (done : List Nat) (hcount : count < difficultyBlocksCount)
    (hrest : difficultyBlocksCount - count ≤ rest.length) :
    fillBackwards value rest count (List.replicate (difficultyBlocksCount - count) 0 ++ done) =
      ((rest.take (difficultyBlocksCount - count)).reverse).map value ++ done := by
  induction rest generalizing count done with
  | nil => simp at hrest; omega
  | cons bei rest ih =>
    obtain ⟨n, hn⟩ : ∃ n, difficultyBlocksCount - count = n + 1 :=
      ⟨difficultyBlocksCount - count - 1, by omega⟩
    have hindex : difficultyBlocksCount - 1 - count = n := by omega
    have hset : (replicate (n + 1) 0 ++ done).set n (value bei) =
        replicate n 0 ++ (value bei :: done) := by
      rw [replicate_succ', append_assoc, set_append_right _ _ (by simp)]
      simp
    simp only [fillBackwards, hn, hindex, hset, take_succ_cons, reverse_cons,
      map_append, map_cons, map_nil, append_assoc, singleton_append]
    split
    · obtain rfl : n = 0 := by omega
      simp
    · have hnext : difficultyBlocksCount - (count + 1) = n := by omega
      rw [length_cons] at hrest
      have hstep := ih (count + 1) (value bei :: done) (by omega) (by omega)
      rwa [hnext] at hstep

theorem fillBackwards_last (h : difficultyBlocksCount ≤ altChain.length) :
    fillBackwards value altChain.reverse 0 (List.replicate difficultyBlocksCount 0) =
      (altChain.drop (altChain.length - difficultyBlocksCount)).map value := by
  have hfill := fillBackwards_eq value altChain.reverse 0 [] (by decide) (by simpa using h)
  simp only [Nat.sub_zero, append_nil] at hfill
  rw [hfill, reverse_take, reverse_reverse, length_reverse]

structure Forks (main : List Entry) (f : Nat) (altChain : List BlockExtendedInfo)
    (bei : BlockExtendedInfo) : Prop where
  pos : 1 ≤ f
  le : f ≤ main.length
  front : ∀ first ∈ altChain.head?, first.height = f
  back : bei.height = f + altChain.length

def forkedChain (main : List Entry) (f : Nat) (altChain : List BlockExtendedInfo) : List Entry :=
  main.take f ++ altChain.map entry

section
variable (h : Forks main f altChain bei)
include h

theorem Forks.stop : (altChain.head?.map height).getD bei.height = f := by
  cases altChain with
  | nil => simpa using h.back
  | cons first rest => exact h.front first rfl

theorem Forks.length : (forkedChain main f altChain).length = f + altChain.length := by
  rw [forkedChain, length_append, length_take, length_map, min_eq_left h.le]

theorem Forks.window {start : Nat}
    (hstart : f + altChain.length - min difficultyBlocksCount (f + altChain.length - 1) = start) :
    windowEntries (forkedChain main f altChain) =
      (main.take f).drop start ++ (altChain.map entry).drop (start - f) := by
  have hpos := h.pos
  have hne : forkedChain main f altChain ≠ [] :=
    ne_nil_of_length_pos (by rw [h.length]; omega)
  rw [windowEntries_eq hne, h.length, hstart, forkedChain, drop_append, length_take,
    min_eq_left h.le]

theorem window_short (hshort : altChain.length < difficultyBlocksCount) {start : Nat}
    (hstart : start = max 1 (f - min (difficultyBlocksCount - altChain.length) f)) :
    windowEntries (forkedChain main f altChain) =
      (main.drop start).take (f - start) ++ altChain.map entry := by
  have hpos := h.pos
  have hfirst : start - f = 0 := by omega
  rw [h.window (show _ = start by omega), drop_take, hfirst, drop_zero]

theorem window_long (hlong : difficultyBlocksCount ≤ altChain.length) :
    windowEntries (forkedChain main f altChain) =
      (altChain.drop (altChain.length - difficultyBlocksCount)).map entry := by
  have hpos := h.pos
  have hstart : f + altChain.length - min difficultyBlocksCount (f + altChain.length - 1) =
      f + (altChain.length - difficultyBlocksCount) := by omega
  rw [h.window hstart, map_drop]
  simp

theorem alternativeWindow_eq :
    alternativeWindow main altChain bei =
      some (timestampsOf (windowEntries (forkedChain main f altChain)),
        difficultiesOf (windowEntries (forkedChain main f altChain))) := by
  unfold alternativeWindow
  split
  · rename_i hshort
    simp only [h.stop]
    generalize hstart : (if f - min (difficultyBlocksCount - min difficultyBlocksCount
      altChain.length) f = 0 then f - min (difficultyBlocksCount - min difficultyBlocksCount
      altChain.length) f + 1 else f - min (difficultyBlocksCount - min difficultyBlocksCount
      altChain.length) f) = start
    have hmax : start = max 1 (f - min (difficultyBlocksCount - altChain.length) f) := by
      rw [← hstart]
      split_ifs <;> omega
    have hfit : altChain.length + ((main.drop start).take (f - start)).length ≤
        difficultyBlocksCount := by
      rw [length_take, length_drop]
      omega
    rw [if_pos hfit, window_short h hshort hmax, timestampsOf_append, difficultiesOf_append]
    simp [timestampsOf, difficultiesOf, Function.comp_def, entry]
  · rename_i hlong
    rw [fillBackwards_last _ (not_lt.mp hlong), fillBackwards_last _ (not_lt.mp hlong),
      window_long h (not_lt.mp hlong)]
    simp [timestampsOf, difficultiesOf, Function.comp_def, entry]

end

def freshDifficulty (env : ChainEnv) (chain : List Entry) : Nat :=
  nextDifficulty (timestampsOf (windowEntries chain)) (difficultiesOf (windowEntries chain))
    (env.getDifficultyTarget chain)

structure Cold (env : ChainEnv) (chain : List Entry) (cache : DifficultyCache) : Prop where
  unseen : env.topHash chain ≠ cache.topHash
  empty : cache.height = 0

theorem alternative_difficulty_eq_main {env : ChainEnv} (hfixed : env.fixedDifficulty = 0)
    {main : List Entry} {f : Nat} {altChain : List BlockExtendedInfo} {bei : BlockExtendedInfo}
    (h : Forks main f altChain bei) (htarget : difficultyTarget (env.idealVersion bei.height) =
      env.getDifficultyTarget (forkedChain main f altChain)) :
    let chain := forkedChain main f altChain
    let window := chain.drop (chain.length - min 735 (chain.length - 1))
    alternativeWindow main altChain bei = some (timestampsOf window, difficultiesOf window) ∧
      ∀ cache, env.Cold chain cache →
        env.getNextDifficultyForAlternativeChain main altChain bei =
          (env.getDifficultyForNextBlock chain cache).1 := by
  intro chain window
  have hpos := h.pos
  have hne : chain ≠ [] := ne_nil_of_length_pos (by rw [h.length]; omega)
  have hwindow := alternativeWindow_eq h
  refine ⟨?_, ?_⟩
  · rw [hwindow, windowEntries_eq hne]
    rfl
  · intro cache hcold
    have hheight : (if cache.reset = true then 0 else cache.height) = 0 := by
      rw [hcold.empty]
      exact ite_self 0
    have hfresh : (env.getDifficultyForNextBlock chain cache).1 = env.freshDifficulty chain := by
      unfold getDifficultyForNextBlock
      rw [if_neg (not_not.mpr hfixed), if_neg hcold.unseen]
      simp [hheight, freshDifficulty]
    rw [hfresh]
    unfold getNextDifficultyForAlternativeChain
    rw [if_neg (not_not.mpr hfixed), hwindow]
    simp only [freshDifficulty, htarget]
    rfl

def sampleBlock (height timestamp : Nat) (prevId : Hash) : Block :=
  ⟨2, 2, timestamp, prevId, 0, { Transaction.empty with vin := [.gen height] }, []⟩

def sampleEnv : ChainEnv where
  blockHash := fun b => 1000 * (getBlockHeight b + 1) + b.timestamp
  fixedDifficulty := 0
  now := 100000
  currentVersion := fun _ => 2
  idealVersion := fun _ => 2
  votedVersion := fun _ => 2
  checkpoints := .empty
  mainProofOfWork := fun _ _ _ => true
  seedhashEpochBlocks := 2
  seedhashEpochLag := 1
  altProofOfWork := fun _ _ _ _ => true
  prevalidateMinerTransaction := fun _ _ _ => true
  connectTxs := fun _ _ => .connected
  baseReward := fun _ _ => 0
  altBlockWeight := fun _ => some 0

def sampleMain : List Entry :=
  [⟨sampleBlock 0 0 nullHash, 1, 0⟩, ⟨sampleBlock 1 120 1000, 2, 0⟩, ⟨sampleBlock 2 240 2120, 3, 0⟩]

def sampleAlt : BlockExtendedInfo := ⟨sampleBlock 2 300 2120, 2, 0, 4, 0⟩

theorem sample_alternative_difficulty :
    sampleEnv.getNextDifficultyForAlternativeChain sampleMain [sampleAlt]
        ⟨sampleBlock 3 400 3300, 3, 0, 0, 0⟩ =
      (sampleEnv.getDifficultyForNextBlock (forkedChain sampleMain 2 [sampleAlt]) .initial).1 :=
  (alternative_difficulty_eq_main rfl ⟨by decide, by decide, by simp [sampleAlt], rfl⟩ rfl).2 .initial
    ⟨by decide, rfl⟩

end ChainEnv
end Jero.Chain
