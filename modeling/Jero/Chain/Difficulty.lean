import Jero.Chain.Block

namespace Jero.Chain
open Jero.Machine Jero.Tx BlockExtendedInfo

def difficultyWindow : Nat := 720

def difficultyLag : Nat := 15

def difficultyCut : Nat := 60

def difficultyBlocksCount : Nat := difficultyWindow + difficultyLag

def nextDifficulty (timestamps cumulativeDifficulties : List Nat) (targetSeconds : Nat) : Nat :=
  let ts := timestamps.take difficultyWindow
  let cumulative := cumulativeDifficulties.take difficultyWindow
  let length := ts.length
  if length ≤ 1 then 1
  else
    let sorted := ts.insertionSort (· ≤ ·)
    let kept := difficultyWindow - 2 * difficultyCut
    let cutBegin := if length ≤ kept then 0 else (length - kept + 1) / 2
    let cutEnd := if length ≤ kept then length else cutBegin + kept
    let timeSpan := max 1 (wsub (sorted.getD (cutEnd - 1) 0) (sorted.getD cutBegin 0))
    let totalWork :=
      (cumulative.getD (cutEnd - 1) 0 + 2 ^ 128 - cumulative.getD cutBegin 0) % 2 ^ 128
    let res := (totalWork * targetSeconds + timeSpan - 1) / timeSpan
    if res > 2 ^ 128 - 1 then 0 else res

structure DifficultyCache where
  timestamps : List Nat
  difficulties : List Nat
  height : Nat
  reset : Bool
  topHash : Hash
  difficulty : Nat
deriving DecidableEq, Repr

def DifficultyCache.initial : DifficultyCache := ⟨[], [], 0, true, nullHash, 1⟩

def timestampsOf (entries : List Entry) : List Nat := entries.map (fun e => e.block.timestamp)

def difficultiesOf (entries : List Entry) : List Nat := entries.map Entry.cumulativeDifficulty

def windowEntries (chain : List Entry) : List Entry :=
  let offset := chain.length - min chain.length difficultyBlocksCount
  chain.drop (if offset = 0 then offset + 1 else offset)

def keepLast (values : List Nat) : List Nat :=
  values.drop (values.length - difficultyBlocksCount)

namespace ChainEnv
variable (env : ChainEnv)

def getDifficultyForNextBlock (chain : List Entry) (cache : DifficultyCache) :
    Nat × DifficultyCache :=
  if env.fixedDifficulty ≠ 0 then
    (if chain.length ≠ 0 then env.fixedDifficulty else 1, cache)
  else if env.topHash chain = cache.topHash then (cache.difficulty, cache)
  else
    let height := chain.length
    let cachedHeight := if cache.reset then 0 else cache.height
    let advance := cachedHeight ≠ 0 ∧ height = cachedHeight + 1 ∧
      cache.timestamps.length ≥ difficultyBlocksCount
    let timestamps :=
      if advance then keepLast (cache.timestamps ++ timestampsOf (chain.drop (height - 1)))
      else timestampsOf (windowEntries chain)
    let difficulties :=
      if advance then keepLast (cache.difficulties ++ difficultiesOf (chain.drop (height - 1)))
      else difficultiesOf (windowEntries chain)
    let diff := nextDifficulty timestamps difficulties (env.getDifficultyTarget chain)
    (diff, { cache with
      timestamps := timestamps
      difficulties := difficulties
      height := height
      topHash := env.topHash chain
      difficulty := diff })

def fillBackwards (value : BlockExtendedInfo → Nat) :
    List BlockExtendedInfo → Nat → List Nat → List Nat
  | [], _, out => out
  | bei :: rest, count, out =>
    let filled := out.set (difficultyBlocksCount - 1 - count) (value bei)
    if count + 1 ≥ difficultyBlocksCount then filled else fillBackwards value rest (count + 1) filled

def alternativeWindow (chain : List Entry) (altChain : List BlockExtendedInfo)
    (bei : BlockExtendedInfo) : Option (List Nat × List Nat) :=
  if altChain.length < difficultyBlocksCount then
    let stop := (altChain.head?.map height).getD bei.height
    let count := min (difficultyBlocksCount - min difficultyBlocksCount altChain.length) stop
    let start := if stop - count = 0 then stop - count + 1 else stop - count
    let mainEntries := (chain.drop start).take (stop - start)
    if altChain.length + mainEntries.length ≤ difficultyBlocksCount then
      some (timestampsOf mainEntries ++ altChain.map (fun b => b.bl.timestamp),
        difficultiesOf mainEntries ++ altChain.map cumulativeDifficulty)
    else none
  else
    some (fillBackwards (fun b => b.bl.timestamp) altChain.reverse 0
        (List.replicate difficultyBlocksCount 0),
      fillBackwards cumulativeDifficulty altChain.reverse 0
        (List.replicate difficultyBlocksCount 0))

def getNextDifficultyForAlternativeChain (chain : List Entry) (altChain : List BlockExtendedInfo)
    (bei : BlockExtendedInfo) : Nat :=
  if env.fixedDifficulty ≠ 0 then if chain.length ≠ 0 then env.fixedDifficulty else 1
  else match alternativeWindow chain altChain bei with
    | none => 0
    | some (timestamps, difficulties) =>
      nextDifficulty timestamps difficulties (difficultyTarget (env.idealVersion bei.height))

end ChainEnv
end Jero.Chain
