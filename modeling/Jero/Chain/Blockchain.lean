import Jero.Chain.AltDifficulty
import Jero.Machine.Exec

namespace Jero.Chain
open Jero.Machine Jero.Lists Jero.Tx

structure Db where
  chain : List Entry
  altBlocks : SortedMap Hash BlockExtendedInfo

structure Blockchain where
  db : Db
  saved : Option Db
  batchSuccess : Bool
  cache : DifficultyCache
  invalidBlocks : Finset Hash

structure BlockVerificationContext where
  addedToMainChain : Bool
  verifivationFailed : Bool
  markedAsOrphaned : Bool
  alreadyExists : Bool
  badPow : Bool
deriving DecidableEq, Repr

open BlockVerificationContext
namespace BlockVerificationContext

def initial : BlockVerificationContext := ⟨false, false, false, false, false⟩

def failed : BlockVerificationContext := { initial with verifivationFailed := true }

def added : BlockVerificationContext := { initial with addedToMainChain := true }

end BlockVerificationContext

inductive AltVerdict where
  | refuse (bvc : BlockVerificationContext)
  | orphan
  | accept (altChain : List BlockExtendedInfo) (bei : BlockExtendedInfo)
      (isACheckpoint heavier : Bool)

def isInCheckpointZone (points : SortedMap Nat Hash) (height : Nat) : Bool :=
  match points.entries.getLast? with
  | none => false
  | some last => decide (height ≤ last.1)

def checkBlock (points : SortedMap Nat Hash) (height : Nat) (h : Hash) : Bool :=
  match points.find? height with
  | none => true
  | some expected => expected == h

def isAlternativeBlockAllowed (points : SortedMap Nat Hash) (blockchainHeight blockHeight : Nat) :
    Bool :=
  if blockHeight = 0 then false
  else match (points.entries.filter (fun point => point.1 ≤ blockchainHeight)).getLast? with
    | none => true
    | some checkpoint => decide (checkpoint.1 < blockHeight)

def nextGeneratedCoins (already reward : Nat) : Nat :=
  if reward < moneySupply - already then already + reward else moneySupply

def topCumulativeDifficulty (chain : List Entry) : Nat :=
  (chain.getLast?.map Entry.cumulativeDifficulty).getD 0

def topGeneratedCoins (chain : List Entry) : Nat :=
  (chain.getLast?.map Entry.alreadyGeneratedCoins).getD 0

def pushTimestamps (chain : List Entry) : Nat → Nat → List Nat
  | 0, _ => []
  | steps + 1, height =>
    ((chain[height]?.map (fun e => e.block.timestamp)).getD 0) ::
      pushTimestamps chain steps (height - 1)

def completeTimestampsVector (chain : List Entry) (startTopHeight : Nat) (timestamps : List Nat) :
    List Nat :=
  if timestamps.length ≥ timestampCheckWindow then timestamps
  else if ¬ startTopHeight < chain.length then timestamps
  else
    let needElements := timestampCheckWindow - timestamps.length
    let stopOffset := if startTopHeight > needElements then startTopHeight - needElements else 0
    timestamps ++ pushTimestamps chain (startTopHeight - stopOffset) startTopHeight

def walkAltChain (alts : SortedMap Hash BlockExtendedInfo) :
    Nat → Hash → List BlockExtendedInfo → List Nat → List BlockExtendedInfo × List Nat
  | 0, _, altChain, timestamps => (altChain, timestamps)
  | fuel + 1, id, altChain, timestamps =>
    match alts.find? id with
    | none => (altChain, timestamps)
    | some bei =>
      walkAltChain alts fuel bei.bl.prevId (bei :: altChain) (timestamps ++ [bei.bl.timestamp])

def rxSeedheight (seedhashEpochBlocks seedhashEpochLag height : Nat) : Nat :=
  if height ≤ seedhashEpochBlocks + seedhashEpochLag then 0
  else (height - seedhashEpochLag - 1) &&& (2 ^ 64 - 1 - (seedhashEpochBlocks - 1))

namespace ChainEnv
variable (env : ChainEnv)

def blockHeightOf (chain : List Entry) (id : Hash) : Option Nat :=
  chain.findIdx? (fun e => env.blockHash e.block == id)

def blockExists (chain : List Entry) (id : Hash) : Bool := (env.blockHeightOf chain id).isSome

def blockHashFromHeight (chain : List Entry) (height : Nat) : Except String Hash :=
  match chain[height]? with
  | none => .error "Attempt to get hash from height failed -- hash not in db"
  | some e => .ok (env.blockHash e.block)

def hardforkCheck (version : Nat) (b : Block) : Bool :=
  decide (b.majorVersion = version ∧ getBlockVote b ≥ version)

def buildAltChain (db : Db) (prevId : Hash) :
    Except String (Option (List BlockExtendedInfo × List Nat)) :=
  let (altChain, timestamps) :=
    walkAltChain db.altBlocks (db.altBlocks.entries.length + 1) prevId [] []
  match altChain with
  | [] =>
    match env.blockHeightOf db.chain prevId with
    | none => .ok none
    | some height => .ok (some ([], completeTimestampsVector db.chain height timestamps))
  | front :: _ =>
    if ¬ db.chain.length > front.height then .ok none
    else match env.blockHeightOf db.chain front.bl.prevId with
      | none => .ok none
      | some height => do
        let h ← env.blockHashFromHeight db.chain (wsub front.height 1)
        if h ≠ front.bl.prevId then .ok none
        else .ok (some (altChain, completeTimestampsVector db.chain height timestamps))

def prevHeight (db : Db) (prevId : Hash) : Nat :=
  match db.altBlocks.find? prevId with
  | some data => data.height
  | none => (env.blockHeightOf db.chain prevId).getD 0

def prevGeneratedCoins (db : Db) (prevId : Hash) : Nat :=
  match db.altBlocks.find? prevId with
  | some data => data.alreadyGeneratedCoins
  | none => topGeneratedCoins (db.chain.take (env.prevHeight db prevId + 1))

def prevCumulativeDifficulty (db : Db) (prevId : Hash) : Nat :=
  match db.altBlocks.find? prevId with
  | some data => data.cumulativeDifficulty
  | none => topCumulativeDifficulty (db.chain.take (env.prevHeight db prevId + 1))

def alternativeInfo (db : Db) (b : Block) : BlockExtendedInfo :=
  ⟨b, env.prevHeight db b.prevId + 1, 0, 0,
    nextGeneratedCoins (env.prevGeneratedCoins db b.prevId) (outputsAmount b.minerTx.vout)⟩

def alternativeDifficulty (db : Db) (b : Block) (altChain : List BlockExtendedInfo) : Nat :=
  env.getNextDifficultyForAlternativeChain db.chain altChain (env.alternativeInfo db b)

def acceptedInfo (db : Db) (b : Block) (altChain : List BlockExtendedInfo) (weight : Nat) :
    BlockExtendedInfo :=
  { env.alternativeInfo db b with
    blockCumulativeWeight := weight
    cumulativeDifficulty := env.prevCumulativeDifficulty db b.prevId +
      env.alternativeDifficulty db b altChain }

def getBlockIdByHeight (chain : List Entry) (height : Nat) : Hash :=
  (chain[height]?.map fun e => env.blockHash e.block).getD nullHash

def alternativeSeedhash (db : Db) (altChain : List BlockExtendedInfo) (seedheight : Nat) : Hash :=
  if altChain.head?.any (·.height ≤ seedheight) then
    ((altChain.find? (·.height = seedheight + 1)).map (·.bl.prevId)).getD nullHash
  else env.getBlockIdByHeight db.chain seedheight

def examineConnected (db : Db) (b : Block) (supplementOk : Bool)
    (altChain : List BlockExtendedInfo) (timestamps : List Nat) : AltVerdict :=
  if !(checkBlockTimestamp env.now timestamps b.timestamp).1 then .refuse .failed
  else if !checkBlock env.checkpoints (env.alternativeInfo db b).height (env.blockHash b) then
    .refuse .failed
  else if env.alternativeDifficulty db b altChain = 0 then .refuse .initial
  else if !env.altProofOfWork (env.alternativeSeedhash db altChain (rxSeedheight
      env.seedhashEpochBlocks env.seedhashEpochLag (env.alternativeInfo db b).height)) b
      (env.alternativeInfo db b).height
      (env.alternativeDifficulty db b altChain) then
    .refuse { failed with badPow := true }
  else if !env.prevalidateMinerTransaction b (env.alternativeInfo db b).height
      (env.idealVersion (getBlockHeight b)) then .refuse .failed
  else if !supplementOk then .refuse .failed
  else match env.altBlockWeight b with
    | none => .refuse .failed
    | some weight =>
      if (db.altBlocks.find? (env.blockHash b)).isSome then .refuse .initial
      else .accept altChain (env.acceptedInfo db b altChain weight)
        (env.checkpoints.find? (env.alternativeInfo db b).height).isSome
        (decide (topCumulativeDifficulty db.chain <
          (env.acceptedInfo db b altChain weight).cumulativeDifficulty))

def examineAlternative (db : Db) (b : Block) (supplementOk : Bool) : Except String AltVerdict :=
  if getBlockHeight b = 0 then .ok (.refuse .failed)
  else if !isAlternativeBlockAllowed env.checkpoints db.chain.length (getBlockHeight b) then
    .ok (.refuse .failed)
  else if !hardforkCheck (env.votedVersion (getBlockHeight b)) b then .ok (.refuse .failed)
  else if (db.altBlocks.find? b.prevId).isNone && !env.blockExists db.chain b.prevId then
    .ok .orphan
  else match env.buildAltChain db b.prevId with
    | .error e => .error e
    | .ok none => .ok (.refuse .initial)
    | .ok (some (altChain, timestamps)) =>
      .ok (env.examineConnected db b supplementOk altChain timestamps)

end ChainEnv
namespace Blockchain
variable (env : ChainEnv)

def markReset (s : Blockchain) : Blockchain :=
  { s with cache := { s.cache with height := 0, reset := true } }

theorem markReset_db (s : Blockchain) : s.markReset.db = s.db := rfl

def setChain (s : Blockchain) (chain : List Entry) : Blockchain :=
  { s with db := { s.db with chain := chain } }

def setAlts (s : Blockchain) (alts : SortedMap Hash BlockExtendedInfo) : Blockchain :=
  { s with db := { s.db with altBlocks := alts } }

def queryDifficulty (s : Blockchain) : Nat × Blockchain :=
  let (diff, cache) := env.getDifficultyForNextBlock s.db.chain s.cache
  (diff, { s with cache := cache })

def connectBlock (s : Blockchain) (b : Block) (diff baseReward : Nat) : Blockchain :=
  s.setChain (s.db.chain ++ [⟨b, diff + topCumulativeDifficulty s.db.chain,
    nextGeneratedCoins (topGeneratedCoins s.db.chain) baseReward⟩])

def handleBlockToMainChain (b : Block) (s : Blockchain) :
    (Bool × BlockVerificationContext) × Blockchain :=
  let chain := s.db.chain
  let id := env.blockHash b
  if b.prevId ≠ env.topHash chain then ((false, .failed), s)
  else if !ChainEnv.hardforkCheck (env.currentVersion (blocks chain)) b then ((false, .failed), s)
  else if !(checkBlockTimestampMainChain env.now (timestampsOf chain) b.timestamp).1 then
    ((false, .failed), s)
  else
    let (diff, s) := s.queryDifficulty env
    if diff = 0 then ((false, .initial), s)
    else if !env.mainProofOfWork (blocks chain) b diff then
      ((false, { failed with badPow := true }), s)
    else if isInCheckpointZone env.checkpoints chain.length &&
        !checkBlock env.checkpoints chain.length id then ((false, .failed), s)
    else if !env.prevalidateMinerTransaction b chain.length (env.currentVersion (blocks chain)) then
      ((false, .failed), s)
    else match env.connectTxs (blocks chain) b with
      | .refused flagged => ((false, { initial with
          verifivationFailed := flagged }), s)
      | .wrongInputs => ((false, .failed), { s with invalidBlocks := insert id s.invalidBlocks })
      | .storeFailed => ((false, .failed), { s with batchSuccess := false })
      | .connected => ((true, .added),
          ((s.connectBlock b diff (env.baseReward (blocks chain) b)).queryDifficulty env).2)

def popBlock : Exec Blockchain Block := do
  modify markReset
  let s ← get
  match s.db.chain.getLast? with
  | none => throw "Cannot pop the genesis block"
  | some top =>
    if s.db.chain.length ≤ 1 then throw "Cannot pop the genesis block"
    else do
      set (s.setChain s.db.chain.dropLast)
      pure top.block

def popWhile (more : Blockchain → Bool) : Nat → List Block → Exec Blockchain (List Block)
  | 0, popped => pure popped
  | fuel + 1, popped => do
    let s ← get
    if more s then do
      let b ← popBlock
      popWhile more fuel (b :: popped)
    else pure popped

def handleBlock (b : Block) : Exec Blockchain (Bool × BlockVerificationContext) :=
  modifyGet (handleBlockToMainChain env b)

def restoreChain : List Block → Exec Blockchain Bool
  | [] => pure true
  | b :: rest => do
    let (r, bvc) ← handleBlock env b
    if r && bvc.addedToMainChain then restoreChain rest else pure false

def rollbackBlockchainSwitching (originalChain : List Block) (rollbackHeight : Nat) :
    Exec Blockchain Bool := do
  let s ← get
  if rollbackHeight > s.db.chain.length then pure true
  else do
    modify markReset
    let _ ← popWhile (fun s => s.db.chain.length != rollbackHeight) s.db.chain.length []
    restoreChain env originalChain

def removeAltBlocks : List BlockExtendedInfo → Exec Blockchain Unit
  | [] => pure ()
  | bei :: rest => do
    let s ← get
    match s.db.altBlocks.find? (env.blockHash bei.bl) with
    | none => throw "Error locating alternate block in the db"
    | some _ => do
      set (s.setAlts (s.db.altBlocks.erase (env.blockHash bei.bl)))
      removeAltBlocks rest

def connectAltChain : List BlockExtendedInfo → Exec Blockchain (List BlockExtendedInfo)
  | [] => pure []
  | bei :: rest => do
    let (r, bvc) ← handleBlock env bei.bl
    if !r || !bvc.addedToMainChain then pure (bei :: rest) else connectAltChain rest

def pushDisconnected
    (handleAlternative : Block → Exec Blockchain (Bool × BlockVerificationContext)) :
    List Block → Exec Blockchain Unit
  | [] => pure ()
  | b :: rest => do
    let _ ← handleAlternative b
    pushDisconnected handleAlternative rest

def switchWith (handleAlternative : Block → Exec Blockchain (Bool × BlockVerificationContext))
    (altChain : List BlockExtendedInfo) (discardDisconnectedChain : Bool) :
    Exec Blockchain Bool := do
  modify markReset
  let s ← get
  match altChain with
  | [] => pure false
  | front :: _ =>
    if !env.blockExists s.db.chain front.bl.prevId then pure false
    else do
      let disconnected ← popWhile (fun s => env.topHash s.db.chain != front.bl.prevId)
        s.db.chain.length []
      let split ← get
      let remaining ← connectAltChain env altChain
      if remaining.isEmpty then do
        if !discardDisconnectedChain then pushDisconnected handleAlternative disconnected
        removeAltBlocks env altChain
        pure true
      else do
        let _ ← rollbackBlockchainSwitching env disconnected split.db.chain.length
        removeAltBlocks env remaining
        pure false

def handleAlternativeBlockWith (switch : List BlockExtendedInfo → Bool → Exec Blockchain Bool)
    (supplementOk : Bool) (b : Block) : Exec Blockchain (Bool × BlockVerificationContext) := do
  modify markReset
  let s ← get
  match env.examineAlternative s.db b supplementOk with
  | .error e => throw e
  | .ok (.refuse bvc) => pure (false, bvc)
  | .ok .orphan => pure (true, { initial with markedAsOrphaned := true })
  | .ok (.accept altChain bei isACheckpoint heavier) => do
    set (s.setAlts (s.db.altBlocks.insert (env.blockHash b) bei))
    if isACheckpoint || heavier then do
      let r ← switch (altChain ++ [bei]) isACheckpoint
      pure (r, if r then .added else .failed)
    else pure (true, .initial)

def switchToAlternativeBlockchain : Nat → List BlockExtendedInfo → Bool → Exec Blockchain Bool
  | 0 => fun _ _ => throw "out of fuel"
  | fuel + 1 =>
    switchWith env (handleAlternativeBlockWith env (switchToAlternativeBlockchain fuel) true)

def handleAlternativeBlock (fuel : Nat) (supplementOk : Bool) (b : Block) :
    Exec Blockchain (Bool × BlockVerificationContext) :=
  handleAlternativeBlockWith env (switchToAlternativeBlockchain env fuel) supplementOk b

def addNewBlock (fuel : Nat) (supplementOk : Bool) (b : Block) :
    Exec Blockchain (Bool × BlockVerificationContext) :=
  tryCatch (do
    let s ← get
    let id := env.blockHash b
    if env.blockExists s.db.chain id || (s.db.altBlocks.find? id).isSome then
      pure (false, { initial with alreadyExists := true })
    else if id ∈ s.invalidBlocks then
      pure (false, { failed with alreadyExists := true })
    else if b.prevId ≠ env.topHash s.db.chain then handleAlternativeBlock env fuel supplementOk b
    else handleBlock env b)
    (fun _ => pure (false, .failed))

def batchStart (s : Blockchain) : Bool × Blockchain :=
  match s.saved with
  | some _ => (false, s)
  | none => (true, { s with saved := some s.db })

def batchStop (s : Blockchain) : Blockchain := { s with saved := none }

def batchAbort (s : Blockchain) : Blockchain :=
  { s with db := s.saved.getD s.db, saved := none }

def prepareHandleIncomingBlocks (s : Blockchain) : Blockchain :=
  if s.saved.isSome then s else { s with saved := some s.db, batchSuccess := true }

def clearReset (s : Blockchain) : Blockchain :=
  if s.cache.reset then { s with cache := { s.cache with height := 0, reset := false } } else s

def cleanupHandleIncomingBlocks (s : Blockchain) : Blockchain :=
  if s.saved.isNone then s
  else if s.batchSuccess then s.batchStop.clearReset
  else s.batchAbort

def popBlocks (nblocks : Nat) : Exec Blockchain Unit := do
  let stopBatch ← modifyGet batchStart
  let s ← get
  let count := if s.db.chain.length > 0 then min nblocks (s.db.chain.length - 1) else nblocks
  let done ← tryCatch
    (do
      let _ ← popWhile (fun _ => true) count []
      pure true)
    (fun _ => pure false)
  if stopBatch then if done then modify batchStop else modify batchAbort
  else pure ()

def enforcePoints (points : SortedMap Nat Hash) (enforce : Bool) (blockchainHeight : Nat) :
    List (Nat × Hash) → Exec Blockchain Unit
  | [] => pure ()
  | point :: rest => do
    if point.1 ≥ blockchainHeight then enforcePoints points enforce blockchainHeight rest
    else do
      let s ← get
      match env.blockHashFromHeight s.db.chain point.1 with
      | .error e => throw e
      | .ok h => do
        if !checkBlock points point.1 h && enforce then
          let _ ← rollbackBlockchainSwitching env [] (wsub point.1 2)
        enforcePoints points enforce blockchainHeight rest

def checkAgainstCheckpoints (points : SortedMap Nat Hash) (enforce : Bool) :
    Exec Blockchain Unit := do
  let stopBatch ← modifyGet batchStart
  let s ← get
  enforcePoints env points enforce s.db.chain.length points.entries
  if stopBatch then modify batchStop else pure ()

end Blockchain
variable {points : SortedMap Nat Hash} {height : Nat} {expected : Hash}

theorem checkBlock_of_find (hfind : points.find? height = some expected) (id : Hash) :
    checkBlock points height id = true ↔ id = expected := by
  rw [checkBlock, hfind]
  simp only [beq_iff_eq]
  exact eq_comm

theorem isInCheckpointZone_of_find (hfind : points.find? height = some expected) :
    isInCheckpointZone points height = true := by
  have hmem : (height, expected) ∈ points.entries := mem_of_getEntry hfind
  rw [isInCheckpointZone]
  cases hlast : points.entries.getLast? with
  | none =>
    rw [List.getLast?_eq_none_iff.mp hlast] at hmem
    cases hmem
  | some last => exact decide_eq_true (key_le_getLast points.sorted hmem hlast)

theorem lt_of_isAlternativeBlockAllowed {blockchainHeight blockHeight : Nat}
    (hallowed : isAlternativeBlockAllowed points blockchainHeight blockHeight = true)
    (hfind : points.find? height = some expected) (hle : height ≤ blockchainHeight) :
    height < blockHeight := by
  have hmem : (height, expected) ∈
      points.entries.filter (fun point => point.1 ≤ blockchainHeight) :=
    List.mem_filter.mpr ⟨mem_of_getEntry hfind, decide_eq_true hle⟩
  rw [isAlternativeBlockAllowed] at hallowed
  split at hallowed
  · cases hallowed
  · split at hallowed
    · rename_i hnone
      rw [List.getLast?_eq_none_iff.mp hnone] at hmem
      cases hmem
    · rename_i checkpoint hlast
      have hpast := key_le_getLast (points.sorted.filter _) hmem hlast
      exact lt_of_le_of_lt hpast (of_decide_eq_true hallowed)

end Jero.Chain
