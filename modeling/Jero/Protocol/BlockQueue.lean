import Jero.Lists.SortedMap
import Jero.Tx.Basic

namespace Jero.Protocol
open Jero.Machine Jero.Lists Jero.Tx

def maxBlockNumber : Nat := 500000000

def pruningStripeSize : Nat := 4096

def pruningLogStripes : Nat := 3

def pruningTipBlocks : Nat := 5500

def getPruningLogStripes (pruningSeed : Nat) : Nat := pruningSeed / 2 ^ 7 % 2 ^ 3

def getSeedStripe (pruningSeed : Nat) : Nat :=
  if pruningSeed = 0 then 0 else 1 + pruningSeed % 2 ^ 7

def getPruningStripe (blockHeight blockchainHeight logStripes : Nat) : Nat :=
  if wrap (blockHeight + pruningTipBlocks) ≥ blockchainHeight then 0
  else blockHeight / pruningStripeSize % 2 ^ logStripes + 1

def hasUnprunedBlock (blockHeight blockchainHeight pruningSeed : Nat) : Bool :=
  let stripe := getSeedStripe pruningSeed
  if stripe = 0 then true
  else
    let blockStripe :=
      getPruningStripe blockHeight blockchainHeight (getPruningLogStripes pruningSeed)
    blockStripe = 0 ∨ blockStripe = stripe

def getNextUnprunedBlockHeight (blockHeight blockchainHeight pruningSeed : Nat) : Nat :=
  if blockHeight > maxBlockNumber + 1 ∨ blockchainHeight > maxBlockNumber + 1 then blockHeight
  else
    let stripe := getSeedStripe pruningSeed
    if stripe = 0 ∨ blockHeight + pruningTipBlocks ≥ blockchainHeight then blockHeight
    else
      let seedLogStripes := getPruningLogStripes pruningSeed
      let logStripes := if seedLogStripes ≠ 0 then seedLogStripes else pruningLogStripes
      let blockStripe := blockHeight / pruningStripeSize % 2 ^ logStripes + 1
      if blockStripe = stripe then blockHeight
      else
        let cycles := blockHeight / pruningStripeSize / 2 ^ logStripes
        let cycleStart := cycles + if stripe > blockStripe then 0 else 1
        let h := cycleStart * (pruningStripeSize * 2 ^ logStripes) + (stripe - 1) * pruningStripeSize
        if h + pruningTipBlocks > blockchainHeight then
          if blockchainHeight < pruningTipBlocks then 0 else blockchainHeight - pruningTipBlocks
        else if h < blockHeight then blockHeight
        else h

structure Span (β : Type) where
  hashes : List Hash
  blocks : List β
  connectionId : Nat
  nblocks : Nat
deriving DecidableEq, Repr

structure BlockQueue (β : Type) where
  blocks : SortedMap Nat (Span β)
  requestedHashes : Finset Hash
  haveBlocks : Hash → Option Nat

namespace BlockQueue
variable {β : Type}

def empty : BlockQueue β := ⟨.empty, ∅, fun _ => none⟩

def requested (q : BlockQueue β) (hash : Hash) : Bool := hash ∈ q.requestedHashes

def haveHeight (q : BlockQueue β) (hash : Hash) : Nat :=
  match q.haveBlocks hash with
  | none => 2 ^ 64 - 1
  | some height => height

def forget (q : BlockQueue β) : List Hash → BlockQueue β
  | [] => q
  | h :: hashes =>
    forget { q with
      requestedHashes := q.requestedHashes.erase h
      haveBlocks := Function.update q.haveBlocks h none } hashes

def eraseBlock (q : BlockQueue β) (start : Nat) (span : Span β) : BlockQueue β :=
  let q := q.forget span.hashes
  { q with blocks := q.blocks.erase start }

def eraseWhere (erased : Nat → Span β → Bool) : List (Nat × Span β) → BlockQueue β → BlockQueue β
  | [], q => q
  | (start, span) :: rest, q =>
    eraseWhere erased rest (if erased start span then q.eraseBlock start span else q)

def flushSpans (q : BlockQueue β) (connectionId : Nat) (all : Bool) : BlockQueue β :=
  eraseWhere (fun _ span => span.connectionId = connectionId ∧ (all ∨ span.blocks.length = 0))
    q.blocks.entries q

def flushStaleSpans (q : BlockQueue β) (liveConnections : List Nat) : BlockQueue β :=
  eraseWhere (fun _ span => span.blocks.isEmpty ∧ span.connectionId ∉ liveConnections)
    q.blocks.entries q

def removeSpans (q : BlockQueue β) (connectionId startBlockHeight : Nat) : BlockQueue β :=
  eraseWhere (fun start span => span.connectionId = connectionId ∧ start ≤ startBlockHeight)
    q.blocks.entries q

def removeSpan (q : BlockQueue β) (startBlockHeight : Nat) : Option (List Hash) × BlockQueue β :=
  match q.blocks.find? startBlockHeight with
  | none => (none, q)
  | some span => (some span.hashes, q.eraseBlock startBlockHeight span)

def request (q : BlockQueue β) : List Hash → BlockQueue β
  | [] => q
  | h :: hashes => request { q with requestedHashes := insert h q.requestedHashes } hashes

def setSpanHashes (q : BlockQueue β) (startHeight connectionId : Nat) (hashes : List Hash) :
    BlockQueue β :=
  match q.blocks.find? startHeight with
  | none => q
  | some span =>
    if span.connectionId ≠ connectionId then q
    else
      let q := (q.eraseBlock startHeight span).request hashes
      { q with blocks := q.blocks.insert startHeight { span with hashes := hashes } }

def receive (q : BlockQueue β) : List Hash → Nat → BlockQueue β
  | [], _ => q
  | h :: hashes, height =>
    receive { q with
      requestedHashes := insert h q.requestedHashes
      haveBlocks :=
        if (q.haveBlocks h).isSome then q.haveBlocks
        else Function.update q.haveBlocks h (some (wrap height)) } hashes (height + 1)

def addBlocks (q : BlockQueue β) (height : Nat) (bcel : List β) (connectionId : Nat) :
    BlockQueue β :=
  let (hashes, q) := q.removeSpan height
  let q := { q with blocks := q.blocks.insert height ⟨[], bcel, connectionId, bcel.length⟩ }
  match hashes with
  | none => q
  | some hashes => (q.receive hashes height).setSpanHashes height connectionId hashes

def addPlaceholder (q : BlockQueue β) (height nblocks connectionId : Nat) :
    Except String (Bool × BlockQueue β) :=
  if nblocks = 0 then .error "Empty span"
  else match q.blocks.find? height with
    | some _ => .ok (false, q)
    | none =>
      .ok (true, { q with blocks := q.blocks.insert height ⟨[], [], connectionId, nblocks⟩ })

structure PeerView where
  syncPrunedBlocks : Bool
  localPruningSeed : Nat
  pruningSeed : Nat
  blockchainHeight : Nat
deriving DecidableEq, Repr

def skipRequested (q : BlockQueue β) : List (Hash × Nat) → Nat → List (Hash × Nat) × Nat
  | [], height => ([], height)
  | e :: rest, height =>
    if q.requested e.1 then skipRequested q rest (height + 1) else (e :: rest, height)

def nextStart (peer : PeerView) (spanStartHeight : Nat) : Nat :=
  if peer.syncPrunedBlocks then spanStartHeight
  else
    let next :=
      getNextUnprunedBlockHeight spanStartHeight peer.blockchainHeight peer.pruningSeed % 2 ^ 32
    if next > spanStartHeight ∧ next < spanStartHeight + pruningStripeSize then next
    else spanStartHeight

def takeHashes (q : BlockQueue β) (peer : PeerView) (spanStartHeight maxBlocks : Nat)
    (firstIsPruned : Bool) : List (Hash × Nat) → Nat → List Hash
  | [], _ => []
  | e :: rest, spanLength =>
    let height := spanStartHeight + spanLength
    if spanLength < maxBlocks ∧ ¬ q.requested e.1 ∧ (peer.syncPrunedBlocks ∨
        hasUnprunedBlock height peer.blockchainHeight peer.pruningSeed) then
      if peer.syncPrunedBlocks ∧
          firstIsPruned = hasUnprunedBlock height peer.blockchainHeight peer.localPruningSeed then []
      else e.1 :: takeHashes q peer spanStartHeight maxBlocks firstIsPruned rest (spanLength + 1)
    else []

def reserveSpan (q : BlockQueue β) (firstBlockHeight lastBlockHeight maxBlocks connectionId : Nat)
    (peer : PeerView) (blockHashes : List (Hash × Nat)) :
    Except String ((Nat × Nat) × BlockQueue β) :=
  if lastBlockHeight < firstBlockHeight ∨ maxBlocks = 0 then .ok ((0, 0), q)
  else if blockHashes.length > lastBlockHeight then .ok ((0, 0), q)
  else
    let blockHashesStartHeight := lastBlockHeight - blockHashes.length + 1
    let spanStartHeight :=
      nextStart peer (q.skipRequested blockHashes blockHashesStartHeight).2
    if spanStartHeight ≥ blockHashes.length + blockHashesStartHeight then .ok ((0, 0), q)
    else
      let (rest, spanStartHeight) := q.skipRequested
        (blockHashes.drop (spanStartHeight - blockHashesStartHeight)) spanStartHeight
      let firstIsPruned := peer.syncPrunedBlocks &&
        !hasUnprunedBlock spanStartHeight peer.blockchainHeight peer.localPruningSeed
      let hashes := q.takeHashes peer spanStartHeight maxBlocks firstIsPruned rest 0
      if hashes.length = 0 then .ok ((0, 0), q)
      else do
        let (added, q) ← q.addPlaceholder spanStartHeight hashes.length connectionId
        if !added then .ok ((0, 0), q)
        else .ok ((spanStartHeight, hashes.length),
          q.setSpanHashes spanStartHeight connectionId hashes)

end BlockQueue
end Jero.Protocol
