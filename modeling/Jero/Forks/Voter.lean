import Jero.Chain.Block

namespace Jero.Forks
open Jero.Machine Jero.Chain List Function

structure Hardfork where
  version : Nat
  height : Nat
  threshold : Nat
  time : Nat
deriving DecidableEq, Repr

structure HardFork where
  originalVersion : Nat
  windowSize : Nat
  windowSize_pos : 0 < windowSize
  heights : List Hardfork
  heights_ne : heights ≠ []
  versions : heights.Pairwise (fun a b => a.version < b.version)
  original : ∀ fork ∈ heights.tail, originalVersion < fork.version

structure Voter where
  versions : List Nat
  lastVersions : Nat → UInt32
  currentForkIndex : Nat

structure Node where
  voter : Voter
  hfVersions : Nat → Option Nat

def getBlockVersion (b : Block) : Nat := b.majorVersion

def getHardForkVersion (hfVersions : Nat → Option Nat) (height : Nat) : Except String Nat :=
  match hfVersions height with
  | some version => .ok version
  | none => .error s!"Error attempting to retrieve a hard fork version at height {height} from the db: "

namespace HardFork
variable (hf : HardFork)

def fork (index : Nat) : Hardfork := hf.heights.getD index ⟨0, 0, 0, 0⟩

def getEffectiveVersion (votingVersion : Nat) : Nat :=
  match hf.heights.getLast? with
  | none => votingVersion
  | some last => if votingVersion > last.version then last.version else votingVersion

def doCheck (voter : Voter) (blockVersion votingVersion : Nat) : Bool :=
  blockVersion = (hf.fork voter.currentForkIndex).version ∧
    votingVersion ≥ (hf.fork voter.currentForkIndex).version

def votedFrom (voter : Voter) (height : Nat) : Nat → UInt32 → Nat
  | 0, _ => voter.currentForkIndex
  | n + 1, accumulatedVotes =>
    let votes := accumulatedVotes + voter.lastVersions (hf.fork n).version
    let threshold := UInt32.ofNat (wrap (hf.windowSize * (hf.fork n).threshold + 99) / 100)
    if height ≥ (hf.fork n).height ∧ votes ≥ threshold then n else votedFrom voter height n votes

def getVotedForkIndex (voter : Voter) (height : Nat) : Nat :=
  hf.votedFrom voter height hf.heights.length 0

def advance (voter : Voter) (height : Nat) : Voter :=
  let voted := hf.getVotedForkIndex voter height % 2 ^ 8
  if voted > voter.currentForkIndex then { voter with currentForkIndex := voted } else voter

def trim : List Nat → (Nat → UInt32) → List Nat × (Nat → UInt32)
  | [], lastVersions => ([], lastVersions)
  | old :: versions, lastVersions =>
    if (old :: versions).length ≥ hf.windowSize then
      trim versions (update lastVersions old (lastVersions old - 1))
    else (old :: versions, lastVersions)

def add (node : Node) (blockVersion votingVersion height : Nat) : Bool × Node :=
  if !hf.doCheck node.voter blockVersion votingVersion then (false, node)
  else
    let hfVersions := update node.hfVersions height
      (some (hf.fork node.voter.currentForkIndex).version)
    let votingVersion := hf.getEffectiveVersion votingVersion
    let (versions, lastVersions) := hf.trim node.voter.versions node.voter.lastVersions
    let voter : Voter :=
      { node.voter with
        versions := versions ++ [votingVersion]
        lastVersions :=
          update lastVersions votingVersion (lastVersions votingVersion + 1) }
    (true, ⟨hf.advance voter (height + 1), hfVersions⟩)

def addBlock (node : Node) (b : Block) (height : Nat) : Bool × Node :=
  hf.add node (getBlockVersion b) (getBlockVote b) height

def addBlocks : Node → Nat → List Block → Node
  | node, _, [] => node
  | node, height, b :: blocks => addBlocks (hf.addBlock node b height).2 (height + 1) blocks

def accepts : Node → Nat → List Block → Bool
  | _, _, [] => true
  | node, height, b :: blocks =>
    (hf.addBlock node b height).1 && accepts (hf.addBlock node b height).2 (height + 1) blocks

def freshVoter : Voter := ⟨[], fun _ => 0, 0⟩

def fresh (hfVersions : Nat → Option Nat) : Node := ⟨freshVoter, hfVersions⟩

def scan (voter : Voter) : List Block → Voter
  | [] => voter
  | b :: blocks =>
    let v := hf.getEffectiveVersion (getBlockVote b)
    scan { voter with
      versions := voter.versions ++ [v]
      lastVersions := update voter.lastVersions v (voter.lastVersions v + 1) } blocks

def lowerIndex (startVersion : Nat) : Nat → Nat
  | 0 => 0
  | index + 1 =>
    if (hf.fork (index + 1)).version > startVersion then lowerIndex startVersion index
    else index + 1

def startVersion (hfVersions : Nat → Option Nat) (height : Nat) : Except String Nat :=
  if height = 0 then .ok hf.originalVersion else getHardForkVersion hfVersions height

variable (blocks : List Block) (node : Node) (height : Nat)

def reorganizeFromBlockHeight : Except String (Bool × Node) :=
  if height ≥ blocks.length then .ok (false, node)
  else do
    let rescanHeight :=
      if height ≥ hf.windowSize - 1 then height - (hf.windowSize - 1) else 0
    let version ← hf.startVersion node.hfVersions height
    let index := hf.lowerIndex version node.voter.currentForkIndex
    let scanned := hf.scan ⟨[], fun _ => 0, index⟩
      ((blocks.drop rescanHeight).take (height + 1 - rescanHeight))
    let voter := hf.advance scanned (height + 1)
    .ok (true, hf.addBlocks ⟨voter, node.hfVersions⟩ (height + 1) (blocks.drop (height + 1)))

def reorganizeFromChainHeight : Except String (Bool × Node) :=
  if height = 0 then .ok (false, node) else hf.reorganizeFromBlockHeight blocks node (height - 1)

def findIndex (version : Nat) : Nat → Nat → Nat
  | 0, index => index
  | fuel + 1, index =>
    if index + 1 < hf.heights.length ∧ (hf.fork index).version ≠ version then
      findIndex version fuel (index + 1)
    else index

def rescanFromBlockHeight : Except String (Bool × Node) :=
  if height ≥ blocks.length then .ok (false, node)
  else do
    let scanned := hf.scan ⟨[], fun _ => 0, node.voter.currentForkIndex⟩ (blocks.drop height)
    let lastVersion ← getHardForkVersion node.hfVersions (blocks.length - 1)
    let index := hf.findIndex lastVersion hf.heights.length 0
    .ok (true, ⟨hf.advance { scanned with currentForkIndex := index } blocks.length,
      node.hfVersions⟩)

def rescanFromChainHeight : Except String (Bool × Node) :=
  if height = 0 then .ok (false, node) else hf.rescanFromBlockHeight blocks node (height - 1)

def init : Except String Node := do
  let height := if blocks.length > hf.windowSize then blocks.length - (hf.windowSize - 1) else 1
  let (_, node) ← hf.rescanFromChainHeight blocks ⟨freshVoter, node.hfVersions⟩ height
  .ok node

def poppedHeights (newChainHeight nblocks : Nat) : List Nat :=
  (List.range nblocks).reverse.map (newChainHeight + ·) ++
    if newChainHeight = 0 then [2 ^ 64 - 1] else []

def popVotes (hfVersions : Nat → Option Nat) : List Nat → Voter → Except String Voter
  | [], voter => .ok voter
  | height :: heights, voter => do
    let back := voter.versions.getLastD 0
    let lastVersions := update voter.lastVersions back (voter.lastVersions back - 1)
    let version ← getHardForkVersion hfVersions height
    popVotes hfVersions heights
      { voter with
        versions := version :: voter.versions.dropLast
        lastVersions := update lastVersions version (lastVersions version + 1) }

def scheduledIndex (height : Nat) : Nat → Nat
  | 0 => 0
  | index + 1 =>
    if height ≥ (hf.fork (index + 1)).height then index + 1 else scheduledIndex height index

def onBlockPopped (nblocks : Nat) : Except String Node :=
  if nblocks = 0 then .error "nblocks must be greater than 0"
  else do
    let voter ← popVotes node.hfVersions (poppedHeights blocks.length nblocks) node.voter
    .ok { node with
      voter := { voter with
        currentForkIndex := hf.scheduledIndex blocks.length (hf.heights.length - 1) } }

end HardFork

end Jero.Forks
