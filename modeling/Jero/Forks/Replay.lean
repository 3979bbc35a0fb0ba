import Jero.Forks.Voter
import Jero.Lists.Tally

namespace Jero.Forks.HardFork
open Jero.Chain Jero.Lists List Function
variable {blocks : List Block} {b : Block} (hf : HardFork)

def voteOf (b : Block) : Nat := hf.getEffectiveVersion (getBlockVote b)

def windowVoter (votes : List Nat) (index : Nat) : Voter :=
  ⟨lastN hf.windowSize votes, tally (lastN hf.windowSize votes), index⟩

def replay (hfVersions : Nat → Option Nat) (blocks : List Block) : Node :=
  hf.addBlocks (fresh hfVersions) 0 blocks

def indexAfter (blocks : List Block) : Nat :=
  (hf.replay (fun _ => none) blocks).voter.currentForkIndex

def accepted (blocks : List Block) : Bool := hf.accepts (fresh fun _ => none) 0 blocks

variable {hf}

theorem trim_eq (versions : List Nat) :
    hf.trim versions (tally versions) =
      (lastN (hf.windowSize - 1) versions, tally (lastN (hf.windowSize - 1) versions)) := by
  induction versions with
  | nil =>
    rw [lastN_of_le (Nat.zero_le _)]
    rfl
  | cons old versions ih =>
    rw [trim]
    split
    · rename_i hfull
      rw [length_cons] at hfull
      have hdrop : lastN (hf.windowSize - 1) (old :: versions) =
          lastN (hf.windowSize - 1) versions := by
        rw [lastN, lastN, length_cons, Nat.succ_sub (by omega), drop_succ_cons]
      rw [tally_uncons, ih, hdrop]
    · rw [lastN_of_le (by omega)]

theorem windowVoter_vote (votes : List Nat) (vote : Nat) :
    lastN (hf.windowSize - 1) (lastN hf.windowSize votes) ++ [vote] =
      lastN hf.windowSize (votes ++ [vote]) := by
  obtain ⟨w, hw⟩ := Nat.exists_eq_succ_of_ne_zero hf.windowSize_pos.ne'
  rw [hw, lastN_lastN (Nat.sub_le _ _), Nat.succ_sub_one, lastN_append_singleton]

section
variable (height : Nat)

theorem addBlock_window (votes : List Nat) (index : Nat) (hfVersions : Nat → Option Nat)
    (b : Block) :
    hf.addBlock ⟨hf.windowVoter votes index, hfVersions⟩ b height =
      if hf.doCheck (hf.windowVoter votes index) (getBlockVersion b) (getBlockVote b) then
        (true, ⟨hf.advance (hf.windowVoter (votes ++ [hf.voteOf b]) index) (height + 1),
          update hfVersions height (some (hf.fork index).version)⟩)
      else (false, ⟨hf.windowVoter votes index, hfVersions⟩) := by
  unfold addBlock add
  cases hf.doCheck (hf.windowVoter votes index) (getBlockVersion b) (getBlockVote b) with
  | false => rfl
  | true =>
    simp only [Bool.not_true, Bool.false_eq_true, if_false, if_true, windowVoter, trim_eq,
      tally_snoc, windowVoter_vote, voteOf]

theorem advance_index (voter : Voter) :
    (hf.advance voter height).currentForkIndex =
      max voter.currentForkIndex (hf.getVotedForkIndex voter height % 2 ^ 8) := by
  simp only [advance]
  split
  · exact (max_eq_right (le_of_lt ‹_›)).symm
  · exact (max_eq_left (not_lt.mp ‹_›)).symm

theorem le_advance (voter : Voter) :
    voter.currentForkIndex ≤ (hf.advance voter height).currentForkIndex := by
  rw [advance_index]
  exact le_max_left _ _

theorem votedFrom_lt {voter : Voter} {count : Nat} (accumulatedVotes : UInt32)
    (hcount : count ≤ hf.heights.length) (hindex : voter.currentForkIndex < hf.heights.length) :
    hf.votedFrom voter height count accumulatedVotes < hf.heights.length := by
  induction count generalizing accumulatedVotes with
  | zero => exact hindex
  | succ n ih =>
    rw [votedFrom]
    split
    · exact hcount
    · exact ih _ (by omega)

theorem addBlocks_append (node : Node) (blocks blocks' : List Block) :
    hf.addBlocks node height (blocks ++ blocks') =
      hf.addBlocks (hf.addBlocks node height blocks) (height + blocks.length) blocks' := by
  induction blocks generalizing node height with
  | nil => rfl
  | cons b blocks ih =>
    rw [cons_append, addBlocks, ih, addBlocks, length_cons, add_right_comm, add_assoc]

theorem accepts_append (node : Node) (blocks blocks' : List Block) :
    hf.accepts node height (blocks ++ blocks') = (hf.accepts node height blocks &&
      hf.accepts (hf.addBlocks node height blocks) (height + blocks.length) blocks') := by
  induction blocks generalizing node height with
  | nil => rfl
  | cons b blocks ih =>
    rw [cons_append, accepts, ih, accepts, addBlocks, length_cons, Bool.and_assoc,
      add_right_comm, add_assoc]

theorem addBlock_voter (voter : Voter) (hfVersions hfVersions' : Nat → Option Nat) (b : Block) :
    (hf.addBlock ⟨voter, hfVersions⟩ b height).1 = (hf.addBlock ⟨voter, hfVersions'⟩ b height).1 ∧
      (hf.addBlock ⟨voter, hfVersions⟩ b height).2.voter =
        (hf.addBlock ⟨voter, hfVersions'⟩ b height).2.voter := by
  unfold addBlock add
  split
  · exact ⟨rfl, rfl⟩
  · exact ⟨rfl, rfl⟩

theorem addBlocks_voter (node node' : Node) (hvoter : node.voter = node'.voter)
    (blocks : List Block) :
    hf.accepts node height blocks = hf.accepts node' height blocks ∧
      (hf.addBlocks node height blocks).voter = (hf.addBlocks node' height blocks).voter := by
  induction blocks generalizing node node' height with
  | nil => exact ⟨rfl, hvoter⟩
  | cons b blocks ih =>
    obtain ⟨voter, hfVersions⟩ := node
    obtain ⟨voter', hfVersions'⟩ := node'
    obtain rfl : voter = voter' := hvoter
    obtain ⟨haccept, hnext⟩ := @addBlock_voter hf height voter hfVersions hfVersions' b
    obtain ⟨haccepts, hrest⟩ := ih (height + 1) _ _ hnext
    exact ⟨by rw [accepts, accepts, haccept, haccepts], hrest⟩

end

theorem replay_voter (hfVersions hfVersions' : Nat → Option Nat) (blocks : List Block) :
    (hf.replay hfVersions blocks).voter = (hf.replay hfVersions' blocks).voter :=
  (addBlocks_voter 0 (fresh hfVersions) (fresh hfVersions') rfl blocks).2

theorem replay_append (hfVersions : Nat → Option Nat) (blocks blocks' : List Block) :
    hf.replay hfVersions (blocks ++ blocks') =
      hf.addBlocks (hf.replay hfVersions blocks) blocks.length blocks' := by
  rw [replay, addBlocks_append, zero_add, replay]

theorem accepted_append {blocks' : List Block} :
    hf.accepted (blocks ++ blocks') = true ↔ hf.accepted blocks = true ∧
      hf.accepts (hf.replay (fun _ => none) blocks) blocks.length blocks' = true := by
  rw [accepted, accepts_append, Bool.and_eq_true, zero_add, accepted, replay]

variable (h : hf.accepted blocks = true)

include h in
theorem accepted_take (k : Nat) :
    hf.accepted (blocks.take k) = true := by
  rw [← take_append_drop k blocks] at h
  exact (accepted_append.mp h).1

theorem replay_snoc_window {hfVersions : Nat → Option Nat}
    (h : hf.accepted (blocks ++ [b]) = true) (hwindow : (hf.replay (fun _ => none) blocks).voter =
      hf.windowVoter (blocks.map hf.voteOf) (hf.indexAfter blocks)) :
    hf.replay hfVersions (blocks ++ [b]) =
      ⟨hf.advance (hf.windowVoter ((blocks ++ [b]).map hf.voteOf) (hf.indexAfter blocks))
          (blocks.length + 1),
        update (hf.replay hfVersions blocks).hfVersions blocks.length
          (some (hf.fork (hf.indexAfter blocks)).version)⟩ := by
  have hnode : ∀ store, hf.replay store blocks =
      ⟨hf.windowVoter (blocks.map hf.voteOf) (hf.indexAfter blocks),
        (hf.replay store blocks).hfVersions⟩ := by
    intro store
    rw [← hwindow, replay_voter (fun _ => none) store]
  obtain ⟨-, hlast⟩ := accepted_append.mp h
  rw [hnode, accepts, accepts, Bool.and_true, addBlock_window] at hlast
  have hcheck : hf.doCheck (hf.windowVoter (blocks.map hf.voteOf) (hf.indexAfter blocks))
      (getBlockVersion b) (getBlockVote b) = true := by
    by_contra hcheck
    rw [if_neg hcheck] at hlast
    cases hlast
  rw [replay_append, hnode, addBlocks, addBlocks, addBlock_window, if_pos hcheck,
    map_append, map_singleton]

include h in
theorem replay_window :
    (hf.replay (fun _ => none) blocks).voter =
      hf.windowVoter (blocks.map hf.voteOf) (hf.indexAfter blocks) := by
  induction blocks using reverseRecOn with
  | nil =>
    rw [indexAfter, map_nil, windowVoter, lastN_of_le (Nat.zero_le _), tally_nil]
    rfl
  | append_singleton blocks b ih =>
    rw [indexAfter, replay_snoc_window h (ih (accepted_append.mp h).1)]
    unfold advance
    simp only
    split <;> rfl

theorem replay_snoc (h : hf.accepted (blocks ++ [b]) = true) (hfVersions : Nat → Option Nat) :
    hf.replay hfVersions (blocks ++ [b]) =
      ⟨hf.advance (hf.windowVoter ((blocks ++ [b]).map hf.voteOf) (hf.indexAfter blocks))
          (blocks.length + 1),
        update (hf.replay hfVersions blocks).hfVersions blocks.length
          (some (hf.fork (hf.indexAfter blocks)).version)⟩ :=
  replay_snoc_window h (replay_window (accepted_append.mp h).1)

include h in
theorem indexAfter_lt :
    hf.indexAfter blocks < hf.heights.length := by
  induction blocks using reverseRecOn with
  | nil => exact length_pos_of_ne_nil hf.heights_ne
  | append_singleton blocks b ih =>
    rw [indexAfter, replay_snoc h]
    unfold advance
    simp only
    split
    · exact (Nat.mod_le _ _).trans_lt (votedFrom_lt (blocks.length + 1) 0 le_rfl (ih
        (accepted_append.mp h).1))
    · exact (ih (accepted_append.mp h).1)

theorem indexAfter_le_append {blocks' : List Block} (h : hf.accepted (blocks ++ blocks') = true) :
    hf.indexAfter blocks ≤ hf.indexAfter (blocks ++ blocks') := by
  induction blocks' using reverseRecOn with
  | nil => rw [append_nil]
  | append_singleton blocks' b ih =>
    rw [← append_assoc] at h ⊢
    nth_rewrite 2 [indexAfter]
    rw [replay_snoc h]
    exact (ih (accepted_append.mp h).1).trans
      (le_advance _ (hf.windowVoter _ (hf.indexAfter (blocks ++ blocks'))))

include h in
theorem replay_stored (hfVersions : Nat → Option Nat) (height : Nat) :
    (hf.replay hfVersions blocks).hfVersions height =
      if height < blocks.length then some (hf.fork (hf.indexAfter (blocks.take height))).version
      else hfVersions height := by
  induction blocks using reverseRecOn with
  | nil => rfl
  | append_singleton blocks b ih =>
    have ih := ih (accepted_append.mp h).1
    rw [replay_snoc h]
    simp only [update_apply, length_append, length_singleton]
    rcases lt_trichotomy height blocks.length with hlt | heq | hgt
    · rw [if_neg hlt.ne, ih, if_pos hlt, if_pos (by omega), take_append_of_le_length hlt.le]
    · rw [if_pos heq, if_pos (by omega), heq, take_left]
    · rw [if_neg hgt.ne', ih, if_neg (by omega), if_neg (by omega)]

end Jero.Forks.HardFork
