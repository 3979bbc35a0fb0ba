import Jero.Forks.Replay

namespace Jero.Forks.HardFork
open Jero.Chain Jero.Lists List
variable {blocks : List Block} {i j height : Nat} {hf : HardFork}

theorem scan_eq (versions : List Nat) (index : Nat) (blocks : List Block) :
    hf.scan ⟨versions, tally versions, index⟩ blocks =
      ⟨versions ++ blocks.map hf.voteOf, tally (versions ++ blocks.map hf.voteOf), index⟩ := by
  induction blocks generalizing versions with
  | nil => rw [map_nil, append_nil, scan]
  | cons b blocks ih =>
    rw [scan, tally_snoc, ih, map_cons, append_assoc, singleton_append, voteOf]

theorem scan_window {window : List Block} (index : Nat)
    (hwindow : window = blocks.drop (blocks.length - hf.windowSize)) :
    hf.scan ⟨[], fun _ => 0, index⟩ window = hf.windowVoter (blocks.map hf.voteOf) index := by
  have hscan := @scan_eq hf [] index window
  rw [tally_nil, nil_append] at hscan
  rw [hscan, windowVoter, lastN, length_map, hwindow, map_drop]

theorem fork_version_lt (hij : i < j) (hj : j < hf.heights.length) :
    (hf.fork i).version < (hf.fork j).version := by
  have hi := hij.trans hj
  rw [fork, fork, getD_eq_getElem?_getD, getD_eq_getElem?_getD,
    getElem?_eq_getElem hi, getElem?_eq_getElem hj]
  exact pairwise_iff_getElem.mp hf.versions i j hi hj hij

theorem original_lt_fork (hi : i + 1 < hf.heights.length) :
    hf.originalVersion < (hf.fork (i + 1)).version := by
  rw [fork, getD_eq_getElem?_getD, getElem?_eq_getElem hi]
  refine hf.original _ (mem_of_getElem? (i := i) ?_)
  rw [getElem?_tail, getElem?_eq_getElem hi]
  rfl

theorem lowerIndex_fork (hij : i ≤ j) (hj : j < hf.heights.length) :
    hf.lowerIndex (hf.fork i).version j = i := by
  induction j with
  | zero => exact (Nat.le_zero.mp hij).symm
  | succ j ih =>
    rw [lowerIndex]
    rcases lt_or_eq_of_le hij with hlt | heq
    · rw [if_pos (fork_version_lt hlt hj), ih (by omega) (by omega)]
    · rw [heq, if_neg (lt_irrefl _)]

theorem lowerIndex_original (hj : j < hf.heights.length) :
    hf.lowerIndex hf.originalVersion j = 0 := by
  induction j with
  | zero => rfl
  | succ j ih => rw [lowerIndex, if_pos (original_lt_fork hj), ih (by omega)]

theorem findIndex_fork {target index fuel : Nat} (hle : index ≤ target)
    (htarget : target < hf.heights.length) (hfuel : target < index + fuel) :
    hf.findIndex (hf.fork target).version fuel index = target := by
  induction fuel generalizing index with
  | zero => omega
  | succ fuel ih =>
    rw [findIndex]
    rcases lt_or_eq_of_le hle with hlt | heq
    · rw [if_pos ⟨by omega, (fork_version_lt hlt htarget).ne⟩, ih hlt (by omega)]
    · rw [if_neg (by rw [heq]; exact fun h => h.2 rfl), heq]

section
variable (hfVersions : Nat → Option Nat)

theorem replay_last (hlength : blocks.length = height + 1) (h : hf.accepted blocks = true) :
    (hf.replay hfVersions blocks).voter =
      hf.advance (hf.windowVoter (blocks.map hf.voteOf) (hf.indexAfter (blocks.take height)))
        (height + 1) := by
  obtain ⟨init, b, rfl⟩ : ∃ init b, blocks = init ++ [b] :=
    ⟨_, _, (dropLast_append_getLast (ne_nil_of_length_eq_add_one hlength)).symm⟩
  rw [length_append, length_singleton, add_right_cancel_iff] at hlength
  rw [replay_snoc h, ← hlength, take_left]

theorem replay_stored_again (h : hf.accepted blocks = true) {k : Nat} (hk : k ≤ blocks.length) :
    (hf.replay (hf.replay hfVersions blocks).hfVersions (blocks.take k)).hfVersions =
      (hf.replay hfVersions blocks).hfVersions := by
  funext height
  rw [replay_stored (accepted_take h k), replay_stored h, length_take_of_le hk]
  split
  · rename_i hlt
    rw [if_pos (hlt.trans_le hk), take_take, min_eq_left hlt.le]
  · rfl

theorem reorganize_eq_replay {old final : List Block} (hold : hf.accepted old = true)
    (hheight : height < old.length) (hfinal : height < final.length)
    (hcommon : old.take (height + 1) = final.take (height + 1)) :
    hf.reorganizeFromBlockHeight final (hf.replay hfVersions old) height =
      .ok (true, hf.replay (hf.replay hfVersions old).hfVersions final) := by
  obtain ⟨version, hstart, hindex⟩ : ∃ version, hf.startVersion (hf.replay hfVersions
    old).hfVersions height = .ok version ∧ hf.lowerIndex version (hf.replay hfVersions
    old).voter.currentForkIndex = hf.indexAfter (old.take height) := by
    have hindex : (hf.replay hfVersions old).voter.currentForkIndex = hf.indexAfter old := by
      rw [replay_voter hfVersions (fun _ => none), indexAfter]
    rw [hindex, startVersion]
    split
    · rename_i hzero
      refine ⟨_, rfl, ?_⟩
      rw [lowerIndex_original (indexAfter_lt hold), hzero]
      rfl
    · have hmono : hf.indexAfter (old.take height) ≤ hf.indexAfter old := by
        conv_rhs => rw [← take_append_drop height old]
        exact indexAfter_le_append (by rwa [take_append_drop])
      refine ⟨(hf.fork (hf.indexAfter (old.take height))).version, ?_,
        lowerIndex_fork hmono (indexAfter_lt hold)⟩
      rw [getHardForkVersion, replay_stored hold, if_pos hheight]
  have hlength : (old.take (height + 1)).length = height + 1 := length_take_of_le hheight
  have hrescan : (if height ≥ hf.windowSize - 1 then height - (hf.windowSize - 1) else 0) =
      height + 1 - hf.windowSize := by
    have hpos := hf.windowSize_pos
    split <;> omega
  have hwindow : (final.drop (height + 1 - hf.windowSize)).take
        (height + 1 - (height + 1 - hf.windowSize)) =
      (old.take (height + 1)).drop ((old.take (height + 1)).length - hf.windowSize) := by
    rw [hlength, hcommon, drop_take]
  have hvoter := replay_last (hf.replay hfVersions old).hfVersions hlength
    (accepted_take hold (height + 1))
  rw [take_take, min_eq_left (Nat.le_succ height)] at hvoter
  have hnode : hf.replay (hf.replay hfVersions old).hfVersions (final.take (height + 1)) =
      ⟨(hf.replay (hf.replay hfVersions old).hfVersions (old.take (height + 1))).voter,
        (hf.replay hfVersions old).hfVersions⟩ := by
    rw [← hcommon]
    exact congrArg (Node.mk _) (replay_stored_again hfVersions hold hheight)
  have hreplay := @replay_append hf (hf.replay hfVersions old).hfVersions
    (final.take (height + 1)) (final.drop (height + 1))
  rw [take_append_drop, hnode, hvoter, ← hcommon, hlength] at hreplay
  rw [reorganizeFromBlockHeight, if_neg (by omega)]
  simp only [hstart, hrescan, hindex, scan_window _ hwindow, hreplay, bind, Except.bind]

theorem rescan_eq_replay (h : hf.accepted blocks = true) (hblocks : blocks ≠ []) (voter : Voter) :
    hf.rescanFromBlockHeight blocks ⟨voter, (hf.replay hfVersions blocks).hfVersions⟩
      (blocks.length - hf.windowSize) = .ok (true, hf.replay hfVersions blocks) := by
  obtain ⟨last, hlength⟩ := Nat.exists_eq_add_one.mpr (length_pos_of_ne_nil hblocks)
  have hindex := indexAfter_lt (accepted_take h last)
  have hlast : getHardForkVersion (hf.replay hfVersions blocks).hfVersions (blocks.length - 1) =
      .ok (hf.fork (hf.indexAfter (blocks.take last))).version := by
    rw [getHardForkVersion, replay_stored h, if_pos (by omega), hlength, Nat.add_sub_cancel]
  have hfind := @findIndex_fork hf _ 0 hf.heights.length (Nat.zero_le _) hindex (by omega)
  have hvoter := replay_last hfVersions hlength h
  rw [← hlength] at hvoter
  rw [rescanFromBlockHeight, if_neg (by have := hf.windowSize_pos; omega)]
  simp only [scan_window _ rfl, hlast, hfind, bind, Except.bind]
  exact congrArg (fun v => Except.ok (true, Node.mk v _)) hvoter.symm

end

theorem addBlock_stored (voter : Voter) {hfVersions hfVersions' : Nat → Option Nat}
    (h : ∀ height version, hfVersions height = some version → hfVersions' height = some version)
    (b : Block) (height : Nat) :
    ∀ k version, (hf.addBlock ⟨voter, hfVersions⟩ b height).2.hfVersions k = some version →
      (hf.addBlock ⟨voter, hfVersions'⟩ b height).2.hfVersions k = some version := by
  unfold addBlock add
  split
  · exact h
  · intro k version
    simp only [Function.update_apply]
    split
    · exact id
    · exact h k version

theorem addBlocks_stored {node node' : Node} (hvoter : node.voter = node'.voter)
    (h : ∀ height version, node.hfVersions height = some version →
      node'.hfVersions height = some version) (height : Nat) (blocks : List Block) :
    ∀ k version, (hf.addBlocks node height blocks).hfVersions k = some version →
      (hf.addBlocks node' height blocks).hfVersions k = some version := by
  induction blocks generalizing node node' height with
  | nil => exact h
  | cons b blocks ih =>
    obtain ⟨voter, hfVersions⟩ := node
    obtain ⟨voter', hfVersions'⟩ := node'
    obtain rfl : voter = voter' := hvoter
    exact ih (addBlock_voter height voter hfVersions hfVersions' b).2
      (addBlock_stored voter h b height) (height + 1)

theorem reorganized_state_is_replay (hf : HardFork) (hfVersions : Nat → Option Nat)
    (old : List Block) (hold : hf.accepted old = true) :
    let before := hf.replay hfVersions old
    (∀ (final : List Block) (height : Nat), height < old.length → height < final.length →
      old.take (height + 1) = final.take (height + 1) →
      ∃ node, hf.reorganizeFromBlockHeight final before height = .ok (true, node) ∧
        node = hf.replay before.hfVersions final ∧
        node.voter = (hf.replay (fun _ => none) final).voter ∧
        ∀ k version, (hf.replay (fun _ => none) final).hfVersions k = some version →
          node.hfVersions k = some version) ∧
      (∀ voter : Voter, hf.init old ⟨voter, before.hfVersions⟩ = .ok before) ∧
      ∀ voter : Voter, old ≠ [] → hf.rescanFromBlockHeight old ⟨voter, before.hfVersions⟩
        (old.length - hf.windowSize) = .ok (true, before) := by
  refine ⟨?_, ?_, fun voter hne => rescan_eq_replay _ hold hne voter⟩
  · intro final height hheight hfinal hcommon
    refine ⟨_, reorganize_eq_replay hfVersions hold hheight hfinal hcommon, rfl, replay_voter _ _ _,
      ?_⟩
    refine @addBlocks_stored hf (fresh fun _ => none) (fresh (hf.replay hfVersions old).hfVersions)
      rfl ?_ 0 final
    intro k version hstored
    cases hstored
  · intro voter
    have hpos := hf.windowSize_pos
    have hheight : (if old.length > hf.windowSize then old.length - (hf.windowSize - 1)
        else 1) = old.length - hf.windowSize + 1 := by
      split <;> omega
    rw [init]
    simp only [hheight, rescanFromChainHeight, Nat.succ_ne_zero, if_false, Nat.add_sub_cancel]
    by_cases hne : old = []
    · subst hne
      rfl
    · rw [rescan_eq_replay hfVersions hold hne]
      rfl

def votedBlocks (versions : List (Nat × Nat)) : List Block :=
  versions.map fun v => ⟨v.1, v.2, 0, Tx.nullHash, 0, Tx.Transaction.empty, []⟩

def majorityForks : HardFork :=
  { originalVersion := 1
    windowSize := 2
    windowSize_pos := by decide
    heights := [⟨1, 0, 0, 0⟩, ⟨2, 2, 100, 1⟩]
    heights_ne := by decide
    versions := by decide
    original := by decide }

theorem reorganized_past_activation :
    let old := votedBlocks [(1, 1), (1, 2), (1, 2), (2, 2)]
    let new := votedBlocks [(1, 1), (1, 1), (1, 2)]
    ∃ node, majorityForks.reorganizeFromBlockHeight new
        (majorityForks.replay (fun _ => none) old) 0 = .ok (true, node) ∧
      node.voter = (majorityForks.replay (fun _ => none) new).voter ∧
      node.voter.currentForkIndex = 0 := by
  intro old new
  have haccepted : majorityForks.accepted old = true := by decide +kernel
  obtain ⟨node, hnode, -, hvoter, -⟩ :=
    (reorganized_state_is_replay majorityForks (fun _ => none) _ haccepted).1 new 0 (by decide)
      (by decide) rfl
  exact ⟨node, hnode, hvoter, hvoter ▸ by decide +kernel⟩

end Jero.Forks.HardFork
