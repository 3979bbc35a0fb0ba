import Jero.Forks.Reorganize

namespace Jero.Forks.HardFork
open Jero.Chain Jero.Lists Jero.Machine List
variable {hf : HardFork} {versions heights : List Nat} {hfVersions : Nat → Option Nat}

theorem take_pushed_front (hne : versions ≠ []) (pushed : List Nat) (version : Nat) :
    (pushed ++ version :: versions.dropLast).take versions.length =
      ((pushed ++ [version]) ++ versions).take versions.length := by
  obtain ⟨init, last, rfl⟩ : ∃ init last, versions = init ++ [last] :=
    ⟨_, _, (dropLast_append_getLast hne).symm⟩
  have hlong : (init ++ [last]).length ≤ (pushed ++ version :: init).length := by
    simp only [length_append, length_cons, length_nil]
    omega
  rw [dropLast_concat, append_assoc, singleton_append, ← cons_append,
    ← append_assoc, take_append_of_le_length hlong]

theorem popVotes_eq {stored : Nat → Nat}
    (hstored : ∀ height ∈ heights, hfVersions height = some (stored height)) (hne : versions ≠ [])
    (index : Nat) :
    popVotes hfVersions heights ⟨versions, tally versions, index⟩ =
      let kept := ((heights.map stored).reverse ++ versions).take versions.length
      .ok ⟨kept, tally kept, index⟩ := by
  induction heights generalizing versions with
  | nil =>
    rw [popVotes, map_nil, reverse_nil, nil_append, take_length]
  | cons height heights ih =>
    obtain ⟨hheight, hrest⟩ := forall_mem_cons.mp hstored
    obtain ⟨init, last, rfl⟩ : ∃ init last, versions = init ++ [last] :=
      ⟨_, _, (dropLast_append_getLast hne).symm⟩
    have hback : (init ++ [last]).getLastD 0 = last := by
      rw [getLastD_eq_getLast?, getLast?_concat]
      rfl
    have hlength : (stored height :: init).length = (init ++ [last]).length := by
      rw [length_cons, length_append, length_singleton]
    have hnext := ih hrest (cons_ne_nil (stored height) init)
    rw [hlength] at hnext
    have hkept := take_pushed_front hne (heights.map stored).reverse (stored height)
    rw [dropLast_concat] at hkept
    rw [popVotes]
    simp only [getHardForkVersion, hheight, bind, Except.bind, hback, dropLast_concat,
      tally_unsnoc, tally_cons, hnext, map_cons, reverse_cons, hkept]

theorem popVotes_length {voter voter' : Voter}
    (h : popVotes hfVersions heights voter = .ok voter') (hne : voter.versions ≠ []) :
    voter'.versions.length = voter.versions.length := by
  induction heights generalizing voter with
  | nil =>
    rw [popVotes] at h
    rw [Except.ok.inj h]
  | cons height heights ih =>
    rw [popVotes] at h
    simp only [getHardForkVersion] at h
    split at h
    · have hnext := ih h (cons_ne_nil _ _)
      rw [hnext, length_cons, length_dropLast]
      exact Nat.sub_add_cancel (length_pos_of_ne_nil hne)
    · cases h

theorem window_restored_iff {votes stored : List Nat} {w n : Nat} (hn : stored.length = n)
    (hle : n ≤ votes.length) (hw : w ≤ votes.length - n) :
    (stored ++ lastN w votes).take w = lastN w (votes.take (votes.length - n)) ↔
      ∀ i < min n w, stored[i]? = votes[votes.length - n - w + i]? := by
  have hlength : (votes.take (votes.length - n)).length = votes.length - n :=
    length_take_of_le (Nat.sub_le _ _)
  have hright : ∀ i < w, (lastN w (votes.take (votes.length - n)))[i]? =
      votes[votes.length - n - w + i]? := by
    intro i hi
    rw [lastN, hlength, getElem?_drop, getElem?_take_of_lt (by omega)]
  have hleft : ∀ i < w, n ≤ i → ((stored ++ lastN w votes).take w)[i]? =
      votes[votes.length - n - w + i]? := by
    intro i hi hni
    rw [getElem?_take_of_lt hi, getElem?_append_right (by omega), lastN, getElem?_drop]
    congr 1
    omega
  have hfront : ∀ i < w, i < n → ((stored ++ lastN w votes).take w)[i]? = stored[i]? := by
    intro i hi hni
    rw [getElem?_take_of_lt hi, getElem?_append_left (by omega)]
  constructor
  · intro heq i hi
    rw [← hfront i (by omega) (by omega), heq, hright i (by omega)]
  · intro hall
    refine ext_getElem? fun i => ?_
    rcases lt_or_ge i w with hi | hi
    · rw [hright i hi]
      rcases lt_or_ge i n with hni | hni
      · rw [hfront i hi hni, hall i (by omega)]
      · exact hleft i hi hni
    · rw [getElem?_eq_none (by rw [length_take]; omega),
        getElem?_eq_none (by rw [length_lastN]; omega)]

def votesFor (hf : HardFork) (window : List Nat) (index : Nat) : UInt32 :=
  (hf.heights.drop index).foldr (fun fork votes => votes + tally window fork.version) 0

def Activates (hf : HardFork) (votes : List Nat) (index : Nat) : Prop :=
  votes.length ≥ (hf.fork index).height ∧ hf.votesFor (lastN hf.windowSize votes) index ≥
    UInt32.ofNat (wrap (hf.windowSize * (hf.fork index).threshold + 99) / 100)

theorem votesFor_succ {index : Nat} (window : List Nat) (h : index < hf.heights.length) :
    hf.votesFor window (index + 1) + tally window (hf.fork index).version =
      hf.votesFor window index := by
  rw [votesFor, votesFor, drop_eq_getElem_cons h, foldr_cons, fork, getD_eq_getElem?_getD,
    getElem?_eq_getElem h, Option.getD_some]

theorem votedFrom_greatest {votes : List Nat} {current count : Nat}
    (hcount : count ≤ hf.heights.length) :
    let voted := hf.votedFrom (hf.windowVoter votes current) votes.length count
      (hf.votesFor (lastN hf.windowSize votes) count)
    (∀ index < count, hf.Activates votes index → index ≤ voted) ∧
      (voted = current ∨ hf.Activates votes voted) := by
  induction count with
  | zero => exact ⟨fun index h => absurd h (Nat.not_lt_zero _), .inl rfl⟩
  | succ n ih =>
    have hvotes : hf.votesFor (lastN hf.windowSize votes) (n + 1) +
        (hf.windowVoter votes current).lastVersions (hf.fork n).version =
          hf.votesFor (lastN hf.windowSize votes) n := votesFor_succ _ hcount
    simp only [votedFrom, hvotes]
    split
    · rename_i hactive
      exact ⟨fun index h _ => Nat.lt_succ_iff.mp h, .inr hactive⟩
    · rename_i hpassive
      obtain ⟨hbelow, hvoted⟩ := ih (Nat.le_of_lt hcount)
      refine ⟨fun index h hactive => ?_, hvoted⟩
      rcases Nat.lt_succ_iff_lt_or_eq.mp h with hlt | rfl
      · exact hbelow index hlt hactive
      · exact absurd hactive hpassive

theorem heights_length_le (hbytes : ∀ fork ∈ hf.heights, fork.version < 2 ^ 8) :
    hf.heights.length ≤ 2 ^ 8 := by
  have hdistinct : (hf.heights.map Hardfork.version).Nodup :=
    pairwise_map.mpr (hf.versions.imp Nat.ne_of_lt)
  have hsub : hf.heights.map Hardfork.version ⊆ List.range (2 ^ 8) := by
    intro version h
    obtain ⟨fork, hfork, rfl⟩ := mem_map.mp h
    exact mem_range.mpr (hbytes fork hfork)
  simpa using (subperm_of_subset hdistinct hsub).length_le

theorem indexAfter_snoc (hsmall : hf.heights.length ≤ 2 ^ 8) {blocks : List Block} {b : Block}
    (haccepted : hf.accepted (blocks ++ [b]) = true) :
    let votes := (blocks ++ [b]).map hf.voteOf
    let index := hf.indexAfter (blocks ++ [b])
    (∀ n < hf.heights.length, hf.Activates votes n → n ≤ index) ∧
      (index = hf.indexAfter blocks ∨ hf.Activates votes index) := by
  intro votes index
  have hlt := @votedFrom_lt hf (blocks.length + 1)
    (hf.windowVoter votes (hf.indexAfter blocks)) _ 0 le_rfl
    (indexAfter_lt (accepted_append.mp haccepted).1)
  have hspec := @votedFrom_greatest hf votes (hf.indexAfter blocks) hf.heights.length le_rfl
  have hindex : index = _ := congrArg (fun node => node.voter.currentForkIndex)
    (replay_snoc haccepted (fun _ => none))
  simp only [votesFor, drop_length, foldr_nil, votes, length_map, length_append,
    length_singleton] at hspec
  rw [advance_index, getVotedForkIndex, Nat.mod_eq_of_lt (hlt.trans_le hsmall)] at hindex
  change index = max (hf.indexAfter blocks) _ at hindex
  rw [hindex]
  refine ⟨fun n hn hactive => (hspec.1 n hn hactive).trans (le_max_right _ _), ?_⟩
  rcases max_choice (hf.indexAfter blocks) (hf.votedFrom (hf.windowVoter votes
    (hf.indexAfter blocks)) (blocks.length + 1) hf.heights.length 0) with hmax | hmax
  · exact .inl hmax
  · rw [hmax]
    exact hspec.2

theorem indexAfter_activated (hsmall : hf.heights.length ≤ 2 ^ 8) {blocks : List Block}
    (haccepted : hf.accepted blocks = true) : hf.indexAfter blocks = 0 ∨
      ∃ seen, seen ≠ [] ∧ seen <+: blocks ∧
        hf.Activates (seen.map hf.voteOf) (hf.indexAfter blocks) := by
  induction blocks using reverseRecOn with
  | nil => exact .inl rfl
  | append_singleton blocks b ih =>
    rcases (indexAfter_snoc hsmall haccepted).2 with hkept | hactive
    · rw [hkept]
      refine (ih (accepted_append.mp haccepted).1).imp_right ?_
      rintro ⟨seen, hne, hprefix, hactive⟩
      exact ⟨seen, hne, hprefix.trans (prefix_append _ _), hactive⟩
    · exact .inr ⟨_, by simp, prefix_rfl, hactive⟩

theorem scheduledIndex_le (height index : Nat) : hf.scheduledIndex height index ≤ index := by
  induction index with
  | zero => exact le_rfl
  | succ index ih =>
    rw [scheduledIndex]
    split <;> omega

theorem le_scheduledIndex {height index : Nat} (hheight : (hf.fork index).height ≤ height)
    {last : Nat} (hle : index ≤ last) : index ≤ hf.scheduledIndex height last := by
  induction last with
  | zero => exact hle
  | succ last ih =>
    rw [scheduledIndex]
    split
    · exact hle
    · rename_i hlow
      refine ih (Nat.le_of_lt_succ (hle.lt_of_ne ?_))
      rintro rfl
      exact hlow hheight

theorem scheduled_iff_activated (hsmall : hf.heights.length ≤ 2 ^ 8) {blocks : List Block}
    (haccepted : hf.accepted blocks = true) :
    let scheduled := hf.scheduledIndex blocks.length (hf.heights.length - 1)
    scheduled = hf.indexAfter blocks ↔ scheduled = 0 ∨ ∃ seen, seen ≠ [] ∧ seen <+: blocks ∧
      hf.Activates (seen.map hf.voteOf) scheduled := by
  intro scheduled
  have hpos : 0 < hf.heights.length := length_pos_of_ne_nil hf.heights_ne
  have hscheduled : scheduled ≤ hf.heights.length - 1 := scheduledIndex_le _ _
  have hindex := indexAfter_lt haccepted
  have hle : hf.indexAfter blocks ≤ scheduled := by
    rcases indexAfter_activated hsmall haccepted with hzero | ⟨seen, -, hprefix, hheight, -⟩
    · omega
    · rw [length_map] at hheight
      exact le_scheduledIndex (hheight.le.trans hprefix.length_le) (by omega)
  constructor
  · intro heq
    rw [heq]
    exact indexAfter_activated hsmall haccepted
  · rintro (hzero | ⟨seen, hne, ⟨rest, rfl⟩, hactive⟩)
    · omega
    · obtain ⟨init, b, rfl⟩ := (eq_nil_or_concat' seen).resolve_left hne
      have hfirst := (indexAfter_snoc hsmall (accepted_append.mp haccepted).1).1 _ (by omega) hactive
      exact le_antisymm (hfirst.trans (indexAfter_le_append haccepted)) hle

section
variable {blocks : List Block} {n : Nat}

def storedVersions (hf : HardFork) (blocks : List Block) (n : Nat) : List Nat :=
  (List.range n).map fun i =>
    (hf.fork (hf.indexAfter (blocks.take (blocks.length - n + i)))).version

section
variable (haccepted : hf.accepted blocks = true) (hle : n ≤ blocks.length)
include haccepted hle

theorem popped_versions (hw : hf.windowSize ≤ blocks.length - n) :
    popVotes (hf.replay (fun _ => none) blocks).hfVersions (poppedHeights (blocks.length - n) n)
        (hf.replay (fun _ => none) blocks).voter =
      let kept := (hf.storedVersions blocks n ++
        lastN hf.windowSize (blocks.map hf.voteOf)).take hf.windowSize
      .ok ⟨kept, tally kept, hf.indexAfter blocks⟩ := by
  have hpos := hf.windowSize_pos
  have hlength : (lastN hf.windowSize (blocks.map hf.voteOf)).length = hf.windowSize := by
    rw [length_lastN, length_map]
    omega
  have hstored : ∀ height ∈ poppedHeights (blocks.length - n) n,
      (hf.replay (fun _ => none) blocks).hfVersions height =
        some (hf.fork (hf.indexAfter (blocks.take height))).version := by
    intro height hheight
    rw [poppedHeights, if_neg (by omega), append_nil, map_reverse, mem_reverse, mem_map] at hheight
    obtain ⟨i, hi, rfl⟩ := hheight
    rw [mem_range] at hi
    rw [replay_stored haccepted, if_pos (by omega)]
  rw [replay_window haccepted, windowVoter,
    popVotes_eq hstored (ne_nil_of_length_pos (by omega)), hlength,
    poppedHeights, if_neg (by omega), append_nil, map_reverse, map_reverse, reverse_reverse, map_map,
    storedVersions]
  rfl

theorem popped_window_full (hn : 0 < n) {node : Node}
    (hpop : hf.onBlockPopped (blocks.take (blocks.length - n)) (hf.replay (fun _ => none) blocks) n
      = .ok node)
    (hvoter : node.voter = (hf.replay (fun _ => none) (blocks.take (blocks.length - n))).voter) :
    hf.windowSize ≤ blocks.length - n := by
  have hpos := hf.windowSize_pos
  have hversions : (hf.replay (fun _ => none) blocks).voter.versions.length =
      min hf.windowSize blocks.length := by
    rw [replay_window haccepted, windowVoter, length_lastN, length_map]
  have hexpected : node.voter.versions.length = min hf.windowSize (blocks.length - n) := by
    rw [hvoter, replay_window (accepted_take haccepted _), windowVoter, length_lastN,
      length_map, length_take_of_le (Nat.sub_le _ _)]
  rw [onBlockPopped, if_neg hn.ne'] at hpop
  rcases hpopped : popVotes (hf.replay (fun _ => none) blocks).hfVersions
    (poppedHeights (blocks.take (blocks.length - n)).length n)
    (hf.replay (fun _ => none) blocks).voter with error | popped
  · rw [hpopped] at hpop
    cases hpop
  rw [hpopped] at hpop
  have hkept := popVotes_length hpopped (ne_nil_of_length_pos (by omega))
  obtain rfl := Except.ok.inj hpop
  have hsame : min hf.windowSize blocks.length = min hf.windowSize (blocks.length - n) :=
    hversions.symm.trans (hkept.symm.trans hexpected)
  omega

end

theorem popped_state_is_replay_iff (hf : HardFork) (blocks : List Block)
    (hbytes : ∀ fork ∈ hf.heights, fork.version < 2 ^ 8) (haccepted : hf.accepted blocks = true)
    (n : Nat) (hn : 0 < n) (hle : n ≤ blocks.length) :
    let before := hf.replay (fun _ => none) blocks
    let remaining := blocks.take (blocks.length - n)
    let scheduled := hf.scheduledIndex remaining.length (hf.heights.length - 1)
    (∃ node, hf.onBlockPopped remaining before n = .ok node ∧
        node.voter = (hf.replay (fun _ => none) remaining).voter) ↔
      hf.windowSize ≤ remaining.length ∧
      (∀ i < min n hf.windowSize, before.hfVersions (remaining.length + i) =
        (blocks.map hf.voteOf)[remaining.length - hf.windowSize + i]?) ∧
      (scheduled = 0 ∨ ∃ seen, seen ≠ [] ∧ seen <+: remaining ∧
        hf.Activates (seen.map hf.voteOf) scheduled) := by
  intro before remaining scheduled
  have hlength : remaining.length = blocks.length - n := length_take_of_le (Nat.sub_le _ _)
  rw [← show scheduled = hf.indexAfter remaining ↔ _ from
    scheduled_iff_activated (heights_length_le hbytes) (accepted_take haccepted _)]
  simp only [scheduled, hlength]
  by_cases hw : hf.windowSize ≤ blocks.length - n
  · have hpop : hf.onBlockPopped remaining before n = .ok
        ⟨⟨(hf.storedVersions blocks n ++ lastN hf.windowSize (blocks.map hf.voteOf)).take
            hf.windowSize, tally ((hf.storedVersions blocks n ++
              lastN hf.windowSize (blocks.map hf.voteOf)).take hf.windowSize),
            hf.scheduledIndex (blocks.length - n) (hf.heights.length - 1)⟩, before.hfVersions⟩ := by
      rw [onBlockPopped, if_neg hn.ne', hlength, popped_versions haccepted hle hw]
      rfl
    have hrestored := @window_restored_iff (blocks.map hf.voteOf) (hf.storedVersions blocks n)
      hf.windowSize n (by rw [storedVersions, length_map, length_range])
      (by rwa [length_map]) (by rwa [length_map])
    rw [length_map] at hrestored
    have hstored : (∀ i < min n hf.windowSize, before.hfVersions (blocks.length - n + i) =
          (blocks.map hf.voteOf)[blocks.length - n - hf.windowSize + i]?) ↔
        ∀ i < min n hf.windowSize, (hf.storedVersions blocks n)[i]? =
          (blocks.map hf.voteOf)[blocks.length - n - hf.windowSize + i]? := by
      refine forall_congr' fun i => forall_congr' fun hi => ?_
      rw [storedVersions, getElem?_map, getElem?_map, getElem?_range (by omega), Option.map_some,
        replay_stored haccepted, if_pos (by omega)]
    rw [hstored, ← hrestored, hpop, replay_window (accepted_take haccepted _), map_take,
      windowVoter]
    constructor
    · rintro ⟨node, hnode, hvoter⟩
      obtain rfl := Except.ok.inj hnode
      obtain ⟨hversions, -, hindex⟩ := Voter.mk.inj hvoter
      exact ⟨hw, hversions, hindex⟩
    · rintro ⟨-, hversions, hindex⟩
      refine ⟨_, rfl, ?_⟩
      rw [hversions]
      exact congrArg _ hindex
  · constructor
    · rintro ⟨node, hpop, hvoter⟩
      exact absurd (popped_window_full haccepted hle hn hpop hvoter) hw
    · rintro ⟨hfull, -⟩
      exact absurd hfull hw

end

def scheduledForks : HardFork :=
  { majorityForks with
    heights := [⟨1, 0, 0, 0⟩, ⟨2, 2, 0, 1⟩]
    heights_ne := by decide
    versions := by decide
    original := by decide }

def settledBlocks : List Block := votedBlocks [(1, 1), (1, 1), (2, 2), (2, 2), (2, 2)]

theorem popped_after_settled_fork :
    ∃ node, scheduledForks.onBlockPopped (settledBlocks.take 4)
        (scheduledForks.replay (fun _ => none) settledBlocks) 1 = .ok node ∧
      node.voter = (scheduledForks.replay (fun _ => none) (settledBlocks.take 4)).voter :=
  (popped_state_is_replay_iff scheduledForks settledBlocks (by decide) (by decide +kernel) 1
    (by decide) (by decide)).mpr ⟨by decide +kernel, by decide +kernel, .inr
      ⟨settledBlocks.take 2, by decide, ⟨_, rfl⟩, by decide, by decide +kernel⟩⟩

def minorityBlocks : List Block := votedBlocks [(1, 1), (1, 2), (1, 1), (1, 1)]

theorem popped_block_loses_vote :
    majorityForks.accepted minorityBlocks = true ∧
      ∃ node, majorityForks.onBlockPopped (minorityBlocks.take 3)
          (majorityForks.replay (fun _ => none) minorityBlocks) 1 = .ok node ∧
        node.voter.versions = [1, 1] ∧ node.voter.currentForkIndex = 1 ∧
        (majorityForks.replay (fun _ => none) (minorityBlocks.take 3)).voter.versions = [2, 1] ∧
        (majorityForks.replay (fun _ => none) (minorityBlocks.take 3)).voter.currentForkIndex =
          0 := by
  refine ⟨by decide +kernel, _, rfl, ?_, ?_, ?_, ?_⟩
  · decide +kernel
  · decide +kernel
  · decide +kernel
  · decide +kernel

end Jero.Forks.HardFork
