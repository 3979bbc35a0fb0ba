import Jero.Chain.DifficultyRuns

namespace Jero.Chain
open Jero.Machine Jero.Lists
namespace Blockchain
variable {env : ChainEnv} {s : Blockchain} {base tail : List Entry} {original : List Block}

theorem popWhile_eq {more : Blockchain → Bool} {fuel : Nat} {popped : List Block}
    (hmark : s.markReset = s) (hchain : s.db.chain = base ++ tail) (hbase : base ≠ [])
    (hfuel : tail.length ≤ fuel)
    (hmore : ∀ t, t ≠ [] → t <+: tail → more (s.setChain (base ++ t)) = true)
    (hstop : more (s.setChain base) = false) :
    popWhile more fuel popped s = .ok (blocks tail ++ popped) (s.setChain base) := by
  induction tail using List.reverseRecOn generalizing s fuel popped with
  | nil =>
    rw [List.append_nil] at hchain
    have hsame : s.setChain base = s := by rw [← hchain]; rfl
    rw [hsame] at hstop ⊢
    cases fuel with
    | zero => rfl
    | succ fuel =>
      simp only [popWhile, exec_get_bind, hstop]
      rfl
  | append_singleton tail e ih =>
    obtain ⟨fuel, rfl⟩ : ∃ n, fuel = n + 1 := by
      refine ⟨fuel - 1, ?_⟩
      rw [List.length_append, List.length_singleton] at hfuel
      omega
    have hsame : s.setChain (base ++ (tail ++ [e])) = s := by rw [← hchain]; rfl
    have hgo : more s = true := by
      have hfirst := hmore (tail ++ [e]) (by simp) (List.prefix_refl _)
      rwa [hsame] at hfirst
    have hpop : popBlock s = .ok e.block (s.setChain (base ++ tail)) := by
      rw [popBlock_concat (by rw [hchain, List.append_assoc]) (by simp [hbase]), hmark]
    have hrest : popWhile more fuel (e.block :: popped) (s.setChain (base ++ tail)) =
        .ok (blocks tail ++ e.block :: popped) (s.setChain base) :=
      ih (by rw [← hmark]; rfl) rfl (by simpa using hfuel)
        (fun t hne hpre => hmore t hne (hpre.trans (List.prefix_append _ _))) hstop
    simp only [popWhile, exec_get_bind, hgo, if_true, exec_bind_ok hpop, hrest]
    rw [blocks_append, List.append_assoc]
    rfl

theorem handleBlock_eq (b : Block) : handleBlock env b s =
    .ok (handleBlockToMainChain env b s).1 (handleBlockToMainChain env b s).2 := rfl

section
variable (hdet : env.HashDetermines) (hs : Coherent env s)
include hdet hs

theorem handleBlock_of_accepts {b : Block} (h : env.Accepts s.db.chain b) :
    ∃ s', handleBlock env b s = .ok (true, .added) s' ∧
      s'.db.chain = s.db.chain ++ [env.nextEntry s.db.chain b] ∧
      s'.db.altBlocks = s.db.altBlocks ∧ Coherent env s' := by
  have hdiff := (queryDifficulty_eq hs hdet).1
  have hcoherent := handleBlockToMainChain_coherent hdet hs b
  have hrun := handleBlockToMainChain_accepts (s := s) (b := b) (by rw [hdiff]; exact h)
  rw [hrun, hdiff] at hcoherent
  rw [hdiff] at hrun
  refine ⟨_, ?_, ?_, ?_, hcoherent⟩
  · rw [handleBlock_eq, hrun]
  · rfl
  · rfl

theorem handleBlock_of_rejects {b : Block} (h : ¬ env.Accepts s.db.chain b) :
    ∃ s' bvc, handleBlock env b s = .ok (false, bvc) s' ∧ s'.db = s.db ∧ Coherent env s' := by
  have hdiff := (queryDifficulty_eq hs hdet).1
  have hcoherent := handleBlockToMainChain_coherent hdet hs b
  have hrej := handleBlockToMainChain_rejects (s := s) (b := b) (by rw [hdiff]; exact h)
  refine ⟨(handleBlockToMainChain env b s).2, (handleBlockToMainChain env b s).1.2, ?_, hrej.db,
    hcoherent⟩
  rw [handleBlock_eq, ← hrej.refused]

theorem restoreChain_eq (hall : env.AllAccepted s.db.chain original) :
    ∃ s', restoreChain env original s = .ok true s' ∧
      s'.db.chain = env.extend s.db.chain original ∧ s'.db.altBlocks = s.db.altBlocks ∧
      Coherent env s' := by
  induction original generalizing s with
  | nil => exact ⟨s, rfl, rfl, rfl, hs⟩
  | cons b rest ih =>
    obtain ⟨s₁, hrun, hchain, halts, hs₁⟩ := handleBlock_of_accepts hdet hs hall.1
    obtain ⟨s₂, hrest, hchain₂, halts₂, hs₂⟩ := ih hs₁ (by rw [hchain]; exact hall.2)
    refine ⟨s₂, ?_, ?_, halts₂.trans halts, hs₂⟩
    · rw [restoreChain, exec_bind_ok hrun]
      exact hrest
    · rw [hchain₂, hchain]
      rfl

end

structure Connected (env : ChainEnv) (s : Blockchain) (altChain : List BlockExtendedInfo) (k : Nat)
    (s' : Blockchain) : Prop where
  le : k ≤ altChain.length
  run : connectAltChain env altChain s = .ok (altChain.drop k) s'
  chain : s'.db.chain = env.extend s.db.chain ((altChain.take k).map BlockExtendedInfo.bl)
  alts : s'.db.altBlocks = s.db.altBlocks
  coherent : Coherent env s'
  accepted : env.AllAccepted s.db.chain ((altChain.take k).map BlockExtendedInfo.bl)
  refused : ∀ bei, altChain[k]? = some bei → ¬ env.Accepts s'.db.chain bei.bl

theorem connectAltChain_connected (hdet : env.HashDetermines) (hs : Coherent env s)
    (altChain : List BlockExtendedInfo) : ∃ k s', Connected env s altChain k s' := by
  induction altChain generalizing s with
  | nil => exact ⟨0, s, le_refl _, rfl, rfl, rfl, hs, trivial, fun _ h => nomatch h⟩
  | cons bei rest ih =>
    by_cases haccept : env.Accepts s.db.chain bei.bl
    · obtain ⟨s₁, hrun, hchain, halts, hs₁⟩ := handleBlock_of_accepts hdet hs haccept
      obtain ⟨k, s₂, h⟩ := ih hs₁
      refine ⟨k + 1, s₂, Nat.succ_le_succ h.le, ?_, ?_, h.alts.trans halts, h.coherent, ?_, ?_⟩
      · rw [connectAltChain, exec_bind_ok hrun]
        exact h.run
      · rw [h.chain, hchain]
        rfl
      · refine ⟨haccept, ?_⟩
        rw [← hchain]
        exact h.accepted
      · exact h.refused
    · obtain ⟨s₁, bvc, hrun, hdb, hs₁⟩ := handleBlock_of_rejects hdet hs haccept
      refine ⟨0, s₁, Nat.zero_le _, ?_, ?_, ?_, hs₁, trivial, ?_⟩
      · rw [connectAltChain, exec_bind_ok hrun]
        rfl
      · rw [hdb]
        rfl
      · rw [hdb]
      · rintro first ⟨⟩
        rw [hdb]
        exact haccept

theorem rollbackBlockchainSwitching_run {height : Nat} (original : List Block) (hpos : 0 < height)
    (hle : height ≤ s.db.chain.length) :
    rollbackBlockchainSwitching env original height s =
      restoreChain env original (s.markReset.setChain (s.db.chain.take height)) := by
  have hnot : ¬ height > s.db.chain.length := by omega
  have hlen : (s.db.chain.take height).length = height := by
    rw [List.length_take, min_eq_left hle]
  have hpop : popWhile (fun s => s.db.chain.length != height) s.db.chain.length [] s.markReset =
      .ok (blocks (s.db.chain.drop height) ++ [])
        (s.markReset.setChain (s.db.chain.take height)) := by
    refine popWhile_eq rfl (List.take_append_drop _ _).symm ?_ ?_ ?_ ?_
    · exact List.ne_nil_of_length_pos (by rw [hlen]; exact hpos)
    · rw [List.length_drop]
      omega
    · intro t hne _
      have ht := List.length_pos_iff.mpr hne
      rw [bne_iff_ne]
      change (s.db.chain.take height ++ t).length ≠ height
      rw [List.length_append, hlen]
      omega
    · rw [bne_eq_false_iff_eq]
      exact hlen
  simp only [rollbackBlockchainSwitching, exec_get_bind, if_neg hnot, exec_modify_bind,
    exec_bind_ok hpop]

theorem removeAltBlocks_eq {removed : List BlockExtendedInfo}
    (hstored : ∀ bei ∈ removed, s.db.altBlocks.find? (env.blockHash bei.bl) = some bei)
    (hnodup : (removed.map (fun bei => env.blockHash bei.bl)).Nodup) :
    ∃ s', removeAltBlocks env removed s = .ok () s' ∧ s'.db.chain = s.db.chain ∧
      ∀ id, s'.db.altBlocks.find? id =
        if id ∈ removed.map (fun bei => env.blockHash bei.bl) then none
        else s.db.altBlocks.find? id := by
  induction removed generalizing s with
  | nil => exact ⟨s, rfl, rfl, fun _ => rfl⟩
  | cons bei rest ih =>
    obtain ⟨hfirst, hrest⟩ := List.forall_mem_cons.mp hstored
    obtain ⟨hfresh, hnodup⟩ := List.nodup_cons.mp hnodup
    have hstored' : ∀ other ∈ rest, (s.setAlts (s.db.altBlocks.erase
        (env.blockHash bei.bl))).db.altBlocks.find? (env.blockHash other.bl) = some other := by
      intro other hother
      have hne : env.blockHash other.bl ≠ env.blockHash bei.bl := by
        intro hsame
        exact hfresh (List.mem_map.mpr ⟨other, hother, hsame⟩)
      change (s.db.altBlocks.erase _).find? _ = _
      rw [SortedMap.find?_erase, if_neg hne]
      exact hrest other hother
    obtain ⟨s', hrun, hchain, hfind⟩ := ih hstored' hnodup
    refine ⟨s', ?_, hchain, ?_⟩
    · simp only [removeAltBlocks, exec_get_bind, hfirst]
      exact hrun
    · intro id
      rw [hfind]
      change (if _ then _ else (s.db.altBlocks.erase _).find? id) = _
      rw [SortedMap.find?_erase]
      by_cases hid : id = env.blockHash bei.bl
      · simp [hid]
      · simp [hid]

end Blockchain
end Jero.Chain
