import Jero.Chain.Extend

namespace Jero.Chain
open Jero.Machine Jero.Lists Jero.Tx
variable {s : Blockchain}
namespace Blockchain
variable {env : ChainEnv}

theorem popBlock_concat {init : List Entry} {e : Entry} (hchain : s.db.chain = init ++ [e])
    (hinit : init ≠ []) :
    popBlock s = .ok e.block (s.markReset.setChain init) := by
  have hlen : ¬ (init ++ [e]).length ≤ 1 := by
    have hpos := List.length_pos_iff.mpr hinit
    rw [List.length_append, List.length_singleton]
    omega
  simp only [popBlock, exec_modify_bind, exec_get_bind, markReset_db, hchain,
    List.getLast?_concat, if_neg hlen, List.dropLast_concat]
  rfl

theorem popBlock_short (h : s.db.chain.length ≤ 1) :
    popBlock s = .error "Cannot pop the genesis block" s.markReset := by
  simp only [popBlock, exec_modify_bind, exec_get_bind, markReset_db]
  cases s.db.chain.getLast? with
  | none => rfl
  | some top => exact congrFun (if_pos h) _

theorem popBlock_preserves : Preserves (Coherent env) popBlock := by
  intro s hs
  by_cases hshort : s.db.chain.length ≤ 1
  · rw [popBlock_short hshort]
    exact markReset_coherent hs
  · obtain ⟨init, e, hchain⟩ : ∃ init e, s.db.chain = init ++ [e] := by
      refine ⟨s.db.chain.dropLast, s.db.chain.getLast ?_, (List.dropLast_append_getLast _).symm⟩
      rintro hnil
      rw [hnil] at hshort
      exact hshort (Nat.zero_le _)
    have hinit : init ≠ [] := by
      rintro rfl
      rw [hchain] at hshort
      exact hshort (le_refl _)
    rw [popBlock_concat hchain hinit]
    refine markReset_setChain_coherent hs ?_
    have hdrop := hs.canonical.dropLast
    rwa [hchain, List.dropLast_concat] at hdrop

theorem popWhile_preserves (more : Blockchain → Bool) (fuel : Nat) (popped : List Block) :
    Preserves (Coherent env) (popWhile more fuel popped) := by
  induction fuel generalizing popped with
  | zero => exact .pure popped
  | succ fuel ih =>
    refine .get_bind ?_
    intro s hs
    split
    · exact Preserves.bind popBlock_preserves (fun b => ih (b :: popped)) s hs
    · exact hs

section
variable (h : Coherent env s)
include h

theorem batchStart_coherent : Coherent env (batchStart s).2 := by
  unfold batchStart
  split
  · exact h
  · refine ⟨h.canonical, ?_, h.cached, ?_⟩
    · rintro db ⟨⟩
      exact h.canonical
    · rintro _ db ⟨⟩
      exact List.prefix_refl _

theorem prepareHandleIncomingBlocks_coherent : Coherent env s.prepareHandleIncomingBlocks := by
  unfold prepareHandleIncomingBlocks
  split
  · exact h
  · refine ⟨h.canonical, ?_, h.cached, ?_⟩
    · rintro db ⟨⟩
      exact h.canonical
    · rintro _ db ⟨⟩
      exact List.prefix_refl _

theorem batchStop_coherent : Coherent env s.batchStop :=
  ⟨h.canonical, (fun _ hdb => nomatch hdb), h.cached, (fun _ _ hdb => nomatch hdb)⟩

theorem clearReset_coherent (hsaved : s.saved = none) : Coherent env s.clearReset := by
  unfold clearReset
  split
  · refine ⟨h.canonical, h.savedCanonical, ?_, ?_⟩
    · intro hfixed
      obtain ⟨cached, hcached, -⟩ := h.cached hfixed
      refine ⟨cached, ?_, fun _ hne => absurd rfl hne⟩
      exact ⟨hcached.canonical, hcached.topHash, hcached.difficulty, fun _ hne => absurd rfl hne⟩
    · intro _ db hdb
      rw [show s.saved = some db from hdb] at hsaved
      cases hsaved
  · exact h

theorem batchAbort_coherent : Coherent env s.batchAbort := by
  cases hsaved : s.saved with
  | none =>
    have hdb : s.batchAbort = s.batchStop := by rw [batchAbort, batchStop, hsaved, Option.getD_none]
    rw [hdb]
    exact batchStop_coherent h
  | some db =>
    have habort : s.batchAbort = { s with db := db, saved := none } := by
      rw [batchAbort, hsaved, Option.getD_some]
    rw [habort]
    refine ⟨h.savedCanonical db hsaved, (fun _ hdb => nomatch hdb), ?_,
      (fun _ _ hdb => nomatch hdb)⟩
    intro hfixed
    obtain ⟨cached, hcached, hbase⟩ := h.cached hfixed
    refine ⟨cached, hcached, ?_⟩
    intro hreset hheight hlt
    have hback := h.savedPrefix hreset db hsaved
    have hwhole := hbase hreset hheight (lt_of_lt_of_le hlt hback.length_le)
    exact List.prefix_of_prefix_length_le hwhole hback hlt.le

theorem cleanupHandleIncomingBlocks_coherent : Coherent env s.cleanupHandleIncomingBlocks := by
  unfold cleanupHandleIncomingBlocks
  split
  · exact h
  split
  · exact clearReset_coherent (batchStop_coherent h) rfl
  · exact batchAbort_coherent h

end

theorem popBlocks_preserves (nblocks : Nat) : Preserves (Coherent env) (popBlocks nblocks) := by
  refine .bind (.modifyGet fun _ => batchStart_coherent) fun stopBatch => .get_bind ?_
  intro s hs
  refine Preserves.bind (.tryCatch (.bind (popWhile_preserves _ _ _) fun _ => .pure true)
    fun _ => .pure false) (fun done => ?_) s hs
  exact .ite (.ite (.modify fun _ => batchStop_coherent) (.modify fun _ => batchAbort_coherent))
    (.pure ())

theorem removeAltBlocks_preserves (altChain : List BlockExtendedInfo) :
    Preserves (Coherent env) (removeAltBlocks env altChain) := by
  induction altChain with
  | nil => exact .pure ()
  | cons bei rest ih =>
    refine .get_bind ?_
    intro s hs
    cases s.db.altBlocks.find? (env.blockHash bei.bl) with
    | none => exact hs
    | some _ => exact ih _ (setAlts_coherent hs _)

variable {handleAlternative : Block → Exec Blockchain (Bool × BlockVerificationContext)}

theorem pushDisconnected_preserves (hhandle : ∀ b, Preserves (Coherent env) (handleAlternative b))
    (disconnected : List Block) :
    Preserves (Coherent env) (pushDisconnected handleAlternative disconnected) := by
  induction disconnected with
  | nil => exact .pure ()
  | cons b rest ih => exact .bind (hhandle b) fun _ => ih

theorem handleAlternativeBlockWith_preserves
    {switch : List BlockExtendedInfo → Bool → Exec Blockchain Bool}
    (hswitch : ∀ altChain discard, Preserves (Coherent env) (switch altChain discard))
    (supplementOk : Bool) (b : Block) :
    Preserves (Coherent env) (handleAlternativeBlockWith env switch supplementOk b) := by
  refine .bind (.modify fun _ => markReset_coherent) fun _ => .get_bind ?_
  intro s hs
  cases env.examineAlternative s.db b supplementOk with
  | error e => exact hs
  | ok verdict =>
    cases verdict with
    | refuse bvc => exact hs
    | orphan => exact hs
    | accept altChain bei isACheckpoint heavier =>
      have halts := setAlts_coherent hs (s.db.altBlocks.insert (env.blockHash b) bei)
      exact Preserves.ite (.bind (hswitch (altChain ++ [bei]) isACheckpoint) fun r => .pure _)
        (.pure _) _ halts

variable (hdet : env.HashDetermines)
include hdet

theorem handleBlock_preserves (b : Block) : Preserves (Coherent env) (handleBlock env b) :=
  .modifyGet (fun _ hs => handleBlockToMainChain_coherent hdet hs b)

theorem restoreChain_preserves (original : List Block) :
    Preserves (Coherent env) (restoreChain env original) := by
  induction original with
  | nil => exact .pure true
  | cons b rest ih =>
    refine .bind (handleBlock_preserves hdet b) ?_
    rintro ⟨r, bvc⟩
    exact .ite ih (.pure false)

theorem rollback_preserves (original : List Block) (rollbackHeight : Nat) :
    Preserves (Coherent env) (rollbackBlockchainSwitching env original rollbackHeight) := by
  refine .get_bind ?_
  intro s hs
  split
  · exact hs
  · have hbody : Preserves (Coherent env) (do
        modify markReset
        let _ ← popWhile (fun s => s.db.chain.length != rollbackHeight) s.db.chain.length []
        restoreChain env original) :=
      .bind (.modify fun _ => markReset_coherent) fun _ =>
        .bind (popWhile_preserves _ _ _) fun _ => restoreChain_preserves hdet original
    exact hbody s hs

theorem connectAltChain_preserves (altChain : List BlockExtendedInfo) :
    Preserves (Coherent env) (connectAltChain env altChain) := by
  induction altChain with
  | nil => exact .pure []
  | cons bei rest ih =>
    refine .bind (handleBlock_preserves hdet bei.bl) ?_
    rintro ⟨r, bvc⟩
    exact .ite (.pure _) ih

theorem switchWith_preserves (hhandle : ∀ b, Preserves (Coherent env) (handleAlternative b))
    (altChain : List BlockExtendedInfo) (discard : Bool) :
    Preserves (Coherent env) (switchWith env handleAlternative altChain discard) := by
  refine .bind (.modify fun _ => markReset_coherent) fun _ => .get_bind ?_
  intro s hs
  cases altChain with
  | nil => exact hs
  | cons front rest =>
    simp only
    split
    · exact hs
    · refine Preserves.bind (popWhile_preserves _ _ _) (fun disconnected => .get_bind ?_) s hs
      intro split hsplit
      refine Preserves.bind (connectAltChain_preserves hdet _) (fun remaining => ?_) split
        hsplit
      split
      · split
        · exact .bind (pushDisconnected_preserves hhandle disconnected) fun _ =>
            .bind (removeAltBlocks_preserves _) fun _ => .pure true
        · exact .bind (removeAltBlocks_preserves _) fun _ => .pure true
      · exact .bind (rollback_preserves hdet _ _) fun _ =>
          .bind (removeAltBlocks_preserves _) fun _ => .pure false

theorem switchToAlternativeBlockchain_preserves (fuel : Nat) (altChain : List BlockExtendedInfo)
    (discard : Bool) :
    Preserves (Coherent env) (switchToAlternativeBlockchain env fuel altChain discard) := by
  induction fuel generalizing altChain discard with
  | zero => exact fun _ h => h
  | succ fuel ih =>
    exact switchWith_preserves hdet
      (handleAlternativeBlockWith_preserves ih true) altChain discard

theorem addNewBlock_preserves (fuel : Nat) (supplementOk : Bool) (b : Block) :
    Preserves (Coherent env) (addNewBlock env fuel supplementOk b) := by
  refine .tryCatch (.get_bind ?_) (fun _ => .pure _)
  intro s hs
  simp only
  split
  · exact hs
  split
  · exact hs
  split
  · exact handleAlternativeBlockWith_preserves
      (switchToAlternativeBlockchain_preserves hdet fuel) supplementOk b s hs
  · exact handleBlock_preserves hdet b s hs

theorem enforcePoints_preserves (points : SortedMap Nat Hash) (enforce : Bool)
    (blockchainHeight : Nat) (rest : List (Nat × Hash)) :
    Preserves (Coherent env) (enforcePoints env points enforce blockchainHeight rest) := by
  induction rest with
  | nil => exact .pure ()
  | cons point rest ih =>
    unfold enforcePoints
    split
    · exact ih
    · refine .get_bind ?_
      intro s hs
      cases env.blockHashFromHeight s.db.chain point.1 with
      | error e => exact hs
      | ok h =>
        exact Preserves.ite (.bind (rollback_preserves hdet _ _) fun _ => ih) ih s hs

theorem checkAgainstCheckpoints_preserves (points : SortedMap Nat Hash) (enforce : Bool) :
    Preserves (Coherent env) (checkAgainstCheckpoints env points enforce) := by
  refine .bind (.modifyGet fun _ => batchStart_coherent) fun stopBatch => .get_bind ?_
  intro s hs
  refine Preserves.bind (enforcePoints_preserves hdet points enforce _ _) (fun _ => ?_) s hs
  exact .ite (.modify fun _ => batchStop_coherent) (.pure ())

end Blockchain
end Jero.Chain
