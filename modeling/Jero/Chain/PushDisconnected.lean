import Jero.Chain.Disconnected

namespace Jero.Chain
open Jero.Machine Jero.Lists Jero.Tx List SortedMap ChainEnv Blockchain

def acceptedBy (handleAlternative : Block → Exec Blockchain (Bool × BlockVerificationContext)) :
    List Block → Blockchain → List Block
  | [], _ => []
  | b :: rest, s =>
    match handleAlternative b s with
    | .ok (r, bvc) s' =>
      if r && !bvc.markedAsOrphaned then b :: acceptedBy handleAlternative rest s'
      else acceptedBy handleAlternative rest s'
    | .error _ _ => []

theorem acceptedBy_subset
    (handleAlternative : Block → Exec Blockchain (Bool × BlockVerificationContext))
    (bs : List Block) (s : Blockchain) : acceptedBy handleAlternative bs s ⊆ bs := by
  induction bs generalizing s with
  | nil => exact List.Subset.refl _
  | cons b rest ih =>
    unfold acceptedBy
    split
    · split
      · exact cons_subset_cons b (ih _)
      · exact List.Subset.trans (ih _) (subset_cons_self b rest)
    · exact nil_subset _

structure PushResult (env : ChainEnv)
    (handleAlternative : Block → Exec Blockchain (Bool × BlockVerificationContext))
    (bs : List Block) (s s' : Blockchain) : Prop where
  run : Blockchain.pushDisconnected handleAlternative bs s = .ok () s'
  chain : s'.db.chain = s.db.chain
  kept : ∀ id bei, s.db.altBlocks.find? id = some bei → s'.db.altBlocks.find? id = some bei
  others : ∀ id, (∀ b ∈ bs, id ≠ env.blockHash b) →
    s'.db.altBlocks.find? id = s.db.altBlocks.find? id
  accepted : ∀ b ∈ acceptedBy handleAlternative bs s,
    ∃ bei, s'.db.altBlocks.find? (env.blockHash b) = some bei ∧ bei.bl = b

variable {bei : BlockExtendedInfo}
namespace PushResult
variable {env : ChainEnv}
  {handleAlternative : Block → Exec Blockchain (Bool × BlockVerificationContext)}
  {b : Block} {rest : List Block} {s s₁ s' : Blockchain}

theorem nil (s : Blockchain) : PushResult env handleAlternative [] s s :=
  ⟨rfl, rfl, fun _ _ h => h, fun _ _ => rfl, fun _ h => nomatch h⟩

variable {bvc : BlockVerificationContext}

theorem skip {r : Bool} (hrun : handleAlternative b s = .ok (r, bvc) s₁) (hdb : s₁.db = s.db)
    (hrefused : (r && !bvc.markedAsOrphaned) = false)
    (h : PushResult env handleAlternative rest s₁ s') :
    PushResult env handleAlternative (b :: rest) s s' := by
  refine ⟨?_, ?_, ?_, ?_, ?_⟩
  · rw [pushDisconnected, exec_bind_ok hrun]
    exact h.run
  · rw [h.chain, hdb]
  · intro id bei hfind
    exact h.kept id bei (by rw [hdb]; exact hfind)
  · intro id hne
    rw [h.others id (fun other hother => hne other (mem_cons_of_mem _ hother)), hdb]
  · intro other hother
    simp only [acceptedBy, hrun, hrefused, Bool.false_eq_true, if_false] at hother
    exact h.accepted other hother

theorem store (hrun : handleAlternative b s = .ok (true, bvc) s₁)
    (hchain : s₁.db.chain = s.db.chain)
    (halts : s₁.db.altBlocks = s.db.altBlocks.insert (env.blockHash b) bei) (hbl : bei.bl = b)
    (hfresh : s.db.altBlocks.find? (env.blockHash b) = none)
    (h : PushResult env handleAlternative rest s₁ s') :
    PushResult env handleAlternative (b :: rest) s s' := by
  refine ⟨?_, h.chain.trans hchain, ?_, ?_, ?_⟩
  · rw [pushDisconnected, exec_bind_ok hrun]
    exact h.run
  · intro id other hfind
    refine h.kept id other ?_
    rw [halts, find?_insert, if_neg ?_]
    · exact hfind
    · rintro rfl
      rw [hfresh] at hfind
      cases hfind
  · intro id hne
    obtain ⟨hfirst, hrest⟩ := forall_mem_cons.mp hne
    rw [h.others id hrest, halts, find?_insert, if_neg hfirst]
  · intro other hother
    have hcases : other = b ∨ other ∈ acceptedBy handleAlternative rest s₁ := by
      simp only [acceptedBy, hrun] at hother
      split at hother
      · exact mem_cons.mp hother
      · exact .inr hother
    rcases hcases with rfl | hrest
    · exact ⟨bei, h.kept _ bei (by rw [halts, find?_insert_self]), hbl⟩
    · exact h.accepted other hrest

end PushResult
variable {env : ChainEnv} {switch : List BlockExtendedInfo → Bool → Exec Blockchain Bool}
  {rest : List Entry}

theorem push_orphans {s : Blockchain} {id : Hash}
    (hlinked : env.LinkedFrom id (blocks rest)) (halt : s.db.altBlocks.find? id = none)
    (hmain : env.blockExists s.db.chain id = false)
    (hunseen : ∀ e ∈ rest, s.db.altBlocks.find? (env.blockHash e.block) = none)
    (habsent : ∀ e ∈ rest, env.blockExists s.db.chain (env.blockHash e.block) = false) :
    ∃ s', PushResult env (Blockchain.handleAlternativeBlockWith env switch true) (blocks rest) s
      s' := by
  induction rest generalizing s id with
  | nil => exact ⟨s, .nil s⟩
  | cons e rest ih =>
    obtain ⟨hprev, hlinked⟩ := hlinked
    obtain ⟨hunseen₁, hunseen⟩ := forall_mem_cons.mp hunseen
    obtain ⟨habsent₁, habsent⟩ := forall_mem_cons.mp habsent
    obtain ⟨s', hrest⟩ := ih (s := s.markReset) hlinked hunseen₁ habsent₁ hunseen habsent
    rw [← hprev] at halt hmain
    rcases examineAlternative_of_unknown_parent halt hmain with horphan | ⟨bvc, hrefuse⟩
    · exact ⟨s', .skip (handleAlternativeBlockWith_orphan horphan) rfl rfl hrest⟩
    · exact ⟨s', .skip (handleAlternativeBlockWith_refuse hrefuse) rfl rfl hrest⟩

variable {pushed : List BlockExtendedInfo} {base disc done : List Entry}

theorem Pushed.next {e : Entry} {start db : Db}
    (h : Disconnects env base disc start) (hdet : env.HashDetermines)
    (hp : Pushed env base done start db pushed) (hdisc : disc = done ++ e :: rest)
    (haccept : ChainEnv.AcceptsAlternative env db e.block pushed bei)
    (hheight : bei.height = (base ++ done).length)
    (hwork : bei.cumulativeDifficulty = e.cumulativeDifficulty) :
    Pushed env base (done ++ [e]) start
      ⟨db.chain, db.altBlocks.insert (env.blockHash e.block) bei⟩ (pushed ++ [bei]) := by
  have hcanonical : env.Canonical ((base ++ done) ++ e :: rest) := by
    rw [append_assoc, ← hdisc]
    exact h.canonical
  have htip : env.topHash (base ++ (done ++ [e])) = env.blockHash e.block := by
    rw [← append_assoc, env.topHash_concat]
  have hlen : pushed.length = done.length := by
    have hmap := congrArg length hp.works
    rwa [length_map, difficultiesOf, length_map] at hmap
  have hroot : env.topHash base ≠ env.blockHash e.block := by
    obtain ⟨init, last, rfl⟩ := (eq_nil_or_concat' base).resolve_left h.nonempty
    rw [env.topHash_concat]
    exact hcanonical.hash_ne hdet (by simp) mem_cons_self
  refine ⟨hp.chain, ?_, ?_, ?_, ?_, ?_, ?_, ?_, ?_⟩
  · intro first hfirst
    cases hpushed : pushed with
    | nil =>
      rw [hpushed] at hfirst hlen
      obtain rfl := length_eq_zero_iff.mp hlen.symm
      obtain rfl := Option.some.inj hfirst
      rw [hheight, append_nil]
    | cons head tail =>
      rw [hpushed] at hfirst
      exact hp.front first (by rw [hpushed]; exact hfirst)
  · rw [map_append, hp.timestamps, timestampsOf_append, map_singleton, haccept.bl]
    rfl
  · rw [map_append, hp.works, difficultiesOf_append, map_singleton, hwork]
    rfl
  · rw [htip, reverse_append, reverse_singleton, singleton_append]
    refine .up (find?_insert_self _ _ _) ?_
    rw [haccept.bl, hcanonical.at.2]
    exact hp.path.insert haccept.fresh hroot
  · rw [htip, ChainEnv.prevHeight]
    simp only [find?_insert_self, hheight, length_append, length_singleton]
    omega
  · rw [htip, prevCumulativeDifficulty, ← append_assoc, topCumulativeDifficulty_concat]
    simp only [find?_insert_self, hwork]
  · rw [htip]
    exact .inl (by simp only [find?_insert_self, Option.isSome_some])
  · intro id hne
    rw [find?_insert, if_neg (hne e (by simp))]
    exact hp.others id (fun x hx => hne x (by simp [hx]))

theorem push_disconnected {start : Db} {s : Blockchain}
    (h : Disconnects env base disc start) (hdet : env.HashDetermines)
    (hp : Pushed env base done start s.db pushed) (hdisc : disc = done ++ rest) :
    ∃ s', PushResult env (Blockchain.handleAlternativeBlockWith env switch true) (blocks rest) s
      s' := by
  induction rest generalizing done s pushed with
  | nil => exact ⟨s, .nil s⟩
  | cons e rest ih =>
    have hcanonical : env.Canonical ((base ++ done) ++ e :: rest) := by
      rw [append_assoc, ← hdisc]
      exact h.canonical
    have hunseen : ∀ x ∈ e :: rest, s.db.altBlocks.find? (env.blockHash x.block) = none := by
      intro x hx
      rw [hp.others _ (fun d hd => (hcanonical.hash_ne hdet (by simp [hd]) hx).symm)]
      exact h.unseen x (by rw [hdisc]; simp only [mem_append]; exact .inr (.inr hx))
    have habsent : ∀ x ∈ e :: rest, env.blockExists s.db.chain (env.blockHash x.block) = false := by
      intro x hx
      rw [hp.chain]
      exact h.absent x (by rw [hdisc]; exact mem_append_right _ hx)
    rcases h.examine_next hp hdet hdisc with ⟨bvc, hrefuse⟩ | ⟨bei, haccept, hheight, hwork, hrun⟩
    · obtain ⟨hunseen₁, hunseen⟩ := forall_mem_cons.mp hunseen
      obtain ⟨habsent₁, habsent⟩ := forall_mem_cons.mp habsent
      have hlinked : env.LinkedFrom (env.blockHash e.block) (blocks rest) :=
        (hcanonical.linkedFrom).2
      obtain ⟨s', hrest⟩ : ∃ s', PushResult env
          (handleAlternativeBlockWith env switch true) (blocks rest) s.markReset s' :=
        push_orphans hlinked hunseen₁ habsent₁ hunseen habsent
      exact ⟨s', .skip (handleAlternativeBlockWith_refuse hrefuse) rfl rfl hrest⟩
    · have hnext := Pushed.next h hdet hp hdisc haccept hheight hwork
      obtain ⟨s', hrest⟩ := ih
        (s := s.markReset.setAlts (s.db.altBlocks.insert (env.blockHash e.block) bei)) hnext
        (by rw [hdisc, append_assoc]; rfl)
      exact ⟨s', .store (handleAlternativeBlockWith_store hrun) rfl rfl haccept.bl
        haccept.fresh hrest⟩

end Jero.Chain
