import Jero.Chain.PushDisconnected
import Jero.Chain.CachedDifficulty

namespace Jero.Chain
open Jero.Machine Jero.Lists Jero.Tx SortedMap ChainEnv BlockExtendedInfo
open List hiding get set modify
variable {e : Entry} {db : Db} {mid : Blockchain}

structure Switchable (env : ChainEnv) (db : Db) (f : Nat) (altChain : List BlockExtendedInfo) :
    Prop where
  pos : 1 ≤ f
  le : f ≤ db.chain.length
  fits : f + altChain.length < 2 ^ 64
  nonempty : altChain ≠ []
  linked : env.LinkedFrom (env.topHash (db.chain.take f)) (altChain.map bl)
  stored : ∀ bei ∈ altChain, db.altBlocks.find? (env.blockHash bei.bl) = some bei
  heights : ∀ i bei, altChain[i]? = some bei → bei.height = f + i
  separate : ∀ e ∈ db.chain, db.altBlocks.find? (env.blockHash e.block) = none

structure Heavier (env : ChainEnv) (db : Db) (f : Nat) (altChain : List BlockExtendedInfo) :
    Prop where
  work : ∀ last ∈ altChain.getLast?, last.cumulativeDifficulty =
    topCumulativeDifficulty (env.extend (db.chain.take f) (altChain.map bl))
  heavier : ∀ last ∈ altChain.getLast?,
    topCumulativeDifficulty db.chain < last.cumulativeDifficulty
  allowed : ∀ last ∈ altChain.getLast?,
    isAlternativeBlockAllowed env.checkpoints db.chain.length last.height = true
  targets : ∀ i, f ≤ i → i < db.chain.length →
    difficultyTarget (env.idealVersion i) = env.getDifficultyTarget (db.chain.take i)

structure Switched (env : ChainEnv) (s : Blockchain) (f : Nat) (altChain : List BlockExtendedInfo)
    (discard : Bool) (fuel : Nat) (s' : Blockchain) : Prop where
  chain : s'.db.chain = env.extend (s.db.chain.take f) (altChain.map bl)
  blocks : blocks s'.db.chain =
    blocks (s.db.chain.take f) ++ altChain.map bl
  removed : ∀ bei ∈ altChain, s'.db.altBlocks.find? (env.blockHash bei.bl) = none
  pushed : discard = false → ∀ mid,
    Blockchain.connectAltChain env altChain (s.markReset.setChain (s.db.chain.take f)) =
      .ok [] mid →
    ∀ b ∈ acceptedBy (Blockchain.handleAlternativeBlock env fuel true)
        (Jero.Chain.blocks (s.db.chain.drop f)) mid,
      ∃ bei, s'.db.altBlocks.find? (env.blockHash b) = some bei ∧ bei.bl = b

structure RolledBack (env : ChainEnv) (s : Blockchain) (f : Nat)
    (altChain : List BlockExtendedInfo) (s' : Blockchain) : Prop where
  chain : s'.db.chain = s.db.chain
  failing : ∃ k bei, altChain[k]? = some bei ∧
    env.AllAccepted (s.db.chain.take f) ((altChain.take k).map bl) ∧
    ¬ env.Accepts
      (env.extend (s.db.chain.take f) ((altChain.take k).map bl)) bei.bl ∧
    (∀ earlier ∈ altChain.take k,
      s'.db.altBlocks.find? (env.blockHash earlier.bl) = some earlier) ∧
    ∀ later ∈ altChain.drop k, s'.db.altBlocks.find? (env.blockHash later.bl) = none

variable {chain : List Entry}
namespace ChainEnv
variable {env : ChainEnv}

theorem AllAccepted.at {bs : List Block} (h : env.AllAccepted chain bs) {j : Nat} {b : Block}
    (hj : bs[j]? = some b) : env.Accepts (env.extend chain (bs.take j)) b := by
  induction bs generalizing chain j with
  | nil => cases hj
  | cons a bs ih =>
    cases j with
    | zero =>
      obtain rfl := Option.some.inj hj
      exact h.1
    | succ j => exact ih h.2 hj

end ChainEnv

theorem take_and_next_of_split {base done rest : List Entry}
    (h : chain = base ++ (done ++ e :: rest)) :
    base ++ done = chain.take (base.length + done.length) ∧
      chain[base.length + done.length]? = some e := by
  rw [← append_assoc] at h
  rw [h]
  constructor
  · rw [← length_append, take_left]
  · rw [← length_append]
    simp

namespace Switchable
variable {env : ChainEnv} {s : Blockchain} {f : Nat} {altChain : List BlockExtendedInfo}
section
variable (h : Switchable env db f altChain)
include h

theorem nodup_hashes : (altChain.map (fun bei => env.blockHash bei.bl)).Nodup := by
  rw [nodup_iff_getElem?_ne_getElem?]
  intro i j hij hj hsame
  rw [length_map] at hj
  rw [getElem?_map, getElem?_map, getElem?_eq_getElem hj,
    getElem?_eq_getElem (hij.trans hj)] at hsame
  have hhash : env.blockHash altChain[i].bl = env.blockHash altChain[j].bl :=
    Option.some.inj hsame
  have hi := h.stored altChain[i] (getElem_mem _)
  rw [hhash, h.stored altChain[j] (getElem_mem _)] at hi
  have hhi := h.heights i altChain[i] (getElem?_eq_getElem (hij.trans hj))
  have hhj := h.heights j altChain[j] (getElem?_eq_getElem hj)
  rw [← Option.some.inj hi] at hhi
  omega

theorem base_ne_nil : db.chain.take f ≠ [] := by
  have hpos := h.pos
  have hle := h.le
  refine ne_nil_of_length_pos ?_
  rw [length_take]
  omega

theorem length_base : (db.chain.take f).length = f := by
  rw [length_take, min_eq_left h.le]

theorem absent (hdet : env.HashDetermines) (hcanonical : env.Canonical db.chain)
    (he : e ∈ db.chain.drop f) :
    env.blockExists (env.extend (db.chain.take f) (altChain.map bl))
      (env.blockHash e.block) = false := by
  rw [← Bool.not_eq_true, blockExists_iff, env.blocks_extend]
  rintro ⟨b, hb, hhash⟩
  rcases mem_append.mp hb with hbase | halt
  · obtain ⟨x, hx, rfl⟩ := mem_map.mp hbase
    have hsplit : env.Canonical (db.chain.take f ++ db.chain.drop f) := by
      rwa [take_append_drop]
    exact hsplit.hash_ne hdet hx he hhash
  · obtain ⟨bei, hbei, rfl⟩ := mem_map.mp halt
    have hstored := h.stored bei hbei
    rw [hhash, h.separate e (mem_of_mem_drop he)] at hstored
    cases hstored

theorem unmarked (hh : Heavier env db f altChain)
    (hall : env.AllAccepted (db.chain.take f) (altChain.map bl)) {i : Nat}
    (hi : f ≤ i) (he : db.chain[i]? = some e)
    (hcheck : checkBlock env.checkpoints i (env.blockHash e.block) = true) :
    env.checkpoints.find? i = none := by
  cases hfind : env.checkpoints.find? i with
  | none => rfl
  | some expected =>
    have hmain := (checkBlock_of_find hfind _).mp hcheck
    have hlt := (List.getElem?_eq_some_iff.mp he).1
    rcases lt_or_ge (i - f) altChain.length with hinside | hbeyond
    · have hbei := getElem?_eq_getElem hinside
      have hblock : (altChain.map bl)[i - f]? = some altChain[i - f].bl := by
        rw [getElem?_map, hbei, Option.map_some]
      have haccept := hall.at hblock
      have hlen : (env.extend (db.chain.take f)
          ((altChain.map bl).take (i - f))).length = i := by
        rw [env.length_extend, h.length_base, length_take, length_map]
        omega
      have hpassed := haccept.checkpoint
      rw [hlen] at hpassed
      have halt := (checkBlock_of_find hfind _).mp (hpassed (isInCheckpointZone_of_find hfind))
      have hstored := h.stored altChain[i - f] (getElem_mem _)
      rw [halt, ← hmain, h.separate e (mem_of_getElem? he)] at hstored
      cases hstored
    · obtain ⟨last, hlast⟩ : ∃ last, altChain.getLast? = some last :=
        ⟨altChain.getLast h.nonempty, getLast?_eq_some_getLast h.nonempty⟩
      have hbelow := lt_of_isAlternativeBlockAllowed (hh.allowed last hlast) hfind hlt.le
      rw [getLast?_eq_getElem?] at hlast
      have hheight := h.heights _ last hlast
      omega

end
variable (h : Switchable env s.db f altChain) (hdet : env.HashDetermines) (hs : Coherent env s)
include h hdet hs

theorem disconnects (hh : Heavier env s.db f altChain)
    (hall : env.AllAccepted (s.db.chain.take f) (altChain.map bl))
    (hchain : db.chain = env.extend (s.db.chain.take f) (altChain.map bl))
    (halts : db.altBlocks = s.db.altBlocks) :
    Disconnects env (s.db.chain.take f) (s.db.chain.drop f) db := by
  have hsplit : s.db.chain.take f ++ s.db.chain.drop f = s.db.chain := take_append_drop _ _
  have hpos := length_pos_iff.mpr h.nonempty
  have hlen : db.chain.length = f + altChain.length := by
    rw [hchain, env.length_extend, h.length_base, length_map]
  have hupto : ∀ done e rest, s.db.chain.drop f = done ++ e :: rest →
      s.db.chain.take f ++ done = s.db.chain.take (f + done.length) ∧
      (s.db.chain.take (f + done.length)).length = f + done.length ∧
      s.db.chain[f + done.length]? = some e := by
    intro done e rest hdone
    have hwhole : s.db.chain = s.db.chain.take f ++ (done ++ e :: rest) := by
      rw [← hdone, hsplit]
    obtain ⟨htake, hget⟩ := take_and_next_of_split hwhole
    rw [h.length_base] at htake hget
    exact ⟨htake, length_take_of_le (List.getElem?_eq_some_iff.mp hget).1.le, hget⟩
  refine ⟨h.base_ne_nil, ?_, ?_, ?_, ?_, ?_, ?_, ?_, ?_, ?_, ?_⟩
  · rw [hsplit]
    exact hs.canonical
  · rw [hchain]
    exact (hs.canonical.take f).extend hall
  · rw [hchain]
    exact env.prefix_extend _ _
  · rw [h.length_base, hlen]
    omega
  · rw [hlen]
    exact h.fits
  · intro e he
    rw [halts]
    exact h.separate e (by rwa [hsplit] at he)
  · intro e he
    rw [hchain]
    exact h.absent hdet hs.canonical he
  · obtain ⟨last, hlast⟩ : ∃ last, altChain.getLast? = some last :=
      ⟨altChain.getLast h.nonempty, getLast?_eq_some_getLast h.nonempty⟩
    rw [hsplit, hchain, ← hh.work last hlast]
    exact hh.heavier last hlast
  · intro done e rest hdone
    obtain ⟨htake, hlen, hget⟩ := hupto done e rest hdone
    rw [htake, hlen]
    exact hh.targets _ (Nat.le_add_right _ _) (List.getElem?_eq_some_iff.mp hget).1
  · intro done e rest hdone
    obtain ⟨htake, hlen, hget⟩ := hupto done e rest hdone
    rw [htake, hlen]
    exact h.unmarked hh hall (Nat.le_add_right _ _) hget

theorem pop_to_fork :
    Blockchain.popWhile (fun s' => env.topHash s'.db.chain != env.topHash (s.db.chain.take f))
        s.db.chain.length [] s.markReset =
      .ok (blocks (s.db.chain.drop f)) (s.markReset.setChain (s.db.chain.take f)) := by
  have hsplit : s.db.chain = s.db.chain.take f ++ s.db.chain.drop f :=
    (take_append_drop _ _).symm
  rw [← append_nil (blocks (s.db.chain.drop f))]
  refine Blockchain.popWhile_eq rfl hsplit h.base_ne_nil (by rw [length_drop]; omega) ?_ ?_
  · intro t hne hpre
    rw [bne_iff_ne]
    intro htop
    have hwhole : env.Canonical (s.db.chain.take f ++ t) := by
      have hle := prefix_append_right_inj (s.db.chain.take f) |>.mpr hpre
      rw [← hsplit] at hle
      rw [prefix_iff_eq_take.mp hle]
      exact hs.canonical.take _
    have hsame := hdet hwhole (hs.canonical.take f) htop
    exact hne (append_right_eq_self.mp hsame)
  · exact bne_self_eq_false _

theorem switchWith_eq (handle : Block → Exec Blockchain (Bool × BlockVerificationContext))
    (discard : Bool) {remaining : List BlockExtendedInfo}
    (hconnect : Blockchain.connectAltChain env altChain (s.markReset.setChain (s.db.chain.take f)) =
      .ok remaining mid) :
    Blockchain.switchWith env handle altChain discard s =
      (if remaining.isEmpty then do
        if !discard then Blockchain.pushDisconnected handle (blocks (s.db.chain.drop f))
        Blockchain.removeAltBlocks env altChain
        pure true
      else do
        let _ ← Blockchain.rollbackBlockchainSwitching env (blocks (s.db.chain.drop f))
          (s.db.chain.take f).length
        Blockchain.removeAltBlocks env remaining
        pure false : Exec Blockchain Bool) mid := by
  cases altChain with
  | nil => exact absurd rfl h.nonempty
  | cons front rest =>
    have hprev : front.bl.prevId = env.topHash (s.db.chain.take f) := h.linked.1
    have hexists : env.blockExists s.markReset.db.chain front.bl.prevId = true := by
      obtain ⟨n, rfl⟩ : ∃ n, f = n + 1 := ⟨f - 1, (Nat.sub_add_cancel h.pos).symm⟩
      have hget := getElem?_eq_getElem (Nat.lt_of_succ_le h.le)
      rw [hprev, topHash_take hget, blockExists]
      exact Option.isSome_iff_exists.mpr ⟨n, blockHeightOf_eq hs.canonical hdet hget⟩
    have hpop := h.pop_to_fork hdet hs
    rw [← hprev] at hpop
    have hlen : (s.markReset.setChain (s.db.chain.take f)).db.chain.length =
        (s.db.chain.take f).length := rfl
    have hmark : s.markReset.db.chain.length = s.db.chain.length := rfl
    simp only [Blockchain.switchWith, exec_modify_bind, exec_get_bind, exec_bind_ok hpop, hexists,
      Bool.not_true, Bool.false_eq_true, if_false, hmark, exec_bind_ok hconnect, hlen]

end Switchable
namespace Blockchain
variable {env : ChainEnv} {s : Blockchain} {f : Nat} {altChain : List BlockExtendedInfo}
  {discard : Bool}

theorem removeAltBlocks_switched (h : Switchable env s.db f altChain) {fuel : Nat} {s₂ : Blockchain}
    (hchain : s₂.db.chain = env.extend (s.db.chain.take f) (altChain.map bl))
    (hstored : ∀ bei ∈ altChain, s₂.db.altBlocks.find? (env.blockHash bei.bl) = some bei)
    (hpushed : discard = false → ∀ mid, connectAltChain env altChain
      (s.markReset.setChain (s.db.chain.take f)) = .ok [] mid → ∀ b ∈ acceptedBy
      (handleAlternativeBlock env fuel true) (blocks (s.db.chain.drop f)) mid, ∃ bei,
      s₂.db.altBlocks.find? (env.blockHash b) = some bei ∧ bei.bl = b) :
    ∃ s', removeAltBlocks env altChain s₂ = .ok () s' ∧
      Switched env s f altChain discard fuel s' := by
  obtain ⟨s', hrun, hsame, hfind⟩ := removeAltBlocks_eq hstored h.nodup_hashes
  refine ⟨s', hrun, ⟨hsame.trans hchain, ?_, ?_, ?_⟩⟩
  · rw [hsame, hchain, env.blocks_extend]
  · intro bei hbei
    rw [hfind, if_pos (mem_map.mpr ⟨bei, hbei, rfl⟩)]
  · intro hdiscard mid hmid b hb
    obtain ⟨bei, hbei, hbl⟩ := hpushed hdiscard mid hmid b hb
    refine ⟨bei, ?_, hbl⟩
    rw [hfind, if_neg ?_]
    · exact hbei
    · intro hmem
      obtain ⟨other, hother, hhash⟩ := mem_map.mp hmem
      obtain ⟨e, he, rfl⟩ := mem_map.mp (acceptedBy_subset _ _ _ hb)
      have hclash := h.stored other hother
      rw [hhash, h.separate e (mem_of_mem_drop he)] at hclash
      cases hclash

theorem switch_of_connected (hdet : env.HashDetermines) (hs : Coherent env s)
    (h : Switchable env s.db f altChain)
    (hheavier : discard = false → Heavier env s.db f altChain) (fuel : Nat)
    (hc : Connected env (s.markReset.setChain (s.db.chain.take f)) altChain altChain.length mid) :
    ∃ s', switchToAlternativeBlockchain env (fuel + 1) altChain discard s = .ok true s' ∧
      Switched env s f altChain discard fuel s' := by
  obtain ⟨-, hconnect, hchain, halts, -, hall, -⟩ := hc
  rw [drop_length] at hconnect
  rw [take_length] at hchain hall
  have hrun := h.switchWith_eq hdet hs (handleAlternativeBlock env fuel true) discard hconnect
  have hstored : ∀ bei ∈ altChain, mid.db.altBlocks.find? (env.blockHash bei.bl) = some bei := by
    intro bei hbei
    rw [halts]
    exact h.stored bei hbei
  cases discard with
  | true =>
    obtain ⟨s', hremove, hswitched⟩ : ∃ s', removeAltBlocks env altChain mid = .ok () s' ∧
        Switched env s f altChain true fuel s' :=
      removeAltBlocks_switched h hchain hstored (fun hfalse => nomatch hfalse)
    refine ⟨s', hrun.trans ?_, hswitched⟩
    change (removeAltBlocks env altChain >>= fun _ => pure true) mid = _
    rw [exec_bind_ok hremove]
    rfl
  | false =>
    have hdisc := h.disconnects hdet hs (hheavier rfl) hall hchain halts
    obtain ⟨s₂, hpush⟩ : ∃ s₂, PushResult env (handleAlternativeBlock env fuel true)
        (blocks (s.db.chain.drop f)) mid s₂ :=
      push_disconnected hdisc hdet (hdisc.pushed_nil hdet) rfl
    obtain ⟨s', hremove, hswitched⟩ : ∃ s', removeAltBlocks env altChain s₂ = .ok () s' ∧
        Switched env s f altChain false fuel s' := by
      refine removeAltBlocks_switched h (hpush.chain.trans hchain)
        (fun bei hbei => hpush.kept _ bei (hstored bei hbei)) ?_
      intro _ mid' hmid'
      obtain ⟨-, rfl⟩ := EStateM.Result.ok.inj (hconnect.symm.trans hmid')
      exact hpush.accepted
    refine ⟨s', hrun.trans ?_, hswitched⟩
    change (pushDisconnected (handleAlternativeBlock env fuel true)
      (blocks (s.db.chain.drop f)) >>= fun _ => removeAltBlocks env altChain >>= fun _ =>
        pure true) mid = _
    rw [exec_bind_ok hpush.run, exec_bind_ok hremove]
    rfl

theorem switch_of_refused (hdet : env.HashDetermines) (hs : Coherent env s)
    (h : Switchable env s.db f altChain)
    (horiginal : env.AllAccepted (s.db.chain.take f) (blocks (s.db.chain.drop f)))
    (discard : Bool) (fuel : Nat) {k : Nat} (hk : k < altChain.length)
    (hc : Connected env (s.markReset.setChain (s.db.chain.take f)) altChain k mid) :
    ∃ s', switchToAlternativeBlockchain env (fuel + 1) altChain discard s = .ok false s' ∧
      RolledBack env s f altChain s' := by
  have hrun := h.switchWith_eq hdet hs (handleAlternativeBlock env fuel true) discard hc.run
  obtain ⟨tail, htail⟩ := env.prefix_extend (s.db.chain.take f)
    ((altChain.take k).map bl)
  obtain ⟨s₂, hrollback, hchain, halts, -⟩ : ∃ s', rollbackBlockchainSwitching env (blocks (drop f
    s.db.chain)) (take f s.db.chain).length mid = .ok true s' ∧ s'.db.chain = env.extend (take f
    s.db.chain) (blocks (drop f s.db.chain)) ∧ s'.db.altBlocks = mid.db.altBlocks ∧ Coherent env s'
    := by
    have htake : mid.db.chain.take (take f s.db.chain).length = (take f s.db.chain) := by rw
      [(hc.chain.trans htail.symm), List.take_left]
    have hcanonical := hc.coherent.canonical.take (take f s.db.chain).length
    rw [htake] at hcanonical
    rw [rollbackBlockchainSwitching_run (blocks (drop f s.db.chain)) (List.length_pos_iff.mpr
      h.base_ne_nil)
      (by rw [(hc.chain.trans htail.symm), List.length_append]; exact Nat.le_add_right _ _), htake]
    exact restoreChain_eq hdet (markReset_setChain_coherent hc.coherent hcanonical) horiginal
  have hrestored : s₂.db.chain = s.db.chain := by
    rw [hchain, ChainEnv.Canonical.extend_blocks]
    · exact take_append_drop _ _
    · rw [take_append_drop]
      exact hs.canonical
  have hstored : ∀ bei ∈ altChain, s₂.db.altBlocks.find? (env.blockHash bei.bl) = some bei := by
    intro bei hbei
    rw [halts, hc.alts]
    exact h.stored bei hbei
  have hsplit : altChain.take k ++ altChain.drop k = altChain := take_append_drop _ _
  have hnodup := h.nodup_hashes
  rw [← hsplit, map_append, nodup_append] at hnodup
  obtain ⟨-, hlater, hapart⟩ := hnodup
  obtain ⟨s', hremove, hsame, hfind⟩ := removeAltBlocks_eq
    (fun bei hbei => hstored bei (mem_of_mem_drop hbei)) hlater
  have hbei := getElem?_eq_getElem hk
  refine ⟨s', hrun.trans ?_, hsame.trans hrestored, k, altChain[k], hbei, hc.accepted, ?_, ?_, ?_⟩
  · rw [drop_eq_getElem_cons hk] at hremove ⊢
    change (rollbackBlockchainSwitching env (blocks (s.db.chain.drop f))
      (s.db.chain.take f).length >>= fun _ => removeAltBlocks env
        (altChain[k] :: altChain.drop (k + 1)) >>= fun _ => pure false) mid = _
    rw [exec_bind_ok hrollback, exec_bind_ok hremove]
    rfl
  · have hrefused := hc.refused altChain[k] hbei
    rwa [hc.chain] at hrefused
  · intro earlier hearlier
    rw [hfind, if_neg ?_]
    · exact hstored earlier (mem_of_mem_take hearlier)
    · intro hmem
      exact hapart _ (mem_map.mpr ⟨earlier, hearlier, rfl⟩) _ hmem rfl
  · intro later hmem
    rw [hfind, if_pos (mem_map.mpr ⟨later, hmem, rfl⟩)]

theorem switch_all_or_nothing {env : ChainEnv} (hdet : env.HashDetermines) {s : Blockchain}
    (hs : Coherent env s) {f : Nat} {altChain : List BlockExtendedInfo}
    (h : Switchable env s.db f altChain)
    (horiginal : env.AllAccepted (s.db.chain.take f) (blocks (s.db.chain.drop f)))
    {discard : Bool} (hheavier : discard = false → Heavier env s.db f altChain) (fuel : Nat) :
    ∃ switched s', switchToAlternativeBlockchain env (fuel + 1) altChain discard s =
        .ok switched s' ∧
      (switched = true → Switched env s f altChain discard fuel s') ∧
      (switched = false → RolledBack env s f altChain s') := by
  have hbase := markReset_setChain_coherent hs (hs.canonical.take f)
  obtain ⟨k, mid, hc⟩ := connectAltChain_connected hdet hbase altChain
  rcases hc.le.eq_or_lt with rfl | hlt
  · obtain ⟨s', hrun, hswitched⟩ := switch_of_connected hdet hs h hheavier fuel hc
    exact ⟨true, s', hrun, fun _ => hswitched, fun hfalse => nomatch hfalse⟩
  · obtain ⟨s', hrun, hback⟩ := switch_of_refused hdet hs h horiginal discard fuel hlt hc
    exact ⟨false, s', hrun, (fun htrue => nomatch htrue), fun _ => hback⟩

def keptBlock : Block := sampleBlock 1 120
  ((injectiveEnv 0).blockHash (sampleBlock 0 0 nullHash))

def forkBlock : Block := sampleBlock 1 130
  ((injectiveEnv 0).blockHash (sampleBlock 0 0 nullHash))

def forkTip : Block := sampleBlock 2 250 ((injectiveEnv 0).blockHash forkBlock)

def forkInfos : List BlockExtendedInfo := [⟨forkBlock, 1, 0, 2, 0⟩, ⟨forkTip, 2, 0, 3, 0⟩]

def forkDb : Db :=
  ⟨genesisDb.chain ++ [⟨keptBlock, 2, 0⟩],
    (SortedMap.empty.insert ((injectiveEnv 0).blockHash forkBlock) ⟨forkBlock, 1, 0, 2, 0⟩).insert
      ((injectiveEnv 0).blockHash forkTip) ⟨forkTip, 2, 0, 3, 0⟩⟩

theorem forkDb_canonical : (injectiveEnv 0).Canonical forkDb.chain := by
  have h : (injectiveEnv 0).Canonical (genesisDb.chain ++ [nextEntry _ genesisDb.chain
    keptBlock]) := .snoc (genesisDb_canonical 0) rfl
  exact h

theorem forkDb_switchable : Switchable (injectiveEnv 0) forkDb 1 forkInfos := by
  refine ⟨by decide, by decide, by decide, by simp [forkInfos], ⟨rfl, rfl, trivial⟩,
    by decide +kernel, ?_, by decide +kernel⟩
  rintro (_ | _ | i) bei ⟨⟩
  · rfl
  · rfl

theorem forkDb_heavier : Heavier (injectiveEnv 0) forkDb 1 forkInfos := by
  refine ⟨?_, ?_, ?_, ?_⟩
  · rintro last ⟨⟩
    rfl
  · rintro last ⟨⟩
    decide
  · rintro last ⟨⟩
    rfl
  · intro i _ _
    rfl

theorem forkDb_original : (injectiveEnv 0).AllAccepted (forkDb.chain.take 1)
    (blocks (forkDb.chain.drop 1)) :=
  ⟨⟨rfl, by decide, by decide, by decide, rfl, (fun h => nomatch h), rfl, rfl⟩, trivial⟩

theorem fork_switch_all_or_nothing :
    ∃ switched s', switchToAlternativeBlockchain (injectiveEnv 0) 1 forkInfos false
        (opened forkDb) = .ok switched s' ∧
      (switched = true → Switched (injectiveEnv 0) (opened forkDb) 1 forkInfos false 0 s') ∧
      (switched = false → RolledBack (injectiveEnv 0) (opened forkDb) 1 forkInfos s') :=
  switch_all_or_nothing (injective_hashDetermines rfl) (opened_coherent forkDb_canonical)
    forkDb_switchable forkDb_original (fun _ => forkDb_heavier) 0

def lighterInfo : BlockExtendedInfo := ⟨sampleBlock 1 130 1000, 1, 0, 2, 0⟩

def lighterDb : Db := ⟨sampleMain, SortedMap.empty.insert 2130 lighterInfo⟩

theorem lighter_switch_undone :
    Switchable sampleEnv lighterDb 1 [lighterInfo] ∧
      sampleEnv.AllAccepted (lighterDb.chain.take 1) (blocks (lighterDb.chain.drop 1)) ∧
      let run := switchToAlternativeBlockchain sampleEnv 2 [lighterInfo] false
        (opened lighterDb)
      returned run = some true ∧ (stateAfter run).db.chain = lighterDb.chain ∧
        blocks lighterDb.chain ≠ blocks (lighterDb.chain.take 1) ++ [lighterInfo.bl] := by
  refine ⟨⟨by decide, by decide, by decide, by decide, ⟨rfl, trivial⟩, ?_, ?_, ?_⟩, ?_,
    by decide +kernel, by decide +kernel, by decide +kernel⟩
  · intro bei hbei
    rw [mem_singleton.mp hbei]
    rfl
  · rintro (_ | i) bei ⟨⟩
    rfl
  · decide
  · exact ⟨⟨rfl, by decide, by decide, by decide, rfl, (fun h => nomatch h), rfl, rfl⟩,
      ⟨rfl, by decide, by decide, by decide, rfl, (fun h => nomatch h), rfl, rfl⟩, trivial⟩

end Blockchain
end Jero.Chain
