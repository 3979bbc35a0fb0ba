import Jero.Chain.SwitchSteps

namespace Jero.Chain
open Jero.Lists Jero.Tx List ChainEnv BlockExtendedInfo
variable {chain : List Entry} {bei : BlockExtendedInfo}

theorem map_windowEntries_congr {f : Entry → Nat} {chain' : List Entry}
    (h : chain.map f = chain'.map f) :
    (windowEntries chain).map f = (windowEntries chain').map f := by
  have hlen : chain.length = chain'.length := by simpa using congrArg length h
  simp only [windowEntries, hlen, map_drop, h]

theorem AltPath.insert {alts : SortedMap Hash BlockExtendedInfo} {root id : Hash}
    {path : List BlockExtendedInfo} (h : AltPath alts root id path) {key : Hash}
    (hfresh : alts.find? key = none) (hroot : root ≠ key) :
    AltPath (alts.insert key bei) root id path := by
  induction h with
  | root hnone =>
    refine .root ?_
    rw [SortedMap.find?_insert, if_neg hroot]
    exact hnone
  | @up id next rest hfind _ ih =>
    refine .up ?_ ih
    rw [SortedMap.find?_insert, if_neg ?_]
    · exact hfind
    · rintro rfl
      rw [hfresh] at hfind
      cases hfind

namespace ChainEnv
variable {env : ChainEnv} {tail : List Entry}

theorem Canonical.hash_ne (h : env.Canonical (chain ++ tail)) (hdet : env.HashDetermines)
    {x e : Entry} (hx : x ∈ chain) (he : e ∈ tail) :
    env.blockHash x.block ≠ env.blockHash e.block := by
  intro hsame
  obtain ⟨i, hi⟩ := mem_iff_getElem?.mp hx
  obtain ⟨j, hj⟩ := mem_iff_getElem?.mp he
  have hlt := (List.getElem?_eq_some_iff.mp hi).1
  have hxi : (chain ++ tail)[i]? = some x := by rw [getElem?_append_left hlt, hi]
  have hej : (chain ++ tail)[chain.length + j]? = some e := by
    rw [getElem?_append_right (Nat.le_add_right _ _), Nat.add_sub_cancel_left, hj]
  have hindex := blockHeightOf_eq h hdet hxi
  rw [hsame, blockHeightOf_eq h hdet hej] at hindex
  have hij := Option.some.inj hindex
  omega

theorem Canonical.linkedFrom (h : env.Canonical (chain ++ tail)) :
    env.LinkedFrom (env.topHash chain) (blocks tail) := by
  induction tail generalizing chain with
  | nil => trivial
  | cons e tail ih =>
    refine ⟨h.at.2, ?_⟩
    have hrest : env.Canonical ((chain ++ [e]) ++ tail) := by
      rwa [append_assoc]
    have hlinked := ih hrest
    rwa [topHash_concat] at hlinked

end ChainEnv

structure Disconnects (env : ChainEnv) (base disc : List Entry) (db : Db) : Prop where
  nonempty : base ≠ []
  canonical : env.Canonical (base ++ disc)
  newCanonical : env.Canonical db.chain
  common : base <+: db.chain
  longer : base.length < db.chain.length
  fits : db.chain.length < 2 ^ 64
  unseen : ∀ e ∈ base ++ disc, db.altBlocks.find? (env.blockHash e.block) = none
  absent : ∀ e ∈ disc, env.blockExists db.chain (env.blockHash e.block) = false
  lighter : topCumulativeDifficulty (base ++ disc) < topCumulativeDifficulty db.chain
  targets : ∀ done e rest, disc = done ++ e :: rest →
    ChainEnv.difficultyTarget (env.idealVersion (base ++ done).length) =
      env.getDifficultyTarget (base ++ done)
  unmarked : ∀ done e rest, disc = done ++ e :: rest →
    checkBlock env.checkpoints (base ++ done).length (env.blockHash e.block) = true →
    env.checkpoints.find? (base ++ done).length = none

structure Pushed (env : ChainEnv) (base done : List Entry) (start db : Db)
    (pushed : List BlockExtendedInfo) : Prop where
  chain : db.chain = start.chain
  front : ∀ first ∈ pushed.head?, first.height = base.length
  timestamps : pushed.map (fun bei => bei.bl.timestamp) = timestampsOf done
  works : pushed.map cumulativeDifficulty = difficultiesOf done
  path : AltPath db.altBlocks (env.topHash base) (env.topHash (base ++ done)) pushed.reverse
  prevHeight : env.prevHeight db (env.topHash (base ++ done)) + 1 = (base ++ done).length
  prevDifficulty : env.prevCumulativeDifficulty db (env.topHash (base ++ done)) =
    topCumulativeDifficulty (base ++ done)
  known : (db.altBlocks.find? (env.topHash (base ++ done))).isSome = true ∨
    env.blockExists db.chain (env.topHash (base ++ done)) = true
  others : ∀ id, (∀ e ∈ done, id ≠ env.blockHash e.block) →
    db.altBlocks.find? id = start.altBlocks.find? id

namespace Disconnects
variable {env : ChainEnv} {base disc : List Entry} {start db : Db}

theorem blockHeightOf_fork (h : Disconnects env base disc db) (hdet : env.HashDetermines) :
    env.blockHeightOf db.chain (env.topHash base) = some (base.length - 1) := by
  obtain ⟨init, last, rfl⟩ := (eq_nil_or_concat' base).resolve_left h.nonempty
  obtain ⟨rest, hrest⟩ := h.common
  rw [env.topHash_concat, length_append, length_singleton, Nat.add_sub_cancel]
  refine blockHeightOf_eq h.newCanonical hdet ?_
  rw [← hrest]
  simp

theorem find_fork (h : Disconnects env base disc db) :
    db.altBlocks.find? (env.topHash base) = none := by
  obtain ⟨init, last, rfl⟩ := (eq_nil_or_concat' base).resolve_left h.nonempty
  rw [env.topHash_concat]
  exact h.unseen last (by simp)

theorem pushed_nil (h : Disconnects env base disc db) (hdet : env.HashDetermines) :
    Pushed env base [] db db [] := by
  have hheight := h.blockHeightOf_fork hdet
  have hpos := length_pos_iff.mpr h.nonempty
  have hprev : env.prevHeight db (env.topHash base) + 1 = base.length := by
    rw [prevHeight, h.find_fork]
    simp only [hheight, Option.getD_some]
    omega
  refine ⟨rfl, (fun _ hfirst => nomatch hfirst), rfl, rfl, ?_, ?_, ?_, ?_, fun _ _ => rfl⟩
  · rw [append_nil]
    exact .root h.find_fork
  · rw [append_nil]
    exact hprev
  · rw [append_nil, prevCumulativeDifficulty, h.find_fork]
    simp only [hprev]
    rw [← prefix_iff_eq_take.mp h.common]
  · refine .inr ?_
    rw [append_nil, blockExists, hheight]
    rfl

variable {done rest : List Entry} {e : Entry} {pushed : List BlockExtendedInfo}
variable (h : Disconnects env base disc start) (hp : Pushed env base done start db pushed)
include h hp

theorem attached (hdet : env.HashDetermines) :
    Attached env db base.length pushed (env.topHash (base ++ done)) := by
  refine ⟨length_pos_iff.mpr h.nonempty, ?_, ⟨env.topHash base, hp.path, ?_⟩, ?_⟩
  · rw [hp.chain]
    exact h.fits
  · rw [hp.chain]
    exact h.blockHeightOf_fork hdet
  · intro first hfirst
    rw [hp.chain]
    exact ⟨hp.front first hfirst, h.longer⟩

theorem alternativeDifficulty_eq (hdisc : disc = done ++ e :: rest)
    (hprev : e.block.prevId = env.topHash (base ++ done)) :
    env.alternativeDifficulty db e.block pushed = env.difficultyAt (base ++ done) := by
  have hlen : pushed.length = done.length := by
    have hmap := congrArg length hp.works
    rwa [length_map, difficultiesOf, length_map] at hmap
  have hheight : (env.alternativeInfo db e.block).height = (base ++ done).length := by
    rw [alternativeInfo, hprev]
    exact hp.prevHeight
  have htake : db.chain.take base.length = base := by
    rw [hp.chain]
    exact (prefix_iff_eq_take.mp h.common).symm
  have hforks : ChainEnv.Forks db.chain base.length pushed (env.alternativeInfo db e.block) := by
    refine ⟨length_pos_iff.mpr h.nonempty, ?_, hp.front, ?_⟩
    · rw [hp.chain]
      exact h.longer.le
    · rw [hheight, length_append, hlen]
  have hts : timestampsOf (forkedChain db.chain base.length pushed) =
      timestampsOf (base ++ done) := by
    rw [forkedChain, htake, timestampsOf_append, timestampsOf_append, ← hp.timestamps]
    simp [timestampsOf, Function.comp_def, entry]
  have hds : difficultiesOf (forkedChain db.chain base.length pushed) =
      difficultiesOf (base ++ done) := by
    rw [forkedChain, htake, difficultiesOf_append, difficultiesOf_append, ← hp.works]
    simp [difficultiesOf, Function.comp_def, entry]
  have hmain : db.chain.length ≠ 0 := by
    have hpos := hforks.pos
    have hle := hforks.le
    omega
  have hlen : (base ++ done).length ≠ 0 := by
    simp [h.nonempty]
  unfold alternativeDifficulty getNextDifficultyForAlternativeChain difficultyAt
  split
  · rfl
  · rw [alternativeWindow_eq hforks]
    simp only [hheight, h.targets done e rest hdisc]
    rw [freshDifficulty, timestampsOf, timestampsOf, difficultiesOf, difficultiesOf,
      map_windowEntries_congr hts, map_windowEntries_congr hds]

theorem examine_next (hdet : env.HashDetermines) (hdisc : disc = done ++ e :: rest) :
    (∃ bvc, env.examineAlternative db e.block true = .ok (.refuse bvc)) ∨
      ∃ bei, ChainEnv.AcceptsAlternative env db e.block pushed bei ∧
        bei.height = (base ++ done).length ∧
        bei.cumulativeDifficulty = e.cumulativeDifficulty ∧
        env.examineAlternative db e.block true = .ok (.accept pushed bei false false) := by
  have hwhole : base ++ disc = (base ++ done) ++ e :: rest := by rw [hdisc, append_assoc]
  have hcanonical : env.Canonical ((base ++ done) ++ e :: rest) := hwhole ▸ h.canonical
  obtain ⟨hentry, hprev⟩ := hcanonical.at
  have hbuild := buildAltChain_eq (h.attached hp hdet)
  rw [← hprev] at hbuild
  rcases examineAlternative_of_known_parent hbuild (by rw [hprev]; exact hp.known) with
    hrefuse | ⟨bei, haccept, hverdict⟩
  · exact .inl hrefuse
  have hheight : bei.height = (base ++ done).length := by
    rw [haccept.height, hprev]
    exact hp.prevHeight
  have hwork : bei.cumulativeDifficulty = e.cumulativeDifficulty := by
    rw [haccept.cumulative, h.alternativeDifficulty_eq hp hdisc hprev, hprev, hp.prevDifficulty,
      hentry]
    exact add_comm _ _
  have hmark : env.checkpoints.find? bei.height = none := by
    have hcheck := haccept.checkpoint
    rw [hheight] at hcheck ⊢
    exact h.unmarked done e rest hdisc hcheck
  have hlight : ¬ topCumulativeDifficulty db.chain < bei.cumulativeDifficulty := by
    have hupto : (base ++ done) ++ [e] <+: base ++ disc := by
      rw [hwhole]
      exact ⟨rest, by simp⟩
    have hmono := topCumulativeDifficulty_mono h.canonical hupto
    rw [topCumulativeDifficulty_concat] at hmono
    have hlighter := h.lighter
    rw [hp.chain, hwork]
    omega
  refine .inr ⟨bei, haccept, hheight, hwork, ?_⟩
  rw [hverdict, hmark, decide_eq_false hlight]
  rfl

end Disconnects
end Jero.Chain
