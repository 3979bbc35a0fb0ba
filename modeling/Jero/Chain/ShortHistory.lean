import Jero.Chain.CachedDifficulty

namespace Jero.Chain
open Jero.Machine Jero.Tx List Option Blockchain

structure HistoryState where
  ids : List Hash
  genesisIncluded : Bool
  i : Nat
  currentMultiplier : Nat
  currentBackOffset : Nat
deriving DecidableEq, Repr

open HistoryState
namespace HistoryState

def initial : HistoryState := ⟨[], false, 0, 1, 1⟩

def push (st : HistoryState) (id : Hash) (height : Nat) : HistoryState :=
  { st with
    ids := st.ids ++ [id]
    genesisIncluded := if height = 0 then true else st.genesisIncluded }

def advance (st : HistoryState) : HistoryState :=
  if st.i < 10 then
    { st with i := wrap (st.i + 1), currentBackOffset := wrap (st.currentBackOffset + 1) }
  else
    let multiplier := wrap (st.currentMultiplier * 2)
    { st with
      i := wrap (st.i + 1)
      currentMultiplier := multiplier
      currentBackOffset := wrap (st.currentBackOffset + multiplier) }

end HistoryState
namespace ChainEnv
variable (env : ChainEnv)

def historyLoop (chain : List Entry) : Nat → HistoryState → Except String (Option HistoryState)
  | 0, _ => .ok none
  | fuel + 1, st =>
    if st.currentBackOffset < chain.length then do
      let id ← env.blockHashFromHeight chain (chain.length - st.currentBackOffset)
      historyLoop chain fuel (st.push id (chain.length - st.currentBackOffset)).advance
    else .ok (some st)

def getShortChainHistory (chain : List Entry) (fuel : Nat) :
    Except String (Option (List Hash × Nat)) :=
  if chain.length = 0 then .ok (some ([], chain.length))
  else do
    match ← env.historyLoop chain fuel .initial with
    | none => .ok none
    | some st =>
      if st.genesisIncluded then .ok (some (st.ids, chain.length))
      else do
        let genesis ← env.blockHashFromHeight chain 0
        .ok (some (st.ids ++ [genesis], chain.length))

def findBlockchainSupplement (chain : List Entry) (qblockIds : List Hash) :
    Except String (Option Nat) :=
  match qblockIds.getLast? with
  | none => .ok none
  | some last => do
    let genHash ← env.blockHashFromHeight chain 0
    if last ≠ genHash then .ok none
    else .ok (qblockIds.findSome? (env.blockHeightOf chain))

def Lists (chain : List Entry) (heights : List Nat) (ids : List Hash) : Prop :=
  heights.map (env.blockHashFromHeight chain) = ids.map .ok

def offsetAt (n : Nat) : Nat := if n < 10 then n + 1 else 9 + 2 ^ (n - 9)

def stateAt (n : Nat) (ids : List Hash) : HistoryState :=
  ⟨ids, false, n, 2 ^ (n - 10), offsetAt n⟩

variable {n height fuel : Nat} {chain : List Entry} {ids : List Hash} {out : HistoryState}

theorem offsetAt_pos (n : Nat) : 0 < offsetAt n := by
  unfold offsetAt
  split
  · exact Nat.succ_pos n
  · exact Nat.add_pos_left (by norm_num) _

theorem offsetAt_lt_succ (n : Nat) : offsetAt n < offsetAt (n + 1) := by
  rcases lt_trichotomy n 9 with hlt | rfl | hgt
  · rw [offsetAt, offsetAt, if_pos (by omega), if_pos (by omega)]
    exact Nat.lt_succ_self _
  · decide
  · rw [offsetAt, offsetAt, if_neg (by omega), if_neg (by omega)]
    exact Nat.add_lt_add_left (Nat.pow_lt_pow_right (by norm_num) (by omega)) 9

theorem advance_stateAt (ids : List Hash) (h : offsetAt n < 2 ^ 63 + 9) :
    (stateAt n ids).advance = stateAt (n + 1) ids := by
  by_cases hn : n < 10
  · have hi : wrap (n + 1) = n + 1 := wrap_of_lt (by omega)
    have hoffset : wrap (offsetAt n + 1) = offsetAt (n + 1) := by
      rw [offsetAt, if_pos hn, wrap_of_lt (by omega)]
      interval_cases n <;> rfl
    have hmult : 2 ^ (n - 10) = 2 ^ (n + 1 - 10) := by
      interval_cases n <;> rfl
    simp only [advance, stateAt, if_pos hn, hi, hoffset, hmult]
  · have hexp : n - 9 < 63 := by
      rw [offsetAt, if_neg hn, add_comm] at h
      exact (Nat.pow_lt_pow_iff_right (by norm_num)).mp (lt_of_add_lt_add_right h)
    have hi : wrap (n + 1) = n + 1 := wrap_of_lt (by omega)
    have hdouble : 2 ^ (n - 10) * 2 = 2 ^ (n - 9) := by
      rw [← pow_succ]
      congr 1
      omega
    have hnext : 2 ^ (n - 9) + 2 ^ (n - 9) = 2 ^ (n + 1 - 9) := by
      rw [← two_mul, ← pow_succ']
      congr 1
      omega
    have hbound : 2 ^ (n - 9) ≤ 2 ^ 62 := Nat.pow_le_pow_right (by norm_num) (by omega)
    have hmult : wrap (2 ^ (n - 10) * 2) = 2 ^ (n + 1 - 10) := by
      rw [hdouble, wrap_of_lt (by omega)]
      congr 1
    have hoffset : wrap (offsetAt n + 2 ^ (n + 1 - 10)) = offsetAt (n + 1) := by
      rw [offsetAt, offsetAt, if_neg hn, if_neg (by omega), ← hnext,
        show n + 1 - 10 = n - 9 by omega, add_assoc, wrap_of_lt (by omega)]
    simp only [advance, stateAt, if_neg hn, hi, hmult, hoffset]

variable {env}

theorem blockHashFromHeight_ok (h : height < chain.length) :
    ∃ e, chain[height]? = some e ∧
      env.blockHashFromHeight chain height = .ok (env.blockHash e.block) := by
  refine ⟨chain[height], getElem?_eq_getElem h, ?_⟩
  rw [blockHashFromHeight, getElem?_eq_getElem h]

theorem push_stateAt (ids : List Hash) (id : Hash) (h : 0 < height) :
    (stateAt n ids).push id height = stateAt n (ids ++ [id]) := by
  rw [push, if_neg h.ne']
  rfl

theorem historyLoop_step {id : Hash} (hmore : offsetAt n < chain.length)
    (h : offsetAt n < 2 ^ 63 + 9)
    (hid : env.blockHashFromHeight chain (chain.length - offsetAt n) = .ok id) (fuel : Nat)
    (ids : List Hash) :
    env.historyLoop chain (fuel + 1) (stateAt n ids) =
      env.historyLoop chain fuel (stateAt (n + 1) (ids ++ [id])) := by
  rw [historyLoop]
  change (if offsetAt n < chain.length then _ else _) = _
  rw [if_pos hmore]
  change (env.blockHashFromHeight chain (chain.length - offsetAt n) >>= _) = _
  rw [hid, ok_bind]
  change env.historyLoop chain fuel
    ((stateAt n ids).push _ (chain.length - offsetAt n)).advance = _
  rw [push_stateAt ids _ (by omega), advance_stateAt _ h]

theorem historyLoop_done (hdone : ¬ offsetAt n < chain.length) (fuel : Nat) (ids : List Hash) :
    env.historyLoop chain (fuel + 1) (stateAt n ids) =
      .ok (some (stateAt (n + ([] : List Hash).length) (ids ++ []))) := by
  rw [historyLoop]
  change (if offsetAt n < chain.length then _ else _) = _
  rw [if_neg hdone, append_nil]
  rfl

structure Listing (env : ChainEnv) (chain : List Entry) (n : Nat) (heights : List Nat)
    (ids : List Hash) : Prop where
  lists : env.Lists chain heights ids
  decreasing : heights.Pairwise (· > ·)
  bounds : ∀ h ∈ heights, 0 < h ∧ h + offsetAt n ≤ chain.length
  top : offsetAt n < chain.length → heights.head? = some (chain.length - offsetAt n)

variable {heights : List Nat} {st : HistoryState}

theorem historyLoop_returns (hlen : chain.length ≤ 2 ^ 63 + 9) (gap n : Nat)
    (hgap : chain.length ≤ offsetAt n + gap) :
    ∃ heights more, Listing env chain n heights more ∧ ∀ fuel ids, gap ≤ fuel →
      env.historyLoop chain (fuel + 1) (stateAt n ids) =
        .ok (some (stateAt (n + more.length) (ids ++ more))) := by
  induction gap generalizing n with
  | zero =>
    have hdone : ¬ offsetAt n < chain.length := not_lt.mpr hgap
    refine ⟨[], [], ⟨rfl, .nil, fun _ h => (not_mem_nil h).elim, fun h => absurd h hdone⟩, ?_⟩
    intro fuel ids _
    exact historyLoop_done hdone fuel ids
  | succ gap ih =>
    by_cases hmore : offsetAt n < chain.length
    · have hlt := offsetAt_lt_succ n
      have hpos := offsetAt_pos n
      obtain ⟨e, -, hid⟩ : ∃ e, chain[chain.length - offsetAt n]? = some e ∧
          env.blockHashFromHeight chain (chain.length - offsetAt n) =
            .ok (env.blockHash e.block) := blockHashFromHeight_ok (by omega)
      obtain ⟨heights, more, hlisting, hloop⟩ := ih (n + 1) (by omega)
      refine ⟨(chain.length - offsetAt n) :: heights, env.blockHash e.block :: more,
        ⟨?_, ?_, ?_, fun _ => rfl⟩, ?_⟩
      · rw [Lists, map_cons, map_cons, hid, hlisting.lists]
      · refine pairwise_cons.mpr ⟨?_, hlisting.decreasing⟩
        intro height hmem
        have hbound := (hlisting.bounds height hmem).2
        omega
      · intro height hmem
        rcases mem_cons.mp hmem with rfl | hmem
        · omega
        · have hbound := hlisting.bounds height hmem
          omega
      · intro fuel ids hfuel
        obtain ⟨fuel, rfl⟩ : ∃ k, fuel = k + 1 := ⟨fuel - 1, by omega⟩
        rw [historyLoop_step hmore (by omega) hid, hloop fuel _ (by omega), append_assoc,
          singleton_append, length_cons, add_right_comm, add_assoc]
    · refine ⟨[], [], ⟨rfl, .nil, fun _ h => (not_mem_nil h).elim, fun h => absurd h hmore⟩, ?_⟩
      intro fuel ids _
      exact historyLoop_done hmore fuel ids

theorem getShortChainHistory_returns (env : ChainEnv) {mine : List Entry} (hne : mine ≠ [])
    (hlen : mine.length ≤ 2 ^ 63 + 9) :
    ∃ heights ids, (∀ fuel, mine.length ≤ fuel →
        env.getShortChainHistory mine fuel = .ok (some (ids, mine.length))) ∧
      env.Lists mine heights ids ∧ heights.Pairwise (· > ·) ∧
      heights.head? = some (mine.length - 1) ∧ heights.getLast? = some 0 := by
  have hpos := length_pos_of_ne_nil hne
  obtain ⟨heights, more, hlisting, hloop⟩ : ∃ heights more, Listing env mine 0 heights more ∧
      ∀ fuel ids, mine.length - 1 ≤ fuel → env.historyLoop mine (fuel + 1) (stateAt 0 ids) =
        .ok (some (stateAt (0 + more.length) (ids ++ more))) :=
    historyLoop_returns hlen (mine.length - 1) 0 (by change mine.length ≤ 1 + _; omega)
  obtain ⟨g, -, hgenesis⟩ : ∃ g, mine[0]? = some g ∧
      env.blockHashFromHeight mine 0 = .ok (env.blockHash g.block) := blockHashFromHeight_ok hpos
  refine ⟨heights ++ [0], more ++ [env.blockHash g.block], ?_, ?_, ?_, ?_, ?_⟩
  · intro fuel hfuel
    obtain ⟨fuel, rfl⟩ : ∃ k, fuel = k + 1 := ⟨fuel - 1, by omega⟩
    rw [getShortChainHistory, if_neg hpos.ne']
    change (env.historyLoop mine (fuel + 1) (stateAt 0 []) >>= _) = _
    rw [hloop fuel [] (by omega), ok_bind]
    rw [hgenesis]
    rfl
  · rw [Lists, map_append, map_append, hlisting.lists, map_singleton, hgenesis]
    rfl
  · refine pairwise_append.mpr ⟨hlisting.decreasing, pairwise_singleton _ _, ?_⟩
    intro h hmem z hz
    rw [mem_singleton.mp hz]
    exact (hlisting.bounds h hmem).1
  · by_cases hone : 1 < mine.length
    · rw [head?_append, hlisting.top hone]
      rfl
    · cases heights with
      | nil => exact congrArg some (by omega)
      | cons h heights =>
        have hbound : 0 < h ∧ h + 1 ≤ mine.length := hlisting.bounds h mem_cons_self
        omega
  · exact getLast?_concat

theorem lists_getElem? (h : env.Lists chain heights ids) {k : Nat}
    (hk : heights[k]? = some height) :
    ∃ e, chain[height]? = some e ∧ ids[k]? = some (env.blockHash e.block) := by
  have hget := congrArg (fun l => l[k]?) h
  simp only [getElem?_map, hk, map_some] at hget
  obtain ⟨id, hid, hok⟩ := map_eq_some_iff.mp hget.symm
  unfold blockHashFromHeight at hok
  split at hok
  · cases hok
  · rename_i e he
    exact ⟨e, he, by rw [hid, Except.ok.inj hok]⟩

theorem height_eq_of_hash_eq (hdet : env.HashDetermines) {l d : List Entry} (hl : env.Canonical l)
    (hd : env.Canonical d) {i j : Nat} {e f : Entry} (hi : l[i]? = some e) (hj : d[j]? = some f)
    (hsame : env.blockHash e.block = env.blockHash f.block) : i = j := by
  have htop : env.topHash (l.take (i + 1)) = env.topHash (d.take (j + 1)) := by
    rw [topHash_take hi, topHash_take hj, hsame]
  have hlen := congrArg length (hdet (hl.take _) (hd.take _) htop)
  have hilt := (List.getElem?_eq_some_iff.mp hi).1
  have hjlt := (List.getElem?_eq_some_iff.mp hj).1
  rw [length_take, length_take] at hlen
  omega

theorem findBlockchainSupplement_finds {theirs : List Entry} {g : Entry}
    (htheirs : theirs.head? = some g) (hlast : ids.getLast? = some (env.blockHash g.block)) :
    ∃ above id below start, ids = above ++ id :: below ∧
      env.findBlockchainSupplement theirs ids = .ok (some start) ∧
      env.blockHeightOf theirs id = some start ∧
      ∀ other ∈ above, env.blockHeightOf theirs other = none := by
  have hzero : theirs[0]? = some g := head?_eq_getElem?.symm.trans htheirs
  have hgenesis : env.blockHashFromHeight theirs 0 = .ok (env.blockHash g.block) := by
    rw [blockHashFromHeight, hzero]
  have hknown : (env.blockHeightOf theirs (env.blockHash g.block)).isSome :=
    findIdx?_isSome.trans (List.any_eq_true.mpr
      ⟨g, mem_of_getElem? hzero, beq_self_eq_true _⟩)
  have hfound : (ids.findSome? (env.blockHeightOf theirs)).isSome :=
    findSome?_isSome_iff.mpr ⟨_, mem_of_getLast? hlast, hknown⟩
  obtain ⟨start, hstart⟩ := isSome_iff_exists.mp hfound
  obtain ⟨above, id, below, hsplit, hid, habove⟩ := findSome?_eq_some_iff.mp hstart
  refine ⟨above, id, below, start, hsplit, ?_, hid, habove⟩
  rw [findBlockchainSupplement, hlast]
  change (env.blockHashFromHeight theirs 0 >>= _) = _
  rw [hgenesis, ok_bind, if_neg (not_not.mpr rfl), hstart]

structure Handshake (env : ChainEnv) (mine theirs : List Entry) (heights : List Nat)
    (ids : List Hash) (k start : Nat) : Prop where
  returns : ∀ fuel, mine.length ≤ fuel →
    env.getShortChainHistory mine fuel = .ok (some (ids, mine.length))
  lists : env.Lists mine heights ids
  decreasing : heights.Pairwise (· > ·)
  top : heights.head? = some (mine.length - 1)
  genesis : heights.getLast? = some 0
  found : env.findBlockchainSupplement theirs ids = .ok (some start)
  common : ∃ id, ids[k]? = some id ∧ env.blockHeightOf theirs id = some start
  above : ∀ j id, j < k → ids[j]? = some id → env.blockExists theirs id = false
  sameHeight : env.HashDetermines → env.Canonical mine → env.Canonical theirs →
    heights[k]? = some start

theorem sync_handshake_finds_common (env : ChainEnv) {mine theirs : List Entry} {g g' : Entry}
    (hmine : mine.head? = some g) (htheirs : theirs.head? = some g')
    (hgenesis : env.blockHash g.block = env.blockHash g'.block) (hlen : mine.length ≤ 2 ^ 63 + 9) :
    ∃ heights ids k start, Handshake env mine theirs heights ids k start := by
  have hne : mine ≠ [] := by
    rintro rfl
    cases hmine
  obtain ⟨heights, ids, hreturns, hlists, hdecreasing, htop, hlast⟩ :=
    getShortChainHistory_returns env hne hlen
  have hsize : ids.length = heights.length := by
    simpa using (congrArg length hlists).symm
  have hlastId : ids.getLast? = some (env.blockHash g'.block) := by
    rw [getLast?_eq_getElem?] at hlast
    obtain ⟨e, he, hid⟩ := lists_getElem? hlists hlast
    rw [head?_eq_getElem?, he] at hmine
    rw [getLast?_eq_getElem?, hsize, hid, some.inj hmine, hgenesis]
  obtain ⟨above, id, below, start, rfl, hfound, hid, habove⟩ :=
    findBlockchainSupplement_finds htheirs hlastId
  have hk : (above ++ id :: below)[above.length]? = some id := by simp
  refine ⟨heights, _, above.length, start, hreturns, hlists, hdecreasing, htop, hlast, hfound,
    ⟨id, hk, hid⟩, ?_, ?_⟩
  · intro j other hj hother
    rw [getElem?_append_left hj] at hother
    rw [blockExists, habove other (mem_of_getElem? hother)]
    rfl
  · intro hdet hcanonical hcanonical'
    have hklt : above.length < heights.length := by
      rw [← hsize]
      simp
    have hheight := getElem?_eq_getElem hklt
    obtain ⟨e, he, hide⟩ := lists_getElem? hlists hheight
    obtain ⟨hlt, hsame, -⟩ := findIdx?_eq_some_iff_getElem.mp hid
    rw [hk] at hide
    have heq := height_eq_of_hash_eq hdet hcanonical hcanonical' he
      (getElem?_eq_getElem hlt) ((some.inj hide).symm.trans (beq_iff_eq.mp hsame).symm)
    rw [hheight, heq]

theorem forked_handshake_finds_common :
    ∃ heights ids k start, Handshake sampleEnv sampleMain
      (forkedChain sampleMain 2 [sampleAlt]) heights ids k start :=
  sync_handshake_finds_common sampleEnv rfl rfl rfl (by decide +kernel)

end ChainEnv
end Jero.Chain
