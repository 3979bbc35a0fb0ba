import Jero.Chain.Blockchain

namespace Jero.Chain
open Jero.Machine Jero.Lists Jero.Tx List
variable {chain : List Entry} {height : Nat}

inductive AltPath (alts : SortedMap Hash BlockExtendedInfo) (root : Hash) :
    Hash → List BlockExtendedInfo → Prop where
  | root : alts.find? root = none → AltPath alts root root []
  | up {id : Hash} {bei : BlockExtendedInfo} {rest : List BlockExtendedInfo} :
      alts.find? id = some bei → AltPath alts root bei.bl.prevId rest →
      AltPath alts root id (bei :: rest)

def pathIds : Hash → List BlockExtendedInfo → List Hash
  | _, [] => []
  | id, bei :: rest => id :: pathIds bei.bl.prevId rest

theorem length_pathIds (id : Hash) (path : List BlockExtendedInfo) :
    (pathIds id path).length = path.length := by
  induction path generalizing id with
  | nil => rfl
  | cons bei rest ih => rw [pathIds, length_cons, length_cons, ih]

namespace AltPath
variable {alts : SortedMap Hash BlockExtendedInfo} {root id : Hash} {path : List BlockExtendedInfo}
variable (h : AltPath alts root id path)
include h

theorem unique {path' : List BlockExtendedInfo} (h' : AltPath alts root id path') :
    path = path' := by
  induction h generalizing path' with
  | root hroot =>
    cases h' with
    | root _ => rfl
    | up hfind _ =>
      rw [hroot] at hfind
      cases hfind
  | up hfind _ ih =>
    cases h' with
    | root hroot =>
      rw [hroot] at hfind
      cases hfind
    | up hfind' hrest' =>
      obtain rfl := Option.some.inj (hfind.symm.trans hfind')
      rw [ih hrest']

theorem of_mem_pathIds {k : Hash} (hk : k ∈ pathIds id path) :
    ∃ below, AltPath alts root k below ∧ below.length ≤ path.length := by
  induction h with
  | root _ => cases hk
  | up hfind hrest ih =>
    rcases mem_cons.mp hk with rfl | hk
    · exact ⟨_, .up hfind hrest, le_refl _⟩
    · obtain ⟨below, hbelow, hlen⟩ := ih hk
      exact ⟨below, hbelow, hlen.trans (Nat.le_succ _)⟩

theorem nodup_pathIds : (pathIds id path).Nodup := by
  induction h with
  | root _ => exact nodup_nil
  | up hfind hrest ih =>
    refine nodup_cons.mpr ⟨?_, ih⟩
    intro hmem
    obtain ⟨below, hbelow, hlen⟩ := hrest.of_mem_pathIds hmem
    rw [hbelow.unique (.up hfind hrest)] at hlen
    exact absurd hlen (Nat.not_succ_le_self _)

theorem pathIds_subset : pathIds id path ⊆ alts.entries.map Prod.fst := by
  induction h with
  | root _ => exact nil_subset _
  | up hfind _ ih =>
    refine cons_subset.mpr ⟨?_, ih⟩
    exact mem_map.mpr ⟨_, mem_of_getEntry hfind, rfl⟩

theorem length_le : path.length ≤ alts.entries.length := by
  have hsub := (subperm_of_subset h.nodup_pathIds h.pathIds_subset).length_le
  rwa [length_pathIds, length_map] at hsub

theorem last_prevId {front : BlockExtendedInfo} (hfront : path.getLast? = some front) :
    front.bl.prevId = root := by
  induction h with
  | root _ => cases hfront
  | @up id bei rest _ hrest ih =>
    cases hrest with
    | root _ =>
      obtain rfl := Option.some.inj hfront
      rfl
    | up hnext hmore => exact ih (by rwa [getLast?_cons_cons] at hfront)

theorem walkAltChain_eq {fuel : Nat} (hfuel : path.length ≤ fuel)
    (altChain : List BlockExtendedInfo) (timestamps : List Nat) :
    walkAltChain alts fuel id altChain timestamps =
      (path.reverse ++ altChain, timestamps ++ path.map (fun bei => bei.bl.timestamp)) := by
  induction h generalizing fuel altChain timestamps with
  | root hroot =>
    rw [reverse_nil, nil_append, map_nil, append_nil]
    cases fuel with
    | zero => rfl
    | succ fuel => simp only [walkAltChain, hroot]
  | @up id bei rest hfind _ ih =>
    obtain ⟨fuel, rfl⟩ : ∃ n, fuel = n + 1 := ⟨fuel - 1, by rw [length_cons] at hfuel; omega⟩
    simp only [walkAltChain, hfind]
    rw [ih (Nat.succ_le_succ_iff.mp hfuel)]
    simp

end AltPath

structure Attached (env : ChainEnv) (db : Db) (f : Nat) (altChain : List BlockExtendedInfo)
    (prevId : Hash) : Prop where
  pos : 1 ≤ f
  fits : db.chain.length < 2 ^ 64
  linked : ∃ root, AltPath db.altBlocks root prevId altChain.reverse ∧
    env.blockHeightOf db.chain root = some (f - 1)
  front : ∀ first ∈ altChain.head?, first.height = f ∧ f < db.chain.length

namespace ChainEnv
variable {env : ChainEnv}
section
variable {id : Hash} (h : env.blockHeightOf chain id = some height)
include h

theorem blockHeightOf_some : ∃ e, chain[height]? = some e ∧ env.blockHash e.block = id := by
  obtain ⟨hlt, hhash, -⟩ := findIdx?_eq_some_iff_getElem.mp h
  exact ⟨chain[height], getElem?_eq_getElem hlt, beq_iff_eq.mp hhash⟩

theorem blockHeightOf_lt : height < chain.length := by
  obtain ⟨e, he, -⟩ := blockHeightOf_some h
  exact (List.getElem?_eq_some_iff.mp he).1

end

theorem buildAltChain_eq {db : Db} {f : Nat} {altChain : List BlockExtendedInfo} {prevId : Hash}
    (h : Attached env db f altChain prevId) :
    env.buildAltChain db prevId = .ok (some (altChain, completeTimestampsVector db.chain (f - 1)
      (altChain.reverse.map (fun bei => bei.bl.timestamp)))) := by
  obtain ⟨root, hpath, hheight⟩ := h.linked
  have hwalk := hpath.walkAltChain_eq (hpath.length_le.trans (Nat.le_succ _)) [] []
  rw [reverse_reverse, append_nil, nil_append] at hwalk
  unfold buildAltChain
  rw [hwalk]
  cases altChain with
  | nil =>
    cases hpath with
    | root _ => simp only [hheight, reverse_nil, map_nil]
  | cons front rest =>
    obtain ⟨hfront, hlt⟩ := h.front front rfl
    have hprev : front.bl.prevId = root := by
      refine hpath.last_prevId ?_
      rw [getLast?_reverse, head?_cons]
    have hhash : env.blockHashFromHeight db.chain (wsub f 1) = .ok root := by
      rw [wsub_of_le h.pos (hlt.trans h.fits)]
      obtain ⟨e, he, hhash⟩ := blockHeightOf_some hheight
      rw [blockHashFromHeight, he, ← hhash]
    simp only [hfront, hlt, hprev, hheight, hhash, not_true_eq_false, if_false, bind, Except.bind,
      ne_eq]

end ChainEnv
end Jero.Chain
