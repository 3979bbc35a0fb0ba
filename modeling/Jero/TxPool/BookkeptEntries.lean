import Jero.TxPool.Bookkeeping

namespace Jero.TxPool
open Jero.Machine Jero.Lists Jero.Tx Option Finset SortedMap
namespace Pool
variable {p q : Pool} {env : PoolEnv} {vinOf : Hash → List TxIn} {weightOf : Hash → Nat}
  {id : Hash} {e e' : PoolEntry}

theorem stored_insert (hdb : q.db = p.db.insert id e) (j : Hash) :
    q.stored j ↔ j = id ∨ p.stored j := by
  unfold stored
  rw [hdb, find?_insert]
  split
  · rename_i hj
    exact ⟨fun _ => .inl hj, fun _ => ⟨e, rfl⟩⟩
  · rename_i hj
    exact ⟨Or.inr, fun h => h.resolve_left hj⟩

namespace Indexed
variable (h : p.Indexed env vinOf weightOf)
include h
section
variable (hnone : NoneEmpty q.spentKeyImages) (hflow : q.weightUnderflow = p.weightUnderflow)
  (hcached : ∀ id tx, q.parsedTxCache.find? id = some tx → tx.vin = vinOf id)
include hnone hflow hcached

theorem replaced (hfind : p.db.find? id = some e) (hnew : EntryOk env (vinOf id) (weightOf id) e')
    (hkept : e'.txMeta.keptByBlock = false → e.txMeta.keptByBlock = false)
    (hdb : q.db = p.db.insert id e')
    (himages : ∀ k, holders q.spentKeyImages k = holders p.spentKeyImages k)
    (hweight : q.txpoolWeight = p.txpoolWeight) : q.Indexed env vinOf weightOf := by
  have hback : ∀ j ej, q.db.find? j = some ej → ∃ old, p.db.find? j = some old ∧
      EntryOk env (vinOf j) (weightOf j) ej ∧
        (ej.txMeta.keptByBlock = false → old.txMeta.keptByBlock = false) := by
    intro j ej hj
    rw [hdb, find?_insert] at hj
    split at hj
    · rename_i heq
      subst heq
      obtain rfl := some.inj hj
      exact ⟨e, hfind, hnew, hkept⟩
    · exact ⟨ej, hj, h.entries j ej hj, fun hfree => hfree⟩
  refine ⟨?_, hcached, ?_, hnone, ?_, fun hfit => hflow.trans (h.noUnderflow hfit), ?_⟩
  · intro j ej hj
    obtain ⟨-, -, hok, -⟩ := hback j ej hj
    exact hok
  · intro k j
    rw [himages, h.holds, stored_insert hdb]
    refine and_congr_left fun _ => ?_
    constructor
    · exact Or.inr
    · rintro (rfl | hj)
      · exact ⟨e, hfind⟩
      · exact hj
  · intro hfit
    have htotal : (p.db.insert id e').total (fun _ e => e.txMeta.weight) +
        (p.db.find? id).elim 0 (fun e => e.txMeta.weight) =
          p.db.total (fun _ e => e.txMeta.weight) + e'.txMeta.weight := total_insert e'
    rw [hfind, elim_some, (h.entries id e hfind).weighs, hnew.weighs] at htotal
    rw [hweight, hdb, h.weight hfit]
    exact (Nat.add_right_cancel htotal).symm
  · intro i j ei ej hi hj hne hfree hfree'
    obtain ⟨oldi, holdi, -, hkepti⟩ := hback i ei hi
    obtain ⟨oldj, holdj, -, hkeptj⟩ := hback j ej hj
    exact h.apart i j oldi oldj holdi holdj hne (hkepti hfree) (hkeptj hfree')

theorem fresh (hfind : p.db.find? id = none) (hnew : EntryOk env (vinOf id) (weightOf id) e)
    (hfree : e.txMeta.keptByBlock = false → ∀ k ∈ keyImages (vinOf id), holders p.spentKeyImages k =
      ∅) (hdb : q.db = p.db.insert id e)
    (himages : ∀ k, holders q.spentKeyImages k = if k ∈ keyImages (vinOf id) then insert id
      (holders p.spentKeyImages k) else holders p.spentKeyImages k)
    (hweight : q.txpoolWeight = wrap (p.txpoolWeight + e.txMeta.weight)) :
    q.Indexed env vinOf weightOf := by
  have hapart : ∀ j ej, p.db.find? j = some ej → e.txMeta.keptByBlock = false →
      ∀ k ∈ keyImages (vinOf id), k ∉ keyImages (vinOf j) := by
    intro j ej hj hkept k hk hkj
    have hmem := h.holders_of_stored ⟨ej, hj⟩ hkj
    rw [hfree hkept k hk] at hmem
    exact notMem_empty j hmem
  have hback : ∀ j ej, q.db.find? j = some ej → (j = id ∧ ej = e) ∨
      (j ≠ id ∧ p.db.find? j = some ej) := by
    intro j ej hj
    rw [hdb, find?_insert] at hj
    split at hj
    · rename_i heq
      exact .inl ⟨heq, (some.inj hj).symm⟩
    · rename_i hne
      exact .inr ⟨hne, hj⟩
  have hentries : ∀ j ej, q.db.find? j = some ej → EntryOk env (vinOf j) (weightOf j) ej := by
    intro j ej hj
    rcases hback j ej hj with ⟨rfl, rfl⟩ | ⟨-, hold⟩
    · exact hnew
    · exact h.entries j ej hold
  refine ⟨hentries, hcached, ?_, hnone, ?_, fun hfit => hflow.trans (h.noUnderflow hfit), ?_⟩
  · intro k j
    rw [himages, stored_insert hdb]
    by_cases hj : j = id
    · subst hj
      have hnot : j ∉ holders p.spentKeyImages k := by
        intro hmem
        obtain ⟨⟨old, hold⟩, -⟩ := (h.holds k j).mp hmem
        rw [hfind] at hold
        cases hold
      split
      · rename_i hk
        exact ⟨fun _ => ⟨.inl rfl, hk⟩, fun _ => mem_insert_self _ _⟩
      · rename_i hk
        exact ⟨fun hmem => absurd hmem hnot, fun hmem => absurd hmem.2 hk⟩
    · simp only [hj, false_or]
      refine Iff.trans ?_ (h.holds k j)
      split
      · exact ⟨fun hmem => (mem_insert.mp hmem).resolve_left hj, mem_insert_of_mem⟩
      · rfl
  · intro hfit
    have htotal : (p.db.insert id e).total (fun _ e => e.txMeta.weight) +
        (p.db.find? id).elim 0 (fun e => e.txMeta.weight) =
          p.db.total (fun _ e => e.txMeta.weight) + e.txMeta.weight := total_insert e
    have hlt := total_lt hfit fun j ej hj => (hentries j ej hj).weighs
    rw [hfind] at htotal
    rw [hdb] at hlt
    rw [hweight, hdb, h.weight hfit, ← htotal]
    exact wrap_of_lt hlt
  · intro i j ei ej hi hj hne hkepti hkeptj k hk hkj
    rcases hback i ei hi with ⟨rfl, rfl⟩ | ⟨-, holdi⟩
    · rcases hback j ej hj with ⟨rfl, -⟩ | ⟨-, holdj⟩
      · exact hne rfl
      · exact hapart j ej holdj hkepti k hk hkj
    · rcases hback j ej hj with ⟨rfl, rfl⟩ | ⟨-, holdj⟩
      · exact hapart i ei holdi hkeptj k hkj hk
      · exact h.apart i j ei ej holdi holdj hne hkepti hkeptj k hk hkj

end

theorem holders_fresh (hfind : p.db.find? id = none) (k : KeyImage) :
    id ∉ holders p.spentKeyImages k := by
  intro hmem
  obtain ⟨⟨old, hold⟩, -⟩ := (h.holds k id).mp hmem
  rw [hfind] at hold
  cases hold

theorem insertKeyImages_fresh (legacy : Bool) (hfind : p.db.find? id = none)
    (hspends : Spends (vinOf id)) {relay : RelayMethod}
    (hfree : relay ≠ .block → ∀ k ∈ keyImages (vinOf id), holders p.spentKeyImages k = ∅) :
    (TxPool.insertKeyImages legacy id relay (vinOf id) p.spentKeyImages).1 = true ∧ ∀ k,
      holders (TxPool.insertKeyImages legacy id relay (vinOf id) p.spentKeyImages).2 k =
        if k ∈ keyImages (vinOf id) then insert id (holders p.spentKeyImages k)
        else holders p.spentKeyImages k :=
  insertKeyImages_new legacy hspends.allToKey hspends.nodup (fun k _ => h.holders_fresh hfind k)
    hfree

theorem free_of_not_spent (hfind : p.db.find? id = none) {tx : Transaction}
    (hvin : tx.vin = vinOf id) (hspent : p.haveTxKeyimgesAsSpent tx id = false) {k : KeyImage}
    (hk : k ∈ keyImages (vinOf id)) : holders p.spentKeyImages k = ∅ := by
  unfold haveTxKeyimgesAsSpent at hspent
  rw [hvin, List.any_eq_false] at hspent
  have hnot := hspent k hk
  unfold haveTxKeyimgAsSpent at hnot
  have hfresh := h.holders_fresh hfind k
  unfold holders at hfresh ⊢
  cases hset : p.spentKeyImages.find? k with
  | none => rfl
  | some s =>
    simp only [hset, getD_some] at hnot hfresh ⊢
    by_contra hne
    rw [if_neg hne] at hnot
    split at hnot
    · exact hnot rfl
    · rename_i hone
      exact hfresh ((not_not.mp hone) ▸ mem_singleton_self id)

end Indexed
variable (h : p.Bookkept env vinOf weightOf)
include h

theorem Bookkept.reinserts (hid : p.stored id) (relay : RelayMethod) :
    (p.insertKeyImages (vinOf id) id relay).2.Bookkept env vinOf weightOf := by
  obtain ⟨e, hfind⟩ := hid
  refine ⟨h.indexed.replaced ?_ rfl h.indexed.cached hfind (h.indexed.entries id e hfind)
    (fun hkept => hkept) ?_ ?_ rfl, h.listed⟩
  · exact insertKeyImages_noneEmpty _ _ _ h.indexed.noneEmpty
  · refine eq_of_find? ?_
    intro j
    rw [find?_insert]
    split
    · rename_i hj
      rw [hj]
      exact hfind
    · rfl
  · exact insertKeyImages_known _ relay fun _ hj => h.indexed.holders_of_stored ⟨e, hfind⟩ hj

variable (hflow : q.weightUnderflow = p.weightUnderflow)
  (hids : ∀ j, j ∈ q.txsByFeeAndReceiveTime.ids ↔ j ∈ p.txsByFeeAndReceiveTime.ids ∨ j = id)
  (hcached : q.parsedTxCache = p.parsedTxCache)
include hflow hids hcached

theorem Bookkept.stores (hfind : p.db.find? id = none)
    (hnew : EntryOk env (vinOf id) (weightOf id) e) {relay : RelayMethod}
    (hkept : e.txMeta.keptByBlock = (relay == .block))
    (hfree : relay ≠ .block → ∀ k ∈ keyImages (vinOf id), holders p.spentKeyImages k = ∅)
    (hdb : q.db = p.db.insert id e) {legacy : Bool}
    (himages : q.spentKeyImages = (TxPool.insertKeyImages legacy id relay (vinOf id)
      p.spentKeyImages).2)
    (hweight : q.txpoolWeight = wrap (p.txpoolWeight + e.txMeta.weight)) :
    q.Bookkept env vinOf weightOf := by
  obtain ⟨-, hholders⟩ := h.indexed.insertKeyImages_fresh legacy hfind hnew.spends hfree
  refine ⟨h.indexed.fresh ?_ hflow ?_ hfind hnew ?_ hdb ?_ hweight, ?_⟩
  · rw [himages]
    exact insertKeyImages_noneEmpty _ _ _ h.indexed.noneEmpty
  · rw [hcached]
    exact h.indexed.cached
  · intro hnot
    refine hfree ?_
    rintro rfl
    rw [hkept] at hnot
    cases hnot
  · rw [himages]
    exact hholders
  · intro j
    rw [hids, h.listed, stored_insert hdb]
    exact or_comm

theorem Bookkept.replaces (hfind : p.db.find? id = some e)
    (hnew : EntryOk env (vinOf id) (weightOf id) e')
    (hkept : e'.txMeta.keptByBlock = false → e.txMeta.keptByBlock = false)
    (hdb : q.db = p.db.insert id e') (himages : q.spentKeyImages = p.spentKeyImages)
    (hweight : q.txpoolWeight = p.txpoolWeight) : q.Bookkept env vinOf weightOf := by
  refine ⟨h.indexed.replaced ?_ hflow ?_ hfind hnew hkept hdb ?_ hweight, ?_⟩
  · rw [himages]
    exact h.indexed.noneEmpty
  · rw [hcached]
    exact h.indexed.cached
  · intro k
    rw [himages]
  · intro j
    rw [hids, h.listed, stored_insert hdb]
    exact or_comm

omit hflow hids hcached

theorem Bookkept.updateTxpoolTx (hfind : p.db.find? id = some e) {m : TxMeta}
    (hnew : EntryOk env (vinOf id) (weightOf id) ⟨m, e.blob⟩)
    (hkept : m.keptByBlock = false → e.txMeta.keptByBlock = false) :
    (p.updateTxpoolTx id m).Bookkept env vinOf weightOf := by
  simp only [Pool.updateTxpoolTx, hfind]
  refine h.replaces rfl ?_ rfl hfind hnew hkept rfl rfl rfl
  intro j
  constructor
  · exact Or.inl
  · rintro (hj | rfl)
    · exact hj
    · exact (h.listed j).mpr ⟨e, hfind⟩

end Pool
end Jero.TxPool
