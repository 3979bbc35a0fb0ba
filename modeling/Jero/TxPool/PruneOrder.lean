import Jero.TxPool.BookkeptRuns

namespace Jero.TxPool.Pool
open Tx List Node

structure ListsAgree (env : PoolEnv) (p : Pool) : Prop where
  listed : p.Listed
  weight : p.txpoolWeight = p.db.total fun _ e => e.txMeta.weight
  parses : ∀ id e, p.db.find? id = some e → ∃ vin, env.parsePrefix e.blob = some vin

def prunable (p : Pool) (id : Hash) : Bool :=
  (p.db.find? id).any fun e => !e.txMeta.keptByBlock

def pruneLimit (p : Pool) (bytes : Nat) : Nat := if bytes = 0 then p.txpoolMaxWeight else bytes

def prunedWeight (p : Pool) (ids : List Hash) : Nat :=
  ((ids.filter p.prunable).map fun id => (p.db.find? id).elim 0 fun e => e.txMeta.weight).sum

structure Walked (p q : Pool) (limit : Nat) (walked rest : List Hash) : Prop where
  left : ∀ id, q.db.find? id = if id ∈ walked ∧ p.prunable id then none else p.db.find? id
  done : q.txpoolWeight ≤ limit ∨ rest = []
  above : ∀ before x after, walked = before ++ x :: after →
    limit < p.txpoolWeight - p.prunedWeight before

variable {p : Pool} {env : PoolEnv}

theorem ListsAgree.dropTx (h : p.ListsAgree env) {id : Hash} {e : PoolEntry}
    (hfind : p.db.find? id = some e) (vin : List TxIn) (now : Nat) :
    (p.dropTx vin now id e.txMeta).ListsAgree env ∧
      (p.dropTx vin now id e.txMeta).txpoolWeight = p.txpoolWeight - e.txMeta.weight := by
  obtain ⟨removed, start, heq⟩ := p.dropTx_eq vin now id e.txMeta
  obtain ⟨hle, hweight⟩ := weight_erase h.weight hfind
  have hw : (p.dropTx vin now id e.txMeta).txpoolWeight = p.txpoolWeight - e.txMeta.weight := by
    rw [heq]
    exact if_neg hle.not_gt
  refine ⟨⟨h.listed.dropTx vin now id _, ?_, fun j e' hj => h.parses j e' ?_⟩, hw⟩
  · rw [hw, hweight, heq]
    rfl
  · exact shrunk_dropTx p vin now id _ j e' hj

theorem pruneLoop_walked (h : p.ListsAgree env) (now limit : Nat) (ids : List Hash)
    (hnodup : ids.Nodup) :
    (pruneLoop env now limit ids p).1 = true ∧ ∃ walked rest, ids = walked ++ rest ∧
      Walked p (pruneLoop env now limit ids p).2.2 limit walked rest := by
  induction ids generalizing p with
  | nil => exact ⟨rfl, [], [], rfl, by simp [pruneLoop], .inr rfl, by simp⟩
  | cons id ids ih =>
    obtain ⟨hid, hnodup⟩ := nodup_cons.mp hnodup
    simp only [pruneLoop]
    split
    case isTrue hle => exact ⟨rfl, [], id :: ids, rfl, by simp, .inl hle, by simp⟩
    case isFalse hgt =>
      have hstart : limit < p.txpoolWeight - p.prunedWeight [] := by
        simpa [prunedWeight] using hgt
      have hskip (hp : p.prunable id = false) : (pruneLoop env now limit ids p).1 = true ∧
          ∃ walked rest, id :: ids = walked ++ rest ∧
            Walked p (pruneLoop env now limit ids p).2.2 limit walked rest := by
        obtain ⟨hok, walked, rest, rfl, hleft, hdone, habove⟩ := ih h hnodup
        refine ⟨hok, id :: walked, rest, rfl, fun j => ?_, hdone, ?_⟩
        · rcases eq_or_ne j id with rfl | hj
          · simp [hleft, hp]
          · simp [hleft, hj]
        · rintro (_ | ⟨y, before⟩) x after heq
          · exact hstart
          · obtain ⟨rfl, htail⟩ := cons_eq_cons.mp heq
            simpa [prunedWeight, hp] using habove before x after htail
      cases hfind : p.db.find? id with
      | none => exact hskip (by simp [prunable, hfind])
      | some e =>
        obtain ⟨vin, hparse⟩ := h.parses id e hfind
        simp only [hparse]
        split
        case isTrue hkept => exact hskip (by simp [prunable, hfind, hkept])
        case isFalse hkept =>
          have hp : p.prunable id = true := by simpa [prunable, hfind] using hkept
          obtain ⟨hnext, hw⟩ := h.dropTx hfind vin now
          have hother {j : Hash} (hj : j ≠ id) :
              (p.dropTx vin now id e.txMeta).db.find? j = p.db.find? j := by
            simp [find?_dropTx, hj]
          obtain ⟨hok, walked, rest, rfl, hleft, hdone, habove⟩ := ih hnext hnodup
          refine ⟨hok, id :: walked, rest, rfl, fun j => (hleft j).trans ?_, hdone, ?_⟩
          · rcases eq_or_ne j id with rfl | hj
            · simp [find?_dropTx, hp]
            · simp [prunable, hother hj, hj]
          · rintro (_ | ⟨y, before⟩) x after heq
            · exact hstart
            · obtain ⟨rfl, htail⟩ := cons_eq_cons.mp heq
              have hne : ∀ j ∈ before, j ≠ id := by
                rintro j hj rfl
                simp [htail, hj] at hid
              have hsame : (p.dropTx vin now id e.txMeta).prunedWeight before =
                  p.prunedWeight before := by
                rw [prunedWeight, filter_congr fun j hj => by rw [prunable, hother (hne j hj)]]
                exact congrArg sum (map_congr_left fun j hj => by
                  rw [hother (hne j (mem_filter.mp hj).1)])
              have := habove before x after htail
              rwa [hsame, hw, Nat.sub_sub, prunedWeight, show e.txMeta.weight =
                (p.db.find? id).elim 0 fun e => e.txMeta.weight by rw [hfind]; rfl, ← sum_cons,
                ← map_cons (f := fun id => (p.db.find? id).elim 0 fun e => e.txMeta.weight),
                ← filter_cons_of_pos hp] at this

theorem prune_removes_lowest_fees (env : PoolEnv) (p : Pool) (h : p.ListsAgree env)
    (now bytes : Nat) :
    (∀ id e, p.db.find? id = some e → e.txMeta.keptByBlock = true →
      (p.prune env now bytes).db.find? id = some e) ∧
    (∃ rest walked, p.txsByFeeAndReceiveTime.ids.tail = rest ++ walked ∧
      (∀ id, (p.prune env now bytes).db.find? id =
        if id ∈ walked ∧ p.prunable id then none else p.db.find? id) ∧
      ∀ before x after, walked = before ++ x :: after →
        p.pruneLimit bytes < p.txpoolWeight - p.prunedWeight after) ∧
    ((p.prune env now bytes).txpoolWeight ≤ p.pruneLimit bytes ∨
      ∀ id e, (p.prune env now bytes).db.find? id = some e →
        e.txMeta.keptByBlock = true ∨ p.txsByFeeAndReceiveTime.ids.head? = some id) ∧
    ∀ x y e, p.stored x → (p.prune env now bytes).db.find? x = none →
      (p.prune env now bytes).db.find? y = some e → e.txMeta.keptByBlock = false →
      [y, x].Sublist p.txsByFeeAndReceiveTime.ids := by
  obtain ⟨hok, walked, rest, hsplit, hw⟩ := pruneLoop_walked h now (p.pruneLimit bytes) _
    (nodup_reverse.mpr (show p.txsByFeeAndReceiveTime.ids.Nodup from
      p.txsByFeeAndReceiveTime.nodup).tail)
  obtain ⟨q, hq, hleft, hdone, habove⟩ : ∃ q, p.prune env now bytes = q ∧
      Walked p q (p.pruneLimit bytes) walked rest := by
    refine ⟨_, rfl, ?_⟩
    rw [prune, ← pruneLimit]
    simp only [hok, Bool.not_true, Bool.false_eq_true, if_false]
    split
    · exact ⟨hw.left, hw.done, hw.above⟩
    · exact hw
  have hlisted := h.listed
  have hids : p.txsByFeeAndReceiveTime.ids.tail = rest.reverse ++ walked.reverse := by
    rw [← reverse_append, ← hsplit, reverse_reverse]
  rw [Listed] at hlisted
  generalize p.txsByFeeAndReceiveTime.ids = ids at hids hlisted
  have hmem {y : Hash} {e : PoolEntry} (hy : q.db.find? y = some e)
      (hkept : e.txMeta.keptByBlock = false) : ids.head? = some y ∨ y ∈ rest := by
    rw [hleft] at hy
    split at hy
    · cases hy
    rename_i hn
    have hprunable : p.prunable y = true := by simp [prunable, hy, hkept]
    have hin := (hlisted y).mpr ⟨e, hy⟩
    cases ids with
    | nil => cases hin
    | cons first ids =>
      rcases mem_cons.mp hin with rfl | htail
      · exact .inl rfl
      · rw [show ids = _ from hids] at htail
        rcases mem_append.mp htail with hrest | hwalked
        · exact .inr (mem_reverse.mp hrest)
        · exact absurd ⟨mem_reverse.mp hwalked, hprunable⟩ hn
  rw [hq]
  refine ⟨fun id e hfind hkept => ?_, ⟨rest.reverse, walked.reverse, hids, ?_, ?_⟩, ?_, ?_⟩
  · simp [hleft, prunable, hfind, hkept]
  · simpa using hleft
  · intro before x after heq
    have := habove after.reverse x before.reverse (by simpa using congrArg reverse heq)
    simpa [prunedWeight, filter_reverse, map_reverse, sum_reverse] using this
  · refine hdone.imp_right fun hrest id e hfind => ?_
    cases hkept : e.txMeta.keptByBlock with
    | true => exact .inl rfl
    | false => exact .inr ((hmem hfind hkept).resolve_right (by simp [hrest]))
  · rintro x y e ⟨e', hx⟩ hgone hy hkept
    have hxw : x ∈ walked.reverse := by
      by_contra hn
      have hstays : ¬ (x ∈ walked ∧ p.prunable x) := fun h => hn (mem_reverse.mpr h.1)
      rw [hleft, if_neg hstays, hx] at hgone
      cases hgone
    cases ids with
    | nil =>
      rw [(append_eq_nil_iff.mp hids.symm).2] at hxw
      cases hxw
    | cons first ids =>
      have hyf : y ∈ first :: rest.reverse := by simpa [eq_comm] using hmem hy hkept
      rw [show ids = _ from hids, ← cons_append]
      exact (singleton_sublist.mpr hyf).append (singleton_sublist.mpr hxw)

def crowdedCalls : List PoolCall :=
  [(1, .block), (2, .fluff), (3, .fluff), (4, .fluff)].map fun c =>
    .addTx ⟨sampleChain 5, spendingArgs c.1 c.2, .initial⟩

theorem prune_of_crowded_pool :
    let p := (Pool.empty 1000000 false).afterCalls spendingEnv crowdedCalls
    let q := p.prune spendingEnv 1040 2000
    p.txpoolWeight = 6000 ∧ q.db.entries.map Prod.fst = [1, 4] ∧ q.txpoolWeight = 3000 ∧
      [4, 2].Sublist p.txsByFeeAndReceiveTime.ids := by
  intro p q
  have h : p.Bookkept spendingEnv (fun id => (spendingTx id).vin) (fun _ => 1500) := by
    refine afterCalls_bookkept (.empty _ _ _ _ _) ?_
    simp only [crowdedCalls, forall_mem_map, forall_mem_cons]
    refine ⟨?_, ?_, ?_, ?_, by simp⟩ <;>
      exact ⟨rfl, rfl, ⟨rfl, ⟨_, rfl, rfl⟩, fun _ => ⟨_, rfl, rfl⟩⟩, fun h => by cases h⟩
  have hagree : p.ListsAgree spendingEnv := ⟨h.listed, by decide +kernel, fun id e he =>
    ⟨_, (h.indexed.entries id e he).parses.parsesPrefix⟩⟩
  refine ⟨by decide +kernel, by decide +kernel, by decide +kernel, ?_⟩
  have hrelayed : (q.db.find? 4).map (fun e => e.txMeta.keptByBlock) = some false := by
    decide +kernel
  obtain ⟨e, he, hkept⟩ := Option.map_eq_some_iff.mp hrelayed
  exact (prune_removes_lowest_fees spendingEnv p hagree 1040 2000).2.2.2 2 4 e
    (Option.isSome_iff_exists.mp (by decide +kernel)) (by decide +kernel) he hkept

end Jero.TxPool.Pool
