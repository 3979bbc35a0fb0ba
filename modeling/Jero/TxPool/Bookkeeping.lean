import Jero.TxPool.KeyImages
import Jero.TxPool.Stored

namespace Jero.TxPool
open Jero.Lists Jero.Tx Pool SortedTxs

structure Spends (vin : List TxIn) : Prop where
  allToKey : AllToKey vin
  nodup : (keyImages vin).Nodup

structure BlobParses (env : PoolEnv) (vin : List TxIn) (pruned : Bool) (blob : Blob) : Prop where
  parsesPrefix : env.parsePrefix blob = some vin
  parsesBase : ∃ tx, env.parseTxBase blob = some tx ∧ tx.vin = vin
  parsesFull : pruned = false → ∃ tx, env.parseTx blob = some tx ∧ tx.vin = vin

structure EntryOk (env : PoolEnv) (vin : List TxIn) (weight : Nat) (e : PoolEntry) : Prop where
  weighs : e.txMeta.weight = weight
  parses : BlobParses env vin e.txMeta.pruned e.blob
  spends : Spends vin
  relay : e.txMeta.keptByBlock = (e.txMeta.getRelayMethod == .block)

structure Resembles (old new : PoolEntry) : Prop where
  blob : new.blob = old.blob
  txMeta : ∃ seen, new.txMeta = { old.txMeta with doubleSpendSeen := seen }

theorem Resembles.refl (e : PoolEntry) : Resembles e e := ⟨rfl, e.txMeta.doubleSpendSeen, rfl⟩

theorem Resembles.trans {a b c : PoolEntry} (hab : Resembles a b) (hbc : Resembles b c) :
    Resembles a c := by
  obtain ⟨hblob, seen, hmeta⟩ := hbc
  obtain ⟨hblob', seen', hmeta'⟩ := hab
  refine ⟨hblob.trans hblob', seen, ?_⟩
  rw [hmeta, hmeta']

theorem SortedTxs.mem_ids_erase (s : SortedTxs) (id j : Hash) :
    j ∈ (s.erase id).ids ↔ j ∈ s.ids ∧ j ≠ id := by
  simp only [ids, erase, List.mem_map, List.mem_filter]
  constructor
  · rintro ⟨e, ⟨he, hne⟩, rfl⟩
    exact ⟨⟨e, he, rfl⟩, of_decide_eq_true hne⟩
  · rintro ⟨⟨e, he, rfl⟩, hne⟩
    exact ⟨e, ⟨he, decide_eq_true hne⟩, rfl⟩

theorem SortedTxs.mem_ids_insert (s : SortedTxs) (key : FeeKey) (id j : Hash) :
    j ∈ (s.insert key id).ids ↔ j ∈ s.ids ∨ j = id := by
  unfold insert
  split
  · rename_i hmem
    constructor
    · exact Or.inl
    · rintro (hj | rfl)
      · exact hj
      · exact hmem
  · have hperm := (insertByFee_perm key id s.entries).map Prod.snd
    exact hperm.mem_iff.trans (List.mem_cons.trans or_comm)

namespace Pool
variable {p q r : Pool}

theorem removeTxFromTransientLists_eq (p : Pool) (now : Nat) (id : Hash) (sensitive : Bool) :
    ∃ removed start, p.removeTxFromTransientLists now id sensitive =
      { p with
        txsByFeeAndReceiveTime := p.txsByFeeAndReceiveTime.erase id
        addedTxsById := p.addedTxsById.erase id
        removedTxsByTime := removed
        removedTxsStartTime := start } := by
  simp only [removeTxFromTransientLists, trackRemovedTx]
  split
  · exact ⟨_, _, rfl⟩
  · split
    · exact ⟨_, _, rfl⟩
    · exact ⟨_, _, rfl⟩

theorem mem_ids_addTxToTransientLists (p : Pool) (now : Nat) (id : Hash) (fee : Rat)
    (receiveTime : Nat) (sensitive : Bool) (j : Hash) :
    j ∈ (p.addTxToTransientLists now id fee receiveTime sensitive).txsByFeeAndReceiveTime.ids ↔
      j ∈ p.txsByFeeAndReceiveTime.ids ∨ j = id := by
  simp only [addTxToTransientLists]
  rw [mem_ids_insert]
  cases p.addedTxsById.find? id with
  | none => rfl
  | some info =>
    simp only [mem_ids_erase]
    tauto

def Shrunk (p q : Pool) : Prop := ∀ id e, q.db.find? id = some e → p.db.find? id = some e

theorem Shrunk.refl (p : Pool) : Shrunk p p := fun _ _ h => h

theorem Shrunk.trans (hpq : Shrunk p q) (hqr : Shrunk q r) : Shrunk p r :=
  fun id e h => hpq id e (hqr id e h)

def stored (p : Pool) (id : Hash) : Prop := ∃ e, p.db.find? id = some e

def WeightsFit (weightOf : Hash → Nat) : Prop := ∀ ids : Finset Hash, ids.sum weightOf < 2 ^ 64

structure Indexed (env : PoolEnv) (vinOf : Hash → List TxIn) (weightOf : Hash → Nat) (p : Pool) :
    Prop where
  entries : ∀ id e, p.db.find? id = some e → EntryOk env (vinOf id) (weightOf id) e
  cached : ∀ id tx, p.parsedTxCache.find? id = some tx → tx.vin = vinOf id
  holds : ∀ k id, id ∈ holders p.spentKeyImages k ↔ p.stored id ∧ k ∈ keyImages (vinOf id)
  noneEmpty : NoneEmpty p.spentKeyImages
  weight : WeightsFit weightOf → p.txpoolWeight = p.db.total (fun _ e => e.txMeta.weight)
  noUnderflow : WeightsFit weightOf → p.weightUnderflow = false
  apart : ∀ i j ei ej, p.db.find? i = some ei → p.db.find? j = some ej → i ≠ j →
    ei.txMeta.keptByBlock = false → ej.txMeta.keptByBlock = false →
      ∀ k ∈ keyImages (vinOf i), k ∉ keyImages (vinOf j)

def Listed (p : Pool) : Prop := ∀ id, id ∈ p.txsByFeeAndReceiveTime.ids ↔ p.stored id

structure Bookkept (env : PoolEnv) (vinOf : Hash → List TxIn) (weightOf : Hash → Nat) (p : Pool) :
    Prop where
  indexed : p.Indexed env vinOf weightOf
  listed : p.Listed

variable {env : PoolEnv} {vinOf : Hash → List TxIn} {weightOf : Hash → Nat} {id : Hash}
  {e : PoolEntry}

theorem Bookkept.empty (env : PoolEnv) (vinOf : Hash → List TxIn) (weightOf : Hash → Nat)
    (maxWeight : Nat) (mineStemTxes : Bool) :
    (Pool.empty maxWeight mineStemTxes).Bookkept env vinOf weightOf := by
  refine ⟨⟨?_, ?_, ?_, ?_, fun _ => rfl, fun _ => rfl, ?_⟩, ?_⟩
  · intro id e h
    cases h
  · intro id tx h
    cases h
  · intro k id
    constructor
    · intro h
      exact absurd h (Finset.notMem_empty id)
    · rintro ⟨⟨e, h⟩, -⟩
      cases h
  · intro k s h
    cases h
  · intro i j ei ej h
    cases h
  · intro id
    constructor
    · intro h
      cases h
    · rintro ⟨e, h⟩
      cases h

theorem total_lt (hfit : WeightsFit weightOf) {db : SortedMap Hash PoolEntry}
    (hweighs : ∀ id e, db.find? id = some e → e.txMeta.weight = weightOf id) :
    db.total (fun _ e => e.txMeta.weight) < 2 ^ 64 := by
  have hkeys : db.entries.map (fun e => e.2.txMeta.weight) =
      (db.entries.map Prod.fst).map weightOf := by
    rw [List.map_map]
    exact List.map_congr_left fun e he => hweighs e.1 e.2 ((db.mem_entries_iff e).mp he)
  rw [SortedMap.total, hkeys, ← List.sum_toFinset _ db.nodup_keys]
  exact hfit _

theorem weight_erase (h : p.txpoolWeight = p.db.total (fun _ e => e.txMeta.weight))
    (hfind : p.db.find? id = some e) : e.txMeta.weight ≤ p.txpoolWeight ∧
      p.txpoolWeight - e.txMeta.weight = (p.db.erase id).total (fun _ e => e.txMeta.weight) := by
  have htotal : (p.db.erase id).total (fun _ e => e.txMeta.weight) +
      (p.db.find? id).elim 0 (fun e => e.txMeta.weight) =
        p.db.total (fun _ e => e.txMeta.weight) := SortedMap.total_erase
  rw [hfind, Option.elim_some, ← h] at htotal
  omega

namespace Indexed
variable (h : p.Indexed env vinOf weightOf)
include h

theorem congr (hdb : q.db = p.db) (himages : q.spentKeyImages = p.spentKeyImages)
    (hweight : q.txpoolWeight = p.txpoolWeight) (hflow : q.weightUnderflow = p.weightUnderflow)
    (hcached : ∀ id tx, q.parsedTxCache.find? id = some tx → tx.vin = vinOf id) :
    q.Indexed env vinOf weightOf := by
  obtain ⟨hentries, -, hholds, hnone, htotal, hnoflow, hapart⟩ := h
  refine ⟨?_, hcached, ?_, ?_, ?_, fun hfit => hflow.trans (hnoflow hfit), ?_⟩
  · rwa [hdb]
  · unfold stored
    rwa [hdb, himages]
  · rwa [himages]
  · rwa [hdb, hweight]
  · rwa [hdb]

theorem holders_of_stored (hid : p.stored id) {k : KeyImage} (hk : k ∈ keyImages (vinOf id)) :
    id ∈ holders p.spentKeyImages k :=
  (h.holds k id).mpr ⟨hid, hk⟩

theorem drop (hfind : p.db.find? id = some e) :
    (((p.removeTxpoolTx id).reduceTxpoolWeight e.txMeta.weight).removeTransactionKeyimages
      (vinOf id) id).Indexed env vinOf weightOf := by
  have hspends := (h.entries id e hfind).spends
  have herase := fun hfit => weight_erase (h.weight hfit) hfind
  have hheld : ∀ k ∈ keyImages (vinOf id), id ∈ holders p.spentKeyImages k :=
    fun k hk => h.holders_of_stored ⟨e, hfind⟩ hk
  obtain ⟨-, hholders⟩ := removeTransactionKeyimages_spec hspends.allToKey hspends.nodup hheld
  have hfind' : ∀ j, (p.db.erase id).find? j = if j = id then none else p.db.find? j :=
    p.db.find?_erase id
  have hback : ∀ j e', (p.db.erase id).find? j = some e' → j ≠ id ∧ p.db.find? j = some e' := by
    intro j e' hj
    rw [hfind'] at hj
    split at hj
    · cases hj
    · rename_i hne
      exact ⟨hne, hj⟩
  refine ⟨?_, h.cached, ?_, removeTransactionKeyimages_noneEmpty _ h.noneEmpty, ?_, ?_, ?_⟩
  · intro j e' hj
    exact h.entries j e' (hback j e' hj).2
  · intro k j
    change j ∈ holders (TxPool.removeTransactionKeyimages id (vinOf id) p.spentKeyImages).2 k ↔
      (∃ e', (p.db.erase id).find? j = some e') ∧ k ∈ keyImages (vinOf j)
    rw [hholders, hfind']
    by_cases hj : j = id
    · subst hj
      rw [if_pos rfl]
      constructor
      · intro hmem
        split at hmem
        · exact absurd rfl (Finset.ne_of_mem_erase hmem)
        · rename_i hk
          exact absurd ((h.holds k j).mp hmem).2 hk
      · rintro ⟨⟨e', he'⟩, -⟩
        cases he'
    · rw [if_neg hj]
      refine Iff.trans ?_ (h.holds k j)
      split
      · rw [Finset.mem_erase]
        exact ⟨And.right, fun hmem => ⟨hj, hmem⟩⟩
      · rfl
  · intro hfit
    exact (if_neg (not_lt.mpr (herase hfit).1)).trans (herase hfit).2
  · intro hfit
    change (p.weightUnderflow || decide (e.txMeta.weight > p.txpoolWeight)) = false
    rw [h.noUnderflow hfit, Bool.false_or]
    exact decide_eq_false (not_lt.mpr (herase hfit).1)
  · intro i j ei ej hi hj
    exact h.apart i j ei ej (hback i ei hi).2 (hback j ej hj).2

end Indexed

def dropTx (p : Pool) (vin : List TxIn) (now : Nat) (id : Hash) (m : TxMeta) : Pool :=
  (((p.removeTxpoolTx id).reduceTxpoolWeight m.weight).removeTransactionKeyimages vin
    id).removeTxFromTransientLists now id (!m.matchesRelay .broadcasted)

theorem find?_dropTx (p : Pool) (vin : List TxIn) (now : Nat) (id j : Hash) (m : TxMeta) :
    (p.dropTx vin now id m).db.find? j = if j = id then none else p.db.find? j := by
  unfold dropTx
  rw [db_removeTxFromTransientLists]
  exact p.db.find?_erase id j

theorem shrunk_dropTx (p : Pool) (vin : List TxIn) (now : Nat) (id : Hash) (m : TxMeta) :
    Shrunk p (p.dropTx vin now id m) := by
  intro j e hj
  rw [find?_dropTx] at hj
  split at hj
  · cases hj
  · exact hj

theorem dropTx_eq (p : Pool) (vin : List TxIn) (now : Nat) (id : Hash) (m : TxMeta) :
    ∃ removed start, p.dropTx vin now id m =
      { (((p.removeTxpoolTx id).reduceTxpoolWeight m.weight).removeTransactionKeyimages vin id) with
        txsByFeeAndReceiveTime := p.txsByFeeAndReceiveTime.erase id
        addedTxsById := p.addedTxsById.erase id
        removedTxsByTime := removed
        removedTxsStartTime := start } := removeTxFromTransientLists_eq _ now id _

theorem Listed.dropTx (h : p.Listed) (vin : List TxIn) (now : Nat) (id : Hash) (m : TxMeta) :
    (p.dropTx vin now id m).Listed := by
  intro j
  obtain ⟨removed, start, heq⟩ := p.dropTx_eq vin now id m
  have hids : (p.dropTx vin now id m).txsByFeeAndReceiveTime =
      p.txsByFeeAndReceiveTime.erase id := by rw [heq]
  unfold stored
  rw [hids, mem_ids_erase, h j, find?_dropTx]
  split
  · rename_i hj
    simp [hj]
  · rename_i hj
    simp [hj, stored]

section
variable (h : p.Bookkept env vinOf weightOf)
include h

theorem Bookkept.dropTx (hfind : p.db.find? id = some e) (now : Nat) :
    (p.dropTx (vinOf id) now id e.txMeta).Bookkept env vinOf weightOf := by
  have hdrop := h.indexed.drop hfind
  obtain ⟨removed, start, heq⟩ := p.dropTx_eq (vinOf id) now id e.txMeta
  refine ⟨?_, h.listed.dropTx _ now id _⟩
  rw [heq]
  exact hdrop.congr rfl rfl rfl rfl hdrop.cached

theorem pruneLoop_bookkept (now bytes : Nat) (ids : List Hash) :
    (pruneLoop env now bytes ids p).1 = true ∧
      (pruneLoop env now bytes ids p).2.2.Bookkept env vinOf weightOf ∧
        Shrunk p (pruneLoop env now bytes ids p).2.2 := by
  induction ids generalizing p with
  | nil => exact ⟨rfl, h, .refl p⟩
  | cons id ids ih =>
    simp only [pruneLoop]
    split
    · exact ⟨rfl, h, .refl p⟩
    · cases hfind : p.db.find? id with
      | none => exact ih h
      | some e =>
        simp only [(h.indexed.entries id e hfind).parses.parsesPrefix]
        split
        · exact ih h
        · obtain ⟨hok, hkept, hshrunk⟩ := ih (h.dropTx hfind now)
          exact ⟨hok, hkept, (shrunk_dropTx p _ now id _).trans hshrunk⟩

theorem Bookkept.congr (hdb : q.db = p.db) (himages : q.spentKeyImages = p.spentKeyImages)
    (hweight : q.txpoolWeight = p.txpoolWeight) (hflow : q.weightUnderflow = p.weightUnderflow)
    (hsorted : q.txsByFeeAndReceiveTime = p.txsByFeeAndReceiveTime)
    (hcached : ∀ id tx, q.parsedTxCache.find? id = some tx → tx.vin = vinOf id) :
    q.Bookkept env vinOf weightOf := by
  refine ⟨h.indexed.congr hdb himages hweight hflow hcached, ?_⟩
  have hlisted := h.listed
  unfold Listed stored at hlisted ⊢
  rwa [hsorted, hdb]

theorem Bookkept.prune (now bytes : Nat) :
    (p.prune env now bytes).Bookkept env vinOf weightOf ∧ Shrunk p (p.prune env now bytes) := by
  simp only [Pool.prune]
  generalize (if bytes = 0 then p.txpoolMaxWeight else bytes) = limit
  obtain ⟨hok, hkept, hshrunk⟩ :=
    pruneLoop_bookkept h now limit p.txsByFeeAndReceiveTime.ids.tail.reverse
  rw [hok]
  simp only [Bool.not_true, Bool.false_eq_true, if_false]
  split
  · exact ⟨hkept.congr rfl rfl rfl rfl rfl hkept.indexed.cached, hshrunk⟩
  · exact ⟨hkept, hshrunk⟩

end

theorem takeTx_absent (hfind : p.db.find? id = none) (now : Nat) :
    p.takeTx env now id = (none, p) := by
  simp only [takeTx, hfind]

structure Took (vin : List TxIn) (e : PoolEntry) (id : Hash) (p : Pool)
    (result : Option TakenTx × Pool) : Prop where
  taken : ∃ t, result.1 = some t ∧ t.tx.vin = vin ∧ t.blob = e.blob
  gone : result.2.db.find? id = none
  shrunk : Shrunk p result.2

theorem Bookkept.takeTx (h : p.Bookkept env vinOf weightOf) (hfind : p.db.find? id = some e)
    (now : Nat) : (p.takeTx env now id).2.Bookkept env vinOf weightOf ∧
      Took (vinOf id) e id p (p.takeTx env now id) := by
  obtain ⟨tx, htx, hvin⟩ : ∃ tx, p.storedTx env id e = some tx ∧ tx.vin = vinOf id := by
    have hparses := (h.indexed.entries id e hfind).parses
    unfold Pool.storedTx
    cases hcache : p.parsedTxCache.find? id with
    | some tx => exact ⟨tx, rfl, h.indexed.cached id tx hcache⟩
    | none =>
      simp only
      split
      · exact hparses.parsesBase
      · rename_i hpruned
        exact hparses.parsesFull (Bool.eq_false_iff.mpr hpruned)
  have hdrop := h.dropTx hfind now
  simp only [Pool.takeTx, hfind, htx]
  rw [hvin]
  refine ⟨hdrop.congr rfl rfl rfl rfl rfl hdrop.indexed.cached, ⟨_, rfl, hvin, rfl⟩, ?_, ?_⟩
  · exact (find?_dropTx p (vinOf id) now id id e.txMeta).trans (if_pos rfl)
  · exact shrunk_dropTx p (vinOf id) now id e.txMeta

end Pool
end Jero.TxPool
