import Jero.TxPool.BookkeptAdd
import Jero.TxPool.Upkeep

namespace Jero.TxPool
open Jero.Lists Jero.Tx Jero.Machine List Option SortedMap
namespace Pool
variable {p q : Pool} {env : PoolEnv} {vinOf : Hash → List TxIn} {weightOf : Hash → Nat}
  {id : Hash} {e : PoolEntry}
section
variable (h : p.Bookkept env vinOf weightOf) (now : Nat)
include h

theorem setRelayedTx_bookkept (method : RelayMethod) (embargo : Nat) (hash : Hash) :
    (p.setRelayedTx env method now embargo hash).2.Bookkept env vinOf weightOf := by
  unfold setRelayedTx getMeta
  cases hfind : p.db.find? hash with
  | none => exact h
  | some old =>
    obtain ⟨hweighs, hparses, hspends, hrelay⟩ := h.indexed.entries hash old hfind
    have hkept := TxMeta.kept_upgradeRelayMethod hrelay method
    have hcoherent := TxMeta.relay_upgradeRelayMethod hrelay method
    have hmeta : (old.txMeta.upgradeRelayMethod method).2.weight = old.txMeta.weight ∧
        (old.txMeta.upgradeRelayMethod method).2.pruned = old.txMeta.pruned := by
      unfold TxMeta.upgradeRelayMethod
      split
      · exact ⟨rfl, rfl⟩
      · exact ⟨rfl, rfl⟩
    have hupdated : (p.updateTxpoolTx hash (old.txMeta.relayedAt method now embargo)).Bookkept env
        vinOf weightOf := by
      refine h.updateTxpoolTx hfind ⟨hmeta.1.trans hweighs, ?_, hspends, hcoherent⟩ hkept
      exact ⟨hparses.parsesPrefix, hparses.parsesBase,
        fun hpruned => hparses.parsesFull (hmeta.2.symm.trans hpruned)⟩
    have hstored : (p.updateTxpoolTx hash (old.txMeta.relayedAt method now embargo)).stored hash :=
      ⟨_, (find?_updateTxpoolTx hfind _ hash).trans (if_pos rfl)⟩
    simp only [Option.map_some]
    split
    · refine ⟨hupdated.indexed.congr rfl rfl rfl rfl hupdated.indexed.cached, ?_⟩
      intro j
      rw [mem_ids_addTxToTransientLists, hupdated.listed]
      constructor
      · rintro (hj | rfl)
        · exact hj
        · exact hstored
      · exact Or.inl
    · exact hupdated

theorem setRelayed_bookkept (method : RelayMethod) (hashes : List (Hash × Nat)) :
    (setRelayed env method now hashes p).2.Bookkept env vinOf weightOf := by
  induction hashes generalizing p with
  | nil => exact h
  | cons x hashes ih => exact ih (setRelayedTx_bookkept h now method x.2 x.1)

end

theorem timeOutTx_eq (p : Pool) (now : Nat) (e : Hash × PoolEntry) :
    ∃ added removed start timedOut, p.timeOutTx now e = { p with
      txsByFeeAndReceiveTime := p.txsByFeeAndReceiveTime.erase e.1
      addedTxsById := added
      removedTxsByTime := removed
      removedTxsStartTime := start
      timedOutTransactions := timedOut } := by
  obtain ⟨removed, start, heq⟩ := removeTxFromTransientLists_eq p now e.1
    (!e.2.txMeta.matchesRelay .broadcasted)
  unfold timeOutTx
  rw [heq]
  exact ⟨_, removed, start, _, rfl⟩

theorem timeOutLoop_spec (now : Nat) (remove : List (Hash × PoolEntry))
    (h : p.Indexed env vinOf weightOf) :
    (remove.foldl (fun p e => p.timeOutTx now e) p).Indexed env vinOf weightOf ∧
      (remove.foldl (fun p e => p.timeOutTx now e) p).db = p.db ∧
        ∀ j, j ∈ (remove.foldl (fun p e => p.timeOutTx now e) p).txsByFeeAndReceiveTime.ids ↔
          j ∈ p.txsByFeeAndReceiveTime.ids ∧ j ∉ remove.map Prod.fst := by
  induction remove generalizing p with
  | nil => exact ⟨h, rfl, fun j => ⟨fun hj => ⟨hj, not_mem_nil⟩, And.left⟩⟩
  | cons x remove ih =>
    obtain ⟨added, removed, start, timedOut, heq⟩ := timeOutTx_eq p now x
    have hnext : (p.timeOutTx now x).Indexed env vinOf weightOf := by
      rw [heq]
      exact h.congr rfl rfl rfl rfl h.cached
    have hsorted : (p.timeOutTx now x).txsByFeeAndReceiveTime =
        p.txsByFeeAndReceiveTime.erase x.1 := by rw [heq]
    have hdb : (p.timeOutTx now x).db = p.db := by rw [heq]
    obtain ⟨hfinal, hdb', hids⟩ := ih hnext
    refine ⟨hfinal, hdb'.trans hdb, ?_⟩
    intro j
    rw [foldl_cons, hids j, hsorted, SortedTxs.mem_ids_erase, map_cons, mem_cons]
    tauto

theorem dropLoop_spec (remove : List (Hash × PoolEntry)) (hnodup : (remove.map Prod.fst).Nodup)
    (h : p.Indexed env vinOf weightOf) (hstored : ∀ x ∈ remove, p.db.find? x.1 = some x.2) :
    (remove.foldl (fun p e => p.dropStuckTx env e) p).Indexed env vinOf weightOf ∧
      (remove.foldl (fun p e => p.dropStuckTx env e) p).txsByFeeAndReceiveTime =
        p.txsByFeeAndReceiveTime ∧
      ∀ j, (remove.foldl (fun p e => p.dropStuckTx env e) p).stored j ↔
        p.stored j ∧ j ∉ remove.map Prod.fst := by
  induction remove generalizing p with
  | nil => exact ⟨h, rfl, fun j => ⟨fun hj => ⟨hj, not_mem_nil⟩, And.left⟩⟩
  | cons x remove ih =>
    obtain ⟨hx, hrest⟩ := forall_mem_cons.mp hstored
    obtain ⟨hnot, htail⟩ := nodup_cons.mp hnodup
    obtain ⟨hnext, hdb, hsorted⟩ : (p.dropStuckTx env (x.1, x.2)).Indexed env vinOf weightOf ∧
      (p.dropStuckTx env (x.1, x.2)).db = p.db.erase x.1 ∧ (p.dropStuckTx env (x.1,
      x.2)).txsByFeeAndReceiveTime = p.txsByFeeAndReceiveTime := by
      simp only [dropStuckTx, getBlob, hx, Option.map_some,
        (h.entries x.1 x.2 hx).parses.parsesPrefix]
      exact ⟨h.drop hx, rfl, rfl⟩
    obtain ⟨hfinal, hsorted', hids⟩ := ih htail hnext (by
      intro y hy
      rw [hdb, SortedMap.find?_erase, if_neg]
      · exact hrest y hy
      · intro heq
        exact hnot (heq ▸ mem_map_of_mem hy))
    refine ⟨hfinal, hsorted'.trans hsorted, ?_⟩
    intro j
    rw [foldl_cons, hids j, map_cons, mem_cons]
    unfold stored
    rw [hdb, SortedMap.find?_erase]
    split
    · rename_i heq
      simp [heq]
    · rename_i hne
      simp [hne]

theorem removeStuckTransactions_bookkept (h : p.Bookkept env vinOf weightOf) (now : Nat) :
    (p.removeStuckTransactions env now).Bookkept env vinOf weightOf := by
  unfold removeStuckTransactions
  extract_lets remove unlisted dropped
  have hnodup : (remove.map Prod.fst).Nodup :=
    p.db.nodup_keys.sublist (filter_sublist.map Prod.fst)
  have hstored : ∀ x ∈ remove, p.db.find? x.1 = some x.2 :=
    fun x hx => (p.db.mem_entries_iff x).mp (mem_of_mem_filter hx)
  obtain ⟨hindexed, hdb, hids⟩ := timeOutLoop_spec now remove h.indexed
  split
  · rename_i hempty
    refine ⟨hindexed, ?_⟩
    intro j
    rw [hids, h.listed, List.isEmpty_iff.mp hempty]
    unfold stored
    rw [hdb]
    simp
  · obtain ⟨hfinal, hsorted, hleft⟩ := dropLoop_spec remove hnodup hindexed (by rwa [hdb])
    refine ⟨hfinal.congr rfl rfl rfl rfl hfinal.cached, ?_⟩
    intro j
    change j ∈ dropped.txsByFeeAndReceiveTime.ids ↔ dropped.stored j
    rw [hsorted, hids, h.listed, hleft]
    unfold stored
    rw [hdb]

variable {snapshot : PoolEntry}

def OthersMarked (id : Hash) (p q : Pool) : Prop :=
  ∀ j e', j ≠ id → q.db.find? j = some e' → ∃ e, p.db.find? j = some e ∧ Resembles e e'

theorem OthersMarked.of_cameFrom {a : AddArgs} {rest : Pool} (hshrunk : Shrunk p rest)
    (h : CameFrom a rest q) : OthersMarked a.id p q := by
  intro j e' hne hj
  rcases h j e' hj with ⟨old, hold, hsame⟩ | ⟨rfl, -⟩
  · exact ⟨old, hshrunk j old hold, hsame⟩
  · exact absurd rfl hne

variable {version : Nat}
section
variable (hsnap : EntryOk env (vinOf id) (weightOf id) snapshot)
  (hpruned : snapshot.txMeta.pruned = false) (hversion : version ≠ 0)
include hsnap hpruned hversion

theorem revalidateTx_bookkept (h : p.Bookkept env vinOf weightOf) (chain : ChainView)
    (now embargo : Hash → Nat) (hcurrent : ∀ e, p.db.find? id = some e → Resembles snapshot e) :
    (p.revalidateTx env chain version now embargo id snapshot.txMeta).2.Bookkept env vinOf
        weightOf ∧
      OthersMarked id p (p.revalidateTx env chain version now embargo id snapshot.txMeta).2 := by
  cases hfind : p.db.find? id with
  | none =>
    obtain ⟨hok, hsame⟩ := @addTx_no_inputs p
      (TakenTx.readdArgs none id snapshot.txMeta version (now id) (embargo id)) env chain .initial
      rfl hversion
    simp only [revalidateTx, takeTx_absent hfind, hok, hsame, Bool.not_false, if_true]
    exact ⟨h, fun j e _ hj => ⟨e, hj, .refl e⟩⟩
  | some e =>
    obtain ⟨hrest, ⟨t, ht, hvin, hblob⟩, hgone, hshrunk⟩ := h.takeTx hfind (now id)
    have hsame := (hcurrent e hfind).blob
    have hpromised : (TakenTx.readdArgs (some t) id snapshot.txMeta version (now id) (embargo
      id)).Promised env vinOf weightOf := by
      refine ⟨hvin, hsnap.weighs, ?_, fun hzero => absurd hzero hversion⟩
      change BlobParses env (vinOf id) t.tx.pruned t.blob
      rw [(hblob.trans hsame)]
      exact ⟨hsnap.parses.parsesPrefix, hsnap.parses.parsesBase,
        fun _ => hsnap.parses.parsesFull hpruned⟩
    obtain ⟨hadded, hfrom⟩ := addTx_bookkept hrest hpromised chain .initial
    have hothers := OthersMarked.of_cameFrom hshrunk hfrom
    simp only [revalidateTx, ht]
    split
    · exact ⟨hadded, hothers⟩
    · split
      · exact ⟨hadded, hothers⟩
      · rename_i m hm
        obtain ⟨new, hnew, -⟩ := map_eq_some_iff.mp hm
        rcases hfrom id new hnew with ⟨old, hold, -⟩ | ⟨-, hnewBlob, hnewKept⟩
        · rw [hgone] at hold
          cases hold
        · have hstoredBlob : new.blob = snapshot.blob := hnewBlob.trans (hblob.trans hsame)
          refine ⟨hadded.updateTxpoolTx hnew ?_ ?_, ?_⟩
          · rw [hstoredBlob]
            exact ⟨hsnap.weighs, hsnap.parses, hsnap.spends, hsnap.relay⟩
          · intro hkept
            rw [hnewKept hgone]
            exact hsnap.relay.symm.trans hkept
          · intro j e' hne hj
            rw [find?_updateTxpoolTx hnew, if_neg hne] at hj
            exact hothers j e' hne hj

end

structure Snapshots (env : PoolEnv) (vinOf : Hash → List TxIn) (weightOf : Hash → Nat)
    (txes : List (Hash × PoolEntry)) (p : Pool) : Prop where
  nodup : (txes.map Prod.fst).Nodup
  current : ∀ x ∈ txes, EntryOk env (vinOf x.1) (weightOf x.1) x.2 ∧
    x.2.txMeta.pruned = false ∧ ∀ e, p.db.find? x.1 = some e → Resembles x.2 e

theorem Snapshots.tail {x : Hash × PoolEntry} {txes : List (Hash × PoolEntry)}
    (h : Snapshots env vinOf weightOf (x :: txes) p) (hothers : OthersMarked x.1 p q) :
    Snapshots env vinOf weightOf txes q := by
  obtain ⟨hnot, htail⟩ := nodup_cons.mp h.nodup
  refine ⟨htail, ?_⟩
  intro y hy
  obtain ⟨hsnap, hpruned, hcurrent⟩ := h.current y (mem_cons_of_mem x hy)
  refine ⟨hsnap, hpruned, ?_⟩
  intro e' he'
  have hne : y.1 ≠ x.1 := fun heq => hnot (heq ▸ List.mem_map_of_mem hy)
  obtain ⟨e, he, hsame⟩ := hothers y.1 e' hne he'
  exact (hcurrent e he).trans hsame

theorem Bookkept.snapshots (h : p.Bookkept env vinOf weightOf) :
    Snapshots env vinOf weightOf (p.db.entries.filter (fun e => !e.2.txMeta.pruned)) p := by
  refine ⟨p.db.nodup_keys.sublist (filter_sublist.map Prod.fst), ?_⟩
  intro x hx
  obtain ⟨hmem, hpruned⟩ := mem_filter.mp hx
  have hfind := (p.db.mem_entries_iff x).mp hmem
  refine ⟨h.indexed.entries x.1 x.2 hfind, Bool.not_eq_true' _ ▸ hpruned, ?_⟩
  intro e he
  obtain rfl := some.inj (hfind.symm.trans he)
  exact .refl x.2

section
variable (chain : ChainView) (hversion : version ≠ 0) (now embargo : Hash → Nat)
  (h : p.Bookkept env vinOf weightOf)
include hversion h

theorem revalidateLoop_bookkept (txes : List (Hash × PoolEntry))
    (hsnaps : Snapshots env vinOf weightOf txes p) :
    (revalidateLoop env chain version now embargo txes p).2.Bookkept env vinOf weightOf := by
  induction txes generalizing p with
  | nil => exact h
  | cons x txes ih =>
    obtain ⟨hsnap, hpruned, hcurrent⟩ := hsnaps.current x mem_cons_self
    obtain ⟨hnext, hothers⟩ :=
      revalidateTx_bookkept hsnap hpruned hversion h chain now embargo hcurrent
    exact ih hnext (hsnaps.tail hothers)

theorem validate_bookkept :
    (p.validate env chain version now embargo).2.Bookkept env vinOf weightOf := by
  have hcleared : p.clearTransientInfo.Bookkept env vinOf weightOf :=
    h.congr rfl rfl rfl rfl rfl h.indexed.cached
  have hfinal := revalidateLoop_bookkept chain hversion now embargo hcleared _ hcleared.snapshots
  simp only [validate]
  split
  · exact hfinal.congr rfl rfl rfl rfl rfl hfinal.indexed.cached
  · exact hfinal

end

structure Reloadable (env : PoolEnv) (vinOf : Hash → List TxIn) (weightOf : Hash → Nat)
    (db : SortedMap Hash PoolEntry) : Prop where
  entries : ∀ id e, db.find? id = some e → EntryOk env (vinOf id) (weightOf id) e
  apart : ∀ i j ei ej, db.find? i = some ei → db.find? j = some ej → i ≠ j →
    ei.txMeta.keptByBlock = false → ej.txMeta.keptByBlock = false →
      ∀ k ∈ keyImages (vinOf i), k ∉ keyImages (vinOf j)

structure Loaded (env : PoolEnv) (vinOf : Hash → List TxIn) (weightOf : Hash → Nat)
    (part : SortedMap Hash PoolEntry) (p : Pool) : Prop where
  bookkept : Bookkept env vinOf weightOf { p with db := part }
  stored : ∀ id e, part.find? id = some e → p.db.find? id = some e

variable {part : SortedMap Hash PoolEntry}

def loadTx (env : PoolEnv) (now : Nat) (vin : List TxIn) (x : Hash × PoolEntry) (p : Pool) : Pool :=
  let listed := (p.insertKeyImages vin x.1 x.2.txMeta.getRelayMethod).2.addTxToTransientLists now
    x.1 (env.feeRate x.2.txMeta.fee x.2.txMeta.weight) x.2.txMeta.receiveTime
    (!x.2.txMeta.matchesRelay .broadcasted)
  { listed with txpoolWeight := wrap (listed.txpoolWeight + x.2.txMeta.weight) }

section
variable {x : Hash × PoolEntry}
variable (hdb : Reloadable env vinOf weightOf p.db) (h : Loaded env vinOf weightOf part p)
  (hx : p.db.find? x.1 = some x.2) (hfresh : part.find? x.1 = none)
  (hpart : x.2.txMeta.keptByBlock = false → ∀ j e, part.find? j = some e → e.txMeta.keptByBlock =
    false)
include hdb h hx hfresh hpart

theorem Loaded.images_free (hrelay : x.2.txMeta.getRelayMethod ≠ .block) :
    ∀ k ∈ keyImages (vinOf x.1), holders p.spentKeyImages k = ∅ := by
  intro k hk
  have hkept : x.2.txMeta.keptByBlock = false :=
    (hdb.entries x.1 x.2 hx).relay.trans (beq_eq_false_iff_ne.mpr hrelay)
  refine Finset.eq_empty_of_forall_notMem ?_
  intro j hj
  obtain ⟨⟨e, he⟩, hkj⟩ := (h.bookkept.indexed.holds k j).mp hj
  have hne : x.1 ≠ j := by
    rintro rfl
    exact absurd (hfresh.symm.trans he) (by simp)
  exact hdb.apart x.1 j x.2 e hx (h.stored j e he) hne hkept ((hpart hkept) j e he) k hk hkj

theorem Loaded.loadTx (now : Nat) :
    Loaded env vinOf weightOf (part.insert x.1 x.2) (p.loadTx env now (vinOf x.1) x) := by
  have hok := hdb.entries x.1 x.2 hx
  have hids := mem_ids_addTxToTransientLists
    (p.insertKeyImages (vinOf x.1) x.1 x.2.txMeta.getRelayMethod).2 now x.1
    (env.feeRate x.2.txMeta.fee x.2.txMeta.weight) x.2.txMeta.receiveTime
    (!x.2.txMeta.matchesRelay .broadcasted)
  have hfree := h.images_free hdb hx hfresh hpart
  refine ⟨h.bookkept.stores rfl hids rfl hfresh hok hok.relay hfree rfl rfl rfl, ?_⟩
  intro j e hj
  rw [find?_insert] at hj
  split at hj
  · rename_i heq
    obtain rfl := some.inj hj
    rw [heq]
    exact hx
  · exact h.stored j e hj

end

theorem initPass_spec (now : Nat) (kept : Bool) (entries : List (Hash × PoolEntry))
    (remove : List Hash)
    (hnodup : (entries.map Prod.fst).Nodup) (hdb : Reloadable env vinOf weightOf p.db)
    (hentries : ∀ x ∈ entries, p.db.find? x.1 = some x.2) (h : Loaded env vinOf weightOf part p)
    (hfresh : ∀ x ∈ entries, x.2.txMeta.keptByBlock = kept → part.find? x.1 = none)
    (hpart : kept = false → ∀ j e, part.find? j = some e → e.txMeta.keptByBlock = false) :
    ∃ q part', initPass env now kept entries remove p = (true, remove, q) ∧ q.db = p.db ∧
      Loaded env vinOf weightOf part' q ∧ ∀ id e, part'.find? id = some e ↔
        part.find? id = some e ∨ ((id, e) ∈ entries ∧ e.txMeta.keptByBlock = kept) := by
  induction entries generalizing p part with
  | nil => exact ⟨p, part, rfl, rfl, h, fun id e => by simp⟩
  | cons x entries ih =>
    obtain ⟨hx, hrest⟩ := forall_mem_cons.mp hentries
    obtain ⟨hnot, htail⟩ := nodup_cons.mp hnodup
    obtain ⟨hxfresh, hfresh'⟩ := forall_mem_cons.mp hfresh
    by_cases hkind : x.2.txMeta.keptByBlock = kept
    · subst hkind
      have hnew := hxfresh rfl
      obtain ⟨q, part', hrun, hqdb, hfinal, hiff⟩ := @ih (p.loadTx env now (vinOf x.1) x)
        (part.insert x.1 x.2) htail hdb hrest (h.loadTx hdb hx hnew hpart now) (by
          intro y hy hykind
          rw [find?_insert, if_neg]
          · exact hfresh' y hy hykind
          · intro heq
            exact hnot (heq ▸ List.mem_map_of_mem hy)) (by
          intro hkept j e hj
          rw [find?_insert] at hj
          split at hj
          · obtain rfl := some.inj hj
            exact hkept
          · exact hpart hkept j e hj)
      have hok := hdb.entries x.1 x.2 hx
      have hfree := h.images_free hdb hx hnew hpart
      have hinserted : (p.insertKeyImages (vinOf x.1) x.1 x.2.txMeta.getRelayMethod).1 = true :=
        (h.bookkept.indexed.insertKeyImages_fresh _ hnew hok.spends hfree).1
      refine ⟨q, part', ?_, hqdb, hfinal, ?_⟩
      · simp only [initPass, bne_self_eq_false, Bool.false_eq_true, if_false,
          hok.parses.parsesPrefix, hinserted, Bool.not_true]
        exact hrun
      intro j e
      rw [hiff, find?_insert, mem_cons]
      by_cases hj : j = x.1
      · subst hj
        rw [if_pos rfl, hnew]
        constructor
        · rintro (heq | ⟨hmem, hkept⟩)
          · obtain rfl := some.inj heq
            exact .inr ⟨.inl rfl, rfl⟩
          · exact .inr ⟨.inr hmem, hkept⟩
        · rintro (hnone | ⟨heq | hmem, hkept⟩)
          · cases hnone
          · exact .inl (congrArg (some ·.2) heq.symm)
          · exact .inr ⟨hmem, hkept⟩
      · have hne : (j, e) ≠ x := fun heq => hj (congrArg Prod.fst heq)
        rw [if_neg hj]
        simp only [hne, false_or]
    · obtain ⟨q, part', hrun, hqdb, hfinal, hiff⟩ := ih htail hdb hrest h hfresh' hpart
      have hskip : (kept != x.2.txMeta.keptByBlock) = true := bne_iff_ne.mpr (Ne.symm hkind)
      refine ⟨q, part', by simpa only [initPass, hskip, if_true] using hrun, hqdb, hfinal, ?_⟩
      intro j e
      rw [hiff, mem_cons]
      refine or_congr_right (and_congr_left fun hkept => ?_)
      have hne : (j, e) ≠ x := by
        rintro rfl
        exact hkind hkept
      simp only [hne, false_or]

theorem init_bookkept (hdb : Reloadable env vinOf weightOf p.db)
    (hcached : ∀ id tx, p.parsedTxCache.find? id = some tx → tx.vin = vinOf id)
    (hflow : WeightsFit weightOf → p.weightUnderflow = false) (now maxTxpoolWeight : Nat)
    (mineStemTxes : Bool) :
    (p.init env now maxTxpoolWeight mineStemTxes).1 = true ∧
      (p.init env now maxTxpoolWeight mineStemTxes).2.db = p.db ∧
        (p.init env now maxTxpoolWeight mineStemTxes).2.Bookkept env vinOf weightOf := by
  have hmem := p.db.mem_entries_iff
  have hstart : Loaded env vinOf weightOf .empty (p.cleared maxTxpoolWeight) := by
    have hempty := Bookkept.empty env vinOf weightOf 0 false
    obtain ⟨hentries, -, hholds, hnone, hweight, -, hapart⟩ := hempty.indexed
    exact ⟨⟨⟨hentries, hcached, hholds, hnone, hweight, hflow, hapart⟩, hempty.listed⟩,
      fun id e he => by cases he⟩
  obtain ⟨q, part, hrun, hqdb, hload, hiff⟩ := initPass_spec (p := p.cleared maxTxpoolWeight) now
    false p.db.entries [] p.db.nodup_keys hdb (fun x hx => (hmem x).mp hx) hstart
    (fun _ _ _ => rfl) (fun _ j e he => by cases he)
  have hq : q.db = p.db := hqdb
  have hpartKept : ∀ id e, part.find? id = some e → e.txMeta.keptByBlock = false := by
    intro id e he
    rcases (hiff id e).mp he with hnone | ⟨-, hkept⟩
    · cases hnone
    · exact hkept
  obtain ⟨r, part', hrun', hrdb, hload', hiff'⟩ := initPass_spec now true p.db.entries []
    p.db.nodup_keys (hq ▸ hdb) (fun x hx => hq ▸ (hmem x).mp hx) hload (by
      intro x hx hkept
      cases hpart : part.find? x.1 with
      | none => rfl
      | some e =>
        have hsame : x.2 = e := by
          have hstored := hload.stored x.1 e hpart
          rw [hq, (hmem x).mp hx] at hstored
          exact some.inj hstored
        rw [hsame, hpartKept x.1 e hpart] at hkept
        cases hkept) (fun hfalse => by cases hfalse)
  have hr : r.db = p.db := hrdb.trans hq
  have hall : part' = p.db := by
    refine eq_of_find? ?_
    intro id
    refine ext ?_
    intro e
    rw [hiff', hiff]
    constructor
    · rintro ((hnone | ⟨he, -⟩) | ⟨he, -⟩)
      · cases hnone
      · exact (hmem (id, e)).mp he
      · exact (hmem (id, e)).mp he
    · intro he
      have hin := (hmem (id, e)).mpr he
      cases hkept : e.txMeta.keptByBlock with
      | false => exact .inl (.inr ⟨hin, rfl⟩)
      | true => exact .inr ⟨hin, rfl⟩
  have hbook := hload'.bookkept
  simp only [init, hrun, hrun', foldl_nil]
  exact ⟨trivial, hr, hbook.congr (hr.trans hall.symm) rfl rfl rfl rfl hbook.indexed.cached⟩

end Pool
end Jero.TxPool
