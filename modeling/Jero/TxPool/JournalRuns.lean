import Jero.TxPool.Journal
import Jero.TxPool.BookkeptRuns

namespace Jero.TxPool
open Jero.Machine Jero.Lists Jero.Tx Jero.Sync List Option TxMeta
variable {m : TxMeta}
namespace TxMeta

theorem open_upgrade (h : m.matchesRelay .broadcasted = true) (method : RelayMethod) :
    (m.upgradeRelayMethod method).2.matchesRelay .broadcasted = true := by
  unfold upgradeRelayMethod
  split
  · rename_i hrank
    rw [matchesRelay] at h ⊢
    rw [getRelayMethod_setRelayMethod]
    revert h hrank
    generalize m.getRelayMethod = old
    cases old <;> cases method <;> decide
  · exact h

end TxMeta
namespace Pool
variable {p q r : Pool} {env : PoolEnv} {id : Hash} {e : PoolEntry}

theorem dropTx_advances (hfind : p.db.find? id = some e) (vin : List TxIn) (now : Nat) :
    Advances now now p (p.dropTx vin now id e.txMeta) := by
  refine advances_unlisted (q := ((p.removeTxpoolTx id).reduceTxpoolWeight
    e.txMeta.weight).removeTransactionKeyimages vin id) rfl hfind ?_
  intro i hi
  exact (p.db.find?_erase id i).trans (if_neg hi)

variable (env)

theorem pruneLoop_advances (now bytes : Nat) (ids : List Hash) (p : Pool) :
    Advances now now p (pruneLoop env now bytes ids p).2.2 ∧
      Shrunk p (pruneLoop env now bytes ids p).2.2 := by
  induction ids generalizing p with
  | nil => exact ⟨.refl now p, .refl p⟩
  | cons i ids ih =>
    rw [pruneLoop]
    split
    · exact ⟨.refl now p, .refl p⟩
    split
    · exact ih p
    rename_i entry hfind
    split
    · exact ih p
    split
    · exact ⟨.refl now p, .refl p⟩
    rename_i vin _
    obtain ⟨hrest, hshrunk⟩ := ih (p.dropTx vin now i entry.txMeta)
    exact ⟨(dropTx_advances hfind vin now).trans hrest,
      (shrunk_dropTx p vin now i entry.txMeta).trans hshrunk⟩

theorem prune_advances (now bytes : Nat) (p : Pool) :
    Advances now now p (p.prune env now bytes) ∧ Shrunk p (p.prune env now bytes) := by
  simp only [prune]
  generalize (if bytes = 0 then p.txpoolMaxWeight else bytes) = limit
  obtain ⟨hadvances, hshrunk⟩ := pruneLoop_advances env now limit
    p.txsByFeeAndReceiveTime.ids.tail.reverse p
  split
  · refine ⟨hadvances.trans (advances_quiet rfl ?_), .refl p⟩
    intro i info e _ he
    exact ⟨e, hshrunk i e he, fun hopen => hopen⟩
  · split
    · exact ⟨hadvances.trans (advances_same rfl rfl), hshrunk⟩
    · exact ⟨hadvances, hshrunk⟩

structure Adds (a : AddArgs) (p q : Pool) : Prop where
  advances : Advances a.receiveTime a.receiveTime p q
  relay : p.db.find? a.id = none → ∀ e, q.db.find? a.id = some e →
    e.txMeta.getRelayMethod = a.txRelay

section
variable {a : AddArgs}

theorem Adds.same (hlists : q.lists = p.lists) (hdb : q.db = p.db) : Adds a p q := by
  refine ⟨advances_same hlists hdb, ?_⟩
  intro hnone e he
  rw [hdb, hnone] at he
  cases he

theorem Adds.of_same (hlists : q.lists = p.lists) (hdb : q.db = p.db) (h : Adds a q r) :
    Adds a p r :=
  ⟨(advances_same hlists hdb).trans h.advances, fun hnone => h.relay (hdb ▸ hnone)⟩

theorem Adds.finish (h : Adds a p q) (env : PoolEnv) (txRelay : RelayMethod) (metaFee : Nat)
    (tvc : TxVerificationContext) : Adds a p (q.finishAdd env a txRelay metaFee tvc).2.2 := by
  have hweighed : Advances a.receiveTime a.receiveTime q { q with
      txpoolWeight :=
        if tvc.addedToPool then wrap (q.txpoolWeight + a.txWeight) else q.txpoolWeight
      cookie := q.cookie + 1 } := advances_same rfl rfl
  obtain ⟨hadvances, hshrunk⟩ := prune_advances env a.receiveTime q.txpoolMaxWeight { q with
    txpoolWeight :=
      if tvc.addedToPool then wrap (q.txpoolWeight + a.txWeight) else q.txpoolWeight
    cookie := q.cookie + 1 }
  refine ⟨(h.advances.trans hweighed).trans hadvances, ?_⟩
  intro hnone e he
  exact h.relay hnone e (hshrunk a.id e he)

theorem Adds.listKeyed
    (hopen : ∀ e, p.db.find? a.id = some e → isOpen e = true → m.matchesRelay .broadcasted = true)
    (hrelay : p.db.find? a.id = none → m.getRelayMethod = a.txRelay) (fee : Rat) :
    Adds a p (p.listKeyed a m fee) := by
  have hfind : { p with db := p.db.insert a.id ⟨m, a.blob⟩ }.db.find? a.id =
      some ⟨m, a.blob⟩ := p.db.find?_insert_self a.id _
  have hstored : Advances a.receiveTime a.receiveTime p
      { p with db := p.db.insert a.id ⟨m, a.blob⟩ } := by
    refine advances_quiet rfl ?_
    intro i info e _ he
    rw [SortedMap.find?_insert]
    split
    · rename_i heq
      subst heq
      exact ⟨_, rfl, hopen e he⟩
    · exact ⟨e, he, fun hstill => hstill⟩
  have hlisted : Advances a.receiveTime a.receiveTime
      { p with db := p.db.insert a.id ⟨m, a.blob⟩ } (p.listKeyed a m fee) :=
    advances_listed hfind fee a.receiveTime
  refine ⟨hstored.trans hlisted, ?_⟩
  intro hnone e he
  obtain rfl := some.inj (hfind.symm.trans he)
  exact hrelay hnone

theorem lists_cacheParsedTx (p : Pool) (keptByBlock : Bool) (id : Hash) (tx : Transaction) :
    (p.cacheParsedTx keptByBlock id tx).lists = p.lists := by
  unfold cacheParsedTx
  split
  · rfl
  · rfl

theorem addFailedKeptTx_adds (p : Pool) (env : PoolEnv) (a : AddArgs) (verificationId : Hash)
    (tvc : TxVerificationContext) : Adds a p (p.addFailedKeptTx env a verificationId tvc).2.2 := by
  have hlists := lists_cacheParsedTx p a.keptByBlock a.id a.tx
  have hdb := db_cacheParsedTx p a.keptByBlock a.id a.tx
  unfold addFailedKeptTx
  generalize p.cacheParsedTx a.keptByBlock a.id a.tx = cached at hlists hdb ⊢
  refine .of_same hlists hdb ?_
  extract_lets fee base txMeta
  simp only
  split
  · exact .same rfl rfl
  · split
    · exact .same rfl rfl
    · rename_i added hadded
      unfold addTxpoolTx at hadded
      split at hadded
      · cases hadded
      · rename_i hnone
        obtain rfl := some.inj hadded
        have hopen : ∀ e, (cached.insertKeyImages a.tx.vin a.id a.txRelay).2.db.find? a.id =
            some e → isOpen e = true → txMeta.matchesRelay .broadcasted = true := by
          intro e he
          exact absurd (hnone.symm.trans he) (by simp)
        have hadds := (Adds.listKeyed hopen (fun _ => getRelayMethod_setRelayMethod _ _)
          (env.feeRate fee a.txWeight)).finish env a.txRelay txMeta.fee
          { tvc with verifivationImpossible := true, addedToPool := true }
        exact Adds.of_same (q := (cached.insertKeyImages a.tx.vin a.id a.txRelay).2) rfl rfl hadds

theorem addValidTx_adds (p : Pool) (env : PoolEnv) (a : AddArgs) (verificationId : Hash)
    (result : InputCheck) : Adds a p (p.addValidTx env a verificationId result).2.2 := by
  have hlists := lists_cacheParsedTx p a.keptByBlock a.id a.tx
  have hdb := db_cacheParsedTx p a.keptByBlock a.id a.tx
  unfold addValidTx
  generalize p.cacheParsedTx a.keptByBlock a.id a.tx = cached at hlists hdb ⊢
  refine .of_same hlists hdb ?_
  extract_lets fee same existing base found txRelay
  have hopen : ∀ e, cached.db.find? a.id = some e → isOpen e = true →
      (found.upgradeRelayMethod txRelay).2.matchesRelay .broadcasted = true := by
    intro e he hold
    have hfound : found = e.txMeta := by
      simp only [found, existing, same, getMeta, he, map_some, getD_some]
    rw [hfound]
    exact open_upgrade hold txRelay
  have hrelay : cached.db.find? a.id = none →
      (found.upgradeRelayMethod txRelay).2.getRelayMethod = a.txRelay := by
    intro hnone
    have hexisting : existing = none := by
      simp only [existing, same, getMeta, hnone, map_none]
    have htxRelay : txRelay = a.txRelay := by
      simp only [txRelay, hexisting]
      rfl
    rw [htxRelay]
    simp only [found, hexisting, getD_none]
    cases a.txRelay <;> rfl
  generalize found.upgradeRelayMethod txRelay = upgrade at hopen hrelay ⊢
  clear_value txRelay
  simp only
  split
  · split
    · exact .same rfl rfl
    · rw [addTxpoolTx_removed]
      refine Adds.of_same (q := (cached.insertKeyImages a.tx.vin a.id txRelay).2) rfl rfl
        (Adds.finish (Adds.listKeyed ?_ ?_ _) env _ _ _)
      · exact hopen
      · exact hrelay
  · exact Adds.finish (.same rfl rfl) env _ _ _

theorem update_advances (hfind : p.db.find? id = some e)
    (hopen : isOpen e = true → m.matchesRelay .broadcasted = true) (now : Nat) :
    Advances now now p (p.updateTxpoolTx id m) := by
  refine advances_quiet ?_ ?_
  · simp only [updateTxpoolTx, hfind]
    rfl
  · intro i info e' _ he'
    rw [find?_updateTxpoolTx hfind]
    split
    · rename_i heq
      subst heq
      obtain rfl := some.inj (hfind.symm.trans he')
      exact ⟨_, rfl, hopen⟩
    · exact ⟨e', he', fun hstill => hstill⟩

theorem markDoubleSpend_adds (a : AddArgs) (p : Pool) (tx : Transaction) :
    Adds a p (p.markDoubleSpend tx) := by
  refine (p.markDoubleSpend_induct tx (motive := fun q => Adds a p q ∧
    (p.db.find? a.id = none → q.db.find? a.id = none)) ?_ ?_ ⟨.same rfl rfl, fun h => h⟩).1
  · rintro q ⟨hadds, hnone⟩
    exact ⟨⟨hadds.advances.trans (advances_same rfl rfl), hadds.relay⟩, hnone⟩
  · rintro q id e hfind ⟨hadds, hnone⟩
    have hfresh : p.db.find? a.id = none → (q.updateTxpoolTx id
        { e.txMeta with doubleSpendSeen := true }).db.find? a.id = none := by
      intro habsent
      rw [find?_updateTxpoolTx hfind, if_neg]
      · exact hnone habsent
      · rintro rfl
        exact absurd (hfind.symm.trans (hnone habsent)) (by simp)
    have hopen : isOpen e = true → matchesRelay
        { e.txMeta with doubleSpendSeen := true } .broadcasted = true := fun hold => hold
    refine ⟨⟨hadds.advances.trans (update_advances hfind hopen a.receiveTime), ?_⟩, hfresh⟩
    intro habsent new hnew
    exact absurd (hnew.symm.trans (hfresh habsent)) (by simp)

theorem addCheckedTx_adds (p : Pool) (env : PoolEnv) (chain : ChainView) (a : AddArgs)
    (tvc : TxVerificationContext) : Adds a p (p.addCheckedTx env chain a tvc).2.2 := by
  obtain ⟨inputs, hchecked⟩ := checkTxInputs_eq p chain a.tx a.id a.validInputVerificationId
    { tvc with verifivationFailed := true } a.keptByBlock
  simp only [addCheckedTx]
  rw [hchecked]
  refine Adds.of_same (q := { p with inputCache := inputs }) rfl rfl ?_
  split
  · exact addValidTx_adds _ env a _ _
  · split
    · exact addFailedKeptTx_adds _ env a _ _
    · exact .same rfl rfl

theorem addTx_adds (p : Pool) (env : PoolEnv) (chain : ChainView) (a : AddArgs)
    (tvc : TxVerificationContext) : Adds a p (p.addTx env chain a tvc).2.2 :=
  p.addTx_cases env chain a tvc (motive := Adds a p) (.same rfl rfl)
    (markDoubleSpend_adds a p a.tx) (fun tvc' _ _ => addCheckedTx_adds p env chain a tvc')

end

theorem takeTx_advances (p : Pool) (env : PoolEnv) (now : Nat) (id : Hash) :
    Advances now now p (p.takeTx env now id).2 := by
  unfold takeTx
  split
  · exact .refl now p
  rename_i entry hfind
  split
  · exact .refl now p
  rename_i tx _
  have hdropped := dropTx_advances hfind tx.vin now
  have hcookie : Advances now now (p.dropTx tx.vin now id entry.txMeta)
      { p.dropTx tx.vin now id entry.txMeta with
        cookie := (p.dropTx tx.vin now id entry.txMeta).cookie + 1 } := advances_same rfl rfl
  exact hdropped.trans hcookie

theorem setRelayedTx_advances (p : Pool) (env : PoolEnv) (method : RelayMethod)
    (now embargo : Nat) (hash : Hash) :
    Advances now now p (p.setRelayedTx env method now embargo hash).2 := by
  unfold setRelayedTx getMeta
  cases hfind : p.db.find? hash with
  | none => exact .refl now p
  | some old =>
    have hopen : isOpen old = true →
        (old.txMeta.relayedAt method now embargo).matchesRelay .broadcasted = true := by
      intro hold
      exact open_upgrade hold method
    have hupdated := update_advances hfind hopen now
    simp only [map_some]
    split
    · rename_i hjust
      have hnew := (Bool.and_eq_true_iff.mp hjust).2
      have hstored := (find?_updateTxpoolTx hfind (old.txMeta.relayedAt method now embargo)
        hash).trans (if_pos rfl)
      have hlisted : Advances now now _ _ := advances_listed hstored
        (env.feeRate (old.txMeta.relayedAt method now embargo).fee
          (old.txMeta.relayedAt method now embargo).weight) now
      rw [isOpen, hnew] at hlisted
      exact hupdated.trans hlisted
    · exact hupdated

theorem setRelayed_advances (method : RelayMethod) (now : Nat)
    (hashes : List (Hash × Nat)) (p : Pool) :
    Advances now now p (setRelayed env method now hashes p).2 := by
  induction hashes generalizing p with
  | nil => exact .refl now p
  | cons x hashes ih =>
    exact (setRelayedTx_advances p env method now x.2 x.1).trans (ih _)

theorem timeOutLoop_advances (now : Nat) (remove : List (Hash × PoolEntry)) (p : Pool)
    (hstored : ∀ x ∈ remove, p.db.find? x.1 = some x.2) :
    Advances now now p (remove.foldl (fun p x => p.timeOutTx now x) p) ∧
      (remove.foldl (fun p x => p.timeOutTx now x) p).db = p.db ∧
      ∀ i info, (remove.foldl (fun p x => p.timeOutTx now x) p).addedTxsById.find? i = some info →
        i ∉ remove.map Prod.fst ∧ p.addedTxsById.find? i = some info := by
  induction remove generalizing p with
  | nil => exact ⟨.refl now p, rfl, fun i info hinfo => ⟨not_mem_nil, hinfo⟩⟩
  | cons x remove ih =>
    obtain ⟨hx, hrest⟩ := forall_mem_cons.mp hstored
    obtain ⟨removed, start, hresult⟩ := removeTxFromTransientLists_eq p now x.1
      (!x.2.txMeta.matchesRelay .broadcasted)
    have hdb : (p.timeOutTx now x).db = p.db := by
      unfold timeOutTx
      rw [hresult]
    have herased : (p.timeOutTx now x).addedTxsById = p.addedTxsById.erase x.1 := by
      unfold timeOutTx
      rw [hresult]
    have hunlisted : Advances now now p (p.removeTxFromTransientLists now x.1 (!isOpen x.2)) :=
      advances_unlisted rfl hx (fun _ _ => rfl)
    have hmarked : Advances now now (p.removeTxFromTransientLists now x.1 (!isOpen x.2))
        (p.timeOutTx now x) := advances_same rfl rfl
    obtain ⟨hadvances, hdb', hleft⟩ := ih (p.timeOutTx now x) (by rwa [hdb])
    refine ⟨(hunlisted.trans hmarked).trans hadvances, hdb'.trans hdb, ?_⟩
    intro i info hinfo
    obtain ⟨hnot, hfound⟩ := hleft i info hinfo
    rw [herased, SortedMap.find?_erase] at hfound
    split at hfound
    · cases hfound
    · rename_i hne
      refine ⟨?_, hfound⟩
      rw [map_cons, mem_cons, not_or]
      exact ⟨hne, hnot⟩

theorem dropLoop_quiet (remove : List (Hash × PoolEntry)) (p : Pool) :
    (remove.foldl (fun p x => p.dropStuckTx env x) p).lists = p.lists ∧
      ∀ i, i ∉ remove.map Prod.fst →
        (remove.foldl (fun p x => p.dropStuckTx env x) p).db.find? i = p.db.find? i := by
  induction remove generalizing p with
  | nil => exact ⟨rfl, fun _ _ => rfl⟩
  | cons x remove ih =>
    obtain ⟨hlists, hdb⟩ : (p.dropStuckTx env x).lists = p.lists ∧ ∀ i, i ≠ x.1 → (p.dropStuckTx env
      x).db.find? i = p.db.find? i := by
      unfold dropStuckTx
      split
      · exact ⟨rfl, fun _ _ => rfl⟩
      split
      · exact ⟨rfl, fun _ _ => rfl⟩
      · refine ⟨rfl, ?_⟩
        intro i hi
        exact (p.db.find?_erase x.1 i).trans (if_neg hi)
    obtain ⟨hlists', hdb'⟩ := ih (p.dropStuckTx env x)
    refine ⟨hlists'.trans hlists, ?_⟩
    intro i hi
    rw [map_cons, mem_cons, not_or] at hi
    exact (hdb' i hi.2).trans (hdb i hi.1)

theorem removeStuckTransactions_advances (p : Pool) (env : PoolEnv) (now : Nat) :
    Advances now now p (p.removeStuckTransactions env now) := by
  unfold removeStuckTransactions
  extract_lets remove unlisted dropped
  obtain ⟨hadvances, hdb, hleft⟩ := timeOutLoop_advances now remove p
    (fun x hx => (p.db.mem_entries_iff x).mp (mem_of_mem_filter hx))
  split
  · exact hadvances
  · obtain ⟨hlists, hkept⟩ := dropLoop_quiet env remove unlisted
    have hdropped : Advances now now unlisted dropped := by
      refine advances_quiet hlists ?_
      intro i info e hinfo he
      exact ⟨e, (hkept i (hleft i info hinfo).1).trans he, fun hstill => hstill⟩
    have hcookie : Advances now now dropped { dropped with cookie := dropped.cookie + 1 } :=
      advances_same rfl rfl
    exact (hadvances.trans hdropped).trans hcookie

variable {env} {vinOf : Hash → List TxIn} {weightOf : Hash → Nat} {snapshot : PoolEntry}
section
variable (h : p.Bookkept env vinOf weightOf) (chain : ChainView) {version : Nat}
  (hversion : version ≠ 0) (now embargo : Hash → Nat)
include h hversion

theorem revalidateTx_advances (m : TxMeta) :
    Advances (now id) (now id) p (p.revalidateTx env chain version now embargo id m).2 := by
  cases hfind : p.db.find? id with
  | none =>
    obtain ⟨hok, hsame⟩ := @addTx_no_inputs p
      (TakenTx.readdArgs none id m version (now id) (embargo id)) env chain .initial rfl hversion
    simp only [revalidateTx, takeTx_absent hfind, hok, hsame, Bool.not_false, if_true]
    exact .refl _ p
  | some e =>
    obtain ⟨-, ⟨t, ht, -⟩, hgone, -⟩ := h.takeTx hfind (now id)
    have htaken := takeTx_advances p env (now id) id
    have hadds := addTx_adds (p.takeTx env (now id) id).2 env chain
      (TakenTx.readdArgs (some t) id m version (now id) (embargo id)) .initial
    have hadded := htaken.trans hadds.advances
    simp only [revalidateTx, ht]
    split
    · exact hadded
    · split
      · exact hadded
      · rename_i stored hstored
        obtain ⟨new, hnew, -⟩ := Option.map_eq_some_iff.mp hstored
        have hrelay := hadds.relay hgone new hnew
        refine hadded.trans (update_advances hnew ?_ _)
        intro hopen
        rw [isOpen, TxMeta.matchesRelay, hrelay] at hopen
        exact hopen

theorem revalidateLoop_advances (txes : List (Hash × PoolEntry))
    (hsnaps : Snapshots env vinOf weightOf txes p) {a : Nat}
    (hclock : List.IsChain (· ≤ ·) (a :: txes.map (fun x => now x.1))) :
    Advances a ((txes.map (fun x => now x.1)).getLastD a) p
      (revalidateLoop env chain version now embargo txes p).2 := by
  induction txes generalizing p a with
  | nil => exact .refl a p
  | cons x txes ih =>
    obtain ⟨hsnap, hpruned, hcurrent⟩ := hsnaps.current x mem_cons_self
    obtain ⟨hle, hclock⟩ := isChain_cons_cons.mp hclock
    obtain ⟨hnext, hothers⟩ :=
      revalidateTx_bookkept hsnap hpruned hversion h chain now embargo hcurrent
    have hlater := ih hnext (hsnaps.tail hothers) hclock
    rw [map_cons, getLastD_cons]
    exact ((advances_wait hle p).trans
      (revalidateTx_advances h chain hversion now embargo x.2.txMeta)).trans hlater

theorem validate_advances {a : Nat}
    (hclock : List.IsChain (· ≤ ·) (a :: (p.db.entries.filter (fun e => !e.2.txMeta.pruned)).map
      (fun x => now x.1))) :
    Advances a (((p.db.entries.filter (fun e => !e.2.txMeta.pruned)).map
      (fun x => now x.1)).getLastD a) p (p.validate env chain version now embargo).2 := by
  have hcleared : p.clearTransientInfo.Bookkept env vinOf weightOf :=
    h.congr rfl rfl rfl rfl rfl h.indexed.cached
  have hreset : Advances a a p p.clearTransientInfo := advances_reset rfl
  have hfinal := hreset.trans (revalidateLoop_advances hcleared chain hversion now embargo _
    hcleared.snapshots hclock)
  simp only [validate]
  split
  · exact hfinal.trans (advances_same rfl rfl)
  · exact hfinal

end

theorem initPass_advances (env : PoolEnv) (now : Nat) (kept : Bool)
    (entries : List (Hash × PoolEntry)) (remove : List Hash) (p : Pool)
    (hentries : ∀ x ∈ entries, p.db.find? x.1 = some x.2) :
    Advances now now p (initPass env now kept entries remove p).2.2 ∧
      (initPass env now kept entries remove p).2.2.db = p.db := by
  induction entries generalizing remove p with
  | nil => exact ⟨.refl now p, rfl⟩
  | cons x entries ih =>
    obtain ⟨hx, hrest⟩ := forall_mem_cons.mp hentries
    rw [initPass]
    split
    · exact ih remove p hrest
    split
    · exact ih (remove ++ [x.1]) p hrest
    rename_i vin _
    simp only
    split
    · exact ⟨advances_same rfl rfl, rfl⟩
    · obtain ⟨hlater, hdb⟩ := ih remove (p.loadTx env now vin x) hrest
      have hkeyed : Advances now now p (p.insertKeyImages vin x.1 x.2.txMeta.getRelayMethod).2 :=
        advances_same rfl rfl
      have hstored : (p.insertKeyImages vin x.1 x.2.txMeta.getRelayMethod).2.db.find? x.1 =
          some x.2 := hx
      have hlisted : Advances now now _ _ := advances_listed hstored
        (env.feeRate x.2.txMeta.fee x.2.txMeta.weight) x.2.txMeta.receiveTime
      have hweighed : Advances now now _ (p.loadTx env now vin x) := hlisted.trans
        (advances_same rfl rfl)
      exact ⟨(hkeyed.trans hweighed).trans hlater, hdb⟩

theorem lists_removeTxpoolTx (remove : List Hash) (p : Pool) :
    (remove.foldl removeTxpoolTx p).lists = p.lists := by
  induction remove generalizing p with
  | nil => rfl
  | cons i remove ih => exact ih (p.removeTxpoolTx i)

theorem init_advances {now maxTxpoolWeight : Nat} {mineStemTxes : Bool}
    (hkept : (p.init env now maxTxpoolWeight mineStemTxes).2.db = p.db) :
    Advances now now p (p.init env now maxTxpoolWeight mineStemTxes).2 := by
  have hreset : Advances now now p (p.cleared maxTxpoolWeight) := advances_reset rfl
  obtain ⟨hfirst, hdb⟩ := initPass_advances env now false p.db.entries []
    (p.cleared maxTxpoolWeight) (fun x hx => (p.db.mem_entries_iff x).mp hx)
  unfold init at hkept ⊢
  generalize initPass env now false p.db.entries [] (p.cleared maxTxpoolWeight) = loaded at *
  obtain ⟨ok, remove, q⟩ := loaded
  cases ok with
  | false => exact hreset.trans hfirst
  | true =>
    have hq : q.db = p.db := hdb
    obtain ⟨hsecond, hdb'⟩ := initPass_advances env now true p.db.entries remove q
      (fun x hx => hq ▸ (p.db.mem_entries_iff x).mp hx)
    simp only at hkept ⊢
    generalize initPass env now true p.db.entries remove q = reloaded at *
    obtain ⟨ok', remove', r⟩ := reloaded
    cases ok' with
    | false => exact (hreset.trans hfirst).trans hsecond
    | true =>
      refine ((hreset.trans hfirst).trans hsecond).trans (advances_same ?_ ?_)
      · exact lists_removeTxpoolTx remove' r
      · exact hkept.trans (hdb'.trans hq).symm

end Pool
end Jero.TxPool
