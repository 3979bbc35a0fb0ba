import Jero.TxPool.BookkeptEntries

namespace Jero.TxPool
open Jero.Machine Jero.Lists Jero.Tx Option SortedMap TxMeta
variable {tvc : TxVerificationContext} {m : TxMeta}

structure AddArgs.Promised (env : PoolEnv) (vinOf : Hash → List TxIn) (weightOf : Hash → Nat)
    (a : AddArgs) : Prop where
  vin : a.tx.vin = vinOf a.id
  weight : a.txWeight = weightOf a.id
  parses : BlobParses env (vinOf a.id) a.tx.pruned a.blob
  verified : a.version = a.nicVerifiedHfVersion →
    ∃ tvc, (verNonInputConsensus env.checks a.tx tvc a.version).1 = true

theorem PassedNonInput.spends {env : PoolEnv} {vinOf : Hash → List TxIn} {weightOf : Hash → Nat}
    {a : AddArgs} (h : PassedNonInput env a tvc) (ha : a.Promised env vinOf weightOf) :
    Spends (vinOf a.id) := by
  have hpasses : PassesSemantic env.checks a.tx a.version := by
    rcases h with hversion | hnic
    · obtain ⟨_, hnic⟩ := ha.verified hversion
      exact verNonInputConsensus_passes hnic
    · exact verNonInputConsensus_passes hnic
  rw [← ha.vin]
  exact ⟨(checkInputsTypesSupported_iff a.tx).mp hpasses.inputTypes,
    (checkTxInputsKeyimagesDiff_nodup hpasses.keyimagesDiff).1⟩

theorem TxMeta.relay_setRelayMethod (m : TxMeta) (method : RelayMethod) :
    (m.setRelayMethod method).keptByBlock =
      ((m.setRelayMethod method).getRelayMethod == .block) := by
  rw [getRelayMethod_setRelayMethod]
  rfl

theorem TxMeta.relay_upgradeRelayMethod (h : m.keptByBlock = (m.getRelayMethod == .block))
    (method : RelayMethod) :
    (m.upgradeRelayMethod method).2.keptByBlock =
      ((m.upgradeRelayMethod method).2.getRelayMethod == .block) := by
  unfold upgradeRelayMethod
  split
  · exact relay_setRelayMethod m method
  · exact h

theorem TxMeta.kept_upgrade_none (m : TxMeta) (method : RelayMethod) :
    ((m.setRelayMethod .none).upgradeRelayMethod method).2.keptByBlock = (method == .block) := by
  cases method <;> rfl

theorem TxMeta.kept_upgradeRelayMethod (h : m.keptByBlock = (m.getRelayMethod == .block))
    (method : RelayMethod) (hkept : (m.upgradeRelayMethod method).2.keptByBlock = false) :
    m.keptByBlock = false := by
  unfold upgradeRelayMethod at hkept
  split at hkept
  · rename_i hrank
    rw [h]
    cases hm : m.getRelayMethod <;> try rfl
    rw [hm] at hrank
    cases method <;> exact absurd hrank (by decide)
  · exact hkept

namespace Pool
variable {p q r : Pool} {env : PoolEnv} {vinOf : Hash → List TxIn} {weightOf : Hash → Nat}
  {id : Hash} {e : PoolEntry}

def CameFrom (a : AddArgs) (p q : Pool) : Prop :=
  ∀ j e', q.db.find? j = some e' → (∃ e, p.db.find? j = some e ∧ Resembles e e') ∨
    (j = a.id ∧ e'.blob = a.blob ∧ (p.db.find? j = none → e'.txMeta.keptByBlock = a.keptByBlock))

def Admitted (env : PoolEnv) (vinOf : Hash → List TxIn) (weightOf : Hash → Nat) (a : AddArgs)
    (p q : Pool) : Prop :=
  q.Bookkept env vinOf weightOf ∧ CameFrom a p q

namespace CameFrom
variable {a : AddArgs}

theorem of_shrunk (h : Shrunk p q) : CameFrom a p q :=
  fun j e hj => .inl ⟨e, h j e hj, .refl e⟩

theorem shrunk (h : CameFrom a p q) (hqr : Shrunk q r) : CameFrom a p r :=
  fun j e hj => h j e (hqr j e hj)

theorem of_insert (hdb : q.db = p.db.insert a.id e) (hblob : e.blob = a.blob)
    (hkept : p.db.find? a.id = none → e.txMeta.keptByBlock = a.keptByBlock) : CameFrom a p q := by
  intro j e' hj
  rw [hdb, find?_insert] at hj
  split at hj
  · rename_i heq
    subst heq
    obtain rfl := some.inj hj
    exact .inr ⟨rfl, hblob, hkept⟩
  · exact .inl ⟨e', hj, .refl e'⟩

end CameFrom

theorem checkTxInputs_eq (p : Pool) (chain : ChainView) (tx : Transaction)
    (txid verificationId : Hash) (tvc : TxVerificationContext) (keptByBlock : Bool) :
    ∃ inputs, (p.checkTxInputs chain tx txid verificationId tvc keptByBlock).2.2 =
      { p with inputCache := inputs } := by
  simp only [checkTxInputs]
  split
  · exact ⟨p.inputCache, rfl⟩
  · split
    · exact ⟨p.inputCache, rfl⟩
    · exact ⟨_, rfl⟩

theorem Bookkept.cacheParsedTx (h : p.Bookkept env vinOf weightOf) {tx : Transaction}
    (hvin : tx.vin = vinOf id) (keptByBlock : Bool) :
    ∃ parsed, p.cacheParsedTx keptByBlock id tx = { p with parsedTxCache := parsed } ∧
      Pool.Bookkept env vinOf weightOf { p with parsedTxCache := parsed } := by
  unfold Pool.cacheParsedTx
  split
  · refine ⟨_, rfl, h.congr rfl rfl rfl rfl rfl ?_⟩
    intro j tx' hj
    rw [find?_insert] at hj
    split at hj
    · rename_i heq
      obtain rfl := some.inj hj
      rw [heq]
      exact hvin
    · exact h.indexed.cached j tx' hj
  · exact ⟨_, rfl, h⟩

theorem addTxpoolTx_of_absent (hfind : p.db.find? id = none) (blob : Blob) (m : TxMeta) :
    p.addTxpoolTx id blob m = some { p with db := p.db.insert id ⟨m, blob⟩ } := by
  unfold addTxpoolTx
  rw [hfind]

theorem addTxpoolTx_removed (p : Pool) (id : Hash) (blob : Blob) (m : TxMeta) :
    (p.removeTxpoolTx id).addTxpoolTx id blob m =
      some { p with db := p.db.insert id ⟨m, blob⟩ } := by
  rw [addTxpoolTx_of_absent ((p.db.find?_erase id id).trans (if_pos rfl))]
  simp only [removeTxpoolTx, insert_erase]

theorem finishAdd_bookkept {a : AddArgs} (txRelay : RelayMethod) (metaFee : Nat)
    (h : Pool.Bookkept env vinOf weightOf
      { p with txpoolWeight := if tvc.addedToPool then wrap (p.txpoolWeight + a.txWeight) else
      p.txpoolWeight }) :
    (p.finishAdd env a txRelay metaFee tvc).2.2.Bookkept env vinOf weightOf ∧
      Shrunk p (p.finishAdd env a txRelay metaFee tvc).2.2 := by
  have hweighed : Pool.Bookkept env vinOf weightOf { p with
      txpoolWeight :=
        if tvc.addedToPool then wrap (p.txpoolWeight + a.txWeight) else p.txpoolWeight
      cookie := p.cookie + 1 } := h.congr rfl rfl rfl rfl rfl h.indexed.cached
  exact hweighed.prune a.receiveTime p.txpoolMaxWeight

variable {a : AddArgs}

def listKeyed (p : Pool) (a : AddArgs) (m : TxMeta) (fee : Rat) : Pool :=
  { p with db := p.db.insert a.id ⟨m, a.blob⟩ }.addTxToTransientLists a.receiveTime a.id fee
    a.receiveTime (!m.matchesRelay .broadcasted)

theorem mem_ids_listKeyed (p : Pool) (a : AddArgs) (m : TxMeta) (fee : Rat) (j : Hash) :
    j ∈ (p.listKeyed a m fee).txsByFeeAndReceiveTime.ids ↔
      j ∈ p.txsByFeeAndReceiveTime.ids ∨ j = a.id :=
  mem_ids_addTxToTransientLists _ _ _ _ _ _ j

section
variable (h : p.Bookkept env vinOf weightOf)
include h

theorem finishAdd_fresh (hfind : p.db.find? a.id = none)
    (hnew : EntryOk env (vinOf a.id) (weightOf a.id) ⟨m, a.blob⟩)
    (hweight : m.weight = a.txWeight) {relay : RelayMethod}
    (hkept : m.keptByBlock = (relay == .block)) (hrelay : relay = a.txRelay)
    (hfree : relay ≠ .block → ∀ k ∈ keyImages (vinOf a.id), holders p.spentKeyImages k = ∅)
    (hadded : tvc.addedToPool = true) (fee : Rat) (metaFee : Nat) :
    Admitted env vinOf weightOf a p (((p.insertKeyImages (vinOf a.id) a.id relay).2.listKeyed a m
      fee).finishAdd env a relay metaFee tvc).2.2 := by
  have hlisted : Pool.Bookkept env vinOf weightOf
      { (p.insertKeyImages (vinOf a.id) a.id relay).2.listKeyed a m fee with
        txpoolWeight :=
          if tvc.addedToPool then wrap (p.txpoolWeight + a.txWeight) else p.txpoolWeight } := by
    refine h.stores rfl (mem_ids_listKeyed _ a m fee) rfl hfind hnew hkept hfree rfl rfl ?_
    simp only [hadded, if_true, hweight]
  obtain ⟨hfinal, hshrunk⟩ := finishAdd_bookkept relay metaFee hlisted
  refine ⟨hfinal, CameFrom.shrunk (.of_insert rfl rfl fun _ => ?_) hshrunk⟩
  rw [AddArgs.keptByBlock, ← hrelay]
  exact hkept

theorem finishAdd_replaced {old : PoolEntry} (hfind : p.db.find? a.id = some old)
    (hnew : EntryOk env (vinOf a.id) (weightOf a.id) ⟨m, a.blob⟩)
    (hkept : m.keptByBlock = false → old.txMeta.keptByBlock = false) (relay : RelayMethod)
    (hadded : tvc.addedToPool = false) (fee : Rat) (metaFee : Nat) :
    Admitted env vinOf weightOf a p (((p.insertKeyImages (vinOf a.id) a.id relay).2.listKeyed a m
      fee).finishAdd env a relay metaFee tvc).2.2 := by
  have hkeyed := h.reinserts ⟨old, hfind⟩ relay
  have hlisted : Pool.Bookkept env vinOf weightOf
      { (p.insertKeyImages (vinOf a.id) a.id relay).2.listKeyed a m fee with
        txpoolWeight :=
          if tvc.addedToPool then wrap (p.txpoolWeight + a.txWeight) else p.txpoolWeight } := by
    refine hkeyed.replaces rfl (mem_ids_listKeyed _ a m fee) rfl hfind hnew hkept rfl rfl ?_
    simp only [hadded]
    rfl
  obtain ⟨hfinal, hshrunk⟩ := finishAdd_bookkept relay metaFee hlisted
  refine ⟨hfinal, CameFrom.shrunk (.of_insert rfl rfl fun hnone => ?_) hshrunk⟩
  rw [hfind] at hnone
  cases hnone

theorem addFailedKeptTx_bookkept (ha : a.Promised env vinOf weightOf)
    (hspends : Spends (vinOf a.id)) (hkept : a.keptByBlock = true) (verificationId : Hash)
    (tvc : TxVerificationContext) :
    Admitted env vinOf weightOf a p (p.addFailedKeptTx env a verificationId tvc).2.2 := by
  have hrelay : a.txRelay = .block := eq_of_beq hkept
  obtain ⟨parsed, hcache, hcached⟩ := h.cacheParsedTx ha.vin a.keptByBlock
  unfold addFailedKeptTx
  rw [hcache, ha.vin]
  cases hfind : p.db.find? a.id with
  | some old =>
    have hkeyed := hcached.reinserts ⟨old, hfind⟩ a.txRelay
    simp only
    split
    · exact ⟨hkeyed, .of_shrunk (.refl p)⟩
    · split
      · exact ⟨hkeyed, .of_shrunk (.refl p)⟩
      · rename_i added hadded
        unfold addTxpoolTx at hadded
        split at hadded
        · cases hadded
        · rename_i hnone
          exact absurd (hfind.symm.trans hnone) (by simp)
  | none =>
    have hfree : a.txRelay ≠ .block → ∀ k ∈ keyImages (vinOf a.id),
        holders p.spentKeyImages k = ∅ := fun hne => absurd hrelay hne
    have hok : ({ p with parsedTxCache := parsed }.insertKeyImages (vinOf a.id) a.id
        a.txRelay).1 = true := (hcached.indexed.insertKeyImages_fresh _ hfind hspends hfree).1
    extract_lets fee base txMeta
    have hentry : EntryOk env (vinOf a.id) (weightOf a.id) ⟨txMeta, a.blob⟩ :=
      ⟨ha.weight, ha.parses, hspends, relay_setRelayMethod _ a.txRelay⟩
    simp only [hok, Bool.not_true, Bool.false_eq_true, if_false]
    rw [addTxpoolTx_of_absent (by exact hfind)]
    exact finishAdd_fresh hcached hfind hentry rfl rfl rfl hfree rfl _ _

theorem addValidTx_bookkept (ha : a.Promised env vinOf weightOf) (hspends : Spends (vinOf a.id))
    (hspent : a.keptByBlock = false → p.haveTxKeyimgesAsSpent a.tx a.id = false)
    (verificationId : Hash) (result : InputCheck) :
    Admitted env vinOf weightOf a p (p.addValidTx env a verificationId result).2.2 := by
  obtain ⟨parsed, hcache, hcached⟩ := h.cacheParsedTx ha.vin a.keptByBlock
  unfold addValidTx
  rw [hcache, ha.vin]
  extract_lets fee cached existing base found txRelay
  cases hfind : p.db.find? a.id with
  | none =>
    have hexisting : existing = none := by
      simp only [existing, cached, getMeta, hfind, map_none]
    have hrelay : txRelay = a.txRelay := by
      simp only [txRelay, hexisting]
      rfl
    have hfound : found = { base with validInputVerificationId := verificationId }.setRelayMethod
        .none := by
      simp only [found, hexisting, getD_none]
    have hfree : txRelay ≠ .block → ∀ k ∈ keyImages (vinOf a.id),
        holders p.spentKeyImages k = ∅ := by
      intro hne k hk
      rw [hrelay] at hne
      exact h.indexed.free_of_not_spent hfind ha.vin (hspent (beq_eq_false_iff_ne.mpr hne)) hk
    have hok : ({ p with parsedTxCache := parsed }.insertKeyImages (vinOf a.id) a.id
        txRelay).1 = true := (hcached.indexed.insertKeyImages_fresh _ hfind hspends hfree).1
    have hkept := kept_upgrade_none
      { base with validInputVerificationId := verificationId } txRelay
    have hcoherent := relay_upgradeRelayMethod (relay_setRelayMethod
      { base with validInputVerificationId := verificationId } .none) txRelay
    rw [← hfound] at hkept hcoherent
    generalize found.upgradeRelayMethod txRelay = upgrade at hkept hcoherent
    clear_value txRelay
    simp only [hexisting, isNone_none, Bool.or_true, if_true, cached, hok, Bool.not_true,
      Bool.false_eq_true, if_false]
    rw [addTxpoolTx_removed]
    refine finishAdd_fresh hcached hfind ?_ ?_ ?_ hrelay hfree ?_ _ _
    · exact ⟨ha.weight, ha.parses, hspends, hcoherent⟩
    · rfl
    · exact hkept
    · exact congrArg isNone hexisting
  | some old =>
    have hexisting : existing = some old.txMeta := by
      simp only [existing, cached, getMeta, hfind, map_some]
    have hfound : found = old.txMeta := by
      simp only [found, hexisting, getD_some]
    have hold := (h.indexed.entries a.id old hfind).relay
    have hkept := kept_upgradeRelayMethod hold txRelay
    have hcoherent := relay_upgradeRelayMethod hold txRelay
    rw [← hfound] at hkept hcoherent
    generalize found.upgradeRelayMethod txRelay = upgrade at hkept hcoherent
    rw [hfound] at hkept
    clear_value txRelay
    simp only [hexisting, isNone_some, Bool.or_false, cached]
    split
    · split
      · exact ⟨hcached.reinserts ⟨old, hfind⟩ txRelay, .of_shrunk (.refl p)⟩
      · rw [addTxpoolTx_removed]
        refine finishAdd_replaced hcached hfind ?_ ?_ txRelay ?_ _ _
        · exact ⟨ha.weight, ha.parses, hspends, hcoherent⟩
        · exact hkept
        · exact congrArg isNone hexisting
    · obtain ⟨hfinal, hshrunk⟩ := @finishAdd_bookkept
        { result.tvc with addedToPool := existing.isNone } { p with parsedTxCache := parsed } env
        vinOf weightOf a txRelay upgrade.2.fee (by rw [hexisting]; exact hcached)
      exact ⟨hfinal, .of_shrunk hshrunk⟩

end

theorem find?_updateTxpoolTx (hfind : p.db.find? id = some e) (m : TxMeta) (j : Hash) :
    (p.updateTxpoolTx id m).db.find? j = if j = id then some ⟨m, e.blob⟩ else p.db.find? j := by
  simp only [updateTxpoolTx, hfind]
  exact p.db.find?_insert id j _

def Marked (p q : Pool) : Prop :=
  ∀ j e', q.db.find? j = some e' → ∃ e, p.db.find? j = some e ∧ Resembles e e'

theorem Marked.trans (hpq : Marked p q) (hqr : Marked q r) : Marked p r := by
  intro j e' hj
  obtain ⟨mid, hmid, hnew⟩ := hqr j e' hj
  obtain ⟨old, hold, hsame⟩ := hpq j mid hmid
  exact ⟨old, hold, hsame.trans hnew⟩

section
variable (h : p.Bookkept env vinOf weightOf)
include h

theorem markTx_bookkept (hfind : p.db.find? id = some e) :
    (p.updateTxpoolTx id { e.txMeta with doubleSpendSeen := true }).Bookkept env vinOf weightOf ∧
      Marked p (p.updateTxpoolTx id { e.txMeta with doubleSpendSeen := true }) := by
  obtain ⟨hweighs, hparses, hspends, hrelay⟩ := h.indexed.entries id e hfind
  refine ⟨h.updateTxpoolTx hfind ⟨hweighs, hparses, hspends, hrelay⟩ (fun hkept => hkept), ?_⟩
  intro j e' hj
  rw [find?_updateTxpoolTx hfind] at hj
  split at hj
  · rename_i heq
    obtain rfl := some.inj hj
    exact ⟨e, heq ▸ hfind, rfl, true, rfl⟩
  · exact ⟨e', hj, .refl e'⟩

theorem markDoubleSpend_bookkept (tx : Transaction) :
    (p.markDoubleSpend tx).Bookkept env vinOf weightOf ∧ Marked p (p.markDoubleSpend tx) := by
  refine p.markDoubleSpend_induct tx
    (motive := fun q => q.Bookkept env vinOf weightOf ∧ Marked p q) ?_ ?_
    ⟨h, fun j e hj => ⟨e, hj, .refl e⟩⟩
  · rintro q ⟨hq, hfrom⟩
    exact ⟨hq.congr rfl rfl rfl rfl rfl hq.indexed.cached, hfrom⟩
  · rintro q id e hfind ⟨hq, hfrom⟩
    obtain ⟨hmarked, hnext⟩ := markTx_bookkept hq hfind
    exact ⟨hmarked, hfrom.trans hnext⟩

theorem addTx_bookkept (ha : a.Promised env vinOf weightOf) (chain : ChainView)
    (tvc : TxVerificationContext) :
    Admitted env vinOf weightOf a p (p.addTx env chain a tvc).2.2 := by
  refine p.addTx_cases env chain a tvc (motive := Admitted env vinOf weightOf a p)
    ⟨h, .of_shrunk (.refl p)⟩ ?_ ?_
  · obtain ⟨hmarked, hfrom⟩ := markDoubleSpend_bookkept h a.tx
    exact ⟨hmarked, fun j e hj => .inl (hfrom j e hj)⟩
  · intro tvc' hpassed hunspent
    obtain ⟨inputs, hchecked⟩ := checkTxInputs_eq p chain a.tx a.id a.validInputVerificationId
      { tvc' with verifivationFailed := true } a.keptByBlock
    have hinputs : Pool.Bookkept env vinOf weightOf { p with inputCache := inputs } :=
      h.congr rfl rfl rfl rfl rfl h.indexed.cached
    simp only [addCheckedTx]
    rw [hchecked]
    split
    · exact addValidTx_bookkept hinputs ha (hpassed.spends ha) hunspent _ _
    · split
      · rename_i hkept
        exact addFailedKeptTx_bookkept hinputs ha (hpassed.spends ha) hkept _ _
      · exact ⟨hinputs, .of_shrunk (.refl p)⟩

end

theorem addTx_no_inputs (env : PoolEnv) (chain : ChainView) (tvc : TxVerificationContext)
    (hvin : a.tx.vin = []) (hversion : a.version ≠ a.nicVerifiedHfVersion) :
    (p.addTx env chain a tvc).1 = false ∧ (p.addTx env chain a tvc).2.2 = p := by
  have hspent : p.haveTxKeyimgesAsSpent a.tx a.id = false := by
    rw [haveTxKeyimgesAsSpent, hvin]
    rfl
  have hnic : (verNonInputConsensus env.checks a.tx tvc a.version).1 = false := by
    rw [Bool.eq_false_iff]
    intro hok
    exact (verNonInputConsensus_passes hok).nonempty hvin
  unfold addTx
  split
  · exact ⟨rfl, rfl⟩
  split
  · exact ⟨rfl, rfl⟩
  split
  · exact ⟨rfl, rfl⟩
  split
  · exact ⟨rfl, rfl⟩
  simp only [hspent, Bool.and_false, Bool.false_eq_true, if_false, hnic, and_self]

end Pool
end Jero.TxPool
