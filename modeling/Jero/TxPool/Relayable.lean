import Jero.TxPool.JournalRuns

namespace Jero.TxPool
open Jero.Machine Jero.Lists Jero.Tx List

def minRelayTime : Int := 60 * 5

def maxRelayTime : Int := 60 * 60 * 4

def maxRelayableCheck : Nat := 120

def toTimeT (n : Nat) : Int := if n < 2 ^ 63 then n else n - 2 ^ 64

def getRelayDelay (lastRelay received : Nat) : Nat :=
  let d := (toTimeT lastRelay - toTimeT received + minRelayTime).tdiv minRelayTime * minRelayTime
  ((if d > maxRelayTime then maxRelayTime else d) % 2 ^ 64).toNat

structure RelayScan where
  nextCheck : Nat
  txs : List (Hash × Blob × RelayMethod)
  changeTimestamps : List (Hash × TxMeta)
deriving DecidableEq, Repr

open RelayScan

def TxMeta.relayableAge (m : TxMeta) : Nat :=
  (if m.getRelayMethod = .block then mempoolTxFromAltBlockLivetime else mempoolTxLivetime) / 2

def TxMeta.relayedLately (now : Nat) (m : TxMeta) : Bool :=
  m.relayed &&
    decide (wsub now m.lastRelayedTime ≤ getRelayDelay m.lastRelayedTime m.receiveTime)

def RelayScan.relay (now : Nat) (st : RelayScan) (e : Hash × PoolEntry) : RelayScan :=
  if wsub now e.2.txMeta.receiveTime ≤ e.2.txMeta.relayableAge then
    { st with txs := st.txs ++ [(e.1, e.2.blob, e.2.txMeta.getRelayMethod)] }
  else st

def RelayScan.step (now : Nat) (st : RelayScan) (e : Hash × PoolEntry) : RelayScan :=
  if e.2.txMeta.pruned || e.2.txMeta.fee == 0 || e.2.txMeta.doNotRelay then st
  else match e.2.txMeta.getRelayMethod with
    | .stem | .forward =>
      if e.2.txMeta.lastRelayedTime > now then
        { st with nextCheck := min st.nextCheck e.2.txMeta.lastRelayedTime }
      else
        { st.relay now e with
          changeTimestamps := st.changeTimestamps ++ [(e.1, e.2.txMeta)] }
    | .none => st
    | .loc | .fluff | .block =>
      if e.2.txMeta.relayedLately now then st else st.relay now e

def TxMeta.delayed (now : Nat) (m : TxMeta) : TxMeta :=
  { m with lastRelayedTime := wrap (now + getRelayDelay m.lastRelayedTime m.receiveTime) }

namespace Pool

def getRelayableTransactions (pool : Pool) (now nextCheck : Nat) : Option RelayScan × Pool :=
  if 2 ^ 63 - 1 < now ∨ now < nextCheck then (none, pool)
  else
    let scan := (pool.db.entries.filter (fun e => e.2.txMeta.matchesRelay .relayable)).foldl
      (step now) ⟨now + maxRelayableCheck, [], []⟩
    (some scan, scan.changeTimestamps.foldl (fun p x => p.updateTxpoolTx x.1 (x.2.delayed now)) pool)

end Pool

structure TxMeta.SameKind (m m' : TxMeta) : Prop where
  weight : m'.weight = m.weight
  pruned : m'.pruned = m.pruned
  kept : m'.keptByBlock = m.keptByBlock
  relay : m'.getRelayMethod = m.getRelayMethod

namespace Pool
variable {p : Pool} {env : PoolEnv} {vinOf : Hash → List TxIn} {weightOf : Hash → Nat}
  {id : Hash} {e : PoolEntry} {now : Nat}

structure Refreshed (env : PoolEnv) (vinOf : Hash → List TxIn) (weightOf : Hash → Nat) (now : Nat)
    (p q : Pool) : Prop where
  bookkept : q.Bookkept env vinOf weightOf
  advances : Advances now now p q

theorem refreshed_update (h : p.Bookkept env vinOf weightOf) (hfind : p.db.find? id = some e)
    {m : TxMeta} (hkind : e.txMeta.SameKind m) (now : Nat) :
    Refreshed env vinOf weightOf now p (p.updateTxpoolTx id m) := by
  obtain ⟨hweighs, hparses, hspends, hrelay⟩ := h.indexed.entries id e hfind
  refine ⟨h.updateTxpoolTx hfind ⟨hkind.weight.trans hweighs, ?_, hspends, ?_⟩ ?_,
    update_advances hfind ?_ now⟩
  · exact ⟨hparses.parsesPrefix, hparses.parsesBase,
      fun hpruned => hparses.parsesFull (hkind.pruned.symm.trans hpruned)⟩
  · rw [hkind.kept, hkind.relay]
    exact hrelay
  · intro hkept
    exact hkind.kept.symm.trans hkept
  · intro hopen
    rw [TxMeta.matchesRelay, hkind.relay]
    exact hopen

theorem delayLoop_refreshed (now : Nat) (changes : List (Hash × TxMeta))
    (hnodup : (changes.map Prod.fst).Nodup) (h : p.Bookkept env vinOf weightOf)
    (hstored : ∀ x ∈ changes, ∃ e, p.db.find? x.1 = some e ∧ e.txMeta = x.2) :
    Refreshed env vinOf weightOf now p
      (changes.foldl (fun p x => p.updateTxpoolTx x.1 (x.2.delayed now)) p) := by
  induction changes generalizing p with
  | nil => exact ⟨h, .refl now p⟩
  | cons x changes ih =>
    obtain ⟨⟨e, he, hmeta⟩, hrest⟩ := forall_mem_cons.mp hstored
    obtain ⟨hnot, htail⟩ := nodup_cons.mp hnodup
    have hkind : e.txMeta.SameKind (x.2.delayed now) := by
      rw [hmeta]
      exact ⟨rfl, rfl, rfl, rfl⟩
    have hnext := refreshed_update h he hkind now
    have hlater := ih htail hnext.bookkept (by
      intro y hy
      obtain ⟨e', he', hmeta'⟩ := hrest y hy
      refine ⟨e', ?_, hmeta'⟩
      rw [find?_updateTxpoolTx he, if_neg]
      · exact he'
      · intro heq
        exact hnot (heq ▸ mem_map_of_mem hy))
    exact ⟨hlater.bookkept, hnext.advances.trans hlater.advances⟩

theorem step_changes (now : Nat) (st : RelayScan) (e : Hash × PoolEntry) :
    (st.step now e).changeTimestamps = st.changeTimestamps ∨
      (st.step now e).changeTimestamps = st.changeTimestamps ++ [(e.1, e.2.txMeta)] := by
  have hrelay : (st.relay now e).changeTimestamps = st.changeTimestamps := by
    unfold relay
    split
    · rfl
    · rfl
  unfold step
  generalize st.relay now e = relayed at hrelay ⊢
  split
  · exact .inl rfl
  · split
    · split
      · exact .inl rfl
      · exact .inr rfl
    · split
      · exact .inl rfl
      · exact .inr rfl
    · exact .inl rfl
    all_goals
      split
      · exact .inl rfl
      · exact .inl hrelay

theorem relayScan_changes (now : Nat) (entries : List (Hash × PoolEntry)) (st : RelayScan) :
    ∃ found : List (Hash × PoolEntry), found.Sublist entries ∧
      (entries.foldl (step now) st).changeTimestamps =
        st.changeTimestamps ++ found.map (fun e => (e.1, e.2.txMeta)) := by
  induction entries generalizing st with
  | nil => exact ⟨[], .refl _, by simp⟩
  | cons e entries ih =>
    obtain ⟨found, hsub, heq⟩ := ih (st.step now e)
    rw [foldl_cons, heq]
    rcases step_changes now st e with hsame | hadded
    · exact ⟨found, hsub.cons e, by rw [hsame]⟩
    · refine ⟨e :: found, hsub.cons_cons e, ?_⟩
      rw [hadded, append_assoc]
      rfl

theorem getRelayableTransactions_refreshed (h : p.Bookkept env vinOf weightOf) (now nextCheck : Nat) :
    Refreshed env vinOf weightOf now p (p.getRelayableTransactions now nextCheck).2 := by
  unfold getRelayableTransactions
  split
  · exact ⟨h, .refl now p⟩
  · extract_lets scan
    obtain ⟨found, hsub, hchanges⟩ := relayScan_changes now
      (p.db.entries.filter (fun e => e.2.txMeta.matchesRelay .relayable))
      ⟨now + maxRelayableCheck, [], []⟩
    have hentries := hsub.trans filter_sublist
    have hscan : scan.changeTimestamps = found.map (fun e => (e.1, e.2.txMeta)) := hchanges
    rw [hscan]
    refine delayLoop_refreshed now _ ?_ h ?_
    · rw [map_map]
      exact p.db.nodup_keys.sublist (hentries.map Prod.fst)
    · intro x hx
      obtain ⟨e, he, rfl⟩ := mem_map.mp hx
      exact ⟨e.2, (p.db.mem_entries_iff e).mp (hentries.subset he), rfl⟩

theorem ready_kind {chain : ChainView} {m : TxMeta} {blob : Blob} {r : Readiness}
    (h : p.isTransactionReadyToGo env chain m id blob = some r) :
    m.SameKind r.txMeta ∧ ∃ inputs, r.pool = { p with inputCache := inputs } := by
  simp only [isTransactionReadyToGo] at h
  split at h
  · obtain rfl := Option.some.inj h
    exact ⟨⟨rfl, rfl, rfl, rfl⟩, p.inputCache, rfl⟩
  · obtain ⟨⟨result, verificationId, tx, checked⟩, hchecked, hr⟩ := Option.map_eq_some_iff.mp h
    have hpool : ∃ inputs, checked = { p with inputCache := inputs } := by
      split at hchecked
      · cases hchecked
        exact ⟨p.inputCache, rfl⟩
      · obtain ⟨parsed, -, hparsed⟩ := Option.map_eq_some_iff.mp hchecked
        obtain ⟨inputs, hinputs⟩ := checkTxInputs_eq p chain parsed id m.validInputVerificationId
          .initial false
        cases hparsed
        exact ⟨inputs, hinputs⟩
    split at hr
    · subst hr
      exact ⟨⟨rfl, rfl, rfl, rfl⟩, hpool⟩
    · subst hr
      exact ⟨⟨rfl, rfl, rfl, rfl⟩, hpool⟩

theorem Refreshed.trans {q r : Pool} (hpq : Refreshed env vinOf weightOf now p q)
    (hqr : Refreshed env vinOf weightOf now q r) : Refreshed env vinOf weightOf now p r :=
  ⟨hqr.bookkept, hpq.advances.trans hqr.advances⟩

theorem refreshed_inputs (h : p.Bookkept env vinOf weightOf)
    (inputs : SortedMap Hash InputCheck) (now : Nat) :
    Refreshed env vinOf weightOf now p { p with inputCache := inputs } :=
  ⟨h.congr rfl rfl rfl rfl rfl h.indexed.cached, advances_same rfl rfl⟩

section
variable (chain : ChainView) (params : FillParams) (st : FillState)
  (h : st.pool.Bookkept env vinOf weightOf) (now : Nat)
include h

theorem fillStep_refreshed (id : Hash) :
    Refreshed env vinOf weightOf now st.pool (fillStep env chain params st id).2.pool := by
  refine fillStep_cases env chain params st id
    (motive := fun next => Refreshed env vinOf weightOf now st.pool next.pool) ⟨h, .refl now _⟩ ?_
  rintro entry coinbase r hfind - hready pool rfl
  obtain ⟨hkind, inputs, hpool⟩ := ready_kind hready
  have hchecked : Refreshed env vinOf weightOf now st.pool r.pool :=
    hpool ▸ refreshed_inputs h inputs now
  have hupdated : Refreshed env vinOf weightOf now st.pool
      (if r.txMeta ≠ entry.txMeta then r.pool.updateTxpoolTx id r.txMeta else r.pool) := by
    split
    · refine hchecked.trans (refreshed_update hchecked.bookkept (e := entry) ?_ hkind now)
      rw [hpool]
      exact hfind
    · exact hchecked
  exact ⟨hupdated, fun _ _ => hupdated⟩

theorem fillLoop_refreshed (ids : List Hash) :
    Refreshed env vinOf weightOf now st.pool (fillLoop env chain params ids st).pool :=
  fillLoop_induct (motive := fun _ next => Refreshed env vinOf weightOf now st.pool next.pool)
    (fun _ _ h => h)
    (fun id _ next h => h.trans (fillStep_refreshed chain params next h.bookkept now id)) ids st
    ⟨h, .refl now _⟩

end

theorem backlogLoop_refreshed (chain : ChainView) (maxBacklogWeight : Nat)
    (entries : List BacklogEntry) (st : BacklogState) (h : st.pool.Bookkept env vinOf weightOf)
    (now : Nat) :
    Refreshed env vinOf weightOf now st.pool
      (backlogLoop env chain maxBacklogWeight entries st).pool := by
  refine backlogLoop_induct
    (motive := fun _ next => Refreshed env vinOf weightOf now st.pool next.pool)
    (fun _ _ h => h) (fun _ _ _ h => h) ?_ entries st ⟨h, .refl now _⟩
  intro e entries next entry r h _ hready
  obtain ⟨-, inputs, hpool⟩ := ready_kind hready
  have hchecked := h.trans (hpool ▸ refreshed_inputs h.bookkept inputs now)
  exact ⟨hchecked, fun _ _ => hchecked⟩

end Pool
end Jero.TxPool
