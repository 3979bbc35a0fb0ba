import Jero.TxPool.Relayable

namespace Jero.TxPool
open Jero.Machine Jero.Tx Jero.Sync Jero.Chain List Pool Node
variable {a startTime : Nat}

def PoolCall.readings (p : Pool) : PoolCall → List Nat
  | .addTx c => [c.args.receiveTime]
  | .takeTx now _ => [now]
  | .prune now _ => [now]
  | .removeStuckTransactions now => [now]
  | .setRelayed _ now _ => [now]
  | .validate _ _ now _ =>
    (p.db.entries.filter (fun e => !e.2.txMeta.pruned)).map (fun x => now x.1)
  | .onBlockchainChange => []
  | .init now _ _ => [now]
  | .restart now _ _ => [now]

inductive PoolEvent where
  | call (c : PoolCall)
  | fillBlockTemplate (chain : ChainView) (params : FillParams)
  | getBlockTemplateBacklog (chain : ChainView) (includeSensitive : Bool)
  | getRelayableTransactions (now nextCheck : Nat)

namespace PoolEvent

def readings (p : Pool) : PoolEvent → List Nat
  | .call c => c.readings p
  | .fillBlockTemplate _ _ => []
  | .getBlockTemplateBacklog _ _ => []
  | .getRelayableTransactions now _ => [now]

def Promised (env : PoolEnv) (vinOf : Hash → List TxIn) (weightOf : Hash → Nat) : PoolEvent → Prop
  | .call c => c.Promised env vinOf weightOf
  | _ => True

end PoolEvent
namespace Pool

def event (env : PoolEnv) (p : Pool) : PoolEvent → Pool
  | .call c => p.call env c
  | .fillBlockTemplate chain params =>
    ((p.fillBlockTemplate env chain params).map FillState.pool).getD p
  | .getBlockTemplateBacklog chain includeSensitive =>
    (p.getBlockTemplateBacklog env chain includeSensitive).pool
  | .getRelayableTransactions now nextCheck => (p.getRelayableTransactions now nextCheck).2

def afterEvents (env : PoolEnv) (p : Pool) (events : List PoolEvent) : Pool :=
  events.foldl (event env) p

def Timed (env : PoolEnv) : Nat → Pool → List PoolEvent → Nat → Prop
  | a, _, [], b => a ≤ b
  | a, p, c :: events, b =>
    List.IsChain (· ≤ ·) (a :: c.readings p) ∧
      Timed env ((c.readings p).getLastD a) (p.event env c) events b

variable {p q : Pool} {env : PoolEnv} {vinOf : Hash → List TxIn} {weightOf : Hash → Nat}

theorem advances_reading {now : Nat} (hclock : List.IsChain (· ≤ ·) [a, now])
    (h : Advances now now p q) : Advances a now p q :=
  (advances_wait (isChain_cons_cons.mp hclock).1 p).trans h

theorem call_advances {c : PoolCall} (h : p.Bookkept env vinOf weightOf)
    (hc : c.Promised env vinOf weightOf) (hclock : List.IsChain (· ≤ ·) (a :: c.readings p)) :
    Advances a ((c.readings p).getLastD a) p (p.call env c) := by
  have hindexed := h.indexed
  cases c with
  | addTx c =>
    exact advances_reading hclock (addTx_adds p env c.chain c.args c.tvc).advances
  | takeTx now id => exact advances_reading hclock (takeTx_advances p env now id)
  | prune now bytes => exact advances_reading hclock (prune_advances env now bytes p).1
  | removeStuckTransactions now =>
    exact advances_reading hclock (removeStuckTransactions_advances p env now)
  | setRelayed method now hashes =>
    exact advances_reading hclock (setRelayed_advances env method now hashes p)
  | validate chain version now embargo => exact validate_advances h chain hc now embargo hclock
  | onBlockchainChange => exact advances_same rfl rfl
  | init now maxTxpoolWeight mineStemTxes =>
    refine advances_reading hclock (init_advances ?_)
    exact (init_bookkept hindexed.reloadable hindexed.cached hindexed.noUnderflow now
      maxTxpoolWeight mineStemTxes).2.1
  | restart now maxTxpoolWeight mineStemTxes =>
    have hdb : Reloadable env vinOf weightOf p.reopened.db := hindexed.reloadable
    have hreset : Advances now now p p.reopened := advances_reset rfl
    refine advances_reading hclock (hreset.trans (init_advances ?_))
    exact (init_bookkept hdb (fun id tx htx => by cases htx) (fun _ => rfl) now maxTxpoolWeight
      mineStemTxes).2.1

theorem afterEvents_advances {events : List PoolEvent} (h : p.Bookkept env vinOf weightOf)
    (hevents : ∀ c ∈ events, c.Promised env vinOf weightOf) {b : Nat}
    (htimed : Timed env a p events b) :
    (p.afterEvents env events).Bookkept env vinOf weightOf ∧
      Advances a b p (p.afterEvents env events) := by
  induction events generalizing p a with
  | nil => exact ⟨h, advances_wait htimed p⟩
  | cons c events ih =>
    obtain ⟨hc, hrest⟩ := forall_mem_cons.mp hevents
    obtain ⟨hclock, hlater⟩ := htimed
    obtain ⟨hnext, hadvances⟩ : (p.event env c).Bookkept env vinOf weightOf ∧ Advances a
      ((c.readings p).getLastD a) p (p.event env c) := by
      cases c with
      | call c => exact ⟨call_bookkept h hc, call_advances h hc hclock⟩
      | fillBlockTemplate chain params =>
        simp only [event, fillBlockTemplate, Option.map_map]
        cases getBlockReward params.medianWeight 0 params.alreadyGeneratedCoins params.version with
        | none => exact ⟨h, .refl a p⟩
        | some bestCoinbase =>
          have hfilled := fillLoop_refreshed chain params ⟨p, [], 0, 0, bestCoinbase, ∅⟩ h a
            p.txsByFeeAndReceiveTime.ids
          exact ⟨hfilled.bookkept, hfilled.advances⟩
      | getBlockTemplateBacklog chain includeSensitive =>
        have hchosen := backlogLoop_refreshed chain
          (wrap (chain.cumulativeWeightMedian + chain.cumulativeWeightMedian / 8))
          (p.backlogOrder chain includeSensitive) ⟨p, [], 0, ∅⟩ h a
        exact ⟨hchosen.bookkept, hchosen.advances⟩
      | getRelayableTransactions now nextCheck =>
        have hdelayed := getRelayableTransactions_refreshed h now nextCheck
        exact ⟨hdelayed.bookkept, advances_reading hclock hdelayed.advances⟩
    obtain ⟨hfinal, hadvances'⟩ := ih hnext hrest hlater
    exact ⟨hfinal, hadvances.trans hadvances'⟩

section
variable {now : Nat} {j : Journal Hash}

theorem Records.mem_full (h : Records now p j) (includeSensitive : Bool) (maxTxCount : Nat)
    (hfull : (p.getPoolInfo startTime includeSensitive maxTxCount).incremental = false)
    (id : Hash) :
    id ∈ (p.getPoolInfo startTime includeSensitive maxTxCount).addedIds ↔
      j.Shows includeSensitive id := by
  have hgives : p.givesIncremental startTime = false := hfull
  rw [mem_addedIds, mem_relevantTxids, hgives]
  unfold Journal.Shows
  rw [h.present]
  constructor
  · rintro ⟨info, hinfo, hvisible, -⟩
    exact ⟨info.stamp, by rw [hinfo]; rfl, hvisible⟩
  · rintro ⟨s, hs, hvisible⟩
    obtain ⟨info, hinfo, rfl⟩ := Option.map_eq_some_iff.mp hs
    exact ⟨info, hinfo, hvisible, fun hfalse => by cases hfalse⟩

theorem Records.mem_added (h : Records now p j) (includeSensitive : Bool) (maxTxCount : Nat)
    (hincremental : p.givesIncremental startTime = true) (id : Hash) :
    id ∈ (p.getPoolInfo startTime includeSensitive maxTxCount).addedIds ↔
      ∃ s, j.present id = some s ∧ visible includeSensitive s.hidden = true ∧
        startTime ≤ s.time := by
  rw [mem_addedIds, mem_relevantTxids, hincremental, h.present]
  constructor
  · rintro ⟨info, hinfo, hvisible, hrecent⟩
    exact ⟨info.stamp, by rw [hinfo]; rfl, hvisible, hrecent rfl⟩
  · rintro ⟨s, hs, hvisible, hrecent⟩
    obtain ⟨info, hinfo, rfl⟩ := Option.map_eq_some_iff.mp hs
    exact ⟨info, hinfo, hvisible, fun _ => hrecent⟩

theorem Records.mem_removed (h : Records now p j) (includeSensitive : Bool) (maxTxCount : Nat)
    (hincremental : p.givesIncremental startTime = true) (id : Hash) :
    id ∈ (p.getPoolInfo startTime includeSensitive maxTxCount).removedTxs ↔
      j.Reports startTime includeSensitive id := by
  have hremoved : (p.getPoolInfo startTime includeSensitive maxTxCount).removedTxs =
      p.removedSince startTime includeSensitive := if_pos hincremental
  rw [hremoved, mem_removedSince]
  constructor
  · rintro ⟨x, hx, htime, hkey, hvisible⟩
    exact ⟨⟨x.1, x.2.txid, x.2.sensitive⟩, (h.gone _).mpr hx, htime, hkey, hvisible⟩
  · rintro ⟨d, hd, htime, hkey, hvisible⟩
    exact ⟨_, (h.gone d).mp hd, htime, hkey, hvisible⟩

end

theorem incremental_info_exact (env : PoolEnv) (vinOf : Hash → List TxIn) (weightOf : Hash → Nat)
    (maxWeight : Nat) (mineStemTxes : Bool) (start t now : Nat) (before after : List PoolEvent)
    (hbefore : ∀ c ∈ before, c.Promised env vinOf weightOf)
    (hafter : ∀ c ∈ after, c.Promised env vinOf weightOf)
    (hclock : Timed env start (empty maxWeight mineStemTxes) before t)
    (hclock' : Timed env t ((empty maxWeight mineStemTxes).afterEvents env before) after now)
    (includeSensitive : Bool) (askedFrom count count' count'' : Nat)
    (hfull : (((empty maxWeight mineStemTxes).afterEvents env before).getPoolInfo askedFrom
      includeSensitive count).incremental = false)
    (hincremental : (((empty maxWeight mineStemTxes).afterEvents env
      (before ++ after)).getPoolInfo t includeSensitive count').incremental = true) :
    (((empty maxWeight mineStemTxes).afterEvents env (before ++ after)).getPoolInfo t
        includeSensitive count').applyTo
      (((empty maxWeight mineStemTxes).afterEvents env before).getPoolInfo askedFrom
        includeSensitive count).addedIds =
      (((empty maxWeight mineStemTxes).afterEvents env (before ++ after)).getPoolInfo 0
        includeSensitive count'').addedIds := by
  have hempty := Bookkept.empty env vinOf weightOf maxWeight mineStemTxes
  have hsplit : (empty maxWeight mineStemTxes).afterEvents env (before ++ after) =
      ((empty maxWeight mineStemTxes).afterEvents env before).afterEvents env after :=
    foldl_append
  rw [hsplit] at hincremental ⊢
  obtain ⟨hbookkept, hfirst⟩ := afterEvents_advances hempty hbefore hclock
  obtain ⟨j, hj, hrun⟩ := hfirst _ (records_blank rfl start)
  obtain ⟨g, hg, hrun'⟩ := (afterEvents_advances hbookkept hafter hclock').2 j hj
  have hclocked := ((Journal.Clocked.blank start).elapses hrun).elapses hrun'
  have hsince : Journal.Since t includeSensitive j g :=
    Journal.Since.elapses (.inr (.refl t includeSensitive j)) le_rfl hrun'
  obtain ⟨-, hadded, hremoved, hafterAdded, hafterRemoved⟩ :=
    (givesIncremental_iff t).mp hincremental
  have hlost : g.lost < t := by
    rcases hg.log.start with hzero | hle
    · exact absurd hzero hremoved
    · exact hle.trans_lt hafterRemoved
  rw [← hg.presentFrom] at hadded hafterAdded
  ext id
  rw [PoolInfo.applyTo, Finset.mem_union, Finset.mem_sdiff, mem_toFinset,
    hj.mem_full includeSensitive count hfull, hg.mem_added includeSensitive count' hincremental,
    hg.mem_removed includeSensitive count' hincremental, hg.mem_full includeSensitive count'' rfl]
  exact (hsince.shows_iff hclocked hadded hafterAdded hlost id).symm

def sampleAdd (fee : UInt8) (txRelay : RelayMethod) (now : Nat) : PoolEvent :=
  .call (.addTx ⟨sampleChain 5, ⟨sampleTx fee.toNat, fee.toNat, [fee], 1500, txRelay,
    true, 16, 0, nullHash, now, 0⟩, .initial⟩)

def sampleHistory : List PoolEvent :=
  [sampleAdd 2 .fluff 1000, .call (.takeTx 1001 2), sampleAdd 1 .block 1002]

def sampleChanges : List PoolEvent :=
  [.call (.takeTx 1005 1), sampleAdd 2 .stem 1005, .call (.setRelayed .fluff 1010 [(2, 1050)])]

theorem sampleAdd_promised (fee : UInt8) (txRelay : RelayMethod) (now : Nat) :
    (sampleAdd fee txRelay now).Promised sampleEnv (fun _ => (sampleTx 0).vin)
      (fun _ => 1500) :=
  ⟨rfl, rfl, ⟨rfl, ⟨_, rfl, rfl⟩, fun _ => ⟨_, rfl, rfl⟩⟩, fun h => by cases h⟩

theorem sample_client_updated :
    (((empty 1000000 false).afterEvents sampleEnv
        (sampleHistory ++ sampleChanges)).getPoolInfo 1005 false 0).applyTo {1} = {2} := by
  have hfull : (((empty 1000000 false).afterEvents sampleEnv sampleHistory).getPoolInfo 0
      false 0).addedIds = {1} := by decide +kernel
  have hlater : (((empty 1000000 false).afterEvents sampleEnv
      (sampleHistory ++ sampleChanges)).getPoolInfo 0 false 0).addedIds = {2} := by decide +kernel
  rw [← hfull, ← hlater]
  refine incremental_info_exact sampleEnv (fun _ => (sampleTx 0).vin) (fun _ => 1500)
    1000000 false 1000 1005 1010 sampleHistory sampleChanges ?_ ?_ ?_ ?_ false 0 0 0 0 rfl ?_
  · simp only [sampleHistory, forall_mem_cons]
    exact ⟨sampleAdd_promised 2 .fluff 1000, trivial, sampleAdd_promised 1 .block 1002, by simp⟩
  · simp only [sampleChanges, forall_mem_cons]
    exact ⟨trivial, sampleAdd_promised 2 .stem 1005, trivial, by simp⟩
  · simp [sampleHistory, sampleAdd, Timed, PoolEvent.readings, PoolCall.readings]
  · simp [sampleChanges, sampleAdd, Timed, PoolEvent.readings, PoolCall.readings]
  · decide +kernel

end Pool
end Jero.TxPool
