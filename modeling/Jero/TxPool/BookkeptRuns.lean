import Jero.TxPool.BookkeptReload
import Jero.TxPool.DoubleSpend

namespace Jero.TxPool
open Jero.Tx Node

def PoolCall.Promised (env : PoolEnv) (vinOf : Hash → List TxIn) (weightOf : Hash → Nat) :
    PoolCall → Prop
  | .addTx c => c.args.Promised env vinOf weightOf
  | .validate _ version _ _ => version ≠ 0
  | _ => True

namespace Pool
variable {p : Pool} {env : PoolEnv} {vinOf : Hash → List TxIn} {weightOf : Hash → Nat}

theorem Indexed.reloadable (h : p.Indexed env vinOf weightOf) :
    Reloadable env vinOf weightOf p.db := ⟨h.entries, h.apart⟩

theorem call_bookkept {c : PoolCall} (h : p.Bookkept env vinOf weightOf)
    (hc : c.Promised env vinOf weightOf) : (p.call env c).Bookkept env vinOf weightOf := by
  have hindexed := h.indexed
  cases c with
  | addTx c => exact (addTx_bookkept h hc c.chain c.tvc).1
  | takeTx now id =>
    cases hfind : p.db.find? id with
    | none =>
      simp only [call, takeTx_absent hfind]
      exact h
    | some e => exact (h.takeTx hfind now).1
  | prune now bytes => exact (h.prune now bytes).1
  | removeStuckTransactions now => exact removeStuckTransactions_bookkept h now
  | setRelayed method now hashes => exact setRelayed_bookkept h now method hashes
  | validate chain version now embargo => exact validate_bookkept chain hc now embargo h
  | onBlockchainChange => exact h.congr rfl rfl rfl rfl rfl (fun id tx htx => by cases htx)
  | init now maxTxpoolWeight mineStemTxes =>
    exact (init_bookkept hindexed.reloadable hindexed.cached hindexed.noUnderflow now
      maxTxpoolWeight mineStemTxes).2.2
  | restart now maxTxpoolWeight mineStemTxes =>
    have hdb : Reloadable env vinOf weightOf p.reopened.db := hindexed.reloadable
    exact (init_bookkept hdb (fun id tx htx => by cases htx) (fun _ => rfl) now maxTxpoolWeight
      mineStemTxes).2.2

theorem afterCalls_bookkept {calls : List PoolCall} (h : p.Bookkept env vinOf weightOf)
    (hcalls : ∀ c ∈ calls, c.Promised env vinOf weightOf) :
    (p.afterCalls env calls).Bookkept env vinOf weightOf := by
  induction calls generalizing p with
  | nil => exact h
  | cons c calls ih =>
    obtain ⟨hc, hrest⟩ := List.forall_mem_cons.mp hcalls
    exact ih (call_bookkept h hc) hrest

def usesKeyImage (env : PoolEnv) (p : Pool) (id : Hash) (k : KeyImage) : Prop :=
  ∃ e vin, p.db.find? id = some e ∧ env.parsePrefix e.blob = some vin ∧ k ∈ keyImages vin

structure BooksExact (env : PoolEnv) (p : Pool) : Prop where
  holders : ∀ k id, id ∈ (p.spentKeyImages.find? k).getD ∅ ↔ p.usesKeyImage env id k
  noneEmpty : ∀ k s, p.spentKeyImages.find? k = some s → s ≠ ∅
  weight : p.txpoolWeight = (p.db.entries.map fun e => e.2.txMeta.weight).sum
  noUnderflow : p.weightUnderflow = false
  sortedOnce : p.txsByFeeAndReceiveTime.ids.Nodup
  sortedIds : ∀ id, id ∈ p.txsByFeeAndReceiveTime.ids ↔ (p.db.find? id).isSome

theorem Bookkept.booksExact (h : p.Bookkept env vinOf weightOf) (hfits : WeightsFit weightOf) :
    p.BooksExact env := by
  refine ⟨?_, h.indexed.noneEmpty, h.indexed.weight hfits, h.indexed.noUnderflow hfits,
    p.txsByFeeAndReceiveTime.nodup, ?_⟩
  · intro k id
    refine (h.indexed.holds k id).trans ?_
    constructor
    · rintro ⟨⟨e, he⟩, hk⟩
      exact ⟨e, vinOf id, he, (h.indexed.entries id e he).parses.parsesPrefix, hk⟩
    · rintro ⟨e, vin, he, hparse, hk⟩
      have hvin := (h.indexed.entries id e he).parses.parsesPrefix
      rw [hparse] at hvin
      obtain rfl := Option.some.inj hvin
      exact ⟨⟨e, he⟩, hk⟩
  · intro id
    rw [h.listed, Option.isSome_iff_exists]
    rfl

theorem pool_books_exact (env : PoolEnv) (vinOf : Hash → List TxIn) (weightOf : Hash → Nat)
    (hfits : WeightsFit weightOf) (maxWeight : Nat) (mineStemTxes : Bool) (calls : List PoolCall)
    (hcalls : ∀ c ∈ calls, c.Promised env vinOf weightOf) :
    ((Pool.empty maxWeight mineStemTxes).afterCalls env calls).BooksExact env :=
  (afterCalls_bookkept (.empty env vinOf weightOf maxWeight mineStemTxes) hcalls).booksExact hfits

def weighedCall (weight : Nat) (fee : UInt8) (txRelay : RelayMethod) : PoolCall :=
  .addTx ⟨sampleChain 5, ⟨sampleTx fee.toNat, fee.toNat, [fee], weight, txRelay, true, 16, 0,
    nullHash, 1000, 0⟩, .initial⟩

def sampleCall : UInt8 → RelayMethod → PoolCall := weighedCall 1500

def sampleCalls : List PoolCall :=
  [sampleCall 2 .stem, .validate (sampleChain 5) 16 (fun _ => 1005) (fun _ => 1060),
    .setRelayed .fluff 1010 [(2, 1050)], sampleCall 1 .block, .restart 1030 0 false]

def sampleWeights (id : Hash) : Nat := if id < 3 then 1500 else 0

theorem sampleWeights_fit : WeightsFit sampleWeights := by
  intro ids
  have hcard : (ids.filter (· < 3)).card ≤ 3 :=
    (Finset.card_le_card fun id h => Finset.mem_range.mpr (Finset.mem_filter.mp h).2).trans_eq
      (Finset.card_range 3)
  have hsum : ids.sum sampleWeights = (ids.filter (· < 3)).card * 1500 :=
    (Finset.sum_filter (· < 3) fun _ => 1500).symm.trans (Finset.sum_const_nat fun _ _ => rfl)
  omega

theorem sampleCall_promised {fee : UInt8} (hfee : fee.toNat < 3) (txRelay : RelayMethod) :
    (sampleCall fee txRelay).Promised sampleEnv (fun _ => (sampleTx 0).vin) sampleWeights :=
  ⟨rfl, (if_pos hfee).symm, ⟨rfl, ⟨_, rfl, rfl⟩, fun _ => ⟨_, rfl, rfl⟩⟩, fun h => by cases h⟩

theorem reopened_pool_books_exact :
    ((Pool.empty 1000000 false).afterCalls sampleEnv sampleCalls).BooksExact sampleEnv ∧
      ((Pool.empty 1000000 false).afterCalls sampleEnv sampleCalls).txpoolWeight = 3000 ∧
        ((Pool.empty 1000000 false).afterCalls sampleEnv sampleCalls).spentKeyImages.find? 7 =
          some {1, 2} := by
  refine ⟨?_, by decide +kernel, by decide +kernel⟩
  refine pool_books_exact sampleEnv (fun _ => (sampleTx 0).vin) sampleWeights sampleWeights_fit
    1000000 false sampleCalls ?_
  simp only [sampleCalls, List.forall_mem_cons]
  exact ⟨sampleCall_promised (by decide) .stem, Nat.succ_ne_zero 15, trivial,
    sampleCall_promised (by decide) .block, trivial, by simp⟩

theorem weight_counter_misses_pool :
    let reweighed := (Pool.empty 1000000 false).afterCalls sampleEnv
      [weighedCall 1500 2 .stem, weighedCall 1400 2 .fluff]
    let heavy := (Pool.empty 1000000 false).afterCalls sampleEnv
      [weighedCall (2 ^ 63) 1 .block, weighedCall (2 ^ 63) 2 .block]
    reweighed.txpoolWeight = 1500 ∧ reweighed.db.total (fun _ e => e.txMeta.weight) = 1400 ∧
      heavy.txpoolWeight = 0 ∧ heavy.db.total (fun _ e => e.txMeta.weight) = 2 ^ 64 := by
  decide +kernel

end Pool
end Jero.TxPool
