import Jero.Chain.Blockchain

namespace Jero.Chain
open Jero.Machine Jero.Lists Jero.Tx List

def hfVersionEffectiveShortTermMedianInPenalty : Nat := 12

def hfVersionExactCoinbase : Nat := 13

def cryptonoteRewardBlocksWindow : Nat := 100

def maxDecimalDigits : Nat := 20

def divideTrailingZeros : Nat → Nat → Nat
  | 0, amount => amount
  | digits + 1, amount => if amount % 10 = 0 then divideTrailingZeros digits (amount / 10) else amount

def isValidDecomposedAmount (amount : Nat) : Bool :=
  if amount = 0 then false else decide (divideTrailingZeros maxDecimalDigits amount < 10)

structure BlockWeights where
  currentBlockCumulWeightMedian : Nat
  lastBlocksWeights : List Nat
deriving DecidableEq, Repr

def BlockWeights.medianWeight (weights : BlockWeights) (version : Nat) : Nat :=
  if version ≥ hfVersionEffectiveShortTermMedianInPenalty then weights.currentBlockCumulWeightMedian
  else median (weights.lastBlocksWeights.drop
    (weights.lastBlocksWeights.length - cryptonoteRewardBlocksWindow))

structure MinerVerdict where
  baseReward : Nat
  partialBlockReward : Bool
deriving DecidableEq, Repr

def settleReward (reward fee moneyInUse version : Nat) : Option MinerVerdict :=
  if wrap (reward + fee) < moneyInUse then none
  else if version < 2 ∨ version ≥ hfVersionExactCoinbase then
    if wrap (reward + fee) ≠ moneyInUse then none else some ⟨reward, false⟩
  else if ¬ wsub moneyInUse fee ≤ reward then none
  else some ⟨wsub moneyInUse fee, decide (wrap (reward + fee) ≠ moneyInUse)⟩

def validateMinerTransaction (weights : BlockWeights) (minerTx : Transaction)
    (cumulativeBlockWeight fee alreadyGeneratedCoins version : Nat) : Option MinerVerdict :=
  if version = 3 ∧ ¬ minerTx.vout.all (fun o => isValidDecomposedAmount o.amount) then none
  else match getBlockReward (weights.medianWeight version) cumulativeBlockWeight
      alreadyGeneratedCoins version with
    | none => none
    | some reward => settleReward reward fee (outputsAmount minerTx.vout) version

structure MinedBlock where
  minerTx : Transaction
  weights : BlockWeights
  cumulativeBlockWeight : Nat
  fee : Nat
  version : Nat
deriving DecidableEq, Repr

namespace MinedBlock
variable (m : MinedBlock)

def coinbaseSum : Nat := (m.minerTx.vout.map TxOut.amount).sum

def subsidy (alreadyGeneratedCoins : Nat) : Option Nat :=
  getBlockReward (m.weights.medianWeight m.version) m.cumulativeBlockWeight alreadyGeneratedCoins
    m.version

def validate (alreadyGeneratedCoins : Nat) : Option MinerVerdict :=
  validateMinerTransaction m.weights m.minerTx m.cumulativeBlockWeight m.fee alreadyGeneratedCoins
    m.version

end MinedBlock

structure EmissionRecord where
  mined : MinedBlock
  baseReward : Nat
  alreadyGeneratedCoins : Nat
deriving DecidableEq, Repr

def generatedBefore (records : List EmissionRecord) : Nat :=
  (records.getLast?.map EmissionRecord.alreadyGeneratedCoins).getD 0

def emissionRecord (already : Nat) (m : MinedBlock) (verdict : MinerVerdict) : EmissionRecord :=
  ⟨m, verdict.baseReward, nextGeneratedCoins already verdict.baseReward⟩

def mine (records : List EmissionRecord) (m : MinedBlock) : Option (List EmissionRecord) :=
  (m.validate (generatedBefore records)).map
    (fun verdict => records ++ [emissionRecord (generatedBefore records) m verdict])

def mineAll : List EmissionRecord → List MinedBlock → Option (List EmissionRecord)
  | records, [] => some records
  | records, m :: ms => (mine records m).bind (fun mined => mineAll mined ms)

def rewardSum (records : List EmissionRecord) : Nat :=
  (records.map EmissionRecord.baseReward).sum

structure MinerWithinWord (m : MinedBlock) (already : Nat) : Prop where
  coinbase_lt : m.coinbaseSum < 2 ^ 64
  reward_lt : ∀ reward, m.subsidy already = some reward → reward + m.fee < 2 ^ 64

variable {reward fee money : Nat} {verdict : MinerVerdict} {records : List EmissionRecord}
  {version already : Nat} {mined : List EmissionRecord}

theorem no_underflow (hword : reward + fee < 2 ^ 64) (hle : wsub money fee ≤ reward) :
    fee ≤ money := by
  by_contra hlt
  have hborrow : wsub money fee = money + 2 ^ 64 - fee := Nat.mod_eq_of_lt (by omega)
  omega

theorem MinedBlock.validate_eq_some {m : MinedBlock} (h : m.validate already = some verdict) :
    ∃ reward, m.subsidy already = some reward ∧
      settleReward reward m.fee (outputsAmount m.minerTx.vout) m.version = some verdict := by
  unfold MinedBlock.validate validateMinerTransaction at h
  split at h
  · cases h
  · split at h
    · cases h
    · rename_i reward hreward
      exact ⟨reward, hreward, h⟩

theorem nextGeneratedCoins_eq_min (h : already ≤ moneySupply) :
    nextGeneratedCoins already reward = min moneySupply (already + reward) := by
  unfold nextGeneratedCoins
  split
  · rename_i hlt
    exact (min_eq_right (by omega)).symm
  · rename_i hge
    exact (min_eq_left (by omega)).symm

def Recorded (records : List EmissionRecord) : Prop :=
  ∀ n r, records[n]? = some r →
    ∃ verdict, r.mined.validate (generatedBefore (records.take n)) = some verdict ∧
      r = emissionRecord (generatedBefore (records.take n)) r.mined verdict

theorem recorded_nil : Recorded [] := by
  intro n r h
  cases h

theorem Recorded.mine {m : MinedBlock} (hrecorded : Recorded records)
    (h : mine records m = some mined) : Recorded mined := by
  obtain ⟨verdict, hverdict, rfl⟩ := Option.map_eq_some_iff.mp h
  intro n r hr
  rcases lt_trichotomy n records.length with hlt | rfl | hgt
  · rw [getElem?_append_left hlt] at hr
    rw [take_append_of_le_length hlt.le]
    exact hrecorded n r hr
  · rw [getElem?_append_right le_rfl, Nat.sub_self] at hr
    cases hr
    rw [take_left]
    exact ⟨verdict, hverdict, rfl⟩
  · rw [getElem?_eq_none (by simpa using hgt)] at hr
    cases hr

theorem Recorded.mineAll {ms : List MinedBlock} (hrecorded : Recorded records)
    (h : mineAll records ms = some mined) : Recorded mined := by
  induction ms generalizing records with
  | nil =>
    cases h
    exact hrecorded
  | cons m ms ih =>
    obtain ⟨next, hnext, hrest⟩ := Option.bind_eq_some_iff.mp h
    exact ih (hrecorded.mine hnext) hrest

theorem Recorded.generatedBefore_take (hrecorded : Recorded records) (n : Nat)
    (hn : n ≤ records.length) :
    generatedBefore (records.take n) = min moneySupply (rewardSum (records.take n)) := by
  induction n with
  | zero => rfl
  | succ n ih =>
    obtain ⟨r, hr⟩ : ∃ r, records[n]? = some r := ⟨_, getElem?_eq_getElem hn⟩
    obtain ⟨verdict, -, heq⟩ := hrecorded n r hr
    have hbefore := ih (Nat.le_of_succ_le hn)
    have hle : generatedBefore (records.take n) ≤ moneySupply := hbefore ▸ min_le_left _ _
    have htake : records.take (n + 1) = records.take n ++ [r] := by
      rw [take_add_one, hr]
      rfl
    have hlast : generatedBefore (records.take (n + 1)) = r.alreadyGeneratedCoins := by
      rw [htake, generatedBefore, getLast?_concat]
      rfl
    have hreward : r.baseReward = verdict.baseReward := by rw [heq]; rfl
    have hsum : rewardSum (records.take (n + 1)) =
        rewardSum (records.take n) + verdict.baseReward := by
      rw [htake, rewardSum, map_append, sum_append, ← hreward]
      exact congrArg _ (add_zero _)
    rw [hlast, heq, hsum]
    change nextGeneratedCoins _ _ = _
    rw [nextGeneratedCoins_eq_min hle, hbefore]
    omega

theorem Recorded.generated_eq (hrecorded : Recorded records) {n : Nat} {r : EmissionRecord}
    (hr : records[n]? = some r) :
    r.alreadyGeneratedCoins = min moneySupply (rewardSum (records.take (n + 1))) := by
  have hlt : n < records.length := (List.getElem?_eq_some_iff.mp hr).1
  rw [← hrecorded.generatedBefore_take (n + 1) hlt, take_add_one, hr, generatedBefore]
  change _ = (((records.take n ++ [r]).getLast?).map _).getD 0
  rw [getLast?_concat]
  rfl

theorem rewardSum_take_mono (records : List EmissionRecord) {n k : Nat} (h : n ≤ k) :
    rewardSum (records.take n) ≤ rewardSum (records.take k) := by
  have hsub : (records.take n).Sublist (records.take k) := by
    rw [show n = min n k from (min_eq_left h).symm, ← take_take]
    exact take_sublist _ _
  exact (hsub.map EmissionRecord.baseReward).sum_le_sum (fun _ _ => Nat.zero_le _)

structure EmissionAt (records : List EmissionRecord) (n : Nat) (r : EmissionRecord) (reward : Nat) :
    Prop where
  reward_eq : r.mined.subsidy (generatedBefore (records.take n)) = some reward
  exact : hfVersionExactCoinbase ≤ r.mined.version → r.mined.coinbaseSum = reward + r.mined.fee
  at_most : 2 ≤ r.mined.version → r.mined.version < hfVersionExactCoinbase →
    r.mined.coinbaseSum ≤ reward + r.mined.fee ∧ r.mined.fee ≤ r.mined.coinbaseSum ∧
      r.baseReward = r.mined.coinbaseSum - r.mined.fee ∧ r.baseReward ≤ reward
  generated : r.alreadyGeneratedCoins = min moneySupply (rewardSum (records.take (n + 1)))
  mono : ∀ k s, n ≤ k → records[k]? = some s → r.alreadyGeneratedCoins ≤ s.alreadyGeneratedCoins
  word : r.alreadyGeneratedCoins < 2 ^ 64

theorem emission_accounting (ms : List MinedBlock) (records : List EmissionRecord)
    (h : mineAll [] ms = some records) (hword : ∀ n r, records[n]? = some r →
      MinerWithinWord r.mined (generatedBefore (records.take n))) :
    ∀ n r, records[n]? = some r → ∃ reward, EmissionAt records n r reward := by
  have hrecorded := recorded_nil.mineAll h
  intro n r hr
  obtain ⟨verdict, hverdict, heq⟩ := hrecorded n r hr
  obtain ⟨reward, hreward, hsettle⟩ := MinedBlock.validate_eq_some hverdict
  obtain ⟨hcoinbase, hfits⟩ := hword n r hr
  have hmoney : outputsAmount r.mined.minerTx.vout = r.mined.coinbaseSum := wrap_of_lt hcoinbase
  have hbase : r.baseReward = verdict.baseReward := by rw [heq]; rfl
  have hgenerated := hrecorded.generated_eq hr
  rw [hmoney] at hsettle
  refine ⟨reward, hreward, ?_, ?_, hgenerated, ?_, ?_⟩
  · intro hversion
    unfold settleReward at hsettle
    rw [wrap_of_lt (hfits reward hreward), if_pos (Or.inr hversion : _ < 2 ∨ _)] at hsettle
    split at hsettle
    · cases hsettle
    · split at hsettle
      · cases hsettle
      · rename_i hne
        exact (not_not.mp hne).symm
  · intro hlow hhigh
    rw [hbase]
    have hold : ¬ (r.mined.version < 2 ∨ r.mined.version ≥ hfVersionExactCoinbase) := by
      rintro (h2 | h13)
      · exact absurd h2 (not_lt.mpr hlow)
      · exact absurd hhigh (not_lt.mpr h13)
    unfold settleReward at hsettle
    rw [wrap_of_lt (hfits reward hreward), if_neg hold] at hsettle
    split at hsettle
    · cases hsettle
    · rename_i henough
      split at hsettle
      · cases hsettle
      · rename_i hle
        have hle := not_not.mp hle
        have hfee := no_underflow (hfits reward hreward) hle
        cases hsettle
        exact ⟨not_lt.mp henough, hfee, wsub_of_le hfee hcoinbase, hle⟩
  · intro k s hk hs
    rw [hgenerated, hrecorded.generated_eq hs]
    exact min_le_min_left _ (rewardSum_take_mono records (Nat.succ_le_succ hk))
  · rw [hgenerated]
    exact lt_of_le_of_lt (min_le_left _ _) (by norm_num [moneySupply])

def modestCoinbase (version amount fee : Nat) : MinedBlock :=
  ⟨{ Transaction.empty with vin := [.gen 0], vout := [⟨amount, .toKey 0⟩] }, ⟨0, []⟩, 0, fee, version⟩

def threeForkBlocks : List MinedBlock :=
  [modestCoinbase 2 70000 60000, modestCoinbase 12 70000 60000, modestCoinbase 13 35184372088848 17]

def threeForkRecords : List EmissionRecord :=
  [⟨modestCoinbase 2 70000 60000, 10000, 10000⟩, ⟨modestCoinbase 12 70000 60000, 10000, 20000⟩,
    ⟨modestCoinbase 13 35184372088848 17, 35184372088831, 35184372108831⟩]

theorem emission_accounting_of_three_forks :
    mineAll [] threeForkBlocks = some threeForkRecords ∧
      ∀ n r, threeForkRecords[n]? = some r → ∃ reward, EmissionAt threeForkRecords n r reward := by
  have hmined : mineAll [] threeForkBlocks = some threeForkRecords := by decide +kernel
  refine ⟨hmined, emission_accounting _ _ hmined ?_⟩
  intro n r hr
  have hn : n < 3 := (List.getElem?_eq_some_iff.mp hr).1
  interval_cases n <;> cases hr <;> refine ⟨by decide +kernel, ?_⟩ <;> intro reward hreward <;>
    cases hreward <;> decide +kernel

def forkTwelveRecord : EmissionRecord := ⟨modestCoinbase 12 70000 60000, 10000, 10000⟩

theorem fork_twelve_coinbase_underpays :
    mineAll [] [modestCoinbase 12 70000 60000] = some [forkTwelveRecord] ∧
      forkTwelveRecord.mined.subsidy 0 = some 35184372088831 ∧
      12 ≤ forkTwelveRecord.mined.version ∧
      forkTwelveRecord.mined.coinbaseSum < 35184372088831 + forkTwelveRecord.mined.fee ∧
      35184372088831 + forkTwelveRecord.mined.fee < 2 ^ 64 := by
  decide +kernel

end Jero.Chain
