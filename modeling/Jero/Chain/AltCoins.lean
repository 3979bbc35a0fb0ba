import Jero.Chain.Emission
import Jero.Chain.RewardWords

namespace Jero.Chain
open Jero.Machine Jero.Lists Jero.Tx List ChainEnv MinedBlock
namespace ChainEnv
variable {env : ChainEnv} {db : Db} {b : Block} {supplementOk : Bool}
variable {altChain : List BlockExtendedInfo} {bei : BlockExtendedInfo}
variable {isACheckpoint heavier : Bool}

theorem past_refusal {c : Prop} [Decidable c] {bvc : BlockVerificationContext} {v w : AltVerdict}
    (h : (if c then AltVerdict.refuse bvc else v) = w) (hw : ∀ bvc, w ≠ .refuse bvc) : v = w := by
  split at h
  · exact absurd h.symm (hw bvc)
  · exact h

theorem examineAlternative_coins
    (h : env.examineAlternative db b supplementOk =
      .ok (.accept altChain bei isACheckpoint heavier)) :
    bei.alreadyGeneratedCoins =
      nextGeneratedCoins (env.prevGeneratedCoins db b.prevId) (outputsAmount b.minerTx.vout) := by
  unfold examineAlternative at h
  split at h
  · cases h
  split at h
  · cases h
  split at h
  · cases h
  split at h
  · cases h
  split at h
  · cases h
  · cases h
  · have hne : ∀ bvc, AltVerdict.accept altChain bei isACheckpoint heavier ≠ .refuse bvc := by
      intro bvc hrefused
      cases hrefused
    have h := past_refusal (Except.ok.inj h) hne
    have h := past_refusal h hne
    have h := past_refusal h hne
    have h := past_refusal h hne
    have h := past_refusal h hne
    have h := past_refusal h hne
    cases hweight : env.altBlockWeight b with
    | none =>
      rw [hweight] at h
      cases h
    | some weight =>
      rw [hweight] at h
      have h := past_refusal h hne
      cases h
      rfl

end ChainEnv

inductive AltBranch (env : ChainEnv) (already : Nat) : List Block → BlockExtendedInfo → Prop where
  | fork {db : Db} {b : Block} {supplementOk isACheckpoint heavier : Bool}
      {altChain : List BlockExtendedInfo} {bei : BlockExtendedInfo} :
      db.altBlocks.find? b.prevId = none →
      topGeneratedCoins (db.chain.take (env.prevHeight db b.prevId + 1)) = already →
      env.examineAlternative db b supplementOk = .ok (.accept altChain bei isACheckpoint heavier) →
      AltBranch env already [b] bei
  | extend {db : Db} {bs : List Block} {tip : BlockExtendedInfo} {b : Block}
      {supplementOk isACheckpoint heavier : Bool} {altChain : List BlockExtendedInfo}
      {bei : BlockExtendedInfo} :
      AltBranch env already bs tip → db.altBlocks.find? b.prevId = some tip →
      env.examineAlternative db b supplementOk = .ok (.accept altChain bei isACheckpoint heavier) →
      AltBranch env already (bs ++ [b]) bei

def coinbaseOf (tx : Transaction) : Nat := (tx.vout.map TxOut.amount).sum

variable {already reward : Nat} {records : List EmissionRecord} {m : MinedBlock}

theorem nextGeneratedCoins_of_lt (h : already + reward < moneySupply) :
    nextGeneratedCoins already reward = already + reward :=
  if_pos (by omega)

theorem outputsAmount_of_lt {tx : Transaction} (h : already + coinbaseOf tx < moneySupply) :
    outputsAmount tx.vout = coinbaseOf tx := by
  refine wrap_of_lt (lt_of_le_of_lt (Nat.le_add_left _ already) (h.trans ?_))
  decide

theorem AltBranch.coins {env : ChainEnv} {bs : List Block} {bei : BlockExtendedInfo}
    (h : AltBranch env already bs bei)
    (hcap : already + (bs.map (fun b => coinbaseOf b.minerTx)).sum < moneySupply) :
    bei.alreadyGeneratedCoins = already + (bs.map (fun b => coinbaseOf b.minerTx)).sum := by
  induction h with
  | @fork db b _ _ _ _ bei hfork hparent haccept =>
    have hone : already + coinbaseOf b.minerTx < moneySupply := by simpa using hcap
    have hprev : env.prevGeneratedCoins db b.prevId = already := by
      rw [prevGeneratedCoins, hfork]
      exact hparent
    rw [examineAlternative_coins haccept, hprev, outputsAmount_of_lt hone,
      nextGeneratedCoins_of_lt hone]
    simp
  | @extend db bs tip b _ _ _ _ bei _ htip haccept ih =>
    rw [map_append, sum_append, map_singleton, sum_singleton, ← add_assoc] at hcap ⊢
    have hprev : env.prevGeneratedCoins db b.prevId =
        already + (bs.map (fun b => coinbaseOf b.minerTx)).sum := by
      rw [prevGeneratedCoins, htip]
      exact ih (by omega)
    rw [examineAlternative_coins haccept, hprev, outputsAmount_of_lt hcap,
      nextGeneratedCoins_of_lt hcap]

theorem settleReward_money {fee money version : Nat} {verdict : MinerVerdict}
    (hword : reward + fee < 2 ^ 64) (hmoney : money < 2 ^ 64)
    (h : settleReward reward fee money version = some verdict) :
    verdict.baseReward + fee = money := by
  unfold settleReward at h
  rw [wrap_of_lt hword] at h
  split at h
  · cases h
  split at h
  · split at h
    · cases h
    · rename_i hne
      cases h
      exact not_not.mp hne
  · split at h
    · cases h
    · rename_i hle
      have hfee := no_underflow hword (not_not.mp hle)
      cases h
      rw [wsub_of_le hfee hmoney]
      exact Nat.sub_add_cancel hfee

def RewardsFit (m : MinedBlock) : Prop :=
  ∀ coins reward, m.subsidy coins = some reward → reward + m.fee < 2 ^ 64

theorem mine_coins {mined : List EmissionRecord} (hfits : RewardsFit m)
    (hcap : generatedBefore records + m.coinbaseSum < moneySupply)
    (h : mine records m = some mined) :
    generatedBefore mined + m.fee = generatedBefore records + m.coinbaseSum := by
  obtain ⟨verdict, hverdict, rfl⟩ := Option.map_eq_some_iff.mp h
  obtain ⟨reward, hreward, hsettle⟩ := validate_eq_some hverdict
  rw [outputsAmount_of_lt hcap] at hsettle
  have hword : m.coinbaseSum < 2 ^ 64 :=
    lt_of_le_of_lt (Nat.le_add_left _ _) (hcap.trans (by decide))
  have hmoney := settleReward_money (hfits _ reward hreward) hword hsettle
  have hlast : generatedBefore (records ++ [emissionRecord (generatedBefore records) m verdict]) =
      nextGeneratedCoins (generatedBefore records) verdict.baseReward := by
    rw [generatedBefore, getLast?_concat]
    rfl
  rw [hlast, nextGeneratedCoins_of_lt (by omega)]
  omega

theorem mineAll_coins {adopted : List EmissionRecord} {ms : List MinedBlock}
    (hfits : ∀ m ∈ ms, RewardsFit m)
    (hcap : generatedBefore records + (ms.map coinbaseSum).sum < moneySupply)
    (h : mineAll records ms = some adopted) :
    generatedBefore adopted + (ms.map fee).sum =
      generatedBefore records + (ms.map coinbaseSum).sum := by
  induction ms generalizing records with
  | nil =>
    cases h
    rfl
  | cons m ms ih =>
    obtain ⟨next, hnext, hrest⟩ := Option.bind_eq_some_iff.mp h
    rw [map_cons, sum_cons] at hcap ⊢
    have hstep := mine_coins (hfits m (by simp)) (by omega) hnext
    have hrun := ih (fun m' hm' => hfits m' (by simp [hm'])) (by omega) hrest
    rw [map_cons, sum_cons]
    omega

theorem alternative_coins_match_iff (env : ChainEnv) (already : Nat) (bs : List Block)
    (bei : BlockExtendedInfo) (halt : AltBranch env already bs bei)
    (records adopted : List EmissionRecord) (ms : List MinedBlock)
    (hparent : generatedBefore records = already) (hsame : ms.map minerTx = bs.map Block.minerTx)
    (hmain : mineAll records ms = some adopted) (hfits : ∀ m ∈ ms, RewardsFit m)
    (hcap : already + (ms.map coinbaseSum).sum < moneySupply) :
    bei.alreadyGeneratedCoins = generatedBefore adopted ↔ ∀ m ∈ ms, m.fee = 0 := by
  have hsum : (ms.map coinbaseSum).sum =
      (bs.map (fun b => coinbaseOf b.minerTx)).sum := by
    have hmapped := congrArg (map coinbaseOf) hsame
    rw [map_map, map_map] at hmapped
    exact congrArg sum hmapped
  have hstored := halt.coins (hsum ▸ hcap)
  have hrecorded := mineAll_coins hfits (hparent ▸ hcap) hmain
  have hzero : (ms.map fee).sum = 0 ↔ ∀ m ∈ ms, m.fee = 0 := by
    rw [sum_eq_zero_iff]
    simp
  rw [← hzero]
  constructor
  · intro heq
    omega
  · intro hnone
    omega

theorem rewardsFit_of_fee_lt (h : m.fee < 2 ^ 63) : RewardsFit m := by
  intro coins reward hreward
  have hle := (getBlockReward_le hreward).trans (baseReward_le coins m.version)
  have hsmall : moneySupply / 2 ^ 19 ≤ 2 ^ 63 := by decide
  omega

def genesisReward : Nat := 17592186044415

def forkDb (altBlocks : SortedMap Hash BlockExtendedInfo) : Db :=
  ⟨sampleMain.map fun e => { e with alreadyGeneratedCoins := genesisReward }, altBlocks⟩

def coinbaseBlock (height prevId amount : Nat) : Block :=
  { sampleBlock height (height * 300) prevId with
    minerTx := { Transaction.empty with vin := [.gen height], vout := [⟨amount, .toKey 0⟩] } }

def coinbaseBranch : List Block := [coinbaseBlock 1 1000 70000, coinbaseBlock 2 2300 50000]

def coinbaseTip (height coins : Nat) : BlockExtendedInfo :=
  ⟨coinbaseBranch.getD (height - 1) (sampleBlock 0 0 0), height, 0, height + 1, coins⟩

def coinbaseMined (fee : Nat) : List MinedBlock :=
  coinbaseBranch.map fun b => ⟨b.minerTx, ⟨0, []⟩, 0, fee, 2⟩

def genesisRecord : EmissionRecord :=
  ⟨⟨Transaction.empty, ⟨0, []⟩, 0, 0, 1⟩, genesisReward, genesisReward⟩

theorem coinbaseBranch_stored :
    AltBranch sampleEnv genesisReward coinbaseBranch (coinbaseTip 2 (genesisReward + 120000)) := by
  have hfirst : sampleEnv.examineAlternative (forkDb .empty) (coinbaseBlock 1 1000 70000) true =
      .ok (.accept [] (coinbaseTip 1 (genesisReward + 70000)) false false) := rfl
  have hsecond : sampleEnv.examineAlternative
      (forkDb (SortedMap.empty.insert 2300 (coinbaseTip 1 (genesisReward + 70000))))
      (coinbaseBlock 2 2300 50000) true = .ok (.accept [coinbaseTip 1 (genesisReward + 70000)]
        (coinbaseTip 2 (genesisReward + 120000)) false false) := rfl
  exact .extend (.fork rfl (by decide +kernel) hfirst) rfl hsecond

theorem feeless_coins_match :
    (mineAll [genesisRecord] (coinbaseMined 0)).map generatedBefore =
      some (coinbaseTip 2 (genesisReward + 120000)).alreadyGeneratedCoins := by
  obtain ⟨adopted, hmined⟩ := Option.isSome_iff_exists.mp
    (show (mineAll [genesisRecord] (coinbaseMined 0)).isSome by decide +kernel)
  rw [hmined, (alternative_coins_match_iff sampleEnv genesisReward coinbaseBranch _
    coinbaseBranch_stored [genesisRecord] adopted (coinbaseMined 0) rfl rfl hmined ?_
    (by decide +kernel)).mpr (by decide +kernel)]
  · rfl
  · exact fun m hm => rewardsFit_of_fee_lt
      ((show ∀ m ∈ coinbaseMined 0, m.fee < 2 ^ 63 by decide +kernel) m hm)

theorem alternative_coins_count_fees :
    AltBranch sampleEnv genesisReward coinbaseBranch (coinbaseTip 2 (genesisReward + 120000)) ∧
      (coinbaseMined 17).map minerTx = coinbaseBranch.map Block.minerTx ∧
      generatedBefore [genesisRecord] = genesisReward ∧
      (mineAll [genesisRecord] (coinbaseMined 17)).map generatedBefore =
        some (genesisReward + 119966) :=
  ⟨coinbaseBranch_stored, rfl, rfl, by decide +kernel⟩

end Jero.Chain
