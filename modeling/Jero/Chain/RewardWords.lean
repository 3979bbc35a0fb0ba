import Jero.Chain.Reward
import Jero.Machine.Bytes

namespace Jero.Chain
open Jero.Machine Jero.Tx

def penaltyWords (base median currentBlockWeight : Nat) : Except String Nat := do
  let multiplicand := wrap (wsub (wrap (2 * median)) currentBlockWeight * currentBlockWeight)
  let product ← mul128 base multiplicand
  let once := div128By64 product.1 product.2 median
  let reward := div128By64 once.1 once.2 median
  check (decide (reward.1 = 0)) "0 == reward_hi"
  check (decide (reward.2 < base)) "reward_lo < base_reward"
  pure reward.2

def getBlockRewardWords (medianWeight currentBlockWeight alreadyGeneratedCoins version : Nat) :
    Except String (Option Nat) :=
  let base := baseReward alreadyGeneratedCoins version
  let median := max medianWeight (getMinBlockWeight version)
  if currentBlockWeight ≤ median then .ok (some base)
  else if currentBlockWeight > wrap (2 * median) then .ok none
  else do
    let reward ← penaltyWords base median currentBlockWeight
    pure (some reward)

variable (coins version : Nat)

theorem baseReward_le : baseReward coins version ≤ moneySupply / 2 ^ 19 := by
  have hspeed : 19 ≤ emissionSpeedFactorPerMinute -
      ((if version < 2 then difficultyTargetV1 else difficultyTargetV2) / 60 - 1) := by
    split <;> decide
  refine max_le ?_ ?_
  · exact (Nat.div_le_div_right (Nat.sub_le _ _)).trans
      (Nat.div_le_div_left (Nat.pow_le_pow_right (by norm_num) hspeed) (by norm_num))
  · split <;> decide

theorem baseReward_lt : baseReward coins version < 2 ^ 64 :=
  (baseReward_le coins version).trans_lt (by decide)

theorem baseReward_pos : 0 < baseReward coins version := by
  refine lt_of_lt_of_le ?_ (le_max_right _ _)
  split <;> decide

section
variable {base m c : Nat}

def penalised (base m c : Nat) : Nat := base * ((2 * m - c) * c) / m / m

theorem penalty_factor {m c : Nat} (h : m ≤ c) (hc : c ≤ 2 * m) :
    (2 * m - c) * c = m ^ 2 - (c - m) ^ 2 := by
  rw [Nat.sq_sub_sq, mul_comm]
  congr 1 <;> omega

theorem penalty_factor_lt (h : m < c) (hc : c ≤ 2 * m) : (2 * m - c) * c < m ^ 2 := by
  rw [penalty_factor h.le hc]
  have hpos : 0 < (c - m) ^ 2 := pow_pos (by omega) 2
  have hm : 0 < m ^ 2 := pow_pos (by omega) 2
  exact Nat.sub_lt hm hpos

theorem penalty_factor_antitone {c' : Nat} (h : m ≤ c) (hle : c ≤ c') (hc : c' ≤ 2 * m) :
    (2 * m - c') * c' ≤ (2 * m - c) * c := by
  rw [penalty_factor (h.trans hle) hc, penalty_factor h (hle.trans hc)]
  exact Nat.sub_le_sub_left (Nat.pow_le_pow_left (Nat.sub_le_sub_right hle m) 2) _

theorem penalised_lt (hbase : 0 < base) (h : m < c) (hc : c ≤ 2 * m) :
    penalised base m c < base := by
  rw [penalised, Nat.div_div_eq_div_mul]
  refine Nat.div_lt_of_lt_mul ?_
  rw [mul_comm (m * m), ← sq]
  exact mul_lt_mul_of_pos_left (penalty_factor_lt h hc) hbase

theorem penalised_antitone {c' : Nat} (h : m ≤ c) (hle : c ≤ c') (hc : c' ≤ 2 * m) :
    penalised base m c' ≤ penalised base m c :=
  Nat.div_le_div_right (Nat.div_le_div_right
    (Nat.mul_le_mul_left _ (penalty_factor_antitone h hle hc)))

theorem multiplicand_eq (hm : m < 2 ^ 32) (h : m < c) (hc : c ≤ 2 * m) :
    wrap (wsub (wrap (2 * m)) c * c) = (2 * m - c) * c := by
  have hsq : m ^ 2 < 2 ^ 64 := by
    calc m ^ 2 < (2 ^ 32) ^ 2 := Nat.pow_lt_pow_left hm (by norm_num)
      _ = 2 ^ 64 := by norm_num
  rw [wrap_of_lt (n := 2 * m) (by omega), wsub_of_le hc (by omega)]
  exact wrap_of_lt ((penalty_factor_lt h hc).trans hsq)

theorem penaltyWords_eq (hbase : 0 < base) (hb : base < 2 ^ 64) (hm : m < 2 ^ 32) (h : m < c)
    (hc : c ≤ 2 * m) : penaltyWords base m c = .ok (penalised base m c) := by
  have hmult : (2 * m - c) * c < 2 ^ 64 := by
    rw [← multiplicand_eq hm h hc]
    exact wrap_lt _
  have hprod : base * ((2 * m - c) * c) < 2 ^ 128 := by
    calc base * ((2 * m - c) * c) < 2 ^ 64 * 2 ^ 64 := Nat.mul_lt_mul'' hb hmult
      _ = 2 ^ 128 := by norm_num
  have hlt := penalised_lt hbase h hc
  have hword : wrap (penalised base m c) = penalised base m c := wrap_of_lt (hlt.trans hb)
  have hhigh : penalised base m c / 2 ^ 64 = 0 := Nat.div_eq_of_lt (hlt.trans hb)
  simp only [penaltyWords]
  rw [multiplicand_eq hm h hc, mul128_eq hb hmult, ok_bind, mul64,
    Prod.swap_prod_mk, div128By64_twice hprod]
  refine (check_decide hhigh _ _).trans ?_
  refine (check_decide (hword.trans_lt hlt) _ _).trans ?_
  exact congrArg Except.ok hword

end
variable {median coins version c : Nat}

theorem rewardWords_full (h : c ≤ max median (getMinBlockWeight version)) :
    getBlockRewardWords median c coins version = .ok (some (baseReward coins version)) :=
  if_pos h

theorem rewardWords_penalised (hm : max median (getMinBlockWeight version) < 2 ^ 32)
    (h : max median (getMinBlockWeight version) < c)
    (hc : c ≤ 2 * max median (getMinBlockWeight version)) :
    getBlockRewardWords median c coins version =
      .ok (some (penalised (baseReward coins version) (max median (getMinBlockWeight version)) c)) := by
  have htwice : ¬ c > wrap (2 * max median (getMinBlockWeight version)) := by
    rw [wrap_of_lt (by omega)]
    omega
  simp only [getBlockRewardWords]
  rw [if_neg (by omega), if_neg htwice,
    penaltyWords_eq (baseReward_pos coins version) (baseReward_lt coins version) hm h hc]
  rfl

theorem rewardWords_eq (hm : max median (getMinBlockWeight version) < 2 ^ 32) :
    getBlockRewardWords median c coins version = .ok (getBlockReward median c coins version) := by
  by_cases h : c ≤ max median (getMinBlockWeight version)
  · rw [rewardWords_full h, getBlockReward, if_pos h]
  · by_cases hc : c ≤ 2 * max median (getMinBlockWeight version)
    · have hlt : max median (getMinBlockWeight version) < c := by omega
      have htwice : ¬ c > wrap (2 * max median (getMinBlockWeight version)) := by
        rw [wrap_of_lt (by omega)]
        omega
      have hword := (penalised_lt (baseReward_pos coins version) hlt hc).trans
        (baseReward_lt coins version)
      rw [rewardWords_penalised hm hlt hc, getBlockReward, if_neg h, if_neg htwice,
        multiplicand_eq hm hlt hc]
      exact congrArg (Except.ok ∘ some) (wrap_of_lt hword).symm
    · have htwice : c > wrap (2 * max median (getMinBlockWeight version)) := by
        rw [wrap_of_lt (by omega)]
        omega
      rw [getBlockRewardWords, getBlockReward, if_neg h, if_neg h, if_pos htwice, if_pos htwice]

theorem oversized_block_penalised :
    getBlockRewardWords 300000 450000 0 16 = .ok (some 26388279066623) ∧
      getBlockRewardWords 300000 600001 0 16 = .ok none :=
  ⟨rewardWords_eq (by decide), rewardWords_eq (by decide)⟩

theorem getBlockReward_le {reward : Nat} (h : getBlockReward median c coins version = some reward) :
    reward ≤ baseReward coins version := by
  by_cases hfull : c ≤ max median (getMinBlockWeight version)
  · rw [getBlockReward, if_pos hfull] at h
    exact (Option.some.inj h).ge
  by_cases htwice : c > wrap (2 * max median (getMinBlockWeight version))
  · rw [getBlockReward, if_neg hfull, if_pos htwice] at h
    cases h
  rw [getBlockReward, if_neg hfull, if_neg htwice] at h
  obtain rfl := Option.some.inj h
  generalize max median (getMinBlockWeight version) = m at hfull htwice ⊢
  have hfactor : wrap (wsub (wrap (2 * m)) c * c) ≤ m * m := by
    by_cases hm : m < 2 ^ 32
    · rw [wrap_of_lt (n := 2 * m) (by omega)] at htwice
      rw [multiplicand_eq hm (not_le.mp hfull) (not_lt.mp htwice), ← sq]
      rw [penalty_factor (not_le.mp hfull).le (not_lt.mp htwice)]
      exact Nat.sub_le _ _
    · have hsq := Nat.mul_le_mul (not_lt.mp hm) (not_lt.mp hm)
      exact (wrap_lt _).le.trans (le_trans (by norm_num) hsq)
  refine (Nat.mod_le _ _).trans ?_
  rw [Nat.div_div_eq_div_mul]
  refine Nat.div_le_of_le_mul ?_
  rw [mul_comm (m * m)]
  exact Nat.mul_le_mul_left _ hfactor

theorem block_reward_exact (median coins version : Nat)
    (hm : max median (getMinBlockWeight version) < 2 ^ 32) :
    let m := max median (getMinBlockWeight version)
    let base := baseReward coins version
    (∀ c, m < c → c ≤ 2 * m →
      getBlockRewardWords median c coins version = .ok (some (base * ((2 * m - c) * c) / m / m)) ∧
        base * ((2 * m - c) * c) / m / m < base) ∧
    ∀ c c', c ≤ c' → c' ≤ 2 * m → ∃ r r',
      getBlockRewardWords median c coins version = .ok (some r) ∧
        getBlockRewardWords median c' coins version = .ok (some r') ∧ r' ≤ r := by
  intro m base
  have hpos := baseReward_pos coins version
  refine ⟨fun c h hc => ⟨rewardWords_penalised hm h hc, penalised_lt hpos h hc⟩, ?_⟩
  intro c c' hle hc
  by_cases hfull : c' ≤ m
  · exact ⟨base, base, rewardWords_full (hle.trans hfull), rewardWords_full hfull, le_rfl⟩
  · have hpen : getBlockRewardWords median c' coins version = .ok (some (penalised base m c')) :=
      rewardWords_penalised hm (not_le.mp hfull) hc
    by_cases hc0 : c ≤ m
    · exact ⟨base, _, rewardWords_full hc0, hpen, (penalised_lt hpos (not_le.mp hfull) hc).le⟩
    · have hlt : m < c := not_le.mp hc0
      exact ⟨_, _, rewardWords_penalised hm hlt (hle.trans hc), hpen,
        penalised_antitone hlt.le hle hc⟩

theorem tail_reward_exact :
    getBlockRewardWords 300000 450000 (2 ^ 64 - 1) 16 = .ok (some 450000000000) := by
  have h := ((block_reward_exact 300000 (2 ^ 64 - 1) 16 (by decide)).1 450000
    (by decide) (by decide)).1
  exact h

end Jero.Chain
