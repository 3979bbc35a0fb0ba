import Jero.Chain.LongTermWeight
import Jero.Chain.RewardWords
import Jero.Common.Money

namespace Jero.Chain
open Jero.Machine Jero.Common

def dynamicFeeReferenceTransactionWeight : Nat := 3000

def scaling2021FeeRoundingPlaces : Nat := 2

def feeQuantizationMask : Nat := 10 ^ (12 - 8)

def getDynamicBaseFee (blockReward medianBlockWeight : Nat) : Except String Nat := do
  let median := max medianBlockWeight fullRewardZoneV5
  let product ← mul128 blockReward dynamicFeeReferenceTransactionWeight
  let once := div128By64 product.1 product.2 median
  let twice := div128By64 once.1 once.2 median
  check (decide (twice.1 = 0)) "hi == 0"
  let lo := wsub twice.2 (twice.2 / 20)
  pure (if lo = 0 then 1 else lo)

structure FeeState where
  cumulWeightLimit : Nat
  alreadyGeneratedCoins : Nat
  longTermEffectiveMedian : Nat
  version : Nat
deriving DecidableEq, Repr

def checkFee (s : FeeState) (txWeight fee : Nat) : Except String Bool := do
  let median := s.cumulWeightLimit / 2
  match ← getBlockRewardWords median 1 s.alreadyGeneratedCoins s.version with
  | none => pure false
  | some baseReward =>
    let feePerByte ← getDynamicBaseFee baseReward (min median s.longTermEffectiveMedian)
    let needed := wrap (txWeight * feePerByte)
    let quantized := wrap (wsub (wrap (needed + feeQuantizationMask)) 1 / feeQuantizationMask *
      feeQuantizationMask)
    pure (decide (¬ fee < wsub quantized (quantized / 50)))

structure Tiers where
  low : Nat
  normal : Nat
  medium : Nat
  high : Nat
deriving DecidableEq, Repr

def estimateTiers (baseReward Mnw Mlw : Nat) : Tiers :=
  let Mfw := min Mnw Mlw
  let reference := dynamicFeeReferenceTransactionWeight
  let Fl := wrap (baseReward * reference) / wrap (Mfw * Mfw)
  let Fn := wrap (wrap (4 * baseReward) * reference) / wrap (Mfw * Mfw)
  let Fm := wrap (wrap (16 * baseReward) * reference) / wrap (fullRewardZoneV5 * Mfw)
  let Fh := max (wrap (4 * Fm))
    (wrap (wrap (4 * Fm) * Mfw) / (wrap (wrap (32 * reference) * Mnw) / fullRewardZoneV5))
  ⟨Fl, Fn, Fm, Fh⟩

def getDynamicBaseFeeEstimate2021Scaling (baseReward Mnw Mlw : Nat) : Except String (List Nat) := do
  let tiers := estimateTiers baseReward Mnw Mlw
  let low ← roundMoneyUp tiers.low scaling2021FeeRoundingPlaces
  let normal ← roundMoneyUp tiers.normal scaling2021FeeRoundingPlaces
  let medium ← roundMoneyUp tiers.medium scaling2021FeeRoundingPlaces
  let high ← roundMoneyUp tiers.high scaling2021FeeRoundingPlaces
  pure [low, normal, medium, high]

def lowFee (baseReward m : Nat) : Nat := baseReward * dynamicFeeReferenceTransactionWeight / (m * m)

theorem lowFee_le {baseReward m : Nat} (hm : fullRewardZoneV5 ≤ m) :
    lowFee baseReward m ≤ baseReward := by
  have hsq : dynamicFeeReferenceTransactionWeight ≤ m * m :=
    le_trans (by decide) (Nat.mul_le_mul hm hm)
  exact Nat.div_le_of_le_mul (by
    rw [mul_comm (m * m)]
    exact Nat.mul_le_mul_left _ hsq)

theorem floor_at_one (n : Nat) : (if n = 0 then 1 else n) = max 1 n := by
  split <;> omega

theorem getDynamicBaseFee_eq {baseReward m : Nat} (hreward : baseReward < 2 ^ 64)
    (hm : fullRewardZoneV5 ≤ m) :
    getDynamicBaseFee baseReward m =
      .ok (max 1 (lowFee baseReward m - lowFee baseReward m / 20)) := by
  have hreference : dynamicFeeReferenceTransactionWeight < 2 ^ 64 := by decide
  have hprod : baseReward * dynamicFeeReferenceTransactionWeight < 2 ^ 128 := by
    calc _ < 2 ^ 64 * 2 ^ 64 := Nat.mul_lt_mul'' hreward hreference
      _ = 2 ^ 128 := by norm_num
  have hfee : baseReward * dynamicFeeReferenceTransactionWeight / m / m = lowFee baseReward m :=
    Nat.div_div_eq_div_mul _ _ _
  have hlt := (lowFee_le hm).trans_lt hreward
  have hhigh : lowFee baseReward m / 2 ^ 64 = 0 := Nat.div_eq_of_lt hlt
  have hword : wrap (lowFee baseReward m) = lowFee baseReward m := wrap_of_lt hlt
  simp only [getDynamicBaseFee, max_eq_left hm]
  rw [mul128_eq hreward hreference, ok_bind, mul64, Prod.swap_prod_mk]
  rw [div128By64_twice hprod, hfee]
  refine (check_decide hhigh _ _).trans ?_
  rw [hword, wsub_of_le (Nat.div_le_self _ _) hlt, floor_at_one]
  rfl

structure NoOverflow (baseReward Mnw Mlw : Nat) : Prop where
  reward : 16 * baseReward * dynamicFeeReferenceTransactionWeight < 2 ^ 64
  square : min Mnw Mlw * min Mnw Mlw < 2 ^ 64
  short : 32 * dynamicFeeReferenceTransactionWeight * Mnw < 2 ^ 64

def exactTiers (baseReward Mnw Mlw : Nat) : Tiers :=
  let Mfw := min Mnw Mlw
  let reference := dynamicFeeReferenceTransactionWeight
  let Fm := 16 * baseReward * reference / (fullRewardZoneV5 * Mfw)
  ⟨lowFee baseReward Mfw, 4 * baseReward * reference / (Mfw * Mfw), Fm,
    max (4 * Fm) (4 * Fm * Mfw / (32 * reference * Mnw / fullRewardZoneV5))⟩

variable {baseReward Mnw Mlw : Nat}

theorem medium_mul_le (baseReward m : Nat) :
    4 * (16 * baseReward * dynamicFeeReferenceTransactionWeight / (fullRewardZoneV5 * m)) * m ≤
      16 * baseReward * dynamicFeeReferenceTransactionWeight := by
  have hdiv := Nat.div_mul_le_self (16 * baseReward * dynamicFeeReferenceTransactionWeight)
    (fullRewardZoneV5 * m)
  generalize 16 * baseReward * dynamicFeeReferenceTransactionWeight /
    (fullRewardZoneV5 * m) = fm at hdiv ⊢
  calc 4 * fm * m ≤ fullRewardZoneV5 * (fm * m) := by
        rw [mul_assoc]
        exact Nat.mul_le_mul_right _ (by decide)
    _ = fm * (fullRewardZoneV5 * m) := by ring
    _ ≤ _ := hdiv

section
variable (hm : fullRewardZoneV5 ≤ min Mnw Mlw)
include hm

theorem estimateTiers_eq (h : NoOverflow baseReward Mnw Mlw) :
    estimateTiers baseReward Mnw Mlw = exactTiers baseReward Mnw Mlw := by
  obtain ⟨hreward, hsquare, hshort⟩ := h
  have hmedium := (medium_mul_le baseReward (min Mnw Mlw)).trans_lt hreward
  have hpos : 0 < min Mnw Mlw := lt_of_lt_of_le (by decide) hm
  have hzone : fullRewardZoneV5 * min Mnw Mlw < 2 ^ 64 :=
    (Nat.mul_le_mul_right _ hm).trans_lt hsquare
  have hfour := (Nat.le_mul_of_pos_right _ hpos).trans_lt hmedium
  have hbase : 16 * baseReward < 2 ^ 64 := (Nat.le_mul_of_pos_right _ (by decide)).trans_lt hreward
  have hscaled {k : Nat} (hk : k ≤ 16 * baseReward) :
      k * dynamicFeeReferenceTransactionWeight < 2 ^ 64 :=
    (Nat.mul_le_mul_right _ hk).trans_lt hreward
  simp only [estimateTiers, exactTiers, lowFee]
  rw [wrap_of_lt hsquare, wrap_of_lt hzone, wrap_of_lt (n := 4 * baseReward) (by omega),
    wrap_of_lt hbase, wrap_of_lt hreward, wrap_of_lt hfour, wrap_of_lt hmedium,
    wrap_of_lt (n := 32 * dynamicFeeReferenceTransactionWeight) (by decide), wrap_of_lt hshort,
    wrap_of_lt (hscaled (k := baseReward) (by omega)),
    wrap_of_lt (hscaled (k := 4 * baseReward) (by omega))]

theorem exactTiers_ordered (baseReward : Nat) :
    (exactTiers baseReward Mnw Mlw).low ≤ (exactTiers baseReward Mnw Mlw).normal ∧
      (exactTiers baseReward Mnw Mlw).normal ≤ (exactTiers baseReward Mnw Mlw).medium ∧
      (exactTiers baseReward Mnw Mlw).medium ≤ (exactTiers baseReward Mnw Mlw).high := by
  have hpos : 0 < min Mnw Mlw := lt_of_lt_of_le (by decide) hm
  refine ⟨?_, ?_, ?_⟩
  · refine Nat.div_le_div_right (Nat.mul_le_mul_right _ ?_)
    omega
  · refine Nat.div_le_div ?_ (Nat.mul_le_mul_right _ hm) ?_
    · exact Nat.mul_le_mul_right _ (Nat.mul_le_mul_right _ (by norm_num))
    · exact (mul_pos (by decide) hpos).ne'
  · refine le_trans ?_ (le_max_left _ _)
    exact Nat.le_mul_of_pos_left _ (by norm_num)

theorem estimate_eq (h : NoOverflow baseReward Mnw Mlw) :
    getDynamicBaseFeeEstimate2021Scaling baseReward Mnw Mlw =
      .ok [roundedUp (exactTiers baseReward Mnw Mlw).low 2,
        roundedUp (exactTiers baseReward Mnw Mlw).normal 2,
        roundedUp (exactTiers baseReward Mnw Mlw).medium 2,
        roundedUp (exactTiers baseReward Mnw Mlw).high 2] := by
  obtain ⟨hlow, hnormal, hmedium⟩ := exactTiers_ordered hm baseReward
  have hhigh : (exactTiers baseReward Mnw Mlw).high < 10 ^ 19 := by
    have hmedium := (medium_mul_le baseReward (min Mnw Mlw)).trans_lt h.reward
    have htwo : 2 ≤ min Mnw Mlw := le_trans (by decide) hm
    have hratio : 2 ≤ 32 * dynamicFeeReferenceTransactionWeight * Mnw / fullRewardZoneV5 := by
      refine (Nat.le_div_iff_mul_le (by decide)).mpr ?_
      exact Nat.mul_le_mul (by decide) (hm.trans (min_le_left _ _))
    refine max_lt ?_ ?_
    · have hdouble := (Nat.mul_le_mul_left _ htwo).trans_lt hmedium
      omega
    · refine (Nat.div_le_div_left hratio (by norm_num)).trans_lt ?_
      exact Nat.div_lt_of_lt_mul (hmedium.trans (by norm_num))
  have hround {n : Nat} (hn : n < 10 ^ 19) :
      roundMoneyUp n scaling2021FeeRoundingPlaces = .ok (roundedUp n 2) :=
    roundMoneyUp_of_lt (by decide) hn
  simp only [getDynamicBaseFeeEstimate2021Scaling, estimateTiers_eq hm h]
  rw [hround (n := (exactTiers baseReward Mnw Mlw).low) (by omega), ok_bind,
    hround (n := (exactTiers baseReward Mnw Mlw).normal) (by omega), ok_bind,
    hround (n := (exactTiers baseReward Mnw Mlw).medium) (by omega), ok_bind, hround hhigh, ok_bind]
  rfl

end

theorem reduced_le_iff {fee tier : Nat} (hle : fee ≤ tier) (hzero : fee = 0 → tier = 0) :
    max 1 (fee - fee / 20) ≤ tier ↔ 0 < fee := by
  constructor
  · intro h
    by_contra hfee
    omega
  · intro h
    omega

theorem lowFee_pos_iff (baseReward : Nat) {m : Nat} (hm : 0 < m) :
    0 < lowFee baseReward m ↔ m * m ≤ baseReward * dynamicFeeReferenceTransactionWeight :=
  Nat.div_pos_iff.trans (and_iff_right (Nat.mul_pos hm hm))

theorem fee_tiers_sufficient_iff (baseReward Mnw Mlw : Nat) (hnw : fullRewardZoneV5 ≤ Mnw)
    (hlw : fullRewardZoneV5 ≤ Mlw) (h : NoOverflow baseReward Mnw Mlw) :
    ∃ low normal medium high needed,
      getDynamicBaseFeeEstimate2021Scaling baseReward Mnw Mlw =
        .ok [low, normal, medium, high] ∧
      getDynamicBaseFee baseReward (min Mnw Mlw) = .ok needed ∧
      low ≤ normal ∧ normal ≤ medium ∧ medium ≤ high ∧
      ((∀ tier ∈ [low, normal, medium, high], needed ≤ tier) ↔
        min Mnw Mlw * min Mnw Mlw ≤ baseReward * dynamicFeeReferenceTransactionWeight) := by
  have hm := le_min hnw hlw
  have hreward : baseReward < 2 ^ 64 := by
    have hbase := (Nat.le_mul_of_pos_right (16 * baseReward) (by decide)).trans_lt h.reward
    omega
  obtain ⟨hlow, hnormal, hmedium⟩ := exactTiers_ordered hm baseReward
  refine ⟨_, _, _, _, _, estimate_eq hm h, getDynamicBaseFee_eq hreward hm, roundedUp_mono hlow,
    roundedUp_mono hnormal, roundedUp_mono hmedium, ?_⟩
  have hzero : lowFee baseReward (min Mnw Mlw) = 0 →
      roundedUp (exactTiers baseReward Mnw Mlw).low 2 = 0 := by
    intro hfee
    change roundedUp (lowFee baseReward (min Mnw Mlw)) 2 = 0
    rw [hfee]
    rfl
  rw [← lowFee_pos_iff baseReward (lt_of_lt_of_le (by decide) hm),
    ← reduced_le_iff (le_roundedUp _ 2) hzero]
  constructor
  · intro hall
    exact hall _ List.mem_cons_self
  · intro hfirst tier htier
    refine hfirst.trans ?_
    simp only [List.mem_cons, List.not_mem_nil, or_false] at htier
    rcases htier with rfl | rfl | rfl | rfl
    · exact le_rfl
    · exact roundedUp_mono hlow
    · exact roundedUp_mono (hlow.trans hnormal)
    · exact roundedUp_mono ((hlow.trans hnormal).trans hmedium)

theorem tiers_at_full_reward_zone :
    ∃ low normal medium high needed,
      getDynamicBaseFeeEstimate2021Scaling 600000000000 300000 300000 =
        .ok [low, normal, medium, high] ∧
      getDynamicBaseFee 600000000000 300000 = .ok needed ∧
      ∀ tier ∈ [low, normal, medium, high], needed ≤ tier := by
  obtain ⟨low, normal, medium, high, needed, hestimate, hneeded, -, -, -, hiff⟩ :=
    fee_tiers_sufficient_iff 600000000000 300000 300000 (by decide) (by decide)
      ⟨by decide, by decide, by decide⟩
  exact ⟨low, normal, medium, high, needed, hestimate, hneeded, hiff.mpr (by decide)⟩

theorem low_tier_below_required_fee :
    getDynamicBaseFeeEstimate2021Scaling 600000000000 50000000 50000000 =
        .ok [0, 2, 2000, 24000] ∧
      getDynamicBaseFee 600000000000 50000000 = .ok 1 ∧
      checkFee ⟨100000000, 2 ^ 64 - 1, 50000000, 16⟩ 2000 (2000 * 0) = .ok false := by
  decide +kernel

end Jero.Chain
