import Jero.Algebra.Windows
import Jero.Ringct.Simple

namespace Jero.Ringct
open Jero.Algebra Jero.Machine List Except
variable {amounts : List UInt64} {outamounts : List UInt64} {config : RctConfig}
section
variable {E : Type} [AddCommGroup E]

theorem addKeys_eq_sum (l : List E) : addKeys l = l.sum := by
  cases l with
  | nil => rfl
  | cons a rest =>
    rw [addKeys, sum_cons]
    induction rest generalizing a with
    | nil => rw [foldl_nil, sum_nil, add_zero]
    | cons b rest ih => rw [foldl_cons, ih, sum_cons, add_assoc]

theorem sumMasks_eq_sum (masks : List Scalar) : sumMasks masks = masks.sum := by
  have hfold : ∀ acc, masks.foldl (fun sum mask => mask + sum) acc = masks.sum + acc := by
    induction masks with
    | nil =>
      intro acc
      rw [foldl_nil, sum_nil, zero_add]
    | cons mask masks ih =>
      intro acc
      rw [foldl_cons, ih, sum_cons]
      ring
  rw [sumMasks, hfold, add_zero]

def totalAmount (amounts : List UInt64) : Nat := (amounts.map UInt64.toNat).sum

theorem totalAmount_lt (h : amounts.length < 2 ^ 32) : totalAmount amounts < 2 ^ 96 := by
  have hle : totalAmount amounts ≤ (amounts.map UInt64.toNat).length • (2 ^ 64) := by
    refine sum_le_card_nsmul _ _ ?_
    intro n hn
    obtain ⟨amount, -, rfl⟩ := mem_map.mp hn
    exact amount.toNat_lt.le
  rw [length_map, smul_eq_mul] at hle
  omega

variable [Module Scalar E] (c : Generators E)

def Commits (amounts : List UInt64) (outputs : List (E × Scalar)) : Prop :=
  List.Forall₂ (fun amount o => o.1 = genC c o.2 amount) amounts outputs

theorem sum_of_commits {outputs : List (E × Scalar)} (h : Commits c amounts outputs) :
    (outputs.map Prod.fst).sum = (outputs.map Prod.snd).sum • c.G + totalAmount amounts • c.H := by
  induction h with
  | nil => simp [totalAmount]
  | @cons amount o amounts outputs ho _ ih =>
    have htotal : totalAmount (amount :: amounts) = amount.toNat + totalAmount amounts := rfl
    rw [map_cons, map_cons, sum_cons, sum_cons, ih, ho, htotal, genC, d2h,
      Nat.cast_smul_eq_nsmul, add_smul, add_smul]
    abel

theorem commits_zip {masks : List Scalar} (h : masks.length = amounts.length) :
    Commits c amounts ((List.zipWith (genC c) masks amounts).zip masks) := by
  induction masks generalizing amounts with
  | nil =>
    obtain rfl := length_eq_zero_iff.mp h.symm
    exact .nil
  | cons mask masks ih =>
    cases amounts with
    | nil => cases h
    | cons amount amounts => exact .cons rfl (ih (Nat.succ.inj h))

end
section
variable {E K : Type} [AddCommGroup E] [Module Scalar E] (c : Generators E)

theorem proveRange_commits (ai : Nat → Scalar) (amount : UInt64) :
    (proveRange c ai amount).1 = genC c (proveRange c ai amount).2 amount := by
  have hword : amount.toNat % 2 ^ 64 = amount.toNat := Nat.mod_eq_of_lt amount.toNat_lt
  have hpartial : ((List.range atomCount).foldl (proveRangeStep c ai amount) (0, 0)).1 =
    ((List.range atomCount).foldl (proveRangeStep c ai amount) (0, 0)).2 • c.G + (amount.toNat % 2 ^
    atomCount) • c.H := by
    induction atomCount with
    | zero => simp [Nat.mod_one]
    | succ atomCount ih =>
      rw [range_succ, foldl_append, foldl_cons, foldl_nil, proveRangeStep, ih, mod_two_pow_succ]
      cases hbit : amount.toNat.testBit atomCount with
      | false =>
        simp only [d2b, hbit, Bool.false_eq_true, if_false, Bool.toNat_false, zero_mul, add_zero,
          add_smul]
        abel
      | true =>
        simp only [d2b, hbit, if_true, Bool.toNat_true, one_mul, add_smul, H2]
        abel
  rw [atomCount, hword] at hpartial
  rw [genC, d2h, Nat.cast_smul_eq_nsmul]
  exact hpartial

theorem eight_mul_invEight : (8 : Scalar) * invEight = 1 := by
  have hcoprime : Nat.Coprime 8 groupOrder := by
    rw [groupOrder]
    norm_num
  exact ZMod.coe_mul_inv_eq_one 8 hcoprime

theorem eight_smul_eighth (mask : Scalar) (amount : UInt64) :
    (8 : Scalar) • eighthCommitment c mask amount = genC c mask amount := by
  have hcancel : ∀ x : Scalar, 8 * (x * invEight) = x := by
    intro x
    calc 8 * (x * invEight) = x * (8 * invEight) := by ring
      _ = x := by rw [eight_mul_invEight, mul_one]
  rw [eighthCommitment, smul_add, smul_smul, smul_smul, hcancel, hcancel, genC]

theorem dummy_commits (outamounts : List UInt64) :
    Commits c outamounts
      ((makeDummyBulletproof c outamounts).map fun x => ((8 : Scalar) • x.1, x.2)) := by
  induction outamounts with
  | nil => exact .nil
  | cons amount outamounts ih =>
    refine .cons ?_ ih
    have heighth := eight_smul_eighth c 1 amount
    rw [eighthCommitment, one_mul] at heighth
    exact heighth

theorem zipWith_commits (mask : K → Scalar) {sk : List K} (h : amounts.length = sk.length) :
    Commits c amounts ((List.zipWith
      (fun amount k => (eighthCommitment c (mask k) amount, mask k)) amounts sk).map
        fun x => ((8 : Scalar) • x.1, x.2)) := by
  induction amounts generalizing sk with
  | nil =>
    obtain rfl := length_eq_zero_iff.mp h.symm
    exact .nil
  | cons amount amounts ih =>
    cases sk with
    | nil => cases h
    | cons k sk => exact .cons (eight_smul_eighth c (mask k) amount) (ih (Nat.succ.inj h))

variable {mode : DeviceMode} {mask : K → Scalar}

theorem mapIdx_commits (atoms : Nat → Nat → Scalar) (outamounts : List UInt64) :
    Commits c outamounts (outamounts.mapIdx fun n amount => proveRange c (atoms n) amount) := by
  induction outamounts generalizing atoms with
  | nil => exact .nil
  | cons amount outamounts ih =>
    rw [mapIdx_cons]
    exact .cons (proveRange_commits c (atoms 0) amount) (ih fun n => atoms (n + 1))

end
section
variable {E K : Type} [AddCommGroup E] [Module Scalar E] (c : Generators E) (random : Nat → Scalar)

theorem length_pseudoMasks {inputs : Nat} (sumout : Scalar)
    (h : 0 < inputs) : (pseudoMasks random inputs sumout).length = inputs := by
  rw [pseudoMasks, length_append, length_map, length_range, length_singleton]
  omega

theorem sum_pseudoMasks (inputs : Nat) (sumout : Scalar) :
    (pseudoMasks random inputs sumout).sum = sumout := by
  rw [pseudoMasks, sum_append, sum_singleton, sumMasks_eq_sum]
  ring

variable {inamounts : List UInt64}

theorem sum_pseudoOuts (sumout : Scalar) (h : inamounts ≠ []) :
    (List.zipWith (genC c) (pseudoMasks random inamounts.length sumout) inamounts).sum =
      sumout • c.G + totalAmount inamounts • c.H := by
  have hlen := length_pseudoMasks random sumout (length_pos_iff.mpr h)
  have hsum := sum_of_commits c (commits_zip c hlen)
  have hzip : (zipWith (genC c) (pseudoMasks random inamounts.length sumout)
      inamounts).length = (pseudoMasks random inamounts.length sumout).length := by
    rw [length_zipWith, hlen, Nat.min_self]
  rwa [map_fst_zip hzip.le, map_snd_zip hzip.ge, sum_pseudoMasks] at hsum

theorem rctTypeFor_summed {type : Jero.Serial.RctType} (h : rctTypeFor config = .ok type) :
    (type.isBulletproof || type.isBulletproofPlus) =
      decide (config.rangeProofType > rangeProofBorromean) := by
  rw [rctTypeFor] at h
  split at h
  case isTrue hkind =>
    rw [decide_eq_true hkind]
    split_ifs at h
    all_goals
      obtain rfl := ok.inj h
      rfl
  case isFalse hkind =>
    rw [decide_eq_false hkind]
    obtain rfl := ok.inj h
    rfl

theorem nsmul_H_inj {m n : Nat} (hm : m < groupOrder) (hn : n < groupOrder) :
    m • c.H = n • c.H ↔ m = n := by
  rw [nsmul_eq_nsmul_iff_modEq, c.order_H]
  constructor
  · intro h
    exact h.eq_of_lt_of_lt hm hn
  · rintro rfl
    rfl

theorem commitment_sum_check_iff_balanced [DecidableEq E] (config : RctConfig)
    (mode : DeviceMode) (genCommitmentMask : K → Scalar) (random : RctRandomness)
    (i : RctInputs K) (hin : i.inamounts.length < 2 ^ 32) (hout : i.outamounts.length < 2 ^ 32)
    (rv : RctSimple E) (h : genRctSimple c config mode genCommitmentMask random i = .ok rv) :
    commitmentSumCheck c rv = true ↔
      (i.inamounts.map UInt64.toNat).sum =
        (i.outamounts.map UInt64.toNat).sum + i.txnFee.toNat := by
  rw [genRctSimple] at h
  obtain ⟨⟨⟩, hcheck, h⟩ := bind_ok h
  obtain ⟨type, htype, h⟩ := bind_ok h
  obtain ⟨outputs, houtputs, h⟩ := bind_ok h
  obtain rfl := ok.inj h
  have hcommits : Commits c i.outamounts outputs := by
    simp only [rangeProofOutputs] at houtputs
    split at houtputs
    · split at houtputs
      · rw [bulletproofOutputs] at houtputs
        obtain ⟨proved, hproved, houtputs⟩ := bind_ok houtputs
        obtain rfl := ok.inj houtputs
        cases mode with
        | transactionCreateFake =>
          obtain rfl := ok.inj hproved
          exact dummy_commits c i.outamounts
        | transactionCreateReal =>
          simp only [provedCommitments, proveRangeBulletproof] at hproved
          split at hproved
          · cases hproved
          rename_i hlen
          split at hproved
          · cases hproved
          split at hproved
          · cases hproved
          obtain rfl := ok.inj hproved
          exact zipWith_commits c genCommitmentMask (not_not.mp hlen)
      · cases houtputs
    · obtain rfl := ok.inj houtputs
      exact mapIdx_commits c random.atoms i.outamounts
  have hnonempty : i.inamounts ≠ [] := by
    intro hempty
    rw [RctInputs.check, hempty, isEmpty_nil, if_pos rfl] at hcheck
    cases hcheck
  rw [commitmentSumCheck, decide_eq_true_iff, RctSimple.summedPseudoOuts, rctTypeFor_summed htype]
  have hselect : ∀ l : List E,
      (if decide (config.rangeProofType > rangeProofBorromean) = true then
        (if config.rangeProofType > rangeProofBorromean then l else [])
      else if config.rangeProofType > rangeProofBorromean then [] else l) = l := by
    intro l
    by_cases hkind : config.rangeProofType > rangeProofBorromean
    · rw [if_pos (decide_eq_true hkind), if_pos hkind]
    · rw [decide_eq_false hkind, if_neg Bool.false_ne_true, if_neg hkind]
  rw [hselect, addKeys_eq_sum, addKeys_eq_sum, sum_pseudoOuts c _ _ hnonempty,
    sum_of_commits c hcommits, sumMasks_eq_sum]
  have hinputs := totalAmount_lt hin
  have hspent := totalAmount_lt hout
  have hfee := i.txnFee.toNat_lt
  have horder : 2 ^ 252 ≤ groupOrder := Nat.le_add_right _ _
  have hgroup : ∀ sumout : Scalar, scalarmultH c (d2h i.txnFee) +
      (sumout • c.G + totalAmount i.outamounts • c.H) =
        sumout • c.G + (totalAmount i.outamounts + i.txnFee.toNat) • c.H := by
    intro sumout
    rw [scalarmultH, d2h, Nat.cast_smul_eq_nsmul, add_smul]
    abel
  rw [hgroup, add_right_inj, nsmul_H_inj c (by omega) (by omega)]
  exact Iff.rfl

end

def unitGenerators : Generators Scalar where
  G := 1
  H := 1
  order_H := ZMod.addOrderOf_one groupOrder

def sampleInputs (fee : UInt64) : RctInputs Unit where
  inSk := [(), ()]
  destinations := [()]
  inamounts := [2 ^ 63, 2 ^ 63 + 5]
  outamounts := [3]
  txnFee := fee
  mixRing := [[()], [()]]
  amountKeys := [()]
  index := [0, 0]

def sampleRandomness : RctRandomness where
  atoms := fun n i => (n + i : Nat)
  pseudoMask := fun i => (7 + i : Nat)

theorem wrapped_sum_not_balanced :
    (genRctSimple unitGenerators ⟨3, 4⟩ .transactionCreateReal (fun _ => 11) sampleRandomness
        (sampleInputs 2)).isOk = true ∧
      ∀ rv, genRctSimple unitGenerators ⟨3, 4⟩ .transactionCreateReal (fun _ => 11)
          sampleRandomness (sampleInputs 2) = .ok rv →
        ¬ commitmentSumCheck unitGenerators rv = true := by
  refine ⟨by decide +kernel, ?_⟩
  intro rv h hcheck
  have hbalance := (commitment_sum_check_iff_balanced unitGenerators ⟨3, 4⟩ .transactionCreateReal
    _ sampleRandomness (sampleInputs 2) (by decide) (by decide) rv h).mp hcheck
  revert hbalance
  decide +kernel

end Jero.Ringct
