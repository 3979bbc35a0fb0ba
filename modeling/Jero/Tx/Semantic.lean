import Jero.Tx.Basic

namespace Jero.Tx
open Jero.Machine List

inductive RelayMethod where
  | none
  | loc
  | forward
  | stem
  | fluff
  | block
deriving DecidableEq, Repr

structure TxVerificationContext where
  relay : RelayMethod
  verifivationFailed : Bool
  noDropOffense : Bool
  verifivationImpossible : Bool
  addedToPool : Bool
  lowMixin : Bool
  doubleSpend : Bool
  invalidInput : Bool
  invalidOutput : Bool
  tooBig : Bool
  overspend : Bool
  feeTooLow : Bool
  tooFewOutputs : Bool
  txExtraTooBig : Bool
  nonzeroUnlockTime : Bool
deriving DecidableEq, Repr

def TxVerificationContext.initial : TxVerificationContext :=
  ⟨.none, false, false, false, false, false, false, false, false, false, false, false, false, false,
    false⟩

def hfVersionDynamicFee : Nat := 4

def hfVersionPerByteFee : Nat := 8

def hfVersionViewTags : Nat := 15

def cryptonoteMaxTxSize : Nat := 1000000

def coinbaseBlobReservedSize : Nat := 600

def getMinBlockWeight (version : Nat) : Nat :=
  if version < 2 then 20000 else if version < 5 then 60000 else 300000

def getTransactionWeightLimit (hfVersion : Nat) : Nat :=
  if hfVersion ≥ hfVersionPerByteFee then getMinBlockWeight hfVersion / 2 - coinbaseBlobReservedSize
  else getMinBlockWeight hfVersion - coinbaseBlobReservedSize

structure TxChecks where
  checkKey : PublicKey → Bool
  keyImageInDomain : KeyImage → Bool
  blobSize : Transaction → Nat
  weight : Transaction → Nat
  checkTxOutputs : Transaction → TxVerificationContext → Nat → Bool × TxVerificationContext
  verRctSemantics : Transaction → Bool

def checkInputsTypesSupported (tx : Transaction) : Bool :=
  tx.vin.all (fun
    | .toKey _ => true
    | _ => false)

def getOutputPublicKey (out : TxOut) : Option PublicKey :=
  match out.target with
  | .toKey key => some key
  | .toTaggedKey key => some key
  | _ => none

def checkOutsValid (env : TxChecks) (tx : Transaction) : Bool :=
  tx.vout.all (fun out =>
    match getOutputPublicKey out with
    | none => false
    | some key => (tx.version != 1 || decide (0 < out.amount)) && env.checkKey key)

def checkInputsOverflow : Nat → List TxIn → Bool
  | _, [] => true
  | money, .toKey input :: vin =>
    if money > wrap (input.amount + money) then false
    else checkInputsOverflow (wrap (money + input.amount)) vin
  | _, _ :: _ => false

def checkOutsOverflow : Nat → List TxOut → Bool
  | _, [] => true
  | money, out :: vout =>
    if money > wrap (out.amount + money) then false
    else checkOutsOverflow (wrap (money + out.amount)) vout

def checkMoneyOverflow (tx : Transaction) : Bool :=
  checkInputsOverflow 0 tx.vin && checkOutsOverflow 0 tx.vout

def checkTxInputsKeyimagesDiff : Finset KeyImage → List TxIn → Bool
  | _, [] => true
  | seen, .toKey input :: vin =>
    if input.kImage ∈ seen then false else checkTxInputsKeyimagesDiff (insert input.kImage seen) vin
  | _, _ :: _ => false

def checkTxInputsRingMembersDiff (tx : Transaction) (hfVersion : Nat) : Bool :=
  if hfVersion ≥ 6 then
    tx.vin.all (fun
      | .toKey input => input.keyOffsets.tail.all (· != 0)
      | _ => false)
  else true

def checkTxInputsKeyimagesDomain (env : TxChecks) (tx : Transaction) : Bool :=
  tx.vin.all (fun
    | .toKey input => env.keyImageInDomain input.kImage
    | _ => false)

def TxOutTarget.isTaggedKey : TxOutTarget → Bool
  | .toTaggedKey _ => true
  | _ => false

def TxOutTarget.isKey : TxOutTarget → Bool
  | .toKey _ => true
  | _ => false

def checkOutputTypes (tx : Transaction) (hfVersion : Nat) : Bool :=
  if hfVersion > hfVersionViewTags then tx.vout.all (fun out => out.target.isTaggedKey)
  else if hfVersion < hfVersionViewTags then tx.vout.all (fun out => out.target.isKey)
  else tx.vout.all (fun out => out.target.isKey) || tx.vout.all (fun out => out.target.isTaggedKey)

def checkTxSemantic (env : TxChecks) (tx : Transaction) (tvc : TxVerificationContext)
    (hfVersion : Nat) : Bool × TxVerificationContext :=
  let badInput := { tvc with verifivationFailed := true, invalidInput := true }
  let badOutput := { tvc with verifivationFailed := true, invalidOutput := true }
  let badAmount := { tvc with verifivationFailed := true, overspend := true }
  if tx.vin.isEmpty then (false, badInput)
  else if !checkInputsTypesSupported tx then (false, badInput)
  else if !checkOutsValid env tx then (false, badOutput)
  else if tx.version > 1 ∧ tx.outPkSize ≠ tx.vout.length then (false, badOutput)
  else if !checkMoneyOverflow tx then (false, badAmount)
  else if tx.version = 1 ∧ (inputsAmount tx.vin).getD 0 ≤ outputsAmount tx.vout then
    (false, badAmount)
  else if !checkTxInputsKeyimagesDiff ∅ tx.vin then (false, badInput)
  else if !checkTxInputsRingMembersDiff tx hfVersion then (false, badInput)
  else if !checkTxInputsKeyimagesDomain env tx then (false, badInput)
  else if !checkOutputTypes tx hfVersion then (false, badOutput)
  else (true, tvc)

def verNonInputConsensus (env : TxChecks) (tx : Transaction) (tvc : TxVerificationContext)
    (hfVersion : Nat) : Bool × TxVerificationContext :=
  let maxTxVersion := if hfVersion < hfVersionDynamicFee then 1 else 2
  if env.blobSize tx > cryptonoteMaxTxSize then
    (false, { tvc with verifivationFailed := true, tooBig := true })
  else if tx.version = 0 ∨ tx.version > maxTxVersion then
    (false, { tvc with verifivationFailed := true })
  else if hfVersion ≥ hfVersionPerByteFee ∧ env.weight tx > getTransactionWeightLimit hfVersion then
    (false, { tvc with verifivationFailed := true, tooBig := true })
  else
    let (semanticOk, tvc) := checkTxSemantic env tx tvc hfVersion
    if !semanticOk then (false, tvc)
    else
      let (outputsOk, tvc) := env.checkTxOutputs tx tvc hfVersion
      if !outputsOk || tvc.verifivationFailed then (false, tvc)
      else if tx.version ≥ 2 ∧ !env.verRctSemantics tx then
        (false, { tvc with verifivationFailed := true, invalidInput := true })
      else (true, tvc)

structure PassesSemantic (env : TxChecks) (tx : Transaction) (hfVersion : Nat) : Prop where
  nonempty : tx.vin ≠ []
  inputTypes : checkInputsTypesSupported tx = true
  outsValid : checkOutsValid env tx = true
  outPk : tx.version > 1 → tx.outPkSize = tx.vout.length
  moneyOverflow : checkMoneyOverflow tx = true
  amounts : tx.version = 1 → outputsAmount tx.vout < (inputsAmount tx.vin).getD 0
  keyimagesDiff : checkTxInputsKeyimagesDiff ∅ tx.vin = true
  ringMembersDiff : checkTxInputsRingMembersDiff tx hfVersion = true
  keyimagesDomain : checkTxInputsKeyimagesDomain env tx = true
  outputTypes : checkOutputTypes tx hfVersion = true

variable {tvc : TxVerificationContext} {tx : Transaction} {hfVersion : Nat} {env : TxChecks}

theorem checkTxSemantic_passes (h : (checkTxSemantic env tx tvc hfVersion).1 = true) :
    PassesSemantic env tx hfVersion := by
  obtain ⟨hvin, h⟩ := accepted_past_guard h
  obtain ⟨htypes, h⟩ := accepted_past_guard h
  obtain ⟨houts, h⟩ := accepted_past_guard h
  obtain ⟨hpk, h⟩ := accepted_past_guard h
  obtain ⟨hmoney, h⟩ := accepted_past_guard h
  obtain ⟨hamounts, h⟩ := accepted_past_guard h
  obtain ⟨hdiff, h⟩ := accepted_past_guard h
  obtain ⟨hring, h⟩ := accepted_past_guard h
  obtain ⟨hdomain, h⟩ := accepted_past_guard h
  obtain ⟨houtputs, -⟩ := accepted_past_guard h
  refine ⟨?_, not_rejected htypes, not_rejected houts, ?_, not_rejected hmoney, ?_,
    not_rejected hdiff, not_rejected hring, not_rejected hdomain, not_rejected houtputs⟩
  · rintro hnil
    exact hvin (List.isEmpty_iff.mpr hnil)
  · intro hversion
    by_contra hsize
    exact hpk ⟨hversion, hsize⟩
  · intro hversion
    by_contra hamount
    exact hamounts ⟨hversion, not_lt.mp hamount⟩

theorem verNonInputConsensus_passes (h : (verNonInputConsensus env tx tvc hfVersion).1 = true) :
    PassesSemantic env tx hfVersion := by
  obtain ⟨-, h⟩ := accepted_past_guard h
  obtain ⟨-, h⟩ := accepted_past_guard h
  obtain ⟨-, h⟩ := accepted_past_guard h
  obtain ⟨hsemantic, -⟩ := accepted_past_guard h
  exact checkTxSemantic_passes (not_rejected hsemantic)

theorem checkInputsTypesSupported_iff (tx : Transaction) :
    checkInputsTypesSupported tx = true ↔ AllToKey tx.vin := by
  simp only [checkInputsTypesSupported, all_eq_true, AllToKey]
  refine forall₂_congr ?_
  intro txin _
  cases txin <;> simp

theorem checkTxInputsKeyimagesDiff_nodup {vin : List TxIn} {seen : Finset KeyImage}
    (h : checkTxInputsKeyimagesDiff seen vin = true) :
    (keyImages vin).Nodup ∧ ∀ k ∈ keyImages vin, k ∉ seen := by
  induction vin generalizing seen with
  | nil => exact ⟨nodup_nil, by simp [keyImages]⟩
  | cons txin vin ih =>
    cases txin with
    | toKey input =>
      simp only [checkTxInputsKeyimagesDiff] at h
      split at h
      · cases h
      · rename_i hnot
        obtain ⟨hnodup, hfresh⟩ := ih h
        rw [keyImages_cons_toKey]
        refine ⟨nodup_cons.mpr ⟨?_, hnodup⟩, forall_mem_cons.mpr ⟨hnot, ?_⟩⟩
        · intro hmem
          exact hfresh _ hmem (Finset.mem_insert_self _ _)
        · intro k hk hseen
          exact hfresh k hk (Finset.mem_insert_of_mem hseen)
    | gen height => cases h
    | toScript => cases h
    | toScriptHash => cases h

end Jero.Tx
