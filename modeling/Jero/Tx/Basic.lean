import Jero.Machine.Word

namespace Jero.Tx
open Jero.Machine List

abbrev Hash := Nat

abbrev KeyImage := Nat

abbrev PublicKey := Nat

def nullHash : Hash := 0

structure TxInToKey where
  amount : Nat
  keyOffsets : List Nat
  kImage : KeyImage
deriving DecidableEq, Repr

inductive TxIn where
  | gen (height : Nat)
  | toScript
  | toScriptHash
  | toKey (input : TxInToKey)
deriving DecidableEq, Repr

inductive TxOutTarget where
  | toScript
  | toScriptHash
  | toKey (key : PublicKey)
  | toTaggedKey (key : PublicKey)
deriving DecidableEq, Repr

structure TxOut where
  amount : Nat
  target : TxOutTarget
deriving DecidableEq, Repr

structure Transaction where
  version : Nat
  unlockTime : Nat
  vin : List TxIn
  vout : List TxOut
  extraSize : Nat
  signatures : List Nat
  outPkSize : Nat
  txnFee : Nat
  pruned : Bool
deriving DecidableEq, Repr

def Transaction.empty : Transaction := ⟨1, 0, [], [], 0, [], 0, 0, false⟩

def inputsAmount : List TxIn → Option Nat
  | [] => some 0
  | .toKey input :: vin => (inputsAmount vin).map (fun rest => wrap (input.amount + rest))
  | _ :: _ => none

def outputsAmount (vout : List TxOut) : Nat := wrap (vout.map TxOut.amount).sum

def getTxFee (tx : Transaction) : Nat :=
  if tx.version > 1 then tx.txnFee
  else match inputsAmount tx.vin with
    | none => 0
    | some amountIn =>
      if amountIn ≥ outputsAmount tx.vout then amountIn - outputsAmount tx.vout else 0

def keyImages (vin : List TxIn) : List KeyImage :=
  vin.filterMap (fun
    | .toKey input => some input.kImage
    | _ => none)

def AllToKey (vin : List TxIn) : Prop := ∀ txin ∈ vin, ∃ input, txin = .toKey input

def haveKeyImages (kImages : Finset KeyImage) : List TxIn → Bool
  | [] => false
  | .toKey input :: vin => decide (input.kImage ∈ kImages) || haveKeyImages kImages vin
  | _ :: _ => false

def appendKeyImages (kImages : Finset KeyImage) : List TxIn → Finset KeyImage
  | [] => kImages
  | .toKey input :: vin =>
    if input.kImage ∈ kImages then kImages else appendKeyImages (insert input.kImage kImages) vin
  | _ :: _ => kImages

theorem keyImages_cons_toKey (input : TxInToKey) (vin : List TxIn) :
    keyImages (.toKey input :: vin) = input.kImage :: keyImages vin := rfl

theorem haveKeyImages_eq_false {vin : List TxIn} (h : AllToKey vin) (kImages : Finset KeyImage) :
    haveKeyImages kImages vin = false ↔ ∀ k ∈ keyImages vin, k ∉ kImages := by
  induction vin with
  | nil => simp [haveKeyImages, keyImages]
  | cons txin vin ih =>
    obtain ⟨hhead, htail⟩ := forall_mem_cons.mp h
    obtain ⟨input, rfl⟩ := hhead
    simp only [haveKeyImages, Bool.or_eq_false_iff, decide_eq_false_iff_not, ih htail,
      keyImages_cons_toKey, forall_mem_cons]

theorem mem_appendKeyImages {vin : List TxIn} (h : AllToKey vin) (hnodup : (keyImages vin).Nodup)
    (kImages : Finset KeyImage) (hfresh : ∀ k ∈ keyImages vin, k ∉ kImages) (k : KeyImage) :
    k ∈ appendKeyImages kImages vin ↔ k ∈ kImages ∨ k ∈ keyImages vin := by
  induction vin generalizing kImages with
  | nil => simp [appendKeyImages, keyImages]
  | cons txin vin ih =>
    obtain ⟨hhead, htail⟩ := forall_mem_cons.mp h
    obtain ⟨input, rfl⟩ := hhead
    rw [keyImages_cons_toKey] at hnodup hfresh ⊢
    obtain ⟨hnot, hrest⟩ := nodup_cons.mp hnodup
    obtain ⟨hinput, hvin⟩ := forall_mem_cons.mp hfresh
    simp only [appendKeyImages, if_neg hinput]
    rw [ih htail hrest _ (by
      intro j hj
      rw [Finset.mem_insert]
      rintro (rfl | hmem)
      · exact hnot hj
      · exact hvin j hj hmem)]
    rw [Finset.mem_insert, mem_cons]
    exact or_assoc.trans or_left_comm

end Jero.Tx
