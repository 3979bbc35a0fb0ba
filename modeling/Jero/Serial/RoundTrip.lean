import Jero.Serial.BlobCanonical

namespace Jero.Serial
open Jero.Common Transaction
variable {t : Transaction}

def Transaction.SignatureShaped (t : Transaction) : Prop :=
  if t.pruned then
    t.signatures = [] ∧ t.rctSignatures.p = RctSigPrunable.empty ∧
      BaseShaped t.toTransactionPrefix t.rctSignatures.toRctSigBase
  else TailShaped t.toTransactionPrefix
    (t.signatures, t.rctSignatures.toRctSigBase, t.rctSignatures.p)

def parseTransaction (pruned : Bool) (blob : Bytes) : Option Transaction :=
  atEnd ((if pruned then transactionBase else transaction).read blob)

theorem Transaction.serialize_unpruned (ht : t.pruned = false) :
    t.serialize = transaction.write t := by
  rw [serialize, ht]
  rfl

theorem Transaction.serialize_pruned (ht : t.pruned = true) (hsigs : t.signatures = []) :
    t.serialize = transactionBase.write t := by
  have hempty : ¬ (t.version = 1 ∧ ¬ t.signatures.isEmpty ∧
      t.vin.length ≠ t.signatures.length) := by
    rintro ⟨-, hne, -⟩
    rw [hsigs] at hne
    exact hne rfl
  rw [serialize, if_pos ht, if_neg hempty]

theorem Codec.Lawful.parse_written {α : Type} {c : Codec α} {F : α → Prop} {n : α → α}
    (h : c.Lawful F n) {x y : α} (hx : F x) (hn : n x = y) :
    ∃ blob, c.write x = some blob ∧ atEnd (c.read blob) = some y := by
  obtain ⟨w, hw, hread⟩ := h.restore x hx
  refine ⟨w, hw, atEnd_eq.mpr ?_⟩
  rw [← List.append_nil w, hread, hn]

variable {pruned : Bool} {blob : Bytes}

theorem readable_of_parse (h : parseTransaction pruned blob = some t) :
    t.toTransactionPrefix.Readable := by
  have hread := atEnd_eq.mp h
  cases pruned with
  | false => exact (transaction_lawful.fits hread).1.readable
  | true => exact (transactionBase_lawful.fits hread).1.1

theorem serialization_round_trip :
    (∀ t : Transaction, t.SignatureShaped →
      ((∃ blob, t.serialize = some blob ∧ parseTransaction t.pruned blob = some t.onWire ∧
        ∀ scalarmultInvEight,
          (if t.pruned then parseAndValidateTxBaseFromBlob scalarmultInvEight false true blob
            else parseAndValidateTxFromBlob scalarmultInvEight false blob) =
            expandTransaction1 scalarmultInvEight t.pruned t.onWire) ↔
        t.toTransactionPrefix.Readable)) ∧
    (∀ b : Block, b.minerTx.pruned = false → b.minerTx.SignatureShaped →
      ((∃ blob, blockToBlob b = some blob ∧
          parseAndValidateBlockFromBlob blob = some b.onWire) ↔
        b.minerTx.toTransactionPrefix.Readable ∧
          b.txHashes.length ≤ cryptonoteMaxTxPerBlock)) := by
  refine ⟨fun t hshaped => ⟨?_, ?_⟩, fun b hpruned hshaped => ?_⟩
  · rintro ⟨blob, -, hparse, -⟩
    have hreadable := readable_of_parse hparse
    exact hreadable
  · intro hreadable
    obtain ⟨blob, hblob, hparse⟩ : ∃ blob, t.serialize = some blob ∧
        parseTransaction t.pruned blob = some t.onWire := by
      unfold Transaction.SignatureShaped at hshaped
      cases ht : t.pruned with
      | true =>
        rw [if_pos ht] at hshaped
        obtain ⟨hsigs, hp, hbase⟩ := hshaped
        rw [serialize_pruned ht hsigs]
        refine transactionBase_lawful.parse_written ⟨hreadable, hbase⟩ ?_
        rw [onWire, RctSig.onWire, hp, ht, hsigs, onWire_empty]
      | false =>
        rw [ht] at hshaped
        rw [serialize_unpruned ht]
        refine transaction_lawful.parse_written ⟨hreadable, hshaped⟩ ?_
        rw [onWire, ht]
    refine ⟨blob, hblob, hparse, ?_⟩
    intro scalarmultInvEight
    have hread := atEnd_eq.mp hparse
    generalize t.pruned = pruned at hread ⊢
    cases pruned with
    | false =>
      rw [if_neg Bool.false_ne_true] at hread ⊢
      simp only [parseAndValidateTxFromBlob, passesMaxSizeCheck, Bool.not_false, if_true, hread,
        atEnd, Option.bind_some]
    | true =>
      rw [if_pos rfl] at hread ⊢
      simp only [parseAndValidateTxBaseFromBlob, passesMaxSizeCheck, Bool.not_false, if_true, hread,
        Option.bind_some, List.isEmpty_nil, Bool.not_true, Bool.and_false, Bool.false_eq_true,
        if_false]
  · constructor
    · rintro ⟨blob, -, hparse⟩
      have hfits := (block_lawful.fits (atEnd_eq.mp hparse)).1
      exact ⟨hfits.minerTx.readable, hfits.txHashes⟩
    · rintro ⟨hreadable, hcount⟩
      rw [Transaction.SignatureShaped, hpruned] at hshaped
      exact block_lawful.parse_written ⟨⟨hreadable, hshaped⟩, hpruned, hcount⟩ rfl

def zeroKey : Key := Blob.zero 32

def clsagTxOf (commitments : List Key) : Transaction where
  version := 2
  unlockTime := 0
  vin := [.toKey ⟨0, [7], zeroKey⟩]
  vout := [⟨0, .toTaggedKey zeroKey 5⟩]
  extra := [1, 2]
  signatures := []
  rctSignatures :=
    { type := .clsag
      message := zeroKey
      mixRing := []
      pseudoOuts := []
      ecdhInfo := [⟨zeroKey, zeroKey⟩]
      outPk := [⟨zeroKey, zeroKey⟩]
      txnFee := 300
      p :=
        { rangeSigs := []
          bulletproofs := [⟨commitments, zeroKey, zeroKey, zeroKey, zeroKey, zeroKey, zeroKey,
            List.replicate 6 zeroKey, List.replicate 6 zeroKey, zeroKey, zeroKey, zeroKey⟩]
          bulletproofsPlus := []
          MGs := []
          CLSAGs := [⟨[zeroKey], zeroKey, zeroKey, zeroKey⟩]
          pseudoOuts := [zeroKey] } }
  pruned := false

def clsagTx : Transaction := clsagTxOf []

def clsagTxBlob : Bytes :=
  [2, 0, 1, 2, 0, 1, 7] ++ List.replicate 32 0 ++ [1, 0, 3] ++ List.replicate 32 0 ++ [5, 2, 1, 2] ++
    [5, 172, 2] ++ List.replicate 40 0 ++ [1] ++ List.replicate 192 0 ++
    [6] ++ List.replicate 192 0 ++ [6] ++ List.replicate 192 0 ++ List.replicate 96 0 ++
    List.replicate 96 0 ++ List.replicate 32 0

theorem clsagTx_shaped : clsagTx.Shaped :=
  (transaction_lawful.fits (show transaction.read clsagTxBlob = some (clsagTx, []) by
    decide +kernel)).1

theorem clsagTx_round_trip :
    (∃ blob, clsagTx.serialize = some blob ∧ parseTransaction false blob = some clsagTx ∧
      ∀ scalarmultInvEight, parseAndValidateTxFromBlob scalarmultInvEight false blob =
        expandTransaction1 scalarmultInvEight false clsagTx) ∧
    (∃ blob, blockToBlob bareBlock = some blob ∧
      parseAndValidateBlockFromBlob blob = some bareBlock) := by
  have hblock : bareBlock.Shaped :=
    (block_lawful.fits (show block.read (bareBlockBlob 0) = some (bareBlock, []) by
      decide +kernel)).1
  have hwire : clsagTx.onWire = clsagTx := by decide +kernel
  have htx := (serialization_round_trip.1 clsagTx clsagTx_shaped.tail).mpr clsagTx_shaped.readable
  rw [hwire] at htx
  exact ⟨htx, (serialization_round_trip.2 bareBlock rfl hblock.minerTx.tail).mpr
    ⟨hblock.minerTx.readable, hblock.txHashes⟩⟩

def twoGenTx : Transaction :=
  ⟨⟨1, 0, [.gen 0, .gen 0], [], []⟩, [[], []], ⟨RctSigBase.empty, RctSigPrunable.empty⟩, false⟩

theorem twoGenTx_not_restored :
    twoGenTx.SignatureShaped ∧ twoGenTx.serialize = some [1, 0, 2, 0xff, 0, 0xff, 0, 0, 0] ∧
      parseTransaction false [1, 0, 2, 0xff, 0, 0xff, 0, 0, 0] = none :=
  ⟨⟨.cons rfl (.cons rfl .nil), rfl⟩, by decide +kernel, by decide +kernel⟩

end Jero.Serial
