import Jero.Serial.Prefix
import Jero.Serial.PrunableLaws

namespace Jero.Serial
open Jero.Common Jero.Machine List Codec RctSigPrunable
variable {vin : List TxIn}

abbrev Signature := Blob 64

structure RctSig extends RctSigBase where
  p : RctSigPrunable
deriving DecidableEq, Repr

structure Transaction extends TransactionPrefix where
  signatures : List (List Signature)
  rctSignatures : RctSig
  pruned : Bool
deriving DecidableEq, Repr

def signatureVector (size : Nat) : Codec (List Signature) :=
  (customVector (blob 64) size 64).precheck fun b => !decide (b.length / 64 < size)

def signatureVectors (vin : List TxIn) : Codec (List (List Signature)) :=
  each (fun input => signatureVector input.signatureSize) vin

def signaturesField (vin : List TxIn) : Codec (List (List Signature)) where
  write signatures :=
    if signatures.isEmpty then
      if vin.all fun input => input.signatureSize == 0 then some [] else none
    else (signatureVectors vin).write signatures
  read := (signatureVectors vin).read

def mixin : List TxIn → Nat
  | .toKey input :: _ => wsub input.keyOffsets.length 1
  | _ => 0

def prunableField (vin : List TxIn) (vout : List TxOut) (s : RctSigBase) : Codec RctSigPrunable :=
  if s.type = .null then skip empty
  else rctSigPrunable s.type vin.length vout.length (mixin vin)

def rctSignaturesField (vin : List TxIn) (vout : List TxOut) :
    Codec (RctSigBase × RctSigPrunable) :=
  (rctSigBase vin.length vout.length).dep (prunableField vin vout)

def transactionTail (p : TransactionPrefix) :
    Codec (List (List Signature) × RctSigBase × RctSigPrunable) :=
  if p.version = 1 then
    (signaturesField p.vin).seq (skip (RctSigBase.empty, empty))
  else if p.vin.isEmpty then skip ([], RctSigBase.empty, empty)
  else (skip []).seq (rctSignaturesField p.vin p.vout)

def transaction : Codec Transaction :=
  (transactionPrefix.dep transactionTail).image
    (fun t => (t.toTransactionPrefix, t.signatures, t.rctSignatures.toRctSigBase,
      t.rctSignatures.p))
    (fun x => ⟨x.1, x.2.1, ⟨x.2.2.1, x.2.2.2⟩, false⟩)

def baseTail (p : TransactionPrefix) : Codec RctSigBase :=
  if p.version = 1 then skip RctSigBase.empty
  else if p.vin.isEmpty then skip RctSigBase.empty
  else rctSigBase p.vin.length p.vout.length

def transactionBase : Codec Transaction :=
  (transactionPrefix.dep baseTail).image
    (fun t => (t.toTransactionPrefix, t.rctSignatures.toRctSigBase))
    (fun x => ⟨x.1, [], ⟨x.2, empty⟩, true⟩)

def Transaction.serialize (t : Transaction) : Option Bytes :=
  if t.pruned then
    if t.version = 1 ∧ ¬ t.signatures.isEmpty ∧ t.vin.length ≠ t.signatures.length then none
    else transactionBase.write t
  else transaction.write t

def RctSig.onWire (s : RctSig) : RctSig := ⟨s.toRctSigBase.onWire, s.p.onWire⟩

def Transaction.onWire (t : Transaction) : Transaction :=
  { t with rctSignatures := t.rctSignatures.onWire }

def SignaturesShaped (vin : List TxIn) (signatures : List (List Signature)) : Prop :=
  List.Forall₂ (fun input sigs => sigs.length = input.signatureSize) vin signatures

def PrunableShaped (vin : List TxIn) (vout : List TxOut) (s : RctSigBase) (p : RctSigPrunable) :
    Prop :=
  if s.type = .null then p = empty
  else p.Shaped s.type vin.length vout.length (mixin vin)

def TailShaped (p : TransactionPrefix)
    (x : List (List Signature) × RctSigBase × RctSigPrunable) : Prop :=
  if p.version = 1 then SignaturesShaped p.vin x.1 ∧ x.2 = (RctSigBase.empty, empty)
  else if p.vin.isEmpty then x = ([], RctSigBase.empty, empty)
  else x.1 = [] ∧ x.2.1.Shaped p.vin.length p.vout.length ∧ PrunableShaped p.vin p.vout x.2.1 x.2.2

def BaseShaped (p : TransactionPrefix) (s : RctSigBase) : Prop :=
  if p.version = 1 then s = RctSigBase.empty
  else if p.vin.isEmpty then s = RctSigBase.empty
  else s.Shaped p.vin.length p.vout.length

theorem signatureVector_lawful (size : Nat) :
    (signatureVector size).Lawful (fun sigs => sigs.length = size) id := by
  have hvector := customVector_lawful_all (blob_lawful 64) size (blob_minWidth 64)
  refine (hvector.precheck ?_).weaken (fun _ => Iff.rfl) (fun xs _ => (map_id xs).symm)
  intro sigs w rest hw
  have hlen := customVector_minWidth (blob_minWidth 64) size 64 hw
  rw [Bool.not_eq_true', decide_eq_false_iff_not, length_append]
  omega

theorem signatureVectors_lawful (vin : List TxIn) :
    (signatureVectors vin).Lawful (SignaturesShaped vin) id := by
  have heach : (signatureVectors vin).Lawful (SignaturesShaped vin) (map id) :=
    Codec.Lawful.each (fun input : TxIn => signatureVector_lawful input.signatureSize) vin
  exact heach.weaken (fun _ => Iff.rfl) (fun xs _ => (map_id xs).symm)

theorem signaturesField_write_of_vectors {signatures : List (List Signature)} {w : Bytes}
    (h : (signatureVectors vin).write signatures = some w) :
    (signaturesField vin).write signatures = some w := by
  cases signatures with
  | nil =>
    cases vin with
    | nil => exact h
    | cons input vin =>
      obtain ⟨x, ys, u, v, hnil, -⟩ := each_cons_write.mp h
      cases hnil
  | cons sigs signatures => exact h

theorem signaturesField_lawful (vin : List TxIn) :
    (signaturesField vin).Lawful (SignaturesShaped vin) id := by
  have hlaw := signatureVectors_lawful vin
  refine ⟨?_, hlaw.fits, ?_, ?_⟩
  · intro signatures hshaped
    obtain ⟨w, hw, hread⟩ := hlaw.restore signatures hshaped
    exact ⟨w, signaturesField_write_of_vectors hw, hread⟩
  · intro b signatures y ys h
    obtain ⟨w, hw, hb⟩ := hlaw.more h
    exact ⟨w, signaturesField_write_of_vectors hw, hb⟩
  · intro signatures rest h
    obtain ⟨hw, hrest⟩ := hlaw.nil h
    exact ⟨signaturesField_write_of_vectors hw, hrest⟩

theorem signaturesField_exact (vin : List TxIn) : (signaturesField vin).Exact := by
  intro b signatures rest h
  obtain ⟨w, hw, hb⟩ := each_exact (fun input : TxIn => precheck_exact
    (customVector_exact (blob_exact 64) input.signatureSize 64)) vin h
  exact ⟨w, signaturesField_write_of_vectors hw, hb⟩

theorem onWire_empty : empty.onWire = empty := rfl

theorem prunableField_lawful (vin : List TxIn) (vout : List TxOut) (s : RctSigBase) :
    (prunableField vin vout s).Lawful (PrunableShaped vin vout s) onWire := by
  unfold prunableField PrunableShaped
  split
  · refine (skip_lawful _).weaken (fun _ => Iff.rfl) ?_
    rintro p rfl
    exact onWire_empty
  · exact rctSigPrunable_lawful s.type vin.length vout.length (mixin vin)

theorem prunableField_exact (hvin : vin ≠ []) (vout : List TxOut) (s : RctSigBase) :
    (prunableField vin vout s).Exact := by
  have hinputs : vin.length ≠ 0 := fun hzero => hvin (length_eq_zero_iff.mp hzero)
  unfold prunableField
  split
  · exact skip_exact _
  · rename_i htype
    exact rctSigPrunable_exact (mixin vin) htype hinputs vout.length

theorem rctSignaturesField_exact (hvin : vin ≠ []) (vout : List TxOut) :
    (rctSignaturesField vin vout).Exact := by
  rintro b ⟨s, p⟩ rest h
  obtain ⟨mid, hbase, hprunable⟩ := dep_read.mp h
  obtain ⟨u, hu, rfl⟩ : ∃ w, (rctSigBase vin.length vout.length).write s = some w ∧
      b = w ++ mid := by
    have hinputs : vin.length ≠ 0 := fun hzero => hvin (length_eq_zero_iff.mp hzero)
    unfold prunableField at hprunable
    split at hprunable
    · rename_i hnull
      obtain ⟨⟨type, fields⟩, hread, rfl⟩ := image_read.mp hbase
      obtain ⟨mid, htype, hfields⟩ := dep_read.mp hread
      obtain rfl : type = .null := hnull
      obtain ⟨u, hu, rfl⟩ := rctType_exact htype
      obtain ⟨v, hv, rfl⟩ := skip_exact _ hfields
      refine ⟨u ++ v, ?_, (append_assoc _ _ _).symm⟩
      rw [rctSigBase, image_write]
      exact dep_write.mpr ⟨u, v, hu, hv, rfl⟩
    · rename_i htype
      refine (rctSigBase_lawful _ _).exact_of_rest hbase ?_
      rintro rfl
      rw [rctSigPrunable_read_nil (mixin vin) htype hinputs vout.length] at hprunable
      cases hprunable
  obtain ⟨v, hv, rfl⟩ := prunableField_exact hvin vout s hprunable
  exact ⟨u ++ v, dep_write.mpr ⟨u, v, hu, hv, rfl⟩, (append_assoc _ _ _).symm⟩

variable (p : TransactionPrefix)

theorem transactionTail_lawful :
    (transactionTail p).Lawful (TailShaped p) (fun x => (x.1, x.2.1.onWire, x.2.2.onWire)) := by
  unfold transactionTail TailShaped
  split
  · refine ((signaturesField_lawful p.vin).seq (skip_lawful _)).weaken (fun _ => Iff.rfl) ?_
    rintro ⟨signatures, rct⟩ ⟨-, rfl⟩
    rfl
  split
  · refine (skip_lawful _).weaken (fun _ => Iff.rfl) ?_
    rintro x rfl
    rfl
  · exact ((skip_lawful []).seq ((rctSigBase_lawful p.vin.length p.vout.length).dep
      (fun s _ => prunableField_lawful p.vin p.vout s) (fun _ => rfl))).weaken (fun _ => Iff.rfl)
      (fun _ _ => rfl)

theorem transactionTail_exact : (transactionTail p).Exact := by
  unfold transactionTail
  split
  · exact seq_exact (signaturesField_exact p.vin) (skip_exact _)
  split
  · exact skip_exact _
  · rename_i hvin
    refine seq_exact (skip_exact _) (rctSignaturesField_exact ?_ p.vout)
    rwa [List.isEmpty_iff] at hvin

structure Transaction.Shaped (t : Transaction) : Prop where
  readable : t.toTransactionPrefix.Readable
  tail : TailShaped t.toTransactionPrefix
    (t.signatures, t.rctSignatures.toRctSigBase, t.rctSignatures.p)

theorem transaction_lawful :
    transaction.Lawful Transaction.Shaped
      (fun t => { t with rctSignatures := t.rctSignatures.onWire, pruned := false }) := by
  refine ((transactionPrefix_lawful.dep (fun p _ => transactionTail_lawful p)
    (fun _ => rfl)).image (fun _ _ => rfl)).weaken ?_ (fun _ _ => rfl)
  intro t
  constructor
  · intro h
    exact ⟨h.readable, h.tail⟩
  · rintro ⟨hreadable, htail⟩
    exact ⟨hreadable, htail⟩

theorem baseTail_lawful :
    (baseTail p).Lawful (BaseShaped p) RctSigBase.onWire := by
  unfold baseTail BaseShaped
  split
  · refine (skip_lawful _).weaken (fun _ => Iff.rfl) ?_
    rintro s rfl
    rfl
  split
  · refine (skip_lawful _).weaken (fun _ => Iff.rfl) ?_
    rintro s rfl
    rfl
  · exact rctSigBase_lawful _ _

theorem transactionBase_lawful :
    transactionBase.Lawful
      (fun t => t.toTransactionPrefix.Readable ∧
        BaseShaped t.toTransactionPrefix t.rctSignatures.toRctSigBase)
      (fun t => { t with
        signatures := []
        rctSignatures := ⟨t.rctSignatures.toRctSigBase.onWire, empty⟩
        pruned := true }) :=
  ((transactionPrefix_lawful.dep (fun p _ => baseTail_lawful p) (fun _ => rfl)).image
    (fun _ _ => rfl)).weaken (fun _ => Iff.rfl) (fun _ _ => rfl)

end Jero.Serial
