import Jero.Serial.Expand

namespace Jero.Serial
open Jero.Common List Option Codec
variable {rest w blob : Bytes} {t : Transaction}

def TailOff (p : TransactionPrefix) : Prop :=
  if p.version = 1 then ∀ input ∈ p.vin, input.signatureSize = 0 else p.vin = []

def Transaction.EndsInExtraCount (t : Transaction) : Prop :=
  t.extra = [] ∧ TailOff t.toTransactionPrefix

theorem signatureVector_read_nil {size : Nat} {sigs : List Signature}
    (h : (signatureVector size).read [] = some (sigs, rest)) : size = 0 := by
  by_contra hsize
  have hnone : (signatureVector size).read [] = none :=
    precheck_read_nil (customVector_read_nil (blob_read_nil 63) hsize 64)
  rw [hnone] at h
  cases h

variable {signatures : List (List Signature)} {vin : List TxIn}
  {x : List (List Signature) × RctSigBase × RctSigPrunable} {p : TransactionPrefix}

theorem signatureVectors_read_nil (h : (signatureVectors vin).read [] = some (signatures, rest)) :
    ∀ input ∈ vin, input.signatureSize = 0 := by
  induction vin generalizing signatures with
  | nil =>
    intro input hinput
    cases hinput
  | cons input vin ih =>
    obtain ⟨sigs, tail, mid, -, hsigs, htail⟩ := each_cons_read.mp h
    obtain ⟨-, rfl⟩ := (signatureVector_lawful input.signatureSize).nil hsigs
    exact forall_mem_cons.mpr ⟨signatureVector_read_nil hsigs, ih htail⟩

theorem signatureVectors_write_nil (hshaped : SignaturesShaped vin signatures)
    (hzero : ∀ input ∈ vin, input.signatureSize = 0) :
    (signatureVectors vin).write signatures = some [] := by
  induction hshaped with
  | nil => rfl
  | @cons input sigs vin signatures hsigs _ ih =>
    obtain ⟨hinput, htail⟩ := forall_mem_cons.mp hzero
    have hwrite : (signatureVector input.signatureSize).write sigs = some [] := by
      rw [hinput] at hsigs ⊢
      obtain rfl := length_eq_zero_iff.mp hsigs
      rfl
    exact each_cons_write.mpr ⟨sigs, signatures, [], [], rfl, hwrite, ih htail, rfl⟩

theorem tailOff_of_read_nil (h : (transactionTail p).read [] = some (x, rest)) : TailOff p := by
  unfold TailOff
  unfold transactionTail at h
  split at h
  · rename_i hone
    rw [if_pos hone]
    obtain ⟨mid, hsigs, -⟩ := seq_read.mp h
    exact signatureVectors_read_nil hsigs
  rename_i hone
  rw [if_neg hone]
  split at h
  · rename_i hempty
    exact List.isEmpty_iff.mp hempty
  · obtain ⟨mid, hskip, hrct⟩ := seq_read.mp h
    obtain ⟨-, rfl⟩ := (skip_lawful _).nil hskip
    have hnone : (rctSignaturesField p.vin p.vout).read [] = none :=
      dep_read_nil (image_read_nil (dep_read_nil rfl))
    rw [hnone] at hrct
    cases hrct

theorem transactionTail_write_nil (hshaped : TailShaped p x) (hoff : TailOff p) :
    (transactionTail p).write x = some [] := by
  unfold TailOff at hoff
  unfold TailShaped at hshaped
  unfold transactionTail
  split
  · rename_i hone
    rw [if_pos hone] at hoff hshaped
    have hsigs := signaturesField_write_of_vectors (signatureVectors_write_nil hshaped.1 hoff)
    exact seq_write.mpr ⟨[], [], hsigs, rfl, rfl⟩
  rename_i hone
  rw [if_neg hone] at hoff
  rw [if_pos (List.isEmpty_iff.mpr hoff)]
  rfl

theorem transaction_write :
    transaction.write t = some w ↔
      ∃ u v, transactionPrefix.write t.toTransactionPrefix = some u ∧
        (transactionTail t.toTransactionPrefix).write
          (t.signatures, t.rctSignatures.toRctSigBase, t.rctSignatures.p) = some v ∧
        w = u ++ v := by
  rw [transaction, image_write]
  exact dep_write

theorem transaction_cut {b : Bytes} (h : transaction.read b = some (t, rest)) :
    (∃ w, transaction.write t = some w ∧ b = w ++ rest) ∨
      (rest = [] ∧ t.EndsInExtraCount ∧ ∃ head cut, b = head ++ cut ∧ cut ≠ [] ∧
        Unterminated cut ∧ transaction.write t = some (head ++ [0])) := by
  obtain ⟨⟨p, x⟩, hread, rfl⟩ := image_read.mp h
  obtain ⟨mid, hprefix, htail⟩ := dep_read.mp hread
  obtain ⟨v, hv, rfl⟩ := transactionTail_exact p htail
  rcases transactionPrefix_cut hprefix with
    ⟨u, hu, rfl⟩ | ⟨hextra, hnil, head, cut, rfl, hne, hopen, hu⟩
  · exact .inl ⟨u ++ v, transaction_write.mpr ⟨u, v, hu, hv, rfl⟩, (append_assoc _ _ _).symm⟩
  · obtain ⟨rfl, rfl⟩ := append_eq_nil_iff.mp hnil
    refine .inr ⟨rfl, ⟨hextra, tailOff_of_read_nil htail⟩, head, cut, rfl, hne, hopen, ?_⟩
    exact transaction_write.mpr ⟨head ++ [0], [], hu, hv, (append_nil _).symm⟩

theorem getLast_unterminated {head cut : Bytes} (hne : cut ≠ []) (hopen : Unterminated cut) :
    (head ++ cut).getLast? ≠ some 0 := by
  intro hlast
  rw [getLast?_append_of_ne_nil _ hne] at hlast
  have hbig := hopen 0 (mem_of_getLast? hlast)
  exact absurd hbig (by decide)

theorem transaction_canonical_iff (h : transaction.read blob = some (t, [])) :
    transaction.write t = some blob ↔ (t.EndsInExtraCount → blob.getLast? = some 0) := by
  constructor
  · intro hw hends
    obtain ⟨u, v, hu, hv, rfl⟩ := transaction_write.mp hw
    rw [transactionTail_write_nil ((transaction_lawful.fits h).1).tail hends.2] at hv
    obtain rfl := some.inj hv
    obtain ⟨head, tail, -, htail, rfl⟩ := transactionPrefix_write.mp hu
    rw [hends.1] at htail
    obtain rfl : [0] = tail := some.inj htail
    rw [append_nil]
    exact getLast?_concat
  · intro hlast
    rcases transaction_cut h with ⟨w, hw, rfl⟩ | ⟨-, hends, head, cut, rfl, hne, hopen, -⟩
    · rw [hw, append_nil]
    · exact absurd (hlast hends) (getLast_unterminated hne hopen)

theorem parsedTx_serialize {scalarmultInvEight : Key → Key} {t' : Transaction}
    (hread : transaction.read blob = some (t, []))
    (hexpand : expandTransaction1 scalarmultInvEight false t = some t') :
    t'.serialize = transaction.write t := by
  have hpruned : t.pruned = false := by
    obtain ⟨x, -, rfl⟩ := image_read.mp hread
    rfl
  rw [Transaction.serialize, (expandTransaction1_sameWire hexpand).pruned, hpruned]
  exact expandTransaction1_write hexpand (transaction_lawful.fits hread).1

theorem blob_canonical_iff_counts_terminated (blob : Bytes) :
    (∀ b, parseAndValidateBlockFromBlob blob = some b →
      (blockToBlob b = some blob ↔ (b.txHashes = [] → blob.getLast? = some 0))) ∧
    (∀ scalarmultInvEight maxSizeCheck t,
      parseAndValidateTxFromBlob scalarmultInvEight maxSizeCheck blob = some t →
      (t.serialize = some blob ↔ (t.EndsInExtraCount → blob.getLast? = some 0))) := by
  constructor
  · intro b h
    obtain ⟨hchecked, hcount⟩ := check_read.mp (atEnd_eq.mp h)
    rw [Bool.not_eq_true', decide_eq_false_iff_not, Nat.not_lt] at hcount
    obtain ⟨⟨front, txHashes⟩, hread, rfl⟩ := image_read.mp hchecked
    obtain ⟨mid, hfront, hhashes⟩ := seq_read.mp hread
    have hmid : mid ≠ [] := by
      rintro rfl
      rw [vector, container_read_nil] at hhashes
      cases hhashes
    obtain ⟨u, hu, rfl⟩ :=
      (blockHeader_lawful.seq minerTxField_lawful).exact_of_rest hfront hmid
    constructor
    · intro hw hempty
      obtain ⟨u', v, hu', hv, heq⟩ := seq_write.mp (check_write.mp hw).1
      dsimp only at hempty hv
      rw [hempty] at hv
      obtain rfl : [0] = v := some.inj hv
      rw [heq]
      exact getLast?_concat
    · intro hlast
      rcases container_cut key_lawful key_exact hhashes with ⟨v, hv, rfl⟩ | ⟨rfl, -, hne, hopen⟩
      · rw [append_nil]
        exact check_write.mpr ⟨seq_write.mpr ⟨u, v, hu, hv, rfl⟩, by simpa using hcount⟩
      · exact absurd (hlast rfl) (getLast_unterminated hne hopen)
  · intro scalarmultInvEight maxSizeCheck t h
    unfold parseAndValidateTxFromBlob at h
    split at h
    · rw [bind_eq_some_iff] at h
      obtain ⟨t₀, hread, hexpand⟩ := h
      have hread := atEnd_eq.mp hread
      rw [parsedTx_serialize hread hexpand, transaction_canonical_iff hread,
        Transaction.EndsInExtraCount, Transaction.EndsInExtraCount,
        (expandTransaction1_sameWire hexpand).txPrefix]
    · cases h

def bareMinerTx : Transaction :=
  ⟨⟨1, 0, [.gen 0], [], []⟩, [[]], ⟨RctSigBase.empty, RctSigPrunable.empty⟩, false⟩

def bareBlock : Block := ⟨⟨1, 0, 0, Blob.zero 32, 0⟩, bareMinerTx, []⟩

def bareMinerTxBlob (count : UInt8) : Bytes := [1, 0, 1, 0xff, 0, 0, count]

def bareBlockBlob (count : UInt8) : Bytes :=
  [1, 0, 0] ++ List.replicate 36 0 ++ bareMinerTxBlob 0 ++ [count]

theorem blob_canonical_bare_block :
    (blockToBlob bareBlock = some (bareBlockBlob 0) ↔
      (bareBlock.txHashes = [] → (bareBlockBlob 0).getLast? = some 0)) ∧
    (bareMinerTx.serialize = some (bareMinerTxBlob 0) ↔
      (bareMinerTx.EndsInExtraCount → (bareMinerTxBlob 0).getLast? = some 0)) :=
  ⟨(blob_canonical_iff_counts_terminated _).1 _ (by decide +kernel),
    (blob_canonical_iff_counts_terminated _).2 id true _ (by decide +kernel)⟩

theorem truncated_count_accepted :
    (parseAndValidateBlockFromBlob (bareBlockBlob 0x80) = some bareBlock ∧
      blockToBlob bareBlock = some (bareBlockBlob 0)) ∧
    (parseAndValidateTxFromBlob id true (bareMinerTxBlob 0x80) = some bareMinerTx ∧
      bareMinerTx.serialize = some (bareMinerTxBlob 0)) := by
  decide +kernel

end Jero.Serial
