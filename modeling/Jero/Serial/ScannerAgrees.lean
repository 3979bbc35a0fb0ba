import Jero.Serial.Scanner
import Jero.Serial.RoundTrip

namespace Jero.Serial
open Jero.Common List Option Codec RctSigPrunable Prod
variable {rest blob mid unprunable : Bytes} {t t' : Transaction} {scalarmultInvEight : Key → Key}
  {maxSizeCheck : Bool}

theorem version_cases {version : UInt64} (h : versionSupported version = true) :
    version = 1 ∨ version = 2 := by
  rw [versionSupported, Bool.not_eq_true', Bool.or_eq_false_iff, beq_eq_false_iff_ne,
    decide_eq_false_iff_not] at h
  obtain ⟨hzero, hcurrent⟩ := h
  have hpos : version.toNat ≠ 0 := fun hnat => hzero (UInt64.toNat_inj.mp hnat)
  have hle : ¬ 2 < version.toNat := fun hlt => hcurrent (UInt64.lt_iff_toNat_lt.mpr hlt)
  rcases (by omega : version.toNat = 1 ∨ version.toNat = 2) with hone | htwo
  · exact .inl (UInt64.toNat_inj.mp hone)
  · exact .inr (UInt64.toNat_inj.mp htwo)

variable {p : TransactionPrefix} {s : RctSigBase}

theorem scanRct_read {b : Bytes} (hversion : versionSupported p.version = true)
    (hvin : p.vin ≠ []) (h : (baseTail p).read b = some (s, rest)) :
    scanRct p.version.toNat p.vin.length p.vout.length b = some rest := by
  unfold baseTail at h
  rcases version_cases hversion with hone | htwo
  · rw [if_pos hone] at h
    obtain ⟨-, rfl⟩ := mk.inj (some.inj h)
    rw [scanRct, hone, if_neg (by decide)]
  · have hempty : ¬ p.vin.isEmpty = true := by rwa [List.isEmpty_iff]
    have hone : ¬ p.version = 1 := by
      rw [htwo]
      decide
    rw [if_neg hone, if_neg hempty] at h
    rw [scanRct, htwo, if_pos (by decide)]
    obtain ⟨⟨type, fields⟩, hread, rfl⟩ := image_read.mp h
    obtain ⟨mid, htype, hfields⟩ := dep_read.mp hread
    rw [scanRctBase, rctType_read htype, bind_some]
    rw [if_neg (toByte_le_six type)]
    unfold rctSigBaseFields at hfields
    split at hfields
    · rename_i hnull
      obtain ⟨-, rfl⟩ := mk.inj (some.inj hfields)
      rw [if_pos (toByte_eq_zero.mpr hnull)]
    · rename_i hnull
      rw [if_neg (fun hzero => hnull (toByte_eq_zero.mp hzero))]
      obtain ⟨b₁, hfee, hfields⟩ := seq_read.mp hfields
      obtain ⟨b₂, hpseudo, hfields⟩ := seq_read.mp hfields
      have hout := scanSkip_of_advances
        ((ecdhInfoField_advances type p.vout.length).seq
          (customVector_advances (key_advances.image _ _) p.vout.length 32)) hfields
      rw [varint64_read hfee, bind_some]
      rw [scanPseudoOuts_read hpseudo, bind_some, ← hout, ← mul_add]
      simp only [toByte_ge_four]

theorem scanRct_spends {version inputs outputs : Nat} {b : Bytes}
    (h : scanRct version inputs outputs b = some rest) :
    b.length ≤ rest.length + (11 + 32 * inputs + 96 * outputs) := by
  unfold scanRct at h
  split at h
  · exact scanRctBase_spends h
  · obtain rfl := some.inj h
    exact Nat.le_add_right _ _

theorem transaction_read_base (h : transaction.read blob = some (t, rest)) :
    ∃ mid unprunable, transactionPrefix.read blob = some (t.toTransactionPrefix, mid) ∧
      (baseTail t.toTransactionPrefix).read mid =
        some (t.rctSignatures.toRctSigBase, unprunable) := by
  obtain ⟨⟨p, signatures, base, prunable⟩, hread, rfl⟩ := image_read.mp h
  obtain ⟨mid, hfront, htail⟩ := dep_read.mp hread
  refine ⟨mid, ?_⟩
  unfold transactionTail at htail
  unfold baseTail
  split at htail
  · rename_i hone
    obtain ⟨after, -, hskip⟩ := seq_read.mp htail
    obtain ⟨heq, -⟩ := mk.inj (some.inj hskip)
    obtain ⟨rfl, -⟩ := mk.inj heq
    rw [if_pos hone]
    exact ⟨mid, hfront, rfl⟩
  rename_i hone
  split at htail
  · rename_i hempty
    obtain ⟨heq, -⟩ := mk.inj (some.inj htail)
    obtain ⟨-, rfl, -⟩ := heq
    rw [if_neg hone, if_pos hempty]
    exact ⟨mid, hfront, rfl⟩
  · rename_i hempty
    obtain ⟨after, hskip, hrct⟩ := seq_read.mp htail
    obtain ⟨-, rfl⟩ := mk.inj (some.inj hskip)
    obtain ⟨unprunable, hbase, -⟩ := dep_read.mp hrct
    rw [if_neg hone, if_neg hempty]
    exact ⟨unprunable, hfront, hbase⟩

def Transaction.summary (t : Transaction) (sizes : TxSizes) : UnprunableSummary :=
  ⟨t.version.toNat, t.vin.length, t.vout.length, t.extra.length, isCoinbase t.vin,
    sizes.prefixSize, sizes.unprunableSize⟩

section
variable (hfront : transactionPrefix.read blob = some (t.toTransactionPrefix, mid))
  (hbase : (baseTail t.toTransactionPrefix).read mid = some
    (t.rctSignatures.toRctSigBase, unprunable))
  (hvin : t.vin ≠ []) (hvout : ∀ out ∈ t.vout, (getOutputPublicKey out).isSome = true)
include hfront hbase hvin hvout

theorem getTransactionUnprunableSummary_read :
    getTransactionUnprunableSummary blob =
      if t.extra.length > cryptonoteMaxTxSize then none
      else some (t.summary ⟨blob.length - mid.length, blob.length - unprunable.length⟩) := by
  obtain ⟨r⟩ := prefixReads hfront
  have hreadable := (transactionPrefix_lawful.fits hfront).1
  have hallowed := hreadable.vin.allowed
  have hversion : ¬ (t.version.toNat < 1 ∨ t.version.toNat > 2) := by
    rcases version_cases hreadable.version with hone | htwo
    · rw [hone]
      decide
    · rw [htwo]
      decide
  have hextra : scanSkip t.extra.length r.extra = some mid := by
    have hskip := scanSkip_of_advances (byte_advances.times t.extra.length) r.readExtra
    rwa [mul_one] at hskip
  simp only [getTransactionUnprunableSummary, r.readVersion, bind_some, if_neg hversion,
    r.readUnlockTime, r.readVinCount, scanInputs_read r.readVin (vinKind hallowed), Bool.false_or,
    any_isGen hallowed, r.readVoutCount, scanOutputs_read r.readVout hvout, r.readExtraCount,
    hextra, scanRct_read hreadable.version hvin hbase, map_some]
  rfl

theorem unprunable_size_lt (hextra : t.extra.length ≤ cryptonoteMaxTxSize) :
    blob.length - mid.length < 2 ^ 32 ∧ blob.length - unprunable.length < 2 ^ 32 := by
  obtain ⟨r⟩ := prefixReads hfront
  have hreadable := (transactionPrefix_lawful.fits hfront).1
  have hallowed := hreadable.vin.allowed
  have h₁ := varint_spends r.readVersion
  have h₂ := varint_spends r.readUnlockTime
  have h₃ := varint_spends r.readVinCount
  have h₄ := vin_spends r.readVin (vinKind hallowed)
  have h₅ := varint_spends r.readVoutCount
  have h₆ := scanOutputs_spends (scanOutputs_read r.readVout hvout)
  have h₇ := varint_spends r.readExtraCount
  have h₈ := (byte_advances.times t.extra.length).spends r.readExtra
  have h₉ := scanRct_spends (scanRct_read hreadable.version hvin hbase)
  beta_reduce at h₁ h₂ h₃ h₅ h₇ h₈
  have hinputs : t.vin.length ≤ 31250 := hreadable.vin.count
  have hoffsets : totalKeyOffsets t.vin < 31250 := totalKeyOffsets_lt hallowed
  have houtputs : t.vout.length ≤ 3125000 := hreadable.voutCount.trans (maxVoutCount_le _)
  have hbytes : t.extra.length ≤ 1000000 := hextra
  constructor <;> omega

end

theorem expandTransaction1_baseOnly {u : Transaction}
    (h : expandTransaction1 scalarmultInvEight false t = some t')
    (hfront : u.toTransactionPrefix = t.toTransactionPrefix)
    (hbase : u.rctSignatures.toRctSigBase = t.rctSignatures.toRctSigBase) :
    ∃ u', expandTransaction1 scalarmultInvEight true u = some u' ∧
      u'.toTransactionPrefix = t'.toTransactionPrefix ∧
      u'.rctSignatures.toRctSigBase = t'.rctSignatures.toRctSigBase := by
  unfold expandTransaction1 at h ⊢
  simp only [hfront, hbase]
  split at h
  · rename_i hexpand
    rw [if_pos hexpand]
    split at h
    · rename_i hnull
      obtain rfl := some.inj h
      rw [if_pos hnull]
      exact ⟨u, rfl, hfront, hbase⟩
    rename_i hnull
    split at h
    · cases h
    rename_i hlen
    rw [bind_eq_some_iff] at h
    obtain ⟨outPk, hfill, h⟩ := h
    rw [if_neg Bool.false_ne_true, map_eq_some_iff] at h
    obtain ⟨p, -, rfl⟩ := h
    rw [if_neg hnull, if_neg hlen, hfill, bind_some, if_pos trivial]
    exact ⟨_, rfl, rfl, rfl⟩
  · rename_i hexpand
    obtain rfl := some.inj h
    rw [if_neg hexpand]
    exact ⟨u, rfl, hfront, hbase⟩

theorem passesMaxSizeCheck_take (h : passesMaxSizeCheck maxSizeCheck blob = true) (n : Nat) :
    passesMaxSizeCheck maxSizeCheck (blob.take n) = true := by
  cases maxSizeCheck with
  | false => rfl
  | true =>
    have hle : blob.length ≤ cryptonoteMaxTxSize := of_decide_eq_true h
    exact decide_eq_true ((length_take_le' n blob).trans hle)

theorem transactionBase_read (hfront : transactionPrefix.read blob = some (p, mid))
    (hbase : (baseTail p).read mid = some (s, rest)) :
    transactionBase.read blob = some (⟨p, [], ⟨s, empty⟩, true⟩, rest) :=
  image_read.mpr ⟨(p, s), dep_read.mpr ⟨mid, hfront, hbase⟩, rfl⟩

theorem base_of_pruned (hsize : passesMaxSizeCheck maxSizeCheck blob = true)
    (hfront : transactionPrefix.read blob = some (t.toTransactionPrefix, mid))
    (hbase : (baseTail t.toTransactionPrefix).read mid =
      some (t.rctSignatures.toRctSigBase, unprunable))
    (hexpand : expandTransaction1 scalarmultInvEight false t = some t') (requireEof : Bool) :
    ∃ base, parseAndValidateTxBaseFromBlob scalarmultInvEight maxSizeCheck requireEof
        (blob.take (blob.length - unprunable.length)) = some base ∧
      base.toTransactionPrefix = t'.toTransactionPrefix ∧
      base.rctSignatures.toRctSigBase = t'.rctSignatures.toRctSigBase := by
  have hcut := transactionBase_lawful.read_cut (transactionBase_read hfront hbase)
  obtain ⟨base, hbaseOnly, hsame⟩ := expandTransaction1_baseOnly hexpand
    (u := ⟨t.toTransactionPrefix, [], ⟨t.rctSignatures.toRctSigBase, empty⟩, true⟩) rfl rfl
  refine ⟨base, ?_, hsame⟩
  rw [parseAndValidateTxBaseFromBlob, if_pos (passesMaxSizeCheck_take hsize _), hcut, bind_some]
  simp only [isEmpty_nil, Bool.not_true, Bool.and_false, Bool.false_eq_true, if_false]
  exact hbaseOnly

theorem parseAndValidateTxFromBlob_inv
    (h : parseAndValidateTxFromBlob scalarmultInvEight maxSizeCheck blob = some t') :
    passesMaxSizeCheck maxSizeCheck blob = true ∧
      ∃ t, transaction.read blob = some (t, []) ∧
        expandTransaction1 scalarmultInvEight false t = some t' := by
  unfold parseAndValidateTxFromBlob at h
  split at h
  · rename_i hsize
    rw [bind_eq_some_iff] at h
    obtain ⟨t, hread, hexpand⟩ := h
    exact ⟨hsize, t, atEnd_eq.mp hread, hexpand⟩
  · cases h

theorem scanner_agrees_iff_extra_fits (scalarmultInvEight : Key → Key) (maxSizeCheck : Bool)
    (stale : Nat) (blob : Bytes) (t : Transaction)
    (h : parseAndValidateTxFromBlob scalarmultInvEight maxSizeCheck blob = some t)
    (hvin : t.vin ≠ []) (hvout : ∀ out ∈ t.vout, (getOutputPublicKey out).isSome = true) :
    ((∃ sizes, parsedSizes stale blob = some sizes ∧
        getTransactionUnprunableSummary blob = some (t.summary sizes)) ∧
      ∃ pruned, pruneTransactionBlob blob = some pruned ∧ pruned <+: blob ∧
        ∀ requireEof, ∃ base,
          parseAndValidateTxBaseFromBlob scalarmultInvEight maxSizeCheck requireEof pruned =
            some base ∧
          base.toTransactionPrefix = t.toTransactionPrefix ∧
          base.rctSignatures.toRctSigBase = t.rctSignatures.toRctSigBase) ↔
      t.extra.length ≤ cryptonoteMaxTxSize := by
  obtain ⟨hsize, t₀, hread, hexpand⟩ := parseAndValidateTxFromBlob_inv h
  obtain ⟨mid, unprunable, hfront, hbase⟩ := transaction_read_base hread
  have hsame := (expandTransaction1_sameWire hexpand).txPrefix
  have hvin₀ : t₀.vin ≠ [] := hsame ▸ hvin
  have hvout₀ : ∀ out ∈ t₀.vout, (getOutputPublicKey out).isSome = true := hsame ▸ hvout
  have hsummary := getTransactionUnprunableSummary_read hfront hbase hvin₀ hvout₀
  have hsummary_eq : ∀ sizes, t₀.summary sizes = t.summary sizes := by
    intro sizes
    simp only [Transaction.summary, hsame]
  rw [hsame]
  constructor
  · rintro ⟨⟨sizes, -, hscan⟩, -⟩
    by_contra hbig
    rw [hsummary, if_pos (Nat.lt_of_not_le hbig)] at hscan
    cases hscan
  · intro hfits
    obtain ⟨hpre, hunp⟩ := unprunable_size_lt hfront hbase hvin₀ hvout₀ hfits
    rw [if_neg (not_lt.mpr hfits), hsummary_eq] at hsummary
    refine ⟨⟨_, parsedSizes_read hfront hbase hvin₀ stale, ?_⟩,
      blob.take (blob.length - unprunable.length), ?_, take_prefix _ _, ?_⟩
    · rw [unsignedInt, unsignedInt, Nat.mod_eq_of_lt hpre, Nat.mod_eq_of_lt hunp]
      exact hsummary
    · rw [pruneTransactionBlob, hsummary, bind_some]
      exact if_pos (Nat.sub_le _ _)
    · intro requireEof
      have hpruned := base_of_pruned hsize hfront hbase hexpand requireEof
      rw [hsame] at hpruned
      exact hpruned

def expandedClsagTx : Transaction := clsagTxOf [zeroKey]

theorem scanner_agrees_clsagTx :
    ((∃ sizes, parsedSizes 0 clsagTxBlob = some sizes ∧
        getTransactionUnprunableSummary clsagTxBlob = some (expandedClsagTx.summary sizes)) ∧
      ∃ pruned, pruneTransactionBlob clsagTxBlob = some pruned ∧ pruned <+: clsagTxBlob ∧
        ∀ requireEof, ∃ base,
          parseAndValidateTxBaseFromBlob id true requireEof pruned = some base ∧
          base.toTransactionPrefix = expandedClsagTx.toTransactionPrefix ∧
          base.rctSignatures.toRctSigBase = expandedClsagTx.rctSignatures.toRctSigBase) ↔
      expandedClsagTx.extra.length ≤ cryptonoteMaxTxSize :=
  scanner_agrees_iff_extra_fits id true 0 clsagTxBlob expandedClsagTx (by decide +kernel)
    (by decide) (by decide)

def coinbaseTx (extra : Bytes) : Transaction :=
  ⟨⟨1, 0, [.gen 0], [], extra⟩, [[]], ⟨RctSigBase.empty, empty⟩, false⟩

def coinbaseBlob (extra : Bytes) : Bytes :=
  [1, 0, 1, 0xff, 0, 0] ++ (writeVarint extra.length ++ extra)

theorem bytes_write (xs : Bytes) : (byte.times xs.length).write xs = some xs := by
  induction xs with
  | nil => rfl
  | cons x xs ih => exact each_cons_write.mpr ⟨x, xs, [x], xs, rfl, rfl, ih, rfl⟩

section
variable {extra : Bytes} (h : extra.length < 2 ^ 64)
include h

theorem coinbaseTx_write : transaction.write (coinbaseTx extra) = some (coinbaseBlob extra) := by
  have hextra : (vector byte).write extra = some (writeVarint extra.length ++ extra) :=
    container_write.mpr ⟨Nat.le_pred_of_lt h, extra, bytes_write extra, rfl⟩
  refine transaction_write.mpr ⟨coinbaseBlob extra, [], ?_, rfl, (append_nil _).symm⟩
  exact transactionPrefix_write.mpr ⟨_, _, rfl, hextra, rfl⟩

theorem coinbaseTx_shaped : (coinbaseTx extra).Shaped := by
  have hcount : 1 ≤ maxVinCount := by decide
  refine ⟨⟨rfl, ⟨hcount, ?_, rfl⟩, Nat.zero_le _, ?_, h⟩, .cons rfl .nil, rfl⟩
  · intro input hinput
    obtain rfl := mem_singleton.mp hinput
    trivial
  · intro out hout
    cases hout

theorem coinbaseTx_read : transaction.read (coinbaseBlob extra) = some (coinbaseTx extra, []) := by
  obtain ⟨w, hw, hread⟩ := transaction_lawful.restore _ (coinbaseTx_shaped h)
  obtain rfl : coinbaseBlob extra = w := some.inj ((coinbaseTx_write h).symm.trans hw)
  have hback := hread []
  rw [append_nil] at hback
  exact hback

theorem coinbaseTx_parse :
    parseAndValidateTxFromBlob id false (coinbaseBlob extra) = some (coinbaseTx extra) := by
  have hsize : passesMaxSizeCheck false (coinbaseBlob extra) = true := rfl
  rw [parseAndValidateTxFromBlob, if_pos hsize, coinbaseTx_read h]
  rfl

theorem coinbaseTx_summary (hbig : cryptonoteMaxTxSize < extra.length) :
    getTransactionUnprunableSummary (coinbaseBlob extra) = none := by
  obtain ⟨mid, unprunable, hfront, hbase⟩ := transaction_read_base (coinbaseTx_read h)
  rw [getTransactionUnprunableSummary_read hfront hbase (cons_ne_nil _ _)
    (fun _ hout => nomatch hout)]
  exact if_pos hbig

end

theorem long_extra_not_scanned :
    ∃ extra : Bytes, extra = List.replicate 1000001 0 ∧
      parseAndValidateTxFromBlob id false (coinbaseBlob extra) = some (coinbaseTx extra) ∧
      (coinbaseTx extra).vin = [.gen 0] ∧ (coinbaseTx extra).vout = [] ∧
      getTransactionUnprunableSummary (coinbaseBlob extra) = none ∧
      pruneTransactionBlob (coinbaseBlob extra) = none := by
  obtain ⟨extra, hextra⟩ : ∃ extra : Bytes, extra = replicate 1000001 0 := ⟨_, rfl⟩
  have hlen : extra.length = 1000001 := by rw [hextra, length_replicate]
  have hsmall : extra.length < 2 ^ 64 := by
    rw [hlen]
    decide
  have hscan : getTransactionUnprunableSummary (coinbaseBlob extra) = none := by
    refine coinbaseTx_summary hsmall ?_
    rw [hlen]
    decide
  refine ⟨extra, hextra, coinbaseTx_parse hsmall, rfl, rfl, hscan, ?_⟩
  rw [pruneTransactionBlob, hscan, bind_none]

end Jero.Serial
