import Jero.Serial.ScannerAgrees

namespace Jero.Serial
open Jero.Common List Option Codec

def nullHash : Key := Blob.zero 32

def writtenSizes (stale : Nat) (t : Transaction) : Option TxSizes :=
  (transactionPrefix.write t.toTransactionPrefix).bind fun head =>
    if t.version = 1 then some ⟨unsignedInt head.length, unsignedInt head.length⟩
    else if t.vin.isEmpty then some ⟨unsignedInt head.length, stale⟩
    else ((rctSigBase t.vin.length t.vout.length).write t.rctSignatures.toRctSigBase).map
      fun base => ⟨unsignedInt head.length, unsignedInt (head.length + base.length)⟩

def serializedPrunable (t : Transaction) : Option Bytes :=
  (prunableField t.vin t.vout t.rctSignatures.toRctSigBase).write t.rctSignatures.p

section
variable (cnFastHash : Bytes → Key)

def getTransactionPrefixHash (p : TransactionPrefix) : Option Key :=
  (transactionPrefix.write p).map cnFastHash

def calculatePrunableBlobHash (version : UInt64) (prunable : Bytes) : Option Key :=
  if version = 2 then some (cnFastHash prunable) else none

def reserializedPrunableHash (t : Transaction) : Option Key :=
  ((rctSigPrunable t.rctSignatures.type t.vin.length t.vout.length (mixin t.vin)).write
    t.rctSignatures.p).map cnFastHash

def calculateTransactionPrunableHash (t : Transaction) (unprunableSize : Nat)
    (blob : Option Bytes) : Option Key :=
  if t.version = 1 then none
  else match blob with
    | none => reserializedPrunableHash cnFastHash t
    | some blob =>
      if unprunableSize = 0 then reserializedPrunableHash cnFastHash t
      else if unprunableSize ≤ blob.length then
        calculatePrunableBlobHash cnFastHash t.version (blob.drop unprunableSize)
      else none

def hashOfHashes (h₀ h₁ h₂ : Key) : Key := cnFastHash (h₀.val ++ (h₁.val ++ h₂.val))

def getPrunedTransactionHash (t : Transaction) (prunedDataHash : Key) : Option Key :=
  if t.version > 1 then
    (getTransactionPrefixHash cnFastHash t.toTransactionPrefix).bind fun h₀ =>
      ((rctSigBase t.vin.length t.vout.length).write t.rctSignatures.toRctSigBase).map fun base =>
        hashOfHashes cnFastHash h₀ (cnFastHash base)
          (if t.rctSignatures.type = .null then nullHash else prunedDataHash)
  else none

def prunableSlot (t : Transaction) (sizes : TxSizes) (blob : Bytes) : Option Key :=
  if t.rctSignatures.type = .null then some nullHash
  else calculateTransactionPrunableHash cnFastHash t sizes.unprunableSize (some blob)

def calculateTransactionHash (stale : Nat) (t : Transaction) : Option Key :=
  if t.pruned then none
  else if t.version = 1 then t.serialize.map cnFastHash
  else (getTransactionPrefixHash cnFastHash t.toTransactionPrefix).bind fun h₀ =>
    t.serialize.bind fun blob => (writtenSizes stale t).bind fun sizes =>
      if sizes.prefixSize ≤ sizes.unprunableSize ∧ sizes.unprunableSize ≤ blob.length then
        (prunableSlot cnFastHash t sizes blob).map
          (hashOfHashes cnFastHash h₀ (cnFastHash ((blob.drop sizes.prefixSize).take
            (sizes.unprunableSize - sizes.prefixSize))))
      else none

end

structure WrittenParts (t : Transaction) where
  head : Bytes
  base : Bytes
  prunable : Bytes
  writeHead : transactionPrefix.write t.toTransactionPrefix = some head
  writeBase : (rctSigBase t.vin.length t.vout.length).write t.rctSignatures.toRctSigBase = some base
  writePrunable : serializedPrunable t = some prunable

def WrittenParts.unprunable {t : Transaction} (w : WrittenParts t) : Bytes := w.head ++ w.base

def WrittenParts.blob {t : Transaction} (w : WrittenParts t) : Bytes := w.unprunable ++ w.prunable

theorem head_length_pos {p : TransactionPrefix} {w : Bytes}
    (h : transactionPrefix.write p = some w) : 0 < w.length := by
  obtain ⟨front, tail, -, htail, rfl⟩ := transactionPrefix_write.mp h
  have hpos := container_minWidth byte sizeMax htail
  rw [length_append]
  omega

variable {blob : Bytes}
section
variable {t : Transaction}

theorem version_ne_one (h : t.version = 2) : ¬ t.version = 1 := by
  rw [h]
  decide

theorem ite_two {α : Type} {t : Transaction} (hversion : t.version = 2) (hvin : t.vin ≠ [])
    (x y z : α) : (if t.version = 1 then x else if t.vin.isEmpty then y else z) = z := by
  rw [if_neg (version_ne_one hversion), if_neg (by rwa [List.isEmpty_iff])]

theorem writtenParts (hversion : t.version = 2) (hvin : t.vin ≠ [])
    (h : transaction.write t = some blob) : ∃ w : WrittenParts t, blob = w.blob := by
  obtain ⟨head, tail, hhead, htail, rfl⟩ := transaction_write.mp h
  rw [transactionTail, ite_two hversion hvin] at htail
  obtain ⟨nothing, rct, hnothing, hrct, rfl⟩ := seq_write.mp htail
  obtain rfl := some.inj hnothing
  obtain ⟨base, prunable, hbase, hprunable, rfl⟩ := dep_write.mp hrct
  exact ⟨⟨head, base, prunable, hhead, hbase, hprunable⟩, (append_assoc head base prunable).symm⟩

variable (w : WrittenParts t)

theorem WrittenParts.write_unprunable (hversion : t.version = 2) (hvin : t.vin ≠ []) :
    transactionBase.write t = some w.unprunable := by
  rw [transactionBase, image_write]
  refine dep_write.mpr ⟨w.head, w.base, w.writeHead, ?_, rfl⟩
  rw [baseTail, ite_two hversion hvin]
  exact w.writeBase

theorem WrittenParts.head_le : w.head.length ≤ w.unprunable.length := by
  rw [WrittenParts.unprunable, length_append]
  exact Nat.le_add_right _ _

theorem WrittenParts.unprunable_le : w.unprunable.length ≤ w.blob.length := by
  rw [WrittenParts.blob, length_append]
  exact Nat.le_add_right _ _

theorem WrittenParts.unprunable_ne_zero : w.unprunable.length ≠ 0 := by
  have hpos := head_length_pos w.writeHead
  have hle := w.head_le
  omega

theorem WrittenParts.base_slice :
    (w.blob.drop w.head.length).take (w.unprunable.length - w.head.length) = w.base := by
  rw [WrittenParts.blob, WrittenParts.unprunable, append_assoc, drop_left,
    length_append, Nat.add_sub_cancel_left, take_left]

theorem WrittenParts.prunable_slice : w.blob.drop w.unprunable.length = w.prunable := by
  rw [WrittenParts.blob, drop_left]

theorem WrittenParts.sizes (hversion : t.version = 2) (hvin : t.vin ≠ [])
    (hsize : w.unprunable.length < 2 ^ 32) (stale : Nat) :
    writtenSizes stale t = some ⟨w.head.length, w.unprunable.length⟩ := by
  have hhead : w.head.length < 2 ^ 32 := lt_of_le_of_lt w.head_le hsize
  have hlen : w.head.length + w.base.length = w.unprunable.length := by
    rw [WrittenParts.unprunable, length_append]
  rw [writtenSizes, w.writeHead, bind_some, ite_two hversion hvin, w.writeBase, map_some,
    hlen, unsignedInt, unsignedInt, Nat.mod_eq_of_lt hhead, Nat.mod_eq_of_lt hsize]

variable (cnFastHash : Bytes → Key)

theorem WrittenParts.sliced_hash (hversion : t.version = 2) :
    calculateTransactionPrunableHash cnFastHash t w.unprunable.length (some w.blob) =
      some (cnFastHash w.prunable) := by
  simp only [calculateTransactionPrunableHash, if_neg (version_ne_one hversion),
    if_neg w.unprunable_ne_zero, if_pos w.unprunable_le, w.prunable_slice,
    calculatePrunableBlobHash, if_pos hversion]

theorem WrittenParts.slot (hversion : t.version = 2) :
    prunableSlot cnFastHash t ⟨w.head.length, w.unprunable.length⟩ w.blob =
      some (if t.rctSignatures.type = .null then nullHash else cnFastHash w.prunable) := by
  unfold prunableSlot
  split
  · rfl
  · exact w.sliced_hash cnFastHash hversion

end

theorem nullPrunable_write {inputs outputs mixin : Nat} (p : RctSigPrunable)
    (hinputs : inputs < 0xffffffff) (houtputs : outputs < 0xffffffff) :
    (rctSigPrunable .null inputs outputs mixin).write p =
      if mixin < 0xffffffff then some [] else none := by
  unfold rctSigPrunable
  by_cases hmixin : mixin < 0xffffffff
  · have hsmall : ¬ (inputs ≥ 0xffffffff ∨ outputs ≥ 0xffffffff ∨ mixin ≥ 0xffffffff) := by omega
    rw [if_neg hsmall, if_pos hmixin]
    rfl
  · have hbig : inputs ≥ 0xffffffff ∨ outputs ≥ 0xffffffff ∨ mixin ≥ 0xffffffff := by omega
    rw [if_pos hbig, if_neg hmixin]
    rfl

variable {t : Transaction}

theorem reserialized_null (cnFastHash : Bytes → Key)
    (hreadable : t.toTransactionPrefix.Readable) (hnull : t.rctSignatures.type = .null) :
    reserializedPrunableHash cnFastHash t =
      if mixin t.vin < 0xffffffff then some (cnFastHash []) else none := by
  have hinputs : t.vin.length < 0xffffffff := lt_of_le_of_lt hreadable.vin.count (by decide)
  have houtputs : t.vout.length < 0xffffffff :=
    lt_of_le_of_lt (hreadable.voutCount.trans (maxVoutCount_le _)) (by decide)
  rw [reserializedPrunableHash, hnull, nullPrunable_write _ hinputs houtputs]
  split <;> rfl

section
variable {t : Transaction} (hversion : t.version = 2) (hvin : t.vin ≠ [])
include hversion hvin

theorem mixin_lt_of_shaped (htype : t.rctSignatures.type ≠ .null) (h : t.Shaped) :
    mixin t.vin < 0xffffffff := by
  have htail := h.tail
  rw [TailShaped, ite_two hversion hvin] at htail
  have hprunable := htail.2.2
  rw [PrunableShaped, if_neg htype] at hprunable
  exact hprunable.mixinBound

theorem received_two_iff {w : WrittenParts t} (cnFastHash : Bytes → Key) (hshaped : t.Shaped) :
    calculateTransactionPrunableHash cnFastHash t w.unprunable.length (some w.blob) =
        calculateTransactionPrunableHash cnFastHash t w.unprunable.length none ↔
      mixin t.vin < 0xffffffff := by
  have hnone : calculateTransactionPrunableHash cnFastHash t w.unprunable.length none =
      reserializedPrunableHash cnFastHash t := if_neg (version_ne_one hversion)
  rw [w.sliced_hash cnFastHash hversion, hnone]
  by_cases hnull : t.rctSignatures.type = .null
  · have hempty := w.writePrunable
    rw [serializedPrunable, prunableField, if_pos hnull] at hempty
    rw [reserialized_null cnFastHash hshaped.readable hnull, ← some.inj hempty]
    split
    · rename_i hmixin
      exact ⟨fun _ => hmixin, fun _ => rfl⟩
    · rename_i hmixin
      constructor
      · intro h
        cases h
      · intro h
        exact absurd h hmixin
  · have hwritten := w.writePrunable
    rw [serializedPrunable, prunableField, if_neg hnull] at hwritten
    rw [reserializedPrunableHash, hwritten, map_some]
    exact ⟨fun _ => mixin_lt_of_shaped hversion hvin hnull hshaped, fun _ => rfl⟩

theorem baseShaped_two (h : t.Shaped) :
    BaseShaped t.toTransactionPrefix t.rctSignatures.toRctSigBase := by
  have htail := h.tail
  rw [TailShaped, ite_two hversion hvin] at htail
  rw [BaseShaped, ite_two hversion hvin]
  exact htail.2.1

theorem WrittenParts.read_base (w : WrittenParts t) (hshaped : t.Shaped) :
    ∃ base, transactionBase.read w.blob = some (base, w.prunable) := by
  obtain ⟨u, hu, hread⟩ := transactionBase_lawful.restore t
    ⟨hshaped.readable, baseShaped_two hversion hvin hshaped⟩
  obtain rfl : w.unprunable = u :=
    some.inj ((w.write_unprunable hversion hvin).symm.trans hu)
  exact ⟨_, hread w.prunable⟩

end
section
variable {scalarmultInvEight : Key → Key} {blob : Bytes} {t₀ t : Transaction}
variable (hexpand : expandTransaction1 scalarmultInvEight false t₀ = some t)
  (hversion : t.version = 2) (hvin : t.vin ≠ [])
include hexpand hversion hvin

theorem received_parts (hread : transaction.read blob = some (t₀, [])) :
    t.Shaped ∧ ∃ w : WrittenParts t, blob = w.blob := by
  have hsame := (expandTransaction1_sameWire hexpand).txPrefix
  have hshaped := (transaction_lawful.fits hread).1
  have hwrite : transaction.write t = some blob := by
    rw [expandTransaction1_write hexpand hshaped]
    rw [hsame] at hversion hvin
    rcases transaction_cut hread with ⟨w, hw, rfl⟩ | ⟨-, hends, -⟩
    · rw [hw, append_nil]
    · have hoff := hends.2
      rw [TailOff, if_neg (version_ne_one hversion)] at hoff
      exact absurd hoff hvin
  exact ⟨expandTransaction1_shaped hexpand hshaped, writtenParts hversion hvin hwrite⟩

theorem received_sizes {w : WrittenParts t} (hread : transaction.read w.blob = some (t₀, []))
    (hshaped : t.Shaped) (hsize : w.unprunable.length < 2 ^ 32) (stale : Nat) :
    ∃ prefixSize, parsedSizes stale w.blob = some ⟨prefixSize, w.unprunable.length⟩ := by
  obtain ⟨mid, unprunable, hfront, hbase⟩ := transaction_read_base hread
  have hsame := (expandTransaction1_sameWire hexpand).txPrefix
  have hvin₀ : t₀.vin ≠ [] := hsame ▸ hvin
  obtain ⟨base, hwritten⟩ := w.read_base hversion hvin hshaped
  have hparsed := transactionBase_read hfront hbase
  obtain ⟨-, hrest⟩ := Prod.mk.inj (some.inj (hwritten.symm.trans hparsed))
  have hlen : w.blob.length - unprunable.length = w.unprunable.length := by
    rw [← hrest, WrittenParts.blob, length_append, Nat.add_sub_cancel]
  have hsizes := parsedSizes_read hfront hbase hvin₀ stale
  have hword : unsignedInt w.unprunable.length = w.unprunable.length := Nat.mod_eq_of_lt hsize
  rw [hlen, hword] at hsizes
  exact ⟨_, hsizes⟩

end

theorem transaction_hashes_agree (cnFastHash : Bytes → Key) (stale : Nat) :
    (∀ t : Transaction, ∀ blob, t.version = 2 → t.pruned = false → t.vin ≠ [] →
      t.serialize = some blob →
      (∀ unprunable, transactionBase.write t = some unprunable → unprunable.length < 2 ^ 32) →
      ∃ prunable hash, serializedPrunable t = some prunable ∧
        calculateTransactionHash cnFastHash stale t = some hash ∧
        ∀ u : Transaction, u.toTransactionPrefix = t.toTransactionPrefix →
          u.rctSignatures.toRctSigBase = t.rctSignatures.toRctSigBase →
          getPrunedTransactionHash cnFastHash u (cnFastHash prunable) = some hash) ∧
    (∀ scalarmultInvEight maxSizeCheck blob t,
      parseAndValidateTxFromBlob scalarmultInvEight maxSizeCheck blob = some t →
      (t.vin ≠ [] ∨ stale = 0) →
      (∀ base rest, transactionBase.read blob = some (base, rest) →
        blob.length - rest.length < 2 ^ 32) →
      ∃ sizes, parsedSizes stale blob = some sizes ∧
        (calculateTransactionPrunableHash cnFastHash t sizes.unprunableSize (some blob) =
            calculateTransactionPrunableHash cnFastHash t sizes.unprunableSize none ↔
          t.version = 1 ∨ mixin t.vin < 0xffffffff)) := by
  constructor
  · intro t blob hversion hpruned hvin hserialize hsize
    have hwrite := hserialize
    rw [Transaction.serialize_unpruned hpruned] at hwrite
    obtain ⟨w, rfl⟩ := writtenParts hversion hvin hwrite
    have hlen := hsize _ (w.write_unprunable hversion hvin)
    refine ⟨w.prunable, hashOfHashes cnFastHash (cnFastHash w.head) (cnFastHash w.base)
      (if t.rctSignatures.type = .null then nullHash else cnFastHash w.prunable),
      w.writePrunable, ?_, ?_⟩
    · have hordered : w.head.length ≤ w.unprunable.length ∧ w.unprunable.length ≤ w.blob.length :=
        ⟨w.head_le, w.unprunable_le⟩
      have hfull : ¬ t.pruned = true := by
        rw [hpruned]
        exact Bool.false_ne_true
      simp only [calculateTransactionHash, if_neg hfull, if_neg (version_ne_one hversion),
        getTransactionPrefixHash, w.writeHead, map_some, bind_some, hserialize,
        w.sizes hversion hvin hlen, if_pos hordered, w.slot cnFastHash hversion, w.base_slice]
    · intro u hfront hbase
      have hmodern : t.version > 1 := by
        rw [hversion]
        decide
      simp only [getPrunedTransactionHash, getTransactionPrefixHash, hfront, hbase, if_pos hmodern,
        w.writeHead, w.writeBase, map_some, bind_some]
  · intro scalarmultInvEight maxSizeCheck blob t h hfresh hsize
    obtain ⟨-, t₀, hread, hexpand⟩ := parseAndValidateTxFromBlob_inv h
    have hsame := (expandTransaction1_sameWire hexpand).txPrefix
    obtain ⟨mid, unprunable, hfront, hbase⟩ := transaction_read_base hread
    have hversion := (transactionPrefix_lawful.fits hfront).1.version
    rw [← hsame] at hversion
    by_cases hvin : t.vin = []
    · obtain rfl := hfresh.resolve_left (not_not.mpr hvin)
      have hvin₀ : t₀.vin = [] := hsame ▸ hvin
      obtain ⟨sizes, hsizes, hcase⟩ : ∃ sizes, parsedSizes 0 blob = some sizes ∧
        (t₀.toTransactionPrefix.version = 1 ∨ sizes.unprunableSize = 0) := by
        rw [parsedSizes, hfront, bind_some]
        split
        · rename_i hone
          exact ⟨_, rfl, .inl hone⟩
        · rw [if_pos (List.isEmpty_iff.mpr hvin₀)]
          exact ⟨_, rfl, .inr rfl⟩
      refine ⟨sizes, hsizes, fun _ => .inr ?_, fun _ => ?_⟩
      · rw [hvin]
        decide
      · rcases hcase with hone | hzero
        · rw [← hsame] at hone
          exact (if_pos hone).trans (if_pos hone).symm
        · rw [hzero]
          rfl
    · rcases version_cases hversion with hone | htwo
      · have hvin₀ : t₀.vin ≠ [] := hsame ▸ hvin
        refine ⟨_, parsedSizes_read hfront hbase hvin₀ stale, fun _ => .inl hone, fun _ => ?_⟩
        exact (if_pos hone).trans (if_pos hone).symm
      · obtain ⟨hshaped, w, rfl⟩ := received_parts hexpand htwo hvin hread
        obtain ⟨base, hwritten⟩ := w.read_base htwo hvin hshaped
        have hlen := hsize base w.prunable hwritten
        rw [WrittenParts.blob, length_append, Nat.add_sub_cancel] at hlen
        obtain ⟨prefixSize, hsizes⟩ := received_sizes hexpand htwo hvin hread hshaped hlen stale
        refine ⟨_, hsizes, (received_two_iff htwo hvin cnFastHash hshaped).trans ?_⟩
        exact ⟨.inr, fun h => h.resolve_left (version_ne_one htwo)⟩

def checksum (bytes : Bytes) : Key :=
  ⟨List.replicate 32 (bytes.foldl (fun sum byte => 31 * sum + byte + 1) 0), length_replicate⟩

theorem clsagTx_hashes_agree :
    (∃ prunable hash, serializedPrunable clsagTx = some prunable ∧
      calculateTransactionHash checksum 0 clsagTx = some hash ∧
      ∀ u : Transaction, u.toTransactionPrefix = clsagTx.toTransactionPrefix →
        u.rctSignatures.toRctSigBase = clsagTx.rctSignatures.toRctSigBase →
        getPrunedTransactionHash checksum u (checksum prunable) = some hash) ∧
    (∃ sizes, parsedSizes 0 clsagTxBlob = some sizes ∧
      (calculateTransactionPrunableHash checksum expandedClsagTx sizes.unprunableSize
            (some clsagTxBlob) =
          calculateTransactionPrunableHash checksum expandedClsagTx sizes.unprunableSize none ↔
        expandedClsagTx.version = 1 ∨ mixin expandedClsagTx.vin < 0xffffffff)) := by
  have hagree := transaction_hashes_agree checksum 0
  refine ⟨hagree.1 clsagTx clsagTxBlob rfl rfl (by decide) (by decide +kernel) ?_,
    hagree.2 id true clsagTxBlob expandedClsagTx (by decide +kernel) (.inr rfl) ?_⟩
  · intro unprunable h
    have hlen : (transactionBase.write clsagTx).map length = some 121 := by decide +kernel
    rw [h, map_some] at hlen
    rw [some.inj hlen]
    decide
  · intro base rest _
    have hlen : clsagTxBlob.length < 2 ^ 32 := by decide +kernel
    exact lt_of_le_of_lt (Nat.sub_le _ _) hlen

def noInputTx : Transaction :=
  ⟨⟨2, 0, [], [], []⟩, [], ⟨RctSigBase.empty, RctSigPrunable.empty⟩, false⟩

def emptyRingTx : Transaction :=
  ⟨⟨2, 0, [.toKey ⟨0, [], zeroKey⟩], [], []⟩, [], ⟨RctSigBase.empty, RctSigPrunable.empty⟩, false⟩

def emptyRingBlob : Bytes := [2, 0, 1, 2, 0, 0] ++ List.replicate 32 0 ++ [0, 0, 0]

theorem hashes_differ_without_ring :
    (noInputTx.serialize = some [2, 0, 0, 0, 0] ∧ serializedPrunable noInputTx = some [] ∧
      calculateTransactionHash (fun _ => zeroKey) 0 noInputTx = none ∧
      getPrunedTransactionHash (fun _ => zeroKey) noInputTx zeroKey = some zeroKey) ∧
    (parseAndValidateTxFromBlob id true emptyRingBlob = some emptyRingTx ∧
      parsedSizes 0 emptyRingBlob = some ⟨40, 41⟩ ∧
      calculateTransactionPrunableHash (fun _ => zeroKey) emptyRingTx 41 (some emptyRingBlob) =
        some zeroKey ∧
      calculateTransactionPrunableHash (fun _ => zeroKey) emptyRingTx 41 none = none) := by
  decide +kernel

end Jero.Serial
