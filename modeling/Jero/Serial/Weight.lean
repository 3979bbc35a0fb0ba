import Jero.Serial.TxHash

namespace Jero.Serial
open Jero.Common Jero.Machine List Codec Option
variable {α β : Type} {f : α → Nat} {k n : Nat}
namespace Codec

def Width (c : Codec α) (size : α → Nat) : Prop :=
  ∀ ⦃x w⦄, c.write x = some w → w.length = size x

variable {c : Codec α}

theorem Width.seq {d : Codec β} {g : β → Nat} (hc : c.Width f)
    (hd : d.Width g) : (c.seq d).Width (fun x => f x.1 + g x.2) := by
  intro x w h
  obtain ⟨u, v, hu, hv, rfl⟩ := seq_write.mp h
  rw [length_append, hc hu, hd hv]

theorem Width.image (hc : c.Width f) (proj : β → α) (inj : α → β) :
    (c.image proj inj).Width (fun x => f (proj x)) := by
  intro x w h
  exact hc h

theorem Width.check (hc : c.Width f) (p : α → Bool) :
    (c.check p).Width f := by
  intro x w h
  exact hc (check_write.mp h).1

theorem times_length {xs : List α} {w : Bytes}
    (h : (c.times n).write xs = some w) : xs.length = n := by
  induction n generalizing xs w with
  | zero =>
    obtain ⟨rfl, -⟩ := each_nil_write.mp h
    rfl
  | succ n ih =>
    obtain ⟨x, ys, u, v, rfl, -, hv, -⟩ := each_cons_write.mp h
    rw [length_cons, ih hv]

theorem Width.times (hc : c.Width f) (n : Nat) :
    (c.times n).Width (fun xs => (xs.map f).sum) := by
  induction n with
  | zero =>
    intro xs w h
    obtain ⟨rfl, rfl⟩ := each_nil_write.mp h
    rfl
  | succ n ih =>
    intro xs w h
    obtain ⟨x, ys, u, v, rfl, hu, hv, rfl⟩ := each_cons_write.mp h
    rw [length_append, hc hu, ih hv]
    exact sum_cons.symm

theorem times_width_const (hc : c.Width (fun _ => k)) (n : Nat) :
    (c.times n).Width (fun _ => n * k) := by
  intro xs w h
  have hwidth := hc.times n h
  beta_reduce at hwidth
  rw [hwidth, map_const', sum_replicate, times_length h, smul_eq_mul]

end Codec

theorem blob_width (n : Nat) : (blob n).Width (fun _ => n) := by
  intro v w h
  obtain rfl := Option.some.inj h
  exact v.property

theorem key_width : key.Width (fun _ => 32) := blob_width 32

section
variable {c : Codec α}

theorem customVector_width (hc : c.Width f) (size minSize : Nat) :
    (customVector c size minSize).Width (fun xs => (xs.map f).sum) := by
  intro xs w h
  exact hc.times size h

theorem customVector_width_const (hc : c.Width (fun _ => k)) (size minSize : Nat) :
    (customVector c size minSize).Width (fun _ => size * k) := by
  intro xs w h
  exact times_width_const hc size h

theorem vector_width_const (hc : c.Width (fun _ => k)) :
    (vector c).Width (fun xs => (writeVarint xs.length).length + xs.length * k) := by
  intro xs w h
  obtain ⟨-, v, hv, rfl⟩ := container_write.mp h
  rw [length_append, times_width_const hc xs.length hv]

theorem proofVector_width_one (hc : c.Width f) {minSize outputs : Nat}
    {maxAmounts : List α → Nat} {x : α} {w : Bytes}
    (h : (proofVector varint32 c minSize outputs maxAmounts).write [x] = some w) :
    w.length = 1 + f x ∧ outputs ≤ maxAmounts [x] := by
  obtain ⟨hwrite, hamounts⟩ := check_write.mp h
  rw [image_write] at hwrite
  obtain ⟨u, v, hu, hv, rfl⟩ := dep_write.mp hwrite
  obtain rfl : [1] = u := Option.some.inj (check_write.mp hu).1
  have hproofs := customVector_width hc 1 minSize hv
  refine ⟨?_, of_decide_eq_true hamounts⟩
  rw [length_append, hproofs]
  rfl

end

def halfWidth (n : Nat) : Nat := (writeVarint n).length + n * 32

theorem halfWidth_small (h : n < 128) : halfWidth n = 1 + n * 32 := by
  rw [halfWidth, writeVarint_small h]
  rfl

theorem halves_width : halves.Width (fun x => halfWidth x.1.length + halfWidth x.2.length) :=
  (vector_width_const key_width).seq (vector_width_const key_width)

theorem keys6_width : keys6.Width (fun _ => 6 * 32) :=
  key_width.seq (key_width.seq (key_width.seq (key_width.seq (key_width.seq key_width))))

theorem bulletproof_width :
    bulletproof.Width
      (fun p => 6 * 32 + ((halfWidth p.L.length + halfWidth p.R.length) + 3 * 32)) := by
  have hfields := keys6_width.seq (halves_width.seq (key_width.seq (key_width.seq key_width)))
  exact (hfields.image _ _).check _

theorem mgSig_width (rows columns : Nat) :
    (mgSig rows columns).Width (fun _ => rows * (columns * 32) + 32) := by
  have hrow := customVector_width_const key_width columns 32
  exact ((customVector_width_const hrow rows 32).seq key_width).image _ _

theorem clsag_width (mixin : Nat) : (clsag mixin).Width (fun _ => (mixin + 1) * 32 + (32 + 32)) :=
  ((customVector_width_const key_width (mixin + 1) 32).seq (key_width.seq key_width)).image _ _

def uint64Max : Nat := 2 ^ 64 - 1

def paddedBitsFrom (n : Nat) : Nat → Nat → Nat
  | 0, nrl => nrl
  | fuel + 1, nrl => if 1 <<< nrl < n then paddedBitsFrom n fuel (nrl + 1) else nrl

def paddedBits (n : Nat) : Nat := paddedBitsFrom n 32 0

def proofKeys (plus : Bool) : Nat := if plus then 6 else 9

def getTransactionWeightClawback (t : Transaction) (nPaddedOutputs : Nat) : Option Nat :=
  let plus := decide (t.rctSignatures.type = .bulletproofPlus)
  let bpBase := 32 * (proofKeys plus + 7 * 2) / 2
  if nPaddedOutputs ≤ 2 then some 0
  else
    let nlr := paddedBits nPaddedOutputs + 6
    let bpSize := 32 * (proofKeys plus + 2 * nlr)
    if t.vout.length ≤ bulletproofMaxOutputs then
      if bpBase * nPaddedOutputs ≥ bpSize then some ((bpBase * nPaddedOutputs - bpSize) * 4 / 5)
      else none
    else none

def addClawback (weight : Nat) (bpClawback : Nat) : Option Nat :=
  if bpClawback ≤ uint64Max - weight then some (weight + bpClawback) else none

def maxAmounts (type : RctType) (p : RctSigPrunable) : Nat :=
  if type.isBulletproofPlus then nBulletproofPlusMaxAmounts p.bulletproofsPlus
  else nBulletproofMaxAmounts p.bulletproofs

def getTransactionWeightOfSize (t : Transaction) (blobSize : Nat) : Option Nat :=
  if t.pruned then some uint64Max
  else if t.version < 2 then some blobSize
  else if !t.rctSignatures.type.isBulletproof && !t.rctSignatures.type.isBulletproofPlus then
    some blobSize
  else (getTransactionWeightClawback t (maxAmounts t.rctSignatures.type t.rctSignatures.p)).bind
    (addClawback blobSize)

def getTransactionWeight (t : Transaction) : Option Nat :=
  t.serialize.bind fun blob => getTransactionWeightOfSize t blob.length

def RctType.weighsPruned : RctType → Bool
  | .bulletproof2 => true
  | .clsag => true
  | .bulletproofPlus => true
  | _ => false

def ringSignatureSize (type : RctType) (inputs ringSize : Nat) : Nat :=
  if type.isClsag then inputs * (ringSize + 2) * 32
  else inputs * (ringSize * (1 + 1) * 32 + 32)

def prunableSize (type : RctType) (inputs outputs ringSize : Nat) : Nat :=
  1 + (32 * (proofKeys type.isBulletproofPlus + 2 * (paddedBits outputs + 6)) + 2) +
    ringSignatureSize type inputs ringSize + 32 * inputs

def getPrunedTransactionWeight (t : Transaction) : Option Nat :=
  if !t.pruned then some uint64Max
  else if t.version < 2 then some uint64Max
  else if !t.rctSignatures.type.weighsPruned then some uint64Max
  else match t.vin with
    | .toKey input :: _ =>
      t.serialize.bind fun s =>
        (getTransactionWeightClawback t (1 <<< paddedBits t.vout.length)).bind
          (addClawback (s.length + prunableSize t.rctSignatures.type t.vin.length t.vout.length
            input.keyOffsets.length))
    | _ => some uint64Max

structure CanonicalHalves (L R : List Key) (outputs : Nat) : Prop where
  left : L.length = 6 + Nat.clog 2 outputs
  right : R.length = 6 + Nat.clog 2 outputs

def OneCanonicalProof (type : RctType) (p : RctSigPrunable) (outputs : Nat) : Prop :=
  if type.isBulletproofPlus then
    ∃ proof, p.bulletproofsPlus = [proof] ∧ CanonicalHalves proof.L proof.R outputs
  else ∃ proof, p.bulletproofs = [proof] ∧ CanonicalHalves proof.L proof.R outputs

theorem paddedBitsFrom_eq {n fuel nrl : Nat} (hlow : nrl ≤ Nat.clog 2 n)
    (hhigh : Nat.clog 2 n ≤ nrl + fuel) : paddedBitsFrom n fuel nrl = Nat.clog 2 n := by
  induction fuel generalizing nrl with
  | zero => exact le_antisymm hlow hhigh
  | succ fuel ih =>
    rw [paddedBitsFrom, Nat.one_shiftLeft]
    split
    · rename_i hlt
      exact ih ((Nat.lt_clog_iff_pow_lt one_lt_two).mpr hlt) (by omega)
    · rename_i hle
      exact le_antisymm hlow (Nat.clog_le_of_le_pow (Nat.le_of_not_lt hle))

theorem clog_le_four {n : Nat} (h : n ≤ bulletproofMaxOutputs) : Nat.clog 2 n ≤ 4 :=
  Nat.clog_le_of_le_pow h

theorem paddedBits_eq_clog {n : Nat} (h : n ≤ bulletproofMaxOutputs) :
    paddedBits n = Nat.clog 2 n :=
  paddedBitsFrom_eq (Nat.zero_le _) ((clog_le_four h).trans (by decide))

section
variable {L R : List Key} {outputs : Nat}

theorem CanonicalHalves.amounts (h : CanonicalHalves L R outputs)
    (houtputs : outputs ≤ bulletproofMaxOutputs) :
    nBulletproofMaxAmountsFrom 0 [(L.length, R.length)] = 1 <<< Nat.clog 2 outputs := by
  have hbits := clog_le_four houtputs
  rw [h.left, h.right]
  interval_cases Nat.clog 2 outputs <;> decide

theorem CanonicalHalves.width (h : CanonicalHalves L R outputs)
    (houtputs : outputs ≤ bulletproofMaxOutputs) :
    halfWidth L.length + halfWidth R.length = 2 + 32 * (2 * (paddedBits outputs + 6)) := by
  have hbits := clog_le_four houtputs
  rw [h.left, h.right, halfWidth_small (by omega), paddedBits_eq_clog houtputs]
  omega

end
variable {type : RctType}

theorem maxAmounts_canonical {p : RctSigPrunable} {outputs : Nat}
    (h : OneCanonicalProof type p outputs) (houtputs : outputs ≤ bulletproofMaxOutputs) :
    maxAmounts type p = 1 <<< paddedBits outputs := by
  rw [paddedBits_eq_clog houtputs]
  unfold OneCanonicalProof at h
  unfold maxAmounts
  split at h
  · rename_i hplus
    obtain ⟨proof, hproof, hhalves⟩ := h
    rw [if_pos hplus, hproof]
    exact hhalves.amounts houtputs
  · rename_i hplus
    obtain ⟨proof, hproof, hhalves⟩ := h
    rw [if_neg hplus, hproof]
    exact hhalves.amounts houtputs

section
variable {type : RctType} {p : RctSigPrunable} {inputs outputs mixin : Nat} {w : Bytes}

theorem rctSigPrunable_write (h : (rctSigPrunable type inputs outputs mixin).write p = some w) :
    mixin < 0xffffffff ∧ ∃ u v,
      (rangeProofs type outputs).write (p.rangeSigs, p.bulletproofs, p.bulletproofsPlus) = some u ∧
      (inputProofs type inputs mixin).write (p.MGs, p.CLSAGs, p.pseudoOuts) = some v ∧
      w = u ++ v := by
  unfold rctSigPrunable at h
  split at h
  · cases h
  · rename_i hsmall
    exact ⟨by omega, seq_write.mp h⟩

theorem proof_length {α : Type} {c : Codec α} {f : α → Nat} (hc : c.Width f) {proof : α}
    {L R : List Key} {keys minSize : Nat} {maxAmounts : List α → Nat}
    (hkeys : f proof = 32 * keys + (halfWidth L.length + halfWidth R.length))
    (hhalves : CanonicalHalves L R outputs) (houtputs : outputs ≤ bulletproofMaxOutputs)
    (h : (proofVector varint32 c minSize outputs maxAmounts).write [proof] = some w) :
    w.length = 1 + (32 * (keys + 2 * (paddedBits outputs + 6)) + 2) := by
  rw [(proofVector_width_one hc h).1, hkeys, hhalves.width houtputs]
  omega

theorem rangeProofs_length (htype : type.weighsPruned = true)
    (hproof : OneCanonicalProof type p outputs) (houtputs : outputs ≤ bulletproofMaxOutputs)
    (h : (rangeProofs type outputs).write (p.rangeSigs, p.bulletproofs, p.bulletproofsPlus) =
      some w) :
    w.length =
      1 + (32 * (proofKeys type.isBulletproofPlus + 2 * (paddedBits outputs + 6)) + 2) := by
  obtain ⟨u, rest, hu, hrest, rfl⟩ := seq_write.mp h
  obtain ⟨v, x, hv, hx, rfl⟩ := seq_write.mp hrest
  cases type with
  | null | full | simple | bulletproof => cases htype
  | bulletproof2 | clsag =>
    obtain ⟨proof, hone, hhalves⟩ := hproof
    rw [hone] at hv
    obtain rfl := some.inj hu
    obtain rfl := some.inj hx
    rw [nil_append, append_nil]
    refine proof_length bulletproof_width ?_ hhalves houtputs hv
    change _ = 32 * 9 + _
    omega
  | bulletproofPlus =>
    obtain ⟨proof, hone, hhalves⟩ := hproof
    rw [hone] at hx
    obtain rfl := some.inj hu
    obtain rfl := some.inj hv
    exact proof_length (((keys6_width.seq halves_width).image _ _).check _) rfl hhalves houtputs hx

theorem clsags_length {xs : List Clsag}
    (h : (customVector (clsag mixin) inputs (3 * 32)).write xs = some w) :
    w.length = inputs * (mixin + 1 + 2) * 32 := by
  have hlen := customVector_width_const (clsag_width mixin) inputs (3 * 32) h
  have hone : (mixin + 1) * 32 + (32 + 32) = (mixin + 1 + 2) * 32 := by omega
  beta_reduce at hlen
  rw [hlen, hone, mul_assoc]

theorem mgs_length {xs : List MgSig}
    (h : (customVector (mgSig (mixin + 1) 2) inputs (2 * 32)).write xs = some w) :
    w.length = inputs * ((mixin + 1) * (1 + 1) * 32 + 32) := by
  have hlen := customVector_width_const (mgSig_width (mixin + 1) 2) inputs (2 * 32) h
  beta_reduce at hlen
  rw [hlen, mul_assoc (mixin + 1)]

theorem pseudoOuts_length {xs : List Key}
    (h : (customVector key inputs 32).write xs = some w) : w.length = 32 * inputs := by
  have hlen := customVector_width_const key_width inputs 32 h
  rw [hlen, mul_comm]

theorem inputProofs_length (htype : type.weighsPruned = true)
    (h : (inputProofs type inputs mixin).write (p.MGs, p.CLSAGs, p.pseudoOuts) = some w) :
    w.length = ringSignatureSize type inputs (mixin + 1) + 32 * inputs := by
  obtain ⟨u, rest, hu, hrest, rfl⟩ := seq_write.mp h
  obtain ⟨v, x, hv, hx, rfl⟩ := seq_write.mp hrest
  rw [length_append, length_append]
  cases type with
  | null | full | simple | bulletproof => cases htype
  | bulletproof2 =>
    obtain rfl := some.inj hv
    rw [mgs_length hu, pseudoOuts_length hx, length_nil, zero_add]
    rfl
  | clsag | bulletproofPlus =>
    obtain rfl := some.inj hu
    rw [clsags_length hv, pseudoOuts_length hx, length_nil, zero_add]
    rfl

theorem prunable_length (htype : type.weighsPruned = true)
    (hproof : OneCanonicalProof type p outputs) (houtputs : outputs ≤ bulletproofMaxOutputs)
    (h : (rctSigPrunable type inputs outputs mixin).write p = some w) :
    mixin < 0xffffffff ∧ w.length = prunableSize type inputs outputs (mixin + 1) := by
  obtain ⟨hmixin, u, v, hu, hv, rfl⟩ := rctSigPrunable_write h
  refine ⟨hmixin, ?_⟩
  rw [length_append, rangeProofs_length htype hproof houtputs hu, inputProofs_length htype hv,
    prunableSize]
  omega

end

theorem keyOffsets_of_write {p : TransactionPrefix} {w : Bytes} {input : TxInToKey}
    {vin : List TxIn} (hvin : p.vin = .toKey input :: vin)
    (h : transactionPrefix.write p = some w) : input.keyOffsets.length ≤ maxTotalKeyOffsets := by
  obtain ⟨head, -, hhead, -, -⟩ := transactionPrefix_write.mp h
  obtain ⟨-, inout, -, hinout, -⟩ := seq_write.mp hhead
  obtain ⟨ins, -, hins, -, -⟩ := dep_write.mp hinout
  obtain ⟨-, inputs, hinputs, -⟩ := container_write.mp hins
  rw [hvin] at hinputs
  obtain ⟨first, others, u, -, hcons, hfirst, -, -⟩ := each_cons_write.mp hinputs
  obtain ⟨rfl, -⟩ := cons.inj hcons
  obtain ⟨body, hbody, -⟩ := tagged_write.mp hfirst
  obtain ⟨input', heq, hinput⟩ := embed_write.mp hbody
  obtain rfl := some.inj heq
  have hfields : (varint64.seq ((container varint64 maxTotalKeyOffsets).seq key)).write
      (input.amount, input.keyOffsets, input.kImage) = some body := hinput
  obtain ⟨-, after, -, hafter, -⟩ := seq_write.mp hfields
  obtain ⟨offsets, -, hoffsets, -, -⟩ := seq_write.mp hafter
  exact (container_write.mp hoffsets).1

theorem weighsPruned_ne_null (h : type.weighsPruned = true) : type ≠ .null := by
  rintro rfl
  cases h

theorem weighsPruned_bulletproof (h : type.weighsPruned = true) :
    ¬ (!type.isBulletproof && !type.isBulletproofPlus) = true := by
  cases type with
  | bulletproof2 | clsag | bulletproofPlus => decide
  | _ => cases h

structure Weighable (t : Transaction) : Prop where
  version : t.version = 2
  unpruned : t.pruned = false
  type : t.rctSignatures.type.weighsPruned = true
  outputs : t.vout.length ≤ bulletproofMaxOutputs
  proof : OneCanonicalProof t.rctSignatures.type t.rctSignatures.p t.vout.length

structure PrunedFormOf (t u : Transaction) : Prop where
  pruned : u.pruned = true
  txPrefix : u.toTransactionPrefix = t.toTransactionPrefix
  base : u.rctSignatures.toRctSigBase = t.rctSignatures.toRctSigBase

section
variable {t u : Transaction} {input : TxInToKey} {vin : List TxIn}

theorem Weighable.vin_ne_nil (hvin : t.vin = .toKey input :: vin) : t.vin ≠ [] := by
  rw [hvin]
  exact cons_ne_nil _ _

theorem Weighable.full_weight (h : Weighable t) {blob : Bytes} (hblob : t.serialize = some blob) :
    getTransactionWeight t =
      (getTransactionWeightClawback t (1 <<< paddedBits t.vout.length)).bind
        (addClawback blob.length) := by
  have hmodern : ¬ t.version < 2 := by
    rw [h.version]
    decide
  have hfull : ¬ t.pruned = true := by
    rw [h.unpruned]
    exact Bool.false_ne_true
  rw [getTransactionWeight, hblob, bind_some, getTransactionWeightOfSize, if_neg hfull,
    if_neg hmodern, if_neg (weighsPruned_bulletproof h.type),
    maxAmounts_canonical h.proof h.outputs]

theorem PrunedFormOf.serialize (hpruned : PrunedFormOf t u) (hversion : t.version = 2)
    (hvin : t.vin ≠ []) (w : WrittenParts t) : u.serialize = some w.unprunable := by
  have hone : ¬ (u.version = 1 ∧ ¬ u.signatures.isEmpty ∧ u.vin.length ≠ u.signatures.length) := by
    rintro ⟨hone, -⟩
    rw [hpruned.txPrefix] at hone
    exact version_ne_one hversion hone
  rw [Transaction.serialize, if_pos hpruned.pruned, if_neg hone, ← w.write_unprunable hversion hvin]
  simp only [transactionBase, image_write, hpruned.txPrefix, hpruned.base]

theorem PrunedFormOf.pruned_weight (hpruned : PrunedFormOf t u) (h : Weighable t)
    (hvin : t.vin = .toKey input :: vin) (w : WrittenParts t) :
    getPrunedTransactionWeight u =
      (getTransactionWeightClawback t (1 <<< paddedBits t.vout.length)).bind
        (addClawback (w.unprunable.length + prunableSize t.rctSignatures.type t.vin.length
          t.vout.length input.keyOffsets.length)) := by
  have hmodern : ¬ t.version < 2 := by
    rw [h.version]
    decide
  have hflag : ¬ (!u.pruned) = true := by
    rw [hpruned.pruned]
    exact Bool.false_ne_true
  have htype : ¬ (!t.rctSignatures.type.weighsPruned) = true := by
    rw [h.type]
    exact Bool.false_ne_true
  rw [getPrunedTransactionWeight, if_neg hflag, hpruned.serialize h.version
    (Weighable.vin_ne_nil hvin) w, hpruned.txPrefix, hpruned.base, if_neg hmodern, if_neg htype]
  simp only [hvin, bind_some, getTransactionWeightClawback, hpruned.txPrefix, hpruned.base]

theorem Weighable.blob_length (h : Weighable t) (hvin : t.vin = .toKey input :: vin)
    (w : WrittenParts t) :
    w.blob.length = w.unprunable.length +
      prunableSize t.rctSignatures.type t.vin.length t.vout.length input.keyOffsets.length := by
  have hprunable := w.writePrunable
  rw [serializedPrunable, prunableField, if_neg (weighsPruned_ne_null h.type)] at hprunable
  obtain ⟨hmixin, hlen⟩ := prunable_length h.type h.proof h.outputs hprunable
  have hring := keyOffsets_of_write hvin w.writeHead
  rw [hvin] at hmixin
  have hsize : mixin (.toKey input :: vin) + 1 = input.keyOffsets.length := by
    have hmax : maxTotalKeyOffsets = 31250 := by decide
    rw [mixin, wsub] at hmixin ⊢
    omega
  rw [← hvin] at hsize
  rw [WrittenParts.blob, length_append, hlen, hsize]

end

theorem pruned_weight_eq_full_weight (t u : Transaction) (blob : Bytes) (input : TxInToKey)
    (vin : List TxIn) (hweighable : Weighable t) (hvin : t.vin = .toKey input :: vin)
    (hblob : t.serialize = some blob) (hpruned : PrunedFormOf t u) :
    getPrunedTransactionWeight u = getTransactionWeight t ∧
      (blob.length < 2 ^ 63 → ∃ weight, getTransactionWeight t = some weight ∧
        blob.length ≤ weight) := by
  have hwrite := hblob
  rw [Transaction.serialize_unpruned hweighable.unpruned] at hwrite
  obtain ⟨w, rfl⟩ := writtenParts hweighable.version (Weighable.vin_ne_nil hvin) hwrite
  rw [hweighable.full_weight hblob]
  constructor
  · rw [hpruned.pruned_weight hweighable hvin w, hweighable.blob_length hvin w]
  · intro hsize
    obtain ⟨bpClawback, hclawback, hsmall⟩ : ∃ bpClawback, getTransactionWeightClawback t (1 <<<
      paddedBits t.vout.length) = some bpClawback ∧ bpClawback ≤ 4096 := by
      have hbits := clog_le_four hweighable.outputs
      rw [paddedBits_eq_clog hweighable.outputs]
      simp only [getTransactionWeightClawback, if_pos hweighable.outputs]
      generalize decide (t.rctSignatures.type = .bulletproofPlus) = plus
      interval_cases Nat.clog 2 t.vout.length <;> cases plus <;> exact ⟨_, rfl, by decide⟩
    have hroom : bpClawback ≤ uint64Max - w.blob.length := by
      have hmax : uint64Max = 2 ^ 64 - 1 := rfl
      omega
    rw [hclawback, bind_some, addClawback, if_pos hroom]
    exact ⟨_, rfl, Nat.le_add_right _ _⟩

def prunedClsagTx : Transaction :=
  { clsagTx with
    rctSignatures := ⟨clsagTx.rctSignatures.toRctSigBase, RctSigPrunable.empty⟩
    pruned := true }

theorem clsagTx_weighable : Weighable clsagTx :=
  ⟨rfl, rfl, rfl, by decide, _, rfl, by decide, by decide⟩

theorem clsagTx_pruned_weight :
    getPrunedTransactionWeight prunedClsagTx = getTransactionWeight clsagTx ∧
      (clsagTxBlob.length < 2 ^ 63 → ∃ weight, getTransactionWeight clsagTx = some weight ∧
        clsagTxBlob.length ≤ weight) :=
  pruned_weight_eq_full_weight clsagTx prunedClsagTx clsagTxBlob ⟨0, [7], zeroKey⟩ []
    clsagTx_weighable rfl (by decide +kernel) ⟨rfl, rfl, rfl⟩

end Jero.Serial
