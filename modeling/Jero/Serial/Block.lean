import Jero.Serial.Transaction

namespace Jero.Serial
open Jero.Common Transaction

def cryptonoteMaxTxPerBlock : Nat := 0x10000000

structure BlockHeader where
  majorVersion : UInt8
  minorVersion : UInt8
  timestamp : UInt64
  prevId : Key
  nonce : UInt32
deriving DecidableEq, Repr

structure Block extends BlockHeader where
  minerTx : Transaction
  txHashes : List Key
deriving DecidableEq, Repr

def blockHeader : Codec BlockHeader :=
  (varint8.seq (varint8.seq (varint64.seq (key.seq uint32)))).image
    (fun h => (h.majorVersion, h.minorVersion, h.timestamp, h.prevId, h.nonce))
    (fun x => ⟨x.1, x.2.1, x.2.2.1, x.2.2.2.1, x.2.2.2.2⟩)

def minerTxField : Codec Transaction where
  write := serialize
  read := transaction.read

def block : Codec Block :=
  (((blockHeader.seq minerTxField).seq (vector key)).image
    (fun b => ((b.toBlockHeader, b.minerTx), b.txHashes))
    (fun x => ⟨x.1.1, x.1.2, x.2⟩)).check
      fun b => !decide (b.txHashes.length > cryptonoteMaxTxPerBlock)

def atEnd {α : Type} : Option (α × Bytes) → Option α
  | some (x, []) => some x
  | _ => none

def blockToBlob (b : Block) : Option Bytes := block.write b

def parseAndValidateBlockFromBlob (blob : Bytes) : Option Block := atEnd (block.read blob)

def getOutputPublicKey (out : TxOut) : Option Key :=
  match out.target with
  | .toKey key => some key
  | .toTaggedKey key _ => some key
  | _ => none

def fillDest : List CtKey → List TxOut → Option (List CtKey)
  | k :: outPk, out :: vout =>
    match getOutputPublicKey out with
    | none => none
    | some key => (fillDest outPk vout).map fun tail => { k with dest := key } :: tail
  | _, _ => some []

section
variable (scalarmultInvEight : Key → Key)

def expandBulletproofsPlus (vout : List TxOut) (outPk : List CtKey) (p : RctSigPrunable) :
    Option RctSigPrunable :=
  match p.bulletproofsPlus with
  | [proof] =>
    if proof.L.length < 6 then none
    else if nBulletproofMaxAmountsBase proof.L.length proof.R.length < vout.length then none
    else some { p with
      bulletproofsPlus := [{ proof with V := outPk.map fun k => scalarmultInvEight k.mask }] }
  | _ => none

def expandBulletproofs (vout : List TxOut) (outPk : List CtKey) (p : RctSigPrunable) :
    Option RctSigPrunable :=
  match p.bulletproofs with
  | [proof] =>
    if proof.L.length < 6 then none
    else if 1 <<< (proof.L.length - 6) < vout.length then none
    else some { p with
      bulletproofs := [{ proof with V := outPk.map fun k => scalarmultInvEight k.mask }] }
  | _ => none

def expandPrunable (type : RctType) (vout : List TxOut) (outPk : List CtKey)
    (p : RctSigPrunable) : Option RctSigPrunable :=
  if type.isBulletproofPlus then expandBulletproofsPlus scalarmultInvEight vout outPk p
  else if type.isBulletproof then expandBulletproofs scalarmultInvEight vout outPk p
  else some p

def expandTransaction1 (baseOnly : Bool) (t : Transaction) : Option Transaction :=
  if 2 ≤ t.version ∧ ¬ isCoinbase t.vin then
    if t.rctSignatures.type = .null then some t
    else if t.rctSignatures.outPk.length ≠ t.vout.length then none
    else (fillDest t.rctSignatures.outPk t.vout).bind fun outPk =>
      if baseOnly then
        some { t with rctSignatures := { t.rctSignatures with outPk := outPk } }
      else (expandPrunable scalarmultInvEight t.rctSignatures.type t.vout outPk
          t.rctSignatures.p).map fun p =>
        { t with rctSignatures := { t.rctSignatures with outPk := outPk, p := p } }
  else some t

def passesMaxSizeCheck (maxSizeCheck : Bool) (blob : Bytes) : Bool :=
  if !maxSizeCheck then true else decide (blob.length ≤ cryptonoteMaxTxSize)

def parseAndValidateTxFromBlob (maxSizeCheck : Bool) (blob : Bytes) : Option Transaction :=
  if passesMaxSizeCheck maxSizeCheck blob then
    (atEnd (transaction.read blob)).bind (expandTransaction1 scalarmultInvEight false)
  else none

def parseAndValidateTxBaseFromBlob (maxSizeCheck requireEof : Bool) (blob : Bytes) :
    Option Transaction :=
  if passesMaxSizeCheck maxSizeCheck blob then
    (transactionBase.read blob).bind fun r =>
      if requireEof && !r.2.isEmpty then none else expandTransaction1 scalarmultInvEight true r.1
  else none

end

theorem atEnd_eq {α : Type} {r : Option (α × Bytes)} {x : α} :
    atEnd r = some x ↔ r = some (x, []) := by
  constructor
  · intro h
    unfold atEnd at h
    split at h
    · obtain rfl := Option.some.inj h
      rfl
    · cases h
  · rintro rfl
    rfl

theorem blockHeader_lawful : blockHeader.Lawful (fun _ => True) id :=
  ((varint8_lawful.seq (varint8_lawful.seq (varint64_lawful.seq
    (key_lawful.seq uint32_lawful)))).image (fun _ _ => rfl)).weaken
    (fun _ => ⟨fun _ => ⟨trivial, trivial, trivial, trivial, trivial⟩, fun _ => trivial⟩)
    (fun _ _ => rfl)

theorem minerTxField_lawful :
    minerTxField.Lawful (fun t => t.Shaped ∧ t.pruned = false) onWire := by
  have hfull : ∀ t : Transaction, t.pruned = false → t.serialize = transaction.write t := by
    intro t ht
    rw [serialize, ht]
    rfl
  have hpruned : ∀ {b rest : Bytes} {t : Transaction}, transaction.read b = some (t, rest) →
      t.pruned = false := by
    intro b rest t h
    obtain ⟨x, -, rfl⟩ := Codec.image_read.mp h
    rfl
  refine ⟨?_, ?_, ?_, ?_⟩
  · rintro t ⟨hshaped, ht⟩
    obtain ⟨w, hw, hread⟩ := transaction_lawful.restore t hshaped
    refine ⟨w, (hfull t ht).trans hw, fun rest => (hread rest).trans ?_⟩
    rw [onWire, ht]
  · intro b t rest h
    obtain ⟨hshaped, hnorm⟩ := transaction_lawful.fits h
    have ht := hpruned h
    refine ⟨⟨hshaped, ht⟩, ?_⟩
    rw [← ht] at hnorm
    exact hnorm
  · intro b t y ys h
    obtain ⟨w, hw, hb⟩ := transaction_lawful.more h
    exact ⟨w, (hfull t (hpruned h)).trans hw, hb⟩
  · intro t rest h
    have hread : transaction.read [] = some (t, rest) := h
    obtain ⟨hw, hrest⟩ := transaction_lawful.nil hread
    exact ⟨(hfull t (hpruned hread)).trans hw, hrest⟩

def Block.onWire (b : Block) : Block := { b with minerTx := b.minerTx.onWire }

structure Block.Shaped (b : Block) : Prop where
  minerTx : b.minerTx.Shaped
  pruned : b.minerTx.pruned = false
  txHashes : b.txHashes.length ≤ cryptonoteMaxTxPerBlock

theorem block_lawful : block.Lawful Block.Shaped Block.onWire := by
  refine ((((blockHeader_lawful.seq minerTxField_lawful).seq keys_lawful).image
    (fun _ _ => rfl)).check (fun _ => rfl)).weaken ?_ (fun _ _ => rfl)
  intro b
  have hcount : (!decide (b.txHashes.length > cryptonoteMaxTxPerBlock)) = true ↔
      b.txHashes.length ≤ cryptonoteMaxTxPerBlock := by
    rw [Bool.not_eq_true', decide_eq_false_iff_not, Nat.not_lt]
  rw [hcount]
  constructor
  · intro h
    exact ⟨⟨⟨trivial, h.minerTx, h.pruned⟩, lt_of_le_of_lt h.txHashes (by decide)⟩, h.txHashes⟩
  · rintro ⟨⟨⟨-, hminer, hpruned⟩, -⟩, hhashes⟩
    exact ⟨hminer, hpruned, hhashes⟩

end Jero.Serial
