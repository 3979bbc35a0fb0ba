import Jero.Serial.Archive

namespace Jero.Serial
open Jero.Common Codec

abbrev Key := Blob 32

def key : Codec Key := blob 32

def cryptonoteMaxTxSize : Nat := 1000000

def maxTotalKeyOffsets : Nat := cryptonoteMaxTxSize / 32

structure TxOutToScript where
  keys : List Key
  script : Bytes
deriving DecidableEq, Repr

inductive TxOutTarget where
  | toScript (script : TxOutToScript)
  | toScriptHash (hash : Key)
  | toKey (key : Key)
  | toTaggedKey (key : Key) (viewTag : UInt8)
deriving DecidableEq, Repr

structure TxOut where
  amount : UInt64
  target : TxOutTarget
deriving DecidableEq, Repr

structure TxInToScript where
  prev : Key
  prevout : UInt64
  sigset : Bytes
deriving DecidableEq, Repr

structure TxInToScriptHash where
  prev : Key
  prevout : UInt64
  script : TxOutToScript
  sigset : Bytes
deriving DecidableEq, Repr

structure TxInToKey where
  amount : UInt64
  keyOffsets : List UInt64
  kImage : Key
deriving DecidableEq, Repr

inductive TxIn where
  | gen (height : UInt64)
  | toScript (input : TxInToScript)
  | toScriptHash (input : TxInToScriptHash)
  | toKey (input : TxInToKey)
deriving DecidableEq, Repr

def txOutToScript : Codec TxOutToScript :=
  ((vector key).seq (vector byte)).image (fun s => (s.keys, s.script)) (fun x => ⟨x.1, x.2⟩)

def txInToScript : Codec TxInToScript :=
  (key.seq (varint64.seq (vector byte))).image (fun i => (i.prev, i.prevout, i.sigset))
    (fun x => ⟨x.1, x.2.1, x.2.2⟩)

def txInToScriptHash : Codec TxInToScriptHash :=
  (key.seq (varint64.seq (txOutToScript.seq (vector byte)))).image
    (fun i => (i.prev, i.prevout, i.script, i.sigset)) (fun x => ⟨x.1, x.2.1, x.2.2.1, x.2.2.2⟩)

def txInToKey : Codec TxInToKey :=
  (varint64.seq ((container varint64 maxTotalKeyOffsets).seq key)).image
    (fun i => (i.amount, i.keyOffsets, i.kImage)) (fun x => ⟨x.1, x.2.1, x.2.2⟩)

def TxIn.tag : TxIn → UInt8
  | .gen _ => 0xff
  | .toScript _ => 0x0
  | .toScriptHash _ => 0x1
  | .toKey _ => 0x2

def TxIn.gen? : TxIn → Option UInt64
  | .gen height => some height
  | _ => none

def TxIn.toScript? : TxIn → Option TxInToScript
  | .toScript input => some input
  | _ => none

def TxIn.toScriptHash? : TxIn → Option TxInToScriptHash
  | .toScriptHash input => some input
  | _ => none

def TxIn.toKey? : TxIn → Option TxInToKey
  | .toKey input => some input
  | _ => none

def txInBranch (tag : UInt8) : Codec TxIn :=
  if tag = 0xff then varint64.embed TxIn.gen? TxIn.gen
  else if tag = 0x0 then txInToScript.embed TxIn.toScript? TxIn.toScript
  else if tag = 0x1 then txInToScriptHash.embed TxIn.toScriptHash? TxIn.toScriptHash
  else if tag = 0x2 then txInToKey.embed TxIn.toKey? TxIn.toKey
  else Codec.fail

def txIn : Codec TxIn := Codec.tagged TxIn.tag txInBranch

def TxOutTarget.tag : TxOutTarget → UInt8
  | .toScript _ => 0x0
  | .toScriptHash _ => 0x1
  | .toKey _ => 0x2
  | .toTaggedKey _ _ => 0x3

def TxOutTarget.toScript? : TxOutTarget → Option TxOutToScript
  | .toScript script => some script
  | _ => none

def TxOutTarget.toScriptHash? : TxOutTarget → Option Key
  | .toScriptHash hash => some hash
  | _ => none

def TxOutTarget.toKey? : TxOutTarget → Option Key
  | .toKey key => some key
  | _ => none

def TxOutTarget.toTaggedKey? : TxOutTarget → Option (Key × UInt8)
  | .toTaggedKey key viewTag => some (key, viewTag)
  | _ => none

def txOutTargetBranch (tag : UInt8) : Codec TxOutTarget :=
  if tag = 0x0 then txOutToScript.embed TxOutTarget.toScript? TxOutTarget.toScript
  else if tag = 0x1 then key.embed TxOutTarget.toScriptHash? TxOutTarget.toScriptHash
  else if tag = 0x2 then key.embed TxOutTarget.toKey? TxOutTarget.toKey
  else if tag = 0x3 then
    (key.seq byte).embed TxOutTarget.toTaggedKey? (fun x => TxOutTarget.toTaggedKey x.1 x.2)
  else Codec.fail

def txOutTarget : Codec TxOutTarget := Codec.tagged TxOutTarget.tag txOutTargetBranch

def txOut : Codec TxOut :=
  (varint64.seq txOutTarget).image (fun o => (o.amount, o.target)) (fun x => ⟨x.1, x.2⟩)

def TxOutToScript.Fits (s : TxOutToScript) : Prop :=
  s.keys.length < 2 ^ 64 ∧ s.script.length < 2 ^ 64

def TxIn.Fits : TxIn → Prop
  | .gen _ => True
  | .toScript input => input.sigset.length < 2 ^ 64
  | .toScriptHash input => input.script.Fits ∧ input.sigset.length < 2 ^ 64
  | .toKey input => input.keyOffsets.length ≤ maxTotalKeyOffsets

def TxOutTarget.Fits : TxOutTarget → Prop
  | .toScript script => script.Fits
  | _ => True

theorem key_lawful : key.Lawful (fun _ => True) id := blob_lawful 32

theorem key_exact : key.Exact := blob_exact 32

theorem key_minWidth : key.MinWidth 32 := blob_minWidth 32

theorem bytes_lawful : (vector byte).Lawful (fun xs => xs.length < 2 ^ 64) id :=
  vector_lawful_id byte_lawful byte_minWidth

theorem keys_lawful : (vector key).Lawful (fun xs => xs.length < 2 ^ 64) id :=
  vector_lawful_id key_lawful (fun _ _ h => (by decide : 1 ≤ 32).trans (key_minWidth h))

theorem txOutToScript_lawful : txOutToScript.Lawful TxOutToScript.Fits id :=
  ((keys_lawful.seq bytes_lawful).image (fun _ _ => rfl)).weaken (fun _ => Iff.rfl)
    (fun _ _ => rfl)

theorem txInToScript_lawful : txInToScript.Lawful (fun i => i.sigset.length < 2 ^ 64) id := by
  refine ((key_lawful.seq (varint64_lawful.seq bytes_lawful)).image (fun _ _ => rfl)).weaken ?_
    (fun _ _ => rfl)
  intro i
  exact ⟨fun h => ⟨trivial, trivial, h⟩, fun h => h.2.2⟩

theorem txInToScriptHash_lawful :
    txInToScriptHash.Lawful (fun i => i.script.Fits ∧ i.sigset.length < 2 ^ 64) id := by
  refine ((key_lawful.seq (varint64_lawful.seq (txOutToScript_lawful.seq bytes_lawful))).image
    (fun _ _ => rfl)).weaken ?_ (fun _ _ => rfl)
  intro i
  exact ⟨fun h => ⟨trivial, trivial, h⟩, fun h => h.2.2⟩

theorem keyOffsets_lawful :
    (container varint64 maxTotalKeyOffsets).Lawful (fun xs => xs.length ≤ maxTotalKeyOffsets)
      id := by
  refine (container_lawful varint64_lawful varint64_minWidth maxTotalKeyOffsets).weaken ?_
    (fun xs _ => (List.map_id xs).symm)
  intro xs
  refine ⟨fun h => ⟨h, ?_, fun _ _ => trivial⟩, fun h => h.1⟩
  exact lt_of_le_of_lt h (by decide)

theorem txInToKey_lawful :
    txInToKey.Lawful (fun i => i.keyOffsets.length ≤ maxTotalKeyOffsets) id := by
  refine ((varint64_lawful.seq (keyOffsets_lawful.seq key_lawful)).image (fun _ _ => rfl)).weaken
    ?_ (fun _ _ => rfl)
  intro i
  exact ⟨fun h => ⟨trivial, h, trivial⟩, fun h => h.2.1⟩

theorem Codec.Lawful.alternative {α β : Type} {c : Codec α} {F : α → Prop} (hc : c.Lawful F id)
    {proj : β → Option α} {inj : α → β} {G : β → Prop} (hproj : ∀ a, proj (inj a) = some a)
    (hinj : ∀ x a, proj x = some a → inj a = x)
    (hfits : ∀ x, G x ↔ ∃ a, proj x = some a ∧ F a) : (c.embed proj inj).Lawful G id :=
  (hc.embed_id hproj hinj).weaken hfits (fun _ _ => rfl)

theorem txInBranch_lawful (tag : UInt8) :
    (txInBranch tag).Lawful (fun x => x.tag = tag ∧ x.Fits) id := by
  unfold txInBranch
  split
  · subst tag
    refine varint64_lawful.alternative (fun _ => rfl) ?_ ?_ <;> intro x <;> cases x <;>
      simp [TxIn.gen?, TxIn.tag, TxIn.Fits]
  split
  · subst tag
    refine txInToScript_lawful.alternative (fun _ => rfl) ?_ ?_ <;> intro x <;> cases x <;>
      simp [TxIn.toScript?, TxIn.tag, TxIn.Fits]
  split
  · subst tag
    refine txInToScriptHash_lawful.alternative (fun _ => rfl) ?_ ?_ <;> intro x <;> cases x <;>
      simp [TxIn.toScriptHash?, TxIn.tag, TxIn.Fits]
  split
  · subst tag
    refine txInToKey_lawful.alternative (fun _ => rfl) ?_ ?_ <;> intro x <;> cases x <;>
      simp [TxIn.toKey?, TxIn.tag, TxIn.Fits]
  · refine fail_lawful.weaken ?_ (fun _ _ => rfl)
    intro x
    cases x <;> simp_all [TxIn.tag, eq_comm]

theorem txIn_lawful : txIn.Lawful TxIn.Fits id :=
  (Codec.Lawful.tagged txInBranch_lawful (fun _ _ h => h.1)).weaken
    (fun _ => ⟨fun h => ⟨rfl, h⟩, fun h => h.2⟩) (fun _ _ => rfl)

theorem txOutTargetBranch_lawful (tag : UInt8) :
    (txOutTargetBranch tag).Lawful (fun x => x.tag = tag ∧ x.Fits) id := by
  unfold txOutTargetBranch
  split
  · subst tag
    refine txOutToScript_lawful.alternative (fun _ => rfl) ?_ ?_ <;> intro x <;> cases x <;>
      simp [TxOutTarget.toScript?, TxOutTarget.tag, TxOutTarget.Fits]
  split
  · subst tag
    refine key_lawful.alternative (fun _ => rfl) ?_ ?_ <;> intro x <;> cases x <;>
      simp [TxOutTarget.toScriptHash?, TxOutTarget.tag, TxOutTarget.Fits]
  split
  · subst tag
    refine key_lawful.alternative (fun _ => rfl) ?_ ?_ <;> intro x <;> cases x <;>
      simp [TxOutTarget.toKey?, TxOutTarget.tag, TxOutTarget.Fits]
  split
  · subst tag
    refine (key_lawful.seq byte_lawful).alternative (fun _ => rfl) ?_ ?_ <;> intro x <;> cases x <;>
      simp [TxOutTarget.toTaggedKey?, TxOutTarget.tag, TxOutTarget.Fits]
  · refine fail_lawful.weaken ?_ (fun _ _ => rfl)
    intro x
    cases x <;> simp_all [TxOutTarget.tag, eq_comm]

theorem txOutTarget_lawful : txOutTarget.Lawful TxOutTarget.Fits id :=
  (Codec.Lawful.tagged txOutTargetBranch_lawful (fun _ _ h => h.1)).weaken
    (fun _ => ⟨fun h => ⟨rfl, h⟩, fun h => h.2⟩) (fun _ _ => rfl)

theorem txOut_lawful : txOut.Lawful (fun o => o.target.Fits) id := by
  refine ((varint64_lawful.seq txOutTarget_lawful).image (fun _ _ => rfl)).weaken ?_
    (fun _ _ => rfl)
  intro o
  exact ⟨fun h => ⟨trivial, h⟩, fun h => h.2⟩

theorem txIn_minWidth : txIn.MinWidth 1 :=
  tagged_minWidth (fun _ _ _ _ => Nat.zero_le _)

theorem txOut_minWidth : txOut.MinWidth 1 :=
  fun _ _ h => (seq_minWidth varint64_minWidth (fun _ _ _ => Nat.zero_le _)) h

end Jero.Serial
