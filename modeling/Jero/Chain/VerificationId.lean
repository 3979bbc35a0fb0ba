import Jero.Serial.InputProofs
import Jero.Serial.RoundTrip
import Jero.Chain.SpendableAge

namespace Jero.Chain
open Jero.Machine Jero.Tx List Ledger Serial.InputVerifier

def hashValue (h : Serial.Key) : Hash := littleEndian h.val.reverse

def hashBytes (n : Hash) : Serial.Key :=
  ⟨(Serial.littleEndianBytes 32 n).reverse, by
    rw [List.length_reverse, Serial.length_littleEndianBytes]⟩

theorem hashValue_injective : Function.Injective hashValue := by
  intro a b h
  have hbytes : ∀ k : Serial.Key, Serial.littleEndianBytes 32 (hashValue k) = k.val.reverse := by
    intro k
    have hlen : k.val.reverse.length = 32 := length_reverse.trans k.property
    have hback := Serial.littleEndianBytes_littleEndian k.val.reverse
    rw [hlen] at hback
    exact hback
  have hrev : a.val.reverse = b.val.reverse := by rw [← hbytes a, ← hbytes b, h]
  exact Subtype.ext (reverse_injective hrev)

def CtKey.wire (k : CtKey) : Serial.CtKey := ⟨hashBytes k.dest, hashBytes k.mask⟩

def wireRing (pubkeys : List (List CtKey)) : List (List Serial.CtKey) :=
  pubkeys.map (List.map CtKey.wire)

def chainTxIn : Serial.TxIn → TxIn
  | .gen height => .gen height.toNat
  | .toScript _ => .toScript
  | .toScriptHash _ => .toScriptHash
  | .toKey input =>
    .toKey ⟨input.amount.toNat, input.keyOffsets.map UInt64.toNat, hashValue input.kImage⟩

def chainTarget : Serial.TxOutTarget → TxOutTarget
  | .toScript _ => .toScript
  | .toScriptHash _ => .toScriptHash
  | .toKey key => .toKey (hashValue key)
  | .toTaggedKey key _ => .toTaggedKey (hashValue key)

def chainTransaction (t : Serial.Transaction) : Transaction where
  version := t.version.toNat
  unlockTime := t.unlockTime.toNat
  vin := t.vin.map chainTxIn
  vout := t.vout.map fun out => ⟨out.amount.toNat, chainTarget out.target⟩
  extraSize := t.extra.length
  signatures := t.signatures.map List.length
  outPkSize := t.rctSignatures.outPk.length
  txnFee := t.rctSignatures.txnFee.toNat
  pruned := t.pruned

namespace Ledger
variable (l : Ledger)

def inputRings (tx : Transaction) (tvc : TxVerificationContext) : List (List CtKey) :=
  (l.checkRings tx (l.checkPrefix tx tvc).2 0 tx.vin [] 0).2.2.1

theorem checkTxInputs_cases (tx : Transaction) (tvc : TxVerificationContext) :
    (∀ verificationId, (l.checkTxInputs tx tvc verificationId).ok = false ∧
      (l.checkTxInputs tx tvc verificationId).verificationId = verificationId) ∨
    ∀ verificationId, (l.checkTxInputs tx tvc verificationId).ok =
        (l.verifyProofs tx verificationId (l.inputRings tx tvc)).1 ∧
      (l.checkTxInputs tx tvc verificationId).verificationId =
        (l.verifyProofs tx verificationId (l.inputRings tx tvc)).2 := by
  cases hbase : !(l.checkPrefix tx tvc).1 with
  | true =>
    left
    intro verificationId
    simp only [checkTxInputs, hbase, if_true, and_self]
  | false =>
    cases hrings : !(l.checkRings tx (l.checkPrefix tx tvc).2 0 tx.vin [] 0).1 with
    | true =>
      left
      intro verificationId
      simp only [checkTxInputs, hbase, hrings, Bool.false_eq_true, if_false, if_true, and_self]
    | false =>
      by_cases hage : l.hfVersion ≥ hfVersionEnforceMinAge ∧
          ¬ (l.checkRings tx (l.checkPrefix tx tvc).2 0 tx.vin [] 0).2.2.2 +
            defaultTxSpendableAge ≤ l.height
      · left
        intro verificationId
        simp only [checkTxInputs, hbase, hrings, Bool.false_eq_true, if_false, if_pos hage,
          and_self]
      · right
        intro verificationId
        simp only [checkTxInputs, hbase, hrings, Bool.false_eq_true, if_false, if_neg hage]
        exact ⟨rfl, rfl⟩

theorem verifyProofs_ok_iff (tx : Transaction) (verificationId : Hash)
    (pubkeys : List (List CtKey)) :
    (l.verifyProofs tx verificationId pubkeys).1 = true ↔
      (verificationId ≠ nullHash ∧ l.makeInputVerificationId tx pubkeys = verificationId) ∨
        l.verInputProofsRings tx pubkeys = true := by
  unfold verifyProofs
  split
  · rename_i hhit
    exact iff_of_true rfl (.inl hhit)
  · rename_i hmiss
    split
    · rename_i hver
      exact iff_of_true rfl (.inr hver)
    · rename_i hver
      exact iff_of_false Bool.false_ne_true (not_or.mpr ⟨hmiss, hver⟩)

variable {pubkeys : List (List CtKey)} {verificationId : Hash} {tx : Transaction}

theorem verifyProofs_id (h : (l.verifyProofs tx verificationId pubkeys).1 = true) :
    (l.verifyProofs tx verificationId pubkeys).2 = l.makeInputVerificationId tx pubkeys := by
  unfold verifyProofs at h ⊢
  split
  · rename_i hhit
    exact hhit.2.symm
  · rename_i hmiss
    rw [if_neg hmiss] at h
    split
    · rfl
    · rename_i hver
      rw [if_neg hver] at h
      cases h

theorem verifyProofs_changed (h : (l.verifyProofs tx verificationId pubkeys).2 ≠ verificationId)
    (hnull : (l.verifyProofs tx verificationId pubkeys).2 ≠ nullHash) :
    l.verInputProofsRings tx pubkeys = true := by
  unfold verifyProofs at h hnull
  split at h
  · exact absurd rfl h
  rename_i hmiss
  rw [if_neg hmiss] at hnull
  by_contra hver
  rw [if_neg hver] at hnull
  exact hnull rfl

end Ledger

structure InputsCall where
  ledger : Ledger
  tx : Serial.Transaction
  tvc : TxVerificationContext
  verificationId : Hash

open InputsCall
namespace InputsCall
variable (c : Serial.InputVerifier) (call : InputsCall)

def chain : Ledger :=
  { call.ledger with
    makeInputVerificationId := fun _ pubkeys =>
      hashValue (c.makeInputVerificationId (c.getTransactionHash call.tx) (wireRing pubkeys))
    verInputProofsRings := fun _ pubkeys => c.verInputProofsRings call.tx (wireRing pubkeys) }

def resultWith (verificationId : Hash) : InputsResult :=
  (call.chain c).checkTxInputs (chainTransaction call.tx) call.tvc verificationId

def result : InputsResult := call.resultWith c call.verificationId

def mixRing : List (List Serial.CtKey) :=
  wireRing ((call.chain c).inputRings (chainTransaction call.tx) call.tvc)

def preimage : Common.Bytes :=
  Serial.inputVerificationPreimage (c.getTransactionHash call.tx) (call.mixRing c)

def inputVerificationId : Hash :=
  hashValue (c.makeInputVerificationId (c.getTransactionHash call.tx) (call.mixRing c))

def verified : Bool := c.verInputProofsRings call.tx (call.mixRing c)

variable {c} {call}

theorem result_ok (h : (call.result c).ok = true) :
    (call.result c).verificationId = call.inputVerificationId c ∧
      ((call.verificationId ≠ nullHash ∧ call.inputVerificationId c = call.verificationId) ∨
        call.verified c = true) := by
  rcases (call.chain c).checkTxInputs_cases (chainTransaction call.tx) call.tvc with
    hearly | hproofs
  · exact absurd ((hearly call.verificationId).1.symm.trans h) Bool.false_ne_true
  · obtain ⟨hok, hid⟩ := hproofs call.verificationId
    have hverdict := hok.symm.trans h
    exact ⟨hid.trans (verifyProofs_id _ hverdict), (verifyProofs_ok_iff _ _ _ _).mp hverdict⟩

end InputsCall

def Presented (c : Serial.InputVerifier) (earlier : List InputsCall) (call : InputsCall) : Prop :=
  call.verificationId = nullHash ∨
    ∃ other ∈ earlier, (other.result c).ok = true ∧
      call.verificationId = (other.result c).verificationId

inductive CallHistory (c : Serial.InputVerifier) : List InputsCall → Prop
  | nil : CallHistory c []
  | cons {call : InputsCall} {earlier : List InputsCall} : CallHistory c earlier →
      Presented c earlier call → CallHistory c (call :: earlier)

def CollisionFree (c : Serial.InputVerifier) (calls : List InputsCall) : Prop :=
  ∀ a ∈ calls, ∀ b ∈ calls, c.cnFastHash (a.preimage c) = c.cnFastHash (b.preimage c) →
    a.preimage c = b.preimage c

def HashDetermines (c : Serial.InputVerifier) (calls : List InputsCall) : Prop :=
  ∀ a ∈ calls, ∀ b ∈ calls, a.tx.pruned = false → b.tx.pruned = false →
    c.getTransactionHash a.tx = c.getTransactionHash b.tx → a.tx.onWire = b.tx.onWire

section
variable {c : Serial.InputVerifier} {earlier : List InputsCall} {call : InputsCall}

theorem CallHistory.ok_has_verified (h : CallHistory c earlier) :
    ∀ a ∈ earlier, (a.result c).ok = true →
      ∃ b ∈ earlier, b.verified c = true ∧ b.inputVerificationId c = a.inputVerificationId c := by
  induction h with
  | nil =>
    intro a ha
    cases ha
  | @cons call earlier _ hpresented ih =>
    intro a ha hok
    rcases mem_cons.mp ha with rfl | hrest
    · rcases (result_ok hok).2 with ⟨hne, hhit⟩ | hver
      · rcases hpresented with hnull | ⟨other, hother, hotherOk, hid⟩
        · exact absurd hnull hne
        · obtain ⟨b, hb, hver, hsame⟩ := ih other hother hotherOk
          refine ⟨b, mem_cons_of_mem _ hb, hver, ?_⟩
          rw [hsame, ← (result_ok hotherOk).1, ← hid, hhit]
      · exact ⟨a, mem_cons_self, hver, rfl⟩
    · obtain ⟨b, hb, hver, hsame⟩ := ih a hrest hok
      exact ⟨b, mem_cons_of_mem _ hb, hver, hsame⟩

variable {calls : List InputsCall} {a b : InputsCall}
section
variable (hfree : CollisionFree c calls) (ha : a ∈ calls) (hb : b ∈ calls)
  (h : b.inputVerificationId c = a.inputVerificationId c)
include hfree ha hb h

theorem same_hash_and_ring :
    c.getTransactionHash b.tx = c.getTransactionHash a.tx ∧ b.mixRing c = a.mixRing c :=
  Serial.inputVerificationPreimage_inj (hfree b hb a ha (hashValue_injective h))

end
variable (h : CallHistory c earlier) (hpresented : Presented c earlier call)
  (hfree : CollisionFree c (call :: earlier)) (hok : (call.result c).ok = true)
include h hpresented hfree hok

theorem CallHistory.verified_call :
    ∃ b ∈ call :: earlier, b.verified c = true ∧
      b.inputVerificationId c = call.inputVerificationId c ∧
      c.getTransactionHash b.tx = c.getTransactionHash call.tx ∧ b.mixRing c = call.mixRing c := by
  obtain ⟨b, hb, hver, hsame⟩ := (h.cons hpresented).ok_has_verified call mem_cons_self hok
  exact ⟨b, hb, hver, hsame, same_hash_and_ring hfree mem_cons_self hb hsame⟩

theorem CallHistory.verified_of_ok (hdet : HashDetermines c (call :: earlier))
    (hpruned : call.tx.pruned = false) : call.verified c = true := by
  obtain ⟨b, hb, hver, hsame, -⟩ := h.verified_call hpresented hfree hok
  obtain ⟨hhash, hring⟩ := same_hash_and_ring hfree mem_cons_self hb hsame
  have hfull := verInputProofsRings_unpruned hver
  have hwire := hdet b hb call mem_cons_self hfull hpruned hhash
  have hsame : c.verInputProofsRings b.tx (call.mixRing c) = c.verInputProofsRings call.tx
    (call.mixRing c) := by
    rw [← verInputProofsRings_onWire hfull, hwire, verInputProofsRings_onWire hpruned]
  rw [verified, ← hsame, ← hring]
  exact hver

end

structure CacheTransparent (c : Serial.InputVerifier) (earlier : List InputsCall)
    (call : InputsCall) : Prop where
  sameVerdict : call.tx.pruned = false →
    ((call.result c).ok = true ↔ (call.resultWith c nullHash).ok = true)
  handedOut : (call.result c).ok = true →
    (call.result c).verificationId = call.inputVerificationId c ∧
    (call.tx.pruned = false → call.verified c = true) ∧
    ∃ b ∈ call :: earlier, b.verified c = true ∧
      c.getTransactionHash b.tx = c.getTransactionHash call.tx ∧ b.mixRing c = call.mixRing c
  madeOnlyVerified : (call.result c).verificationId ≠ call.verificationId →
    (call.result c).verificationId ≠ nullHash → call.verified c = true

theorem input_verification_id_never_changes_verdict (c : Serial.InputVerifier) :
    (∀ (txHash txHash' : Serial.Key) (mixRing mixRing' : List (List Serial.CtKey)),
      Serial.inputVerificationPreimage txHash mixRing =
          Serial.inputVerificationPreimage txHash' mixRing' →
        txHash = txHash' ∧ mixRing = mixRing') ∧
    ∀ (earlier : List InputsCall) (call : InputsCall), CallHistory c earlier →
      Presented c earlier call → CollisionFree c (call :: earlier) →
      HashDetermines c (call :: earlier) → CacheTransparent c earlier call := by
  constructor
  · intro txHash txHash' mixRing mixRing' h
    exact Serial.inputVerificationPreimage_inj h
  · intro earlier call hhistory hpresented hfree hdet
    refine ⟨?_, ?_, ?_⟩
    · intro hpruned
      rcases (call.chain c).checkTxInputs_cases (chainTransaction call.tx) call.tvc with
        hearly | hproofs
      · exact Bool.eq_iff_iff.mp ((hearly call.verificationId).1.trans (hearly nullHash).1.symm)
      · have hpassed := (hproofs call.verificationId).1
        have hnull := (hproofs nullHash).1
        constructor
        · intro hok
          exact hnull.trans ((verifyProofs_ok_iff _ _ _ _).mpr
            (.inr (hhistory.verified_of_ok hpresented hfree hok hdet hpruned)))
        · intro hok
          rcases (verifyProofs_ok_iff _ _ _ _).mp (hnull.symm.trans hok) with ⟨hne, -⟩ | hver
          · exact absurd rfl hne
          · exact hpassed.trans ((verifyProofs_ok_iff _ _ _ _).mpr (.inr hver))
    · intro hok
      obtain ⟨b, hb, hver, -, hhash, hring⟩ := hhistory.verified_call hpresented hfree hok
      exact ⟨(result_ok hok).1,
        fun hpruned => hhistory.verified_of_ok hpresented hfree hok hdet hpruned,
        b, hb, hver, hhash, hring⟩
    · intro h hnull
      rcases (call.chain c).checkTxInputs_cases (chainTransaction call.tx) call.tvc with
        hearly | hproofs
      · exact absurd (hearly call.verificationId).2 h
      · rw [result, resultWith, (hproofs call.verificationId).2] at h hnull
        exact verifyProofs_changed _ h hnull

def onesKey : Serial.Key := ⟨List.replicate 32 1, List.length_replicate⟩

def sampleVerifier : Serial.InputVerifier where
  cnFastHash := fun _ => onesKey
  getTransactionHash := fun _ => onesKey
  getTransactionPrefixHash := fun _ => onesKey
  checkRingSignature := fun _ _ _ _ => false
  verRct := fun _ => false
  verRctNonSemanticsSimple := fun rv => decide (rv.message = onesKey)

def ringSpend (message : Serial.Key) : Serial.Transaction :=
  { Serial.clsagTx with
    vin := [.toKey ⟨0, 0 :: List.replicate 15 1, Serial.zeroKey⟩]
    vout := List.replicate 2 ⟨0, .toTaggedKey Serial.zeroKey 5⟩
    rctSignatures := { Serial.clsagTx.rctSignatures with message := message } }

def firstCall : InputsCall := ⟨sampleLedger, ringSpend Serial.zeroKey, .initial, nullHash⟩

def secondCall : InputsCall :=
  ⟨sampleLedger, ringSpend onesKey, .initial, hashValue onesKey⟩

theorem second_call_hits_cache :
    (firstCall.result sampleVerifier).ok = true ∧
      secondCall.verificationId = secondCall.inputVerificationId sampleVerifier ∧
      CacheTransparent sampleVerifier [firstCall] secondCall := by
  have hok : (firstCall.result sampleVerifier).ok = true := by decide +kernel
  have hid : (firstCall.result sampleVerifier).verificationId = hashValue onesKey := by
    decide +kernel
  have hpreimage : ∀ a ∈ [secondCall, firstCall],
      a.preimage sampleVerifier = firstCall.preimage sampleVerifier := by decide +kernel
  have hwire : ∀ a ∈ [secondCall, firstCall], a.tx.onWire = firstCall.tx.onWire := by
    decide +kernel
  refine ⟨hok, rfl, (input_verification_id_never_changes_verdict sampleVerifier).2 [firstCall]
    secondCall (.cons .nil (.inl rfl)) (.inr ⟨firstCall, mem_cons_self, hok, hid.symm⟩) ?_ ?_⟩
  · intro a ha b hb _
    rw [hpreimage a ha, hpreimage b hb]
  · intro a ha b hb _ _ _
    rw [hwire a ha, hwire b hb]

end Jero.Chain
