import Jero.Serial.Transaction

namespace Jero.Serial
open Jero.Common List Option RctSigPrunable
variable {x y : Bytes}

def hashKeyTxhashAndMixring : Bytes :=
  "txhash_and_mixring".toList.map fun c => UInt8.ofNat c.toNat

def CtKey.bytes (k : CtKey) : Bytes := k.dest.val ++ k.mask.val

def ringBytes (ring : List CtKey) : Bytes :=
  writeVarint ring.length ++ ring.flatMap CtKey.bytes

def mixRingBytes (mixRing : List (List CtKey)) : Bytes :=
  writeVarint mixRing.length ++ mixRing.flatMap ringBytes

def inputVerificationPreimage (txHash : Key) (mixRing : List (List CtKey)) : Bytes :=
  hashKeyTxhashAndMixring ++ (txHash.val ++ mixRingBytes mixRing)

theorem writeVarint_append_inj {a b : Nat} (h : writeVarint a ++ x = writeVarint b ++ y) :
    a = b ∧ x = y := by
  have ha : a < 2 ^ (a + b) := lt_of_le_of_lt (Nat.le_add_right a b) Nat.lt_two_pow_self
  have hb : b < 2 ^ (a + b) := lt_of_le_of_lt (Nat.le_add_left b a) Nat.lt_two_pow_self
  have hread := readVarint_write ha x
  rw [h, readVarint_write hb y] at hread
  obtain ⟨-, hvalue, hrest⟩ := VarintRead.mk.inj (Except.ok.inj hread)
  exact ⟨hvalue.symm, hrest.symm⟩

theorem key_append_inj {a b : Key} (h : a.val ++ x = b.val ++ y) : a = b ∧ x = y := by
  obtain ⟨hkey, hrest⟩ := append_inj h (a.property.trans b.property.symm)
  exact ⟨Subtype.ext hkey, hrest⟩

theorem CtKey.bytes_append_inj {a b : CtKey} (h : a.bytes ++ x = b.bytes ++ y) : a = b ∧ x = y := by
  obtain ⟨destA, maskA⟩ := a
  obtain ⟨destB, maskB⟩ := b
  simp only [CtKey.bytes, append_assoc] at h
  obtain ⟨rfl, hmask⟩ := key_append_inj h
  obtain ⟨rfl, hrest⟩ := key_append_inj hmask
  exact ⟨rfl, hrest⟩

section
variable {α : Type} {f : α → Bytes}
  (hf : ∀ {a b : α} {x y : Bytes}, f a ++ x = f b ++ y → a = b ∧ x = y) {as bs : List α}
include hf

theorem flatMap_append_inj (hlen : as.length = bs.length)
    (h : as.flatMap f ++ x = bs.flatMap f ++ y) : as = bs ∧ x = y := by
  induction as generalizing bs with
  | nil =>
    obtain rfl := length_eq_zero_iff.mp hlen.symm
    exact ⟨rfl, h⟩
  | cons a as ih =>
    cases bs with
    | nil => cases hlen
    | cons b bs =>
      simp only [flatMap_cons, append_assoc] at h
      obtain ⟨rfl, htail⟩ := hf h
      obtain ⟨rfl, hrest⟩ := ih (Nat.succ.inj hlen) htail
      exact ⟨rfl, hrest⟩

theorem counted_append_inj
    (h : (writeVarint as.length ++ as.flatMap f) ++ x = (writeVarint bs.length ++ bs.flatMap f) ++
      y) :
    as = bs ∧ x = y := by
  simp only [append_assoc] at h
  obtain ⟨hlen, helems⟩ := writeVarint_append_inj h
  exact flatMap_append_inj hf hlen helems

end

theorem inputVerificationPreimage_inj {a b : Key} {as bs : List (List CtKey)}
    (h : inputVerificationPreimage a as = inputVerificationPreimage b bs) : a = b ∧ as = bs := by
  have hbody := append_cancel_left h
  obtain ⟨rfl, hring⟩ := key_append_inj hbody
  have hends : mixRingBytes as ++ [] = mixRingBytes bs ++ [] := by
    rw [append_nil, append_nil]
    exact hring
  exact ⟨rfl, (counted_append_inj (counted_append_inj CtKey.bytes_append_inj) hends).1⟩

structure InputVerifier where
  cnFastHash : Bytes → Key
  getTransactionHash : Transaction → Key
  getTransactionPrefixHash : TransactionPrefix → Key
  checkRingSignature : Key → Key → List Key → List Signature → Bool
  verRct : RctSig → Bool
  verRctNonSemanticsSimple : RctSig → Bool

def keyImages : List TxIn → Option (List Key)
  | [] => some []
  | .toKey input :: vin => (keyImages vin).map (input.kImage :: ·)
  | _ :: _ => none

def ringColumn (pubkeys : List (List CtKey)) (m : Nat) : List CtKey :=
  pubkeys.filterMap fun ring => ring[m]?

def expandMixRing (type : RctType) (pubkeys : List (List CtKey)) : Option (List (List CtKey)) :=
  match type, pubkeys with
  | .null, _ => none
  | _, [] => none
  | _, [] :: _ => none
  | .full, first :: rest =>
    if (first :: rest).all fun ring => decide (ring.length ≤ first.length) then
      some ((List.range first.length).map (ringColumn (first :: rest)))
    else none
  | _, first :: rest => some (first :: rest)

def MgSig.blank : MgSig := ⟨[], Blob.zero 32, []⟩

def expandKeyImages (type : RctType) (images : List Key) (p : RctSigPrunable) :
    Option RctSigPrunable :=
  if type = .full then some { p with MGs := [{ p.MGs.headD MgSig.blank with II := images }] }
  else if type.isClsag then
    if p.CLSAGs.length = images.length then
      some { p with CLSAGs := List.zipWith (fun c image => { c with I := image }) p.CLSAGs images }
    else none
  else if p.MGs.length = images.length then
    some { p with MGs := List.zipWith (fun m image => { m with II := [image] }) p.MGs images }
  else none

def expandTransaction2 (t : Transaction) (txPrefixHash : Key) (pubkeys : List (List CtKey)) :
    Option RctSig :=
  if t.version = 2 then
    (expandMixRing t.rctSignatures.type pubkeys).bind fun mixRing =>
      (if t.pruned then some t.rctSignatures.p
        else (keyImages t.vin).bind fun images =>
          expandKeyImages t.rctSignatures.type images t.rctSignatures.p).map fun p =>
        { t.rctSignatures with message := txPrefixHash, mixRing := mixRing, p := p }
  else none

def RctSigPrunable.proofView (type : RctType) (p : RctSigPrunable) : RctSigPrunable :=
  { p with
    bulletproofs := p.bulletproofs.map Bulletproof.onWire
    bulletproofsPlus := p.bulletproofsPlus.map BulletproofPlus.onWire
    MGs := if type.isClsag then [] else p.MGs
    CLSAGs := if type.isClsag then p.CLSAGs else [] }

def RctSig.proofView (rv : RctSig) : RctSig :=
  { rv with
    ecdhInfo := rv.ecdhInfo.map (EcdhTuple.onWire rv.type)
    outPk := rv.outPk.map CtKey.onWire
    p := rv.p.proofView rv.type }

def simpleImages (rv : RctSig) : List Key :=
  if rv.type.isClsag then rv.p.CLSAGs.map Clsag.I
  else rv.p.MGs.filterMap fun m => m.II.head?

def simpleSignatureCount (rv : RctSig) : Nat :=
  if rv.type.isClsag then rv.p.CLSAGs.length else rv.p.MGs.length

def transposed (mixRing columns : List (List CtKey)) : Bool :=
  decide ((∀ ring ∈ mixRing, ring.length = columns.length) ∧
    (∀ column ∈ columns, mixRing.length = column.length)) &&
  decide (columns = (List.range columns.length).map (ringColumn mixRing))

namespace InputVerifier
variable (c : InputVerifier)

def makeInputVerificationId (txHash : Key) (mixRing : List (List CtKey)) : Key :=
  c.cnFastHash (inputVerificationPreimage txHash mixRing)

def checkRingSignatureJobs (txPrefixHash : Key) :
    List TxIn → List (List Signature) → List (List CtKey) → Bool
  | .toKey input :: vin, sigs :: signatures, ring :: mixRing =>
    decide (input.keyOffsets.length = sigs.length) &&
      c.checkRingSignature txPrefixHash input.kImage (ring.map CtKey.dest) sigs &&
      checkRingSignatureJobs txPrefixHash vin signatures mixRing
  | [], [], [] => true
  | _, _, _ => false

def txVerLegacyRingSigs (t : Transaction) (mixRing : List (List CtKey)) : Bool :=
  !t.pruned && decide (t.version = 1) && decide (t.signatures.length = mixRing.length) &&
    decide (t.signatures.length = t.vin.length) &&
    c.checkRingSignatureJobs (c.getTransactionPrefixHash t.toTransactionPrefix) t.vin t.signatures
      mixRing

def verSimple (vin : List TxIn) (mixRing : List (List CtKey)) (rv : RctSig) : Bool :=
  decide (rv.mixRing = mixRing) && decide (simpleSignatureCount rv = vin.length) &&
    decide (keyImages vin = some (simpleImages rv)) && c.verRctNonSemanticsSimple rv

def verFull (vin : List TxIn) (mixRing : List (List CtKey)) (rv : RctSig) : Bool :=
  transposed mixRing rv.mixRing && decide (rv.p.MGs.length = 1) &&
    decide (keyImages vin = rv.p.MGs.head?.map MgSig.II) && c.verRct rv

def expandTxAndVerRctNonSem (t : Transaction) (mixRing : List (List CtKey)) : Bool :=
  !t.pruned && ((expandTransaction2 t (c.getTransactionPrefixHash t.toTransactionPrefix)
    mixRing).map RctSig.proofView).any (c.verSimple t.vin mixRing)

def expandTxAndVerFullRctNonSem (t : Transaction) (mixRing : List (List CtKey)) : Bool :=
  !t.pruned && decide (t.rctSignatures.type = .full) &&
    ((expandTransaction2 t (c.getTransactionPrefixHash t.toTransactionPrefix)
      mixRing).map RctSig.proofView).any (c.verFull t.vin mixRing)

def verInputProofsRings (t : Transaction) (mixRing : List (List CtKey)) : Bool :=
  if t.version > 2 then false
  else if t.version = 1 then c.txVerLegacyRingSigs t mixRing
  else if t.version = 2 then
    match t.rctSignatures.type with
    | .null => false
    | .full => c.expandTxAndVerFullRctNonSem t mixRing
    | _ => c.expandTxAndVerRctNonSem t mixRing
  else false

end InputVerifier

theorem EcdhTuple.onWire_onWire (type : RctType) (e : EcdhTuple) :
    (e.onWire type).onWire type = e.onWire type := by
  unfold EcdhTuple.onWire
  split
  · rw [truncAmount_padAmount]
  · rfl

theorem expandKeyImages_onWire (type : RctType) (images : List Key) (p : RctSigPrunable) :
    (expandKeyImages type images p.onWire).map (RctSigPrunable.proofView type) =
      (expandKeyImages type images p).map (RctSigPrunable.proofView type) := by
  have hproofs : p.onWire.bulletproofs.map Bulletproof.onWire =
      p.bulletproofs.map Bulletproof.onWire := List.map_map
  have hplus : p.onWire.bulletproofsPlus.map BulletproofPlus.onWire =
      p.bulletproofsPlus.map BulletproofPlus.onWire := List.map_map
  have hclsags : p.onWire.CLSAGs.length = p.CLSAGs.length := length_map _
  have hmgs : p.onWire.MGs.length = p.MGs.length := length_map _
  unfold expandKeyImages
  split
  · rename_i hfull
    have hhead : ({ p.onWire.MGs.headD MgSig.blank with II := images } : MgSig) =
        { p.MGs.headD MgSig.blank with II := images } := by
      cases hp : p.MGs with
      | nil => simp only [onWire, hp, map_nil]
      | cons m MGs =>
        simp only [onWire, hp, map_cons, headD_cons, MgSig.onWire]
    rw [hfull, map_some, map_some, hhead]
    simp only [proofView, hproofs, hplus]
    rfl
  split
  · rename_i hclsag
    rw [hclsags]
    split
    · have hzip : zipWith (fun c image => ({ c with I := image } : Clsag)) p.onWire.CLSAGs
          images = zipWith (fun c image => { c with I := image }) p.CLSAGs images :=
        zipWith_map_left
      rw [map_some, map_some, hzip]
      simp only [proofView, hproofs, hplus, if_pos hclsag]
      rfl
    · rfl
  · rename_i hclsag
    rw [hmgs]
    split
    · have hzip : zipWith (fun m image => ({ m with II := [image] } : MgSig)) p.onWire.MGs
          images = zipWith (fun m image => { m with II := [image] }) p.MGs images :=
        zipWith_map_left
      rw [map_some, map_some, hzip]
      simp only [proofView, hproofs, hplus, if_neg hclsag]
      rfl
    · rfl

theorem RctSig.proofView_congr (rv : RctSig) (message : Key) (mixRing : List (List CtKey))
    {p p' : RctSigPrunable} (h : p.proofView rv.type = p'.proofView rv.type) :
    RctSig.proofView { rv.onWire with message := message, mixRing := mixRing, p := p } =
      RctSig.proofView { rv with message := message, mixRing := mixRing, p := p' } := by
  have hecdh : (rv.ecdhInfo.map (EcdhTuple.onWire rv.type)).map (EcdhTuple.onWire rv.type) =
      rv.ecdhInfo.map (EcdhTuple.onWire rv.type) := by
    rw [List.map_map]
    exact map_congr_left fun e _ => e.onWire_onWire _
  have houtPk : (rv.outPk.map CtKey.onWire).map CtKey.onWire = rv.outPk.map CtKey.onWire :=
    List.map_map
  simp only [RctSig.proofView, RctSig.onWire, RctSigBase.onWire, hecdh, houtPk, h]

theorem expandTransaction2_onWire {t : Transaction} (hpruned : t.pruned = false)
    (txPrefixHash : Key) (pubkeys : List (List CtKey)) :
    (expandTransaction2 t.onWire txPrefixHash pubkeys).map RctSig.proofView =
      (expandTransaction2 t txPrefixHash pubkeys).map RctSig.proofView := by
  have hflag : ¬ t.pruned = true := by
    rw [hpruned]
    exact Bool.false_ne_true
  have hversion : t.onWire.version = t.version := rfl
  have htype : t.onWire.rctSignatures.type = t.rctSignatures.type := rfl
  have hvin : t.onWire.vin = t.vin := rfl
  have hflag' : ¬ t.onWire.pruned = true := hflag
  have hp : t.onWire.rctSignatures.p = t.rctSignatures.p.onWire := rfl
  rw [expandTransaction2, expandTransaction2, hversion, htype, hvin, hp, if_neg hflag,
    if_neg hflag']
  split
  · cases expandMixRing t.rctSignatures.type pubkeys with
    | none => rfl
    | some mixRing =>
      cases keyImages t.vin with
      | none => rfl
      | some images =>
        have hview := expandKeyImages_onWire t.rctSignatures.type images t.rctSignatures.p
        simp only [bind_some]
        cases hwire : expandKeyImages t.rctSignatures.type images t.rctSignatures.p.onWire with
        | none =>
          cases hfull : expandKeyImages t.rctSignatures.type images t.rctSignatures.p with
          | none => rfl
          | some p =>
            rw [hwire, hfull] at hview
            cases hview
        | some p =>
          cases hfull : expandKeyImages t.rctSignatures.type images t.rctSignatures.p with
          | none =>
            rw [hwire, hfull] at hview
            cases hview
          | some p' =>
            rw [hwire, hfull] at hview
            exact congrArg some (RctSig.proofView_congr t.rctSignatures txPrefixHash mixRing
              (some.inj hview))
  · rfl

namespace InputVerifier
variable {c : InputVerifier} {t t' : Transaction} {mixRing : List (List CtKey)}

theorem verInputProofsRings_unpruned (h : c.verInputProofsRings t mixRing = true) :
    t.pruned = false := by
  rw [← Bool.not_eq_true']
  unfold verInputProofsRings at h
  split at h
  · cases h
  split at h
  · simp only [txVerLegacyRingSigs, Bool.and_eq_true] at h
    exact h.1.1.1.1
  split at h
  · split at h
    · cases h
    · simp only [expandTxAndVerFullRctNonSem, Bool.and_eq_true] at h
      exact h.1.1
    · simp only [expandTxAndVerRctNonSem, Bool.and_eq_true] at h
      exact h.1
  · cases h

theorem verInputProofsRings_onWire (hpruned : t.pruned = false) :
    c.verInputProofsRings t.onWire mixRing = c.verInputProofsRings t mixRing := by
  have hsimple : c.expandTxAndVerRctNonSem t.onWire mixRing =
      c.expandTxAndVerRctNonSem t mixRing := by
    unfold expandTxAndVerRctNonSem
    rw [expandTransaction2_onWire hpruned]
    rfl
  have hfull : c.expandTxAndVerFullRctNonSem t.onWire mixRing =
      c.expandTxAndVerFullRctNonSem t mixRing := by
    unfold expandTxAndVerFullRctNonSem
    rw [expandTransaction2_onWire hpruned]
    rfl
  unfold verInputProofsRings
  rw [hsimple, hfull]
  rfl

end InputVerifier
end Jero.Serial
