import Jero.Serial.TxParts

namespace Jero.Serial
open Jero.Common List Codec Blob

inductive RctType where
  | null
  | full
  | simple
  | bulletproof
  | bulletproof2
  | clsag
  | bulletproofPlus
deriving DecidableEq, Repr

open RctType

def RctType.toByte : RctType → UInt8
  | .null => 0
  | .full => 1
  | .simple => 2
  | .bulletproof => 3
  | .bulletproof2 => 4
  | .clsag => 5
  | .bulletproofPlus => 6

def RctType.ofByte (b : UInt8) : RctType :=
  if b = 1 then .full
  else if b = 2 then .simple
  else if b = 3 then .bulletproof
  else if b = 4 then .bulletproof2
  else if b = 5 then .clsag
  else if b = 6 then .bulletproofPlus
  else .null

def RctType.known (b : UInt8) : Bool := decide ((ofByte b).toByte = b)

def rctType : Codec RctType := (byte.check known).image toByte ofByte

structure CtKey where
  dest : Key
  mask : Key
deriving DecidableEq, Repr

structure EcdhTuple where
  mask : Key
  amount : Key
deriving DecidableEq, Repr

structure RctSigBase where
  type : RctType
  message : Key
  mixRing : List (List CtKey)
  pseudoOuts : List Key
  ecdhInfo : List EcdhTuple
  outPk : List CtKey
  txnFee : UInt64
deriving DecidableEq, Repr

def RctSigBase.empty : RctSigBase := ⟨.null, zero 32, [], [], [], [], 0⟩

def RctType.compressedEcdh : RctType → Bool
  | .bulletproof2 => true
  | .clsag => true
  | .bulletproofPlus => true
  | _ => false

def ecdhTuple : Codec EcdhTuple :=
  (key.seq key).image (fun e => (e.mask, e.amount)) (fun x => ⟨x.1, x.2⟩)

def truncAmount (amount : Key) : Blob 8 :=
  ⟨amount.val.take 8, List.length_take_of_le (by rw [amount.property]; decide)⟩

def padAmount (amount : Blob 8) : Key :=
  ⟨amount.val ++ List.replicate 24 0, by rw [List.length_append, amount.property]; rfl⟩

def truncatedEcdhTuple : Codec EcdhTuple :=
  (blob 8).image (fun e => truncAmount e.amount) (fun amount => ⟨zero 32, padAmount amount⟩)

def pseudoOutsBase (type : RctType) (inputs : Nat) : Codec (List Key) :=
  match type with
  | .simple => customVector key inputs 32
  | _ => Codec.skip []

def ecdhInfoField (type : RctType) (outputs : Nat) : Codec (List EcdhTuple) :=
  if type.compressedEcdh then customVector truncatedEcdhTuple outputs 8
  else customVector ecdhTuple outputs 64

def outPkMask : Codec CtKey := key.image CtKey.mask (fun mask => ⟨zero 32, mask⟩)

def rctSigBaseFields (inputs outputs : Nat) (type : RctType) :
    Codec (UInt64 × List Key × List EcdhTuple × List CtKey) :=
  if type = .null then Codec.skip (0, [], [], [])
  else varint64.seq ((pseudoOutsBase type inputs).seq ((ecdhInfoField type outputs).seq
    (customVector outPkMask outputs 32)))

def rctSigBase (inputs outputs : Nat) : Codec RctSigBase :=
  (rctType.dep (rctSigBaseFields inputs outputs)).image
    (fun s => (s.type, s.txnFee, s.pseudoOuts, s.ecdhInfo, s.outPk))
    (fun x => ⟨x.1, zero 32, [], x.2.2.1, x.2.2.2.1, x.2.2.2.2, x.2.1⟩)

def EcdhTuple.onWire (type : RctType) (e : EcdhTuple) : EcdhTuple :=
  if type.compressedEcdh then ⟨zero 32, padAmount (truncAmount e.amount)⟩ else e

def CtKey.onWire (k : CtKey) : CtKey := ⟨zero 32, k.mask⟩

def RctSigBase.onWire (s : RctSigBase) : RctSigBase :=
  { s with
    message := zero 32
    mixRing := []
    ecdhInfo := s.ecdhInfo.map (EcdhTuple.onWire s.type)
    outPk := s.outPk.map CtKey.onWire }

structure RctSigBase.Filled (s : RctSigBase) (inputs outputs : Nat) : Prop where
  pseudoOuts : s.pseudoOuts.length = if s.type = .simple then inputs else 0
  ecdhInfo : s.ecdhInfo.length = outputs
  outPk : s.outPk.length = outputs

structure RctSigBase.Blank (s : RctSigBase) : Prop where
  txnFee : s.txnFee = 0
  pseudoOuts : s.pseudoOuts = []
  ecdhInfo : s.ecdhInfo = []
  outPk : s.outPk = []

def RctSigBase.Shaped (s : RctSigBase) (inputs outputs : Nat) : Prop :=
  if s.type = .null then s.Blank else s.Filled inputs outputs

theorem ofByte_toByte (type : RctType) : ofByte type.toByte = type := by
  cases type <;> rfl

theorem rctType_lawful : rctType.Lawful (fun _ => True) id := by
  refine ((byte_lawful.check (fun b => (rfl : known (id b) = _))).image ?_).weaken ?_ ?_
  · rintro b ⟨-, hknown⟩
    exact of_decide_eq_true hknown
  · intro type
    refine ⟨fun _ => ⟨trivial, ?_⟩, fun _ => trivial⟩
    rw [known, ofByte_toByte]
    exact decide_eq_true rfl
  · intro type _
    exact (ofByte_toByte type).symm

theorem rctType_exact : rctType.Exact := by
  intro b type rest h
  obtain ⟨v, hread, rfl⟩ := image_read.mp h
  obtain ⟨hbyte, hknown⟩ := check_read.mp hread
  obtain ⟨w, hw, rfl⟩ := byte_exact hbyte
  refine ⟨w, ?_, rfl⟩
  rw [rctType, image_write, of_decide_eq_true hknown]
  exact check_write.mpr ⟨hw, hknown⟩

theorem ecdhTuple_lawful : ecdhTuple.Lawful (fun _ => True) id :=
  ((key_lawful.seq key_lawful).image (fun _ _ => rfl)).weaken
    (fun _ => ⟨fun _ => ⟨trivial, trivial⟩, fun _ => trivial⟩) (fun _ _ => rfl)

theorem truncAmount_padAmount (amount : Blob 8) : truncAmount (padAmount amount) = amount := by
  refine Subtype.ext ?_
  rw [truncAmount, padAmount]
  exact take_left' amount.property

theorem truncatedEcdhTuple_lawful : truncatedEcdhTuple.Lawful (fun _ => True)
      (fun e => ⟨zero 32, padAmount (truncAmount e.amount)⟩) :=
  (blob_lawful 8).image (fun amount _ => truncAmount_padAmount amount)

theorem outPkMask_lawful : outPkMask.Lawful (fun _ => True) CtKey.onWire :=
  key_lawful.image (fun _ _ => rfl)

theorem customVector_lawful_all {α : Type} {c : Codec α} {n : α → α}
    (hc : c.Lawful (fun _ => True) n) (size : Nat) {minSize : Nat} (hwidth : c.MinWidth minSize) :
    (customVector c size minSize).Lawful (fun xs => xs.length = size) (List.map n) :=
  (customVector_lawful hc size hwidth).weaken
    (fun _ => ⟨fun h => ⟨h, fun _ _ => trivial⟩, fun h => h.1⟩) (fun _ _ => rfl)

theorem keyVector_lawful (size : Nat) :
    (customVector key size 32).Lawful (fun xs => xs.length = size) id :=
  (customVector_lawful_all key_lawful size key_minWidth).weaken (fun _ => Iff.rfl)
    (fun xs _ => (map_id xs).symm)

theorem pseudoOutsBase_lawful (type : RctType) (inputs : Nat) :
    (pseudoOutsBase type inputs).Lawful
      (fun xs => xs.length = if type = .simple then inputs else 0) id := by
  cases type with
  | simple => exact keyVector_lawful inputs
  | _ => exact (skip_lawful []).weaken (fun _ => length_eq_zero_iff) (fun _ _ => rfl)

theorem ecdhInfoField_lawful (type : RctType) (outputs : Nat) :
    (ecdhInfoField type outputs).Lawful (fun xs => xs.length = outputs)
      (List.map (EcdhTuple.onWire type)) := by
  unfold ecdhInfoField
  split
  · rename_i hcompressed
    refine (customVector_lawful_all truncatedEcdhTuple_lawful outputs
      (image_minWidth (blob_minWidth 8))).weaken (fun _ => Iff.rfl) ?_
    intro xs _
    refine map_congr_left fun e _ => ?_
    rw [EcdhTuple.onWire, if_pos hcompressed]
  · rename_i hfull
    refine (customVector_lawful_all ecdhTuple_lawful outputs
      (image_minWidth (seq_minWidth key_minWidth key_minWidth))).weaken
      (fun _ => Iff.rfl) ?_
    intro xs _
    refine map_congr_left fun e _ => ?_
    rw [EcdhTuple.onWire, if_neg hfull]
    rfl

theorem rctSigBase_lawful (inputs outputs : Nat) :
    (rctSigBase inputs outputs).Lawful (fun s => s.Shaped inputs outputs) RctSigBase.onWire := by
  have hfields : ∀ type, (rctSigBaseFields inputs outputs type).Lawful
      (fun x => if type = .null then x = (0, [], [], [])
        else x.2.1.length = (if type = .simple then inputs else 0) ∧
          x.2.2.1.length = outputs ∧ x.2.2.2.length = outputs)
      (fun x => (x.1, x.2.1, x.2.2.1.map (EcdhTuple.onWire type), x.2.2.2.map CtKey.onWire)) := by
    intro type
    unfold rctSigBaseFields
    split
    · refine (skip_lawful _).weaken (fun _ => Iff.rfl) ?_
      rintro x rfl
      rfl
    · refine (varint64_lawful.seq ((pseudoOutsBase_lawful type inputs).seq
        ((ecdhInfoField_lawful type outputs).seq (customVector_lawful_all outPkMask_lawful outputs
          (image_minWidth key_minWidth))))).weaken ?_ (fun _ _ => rfl)
      intro x
      exact ⟨fun h => ⟨trivial, h⟩, fun h => h.2⟩
  refine ((rctType_lawful.dep (fun type _ => hfields type) (fun _ => rfl)).image
    (fun _ _ => rfl)).weaken ?_ (fun _ _ => rfl)
  intro s
  unfold RctSigBase.Shaped
  split
  · constructor
    · intro h
      exact ⟨trivial, by rw [h.txnFee, h.pseudoOuts, h.ecdhInfo, h.outPk]⟩
    · rintro ⟨-, h⟩
      simp only [Prod.mk.injEq] at h
      exact ⟨h.1, h.2.1, h.2.2.1, h.2.2.2⟩
  · constructor
    · intro h
      exact ⟨trivial, h.pseudoOuts, h.ecdhInfo, h.outPk⟩
    · rintro ⟨-, hpseudo, hecdh, houtPk⟩
      exact ⟨hpseudo, hecdh, houtPk⟩

end Jero.Serial
