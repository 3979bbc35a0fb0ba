import Jero.Serial.RctBase

namespace Jero.Serial
open List Codec

abbrev Key64 := Blob (64 * 32)

structure BoroSig where
  s0 : Key64
  s1 : Key64
  ee : Key
deriving DecidableEq, Repr

structure RangeSig where
  asig : BoroSig
  ci : Key64
deriving DecidableEq, Repr

structure MgSig where
  ss : List (List Key)
  cc : Key
  II : List Key
deriving DecidableEq, Repr

structure Clsag where
  s : List Key
  c1 : Key
  I : Key
  D : Key
deriving DecidableEq, Repr

structure Bulletproof where
  V : List Key
  A : Key
  S : Key
  T1 : Key
  T2 : Key
  taux : Key
  mu : Key
  L : List Key
  R : List Key
  a : Key
  b : Key
  t : Key
deriving DecidableEq, Repr

structure BulletproofPlus where
  V : List Key
  A : Key
  A1 : Key
  B : Key
  r1 : Key
  s1 : Key
  d1 : Key
  L : List Key
  R : List Key
deriving DecidableEq, Repr

structure RctSigPrunable where
  rangeSigs : List RangeSig
  bulletproofs : List Bulletproof
  bulletproofsPlus : List BulletproofPlus
  MGs : List MgSig
  CLSAGs : List Clsag
  pseudoOuts : List Key
deriving DecidableEq, Repr

def RctSigPrunable.empty : RctSigPrunable := ⟨[], [], [], [], [], []⟩

def key64 : Codec Key64 := blob (64 * 32)

def boroSig : Codec BoroSig :=
  (key64.seq (key64.seq key)).image (fun s => (s.s0, s.s1, s.ee)) (fun x => ⟨x.1, x.2.1, x.2.2⟩)

def rangeSig : Codec RangeSig :=
  (boroSig.seq key64).image (fun s => (s.asig, s.ci)) (fun x => ⟨x.1, x.2⟩)

def keys6 : Codec (Key × Key × Key × Key × Key × Key) :=
  key.seq (key.seq (key.seq (key.seq (key.seq key))))

def halves : Codec (List Key × List Key) := (vector key).seq (vector key)

def halvesMatch (L R : List Key) : Bool := !(L.isEmpty || decide (L.length ≠ R.length))

def bulletproof : Codec Bulletproof :=
  ((keys6.seq (halves.seq (key.seq (key.seq key)))).image
    (fun p => ((p.A, p.S, p.T1, p.T2, p.taux, p.mu), (p.L, p.R), p.a, p.b, p.t))
    (fun x => ⟨[], x.1.1, x.1.2.1, x.1.2.2.1, x.1.2.2.2.1, x.1.2.2.2.2.1, x.1.2.2.2.2.2,
      x.2.1.1, x.2.1.2, x.2.2.1, x.2.2.2.1, x.2.2.2.2⟩)).check fun p => halvesMatch p.L p.R

def bulletproofPlus : Codec BulletproofPlus :=
  ((keys6.seq halves).image (fun p => ((p.A, p.A1, p.B, p.r1, p.s1, p.d1), p.L, p.R))
    (fun x => ⟨[], x.1.1, x.1.2.1, x.1.2.2.1, x.1.2.2.2.1, x.1.2.2.2.2.1, x.1.2.2.2.2.2,
      x.2.1, x.2.2⟩)).check fun p => halvesMatch p.L p.R

def bulletproofMaxOutputs : Nat := 16

def nBulletproofMaxAmountsBase (lSize rSize : Nat) : Nat :=
  if ¬ lSize ≥ 6 then 0
  else if lSize ≠ rSize then 0
  else if 1 <<< 4 ≠ bulletproofMaxOutputs then 0
  else if ¬ lSize ≤ 6 + 4 then 0
  else 1 <<< (lSize - 6)

def nBulletproofMaxAmountsFrom : Nat → List (Nat × Nat) → Nat
  | n, [] => n
  | n, sizes :: proofs =>
    let n2 := nBulletproofMaxAmountsBase sizes.1 sizes.2
    if ¬ n2 < 2 ^ 32 - 1 - n then 0
    else if n2 = 0 then 0
    else nBulletproofMaxAmountsFrom (n + n2) proofs

def nBulletproofMaxAmounts (proofs : List Bulletproof) : Nat :=
  nBulletproofMaxAmountsFrom 0 (proofs.map fun p => (p.L.length, p.R.length))

def nBulletproofPlusMaxAmounts (proofs : List BulletproofPlus) : Nat :=
  nBulletproofMaxAmountsFrom 0 (proofs.map fun p => (p.L.length, p.R.length))

section
variable {α : Type}

def proofVector (count : Codec UInt32) (c : Codec α) (minSize outputs : Nat)
    (maxAmounts : List α → Nat) : Codec (List α) :=
  (((count.check fun nbp => decide (nbp.toNat ≤ outputs)).dep fun nbp =>
    customVector c nbp.toNat minSize).image
      (fun proofs => (UInt32.ofNat proofs.length, proofs.take (UInt32.ofNat proofs.length).toNat))
      Prod.snd).check fun proofs => decide (outputs ≤ maxAmounts proofs)

structure ProofsShaped (F : α → Prop) (outputs : Nat) (maxAmounts : List α → Nat)
    (proofs : List α) : Prop where
  count : proofs.length ≤ outputs
  size : proofs.length < 2 ^ 32
  fits : ∀ p ∈ proofs, F p
  amounts : outputs ≤ maxAmounts proofs

theorem proofVector_lawful {count : Codec UInt32} (hcount : count.Lawful (fun _ => True) id)
    {c : Codec α} {F : α → Prop} {n : α → α} (hc : c.Lawful F n) {minSize : Nat}
    (hwidth : c.MinWidth minSize) (outputs : Nat) {maxAmounts : List α → Nat}
    (hamounts : ∀ proofs, maxAmounts (proofs.map n) = maxAmounts proofs) :
    (proofVector count c minSize outputs maxAmounts).Lawful (ProofsShaped F outputs maxAmounts)
      (List.map n) := by
  have hcheck : (count.check fun nbp => decide (nbp.toNat ≤ outputs)).Lawful _ _ :=
    hcount.check (fun _ => rfl)
  have hpair := hcheck.dep (fun nbp _ => customVector_lawful hc nbp.toNat hwidth) (fun _ => rfl)
  have himage : (((count.check fun nbp => decide (nbp.toNat ≤ outputs)).dep fun nbp =>
      customVector c nbp.toNat minSize).image
      (fun proofs => (UInt32.ofNat proofs.length, proofs.take (UInt32.ofNat proofs.length).toNat))
      Prod.snd).Lawful (fun proofs => proofs.length ≤ outputs ∧ proofs.length < 2 ^ 32 ∧
        ∀ p ∈ proofs, F p) (map n) := by
    refine (hpair.image ?_).restrict ?_ ?_ ?_
    · rintro ⟨nbp, proofs⟩ ⟨-, hlen, -⟩
      rw [hlen, UInt32.ofNat_toNat, ← hlen, take_length]
    · rintro proofs ⟨houtputs, hsize, hfits⟩
      have hnbp : (UInt32.ofNat proofs.length).toNat = proofs.length := by
        rw [UInt32.toNat_ofNat', Nat.mod_eq_of_lt hsize]
      rw [hnbp, take_length]
      exact ⟨⟨trivial, decide_eq_true houtputs⟩, rfl, hfits⟩
    · rintro proofs ⟨⟨-, houtputs⟩, hlen, hfits⟩ hsame
      have hfull : (UInt32.ofNat proofs.length).toNat = proofs.length := by
        have hlength := congrArg length hsame
        rwa [length_map, hlen] at hlength
      rw [hfull, take_length] at hfits
      rw [hfull] at houtputs
      refine ⟨of_decide_eq_true houtputs, ?_, hfits⟩
      rw [← hfull]
      exact UInt32.toNat_lt _
    · rintro proofs ⟨-, hsize, -⟩
      have hnbp : (UInt32.ofNat proofs.length).toNat = proofs.length := by
        rw [UInt32.toNat_ofNat', Nat.mod_eq_of_lt hsize]
      rw [hnbp, take_length]
  refine (himage.check (fun proofs => by rw [hamounts])).weaken ?_ (fun _ _ => rfl)
  intro proofs
  constructor
  · intro h
    exact ⟨⟨h.count, h.size, h.fits⟩, decide_eq_true h.amounts⟩
  · rintro ⟨⟨houtputs, hsize, hfits⟩, hmax⟩
    exact ⟨houtputs, hsize, hfits, of_decide_eq_true hmax⟩

end

def RctType.isBorromean : RctType → Bool
  | .simple => true
  | .full => true
  | _ => false

def RctType.isBulletproof : RctType → Bool
  | .bulletproof => true
  | .bulletproof2 => true
  | .clsag => true
  | _ => false

def RctType.isBulletproofPlus : RctType → Bool
  | .bulletproofPlus => true
  | _ => false

def RctType.isClsag : RctType → Bool
  | .clsag => true
  | .bulletproofPlus => true
  | _ => false

def RctType.isMlsag : RctType → Bool
  | .full => true
  | .simple => true
  | .bulletproof => true
  | .bulletproof2 => true
  | _ => false

def RctType.perInput : RctType → Bool
  | .simple => true
  | .bulletproof => true
  | .bulletproof2 => true
  | _ => false

def proofCount : RctType → Codec UInt32
  | .bulletproof => uint32
  | _ => varint32

def rangeSigsField (type : RctType) (outputs : Nat) : Codec (List RangeSig) :=
  if type.isBorromean then customVector rangeSig outputs (193 * 32) else skip []

def bulletproofsField (type : RctType) (outputs : Nat) : Codec (List Bulletproof) :=
  if type.isBulletproof then
    proofVector (proofCount type) bulletproof (9 * 32) outputs nBulletproofMaxAmounts
  else skip []

def bulletproofsPlusField (type : RctType) (outputs : Nat) : Codec (List BulletproofPlus) :=
  if type.isBulletproofPlus then
    proofVector varint32 bulletproofPlus (6 * 32) outputs nBulletproofPlusMaxAmounts
  else skip []

def mgSig (rows columns : Nat) : Codec MgSig :=
  ((customVector (customVector key columns 32) rows 32).seq key).image (fun m => (m.ss, m.cc))
    (fun x => ⟨x.1, x.2, []⟩)

def mgElements (type : RctType) (inputs : Nat) : Nat := if type.perInput then inputs else 1

def mgColumns (type : RctType) (inputs : Nat) : Nat := (if type.perInput then 1 else inputs) + 1

def mgsField (type : RctType) (inputs mixin : Nat) : Codec (List MgSig) :=
  if type.isMlsag then
    customVector (mgSig (mixin + 1) (mgColumns type inputs)) (mgElements type inputs) (2 * 32)
  else skip []

def clsag (mixin : Nat) : Codec Clsag :=
  ((customVector key (mixin + 1) 32).seq (key.seq key)).image (fun c => (c.s, c.c1, c.D))
    (fun x => ⟨x.1, x.2.1, Blob.zero 32, x.2.2⟩)

def clsagsField (type : RctType) (inputs mixin : Nat) : Codec (List Clsag) :=
  if type.isClsag then customVector (clsag mixin) inputs (3 * 32) else skip []

def pseudoOutsField (type : RctType) (inputs : Nat) : Codec (List Key) :=
  if type.isBulletproof || type.isBulletproofPlus then customVector key inputs 32
  else skip []

def rangeProofs (type : RctType) (outputs : Nat) :
    Codec (List RangeSig × List Bulletproof × List BulletproofPlus) :=
  (rangeSigsField type outputs).seq
    ((bulletproofsField type outputs).seq (bulletproofsPlusField type outputs))

def inputProofs (type : RctType) (inputs mixin : Nat) :
    Codec (List MgSig × List Clsag × List Key) :=
  (mgsField type inputs mixin).seq
    ((clsagsField type inputs mixin).seq (pseudoOutsField type inputs))

def rctSigPrunable (type : RctType) (inputs outputs mixin : Nat) : Codec RctSigPrunable :=
  if inputs ≥ 0xffffffff ∨ outputs ≥ 0xffffffff ∨ mixin ≥ 0xffffffff then fail
  else ((rangeProofs type outputs).seq (inputProofs type inputs mixin)).image
    (fun p => ((p.rangeSigs, p.bulletproofs, p.bulletproofsPlus), p.MGs, p.CLSAGs, p.pseudoOuts))
    (fun x => ⟨x.1.1, x.1.2.1, x.1.2.2, x.2.1, x.2.2.1, x.2.2.2⟩)

def Bulletproof.onWire (p : Bulletproof) : Bulletproof := { p with V := [] }

def BulletproofPlus.onWire (p : BulletproofPlus) : BulletproofPlus := { p with V := [] }

def MgSig.onWire (m : MgSig) : MgSig := { m with II := [] }

def Clsag.onWire (c : Clsag) : Clsag := { c with I := Blob.zero 32 }

def RctSigPrunable.onWire (p : RctSigPrunable) : RctSigPrunable :=
  { p with
    bulletproofs := p.bulletproofs.map Bulletproof.onWire
    bulletproofsPlus := p.bulletproofsPlus.map BulletproofPlus.onWire
    MGs := p.MGs.map MgSig.onWire
    CLSAGs := p.CLSAGs.map Clsag.onWire }

def HalvesFit (L R : List Key) : Prop := L ≠ [] ∧ L.length = R.length ∧ L.length < 2 ^ 64

structure MgShaped (rows columns : Nat) (m : MgSig) : Prop where
  rows : m.ss.length = rows
  columns : ∀ row ∈ m.ss, row.length = columns

structure RctSigPrunable.Shaped (p : RctSigPrunable) (type : RctType)
    (inputs outputs mixin : Nat) : Prop where
  inputsBound : inputs < 0xffffffff
  outputsBound : outputs < 0xffffffff
  mixinBound : mixin < 0xffffffff
  rangeSigs : p.rangeSigs.length = if type.isBorromean then outputs else 0
  bulletproofs : if type.isBulletproof then
    ProofsShaped (fun q => HalvesFit q.L q.R) outputs nBulletproofMaxAmounts p.bulletproofs
    else p.bulletproofs = []
  bulletproofsPlus : if type.isBulletproofPlus then
    ProofsShaped (fun q => HalvesFit q.L q.R) outputs nBulletproofPlusMaxAmounts p.bulletproofsPlus
    else p.bulletproofsPlus = []
  MGs : if type.isMlsag then p.MGs.length = mgElements type inputs ∧
      ∀ m ∈ p.MGs, MgShaped (mixin + 1) (mgColumns type inputs) m
    else p.MGs = []
  CLSAGs : if type.isClsag then p.CLSAGs.length = inputs ∧ ∀ c ∈ p.CLSAGs, c.s.length = mixin + 1
    else p.CLSAGs = []
  pseudoOuts : p.pseudoOuts.length =
    if type.isBulletproof || type.isBulletproofPlus then inputs else 0

end Jero.Serial
