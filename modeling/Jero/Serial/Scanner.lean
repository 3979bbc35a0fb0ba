import Jero.Serial.Block

namespace Jero.Serial
open Jero.Common List Option Codec TxIn Bool
namespace Codec
variable {α β : Type}

def Advances (c : Codec α) (k : Nat) : Prop :=
  ∀ ⦃b x rest⦄, c.read b = some (x, rest) → k ≤ b.length ∧ rest = b.drop k

def Spends (c : Codec α) (cost : α → Nat) : Prop :=
  ∀ ⦃b x rest⦄, c.read b = some (x, rest) → b.length ≤ rest.length + cost x

theorem Advances.spends {c : Codec α} {k : Nat} (h : c.Advances k) : c.Spends (fun _ => k) := by
  intro b x rest hread
  obtain ⟨hle, rfl⟩ := h hread
  beta_reduce
  rw [length_drop]
  omega

theorem skip_advances (d : α) : (skip d).Advances 0 := by
  intro b x rest h
  obtain ⟨-, rfl⟩ := Prod.mk.inj (some.inj h)
  exact ⟨Nat.zero_le _, rfl⟩

section
variable {c : Codec α} {k : Nat} (hc : c.Advances k)
include hc

theorem Advances.seq {d : Codec β} {l : Nat} (hd : d.Advances l) : (c.seq d).Advances (k + l) := by
  intro b x rest h
  obtain ⟨mid, hfirst, hsecond⟩ := seq_read.mp h
  obtain ⟨hk, rfl⟩ := hc hfirst
  obtain ⟨hl, rfl⟩ := hd hsecond
  rw [length_drop] at hl
  exact ⟨by omega, drop_drop⟩

theorem Advances.image (proj : β → α) (inj : α → β) : (c.image proj inj).Advances k := by
  intro b x rest h
  obtain ⟨a, hread, -⟩ := image_read.mp h
  exact hc hread

theorem Advances.times (n : Nat) : (c.times n).Advances (n * k) := by
  induction n with
  | zero =>
    intro b xs rest h
    obtain ⟨-, rfl⟩ := times_zero_read.mp h
    rw [Nat.zero_mul]
    exact ⟨Nat.zero_le _, rfl⟩
  | succ n ih =>
    intro b xs rest h
    obtain ⟨x, ys, mid, -, hx, hys⟩ := times_succ_read.mp h
    obtain ⟨hk, rfl⟩ := hc hx
    obtain ⟨hn, rfl⟩ := ih hys
    rw [length_drop] at hn
    rw [Nat.succ_mul, drop_drop, add_comm k]
    exact ⟨by omega, rfl⟩

theorem Advances.precheck (p : Bytes → Bool) : (c.precheck p).Advances k := by
  intro b x rest h
  exact hc (precheck_read.mp h).2

end
variable {c : Codec α} {f : α → Nat} (hc : c.Spends f)
include hc

theorem Spends.dep {d : α → Codec β} {g : α → β → Nat} (hd : ∀ x, (d x).Spends (g x)) :
    (c.dep d).Spends (fun x => f x.1 + g x.1 x.2) := by
  intro b x rest h
  obtain ⟨mid, hfirst, hsecond⟩ := dep_read.mp h
  have hf := hc hfirst
  have hg := hd x.1 hsecond
  beta_reduce
  omega

theorem Spends.seq {d : Codec β} {g : β → Nat} (hd : d.Spends g) :
    (c.seq d).Spends (fun x => f x.1 + g x.2) :=
  hc.dep (fun _ => hd)

theorem Spends.image {proj : β → α} {inj : α → β} {g : β → Nat} (hg : ∀ a, g (inj a) = f a) :
    (c.image proj inj).Spends g := by
  intro b x rest h
  obtain ⟨a, hread, rfl⟩ := image_read.mp h
  rw [hg]
  exact hc hread

theorem Spends.times (n : Nat) : (c.times n).Spends (fun xs => (xs.map f).sum) := by
  induction n with
  | zero =>
    intro b xs rest h
    obtain ⟨-, rfl⟩ := times_zero_read.mp h
    exact Nat.le_add_right _ _
  | succ n ih =>
    intro b xs rest h
    obtain ⟨x, ys, mid, rfl, hx, hys⟩ := times_succ_read.mp h
    have hf := hc hx
    have hg := ih hys
    simp only [map_cons, sum_cons] at hg ⊢
    omega

end Codec

theorem readVarintFrom_spend {bits shift read write : Nat} {bytes : Bytes} {r : VarintRead}
    (hshift : shift < bits) (h : readVarintFrom bits shift read write bytes = .ok r) :
    7 * bytes.length ≤ 7 * r.rest.length + (bits - shift + 6) := by
  induction bytes generalizing shift read write with
  | nil =>
    obtain rfl := Except.ok.inj h
    exact Nat.zero_le _
  | cons byte bytes ih =>
    simp only [readVarintFrom] at h
    split at h
    · cases h
    rename_i hfits
    split at h
    · cases h
    rw [length_cons]
    split at h
    · obtain rfl := Except.ok.inj h
      dsimp only
      omega
    · rename_i hmore
      have hroom := room_of_large hfits (Nat.le_of_not_lt hmore)
      have hrest := ih hroom h
      omega

theorem varint_spends : (varint 64).Spends (fun _ => 10) := by
  intro b v rest h
  simp only [varint] at h
  split at h
  · cases h
  rename_i r hr
  split at h
  · obtain ⟨-, rfl⟩ := Prod.mk.inj (some.inj h)
    have hspend := readVarintFrom_spend (by decide) hr
    beta_reduce
    omega
  · cases h

theorem byte_advances : byte.Advances 1 := by
  intro b v rest h
  cases b with
  | nil => cases h
  | cons x b =>
    obtain ⟨-, rfl⟩ := Prod.mk.inj (some.inj h)
    exact ⟨by simp, rfl⟩

theorem blob_advances (n : Nat) : (blob n).Advances n := by
  intro b v rest h
  simp only [blob] at h
  split at h
  · rename_i hle
    obtain ⟨-, rfl⟩ := Prod.mk.inj (some.inj h)
    exact ⟨hle, rfl⟩
  · cases h

theorem key_advances : key.Advances 32 := blob_advances 32

theorem customVector_advances {α : Type} {c : Codec α} {k : Nat} (hc : c.Advances k)
    (size minSize : Nat) : (customVector c size minSize).Advances (size * k) :=
  (hc.times size).precheck _

theorem varint64_read {b rest : Bytes} {v : UInt64} (h : varint64.read b = some (v, rest)) :
    (varint 64).read b = some (v.toNat, rest) := by
  obtain ⟨n, hread, rfl⟩ := Codec.image_read.mp h
  rw [UInt64.toNat_ofNat', Nat.mod_eq_of_lt (varint_read_inv hread).1]
  exact hread

theorem varint64_spends : varint64.Spends (fun _ => 10) :=
  fun _ _ _ h => varint_spends (varint64_read h)

theorem container_spends {α : Type} {c : Codec α} {F : α → Prop} {n : α → α} (hc : c.Lawful F n)
    {f : α → Nat} (hf : c.Spends f) (maxCnt : Nat) :
    (container c maxCnt).Spends (fun xs => 10 + (xs.map f).sum) := by
  intro b xs rest h
  obtain ⟨mid, hcnt, -, -, hread⟩ := (container_read hc).mp h
  have hcount := varint_spends hcnt
  have helems := hf.times xs.length hread
  beta_reduce at hcount helems ⊢
  omega

theorem pseudoOutsBase_advances (type : RctType) (inputs : Nat) :
    (pseudoOutsBase type inputs).Advances (if type = .simple then inputs * 32 else 0) := by
  cases type with
  | simple => exact customVector_advances key_advances inputs 32
  | _ => exact Codec.skip_advances []

theorem ecdhInfoField_advances (type : RctType) (outputs : Nat) :
    (ecdhInfoField type outputs).Advances
      (outputs * if type.compressedEcdh then 8 else 64) := by
  unfold ecdhInfoField
  split
  · exact customVector_advances ((blob_advances 8).image _ _) outputs 8
  · exact customVector_advances ((key_advances.seq key_advances).image _ _) outputs 64
variable {b rest : Bytes} {n : Nat} {input : TxIn} {type : RctType}

structure UnprunableSummary where
  version : Nat
  nInputs : Nat
  nOutputs : Nat
  extraLen : Nat
  isCoinbase : Bool
  prefixSize : Nat
  unprunableSize : Nat
deriving DecidableEq, Repr

def scanSkip (n : Nat) (b : Bytes) : Option Bytes :=
  if b.length < n then none else some (b.drop n)

def scanVarints : Nat → Bytes → Option Bytes
  | 0, b => some b
  | n + 1, b => ((varint 64).read b).bind fun r => scanVarints n r.2

def scanInput (b : Bytes) : Option (Bool × Bytes) :=
  (byte.read b).bind fun inputTag =>
    if inputTag.1 = 0xff then ((varint 64).read inputTag.2).map fun height => (true, height.2)
    else if inputTag.1 = 0x02 then
      ((varint 64).read inputTag.2).bind fun amount =>
        ((varint 64).read amount.2).bind fun count =>
          (scanVarints count.1 count.2).bind fun offsets =>
            (scanSkip 32 offsets).map fun rest => (false, rest)
    else none

def scanInputs : Nat → Bool → Bytes → Option (Bool × Bytes)
  | 0, isCoinbase, b => some (isCoinbase, b)
  | n + 1, isCoinbase, b => (scanInput b).bind fun r => scanInputs n (isCoinbase || r.1) r.2

def scanOutput (b : Bytes) : Option Bytes :=
  ((varint 64).read b).bind fun amount =>
    (byte.read amount.2).bind fun outputTag =>
      if outputTag.1 = 0x02 then scanSkip 32 outputTag.2
      else if outputTag.1 = 0x03 then scanSkip (32 + 1) outputTag.2
      else none

def scanOutputs : Nat → Bytes → Option Bytes
  | 0, b => some b
  | n + 1, b => (scanOutput b).bind (scanOutputs n)

def scanPseudoOuts (type : UInt8) (nInputs : Nat) (b : Bytes) : Option Bytes :=
  if type = 2 then scanSkip (32 * nInputs) b else some b

def scanRctBase (nInputs nOutputs : Nat) (b : Bytes) : Option Bytes :=
  (byte.read b).bind fun type =>
    if type.1 > 6 then none
    else if type.1 = 0 then some type.2
    else ((varint 64).read type.2).bind fun txnFee =>
      (scanPseudoOuts type.1 nInputs txnFee.2).bind
        (scanSkip (nOutputs * ((if type.1 ≥ 4 then 8 else 64) + 32)))

def scanRct (version nInputs nOutputs : Nat) (b : Bytes) : Option Bytes :=
  if version = 2 then scanRctBase nInputs nOutputs b else some b

def getTransactionUnprunableSummary (blob : Bytes) : Option UnprunableSummary :=
  ((varint 64).read blob).bind fun version =>
    if version.1 < 1 ∨ version.1 > 2 then none
    else ((varint 64).read version.2).bind fun unlockTime =>
      ((varint 64).read unlockTime.2).bind fun nInputs =>
        (scanInputs nInputs.1 false nInputs.2).bind fun inputs =>
          ((varint 64).read inputs.2).bind fun nOutputs =>
            (scanOutputs nOutputs.1 nOutputs.2).bind fun outputs =>
              ((varint 64).read outputs).bind fun extraLen =>
                if extraLen.1 > cryptonoteMaxTxSize then none
                else (scanSkip extraLen.1 extraLen.2).bind fun extra =>
                  (scanRct version.1 nInputs.1 nOutputs.1 extra).map fun unprunable =>
                    ⟨version.1, nInputs.1, nOutputs.1, extraLen.1, inputs.1,
                      blob.length - extra.length, blob.length - unprunable.length⟩

def pruneTransactionBlob (blob : Bytes) : Option Bytes :=
  (getTransactionUnprunableSummary blob).bind fun desc =>
    if desc.unprunableSize ≤ blob.length then some (blob.take desc.unprunableSize) else none

theorem scanSkip_of_advances {α : Type} {c : Codec α} {k : Nat} (hc : c.Advances k) {x : α}
    (h : c.read b = some (x, rest)) : scanSkip k b = some rest := by
  obtain ⟨hle, rfl⟩ := hc h
  rw [scanSkip, if_neg (not_lt.mpr hle)]

theorem scanVarints_read {xs : List UInt64} (h : (varint64.times n).read b = some (xs, rest)) :
    scanVarints n b = some rest := by
  induction n generalizing b xs with
  | zero =>
    obtain ⟨-, rfl⟩ := times_zero_read.mp h
    rfl
  | succ n ih =>
    obtain ⟨x, ys, mid, -, hx, hys⟩ := times_succ_read.mp h
    rw [scanVarints, varint64_read hx, bind_some]
    exact ih hys

theorem txInBranch_gen (h : (txInBranch 0xff).read b = some (input, rest)) :
    ∃ height, (varint 64).read b = some (height, rest) ∧ input.isGen = true := by
  obtain ⟨height, hread, rfl⟩ := embed_read.mp h
  exact ⟨_, varint64_read hread, rfl⟩

theorem scanInput_read (h : txIn.read b = some (input, rest))
    (hkind : input.isGen = true ∨ input.isToKey = true) :
    scanInput b = some (input.isGen, rest) := by
  cases b with
  | nil => cases h
  | cons tag b =>
    have hbranch : (txInBranch tag).read b = some (input, rest) := h
    have htag := ((txInBranch_lawful tag).fits hbranch).1.1
    cases input with
    | gen height =>
      obtain rfl : 0xff = tag := htag
      obtain ⟨value, hread, -⟩ := txInBranch_gen hbranch
      simp only [scanInput, byte, bind_some, if_true, hread, map_some, isGen]
    | toKey key =>
      obtain rfl : 0x02 = tag := htag
      obtain ⟨_, hkey, -⟩ := embed_read.mp hbranch
      obtain ⟨⟨amount, keyOffsets, kImage⟩, hfields, -⟩ := image_read.mp hkey
      obtain ⟨mid, hamount, hafter⟩ := seq_read.mp hfields
      obtain ⟨tail, hoffsets, himage⟩ := seq_read.mp hafter
      obtain ⟨offsets, hcount, -, -, helems⟩ := (container_read varint64_lawful).mp hoffsets
      have hne : (0x02 : UInt8) ≠ 0xff := by decide
      simp only [scanInput, byte, bind_some, if_neg hne, if_true, varint64_read hamount, hcount,
        scanVarints_read helems, scanSkip_of_advances key_advances himage, map_some, isGen]
    | toScript input => simp [isGen, isToKey] at hkind
    | toScriptHash input => simp [isGen, isToKey] at hkind

theorem scanInputs_read {vin : List TxIn} (h : (txIn.times n).read b = some (vin, rest))
    (hkind : ∀ input ∈ vin, input.isGen = true ∨ input.isToKey = true) (isCoinbase : Bool) :
    scanInputs n isCoinbase b = some (isCoinbase || vin.any isGen, rest) := by
  induction n generalizing b vin isCoinbase with
  | zero =>
    obtain ⟨rfl, rfl⟩ := times_zero_read.mp h
    rw [scanInputs, any_nil, Bool.or_false]
  | succ n ih =>
    obtain ⟨input, tail, mid, rfl, hinput, htail⟩ := times_succ_read.mp h
    obtain ⟨hfirst, hrest⟩ := forall_mem_cons.mp hkind
    rw [scanInputs, scanInput_read hinput hfirst, bind_some]
    rw [ih htail hrest, any_cons, Bool.or_assoc]

theorem scanOutput_read {out : TxOut} (h : txOut.read b = some (out, rest))
    (hkey : (getOutputPublicKey out).isSome = true) : scanOutput b = some rest := by
  obtain ⟨⟨amount, target⟩, hread, rfl⟩ := image_read.mp h
  obtain ⟨mid, hamount, htarget⟩ := seq_read.mp hread
  rw [scanOutput, varint64_read hamount, bind_some]
  cases target with
  | toKey k =>
    obtain ⟨tail, htag, hskip⟩ : ∃ tail, byte.read mid = some (0x02, tail) ∧ scanSkip 32 tail = some
      rest := by
      cases mid with
      | nil => cases htarget
      | cons tag mid =>
        have hbranch : (txOutTargetBranch tag).read mid = some (.toKey k, rest) := htarget
        obtain rfl : 0x02 = tag := ((txOutTargetBranch_lawful tag).fits hbranch).1.1
        obtain ⟨_, hread, -⟩ := embed_read.mp hbranch
        exact ⟨mid, rfl, scanSkip_of_advances key_advances hread⟩
    simp only [htag, bind_some, if_true, hskip]
  | toTaggedKey k viewTag =>
    obtain ⟨tail, htag, hskip⟩ : ∃ tail, byte.read mid = some (0x03, tail) ∧ scanSkip (32 + 1) tail
      = some rest := by
      cases mid with
      | nil => cases htarget
      | cons tag mid =>
        have hbranch : (txOutTargetBranch tag).read mid = some (.toTaggedKey k viewTag, rest) :=
          htarget
        obtain rfl : 0x03 = tag := ((txOutTargetBranch_lawful tag).fits hbranch).1.1
        have htagged : ((key.seq byte).embed TxOutTarget.toTaggedKey?
            (fun x => TxOutTarget.toTaggedKey x.1 x.2)).read mid =
              some (.toTaggedKey k viewTag, rest) := hbranch
        obtain ⟨_, hread, -⟩ := embed_read.mp htagged
        exact ⟨mid, rfl, scanSkip_of_advances (key_advances.seq byte_advances) hread⟩
    have hne : (0x03 : UInt8) ≠ 0x02 := by decide
    simp only [htag, bind_some, if_neg hne, if_true, hskip]
  | toScript script => cases hkey
  | toScriptHash hash => cases hkey

theorem scanOutputs_read {vout : List TxOut} (h : (txOut.times n).read b = some (vout, rest))
      (hkey : ∀ out ∈ vout, (getOutputPublicKey out).isSome = true) :
    scanOutputs n b = some rest := by
  induction n generalizing b vout with
  | zero =>
    obtain ⟨-, rfl⟩ := times_zero_read.mp h
    rfl
  | succ n ih =>
    obtain ⟨out, tail, mid, rfl, hout, htail⟩ := times_succ_read.mp h
    obtain ⟨hfirst, hrest⟩ := forall_mem_cons.mp hkey
    rw [scanOutputs, scanOutput_read hout hfirst, bind_some]
    exact ih htail hrest

theorem rctType_read (h : rctType.read b = some (type, rest)) :
    byte.read b = some (type.toByte, rest) := by
  obtain ⟨v, hread, rfl⟩ := image_read.mp h
  obtain ⟨hbyte, hknown⟩ := check_read.mp hread
  rw [of_decide_eq_true hknown]
  exact hbyte

theorem toByte_le_six (type : RctType) : ¬ type.toByte > 6 := by
  cases type <;> decide

theorem toByte_eq_zero : type.toByte = 0 ↔ type = .null := by
  cases type <;> decide

theorem toByte_eq_two : type.toByte = 2 ↔ type = .simple := by
  cases type <;> decide

theorem toByte_ge_four : type.toByte ≥ 4 ↔ type.compressedEcdh = true := by
  cases type <;> decide

theorem scanPseudoOuts_read {inputs : Nat} {xs : List Key}
    (h : (pseudoOutsBase type inputs).read b = some (xs, rest)) :
    scanPseudoOuts type.toByte inputs b = some rest := by
  have hskip := scanSkip_of_advances (pseudoOutsBase_advances type inputs) h
  unfold scanPseudoOuts
  split
  · rename_i htype
    rw [if_pos (toByte_eq_two.mp htype), mul_comm] at hskip
    exact hskip
  · rename_i htype
    rw [if_neg (fun hsimple => htype (toByte_eq_two.mpr hsimple))] at hskip
    exact hskip
variable {rest b : Bytes} {vin : List TxIn} {n : Nat}

structure TxSizes where
  prefixSize : Nat
  unprunableSize : Nat
deriving DecidableEq, Repr

def unsignedInt (n : Nat) : Nat := n % 2 ^ 32

def parsedSizes (stale : Nat) (blob : Bytes) : Option TxSizes :=
  (transactionPrefix.read blob).bind fun r =>
    if r.1.version = 1 then
      some ⟨unsignedInt (blob.length - r.2.length), unsignedInt (blob.length - r.2.length)⟩
    else if r.1.vin.isEmpty then some ⟨unsignedInt (blob.length - r.2.length), stale⟩
    else ((rctSigBase r.1.vin.length r.1.vout.length).read r.2).map fun s =>
      ⟨unsignedInt (blob.length - r.2.length), unsignedInt (blob.length - s.2.length)⟩

theorem parsedSizes_read {blob mid : Bytes} {p : TransactionPrefix} {s : RctSigBase}
    (hfront : transactionPrefix.read blob = some (p, mid))
    (hbase : (baseTail p).read mid = some (s, rest)) (hvin : p.vin ≠ []) (stale : Nat) :
    parsedSizes stale blob =
      some ⟨unsignedInt (blob.length - mid.length), unsignedInt (blob.length - rest.length)⟩ := by
  rw [parsedSizes, hfront, bind_some]
  unfold baseTail at hbase
  split at hbase
  · rename_i hone
    obtain ⟨-, rfl⟩ := Prod.mk.inj (some.inj hbase)
    rw [if_pos hone]
  · rename_i hone
    have hempty : ¬ p.vin.isEmpty = true := by rwa [List.isEmpty_iff]
    rw [if_neg hempty] at hbase
    rw [if_neg hone, if_neg hempty, hbase, map_some]

structure PrefixReads (p : TransactionPrefix) (blob rest : Bytes) where
  unlockTime : Bytes
  vinCount : Bytes
  vin : Bytes
  voutCount : Bytes
  vout : Bytes
  extraCount : Bytes
  extra : Bytes
  readVersion : (varint 64).read blob = some (p.version.toNat, unlockTime)
  readUnlockTime : (varint 64).read unlockTime = some (p.unlockTime.toNat, vinCount)
  readVinCount : (varint 64).read vinCount = some (p.vin.length, vin)
  readVin : (txIn.times p.vin.length).read vin = some (p.vin, voutCount)
  readVoutCount : (varint 64).read voutCount = some (p.vout.length, vout)
  readVout : (txOut.times p.vout.length).read vout = some (p.vout, extraCount)
  readExtraCount : (varint 64).read extraCount = some (p.extra.length, extra)
  readExtra : (byte.times p.extra.length).read extra = some (p.extra, rest)

theorem prefixReads {p : TransactionPrefix} {blob : Bytes}
    (h : transactionPrefix.read blob = some (p, rest)) : Nonempty (PrefixReads p blob rest) := by
  obtain ⟨⟨⟨⟨version, unlockTime⟩, vin, vout⟩, extra⟩, hread, rfl⟩ := image_read.mp h
  obtain ⟨b₆, hhead, hextra⟩ := seq_read.mp hread
  obtain ⟨b₂, hfront, hinout⟩ := seq_read.mp hhead
  obtain ⟨b₁, hversion, hunlock⟩ := seq_read.mp hfront
  obtain ⟨b₄, hvin, hvout⟩ := dep_read.mp hinout
  rw [vinField_eq] at hvin
  obtain ⟨b₃, hvinCount, -, -, hvin⟩ := (container_read txIn_lawful).mp (accept_read.mp hvin).1
  obtain ⟨b₅, hvoutCount, -, -, hvout⟩ := (container_read txOut_lawful).mp hvout
  obtain ⟨b₇, hextraCount, -, -, hextra⟩ := (container_read byte_lawful).mp hextra
  exact ⟨⟨b₁, b₂, b₃, b₄, b₅, b₆, b₇, varint64_read (check_read.mp hversion).1,
    varint64_read hunlock, hvinCount, hvin, hvoutCount, hvout, hextraCount, hextra⟩⟩

variable (h : vinAllowed vin = true)
include h

theorem vinKind :
    ∀ input ∈ vin, input.isGen = true ∨ input.isToKey = true := by
  intro input hinput
  rw [vinAllowed, or_eq_true] at h
  rcases h with hcoinbase | hkeyed
  · cases vin with
    | nil => cases hinput
    | cons first vin =>
      obtain ⟨hgen, rfl⟩ := isCoinbase_cons.mp hcoinbase
      obtain rfl := mem_singleton.mp hinput
      exact .inl hgen
  · rw [keyedFrom, and_eq_true, List.all_eq_true] at hkeyed
    exact .inr (hkeyed.1 input hinput)

theorem any_isGen : vin.any isGen = isCoinbase vin := by
  cases vin with
  | nil => rfl
  | cons first vin =>
    rw [Bool.eq_iff_iff, isCoinbase_cons, List.any_eq_true]
    constructor
    · rintro ⟨input, hinput, hgen⟩
      rw [vinAllowed, or_eq_true, isCoinbase_cons] at h
      rcases h with hcoinbase | hkeyed
      · exact hcoinbase
      · rw [keyedFrom, and_eq_true, List.all_eq_true] at hkeyed
        have hkey := hkeyed.1 input hinput
        rw [isToKey_of_isGen hgen] at hkey
        cases hkey
    · rintro ⟨hgen, -⟩
      exact ⟨first, mem_cons_self, hgen⟩

theorem totalKeyOffsets_lt :
    totalKeyOffsets vin < maxTotalKeyOffsets := by
  rw [vinAllowed, or_eq_true] at h
  rcases h with hcoinbase | hkeyed
  · cases vin with
    | nil => decide
    | cons first vin =>
      obtain ⟨hgen, rfl⟩ := isCoinbase_cons.mp hcoinbase
      cases first with
      | gen height => exact (by decide : 0 < maxTotalKeyOffsets)
      | _ => cases hgen
  · rw [keyedFrom, and_eq_true, decide_eq_true_eq, zero_add] at hkeyed
    exact hkeyed.2

omit h

theorem txInToKey_spends :
    txInToKey.Spends (fun i => 10 + ((10 + (i.keyOffsets.map fun _ => 10).sum) + 32)) :=
  (varint64_spends.seq ((container_spends varint64_lawful varint64_spends _).seq
    key_advances.spends)).image (fun _ => rfl)

theorem txIn_spends {input : TxIn} (h : txIn.read b = some (input, rest))
    (hkind : input.isGen = true ∨ input.isToKey = true) :
    b.length ≤ rest.length + (53 + 10 * input.signatureSize) := by
  cases b with
  | nil => cases h
  | cons tag b =>
    have hbranch : (txInBranch tag).read b = some (input, rest) := h
    have htag := ((txInBranch_lawful tag).fits hbranch).1.1
    rw [length_cons]
    cases input with
    | gen height =>
      obtain rfl : 0xff = tag := htag
      obtain ⟨value, hread, -⟩ := txInBranch_gen hbranch
      have hspend := varint_spends hread
      beta_reduce at hspend
      omega
    | toKey key =>
      obtain rfl : 0x02 = tag := htag
      obtain ⟨key', hread, heq⟩ := embed_read.mp hbranch
      obtain rfl := toKey.inj heq
      have hspend := txInToKey_spends hread
      simp only [map_const', sum_replicate, smul_eq_mul] at hspend
      rw [signatureSize]
      omega
    | toScript input => simp [isGen, isToKey] at hkind
    | toScriptHash input => simp [isGen, isToKey] at hkind

theorem vin_spends (h : (txIn.times n).read b = some (vin, rest))
    (hkind : ∀ input ∈ vin, input.isGen = true ∨ input.isToKey = true) :
    b.length ≤ rest.length + (53 * n + 10 * totalKeyOffsets vin) := by
  induction n generalizing b vin with
  | zero =>
    obtain ⟨rfl, rfl⟩ := times_zero_read.mp h
    exact Nat.le_add_right _ _
  | succ n ih =>
    obtain ⟨input, tail, mid, rfl, hinput, htail⟩ := times_succ_read.mp h
    obtain ⟨hfirst, hrest⟩ := forall_mem_cons.mp hkind
    have hhead := txIn_spends hinput hfirst
    have hmore := ih htail hrest
    rw [totalKeyOffsets_cons]
    omega

theorem scanSkip_spends (h : scanSkip n b = some rest) : b.length = rest.length + n := by
  unfold scanSkip at h
  split at h
  · cases h
  · obtain rfl := some.inj h
    rw [length_drop]
    omega

theorem scanOutput_spends (h : scanOutput b = some rest) : b.length ≤ rest.length + 44 := by
  simp only [scanOutput, bind_eq_some_iff] at h
  obtain ⟨⟨amount, b₁⟩, hamount, ⟨tag, b₂⟩, htag, h⟩ := h
  have hfirst := varint_spends hamount
  have hsecond := byte_advances.spends htag
  dsimp only at h hfirst hsecond htag
  split at h
  · have hskip := scanSkip_spends h
    omega
  split at h
  · have hskip := scanSkip_spends h
    omega
  · cases h

theorem scanOutputs_spends (h : scanOutputs n b = some rest) : b.length ≤ rest.length + 44 * n := by
  induction n generalizing b with
  | zero =>
    obtain rfl := some.inj h
    exact Nat.le_add_right _ _
  | succ n ih =>
    rw [scanOutputs, bind_eq_some_iff] at h
    obtain ⟨mid, hfirst, hrest⟩ := h
    have hhead := scanOutput_spends hfirst
    have hmore := ih hrest
    omega

theorem scanRctBase_spends {inputs outputs : Nat} (h : scanRctBase inputs outputs b = some rest) :
    b.length ≤ rest.length + (11 + 32 * inputs + 96 * outputs) := by
  simp only [scanRctBase, bind_eq_some_iff] at h
  obtain ⟨⟨type, b₁⟩, htype, h⟩ := h
  have hfirst := byte_advances.spends htype
  dsimp only at h hfirst
  split at h
  · cases h
  split at h
  · obtain rfl := some.inj h
    omega
  · rw [bind_eq_some_iff] at h
    obtain ⟨⟨fee, b₂⟩, hfee, h⟩ := h
    rw [bind_eq_some_iff] at h
    obtain ⟨b₃, hpseudo, hout⟩ := h
    have hsecond := varint_spends hfee
    have hthird : ((fee, b₂).2).length ≤ b₃.length + 32 * inputs := by
      unfold scanPseudoOuts at hpseudo
      split at hpseudo
      · exact (scanSkip_spends hpseudo).le
      · obtain rfl := some.inj hpseudo
        exact Nat.le_add_right _ _
    have hlast := scanSkip_spends hout
    dsimp only at hsecond hthird
    have hwidth : outputs * ((if type ≥ 4 then 8 else 64) + 32) ≤ 96 * outputs := by
      rw [mul_comm]
      refine Nat.mul_le_mul_right outputs ?_
      split <;> decide
    omega

end Jero.Serial
