import Jero.Serial.TxParts

namespace Jero.Serial
open Jero.Common Jero.Machine Option Codec
variable {b rest : Bytes} {input : TxIn} {total cnt n i : Nat} {vin : List TxIn}

def coinbaseVinCount : Nat := 1

def maxVinCount : Nat := cryptonoteMaxTxSize / 32

def maxNonCoinbaseVoutCount : Nat := cryptonoteMaxTxSize / 32

def maxCoinbaseVoutCount : Nat := 100000000 / 32

def currentTransactionVersion : UInt64 := 2

structure TransactionPrefix where
  version : UInt64
  unlockTime : UInt64
  vin : List TxIn
  vout : List TxOut
  extra : Bytes
deriving DecidableEq, Repr

def TxIn.isGen : TxIn → Bool
  | .gen _ => true
  | _ => false

def TxIn.isToKey : TxIn → Bool
  | .toKey _ => true
  | _ => false

def TxIn.signatureSize : TxIn → Nat
  | .toKey input => input.keyOffsets.length
  | _ => 0

def isCoinbase : List TxIn → Bool
  | [input] => input.isGen
  | _ => false

def deserializeVinFrom (cnt : Nat) : Nat → Nat → Nat → Bytes → Option (List TxIn × Bytes)
  | 0, _, _, b => some ([], b)
  | n + 1, i, totalKeyOffsets, b =>
    (txIn.read b).bind fun r =>
      if i = 0 ∧ r.1.isGen then if cnt > coinbaseVinCount then none else some ([r.1], r.2)
      else if r.1.isToKey then
        let next := wrap (totalKeyOffsets + r.1.signatureSize)
        if next < totalKeyOffsets then none
        else if next ≥ maxTotalKeyOffsets then none
        else (deserializeVinFrom cnt n (i + 1) next r.2).map fun s => (r.1 :: s.1, s.2)
      else none

def deserializeVin (b : Bytes) : Option (List TxIn × Bytes) :=
  ((varint 64).read b).bind fun r =>
    if r.2.length < r.1 then none
    else if r.1 > maxVinCount then none
    else deserializeVinFrom r.1 r.1 0 0 r.2

def vinField : Codec (List TxIn) where
  write := (vector txIn).write
  read := deserializeVin

def maxVoutCount (vin : List TxIn) : Nat :=
  if isCoinbase vin ∨ vin.isEmpty then maxCoinbaseVoutCount else maxNonCoinbaseVoutCount

def versionSupported (version : UInt64) : Bool :=
  !(version == 0 || decide (currentTransactionVersion < version))

def prefixHead : Codec ((UInt64 × UInt64) × List TxIn × List TxOut) :=
  ((varint64.check versionSupported).seq varint64).seq
    (vinField.dep fun vin => readCapped txOut (maxVoutCount vin))

def transactionPrefix : Codec TransactionPrefix :=
  (prefixHead.seq (vector byte)).image
    (fun p => (((p.version, p.unlockTime), p.vin, p.vout), p.extra))
    (fun x => ⟨x.1.1.1, x.1.1.2, x.1.2.1, x.1.2.2, x.2⟩)

def totalKeyOffsets (vin : List TxIn) : Nat := (vin.map TxIn.signatureSize).sum

def keyedFrom (total : Nat) (vin : List TxIn) : Bool :=
  vin.all TxIn.isToKey && decide (total + totalKeyOffsets vin < maxTotalKeyOffsets)

def vinAllowed (vin : List TxIn) : Bool := isCoinbase vin || keyedFrom 0 vin

theorem totalKeyOffsets_cons (input : TxIn) (vin : List TxIn) :
    totalKeyOffsets (input :: vin) = input.signatureSize + totalKeyOffsets vin := rfl

theorem keyedFrom_cons :
    keyedFrom total (input :: vin) = true ↔
      input.isToKey = true ∧ keyedFrom (total + input.signatureSize) vin = true := by
  rw [keyedFrom, keyedFrom, List.all_cons, totalKeyOffsets_cons, ← add_assoc, Bool.and_assoc,
    Bool.and_eq_true]

theorem keyedFrom_lt (h : keyedFrom total vin = true) : total < maxTotalKeyOffsets := by
  rw [keyedFrom, Bool.and_eq_true, decide_eq_true_eq] at h
  exact lt_of_le_of_lt (Nat.le_add_right _ _) h.2

theorem deserializeVinFrom_toKey {mid : Bytes} (hread : txIn.read b = some (input, mid))
    (hgen : ¬ (i = 0 ∧ input.isGen = true)) (hkey : input.isToKey = true)
    (hnext : total + input.signatureSize < maxTotalKeyOffsets) :
    deserializeVinFrom cnt (n + 1) i total b =
      (deserializeVinFrom cnt n (i + 1) (total + input.signatureSize) mid).map
        fun s => (input :: s.1, s.2) := by
  have hsmall : total + input.signatureSize < 2 ^ 64 := lt_trans hnext (by decide)
  rw [deserializeVinFrom, hread, bind_some]
  rw [if_neg hgen, if_pos hkey, wrap, Nat.mod_eq_of_lt hsmall, if_neg (by omega), if_neg (by omega)]

theorem deserializeVinFrom_inv (htotal : total < maxTotalKeyOffsets)
    (h : deserializeVinFrom cnt (n + 1) i total b = some (vin, rest)) :
    ∃ input mid, txIn.read b = some (input, mid) ∧
      ((i = 0 ∧ input.isGen = true ∧ cnt ≤ coinbaseVinCount ∧ vin = [input] ∧ rest = mid) ∨
        (input.isToKey = true ∧ total + input.signatureSize < maxTotalKeyOffsets ∧
          ∃ tail, vin = input :: tail ∧
            deserializeVinFrom cnt n (i + 1) (total + input.signatureSize) mid =
              some (tail, rest))) := by
  rw [deserializeVinFrom, bind_eq_some_iff] at h
  obtain ⟨⟨input, mid⟩, hread, h⟩ := h
  refine ⟨input, mid, hread, ?_⟩
  dsimp only at h
  split at h
  · rename_i hgen
    split at h
    · cases h
    · rename_i hcnt
      obtain ⟨rfl, rfl⟩ := Prod.mk.inj (some.inj h)
      exact .inl ⟨hgen.1, hgen.2, Nat.le_of_not_lt hcnt, rfl, rfl⟩
  · split at h
    · rename_i hkey
      have hsize : input.signatureSize ≤ maxTotalKeyOffsets := by
        have hfits := (txIn_lawful.fits hread).1
        cases input with
        | toKey input => exact hfits
        | _ => exact Nat.zero_le _
      have hsmall : total + input.signatureSize < 2 ^ 64 := by
        have hmax : maxTotalKeyOffsets + maxTotalKeyOffsets < 2 ^ 64 := by decide
        omega
      rw [wrap, Nat.mod_eq_of_lt hsmall] at h
      split at h
      · cases h
      split at h
      · cases h
      · rename_i hnext
        rw [map_eq_some_iff] at h
        obtain ⟨⟨tail, rest'⟩, htail, heq⟩ := h
        obtain ⟨rfl, rfl⟩ := Prod.mk.inj heq
        exact .inr ⟨hkey, Nat.lt_of_not_le hnext, tail, rfl, htail⟩
    · cases h

theorem deserializeVinFrom_later (hi : i ≠ 0) (htotal : total < maxTotalKeyOffsets) :
    deserializeVinFrom cnt n i total b = some (vin, rest) ↔
      (txIn.times n).read b = some (vin, rest) ∧ keyedFrom total vin = true := by
  induction n generalizing i total b vin with
  | zero =>
    rw [times_zero_read]
    constructor
    · intro h
      obtain ⟨rfl, rfl⟩ := Prod.mk.inj (some.inj h)
      exact ⟨⟨rfl, rfl⟩, decide_eq_true htotal⟩
    · rintro ⟨⟨rfl, rfl⟩, -⟩
      rfl
  | succ n ih =>
    rw [times_succ_read]
    constructor
    · intro h
      obtain ⟨input, mid, hread, hfirst | ⟨hkey, hnext, tail, rfl, htail⟩⟩ :=
        deserializeVinFrom_inv htotal h
      · exact absurd hfirst.1 hi
      · obtain ⟨hrest, hkeyed⟩ := (ih (Nat.succ_ne_zero i) hnext).mp htail
        exact ⟨⟨input, tail, mid, rfl, hread, hrest⟩, keyedFrom_cons.mpr ⟨hkey, hkeyed⟩⟩
    · rintro ⟨⟨input, tail, mid, rfl, hread, hrest⟩, hkeyed⟩
      obtain ⟨hkey, htail⟩ := keyedFrom_cons.mp hkeyed
      have hnext := keyedFrom_lt htail
      rw [deserializeVinFrom_toKey hread (fun h => hi h.1) hkey hnext,
        (ih (Nat.succ_ne_zero i) hnext).mpr ⟨hrest, htail⟩]
      rfl

theorem isToKey_of_isGen (h : input.isGen = true) : input.isToKey = false := by
  cases input with
  | gen height => rfl
  | _ => cases h

theorem isCoinbase_cons : isCoinbase (input :: vin) = true ↔ input.isGen = true ∧ vin = [] := by
  cases vin with
  | nil => exact ⟨fun h => ⟨h, rfl⟩, fun h => h.1⟩
  | cons second vin => simp [isCoinbase]

theorem deserializeVinFrom_start :
    deserializeVinFrom cnt cnt 0 0 b = some (vin, rest) ↔
      (txIn.times cnt).read b = some (vin, rest) ∧ vinAllowed vin = true := by
  have hzero : 0 < maxTotalKeyOffsets := by decide
  cases cnt with
  | zero =>
    rw [times_zero_read]
    constructor
    · intro h
      obtain ⟨rfl, rfl⟩ := Prod.mk.inj (some.inj h)
      exact ⟨⟨rfl, rfl⟩, by decide⟩
    · rintro ⟨⟨rfl, rfl⟩, -⟩
      rfl
  | succ n =>
    rw [times_succ_read, vinAllowed, Bool.or_eq_true]
    constructor
    · intro h
      obtain ⟨input, mid, hread, ⟨-, hgen, hcnt, rfl, rfl⟩ | ⟨hkey, hnext, tail, rfl, htail⟩⟩ :=
        deserializeVinFrom_inv hzero h
      · obtain rfl : n = 0 := Nat.le_zero.mp (Nat.le_of_succ_le_succ hcnt)
        exact ⟨⟨input, [], rest, rfl, hread, times_zero_read.mpr ⟨rfl, rfl⟩⟩, .inl hgen⟩
      · obtain ⟨hrest, hkeyed⟩ := (deserializeVinFrom_later (by decide) hnext).mp htail
        exact ⟨⟨input, tail, mid, rfl, hread, hrest⟩, .inr (keyedFrom_cons.mpr ⟨hkey, hkeyed⟩)⟩
    · rintro ⟨⟨input, tail, mid, rfl, hread, hrest⟩, hcoinbase | hkeyed⟩
      · obtain ⟨hgen, rfl⟩ := isCoinbase_cons.mp hcoinbase
        obtain rfl : 0 = n := ((txIn_lawful.times n).fits hrest).1.1
        obtain ⟨-, rfl⟩ := times_zero_read.mp hrest
        rw [deserializeVinFrom, hread, bind_some]
        rw [if_pos ⟨rfl, hgen⟩]
        rfl
      · obtain ⟨hkey, htail⟩ := keyedFrom_cons.mp hkeyed
        have hnext := keyedFrom_lt htail
        have hgen : ¬ (0 = 0 ∧ input.isGen = true) := by
          rintro ⟨-, hgen⟩
          rw [isToKey_of_isGen hgen] at hkey
          cases hkey
        rw [deserializeVinFrom_toKey hread hgen hkey hnext,
          (deserializeVinFrom_later (by decide) hnext).mpr ⟨hrest, htail⟩]
        rfl

theorem vinField_eq : vinField = (readCapped txIn maxVinCount).accept vinAllowed := by
  have hread : deserializeVin = ((readCapped txIn maxVinCount).accept vinAllowed).read := by
    funext b
    refine ext fun r => ?_
    rw [accept_read]
    refine Iff.trans ?_ (and_congr_left' (container_read txIn_lawful).symm)
    simp only [deserializeVin, bind_eq_some_iff]
    constructor
    · rintro ⟨⟨cnt, mid⟩, hcnt, h⟩
      dsimp only at h
      split at h
      · cases h
      split at h
      · cases h
      obtain ⟨hread, hallowed⟩ := deserializeVinFrom_start.mp h
      obtain rfl : r.1.length = cnt := ((txIn_lawful.times cnt).fits hread).1.1
      exact ⟨⟨mid, hcnt, by omega, by omega, hread⟩, hallowed⟩
    · rintro ⟨⟨mid, hcnt, hmax, hmid, hread⟩, hallowed⟩
      refine ⟨(r.1.length, mid), hcnt, ?_⟩
      dsimp only
      rw [if_neg (by omega), if_neg (by omega)]
      exact deserializeVinFrom_start.mpr ⟨hread, hallowed⟩
  rw [vinField, hread]
  rfl

structure VinReadable (vin : List TxIn) : Prop where
  count : vin.length ≤ maxVinCount
  fits : ∀ input ∈ vin, input.Fits
  allowed : vinAllowed vin = true

theorem vinField_lawful : vinField.Lawful VinReadable id := by
  rw [vinField_eq]
  refine ((readCapped_lawful txIn_lawful txIn_minWidth maxVinCount).accept
    (fun vin => congrArg vinAllowed (List.map_id vin))).weaken ?_
    (fun vin _ => (List.map_id vin).symm)
  intro vin
  constructor
  · intro h
    exact ⟨⟨h.count, lt_of_le_of_lt h.count (by decide), h.fits⟩, h.allowed⟩
  · rintro ⟨⟨hcount, -, hfits⟩, hallowed⟩
    exact ⟨hcount, hfits, hallowed⟩

theorem maxVoutCount_le (vin : List TxIn) : maxVoutCount vin ≤ maxCoinbaseVoutCount := by
  unfold maxVoutCount
  split
  · exact le_rfl
  · decide

theorem voutField_lawful (vin : List TxIn) :
    (readCapped txOut (maxVoutCount vin)).Lawful
      (fun vout => vout.length ≤ maxVoutCount vin ∧ ∀ out ∈ vout, out.target.Fits) id := by
  refine (readCapped_lawful txOut_lawful txOut_minWidth _).weaken ?_
    (fun vout _ => (List.map_id vout).symm)
  intro vout
  refine ⟨fun h => ⟨h.1, ?_, h.2⟩, fun h => ⟨h.1, h.2.2⟩⟩
  exact lt_of_le_of_lt (h.1.trans (maxVoutCount_le vin)) (by decide)

structure TransactionPrefix.Readable (p : TransactionPrefix) : Prop where
  version : versionSupported p.version = true
  vin : VinReadable p.vin
  voutCount : p.vout.length ≤ maxVoutCount p.vin
  vout : ∀ out ∈ p.vout, out.target.Fits
  extra : p.extra.length < 2 ^ 64

theorem prefixHead_lawful :
    prefixHead.Lawful
      (fun x => (versionSupported x.1.1 = true ∧ VinReadable x.2.1) ∧
        x.2.2.length ≤ maxVoutCount x.2.1 ∧ ∀ out ∈ x.2.2, out.target.Fits) id := by
  have hversion := varint64_lawful.check (fun version => (rfl : versionSupported (id version) = _))
  refine ((hversion.seq varint64_lawful).seq
    (vinField_lawful.dep (fun vin _ => voutField_lawful vin) (fun _ => rfl))).weaken ?_
    (fun _ _ => rfl)
  intro x
  constructor
  · rintro ⟨⟨hv, hvin⟩, hvout⟩
    exact ⟨⟨⟨trivial, hv⟩, trivial⟩, hvin, hvout⟩
  · rintro ⟨⟨⟨-, hv⟩, -⟩, hvin, hvout⟩
    exact ⟨⟨hv, hvin⟩, hvout⟩

theorem transactionPrefix_lawful : transactionPrefix.Lawful TransactionPrefix.Readable id := by
  refine ((prefixHead_lawful.seq bytes_lawful).image (fun _ _ => rfl)).weaken ?_ (fun _ _ => rfl)
  intro p
  constructor
  · intro h
    exact ⟨⟨⟨h.version, h.vin⟩, h.voutCount, h.vout⟩, h.extra⟩
  · rintro ⟨⟨⟨hversion, hvin⟩, hcount, hvout⟩, hextra⟩
    exact ⟨hversion, hvin, hcount, hvout, hextra⟩

theorem transactionPrefix_write {p : TransactionPrefix} {w : Bytes} :
    transactionPrefix.write p = some w ↔
      ∃ head tail, prefixHead.write ((p.version, p.unlockTime), p.vin, p.vout) = some head ∧
        (vector byte).write p.extra = some tail ∧ w = head ++ tail := by
  rw [transactionPrefix, image_write]
  exact seq_write

theorem transactionPrefix_cut {p : TransactionPrefix}
    (h : transactionPrefix.read b = some (p, rest)) :
    (∃ w, transactionPrefix.write p = some w ∧ b = w ++ rest) ∨
      (p.extra = [] ∧ rest = [] ∧ ∃ head cut, b = head ++ cut ∧ cut ≠ [] ∧ Unterminated cut ∧
        transactionPrefix.write p = some (head ++ [0])) := by
  obtain ⟨⟨fields, extra⟩, hread, rfl⟩ := image_read.mp h
  obtain ⟨mid, hhead, hextra⟩ := dep_read.mp hread
  have hmid : mid ≠ [] := by
    rintro rfl
    rw [vector, container_read_nil] at hextra
    cases hextra
  obtain ⟨head, hwhead, rfl⟩ := prefixHead_lawful.exact_of_rest hhead hmid
  rcases container_cut byte_lawful byte_exact hextra with ⟨w, hw, rfl⟩ | ⟨rfl, rfl, hne, hopen⟩
  · exact .inl ⟨head ++ w, transactionPrefix_write.mpr ⟨head, w, hwhead, hw, rfl⟩,
      (List.append_assoc _ _ _).symm⟩
  · exact .inr ⟨rfl, rfl, head, mid, rfl, hne, hopen,
      transactionPrefix_write.mpr ⟨head, [0], hwhead, rfl, rfl⟩⟩

end Jero.Serial
