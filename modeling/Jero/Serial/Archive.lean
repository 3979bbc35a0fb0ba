import Jero.Serial.Combinators
import Jero.Common.Varint
import Jero.Machine.Bytes

namespace Jero.Serial
open Jero.Common Jero.Machine List Option Codec

def varint (bits : Nat) : Codec Nat where
  write v := some (writeVarint v)
  read b := match readVarint bits b with
    | .error _ => none
    | .ok r => if 1 ≤ r.read then some (r.write, r.rest) else none

variable {rest b : Bytes} {bits v : Nat}

theorem varint_read_inv (h : (varint bits).read b = some (v, rest)) :
    v < 2 ^ bits ∧ (b = writeVarint v ++ rest ∨ (b ≠ [] ∧ Unterminated b ∧ rest = [])) := by
  simp only [varint] at h
  split at h
  · cases h
  rename_i r hr
  split at h
  · rename_i hread
    obtain ⟨rfl, rfl⟩ := Prod.mk.inj (some.inj h)
    obtain ⟨hbound, hexact⟩ := readVarint_exact hr
    refine ⟨hbound, ?_⟩
    rcases hexact with ⟨hb, -⟩ | ⟨hopen, hrest, hlen⟩
    · exact .inl hb
    · refine .inr ⟨?_, hopen, hrest⟩
      rintro rfl
      rw [hlen] at hread
      exact absurd hread (by decide)
  · cases h

theorem varint_read_write (hv : v < 2 ^ bits) (rest : Bytes) :
    (varint bits).read (writeVarint v ++ rest) = some (v, rest) := by
  have hpos : 1 ≤ (writeVarint v).length := length_pos_of_ne_nil (writeVarint_ne_nil v)
  simp only [varint, readVarint_write hv, if_pos hpos]

theorem varint_read_nil (bits : Nat) : (varint bits).read [] = none := rfl

theorem varint_lawful (bits : Nat) : (varint bits).Lawful (fun v => v < 2 ^ bits) id := by
  refine ⟨?_, ?_, ?_, ?_⟩
  · intro v hv
    exact ⟨writeVarint v, rfl, varint_read_write hv⟩
  · intro b v rest h
    exact ⟨(varint_read_inv h).1, rfl⟩
  · intro b v y ys h
    rcases (varint_read_inv h).2 with hb | ⟨-, -, hnil⟩
    · exact ⟨writeVarint v, rfl, hb⟩
    · cases hnil
  · intro v rest h
    rw [varint_read_nil] at h
    cases h

theorem varint_minWidth (bits : Nat) : (varint bits).MinWidth 1 := by
  intro v w h
  obtain rfl := some.inj h
  exact length_pos_of_ne_nil (writeVarint_ne_nil v)

def varint64 : Codec UInt64 := (varint 64).image UInt64.toNat UInt64.ofNat

def varint32 : Codec UInt32 := (varint 32).image UInt32.toNat UInt32.ofNat

def varint8 : Codec UInt8 := (varint 8).image UInt8.toNat UInt8.ofNat

theorem word_lawful {α : Type} {toNat : α → Nat} {ofNat : Nat → α} (hlt : ∀ v, toNat v < 2 ^ bits)
    (hto : ∀ v < 2 ^ bits, toNat (ofNat v) = v) (hof : ∀ v, ofNat (toNat v) = v) :
    ((varint bits).image toNat ofNat).Lawful (fun _ => True) id :=
  ((varint_lawful bits).image hto).weaken (fun v => ⟨fun _ => hlt v, fun _ => trivial⟩)
    (fun v _ => (hof v).symm)

theorem varint64_lawful : varint64.Lawful (fun _ => True) id :=
  word_lawful UInt64.toNat_lt (fun _ h => UInt64.toNat_ofNat_of_lt' h) (fun _ => UInt64.ofNat_toNat)

theorem varint32_lawful : varint32.Lawful (fun _ => True) id :=
  word_lawful UInt32.toNat_lt (fun _ h => UInt32.toNat_ofNat_of_lt' h) (fun _ => UInt32.ofNat_toNat)

theorem varint8_lawful : varint8.Lawful (fun _ => True) id :=
  word_lawful UInt8.toNat_lt (fun _ h => UInt8.toNat_ofNat_of_lt' h) (fun _ => UInt8.ofNat_toNat)

theorem varint64_minWidth : varint64.MinWidth 1 := image_minWidth (varint_minWidth 64)

def byte : Codec UInt8 where
  write v := some [v]
  read
    | [] => none
    | v :: b => some (v, b)

theorem byte_exact : byte.Exact := by
  intro b v rest h
  cases b with
  | nil => cases h
  | cons x b =>
    obtain ⟨rfl, rfl⟩ := Prod.mk.inj (some.inj h)
    exact ⟨[x], rfl, rfl⟩

theorem byte_lawful : byte.Lawful (fun _ => True) id :=
  byte_exact.lawful (fun v _ => ⟨[v], rfl, fun _ => rfl⟩) (fun _ _ _ _ => ⟨trivial, rfl⟩)

theorem byte_minWidth : byte.MinWidth 1 := by
  intro v w h
  obtain rfl := some.inj h
  exact le_rfl

def Blob (n : Nat) : Type := { bytes : Bytes // bytes.length = n }
deriving DecidableEq, Repr

def Blob.zero (n : Nat) : Blob n := ⟨List.replicate n 0, List.length_replicate⟩

def blob (n : Nat) : Codec (Blob n) where
  write v := some v.val
  read b := if h : n ≤ b.length then some (⟨b.take n, List.length_take_of_le h⟩, b.drop n) else none

theorem blob_exact (n : Nat) : (blob n).Exact := by
  intro b v rest h
  simp only [blob] at h
  split at h
  · obtain ⟨rfl, rfl⟩ := Prod.mk.inj (some.inj h)
    exact ⟨b.take n, rfl, (take_append_drop n b).symm⟩
  · cases h

theorem blob_lawful (n : Nat) : (blob n).Lawful (fun _ => True) id := by
  refine (blob_exact n).lawful ?_ (fun _ _ _ _ => ⟨trivial, rfl⟩)
  rintro ⟨bytes, rfl⟩ -
  refine ⟨bytes, rfl, fun rest => ?_⟩
  have hle : bytes.length ≤ (bytes ++ rest).length := by simp
  simp only [blob, dif_pos hle, take_left, drop_left, id]

theorem blob_minWidth (n : Nat) : (blob n).MinWidth n := by
  intro v w h
  obtain rfl := some.inj h
  exact v.property.ge

theorem blob_read_nil (n : Nat) : (blob (n + 1)).read [] = none := rfl

def littleEndianBytes : Nat → Nat → Bytes
  | 0, _ => []
  | n + 1, v => UInt8.ofNat (v % 256) :: littleEndianBytes n (v / 256)

theorem length_littleEndianBytes (n v : Nat) : (littleEndianBytes n v).length = n := by
  induction n generalizing v with
  | zero => rfl
  | succ n ih => rw [littleEndianBytes, length_cons, ih]

theorem littleEndian_littleEndianBytes {n : Nat} (h : v < 256 ^ n) :
    littleEndian (littleEndianBytes n v) = v := by
  induction n generalizing v with
  | zero =>
    rw [pow_zero, Nat.lt_one_iff] at h
    exact h.symm
  | succ n ih =>
    have hdiv : v / 256 < 256 ^ n := by
      rw [pow_succ] at h
      omega
    rw [littleEndianBytes, littleEndian, ih hdiv, toNat_ofNat_of_lt (by omega)]
    omega

theorem littleEndianBytes_littleEndian (bytes : Bytes) :
    littleEndianBytes bytes.length (littleEndian bytes) = bytes := by
  induction bytes with
  | nil => rfl
  | cons x bytes ih =>
    have hx := x.toNat_lt
    have hmod : (x.toNat + 256 * littleEndian bytes) % 256 = x.toNat := by omega
    have hdiv : (x.toNat + 256 * littleEndian bytes) / 256 = littleEndian bytes := by omega
    rw [length_cons, littleEndianBytes, littleEndian, hmod, hdiv, ih, UInt8.ofNat_toNat]

def uint32 : Codec UInt32 :=
  (blob 4).image (fun v => ⟨littleEndianBytes 4 v.toNat, length_littleEndianBytes 4 v.toNat⟩)
    (fun bytes => UInt32.ofNat (littleEndian bytes.val))

theorem uint32_bytes (bytes : Blob 4) :
    littleEndianBytes 4 (UInt32.ofNat (littleEndian bytes.val)).toNat = bytes.val := by
  have hlt := littleEndian_lt bytes.val
  rw [bytes.property] at hlt
  have hback := littleEndianBytes_littleEndian bytes.val
  rw [bytes.property] at hback
  rw [UInt32.toNat_ofNat', Nat.mod_eq_of_lt (by simpa using hlt), hback]

theorem uint32_lawful : uint32.Lawful (fun _ => True) id := by
  refine ((blob_lawful 4).image (fun bytes _ => Subtype.ext (uint32_bytes bytes))).weaken
    (fun _ => Iff.rfl) ?_
  intro v _
  have hlt : v.toNat < 256 ^ 4 := v.toNat_lt
  simp only [id, littleEndian_littleEndianBytes hlt, UInt32.ofNat_toNat]

variable {α : Type}

def customVector (c : Codec α) (size minSize : Nat) : Codec (List α) :=
  (c.times size).precheck fun b => !(decide (size ≠ 0) && decide (b.length / size < minSize))

variable {F : α → Prop} {n : α → α} {xs : List α}
section
variable {c : Codec α}

theorem customVector_exact (hc : c.Exact) (size minSize : Nat) :
    (customVector c size minSize).Exact :=
  precheck_exact (times_exact hc size)

theorem customVector_lawful (hc : c.Lawful F n) (size : Nat) {minSize : Nat}
    (hwidth : c.MinWidth minSize) :
    (customVector c size minSize).Lawful (fun xs => xs.length = size ∧ ∀ x ∈ xs, F x)
      (List.map n) := by
  refine (hc.times size).precheck ?_
  intro xs w rest hw
  have hlen := times_minWidth hwidth size hw
  rw [Bool.not_eq_true', Bool.and_eq_false_iff, decide_eq_false_iff_not, decide_eq_false_iff_not,
    not_not]
  rcases eq_zero_or_pos size with hzero | hpos
  · exact .inl hzero
  · refine .inr ?_
    rw [Nat.not_lt, Nat.le_div_iff_mul_le hpos, length_append, Nat.mul_comm]
    omega

theorem customVector_minWidth {k : Nat} (hc : c.MinWidth k) (size minSize : Nat) :
    (customVector c size minSize).MinWidth (size * k) :=
  times_minWidth hc size

theorem customVector_read_nil (h : c.read [] = none) {size : Nat} (hsize : size ≠ 0)
    (minSize : Nat) : (customVector c size minSize).read [] = none := by
  obtain ⟨k, rfl⟩ := Nat.exists_eq_succ_of_ne_zero hsize
  exact precheck_read_nil (each_read_nil h)

end

def container (c : Codec α) (maxCnt : Nat) : Codec (List α) where
  write xs :=
    if xs.length > maxCnt then none
    else ((c.times xs.length).write xs).map fun w => writeVarint xs.length ++ w
  read b := ((varint 64).read b).bind fun r =>
    if maxCnt < r.1 ∨ r.2.length < r.1 then none else (c.times r.1).read r.2

section
variable {c : Codec α} {maxCnt : Nat}

theorem container_write {w : Bytes} :
    (container c maxCnt).write xs = some w ↔
      xs.length ≤ maxCnt ∧ ∃ v, (c.times xs.length).write xs = some v ∧
        w = writeVarint xs.length ++ v := by
  simp only [container]
  split
  · rename_i hbig
    constructor
    · intro h
      cases h
    · rintro ⟨hle, -⟩
      omega
  · rename_i hle
    rw [map_eq_some_iff]
    constructor
    · rintro ⟨v, hv, rfl⟩
      exact ⟨Nat.le_of_not_lt hle, v, hv, rfl⟩
    · rintro ⟨-, v, hv, rfl⟩
      exact ⟨v, hv, rfl⟩

theorem container_read (hc : c.Lawful F n) :
    (container c maxCnt).read b = some (xs, rest) ↔
      ∃ mid, (varint 64).read b = some (xs.length, mid) ∧ xs.length ≤ maxCnt ∧
        xs.length ≤ mid.length ∧ (c.times xs.length).read mid = some (xs, rest) := by
  simp only [container, bind_eq_some_iff]
  constructor
  · rintro ⟨⟨cnt, mid⟩, hcnt, h⟩
    split at h
    · cases h
    · rename_i hsane
      rw [not_or, not_lt, not_lt] at hsane
      obtain rfl : xs.length = cnt := ((hc.times cnt).fits h).1.1
      exact ⟨mid, hcnt, hsane.1, hsane.2, h⟩
  · rintro ⟨mid, hcnt, hmax, hmid, h⟩
    refine ⟨(xs.length, mid), hcnt, ?_⟩
    have hsane : ¬ (maxCnt < xs.length ∨ mid.length < xs.length) := by omega
    simp only [if_neg hsane, h]

theorem container_lawful (hc : c.Lawful F n) (hwidth : c.MinWidth 1) (maxCnt : Nat) :
    (container c maxCnt).Lawful
      (fun xs => xs.length ≤ maxCnt ∧ xs.length < 2 ^ 64 ∧ ∀ x ∈ xs, F x) (List.map n) := by
  refine ⟨?_, ?_, ?_, ?_⟩
  · rintro xs ⟨hmax, hsize, hxs⟩
    obtain ⟨v, hv, hread⟩ := (hc.times xs.length).restore xs ⟨rfl, hxs⟩
    refine ⟨writeVarint xs.length ++ v, container_write.mpr ⟨hmax, v, hv, rfl⟩, fun rest => ?_⟩
    have hlen := times_minWidth hwidth xs.length hv
    refine (container_read hc).mpr ⟨v ++ rest, ?_, ?_, ?_, ?_⟩
    · rw [length_map, append_assoc]
      exact varint_read_write hsize _
    · rwa [length_map]
    · rw [length_map, length_append]
      omega
    · rw [length_map]
      exact hread rest
  · intro b xs rest h
    obtain ⟨mid, hcnt, hmax, -, hread⟩ := (container_read hc).mp h
    obtain ⟨⟨-, hxs⟩, hnorm⟩ := (hc.times xs.length).fits hread
    exact ⟨⟨hmax, (varint_read_inv hcnt).1, hxs⟩, hnorm⟩
  · intro b xs y ys h
    obtain ⟨mid, hcnt, hmax, -, hread⟩ := (container_read hc).mp h
    obtain ⟨v, hv, rfl⟩ := (hc.times xs.length).more hread
    obtain ⟨u, hu, rfl⟩ := (varint_lawful 64).exact_of_rest hcnt (by simp)
    obtain rfl := some.inj hu
    exact ⟨_, container_write.mpr ⟨hmax, v, hv, rfl⟩, (append_assoc _ _ _).symm⟩
  · intro xs rest h
    obtain ⟨mid, hcnt, -⟩ := (container_read hc).mp h
    rw [varint_read_nil] at hcnt
    cases hcnt

theorem container_cut (hc : c.Lawful F n) (hexact : c.Exact)
    (h : (container c maxCnt).read b = some (xs, rest)) :
    (∃ w, (container c maxCnt).write xs = some w ∧ b = w ++ rest) ∨
      (xs = [] ∧ rest = [] ∧ b ≠ [] ∧ Unterminated b) := by
  obtain ⟨mid, hcnt, hmax, hmid, hread⟩ := (container_read hc).mp h
  obtain ⟨v, hv, rfl⟩ := times_exact hexact xs.length hread
  rcases (varint_read_inv hcnt).2 with rfl | ⟨hne, hopen, hnil⟩
  · exact .inl ⟨_, container_write.mpr ⟨hmax, v, hv, rfl⟩, (append_assoc _ _ _).symm⟩
  · obtain ⟨rfl, rfl⟩ := append_eq_nil_iff.mp hnil
    exact .inr ⟨length_eq_zero_iff.mp (Nat.le_zero.mp hmid), rfl, hne, hopen⟩

theorem container_minWidth (c : Codec α) (maxCnt : Nat) : (container c maxCnt).MinWidth 1 := by
  intro xs w h
  obtain ⟨-, v, -, rfl⟩ := container_write.mp h
  have hpos := length_pos_of_ne_nil (writeVarint_ne_nil xs.length)
  rw [length_append]
  omega

theorem container_read_nil (c : Codec α) (maxCnt : Nat) : (container c maxCnt).read [] = none := rfl

end

def sizeMax : Nat := 2 ^ 64 - 1

def vector (c : Codec α) : Codec (List α) := container c sizeMax

variable {c : Codec α}

theorem vector_lawful (hc : c.Lawful F n) (hwidth : c.MinWidth 1) :
    (vector c).Lawful (fun xs => xs.length < 2 ^ 64 ∧ ∀ x ∈ xs, F x) (List.map n) := by
  refine (container_lawful hc hwidth sizeMax).weaken ?_ (fun _ _ => rfl)
  intro xs
  refine ⟨fun h => ⟨Nat.le_pred_of_lt h.1, h⟩, fun h => h.2⟩

theorem vector_lawful_id (hc : c.Lawful (fun _ => True) id) (hwidth : c.MinWidth 1) :
    (vector c).Lawful (fun xs => xs.length < 2 ^ 64) id := by
  refine (vector_lawful hc hwidth).weaken ?_ (fun xs _ => (List.map_id xs).symm)
  intro xs
  exact ⟨fun h => ⟨h, fun _ _ => trivial⟩, fun h => h.1⟩

def readCapped (c : Codec α) (maxCnt : Nat) : Codec (List α) where
  write := (vector c).write
  read := (container c maxCnt).read

theorem vector_write_of_container {maxCnt : Nat} {w : Bytes}
    (hsize : xs.length < 2 ^ 64) (h : (container c maxCnt).write xs = some w) :
    (vector c).write xs = some w :=
  container_write.mpr ⟨Nat.le_pred_of_lt hsize, (container_write.mp h).2⟩

theorem readCapped_lawful (hc : c.Lawful F n) (hwidth : c.MinWidth 1) (maxCnt : Nat) :
    (readCapped c maxCnt).Lawful
      (fun xs => xs.length ≤ maxCnt ∧ xs.length < 2 ^ 64 ∧ ∀ x ∈ xs, F x) (List.map n) := by
  have hlaw := container_lawful hc hwidth maxCnt
  refine ⟨?_, hlaw.fits, ?_, ?_⟩
  · intro xs hxs
    obtain ⟨w, hw, hread⟩ := hlaw.restore xs hxs
    exact ⟨w, vector_write_of_container hxs.2.1 hw, hread⟩
  · intro b xs y ys h
    obtain ⟨w, hw, hb⟩ := hlaw.more h
    exact ⟨w, vector_write_of_container (hlaw.fits h).1.2.1 hw, hb⟩
  · intro xs rest h
    have hread : (container c maxCnt).read [] = some (xs, rest) := h
    rw [container_read_nil] at hread
    cases hread

end Jero.Serial
