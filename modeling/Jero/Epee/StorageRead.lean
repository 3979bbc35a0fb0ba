import Jero.Epee.PortableStorage

namespace Jero.Epee
open Jero.Machine Jero.Common List Except Settles PodType Serial
variable {type : PodType} {n k mark : Nat} {w v : Bytes}
namespace PodType

theorem bits_lt (type : PodType) (v : type.Value) : type.bits v < 256 ^ type.size := by
  cases type with
  | int64 => exact UInt64.toNat_lt _
  | int32 => exact UInt32.toNat_lt _
  | int16 => exact UInt16.toNat_lt _
  | int8 => exact UInt8.toNat_lt _
  | uint64 => exact UInt64.toNat_lt _
  | uint32 => exact UInt32.toNat_lt _
  | uint16 => exact UInt16.toNat_lt _
  | uint8 => exact UInt8.toNat_lt _
  | double => exact UInt64.toNat_lt _
  | bool => exact lt_of_le_of_lt (Bool.toNat_le v) (by decide)

theorem ofBits_bits (type : PodType) (v : type.Value) : type.ofBits (type.bits v) = v := by
  cases type with
  | int64 =>
    simp only [ofBits, bits, UInt64.ofNat_toNat]
    rfl
  | int32 =>
    simp only [ofBits, bits, UInt32.ofNat_toNat]
    rfl
  | int16 =>
    simp only [ofBits, bits, UInt16.ofNat_toNat]
    rfl
  | int8 =>
    simp only [ofBits, bits, UInt8.ofNat_toNat]
    rfl
  | uint64 => exact UInt64.ofNat_toNat
  | uint32 => exact UInt32.ofNat_toNat
  | uint16 => exact UInt16.ofNat_toNat
  | uint8 => exact UInt8.ofNat_toNat
  | double => exact UInt64.ofNat_toNat
  | bool => cases v <;> rfl

theorem bits_ofBits_of_ne_bool (htype : type ≠ bool) (hn : n < 256 ^ type.size) :
    type.bits (type.ofBits n) = n := by
  cases type with
  | int64 => exact UInt64.toNat_ofNat_of_lt' hn
  | int32 => exact UInt32.toNat_ofNat_of_lt' hn
  | int16 => exact UInt16.toNat_ofNat_of_lt' hn
  | int8 => exact UInt8.toNat_ofNat_of_lt' hn
  | uint64 => exact UInt64.toNat_ofNat_of_lt' hn
  | uint32 => exact UInt32.toNat_ofNat_of_lt' hn
  | uint16 => exact UInt16.toNat_ofNat_of_lt' hn
  | uint8 => exact UInt8.toNat_ofNat_of_lt' hn
  | double => exact UInt64.toNat_ofNat_of_lt' hn
  | bool => exact absurd rfl htype

theorem length_pack (type : PodType) (v : type.Value) : (type.pack v).length = type.size :=
  length_littleEndianBytes _ _

theorem littleEndian_pack (type : PodType) (v : type.Value) :
    littleEndian (type.pack v) = type.bits v :=
  littleEndian_littleEndianBytes (type.bits_lt v)

theorem ofCode_code (type : PodType) : ofCode type.code = some type := by
  cases type <;> rfl

end PodType

structure Tally where
  objects : Nat
  fields : Nat
  strings : Nat
deriving DecidableEq, Repr

namespace Tally

def zero : Tally := ⟨0, 0, 0⟩

def add (a b : Tally) : Tally := ⟨a.objects + b.objects, a.fields + b.fields, a.strings + b.strings⟩

end Tally
namespace BufferReader

def after (st : BufferReader) (t : Tally) (rest : Bytes) : BufferReader :=
  { st with
    bytes := rest
    objects := st.objects + t.objects
    fields := st.fields + t.fields
    strings := st.strings + t.strings }

def withBytes (st : BufferReader) (b : Bytes) : BufferReader := { st with bytes := b }

structure Affords (st : BufferReader) (t : Tally) : Prop where
  objects : st.objects + t.objects ≤ st.maxObjects
  fields : st.fields + t.fields ≤ st.maxFields
  strings : st.strings + t.strings ≤ st.maxStrings
  maxObjects : st.maxObjects < 2 ^ 64
  maxFields : st.maxFields < 2 ^ 64
  maxStrings : st.maxStrings < 2 ^ 64

variable {st : BufferReader} {t u : Tally} {rest b : Bytes}

theorem after_zero : st.after .zero rest = st.withBytes rest := rfl

theorem after_after : (st.after t b).after u rest = st.after (t.add u) rest := by
  simp only [after, Tally.add, add_assoc]

theorem withBytes_after : (st.withBytes b).after t rest = st.after t rest := rfl

theorem after_withBytes : (st.after t b).withBytes rest = st.after t rest := rfl

theorem withBytes_withBytes : (st.withBytes b).withBytes rest = st.withBytes rest := rfl

theorem Affords.left (h : st.Affords (t.add u)) : st.Affords t := by
  obtain ⟨hobjects, hfields, hstrings, hmaxObjects, hmaxFields, hmaxStrings⟩ := h
  simp only [Tally.add] at hobjects hfields hstrings
  exact ⟨by omega, by omega, by omega, hmaxObjects, hmaxFields, hmaxStrings⟩

theorem Affords.right (h : st.Affords (t.add u)) : (st.after t rest).Affords u := by
  obtain ⟨hobjects, hfields, hstrings, hmaxObjects, hmaxFields, hmaxStrings⟩ := h
  simp only [Tally.add] at hobjects hfields hstrings
  exact ⟨by simp only [after]; omega, by simp only [after]; omega, by simp only [after]; omega,
    hmaxObjects, hmaxFields, hmaxStrings⟩

end BufferReader
open BufferReader
variable {α : Type} {st : BufferReader} {rest : Bytes} {body : Nat → ReadM α} {s' s : BufferReader}
  {a : α} {name : Bytes} {pack : α → Except String Bytes} {as : List α}

theorem guarded_settles {p : Prop} (h : ∀ room, Settles (body room) s (k ≤ room ∧ p) a s')
    (room : Nat) : Settles (guarded body room) s (k + 1 ≤ room ∧ p) a s' := by
  cases room with
  | zero =>
    exact (throw _ _).congr (iff_of_false (fun h => Nat.not_succ_le_zero k h.1) id)
  | succ room => exact (h room).congr (and_congr_left' Nat.succ_le_succ_iff)

theorem guarded_settles_depth (h : ∀ room, Settles (body room) s (k ≤ room) a s') (room : Nat) :
    Settles (guarded body room) s (k + 1 ≤ room) a s' :=
  (guarded_settles (fun room => (h room).congr (iff_of_eq (and_true _))) room).congr
    (iff_of_eq (and_true _)).symm

section
variable (st : BufferReader) (rest : Bytes)

theorem take_settles (w : Bytes) (msg : String) :
    Settles (do
      let st ← get
      require (w.length ≤ st.bytes.length) msg
      modify fun st => { st with bytes := st.bytes.drop w.length }
      return st.bytes.take w.length : ReadM Bytes) (st.withBytes (w ++ rest)) True w
      (st.withBytes rest) := by
  have hlen : w.length ≤ (st.withBytes (w ++ rest)).bytes.length := by
    simp only [withBytes, length_append]
    omega
  refine get_bind (require_bind hlen (modify_bind ?_))
  simp only [withBytes, take_left, drop_left]
  exact pure _ _

theorem readRaw_settles (room : Nat) (w : Bytes) :
    Settles (readRaw w.length room) (st.withBytes (w ++ rest)) (1 ≤ room) w (st.withBytes rest) :=
  guarded_settles_depth (fun _ => (take_settles st rest w _).congr
    (iff_of_true (Nat.zero_le _) trivial)) room

theorem readPod_settles (type : PodType) (v : type.Value) (room : Nat) :
    Settles (readPod type room) (st.withBytes (type.pack v ++ rest)) (2 ≤ room) v
      (st.withBytes rest) := by
  refine guarded_settles_depth (fun room => ?_) room
  have hraw := readRaw_settles st rest room (type.pack v)
  rw [type.length_pack] at hraw
  have hbool : type = .bool → littleEndian (type.pack v) ≤ 1 := by
    rintro rfl
    rw [littleEndian_pack]
    exact Bool.toNat_le v
  refine congr (hraw.bind (fun _ => require_bind hbool ?_))
    (iff_of_eq (and_true _)).symm
  rw [type.littleEndian_pack, type.ofBits_bits]
  exact pure _ _

theorem readByte_settles (v : UInt8) (room : Nat) :
    Settles (readByte room) (st.withBytes (v :: rest)) (2 ≤ room) v (st.withBytes rest) := by
  have hpack : v :: rest = pack .uint8 v ++ rest := by
    have hbyte : UInt8.ofNat (v.toNat % 256) = v := by
      rw [Nat.mod_eq_of_lt v.toNat_lt, UInt8.ofNat_toNat]
    simp only [pack, size, bits, littleEndianBytes, hbyte, cons_append, nil_append]
  rw [hpack]
  exact readPod_settles st rest .uint8 v room

theorem readT_pod_settles (type : PodType) (v : type.Value) (room : Nat) :
    Settles (readT (readPod type) room) (st.withBytes (type.pack v ++ rest)) (3 ≤ room) v
      (st.withBytes rest) :=
  guarded_settles_depth (fun room => readPod_settles st rest type v room) room

end

theorem or_mark {width : Nat} (hmark : mark < 4) (hn : n * 4 < 256 ^ width) :
    (n * 4) % 256 ^ width ||| mark = n * 4 + mark := by
  rw [Nat.mod_eq_of_lt hn, mul_comm n 4]
  exact (Nat.two_pow_add_eq_or_of_lt (i := 2) hmark n).symm

theorem mark_of_first (x : Nat) :
    (UInt8.ofNat (x % 256) &&& portableRawSizeMarkMask).toNat = x % 4 := by
  have hmask : portableRawSizeMarkMask.toNat = 2 ^ 2 - 1 := rfl
  have hbyte : (UInt8.ofNat (x % 256)).toNat = x % 256 :=
    UInt8.toNat_ofNat_of_lt' (Nat.mod_lt _ (by decide))
  rw [UInt8.toNat_and, hmask, Nat.and_two_pow_sub_one_eq_mod, hbyte]
  omega

inductive SizeMark : PodType → Nat → Prop
  | byte : SizeMark .uint8 0
  | word : SizeMark .uint16 1
  | dword : SizeMark .uint32 2
  | int64 : SizeMark .uint64 3

theorem packVarint_form (h : packVarint n = .ok w) :
    ∃ type mark, SizeMark type mark ∧ n * 4 + mark < 256 ^ type.size ∧
      w = littleEndianBytes type.size (n * 4 + mark) := by
  unfold packVarint packVarintT at h
  split at h
  · obtain rfl := ok.inj h
    rw [or_mark (by decide) (by omega)]
    exact ⟨_, _, .byte, by simp only [size]; omega, rfl⟩
  split at h
  · obtain rfl := ok.inj h
    rw [or_mark (by decide) (by omega)]
    exact ⟨_, _, .word, by simp only [size]; omega, rfl⟩
  split at h
  · obtain rfl := ok.inj h
    rw [or_mark (by decide) (by omega)]
    exact ⟨_, _, .dword, by simp only [size]; omega, rfl⟩
  split at h
  · cases h
  · rename_i hsmall
    rw [not_not, ← Nat.shiftRight_add, Nat.shiftRight_eq_div_pow] at hsmall
    obtain rfl := ok.inj h
    rw [or_mark (by decide) (by omega)]
    exact ⟨_, _, .int64, by simp only [size]; omega, rfl⟩

theorem packVarint_ne_nil (h : packVarint n = .ok w) : 1 ≤ w.length := by
  obtain ⟨type, mark, hmark, -, rfl⟩ := packVarint_form h
  rw [length_littleEndianBytes]
  cases hmark <;> decide

theorem readVarint_settles (hw : packVarint n = .ok w) (room : Nat) (st : BufferReader)
    (rest : Bytes) :
    Settles (readVarint room) (st.withBytes (w ++ rest)) (4 ≤ room) n (st.withBytes rest) := by
  refine guarded_settles_depth (fun room => ?_) room
  have hlen := packVarint_ne_nil hw
  obtain ⟨type, mark, hmark, hlt, hform⟩ := packVarint_form hw
  have hvalue : (n * 4 + mark) / 4 = n := by
    cases hmark <;> omega
  have hsome : 1 ≤ (w ++ rest).length := by
    rw [length_append]
    omega
  have hread : Settles (readMarked mark room) (st.withBytes (littleEndianBytes type.size (n *
    4 + mark) ++ rest)) (3 ≤ room) (n * 4 + mark) (st.withBytes rest) := by
    have htype : type ≠ .bool := by
      cases hmark <;> decide
    have hread := (readT_pod_settles st rest type (type.ofBits (n * 4 + mark)) room).map type.bits
    rw [pack, bits_ofBits_of_ne_bool htype hlt] at hread
    cases hmark <;> exact hread
  have hfirst : ((littleEndianBytes type.size (n * 4 + mark) ++ rest).headD 0 &&&
    portableRawSizeMarkMask).toNat = mark := by
    cases hmark <;> (refine (mark_of_first _).trans ?_; omega)
  rw [← hform] at hread hfirst
  refine get_bind (require_bind hsome ?_)
  have hmask : ((st.withBytes (w ++ rest)).bytes.headD 0 &&& portableRawSizeMarkMask).toNat = mark :=
    hfirst
  rw [hmask, ← hvalue]
  exact hread.bind_pure (· / 4)

theorem packName_form (h : packName name = .ok w) :
    name.length < 255 ∧ name ≠ [] ∧ w = UInt8.ofNat name.length :: name := by
  unfold packName at h
  split at h
  · cases h
  · rename_i hlen
    split at h
    · cases h
    · rename_i hne
      exact ⟨not_not.mp hlen, hne, (ok.inj h).symm⟩

theorem readSecName_settles (hw : packName name = .ok w) (room : Nat) (st : BufferReader)
    (rest : Bytes) :
    Settles (readSecName room) (st.withBytes (w ++ rest)) (3 ≤ room) name (st.withBytes rest) := by
  obtain ⟨hlen, hne, rfl⟩ := packName_form hw
  have hcast : (UInt8.ofNat name.length).toNat = name.length :=
    UInt8.toNat_ofNat_of_lt' (lt_of_lt_of_le hlen (by decide))
  have hpos : UInt8.ofNat name.length > 0 := by
    rw [gt_iff_lt, UInt8.lt_iff_toNat_lt, hcast]
    exact length_pos_of_ne_nil hne
  refine guarded_settles_depth (fun room => ?_) room
  refine congr ((readByte_settles st (name ++ rest) _ room).bind
    (fun _ => require_bind hpos ?_)) (c := 2 ≤ room ∧ 1 ≤ room) (by omega)
  rw [hcast]
  exact readRaw_settles st rest room name

theorem putString_form (h : putString v = .ok w) :
    ∃ len, packVarint v.length = .ok len ∧ w = len ++ v := by
  obtain ⟨len, hlen, hw⟩ := bind_ok h
  exact ⟨len, hlen, (ok.inj hw).symm⟩

section
variable (hw : putString v = .ok w) (hlen : v.length < maxStringLenPossible) (room : Nat)
  (st : BufferReader) (rest : Bytes)
include hw hlen

theorem readString_settles :
    Settles (readString room) (st.withBytes (w ++ rest)) (5 ≤ room) v (st.withBytes rest) := by
  obtain ⟨len, hvarint, rfl⟩ := putString_form hw
  refine guarded_settles_depth (fun room => ?_) room
  rw [append_assoc]
  exact congr ((readVarint_settles hvarint room st (v ++ rest)).bind
    (fun _ => require_bind hlen (take_settles st rest v _))) (iff_of_eq (and_true _)).symm

theorem readT_string_settles :
    Settles (readT readString room) (st.withBytes (w ++ rest)) (6 ≤ room) v (st.withBytes rest) :=
  guarded_settles_depth (fun room => readString_settles hw hlen room st rest) room

end

theorem packAll_cons (h : packAll pack (a :: as) = .ok w) :
    ∃ first others, pack a = .ok first ∧ packAll pack as = .ok others ∧ w = first ++ others := by
  obtain ⟨first, hfirst, hrest⟩ := bind_ok h
  obtain ⟨others, hothers, hw⟩ := bind_ok hrest
  exact ⟨first, others, hfirst, hothers, (ok.inj hw).symm⟩

theorem packAll_ok (pack : α → Bytes) (as : List α) :
    packAll (fun a => .ok (pack a)) as = .ok (as.flatMap pack) := by
  induction as with
  | nil => rfl
  | cons a as ih =>
    rw [packAll, ih]
    rfl

theorem times_settles {element : ReadM α} {c : Prop}
    (h : ∀ a ∈ as, ∀ (w : Bytes) (st : BufferReader) (rest : Bytes), pack a = .ok w → Settles
      element (st.withBytes (w ++ rest)) c a (st.withBytes rest))
    (hw : packAll pack as = .ok w) (st : BufferReader) (rest : Bytes) :
    Settles (times element as.length) (st.withBytes (w ++ rest)) (as = [] ∨ c) as
      (st.withBytes rest) := by
  induction as generalizing w with
  | nil =>
    obtain rfl := ok.inj hw
    exact (pure _ _).congr (iff_of_true (.inl rfl) trivial)
  | cons a as ih =>
    obtain ⟨first, others, hfirst, hothers, rfl⟩ := packAll_cons hw
    obtain ⟨hhead, htail⟩ := forall_mem_cons.mp h
    rw [append_assoc]
    refine congr ((hhead first st (others ++ rest) hfirst).bind
      (fun _ => (ih htail hothers).bind_pure (a :: ·))) ?_
    constructor
    · rintro (hnil | hc)
      · cases hnil
      · exact ⟨hc, .inr hc⟩
    · exact fun hc => .inr hc.1

theorem length_packAll (h : ∀ a ∈ as, ∀ w, pack a = .ok w → k ≤ w.length)
    (hw : packAll pack as = .ok w) : as.length * k ≤ w.length := by
  induction as generalizing w with
  | nil => simp
  | cons a as ih =>
    obtain ⟨first, others, hfirst, hothers, rfl⟩ := packAll_cons hw
    obtain ⟨hhead, htail⟩ := forall_mem_cons.mp h
    have hone := hhead first hfirst
    have hmany := ih htail hothers
    rw [length_cons, length_append, Nat.succ_mul]
    omega

end Jero.Epee
