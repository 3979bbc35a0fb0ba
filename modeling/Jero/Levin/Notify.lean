import Jero.Serial.Archive

namespace Jero.Levin
open Jero.Common Jero.Machine Jero.Serial List

def levinSignature : UInt64 := 0x0101010101012101

def levinProtocolVer1 : UInt32 := 1

def levinPacketRequest : UInt32 := 0x00000001

def levinPacketResponse : UInt32 := 0x00000002

def levinPacketBegin : UInt32 := 0x00000004

def levinPacketEnd : UInt32 := 0x00000008

structure BucketHead where
  signature : UInt64
  cb : UInt64
  haveToReturnData : UInt8
  command : UInt32
  returnCode : Int32
  flags : UInt32
  protocolVersion : UInt32
deriving DecidableEq, Repr

def headSize : Nat := 33

namespace BucketHead

def bytes (head : BucketHead) : Bytes :=
  littleEndianBytes 8 head.signature.toNat ++ littleEndianBytes 8 head.cb.toNat ++
    [head.haveToReturnData] ++ littleEndianBytes 4 head.command.toNat ++
    littleEndianBytes 4 head.returnCode.toUInt32.toNat ++ littleEndianBytes 4 head.flags.toNat ++
    littleEndianBytes 4 head.protocolVersion.toNat

def read (data : Bytes) : BucketHead where
  signature := UInt64.ofNat (littleEndian (data.take 8))
  cb := UInt64.ofNat (littleEndian ((data.drop 8).take 8))
  haveToReturnData := UInt8.ofNat (littleEndian ((data.drop 16).take 1))
  command := UInt32.ofNat (littleEndian ((data.drop 17).take 4))
  returnCode := (UInt32.ofNat (littleEndian ((data.drop 21).take 4))).toInt32
  flags := UInt32.ofNat (littleEndian ((data.drop 25).take 4))
  protocolVersion := UInt32.ofNat (littleEndian ((data.drop 29).take 4))

theorem length_bytes (head : BucketHead) : head.bytes.length = headSize := by
  simp only [bytes, length_append, length_littleEndianBytes, length_singleton, headSize]

theorem read_append {data : Bytes} (h : headSize ≤ data.length) (more : Bytes) :
    read (data ++ more) = read data := by
  rw [headSize] at h
  have hfield : ∀ i n, i + n ≤ 33 → ((data ++ more).drop i).take n = (data.drop i).take n := by
    intro i n hin
    rw [drop_append_of_le_length (by omega), take_append_of_le_length (by rw [length_drop]; omega)]
  have hfirst := hfield 0 8 (by omega)
  rw [drop_zero, drop_zero] at hfirst
  simp only [read, hfirst, hfield 8 8 (by omega), hfield 16 1 (by omega), hfield 17 4 (by omega),
    hfield 21 4 (by omega), hfield 25 4 (by omega), hfield 29 4 (by omega)]

theorem ofNat_field64 (v : UInt64) :
    UInt64.ofNat (littleEndian (littleEndianBytes 8 v.toNat)) = v := by
  have hlt : v.toNat < 256 ^ 8 := v.toNat_lt
  rw [littleEndian_littleEndianBytes hlt, UInt64.ofNat_toNat]

theorem ofNat_field32 (v : UInt32) :
    UInt32.ofNat (littleEndian (littleEndianBytes 4 v.toNat)) = v := by
  have hlt : v.toNat < 256 ^ 4 := v.toNat_lt
  rw [littleEndian_littleEndianBytes hlt, UInt32.ofNat_toNat]

theorem ofNat_field8 (v : UInt8) : UInt8.ofNat (littleEndian [v]) = v := by
  rw [littleEndian, littleEndian, Nat.mul_zero, Nat.add_zero, UInt8.ofNat_toNat]

theorem drop_past {w : Bytes} {i : Nat} (h : w.length ≤ i) (more : Bytes) :
    (w ++ more).drop i = more.drop (i - w.length) := by
  rw [drop_append, drop_eq_nil_of_le h, nil_append]

theorem read_bytes (head : BucketHead) (rest : Bytes) : read (head.bytes ++ rest) = head := by
  simp only [bytes, append_assoc, read]
  simp (disch := simp [length_littleEndianBytes]) only [drop_past, take_left',
    length_littleEndianBytes, length_singleton, Nat.reduceSub, drop_zero, ofNat_field64,
    ofNat_field32, ofNat_field8]
  rfl

end BucketHead
variable {payloadSpace noiseSize : Nat}

def makeHeader (command : UInt32) (msgSize : Nat) (flags : UInt32) (expectResponse : Bool) :
    BucketHead where
  signature := levinSignature
  cb := UInt64.ofNat msgSize
  haveToReturnData := if expectResponse then 1 else 0
  command := command
  returnCode := 0
  flags := flags
  protocolVersion := levinProtocolVer1

structure MessageWriter where
  buffer : Bytes
  headed : headSize ≤ buffer.length
deriving DecidableEq, Repr

namespace MessageWriter

def start : MessageWriter :=
  ⟨List.replicate headSize 0, by rw [List.length_replicate]⟩

def put (message : MessageWriter) (data : Bytes) : MessageWriter :=
  ⟨message.buffer ++ data, by
    rw [List.length_append]
    exact Nat.le_add_right_of_le message.headed⟩

def payload (message : MessageWriter) : Bytes :=
  message.buffer.drop headSize

def payloadSize (message : MessageWriter) : Nat :=
  message.buffer.length - headSize

def finalize (message : MessageWriter) (command flags returnCode : UInt32)
    (expectResponse : Bool) : Bytes :=
  let head := makeHeader command message.payloadSize flags expectResponse
  { head with returnCode := returnCode.toInt32 }.bytes ++ message.payload

def finalizeNotify (message : MessageWriter) (command : UInt32) : Bytes :=
  message.finalize command levinPacketRequest 0 false

def finalizeResponse (message : MessageWriter) (command returnCode : UInt32) : Bytes :=
  message.finalize command levinPacketResponse returnCode false

variable (message : MessageWriter)

theorem length_payload : message.payload.length = message.payloadSize :=
  length_drop

theorem payload_put (data : Bytes) :
    (message.put data).payload = message.payload ++ data :=
  drop_append_of_le_length message.headed

theorem finalizeNotify_eq (command : UInt32) :
    message.finalizeNotify command =
      (makeHeader command message.payloadSize levinPacketRequest false).bytes ++ message.payload :=
  rfl

theorem length_finalizeNotify (command : UInt32) :
    (message.finalizeNotify command).length = message.buffer.length := by
  rw [finalizeNotify_eq, length_append, BucketHead.length_bytes, length_payload]
  exact Nat.add_sub_cancel' message.headed

end MessageWriter

def makeNoiseNotify (noiseBytes : Nat) : Option Bytes :=
  if noiseBytes < headSize then none
  else
    some ((makeHeader 0 (noiseBytes - headSize) (levinPacketBegin ||| levinPacketEnd) false).bytes ++
      List.replicate (noiseBytes - headSize) 0)

def writeFragments (payloadSpace : Nat) : Nat → BucketHead → Bytes → Nat → Bytes × Nat
  | 0, _, _, copySize => ([], copySize)
  | fuel + 1, head, payload, copySize =>
    if payload.isEmpty then ([], copySize)
    else
      let copied := payload.take payloadSpace
      let rest := payload.drop payloadSpace
      let head := if rest.isEmpty then { head with flags := levinPacketEnd } else head
      let (buffer, copySize) := writeFragments payloadSpace fuel head rest copied.length
      (head.bytes ++ copied ++ buffer, copySize)

def makeFragmentedNotify (noiseSize : Nat) (command : UInt32) (message : MessageWriter) :
    Option Bytes :=
  if noiseSize < headSize * 2 then none
  else if message.buffer.length ≤ noiseSize then
    some ((message.put (List.replicate (noiseSize - message.buffer.length) 0)).finalizeNotify
      command)
  else
    let payload := message.finalizeNotify command
    let payloadSpace := noiseSize - headSize
    let head := makeHeader 0 payloadSpace levinPacketBegin false
    let first := payload.take payloadSpace
    let (buffer, copySize) := writeFragments payloadSpace payload.length { head with flags := 0 }
      (payload.drop payloadSpace) first.length
    some (head.bytes ++ first ++ buffer ++ List.replicate (noiseSize - copySize - headSize) 0)

def fragment (payloadSpace : Nat) (flags : UInt32) (data : Bytes) : Bytes :=
  (makeHeader 0 payloadSpace flags false).bytes ++ data

def fragments (payloadSpace : Nat) : Nat → Bytes → Bytes
  | 0, _ => []
  | fuel + 1, data =>
    if data.length ≤ payloadSpace then
      fragment payloadSpace levinPacketEnd
        (data ++ List.replicate (payloadSpace - data.length) 0)
    else
      fragment payloadSpace 0 (data.take payloadSpace) ++
        fragments payloadSpace fuel (data.drop payloadSpace)

theorem length_fragment (payloadSpace : Nat) (flags : UInt32) (data : Bytes) :
    (fragment payloadSpace flags data).length = headSize + data.length := by
  rw [fragment, length_append, BucketHead.length_bytes]

theorem writeFragments_nil (payloadSpace fuel : Nat) (head : BucketHead) (copySize : Nat) :
    writeFragments payloadSpace fuel head [] copySize = ([], copySize) := by
  cases fuel with
  | zero => rfl
  | succ fuel => rfl

variable {payload : Bytes}

theorem writeFragments_eq {fuel : Nat} (hspace : 0 < payloadSpace)
    (hpayload : payload ≠ []) (hfuel : payload.length ≤ fuel) (copySize : Nat) :
    (writeFragments payloadSpace fuel (makeHeader 0 payloadSpace 0 false) payload copySize).1 ++
      List.replicate (payloadSpace -
        (writeFragments payloadSpace fuel (makeHeader 0 payloadSpace 0 false) payload
          copySize).2) 0 =
      fragments payloadSpace fuel payload := by
  induction fuel generalizing payload copySize with
  | zero => exact absurd (eq_nil_of_length_eq_zero (Nat.le_zero.mp hfuel)) hpayload
  | succ fuel ih =>
    rw [fragments]
    split
    · next hlast =>
      rw [writeFragments, isEmpty_eq_false_iff.mpr hpayload, if_neg (by decide),
        drop_eq_nil_of_le hlast, take_of_length_le hlast]
      dsimp only
      rw [writeFragments_nil, append_nil, append_assoc]
      rfl
    · next hmore =>
      rw [not_le] at hmore
      have hrest : payload.drop payloadSpace ≠ [] := by
        rw [← length_pos_iff, length_drop]
        omega
      have hshorter : (payload.drop payloadSpace).length ≤ fuel := by
        rw [length_drop]
        omega
      rw [writeFragments, isEmpty_eq_false_iff.mpr hpayload, if_neg (by decide)]
      dsimp only
      rw [isEmpty_eq_false_iff.mpr hrest, if_neg (by decide),
        ← ih hrest hshorter (payload.take payloadSpace).length, fragment]
      simp only [append_assoc]

theorem makeFragmentedNotify_whole {message : MessageWriter} (hnoise : headSize * 2 ≤ noiseSize)
    (hfits : message.buffer.length ≤ noiseSize) (command : UInt32) :
    makeFragmentedNotify noiseSize command message =
      some ((message.put (List.replicate (noiseSize - message.buffer.length) 0)).finalizeNotify
        command) := by
  rw [makeFragmentedNotify, if_neg (not_lt.mpr hnoise), if_pos hfits]

theorem makeFragmentedNotify_split {message : MessageWriter} (hnoise : headSize * 2 ≤ noiseSize)
    (hlong : noiseSize < message.buffer.length) (command : UInt32) :
    makeFragmentedNotify noiseSize command message =
      some (fragment (noiseSize - headSize) levinPacketBegin
          ((message.finalizeNotify command).take (noiseSize - headSize)) ++
        fragments (noiseSize - headSize) (message.finalizeNotify command).length
          ((message.finalizeNotify command).drop (noiseSize - headSize))) := by
  have hlength := message.length_finalizeNotify command
  have hspace : 0 < noiseSize - headSize := by
    rw [headSize] at hnoise ⊢
    omega
  have hrest : (message.finalizeNotify command).drop (noiseSize - headSize) ≠ [] := by
    intro hnil
    have hle := drop_eq_nil_iff.mp hnil
    omega
  have hfuel : ((message.finalizeNotify command).drop (noiseSize - headSize)).length ≤
      (message.finalizeNotify command).length := by
    rw [length_drop]
    exact Nat.sub_le _ _
  have hwritten := writeFragments_eq hspace hrest hfuel
    ((message.finalizeNotify command).take (noiseSize - headSize)).length
  rw [makeFragmentedNotify, if_neg (not_lt.mpr hnoise), if_neg (not_le.mpr hlong),
    ← hwritten, fragment]
  rw [Nat.sub_right_comm]
  simp only [append_assoc]
  rfl

theorem fragments_length_dvd (payloadSpace fuel : Nat) (data : Bytes) :
    headSize + payloadSpace ∣ (fragments payloadSpace fuel data).length := by
  induction fuel generalizing data with
  | zero => exact dvd_zero _
  | succ fuel ih =>
    rw [fragments]
    split
    · next hlast =>
      rw [length_fragment, length_append, length_replicate, Nat.add_sub_cancel' hlast]
    · next hmore =>
      rw [length_append, length_fragment, length_take, min_eq_left (le_of_lt (not_le.mp hmore))]
      exact dvd_add (dvd_refl _) (ih _)

end Jero.Levin
