import Jero.Machine.Exec
import Jero.Serial.Archive

namespace Jero.Epee
open Jero.Machine Jero.Common

def portableRawSizeMarkMask : UInt8 := 0x03

def maxStringLenPossible : Nat := 2000000000

def serializeTypeString : UInt8 := 10

def serializeTypeObject : UInt8 := 12

def serializeTypeArray : UInt8 := 13

def serializeFlagArray : UInt8 := 0x80

def recursionLimit : Nat := 100

inductive PodType where
  | int64
  | int32
  | int16
  | int8
  | uint64
  | uint32
  | uint16
  | uint8
  | double
  | bool
deriving DecidableEq, Repr

open PodType
namespace PodType

def code : PodType → UInt8
  | int64 => 1
  | int32 => 2
  | int16 => 3
  | int8 => 4
  | uint64 => 5
  | uint32 => 6
  | uint16 => 7
  | uint8 => 8
  | double => 9
  | bool => 11

def ofCode (code : UInt8) : Option PodType :=
  [int64, int32, int16, int8, uint64, uint32, uint16, uint8, double, bool].find?
    fun type => type.code == code

def size : PodType → Nat
  | int64 | uint64 | double => 8
  | int32 | uint32 => 4
  | int16 | uint16 => 2
  | int8 | uint8 | bool => 1

def Value : PodType → Type
  | int64 => Int64
  | int32 => Int32
  | int16 => Int16
  | int8 => Int8
  | uint64 => UInt64
  | uint32 => UInt32
  | uint16 => UInt16
  | uint8 => UInt8
  | double => UInt64
  | bool => Bool

def bits : (type : PodType) → type.Value → Nat
  | int64, v => Int64.toUInt64 v |>.toNat
  | int32, v => Int32.toUInt32 v |>.toNat
  | int16, v => Int16.toUInt16 v |>.toNat
  | int8, v => Int8.toUInt8 v |>.toNat
  | uint64, v => UInt64.toNat v
  | uint32, v => UInt32.toNat v
  | uint16, v => UInt16.toNat v
  | uint8, v => UInt8.toNat v
  | double, v => UInt64.toNat v
  | bool, v => Bool.toNat v

def ofBits : (type : PodType) → Nat → type.Value
  | int64, n => (UInt64.ofNat n).toInt64
  | int32, n => (UInt32.ofNat n).toInt32
  | int16, n => (UInt16.ofNat n).toInt16
  | int8, n => (UInt8.ofNat n).toInt8
  | uint64, n => UInt64.ofNat n
  | uint32, n => UInt32.ofNat n
  | uint16, n => UInt16.ofNat n
  | uint8, n => UInt8.ofNat n
  | double, n => UInt64.ofNat n
  | bool, n => decide (n ≠ 0)

def pack (type : PodType) (v : type.Value) : Bytes := Serial.littleEndianBytes type.size (type.bits v)

end PodType

mutual
inductive StorageEntry where
  | pod (type : PodType) (value : type.Value)
  | string (value : Bytes)
  | object (fields : List (Bytes × StorageEntry))
  | array (entry : ArrayEntry)
inductive ArrayEntry where
  | pods (type : PodType) (values : List type.Value)
  | strings (values : List Bytes)
  | objects (values : List (List (Bytes × StorageEntry)))
  | arrays (values : List ArrayEntry)
end

open StorageEntry ArrayEntry

abbrev Section := List (Bytes × StorageEntry)

def packVarintT (width mark pv : Nat) : Bytes :=
  Serial.littleEndianBytes width ((pv * 4) % 256 ^ width ||| mark)

def packVarint (val : Nat) : Except String Bytes :=
  if val ≤ 63 then .ok (packVarintT 1 0 val)
  else if val ≤ 16383 then .ok (packVarintT 2 1 val)
  else if val ≤ 1073741823 then .ok (packVarintT 4 2 val)
  else if val >>> 31 >>> 31 ≠ 0 then .error "failed to pack varint - too big amount"
  else .ok (packVarintT 8 3 val)

def putString (v : Bytes) : Except String Bytes := do
  let len ← packVarint v.length
  return len ++ v

def packAll {α : Type} (pack : α → Except String Bytes) : List α → Except String Bytes
  | [] => .ok []
  | a :: rest => do
    let first ← pack a
    let others ← packAll pack rest
    return first ++ others

def packName (name : Bytes) : Except String Bytes :=
  if ¬ name.length < 255 then .error "storage_entry_name is too long"
  else if name = [] then .error "storage_entry_name is empty"
  else .ok (UInt8.ofNat name.length :: name)

mutual
def packEntry : StorageEntry → Except String Bytes
  | .pod type v => .ok (type.code :: type.pack v)
  | .string v => do
    let body ← putString v
    return serializeTypeString :: body
  | .object fields => do
    let count ← packVarint fields.length
    let body ← packFields fields
    return serializeTypeObject :: (count ++ body)
  | .array entry => packArray entry
def packArray : ArrayEntry → Except String Bytes
  | .pods type values => do
    let count ← packVarint values.length
    return (type.code ||| serializeFlagArray) :: (count ++ values.flatMap type.pack)
  | .strings values => do
    let count ← packVarint values.length
    let body ← packAll putString values
    return (serializeTypeString ||| serializeFlagArray) :: (count ++ body)
  | .objects values => do
    let count ← packVarint values.length
    let body ← packSections values
    return (serializeTypeObject ||| serializeFlagArray) :: (count ++ body)
  | .arrays values => do
    let count ← packVarint values.length
    let body ← packArrays values
    return (serializeTypeArray ||| serializeFlagArray) :: (count ++ body)
def packFields : List (Bytes × StorageEntry) → Except String Bytes
  | [] => .ok []
  | (name, value) :: rest => do
    let head ← packName name
    let body ← packEntry value
    let others ← packFields rest
    return head ++ body ++ others
def packSections : List (List (Bytes × StorageEntry)) → Except String Bytes
  | [] => .ok []
  | fields :: rest => do
    let count ← packVarint fields.length
    let body ← packFields fields
    let others ← packSections rest
    return count ++ body ++ others
def packArrays : List ArrayEntry → Except String Bytes
  | [] => .ok []
  | entry :: rest => do
    let first ← packArray entry
    let others ← packArrays rest
    return first ++ others
end

def packSection (fields : Section) : Except String Bytes := do
  let count ← packVarint fields.length
  let body ← packFields fields
  return count ++ body

structure BufferReader where
  bytes : Bytes
  objects : Nat
  fields : Nat
  strings : Nat
  maxObjects : Nat
  maxFields : Nat
  maxStrings : Nat
deriving DecidableEq, Repr

open BufferReader

def BufferReader.start (source : Bytes) : BufferReader :=
  ⟨source, 0, 0, 0, 2 ^ 64 - 1, 2 ^ 64 - 1, 2 ^ 64 - 1⟩

abbrev ReadM := Exec BufferReader

def recursionExceeded {α : Type} : ReadM α :=
  throw "Wrong blob data in portable storage: recursion limitation (100) exceeded"

def guarded {α : Type} (body : Nat → ReadM α) : Nat → ReadM α
  | 0 => recursionExceeded
  | room + 1 => body room

def readRaw (count : Nat) : Nat → ReadM Bytes :=
  guarded fun _ => do
    let st ← get
    require (count ≤ st.bytes.length) "attempt to read past the end of the buffer"
    modify fun st => { st with bytes := st.bytes.drop count }
    return st.bytes.take count

def readPod (type : PodType) : Nat → ReadM type.Value :=
  guarded fun room => do
    let raw ← readRaw type.size room
    require (type = .bool → littleEndian raw ≤ 1) "Invalid bool value"
    return type.ofBits (littleEndian raw)

def readT {α : Type} (read : Nat → ReadM α) : Nat → ReadM α := guarded read

def readByte : Nat → ReadM UInt8 := readPod .uint8

def readSecName : Nat → ReadM Bytes :=
  guarded fun room => do
    let nameLen ← readByte room
    require (nameLen > 0) "Section name is missing"
    readRaw nameLen.toNat room

def readMarked (sizeMask room : Nat) : ReadM Nat :=
  match sizeMask with
  | 0 => bits .uint8 <$> readT (readPod .uint8) room
  | 1 => bits .uint16 <$> readT (readPod .uint16) room
  | 2 => bits .uint32 <$> readT (readPod .uint32) room
  | _ => bits .uint64 <$> readT (readPod .uint64) room

def readVarint : Nat → ReadM Nat :=
  guarded fun room => do
    let st ← get
    require (1 ≤ st.bytes.length) "empty buff, expected place for varint"
    let v ← readMarked (st.bytes.headD 0 &&& portableRawSizeMarkMask).toNat room
    return v / 4

def readString : Nat → ReadM Bytes :=
  guarded fun room => do
    let len ← readVarint room
    require (len < maxStringLenPossible) "to big string len value in storage"
    let st ← get
    require (len ≤ st.bytes.length) "string len count value goes out of remain storage len"
    modify fun st => { st with bytes := st.bytes.drop len }
    return st.bytes.take len

def times {α : Type} (read : ReadM α) : Nat → ReadM (List α)
  | 0 => return []
  | n + 1 => do
    let a ← read
    let rest ← times read n
    return a :: rest

def charge (limit used : BufferReader → Nat) (setUsed : Nat → BufferReader → BufferReader)
    (msg : String) (size : Nat) : ReadM Unit := do
  let st ← get
  require (size ≤ wsub (limit st) (used st)) msg
  modify fun st => setUsed (wrap (used st + size)) st

def countObjects : Nat → ReadM Unit :=
  charge maxObjects objects (fun n st => { st with objects := n })
    "Too many objects"

def countStrings : Nat → ReadM Unit :=
  charge maxStrings strings (fun n st => { st with strings := n })
    "Too many strings"

def countFields : Nat → ReadM Unit :=
  charge maxFields fields (fun n st => { st with fields := n })
    "Too many object fields"

def countNothing (_ : Nat) : ReadM Unit := pure ()

def readAe {α : Type} (minBytes : Nat) (budget : Nat → ReadM Unit) (element : ReadM α)
    (room : Nat) : ReadM (List α) := do
  let size ← readVarint room
  let st ← get
  require (size ≤ st.bytes.length / minBytes) "Size sanity check failed"
  budget size
  times element size

def readArrayEntry {α : Type} : Nat → ReadM α :=
  guarded fun _ => throw "Reading array entry is not supported"

def readAePods (type : PodType) : Nat → ReadM ArrayEntry :=
  guarded fun room => pods type <$>
    readAe type.size countNothing (readT (readPod type) room) room

def readAeStrings : Nat → ReadM ArrayEntry :=
  guarded fun room => strings <$> readAe 2 countStrings (readT readString room) room

def readAeArrays : Nat → ReadM ArrayEntry :=
  guarded fun room => arrays <$>
    readAe 1 countNothing (readT readArrayEntry room) room

def readSePod (type : PodType) : Nat → ReadM StorageEntry :=
  guarded fun room => pod type <$> readPod type room

def readSeString : Nat → ReadM StorageEntry :=
  guarded fun room => do
    let st ← get
    require (wrap (st.strings + 1) ≤ st.maxStrings) "Too many strings"
    modify fun st => { st with strings := wrap (st.strings + 1) }
    string <$> readT readString room

def insertEntry (name : Bytes) (value : StorageEntry) : Section → Section
  | [] => [(name, value)]
  | e :: rest => if e.1 < name then e :: insertEntry name value rest else (name, value) :: e :: rest

def duplicateKey (name : Bytes) (fields : Section) : Bool :=
  match fields.dropWhile fun e => decide (e.1 < name) with
  | [] => false
  | e :: _ => decide (e.1 = name)

def readFields (readName : ReadM Bytes) (loadEntry : ReadM StorageEntry) :
    Nat → Section → ReadM Section
  | 0, fields => return fields
  | count + 1, fields => do
    let name ← readName
    require (¬ duplicateKey name fields) "duplicate key"
    let value ← loadEntry
    readFields readName loadEntry count (insertEntry name value fields)

def switchType {α : Type} (code : UInt8) (pod : PodType → ReadM α) (string object array : ReadM α) :
    ReadM α :=
  match ofCode code with
  | some type => pod type
  | none =>
    if code = serializeTypeString then string
    else if code = serializeTypeObject then object
    else if code = serializeTypeArray then array
    else throw "unknown entry_type code"

mutual
def readSection : Nat → ReadM Section
  | 0 => recursionExceeded
  | room + 1 => do
    let count ← readVarint room
    countFields count
    readFields (readSecName room) (loadStorageEntry room) count []
def loadStorageEntry : Nat → ReadM StorageEntry
  | 0 => recursionExceeded
  | room + 1 => do
    let entType ← readByte room
    if entType &&& serializeFlagArray ≠ 0 then loadStorageArrayEntry room entType
    else
      switchType entType (fun type => readSePod type room) (readSeString room)
        (readSeSection room) (readSeArray room)
def readSeSection : Nat → ReadM StorageEntry
  | 0 => recursionExceeded
  | room + 1 => do
    let st ← get
    require (st.objects < st.maxObjects) "Too many objects"
    modify fun st => { st with objects := st.objects + 1 }
    object <$> readSection room
def readSeArray : Nat → ReadM StorageEntry
  | 0 => recursionExceeded
  | room + 1 => do
    let entType ← readByte room
    require (entType &&& serializeFlagArray ≠ 0) "wrong type sequences"
    loadStorageArrayEntry room entType
def loadStorageArrayEntry : Nat → UInt8 → ReadM StorageEntry
  | 0, _ => recursionExceeded
  | room + 1, entType => array <$>
    switchType (entType &&& ~~~serializeFlagArray) (fun type => readAePods type room)
      (readAeStrings room) (readAeSections room) (readAeArrays room)
def readAeSections : Nat → ReadM ArrayEntry
  | 0 => recursionExceeded
  | room + 1 => objects <$> readAe 1 countObjects (readTSection room) room
def readTSection : Nat → ReadM Section
  | 0 => recursionExceeded
  | room + 1 => readSection room
end

def loadSection (source : Bytes) : Except String Section :=
  if source.length = 0 then .error "throwable_buffer_reader: sz==0"
  else match readSection (recursionLimit - 1) (start source) with
    | .ok fields _ => .ok fields
    | .error e _ => .error e

end Jero.Epee
