import Jero.Epee.StorageRead

namespace Jero.Epee
open Jero.Machine Jero.Common BufferReader Except ArrayEntry Settles StorageEntry
open List hiding after
variable {w : Bytes} {t : Tally} {fits : Nat → Bool} {code : UInt8} {st : BufferReader}

def packedLength : Except String Bytes → Nat
  | .ok w => w.length
  | .error _ => 0

def Section.Sorted (fields : Section) : Prop := fields.Pairwise fun a b => a.1 < b.1

mutual
def StorageEntry.Plain : StorageEntry → Prop
  | .pod _ _ => True
  | .string v => v.length < maxStringLenPossible
  | .object fields => Section.Sorted fields ∧ FieldsPlain fields
  | .array entry => entry.Plain
def ArrayEntry.Plain : ArrayEntry → Prop
  | .pods _ _ => True
  | .strings values => ∀ v ∈ values, v.length < maxStringLenPossible
  | .objects values => SectionsPlain values
  | .arrays _ => False
def FieldsPlain : List (Bytes × StorageEntry) → Prop
  | [] => True
  | (_, value) :: rest => value.Plain ∧ FieldsPlain rest
def SectionsPlain : List (List (Bytes × StorageEntry)) → Prop
  | [] => True
  | fields :: rest => Section.Sorted fields ∧ FieldsPlain fields ∧ SectionsPlain rest
end

mutual
def StorageEntry.tally : StorageEntry → Tally
  | .pod _ _ => .zero
  | .string _ => ⟨0, 0, 1⟩
  | .object fields => Tally.add ⟨1, 0, 0⟩ (Tally.add ⟨0, fields.length, 0⟩ (fieldsTally fields))
  | .array entry => entry.tally
def ArrayEntry.tally : ArrayEntry → Tally
  | .pods _ _ => .zero
  | .strings values => ⟨0, 0, values.length⟩
  | .objects values => Tally.add ⟨values.length, 0, 0⟩ (sectionsTally values)
  | .arrays _ => .zero
def fieldsTally : List (Bytes × StorageEntry) → Tally
  | [] => .zero
  | (_, value) :: rest => value.tally.add (fieldsTally rest)
def sectionsTally : List (List (Bytes × StorageEntry)) → Tally
  | [] => .zero
  | fields :: rest =>
    (Tally.add ⟨0, fields.length, 0⟩ (fieldsTally fields)).add (sectionsTally rest)
end

mutual
def StorageEntry.depth : StorageEntry → Nat
  | .pod _ _ => 4
  | .string _ => 8
  | .object fields => fieldsDepth fields + 3
  | .array entry => entry.depth + 2
def ArrayEntry.depth : ArrayEntry → Nat
  | .pods _ _ => 5
  | .strings values => if values.isEmpty then 5 else 7
  | .objects values => sectionsDepth values + 1
  | .arrays _ => 5
def fieldsDepth : List (Bytes × StorageEntry) → Nat
  | [] => 4
  | (_, value) :: rest => max value.depth (fieldsDepth rest)
def sectionsDepth : List (List (Bytes × StorageEntry)) → Nat
  | [] => 4
  | fields :: rest => max (fieldsDepth fields + 2) (sectionsDepth rest)
end

mutual
def StorageEntry.fits : StorageEntry → Nat → Bool
  | .pod _ _, _ => true
  | .string _, _ => true
  | .object fields, after => fieldsFit fields after
  | .array entry, after => entry.fits after
def ArrayEntry.fits : ArrayEntry → Nat → Bool
  | .pods _ _, _ => true
  | .strings values, after =>
    decide (values.length * 2 ≤ packedLength (packAll putString values) + after)
  | .objects values, after => sectionsFit values after
  | .arrays _, _ => true
def fieldsFit : List (Bytes × StorageEntry) → Nat → Bool
  | [], _ => true
  | (_, value) :: rest, after =>
    value.fits (packedLength (packFields rest) + after) && fieldsFit rest after
def sectionsFit : List (List (Bytes × StorageEntry)) → Nat → Bool
  | [], _ => true
  | fields :: rest, after =>
    fieldsFit fields (packedLength (packSections rest) + after) && sectionsFit rest after
end

def Section.tally (fields : Section) : Tally :=
  Tally.add ⟨0, fields.length, 0⟩ (fieldsTally fields)

def Section.depth (fields : Section) : Nat := fieldsDepth fields + 1

def Reads {α : Type} (read : Nat → ReadM α) (w : Bytes) (t : Tally) (depth : Nat)
    (fits : Nat → Bool) (a : α) : Prop :=
  ∀ (room : Nat) (st : BufferReader) (rest : Bytes), st.Affords t →
    Settles (read room) (st.withBytes (w ++ rest)) (depth ≤ room ∧ fits rest.length = true) a
      (st.after t rest)

def EntryReads (e : StorageEntry) : Prop :=
  ∀ w, packEntry e = .ok w → Reads loadStorageEntry w e.tally e.depth e.fits e

def ArrayReads (entry : ArrayEntry) : Prop :=
  ∀ w, packArray entry = .ok w → ∃ code body, w = (code ||| serializeFlagArray) :: body ∧
    Reads (fun room => loadStorageArrayEntry room (code ||| serializeFlagArray)) body
      entry.tally (entry.depth + 1) entry.fits (.array entry)

def FieldsRead (fields : List (Bytes × StorageEntry)) : Prop :=
  ∀ (w : Bytes) (room : Nat) (st : BufferReader) (rest : Bytes) (acc : Section),
    packFields fields = .ok w → 4 ≤ room → Section.Sorted (acc ++ fields) →
    st.Affords (fieldsTally fields) →
    Settles (readFields (readSecName room) (loadStorageEntry room) fields.length acc)
      (st.withBytes (w ++ rest)) (fieldsDepth fields ≤ room ∧ fieldsFit fields rest.length = true)
      (acc ++ fields) (st.after (fieldsTally fields) rest)

def SectionsRead (values : List (List (Bytes × StorageEntry))) : Prop :=
  ∀ (w : Bytes) (room : Nat) (st : BufferReader) (rest : Bytes),
    packSections values = .ok w → 4 ≤ room → st.Affords (sectionsTally values) →
    Settles (times (readTSection room) values.length) (st.withBytes (w ++ rest))
      (sectionsDepth values ≤ room ∧ sectionsFit values rest.length = true) values
      (st.after (sectionsTally values) rest)

variable {α : Type} {a : α} {rest len : Bytes} {fields : Section} {entry : ArrayEntry} {depth : Nat}

theorem guarded_reads {read body : Nat → ReadM α} (hread : read = guarded body)
    (h : Reads body w t depth fits a) : Reads read w t (depth + 1) fits a := by
  intro room st rest haffords
  rw [hread]
  exact guarded_settles (fun room => h room st rest haffords) room

theorem switchType_code (type : PodType) (pod : PodType → ReadM α) (string object array : ReadM α) :
    switchType type.code pod string object array = pod type := by
  rw [switchType, type.ofCode_code]

def loadByType (entType : UInt8) (room : Nat) : ReadM StorageEntry :=
  if entType &&& serializeFlagArray ≠ 0 then loadStorageArrayEntry room entType
  else switchType entType (fun type => readSePod type room) (readSeString room)
    (readSeSection room) (readSeArray room)

theorem loadStorageEntry_reads {e : StorageEntry} (hdepth : 2 ≤ depth)
    (h : Reads (loadByType code) w t depth fits e) :
    Reads loadStorageEntry (code :: w) t (depth + 1) fits e := by
  have hread : Reads (fun room => readByte room >>= fun entType => loadByType entType room)
      (code :: w) t depth fits e := by
    intro room st rest haffords
    refine congr ((readByte_settles st (w ++ rest) code room).bind
      (fun _ => h room st rest haffords)) ?_
    constructor
    · rintro ⟨hroom, hfits⟩
      exact ⟨hdepth.trans hroom, hroom, hfits⟩
    · exact And.right
  refine guarded_reads ?_ hread
  funext room
  cases room <;> rfl

theorem pod_reads (type : PodType) (v : type.Value) : EntryReads (.pod type v) := by
  intro w hw
  obtain rfl := ok.inj hw
  have hplain : type.code &&& serializeFlagArray = 0 := by
    cases type <;> rfl
  have hload : loadByType type.code = readSePod type := by
    funext room
    rw [loadByType, if_neg (not_not.mpr hplain), switchType_code]
  refine loadStorageEntry_reads (show 2 ≤ 3 by decide) ?_
  rw [hload]
  refine guarded_reads rfl ?_
  intro room st rest _
  have hread := (readPod_settles st rest type v room).map (pod type)
  exact hread.congr ⟨And.left, fun h => ⟨h, rfl⟩⟩

theorem string_reads {v : Bytes} (hlen : v.length < maxStringLenPossible) :
    EntryReads (.string v) := by
  intro w hw
  obtain ⟨body, hbody, hw⟩ := bind_ok hw
  obtain rfl := ok.inj hw
  have hload : loadByType serializeTypeString = readSeString := rfl
  refine loadStorageEntry_reads (show 2 ≤ 7 by decide) ?_
  rw [hload]
  refine guarded_reads rfl ?_
  intro room st rest haffords
  have hwrap : wrap (st.strings + 1) = st.strings + 1 :=
    wrap_of_lt (lt_of_le_of_lt haffords.strings haffords.maxStrings)
  have hfew : wrap (st.strings + 1) ≤ st.maxStrings := by
    rw [hwrap]
    exact haffords.strings
  have hread := (readT_string_settles hbody hlen room (st.after ⟨0, 0, 1⟩ []) rest).map
    string
  refine get_bind (require_bind hfew (modify_bind ?_))
  simp only [withBytes, hwrap]
  exact hread.congr ⟨And.left, fun h => ⟨h, rfl⟩⟩

theorem charge_settles {limit used : BufferReader → Nat}
    {setUsed : Nat → BufferReader → BufferReader} {msg : String} {size : Nat}
    (hsize : used st + size ≤ limit st) (hlimit : limit st < 2 ^ 64) :
    Settles (charge limit used setUsed msg size) st True () (setUsed (used st + size) st) := by
  have hwrap : wrap (used st + size) = used st + size := wrap_of_lt (lt_of_le_of_lt hsize hlimit)
  have hroom : size ≤ wsub (limit st) (used st) := by
    rw [wsub_of_le (by omega) hlimit]
    omega
  refine get_bind (require_bind hroom ⟨fun _ => ?_, fun h => absurd trivial h⟩)
  rw [← hwrap]
  rfl

def sectionBody (room : Nat) : ReadM Section := do
  let count ← readVarint room
  countFields count
  readFields (readSecName room) (loadStorageEntry room) count []

theorem four_le_fieldsDepth (fields : List (Bytes × StorageEntry)) : 4 ≤ fieldsDepth fields := by
  induction fields with
  | nil => exact le_refl 4
  | cons field rest ih =>
    rw [fieldsDepth]
    exact ih.trans (le_max_right _ _)

theorem four_le_sectionsDepth (values : List (List (Bytes × StorageEntry))) :
    4 ≤ sectionsDepth values := by
  induction values with
  | nil => exact le_refl 4
  | cons fields rest ih =>
    rw [sectionsDepth]
    exact ih.trans (le_max_right _ _)

theorem section_reads (hsorted : fields.Sorted) (h : FieldsRead fields) {count : Bytes}
    (hcount : packVarint fields.length = .ok count) (hw : packFields fields = .ok w) :
    Reads readSection (count ++ w) fields.tally fields.depth (fieldsFit fields) fields := by
  have hbody : Reads sectionBody (count ++ w) fields.tally (fieldsDepth fields)
      (fieldsFit fields) fields := by
    intro room st rest haffords
    rw [append_assoc]
    refine congr ((readVarint_settles hcount room st (w ++ rest)).bind
      (d := fieldsDepth fields ≤ room ∧ fieldsFit fields rest.length = true) fun hroom =>
        bind_true (charge_settles haffords.left.fields haffords.maxFields) ?_) ?_
    · have hfields := h w room (st.after ⟨0, fields.length, 0⟩ []) rest [] hw hroom hsorted
        haffords.right
      rw [after_after] at hfields
      exact hfields
    · constructor
      · rintro ⟨hroom, hfits⟩
        exact ⟨(four_le_fieldsDepth fields).trans hroom, hroom, hfits⟩
      · exact And.right
  refine guarded_reads ?_ hbody
  funext room
  cases room <;> rfl

theorem object_reads (hsorted : fields.Sorted) (h : FieldsRead fields) :
    EntryReads (.object fields) := by
  intro w hw
  rw [packEntry] at hw
  obtain ⟨count, hcount, hw⟩ := bind_ok hw
  obtain ⟨body, hbody, hw⟩ := bind_ok hw
  obtain rfl := ok.inj hw
  have hload : loadByType serializeTypeObject = readSeSection := rfl
  have hse : Reads readSeSection (count ++ body) (object fields).tally
      (fields.depth + 1) (fieldsFit fields) (.object fields) := by
    have hinner : Reads (fun room => do
        let st ← get
        require (st.objects < st.maxObjects) "Too many objects"
        modify fun st => { st with objects := st.objects + 1 }
        object <$> readSection room) (count ++ body)
        (object fields).tally fields.depth (fieldsFit fields) (.object fields) := by
      intro room st rest haffords
      rw [StorageEntry.tally] at haffords ⊢
      have hread := (section_reads hsorted h hcount hbody room (st.after ⟨1, 0, 0⟩ []) rest
        haffords.right).map object
      rw [after_after] at hread
      exact get_bind (require_bind haffords.left.objects (modify_bind hread))
    refine guarded_reads ?_ hinner
    funext room
    cases room <;> rfl
  have hentry : Reads loadStorageEntry (serializeTypeObject :: (count ++ body))
      (object fields).tally (fields.depth + 1 + 1) (fieldsFit fields)
      (.object fields) := by
    refine loadStorageEntry_reads (Nat.le_add_left 2 _) ?_
    rw [hload]
    exact hse
  exact hentry

theorem array_flagged (code : UInt8) :
    (code ||| serializeFlagArray) &&& serializeFlagArray ≠ 0 := by
  have hflag : (code ||| serializeFlagArray) &&& serializeFlagArray = serializeFlagArray := by
    apply UInt8.eq_of_toBitVec_eq
    ext i
    rw [UInt8.toBitVec_and, UInt8.toBitVec_or, BitVec.getElem_and, BitVec.getElem_or]
    cases code.toBitVec[i] <;> cases serializeFlagArray.toBitVec[i] <;> rfl
  rw [hflag]
  decide

theorem five_le_arrayDepth (entry : ArrayEntry) : 5 ≤ entry.depth := by
  cases entry with
  | pods type values => exact le_refl 5
  | strings values =>
    rw [ArrayEntry.depth]
    split <;> decide
  | objects values => exact Nat.succ_le_succ (four_le_sectionsDepth values)
  | arrays values => exact le_refl 5

theorem array_entry_reads (h : ArrayReads entry) : EntryReads (.array entry) := by
  intro w hw
  obtain ⟨code, body, rfl, hbody⟩ := h w hw
  have hload : loadByType (code ||| serializeFlagArray) =
      fun room => loadStorageArrayEntry room (code ||| serializeFlagArray) := by
    funext room
    rw [loadByType, if_pos (array_flagged code)]
  refine loadStorageEntry_reads ?_ ?_
  · exact le_trans (by decide) (Nat.le_succ_of_le (five_le_arrayDepth entry))
  · rw [hload]
    exact hbody

theorem loadArray_reads {read : Nat → ReadM ArrayEntry}
    (hread : ∀ room, switchType ((code ||| serializeFlagArray) &&& ~~~serializeFlagArray)
      (fun type => readAePods type room) (readAeStrings room) (readAeSections room)
      (readAeArrays room) = read room) (h : Reads read w t depth fits entry) :
    Reads (fun room => loadStorageArrayEntry room (code ||| serializeFlagArray)) w t (depth + 1)
      fits (.array entry) := by
  have hbody : Reads (fun room => array <$> read room) w t depth fits
      (.array entry) := fun room st rest haffords => (h room st rest haffords).map array
  refine guarded_reads ?_ hbody
  funext room
  cases room with
  | zero => rfl
  | succ room => exact congrArg (array <$> ·) (hread room)

theorem readAe_settles (room : Nat) {n minBytes : Nat} {budget : Nat → ReadM Unit}
    {element : ReadM α} {s₁ s₂ : BufferReader} {p c : Prop} {as : List α}
    (hlen : packVarint n = .ok len) (hp : n ≤ rest.length / minBytes ↔ p)
    (hbudget : Settles (budget n) (st.withBytes rest) True () s₁)
    (htimes : 4 ≤ room → Settles (times element n) s₁ c as s₂) :
    Settles (readAe minBytes budget element room) (st.withBytes (len ++ rest))
      (4 ≤ room ∧ p ∧ c) as s₂ := by
  refine (readVarint_settles hlen room st rest).bind (fun hroom => ?_)
  refine Settles.get_bind (Settles.bind ((Settles.require _ _ _).congr hp.symm) (fun _ => ?_))
  exact Settles.bind_true hbudget (htimes hroom)

theorem pods_read (type : PodType) (values : List type.Value) : ArrayReads (.pods type values) := by
  intro w hw
  rw [packArray] at hw
  obtain ⟨len, hlen, hw⟩ := bind_ok hw
  obtain rfl := ok.inj hw
  have hcode : (type.code ||| serializeFlagArray) &&& ~~~serializeFlagArray = type.code := by
    cases type <;> rfl
  have hpack := packAll_ok type.pack values
  have hsize : values.length * type.size ≤ (values.flatMap type.pack).length :=
    length_packAll (fun v _ w hw => by
      obtain rfl := ok.inj hw
      exact (type.length_pack v).ge) hpack
  have hbody : Reads (fun room => pods type <$>
      readAe type.size countNothing (readT (readPod type) room) room)
      (len ++ values.flatMap type.pack) .zero 4 (fun _ => true) (.pods type values) := by
    intro room st rest _
    have hsane : values.length ≤ (values.flatMap type.pack ++ rest).length / type.size := by
      rw [Nat.le_div_iff_mul_le (by cases type <;> decide), length_append]
      omega
    have helements := times_settles (fun v _ w st rest hw => by
      obtain rfl := ok.inj hw
      exact readT_pod_settles st rest type v room) hpack st rest
    have hnothing : Settles (countNothing values.length)
        (st.withBytes (values.flatMap type.pack ++ rest)) True ()
        (st.withBytes (values.flatMap type.pack ++ rest)) := pure () _
    have hread := readAe_settles room hlen (iff_of_true hsane trivial) hnothing (fun _ => helements)
    rw [append_assoc]
    refine (hread.map (pods type)).congr ?_
    constructor
    · rintro ⟨hroom, -⟩
      exact ⟨hroom, trivial, .inr (by omega)⟩
    · rintro ⟨hroom, -⟩
      exact ⟨hroom, rfl⟩
  have hread : Reads (readAePods type) (len ++ values.flatMap type.pack) .zero 5 (fun _ => true)
      (.pods type values) := guarded_reads rfl hbody
  refine ⟨type.code, _, rfl, loadArray_reads (fun room => ?_) hread⟩
  rw [hcode, switchType_code]

theorem strings_read {values : List Bytes} (hshort : ∀ v ∈ values, v.length < maxStringLenPossible) :
    ArrayReads (.strings values) := by
  intro w hw
  rw [packArray] at hw
  obtain ⟨len, hlen, hw⟩ := bind_ok hw
  obtain ⟨body, hbody, hw⟩ := bind_ok hw
  obtain rfl := ok.inj hw
  have hinner : Reads (fun room => ArrayEntry.strings <$>
      readAe 2 countStrings (readT readString room) room) (len ++ body)
      (strings values).tally (if values.isEmpty then 4 else 6)
      (ArrayEntry.strings values).fits (.strings values) := by
    intro room st rest haffords
    have hcount : Settles (countStrings values.length) (st.withBytes (body ++ rest)) True ()
        ((st.after ⟨0, 0, values.length⟩ []).withBytes (body ++ rest)) :=
      charge_settles haffords.strings haffords.maxStrings
    have helements := times_settles (fun v hv w st rest hw =>
      readT_string_settles hw (hshort v hv) room st rest) hbody
      (st.after ⟨0, 0, values.length⟩ []) rest
    have hsane : values.length ≤ (body ++ rest).length / 2 ↔
        (strings values).fits rest.length = true := by
      rw [Nat.le_div_iff_mul_le (by decide), ArrayEntry.fits, decide_eq_true_iff, hbody,
        packedLength, length_append]
    have hread := readAe_settles room hlen hsane hcount (fun _ => helements)
    rw [append_assoc]
    refine (hread.map strings).congr ?_
    cases values with
    | nil => simp
    | cons v values =>
      simp only [isEmpty_cons, Bool.false_eq_true, if_false, reduceCtorEq, false_or]
      constructor
      · rintro ⟨hroom, hfits⟩
        exact ⟨by omega, hfits, hroom⟩
      · rintro ⟨-, hfits, hroom⟩
        exact ⟨hroom, hfits⟩
  have hdepth : (strings values).depth = (if values.isEmpty then 4 else 6) + 1 := by
    rw [ArrayEntry.depth]
    split <;> rfl
  have hread : Reads readAeStrings (len ++ body) (strings values).tally
      (strings values).depth (strings values).fits (.strings values) := by
    rw [hdepth]
    exact guarded_reads rfl hinner
  exact ⟨serializeTypeString, _, rfl, loadArray_reads (fun _ => rfl) hread⟩

end Jero.Epee
