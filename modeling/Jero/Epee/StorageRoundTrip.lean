import Jero.Epee.StorageEntries

namespace Jero.Epee
open Jero.Machine Jero.Common BufferReader List Except ArrayEntry Settles
variable {fields : Section} {w name : Bytes} {value : StorageEntry}
  {rest values : List (List (Bytes × StorageEntry))} {acc : Section} {body : Bytes}

theorem packSections_cons {fields : List (Bytes × StorageEntry)}
    (h : packSections (fields :: rest) = .ok w) :
    ∃ count body others, packVarint fields.length = .ok count ∧ packFields fields = .ok body ∧
      packSections rest = .ok others ∧ w = count ++ body ++ others := by
  rw [packSections] at h
  obtain ⟨count, hcount, h⟩ := bind_ok h
  obtain ⟨body, hbody, h⟩ := bind_ok h
  obtain ⟨others, hothers, h⟩ := bind_ok h
  exact ⟨count, body, others, hcount, hbody, hothers, (ok.inj h).symm⟩

theorem packFields_cons {rest : List (Bytes × StorageEntry)}
    (h : packFields ((name, value) :: rest) = .ok w) :
    ∃ head body others, packName name = .ok head ∧ packEntry value = .ok body ∧
      packFields rest = .ok others ∧ w = head ++ body ++ others := by
  rw [packFields] at h
  obtain ⟨head, hhead, h⟩ := bind_ok h
  obtain ⟨body, hbody, h⟩ := bind_ok h
  obtain ⟨others, hothers, h⟩ := bind_ok h
  exact ⟨head, body, others, hhead, hbody, hothers, (ok.inj h).symm⟩

theorem length_le_packSections (h : packSections values = .ok w) : values.length ≤ w.length := by
  induction values generalizing w with
  | nil => exact Nat.zero_le _
  | cons fields rest ih =>
    obtain ⟨count, body, others, hcount, -, hothers, rfl⟩ := packSections_cons h
    have hone := packVarint_ne_nil hcount
    have hrest := ih hothers
    simp only [length_cons, length_append]
    omega

theorem sections_nil_read : SectionsRead [] := by
  intro w room st rest hw hroom _
  obtain rfl := ok.inj hw
  exact (pure _ _).congr (iff_of_true ⟨hroom, rfl⟩ trivial)

theorem sections_cons_read (hsorted : fields.Sorted) (hfields : FieldsRead fields)
    (hrest : SectionsRead rest) : SectionsRead (fields :: rest) := by
  intro w room st after hw hroom haffords
  obtain ⟨count, body, others, hcount, hbody, hothers, rfl⟩ := packSections_cons hw
  have hsection : Reads readTSection (count ++ body) fields.tally (fields.depth + 1)
      (fieldsFit fields) fields := by
    refine guarded_reads ?_ (section_reads hsorted hfields hcount hbody)
    funext room
    cases room <;> rfl
  rw [sectionsTally] at haffords ⊢
  have hhead := hsection room st (others ++ after) haffords.left
  have htail := hrest others room (st.after fields.tally []) after hothers hroom haffords.right
  rw [after_after] at htail
  rw [append_assoc (count ++ body)]
  refine congr (hhead.bind (fun _ => htail.bind_pure (fields :: ·))) ?_
  rw [sectionsDepth, sectionsFit, Bool.and_eq_true, max_le_iff, hothers, packedLength,
    length_append, Section.depth]
  exact and_and_and_comm

theorem objects_read (h : SectionsRead values) : ArrayReads (.objects values) := by
  intro w hw
  rw [packArray] at hw
  obtain ⟨len, hlen, hw⟩ := bind_ok hw
  obtain ⟨body, hbody, hw⟩ := bind_ok hw
  obtain rfl := ok.inj hw
  have hinner : Reads (fun room => ArrayEntry.objects <$>
      readAe 1 countObjects (readTSection room) room) (len ++ body)
      (objects values).tally (sectionsDepth values)
      (ArrayEntry.objects values).fits (.objects values) := by
    intro room st rest haffords
    rw [tally] at haffords ⊢
    have hcount : Settles (countObjects values.length) (st.withBytes (body ++ rest)) True ()
        ((st.after ⟨values.length, 0, 0⟩ []).withBytes (body ++ rest)) :=
      charge_settles haffords.left.objects haffords.maxObjects
    have hsane : values.length ≤ (body ++ rest).length / 1 := by
      have hlen := length_le_packSections hbody
      rw [Nat.div_one, length_append]
      omega
    have helements : 4 ≤ room → Settles (times (readTSection room) values.length)
        ((st.after ⟨values.length, 0, 0⟩ []).withBytes (body ++ rest))
        (sectionsDepth values ≤ room ∧ sectionsFit values rest.length = true) values
        ((st.after ⟨values.length, 0, 0⟩ []).after (sectionsTally values) rest) :=
      fun hroom => h body room _ rest hbody hroom haffords.right
    have hread := readAe_settles room hlen (iff_of_true hsane trivial) hcount helements
    rw [after_after] at hread
    rw [append_assoc]
    refine (hread.map objects).congr ?_
    rw [fits]
    constructor
    · rintro ⟨hroom, hfits⟩
      exact ⟨(four_le_sectionsDepth values).trans hroom, trivial, hroom, hfits⟩
    · exact fun h => h.2.2
  have hread : Reads readAeSections (len ++ body) (objects values).tally
      (objects values).depth (objects values).fits (.objects values) := by
    refine guarded_reads ?_ hinner
    funext room
    cases room <;> rfl
  exact ⟨serializeTypeObject, _, rfl, loadArray_reads (fun _ => rfl) hread⟩

theorem insertEntry_last (h : ∀ e ∈ acc, e.1 < name) :
    insertEntry name value acc = acc ++ [(name, value)] := by
  induction acc with
  | nil => rfl
  | cons e acc ih =>
    obtain ⟨he, hrest⟩ := forall_mem_cons.mp h
    rw [insertEntry, if_pos he, ih hrest, cons_append]

theorem duplicateKey_last (h : ∀ e ∈ acc, e.1 < name) : duplicateKey name acc = false := by
  have hdrop : acc.dropWhile (fun e => decide (e.1 < name)) = [] := by
    induction acc with
    | nil => rfl
    | cons e acc ih =>
      obtain ⟨he, hrest⟩ := forall_mem_cons.mp h
      rw [dropWhile_cons, if_pos (decide_eq_true he)]
      exact ih hrest
  rw [duplicateKey, hdrop]

theorem fields_nil_read : FieldsRead [] := by
  intro w room st rest acc hw hroom _ _
  obtain rfl := ok.inj hw
  rw [append_nil]
  exact (pure _ _).congr (iff_of_true ⟨hroom, rfl⟩ trivial)

theorem fields_cons_read {rest : List (Bytes × StorageEntry)} (hvalue : EntryReads value)
    (hrest : FieldsRead rest) :
    FieldsRead ((name, value) :: rest) := by
  intro w room st after acc hw hroom hsorted haffords
  obtain ⟨head, body, others, hhead, hbody, hothers, rfl⟩ := packFields_cons hw
  have hlast : ∀ e ∈ acc, e.1 < name := by
    intro e he
    exact (pairwise_append.mp hsorted).2.2 e he (name, value) mem_cons_self
  have hfresh : ¬ duplicateKey name acc := by
    rw [duplicateKey_last hlast]
    exact Bool.false_ne_true
  rw [fieldsTally] at haffords ⊢
  have hname := readSecName_settles hhead room st (body ++ (others ++ after))
  have hentry := hvalue body hbody room st (others ++ after) haffords.left
  have hnext : Section.Sorted ((acc ++ [(name, value)]) ++ rest) := by
    rw [append_assoc]
    exact hsorted
  have htail := hrest others room (st.after value.tally []) after (acc ++ [(name, value)]) hothers
    hroom hnext haffords.right
  rw [after_after, append_assoc, ← insertEntry_last hlast] at htail
  rw [append_assoc, append_assoc]
  refine congr (hname.bind (fun _ => require_bind hfresh
    (hentry.bind (fun _ => htail)))) ?_
  rw [fieldsDepth, fieldsFit, Bool.and_eq_true, max_le_iff, hothers, packedLength, length_append]
  constructor
  · rintro ⟨⟨hdepth, hdepths⟩, hfit, hfits⟩
    exact ⟨by omega, ⟨hdepth, hfit⟩, hdepths, hfits⟩
  · rintro ⟨-, ⟨hdepth, hfit⟩, hdepths, hfits⟩
    exact ⟨⟨hdepth, hdepths⟩, hfit, hfits⟩

mutual
theorem StorageEntry.reads : (e : StorageEntry) → e.Plain → EntryReads e
  | .pod type v, _ => pod_reads type v
  | .string _, h => string_reads h
  | .object fields, h => object_reads h.1 (fields_read fields h.2)
  | .array entry, h => array_entry_reads (entry.reads h)
theorem ArrayEntry.reads : (entry : ArrayEntry) → entry.Plain → ArrayReads entry
  | .pods type values, _ => pods_read type values
  | .strings _, h => strings_read h
  | .objects values, h => objects_read (sections_read values h)
  | .arrays _, h => False.elim h
theorem fields_read : (fields : List (Bytes × StorageEntry)) → FieldsPlain fields →
    FieldsRead fields
  | [], _ => fields_nil_read
  | (_, value) :: rest, h => fields_cons_read (value.reads h.1) (fields_read rest h.2)
theorem sections_read : (values : List (List (Bytes × StorageEntry))) → SectionsPlain values →
    SectionsRead values
  | [], _ => sections_nil_read
  | fields :: rest, h =>
    sections_cons_read h.1 (fields_read fields h.2.1) (sections_read rest h.2.2)
end

def Tally.Within (t : Tally) (w : Bytes) : Prop :=
  t.objects ≤ w.length ∧ t.fields ≤ w.length ∧ t.strings ≤ w.length

theorem strings_within {values : List Bytes} {len : Bytes}
    (hbody : packAll putString values = .ok body) :
    (ArrayEntry.strings values).tally.Within
      ((serializeTypeString ||| serializeFlagArray) :: (len ++ body)) := by
  have hstrings : values.length * 1 ≤ body.length := by
    refine length_packAll (fun v _ w hw => ?_) hbody
    obtain ⟨size, hsize, rfl⟩ := putString_form hw
    have hone := packVarint_ne_nil hsize
    rw [length_append]
    omega
  refine ⟨Nat.zero_le _, Nat.zero_le _, ?_⟩
  simp only [tally, length_cons, length_append]
  omega

mutual
theorem StorageEntry.tally_within : (e : StorageEntry) → {w : Bytes} → packEntry e = .ok w →
    e.tally.Within w
  | .pod _ _, _, _ => ⟨Nat.zero_le _, Nat.zero_le _, Nat.zero_le _⟩
  | .string v, w, h => by
    obtain ⟨body, -, hw⟩ := bind_ok h
    obtain rfl := ok.inj hw
    exact ⟨Nat.zero_le _, Nat.zero_le _, Nat.succ_le_succ (Nat.zero_le _)⟩
  | .object fields, w, h => by
    rw [packEntry] at h
    obtain ⟨count, hcount, h⟩ := bind_ok h
    obtain ⟨body, hbody, h⟩ := bind_ok h
    obtain rfl := ok.inj h
    obtain ⟨hobjects, hfields, hstrings⟩ := fieldsTally_within fields hbody
    simp only [StorageEntry.tally, Tally.Within, Tally.add, length_cons, length_append]
    exact ⟨by omega, by omega, by omega⟩
  | .array entry, _, h => entry.tally_within h
theorem ArrayEntry.tally_within : (entry : ArrayEntry) → {w : Bytes} → packArray entry = .ok w →
    entry.tally.Within w
  | .pods _ _, _, _ => ⟨Nat.zero_le _, Nat.zero_le _, Nat.zero_le _⟩
  | .strings values, w, h => by
    rw [packArray] at h
    obtain ⟨len, -, h⟩ := bind_ok h
    obtain ⟨body, hbody, h⟩ := bind_ok h
    obtain rfl := ok.inj h
    exact strings_within hbody
  | .objects values, w, h => by
    rw [packArray] at h
    obtain ⟨len, -, h⟩ := bind_ok h
    obtain ⟨body, hbody, h⟩ := bind_ok h
    obtain rfl := ok.inj h
    obtain ⟨hobjects, hfields, hstrings⟩ := sectionsTally_within values hbody
    simp only [tally, Tally.Within, Tally.add, length_cons, length_append]
    exact ⟨by omega, by omega, by omega⟩
  | .arrays _, _, _ => ⟨Nat.zero_le _, Nat.zero_le _, Nat.zero_le _⟩
theorem fieldsTally_within : (fields : List (Bytes × StorageEntry)) → {w : Bytes} →
    packFields fields = .ok w → (fieldsTally fields).objects ≤ w.length ∧
      fields.length + (fieldsTally fields).fields ≤ w.length ∧
      (fieldsTally fields).strings ≤ w.length
  | [], _, _ => ⟨Nat.zero_le _, Nat.zero_le _, Nat.zero_le _⟩
  | (name, value) :: rest, w, h => by
    obtain ⟨head, body, others, hhead, hbody, hothers, rfl⟩ := packFields_cons h
    obtain ⟨-, -, rfl⟩ := packName_form hhead
    obtain ⟨hobjects, hfields, hstrings⟩ := value.tally_within hbody
    obtain ⟨hobjects', hfields', hstrings'⟩ := fieldsTally_within rest hothers
    simp only [fieldsTally, Tally.add, length_cons, length_append]
    exact ⟨by omega, by omega, by omega⟩
theorem sectionsTally_within : (values : List (List (Bytes × StorageEntry))) → {w : Bytes} →
    packSections values = .ok w → values.length + (sectionsTally values).objects ≤ w.length ∧
      (sectionsTally values).fields ≤ w.length ∧ (sectionsTally values).strings ≤ w.length
  | [], _, _ => ⟨Nat.zero_le _, Nat.zero_le _, Nat.zero_le _⟩
  | fields :: rest, w, h => by
    obtain ⟨count, body, others, hcount, hbody, hothers, rfl⟩ := packSections_cons h
    have hone := packVarint_ne_nil hcount
    obtain ⟨hobjects, hfields, hstrings⟩ := fieldsTally_within fields hbody
    obtain ⟨hobjects', hfields', hstrings'⟩ := sectionsTally_within rest hothers
    simp only [sectionsTally, Tally.add, length_cons, length_append]
    exact ⟨by omega, by omega, by omega⟩
end

theorem start_affords {count : Bytes} (hbody : packFields fields = .ok body)
    (hsize : (count ++ body).length < 2 ^ 64) :
    (start (count ++ body)).Affords fields.tally := by
  obtain ⟨hobjects, hfields, hstrings⟩ := fieldsTally_within fields hbody
  rw [length_append] at hsize
  constructor <;>
    (simp only [start, Section.tally, Tally.add]; omega)

theorem storage_round_trip_iff (fields : Section) (hsorted : fields.Sorted)
    (hplain : FieldsPlain fields) (w : Bytes) (hw : packSection fields = .ok w)
    (hsize : w.length < 2 ^ 64) :
    loadSection w = .ok fields ↔ fields.depth < recursionLimit ∧ fieldsFit fields 0 = true := by
  obtain ⟨count, body, hcount, hbody, rfl⟩ : ∃ count body, packVarint fields.length = .ok count ∧
    packFields fields = .ok body ∧ w = count ++ body := by
    obtain ⟨count, hcount, hw⟩ := bind_ok hw
    obtain ⟨body, hbody, hw⟩ := bind_ok hw
    exact ⟨count, body, hcount, hbody, (ok.inj hw).symm⟩
  have hsome := packVarint_ne_nil hcount
  have hne : (count ++ body).length ≠ 0 := by
    rw [length_append]
    omega
  have hread := section_reads hsorted (fields_read fields hplain) hcount hbody (recursionLimit - 1)
    (start (count ++ body)) [] (start_affords hbody hsize)
  rw [append_nil] at hread
  have hstart : (start (count ++ body)).withBytes (count ++ body) =
      start (count ++ body) := rfl
  rw [hstart] at hread
  have hlimit : fields.depth < recursionLimit ↔ fields.depth ≤ recursionLimit - 1 := by
    simp only [recursionLimit]
    omega
  rw [loadSection, if_neg hne, hlimit]
  constructor
  · intro h
    by_contra hbad
    obtain ⟨e, st, herr⟩ := hread.error hbad
    rw [herr] at h
    cases h
  · intro h
    rw [hread.ok h]

def sampleSection : Section :=
  [([97], .array (.strings [[], [120, 121]])), ([98], .object [([99], .pod .int8 (-1 : Int8))])]

def sampleSectionBlob : Bytes :=
  [8, 1, 97, 138, 8, 0, 8, 120, 121, 1, 98, 12, 4, 1, 99, 4, 255]

theorem sampleSection_round_trip :
    packSection sampleSection = .ok sampleSectionBlob ∧
      loadSection sampleSectionBlob = .ok sampleSection := by
  have hpack : packSection sampleSection = .ok sampleSectionBlob := by decide +kernel
  have hsorted : sampleSection.Sorted :=
    pairwise_pair.mpr (by decide)
  have hinner : Section.Sorted [([99], .pod .int8 (-1 : Int8))] := pairwise_singleton _ _
  have hstrings : ∀ v ∈ ([[], [120, 121]] : List Bytes), v.length < maxStringLenPossible := by
    decide
  have hplain : FieldsPlain sampleSection := ⟨hstrings, ⟨hinner, trivial, trivial⟩, trivial⟩
  exact ⟨hpack, (storage_round_trip_iff sampleSection hsorted hplain sampleSectionBlob hpack
    (by decide)).mpr ⟨by decide, by decide +kernel⟩⟩

def nestedSections : Nat → Section
  | 0 => []
  | n + 1 => [([97], .array (.objects [nestedSections n]))]

theorem nestedSections_sorted (n : Nat) : (nestedSections n).Sorted := by
  cases n with
  | zero => exact List.Pairwise.nil
  | succ n => exact pairwise_singleton _ _

theorem nestedSections_plain (n : Nat) : FieldsPlain (nestedSections n) := by
  induction n with
  | zero => trivial
  | succ n ih => exact ⟨⟨nestedSections_sorted n, ih, trivial⟩, trivial⟩

theorem empty_string_array_rejected :
    (FieldsPlain [([97], .array (.strings [[]]))] ∧
      packSection [([97], .array (.strings [[]]))] = .ok [4, 1, 97, 138, 4, 0] ∧
      (loadSection [4, 1, 97, 138, 4, 0]).isOk = false) ∧
    (FieldsPlain (nestedSections 19) ∧
      ∃ w, packSection (nestedSections 19) = .ok w ∧ (loadSection w).isOk = false) := by
  have hstrings : ∀ v ∈ ([[]] : List Bytes), v.length < maxStringLenPossible := by decide
  refine ⟨⟨⟨hstrings, trivial⟩, rfl, by decide +kernel⟩, nestedSections_plain 19,
    (packSection (nestedSections 19)).toOption.getD [], ?_, ?_⟩
  · decide +kernel
  · decide +kernel

end Jero.Epee
