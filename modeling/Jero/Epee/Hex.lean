import Jero.Common.Varint

namespace Jero.Epee
open Jero.Common List

def hex : Bytes :=
  [0x30, 0x31, 0x32, 0x33, 0x34, 0x35, 0x36, 0x37, 0x38, 0x39, 0x61, 0x62, 0x63, 0x64, 0x65, 0x66]

def isx : Bytes :=
  replicate 48 0xff ++ [0, 1, 2, 3, 4, 5, 6, 7, 8, 9] ++ replicate 7 0xff ++
    [10, 11, 12, 13, 14, 15] ++ replicate 26 0xff ++ [10, 11, 12, 13, 14, 15] ++ replicate 153 0xff

def atolower (c : UInt8) : UInt8 := if 0x41 ≤ c ∧ c ≤ 0x5a then c ||| 32 else c

def writeHex (byte : UInt8) : Bytes :=
  [hex.getD (byte >>> 4).toNat 0, hex.getD (byte &&& 0x0f).toNat 0]

def toHexString (src : Bytes) : Except String Bytes :=
  if (2 ^ 64 - 1) / 2 < src.length then .error "hex_view::to_string exceeded maximum size"
  else .ok (src.flatMap writeHex)

def readPairs (digit : UInt8 → Option UInt8) : Bytes → Option Bytes
  | c :: d :: s => do
    let high ← digit c
    let low ← digit d
    let rest ← readPairs digit s
    some ((high <<< 4 ||| low) :: rest)
  | _ => some []

def tableDigit (c : UInt8) : Option UInt8 :=
  let tmp := isx.getD c.toNat 0xff
  if tmp = 0xff then none else some tmp

def strchrDigit (c : UInt8) : Option UInt8 :=
  ((hex ++ [0]).idxOf? (atolower c)).map UInt8.ofNat

def fromHexToString (src : Bytes) : Option Bytes :=
  if src.length % 2 ≠ 0 then none else readPairs tableDigit src

def parseHexstr (s : Bytes) : Option Bytes :=
  if s.length % 2 ≠ 0 then none else readPairs strchrDigit s

def included (input : UInt8) : Bool :=
  !(input == 0x20 || (0x09 ≤ input && input ≤ 0x0d)) && input != 0x3a

def charToInt (input : UInt8) : Except String UInt8 :=
  match atolower input with
  | 0x30 => .ok 0
  | 0x31 => .ok 1
  | 0x32 => .ok 2
  | 0x33 => .ok 3
  | 0x34 => .ok 4
  | 0x35 => .ok 5
  | 0x36 => .ok 6
  | 0x37 => .ok 7
  | 0x38 => .ok 8
  | 0x39 => .ok 9
  | 0x61 => .ok 10
  | 0x62 => .ok 11
  | 0x63 => .ok 12
  | 0x64 => .ok 13
  | 0x65 => .ok 14
  | 0x66 => .ok 15
  | _ => .error "Invalid hexadecimal input"

def localeLoop : Option UInt8 → Bytes → Except String Bytes
  | none, [] => .ok []
  | some _, [] => .error "Invalid hexadecimal input"
  | pending, c :: data =>
    if included c then do
      let digit ← charToInt c
      match pending with
      | none => localeLoop (some digit) data
      | some high => do
        let rest ← localeLoop none data
        .ok ((high <<< 4 ||| digit) :: rest)
    else localeLoop pending data

def fromHexLocaleToVector (src : Bytes) : Except String Bytes :=
  if src.countP included % 2 ≠ 0 then .error "Invalid hexadecimal input length"
  else localeLoop none src

def HexDigit (c : UInt8) : Prop :=
  (0x30 ≤ c ∧ c ≤ 0x39) ∨ (0x61 ≤ c ∧ c ≤ 0x66) ∨ (0x41 ≤ c ∧ c ≤ 0x46)

instance (c : UInt8) : Decidable (HexDigit c) := by
  unfold HexDigit
  infer_instance

def HexText (s : Bytes) : Prop := s.length % 2 = 0 ∧ ∀ c ∈ s, HexDigit c

structure ReadersAgree (s : Bytes) : Prop where
  table : (fromHexToString s).isSome = true ↔ HexText s
  strchr : (parseHexstr s).isSome = true ↔ HexText s
  locale : (∀ c ∈ s, included c = true) → ((∃ b, fromHexLocaleToVector s = .ok b) ↔ HexText s)
  bytes : HexText s → ∃ b, fromHexToString s = some b ∧ parseHexstr s = some b ∧
    fromHexLocaleToVector s = .ok b ∧ toHexString b = .ok (s.map atolower)

theorem forall_byte {P : UInt8 → Prop} (h : ∀ n : Fin 256, P (UInt8.ofNat n)) (c : UInt8) :
    P c := by
  have hc := h ⟨c.toNat, c.toNat_lt⟩
  rwa [UInt8.ofNat_toNat] at hc

def digitValue (c : UInt8) : UInt8 := isx.getD c.toNat 0xff

theorem digit_accepted : ∀ c, HexDigit c → tableDigit c = some (digitValue c) ∧
    strchrDigit c = some (digitValue c) ∧ charToInt c = .ok (digitValue c) ∧
    included c = true ∧ digitValue c < 16 ∧ hex.getD (digitValue c).toNat 0 = atolower c :=
  forall_byte (by decide +kernel)

theorem digit_iff : ∀ c, ((tableDigit c).isSome = true ↔ HexDigit c) ∧
    ((strchrDigit c).isSome = true ↔ c = 0 ∨ HexDigit c) ∧
    ((charToInt c).isOk = true → HexDigit c) :=
  forall_byte (by decide +kernel)

theorem writeHex_pair (h l : UInt8) (hh : h < 16) (hl : l < 16) :
    writeHex (h <<< 4 ||| l) = [hex.getD h.toNat 0, hex.getD l.toNat 0] := by
  have hall : ∀ h l : Fin 16, writeHex (UInt8.ofNat h <<< 4 ||| UInt8.ofNat l) =
      [hex.getD (UInt8.ofNat h).toNat 0, hex.getD (UInt8.ofNat l).toNat 0] := by decide +kernel
  have hpair := hall ⟨h.toNat, hh⟩ ⟨l.toNat, hl⟩
  simpa only [UInt8.ofNat_toNat] using hpair

variable {s : Bytes}

theorem isSome_readPairs (digit : UInt8 → Option UInt8) :
    (if s.length % 2 ≠ 0 then none else readPairs digit s).isSome = true ↔
      s.length % 2 = 0 ∧ ∀ c ∈ s, (digit c).isSome = true := by
  by_cases hs : s.length % 2 = 0
  · rw [if_neg (not_not.mpr hs), and_iff_right hs]
    induction s using List.twoStepInduction with
    | nil => simp [readPairs]
    | singleton c => cases hs
    | cons_cons c d s ih _ =>
      rw [forall_mem_cons, forall_mem_cons, ← ih ((Nat.add_mod_right _ 2).symm.trans hs), readPairs]
      cases digit c <;> cases digit d <;> cases readPairs digit s <;> simp
  · simp [hs]

theorem localeLoop_digits {pending : Option UInt8} {b : Bytes}
    (hs : ∀ c ∈ s, included c = true) (h : localeLoop pending s = .ok b) :
    ∀ c ∈ s, HexDigit c := by
  induction s generalizing pending b with
  | nil => exact nofun
  | cons c s ih =>
    obtain ⟨hc, hs⟩ := forall_mem_cons.mp hs
    rw [localeLoop, if_pos hc] at h
    obtain ⟨digit, hdigit, h⟩ := Machine.bind_ok h
    refine forall_mem_cons.mpr ⟨?_, ?_⟩
    · exact (digit_iff c).2.2 (by rw [hdigit]; rfl)
    · cases pending with
      | none => exact ih hs h
      | some high =>
        obtain ⟨rest, hrest, -⟩ := Machine.bind_ok h
        exact ih hs hrest

theorem hexText_read (hs : HexText s) :
    ∃ b, readPairs tableDigit s = some b ∧ readPairs strchrDigit s = some b ∧
      localeLoop none s = .ok b ∧ b.flatMap writeHex = s.map atolower := by
  obtain ⟨heven, hdigits⟩ := hs
  induction s using List.twoStepInduction with
  | nil => exact ⟨[], rfl, rfl, rfl, rfl⟩
  | singleton c => cases heven
  | cons_cons c d s ih _ =>
    obtain ⟨hc, hd, hs⟩ : HexDigit c ∧ HexDigit d ∧ ∀ e ∈ s, HexDigit e := by
      simpa only [forall_mem_cons] using hdigits
    obtain ⟨b, htable, hstrchr, hlocale, hshown⟩ := ih ((Nat.add_mod_right _ 2).symm.trans heven) hs
    obtain ⟨ct, cs, cl, ci, csmall, cshown⟩ := digit_accepted c hc
    obtain ⟨dt, ds, dl, di, dsmall, dshown⟩ := digit_accepted d hd
    refine ⟨(digitValue c <<< 4 ||| digitValue d) :: b, ?_, ?_, ?_, ?_⟩
    · rw [readPairs, ct, dt, htable]
      rfl
    · rw [readPairs, cs, ds, hstrchr]
      rfl
    · rw [localeLoop, if_pos ci, cl]
      simp only [Machine.ok_bind]
      rw [localeLoop, if_pos di, dl, hlocale]
      rfl
    · rw [flatMap_cons, writeHex_pair _ _ csmall dsmall, cshown, dshown, hshown]
      rfl

theorem hex_readers_agree_iff (s : Bytes) (hsize : s.length < 2 ^ 64) :
    ReadersAgree s ↔ ¬ (s.length % 2 = 0 ∧ 0 ∈ s ∧ ∀ c ∈ s, c = 0 ∨ HexDigit c) := by
  have hstrchr : (parseHexstr s).isSome = true ↔
      s.length % 2 = 0 ∧ ∀ c ∈ s, c = 0 ∨ HexDigit c := by
    simpa only [parseHexstr, digit_iff] using isSome_readPairs strchrDigit
  constructor
  · rintro h ⟨heven, hzero, hall⟩
    exact absurd ((h.strchr.mp (hstrchr.mpr ⟨heven, hall⟩)).2 0 hzero) (by decide)
  · intro h
    refine ⟨?_, ?_, ?_, ?_⟩
    · simpa only [fromHexToString, HexText, digit_iff] using isSome_readPairs tableDigit
    · rw [hstrchr]
      constructor
      · rintro ⟨heven, hall⟩
        refine ⟨heven, fun c hc => (hall c hc).resolve_left ?_⟩
        rintro rfl
        exact h ⟨heven, hc, hall⟩
      · exact fun ht => ⟨ht.1, fun c hc => .inr (ht.2 c hc)⟩
    · intro hkept
      rw [fromHexLocaleToVector, countP_eq_length.mpr hkept]
      constructor
      · rintro ⟨b, hb⟩
        split at hb
        · cases hb
        · rename_i heven
          exact ⟨not_not.mp heven, localeLoop_digits hkept hb⟩
      · intro ht
        obtain ⟨b, -, -, hlocale, -⟩ := hexText_read ht
        exact ⟨b, by rw [if_neg (not_not.mpr ht.1), hlocale]⟩
    · intro ht
      obtain ⟨b, htable, hstrchr, hlocale, hshown⟩ := hexText_read ht
      have heven := not_not.mpr ht.1
      have hkept : s.countP included = s.length :=
        countP_eq_length.mpr fun c hc => (digit_accepted c (ht.2 c hc)).2.2.2.1
      have hlength : b.length * 2 = s.length := by
        have hcount := congrArg length hshown
        rw [length_flatMap, length_map] at hcount
        simpa [writeHex] using hcount
      refine ⟨b, (if_neg heven).trans htable, (if_neg heven).trans hstrchr, ?_, ?_⟩
      · rw [fromHexLocaleToVector, hkept, if_neg heven, hlocale]
      · rw [toHexString, if_neg (by omega), hshown]

theorem hex_readers_agree_on_upper_case : ReadersAgree [0x34, 0x41] :=
  (hex_readers_agree_iff [0x34, 0x41] (by decide)).mpr (by decide)

theorem nul_pair_parsed :
    parseHexstr [0, 0] = some [0x10] ∧ fromHexToString [0, 0] = none ∧ ¬ ReadersAgree [0, 0] := by
  refine ⟨by decide, by decide, fun h => ?_⟩
  exact absurd ((h.strchr.mp (by decide)).2 0 (by decide)) (by decide)

end Jero.Epee
