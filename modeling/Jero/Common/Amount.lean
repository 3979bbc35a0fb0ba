import Mathlib.Data.List.DropRight
import Mathlib.Tactic.FieldSimp
import Jero.Common.Money

namespace Jero.Common
open List Option

def isSpace (c : Char) : Bool := [' ', '\t', '\n', '\x0b', '\x0c', '\r'].contains c

def trim (s : List Char) : List Char := (s.dropWhile isSpace).rdropWhile isSpace

def stripZeros (decimalPoint : Nat) : Nat → List Char → Nat × List Char
  | 0, fraction => (0, fraction)
  | fractionSize + 1, fraction =>
    if decimalPoint < fractionSize + 1 ∧ fraction.getLast? = some '0' then
      stripZeros decimalPoint fractionSize fraction.dropLast
    else (fractionSize + 1, fraction)

def getXtypeFromString (s : List Char) : Option UInt64 :=
  if s.all Char.isDigit ∧ s ≠ [] ∧ textValue s < 2 ^ 64 then some (.ofNat (textValue s)) else none

def readPadded (decimalPoint fractionSize : Nat) (s : List Char) : Option UInt64 :=
  if s = [] then none
  else getXtypeFromString (s ++ List.replicate (decimalPoint - fractionSize) '0')

def parseAmount (decimalPoint : Nat) (strAmount : List Char) : Option UInt64 :=
  let s := trim strAmount
  let whole := s.takeWhile (· != '.')
  match s.dropWhile (· != '.') with
  | [] => readPadded decimalPoint 0 s
  | _ :: fraction =>
    let stripped := stripZeros decimalPoint fraction.length fraction
    if decimalPoint < stripped.1 then none
    else readPadded decimalPoint stripped.1 (whole ++ stripped.2)

def insertMoneyDecimalPoint (defaultDecimalPoint decimalPoint : Nat) (s : List Char) : List Char :=
  let point := if decimalPoint = 2 ^ 32 - 1 then defaultDecimalPoint else decimalPoint
  let padded := s.leftpad (point + 1) '0'
  let cut := padded.length - point
  if point > 0 then padded.take cut ++ '.' :: padded.drop cut else padded

def printMoney (defaultDecimalPoint : Nat) (amount : UInt64) (decimalPoint : Nat) : List Char :=
  insertMoneyDecimalPoint defaultDecimalPoint decimalPoint (Nat.toDigits 10 amount.toNat)

structure Numeral (text whole frac : List Char) : Prop where
  digits : ∀ c ∈ whole ++ frac, c.isDigit = true
  nonempty : whole ++ frac ≠ []
  shape : text = whole ∧ frac = [] ∨ text = whole ++ '.' :: frac

def Denotes (text : List Char) (value : ℚ) : Prop :=
  ∃ whole frac, Numeral text whole frac ∧
    value = (textValue (whole ++ frac) : ℚ) / 10 ^ frac.length

theorem textValue_replicate (s : List Char) (n : Nat) :
    textValue (s ++ List.replicate n '0') = 10 ^ n * textValue s := by
  simp [textValue_append, Nat.ofDigitChars_replicate_zero]

theorem stripZeros_spec (point : Nat) (fraction : List Char) :
    ∃ kept zeros, stripZeros point fraction.length fraction = (kept.length, kept) ∧
      fraction = kept ++ List.replicate zeros '0' := by
  induction fraction using reverseRecOn with
  | nil => exact ⟨[], 0, rfl, rfl⟩
  | append_singleton fraction c ih =>
    rw [length_append, length_singleton, stripZeros]
    split
    · rename_i hzero
      obtain ⟨kept, zeros, hkept, hfraction⟩ := ih
      obtain rfl : c = '0' := by simpa using hzero.2
      refine ⟨kept, zeros + 1, by rw [dropLast_concat, hkept], ?_⟩
      rw [replicate_succ', ← append_assoc, ← hfraction]
    · exact ⟨fraction ++ [c], 0, by simp, by simp⟩

theorem stripZeros_self (fraction : List Char) :
    stripZeros fraction.length fraction.length fraction = (fraction.length, fraction) := by
  cases fraction <;> simp [stripZeros]

section
variable {point fractionSize : Nat} {s whole frac : List Char} {n : UInt64}

theorem readPadded_some (h : readPadded point fractionSize s = some n) :
    s ≠ [] ∧ (∀ c ∈ s, c.isDigit = true) ∧
      10 ^ (point - fractionSize) * textValue s = n.toNat := by
  simp only [readPadded, getXtypeFromString, ite_none_left_eq_some,
    ite_none_right_eq_some, some.injEq] at h
  obtain ⟨hne, ⟨hdigits, -, hlt⟩, rfl⟩ := h
  refine ⟨hne, fun c hc => List.all_eq_true.mp hdigits c (mem_append_left _ hc), ?_⟩
  rw [← textValue_replicate, UInt64.toNat_ofNat_of_lt' hlt]

theorem readPadded_full (hdigits : ∀ c ∈ s, c.isDigit = true) (hne : s ≠ [])
    (hvalue : textValue s = n.toNat) : readPadded point point s = some n := by
  simpa [readPadded, getXtypeFromString, hne, hvalue] using ⟨hdigits, n.toNat_lt⟩

theorem trim_of_visible (h : ∀ c ∈ s, isSpace c = false) : trim s = s := by
  have hleft : s.dropWhile isSpace = s := by
    cases s with
    | nil => rfl
    | cons c s => rw [dropWhile_cons_of_neg (by simp [h c])]
  rw [trim, hleft, rdropWhile_eq_self_iff]
  intro hne
  simp [h _ (getLast_mem hne)]

theorem isSpace_digit {c : Char} (h : c.isDigit = true) : isSpace c = false := by
  have hlow := (Char.isDigit_iff_toNat.mp h).1
  simp only [isSpace, contains_eq_mem, decide_eq_false_iff_not, mem_cons, not_mem_nil, or_false]
  rintro (rfl | rfl | rfl | rfl | rfl | rfl) <;> exact absurd hlow (by decide)

theorem parseAmount_numeral (hdigits : ∀ c ∈ whole ++ frac, c.isDigit = true)
    (hne : whole ++ frac ≠ []) (hvalue : textValue (whole ++ frac) = n.toNat) :
    parseAmount frac.length (if frac = [] then whole else whole ++ '.' :: frac) = some n := by
  have hread : readPadded frac.length frac.length _ = some n := readPadded_full hdigits hne hvalue
  obtain ⟨hwhole, hfrac⟩ := forall_mem_append.mp hdigits
  have hclear : ∀ c ∈ whole, (c != '.') = true := by
    intro c hc
    refine bne_iff_ne.mpr ?_
    rintro rfl
    exact absurd (hwhole _ hc) (by decide)
  have hspaces : ∀ c ∈ whole ++ '.' :: frac, isSpace c = false := by
    rw [forall_mem_append, forall_mem_cons]
    exact ⟨fun c hc => isSpace_digit (hwhole c hc), rfl, fun c hc => isSpace_digit (hfrac c hc)⟩
  split
  · rename_i hnil
    subst hnil
    have htrim : trim whole = whole := trim_of_visible (forall_mem_append.mp hspaces).1
    simpa [parseAmount, htrim, dropWhile_eq_nil_iff.mpr hclear] using hread
  · simpa [parseAmount, trim_of_visible hspaces, dropWhile_append_of_pos hclear,
      takeWhile_append_of_pos hclear, stripZeros_self] using hread

end

theorem amount_text_exact (point : Nat) (amount : UInt64) :
    parseAmount point (printMoney point amount (2 ^ 32 - 1)) = some amount ∧
      ∀ text n, parseAmount point text = some n →
        ∃ value, Denotes (trim text) value ∧ value * 10 ^ point = n.toNat := by
  constructor
  · have hdigits : ∀ c ∈ (Nat.toDigits 10 amount.toNat).leftpad (point + 1) '0',
        c.isDigit = true := by
      rw [leftpad, forall_mem_append]
      exact ⟨fun c hc => eq_of_mem_replicate hc ▸ rfl,
        fun c => Nat.isDigit_of_mem_toDigits (by norm_num) le_rfl⟩
    have hvalue : textValue ((Nat.toDigits 10 amount.toNat).leftpad (point + 1) '0') =
        amount.toNat := by
      rw [leftpad, textValue_append]
      simp [Nat.ofDigitChars_replicate_zero, textValue, Nat.ofDigitChars_ten_toDigits]
    have hlong : point + 1 ≤ ((Nat.toDigits 10 amount.toNat).leftpad (point + 1) '0').length := by
      simp only [leftpad, length_append, length_replicate]
      omega
    rw [printMoney, insertMoneyDecimalPoint, if_pos rfl]
    generalize (Nat.toDigits 10 amount.toNat).leftpad (point + 1) '0' = padded at *
    rw [← take_append_drop (padded.length - point) padded] at hdigits hvalue
    have hlen : (padded.drop (padded.length - point)).length = point := by
      rw [length_drop]
      omega
    have hne : padded.take (padded.length - point) ++ padded.drop (padded.length - point) ≠ [] := by
      rw [take_append_drop]
      exact ne_nil_of_length_pos (by omega)
    have hparsed := parseAmount_numeral hdigits hne hvalue
    rw [hlen] at hparsed
    by_cases hpoint : point > 0
    · rw [if_neg (ne_nil_of_length_pos (by omega))] at hparsed
      simpa [hpoint] using hparsed
    · obtain rfl : point = 0 := by omega
      simpa using hparsed
  · intro text n h
    have hsplit := takeWhile_append_dropWhile (p := (· != '.')) (l := trim text)
    simp only [parseAmount] at h
    split at h
    · obtain ⟨hne, hdigits, hn⟩ := readPadded_some h
      refine ⟨textValue (trim text), ⟨trim text, [], ⟨?_, ?_, .inl ⟨rfl, rfl⟩⟩, by simp⟩, ?_⟩
      · simpa using hdigits
      · simpa using hne
      · simp [← hn, mul_comm]
    · rename_i c fraction hdrop
      obtain ⟨kept, zeros, hstrip, rfl⟩ := stripZeros_spec point fraction
      rw [hstrip, ite_none_left_eq_some] at h
      obtain ⟨hne, hdigits, hn⟩ := readPadded_some h.2
      obtain ⟨pad, rfl⟩ := Nat.exists_eq_add_of_le (not_lt.mp h.1)
      have hpoint := head_dropWhile_not (· != '.') (l := trim text) (by simp [hdrop])
      simp only [hdrop, head_cons, bne_eq_false_iff_eq] at hpoint
      rw [hdrop, hpoint] at hsplit
      refine ⟨_, ⟨_, _, ⟨?_, ?_, .inr hsplit.symm⟩, rfl⟩, ?_⟩
      · rw [← append_assoc, forall_mem_append]
        exact ⟨hdigits, fun d hd => eq_of_mem_replicate hd ▸ rfl⟩
      · rw [← append_assoc]
        exact append_ne_nil_of_left_ne_nil hne _
      · rw [← append_assoc, textValue_replicate, ← hn, Nat.add_sub_cancel_left]
        simp only [length_append, length_replicate, pow_add]
        push_cast
        field_simp

end Jero.Common
