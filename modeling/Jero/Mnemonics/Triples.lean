import Jero.Common.Base58

namespace Jero.Mnemonics
open Jero.Machine Jero.Lists Jero.Common List Option Nat Base58
variable {a w1 w2 w3 v : Nat}

abbrev Bytes := List UInt8

def wordCount : Nat := 1626

def wrap32 (n : Nat) : Nat := n % 2 ^ 32

def wsub32 (a b : Nat) : Nat := (a + 2 ^ 32 - b) % 2 ^ 32

def encodeTriple (n v : Nat) : Nat × Nat × Nat :=
  let w1 := v % n
  let w2 := wrap32 (v / n + w1) % n
  let w3 := wrap32 (v / n / n + w2) % n
  (w1, w2, w3)

def joinDigits (n low middle high : Nat) : Option Nat :=
  let w0 := wrap32 (wrap32 (low + wrap32 (n * middle)) + wrap32 (wrap32 (n * n) * high))
  if w0 % n = low then some w0 else none

def decodeTriple (n w1 w2 w3 : Nat) : Option Nat :=
  joinDigits n w1 (wrap32 (wsub32 n w1 + w2) % n) (wrap32 (wsub32 n w2 + w3) % n)

def tripleValue (n w1 w2 w3 : Nat) : Nat :=
  w1 + n * ((n - w1 + w2) % n) + n * n * ((n - w2 + w3) % n)

theorem joinDigits_eq {low middle high : Nat} (hlow : low < wordCount) (hmiddle : middle < wordCount)
    (hhigh : high < wordCount) :
    joinDigits wordCount low middle high =
      if low + wordCount * middle + wordCount * wordCount * high < 2 ^ 32 then
        some (low + wordCount * middle + wordCount * wordCount * high)
      else none := by
  have hword : wrap32 (wrap32 (low + wrap32 (wordCount * middle)) +
      wrap32 (wrap32 (wordCount * wordCount) * high)) =
        (low + wordCount * middle + wordCount * wordCount * high) % 2 ^ 32 := by
    simp only [wrap32, wordCount]
    omega
  have htest : (low + wordCount * middle + wordCount * wordCount * high) % 2 ^ 32 % wordCount = low
    ↔ low + wordCount * middle + wordCount * wordCount * high < 2 ^ 32 := by
    simp only [wordCount] at hlow hmiddle hhigh ⊢
    have hsum : low + 1626 * middle + 1626 * 1626 * high = low + 1626 * (middle + 1626 * high) := by
      ring
    have hmany : middle + 1626 * high < 1626 * 1626 := by omega
    rw [hsum]
    generalize middle + 1626 * high = many at hmany
    constructor
    · intro htest
      by_contra hbig
      omega
    · intro hlt
      rw [mod_eq_of_lt hlt, add_mul_mod_self_left, mod_eq_of_lt hlow]
  simp only [joinDigits, hword]
  by_cases hlt : low + wordCount * middle + wordCount * wordCount * high < 2 ^ 32
  · rw [if_pos (htest.mpr hlt), if_pos hlt, mod_eq_of_lt hlt]
  · rw [if_neg (htest.not.mpr hlt), if_neg hlt]

theorem wordCount_pos : 0 < wordCount := by decide

theorem shifted_digit {b : Nat} (ha : a < wordCount) (hb : b < wordCount) :
    wrap32 (wsub32 wordCount a + b) % wordCount = (wordCount - a + b) % wordCount := by
  simp only [wordCount, wrap32, wsub32] at ha hb ⊢
  omega

theorem decodeTriple_eq (h1 : w1 < wordCount) (h2 : w2 < wordCount) (h3 : w3 < wordCount) :
    decodeTriple wordCount w1 w2 w3 =
      if tripleValue wordCount w1 w2 w3 < 2 ^ 32 then some (tripleValue wordCount w1 w2 w3)
      else none := by
  rw [decodeTriple, shifted_digit h1 h2, shifted_digit h2 h3,
    joinDigits_eq h1 (mod_lt _ wordCount_pos) (mod_lt _ wordCount_pos)]
  rfl

theorem unshift_digit {x : Nat} (ha : a < wordCount) :
    (wordCount - a + (x + a) % wordCount) % wordCount = x % wordCount := by
  simp only [wordCount] at ha ⊢
  omega

theorem shift_digit {b : Nat} (ha : a < wordCount) (hb : b < wordCount) :
    ((wordCount - a + b) % wordCount + a) % wordCount = b := by
  simp only [wordCount] at ha hb ⊢
  omega

theorem encodeTriple_eq (h : v < 2 ^ 32) :
    encodeTriple wordCount v =
      (v % wordCount, (v / wordCount + v % wordCount) % wordCount,
        (v / wordCount / wordCount + (v / wordCount + v % wordCount) % wordCount) % wordCount) := by
  simp only [encodeTriple, wrap32]
  have hfirst : v / wordCount + v % wordCount < 2 ^ 32 := by
    simp only [wordCount]
    omega
  have hsecond : v / wordCount / wordCount + (v / wordCount + v % wordCount) % wordCount <
      2 ^ 32 := by
    simp only [wordCount]
    omega
  rw [mod_eq_of_lt hfirst, mod_eq_of_lt hsecond]

theorem tripleValue_encodeTriple (h : v < 2 ^ 32) :
    tripleValue wordCount (encodeTriple wordCount v).1 (encodeTriple wordCount v).2.1
      (encodeTriple wordCount v).2.2 = v := by
  rw [encodeTriple_eq h, tripleValue, unshift_digit (mod_lt _ wordCount_pos),
    unshift_digit (mod_lt _ wordCount_pos)]
  simp only [wordCount]
  omega

theorem encodeTriple_tripleValue (h1 : w1 < wordCount) (h2 : w2 < wordCount) (h3 : w3 < wordCount)
    (h : tripleValue wordCount w1 w2 w3 < 2 ^ 32) :
    encodeTriple wordCount (tripleValue wordCount w1 w2 w3) = (w1, w2, w3) := by
  have hmiddle := mod_lt (wordCount - w1 + w2) wordCount_pos
  have hlow : tripleValue wordCount w1 w2 w3 % wordCount = w1 := by
    simp only [tripleValue, wordCount] at *
    omega
  have hrest : tripleValue wordCount w1 w2 w3 / wordCount =
      (wordCount - w1 + w2) % wordCount + wordCount * ((wordCount - w2 + w3) % wordCount) := by
    simp only [tripleValue, wordCount] at *
    omega
  have htop : ((wordCount - w1 + w2) % wordCount +
      wordCount * ((wordCount - w2 + w3) % wordCount)) / wordCount =
        (wordCount - w2 + w3) % wordCount := by
    rw [add_mul_div_left _ _ wordCount_pos, div_eq_of_lt hmiddle, zero_add]
  have hsecond : ((wordCount - w1 + w2) % wordCount +
      wordCount * ((wordCount - w2 + w3) % wordCount) + w1) % wordCount = w2 := by
    rw [add_right_comm, add_mul_mod_self_left, shift_digit h1 h2]
  rw [encodeTriple_eq h, hlow, hrest, htop, hsecond, shift_digit h2 h3]

theorem encodeTriple_lt (v : Nat) :
    (encodeTriple wordCount v).1 < wordCount ∧ (encodeTriple wordCount v).2.1 < wordCount ∧
      (encodeTriple wordCount v).2.2 < wordCount :=
  ⟨mod_lt _ (by decide), mod_lt _ (by decide), mod_lt _ (by decide)⟩

def uint32le (v : Nat) : Bytes := (digitsAt 256 4 v).map UInt8.ofNat

def encodeIndices (n : Nat) : Bytes → List Nat
  | b0 :: b1 :: b2 :: b3 :: rest =>
    let w := encodeTriple n (littleEndian [b0, b1, b2, b3])
    w.1 :: w.2.1 :: w.2.2 :: encodeIndices n rest
  | _ => []

def decodeIndices (n : Nat) : List Nat → Option Bytes
  | w1 :: w2 :: w3 :: rest =>
    (decodeTriple n w1 w2 w3).bind (fun v => (decodeIndices n rest).map (uint32le v ++ ·))
  | _ => some []

theorem uint32le_littleEndian (b0 b1 b2 b3 : UInt8) :
    uint32le (littleEndian [b0, b1, b2, b3]) = [b0, b1, b2, b3] := by
  have h := uint64To8be_uint8beTo64 [b3, b2, b1, b0]
  exact reverse_injective h

theorem littleEndian_uint32le (h : v < 2 ^ 32) : littleEndian (uint32le v) = v := by
  have hback : uint8beTo64 (uint64To8be v 4) = v :=
    uint8beTo64_uint64To8be (h.trans_le (by norm_num))
  rwa [uint8beTo64, uint64To8be, reverse_reverse] at hback

theorem uint32le_cons (h : v < 2 ^ 32) :
    ∃ b0 b1 b2 b3, uint32le v = [b0, b1, b2, b3] ∧ littleEndian [b0, b1, b2, b3] = v :=
  ⟨_, _, _, _, rfl, littleEndian_uint32le h⟩

theorem littleEndian_four_lt (b0 b1 b2 b3 : UInt8) : littleEndian [b0, b1, b2, b3] < 2 ^ 32 :=
  (littleEndian_lt _).trans_le (by norm_num)

theorem decodeTriple_encodeTriple (h : v < 2 ^ 32) :
    decodeTriple wordCount (encodeTriple wordCount v).1 (encodeTriple wordCount v).2.1
      (encodeTriple wordCount v).2.2 = some v := by
  obtain ⟨h1, h2, h3⟩ := encodeTriple_lt v
  rw [decodeTriple_eq h1 h2 h3, tripleValue_encodeTriple h, if_pos h]

theorem exists_three {k : Nat} {indices : List Nat} (h : indices.length = 3 * (k + 1)) :
    ∃ w1 w2 w3 rest, indices = w1 :: w2 :: w3 :: rest ∧ rest.length = 3 * k := by
  match indices, h with
  | w1 :: w2 :: w3 :: rest, h =>
    simp only [length_cons] at h
    exact ⟨w1, w2, w3, rest, rfl, by omega⟩

theorem encodeIndices_spec (k : Nat) (bytes : Bytes) (h : bytes.length = 4 * k) :
    (encodeIndices wordCount bytes).length = 3 * k ∧
      (∀ w ∈ encodeIndices wordCount bytes, w < wordCount) ∧
      decodeIndices wordCount (encodeIndices wordCount bytes) = some bytes := by
  induction k generalizing bytes with
  | zero =>
    obtain rfl : bytes = [] := length_eq_zero_iff.mp h
    exact ⟨rfl, forall_mem_nil _, rfl⟩
  | succ k ih =>
    obtain ⟨b0, b1, b2, b3, rest, rfl, hlen⟩ : ∃ b0 b1 b2 b3 rest, bytes = b0 :: b1 :: b2 :: b3 ::
      rest ∧ rest.length = 4 * k := by
      match bytes, h with
      | b0 :: b1 :: b2 :: b3 :: rest, h =>
        simp only [length_cons] at h
        exact ⟨b0, b1, b2, b3, rest, rfl, by omega⟩
    obtain ⟨hcount, hlt, hback⟩ := ih rest hlen
    obtain ⟨h1, h2, h3⟩ := encodeTriple_lt (littleEndian [b0, b1, b2, b3])
    simp only [encodeIndices, length_cons, hcount, forall_mem_cons, decodeIndices,
      decodeTriple_encodeTriple (littleEndian_four_lt b0 b1 b2 b3), hback, bind_some,
      map_some, uint32le_littleEndian]
    exact ⟨by omega, ⟨h1, h2, h3, hlt⟩, rfl⟩

theorem encodeIndices_decodeIndices (k : Nat) (indices : List Nat) (hlen : indices.length = 3 * k)
    (hlt : ∀ w ∈ indices, w < wordCount) {bytes : Bytes}
    (h : decodeIndices wordCount indices = some bytes) :
    encodeIndices wordCount bytes = indices ∧ bytes.length = 4 * k := by
  induction k generalizing indices bytes with
  | zero =>
    obtain rfl : indices = [] := length_eq_zero_iff.mp hlen
    cases h
    exact ⟨rfl, rfl⟩
  | succ k ih =>
    obtain ⟨w1, w2, w3, rest, rfl, hrest⟩ := exists_three hlen
    simp only [forall_mem_cons] at hlt
    obtain ⟨h1, h2, h3, hlt⟩ := hlt
    obtain ⟨v, hv, htail⟩ := bind_eq_some_iff.mp h
    obtain ⟨tail, hdecoded, rfl⟩ := map_eq_some_iff.mp htail
    obtain ⟨hback, hcount⟩ := ih rest hrest hlt hdecoded
    rw [decodeTriple_eq h1 h2 h3] at hv
    split at hv
    · rename_i hword
      obtain rfl := some.inj hv
      obtain ⟨b0, b1, b2, b3, hbytes, hvalue⟩ := uint32le_cons hword
      rw [hbytes]
      simp only [cons_append, nil_append, encodeIndices, hvalue,
        encodeTriple_tripleValue h1 h2 h3 hword, hback, length_cons, hcount]
      exact ⟨trivial, by omega⟩
    · cases hv

end Jero.Mnemonics
