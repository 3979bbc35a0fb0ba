import Jero.Ringct.Simple

namespace Jero.Crypto
open Jero.Machine Jero.Common

def load4 (input : List UInt8) : Nat :=
  (input.getD 0 0).toNat ||| (input.getD 1 0).toNat <<< 8 ||| (input.getD 2 0).toNat <<< 16 |||
    (input.getD 3 0).toNat <<< 24

def signum (a : Int) : Int := if a > 0 then 1 else if a < 0 then -1 else 0

def signedLshift (a : Int) (b : Nat) : Int := a * 2 ^ b

def scCheck (s : Vector UInt8 32) : Int :=
  let word := fun i => (load4 (s.toList.drop (4 * i)) : Int)
  let difference := signum (1559614444 - word 0) + signedLshift (signum (1477600026 - word 1)) 1 +
    signedLshift (signum (2734136534 - word 2)) 2 + signedLshift (signum (350157278 - word 3)) 3 +
    signedLshift (signum (-word 4)) 4 + signedLshift (signum (-word 5)) 5 +
    signedLshift (signum (-word 6)) 6 + signedLshift (signum (268435456 - word 7)) 7
  if 0 > difference then -1 else 0

def signSum : List Nat → List UInt8 → Int
  | [], _ => 0
  | bound :: bounds, input => signum (bound - load4 input) + 2 * signSum bounds (input.drop 4)

def fromWords : List Nat → Nat
  | [] => 0
  | word :: words => word + 2 ^ 32 * fromWords words

theorem littleEndian_load4 {input : List UInt8} (h : 4 ≤ input.length) :
    load4 input < 2 ^ 32 ∧
      littleEndian input = load4 input + 2 ^ 32 * littleEndian (input.drop 4) := by
  match input with
  | a :: b :: c :: d :: rest =>
    have ha := a.toNat_lt
    have hb := b.toNat_lt
    have hc := c.toNat_lt
    have hd := d.toNat_lt
    have hload : load4 (a :: b :: c :: d :: rest) =
        a.toNat + b.toNat * 2 ^ 8 + c.toNat * 2 ^ 16 + d.toNat * 2 ^ 24 := by
      change a.toNat ||| b.toNat <<< 8 ||| c.toNat <<< 16 ||| d.toNat <<< 24 = _
      rw [place_or ha, place_or (show _ < 2 ^ 16 by omega), place_or (show _ < 2 ^ 24 by omega)]
    rw [hload]
    simp only [littleEndian, List.drop_succ_cons, List.drop_zero]
    omega

theorem signSum_agrees {bounds : List Nat} (hbounds : ∀ bound ∈ bounds, bound < 2 ^ 32)
    {input : List UInt8} (h : input.length = 4 * bounds.length) :
    (signSum bounds input < 0 ↔ fromWords bounds < littleEndian input) ∧
      (0 < signSum bounds input ↔ littleEndian input < fromWords bounds) := by
  induction bounds generalizing input with
  | nil =>
    rw [List.length_eq_zero_iff.mp h]
    simp [signSum, fromWords, littleEndian]
  | cons bound bounds ih =>
    obtain ⟨hbound, hbounds⟩ := List.forall_mem_cons.mp hbounds
    rw [List.length_cons] at h
    obtain ⟨hneg, hpos⟩ := @ih hbounds (input.drop 4) (by rw [List.length_drop]; omega)
    obtain ⟨hload, hvalue⟩ := @littleEndian_load4 input (by omega)
    rw [hvalue, signSum, fromWords, signum]
    split_ifs <;> omega

def largestScalar : List Nat :=
  [1559614444, 1477600026, 2734136534, 350157278, 0, 0, 0, 268435456]

theorem fromWords_largestScalar : fromWords largestScalar + 1 = Ringct.groupOrder := by decide

theorem sc_check_iff_lt_group_order (s : Vector UInt8 32) :
    scCheck s = 0 ↔ littleEndian s.toList < Ringct.groupOrder := by
  obtain ⟨hneg, -⟩ := @signSum_agrees largestScalar (by decide) s.toList (by simp [largestScalar])
  have hsum : scCheck s = if 0 > signSum largestScalar s.toList then -1 else 0 := by
    rw [scCheck, largestScalar]
    simp only [signSum, List.drop_drop, signedLshift]
    norm_num
    ring_nf
  rw [hsum, ← fromWords_largestScalar, Nat.lt_succ_iff, ← not_lt, ← hneg]
  split_ifs with hbeyond
  · simpa using hbeyond
  · simpa using hbeyond

end Jero.Crypto
