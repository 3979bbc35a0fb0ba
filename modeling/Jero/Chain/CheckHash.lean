import Jero.Machine.Bytes

namespace Jero.Chain
open Jero.Machine List

structure CryptoHash where
  data : List UInt8
  size : data.length = 32
deriving DecidableEq

namespace CryptoHash
variable (hash : CryptoHash)

def value : Nat := littleEndian hash.data

def loadU64FromHash (index : Nat) : Nat := littleEndian ((hash.data.drop (index * 8)).take 8)

def checkHash64With (mul : Nat → Nat → Nat × Nat) (difficulty : Nat) : Bool :=
  let (top, high) := mul (hash.loadU64FromHash 3) difficulty
  if high ≠ 0 then false
  else
    let (_, cur) := mul (hash.loadU64FromHash 0) difficulty
    let (low, high) := mul (hash.loadU64FromHash 1) difficulty
    let carry := cadd cur low
    let cur := high
    let (low, high) := mul (hash.loadU64FromHash 2) difficulty
    let carry := cadc cur low carry
    !cadc high top carry

def checkHash64 (difficulty : Nat) : Bool := hash.checkHash64With mul64 difficulty

def checkHash64Portable (difficulty : Nat) : Bool := hash.checkHash64With mul64Portable difficulty

def hashVal : Nat :=
  (List.range 4).foldl (fun val i => val <<< 64 % 2 ^ 512 ||| hash.loadU64FromHash (3 - i)) 0

def checkHash128 (difficulty : Nat) : Bool :=
  decide (hash.hashVal * difficulty % 2 ^ 512 ≤ 2 ^ 256 - 1)

def checkHash (difficulty : Nat) : Bool :=
  if difficulty ≤ 2 ^ 64 - 1 then hash.checkHash64 (wrap difficulty)
  else hash.checkHash128 difficulty

theorem loadU64FromHash_lt (index : Nat) : hash.loadU64FromHash index < 2 ^ 64 := by
  have hlt := littleEndian_lt ((hash.data.drop (index * 8)).take 8)
  have hpow : 256 ^ ((hash.data.drop (index * 8)).take 8).length ≤ 256 ^ 8 :=
    Nat.pow_le_pow_right (by norm_num) (length_take_le _ _)
  exact lt_of_lt_of_le hlt (hpow.trans (by norm_num))

theorem littleEndian_drop {n : Nat} (h : n + 8 ≤ 32) :
    littleEndian (hash.data.drop n) =
      littleEndian ((hash.data.drop n).take 8) + 2 ^ 64 * littleEndian (hash.data.drop (n + 8)) := by
  have hlen : ((hash.data.drop n).take 8).length = 8 := by
    rw [length_take, length_drop, hash.size]
    omega
  conv_lhs => rw [← take_append_drop 8 (hash.data.drop n)]
  rw [littleEndian_append, hlen, drop_drop, show 256 ^ 8 = 2 ^ 64 from rfl]

theorem value_eq : hash.value = hash.loadU64FromHash 0 + 2 ^ 64 * (hash.loadU64FromHash 1 +
    2 ^ 64 * (hash.loadU64FromHash 2 + 2 ^ 64 * hash.loadU64FromHash 3)) := by
  have hend : hash.data.drop 32 = [] := drop_eq_nil_of_le hash.size.le
  have h0 := hash.littleEndian_drop (show 0 + 8 ≤ 32 by norm_num)
  have h1 := hash.littleEndian_drop (show 8 + 8 ≤ 32 by norm_num)
  have h2 := hash.littleEndian_drop (show 16 + 8 ≤ 32 by norm_num)
  have h3 := hash.littleEndian_drop (show 24 + 8 ≤ 32 by norm_num)
  rw [hend] at h3
  rw [h3] at h2
  rw [h2] at h1
  rw [h1] at h0
  exact h0

theorem hashVal_eq : hash.hashVal = hash.value := by
  have h0 := hash.loadU64FromHash_lt 0
  have h1 := hash.loadU64FromHash_lt 1
  have h2 := hash.loadU64FromHash_lt 2
  have h3 := hash.loadU64FromHash_lt 3
  have hor : ∀ {val word : Nat}, word < 2 ^ 64 → val < 2 ^ 192 →
      val <<< 64 % 2 ^ 512 ||| word = word + 2 ^ 64 * val := by
    intro val word hword hval
    rw [Nat.shiftLeft_eq, Nat.mod_eq_of_lt (by omega), mul_comm,
      ← Nat.two_pow_add_eq_or_of_lt hword, add_comm]
  have hfold : hash.hashVal = (((0 <<< 64 % 2 ^ 512 ||| hash.loadU64FromHash 3) <<< 64 % 2 ^ 512 |||
      hash.loadU64FromHash 2) <<< 64 % 2 ^ 512 ||| hash.loadU64FromHash 1) <<< 64 % 2 ^ 512 |||
      hash.loadU64FromHash 0 := rfl
  rw [hfold, hor h3 (by norm_num), hor h2 (by omega), hor h1 (by omega), hor h0 (by omega),
    hash.value_eq]
  rfl

theorem value_lt : hash.value < 2 ^ 256 := by
  have hlt := littleEndian_lt hash.data
  rw [hash.size] at hlt
  exact hlt.trans_le (by norm_num)

variable {difficulty : Nat}

theorem checkHash128_iff (hd : difficulty < 2 ^ 128) :
    hash.checkHash128 difficulty = true ↔ hash.value * difficulty < 2 ^ 256 := by
  have hfits : hash.value * difficulty < 2 ^ 256 * 2 ^ 256 :=
    Nat.mul_lt_mul'' hash.value_lt (hd.trans_le (Nat.pow_le_pow_right Nat.two_pos (by norm_num)))
  rw [← pow_add] at hfits
  rw [checkHash128, hashVal_eq, Nat.mod_eq_of_lt hfits, decide_eq_true_iff]
  omega

theorem checkHash64_iff (hd : difficulty < 2 ^ 64) :
    hash.checkHash64 difficulty = true ↔ hash.value * difficulty < 2 ^ 256 := by
  have hlow : ∀ index, (mul64 (hash.loadU64FromHash index) difficulty).1 < 2 ^ 64 :=
    fun index => wrap_lt _
  have hhigh : ∀ index, (mul64 (hash.loadU64FromHash index) difficulty).2 < 2 ^ 64 := by
    intro index
    refine Nat.div_lt_of_lt_mul ?_
    exact (Nat.mul_lt_mul'' (hash.loadU64FromHash_lt index) hd).trans_le (by norm_num)
  have hproduct : hash.value * difficulty = hash.loadU64FromHash 0 * difficulty + 2 ^ 64 *
      (hash.loadU64FromHash 1 * difficulty + 2 ^ 64 * (hash.loadU64FromHash 2 * difficulty +
        2 ^ 64 * (hash.loadU64FromHash 3 * difficulty))) := by
    rw [value_eq]
    ring
  rw [hproduct, mul64_eq (hash.loadU64FromHash 0), mul64_eq (hash.loadU64FromHash 1),
    mul64_eq (hash.loadU64FromHash 2), mul64_eq (hash.loadU64FromHash 3)]
  have hl0 := hlow 0
  have hl1 := hlow 1
  have hl2 := hlow 2
  have hl3 := hlow 3
  have hh0 := hhigh 0
  have hh1 := hhigh 1
  have hh2 := hhigh 2
  unfold checkHash64 checkHash64With
  generalize mul64 (hash.loadU64FromHash 0) difficulty = m0 at *
  generalize mul64 (hash.loadU64FromHash 1) difficulty = m1 at *
  generalize mul64 (hash.loadU64FromHash 2) difficulty = m2 at *
  generalize mul64 (hash.loadU64FromHash 3) difficulty = m3 at *
  simp only [cadd_eq hh0 hl1, cadc_eq hh1 hl2, cadc_eq hh2 hl3]
  split
  · rename_i htop
    have : 1 ≤ m3.2 := Nat.one_le_iff_ne_zero.mpr htop
    simp only [Bool.false_eq_true, false_iff]
    omega
  · rename_i htop
    rw [not_not.mp htop, Bool.not_eq_true', decide_eq_false_iff_not,
      carry_toNat (show m0.2 + m1.1 < 2 ^ 65 by omega), carry_toNat (by omega)]
    omega

theorem checkHash64Portable_eq (hd : difficulty < 2 ^ 64) :
    hash.checkHash64Portable difficulty = hash.checkHash64 difficulty := by
  unfold checkHash64Portable checkHash64 checkHash64With
  simp only [mul64Portable_eq (hash.loadU64FromHash_lt _) hd]

theorem check_hash_iff (hash : CryptoHash) (difficulty : Nat) (hd : difficulty < 2 ^ 128) :
    (hash.checkHash difficulty = true ↔ hash.value * difficulty < 2 ^ 256) ∧
      (difficulty < 2 ^ 64 → hash.checkHash64 difficulty = hash.checkHash128 difficulty ∧
        hash.checkHash64Portable difficulty = hash.checkHash128 difficulty) := by
  have hagree : difficulty < 2 ^ 64 → hash.checkHash64 difficulty = hash.checkHash128 difficulty := by
    intro hsmall
    rw [Bool.eq_iff_iff, hash.checkHash64_iff hsmall, hash.checkHash128_iff hd]
  refine ⟨?_, fun hsmall => ⟨hagree hsmall, ?_⟩⟩
  · unfold checkHash
    split
    · rename_i hsmall
      have hsmall : difficulty < 2 ^ 64 := by omega
      rw [wrap_of_lt hsmall]
      exact hash.checkHash64_iff hsmall
    · exact hash.checkHash128_iff hd
  · rw [hash.checkHash64Portable_eq hsmall, hagree hsmall]

def topHeavyHash : CryptoHash := ⟨List.replicate 31 0 ++ [1], rfl⟩

theorem check_hash_iff_at_boundary :
    (255 < 2 ^ 128 ∧ topHeavyHash.value * 256 = 2 ^ 256) ∧
      (topHeavyHash.checkHash 255 = true ↔ topHeavyHash.value * 255 < 2 ^ 256) ∧
      (255 < 2 ^ 64 → topHeavyHash.checkHash64 255 = topHeavyHash.checkHash128 255 ∧
        topHeavyHash.checkHash64Portable 255 = topHeavyHash.checkHash128 255) :=
  ⟨⟨by norm_num, by decide +kernel⟩, check_hash_iff topHeavyHash 255 (by norm_num)⟩

end CryptoHash
end Jero.Chain
