import Mathlib.Data.List.Lex
import Mathlib.Tactic

namespace Jero.Chain

@[ext] structure Hash32 where
  words : List (BitVec 64)
  size : words.length = 4
deriving DecidableEq

def compareWords : Nat → List (BitVec 64) → List (BitVec 64) → Int
  | nbits, va :: as, vb :: bs =>
    if nbits = 0 then 0
    else
      let msbNbits := min 64 nbits
      let van := va >>> (64 - msbNbits)
      let vbn := vb >>> (64 - msbNbits)
      if van < vbn then -1 else if van > vbn then 1
      else compareWords (nbits - msbNbits) as bs
  | _, _, _ => 0

def compareHash32ReversedNbits (ha hb : Hash32) (nbits : Nat) : Int :=
  compareWords nbits ha.words.reverse hb.words.reverse

def maskWords : Nat → List (BitVec 64) → List (BitVec 64)
  | nbits, vh :: rest =>
    let msbNbits := min 64 nbits
    let mask := if msbNbits ≠ 0 then ~~~((1 : BitVec 64) <<< (64 - msbNbits) - 1) else 0
    (vh &&& mask) :: maskWords (nbits - msbNbits) rest
  | _, [] => []

theorem maskWords_length (nbits : Nat) (ws : List (BitVec 64)) :
    (maskWords nbits ws).length = ws.length := by
  induction ws generalizing nbits with
  | nil => rfl
  | cons w ws ih => simp [maskWords, ih]

def makeHash32LooseTemplate (nbits : Nat) (h : Hash32) : Hash32 :=
  ⟨(maskWords nbits h.words.reverse).reverse, by simp [maskWords_length, h.size]⟩

def leadingBits : Nat → List (BitVec 64) → List Nat
  | nbits, w :: ws => (w >>> (64 - min 64 nbits)).toNat :: leadingBits (nbits - 64) ws
  | _, [] => []

def shiftBack : Nat → List Nat → List (BitVec 64)
  | nbits, k :: ks => (BitVec.ofNat 64 k) <<< (64 - min 64 nbits) :: shiftBack (nbits - 64) ks
  | _, [] => []

theorem and_mask (w : BitVec 64) (m : Nat) (hm : m ≤ 64) :
    (w &&& if m ≠ 0 then ~~~((1 : BitVec 64) <<< (64 - m) - 1) else 0) =
      (w >>> (64 - m)) <<< (64 - m) := by
  rcases Nat.eq_zero_or_pos m with rfl | hpos
  · simp
  have hmask : (1 : BitVec 64) <<< (64 - m) - 1 = BitVec.ofNat 64 (2 ^ (64 - m) - 1) := by
    apply BitVec.eq_of_toNat_eq
    have hlt : 2 ^ (64 - m) < 2 ^ 64 := Nat.pow_lt_pow_right (by norm_num) (by omega)
    have hp := Nat.two_pow_pos (64 - m)
    simp [Nat.shiftLeft_eq]
    omega
  rw [if_pos hpos.ne', hmask]
  apply BitVec.eq_of_getLsbD_eq
  intro i hi
  simp only [BitVec.getLsbD_and, BitVec.getLsbD_not, BitVec.getLsbD_ofNat, hi,
    Nat.testBit_two_pow_sub_one, BitVec.getLsbD_shiftLeft, BitVec.getLsbD_ushiftRight]
  by_cases hk : i < 64 - m
  · simp [hk]
  · simp [hk, Nat.add_sub_of_le (Nat.not_lt.mp hk)]

variable (nbits : Nat) (as bs : List (BitVec 64))

theorem maskWords_eq : maskWords nbits as = shiftBack nbits (leadingBits nbits as) := by
  induction as generalizing nbits with
  | nil => rfl
  | cons a as ih =>
    have hsub : nbits - min 64 nbits = nbits - 64 := by omega
    rw [maskWords, and_mask a _ (Nat.min_le_left _ _), hsub, ih, leadingBits, shiftBack,
      BitVec.ofNat_toNat, BitVec.setWidth_eq]

theorem leadingBits_maskWords : leadingBits nbits (maskWords nbits as) = leadingBits nbits as := by
  induction as generalizing nbits with
  | nil => rfl
  | cons a as ih =>
    have hsub : nbits - min 64 nbits = nbits - 64 := by omega
    rw [maskWords, and_mask a _ (Nat.min_le_left _ _), hsub, leadingBits, ih, leadingBits]
    congr 2
    apply BitVec.eq_of_getLsbD_eq
    intro i hi
    simp only [BitVec.getLsbD_ushiftRight, BitVec.getLsbD_shiftLeft]
    by_cases hk : 64 - min 64 nbits + i < 64
    · simp [hk]
    · simp [hk, BitVec.getLsbD_of_ge a (64 - min 64 nbits + i) (by omega)]

theorem leadingBits_zero : leadingBits 0 as = List.replicate as.length 0 := by
  induction as with
  | nil => rfl
  | cons a as ih =>
    simp [leadingBits, ih, List.replicate_succ, Nat.shiftRight_eq_div_pow, Nat.div_eq_of_lt a.isLt]

variable {as bs} (hlen : as.length = bs.length)
include hlen

theorem compareWords_eq : compareWords nbits as bs =
    if leadingBits nbits as < leadingBits nbits bs then -1
    else if leadingBits nbits bs < leadingBits nbits as then 1 else 0 := by
  induction as generalizing nbits bs with
  | nil =>
    obtain rfl := List.length_eq_zero_iff.mp hlen.symm
    simp [leadingBits, compareWords]
  | cons a as ih =>
    rcases Nat.eq_zero_or_pos nbits with rfl | hpos
    · cases bs <;> simp [compareWords, leadingBits_zero, hlen]
    obtain ⟨b, bs, rfl⟩ := List.exists_cons_of_length_eq_add_one hlen.symm
    have hsub : nbits - min 64 nbits = nbits - 64 := by omega
    simp only [compareWords, leadingBits, hpos.ne', if_false, hsub, ih _ (Nat.succ.inj hlen),
      List.cons_lt_cons_iff, BitVec.lt_def, gt_iff_lt]
    generalize (a >>> (64 - min 64 nbits)).toNat = x
    generalize (b >>> (64 - min 64 nbits)).toNat = y
    rcases lt_trichotomy x y with h | rfl | h
    · simp [h]
    · simp
    · simp [h, h.not_gt, h.ne']

theorem leadingBits_mono {m : Nat} (hm : nbits ≤ m) (h : leadingBits nbits bs < leadingBits nbits as) :
    leadingBits m bs < leadingBits m as := by
  induction as generalizing nbits m bs with
  | nil => simp [leadingBits] at h
  | cons a as ih =>
    obtain ⟨b, bs, rfl⟩ := List.exists_cons_of_length_eq_add_one hlen.symm
    simp only [leadingBits, List.cons_lt_cons_iff] at h ⊢
    rcases Nat.lt_or_ge nbits 64 with hn | hn
    · rw [show nbits - 64 = 0 by omega, leadingBits_zero, leadingBits_zero, Nat.succ.inj hlen] at h
      left
      simp only [lt_irrefl, and_false, or_false, BitVec.toNat_ushiftRight,
        Nat.shiftRight_eq_div_pow] at h ⊢
      rw [show 64 - min 64 nbits = 64 - min 64 m + (min 64 m - nbits) by omega, pow_add,
        ← Nat.div_div_eq_div_mul, ← Nat.div_div_eq_div_mul] at h
      exact Nat.lt_of_div_lt_div h
    · rw [show min 64 m = min 64 nbits by omega]
      exact h.imp_right fun h => ⟨h.1, ih _ (Nat.succ.inj hlen) (by omega) h.2⟩

omit hlen

theorem compareHash32_eq (a b : Hash32) : compareHash32ReversedNbits a b nbits =
    if leadingBits nbits a.words.reverse < leadingBits nbits b.words.reverse then -1
    else if leadingBits nbits b.words.reverse < leadingBits nbits a.words.reverse then 1 else 0 :=
  compareWords_eq nbits (by simp [a.size, b.size])

theorem compareHash32_nonpos_iff (a b : Hash32) : compareHash32ReversedNbits a b nbits ≤ 0 ↔
    leadingBits nbits a.words.reverse ≤ leadingBits nbits b.words.reverse := by
  rw [compareHash32_eq]
  split_ifs with h1 h2
  · simp [h1.le]
  · simp [h2]
  · simpa using le_of_not_gt h2

theorem compareHash32_eq_zero_iff (a b : Hash32) : compareHash32ReversedNbits a b nbits = 0 ↔
    leadingBits nbits a.words.reverse = leadingBits nbits b.words.reverse := by
  rw [compareHash32_eq]
  split_ifs with h1 h2
  · simp [h1.ne]
  · simp [h2.ne']
  · simpa using le_antisymm (le_of_not_gt h2) (le_of_not_gt h1)

theorem loose_template_is_comparison_class (a b c : Hash32) (n m : Nat) (hnm : n ≤ m) :
    (compareHash32ReversedNbits a b n = 0 ↔
      makeHash32LooseTemplate n a = makeHash32LooseTemplate n b) ∧
    compareHash32ReversedNbits (makeHash32LooseTemplate n a) a n = 0 ∧
    (compareHash32ReversedNbits a b n ≤ 0 ∨ compareHash32ReversedNbits b a n ≤ 0) ∧
    (compareHash32ReversedNbits a b n ≤ 0 → compareHash32ReversedNbits b c n ≤ 0 →
      compareHash32ReversedNbits a c n ≤ 0) ∧
    compareHash32ReversedNbits b a n = -compareHash32ReversedNbits a b n ∧
    (compareHash32ReversedNbits a b m ≤ 0 → compareHash32ReversedNbits a b n ≤ 0) := by
  simp only [compareHash32_nonpos_iff, compareHash32_eq_zero_iff]
  refine ⟨?_, ?_, le_total _ _, le_trans, ?_, ?_⟩
  · rw [Hash32.ext_iff, makeHash32LooseTemplate, makeHash32LooseTemplate, List.reverse_inj]
    refine ⟨fun h => by rw [maskWords_eq, h, maskWords_eq], fun h => ?_⟩
    rw [← leadingBits_maskWords, h, leadingBits_maskWords]
  · rw [makeHash32LooseTemplate, List.reverse_reverse, leadingBits_maskWords]
  · rw [compareHash32_eq, compareHash32_eq]
    split_ifs with h1 h2
    · exact absurd h1 h2.not_gt
    all_goals rfl
  · intro h
    by_contra hlt
    exact h.not_gt (leadingBits_mono n (by simp [a.size, b.size]) hnm (not_le.mp hlt))

theorem loose_template_of_seventy_bits :
    compareHash32ReversedNbits ⟨[1, 2, 3, 4], rfl⟩ ⟨[5, 6, 7, 4], rfl⟩ 70 = 0 ∧
      makeHash32LooseTemplate 70 ⟨[1, 2, 3, 4], rfl⟩ =
        makeHash32LooseTemplate 70 ⟨[5, 6, 7, 4], rfl⟩ := by
  have h : compareHash32ReversedNbits ⟨[1, 2, 3, 4], rfl⟩ ⟨[5, 6, 7, 4], rfl⟩ 70 = 0 := by decide
  exact ⟨h, (loose_template_is_comparison_class _ _ ⟨[1, 2, 3, 4], rfl⟩ 70 70 le_rfl).1.mp h⟩

end Jero.Chain
