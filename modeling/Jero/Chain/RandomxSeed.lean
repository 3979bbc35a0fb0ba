import Jero.Chain.AltTimestamp

namespace Jero.Chain
open Jero.Lists Jero.Machine Jero.Tx List ChainEnv

def rxSeedheights (seedhashEpochBlocks seedhashEpochLag height : Nat) : Nat × Nat :=
  (rxSeedheight seedhashEpochBlocks seedhashEpochLag height,
    rxSeedheight seedhashEpochBlocks seedhashEpochLag (wrap (height + seedhashEpochLag)))

def ChainEnv.ancestorIds (env : ChainEnv) (db : Db) (altChain : List BlockExtendedInfo) (f : Nat)
    (prevId : Hash) : List Hash :=
  (db.chain.take f).map (fun e => env.blockHash e.block) ++
    (pathIds prevId altChain.reverse).reverse

section
variable {i lag a b : Nat}

theorem land_epoch_mask (ha : a < 2 ^ 64) (hi : i ≤ 64) :
    a &&& (2 ^ 64 - 1 - (2 ^ i - 1)) = a / 2 ^ i * 2 ^ i := by
  have hpos := Nat.two_pow_pos i
  have hsplit : 2 ^ 64 = 2 ^ (64 - i) * 2 ^ i := by rw [← pow_add, Nat.sub_add_cancel hi]
  have hmask : 2 ^ 64 - 1 - (2 ^ i - 1) = (2 ^ (64 - i) - 1) * 2 ^ i := by
    rw [Nat.sub_mul, ← hsplit]
    omega
  refine Nat.eq_of_testBit_eq ?_
  intro j
  rw [hmask, Nat.testBit_and, Nat.testBit_mul_two_pow, Nat.testBit_mul_two_pow,
    Nat.testBit_two_pow_sub_one, Nat.testBit_div_two_pow]
  by_cases hj : i ≤ j
  · rw [Nat.sub_add_cancel hj]
    by_cases hlow : j < 64
    · simp [hj, show j - i < 64 - i by omega]
    · simp [Nat.testBit_lt_two_pow (ha.trans_le (Nat.pow_le_pow_right two_pos (not_lt.mp hlow)))]
  · simp [hj]

theorem rxSeedheight_mono (hi : i ≤ 64) (hab : a ≤ b) (hb : b < 2 ^ 64) :
    rxSeedheight (2 ^ i) lag a ≤ rxSeedheight (2 ^ i) lag b := by
  rw [rxSeedheight, rxSeedheight]
  split
  · exact Nat.zero_le _
  · rw [if_neg (by omega), land_epoch_mask (by omega) hi, land_epoch_mask (by omega) hi]
    exact Nat.mul_le_mul_right _ (Nat.div_le_div_right (by omega))

theorem rxSeedheight_bound (blocks : Nat) :
    rxSeedheight blocks lag a = 0 ∨ rxSeedheight blocks lag a + lag + 1 ≤ a := by
  rw [rxSeedheight]
  split
  · exact .inl rfl
  · have hle := @Nat.and_le_left (a - lag - 1) (2 ^ 64 - 1 - (blocks - 1))
    exact .inr (by omega)

end

theorem pathIds_succ {id : Hash} {path : List BlockExtendedInfo} {i : Nat}
    (hi : i + 1 < path.length) :
    (pathIds id path)[i + 1]? = path[i]?.map fun bei => bei.bl.prevId := by
  induction path generalizing id i with
  | nil => simp at hi
  | cons bei rest ih =>
    cases i with
    | zero =>
      cases rest with
      | nil => simp at hi
      | cons next rest => rfl
    | succ i => exact ih (Nat.succ_lt_succ_iff.mp hi)

section
variable {env : ChainEnv} {db : Db} {f s : Nat} {altChain : List BlockExtendedInfo} {prevId : Hash}
  (h : Attached env db f altChain prevId)
  (hheights : ∀ i bei, altChain[i]? = some bei → bei.height = f + i)
include h

theorem Attached.le_length : f ≤ db.chain.length := by
  obtain ⟨root, -, hroot⟩ := h.linked
  have hlt := blockHeightOf_lt hroot
  omega

theorem Attached.seed_low (hs : s < f) :
    (env.ancestorIds db altChain f prevId)[s]? = some (env.alternativeSeedhash db altChain s) := by
  have hle := h.le_length
  have hin : s < db.chain.length := by omega
  have hfront : altChain.head?.any (·.height ≤ s) = false := by
    cases altChain with
    | nil => rfl
    | cons front rest => simpa [(h.front front rfl).1] using hs
  rw [ancestorIds, getElem?_append_left (by simp; omega)]
  simp [alternativeSeedhash, hfront, getBlockIdByHeight, hs, hin]

include hheights

theorem Attached.seed_high (hf : f ≤ s) (hs : s + 1 < f + altChain.length) :
    (env.ancestorIds db altChain f prevId)[s]? = some (env.alternativeSeedhash db altChain s) := by
  obtain ⟨child, hchild⟩ : ∃ child, altChain[s + 1 - f]? = some child :=
    ⟨_, getElem?_eq_getElem (show s + 1 - f < altChain.length by omega)⟩
  have hheight := hheights _ child hchild
  have hfind : altChain.find? (·.height = s + 1) = some child := by
    obtain ⟨hlt, hget⟩ := List.getElem?_eq_some_iff.mp hchild
    refine find?_eq_some_iff_getElem.mpr ⟨by simp; omega, _, hlt, hget, ?_⟩
    intro j hj
    have hsame := hheights j _ (getElem?_eq_getElem (by omega))
    simp
    omega
  have hfront : altChain.head?.any (·.height ≤ s) = true := by
    cases altChain with
    | nil => cases hchild
    | cons front rest => simpa [hheights 0 front rfl] using hf
  have hparent : (env.ancestorIds db altChain f prevId)[s]? = some child.bl.prevId := by
    have hle := h.le_length
    have hlength : ((db.chain.take f).map fun e => env.blockHash e.block).length = f := by
      simp [hle]
    rw [ancestorIds, getElem?_append_right (by omega), hlength,
      getElem?_reverse (by rw [length_pathIds, length_reverse]; omega), length_pathIds,
      length_reverse, show altChain.length - 1 - (s - f) = altChain.length - 2 - (s - f) + 1 by omega,
      pathIds_succ (by rw [length_reverse]; omega), getElem?_reverse (by omega),
      show altChain.length - 1 - (altChain.length - 2 - (s - f)) = s + 1 - f by omega, hchild]
    rfl
  rw [hparent, alternativeSeedhash, hfront, hfind]
  rfl

theorem Attached.next_height : env.prevHeight db prevId + 1 = f + altChain.length := by
  have hpos := h.pos
  obtain ⟨root, hpath, hroot⟩ := h.linked
  rw [prevHeight]
  cases hreverse : altChain.reverse with
  | nil =>
    rw [hreverse] at hpath
    cases hpath with
    | root hnone =>
      simp only [hnone, hroot, reverse_eq_nil_iff.mp hreverse, Option.getD_some, length_nil]
      omega
  | cons last rest =>
    have hlast : altChain.reverse[0]? = some last := by rw [hreverse]; rfl
    have hlength : altChain.length = rest.length + 1 := by
      rw [← length_reverse, hreverse, length_cons]
    rw [getElem?_reverse (by omega)] at hlast
    rw [hreverse] at hpath
    cases hpath with
    | up hfind _ =>
      simp only [hfind, hheights _ last hlast]
      omega

end

theorem alternative_seed_exact {env : ChainEnv} {db : Db} {f : Nat}
    {altChain : List BlockExtendedInfo} {b : Block} (h : Attached env db f altChain b.prevId)
    (hheights : ∀ i bei, altChain[i]? = some bei → bei.height = f + i)
    (hseparate : ∀ e ∈ db.chain, db.altBlocks.find? (env.blockHash e.block) = none)
    {i : Nat} (hi : i ≤ 64) (j : Nat) :
    let height := (env.alternativeInfo db b).height
    let ancestors := env.ancestorIds db altChain f b.prevId
    let seedheight := rxSeedheight (2 ^ i) (2 ^ j) height
    let seedhash := env.alternativeSeedhash db altChain seedheight
    ancestors.length = height ∧ ancestors[seedheight]? = some seedhash ∧
      (nullHash ∉ ancestors → seedhash ≠ nullHash) ∧
      (f ≤ seedheight → ∀ e, db.chain[seedheight]? = some e → seedhash ≠ env.blockHash e.block) ∧
      (∀ a b, a ≤ b → b < 2 ^ 64 → rxSeedheight (2 ^ i) (2 ^ j) a ≤ rxSeedheight (2 ^ i) (2 ^ j) b) ∧
      ∀ n, 0 < n → n + 2 ^ j < 2 ^ 64 → (rxSeedheights (2 ^ i) (2 ^ j) n).2 < n := by
  intro height ancestors seedheight seedhash
  have hle := h.le_length
  have hheight : height = f + altChain.length := h.next_height hheights
  have hseed : ancestors[seedheight]? = some seedhash := by
    rcases lt_or_ge seedheight f with hlow | hhigh
    · exact h.seed_low hlow
    · refine h.seed_high hheights hhigh ?_
      have hpos := h.pos
      have hlag := Nat.two_pow_pos j
      rcases @rxSeedheight_bound (2 ^ j) height (2 ^ i) with hzero | hbound
      · omega
      · omega
  refine ⟨?_, hseed, ?_, ?_, fun a b hab hb => rxSeedheight_mono hi hab hb, ?_⟩
  · rw [hheight]
    simp [ancestors, ancestorIds, length_pathIds, hle]
  · rintro hnull heq
    exact hnull (heq ▸ mem_of_getElem? hseed)
  · intro hhigh e he heq
    obtain ⟨root, hpath, -⟩ := h.linked
    have hlength : ((db.chain.take f).map fun e => env.blockHash e.block).length ≤ seedheight := by
      simp [hhigh]
    simp only [ancestors, ancestorIds, getElem?_append_right hlength] at hseed
    obtain ⟨stored, hstored, hid⟩ :=
      mem_map.mp (hpath.pathIds_subset (mem_reverse.mp (mem_of_getElem? hseed)))
    have hfind := (db.altBlocks.mem_entries_iff stored).mp hstored
    rw [hid, heq, hseparate e (mem_of_getElem? he)] at hfind
    cases hfind
  · intro n hn hfits
    rw [rxSeedheights, wrap_of_lt hfits]
    rcases @rxSeedheight_bound (2 ^ j) (n + 2 ^ j) (2 ^ i) with hzero | hbound
    · omega
    · omega

theorem sample_alternative_seed :
    rxSeedheight 2 1 (sampleEnv.alternativeInfo sampleForkDb (sampleBlock 4 500 4400)).height = 2 ∧
      (sampleEnv.ancestorIds sampleForkDb [sampleAlt, sampleTip] 2 4400)[2]? =
        some (sampleEnv.alternativeSeedhash sampleForkDb [sampleAlt, sampleTip] 2) ∧
      sampleEnv.alternativeSeedhash sampleForkDb [sampleAlt, sampleTip] 2 = 3300 := by
  refine ⟨by decide, ?_, by decide⟩
  refine (@alternative_seed_exact _ _ _ _ (sampleBlock 4 500 4400) sampleFork_attached ?_
    (by decide) 1 (by decide) 0).2.1
  rintro (_ | _ | i) bei ⟨⟩
  · rfl
  · rfl

end Jero.Chain
