import Jero.Chain.Prevalidate
import Jero.Protocol.BlockQueue

namespace Jero.Protocol
open Jero.Chain Jero.Machine Jero.Tx Nat

def makePruningSeed (stripe logStripes : Nat) : Except String Nat := do
  check (logStripes ≤ 7) "log_stripes out of range"
  check (stripe > 0 ∧ stripe ≤ 2 ^ logStripes) "stripe out of range"
  return logStripes <<< 7 ||| (stripe - 1) <<< 0

def getNextPrunedBlockHeight (blockHeight blockchainHeight pruningSeed : Nat) : Except String Nat :=
  let stripe := getSeedStripe pruningSeed
  if stripe = 0 ∨ wrap (blockHeight + pruningTipBlocks) ≥ blockchainHeight then
    .ok blockchainHeight
  else
    let seedLogStripes := getPruningLogStripes pruningSeed
    let logStripes := if seedLogStripes ≠ 0 then seedLogStripes else pruningLogStripes
    let blockStripe := blockHeight / pruningStripeSize % 2 ^ logStripes + 1
    if blockStripe ≠ stripe then .ok blockHeight
    else do
      let nextStripe := 1 + blockStripe % 2 ^ logStripes
      let nextSeed ← makePruningSeed nextStripe logStripes
      return getNextUnprunedBlockHeight blockHeight blockchainHeight nextSeed

def nextChunk (stripes residue chunk : Nat) : Nat :=
  (chunk / stripes + if residue > chunk % stripes then 0 else 1) * stripes + residue

def FirstPruned (blockHeight blockchainHeight pruningSeed r : Nat) : Prop :=
  (∀ h, blockHeight ≤ h → h < r → hasUnprunedBlock h blockchainHeight pruningSeed = true) ∧
    (hasUnprunedBlock r blockchainHeight pruningSeed = false ∨
      blockchainHeight ≤ r + pruningTipBlocks)

section
variable {stripes residue chunk : Nat}

theorem nextChunk_mod (hresidue : residue < stripes) :
    nextChunk stripes residue chunk % stripes = residue := by
  simp [nextChunk, mod_eq_of_lt hresidue]

theorem lt_nextChunk (hresidue : residue < stripes) : chunk < nextChunk stripes residue chunk := by
  have hchunk := div_add_mod' chunk stripes
  have hmod := mod_lt chunk (zero_lt_of_lt hresidue)
  rw [nextChunk, add_mul]
  split <;> omega

theorem nextChunk_le {d : Nat} (hne : chunk % stripes ≠ residue) (hle : chunk ≤ d)
    (hmod : d % stripes = residue) : nextChunk stripes residue chunk ≤ d := by
  subst hmod
  have hd := div_add_mod' d stripes
  have hdiv := Nat.div_le_div_right (c := stripes) hle
  by_contra hlt
  rw [nextChunk, add_mul] at hlt
  split at hlt
  · have := mul_le_mul_right stripes hdiv
    omega
  · have hchunk := div_add_mod' chunk stripes
    rcases hdiv.lt_or_eq with hless | heq
    · have := mul_le_mul_right stripes hless
      rw [succ_mul] at this
      omega
    · rw [heq] at hchunk
      omega

theorem succ_mod_ne (htwo : 2 ≤ stripes) : (chunk + 1) % stripes ≠ chunk % stripes := by
  intro heq
  have hdvd := (modEq_iff_dvd' (le_succ chunk)).mp heq.symm
  have hle := le_of_dvd (by omega) hdvd
  omega

theorem nextChunk_succ (htwo : 2 ≤ stripes) :
    nextChunk stripes ((chunk + 1) % stripes) chunk = chunk + 1 :=
  le_antisymm (nextChunk_le (succ_mod_ne htwo).symm (le_succ chunk) rfl)
    (lt_nextChunk (mod_lt _ (by omega)))

end
variable {h : Nat}
section
variable {stripe logStripes seed blockHeight blockchainHeight : Nat}

theorem makePruningSeed_ok_iff : makePruningSeed stripe logStripes = .ok seed ↔
    logStripes ≤ 7 ∧ (0 < stripe ∧ stripe ≤ 2 ^ logStripes) ∧
      logStripes <<< 7 ||| (stripe - 1) <<< 0 = seed := by
  simp [makePruningSeed, check_bind_ok_iff, pure, Except.pure]

theorem seed_fields (hlog : 1 ≤ logStripes) (hseed : makePruningSeed stripe logStripes = .ok seed) :
    0 < stripe ∧ stripe ≤ 2 ^ logStripes ∧
      getSeedStripe seed = stripe ∧ getPruningLogStripes seed = logStripes := by
  obtain ⟨hmax, ⟨hpos, hle⟩, rfl⟩ := makePruningSeed_ok_iff.mp hseed
  have hpow : 2 ^ logStripes ≤ 2 ^ 7 := Nat.pow_le_pow_right (by norm_num) hmax
  rw [shiftLeft_zero, ← shiftLeft_add_eq_or_of_lt (by omega), shiftLeft_eq]
  refine ⟨hpos, hle, ?_, ?_⟩
  · rw [getSeedStripe, if_neg (by omega)]
    omega
  · rw [getPruningLogStripes]
    omega

theorem tip_wrap (hsmall : h ≤ maxBlockNumber) :
    wrap (h + pruningTipBlocks) = h + pruningTipBlocks :=
  wrap_of_lt (by simp only [maxBlockNumber, pruningTipBlocks] at *; omega)

variable (hlog : 1 ≤ logStripes) (hseed : makePruningSeed stripe logStripes = .ok seed)
include hlog hseed

theorem seed_unpruned (hsmall : h ≤ maxBlockNumber) :
    hasUnprunedBlock h blockchainHeight seed = true ↔ blockchainHeight ≤ h + pruningTipBlocks ∨
      h / pruningStripeSize % 2 ^ logStripes = stripe - 1 := by
  obtain ⟨hpos, -, hstripe, hlogs⟩ := seed_fields hlog hseed
  rw [hasUnprunedBlock, hstripe, hlogs, if_neg (by omega), getPruningStripe, tip_wrap hsmall]
  split <;> simp <;> omega

variable (hheight : blockHeight ≤ maxBlockNumber) (hchain : blockchainHeight ≤ maxBlockNumber)
include hheight hchain

theorem next_of_unpruned (hhas : hasUnprunedBlock blockHeight blockchainHeight seed = true) :
    getNextUnprunedBlockHeight blockHeight blockchainHeight seed = blockHeight := by
  obtain ⟨hpos, -, hstripe, hlogs⟩ := seed_fields hlog hseed
  rw [getNextUnprunedBlockHeight, hstripe, hlogs, if_neg (by omega)]
  rcases (seed_unpruned hlog hseed hheight).mp hhas with htip | hsame
  · rw [if_pos (Or.inr htip)]
  · simp [hsame, Nat.sub_add_cancel hpos, one_le_iff_ne_zero.mp hlog]

variable (htip : ¬ blockchainHeight ≤ blockHeight + pruningTipBlocks)
  (hother : blockHeight / pruningStripeSize % 2 ^ logStripes ≠ stripe - 1)
include htip hother

theorem next_of_pruned : ∃ next,
    next = nextChunk (2 ^ logStripes) (stripe - 1) (blockHeight / pruningStripeSize) *
      pruningStripeSize ∧ blockHeight < next ∧
    getNextUnprunedBlockHeight blockHeight blockchainHeight seed =
      min next (blockchainHeight - pruningTipBlocks) := by
  obtain ⟨hpos, hle, hstripe, hlogs⟩ := seed_fields hlog hseed
  have hbelow := (div_lt_iff_lt_mul (by decide)).mp (@lt_nextChunk (2 ^ logStripes) (stripe - 1)
    (blockHeight / pruningStripeSize) (by omega))
  refine ⟨_, rfl, hbelow, ?_⟩
  have hscale : ∀ m r n : Nat, m * (pruningStripeSize * n) + r * pruningStripeSize =
      (m * n + r) * pruningStripeSize := by
    intro m r n
    ring
  have hlater : (stripe > blockHeight / pruningStripeSize % 2 ^ logStripes + 1) ↔
      stripe - 1 > blockHeight / pruningStripeSize % 2 ^ logStripes := by omega
  rw [getNextUnprunedBlockHeight, hstripe, hlogs, if_neg (by omega), if_neg (by omega)]
  simp only [if_pos (by omega : logStripes ≠ 0), hlater]
  rw [if_neg (by omega), hscale, ← nextChunk,
    if_neg (by omega : ¬ blockchainHeight < pruningTipBlocks), if_neg (by omega : ¬ _ < blockHeight)]
  split <;> omega

omit htip hother

theorem next_heights_exact :
    IsLeast {h | blockHeight ≤ h ∧ hasUnprunedBlock h blockchainHeight seed = true}
      (getNextUnprunedBlockHeight blockHeight blockchainHeight seed) ∧
    ∃ r, getNextPrunedBlockHeight blockHeight blockchainHeight seed = .ok r ∧
      FirstPruned blockHeight blockchainHeight seed r := by
  obtain ⟨hpos, hle, hstripe, hlogs⟩ := seed_fields hlog hseed
  constructor
  · by_cases hhas : hasUnprunedBlock blockHeight blockchainHeight seed = true
    · rw [next_of_unpruned hlog hseed hheight hchain hhas]
      exact ⟨⟨le_rfl, hhas⟩, fun h hh => hh.1⟩
    · obtain ⟨htip, hother⟩ := not_or.mp (mt (seed_unpruned hlog hseed hheight).mpr hhas)
      obtain ⟨next, hnext, hbelow, heq⟩ := next_of_pruned hlog hseed hheight hchain htip hother
      rw [heq]
      refine ⟨⟨by omega, (seed_unpruned hlog hseed (by omega)).mpr ?_⟩, ?_⟩
      · rcases Nat.le_total next (blockchainHeight - pruningTipBlocks) with hmin | hmin
        · rw [Nat.min_eq_left hmin, hnext, Nat.mul_div_cancel _ (by decide)]
          exact Or.inr (nextChunk_mod (by omega))
        · omega
      · rintro h ⟨hfrom, hh⟩
        by_contra hlt
        rcases (seed_unpruned hlog hseed (by omega)).mp hh with hend | hmod
        · omega
        · have := Nat.mul_le_of_le_div _ _ _
            (nextChunk_le hother (Nat.div_le_div_right hfrom) hmod)
          omega
  · have hnz : logStripes ≠ 0 := by omega
    simp only [getNextPrunedBlockHeight, hstripe, hlogs, tip_wrap hheight, hnz, ne_eq,
      not_false_eq_true, if_true, hpos.ne', false_or]
    by_cases htip : blockchainHeight ≤ blockHeight + pruningTipBlocks
    · refine ⟨_, if_pos htip, ?_, Or.inr (by omega)⟩
      intro h hfrom hto
      exact (seed_unpruned hlog hseed (by omega)).mpr (Or.inl (by omega))
    · rw [if_neg htip]
      by_cases hsame : blockHeight / pruningStripeSize % 2 ^ logStripes + 1 = stripe
      · have htwo : 2 ≤ 2 ^ logStripes := le_self_pow hnz 2
        have hmod := mod_lt (blockHeight / pruningStripeSize + 1) (zero_lt_of_lt htwo)
        have hne := @succ_mod_ne _ (blockHeight / pruningStripeSize) htwo
        have hmade := makePruningSeed_ok_iff.mpr ⟨(makePruningSeed_ok_iff.mp hseed).1,
          ⟨succ_pos _, hmod⟩, rfl⟩
        obtain ⟨next, hnext, hbelow, heq⟩ :=
          next_of_pruned hlog hmade hheight hchain htip (by simpa using hne.symm)
        rw [succ_sub_one, nextChunk_succ htwo] at hnext
        rw [if_neg (not_not.mpr hsame), mod_add_mod, add_comm 1, hmade, ok_bind]
        refine ⟨_, rfl, ?_, ?_⟩
        · intro h hfrom hto
          have hchunk : h / pruningStripeSize = blockHeight / pruningStripeSize := by
            simp only [pruningStripeSize] at *
            omega
          exact (seed_unpruned hlog hseed (by omega)).mpr (Or.inr (by rw [hchunk]; omega))
        · rw [heq, Bool.eq_false_iff, ne_eq, seed_unpruned hlog hseed (by omega)]
          rcases Nat.le_total next (blockchainHeight - pruningTipBlocks) with hmin | hmin
          · rw [Nat.min_eq_left hmin, hnext, Nat.mul_div_cancel _ (by decide)]
            omega
          · omega
      · refine ⟨_, if_pos hsame, ?_, Or.inl ?_⟩
        · intro h hfrom hto
          omega
        · rw [Bool.eq_false_iff, ne_eq, seed_unpruned hlog hseed hheight]
          omega

end

theorem second_stripe_heights :
    makePruningSeed 2 3 = .ok 385 ∧
    IsLeast {h | 33000 ≤ h ∧ hasUnprunedBlock h 100000 385 = true}
      (getNextUnprunedBlockHeight 33000 100000 385) :=
  ⟨rfl, (@next_heights_exact 2 3 _ _ _ (by decide) rfl (by decide) (by decide)).1⟩

def isWithinCompiledBlockHashArea (s : HashCheck) (height : Nat) : Bool :=
  height < s.table.groups.length * hashOfHashesStep

def hasBlockWeights (s : HashCheck) (height nblocks : Nat) : Bool :=
  let lastBlockHeight := wsub (wrap (height + nblocks)) 1
  decide (nblocks > 0) && decide (lastBlockHeight < s.check.length) &&
    (List.range' height (lastBlockHeight + 1 - height)).all fun h =>
      (s.check.getD h (nullHash, 0)).2 ≠ 0

structure PrunedSync where
  syncPrunedBlocks : Bool
  hashCheck : HashCheck
  pruningSeed : Nat
  bpForkHeight : Nat

namespace PrunedSync
variable (p : PrunedSync) (remoteHeight firstBlockHeight nblocks : Nat) (checkBlockWeights : Bool)

def shouldAskForPrunedData : Bool :=
  let lastBlockHeight := wsub (wrap (firstBlockHeight + nblocks)) 1
  let localStripe := getSeedStripe p.pruningSeed
  if !p.syncPrunedBlocks then false
  else if !isWithinCompiledBlockHashArea p.hashCheck lastBlockHeight then false
  else if localStripe = 0 then false
  else if firstBlockHeight < p.bpForkHeight then false
  else if getPruningStripe firstBlockHeight remoteHeight pruningLogStripes = localStripe ∨
      getPruningStripe lastBlockHeight remoteHeight pruningLogStripes = localStripe then false
  else if checkBlockWeights && !hasBlockWeights p.hashCheck firstBlockHeight nblocks then false
  else true

def Keeps (height : Nat) : Prop :=
  height / pruningStripeSize % 2 ^ getPruningLogStripes p.pruningSeed + 1 =
    getSeedStripe p.pruningSeed

variable {p remoteHeight firstBlockHeight nblocks checkBlockWeights}

theorem pruned_data_disposable_iff (p : PrunedSync)
    (remoteHeight firstBlockHeight nblocks : Nat) (checkBlockWeights : Bool) (hsome : 1 ≤ nblocks)
    (hsize : nblocks ≤ pruningStripeSize) (hfits : firstBlockHeight + nblocks ≤ 2 ^ 64)
    (h : p.shouldAskForPrunedData remoteHeight firstBlockHeight nblocks checkBlockWeights = true) :
    (∀ h, firstBlockHeight ≤ h → h < firstBlockHeight + nblocks →
      hasUnprunedBlock h remoteHeight p.pruningSeed = false) ↔
    firstBlockHeight + nblocks + pruningTipBlocks ≤ remoteHeight ∧
      (getPruningLogStripes p.pruningSeed = pruningLogStripes ∨
        ∀ h ∈ [firstBlockHeight, firstBlockHeight + nblocks - 1], ¬ p.Keeps h) := by
  obtain ⟨hstripe, hlow, hends⟩ : getSeedStripe p.pruningSeed ≠ 0 ∧
      firstBlockHeight + nblocks ≤ 2 ^ 36 ∧
      ∀ h ∈ [firstBlockHeight, firstBlockHeight + nblocks - 1],
        getPruningStripe h remoteHeight pruningLogStripes ≠ getSeedStripe p.pruningSeed := by
    have hlast : wsub (wrap (firstBlockHeight + nblocks)) 1 = firstBlockHeight + nblocks - 1 := by
      simp only [wrap, wsub]
      omega
    have hbound := p.hashCheck.table.bounded
    simp only [shouldAskForPrunedData, hlast] at h
    split_ifs at h with hsync hwithin hstripe hfork hneeded
    · simp [isWithinCompiledBlockHashArea] at hwithin
      rw [hashOfHashesStep] at hwithin
      exact ⟨hstripe, by omega, by simpa [not_or] using hneeded⟩
  have hiff : ∀ h, firstBlockHeight ≤ h → h < firstBlockHeight + nblocks →
      (hasUnprunedBlock h remoteHeight p.pruningSeed = false ↔
        h + pruningTipBlocks < remoteHeight ∧ ¬ p.Keeps h) := by
    intro h _ hlt
    have hwrap : wrap (h + pruningTipBlocks) = h + pruningTipBlocks :=
      wrap_of_lt (by simp only [pruningTipBlocks]; omega)
    rw [hasUnprunedBlock, if_neg hstripe, getPruningStripe, hwrap, Keeps]
    split <;> simp <;> omega
  have hspan : ∀ h ∈ [firstBlockHeight, firstBlockHeight + nblocks - 1],
      firstBlockHeight ≤ h ∧ h < firstBlockHeight + nblocks := by
    simp
    omega
  constructor
  · intro hall
    have hpruned := fun h hh => (hiff h (hspan h hh).1 (hspan h hh).2).mp
      (hall h (hspan h hh).1 (hspan h hh).2)
    have hlast := (hpruned (firstBlockHeight + nblocks - 1) (by simp)).1
    exact ⟨by omega, .inr fun h hh => (hpruned h hh).2⟩
  · rintro ⟨htip, hseed⟩ h hle hlt
    refine (hiff h hle hlt).mpr ⟨by omega, ?_⟩
    have hkeeps : ∀ e ∈ [firstBlockHeight, firstBlockHeight + nblocks - 1], ¬ p.Keeps e := by
      rcases hseed with hlog | hkeeps
      · intro e he hkeep
        have hin := hspan e he
        refine hends e he ?_
        rw [getPruningStripe, wrap_of_lt (by simp only [pruningTipBlocks]; omega),
          if_neg (by omega), ← hlog]
        exact hkeep
      · exact hkeeps
    have hchunk : h / pruningStripeSize = firstBlockHeight / pruningStripeSize ∨
        h / pruningStripeSize = (firstBlockHeight + nblocks - 1) / pruningStripeSize := by
      simp only [pruningStripeSize] at *
      omega
    rcases hchunk with hsame | hsame
    · rw [Keeps, hsame]
      exact hkeeps _ (by simp)
    · rw [Keeps, hsame]
      exact hkeeps _ (by simp)

def mainnetNode : PrunedSync :=
  ⟨true, ⟨⟨List.replicate 7390 (1, 1), by rw [List.length_replicate]; decide⟩,
    List.replicate 1792000 (1, 300000) ++ List.replicate 1991680 (nullHash, 0)⟩, 388, 1788720⟩

theorem mainnetNode_weights {first : Nat} (hfirst : first + 20 ≤ 1792000) :
    hasBlockWeights mainnetNode.hashCheck first 20 = true := by
  have hlast : wsub (wrap (first + 20)) 1 = first + 19 := by
    rw [wrap_of_lt (by omega), wsub_of_le (by omega) (by omega), Nat.add_sub_assoc (by decide)]
  have hlength : mainnetNode.hashCheck.check.length = 3783680 := by
    rw [mainnetNode, List.length_append, List.length_replicate, List.length_replicate]
  rw [hasBlockWeights, hlast, hlength, Bool.and_eq_true, Bool.and_eq_true, List.all_eq_true]
  refine ⟨⟨rfl, decide_eq_true (by omega)⟩, ?_⟩
  intro h hh
  obtain ⟨-, hlt⟩ := List.mem_range'_1.mp hh
  have hrow : mainnetNode.hashCheck.check.getD h (nullHash, 0) = (1, 300000) := by
    rw [mainnetNode, List.getD_eq_getElem?_getD,
      List.getElem?_append_left (by rw [List.length_replicate]; omega), List.getElem?_replicate,
      if_pos (by omega), Option.getD_some]
  rw [hrow]
  rfl

theorem disposable_below_tip :
    mainnetNode.shouldAskForPrunedData 3000000 1790000 20 true = true ∧
      ∀ h, 1790000 ≤ h → h < 1790000 + 20 → hasUnprunedBlock h 3000000 388 = false := by
  have hask : mainnetNode.shouldAskForPrunedData 3000000 1790000 20 true = true := by
    rw [shouldAskForPrunedData, mainnetNode_weights (by decide)]
    decide +kernel
  exact ⟨hask, (pruned_data_disposable_iff mainnetNode 3000000 1790000 20 true (by decide)
    (by decide) (by decide) hask).mpr ⟨by decide, .inl rfl⟩⟩

theorem own_stripe_given_up :
    mainnetNode.shouldAskForPrunedData 1790000 1789000 20 true = true ∧
      ∀ h ∈ List.range' 1789000 20, hasUnprunedBlock h 1790000 388 = true ∧
        hasUnprunedBlock h 3000000 388 = true := by
  refine ⟨?_, by decide +kernel⟩
  rw [shouldAskForPrunedData, mainnetNode_weights (by decide)]
  decide +kernel

end PrunedSync
end Jero.Protocol
