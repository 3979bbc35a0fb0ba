import Jero.Chain.DifficultyCache

namespace Jero.Chain
open Jero.Machine Jero.Tx List ChainEnv Blockchain

def getBlockTimestamp (chain : List Entry) (height : Nat) : Except String Nat :=
  match chain[height]? with
  | some e => .ok e.block.timestamp
  | none => .error s!"Attempt to get timestamp from height {height} failed -- timestamp not in db"

def getBlockCumulativeDifficulty (chain : List Entry) (height : Nat) : Except String Nat :=
  match chain[height]? with
  | some e => .ok e.cumulativeDifficulty
  | none => .error
    s!"Attempt to get cumulative difficulty from height {height} failed -- difficulty not in db"

def checkDifficultyCheckpoints (chain : List Entry) :
    List (Nat × Nat) → Nat → Except String (Bool × Nat)
  | [], res => .ok (true, res)
  | (height, difficulty) :: rest, res =>
    if height ≥ chain.length then .ok (true, res)
    else do
      let stored ← getBlockCumulativeDifficulty chain height
      if stored ≠ difficulty then pure (false, res)
      else checkDifficultyCheckpoints chain rest height

structure Rolling where
  timestamps : List Nat
  difficulties : List Nat
  lastCumDiff : Nat
  driftStartHeight : Nat
  newCumulativeDifficulties : List Nat
deriving DecidableEq, Repr

def preload (chain : List Entry) (startHeight : Nat) :
    Nat → Nat → List Nat × List Nat → Except String (List Nat × List Nat)
  | 0, _, loaded => .ok loaded
  | n + 1, i, loaded =>
    let height := startHeight - 1 - i
    if height = 0 then .ok loaded
    else do
      let timestamp ← getBlockTimestamp chain height
      let difficulty ← getBlockCumulativeDifficulty chain height
      preload chain startHeight n (i + 1) (timestamp :: loaded.1, difficulty :: loaded.2)

def startRolling (chain : List Entry) (startHeight : Nat) : Except String Rolling :=
  if startHeight > 1 then do
    let loaded ← preload chain startHeight difficultyBlocksCount 0 ([], [])
    pure ⟨loaded.1, loaded.2, loaded.2.getLastD 0, 0, []⟩
  else .ok ⟨[], [], startHeight, 0, []⟩

def driftAt (chain : List Entry) (r : Rolling) (height cumDiff : Nat) : Except String Nat :=
  if r.driftStartHeight = 0 then do
    let existing ← getBlockCumulativeDifficulty chain height
    pure (if cumDiff ≠ existing then height else 0)
  else .ok r.driftStartHeight

def pushBlock (chain : List Entry) (r : Rolling) (height cumDiff : Nat) :
    Except String (List Nat × List Nat) :=
  if height > 0 then do
    let timestamp ← getBlockTimestamp chain height
    pure (r.timestamps ++ [timestamp], r.difficulties ++ [cumDiff])
  else .ok (r.timestamps, r.difficulties)

def slideWindow (window : List Nat × List Nat) : Except String (List Nat × List Nat) :=
  let size := window.1.length
  if size > difficultyBlocksCount then do
    check (decide (size = difficultyBlocksCount + 1)) s!"Wrong timestamps size: {size}"
    pure (window.1.tail, window.2.tail)
  else .ok window

def correctBlockCumulativeDifficulties (chain : List Entry) (startHeight : Nat)
    (difficulties : List Nat) : List Entry :=
  if startHeight + difficulties.length ≠ chain.length then chain
  else chain.take startHeight ++ List.zipWith (fun e d => { e with cumulativeDifficulty := d })
    (chain.drop startHeight) difficulties

namespace ChainEnv
variable (env : ChainEnv)

def recalculateStep (chain : List Entry) (r : Rolling) (height : Nat) : Except String Rolling := do
  let recalculated := nextDifficulty r.timestamps r.difficulties
    (difficultyTarget (env.idealVersion height))
  let cumDiff := recalculated + r.lastCumDiff
  check (decide (cumDiff ≤ 2 ^ 128 - 1)) "Difficulty overflow!"
  let drift ← driftAt chain r height cumDiff
  let pushed ← pushBlock chain r height cumDiff
  let window ← slideWindow pushed
  pure ⟨window.1, window.2, cumDiff, drift,
    if drift > 0 then r.newCumulativeDifficulties ++ [cumDiff] else r.newCumulativeDifficulties⟩

def recalculateFrom (chain : List Entry) (startHeight count : Nat) : Except String Rolling := do
  let first ← startRolling chain startHeight
  (List.range' startHeight count).foldlM (env.recalculateStep chain) first

end ChainEnv
namespace Blockchain

def recalculateStart (s : Blockchain) (points : List (Nat × Nat)) :
    Option Nat → Except String Nat
  | some startHeight => .ok startHeight
  | none => do
    let checked ← checkDifficultyCheckpoints s.db.chain points 0
    pure checked.2

def writeRecalculated (s : Blockchain) (r : Rolling) : Blockchain :=
  if r.driftStartHeight > 0 then
    { s.setChain (correctBlockCumulativeDifficulties s.db.chain r.driftStartHeight
        r.newCumulativeDifficulties) with
      cache := { s.cache with topHash := nullHash, height := 0 } }
  else s

def recalculateDifficulties (env : ChainEnv) (points : List (Nat × Nat))
    (startHeightOpt : Option Nat) (s : Blockchain) : Except String (Nat × Blockchain) :=
  if env.fixedDifficulty ≠ 0 then .ok (0, s)
  else do
    let startHeight ← s.recalculateStart points startHeightOpt
    let topHeight := wsub s.db.chain.length 1
    let last ← env.recalculateFrom s.db.chain startHeight (topHeight + 1 - startHeight)
    pure (last.newCumulativeDifficulties.length, s.writeRecalculated last)

end Blockchain

structure Rolled (chain : List Entry) (height : Nat) (r : Rolling) : Prop where
  timestamps : r.timestamps = timestampsOf (windowEntries (chain.take height))
  difficulties : r.difficulties = difficultiesOf (windowEntries (chain.take height))
  last : r.lastCumDiff = topCumulativeDifficulty (chain.take height)
  noDrift : r.driftStartHeight = 0
  nothingNew : r.newCumulativeDifficulties = []

section
variable {chain : List Entry}

theorem length_windowEntries (hne : chain ≠ []) :
    (windowEntries chain).length = min difficultyBlocksCount (chain.length - 1) := by
  rw [windowEntries_eq hne, length_drop]
  omega

theorem windowEntries_concat (hne : chain ≠ []) (e : Entry) :
    windowEntries (chain ++ [e]) =
      if (windowEntries chain).length + 1 > difficultyBlocksCount then
        (windowEntries chain ++ [e]).tail
      else windowEntries chain ++ [e] := by
  have hpos := length_pos_iff.mpr hne
  have hgrown : windowEntries chain ++ [e] =
      (chain ++ [e]).drop (chain.length - min difficultyBlocksCount (chain.length - 1)) := by
    rw [windowEntries_eq hne, drop_append_of_le_length (Nat.sub_le _ _)]
  rw [length_windowEntries hne, hgrown, windowEntries_eq (by simp), length_append, length_singleton]
  split
  · rw [tail_drop]
    congr 1
    omega
  · congr 1
    omega

theorem slide_window (hne : chain ≠ []) (e : Entry) :
    slideWindow (timestampsOf (windowEntries chain) ++ [e.block.timestamp],
        difficultiesOf (windowEntries chain) ++ [e.cumulativeDifficulty]) =
      .ok (timestampsOf (windowEntries (chain ++ [e])),
        difficultiesOf (windowEntries (chain ++ [e]))) := by
  have hts : timestampsOf (windowEntries chain) ++ [e.block.timestamp] =
      timestampsOf (windowEntries chain ++ [e]) := (timestampsOf_append _ [e]).symm
  have hds : difficultiesOf (windowEntries chain) ++ [e.cumulativeDifficulty] =
      difficultiesOf (windowEntries chain ++ [e]) := (difficultiesOf_append _ [e]).symm
  have hsize : (timestampsOf (windowEntries chain ++ [e])).length =
      (windowEntries chain).length + 1 := by
    rw [timestampsOf, length_map, length_append, length_singleton]
  have hfull := length_windowEntries hne
  rw [windowEntries_concat hne, hts, hds]
  simp only [slideWindow, hsize]
  split
  · rw [check_decide (by omega)]
    simp only [timestampsOf, difficultiesOf, map_tail]
    rfl
  · rfl

variable {startHeight : Nat}

theorem preload_eq (hlen : startHeight ≤ chain.length) (n i : Nat) (hi : i ≤ startHeight - 1) :
    preload chain startHeight n i
        (timestampsOf ((chain.take startHeight).drop (startHeight - i)),
          difficultiesOf ((chain.take startHeight).drop (startHeight - i))) =
      .ok (timestampsOf ((chain.take startHeight).drop
          (startHeight - min (i + n) (startHeight - 1))),
        difficultiesOf ((chain.take startHeight).drop
          (startHeight - min (i + n) (startHeight - 1)))) := by
  induction n generalizing i with
  | zero => rw [preload, add_zero, min_eq_left hi]
  | succ n ih =>
    simp only [preload]
    split
    · rename_i hgenesis
      have hend : min (i + (n + 1)) (startHeight - 1) = i := by omega
      rw [hend]
    · rename_i hheight
      obtain ⟨e, he⟩ : ∃ e, chain[startHeight - 1 - i]? = some e :=
        ⟨_, getElem?_eq_getElem (by omega)⟩
      have hstep : (chain.take startHeight).drop (startHeight - (i + 1)) =
          e :: (chain.take startHeight).drop (startHeight - i) := by
        have hin : startHeight - 1 - i < (chain.take startHeight).length := by
          rw [length_take]
          omega
        have hget : (chain.take startHeight)[startHeight - 1 - i] = e := by
          rw [getElem_take]
          exact List.getElem?_eq_some_iff.mp he |>.2
        have hidx : startHeight - (i + 1) = startHeight - 1 - i := by omega
        have hnext : startHeight - 1 - i + 1 = startHeight - i := by omega
        rw [hidx, drop_eq_getElem_cons hin, hget, hnext]
      have hnext := ih (i + 1) (by omega)
      rw [hstep] at hnext
      simp only [getBlockTimestamp, getBlockCumulativeDifficulty, he, ok_bind]
      have hcount : i + (n + 1) = i + 1 + n := by omega
      rw [hcount]
      exact hnext

theorem preload_window (hstart : 1 < startHeight) (hlen : startHeight ≤ chain.length) :
    preload chain startHeight difficultyBlocksCount 0 ([], []) =
      .ok (timestampsOf (windowEntries (chain.take startHeight)),
        difficultiesOf (windowEntries (chain.take startHeight))) := by
  have hne : chain.take startHeight ≠ [] := by
    rw [← length_pos_iff, length_take]
    omega
  have htaken : (chain.take startHeight).length = startHeight := by
    rw [length_take]
    omega
  have hempty : (chain.take startHeight).drop (startHeight - 0) = [] :=
    drop_eq_nil_of_le (by omega)
  have hload := preload_eq hlen difficultyBlocksCount 0 (by omega)
  rw [hempty, zero_add] at hload
  rw [windowEntries_eq hne, htaken]
  exact hload

end
section
variable {env : ChainEnv} {chain : List Entry} {height : Nat}

theorem ChainEnv.Canonical.take_succ (h : env.Canonical chain) (hheight : height < chain.length) :
    ∃ b, chain.take (height + 1) = chain.take height ++ [env.nextEntry (chain.take height) b] := by
  induction h with
  | nil => exact absurd hheight (Nat.not_lt_zero _)
  | @snoc init b hinit hprev ih =>
    rcases lt_or_ge height init.length with hlt | hge
    · obtain ⟨b', hb'⟩ := ih hlt
      refine ⟨b', ?_⟩
      rw [take_append_of_le_length hlt, take_append_of_le_length hlt.le]
      exact hb'
    · rw [length_append, length_singleton] at hheight
      obtain rfl : height = init.length := by omega
      refine ⟨b, ?_⟩
      rw [take_left, take_of_length_le (by simp)]

theorem ChainEnv.Canonical.genesis (h : env.Canonical chain) (hlen : 0 < chain.length) :
    topCumulativeDifficulty (chain.take 1) = 1 := by
  obtain ⟨b, hb⟩ := h.take_succ hlen
  rw [hb, topCumulativeDifficulty_concat]
  simp only [nextEntry, take_zero, difficultyAt_nil]
  rfl

structure Healthy (env : ChainEnv) (chain : List Entry) : Prop where
  canonical : env.Canonical chain
  fits : ∀ e ∈ chain, e.cumulativeDifficulty < 2 ^ 128
  target : ∀ height, 1 ≤ height → height < chain.length →
    difficultyTarget (env.idealVersion height) =
      env.getDifficultyTarget (chain.take height)

theorem take_ne_nil (hpos : 1 ≤ height) (hlen : height < chain.length) : chain.take height ≠ [] := by
  rw [← length_pos_iff, length_take]
  omega

theorem difficultiesOf_getLastD (hpos : 1 < height) (hlen : height < chain.length) :
    (difficultiesOf (windowEntries (chain.take height))).getLastD 0 =
      topCumulativeDifficulty (chain.take height) := by
  have hlast : (windowEntries (chain.take height)).getLast? = (chain.take height).getLast? := by
    rw [windowEntries_eq (take_ne_nil hpos.le hlen), getLast?_drop, length_take]
    have hin : min height chain.length = height := min_eq_left hlen.le
    have hcount : 0 < min difficultyBlocksCount (height - 1) :=
      lt_min (by decide) (by omega)
    rw [hin, if_neg (by omega)]
  rw [difficultiesOf, getLastD_eq_getLast?, getLast?_map, hlast]
  rfl

variable (h : Healthy env chain) (hfixed : env.fixedDifficulty = 0) (hpos : 1 ≤ height)
include h hfixed hpos

theorem Healthy.stored (hlen : height < chain.length) :
    ∃ e, chain[height]? = some e ∧ chain.take (height + 1) = chain.take height ++ [e] ∧
      e.cumulativeDifficulty < 2 ^ 128 ∧
      e.cumulativeDifficulty = nextDifficulty (timestampsOf (windowEntries (chain.take height)))
        (difficultiesOf (windowEntries (chain.take height)))
        (difficultyTarget (env.idealVersion height)) +
          topCumulativeDifficulty (chain.take height) := by
  obtain ⟨b, hb⟩ := h.canonical.take_succ hlen
  have hget : chain[height]? = some (env.nextEntry (chain.take height) b) := by
    have htaken : (chain.take (height + 1))[height]? = chain[height]? :=
      getElem?_take_of_lt (Nat.lt_succ_self height)
    rw [← htaken, hb]
    simp [hlen.le]
  refine ⟨_, hget, hb, h.fits _ (mem_of_getElem? hget), ?_⟩
  have hdiff : env.difficultyAt (chain.take height) = env.freshDifficulty (chain.take height) :=
    if_neg (not_not.mpr hfixed)
  rw [h.target height hpos hlen]
  exact congrArg (· + topCumulativeDifficulty (chain.take height)) hdiff

variable {r : Rolling}

theorem Healthy.step (hlen : height < chain.length) (hr : Rolled chain height r) :
    ∃ r', env.recalculateStep chain r height = .ok r' ∧ Rolled chain (height + 1) r' := by
  obtain ⟨e, hget, htake, hfits, hcum⟩ := h.stored hfixed hpos hlen
  have hdrift : driftAt chain r height e.cumulativeDifficulty = .ok 0 := by
    simp only [driftAt, if_pos hr.noDrift, getBlockCumulativeDifficulty, hget, ok_bind]
    exact congrArg Except.ok (if_neg (not_not.mpr rfl))
  have hpush : pushBlock chain r height e.cumulativeDifficulty =
      .ok (timestampsOf (windowEntries (chain.take height)) ++ [e.block.timestamp],
        difficultiesOf (windowEntries (chain.take height)) ++ [e.cumulativeDifficulty]) := by
    rw [pushBlock, if_pos (pos_of_ne_zero (by omega)), hr.timestamps, hr.difficulties]
    simp only [getBlockTimestamp, hget]
    rfl
  have hslide := slide_window (take_ne_nil hpos hlen) e
  rw [← htake] at hslide
  refine ⟨⟨timestampsOf (windowEntries (chain.take (height + 1))),
    difficultiesOf (windowEntries (chain.take (height + 1))), e.cumulativeDifficulty, 0, []⟩,
    ?_, rfl, rfl, ?_, rfl, rfl⟩
  · simp only [recalculateStep]
    rw [hr.timestamps, hr.difficulties, hr.last, ← hcum,
      check_decide (by omega), hdrift, ok_bind, hpush, ok_bind, hslide, ok_bind, hr.nothingNew]
    rfl
  · rw [htake, topCumulativeDifficulty_concat]

theorem Healthy.recalculateSteps (count : Nat) (hlen : height + count ≤ chain.length)
    (hr : Rolled chain height r) :
    ∃ r', (List.range' height count).foldlM (env.recalculateStep chain) r = .ok r' ∧
      Rolled chain (height + count) r' := by
  induction count generalizing height r with
  | zero => exact ⟨r, rfl, hr⟩
  | succ count ih =>
    obtain ⟨next, hstep, hnext⟩ := h.step hfixed hpos (by omega) hr
    obtain ⟨last, hrun, hlast⟩ := ih (by omega) (by omega) hnext
    refine ⟨last, ?_, ?_⟩
    · rw [range'_succ, foldlM_cons, hstep]
      exact hrun
    · rw [show height + (count + 1) = height + 1 + count by omega]
      exact hlast

theorem Healthy.recalculateFrom (hheight : height < chain.length) (count : Nat)
    (hlen : height + count ≤ chain.length) :
    ∃ r, env.recalculateFrom chain height count = .ok r ∧ Rolled chain (height + count) r := by
  obtain ⟨first, hfirst, hrolled⟩ : ∃ r, startRolling chain height = .ok r ∧ Rolled chain height r
    := by
    rcases hpos.eq_or_lt with rfl | hlt
    · have hwindow : windowEntries (chain.take 1) = [] := by
        rw [← length_eq_zero_iff, length_windowEntries (take_ne_nil le_rfl hheight), length_take]
        omega
      refine ⟨⟨[], [], 1, 0, []⟩, rfl, ?_, ?_, (h.canonical.genesis (by omega)).symm, rfl, rfl⟩
      · rw [hwindow]
        rfl
      · rw [hwindow]
        rfl
    · refine ⟨⟨timestampsOf (windowEntries (chain.take height)),
        difficultiesOf (windowEntries (chain.take height)), _, 0, []⟩, ?_, rfl, rfl,
        difficultiesOf_getLastD hlt hheight, rfl, rfl⟩
      rw [Chain.startRolling, if_pos hlt, preload_window hlt hheight.le]
      rfl
  obtain ⟨last, hrun, hlast⟩ := h.recalculateSteps hfixed hpos count hlen hrolled
  refine ⟨last, ?_, hlast⟩
  rw [ChainEnv.recalculateFrom, hfirst]
  exact hrun

end

theorem recalculate_finds_no_drift (env : ChainEnv) (s : Blockchain) (points : List (Nat × Nat))
    (startHeight : Nat) (hhealthy : Healthy env s.db.chain) (hlen : s.db.chain.length < 2 ^ 64)
    (hpos : 1 ≤ startHeight) (htop : startHeight < s.db.chain.length) :
    s.recalculateDifficulties env points (some startHeight) = .ok (0, s) ∧
      (env.fixedDifficulty = 0 → ∀ height e, startHeight ≤ height →
        s.db.chain[height]? = some e → ∃ r,
          env.recalculateFrom s.db.chain startHeight (height + 1 - startHeight) = .ok r ∧
            r.lastCumDiff = e.cumulativeDifficulty) := by
  refine ⟨?_, ?_⟩
  · by_cases hfixed : env.fixedDifficulty = 0
    · have hheight : wsub s.db.chain.length 1 + 1 - startHeight = s.db.chain.length - startHeight := by
        rw [wsub_of_le (by omega) hlen]
        omega
      obtain ⟨last, hrun, hlast⟩ := hhealthy.recalculateFrom hfixed hpos htop
        (s.db.chain.length - startHeight) (by omega)
      rw [recalculateDifficulties, if_neg (not_not.mpr hfixed)]
      simp only [recalculateStart, ok_bind, hheight, hrun, hlast.nothingNew,
        writeRecalculated, hlast.noDrift]
      rfl
    · rw [recalculateDifficulties, if_pos hfixed]
  · intro hfixed height e hle hget
    obtain ⟨hin, -⟩ := List.getElem?_eq_some_iff.mp hget
    obtain ⟨r, hrun, hrolled⟩ := hhealthy.recalculateFrom hfixed hpos htop
      (height + 1 - startHeight) (by omega)
    obtain ⟨e', hget', htake, -, -⟩ := hhealthy.stored hfixed (by omega) hin
    obtain rfl : e' = e := Option.some.inj (hget'.symm.trans hget)
    refine ⟨r, hrun, ?_⟩
    rw [hrolled.last, show startHeight + (height + 1 - startHeight) = height + 1 by omega, htake,
      topCumulativeDifficulty_concat]

def recalculatedChain : Blockchain :=
  ⟨⟨[0, 120, 121, 122, 123].foldl (fun chain timestamp => chain ++ [sampleEnv.nextEntry chain
    (sampleBlock chain.length timestamp (sampleEnv.topHash chain))]) [], .empty⟩,
    none, false, .initial, ∅⟩

theorem recalculatedChain_healthy : Healthy sampleEnv recalculatedChain.db.chain :=
  ⟨.snoc (.snoc (.snoc (.snoc (.snoc .nil rfl) rfl) rfl) rfl) rfl, by decide +kernel,
    fun _ _ _ => rfl⟩

theorem last_blocks_recalculated :
    recalculatedChain.recalculateDifficulties sampleEnv [] (some 3) =
        .ok (0, recalculatedChain) ∧
      recalculatedChain.db.chain.map Entry.cumulativeDifficulty = [1, 2, 3, 123, 7383] :=
  ⟨(recalculate_finds_no_drift sampleEnv recalculatedChain [] 3 recalculatedChain_healthy
    (by decide) (by decide) (by decide)).1, by decide +kernel⟩

end Jero.Chain
