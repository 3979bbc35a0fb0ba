import Jero.Epee.MedianRuns
import Jero.Machine.Exec
import Jero.Tx.Semantic

namespace Jero.Chain
open Jero.Machine Jero.Lists Jero.Tx Jero.Epee List RollingMedian

def longTermBlockWeightWindowSize : Nat := 100000

def rewardBlocksWindow : Nat := 100

def fullRewardZoneV5 : Nat := 300000

def shortTermSurgeFactor : Nat := 50

def hfVersionLongTermBlockWeight : Nat := 10

def hfVersion2021Scaling : Nat := 15

structure StoredBlock where
  id : Hash
  weight : Nat
  longTermWeight : Nat
deriving DecidableEq, Repr

structure WeightState where
  chain : List StoredBlock
  window : Nat
  cacheTipHash : Hash
  rollingMedian : RollingMedian
  effectiveMedian : Nat
  cumulativeMedian : Nat
  cumulativeLimit : Nat

open WeightState

def blockInfoFields (field : StoredBlock → Nat) (chain : List StoredBlock)
    (startHeight count : Nat) : Except String (List Nat) :=
  if startHeight ≥ chain.length then
    .error ("Height " ++ toString startHeight ++ " not in blockchain")
  else .ok (((chain.drop startHeight).take count).map field)

namespace WeightState

def hashFromHeight (s : WeightState) (height : Nat) : Hash :=
  (s.chain[height]?.map StoredBlock.id).getD nullHash

def cached (s : WeightState) (tipHeight count : Nat) : Prop :=
  tipHeight < s.chain.length ∧ count = s.rollingMedian.sz ∧
    s.hashFromHeight tipHeight = s.cacheTipHash

def incremental (s : WeightState) (tipHeight count : Nat) : Prop :=
  (0 < tipHeight ∧ tipHeight < s.chain.length) ∧
    (count = s.rollingMedian.sz ∨
      (count = s.rollingMedian.sz + 1 ∧ s.rollingMedian.sz < longTermBlockWeightWindowSize)) ∧
    s.hashFromHeight (tipHeight - 1) = s.cacheTipHash

instance (s : WeightState) (tipHeight count : Nat) : Decidable (s.cached tipHeight count) :=
  inferInstanceAs (Decidable (_ ∧ _))

instance (s : WeightState) (tipHeight count : Nat) : Decidable (s.incremental tipHeight count) :=
  inferInstanceAs (Decidable (_ ∧ _))

def setCache (s : WeightState) (tipHash : Hash) (rm : RollingMedian) : WeightState :=
  { s with cacheTipHash := tipHash, rollingMedian := rm }

def getLongTermBlockWeightMedian (startHeight count : Nat) : Exec WeightState Nat := fun s =>
  if count = 0 then .error "count == 0" s
  else
    let tipHeight := startHeight + count - 1
    let tipHash := if tipHeight < s.chain.length then s.hashFromHeight tipHeight else nullHash
    if s.cached tipHeight count then .ok s.rollingMedian.medianOf s
    else if s.incremental tipHeight count then
      let weight := (s.chain[tipHeight]?.map StoredBlock.longTermWeight).getD 0
      let rm := s.rollingMedian.insert weight
      .ok rm.medianOf (s.setCache tipHash rm)
    else
      match blockInfoFields StoredBlock.longTermWeight s.chain startHeight count with
      | .error e => .error e s
      | .ok weights =>
        let rm := s.rollingMedian.clear.insertAll weights
        .ok rm.medianOf (s.setCache tipHash rm)

def queryMedian : Exec WeightState Nat := fun s =>
  let nblocks := min s.window s.chain.length
  getLongTermBlockWeightMedian (s.chain.length - nblocks) nblocks s

def boundedLongTermWeight (version blockWeight longTermMedian : Nat) : Nat :=
  let effective := max fullRewardZoneV5 longTermMedian
  if version ≥ hfVersion2021Scaling then
    min (max blockWeight (wrap (effective * 10) / 17)) (wrap (effective + wrap (effective * 7) / 10))
  else min blockWeight (wrap (effective + wrap (effective * 2) / 5))

def getNextLongTermBlockWeight (version blockWeight : Nat) : Exec WeightState Nat :=
  if version < hfVersionLongTermBlockWeight then pure blockWeight
  else do
    let longTermMedian ← queryMedian
    pure (boundedLongTermWeight version blockWeight longTermMedian)

def getLastNBlocksWeights (count : Nat) : Exec WeightState (List Nat) := fun s =>
  if s.chain.length = 0 then .ok [] s
  else match blockInfoFields StoredBlock.weight s.chain
      (s.chain.length - min s.chain.length count) count with
    | .error e => .error e s
    | .ok weights => .ok weights s

def effectiveBlockWeight (version effective shortTermMedian : Nat) : Nat :=
  let floor := if version ≥ hfVersion2021Scaling then effective else fullRewardZoneV5
  min (max floor shortTermMedian) (wrap (shortTermSurgeFactor * effective))

def setLimit (version cumulativeMedian : Nat) (s : WeightState) : WeightState :=
  let median := max cumulativeMedian (getMinBlockWeight version)
  { s with cumulativeMedian := median, cumulativeLimit := wrap (median * 2) }

def updateNextCumulativeWeightLimit (version : Nat) : Exec WeightState Bool :=
  if version < hfVersionLongTermBlockWeight then do
    let weights ← getLastNBlocksWeights rewardBlocksWindow
    modify (setLimit version (median weights))
    pure true
  else do
    let longTermMedian ← queryMedian
    modify fun s => { s with effectiveMedian := max fullRewardZoneV5 longTermMedian }
    let weights ← getLastNBlocksWeights rewardBlocksWindow
    modify fun s => setLimit version (effectiveBlockWeight version s.effectiveMedian (median weights)) s
    pure true

inductive WeightOp where
  | addBlock (b : StoredBlock)
  | popBlock
  | reorganise (keep : Nat) (blocks : List StoredBlock)
  | getLongTermBlockWeightMedian
  | getNextLongTermBlockWeight (version blockWeight : Nat)
  | updateNextCumulativeWeightLimit (version : Nat)

def setBlocks (s : WeightState) (chain : List StoredBlock) : WeightState := { s with chain := chain }

def step (s : WeightState) : WeightOp → WeightState
  | .addBlock b => s.setBlocks (s.chain ++ [b])
  | .popBlock => if s.chain.length > 1 then s.setBlocks s.chain.dropLast else s
  | .reorganise keep blocks => s.setBlocks (s.chain.take (max keep 1) ++ blocks)
  | .getLongTermBlockWeightMedian => stateAfter (queryMedian s)
  | .getNextLongTermBlockWeight version blockWeight =>
    stateAfter (getNextLongTermBlockWeight version blockWeight s)
  | .updateNextCumulativeWeightLimit version =>
    stateAfter (updateNextCumulativeWeightLimit version s)

def trace (s : WeightState) : List WeightOp → List WeightState
  | [] => [s]
  | op :: ops => s :: (s.step op).trace ops

structure Fresh (s : WeightState) : Prop where
  window_pos : 0 < s.window
  genesis : s.chain ≠ []
  cleared : ∃ storage : RollingMedian, storage.capacity = s.window ∧ s.rollingMedian = storage.clear

def HashDetermines (chains : List (List StoredBlock)) : Prop :=
  ∀ l ∈ chains, ∀ d ∈ chains, ∀ i j b b', l[i]? = some b → d[j]? = some b' → b.id = b'.id →
    l.take (i + 1) = d.take (j + 1)

def recent (window : Nat) (chain : List StoredBlock) : List Nat :=
  (chain.drop (chain.length - min window chain.length)).map StoredBlock.longTermWeight

theorem recent_length (window : Nat) (chain : List StoredBlock) :
    (recent window chain).length = min window chain.length := by
  simp only [recent, length_map, length_drop]
  omega

theorem recent_concat {window : Nat} (hwindow : 0 < window) (chain : List StoredBlock)
    (b : StoredBlock) :
    recent window (chain ++ [b]) =
      RollingMedian.slide window (recent window chain) b.longTermWeight := by
  unfold slide
  rw [recent_length]
  unfold recent
  rw [length_append, length_singleton]
  rcases lt_or_ge chain.length window with hshort | hlong
  · rw [if_pos (by omega), show chain.length + 1 - min window (chain.length + 1) = 0 by omega,
      show chain.length - min window chain.length = 0 by omega]
    simp
  · rw [if_neg (by omega), drop_append_of_le_length (by omega), map_append, ← map_tail, tail_drop]
    rw [show chain.length + 1 - min window (chain.length + 1) =
      chain.length - min window chain.length + 1 by omega]
    rfl

structure CacheHolds (chains : List (List StoredBlock)) (s : WeightState) : Prop where
  window_pos : 0 < s.window
  genesis : s.chain ≠ []
  capacity : s.rollingMedian.capacity = s.window
  wellFormed : s.rollingMedian.WellFormed
  held : s.rollingMedian.sz = 0 ∨ ∃ d ∈ chains, ∃ m b, d[m]? = some b ∧ b.id = s.cacheTipHash ∧
    s.rollingMedian.window = recent s.window (d.take (m + 1))

variable {chains : List (List StoredBlock)} {s : WeightState}

theorem Fresh.holds (h : s.Fresh) : CacheHolds chains s := by
  obtain ⟨storage, hcapacity, hcleared⟩ := h.cleared
  have hwell := clear_wellFormed (hcapacity.symm ▸ h.window_pos)
  obtain ⟨hkept, -, -, -, hsz⟩ := clearFrom_fields storage.capacity
    { storage with idx := 0, minCt := 0, maxCt := 0, sz := 0 }
  refine ⟨h.window_pos, h.genesis, ?_, hcleared ▸ hwell, .inl ?_⟩
  · rw [hcleared]
    exact hkept.trans hcapacity
  · rw [hcleared]
    exact hsz

section
variable (h : CacheHolds chains s) (hchain : s.chain ∈ chains)
include h hchain

theorem CacheHolds.held_of_tip (hdet : HashDetermines chains) (hsz : s.rollingMedian.sz ≠ 0)
    {height : Nat} (hheight : height < s.chain.length)
    (htip : s.hashFromHeight height = s.cacheTipHash) :
    s.rollingMedian.window = recent s.window (s.chain.take (height + 1)) := by
  rcases h.held with hempty | ⟨d, hd, m, b, hb, hid, hheld⟩
  · exact absurd hempty hsz
  · have hget : s.chain[height]? = some s.chain[height] := getElem?_eq_getElem hheight
    rw [hashFromHeight, hget] at htip
    rw [hheld, hdet s.chain hchain d hd height m _ b hget hb (htip.trans hid.symm)]

theorem CacheHolds.setCache {rm : RollingMedian} (hwell : rm.WellFormed)
    (hcapacity : rm.capacity = s.window) (hwindow : rm.window = recent s.window s.chain) :
    rm.medianOf = median (recent s.window s.chain) ∧
      CacheHolds chains (s.setCache (s.hashFromHeight (s.chain.length - 1)) rm) := by
  have hlength : 0 < s.chain.length := length_pos_iff.mpr h.genesis
  have hwindowPos := h.window_pos
  have hsz : rm.sz = min s.window s.chain.length := by
    rw [← rm.window_length, hwindow, recent_length]
  refine ⟨?_, h.window_pos, h.genesis, hcapacity, hwell, .inr ⟨s.chain, hchain,
    s.chain.length - 1, s.chain.get ⟨s.chain.length - 1, Nat.sub_one_lt hlength.ne'⟩, ?_, ?_, ?_⟩⟩
  · rw [medianOf_eq hwell (by omega), hwindow]
  · exact getElem?_eq_getElem _
  · change _ = s.hashFromHeight (s.chain.length - 1)
    rw [hashFromHeight, getElem?_eq_getElem (Nat.sub_one_lt hlength.ne')]
    rfl
  · change rm.window = recent s.window _
    rw [hwindow, Nat.sub_add_cancel hlength, take_length]

theorem CacheHolds.slid (hdet : HashDetermines chains)
    (hincremental : s.incremental (s.chain.length - 1) (min s.window s.chain.length)) :
    (s.rollingMedian.insert
        ((s.chain[s.chain.length - 1]?.map StoredBlock.longTermWeight).getD 0)).window =
      recent s.window s.chain := by
  obtain ⟨⟨hlow, hhigh⟩, hcount, htip⟩ := hincremental
  obtain ⟨init, b, hsplit⟩ : ∃ init b, s.chain = init ++ [b] :=
    ⟨_, _, (dropLast_append_getLast h.genesis).symm⟩
  have hlength : s.chain.length = init.length + 1 := by rw [hsplit]; simp
  have hlast : s.chain[s.chain.length - 1]? = some b := by
    rw [hlength, hsplit]
    simp
  rw [hlast, window_insert h.wellFormed, h.capacity]
  by_cases hempty : s.rollingMedian.sz = 0
  · have hone : min s.window s.chain.length = 1 := by
      have hwindow := h.window_pos
      omega
    have hnil : s.rollingMedian.window = [] := by
      rw [← length_eq_zero_iff, window_length, hempty]
    rw [hnil, slide, if_pos (show ([] : List Nat).length < s.window from h.window_pos),
      recent, hone, hlength, hsplit]
    simp
  · have hheld := h.held_of_tip hchain hdet hempty (by omega) htip
    have hinit : s.chain.take (s.chain.length - 1 - 1 + 1) = init := by
      rw [Nat.sub_add_cancel hlow, hlength, Nat.add_sub_cancel, hsplit, take_left]
    rw [hinit] at hheld
    rw [hheld, hsplit, recent_concat h.window_pos]
    rfl

theorem queryMedian_spec (hdet : HashDetermines chains) :
    ∃ tipHash rm, queryMedian s = .ok (median (recent s.window s.chain)) (s.setCache tipHash rm) ∧
      CacheHolds chains (s.setCache tipHash rm) := by
  have hlength : 0 < s.chain.length := length_pos_iff.mpr h.genesis
  have hwindow := h.window_pos
  have hcount : min s.window s.chain.length ≠ 0 := by omega
  have htip : s.chain.length - min s.window s.chain.length + min s.window s.chain.length - 1 =
      s.chain.length - 1 := by omega
  unfold queryMedian getLongTermBlockWeightMedian
  simp only [if_neg hcount, htip, if_pos (Nat.sub_one_lt hlength.ne')]
  by_cases hcached : s.cached (s.chain.length - 1) (min s.window s.chain.length)
  · rw [if_pos hcached]
    obtain ⟨hin, hsz, htip⟩ := hcached
    have hheld := h.held_of_tip hchain hdet (hsz ▸ hcount) hin htip
    rw [Nat.sub_add_cancel hlength, take_length] at hheld
    obtain ⟨hmedian, hholds⟩ := h.setCache hchain h.wellFormed h.capacity hheld
    exact ⟨_, _, by rw [hmedian, htip]; rfl, hholds⟩
  rw [if_neg hcached]
  by_cases hincremental : s.incremental (s.chain.length - 1) (min s.window s.chain.length)
  · rw [if_pos hincremental]
    obtain ⟨hwell, -, -, -, hcapacity⟩ := insert_stored h.wellFormed
      ((s.chain[s.chain.length - 1]?.map StoredBlock.longTermWeight).getD 0)
    obtain ⟨hmedian, hholds⟩ := h.setCache hchain hwell (hcapacity.trans h.capacity)
      (h.slid hchain hdet hincremental)
    exact ⟨_, _, by rw [hmedian], hholds⟩
  rw [if_neg hincremental]
  have hweights : blockInfoFields StoredBlock.longTermWeight s.chain
      (s.chain.length - min s.window s.chain.length) (min s.window s.chain.length) =
        .ok (recent s.window s.chain) := by
    unfold blockInfoFields recent
    rw [if_neg (by omega), take_of_length_le (by rw [length_drop]; omega)]
  rw [hweights]
  obtain ⟨hwell, hcapacity, hheld⟩ := reload_spec (h.capacity.symm ▸ hwindow)
    (show (recent s.window s.chain).length ≤ s.rollingMedian.capacity by
      rw [recent_length, h.capacity]
      exact min_le_left _ _)
  obtain ⟨hmedian, hholds⟩ := h.setCache hchain hwell (hcapacity.trans h.capacity) hheld
  exact ⟨_, _, by rw [← hmedian], hholds⟩

end

theorem CacheHolds.setBlocks (h : CacheHolds chains s) {chain : List StoredBlock}
    (hchain : chain ≠ []) : CacheHolds chains (s.setBlocks chain) :=
  ⟨h.window_pos, hchain, h.capacity, h.wellFormed, h.held⟩

section
variable (h : CacheHolds chains s) (hdet : HashDetermines chains)
include h hdet

theorem updateNextCumulativeWeightLimit_holds (hchain : s.chain ∈ chains) (version : Nat) :
    CacheHolds chains (stateAfter (updateNextCumulativeWeightLimit version s)) := by
  have hlimit : ∀ (f : WeightState → List Nat → Nat) (s : WeightState), CacheHolds chains s →
      CacheHolds chains (stateAfter ((do
        let weights ← getLastNBlocksWeights rewardBlocksWindow
        modify fun s => setLimit version (f s weights) s
        pure true : Exec WeightState Bool) s)) := by
    intro f s hs
    have hkept : stateAfter (getLastNBlocksWeights rewardBlocksWindow s) = s := by
      unfold getLastNBlocksWeights
      split
      · rfl
      · split <;> rfl
    simp only [bind, EStateM.bind]
    generalize getLastNBlocksWeights rewardBlocksWindow s = r at hkept
    cases r with
    | ok weights s' =>
      obtain rfl : s' = s := hkept
      exact ⟨hs.window_pos, hs.genesis, hs.capacity, hs.wellFormed, hs.held⟩
    | error e s' =>
      obtain rfl : s' = s := hkept
      exact hs
  unfold updateNextCumulativeWeightLimit
  split
  · exact hlimit (fun _ weights => median weights) s h
  · obtain ⟨tipHash, rm, hquery, hholds⟩ := queryMedian_spec h hchain hdet
    rw [exec_bind_ok hquery]
    refine hlimit (fun s weights => effectiveBlockWeight version s.effectiveMedian (median weights))
      _ ⟨hholds.window_pos, hholds.genesis, hholds.capacity, hholds.wellFormed, hholds.held⟩

theorem step_holds (hchain : s.chain ∈ chains) (op : WeightOp) : CacheHolds chains (s.step op) := by
  cases op with
  | addBlock b => exact h.setBlocks (by simp)
  | popBlock =>
    change CacheHolds chains (if s.chain.length > 1 then s.setBlocks s.chain.dropLast else s)
    split
    · rename_i hlong
      refine h.setBlocks ?_
      rw [← length_pos_iff, length_dropLast]
      omega
    · exact h
  | reorganise keep blocks =>
    refine h.setBlocks ?_
    have hlength := length_pos_iff.mpr h.genesis
    rw [← length_pos_iff, length_append, length_take]
    omega
  | getLongTermBlockWeightMedian =>
    obtain ⟨tipHash, rm, hquery, hholds⟩ := queryMedian_spec h hchain hdet
    change CacheHolds chains (stateAfter (queryMedian s))
    rw [hquery]
    exact hholds
  | getNextLongTermBlockWeight version blockWeight =>
    obtain ⟨s', hnext, hholds⟩ : ∃ s', getNextLongTermBlockWeight version blockWeight s = .ok (if
      version < hfVersionLongTermBlockWeight then blockWeight else boundedLongTermWeight version
      blockWeight (median (recent s.window s.chain))) s' ∧ CacheHolds chains s' := by
      unfold getNextLongTermBlockWeight
      split
      · exact ⟨s, rfl, h⟩
      · obtain ⟨tipHash, rm, hquery, hholds⟩ := queryMedian_spec h hchain hdet
        exact ⟨_, exec_bind_ok hquery, hholds⟩
    change CacheHolds chains (stateAfter (getNextLongTermBlockWeight version blockWeight s))
    rw [hnext]
    exact hholds
  | updateNextCumulativeWeightLimit version =>
    exact updateNextCumulativeWeightLimit_holds h hdet hchain version

theorem trace_holds (ops : List WeightOp) (hchains : ∀ t ∈ s.trace ops, t.chain ∈ chains) :
    ∀ t ∈ s.trace ops, CacheHolds chains t := by
  induction ops generalizing s with
  | nil =>
    intro t ht
    obtain rfl : t = s := mem_singleton.mp ht
    exact h
  | cons op ops ih =>
    have hhead := hchains s mem_cons_self
    intro t ht
    rcases mem_cons.mp ht with rfl | ht
    · exact h
    · exact ih (step_holds h hdet hhead op)
        (fun t ht => hchains t (mem_cons_of_mem _ ht)) t ht

end

theorem long_term_median_cache_transparent {s : WeightState} (hfresh : s.Fresh)
    (ops : List WeightOp) (hdet : HashDetermines ((s.trace ops).map chain))
    {t : WeightState} (ht : t ∈ s.trace ops) :
    let height := t.chain.length
    let n := min t.window height
    ∃ t', getLongTermBlockWeightMedian (height - n) n t =
      .ok (median (((t.chain.drop (height - n)).take n).map StoredBlock.longTermWeight)) t' := by
  intro height n
  have hchains : ∀ t ∈ s.trace ops, t.chain ∈ (s.trace ops).map chain :=
    fun t ht => mem_map_of_mem ht
  have hholds := trace_holds hfresh.holds hdet ops hchains t ht
  obtain ⟨tipHash, rm, hquery, -⟩ := queryMedian_spec hholds (hchains t ht) hdet
  have hrange : (t.chain.drop (height - n)).take n = t.chain.drop (height - n) := by
    refine take_of_length_le ?_
    rw [length_drop]
    omega
  rw [hrange]
  exact ⟨_, hquery⟩

theorem hashDetermines_of_bounded
    (h : ∀ l ∈ chains, ∀ d ∈ chains, ∀ i < l.length, ∀ j < d.length,
      l[i]?.map StoredBlock.id = d[j]?.map StoredBlock.id → l.take (i + 1) = d.take (j + 1)) :
    HashDetermines chains := by
  intro l hl d hd i j b b' hb hb' hid
  obtain ⟨hi, -⟩ := List.getElem?_eq_some_iff.mp hb
  obtain ⟨hj, -⟩ := List.getElem?_eq_some_iff.mp hb'
  refine h l hl d hd i hi j hj ?_
  rw [hb, hb', Option.map_some, Option.map_some, hid]

def openedAt (genesis : StoredBlock) (window : Nat) : WeightState :=
  ⟨[genesis], window, nullHash,
    RollingMedian.clear ⟨fun _ => 0, fun _ => 0, fun _ => 0, window, 0, 0, 0, 0⟩, 0, 0, 0⟩

def sampleOps : List WeightOp :=
  [.getLongTermBlockWeightMedian, .addBlock ⟨2, 50, 40⟩, .updateNextCumulativeWeightLimit 10,
    .addBlock ⟨3, 60, 70⟩, .getNextLongTermBlockWeight 16 90, .reorganise 1 [⟨4, 20, 20⟩, ⟨5, 10, 6⟩],
    .getLongTermBlockWeightMedian, .addBlock ⟨6, 10, 11⟩]

theorem foldl_mem_trace (s : WeightState) (ops : List WeightOp) :
    ops.foldl step s ∈ s.trace ops := by
  induction ops generalizing s with
  | nil => exact mem_singleton_self s
  | cons op ops ih => exact mem_cons_of_mem _ (ih (s.step op))

theorem reorganised_median_is_fresh :
    let t := sampleOps.foldl step (openedAt ⟨1, 30, 30⟩ 2)
    t.chain = [⟨1, 30, 30⟩, ⟨4, 20, 20⟩, ⟨5, 10, 6⟩, ⟨6, 10, 11⟩] ∧
      ∃ t', getLongTermBlockWeightMedian 2 2 t = .ok (median [6, 11]) t' := by
  intro t
  have hfresh : (openedAt ⟨1, 30, 30⟩ 2).Fresh := ⟨by decide, by decide, _, rfl, rfl⟩
  have hdet : HashDetermines (((openedAt ⟨1, 30, 30⟩ 2).trace sampleOps).map chain) :=
    hashDetermines_of_bounded (by decide +kernel)
  have hchain : t.chain = [⟨1, 30, 30⟩, ⟨4, 20, 20⟩, ⟨5, 10, 6⟩, ⟨6, 10, 11⟩] := by decide +kernel
  have hwindow : t.window = 2 := by decide +kernel
  have ht : t ∈ (openedAt ⟨1, 30, 30⟩ 2).trace sampleOps := foldl_mem_trace _ _
  clear_value t
  have hquery := long_term_median_cache_transparent hfresh sampleOps hdet ht
  simp only [hchain, hwindow] at hquery
  exact ⟨hchain, hquery⟩

end WeightState
end Jero.Chain
