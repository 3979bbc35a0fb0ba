import Jero.Fcmp.Layer

namespace Jero.Fcmp
open Jero.Machine Jero.Lists

def getGrowLayerInstructions (oldTotalChildren newTotalChildren parentChunkWidth : Nat)
    (lastChildWillChange : Bool) : Except String GrowLayerInstructions := do
  let settingNextLayerAfterOldRoot := oldTotalChildren == 1
  check (!settingNextLayerAfterOldRoot || decide (newTotalChildren > oldTotalChildren))
    "new_total_children must be > old_total_children when setting next layer after old root"
  check (settingNextLayerAfterOldRoot || decide (newTotalChildren ≥ oldTotalChildren))
    "new_total_children must be >= old_total_children"
  let oldTotalParents :=
    if oldTotalChildren > 1 then 1 + (oldTotalChildren - 1) / parentChunkWidth else 0
  let newTotalParents := 1 + wsub newTotalChildren 1 / parentChunkWidth
  check (newTotalParents ≥ oldTotalParents) "new_total_parents must be >= old_total_parents"
  check (newTotalParents < newTotalChildren) "new_total_parents must be < new_total_children"
  check (!settingNextLayerAfterOldRoot || oldTotalParents == 0)
    "old_total_parents expected to be 0 when setting next layer after old root"
  let lastOffset := if oldTotalParents > 0 then oldTotalChildren % parentChunkWidth else 0
  let lastChunkIsFull := decide (oldTotalParents > 0) && lastOffset == 0
  let needOldLastChild := decide (oldTotalParents > 0) && lastChildWillChange
  check (!needOldLastChild || decide (oldTotalChildren > 0))
    "no old children but last child is supposed to change"
  let offset :=
    if needOldLastChild then
      (if lastOffset == 0 then parentChunkWidth - 1 else lastOffset - 1)
    else lastOffset
  let addingMembersToExistingLastChunk :=
    decide (oldTotalParents > 0) && !lastChunkIsFull && decide (newTotalChildren > oldTotalChildren)
  let needOldLastParent := needOldLastChild || addingMembersToExistingLastChunk
  check (!needOldLastParent || decide (oldTotalParents > 0))
    "no old parents but last parent is supposed to change1"
  let nextParentStartIndex := if needOldLastParent then oldTotalParents - 1 else oldTotalParents
  return {
    parentChunkWidth := parentChunkWidth
    oldTotalParents := oldTotalParents
    newTotalParents := newTotalParents
    settingNextLayerAfterOldRoot := settingNextLayerAfterOldRoot
    needOldLastChild := needOldLastChild
    needOldLastParent := needOldLastParent
    startOffset := offset
    nextParentStartIndex := nextParentStartIndex }

def getLeafLayerGrowInstructions (oldNLeafTuples newNLeafTuples leafTupleSize
    leafLayerChunkWidth : Nat) : Except String GrowLayerInstructions := do
  check (leafTupleSize != 0 && leafLayerChunkWidth % leafTupleSize == 0)
    "unexpected leaf size params"
  let oldTotalChildren := wrap (oldNLeafTuples * leafTupleSize)
  let newTotalChildren := wrap (wrap (oldNLeafTuples + newNLeafTuples) * leafTupleSize)
  let oldTotalParents :=
    if oldTotalChildren > 0 then 1 + (oldTotalChildren - 1) / leafLayerChunkWidth else 0
  let newTotalParents := 1 + wsub newTotalChildren 1 / leafLayerChunkWidth
  check (newTotalChildren ≥ oldTotalChildren) "new_total_children must be >= old_total_children"
  check (newTotalParents ≥ oldTotalParents) "new_total_parents must be >= old_total_parents"
  let offset := oldTotalChildren % leafLayerChunkWidth
  let lastChunkIsFull := decide (oldTotalParents > 0) && offset == 0
  let needOldLastParent :=
    decide (oldTotalParents > 0) && !lastChunkIsFull && decide (newTotalChildren > oldTotalChildren)
  check (!needOldLastParent || decide (oldTotalParents > 0))
    "No old parents but last parent is supposed to change"
  let nextParentStartIndex := if needOldLastParent then oldTotalParents - 1 else oldTotalParents
  return {
    parentChunkWidth := leafLayerChunkWidth
    oldTotalParents := oldTotalParents
    newTotalParents := newTotalParents
    settingNextLayerAfterOldRoot := false
    needOldLastChild := false
    needOldLastParent := needOldLastParent
    startOffset := offset
    nextParentStartIndex := nextParentStartIndex }

def parentsOf (w children : Nat) : Nat :=
  if children > 1 then 1 + (children - 1) / w else 0

def firstChangedChild (o : Nat) (change : Bool) : Nat := if change then o - 1 else o

def innerInstructions (o n w : Nat) (change : Bool) : GrowLayerInstructions where
  parentChunkWidth := w
  oldTotalParents := parentsOf w o
  newTotalParents := 1 + (n - 1) / w
  settingNextLayerAfterOldRoot := o == 1
  needOldLastChild := decide (1 < o) && change
  needOldLastParent := decide (1 < o) && (change || o % w != 0)
  startOffset := if 1 < o then firstChangedChild o change % w else 0
  nextParentStartIndex := if 1 < o then firstChangedChild o change / w else 0

variable {w n o : Nat}

theorem parents_lt (hw : 1 < w) (hn : 1 < n) : 1 + (n - 1) / w < n := by
  have h := Nat.div_lt_self (n := n - 1) (k := w) (by omega) hw
  omega

theorem parents_mono (h : o ≤ n) : parentsOf w o ≤ 1 + (n - 1) / w := by
  have hd : (o - 1) / w ≤ (n - 1) / w := Nat.div_le_div_right (by omega)
  unfold parentsOf
  split
  · omega
  · exact Nat.zero_le _

theorem getGrowLayerInstructions_ok {change : Bool} (hw : 1 < w) (hn : 1 < n) (hn64 : n < 2 ^ 64)
    (hle : o ≤ n) (hgrow : change = false → o < n) :
    getGrowLayerInstructions o n w change = .ok (innerInstructions o n w change) := by
  have hsub : wsub n 1 = n - 1 := wsub_of_le (by omega) hn64
  have hlt := parents_lt hw hn
  have hmono := parents_mono (w := w) hle
  unfold getGrowLayerInstructions
  by_cases ho : 1 < o
  · have hone : (o == 1) = false := by simp; omega
    have hpos : (0 : Nat) < 1 + (o - 1) / w := Nat.add_pos_left one_pos _
    have hpar : parentsOf w o = 1 + (o - 1) / w := if_pos ho
    rw [hpar] at hmono
    simp only [hone, hsub, gt_iff_lt, ge_iff_le, ho, hpos, if_true, decide_true, Bool.true_and,
      Bool.not_false, Bool.true_or, Bool.false_or, Bool.or_true]
    rw [check_true rfl, check_true (by simpa using hle),
      check_true (by simpa using hmono), check_true (by simpa using hlt),
      check_true rfl, check_true (by simp; omega), check_true rfl]
    simp only [innerInstructions, hpar, hone, ho, if_true, decide_true, Bool.true_and]
    by_cases hz : o % w = 0
    · obtain ⟨h1, h2⟩ := pred_divMod_of_mod_eq_zero (by omega) (by omega) hz
      cases change with
      | true => simp [hz, firstChangedChild, h1, pure, Except.pure]
      | false => simp [hz, firstChangedChild, ← h2, pure, Except.pure, add_comm]
    · obtain ⟨h1, h2⟩ := pred_divMod_of_mod_ne_zero (by omega) hz
      cases change with
      | true => simp [hz, firstChangedChild, h1, h2, pure, Except.pure]
      | false => simp [hz, firstChangedChild, h2, pure, Except.pure, hgrow rfl, bne]
  · have hpar : parentsOf w o = 0 := if_neg ho
    have hroot : (o == 1 → o < n) := by intro h; simp at h; omega
    simp only [hsub, gt_iff_lt, ge_iff_le, ho, if_false, lt_irrefl, decide_false, Bool.false_and,
      Bool.not_false, Bool.true_or, Bool.or_false, beq_self_eq_true, Bool.or_true]
    rw [check_true (by
        cases h : (o == 1) with
        | false => rfl
        | true => simpa using hroot h),
      check_true (by simp [hle]), check_true (by simp),
      check_true (by simpa using hlt), check_true rfl, check_true rfl, check_true rfl]
    simp [innerInstructions, hpar, ho, pure, Except.pure]

def leafInstructions (o n w : Nat) : GrowLayerInstructions where
  parentChunkWidth := 6 * w
  oldTotalParents := o ⌈/⌉ w
  newTotalParents := n ⌈/⌉ w
  settingNextLayerAfterOldRoot := false
  needOldLastChild := false
  needOldLastParent := o % w != 0
  startOffset := 6 * (o % w)
  nextParentStartIndex := o / w

theorem leaf_parents (hw : 0 < w) (hn : 0 < n) : 1 + (6 * n - 1) / (6 * w) = n ⌈/⌉ w := by
  have h6 : (6 * n - 1) / 6 = n - 1 := by omega
  rw [ceilDiv_eq_succ hw hn, ← Nat.div_div_eq_div_mul, h6]

theorem getLeafLayerGrowInstructions_ok {m : Nat} (hw : 1 < w) (hm : 0 < m)
    (h64 : 6 * (o + m) < 2 ^ 64) :
    getLeafLayerGrowInstructions o m 6 (6 * w) = .ok (leafInstructions o (o + m) w) := by
  have hold : wrap (o * 6) = 6 * o := by rw [wrap_of_lt] <;> omega
  have hsum : wrap (o + m) = o + m := wrap_of_lt (by omega)
  have hnew : wrap ((o + m) * 6) = 6 * (o + m) := by rw [wrap_of_lt] <;> omega
  have hsub : wsub (6 * (o + m)) 1 = 6 * (o + m) - 1 := wsub_of_le (by omega) h64
  have hpn := leaf_parents (n := o + m) (w := w) (by omega) (by omega)
  have hmod : (6 * o) % (6 * w) = 6 * (o % w) := Nat.mul_mod_mul_left 6 o w
  unfold getLeafLayerGrowInstructions
  rw [check_true (by simp)]
  simp only [hold, hsum, hnew, hsub, hpn, hmod]
  rcases eq_zero_or_pos o with rfl | ho
  · rw [check_true (by simp), check_true (by simp), check_true (by simp)]
    simp [leafInstructions, pure, Except.pure]
  · have hpo := leaf_parents (n := o) (w := w) (by omega) ho
    have hc := ceilDiv_eq_succ (n := o) (w := w) (by omega) ho
    have hcn := ceilDiv_eq_succ (n := o + m) (w := w) (by omega) (by omega)
    have hmono : (o - 1) / w ≤ (o + m - 1) / w := Nat.div_le_div_right (by omega)
    have hpos : 0 < o ⌈/⌉ w := by rw [hc]; exact Nat.add_pos_left one_pos _
    have h6 : 6 * o > 0 := by omega
    have hlt : 6 * (o + m) > 6 * o := by omega
    simp only [h6, if_true, hpo, hpos, gt_iff_lt, hlt, decide_true, Bool.true_and, Bool.and_true,
      Bool.or_true]
    rw [check_true (by simp), check_true (by simp; omega), check_true rfl]
    by_cases hz : o % w = 0
    · have hfull := (pred_divMod_of_mod_eq_zero (by omega) ho hz).2
      simp [leafInstructions, hz, pure, Except.pure]
      omega
    · have hpart := (pred_divMod_of_mod_ne_zero (w := w) (by omega) hz).2
      have hbool : (6 * (o % w) == 0) = !(o % w != 0) := by simp [hz, bne]
      simp [leafInstructions, hz, hbool, pure, Except.pure]
      omega
section
variable {SC PC SP PP : Type}

def nextChildScalarsFromChildren (cChild : Curve SC PC SP) (lastRoot : Option PC)
    (children : LayerExtension PC) : List SP :=
  (match lastRoot with
    | none => []
    | some root => if children.startIdx > 0 then [cChild.pointToCycleScalar root] else []) ++
    children.hashes.map cChild.pointToCycleScalar

def getNextLayerExtension (cChild : Curve SC PC SP) (cParent : Curve SP PP SC)
    (instructions : GrowLayerInstructions) (childLastHashes : List PC)
    (parentLastHashes : List PP) (childLayerExtensions : List (LayerExtension PC))
    (activeChildIdx activeParentIdx : Nat) : Except String (LayerExtension PP) :=
  let childLastHash := childLastHashes[activeChildIdx]?
  let parentLastHash := parentLastHashes[activeParentIdx]?
  match childLayerExtensions[activeChildIdx]? with
  | none => .error "missing child layer"
  | some childExtension => do
    check (!instructions.settingNextLayerAfterOldRoot ||
        wrap (activeChildIdx + 1) == childLastHashes.length)
      "unexpected last updated child idx"
    check (!instructions.settingNextLayerAfterOldRoot || childLastHash.isSome)
      "missing last child when setting layer after old root"
    let childScalars := nextChildScalarsFromChildren cChild
      (if instructions.settingNextLayerAfterOldRoot then childLastHash else none) childExtension
    check (!instructions.needOldLastParent || parentLastHash.isSome) "missing last parent"
    check (!instructions.needOldLastChild || childLastHash.isSome) "missing last child"
    let layerExtension ← hashChildrenChunks cParent
      (if instructions.needOldLastChild then childLastHash.map cChild.pointToCycleScalar else none)
      (if instructions.needOldLastParent then parentLastHash else none)
      instructions.startOffset instructions.nextParentStartIndex childScalars
      instructions.parentChunkWidth
    check (wrap (layerExtension.startIdx + layerExtension.hashes.length) ==
        instructions.newTotalParents)
      "unexpected num parents extended"
    return layerExtension

end

structure CurveTrees (S₁ P₁ S₂ P₂ : Type) where
  c1 : Curve S₁ P₁ S₂
  c2 : Curve S₂ P₂ S₁
  c1Width : Nat
  c2Width : Nat

structure LeafTuple (S : Type) where
  Ox : S
  Oy : S
  Ix : S
  Iy : S
  Cx : S
  Cy : S

def leafTupleSize : Nat := 6

def LeafTuple.toList {S : Type} (l : LeafTuple S) : List S := [l.Ox, l.Oy, l.Ix, l.Iy, l.Cx, l.Cy]

def flattenLeaves {S : Type} (leaves : List (LeafTuple S)) : List S := leaves.flatMap LeafTuple.toList

structure UnifiedOutput (Out : Type) where
  unifiedId : Nat
  outputPair : Out
deriving DecidableEq, Repr

structure ContiguousLeaves (Out : Type) where
  startIdx : Nat
  tuples : List (UnifiedOutput Out)
deriving DecidableEq, Repr

structure TreeExtension (Out P₁ P₂ : Type) where
  leaves : ContiguousLeaves Out
  c1LayerExtensions : List (LayerExtension P₁)
  c2LayerExtensions : List (LayerExtension P₂)
deriving DecidableEq, Repr

structure LastHashes (P₁ P₂ : Type) where
  c1LastHashes : List P₁
  c2LastHashes : List P₂

structure GrowState (Out P₁ P₂ : Type) where
  instructions : GrowLayerInstructions
  parentIsC2 : Bool
  c1LastIdx : Nat
  c2LastIdx : Nat
  treeExtension : TreeExtension Out P₁ P₂

def hasAdjacentDuplicate {Out : Type} : List (UnifiedOutput Out) → Bool
  | a :: b :: rest => a.unifiedId == b.unifiedId || hasAdjacentDuplicate (b :: rest)
  | _ => false

def flatSortedOutputs {Out : Type} :
    List (List (UnifiedOutput Out)) → Except String (List (UnifiedOutput Out))
  | [] => .ok []
  | group :: groups => do
    let sorted := group.insertionSort (fun a b => a.unifiedId ≤ b.unifiedId)
    check (!hasAdjacentDuplicate sorted) "get_tree_extension: duplicate output id's"
    let rest ← flatSortedOutputs groups
    return sorted ++ rest

namespace CurveTrees
variable {S₁ P₁ S₂ P₂ Out : Type} (T : CurveTrees S₁ P₁ S₂ P₂)

def leafLayerChunkWidth : Nat := wrap (leafTupleSize * T.c1Width)

def nElemsLoop : Nat → Nat → Bool → List Nat
  | 0, _, _ => []
  | fuel + 1, nChildren, parentIsC1 =>
    let parentChunkWidth := if parentIsC1 then T.c1Width else T.c2Width
    let nParents := wsub nChildren 1 / parentChunkWidth + 1
    nParents :: if nParents > 1 then nElemsLoop fuel nParents (!parentIsC1) else []

def nElemsPerLayer (nLeafTuples : Nat) : List Nat :=
  if nLeafTuples = 0 then [] else T.nElemsLoop nLeafTuples nLeafTuples true

def nLayers (nLeafTuples : Nat) : Nat := (T.nElemsPerLayer nLeafTuples).length

def outputsToLeaves (leafTuple : Out → Option (LeafTuple S₁))
    (newOutputs : List (UnifiedOutput Out)) : List S₁ × List (UnifiedOutput Out) :=
  (flattenLeaves (newOutputs.filterMap (fun o => leafTuple o.outputPair)),
    newOutputs.filter (fun o => (leafTuple o.outputPair).isSome))

def setNextLayerExtension (lastHashes : LastHashes P₁ P₂) (st : GrowState Out P₁ P₂) :
    Except String (GrowState Out P₁ P₂) := do
  let parentChunkWidth := if st.parentIsC2 then T.c2Width else T.c1Width
  let instructions ← getGrowLayerInstructions st.instructions.oldTotalParents
    st.instructions.newTotalParents parentChunkWidth st.instructions.needOldLastParent
  if st.parentIsC2 then
    let layerExtension ← getNextLayerExtension T.c1 T.c2 instructions lastHashes.c1LastHashes
      lastHashes.c2LastHashes st.treeExtension.c1LayerExtensions st.c1LastIdx st.c2LastIdx
    return { st with
      instructions := instructions
      c1LastIdx := st.c1LastIdx + 1
      treeExtension := { st.treeExtension with
        c2LayerExtensions := st.treeExtension.c2LayerExtensions ++ [layerExtension] } }
  else
    let layerExtension ← getNextLayerExtension T.c2 T.c1 instructions lastHashes.c2LastHashes
      lastHashes.c1LastHashes st.treeExtension.c2LayerExtensions st.c2LastIdx st.c1LastIdx
    return { st with
      instructions := instructions
      c2LastIdx := st.c2LastIdx + 1
      treeExtension := { st.treeExtension with
        c1LayerExtensions := st.treeExtension.c1LayerExtensions ++ [layerExtension] } }

def growLayers (lastHashes : LastHashes P₁ P₂) :
    Nat → GrowState Out P₁ P₂ → Except String (GrowState Out P₁ P₂)
  | 0, st => if st.instructions.newTotalParents > 1 then .error "out of fuel" else .ok st
  | fuel + 1, st =>
    if st.instructions.newTotalParents > 1 then do
      let newTotalChildren := st.instructions.newTotalParents
      let next ← T.setNextLayerExtension lastHashes st
      check (next.instructions.newTotalParents < newTotalChildren)
        "expect fewer parents than children in every layer"
      growLayers lastHashes fuel { next with parentIsC2 := !next.parentIsC2 }
    else .ok st

def getTreeExtension (leafTuple : Out → Option (LeafTuple S₁)) (oldNLeafTuples : Nat)
    (existingLastHashes : LastHashes P₁ P₂) (newOutputs : List (List (UnifiedOutput Out))) :
    Except String (TreeExtension Out P₁ P₂) := do
  check (wrap (existingLastHashes.c1LastHashes.length + existingLastHashes.c2LastHashes.length) ==
      T.nLayers oldNLeafTuples)
    "unexpected number of last hashes"
  if newOutputs.isEmpty then
    return ⟨⟨oldNLeafTuples, []⟩, [], []⟩
  else
    let flat ← flatSortedOutputs newOutputs
    let (flattenedLeaves, tuples) := outputsToLeaves leafTuple flat
    if flattenedLeaves.isEmpty then
      return ⟨⟨oldNLeafTuples, tuples⟩, [], []⟩
    else
      let instructions ← getLeafLayerGrowInstructions oldNLeafTuples tuples.length leafTupleSize
        T.leafLayerChunkWidth
      check (!instructions.needOldLastParent || !existingLastHashes.c1LastHashes.isEmpty)
        "missing last c1 parent"
      let leafParents ← hashChildrenChunks T.c1 none
        (if instructions.needOldLastParent then existingLastHashes.c1LastHashes[0]? else none)
        instructions.startOffset instructions.nextParentStartIndex flattenedLeaves
        T.leafLayerChunkWidth
      check (wrap (leafParents.startIdx + leafParents.hashes.length) ==
          instructions.newTotalParents)
        "unexpected num leaf parents extended"
      let st ← T.growLayers existingLastHashes instructions.newTotalParents
        ⟨instructions, true, 0, 0, ⟨⟨oldNLeafTuples, tuples⟩, [leafParents], []⟩⟩
      return st.treeExtension

end CurveTrees
end Jero.Fcmp
