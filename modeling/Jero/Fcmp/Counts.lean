import Jero.Fcmp.Roles

namespace Jero.Fcmp
open Jero.Machine Jero.Lists List LayerExtension UnifiedOutput
variable {wParent wChild : Nat}

theorem length_layerCounts_le (hP : 1 < wParent) (hC : 1 < wChild) (n : Nat) :
    (layerCounts wParent wChild n).length ≤ n := by
  induction n using Nat.strong_induction_on generalizing wParent wChild with
  | _ n ih =>
    rcases eq_zero_or_pos n with rfl | hn
    · simp
    · have hlt := parentsOf_lt hP hn
      have hrec := ih _ hlt hC hP
      rw [layerCounts_eq_cons hP hC hn, length_cons]
      omega

theorem totals_grownAbove {SC PC SP PP : Type} (hC : 1 < wChild) (hP : 1 < wParent) (fuel : Nat)
    (cChild : Curve SC PC SP) (cParent : Curve SP PP SC) (lastChild : List PC)
    (lastParent : List PP) {o n : Nat} {change : Bool} {e : LayerExtension PC} (hfuel : n ≤ fuel)
    (h : ChildGrown o n change e) (hfit : LastHashesFit wParent wChild o lastChild lastParent) :
    let r := grownAbove cChild cParent wChild wParent lastChild lastParent fuel o n change e
    n :: Lists.interleave (r.2.map total) (r.1.map total) =
      layerCounts wParent wChild n := by
  have hpos : 0 < n := by
    have ht := h.total
    have hl := length_pos_iff.mpr h.nonempty
    omega
  rw [layerCounts_eq_cons hP hC hpos]
  induction fuel generalizing SC PC SP PP wChild wParent o n change with
  | zero => omega
  | succ fuel ih =>
    by_cases hn : 1 < n
    · have hchild := hfit.child_isSome hP hC
      have hdec := parents_lt hP hn
      have hpar : parentsOf wParent n = 1 + (n - 1) / wParent := if_pos hn
      have hpos' : 0 < parentsOf wParent n := by
        rw [hpar]
        exact Nat.add_pos_left one_pos _
      have hnext := grownExtension_childGrown cChild cParent hP hn h lastChild.head?
        lastParent.head? hchild
      have htotal := hnext.total
      rw [← hpar] at hnext htotal
      have hrec := ih hP hC cParent cChild lastParent lastChild.tail (by omega) hnext
        (hfit.next hP hC) hpos'
      simp only [grownAbove, hn, if_true, map_cons, interleave_cons, ← hpar]
      rw [layerCounts_eq_cons hC hP hpos', ← hrec]
      simp only [total, htotal]
    · have hz : parentsOf wParent n = 0 := if_neg hn
      simp [grownAbove, hn, hz, Lists.interleave]

namespace CurveTrees
variable {S₁ P₁ S₂ P₂ Out : Type} (T : CurveTrees S₁ P₁ S₂ P₂) (h₁ : 1 < T.c1Width)
include h₁

theorem nElemsLoop_eq (h₂ : 1 < T.c2Width) (fuel n : Nat)
    (parentIsC1 : Bool) (hn : 0 < n) (hfuel : n ≤ fuel) (h64 : n < 2 ^ 64) :
    T.nElemsLoop fuel n parentIsC1 = layerCounts (if parentIsC1 then T.c2Width else T.c1Width)
        (if parentIsC1 then T.c1Width else T.c2Width)
        (n ⌈/⌉ (if parentIsC1 then T.c1Width else T.c2Width)) := by
  induction fuel generalizing n parentIsC1 with
  | zero => omega
  | succ fuel ih =>
    have hw : 1 < if parentIsC1 then T.c1Width else T.c2Width := by split <;> assumption
    have hw' : 1 < if parentIsC1 then T.c2Width else T.c1Width := by split <;> assumption
    have hp : 0 < n ⌈/⌉ (if parentIsC1 then T.c1Width else T.c2Width) := by
      rw [ceilDiv_eq_succ (by omega) hn]
      exact Nat.add_pos_left one_pos _
    have hpn : wsub n 1 / (if parentIsC1 then T.c1Width else T.c2Width) + 1 =
        n ⌈/⌉ (if parentIsC1 then T.c1Width else T.c2Width) := by
      rw [wsub_of_le (by omega) h64, ceilDiv_eq_succ (by omega) hn, add_comm]
    simp only [nElemsLoop, hpn]
    rw [layerCounts_eq_cons hw' hw hp]
    congr 1
    by_cases hone : n ⌈/⌉ (if parentIsC1 then T.c1Width else T.c2Width) > 1
    · have hle : n ⌈/⌉ (if parentIsC1 then T.c1Width else T.c2Width) < n := by
        rw [ceilDiv_eq_succ (by omega) hn] at hone ⊢
        apply parents_lt hw
        by_contra hcon
        rw [show n - 1 = 0 by omega, Nat.zero_div] at hone
        omega
      rw [if_pos hone, ih _ (!parentIsC1) hp (by omega) (by omega), parentsOf, if_pos hone,
        ← ceilDiv_eq_succ (by omega) hp]
      cases parentIsC1 <;> rfl
    · rw [if_neg hone, parentsOf, if_neg hone]
      rfl

theorem nElemsPerLayer_eq (h₂ : 1 < T.c2Width) {n : Nat} (h64 : n < 2 ^ 64) :
    T.nElemsPerLayer n = layerCounts T.c2Width T.c1Width (n ⌈/⌉ T.c1Width) := by
  unfold nElemsPerLayer
  rcases eq_zero_or_pos n with rfl | hn
  · simp
  · rw [if_neg (by omega), T.nElemsLoop_eq h₁ h₂ n n true hn le_rfl h64]
    rfl

omit h₁

theorem length_flattenLeaves {S : Type} (leaves : List (LeafTuple S)) :
    (flattenLeaves leaves).length = leafTupleSize * leaves.length := by
  induction leaves with
  | nil => rfl
  | cons leaf leaves ih =>
    simp only [flattenLeaves, flatMap_cons, length_append, length_cons] at ih ⊢
    rw [ih]
    simp only [LeafTuple.toList, length_cons, length_nil, leafTupleSize]
    omega

variable (leafTuple : Out → Option (LeafTuple S₁))

theorem length_outputsToLeaves (outputs : List (UnifiedOutput Out)) :
    (outputsToLeaves leafTuple outputs).1.length =
      leafTupleSize * (outputsToLeaves leafTuple outputs).2.length := by
  simp only [outputsToLeaves]
  rw [length_flattenLeaves, length_filterMap_eq_countP, countP_eq_length_filter]

def grownLeafParents (n : Nat) (last : LastHashes P₁ P₂) (leaves : List S₁) : LayerExtension P₁ :=
  ⟨n / T.c1Width, n % T.c1Width != 0,
    grownHashes T.c1 none (if (n % T.c1Width != 0) = true then last.c1LastHashes[0]? else none)
      (6 * (n % T.c1Width)) leaves (6 * T.c1Width)⟩

variable {leaves : List S₁}

include h₁ in
theorem grownLeafParents_childGrown (n : Nat) {m : Nat} (hm : 0 < m)
    (last : LastHashes P₁ P₂) (hleaves : leaves.length = 6 * m) :
    ChildGrown (n ⌈/⌉ T.c1Width) ((n + m) ⌈/⌉ T.c1Width) (n % T.c1Width != 0)
      (T.grownLeafParents n last leaves) := by
  have hw : 0 < T.c1Width := by omega
  have hsplit := ceilDiv_split (n := n) hw
  have hmod := Nat.mod_lt n hw
  have hdm := Nat.div_add_mod n T.c1Width
  refine ⟨?_, ?_, by simp [grownLeafParents, grownHashes], ?_⟩
  · rw [hsplit]
    by_cases hz : n % T.c1Width = 0
    · simp [grownLeafParents, firstChangedChild, hz]
    · have hpos : n % T.c1Width > 0 := by omega
      simp [grownLeafParents, firstChangedChild, hz, hpos]
  · have hne : leaves ≠ [] := by
      rw [← length_pos_iff]
      omega
    have hsum : n / T.c1Width * (6 * T.c1Width) + (6 * (n % T.c1Width) + 6 * m) = 6 * (n + m) := by
      conv_rhs => rw [← hdm]
      ring
    simp only [grownLeafParents]
    rw [start_add_length_grownHashes _ _ (by omega) hne, hleaves, hsum,
      ceilDiv_eq_succ (by omega) (by omega), leaf_parents hw (by omega)]
  · intro hneed
    have hpos : n % T.c1Width > 0 := by
      rw [bne_iff_ne] at hneed
      omega
    rw [hsplit, if_pos hpos]
    exact Nat.succ_pos _

def grownTree (n m : Nat) (last : LastHashes P₁ P₂) (leaves : List S₁) :
    List (LayerExtension P₁) × List (LayerExtension P₂) :=
  let leafParents := T.grownLeafParents n last leaves
  let r := grownAbove T.c1 T.c2 T.c1Width T.c2Width last.c1LastHashes last.c2LastHashes
    ((n + m) ⌈/⌉ T.c1Width) (n ⌈/⌉ T.c1Width) ((n + m) ⌈/⌉ T.c1Width) (n % T.c1Width != 0)
    leafParents
  (leafParents :: r.1, r.2)

structure LastHashesOf (n : Nat) (last : LastHashes P₁ P₂) : Prop where
  c1 : last.c1LastHashes.length = (T.nLayers n + 1) / 2
  c2 : last.c2LastHashes.length = T.nLayers n / 2

theorem LastHashesOf.fit {T : CurveTrees S₁ P₁ S₂ P₂} {n : Nat} {last : LastHashes P₁ P₂}
    (h : T.LastHashesOf n last) (h₁ : 1 < T.c1Width) (h₂ : 1 < T.c2Width) (h64 : n < 2 ^ 64) :
    LastHashesFit T.c2Width T.c1Width (n ⌈/⌉ T.c1Width) last.c1LastHashes last.c2LastHashes := by
  refine ⟨?_, ?_⟩
  · rw [h.c1, nLayers, T.nElemsPerLayer_eq h₁ h₂ h64]
  · rw [h.c2, nLayers, T.nElemsPerLayer_eq h₁ h₂ h64]

theorem hasAdjacentDuplicate_of_nodup (outputs : List (UnifiedOutput Out))
    (h : (outputs.map unifiedId).Nodup) : hasAdjacentDuplicate outputs = false := by
  induction outputs with
  | nil => rfl
  | cons a rest ih =>
    cases rest with
    | nil => rfl
    | cons b rest =>
      obtain ⟨hmem, hrest⟩ := nodup_cons.mp h
      have hne : a.unifiedId ≠ b.unifiedId := by
        intro heq
        exact hmem (by simp [heq])
      simp only [hasAdjacentDuplicate, ih hrest, Bool.or_false, beq_eq_false_iff_ne]
      exact hne

def sortById (group : List (UnifiedOutput Out)) : List (UnifiedOutput Out) :=
  group.insertionSort (fun a b => a.unifiedId ≤ b.unifiedId)

theorem flatSortedOutputs_ok (groups : List (List (UnifiedOutput Out)))
    (h : ∀ group ∈ groups, (group.map unifiedId).Nodup) :
    flatSortedOutputs groups = .ok (groups.flatMap sortById) := by
  induction groups with
  | nil => rfl
  | cons group groups ih =>
    obtain ⟨hgroup, hgroups⟩ := forall_mem_cons.mp h
    have hperm := (perm_insertionSort (fun a b : UnifiedOutput Out =>
      a.unifiedId ≤ b.unifiedId) group).map unifiedId
    have hdup := hasAdjacentDuplicate_of_nodup _ (hperm.nodup_iff.mpr hgroup)
    simp only [flatSortedOutputs]
    rw [check_true (by rw [hdup]; rfl), ih hgroups]
    rfl

def validOutputs (leafTuple : Out → Option (LeafTuple S₁))
    (groups : List (List (UnifiedOutput Out))) : Nat :=
  groups.flatten.countP (fun o => (leafTuple o.outputPair).isSome)

theorem length_tuples (groups : List (List (UnifiedOutput Out))) :
    (outputsToLeaves leafTuple (groups.flatMap sortById)).2.length =
      validOutputs leafTuple groups := by
  simp only [outputsToLeaves, validOutputs]
  rw [← countP_eq_length_filter]
  apply List.Perm.countP_eq
  induction groups with
  | nil => exact List.Perm.refl _
  | cons group groups ih =>
    rw [flatMap_cons, flatten_cons]
    exact (perm_insertionSort _ group).append ih

abbrev LeavesFit (n m w : Nat) : Prop :=
  6 * w < 2 ^ 64 ∧ 6 * (n + m) < 2 ^ 64 ∧ (n % w + m ≤ w ∨ 6 * (n % w + m + w) ≤ 2 ^ 64)

theorem LeavesFit.split {n m k w : Nat} (h : LeavesFit n (m + k) w) :
    LeavesFit n m w ∧ LeavesFit (n + m) k w := by
  have hmod : (n + m) % w ≤ n % w + m := by
    rw [← Nat.mod_add_mod]
    exact Nat.mod_le _ _
  unfold LeavesFit at *
  omega

section
variable {T} {leafTuple : Out → Option (LeafTuple S₁)} {n : Nat} {last : LastHashes P₁ P₂}
variable {groups : List (List (UnifiedOutput Out))}
include h₁

theorem growLayers_leafParents_ok (h₂ : 1 < T.c2Width) {m : Nat} (hm : 0 < m)
    (h64 : 6 * (n + m) < 2 ^ 64) (hlast : T.LastHashesOf n last)
    (hleaves : leaves.length = 6 * m) (contiguous : ContiguousLeaves Out) :
    (T.growLayers last ((n + m) ⌈/⌉ T.c1Width) ⟨leafInstructions n (n + m) T.c1Width, true, 0, 0,
        ⟨contiguous, [T.grownLeafParents n last leaves], []⟩⟩).map GrowState.treeExtension =
      .ok ⟨contiguous, (T.grownTree n m last leaves).1, (T.grownTree n m last leaves).2⟩ := by
  have hfit := hlast.fit h₁ h₂ (by omega)
  have hcounts := length_layerCounts_le h₂ h₁ (n ⌈/⌉ T.c1Width)
  have hw : 0 < T.c1Width := by omega
  have hn := ceilDiv_le_self hw n
  have hN := ceilDiv_le_self hw (n + m)
  have hrun := growRoles_ok h₁ h₂ ((n + m) ⌈/⌉ T.c1Width) T.c1 T.c2 last.c1LastHashes
    last.c2LastHashes (leafInstructions n (n + m) T.c1Width) [T.grownLeafParents n last leaves] []
    0 0 (T.grownLeafParents n last leaves) le_rfl (by simp only [leafInstructions]; omega)
    (by rw [hfit.child]; omega) (by rw [hfit.parent]; omega) rfl rfl rfl
    (T.grownLeafParents_childGrown h₁ n hm last hleaves) hfit
  rw [growLayers_eq_roles, if_pos rfl, hrun]
  rfl

theorem getTreeExtension_ok (h₂ : 1 < T.c2Width) (hm : 0 < validOutputs leafTuple groups)
    (hfits : LeavesFit n (validOutputs leafTuple groups) T.c1Width)
    (hids : ∀ group ∈ groups, (group.map unifiedId).Nodup) (hlast : T.LastHashesOf n last) :
    T.getTreeExtension leafTuple n last groups =
      let flat := outputsToLeaves leafTuple (groups.flatMap sortById)
      let grown := T.grownTree n (validOutputs leafTuple groups) last flat.1
      .ok ⟨⟨n, flat.2⟩, grown.1, grown.2⟩ := by
  obtain ⟨hwide, h64, hchunk⟩ := hfits
  have hwidth : T.leafLayerChunkWidth = 6 * T.c1Width := wrap_of_lt hwide
  have hlen := length_outputsToLeaves leafTuple (groups.flatMap sortById)
  rw [length_tuples, leafTupleSize] at hlen
  have hgrown := T.grownLeafParents_childGrown h₁ n hm last hlen
  have hfit := hlast.fit h₁ h₂ (by omega)
  have hw : 0 < T.c1Width := by omega
  have hN := ceilDiv_le_self hw (n + validOutputs leafTuple groups)
  have hmod := Nat.mod_lt n hw
  have hmodle := Nat.mod_le n T.c1Width
  have hhead : (n % T.c1Width != 0) = true → (last.c1LastHashes[0]?).isSome := by
    intro hneed
    rw [← head?_eq_getElem?]
    exact hfit.child_isSome h₂ h₁ (hgrown.old hneed)
  have hflag : (if (leafInstructions n (n + validOutputs leafTuple groups)
      T.c1Width).needOldLastParent then last.c1LastHashes[0]? else none).isSome =
        (n % T.c1Width != 0) := by
    change (if n % T.c1Width != 0 then last.c1LastHashes[0]? else none).isSome = _
    cases hb : (n % T.c1Width != 0) with
    | false => rfl
    | true => simpa using hhead hb
  have hlayers : wrap (last.c1LastHashes.length + last.c2LastHashes.length) = T.nLayers n := by
    have hcounts := length_layerCounts_le h₂ h₁ (n ⌈/⌉ T.c1Width)
    have hn := ceilDiv_le_self hw n
    rw [hlast.c1, hlast.c2, nLayers, T.nElemsPerLayer_eq h₁ h₂ (by omega), wrap_of_lt (by omega)]
    omega
  have hgroups : groups.isEmpty = false := by
    cases groups with
    | nil => simp [validOutputs] at hm
    | cons group groups => rfl
  have hne : (outputsToLeaves leafTuple (groups.flatMap sortById)).1 ≠ [] := by
    rw [← length_pos_iff, hlen]
    omega
  have hnonempty : (outputsToLeaves leafTuple (groups.flatMap sortById)).1.isEmpty = false := by
    simpa using hne
  unfold getTreeExtension
  rw [check_true (by rw [hlayers, beq_self_eq_true]), hgroups,
    if_neg Bool.false_ne_true, flatSortedOutputs_ok groups hids, ok_bind]
  simp only [hnonempty, Bool.false_eq_true, if_false]
  rw [length_tuples, hwidth, leafTupleSize, getLeafLayerGrowInstructions_ok h₁ hm (by omega),
    ok_bind, check_true (by
      simp only [leafInstructions]
      cases hb : (n % T.c1Width != 0) with
      | false => rfl
      | true =>
        have hhash := hhead hb
        rw [← head?_eq_getElem?, isSome_head?] at hhash
        simp [hhash])]
  rw [hashChildrenChunks_ok _ _ _ hne (by simp only [leafInstructions]; omega)
      (by simp only [leafInstructions]; omega), ok_bind, hflag, check_true (by
      change (wrap ((T.grownLeafParents n last _).startIdx +
        (T.grownLeafParents n last _).hashes.length) == _) = true
      rw [hgrown.total, wrap_of_lt (by omega)]
      exact beq_self_eq_true _)]
  have hrun := growLayers_leafParents_ok h₁ h₂ hm h64 hlast hlen
    ⟨n, (outputsToLeaves leafTuple (groups.flatMap sortById)).2⟩
  rw [← hrun]
  rfl

omit h₁

theorem getTreeExtension_never_throws (h₁ : 1 < T.c1Width) (h₂ : 1 < T.c2Width)
    (hm : 0 < validOutputs leafTuple groups)
    (hfits : LeavesFit n (validOutputs leafTuple groups) T.c1Width)
    (hids : ∀ group ∈ groups, (group.map unifiedId).Nodup)
    (hlast : T.LastHashesOf n last) :
    ∃ ext, T.getTreeExtension leafTuple n last groups = .ok ext ∧
      Lists.interleave (ext.c1LayerExtensions.map total)
        (ext.c2LayerExtensions.map total) =
          T.nElemsPerLayer (n + validOutputs leafTuple groups) := by
  have hlen := length_outputsToLeaves leafTuple (groups.flatMap sortById)
  rw [length_tuples, leafTupleSize] at hlen
  have hgrown := T.grownLeafParents_childGrown h₁ n hm last hlen
  have htotals := totals_grownAbove h₁ h₂ ((n + validOutputs leafTuple groups) ⌈/⌉ T.c1Width) T.c1
    T.c2 last.c1LastHashes last.c2LastHashes le_rfl hgrown (hlast.fit h₁ h₂ (by omega))
  refine ⟨_, getTreeExtension_ok h₁ h₂ hm hfits hids hlast, ?_⟩
  simp only [grownTree, map_cons, interleave_cons]
  rw [T.nElemsPerLayer_eq h₁ h₂ (by omega), ← htotals]
  simp only [total, hgrown.total]

end

def unitCurve : Curve Unit Unit Unit := ⟨(), id, fun _ _ _ _ => (), ()⟩

def unitTrees (c1Width c2Width : Nat) : CurveTrees Unit Unit Unit Unit :=
  ⟨unitCurve, unitCurve, c1Width, c2Width⟩

def unitLeaf (_ : Unit) : Option (LeafTuple Unit) := some ⟨(), (), (), (), (), ()⟩

theorem getTreeExtension_three_leaves :
    ∃ ext, (unitTrees 2 2).getTreeExtension unitLeaf 3 ⟨[()], [()]⟩ [[⟨9, ()⟩, ⟨4, ()⟩]] = .ok ext ∧
      Lists.interleave (ext.c1LayerExtensions.map total)
        (ext.c2LayerExtensions.map total) = (unitTrees 2 2).nElemsPerLayer 5 :=
  getTreeExtension_never_throws (by decide) (by decide) (by decide) (by decide) (by decide)
    ⟨by decide, by decide⟩

theorem getTreeExtension_wide_leaf_layer_throws :
    let T := unitTrees 3074457345618258603 2
    1 < T.c1Width ∧ 1 < T.c2Width ∧ T.LastHashesOf 0 ⟨[], []⟩ ∧
      validOutputs unitLeaf [[⟨0, ()⟩]] = 1 ∧ 6 * (0 + 1) < 2 ^ 64 ∧
      T.getTreeExtension unitLeaf 0 ⟨[], []⟩ [[⟨0, ()⟩]] = .error "unexpected leaf size params" :=
  ⟨by decide, by decide, ⟨rfl, rfl⟩, by decide, by decide, by rfl⟩

end CurveTrees
end Jero.Fcmp
