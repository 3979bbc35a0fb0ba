import Jero.Fcmp.Growth

namespace Jero.Fcmp
open Jero.Machine Jero.Lists List UnifiedOutput
section
variable {SC PC SP PP : Type}

theorem lastOfLayers_fit (cChild : Curve SC PC SP) (cParent : Curve SP PP SC)
    {wChild wParent : Nat} (hC : 1 < wChild) (hP : 1 < wParent) (fuel : Nat) (children : List PC)
    (hf : children.length ≤ fuel) :
    let b := layersAbove cChild cParent wChild wParent fuel children
    LastHashesFit wParent wChild children.length (lastOfLayers (children :: b.1))
      (lastOfLayers b.2) := by
  induction fuel generalizing SC PC SP PP wChild wParent with
  | zero =>
    have hnil : children = [] := length_eq_zero_iff.mp (by omega)
    subst hnil
    exact ⟨by simp [lastOfLayers, layersAbove], by simp [lastOfLayers, layersAbove]⟩
  | succ fuel ih =>
    have hsplit := layersAbove_split cChild cParent wChild wParent hf
    have hlen := length_parentLayer cChild cParent (show 0 < wParent by omega) children
    have hcounts := length_layerCounts hP hC children.length
    rcases eq_nil_or_concat children with rfl | ⟨init, last, hconcat⟩
    · rw [layersAbove_of_le_one _ _ _ _ _ (by simp)]
      exact ⟨by simp [lastOfLayers], by simp [lastOfLayers]⟩
    · have hpos : 0 < children.length := by simp [hconcat]
      have hlt := parentsOf_lt hP hpos
      have hrec := ih cParent cChild hP hC (parentLayer cChild cParent wParent children)
        (by omega)
      rw [hlen] at hrec
      rw [if_pos hpos] at hcounts
      refine ⟨?_, ?_⟩
      · have hcons : ∀ layers, lastOfLayers (children :: layers) = last :: lastOfLayers layers := by
          simp [lastOfLayers, hconcat]
        rw [hcons, length_cons, hsplit.own, hcounts]
        have hparent := hrec.parent
        simp only [Nat.add_sub_cancel] at hparent ⊢
        omega
      · have hchild := hrec.child
        rw [hsplit.last, hcounts]
        simp only [Nat.add_sub_cancel] at hchild ⊢
        omega

theorem length_grownAbove (cChild : Curve SC PC SP) (cParent : Curve SP PP SC)
    (wChild wParent : Nat) (lastChild : List PC) (lastParent : List PP) (fuel o n : Nat)
    (change : Bool) (e : LayerExtension PC) :
    let r := grownAbove cChild cParent wChild wParent lastChild lastParent fuel o n change e
    r.1.length ≤ r.2.length ∧ r.2.length ≤ r.1.length + 1 := by
  induction fuel generalizing SC PC SP PP wChild wParent o n change with
  | zero => exact ⟨le_rfl, Nat.zero_le _⟩
  | succ fuel ih =>
    simp only [grownAbove]
    split
    · obtain ⟨hle, hge⟩ := ih cParent cChild wParent wChild lastParent lastChild.tail
        (parentsOf wParent o) (1 + (n - 1) / wParent)
        (innerInstructions o n wParent change).needOldLastParent
        (grownExtension cChild cParent o n wParent change lastChild.head? lastParent.head? e)
      simp only [length_cons]
      exact ⟨by omega, by omega⟩
    · exact ⟨le_rfl, Nat.zero_le _⟩

end
namespace CurveTrees
variable {S₁ P₁ S₂ P₂ Out : Type} (T : CurveTrees S₁ P₁ S₂ P₂)

theorem length_leafParents (h₁ : 0 < T.c1Width) (leaves : List (LeafTuple S₁)) :
    (T.leafParents leaves).length = leaves.length ⌈/⌉ T.c1Width := by
  rw [leafParents, length_hashLayer, length_flattenLeaves, leafTupleSize]
  rcases eq_zero_or_pos leaves.length with hz | hpos
  · rw [hz, Nat.mul_zero, zero_ceilDiv, zero_ceilDiv]
  · rw [ceilDiv_eq_succ (by omega) (by omega), leaf_parents h₁ hpos]

theorem length_grownTree (n m : Nat) (last : LastHashes P₁ P₂) (leaves : List S₁) :
    (T.grownTree n m last leaves).1.length ≤ (T.grownTree n m last leaves).2.length + 1 ∧
      (T.grownTree n m last leaves).2.length ≤ (T.grownTree n m last leaves).1.length := by
  obtain ⟨hle, hge⟩ := length_grownAbove T.c1 T.c2 T.c1Width T.c2Width last.c1LastHashes
    last.c2LastHashes _ _ _ _ _
  exact ⟨Nat.succ_le_succ hle, hge⟩

theorem flattenLeaves_append {S : Type} (a b : List (LeafTuple S)) :
    flattenLeaves (a ++ b) = flattenLeaves a ++ flattenLeaves b := flatMap_append

section
variable {T} [Ring S₁] [AddCommGroup P₁] [Module S₁ P₁] {G₁ : Nat → P₁}

theorem grownLeafParents_extends (hlin : T.c1.Linear G₁) (h₁ : 1 < T.c1Width)
    (a b : List (LeafTuple S₁)) (hb : b ≠ []) {last : LastHashes P₁ P₂}
    (hlast : last.c1LastHashes[0]? = (T.leafParents a).getLast?) :
    Extends (T.leafParents a) (T.leafParents (a ++ b)) (a.length % T.c1Width != 0)
      (T.grownLeafParents a.length last (flattenLeaves b)) := by
  have hw : 0 < T.c1Width := by omega
  have hlenA := length_flattenLeaves a
  have hlenB := length_flattenLeaves b
  have hposB := length_pos_iff.mpr hb
  rw [leafTupleSize] at hlenA hlenB
  refine ⟨?_, rfl, ?_⟩
  · rw [T.length_leafParents hw, T.length_leafParents hw, length_append]
    exact T.grownLeafParents_childGrown h₁ a.length hposB last hlenB
  · have hfresh : flattenLeaves b ≠ [] := by
      rw [← length_pos_iff]
      omega
    have hdiv : 6 * a.length / (6 * T.c1Width) = a.length / T.c1Width :=
      Nat.mul_div_mul_left _ _ (by omega)
    have hmod : 6 * a.length % (6 * T.c1Width) = 6 * (a.length % T.c1Width) :=
      Nat.mul_mod_mul_left _ _ _
    have hsplice := hashLayer_splice T.c1 (show 0 < 6 * T.c1Width by omega)
      (flattenLeaves a).length (flattenLeaves a) (flattenLeaves b) le_rfl hfresh
    rw [take_length, ← flattenLeaves_append, hlenA, hdiv, hmod] at hsplice
    rw [leafParents, leafTupleSize, hsplice]
    simp only [grownLeafParents, grownHashes, hlast, leafParents, leafTupleSize]
    congr 2
    rcases eq_zero_or_pos a.length with hz | hpos
    · simp only [hz, Nat.zero_mod, Nat.mul_zero, take_zero, nil_append]
      rfl
    · have hbig : 1 < (flattenLeaves a).length := by omega
      have hfirst := grow_first_chunk hlin (show 1 < 6 * T.c1Width by omega) (flattenLeaves a) hbig
        0 false ((flattenLeaves b).take (6 * T.c1Width - 6 * (a.length % T.c1Width)))
      have hneed : (6 * (a.length % T.c1Width) != 0) = (a.length % T.c1Width != 0) := by
        rw [Bool.eq_iff_iff, bne_iff_ne, bne_iff_ne]
        omega
      have hsix : 1 < 6 * a.length := by omega
      simp only [innerInstructions, firstChangedChild, hlenA, hsix, hdiv, hmod, hneed, decide_true,
        Bool.true_and, Bool.false_or, Bool.and_false, Bool.false_eq_true, if_false] at hfirst
      rw [← hfirst]

end
section
variable {leafTuple : Out → Option (LeafTuple S₁)} {outputs : List Out}

theorem length_filterMap_of_valid
    (h : ∀ o ∈ outputs, (leafTuple o).isSome) :
    (outputs.filterMap leafTuple).length = outputs.length := by
  rw [length_filterMap_eq_countP, countP_eq_length]
  exact h

variable {batch : List (UnifiedOutput Out)}

theorem sortById_of_ascending (h : (batch.map unifiedId).Pairwise (· < ·)) :
    sortById batch = batch := by
  apply List.Pairwise.insertionSort_eq
  rw [pairwise_map] at h
  exact h.imp (fun hlt => le_of_lt hlt)

theorem outputsToLeaves_of_valid (h : ∀ o ∈ batch, (leafTuple o.outputPair).isSome) :
    outputsToLeaves leafTuple batch =
      (flattenLeaves ((batch.map outputPair).filterMap leafTuple), batch) := by
  rw [outputsToLeaves, filterMap_map, filter_eq_self.mpr h]
  rfl

theorem layers_buildTree (leafTuple : Out → Option (LeafTuple S₁)) (outputs : List Out) :
    let parents := T.leafParents (outputs.filterMap leafTuple)
    let above := layersAbove T.c1 T.c2 T.c1Width T.c2Width parents.length parents
    let tree := T.buildTree leafTuple outputs
    tree.c1Layers.head?.getD [] = parents ∧ tree.c1Layers.tail = above.1 ∧
      tree.getLastHashes = ⟨lastOfLayers (parents :: above.1), lastOfLayers above.2⟩ := by
  simp only [buildTree, Tree.getLastHashes]
  by_cases hnil : T.leafParents (outputs.filterMap leafTuple) = []
  · simp only [hnil, isEmpty_nil, if_true]
    rw [layersAbove_of_le_one _ _ _ _ _ (by simp)]
    exact ⟨rfl, rfl, rfl⟩
  · have hne : (T.leafParents (outputs.filterMap leafTuple)).isEmpty = false := by simpa using hnil
    simp only [hne, Bool.false_eq_true, if_false]
    exact ⟨rfl, rfl, trivial⟩

theorem lastHashesOf_buildTree (h₁ : 1 < T.c1Width) (h₂ : 1 < T.c2Width)
    (hvalid : ∀ o ∈ outputs, (leafTuple o).isSome) (h64 : outputs.length < 2 ^ 64) :
    T.LastHashesOf outputs.length (T.buildTree leafTuple outputs).getLastHashes := by
  have hfit := lastOfLayers_fit T.c1 T.c2 h₁ h₂ _ (T.leafParents (outputs.filterMap leafTuple))
    le_rfl
  have hlen := T.length_leafParents (show 0 < T.c1Width by omega) (outputs.filterMap leafTuple)
  rw [length_filterMap_of_valid hvalid] at hlen
  rw [(T.layers_buildTree _ _).2.2]
  refine ⟨?_, ?_⟩
  · rw [nLayers, T.nElemsPerLayer_eq h₁ h₂ h64, hfit.child, hlen]
  · rw [nLayers, T.nElemsPerLayer_eq h₁ h₂ h64, hfit.parent, hlen]

structure GoodBatch (leafTuple : Out → Option (LeafTuple S₁))
    (batch : List (UnifiedOutput Out)) : Prop where
  nonempty : batch ≠ []
  valid : ∀ o ∈ batch, (leafTuple o.outputPair).isSome
  ascending : (batch.map unifiedId).Pairwise (· < ·)

variable {T} [Ring S₁] [AddCommGroup P₁] [Module S₁ P₁] {G₁ : Nat → P₁}
variable [Ring S₂] [AddCommGroup P₂] [Module S₂ P₂] {G₂ : Nat → P₂}
section
variable (hlin₁ : T.c1.Linear G₁) (hlin₂ : T.c2.Linear G₂) (h₁ : 1 < T.c1Width) (h₂ : 1 < T.c2Width)
  {outputs : List Out} (hvalid : ∀ o ∈ outputs, (leafTuple o).isSome)
include hlin₁ hlin₂ h₁ h₂ hvalid

theorem extendLayers_buildTree {fresh : List Out} (hfresh : ∀ o ∈ fresh, (leafTuple o).isSome)
    (hne : fresh ≠ []) (h64 : outputs.length < 2 ^ 64) :
    let t := T.buildTree leafTuple outputs
    let t' := T.buildTree leafTuple (outputs ++ fresh)
    let grown := T.grownTree outputs.length fresh.length t.getLastHashes
      (flattenLeaves (fresh.filterMap leafTuple))
    extendLayers "c1" t.c1Layers grown.1 = .ok t'.c1Layers ∧
      extendLayers "c2" t.c2Layers grown.2 = .ok t'.c2Layers := by
  have hw : 0 < T.c1Width := by omega
  have hlenOld := length_filterMap_of_valid hvalid
  have hlenFresh := length_filterMap_of_valid hfresh
  have hfreshLeaves : fresh.filterMap leafTuple ≠ [] := by
    rw [← length_pos_iff, hlenFresh]
    exact length_pos_iff.mpr hne
  have hparents := T.length_leafParents hw (outputs.filterMap leafTuple)
  have hle := ceilDiv_le_self hw outputs.length
  have hlast : (T.buildTree leafTuple outputs).getLastHashes.c1LastHashes[0]? =
      (T.leafParents (outputs.filterMap leafTuple)).getLast? := by
    rw [(T.layers_buildTree _ _).2.2, ← head?_eq_getElem?, (head_lastOfLayers _ _ _ _ _ _).1]
  have hext := grownLeafParents_extends hlin₁ h₁ (outputs.filterMap leafTuple)
    (fresh.filterMap leafTuple) hfreshLeaves hlast
  rw [← filterMap_append, hlenOld, (T.layers_buildTree _ _).2.2] at hext
  have hnewParents := T.length_leafParents hw ((outputs ++ fresh).filterMap leafTuple)
  rw [filterMap_append, length_append, hlenOld, hlenFresh, ← filterMap_append]
    at hnewParents
  rw [hlenOld] at hparents
  obtain ⟨hown, hpar⟩ := extendLayers_grownAbove hlin₁ hlin₂ h₁ h₂ "c1" "c2" _ _ _ hext le_rfl
    le_rfl le_rfl (by omega)
  have hnonempty : (T.leafParents ((outputs ++ fresh).filterMap leafTuple)).isEmpty = false := by
    have hl := hext.grown.total
    have hh := length_pos_iff.mpr hext.grown.nonempty
    rw [isEmpty_eq_false_iff, ← length_pos_iff]
    omega
  obtain ⟨hhead₁, htail₁, -⟩ := T.layers_buildTree leafTuple outputs
  simp only [grownTree, ← hparents, ← hnewParents]
  rw [(T.layers_buildTree _ _).2.2]
  refine ⟨?_, hpar⟩
  simp only [extendLayers]
  rw [hhead₁, htail₁, extendLayer_of_extends "c1" hext (by omega), ok_bind, hown, ok_bind]
  simp only [buildTree, hnonempty, Bool.false_eq_true, if_false]
  rfl

theorem extendTree_buildTree (hbatch : GoodBatch leafTuple batch)
    (hfits : LeavesFit outputs.length batch.length T.c1Width) :
    ∃ ext, T.getTreeExtension leafTuple outputs.length
        (T.buildTree leafTuple outputs).getLastHashes [batch] = .ok ext ∧
      (T.buildTree leafTuple outputs).extendTree ext =
        .ok (T.buildTree leafTuple (outputs ++ batch.map outputPair)) := by
  have hcount : validOutputs leafTuple [batch] = batch.length := by
    rw [validOutputs, flatten_singleton, countP_eq_length]
    exact hbatch.valid
  have hpos := length_pos_iff.mpr hbatch.nonempty
  have hids : ∀ group ∈ [batch], (group.map unifiedId).Nodup :=
    forall_mem_singleton.mpr (hbatch.ascending.imp fun hlt => ne_of_lt hlt)
  have hsome : 0 < validOutputs leafTuple [batch] := by omega
  have hok := getTreeExtension_ok h₁ h₂ hsome (by rwa [hcount]) hids
    (T.lastHashesOf_buildTree h₁ h₂ hvalid (by omega))
  have hsorted : [batch].flatMap sortById = batch := by
    rw [flatMap_singleton, sortById_of_ascending hbatch.ascending]
  rw [hsorted, outputsToLeaves_of_valid hbatch.valid, hcount] at hok
  refine ⟨_, hok, ?_⟩
  obtain ⟨hc1, hc2⟩ := extendLayers_buildTree hlin₁ hlin₂ h₁ h₂ hvalid
    (forall_mem_map.mpr hbatch.valid) (by simpa using hbatch.nonempty) (by omega)
  rw [length_map] at hc1 hc2
  simp only [Tree.extendTree]
  rw [check_true (by simp [buildTree]), check_true (by rfl),
    check_decide (T.length_grownTree _ _ _ _).1, check_decide (T.length_grownTree _ _ _ _).2, hc1,
    ok_bind, hc2, ok_bind]
  rfl

theorem growBatches_buildTree (batches : List (List (UnifiedOutput Out)))
    (hbatches : ∀ batch ∈ batches, GoodBatch leafTuple batch)
    (hfits : LeavesFit outputs.length batches.flatten.length T.c1Width) :
    T.growBatches leafTuple (T.buildTree leafTuple outputs) batches =
      .ok (T.buildTree leafTuple (outputs ++ batches.flatten.map outputPair)) := by
  induction batches generalizing outputs with
  | nil => simp [growBatches]
  | cons batch batches ih =>
    obtain ⟨hbatch, hrest⟩ := forall_mem_cons.mp hbatches
    rw [flatten_cons, length_append] at hfits
    obtain ⟨hfirst, hlater⟩ := hfits.split
    obtain ⟨ext, hext, htree⟩ := extendTree_buildTree hlin₁ hlin₂ h₁ h₂ hvalid hbatch hfirst
    have hnext : ∀ o ∈ outputs ++ batch.map outputPair, (leafTuple o).isSome :=
      forall_mem_append.mpr ⟨hvalid, forall_mem_map.mpr hbatch.valid⟩
    have hleaves : (T.buildTree leafTuple outputs).leaves = outputs := rfl
    rw [growBatches, hleaves, hext, ok_bind, htree, ok_bind,
      ih hnext hrest (by rwa [length_append, length_map]), flatten_cons,
      map_append, append_assoc]

end

theorem growth_eq_rebuild (hlin₁ : T.c1.Linear G₁) (hlin₂ : T.c2.Linear G₂)
    (h₁ : 1 < T.c1Width) (h₂ : 1 < T.c2Width) {outputs : List Out}
    (hvalid : ∀ o ∈ outputs, (leafTuple o).isSome) {batch : List (UnifiedOutput Out)}
    (hbatch : GoodBatch leafTuple batch)
    (hfits : LeavesFit outputs.length batch.length T.c1Width) :
    (∃ ext, T.getTreeExtension leafTuple outputs.length
        (T.buildTree leafTuple outputs).getLastHashes [batch] = .ok ext ∧
      (T.buildTree leafTuple outputs).extendTree ext =
        .ok (T.buildTree leafTuple (outputs ++ batch.map outputPair))) ∧
    ∀ batches : List (List (UnifiedOutput Out)), (∀ b ∈ batches, b ≠ []) →
      batches.flatten = batch →
      T.growBatches leafTuple (T.buildTree leafTuple outputs) batches =
        .ok (T.buildTree leafTuple (outputs ++ batch.map outputPair)) := by
  refine ⟨extendTree_buildTree hlin₁ hlin₂ h₁ h₂ hvalid hbatch hfits, ?_⟩
  rintro batches hne rfl
  apply growBatches_buildTree hlin₁ hlin₂ h₁ h₂ hvalid batches ?_ hfits
  intro b hb
  have hsub := sublist_flatten_of_mem hb
  exact ⟨hne b hb, fun o ho => hbatch.valid o (hsub.mem ho), hbatch.ascending.sublist (hsub.map _)⟩

end

def intGenerator (i : Nat) : Int := 2 * i + 3

def intCurve : Curve Int Int Int where
  hashInitPoint := 7
  pointToCycleScalar p := p * p + 1
  hashGrow existing offset child scalars :=
    existing - child • intGenerator offset + commitment intGenerator offset scalars
  zeroScalar := 0

def intTrees (c1Width c2Width : Nat) : CurveTrees Int Int Int Int :=
  ⟨intCurve, intCurve, c1Width, c2Width⟩

def intLeaf (x : Int) : Option (LeafTuple Int) :=
  if x = 0 then none else some ⟨x, x + 1, x + 2, x + 3, x + 4, x + 5⟩

theorem intCurve_linear : intCurve.Linear intGenerator := ⟨rfl, fun _ _ _ _ => rfl⟩

theorem growth_eq_rebuild_three_leaves :
    (∃ ext, (intTrees 2 3).getTreeExtension intLeaf 3
        ((intTrees 2 3).buildTree intLeaf [5, 6, 7]).getLastHashes [[⟨4, 8⟩, ⟨9, 2⟩]] = .ok ext ∧
      ((intTrees 2 3).buildTree intLeaf [5, 6, 7]).extendTree ext =
        .ok ((intTrees 2 3).buildTree intLeaf [5, 6, 7, 8, 2])) ∧
    (intTrees 2 3).growBatches intLeaf ((intTrees 2 3).buildTree intLeaf [5, 6, 7])
        [[⟨4, 8⟩], [⟨9, 2⟩]] = .ok ((intTrees 2 3).buildTree intLeaf [5, 6, 7, 8, 2]) := by
  have hbatch : GoodBatch intLeaf [⟨4, 8⟩, ⟨9, 2⟩] := ⟨by decide, by decide, by decide⟩
  have hvalid : ∀ o ∈ [(5 : Int), 6, 7], (intLeaf o).isSome := by decide
  have h := growth_eq_rebuild (T := intTrees 2 3) intCurve_linear intCurve_linear (by decide)
    (by decide) hvalid hbatch (by decide)
  exact ⟨h.1, h.2 [[⟨4, 8⟩], [⟨9, 2⟩]] (by decide) rfl⟩

theorem growth_of_wide_leaf_layer_throws :
    let T := intTrees 3074457345618258603 2
    T.c1.Linear intGenerator ∧ T.c2.Linear intGenerator ∧ 1 < T.c1Width ∧ 1 < T.c2Width ∧
      GoodBatch intLeaf [⟨0, 5⟩] ∧
      T.getTreeExtension intLeaf 0 (T.buildTree intLeaf []).getLastHashes [[⟨0, 5⟩]] =
        .error "unexpected leaf size params" :=
  ⟨intCurve_linear, intCurve_linear, by decide, by decide, ⟨by decide, by decide, by decide⟩, rfl⟩

end CurveTrees
end Jero.Fcmp
