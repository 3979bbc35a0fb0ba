import Jero.Fcmp.Counts

namespace Jero.Fcmp
open Jero.Machine Jero.Lists List Option

structure Tree (Out P₁ P₂ : Type) where
  leaves : List Out
  c1Layers : List (List P₁)
  c2Layers : List (List P₂)
deriving DecidableEq, Repr

def lastOfLayers {P : Type} (layers : List (List P)) : List P := layers.filterMap List.getLast?

def extendLayer {P : Type} (curve : String) (layer : List P) (ext : LayerExtension P) :
    Except String (List P) := do
  check (!ext.hashes.isEmpty) ("empty " ++ curve ++ " layer extension")
  let startedAfterTip := layer.length == ext.startIdx
  let startedAtTip := layer.length == wrap (ext.startIdx + 1)
  check (startedAfterTip || startedAtTip) ("unexpected " ++ curve ++ " layer start")
  if startedAtTip then
    check ext.updateExistingLastHash "expect to be updating last hash"
    return layer.dropLast ++ ext.hashes
  else
    check (!ext.updateExistingLastHash) "unexpected last hash update"
    return layer ++ ext.hashes

def extendLayers {P : Type} (curve : String) :
    List (List P) → List (LayerExtension P) → Except String (List (List P))
  | layers, [] => .ok layers
  | layers, ext :: exts => do
    let layer ← extendLayer curve (layers.head?.getD []) ext
    let rest ← extendLayers curve layers.tail exts
    return layer :: rest

namespace Tree
variable {Out P₁ P₂ : Type} (t : Tree Out P₁ P₂)

def getLastHashes : LastHashes P₁ P₂ := ⟨lastOfLayers t.c1Layers, lastOfLayers t.c2Layers⟩

def extendTree (ext : TreeExtension Out P₁ P₂) : Except String (Tree Out P₁ P₂) := do
  check (t.leaves.length == ext.leaves.startIdx) "unexpected leaf start idx"
  check (!ext.c1LayerExtensions.isEmpty) "empty c1 extensions"
  check (ext.c1LayerExtensions.length ≤ ext.c2LayerExtensions.length + 1)
    "unexpected c2 layer extension"
  check (ext.c2LayerExtensions.length ≤ ext.c1LayerExtensions.length)
    "unexpected c1 layer extension"
  let c1Layers ← extendLayers "c1" t.c1Layers ext.c1LayerExtensions
  let c2Layers ← extendLayers "c2" t.c2Layers ext.c2LayerExtensions
  return ⟨t.leaves ++ ext.leaves.tuples.map UnifiedOutput.outputPair, c1Layers, c2Layers⟩

end Tree

def parentLayer {SC PC SP PP : Type} (cChild : Curve SC PC SP) (cParent : Curve SP PP SC)
    (wParent : Nat) (children : List PC) : List PP :=
  if 1 < children.length then hashLayer cParent wParent (children.map cChild.pointToCycleScalar)
  else []

def layersAbove {SC PC SP PP : Type} (cChild : Curve SC PC SP) (cParent : Curve SP PP SC)
    (wChild wParent : Nat) : Nat → List PC → List (List PC) × List (List PP)
  | 0, _ => ([], [])
  | fuel + 1, children =>
    if 1 < children.length then
      let parents := parentLayer cChild cParent wParent children
      let r := layersAbove cParent cChild wParent wChild fuel parents
      (r.2, parents :: r.1)
    else ([], [])

namespace CurveTrees
variable {S₁ P₁ S₂ P₂ Out : Type} (T : CurveTrees S₁ P₁ S₂ P₂)

def leafParents (leaves : List (LeafTuple S₁)) : List P₁ :=
  hashLayer T.c1 (leafTupleSize * T.c1Width) (flattenLeaves leaves)

def buildTree (leafTuple : Out → Option (LeafTuple S₁)) (outputs : List Out) : Tree Out P₁ P₂ :=
  let parents := T.leafParents (outputs.filterMap leafTuple)
  let r := layersAbove T.c1 T.c2 T.c1Width T.c2Width parents.length parents
  ⟨outputs, if parents.isEmpty then [] else parents :: r.1, r.2⟩

def growBatches (leafTuple : Out → Option (LeafTuple S₁)) :
    Tree Out P₁ P₂ → List (List (UnifiedOutput Out)) → Except String (Tree Out P₁ P₂)
  | t, [] => .ok t
  | t, batch :: batches => do
    let ext ← T.getTreeExtension leafTuple t.leaves.length t.getLastHashes [batch]
    let next ← t.extendTree ext
    growBatches leafTuple next batches

end CurveTrees
variable {change : Bool} {w : Nat}
section
variable {S P C : Type} [Ring S] [AddCommGroup P] [Module S P]

def commitment (G : Nat → P) (offset : Nat) (scalars : List S) : P :=
  (scalars.mapIdx (fun i s => s • G (offset + i))).sum

structure Curve.Linear (curve : Curve S P C) (G : Nat → P) : Prop where
  zero : curve.zeroScalar = 0
  grow : ∀ existing offset child scalars,
    curve.hashGrow existing offset child scalars =
      existing - child • G offset + commitment G offset scalars

theorem commitment_append (G : Nat → P) (offset : Nat) (a b : List S) :
    commitment G offset (a ++ b) = commitment G offset a + commitment G (offset + a.length) b := by
  have hshift : (fun i (s : S) => s • G (offset + (i + a.length))) =
      fun i s => s • G (offset + a.length + i) := by
    funext i s
    rw [add_comm i, add_assoc]
  simp only [commitment]
  rw [mapIdx_append, sum_append, hshift]

theorem commitment_singleton (G : Nat → P) (offset : Nat) (s : S) :
    commitment G offset [s] = s • G offset := by
  simp [commitment]

variable {curve : Curve S P C} {G : Nat → P}

theorem Curve.Linear.getNewParent_eq (h : curve.Linear G) (scalars : List S) :
    getNewParent curve scalars = curve.hashInitPoint + commitment G 0 scalars := by
  rw [getNewParent, h.grow, h.zero, zero_smul, sub_zero]

theorem Curve.Linear.hashGrow_append (h : curve.Linear G) (prior fresh : List S) :
    curve.hashGrow (getNewParent curve prior) prior.length curve.zeroScalar fresh =
      getNewParent curve (prior ++ fresh) := by
  rw [h.grow, h.zero, zero_smul, sub_zero, h.getNewParent_eq, h.getNewParent_eq,
    commitment_append, zero_add, add_assoc]

theorem Curve.Linear.hashGrow_replace (h : curve.Linear G) (prior fresh : List S) (child : S) :
    curve.hashGrow (getNewParent curve (prior ++ [child])) prior.length child fresh =
      getNewParent curve (prior ++ fresh) := by
  rw [h.grow, h.getNewParent_eq, h.getNewParent_eq, commitment_append, commitment_append,
    commitment_singleton, zero_add]
  abel

end

structure Extends {P : Type} (old new : List P) (change : Bool) (e : LayerExtension P) : Prop where
  grown : ChildGrown old.length new.length change e
  update : e.updateExistingLastHash = change
  splice : new = old.take e.startIdx ++ e.hashes

theorem extendLayer_of_extends {P : Type} (curve : String) {old new : List P}
    {e : LayerExtension P} (h : Extends old new change e) (h64 : old.length < 2 ^ 64) :
    extendLayer curve old e = .ok new := by
  have hstart := h.grown.start
  have hne : (!e.hashes.isEmpty) = true := by simpa using h.grown.nonempty
  unfold extendLayer
  rw [check_true hne]
  cases change with
  | true =>
    have hpos := h.grown.old rfl
    have htip : e.startIdx + 1 = old.length := by
      rw [hstart, firstChangedChild, if_pos rfl]
      omega
    have hat : (old.length == wrap (e.startIdx + 1)) = true := by
      rw [htip, wrap_of_lt h64, beq_self_eq_true]
    simp only [hat, Bool.or_true, if_true]
    rw [check_true rfl, check_true h.update, dropLast_eq_take]
    have hpred : old.length - 1 = e.startIdx := by omega
    rw [hpred, ← h.splice]
    rfl
  | false =>
    have htip : e.startIdx = old.length := hstart
    have hat : (old.length == wrap (old.length + 1)) = false := by
      rw [beq_eq_false_iff_ne]
      unfold wrap
      omega
    simp only [htip, hat, beq_self_eq_true, Bool.or_false, Bool.false_eq_true, if_false]
    rw [check_true rfl, check_true (by rw [h.update]; rfl)]
    have hsplice := h.splice
    rw [htip, take_length] at hsplice
    rw [hsplice]
    rfl

section
variable {SC PC SP PP : Type} (cChild : Curve SC PC SP) (cParent : Curve SP PP SC)

theorem length_parentLayer (hw : 0 < w) (children : List PC) :
    (parentLayer cChild cParent w children).length = parentsOf w children.length := by
  unfold parentLayer parentsOf
  split
  · rw [length_hashLayer, length_map, ceilDiv_eq_succ hw (by omega)]
  · rfl

theorem nextChildScalars_eq {old new : List PC} {e : LayerExtension PC}
    (h : Extends old new change e) :
    nextChildScalarsFromChildren cChild (if (old.length == 1) = true then old.getLast? else none) e =
      if 1 < old.length then e.hashes.map cChild.pointToCycleScalar
      else new.map cChild.pointToCycleScalar := by
  have hstart := h.grown.start
  rw [h.splice]
  match old, hstart with
  | [], hstart =>
    simp [nextChildScalarsFromChildren]
  | [root], hstart =>
    cases change with
    | true =>
      have hzero : e.startIdx = 0 := hstart
      simp [nextChildScalarsFromChildren, hzero]
    | false =>
      have hone : e.startIdx = 1 := hstart
      simp [nextChildScalarsFromChildren, hone]
  | a :: b :: rest, _ => simp [nextChildScalarsFromChildren]

theorem hashLayer_splice (hw : 0 < w) (s : Nat) (prior fresh : List SP) (hs : s ≤ prior.length)
    (hfresh : fresh ≠ []) :
    hashLayer cParent w (prior.take s ++ fresh) =
      (hashLayer cParent w prior).take (s / w) ++
        getNewParent cParent ((prior.drop (s / w * w)).take (s % w) ++ fresh.take (w - s % w)) ::
          hashLayer cParent w (fresh.drop (w - s % w)) := by
  simp only [hashLayer]
  rw [chunks_splice hw s prior fresh hs hfresh, map_append, map_cons, map_take]

theorem drop_take_pred {α : Type} (l : List α) (k : Nat) (last : α) (hk : k < l.length)
    (hlast : l.getLast? = some last) :
    l.drop k = (l.drop k).take (l.length - 1 - k) ++ [last] := by
  have hdrop : (l.drop k).getLast? = some last := by
    rw [getLast?_drop, if_neg (by omega), hlast]
  obtain ⟨init, hinit⟩ := getLast?_eq_some_iff.mp hdrop
  have hlen : init.length = l.length - 1 - k := by
    have hl := congrArg length hinit
    rw [length_drop, length_append] at hl
    simp only [length_cons, length_nil] at hl
    omega
  rw [hinit, ← hlen, take_left]

variable {cParent} [Ring SP] [AddCommGroup PP] [Module SP PP] {G : Nat → PP}

theorem grow_first_chunk (hlin : cParent.Linear G) (hw : 1 < w) (x : List SP) (hx : 1 < x.length)
    (n : Nat) (change : Bool) (fresh : List SP) :
    let s := firstChangedChild x.length change
    let i := innerInstructions x.length n w change
    cParent.hashGrow
        ((if i.needOldLastParent then (hashLayer cParent w x).getLast? else none).getD
          cParent.hashInitPoint) (s % w)
        ((if i.needOldLastChild then x.getLast? else none).getD cParent.zeroScalar) fresh =
      getNewParent cParent ((x.drop (s / w * w)).take (s % w) ++ fresh) := by
  have hne : x ≠ [] := length_pos_iff.mp (by omega)
  have hlast : (hashLayer cParent w x).getLast? = some (getNewParent cParent (x.drop ((x.length - 1)
    / w * w))) := by
    rw [hashLayer, getLast?_map, getLast_chunks (show 0 < w by omega) hne]
    rfl
  cases change with
  | true =>
    have hs : firstChangedChild x.length true = x.length - 1 := rfl
    have hdm := Nat.div_add_mod (x.length - 1) w
    rw [mul_comm] at hdm
    have hchild := getLast?_eq_some_getLast hne
    have hsplit := drop_take_pred x ((x.length - 1) / w * w) _ (by omega) hchild
    have hoff : x.length - 1 - (x.length - 1) / w * w = (x.length - 1) % w := by omega
    have hprior : ((x.drop ((x.length - 1) / w * w)).take ((x.length - 1) % w)).length =
        (x.length - 1) % w := by
      rw [length_take, length_drop]
      omega
    rw [hoff] at hsplit
    simp only [innerInstructions, hx, decide_true, Bool.true_and, Bool.true_or, if_true, hs, hlast,
      hchild, getD_some]
    have hgrow := hlin.hashGrow_replace
      ((x.drop ((x.length - 1) / w * w)).take ((x.length - 1) % w)) fresh (x.getLast hne)
    rw [← hsplit, hprior] at hgrow
    exact hgrow
  | false =>
    have hs : firstChangedChild x.length false = x.length := rfl
    by_cases hz : x.length % w = 0
    · simp only [innerInstructions, hx, hz, hs, decide_true, Bool.and_false,
        Bool.false_or, bne_self_eq_false, Bool.false_eq_true, if_false, getD_none,
        take_zero, nil_append]
      rfl
    · have hq := (pred_divMod_of_mod_ne_zero (w := w) (by omega) hz).2
      have hdm := Nat.div_add_mod x.length w
      rw [mul_comm] at hdm
      have hlen : (x.drop (x.length / w * w)).length = x.length % w := by
        rw [length_drop]
        omega
      have hneed : (x.length % w != 0) = true := by simpa using hz
      simp only [innerInstructions, hx, hs, hneed, hlast, decide_true, Bool.true_and, Bool.false_or,
        Bool.and_false, Bool.false_eq_true, if_true, if_false, getD_some, getD_none, hq]
      have hgrow := hlin.hashGrow_append (x.drop (x.length / w * w)) fresh
      rw [hlen] at hgrow
      rw [take_of_length_le (le_of_eq hlen), hgrow]

theorem grownExtension_extends (hlin : cParent.Linear G) (hw : 1 < w) {old new : List PC}
    {e : LayerExtension PC} (h : Extends old new change e) (hn : 1 < new.length) :
    Extends (parentLayer cChild cParent w old) (parentLayer cChild cParent w new)
      (innerInstructions old.length new.length w change).needOldLastParent
      (grownExtension cChild cParent old.length new.length w change old.getLast?
        (parentLayer cChild cParent w old).getLast? e) := by
  have hw0 : 0 < w := by omega
  have hchild : 0 < old.length → old.getLast?.isSome := by
    intro hpos
    rw [getLast?_eq_some_getLast (length_pos_iff.mp hpos)]
    rfl
  refine ⟨?_, rfl, ?_⟩
  · rw [length_parentLayer cChild cParent hw0, length_parentLayer cChild cParent hw0]
    nth_rewrite 2 [parentsOf]
    rw [if_pos hn]
    exact grownExtension_childGrown cChild cParent hw hn h.grown _ _ hchild
  · have hnew : parentLayer cChild cParent w new =
        hashLayer cParent w (new.map cChild.pointToCycleScalar) := if_pos hn
    rw [hnew]
    simp only [grownExtension, grownHashes, nextChildScalars_eq cChild h]
    by_cases ho : 1 < old.length
    · have hstart := h.grown.start
      have hold : parentLayer cChild cParent w old =
        hashLayer cParent w (old.map cChild.pointToCycleScalar) := if_pos ho
      have hfirst := grow_first_chunk hlin hw (old.map cChild.pointToCycleScalar)
        (by simpa using ho) new.length change
        ((e.hashes.map cChild.pointToCycleScalar).take (w - firstChangedChild old.length change % w))
      rw [length_map] at hfirst
      have hmapsplice : new.map cChild.pointToCycleScalar =
          (old.map cChild.pointToCycleScalar).take (firstChangedChild old.length change) ++
            e.hashes.map cChild.pointToCycleScalar := by
        conv_lhs => rw [h.splice, hstart]
        rw [map_append, map_take]
      have hs : firstChangedChild old.length change ≤ old.length := by
        unfold firstChangedChild
        split <;> omega
      rw [hmapsplice, hashLayer_splice cParent hw0 _ _ _ (by simpa using hs)
        (by simpa using h.grown.nonempty), ← hfirst, hold, getLast?_map]
      simp only [innerInstructions, ho, if_true]
    · have hzero : parentLayer cChild cParent w old = [] := if_neg ho
      have hmapne : new.map cChild.pointToCycleScalar ≠ [] := by
        rw [← length_pos_iff, length_map]
        omega
      simp only [innerInstructions, ho, if_false, decide_false, Bool.false_and, Bool.false_eq_true,
        hzero, take_nil, nil_append, getD_none]
      rw [hashLayer, chunks_eq_cons hw0 hmapne]
      rfl

end
variable {SC PC SP PP : Type}

structure LayersSplit (b : List (List PC) × List (List PP)) (parents : List PP)
    (above : List (List PP) × List (List PC)) : Prop where
  own : b.1 = above.2
  head : b.2.head?.getD [] = parents
  tail : b.2.tail = above.1
  last : lastOfLayers b.2 = lastOfLayers (parents :: above.1)

section
variable (cChild : Curve SC PC SP) (cParent : Curve SP PP SC) (wChild wParent : Nat)
  {children : List PC}

theorem layersAbove_of_le_one (fuel : Nat) (h : ¬ 1 < children.length) :
    layersAbove cChild cParent wChild wParent fuel children = ([], []) := by
  cases fuel with
  | zero => rfl
  | succ fuel => exact if_neg h

theorem layersAbove_of_one_lt {fuel : Nat} (h : 1 < children.length) (hf : children.length ≤ fuel) :
    layersAbove cChild cParent wChild wParent fuel children =
      ((layersAbove cParent cChild wParent wChild (fuel - 1)
        (parentLayer cChild cParent wParent children)).2,
        parentLayer cChild cParent wParent children ::
          (layersAbove cParent cChild wParent wChild (fuel - 1)
            (parentLayer cChild cParent wParent children)).1) := by
  obtain ⟨k, rfl⟩ : ∃ k, fuel = k + 1 := ⟨fuel - 1, by omega⟩
  exact if_pos h

theorem layersAbove_split {fuel : Nat} (hf : children.length ≤ fuel) :
    LayersSplit (layersAbove cChild cParent wChild wParent fuel children)
      (parentLayer cChild cParent wParent children)
      (layersAbove cParent cChild wParent wChild (fuel - 1)
        (parentLayer cChild cParent wParent children)) := by
  by_cases h : 1 < children.length
  · rw [layersAbove_of_one_lt cChild cParent wChild wParent h hf]
    exact ⟨rfl, rfl, rfl, rfl⟩
  · have hnil : parentLayer cChild cParent wParent children = [] := if_neg h
    rw [layersAbove_of_le_one _ _ _ _ _ h, hnil, layersAbove_of_le_one _ _ _ _ _ (by simp)]
    exact ⟨rfl, rfl, rfl, rfl⟩

end

theorem head_lastOfLayers (cChild : Curve SC PC SP) (cParent : Curve SP PP SC)
    (wChild wParent fuel : Nat) (children : List PC) :
    let b := layersAbove cChild cParent wChild wParent fuel children
    (lastOfLayers (children :: b.1)).head? = children.getLast? ∧
      (lastOfLayers (children :: b.1)).tail = lastOfLayers b.1 := by
  rcases eq_nil_or_concat children with rfl | ⟨init, last, rfl⟩
  · rw [layersAbove_of_le_one _ _ _ _ _ (by simp)]
    exact ⟨rfl, rfl⟩
  · simp [lastOfLayers]

theorem extendLayers_grownAbove [Ring SC] [AddCommGroup PC] [Module SC PC] [Ring SP]
    [AddCommGroup PP] [Module SP PP] {cChild : Curve SC PC SP} {cParent : Curve SP PP SC}
    {GC : Nat → PC} {GP : Nat → PP} (hlinC : cChild.Linear GC) (hlinP : cParent.Linear GP)
    {wChild wParent : Nat} (hC : 1 < wChild) (hP : 1 < wParent) (child parent : String)
    (fuel fOld fNew : Nat) {old new : List PC} {e : LayerExtension PC}
    (h : Extends old new change e) (hfuel : new.length ≤ fuel) (hOld : old.length ≤ fOld)
    (hNew : new.length ≤ fNew) (h64 : old.length < 2 ^ 64) :
    let b := layersAbove cChild cParent wChild wParent fOld old
    let b' := layersAbove cChild cParent wChild wParent fNew new
    let r := grownAbove cChild cParent wChild wParent (lastOfLayers (old :: b.1))
      (lastOfLayers b.2) fuel old.length new.length change e
    extendLayers child b.1 r.1 = .ok b'.1 ∧ extendLayers parent b.2 r.2 = .ok b'.2 := by
  induction fuel generalizing SC PC SP PP wChild wParent child parent fOld fNew change with
  | zero =>
    have hn : ¬ 1 < new.length := by omega
    have hle := h.grown.le.1
    simp only [grownAbove, layersAbove_of_le_one _ _ _ _ _ hn,
      layersAbove_of_le_one cChild cParent wChild wParent fOld (show ¬ 1 < old.length by omega)]
    exact ⟨rfl, rfl⟩
  | succ fuel ih =>
    by_cases hn : 1 < new.length
    · have hnext := grownExtension_extends cChild hlinP hP h hn
      have hlenOld := length_parentLayer cChild cParent (show 0 < wParent by omega) old
      have hlenNew := length_parentLayer cChild cParent (show 0 < wParent by omega) new
      have hlt := parentsOf_lt hP (show 0 < new.length by omega)
      have hltOld : parentsOf wParent old.length ≤ old.length - 1 := by
        rcases eq_zero_or_pos old.length with hz | hpos
        · rw [hz]
          exact le_rfl
        · have := parentsOf_lt hP hpos
          omega
      have hsplit := layersAbove_split cChild cParent wChild wParent hOld
      have hsplit' := layersAbove_split cChild cParent wChild wParent hNew
      obtain ⟨hown, hpar⟩ := ih hlinP hlinC hP hC parent child (fOld - 1) (fNew - 1) hnext
        (by omega) (by omega) (by omega) (by omega)
      obtain ⟨hheadC, htailC⟩ := head_lastOfLayers cChild cParent wChild wParent fOld old
      obtain ⟨hheadP, -⟩ := head_lastOfLayers cParent cChild wParent wChild (fOld - 1)
        (parentLayer cChild cParent wParent old)
      have hparNew : parentsOf wParent new.length = 1 + (new.length - 1) / wParent := if_pos hn
      rw [hlenOld, hlenNew, hparNew] at hown hpar
      simp only [grownAbove, hn, if_true]
      rw [hheadC, htailC, hsplit.last, hheadP, hsplit.own, hsplit'.own]
      refine ⟨hpar, ?_⟩
      simp only [extendLayers]
      rw [hsplit.head, hsplit.tail, extendLayer_of_extends parent hnext (by omega), ok_bind, hown,
        ok_bind, layersAbove_of_one_lt cChild cParent wChild wParent hn hNew]
      rfl
    · have hle := h.grown.le.1
      simp only [grownAbove, layersAbove_of_le_one _ _ _ _ _ hn, hn, if_false,
        layersAbove_of_le_one cChild cParent wChild wParent fOld (show ¬ 1 < old.length by omega)]
      exact ⟨rfl, rfl⟩

end Jero.Fcmp
