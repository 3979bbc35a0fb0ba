import Jero.Fcmp.Extension

namespace Jero.Fcmp
open Jero.Machine Jero.Lists List Bool CurveTrees

def growRoles {SC PC SP PP : Type} (cChild : Curve SC PC SP) (cParent : Curve SP PP SC)
    (wChild wParent : Nat) (lastChild : List PC) (lastParent : List PP) :
    Nat → GrowLayerInstructions → List (LayerExtension PC) → List (LayerExtension PP) → Nat → Nat →
      Except String (List (LayerExtension PC) × List (LayerExtension PP))
  | 0, instr, extChild, extParent, _, _ =>
    if instr.newTotalParents > 1 then .error "out of fuel" else .ok (extChild, extParent)
  | fuel + 1, instr, extChild, extParent, idxChild, idxParent =>
    if instr.newTotalParents > 1 then do
      let next ← getGrowLayerInstructions instr.oldTotalParents instr.newTotalParents wParent
        instr.needOldLastParent
      let ext ← getNextLayerExtension cChild cParent next lastChild lastParent extChild idxChild
        idxParent
      check (next.newTotalParents < instr.newTotalParents)
        "expect fewer parents than children in every layer"
      let r ← growRoles cParent cChild wParent wChild lastParent lastChild fuel next
        (extParent ++ [ext]) extChild idxParent (idxChild + 1)
      return (r.2, r.1)
    else .ok (extChild, extParent)

variable {S₁ P₁ S₂ P₂ Out : Type}

theorem growLayers_eq_roles (T : CurveTrees S₁ P₁ S₂ P₂) (last : LastHashes P₁ P₂) (fuel : Nat)
    (st : GrowState Out P₁ P₂) :
    (T.growLayers last fuel st).map GrowState.treeExtension =
      if st.parentIsC2 then
        (growRoles T.c1 T.c2 T.c1Width T.c2Width last.c1LastHashes last.c2LastHashes fuel
          st.instructions st.treeExtension.c1LayerExtensions st.treeExtension.c2LayerExtensions
          st.c1LastIdx st.c2LastIdx).map (fun r => ⟨st.treeExtension.leaves, r.1, r.2⟩)
      else
        (growRoles T.c2 T.c1 T.c2Width T.c1Width last.c2LastHashes last.c1LastHashes fuel
          st.instructions st.treeExtension.c2LayerExtensions st.treeExtension.c1LayerExtensions
          st.c2LastIdx st.c1LastIdx).map (fun r => ⟨st.treeExtension.leaves, r.2, r.1⟩) := by
  induction fuel generalizing st with
  | zero =>
    simp only [growLayers, growRoles]
    by_cases hp : st.instructions.newTotalParents > 1 <;> cases st.parentIsC2 <;>
      simp [hp, Except.map]
  | succ fuel ih =>
    simp only [growLayers, growRoles, setNextLayerExtension]
    by_cases hp : st.instructions.newTotalParents > 1
    · cases st.parentIsC2 <;>
        simp only [if_pos hp, except_map_bind, bind_assoc, ih, false_eq_true, if_false, if_true] <;> rfl
    · simp only [if_neg hp]
      cases st.parentIsC2 <;> rfl

structure ChildGrown {P : Type} (o n : Nat) (change : Bool) (e : LayerExtension P) : Prop where
  start : e.startIdx = firstChangedChild o change
  total : e.startIdx + e.hashes.length = n
  nonempty : e.hashes ≠ []
  old : change = true → 0 < o

section
variable {SC PC SP PP : Type} (cChild : Curve SC PC SP) (cParent : Curve SP PP SC)
variable {o n w : Nat} {change : Bool}

theorem ChildGrown.le {P : Type} {e : LayerExtension P} (h : ChildGrown o n change e) :
    o ≤ n ∧ (change = false → o < n) := by
  have hs := h.start
  have ht := h.total
  have hl := length_pos_iff.mpr h.nonempty
  unfold firstChangedChild at hs
  cases change with
  | true =>
    simp only [if_true] at hs
    exact ⟨by omega, by simp⟩
  | false =>
    simp only [false_eq_true, if_false] at hs
    exact ⟨by omega, fun _ => by omega⟩

variable {e : LayerExtension PC}

theorem length_nextChildScalars (h : ChildGrown o n change e)
    (last : Option PC) (hlast : 0 < o → last.isSome) :
    (nextChildScalarsFromChildren cChild (if (o == 1) = true then last else none) e).length =
      if 1 < o then n - firstChangedChild o change else n := by
  have hs := h.start
  have ht := h.total
  by_cases ho : 1 < o
  · have h1 : (o == 1) = false := by simp; omega
    simp only [h1, false_eq_true, if_false, nextChildScalarsFromChildren, nil_append,
      length_map, ho, if_true]
    omega
  · rcases lt_or_eq_of_le (Nat.le_of_not_lt ho) with h0 | rfl
    · have hz : o = 0 := by omega
      subst hz
      have h00 : firstChangedChild 0 change = 0 := by unfold firstChangedChild; split <;> rfl
      simp [nextChildScalarsFromChildren]
      omega
    · obtain ⟨r, hr⟩ := Option.isSome_iff_exists.mp (hlast one_pos)
      subst hr
      cases change with
      | true =>
        have h10 : firstChangedChild 1 true = 0 := rfl
        rw [h10] at hs
        simp [nextChildScalarsFromChildren, hs]
        omega
      | false =>
        have h11 : firstChangedChild 1 false = 1 := rfl
        rw [h11] at hs
        simp [nextChildScalarsFromChildren, hs]
        omega

theorem nextChildScalars_ne_nil (h : ChildGrown o n change e)
    (last : Option PC) (hlast : 0 < o → last.isSome) :
    nextChildScalarsFromChildren cChild (if (o == 1) = true then last else none) e ≠ [] := by
  have hs := h.start
  have ht := h.total
  have hl := length_pos_iff.mpr h.nonempty
  rw [← length_pos_iff, length_nextChildScalars cChild h last hlast]
  split <;> omega

theorem parent_start_add_offset (hw : 1 < w) (h : ChildGrown o n change e) :
    let i := innerInstructions o n w change
    i.startOffset < w ∧ i.nextParentStartIndex * w + (i.startOffset +
      (if 1 < o then n - firstChangedChild o change else n)) = n := by
  have hs := h.start
  have ht := h.total
  by_cases ho : 1 < o
  · simp only [innerInstructions, ho, if_true]
    have hd := Nat.div_add_mod (firstChangedChild o change) w
    rw [mul_comm] at hd
    exact ⟨Nat.mod_lt _ (by omega), by omega⟩
  · simp only [innerInstructions, ho, if_false]
    exact ⟨by omega, by omega⟩

def grownExtension (cChild : Curve SC PC SP) (cParent : Curve SP PP SC) (o n w : Nat)
    (change : Bool) (lastChild : Option PC) (lastParent : Option PP) (e : LayerExtension PC) :
    LayerExtension PP :=
  let i := innerInstructions o n w change
  ⟨i.nextParentStartIndex, i.needOldLastParent, grownHashes cParent
      (if i.needOldLastChild then lastChild.map cChild.pointToCycleScalar else none)
      (if i.needOldLastParent then lastParent else none) i.startOffset
      (nextChildScalarsFromChildren cChild (if (o == 1) = true then lastChild else none) e) w⟩

variable (hw : 1 < w) (hn : 1 < n) {e : LayerExtension PC} (h : ChildGrown o n change e)
include hw hn h

theorem grownExtension_total (lastChild : Option PC) (lastParent : Option PP)
    (hchild : 0 < o → lastChild.isSome) :
    let x := grownExtension cChild cParent o n w change lastChild lastParent e
    x.startIdx + x.hashes.length = 1 + (n - 1) / w := by
  obtain ⟨hoff, hsum⟩ := parent_start_add_offset hw h
  have hlen := length_nextChildScalars cChild h lastChild hchild
  have hne := nextChildScalars_ne_nil cChild h lastChild hchild
  simp only [grownExtension]
  rw [start_add_length_grownHashes _ _ hoff hne, hlen, hsum, ceilDiv_eq_succ (by omega) (by omega)]

theorem grownExtension_childGrown (lastChild : Option PC) (lastParent : Option PP)
    (hchild : 0 < o → lastChild.isSome) :
    ChildGrown (parentsOf w o) (1 + (n - 1) / w) (innerInstructions o n w change).needOldLastParent
      (grownExtension cChild cParent o n w change lastChild lastParent e) := by
  refine ⟨?_, grownExtension_total cChild cParent hw hn h lastChild lastParent hchild, by
    simp [grownExtension, grownHashes], ?_⟩
  · simp only [grownExtension, innerInstructions, parentsOf, gt_iff_lt]
    by_cases ho : 1 < o
    · simp only [ho, if_true, decide_true, Bool.true_and, firstChangedChild]
      by_cases hz : o % w = 0
      · have h2 := (pred_divMod_of_mod_eq_zero (by omega) (by omega) hz).2
        cases change with
        | true => simp [hz]
        | false => simp [hz]; omega
      · have h2 := (pred_divMod_of_mod_ne_zero (w := w) (by omega) hz).2
        cases change with
        | true => simp
        | false => simp [hz]; omega
    · simp [ho, firstChangedChild]
  · intro hneed
    simp only [innerInstructions, and_eq_true, decide_eq_true_eq] at hneed
    rw [parentsOf, if_pos hneed.1]
    exact Nat.add_pos_left one_pos _

theorem getNextLayerExtension_ok (h64 : 2 * n ≤ 2 ^ 64) (lastC : List PC) (lastP : List PP)
    {extC : List (LayerExtension PC)} {idxC : Nat} (idxP : Nat) (hext : extC[idxC]? = some e)
    (hchild : 0 < o → (lastC[idxC]?).isSome)
    (hroot : o = 1 → idxC + 1 = lastC.length ∧ lastC.length < 2 ^ 64)
    (hparent : 1 < o → (lastP[idxP]?).isSome) :
    getNextLayerExtension cChild cParent (innerInstructions o n w change) lastC lastP extC idxC
      idxP = .ok (grownExtension cChild cParent o n w change lastC[idxC]? lastP[idxP]? e) := by
  have hset : (innerInstructions o n w change).settingNextLayerAfterOldRoot = (o == 1) := rfl
  have hwid : (innerInstructions o n w change).parentChunkWidth = w := rfl
  have htot := grownExtension_total cChild cParent hw hn h lastC[idxC]?
    lastP[idxP]? hchild
  obtain ⟨hoff, hsum⟩ := parent_start_add_offset hw h
  have hlen := length_nextChildScalars cChild h lastC[idxC]? hchild
  have hneed : ∀ {b : Bool}, (decide (1 < o) && b) = true → 1 < o :=
    fun hb => of_decide_eq_true (and_eq_true_iff.mp hb).1
  have hold : (!(innerInstructions o n w change).needOldLastParent ||
      (lastP[idxP]?).isSome) = true := by
    cases hb : (innerInstructions o n w change).needOldLastParent with
    | false => rfl
    | true => simpa using hparent (hneed hb)
  have hflag : (if (innerInstructions o n w change).needOldLastParent then lastP[idxP]?
      else none).isSome = (innerInstructions o n w change).needOldLastParent := by
    cases hb : (innerInstructions o n w change).needOldLastParent with
    | false => rfl
    | true => simpa [hb] using hold
  simp only [getNextLayerExtension, hext, hset, hwid]
  rw [check_true (by
      by_cases h1 : o = 1
      · obtain ⟨hidx, hlc⟩ := hroot h1
        simp [h1, hidx, wrap_of_lt hlc]
      · simp [h1]),
    check_true (by
      by_cases h1 : o = 1
      · simpa [h1] using hchild (by omega)
      · simp [h1]),
    check_true hold, check_true (by
      cases hb : (innerInstructions o n w change).needOldLastChild with
      | false => rfl
      | true => simpa using hchild (by have := hneed hb; omega)),
    hashChildrenChunks_ok _ _ _ (nextChildScalars_ne_nil cChild h lastC[idxC]? hchild) hoff
      (by rw [hlen]; omega), hflag]
  change (check _ _ >>= _) = _
  rw [check_true (by
    have hle : (n - 1) / w ≤ n - 1 := Nat.div_le_self _ _
    simp only [grownExtension] at htot
    rw [htot, beq_iff_eq]
    exact wrap_of_lt (by omega))]
  rfl

end

def layerCountsLoop : Nat → Nat → Nat → Nat → List Nat
  | 0, _, _, _ => []
  | fuel + 1, wParent, wChild, n =>
    if n = 0 then [] else n :: layerCountsLoop fuel wChild wParent (parentsOf wParent n)

def layerCounts (wParent wChild n : Nat) : List Nat := layerCountsLoop n wParent wChild n

theorem parentsOf_lt {w n : Nat} (hw : 1 < w) (hn : 0 < n) : parentsOf w n < n := by
  unfold parentsOf
  split
  · rename_i h
    exact parents_lt hw h
  · exact hn

theorem layerCountsLoop_of_le {wParent wChild : Nat} (hP : 1 < wParent) (hC : 1 < wChild)
    (n fuel : Nat) (h : n ≤ fuel) :
    layerCountsLoop fuel wParent wChild n = layerCounts wParent wChild n := by
  induction n using Nat.strong_induction_on generalizing fuel wParent wChild with
  | _ n ih =>
    cases fuel with
    | zero => rw [Nat.le_zero.mp h]; rfl
    | succ fuel =>
      cases n with
      | zero => rfl
      | succ n =>
        have hlt := parentsOf_lt hP (Nat.succ_pos n)
        simp only [layerCounts, layerCountsLoop]
        rw [ih _ hlt hC hP fuel (by omega), ih _ hlt hC hP n (by omega)]

theorem layerCounts_eq_cons {wParent wChild n : Nat} (hP : 1 < wParent) (hC : 1 < wChild)
    (hn : 0 < n) :
    layerCounts wParent wChild n = n :: layerCounts wChild wParent (parentsOf wParent n) := by
  obtain ⟨k, rfl⟩ : ∃ k, n = k + 1 := ⟨n - 1, by omega⟩
  have hlt := parentsOf_lt hP hn
  rw [layerCounts, layerCountsLoop, if_neg (by omega), layerCountsLoop_of_le hC hP _ k (by omega)]

@[simp] theorem layerCounts_zero (wParent wChild : Nat) : layerCounts wParent wChild 0 = [] := rfl

def LayerExtension.total {P : Type} (e : LayerExtension P) : Nat := e.startIdx + e.hashes.length

def grownAbove {SC PC SP PP : Type} (cChild : Curve SC PC SP) (cParent : Curve SP PP SC)
    (wChild wParent : Nat) (lastChild : List PC) (lastParent : List PP) :
    Nat → Nat → Nat → Bool → LayerExtension PC → List (LayerExtension PC) × List (LayerExtension PP)
  | 0, _, _, _, _ => ([], [])
  | fuel + 1, o, n, change, e =>
    if 1 < n then
      let x := grownExtension cChild cParent o n wParent change lastChild.head? lastParent.head? e
      let r := grownAbove cParent cChild wParent wChild lastParent lastChild.tail fuel
        (parentsOf wParent o) (1 + (n - 1) / wParent)
        (innerInstructions o n wParent change).needOldLastParent x
      (r.2, x :: r.1)
    else ([], [])

structure LastHashesFit {PC PP : Type} (wParent wChild o : Nat) (lastChild : List PC)
    (lastParent : List PP) : Prop where
  child : lastChild.length = ((layerCounts wParent wChild o).length + 1) / 2
  parent : lastParent.length = (layerCounts wParent wChild o).length / 2

variable {SC PC SP PP : Type}

theorem length_layerCounts {wParent wChild : Nat} (hP : 1 < wParent) (hC : 1 < wChild) (o : Nat) :
    (layerCounts wParent wChild o).length =
      (layerCounts wChild wParent (parentsOf wParent o)).length + (if 0 < o then 1 else 0) := by
  rcases eq_zero_or_pos o with rfl | ho
  · simp [parentsOf]
  · rw [layerCounts_eq_cons hP hC ho, if_pos ho, length_cons]

namespace LastHashesFit
variable {wParent wChild o : Nat} {lastChild : List PC} {lastParent : List PP}
section
variable (h : LastHashesFit wParent wChild o lastChild lastParent) (hP : 1 < wParent)
  (hC : 1 < wChild)
include h hP hC

theorem next : LastHashesFit wChild wParent (parentsOf wParent o) lastParent lastChild.tail := by
  have hlen := length_layerCounts hP hC o
  rcases eq_zero_or_pos o with rfl | ho
  · have hz : parentsOf wParent 0 = 0 := rfl
    rw [hz]
    exact ⟨by simp [h.parent], by simp [h.child]⟩
  · rw [if_pos ho] at hlen
    refine ⟨?_, ?_⟩
    · rw [h.parent, hlen]
    · rw [length_tail, h.child, hlen]
      omega

theorem child_isSome (ho : 0 < o) : lastChild.head?.isSome := by
  have hlen := length_layerCounts hP hC o
  have hc := h.child
  rw [if_pos ho] at hlen
  rw [isSome_head?, ← length_pos_iff]
  omega

theorem parent_isSome (ho : 1 < o) : lastParent.head?.isSome := by
  apply (h.next hP hC).child_isSome hC hP
  rw [parentsOf, if_pos ho]
  exact Nat.add_pos_left one_pos _

end

theorem child_length_one (h : LastHashesFit wParent wChild 1 lastChild lastParent) :
    lastChild.length = 1 := by
  have hone : (layerCounts wParent wChild 1).length = 1 := rfl
  rw [h.child, hone]

end LastHashesFit

theorem growRoles_ok {wChild wParent : Nat} (hC : 1 < wChild) (hP : 1 < wParent) (fuel : Nat)
    (cChild : Curve SC PC SP) (cParent : Curve SP PP SC) (lastChild : List PC)
    (lastParent : List PP) (instr : GrowLayerInstructions) (extChild : List (LayerExtension PC))
    (extParent : List (LayerExtension PP)) (idxChild idxParent : Nat) (e : LayerExtension PC)
    (hfuel : instr.newTotalParents ≤ fuel) (h64 : 2 * instr.newTotalParents ≤ 2 ^ 64)
    (hlc : lastChild.length < 2 ^ 64) (hlp : lastParent.length < 2 ^ 64)
    (hext : extChild[idxChild]? = some e) (hlenC : extChild.length = idxChild + 1)
    (hlenP : extParent.length = idxParent)
    (hgrown : ChildGrown instr.oldTotalParents instr.newTotalParents instr.needOldLastParent e)
    (hfit : LastHashesFit wParent wChild instr.oldTotalParents (lastChild.drop idxChild)
      (lastParent.drop idxParent)) :
    growRoles cChild cParent wChild wParent lastChild lastParent fuel instr extChild extParent
        idxChild idxParent =
      let r := grownAbove cChild cParent wChild wParent (lastChild.drop idxChild)
        (lastParent.drop idxParent) fuel instr.oldTotalParents instr.newTotalParents
        instr.needOldLastParent e
      .ok (extChild ++ r.1, extParent ++ r.2) := by
  induction fuel generalizing SC PC SP PP wChild wParent instr extChild extParent idxChild idxParent with
  | zero =>
    have hn : ¬ instr.newTotalParents > 1 := by omega
    simp [growRoles, grownAbove, hn]
  | succ fuel ih =>
    by_cases hn : 1 < instr.newTotalParents
    · obtain ⟨hle, hlt⟩ := hgrown.le
      have hdec := parents_lt hP hn
      have hchild : 0 < instr.oldTotalParents → (lastChild[idxChild]?).isSome := by
        rw [← head?_drop]
        exact hfit.child_isSome hP hC
      have hparent : 1 < instr.oldTotalParents → (lastParent[idxParent]?).isSome := by
        rw [← head?_drop]
        exact hfit.parent_isSome hP hC
      have hroot : instr.oldTotalParents = 1 →
          idxChild + 1 = lastChild.length ∧ lastChild.length < 2 ^ 64 := by
        intro ho
        rw [ho] at hfit
        have hone := hfit.child_length_one
        rw [length_drop] at hone
        exact ⟨by omega, hlc⟩
      have hstep := getNextLayerExtension_ok cChild cParent hP hn hgrown h64 lastChild lastParent
        idxParent hext hchild hroot hparent
      have hnext := grownExtension_childGrown cChild cParent hP hn hgrown lastChild[idxChild]?
        lastParent[idxParent]? hchild
      have hfit' := hfit.next hP hC
      rw [tail_drop] at hfit'
      have hrec := ih hP hC cParent cChild lastParent lastChild
        (innerInstructions instr.oldTotalParents instr.newTotalParents wParent
          instr.needOldLastParent)
        (extParent ++ [grownExtension cChild cParent instr.oldTotalParents instr.newTotalParents
          wParent instr.needOldLastParent lastChild[idxChild]? lastParent[idxParent]? e])
        extChild idxParent (idxChild + 1) _
        (by simp only [innerInstructions]; omega) (by simp only [innerInstructions]; omega)
        hlp hlc (by rw [← hlenP, getElem?_concat_length]) (by simp [hlenP]) hlenC hnext hfit'
      simp only [growRoles, gt_iff_lt, hn, if_true]
      rw [getGrowLayerInstructions_ok hP hn (by omega) hle hlt, ok_bind, hstep, ok_bind,
        check_true (by exact decide_eq_true hdec), hrec]
      simp only [ok_bind, grownAbove, hn, if_true, head?_drop, tail_drop,
        innerInstructions, append_assoc, cons_append, nil_append]
      rfl
    · simp [growRoles, grownAbove, hn]

end Jero.Fcmp
