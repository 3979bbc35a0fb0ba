import Jero.Epee.RollingMedian

namespace Jero.Epee
namespace RollingMedian
variable {rm rm' : RollingMedian} {side : Side}

def BothOrdered (rm : RollingMedian) : Prop := ∀ side, rm.Ordered side

theorem bothOrdered_of (side : Side) (h : rm.Ordered side) (h' : rm.Ordered side.other) :
    rm.BothOrdered := by
  intro s
  cases side <;> cases s <;> assumption

theorem key_zero (rm : RollingMedian) (side : Side) : rm.key side 0 = rm.value 0 := by
  rw [key, side.index_zero]

theorem key_zero_other (rm : RollingMedian) (side : Side) :
    rm.key side.other 0 = rm.key side 0 := by
  rw [key_zero, key_zero]

theorem OrderedBelow.of_keys (h : rm.OrderedBelow side) (hcount : rm'.count side = rm.count side)
    (hkeys : ∀ j, 0 < j → rm'.key side j = rm.key side j) : rm'.OrderedBelow side := by
  intro j hj hjct
  rw [hkeys j (by omega), hkeys (j / 2) (by omega)]
  exact h j hj (hcount ▸ hjct)

theorem Ordered.of_keys (h : rm.Ordered side) (hcount : rm'.count side = rm.count side)
    (hkeys : ∀ j, 0 < j → rm'.key side j = rm.key side j)
    (hmedian : rm'.key side 0 = rm.key side 0) : rm'.Ordered side := by
  refine (h.below.of_keys hcount hkeys).ordered ?_
  intro hct
  rw [hmedian, hkeys 1 one_pos]
  exact h 1 one_pos (hcount ▸ hct)

theorem downOrder_root (h : rm.OrderedBelow side) (hswap : Swapped side 1 0 rm rm')
    (hbefore : side.before (rm.key side 1) (rm.key side 0)) : rm'.DownOrder side 1 := by
  have hcount := hswap.rearranged.count side
  refine ⟨?_, ?_⟩
  · intro j hj hjct hjk
    by_cases hone : j = 1
    · subst hone
      rw [hswap.child_key, show 1 / 2 = 0 from rfl, hswap.parent_key]
      exact side.not_before_of_before hbefore
    · rw [hswap.same j hone (by omega), hswap.same (j / 2) hjk (by omega)]
      exact h j (by omega) (hcount ▸ hjct)
  · intro j hj hjct hjk
    rw [hswap.same j (by omega) (by omega), show 1 / 2 = 0 from rfl, hswap.parent_key]
    exact h.root_first hj (hcount ▸ hjct)

def exchangeRoot (rm : RollingMedian) (side : Side) : RollingMedian :=
  match rm.cmpExch side 1 0 with
  | (false, rm) => rm
  | (true, rm) => rm.sortDown side 1

structure RootSettled (side : Side) (rm rm' : RollingMedian) : Prop where
  ordered : rm'.Ordered side
  other : ∀ j, 0 < j → rm'.key side.other j = rm.key side.other j
  rearranged : Rearranged rm rm'
  median : (rm'.key side 0 = rm.key side 0 ∧ rm'.key side 1 = rm.key side 1) ∨
    rm'.key side 0 = rm.key side 1

theorem exchangeRoot_spec (hct : 0 < rm.count side) (h : rm.OrderedBelow side) :
    RootSettled side rm (rm.exchangeRoot side) := by
  unfold exchangeRoot
  rcases cmpExch_cases side one_pos hct with ⟨hstop, heq⟩ | ⟨hbefore, rm', heq, hswap⟩
  · rw [heq]
    exact ⟨h.ordered (fun _ => hstop), fun _ _ => rfl, .refl rm, .inl ⟨rfl, rfl⟩⟩
  · rw [heq]
    obtain ⟨hordered, htouched⟩ := sortDown_spec one_pos (downOrder_root h hswap hbefore)
    refine ⟨hordered, ?_, hswap.rearranged.trans htouched.rearranged, .inr ?_⟩
    · intro j hj
      rw [htouched.other j hj, hswap.other j hj]
    · rw [htouched.below 0 one_pos, hswap.parent_key]

theorem raise_spec {p : Nat} (hp : 0 < p) (hpct : p ≤ rm.count side) (hup : rm.UpOrder side p)
    (hother : rm.Ordered side.other) (hguard : side = .min → 0 < rm.maxCt) :
    (rm.raise side p).BothOrdered ∧ Rearranged rm (rm.raise side p) := by
  have hraised : Raised side rm (rm.sortUp side p) := sortUpFrom_spec hp hpct le_rfl hup
  unfold raise
  generalize rm.sortUp side p = r at hraised
  obtain ⟨reached, raised⟩ := r
  obtain ⟨hordered, hkeys, hrearranged, hkept, hreached⟩ := hraised
  have hcount : raised.count side.other = rm.count side.other := hrearranged.count side.other
  cases reached with
  | false =>
    change raised.BothOrdered ∧ Rearranged rm raised
    refine ⟨bothOrdered_of side hordered (hother.of_keys hcount hkeys ?_), hrearranged⟩
    rw [key_zero_other, key_zero_other, hkept rfl]
  | true =>
    obtain ⟨hone, -⟩ := hreached rfl
    simp only [true_and]
    split
    · rename_i hside
      have hct : 0 < raised.count side.other := by
        rw [hcount]
        cases side with
        | min => exact hguard rfl
        | max =>
          have hmin : raised.minCt ≠ 0 := by simpa using hside
          rw [hrearranged.minCt] at hmin
          exact pos_of_ne_zero hmin
      obtain ⟨hcross, hsame, hmoved, hmedian⟩ :=
        exchangeRoot_spec hct (hother.below.of_keys hcount hkeys)
      rw [side.other_other] at hsame
      refine ⟨bothOrdered_of side ?_ hcross, hrearranged.trans hmoved⟩
      refine (hordered.below.of_keys (hmoved.count side) hsame).ordered ?_
      intro hpos
      rw [hmoved.count side] at hpos
      rcases hmedian with ⟨hzero, -⟩ | hzero
      · rw [key_zero_other, key_zero_other] at hzero
        rw [hsame 1 one_pos, hzero]
        exact hordered 1 one_pos hpos
      · rw [key_zero_other] at hzero
        rw [hsame 1 one_pos, hone, hzero, hkeys 1 one_pos, ← key_zero_other]
        have hroot := side.other.not_before_other (hother 1 one_pos (hcount ▸ hct))
        rwa [side.other_other] at hroot
    · rename_i hside
      have hempty : rm.count side.other = 0 := by
        cases side with
        | min => simp at hside
        | max =>
          have hmin : raised.minCt = 0 := by simpa using hside
          rw [hrearranged.minCt] at hmin
          exact hmin
      refine ⟨bothOrdered_of side hordered ?_, hrearranged⟩
      intro j hj hjct
      omega

theorem settleMedian_eq (rm : RollingMedian) (side : Side) :
    rm.settleMedian side = if rm.count side ≠ 0 then rm.exchangeRoot side else rm := by
  unfold settleMedian exchangeRoot sortUp
  simp only [sortUpFrom, one_pos, if_true, show 1 / 2 = 0 from rfl]
  generalize rm.cmpExch side 1 0 = r
  obtain ⟨swapped, rm'⟩ := r
  cases swapped <;> rfl

def Crossed (rm : RollingMedian) (side : Side) : Prop :=
  0 < rm.count side → 0 < rm.count side.other → ¬ side.before (rm.key side 1) (rm.key side.other 1)

theorem Crossed.swap (h : rm.Crossed side) : rm.Crossed side.other := by
  intro hct hct'
  rw [side.other_other] at hct' ⊢
  exact side.not_before_other (h hct' hct)

theorem settleMedian_spec (h : rm.OrderedBelow side) (hother : rm.OrderedBelow side.other)
    (hcross : rm.Crossed side) :
    (rm.settleMedian side).Ordered side ∧ (rm.settleMedian side).OrderedBelow side.other ∧
      (rm.settleMedian side).Crossed side ∧ Rearranged rm (rm.settleMedian side) ∧
      (rm.Ordered side.other → (rm.settleMedian side).Ordered side.other) := by
  rw [settleMedian_eq]
  by_cases hct : rm.count side = 0
  · rw [if_neg (not_not.mpr hct)]
    refine ⟨?_, hother, hcross, .refl rm, fun h => h⟩
    intro j hj hjct
    omega
  rw [if_pos hct]
  obtain ⟨hordered, hkeys, hmoved, hmedian⟩ := exchangeRoot_spec (pos_of_ne_zero hct) h
  have hcount := hmoved.count side
  have hcount' := hmoved.count side.other
  refine ⟨hordered, hother.of_keys hcount' hkeys, ?_, hmoved, ?_⟩
  · intro hpos hpos'
    rw [hcount] at hpos
    rw [hcount'] at hpos'
    rw [hkeys 1 one_pos]
    rcases hmedian with ⟨-, hone⟩ | hzero
    · rw [hone]
      exact hcross hpos hpos'
    · have hroot := hordered 1 one_pos (hcount ▸ hpos)
      rw [show 1 / 2 = 0 from rfl, hzero] at hroot
      exact side.before_trans (hcross hpos hpos') hroot
  · intro hfull
    refine (hother.of_keys hcount' hkeys).ordered ?_
    intro hpos'
    rw [hcount'] at hpos'
    rw [hkeys 1 one_pos, key_zero_other]
    rcases hmedian with ⟨hzero, -⟩ | hzero
    · rw [hzero, ← key_zero_other]
      exact hfull 1 one_pos hpos'
    · rw [hzero]
      exact side.not_before_other (hcross (pos_of_ne_zero hct) hpos')

structure Shape (rm : RollingMedian) : Prop where
  capacity_pos : 0 < rm.capacity
  linked : rm.Linked
  sz_le : rm.sz ≤ rm.capacity
  minCt_eq : rm.minCt = (rm.sz - 1) / 2
  maxCt_eq : rm.maxCt = rm.sz / 2
  idx_lt : rm.idx < rm.capacity
  idx_eq : rm.sz < rm.capacity → rm.idx = rm.sz
  filled : ∀ k < rm.sz, rm.InHeap (rm.pos k)
  unfilled : ∀ k, rm.sz ≤ k → k < rm.capacity → rm.pos k = fillPattern k

structure WellFormed (rm : RollingMedian) : Prop extends Shape rm where
  ordered : rm.BothOrdered

theorem Shape.inRange (h : rm.Shape) (i : Int) (hi : rm.InHeap i) : rm.InRange i := by
  have hsz := h.sz_le
  have hmin := h.minCt_eq
  have hmax := h.maxCt_eq
  unfold InHeap at hi
  unfold InRange
  omega

theorem fillPattern_outside (h : rm.Shape) {k : Nat} (hk : rm.sz ≤ k) (hpos : 0 < k) :
    ¬ rm.InHeap (fillPattern k) := by
  have hmin := h.minCt_eq
  have hmax := h.maxCt_eq
  unfold InHeap fillPattern
  split <;> omega

theorem Shape.rearranged (h : rm.Shape) (hsz : 0 < rm.sz) (hr : Rearranged rm rm') : rm'.Shape := by
  have hlinked := hr.linked h.inRange h.linked
  refine ⟨hr.capacity ▸ h.capacity_pos, hlinked, ?_, ?_, ?_, ?_, ?_, ?_, ?_⟩
  · rw [hr.sz, hr.capacity]
    exact h.sz_le
  · rw [hr.minCt, hr.sz]
    exact h.minCt_eq
  · rw [hr.maxCt, hr.sz]
    exact h.maxCt_eq
  · rw [hr.idx, hr.capacity]
    exact h.idx_lt
  · rw [hr.idx, hr.sz, hr.capacity]
    exact h.idx_eq
  · intro k hk
    rw [hr.sz] at hk
    have hkcap : k < rm.capacity := hk.trans_le h.sz_le
    rw [hr.inHeap]
    by_contra hout
    have hslot := hr.outside _ hout
    rw [hlinked.heap_pos k (hr.capacity ▸ hkcap)] at hslot
    have hrange := (hr.inRange _).mp (hlinked.pos_range k (hr.capacity ▸ hkcap))
    have hsame := h.linked.pos_heap _ hrange
    rw [← hslot] at hsame
    exact hout (hsame ▸ h.filled k hk)
  · intro k hk hkcap
    rw [hr.sz] at hk
    rw [hr.capacity] at hkcap
    have hpattern := h.unfilled k hk hkcap
    have hslot := hr.outside _ (fillPattern_outside h hk (by omega))
    have hrange := h.linked.pos_range k hkcap
    rw [← hpattern, h.linked.heap_pos k hkcap] at hslot
    have hsame := hlinked.pos_heap _ ((hr.inRange _).mpr hrange)
    rw [hslot] at hsame
    rw [hsame, hpattern]

theorem key_store (h : rm.Shape) (v : Nat) {side : Side} {j : Nat}
    (hj : rm.InRange (side.index j)) :
    (rm.store v).key side j = if side.index j = rm.pos rm.idx then v else rm.key side j := by
  change Function.update rm.data rm.idx v (rm.heap (side.index j)) = _
  rw [Function.update_apply]
  split
  · rename_i hslot
    rw [if_pos (by rw [← hslot, h.linked.pos_heap _ hj])]
  · rename_i hslot
    rw [if_neg (fun hpos => hslot (by rw [hpos, h.linked.heap_pos _ h.idx_lt]))]
    rfl

theorem key_store_ne (h : rm.Shape) (v : Nat) {side : Side} {j : Nat}
    (hj : j ≤ rm.count side) (hne : side.index j ≠ rm.pos rm.idx) :
    (rm.store v).key side j = rm.key side j := by
  rw [key_store h v (h.inRange _ (inHeap_index hj)), if_neg hne]

theorem shape_store_full (h : rm.Shape) (v : Nat) (hfull : rm.sz = rm.capacity) :
    (rm.store v).Shape := by
  have hsz : (rm.store v).sz = rm.sz := by
    change min (rm.sz + 1) rm.capacity = rm.sz
    omega
  have hcapacity : (rm.store v).capacity = rm.capacity := rfl
  refine ⟨h.capacity_pos, ⟨h.linked.pos_range, h.linked.heap_pos, h.linked.heap_lt,
    h.linked.pos_heap⟩, ?_, ?_, ?_, Nat.mod_lt _ h.capacity_pos, ?_, ?_, ?_⟩
  · rw [hsz]
    exact h.sz_le
  · rw [hsz]
    exact h.minCt_eq
  · rw [hsz]
    exact h.maxCt_eq
  · intro hlt
    omega
  · intro k hk
    exact h.filled k (hsz ▸ hk)
  · intro k hk hkcap
    omega

variable (h : rm.WellFormed) {side : Side} {p v : Nat} (hp : 0 < p) (hpct : p ≤ rm.count side)
  (hpos : rm.pos rm.idx = side.index p)
include h hp hpct hpos

theorem ordered_replace :
    (∀ j, j ≤ rm.count side → j ≠ p → (rm.store v).key side j = rm.key side j) ∧
      (rm.store v).key side p = v ∧ rm.key side p = rm.data rm.idx ∧
      (rm.store v).Ordered side.other := by
  have hshape := h.toShape
  refine ⟨?_, ?_, ?_, ?_⟩
  · intro j hj hne
    refine key_store_ne hshape v hj ?_
    rw [hpos]
    exact fun hsame => hne (side.index_inj.mp hsame)
  · rw [key_store hshape v (hshape.inRange _ (inHeap_index hpct)), if_pos hpos.symm]
  · rw [key, value, ← hpos, hshape.linked.heap_pos _ hshape.idx_lt]
  · have hkeys : ∀ j, j ≤ rm.count side.other →
        (rm.store v).key side.other j = rm.key side.other j := by
      intro j hj
      refine key_store_ne hshape v hj ?_
      rw [hpos]
      exact (side.index_ne_other hp).symm
    intro j hj hjct
    rw [hkeys j hjct, hkeys (j / 2) ((Nat.div_le_self j 2).trans hjct)]
    exact h.ordered side.other j hj hjct

theorem parent_replace : ¬ side.before (rm.data rm.idx) (rm.key side (p / 2)) := by
  rw [← (ordered_replace h (v := 0) hp hpct hpos).2.2.1]
  exact h.ordered side p hp hpct

theorem grand_replace : ∀ j, 0 < j → j ≤ rm.count side → j / 2 = p →
    ¬ side.before ((rm.store v).key side j) ((rm.store v).key side (p / 2)) := by
  obtain ⟨hsame, -, hold, -⟩ := ordered_replace h (v := v) hp hpct hpos
  intro j hj hjct hjp
  have hchild := h.ordered side j hj hjct
  rw [hjp, hold] at hchild
  rw [hsame (p / 2) (by omega) (by omega), hsame j hjct (by omega)]
  exact side.before_trans (parent_replace h hp hpct hpos) hchild

theorem downOrder_replace (hbefore : side.before (rm.data rm.idx) v) :
    (rm.store v).DownOrder side p := by
  obtain ⟨hsame, hnew, -, -⟩ := ordered_replace h (v := v) hp hpct hpos
  refine ⟨?_, grand_replace h hp hpct hpos⟩
  intro j hj hjct hjp
  have hjct : j ≤ rm.count side := hjct
  rw [hsame (j / 2) (by omega) hjp]
  by_cases hjeq : j = p
  · rw [hjeq, hnew]
    exact side.before_trans (parent_replace h hp hpct hpos)
      (side.not_before_of_before hbefore)
  · rw [hsame j hjct hjeq]
    exact h.ordered side j hj hjct

theorem upOrder_replace (hbefore : ¬ side.before (rm.data rm.idx) v) :
    (rm.store v).UpOrder side p := by
  obtain ⟨hsame, hnew, hold, -⟩ := ordered_replace h (v := v) hp hpct hpos
  refine ⟨?_, grand_replace h hp hpct hpos⟩
  intro j hj hjct hjp
  have hjct : j ≤ rm.count side := hjct
  rw [hsame j hjct hjp]
  by_cases hchild : j / 2 = p
  · have hlink := h.ordered side j hj hjct
    rw [hchild, hold] at hlink
    rw [hchild, hnew]
    exact side.before_trans hbefore hlink
  · rw [hsame (j / 2) (by omega) hchild]
    exact h.ordered side j hj hjct

end RollingMedian
end Jero.Epee
