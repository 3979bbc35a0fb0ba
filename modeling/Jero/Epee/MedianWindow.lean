import Jero.Epee.MedianInsert

namespace Jero.Epee
open Side
namespace RollingMedian
variable {rm rm' : RollingMedian} {side : Side}

structure Stored (rm rm' : RollingMedian) (v : Nat) : Prop where
  wellFormed : rm'.WellFormed
  data : rm'.data = Function.update rm.data rm.idx v
  idx : rm'.idx = (rm.idx + 1) % rm.capacity
  sz : rm'.sz = min (rm.sz + 1) rm.capacity
  capacity : rm'.capacity = rm.capacity

theorem stored_of_rearranged {base : RollingMedian} {v : Nat} (hshape : base.Shape)
    (hsz : 0 < base.sz) (hdata : base.data = (rm.store v).data) (hidx : base.idx = (rm.store v).idx)
    (hbase : base.sz = (rm.store v).sz) (hcapacity : base.capacity = rm.capacity)
    (h : rm'.BothOrdered ∧ Rearranged base rm') : Stored rm rm' v := by
  obtain ⟨hordered, hr⟩ := h
  exact ⟨⟨hshape.rearranged hsz hr, hordered⟩, hr.data.trans hdata, hr.idx.trans hidx,
    hr.sz.trans hbase, hr.capacity.trans hcapacity⟩

theorem room_full (h : rm.Shape) (hfull : rm.sz = rm.capacity) (side : Side) :
    rm.count side = side.room rm.capacity := by
  cases side
  · exact h.minCt_eq.trans (by rw [hfull]; rfl)
  · exact h.maxCt_eq.trans (by rw [hfull]; rfl)

theorem insertSide_full (h : rm.WellFormed) (hfull : rm.sz = rm.capacity) {side : Side} {p : Nat}
    (v : Nat) (hp : 0 < p) (hpct : p ≤ rm.count side) (hpos : rm.pos rm.idx = side.index p) :
    Stored rm ((rm.store v).insertSide side p v (rm.data rm.idx)) v := by
  have hshape := h.toShape
  have hbase := shape_store_full hshape v hfull
  have hsz : 0 < (rm.store v).sz := by
    have hcap := hshape.capacity_pos
    change 0 < min (rm.sz + 1) rm.capacity
    omega
  refine stored_of_rearranged hbase hsz rfl rfl rfl rfl ?_
  obtain ⟨-, -, -, hother⟩ := ordered_replace h (v := v) hp hpct hpos
  have hroom : ¬ (rm.store v).count side < side.room (rm.store v).capacity :=
    (room_full hshape hfull side).not_lt
  rw [insertSide, if_neg hroom]
  by_cases hbefore : side.before (rm.data rm.idx) v
  · rw [if_pos hbefore]
    obtain ⟨hordered, htouched⟩ := sortDown_spec hp (downOrder_replace h hp hpct hpos hbefore)
    refine ⟨bothOrdered_of side hordered (hother.of_keys (htouched.rearranged.count side.other)
      htouched.other ?_), htouched.rearranged⟩
    rw [key_zero_other, key_zero_other, htouched.below 0 hp]
  · rw [if_neg hbefore]
    refine raise_spec hp hpct (upOrder_replace h hp hpct hpos hbefore) hother ?_
    rintro rfl
    have hmin : p ≤ rm.minCt := hpct
    have hmin' := hshape.minCt_eq
    have hmax : (rm.store v).maxCt = rm.sz / 2 := hshape.maxCt_eq
    omega

theorem settle_stored (h : rm.WellFormed) (v : Nat) (hpos : rm.pos rm.idx = 0) :
    ((rm.store v).settleMedian .max |>.settleMedian .min).BothOrdered ∧
      Rearranged (rm.store v) ((rm.store v).settleMedian .max |>.settleMedian .min) := by
  have hshape := h.toShape
  have hkeys : ∀ (side : Side) j, 0 < j → j ≤ rm.count side →
      (rm.store v).key side j = rm.key side j := by
    intro side j hj hjct
    refine key_store_ne hshape v hjct ?_
    rw [hpos, ← side.index_zero]
    exact fun hsame => hj.ne' (side.index_inj.mp hsame)
  have hbelow : ∀ side, (rm.store v).OrderedBelow side := by
    intro side j hj hjct
    have hjct : j ≤ rm.count side := hjct
    rw [hkeys side j (by omega) hjct, hkeys side (j / 2) (by omega) (by omega)]
    exact h.ordered side j (by omega) hjct
  have hcross : (rm.store v).Crossed .max := by
    intro hmax hmin
    have hmax : 0 < rm.count .max := hmax
    have hmin : 0 < rm.count .min := hmin
    rw [hkeys .max 1 one_pos hmax, show max.other = .min from rfl, hkeys .min 1 one_pos hmin]
    have hupper := h.ordered .min 1 one_pos hmin
    have hlower := h.ordered .max 1 one_pos hmax
    rw [show 1 / 2 = 0 from rfl, key_zero] at hupper hlower
    exact max.before_trans (min.not_before_other hupper) hlower
  obtain ⟨hmaxOrdered, hminBelow, hcrossed, hfirst, -⟩ :=
    settleMedian_spec (hbelow .max) (hbelow .min) hcross
  obtain ⟨hminOrdered, -, -, hsecond, hkeep⟩ :=
    @settleMedian_spec _ .min hminBelow hmaxOrdered.below hcrossed.swap
  exact ⟨bothOrdered_of .min hminOrdered (hkeep hmaxOrdered), hfirst.trans hsecond⟩

theorem grow_other (side : Side) : (rm.grow side).count side.other = rm.count side.other := by
  cases side <;> rfl

@[simp]
theorem grow_data (side : Side) : (rm.grow side).data = rm.data := by
  cases side <;> rfl

@[simp]
theorem grow_pos (side : Side) : (rm.grow side).pos = rm.pos := by
  cases side <;> rfl

@[simp]
theorem grow_capacity (side : Side) : (rm.grow side).capacity = rm.capacity := by
  cases side <;> rfl

@[simp]
theorem grow_idx (side : Side) : (rm.grow side).idx = rm.idx := by
  cases side <;> rfl

@[simp]
theorem grow_sz (side : Side) : (rm.grow side).sz = rm.sz := by
  cases side <;> rfl

theorem grow_key (side side' : Side) (j : Nat) : (rm.grow side).key side' j = rm.key side' j := by
  cases side <;> rfl

def fillSide (n : Nat) : Side := if n % 2 = 1 then .max else .min

theorem fillPattern_eq (n : Nat) : fillPattern n = (fillSide n).index ((n + 1) / 2) := by
  unfold fillPattern fillSide
  split
  · simp [index]
  · simp [index]

theorem fill_count (h : rm.Shape) (hsz : 0 < rm.sz) :
    (rm.sz + 1) / 2 = rm.count (fillSide rm.sz) + 1 := by
  have hmin := h.minCt_eq
  have hmax := h.maxCt_eq
  unfold fillSide
  split
  · change _ = rm.maxCt + 1
    omega
  · change _ = rm.minCt + 1
    omega

theorem grow_counts (h : rm.Shape) (v : Nat) (hsz : 0 < rm.sz) :
    ((rm.store v).grow (fillSide rm.sz)).minCt = rm.sz / 2 ∧
      ((rm.store v).grow (fillSide rm.sz)).maxCt = (rm.sz + 1) / 2 := by
  have hmin := h.minCt_eq
  have hmax := h.maxCt_eq
  unfold fillSide
  split
  · constructor
    · change rm.minCt = rm.sz / 2
      omega
    · change rm.maxCt + 1 = (rm.sz + 1) / 2
      omega
  · constructor
    · change rm.minCt + 1 = rm.sz / 2
      omega
    · change rm.maxCt = (rm.sz + 1) / 2
      omega

theorem store_sz_of_space (v : Nat) (hspace : rm.sz < rm.capacity) :
    (rm.store v).sz = rm.sz + 1 := by
  change min (rm.sz + 1) rm.capacity = rm.sz + 1
  omega

theorem shape_grow (h : rm.Shape) (v : Nat) (hsz : 0 < rm.sz) (hspace : rm.sz < rm.capacity) :
    ((rm.store v).grow (fillSide rm.sz)).Shape := by
  obtain ⟨hmin, hmax⟩ := grow_counts h v hsz
  have hstored := store_sz_of_space v hspace
  refine ⟨?_, ?_, ?_, ?_, ?_, ?_, ?_, ?_, ?_⟩
  · rw [grow_capacity]
    exact h.capacity_pos
  · have hlinked : (rm.store v).Linked :=
      ⟨h.linked.pos_range, h.linked.heap_pos, h.linked.heap_lt, h.linked.pos_heap⟩
    cases (fillSide rm.sz) <;> exact ⟨hlinked.pos_range, hlinked.heap_pos, hlinked.heap_lt,
      hlinked.pos_heap⟩
  · rw [grow_sz, grow_capacity, hstored]
    exact hspace
  · rw [hmin, grow_sz, hstored, Nat.add_sub_cancel]
  · rw [hmax, grow_sz, hstored]
  · rw [grow_idx, grow_capacity]
    exact Nat.mod_lt _ h.capacity_pos
  · rw [grow_idx, grow_sz, grow_capacity, hstored]
    intro hlt
    change (rm.idx + 1) % rm.capacity = rm.sz + 1
    rw [h.idx_eq hspace]
    exact Nat.mod_eq_of_lt hlt
  · rw [grow_sz, grow_pos, hstored]
    intro k hk
    change ((rm.store v).grow (fillSide rm.sz)).InHeap (rm.pos k)
    by_cases hlast : k = rm.sz
    · rw [hlast, h.unfilled rm.sz le_rfl hspace, InHeap, hmin, hmax]
      unfold fillPattern
      split <;> omega
    · have hold : (rm.store v).InHeap (rm.pos k) := h.filled k (by omega)
      obtain ⟨hlow, hhigh⟩ := hold
      cases (fillSide rm.sz) <;> constructor <;> simp only [grow] <;> omega
  · rw [grow_sz, grow_pos, grow_capacity, hstored]
    intro k hk hkcap
    exact h.unfilled k (by omega) hkcap

theorem insertSide_fill (h : rm.WellFormed) (hsz : 0 < rm.sz) (hspace : rm.sz < rm.capacity)
    (v : Nat) :
    Stored rm ((rm.store v).insertSide (fillSide rm.sz) (rm.count (fillSide rm.sz) + 1) v
      (rm.data rm.idx)) v := by
  have hshape := h.toShape
  have hmin := hshape.minCt_eq
  have hmax := hshape.maxCt_eq
  have hcount := fill_count hshape hsz
  have hpos : rm.pos rm.idx = (fillSide rm.sz).index (rm.count (fillSide rm.sz) + 1) := by
    rw [hshape.idx_eq hspace, hshape.unfilled _ le_rfl hspace, fillPattern_eq, hcount]
  have hroom : (rm.store v).count (fillSide rm.sz) < (fillSide rm.sz).room (rm.store v).capacity := by
    unfold fillSide
    split
    · change rm.maxCt < rm.capacity / 2
      omega
    · change rm.minCt < (rm.capacity - 1) / 2
      omega
  have hguard : fillSide rm.sz = .min → 0 < ((rm.store v).grow (fillSide rm.sz)).maxCt := by
    intro hside
    rw [(grow_counts hshape v hsz).2]
    omega
  have hgrown := shape_grow hshape v hsz hspace
  rw [insertSide, if_pos hroom]
  refine stored_of_rearranged hgrown (by rw [grow_sz, store_sz_of_space v hspace]; omega)
    (grow_data _) (grow_idx _) (grow_sz _) (grow_capacity _) ?_
  generalize fillSide rm.sz = side at *
  have hkeys : ∀ side' j, j ≤ rm.count side' →
      ((rm.store v).grow side).key side' j = rm.key side' j := by
    intro side' j hj
    rw [grow_key]
    refine key_store_ne hshape v hj ?_
    rw [hpos]
    intro hsame
    have hin := inHeap_index hj
    rw [hsame, ← hpos, hshape.idx_eq hspace, hshape.unfilled _ le_rfl hspace] at hin
    exact fillPattern_outside hshape le_rfl hsz hin
  have hnewCount : ((rm.store v).grow side).count side = rm.count side + 1 := by
    cases side <;> rfl
  refine raise_spec (Nat.succ_pos _) hnewCount.ge ⟨?_, ?_⟩ ?_ hguard
  · intro j hj hjct hjp
    rw [hnewCount] at hjct
    rw [hkeys side j (by omega), hkeys side (j / 2) (by omega)]
    exact h.ordered side j hj (by omega)
  · intro j hj hjct hjp
    omega
  · intro j hj hjct
    rw [grow_other] at hjct
    have hjct : j ≤ rm.count side.other := hjct
    rw [hkeys side.other j hjct, hkeys side.other (j / 2) (by omega)]
    exact h.ordered side.other j hj hjct

theorem insert_eq {p : Nat} (hp : 0 < p) (hpos : rm.pos rm.idx = side.index p) (v : Nat) :
    rm.insert v = (rm.store v).insertSide side p v (rm.data rm.idx) := by
  unfold insert
  rw [hpos]
  cases side with
  | min =>
    rw [if_pos (by simpa [index] using hp)]
    rfl
  | max =>
    rw [if_neg (by simp [index]), if_pos (by simpa [index] using hp)]
    simp [index]

theorem inHeap_cases {i : Int} (h : rm.InHeap i) :
    i = 0 ∨ ∃ side k, 0 < k ∧ k ≤ rm.count side ∧ i = side.index k := by
  obtain ⟨hlow, hhigh⟩ := h
  rcases lt_trichotomy i 0 with hneg | hzero | hpos
  · exact .inr ⟨.max, i.natAbs, by omega, by change _ ≤ rm.maxCt; omega, by
      change i = -(i.natAbs : Int)
      omega⟩
  · exact .inl hzero
  · exact .inr ⟨.min, i.natAbs, by omega, by change _ ≤ rm.minCt; omega, by
      change i = (i.natAbs : Int)
      omega⟩

theorem insert_of_zero (hpos : rm.pos rm.idx = 0) (v : Nat) :
    rm.insert v = ((rm.store v).settleMedian .max).settleMedian .min := by
  unfold insert
  rw [hpos]
  rfl

theorem shape_store_first (h : rm.Shape) (v : Nat) (hempty : rm.sz = 0) : (rm.store v).Shape := by
  have hcapacity := h.capacity_pos
  have hstored := store_sz_of_space v (hempty ▸ hcapacity)
  rw [hempty] at hstored
  refine ⟨hcapacity, ⟨h.linked.pos_range, h.linked.heap_pos, h.linked.heap_lt,
    h.linked.pos_heap⟩, ?_, ?_, ?_, Nat.mod_lt _ hcapacity, ?_, ?_, ?_⟩
  · rw [hstored]
    exact hcapacity
  · rw [hstored]
    exact h.minCt_eq.trans (by rw [hempty])
  · rw [hstored]
    exact h.maxCt_eq.trans (by rw [hempty])
  · rw [hstored]
    intro hlt
    change (rm.idx + 1) % rm.capacity = 1
    rw [h.idx_eq (hempty ▸ hcapacity), hempty]
    exact Nat.mod_eq_of_lt hlt
  · rw [hstored]
    intro k hk
    obtain rfl : k = 0 := by omega
    change rm.InHeap (rm.pos 0)
    rw [h.unfilled 0 hempty.le hcapacity]
    constructor
    · change -(rm.maxCt : Int) ≤ 0
      omega
    · change (0 : Int) ≤ rm.minCt
      omega
  · rw [hstored]
    intro k hk hkcap
    exact h.unfilled k (by omega) hkcap

theorem insert_stored (h : rm.WellFormed) (v : Nat) : Stored rm (rm.insert v) v := by
  have hshape := h.toShape
  have hcapacity := hshape.capacity_pos
  have hsz : 0 < (rm.store v).sz := by
    change 0 < min (rm.sz + 1) rm.capacity
    omega
  by_cases hfull : rm.sz = rm.capacity
  · have hin := hshape.filled rm.idx (hfull ▸ hshape.idx_lt)
    rcases inHeap_cases hin with hzero | ⟨side, p, hp, hpct, hpos⟩
    · rw [insert_of_zero hzero]
      exact stored_of_rearranged (shape_store_full hshape v hfull) hsz rfl rfl rfl rfl
        (settle_stored h v hzero)
    · rw [insert_eq hp hpos]
      exact insertSide_full h hfull v hp hpct hpos
  · have hspace : rm.sz < rm.capacity := lt_of_le_of_ne hshape.sz_le hfull
    have hpattern : rm.pos rm.idx = fillPattern rm.sz := by
      rw [hshape.idx_eq hspace, hshape.unfilled _ le_rfl hspace]
    rcases eq_zero_or_pos rm.sz with hempty | hfilled
    · rw [hempty] at hpattern
      rw [insert_of_zero hpattern]
      exact stored_of_rearranged (shape_store_first hshape v hempty) hsz rfl rfl rfl rfl
        (settle_stored h v hpattern)
    · rw [fillPattern_eq, fill_count hshape hfilled] at hpattern
      rw [insert_eq (Nat.succ_pos _) hpattern]
      exact insertSide_fill h hfilled hspace v

end RollingMedian
end Jero.Epee
