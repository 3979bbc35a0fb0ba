import Jero.Epee.MedianWindow

namespace Jero.Epee
open Jero.Lists List
namespace RollingMedian
variable {rm : RollingMedian}

theorem clearFrom_fields (n : Nat) (rm : RollingMedian) :
    (clearFrom n rm).capacity = rm.capacity ∧ (clearFrom n rm).idx = rm.idx ∧
      (clearFrom n rm).minCt = rm.minCt ∧ (clearFrom n rm).maxCt = rm.maxCt ∧
      (clearFrom n rm).sz = rm.sz := by
  induction n generalizing rm with
  | zero => exact ⟨rfl, rfl, rfl, rfl, rfl⟩
  | succ n ih => exact ih _

theorem fillPattern_inj : Function.Injective fillPattern := by
  intro a b h
  unfold fillPattern at h
  split at h <;> split at h <;> omega

theorem fillPattern_surj (i : Int) : ∃ k, fillPattern k = i := by
  unfold fillPattern
  rcases lt_or_ge i 0 with hneg | hpos
  · refine ⟨2 * i.natAbs - 1, ?_⟩
    rw [if_pos (by omega)]
    omega
  · refine ⟨2 * i.natAbs, ?_⟩
    rw [if_neg (by omega)]
    omega

theorem linked_clearFrom (n : Nat) (rm : RollingMedian) (k : Nat) :
    (clearFrom n rm).pos k = (if k < n then fillPattern k else rm.pos k) ∧
      (clearFrom n rm).heap (fillPattern k) = if k < n then k else rm.heap (fillPattern k) := by
  induction n generalizing rm with
  | zero => exact ⟨rfl, rfl⟩
  | succ n ih =>
    rw [clearFrom, (ih _).1, (ih _).2]
    simp only [Function.update_apply, fillPattern_inj.eq_iff]
    by_cases hlast : k = n
    · simp [hlast]
    · simp only [if_neg hlast]
      exact ⟨if_congr (by omega) rfl rfl, if_congr (by omega) rfl rfl⟩

variable (hcapacity : 0 < rm.capacity)
include hcapacity

theorem fillPattern_inRange (k : Nat) :
    rm.InRange (fillPattern k) ↔ k < rm.capacity := by
  unfold InRange fillPattern
  rcases Nat.mod_two_eq_zero_or_one k with heven | hodd
  · rw [if_neg (by omega)]
    omega
  · rw [if_pos hodd]
    omega

theorem clear_linked : rm.clear.Linked := by
  have hclear : rm.clear.capacity = rm.capacity := (clearFrom_fields _ _).1
  have hinRange := fillPattern_inRange (hclear.symm ▸ hcapacity)
  have hpos : ∀ k, k < rm.capacity → rm.clear.pos k = fillPattern k := by
    intro k hk
    exact (linked_clearFrom _ _ k).1.trans (if_pos hk)
  have hheap : ∀ k, k < rm.capacity → rm.clear.heap (fillPattern k) = k := by
    intro k hk
    exact (linked_clearFrom _ _ k).2.trans (if_pos hk)
  have hrange : ∀ i, rm.clear.InRange i → ∃ k, k < rm.capacity ∧ fillPattern k = i := by
    intro i hi
    obtain ⟨k, rfl⟩ := fillPattern_surj i
    exact ⟨k, hclear ▸ (hinRange k).mp hi, rfl⟩
  refine ⟨?_, ?_, ?_, ?_⟩
  · intro k hk
    rw [hpos k (hclear ▸ hk)]
    exact (hinRange k).mpr hk
  · intro k hk
    rw [hpos k (hclear ▸ hk), hheap k (hclear ▸ hk)]
  · intro i hi
    obtain ⟨k, hk, rfl⟩ := hrange i hi
    rw [hheap k hk, hclear]
    exact hk
  · intro i hi
    obtain ⟨k, hk, rfl⟩ := hrange i hi
    rw [hheap k hk, hpos k hk]

theorem clear_wellFormed : rm.clear.WellFormed := by
  obtain ⟨hclear, hidx, hmin, hmax, hsz⟩ := clearFrom_fields rm.capacity
    { rm with idx := 0, minCt := 0, maxCt := 0, sz := 0 }
  have hclear : rm.clear.capacity = rm.capacity := hclear
  have hidx : rm.clear.idx = 0 := hidx
  have hmin : rm.clear.minCt = 0 := hmin
  have hmax : rm.clear.maxCt = 0 := hmax
  have hsz : rm.clear.sz = 0 := hsz
  refine ⟨⟨?_, clear_linked hcapacity, ?_, ?_, ?_, ?_, ?_, ?_, ?_⟩, ?_⟩
  · rw [hclear]
    exact hcapacity
  · rw [hsz]
    exact Nat.zero_le _
  · rw [hmin, hsz]
  · rw [hmax, hsz]
  · rw [hidx, hclear]
    exact hcapacity
  · rw [hidx, hsz]
    exact fun _ => rfl
  · rw [hsz]
    exact fun k hk => absurd hk (Nat.not_lt_zero k)
  · rw [hclear]
    intro k _ hk
    exact (linked_clearFrom _ _ k).1.trans (if_pos hk)
  · intro side j hj hjct
    have hzero : rm.clear.count side = 0 := by
      cases side
      · exact hmin
      · exact hmax
    omega

omit hcapacity

def window (rm : RollingMedian) : List Nat := ((List.range rm.sz).map rm.data).rotate rm.idx

theorem window_length (rm : RollingMedian) : rm.window.length = rm.sz := by
  simp [window]

theorem window_clear (rm : RollingMedian) : rm.clear.window = [] := by
  have hsz : rm.clear.sz = 0 := (clearFrom_fields _ _).2.2.2.2
  rw [← length_eq_zero_iff, window_length, hsz]

def slide (capacity : Nat) (held : List Nat) (v : Nat) : List Nat :=
  if held.length < capacity then held ++ [v] else held.tail ++ [v]

theorem map_update_range (data : Nat → Nat) {n i : Nat} (v : Nat) :
    (List.range n).map (Function.update data i v) = ((List.range n).map data).set i v := by
  refine ext_getElem (by simp) ?_
  intro k hk hk'
  simp only [getElem_map, getElem_range, getElem_set, Function.update_apply]
  exact if_congr eq_comm rfl rfl

theorem rotate_set_succ (held : List Nat) {i : Nat} (v : Nat) (hi : i < held.length) :
    (held.set i v).rotate (i + 1) = (held.rotate i).tail ++ [v] := by
  rw [rotate_eq_drop_append_take (by rw [length_set]; exact hi),
    rotate_eq_drop_append_take hi.le, drop_set_of_lt (Nat.lt_succ_self i),
    take_add_one, take_set_of_le le_rfl, tail_append_of_ne_nil (by simp [hi])]
  simp [hi]

theorem window_insert (h : rm.WellFormed) (v : Nat) :
    (rm.insert v).window = slide rm.capacity rm.window v := by
  obtain ⟨-, hdata, hidx, hsz, -⟩ := insert_stored h v
  unfold slide
  rw [window_length]
  unfold window
  rw [hdata, hidx, hsz]
  split
  · rename_i hspace
    have hidx := h.idx_eq hspace
    rw [min_eq_left hspace, map_update_range, hidx, range_succ, map_append, map_singleton]
    have hheld : ((range rm.sz).map rm.data).length = rm.sz := by simp
    have hset : ((range rm.sz).map rm.data ++ [rm.data rm.sz]).set rm.sz v =
        (range rm.sz).map rm.data ++ [v] := by
      rw [set_append_right _ _ hheld.le, hheld, Nat.sub_self]
      rfl
    rw [hset]
    generalize (range rm.sz).map rm.data = held at hheld
    rw [← hheld, rotate_length]
    rcases lt_or_ge (held.length + 1) rm.capacity with hlt | hge
    · rw [Nat.mod_eq_of_lt hlt]
      exact (congrArg (held ++ [v]).rotate (by simp)).trans (rotate_length _)
    · rw [show held.length + 1 = rm.capacity by omega, Nat.mod_self, rotate_zero]
  · rename_i hfull
    have hsame : rm.sz = rm.capacity := le_antisymm h.sz_le (Nat.le_of_not_lt hfull)
    have hidx := h.idx_lt
    have hheld : ((range rm.sz).map rm.data).length = rm.capacity := by simp [hsame]
    rw [min_eq_right (by omega), map_update_range, ← hsame]
    generalize (range rm.sz).map rm.data = held at hheld
    rw [← rotate_set_succ held v (hheld.symm ▸ hidx), hsame, ← hheld, ← length_set, rotate_mod]

def slots (rm : RollingMedian) : List Int :=
  (List.range rm.maxCt).map (fun k => Side.max.index (k + 1)) ++
    0 :: (List.range rm.minCt).map fun k => Side.min.index (k + 1)

theorem mem_slots (i : Int) : i ∈ rm.slots ↔ rm.InHeap i := by
  simp only [slots, mem_append, mem_cons, mem_map, mem_range]
  constructor
  · rintro (⟨k, hk, rfl⟩ | rfl | ⟨k, hk, rfl⟩)
    · exact @inHeap_index _ _ .max hk
    · exact @inHeap_index 0 _ .min (Nat.zero_le _)
    · exact @inHeap_index _ _ .min hk
  · intro hi
    rcases inHeap_cases hi with rfl | ⟨side, k, hk, hkct, rfl⟩
    · exact .inr (.inl rfl)
    · cases side with
      | min => exact .inr (.inr ⟨k - 1, Nat.sub_one_lt_of_le hk hkct, by rw [Nat.sub_add_cancel hk]⟩)
      | max => exact .inl ⟨k - 1, Nat.sub_one_lt_of_le hk hkct, by rw [Nat.sub_add_cancel hk]⟩

theorem nodup_slots (rm : RollingMedian) : rm.slots.Nodup := by
  have hside : ∀ (side : Side) n, ((range n).map fun k => side.index (k + 1)).Nodup := by
    intro side n
    refine nodup_range.map ?_
    intro a b hab
    exact Nat.succ_injective (side.index_inj.mp hab)
  refine nodup_append.mpr ⟨hside .max _, nodup_cons.mpr ⟨?_, hside .min _⟩, ?_⟩
  · simp only [mem_map, Side.index]
    rintro ⟨k, -, hk⟩
    omega
  · intro a ha b hb
    obtain ⟨k, -, rfl⟩ := mem_map.mp ha
    simp only [mem_cons, mem_map, Side.index] at hb ⊢
    rcases hb with rfl | ⟨j, -, rfl⟩ <;> omega

theorem insertAll_spec (h : rm.WellFormed) (values : List Nat) :
    (rm.insertAll values).WellFormed ∧ (rm.insertAll values).capacity = rm.capacity ∧
      (rm.insertAll values).window = values.foldl (slide rm.capacity) rm.window := by
  induction values generalizing rm with
  | nil => exact ⟨h, rfl, rfl⟩
  | cons v values ih =>
    obtain ⟨hwell, -, -, -, hcapacity⟩ := insert_stored h v
    obtain ⟨hall, hkept, hheld⟩ := ih hwell
    refine ⟨hall, hkept.trans hcapacity, ?_⟩
    rw [hcapacity, window_insert h] at hheld
    exact hheld

theorem foldl_slide {capacity : Nat} (held values : List Nat)
    (h : held.length + values.length ≤ capacity) :
    values.foldl (slide capacity) held = held ++ values := by
  induction values generalizing held with
  | nil => exact (append_nil held).symm
  | cons v values ih =>
    rw [length_cons] at h
    have hspace : held.length < capacity := by omega
    rw [foldl_cons, slide, if_pos hspace, ih _ (by rw [length_append]; simp; omega),
      append_assoc, singleton_append]

include hcapacity in
theorem reload_spec {values : List Nat} (h : values.length ≤ rm.capacity) :
    (rm.clear.insertAll values).WellFormed ∧
      (rm.clear.insertAll values).capacity = rm.capacity ∧
      (rm.clear.insertAll values).window = values := by
  obtain ⟨hwell, hkept, hheld⟩ := insertAll_spec (clear_wellFormed hcapacity) values
  have hclear : rm.clear.capacity = rm.capacity := (clearFrom_fields _ _).1
  refine ⟨hwell, hkept.trans hclear, ?_⟩
  rw [hheld, window_clear, hclear, foldl_slide [] values (by simpa using h), nil_append]

theorem range_perm_slots (h : rm.Shape) (hsz : 0 < rm.sz) :
    (List.range rm.sz).Perm (rm.slots.map rm.heap) := by
  have hinRange : ∀ i ∈ rm.slots, rm.InRange i := fun i hi => h.inRange i ((mem_slots i).mp hi)
  have hnodup : (rm.slots.map rm.heap).Nodup := by
    refine (nodup_slots rm).map_on ?_
    intro i hi j hj hij
    rw [← h.linked.pos_heap i (hinRange i hi), hij, h.linked.pos_heap j (hinRange j hj)]
  refine (perm_ext_iff_of_nodup nodup_range hnodup).mpr ?_
  intro k
  rw [mem_range, mem_map]
  constructor
  · intro hk
    exact ⟨rm.pos k, (mem_slots _).mpr (h.filled k hk), h.linked.heap_pos k (hk.trans_le h.sz_le)⟩
  · rintro ⟨i, hi, rfl⟩
    by_contra hout
    have hfar := Nat.le_of_not_lt hout
    have hpos := h.unfilled _ hfar (h.linked.heap_lt i (hinRange i hi))
    rw [h.linked.pos_heap i (hinRange i hi)] at hpos
    have hin := (mem_slots i).mp hi
    rw [hpos] at hin
    exact fillPattern_outside h hfar (hsz.trans_le hfar) hin

def keys (rm : RollingMedian) (side : Side) (first : Nat) : List Nat :=
  (List.range (rm.count side - first)).map fun k => rm.key side (k + first + 1)

theorem window_perm (h : rm.Shape) (hsz : 0 < rm.sz) :
    rm.window.Perm (rm.keys .max 0 ++ rm.value 0 :: rm.keys .min 0) := by
  have hheld : rm.window.Perm ((range rm.sz).map rm.data) := rotate_perm _ _
  refine (hheld.trans ((range_perm_slots h hsz).map rm.data)).trans (List.Perm.of_eq ?_)
  simp only [slots, keys, map_append, map_cons, map_map, count]
  rfl

theorem keys_max (h : 0 < rm.count .max) : rm.keys .max 0 = rm.key .max 1 :: rm.keys .max 1 := by
  unfold keys
  obtain ⟨n, hn⟩ := Nat.exists_eq_add_of_lt h
  rw [hn, show 0 + n + 1 - 0 = n + 1 by omega, show 0 + n + 1 - 1 = n by omega,
    range_succ_eq_map, map_cons, map_map]
  rfl

theorem mem_keys {side : Side} {first x : Nat} (hx : x ∈ rm.keys side first) :
    ∃ j, first < j ∧ j ≤ rm.count side ∧ x = rm.key side j := by
  obtain ⟨k, hk, rfl⟩ := mem_map.mp hx
  rw [mem_range] at hk
  exact ⟨k + first + 1, by omega, by omega, rfl⟩

theorem keys_length (side : Side) (first : Nat) :
    (rm.keys side first).length = rm.count side - first := by
  simp [keys]

theorem medianOf_eq (h : rm.WellFormed) (hsz : 0 < rm.sz) : rm.medianOf = median rm.window := by
  have hmin := h.minCt_eq
  have hmax := h.maxCt_eq
  rw [median_eq_of_perm (window_perm h.toShape hsz)]
  have hupper : ∀ x ∈ rm.keys .min 0, rm.value 0 ≤ x := by
    intro x hx
    obtain ⟨j, hj, hjct, rfl⟩ := mem_keys hx
    have hfirst := (h.ordered .min).median_first hj hjct
    rw [key_zero] at hfirst
    exact Nat.le_of_not_lt hfirst
  have hlower : ∀ x ∈ rm.keys .max 0, x ≤ rm.value 0 := by
    intro x hx
    obtain ⟨j, hj, hjct, rfl⟩ := mem_keys hx
    have hfirst := (h.ordered .max).median_first hj hjct
    rw [key_zero] at hfirst
    exact Nat.le_of_not_lt hfirst
  unfold medianOf
  split
  · rename_i hheavier
    have hcount : 0 < rm.count .max := by
      change 0 < rm.maxCt
      omega
    rw [keys_max hcount] at hlower ⊢
    rw [cons_append, median_eq_of_perm perm_middle.symm, getMid_comm]
    refine (median_of_heavier ?_ (hlower _ mem_cons_self) hupper ?_).symm
    · intro x hx
      obtain ⟨j, hj, hjct, rfl⟩ := mem_keys hx
      exact Nat.le_of_not_lt ((h.ordered .max).below.root_first (by omega) hjct)
    · rw [keys_length, keys_length]
      change rm.maxCt - 1 = rm.minCt - 0
      omega
  · rename_i hbalanced
    refine (median_of_balanced hlower hupper ?_).symm
    rw [keys_length, keys_length]
    change rm.maxCt - 0 = rm.minCt - 0
    omega

end RollingMedian
variable {values : List Nat} {capacity : Nat}

inductive MedianOp where
  | insert (v : Nat)
  | clear
deriving DecidableEq, Repr

open MedianOp

def lastValues (n : Nat) (values : List Nat) : List Nat := values.drop (values.length - n)

theorem lastValues_of_le {n : Nat} (h : values.length ≤ n) : lastValues n values = values := by
  rw [lastValues, Nat.sub_eq_zero_of_le h, drop_zero]

theorem length_lastValues (n : Nat) (values : List Nat) :
    (lastValues n values).length = min n values.length := by
  rw [lastValues, length_drop]
  omega

namespace MedianOp

def inserted (values : List Nat) : MedianOp → List Nat
  | .insert v => values ++ [v]
  | .clear => []

def sinceClear (ops : List MedianOp) : List Nat := ops.foldl inserted []

end MedianOp
namespace RollingMedian
variable {rm : RollingMedian}

def allocated (capacity : Nat) : Int := Int.bmod (capacity * 16 % 2 ^ 64 : Nat) (2 ^ 32)

def create (capacity : Nat) (memory : RollingMedian) : Option RollingMedian :=
  if allocated capacity < capacity * 16 then none
  else some { memory with capacity := capacity }.clear

def apply (rm : RollingMedian) : MedianOp → RollingMedian
  | .insert v => rm.insert v
  | .clear => rm.clear

def applyAll (rm : RollingMedian) (ops : List MedianOp) : RollingMedian := ops.foldl apply rm

theorem slide_lastValues (hcapacity : 0 < capacity) (values : List Nat) (v : Nat) :
    slide capacity (lastValues capacity values) v = lastValues capacity (values ++ [v]) := by
  unfold slide
  rw [length_lastValues]
  split
  · rename_i hspace
    have hfew : values.length < capacity := by omega
    rw [lastValues_of_le hfew.le, lastValues_of_le (by simpa using hfew)]
  · rename_i hfull
    have hdrop : (values ++ [v]).length - capacity = values.length - capacity + 1 := by
      rw [length_append, length_singleton]
      omega
    rw [lastValues, lastValues, hdrop, drop_append_of_le_length (by omega), tail_drop]

structure Holds (capacity : Nat) (values : List Nat) (rm : RollingMedian) : Prop where
  wellFormed : rm.WellFormed
  sized : rm.capacity = capacity
  held : rm.window = lastValues capacity values

theorem clear_holds (hcapacity : 0 < capacity) (hsized : rm.capacity = capacity) :
    Holds capacity [] rm.clear := by
  refine ⟨clear_wellFormed (hsized ▸ hcapacity), ?_, ?_⟩
  · exact (clearFrom_fields _ _).1.trans hsized
  · rw [window_clear, lastValues_of_le (Nat.zero_le capacity)]

theorem Holds.apply (hcapacity : 0 < capacity) (h : Holds capacity values rm) (op : MedianOp) :
    Holds capacity (op.inserted values) (rm.apply op) := by
  cases op with
  | insert v =>
    obtain ⟨hwell, -, -, -, hkept⟩ := insert_stored h.wellFormed v
    refine ⟨hwell, hkept.trans h.sized, ?_⟩
    change (rm.insert v).window = _
    rw [window_insert h.wellFormed, h.sized, h.held]
    exact slide_lastValues hcapacity values v
  | clear => exact clear_holds hcapacity h.sized

theorem Holds.applyAll (hcapacity : 0 < capacity) (ops : List MedianOp)
    (h : Holds capacity values rm) :
    Holds capacity (ops.foldl inserted values) (rm.applyAll ops) := by
  induction ops generalizing rm values with
  | nil => exact h
  | cons op ops ih => exact ih (h.apply hcapacity op)

theorem create_eq (memory : RollingMedian) (hsize : capacity * 16 < 2 ^ 31) :
    create capacity memory = some { memory with capacity := capacity }.clear := by
  have hallocated : allocated capacity = capacity * 16 := by
    change Int.bmod (capacity * 16 % 2 ^ 64 : Nat) (2 ^ 32) = _
    rw [Int.bmod_def]
    split <;> omega
  rw [create, if_neg (by omega)]

structure FitsInt (rm : RollingMedian) : Prop where
  idx : rm.idx < 2 ^ 31
  sz : rm.sz < 2 ^ 31
  doubled : ∀ side, rm.count side * 2 < 2 ^ 31

theorem WellFormed.fitsInt (h : rm.WellFormed) (hsize : rm.capacity * 16 < 2 ^ 31) :
    FitsInt rm := by
  have hidx := h.idx_lt
  have hsz := h.sz_le
  refine ⟨by omega, by omega, ?_⟩
  rintro (_ | _)
  · rw [count, h.minCt_eq]
    omega
  · rw [count, h.maxCt_eq]
    omega

theorem rolling_median_is_window_median (capacity : Nat) (hcapacity : 1 ≤ capacity)
    (hsize : capacity * 16 < 2 ^ 31) (memory : RollingMedian) (ops : List MedianOp)
    (hnonempty : sinceClear ops ≠ []) :
    ∃ rm, create capacity memory = some rm ∧ FitsInt (rm.applyAll ops) ∧
      (rm.applyAll ops).medianOf = median (lastValues capacity (sinceClear ops)) := by
  refine ⟨_, create_eq memory hsize, ?_⟩
  have hstart : Holds capacity [] { memory with capacity := capacity }.clear :=
    clear_holds hcapacity rfl
  have hrun := hstart.applyAll hcapacity ops
  have hlength : 0 < (sinceClear ops).length := length_pos_iff.mpr hnonempty
  refine ⟨hrun.wellFormed.fitsInt (by rwa [hrun.sized]), ?_⟩
  rw [medianOf_eq hrun.wellFormed ?_, hrun.held]
  · rfl
  · rw [← window_length, hrun.held, length_lastValues]
    exact lt_min hcapacity hlength

def blankMemory : RollingMedian := ⟨fun _ => 0, fun _ => 0, fun _ => 0, 0, 0, 0, 0, 0⟩

theorem window_of_three_after_clear :
    sinceClear [.insert 9, .clear, .insert 5, .insert 1, .insert 8, .insert 2] =
        [5, 1, 8, 2] ∧
      ∃ rm, create 3 blankMemory = some rm ∧ FitsInt (rm.applyAll
        [.insert 9, .clear, .insert 5, .insert 1, .insert 8, .insert 2]) ∧
        (rm.applyAll
          [.insert 9, .clear, .insert 5, .insert 1, .insert 8, .insert 2]).medianOf = 2 :=
  ⟨by decide, rolling_median_is_window_median 3 (by decide) (by decide) blankMemory
    [.insert 9, .clear, .insert 5, .insert 1, .insert 8, .insert 2] (by decide)⟩

theorem wide_window_not_allocated :
    allocated (2 ^ 27) = -2 ^ 31 ∧ ∀ memory, create (2 ^ 27) memory = none :=
  ⟨by decide, fun _ => rfl⟩

end RollingMedian
end Jero.Epee
