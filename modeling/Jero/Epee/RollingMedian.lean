import Jero.Lists.Median
import Mathlib.Tactic

namespace Jero.Epee
open Jero.Lists Function

inductive Side where
  | min
  | max
deriving DecidableEq, Repr

namespace Side

def index : Side → Nat → Int
  | .min, k => k
  | .max, k => -k

def before : Side → Nat → Nat → Prop
  | .min, a, b => a < b
  | .max, a, b => b < a

instance : (side : Side) → (a b : Nat) → Decidable (side.before a b)
  | .min, a, b => inferInstanceAs (Decidable (a < b))
  | .max, a, b => inferInstanceAs (Decidable (b < a))

def other : Side → Side
  | .min => .max
  | .max => .min

def room (capacity : Nat) : Side → Nat
  | .min => (capacity - 1) / 2
  | .max => capacity / 2

end Side

structure RollingMedian where
  data : Nat → Nat
  pos : Nat → Int
  heap : Int → Nat
  capacity : Nat
  idx : Nat
  minCt : Nat
  maxCt : Nat
  sz : Nat

namespace RollingMedian
variable (rm : RollingMedian)

def value (i : Int) : Nat := rm.data (rm.heap i)

def mmless (i j : Int) : Bool := decide (rm.value i < rm.value j)

def mmexchange (i j : Int) : RollingMedian :=
  let heap := update (update rm.heap i (rm.heap j)) j (rm.heap i)
  { rm with
    heap := heap
    pos := update (update rm.pos (heap i) i) (heap j) j }

def mmCmpExch (i j : Int) : Bool × RollingMedian :=
  if rm.mmless i j then (true, rm.mmexchange i j) else (false, rm)

def count : Side → Nat
  | .min => rm.minCt
  | .max => rm.maxCt

def grow : Side → RollingMedian
  | .min => { rm with minCt := rm.minCt + 1 }
  | .max => { rm with maxCt := rm.maxCt + 1 }

def siblingFirst : Side → Nat → Bool
  | .min, k => rm.mmless (k + 1) k
  | .max, k => rm.mmless (-k) (-(k + 1))

def cmpExch : Side → Nat → Nat → Bool × RollingMedian
  | .min, child, parent => rm.mmCmpExch child parent
  | .max, child, parent => rm.mmCmpExch (-parent) (-child)

def sortDownFrom (side : Side) : Nat → Nat → RollingMedian → RollingMedian
  | 0, _, rm => rm
  | fuel + 1, i, rm =>
    if i ≤ rm.count side then
      let child := if i < rm.count side ∧ rm.siblingFirst side i then i + 1 else i
      match rm.cmpExch side child (child / 2) with
      | (false, rm) => rm
      | (true, rm) => sortDownFrom side fuel (child * 2) rm
    else rm

def sortDown (side : Side) (i : Nat) : RollingMedian :=
  sortDownFrom side (rm.count side + 1) (i * 2) rm

def sortUpFrom (side : Side) : Nat → Nat → RollingMedian → Bool × RollingMedian
  | 0, i, rm => (decide (i = 0), rm)
  | fuel + 1, i, rm =>
    if 0 < i then
      match rm.cmpExch side i (i / 2) with
      | (false, rm) => (false, rm)
      | (true, rm) => sortUpFrom side fuel (i / 2) rm
    else (true, rm)

def sortUp (side : Side) (i : Nat) : Bool × RollingMedian := sortUpFrom side i i rm

def fillPattern (n : Nat) : Int := ((n + 1) / 2 : Nat) * (if n % 2 = 1 then -1 else 1)

def clearFrom : Nat → RollingMedian → RollingMedian
  | 0, rm => rm
  | n + 1, rm => clearFrom n { rm with
      pos := update rm.pos n (fillPattern n)
      heap := update rm.heap (fillPattern n) n }

def clear : RollingMedian :=
  clearFrom rm.capacity { rm with idx := 0, minCt := 0, maxCt := 0, sz := 0 }

def crossMedian (side : Side) : RollingMedian :=
  match rm.cmpExch side.other 1 0 with
  | (false, rm) => rm
  | (true, rm) => rm.sortDown side.other 1

def raise (side : Side) (p : Nat) : RollingMedian :=
  let (reached, rm) := rm.sortUp side p
  if reached ∧ (side = .min ∨ rm.minCt ≠ 0) then rm.crossMedian side else rm

def insertSide (side : Side) (p v old : Nat) : RollingMedian :=
  if rm.count side < side.room rm.capacity then (rm.grow side).raise side p
  else if side.before old v then rm.sortDown side p
  else rm.raise side p

def settleMedian (side : Side) : RollingMedian :=
  if rm.count side ≠ 0 then
    match rm.sortUp side 1 with
    | (false, rm) => rm
    | (true, rm) => rm.sortDown side 1
  else rm

def store (v : Nat) : RollingMedian :=
  { rm with
    data := update rm.data rm.idx v
    idx := (rm.idx + 1) % rm.capacity
    sz := min (rm.sz + 1) rm.capacity }

def insert (v : Nat) : RollingMedian :=
  let p := rm.pos rm.idx
  let old := rm.data rm.idx
  let stored := rm.store v
  if 0 < p then stored.insertSide .min p.toNat v old
  else if p < 0 then stored.insertSide .max (-p).toNat v old
  else (stored.settleMedian .max).settleMedian .min

def medianOf : Nat :=
  if rm.minCt < rm.maxCt then getMid (rm.value 0) (rm.value (-1)) else rm.value 0

def insertAll (rm : RollingMedian) (values : List Nat) : RollingMedian := values.foldl insert rm

end RollingMedian
namespace Side
variable (side : Side) {a b : Nat}

theorem before_trans {c : Nat} (hab : ¬ side.before b a) (hbc : ¬ side.before c b) :
    ¬ side.before c a := by
  cases side <;> simp only [before] at * <;> omega

theorem not_before_of_before (h : side.before a b) : ¬ side.before b a := by
  cases side <;> simp only [before] at * <;> omega

theorem not_before_self (a : Nat) : ¬ side.before a a := by
  cases side <;> simp [before]

theorem not_before_other (h : ¬ side.before a b) : ¬ side.other.before b a := by
  cases side <;> simpa [other, before] using h

theorem index_zero : side.index 0 = 0 := by
  cases side <;> rfl

theorem index_inj : side.index a = side.index b ↔ a = b := by
  cases side <;> simp [index]

theorem index_ne_other (ha : 0 < a) : side.index a ≠ side.other.index b := by
  cases side <;> simp only [index, other] <;> omega

theorem other_other : side.other.other = side := by
  cases side <;> rfl

end Side
variable {i j : Int} {k child parent : Nat}
namespace RollingMedian
variable {rm rm' rm'' : RollingMedian} {side : Side}

def key (rm : RollingMedian) (side : Side) (k : Nat) : Nat := rm.value (side.index k)

def InHeap (rm : RollingMedian) (i : Int) : Prop := -(rm.maxCt : Int) ≤ i ∧ i ≤ rm.minCt

def InRange (rm : RollingMedian) (i : Int) : Prop :=
  -((rm.capacity / 2 : Nat) : Int) ≤ i ∧ i ≤ ((rm.capacity - 1) / 2 : Nat)

structure Linked (rm : RollingMedian) : Prop where
  pos_range : ∀ k < rm.capacity, rm.InRange (rm.pos k)
  heap_pos : ∀ k < rm.capacity, rm.heap (rm.pos k) = k
  heap_lt : ∀ i, rm.InRange i → rm.heap i < rm.capacity
  pos_heap : ∀ i, rm.InRange i → rm.pos (rm.heap i) = i

structure Rearranged (rm rm' : RollingMedian) : Prop where
  data : rm'.data = rm.data
  capacity : rm'.capacity = rm.capacity
  idx : rm'.idx = rm.idx
  minCt : rm'.minCt = rm.minCt
  maxCt : rm'.maxCt = rm.maxCt
  sz : rm'.sz = rm.sz
  outside : ∀ i, ¬ rm.InHeap i → rm'.heap i = rm.heap i
  linked : (∀ i, rm.InHeap i → rm.InRange i) → rm.Linked → rm'.Linked

theorem Rearranged.refl (rm : RollingMedian) : Rearranged rm rm :=
  ⟨rfl, rfl, rfl, rfl, rfl, rfl, fun _ _ => rfl, fun _ h => h⟩

theorem Rearranged.inHeap (h : Rearranged rm rm') (i : Int) : rm'.InHeap i ↔ rm.InHeap i := by
  rw [InHeap, InHeap, h.minCt, h.maxCt]

theorem Rearranged.inRange (h : Rearranged rm rm') (i : Int) : rm'.InRange i ↔ rm.InRange i := by
  rw [InRange, InRange, h.capacity]

theorem Rearranged.trans (h : Rearranged rm rm') (h' : Rearranged rm' rm'') :
    Rearranged rm rm'' := by
  refine ⟨h'.data.trans h.data, h'.capacity.trans h.capacity, h'.idx.trans h.idx,
    h'.minCt.trans h.minCt, h'.maxCt.trans h.maxCt, h'.sz.trans h.sz, ?_, ?_⟩
  · intro i hi
    rw [h'.outside i (fun hin => hi ((h.inHeap i).mp hin)), h.outside i hi]
  · intro hrange hlinked
    refine h'.linked ?_ (h.linked hrange hlinked)
    intro i hi
    exact (h.inRange i).mpr (hrange i ((h.inHeap i).mp hi))

theorem Rearranged.count (h : Rearranged rm rm') (side : Side) : rm'.count side = rm.count side := by
  cases side
  · exact h.minCt
  · exact h.maxCt

theorem heap_mmexchange (i j q : Int) :
    (rm.mmexchange i j).heap q =
      if q = j then rm.heap i else if q = i then rm.heap j else rm.heap q := by
  simp only [mmexchange, Function.update_apply]

theorem value_mmexchange (i j q : Int) :
    (rm.mmexchange i j).value q =
      if q = j then rm.value i else if q = i then rm.value j else rm.value q := by
  unfold value
  rw [heap_mmexchange]
  split
  · rfl
  · split <;> rfl

theorem linked_mmexchange (hij : i ≠ j) (hi : rm.InRange i) (hj : rm.InRange j) (h : rm.Linked) :
    (rm.mmexchange i j).Linked := by
  have hne : rm.heap i ≠ rm.heap j := by
    intro hsame
    have hpos := congrArg rm.pos hsame
    rw [h.pos_heap i hi, h.pos_heap j hj] at hpos
    exact hij hpos
  have hpos : ∀ k, (rm.mmexchange i j).pos k =
      if k = rm.heap i then j else if k = rm.heap j then i else rm.pos k := by
    intro k
    simp only [mmexchange, Function.update_apply, if_neg hij, if_true]
  refine ⟨?_, ?_, ?_, ?_⟩
  · intro k hk
    rw [hpos]
    split
    · exact hj
    · split
      · exact hi
      · exact h.pos_range k hk
  · intro k hk
    rw [hpos]
    split
    · rename_i hki
      rw [heap_mmexchange, if_pos rfl, hki]
    · rename_i hki
      split
      · rename_i hkj
        rw [heap_mmexchange, if_neg hij, if_pos rfl, hkj]
      · rename_i hkj
        rw [heap_mmexchange]
        have hpj : rm.pos k ≠ j := fun hp => hkj (by rw [← hp, h.heap_pos k hk])
        have hpi : rm.pos k ≠ i := fun hp => hki (by rw [← hp, h.heap_pos k hk])
        rw [if_neg hpj, if_neg hpi, h.heap_pos k hk]
  · intro q hq
    rw [heap_mmexchange]
    split
    · exact h.heap_lt i hi
    · split
      · exact h.heap_lt j hj
      · exact h.heap_lt q hq
  · intro q hq
    rw [hpos, heap_mmexchange]
    split
    · rename_i hqj
      rw [if_pos rfl, hqj]
    · rename_i hqj
      split
      · rename_i hqi
        rw [if_neg hne.symm, if_pos rfl, hqi]
      · rename_i hqi
        have hhi : rm.heap q ≠ rm.heap i := fun hh => hqi (by
          rw [← h.pos_heap q hq, hh, h.pos_heap i hi])
        have hhj : rm.heap q ≠ rm.heap j := fun hh => hqj (by
          rw [← h.pos_heap q hq, hh, h.pos_heap j hj])
        rw [if_neg hhi, if_neg hhj, h.pos_heap q hq]

theorem rearranged_mmexchange (hij : i ≠ j) (hi : rm.InHeap i) (hj : rm.InHeap j) :
    Rearranged rm (rm.mmexchange i j) := by
  refine ⟨rfl, rfl, rfl, rfl, rfl, rfl, ?_, ?_⟩
  · intro q hq
    have hqj : q ≠ j := fun h => hq (h ▸ hj)
    have hqi : q ≠ i := fun h => hq (h ▸ hi)
    rw [heap_mmexchange, if_neg hqj, if_neg hqi]
  · intro hrange
    exact linked_mmexchange hij (hrange i hi) (hrange j hj)

theorem inHeap_index (h : k ≤ rm.count side) : rm.InHeap (side.index k) := by
  cases side
  · change k ≤ rm.minCt at h
    simp only [InHeap, Side.index]
    omega
  · change k ≤ rm.maxCt at h
    simp only [InHeap, Side.index]
    omega

structure Swapped (side : Side) (child parent : Nat) (rm rm' : RollingMedian) : Prop where
  child_key : rm'.key side child = rm.key side parent
  parent_key : rm'.key side parent = rm.key side child
  same : ∀ j, j ≠ child → j ≠ parent → rm'.key side j = rm.key side j
  other : ∀ j, 0 < j → rm'.key side.other j = rm.key side.other j
  rearranged : Rearranged rm rm'

theorem swapped_mmexchange (hlt : parent < child) (hchild : child ≤ rm.count side)
    (hij : (i = side.index child ∧ j = side.index parent) ∨
      (i = side.index parent ∧ j = side.index child)) :
    Swapped side child parent rm (rm.mmexchange i j) := by
  have hne : side.index child ≠ side.index parent := fun h => hlt.ne' (side.index_inj.mp h)
  have hother : ∀ k, 0 < k → side.other.index k ≠ side.index child ∧
      side.other.index k ≠ side.index parent := by
    intro k hk
    have hcross := side.other.index_ne_other (b := child) hk
    have hcross' := side.other.index_ne_other (b := parent) hk
    rw [side.other_other] at hcross hcross'
    exact ⟨hcross, hcross'⟩
  have hparent : parent ≤ rm.count side := (hlt.trans_le hchild).le
  have hswap : (∀ k, (rm.mmexchange i j).value k = if k = side.index child then
      rm.value (side.index parent) else if k = side.index parent then rm.value (side.index child)
      else rm.value k) ∧ Rearranged rm (rm.mmexchange i j) := by
    rcases hij with ⟨rfl, rfl⟩ | ⟨rfl, rfl⟩
    · refine ⟨fun k => ?_, rearranged_mmexchange hne (inHeap_index hchild) (inHeap_index hparent)⟩
      rw [value_mmexchange]
      grind
    · exact ⟨value_mmexchange _ _,
        rearranged_mmexchange hne.symm (inHeap_index hparent) (inHeap_index hchild)⟩
  refine ⟨?_, ?_, ?_, ?_, hswap.2⟩
  · rw [key, hswap.1, if_pos rfl]; rfl
  · rw [key, hswap.1, if_neg hne.symm, if_pos rfl]; rfl
  · intro k hkc hkp
    rw [key, hswap.1, if_neg (fun h => hkc (side.index_inj.mp h)),
      if_neg (fun h => hkp (side.index_inj.mp h))]
    rfl
  · intro k hk
    rw [key, hswap.1, if_neg (hother k hk).1, if_neg (hother k hk).2]
    rfl

theorem cmpExch_cases (side : Side) (hlt : parent < child) (hchild : child ≤ rm.count side) :
    (¬ side.before (rm.key side child) (rm.key side parent) ∧
        rm.cmpExch side child parent = (false, rm)) ∨
      (side.before (rm.key side child) (rm.key side parent) ∧
        ∃ rm', rm.cmpExch side child parent = (true, rm') ∧ Swapped side child parent rm rm') := by
  cases side with
  | min =>
    by_cases h : rm.value (child : Int) < rm.value (parent : Int)
    · refine .inr ⟨h, rm.mmexchange child parent, ?_,
        swapped_mmexchange hlt hchild (.inl ⟨rfl, rfl⟩)⟩
      simp [cmpExch, mmCmpExch, mmless, h]
    · exact .inl ⟨h, by simp [cmpExch, mmCmpExch, mmless, h]⟩
  | max =>
    by_cases h : rm.value (-(parent : Int)) < rm.value (-(child : Int))
    · refine .inr ⟨h, rm.mmexchange (-parent) (-child), ?_,
        swapped_mmexchange hlt hchild (.inr ⟨rfl, rfl⟩)⟩
      simp [cmpExch, mmCmpExch, mmless, h]
    · exact .inl ⟨h, by simp [cmpExch, mmCmpExch, mmless, h]⟩

theorem siblingFirst_iff (k : Nat) :
    rm.siblingFirst side k = true ↔ side.before (rm.key side (k + 1)) (rm.key side k) := by
  cases side
  · exact decide_eq_true_iff
  · exact decide_eq_true_iff

def Ordered (rm : RollingMedian) (side : Side) : Prop :=
  ∀ j, 0 < j → j ≤ rm.count side → ¬ side.before (rm.key side j) (rm.key side (j / 2))

structure DownOrder (rm : RollingMedian) (side : Side) (k : Nat) : Prop where
  off : ∀ j, 0 < j → j ≤ rm.count side → j / 2 ≠ k →
    ¬ side.before (rm.key side j) (rm.key side (j / 2))
  grand : ∀ j, 0 < j → j ≤ rm.count side → j / 2 = k →
    ¬ side.before (rm.key side j) (rm.key side (k / 2))

structure UpOrder (rm : RollingMedian) (side : Side) (k : Nat) : Prop where
  off : ∀ j, 0 < j → j ≤ rm.count side → j ≠ k → ¬ side.before (rm.key side j) (rm.key side (j / 2))
  grand : ∀ j, 0 < j → j ≤ rm.count side → j / 2 = k →
    ¬ side.before (rm.key side j) (rm.key side (k / 2))

structure Touched (side : Side) (k : Nat) (rm rm' : RollingMedian) : Prop where
  below : ∀ j < k, rm'.key side j = rm.key side j
  other : ∀ j, 0 < j → rm'.key side.other j = rm.key side.other j
  rearranged : Rearranged rm rm'

theorem Touched.refl (side : Side) (k : Nat) (rm : RollingMedian) : Touched side k rm rm :=
  ⟨fun _ _ => rfl, fun _ _ => rfl, .refl rm⟩

theorem Touched.trans {c : Nat} (hkc : k ≤ c) (h : Touched side k rm rm')
    (h' : Touched side c rm' rm'') : Touched side k rm rm'' := by
  refine ⟨?_, ?_, h.rearranged.trans h'.rearranged⟩
  · intro j hj
    rw [h'.below j (hj.trans_le hkc), h.below j hj]
  · intro j hj
    rw [h'.other j hj, h.other j hj]

theorem Swapped.touched (hlt : parent < child) (h : Swapped side child parent rm rm') :
    Touched side parent rm rm' := by
  refine ⟨?_, h.other, h.rearranged⟩
  intro j hj
  exact h.same j (hj.trans hlt).ne hj.ne

def smallerChild (rm : RollingMedian) (side : Side) (i : Nat) : Nat :=
  if i < rm.count side ∧ rm.siblingFirst side i then i + 1 else i

theorem smallerChild_spec (hk : k * 2 ≤ rm.count side) :
    rm.smallerChild side (k * 2) / 2 = k ∧ rm.smallerChild side (k * 2) ≤ rm.count side ∧
      ∀ j, j ≤ rm.count side → j / 2 = k →
        ¬ side.before (rm.key side j) (rm.key side (rm.smallerChild side (k * 2))) := by
  unfold smallerChild
  split
  · rename_i h
    refine ⟨by omega, h.1, ?_⟩
    intro j _ hjk
    have hfirst := (siblingFirst_iff (k * 2)).mp h.2
    rcases (show j = k * 2 ∨ j = k * 2 + 1 by omega) with rfl | rfl
    · exact side.not_before_of_before hfirst
    · exact side.not_before_self _
  · rename_i h
    refine ⟨by omega, hk, ?_⟩
    intro j hj hjk
    rcases (show j = k * 2 ∨ j = k * 2 + 1 by omega) with rfl | rfl
    · exact side.not_before_self _
    · intro hbefore
      exact h ⟨hj, (siblingFirst_iff (k * 2)).mpr hbefore⟩

theorem DownOrder.swapped {c : Nat} (hk : 0 < k) (hck : c / 2 = k) (h : rm.DownOrder side k)
    (hc : c ≤ rm.count side)
    (hleast : ∀ j, j ≤ rm.count side → j / 2 = k → ¬ side.before (rm.key side j) (rm.key side c))
    (hbefore : side.before (rm.key side c) (rm.key side k)) (hswap : Swapped side c k rm rm') :
    rm'.DownOrder side c := by
  have hcount := hswap.rearranged.count side
  refine ⟨?_, ?_⟩
  · intro j hj hjct hjc
    rw [hcount] at hjct
    by_cases hjeq : j = c
    · rw [hjeq, hck, hswap.child_key, hswap.parent_key]
      exact side.not_before_of_before hbefore
    · by_cases hjk : j = k
      · rw [hjk, hswap.parent_key, hswap.same (k / 2) (by omega) (by omega)]
        exact h.grand c (by omega) hc hck
      · rw [hswap.same j hjeq hjk]
        by_cases hsibling : j / 2 = k
        · rw [hsibling, hswap.parent_key]
          exact hleast j hjct hsibling
        · rw [hswap.same (j / 2) hjc hsibling]
          exact h.off j hj hjct hsibling
  · intro j hj hjct hjc
    rw [hcount] at hjct
    rw [hck, hswap.parent_key, hswap.same j (by omega) (by omega)]
    have hchild := h.off j hj hjct (by omega)
    rwa [hjc] at hchild

theorem DownOrder.ordered (h : rm.DownOrder side k)
    (hchildren : ∀ j, 0 < j → j ≤ rm.count side → j / 2 = k →
      ¬ side.before (rm.key side j) (rm.key side k)) : rm.Ordered side := by
  intro j hj hjct
  by_cases hjk : j / 2 = k
  · rw [hjk]
    exact hchildren j hj hjct hjk
  · exact h.off j hj hjct hjk

theorem sortDownFrom_spec {fuel : Nat} (hk : 0 < k) (h : rm.DownOrder side k)
    (hfuel : rm.count side < k * 2 + fuel) :
    (sortDownFrom side fuel (k * 2) rm).Ordered side ∧
      Touched side k rm (sortDownFrom side fuel (k * 2) rm) := by
  induction fuel generalizing k rm with
  | zero => exact ⟨h.ordered (fun j _ _ _ => by omega), .refl side k rm⟩
  | succ fuel ih =>
    rw [sortDownFrom]
    by_cases hmore : k * 2 ≤ rm.count side
    · rw [if_pos hmore]
      obtain ⟨hparent, hct, hleast⟩ := smallerChild_spec hmore
      have hchild : (if k * 2 < rm.count side ∧ rm.siblingFirst side (k * 2) = true then k * 2 + 1
          else k * 2) = rm.smallerChild side (k * 2) := rfl
      simp only [hchild]
      generalize rm.smallerChild side (k * 2) = c at hparent hct hleast
      rcases cmpExch_cases side (show k < c by omega) hct with
        ⟨hstop, heq⟩ | ⟨hbefore, rm', heq, hswap⟩
      · rw [hparent, heq]
        refine ⟨h.ordered ?_, .refl side k rm⟩
        intro j _ hj hjk
        exact side.before_trans hstop (hleast j hj hjk)
      · rw [hparent, heq]
        have hdown := h.swapped hk hparent hct hleast hbefore hswap
        have hcount := hswap.rearranged.count side
        obtain ⟨hordered, htouched⟩ := ih (show 0 < c by omega) hdown (by omega)
        exact ⟨hordered, (hswap.touched (by omega)).trans (by omega) htouched⟩
    · rw [if_neg hmore]
      exact ⟨h.ordered (fun j _ _ _ => by omega), .refl side k rm⟩

theorem sortDown_spec (hk : 0 < k) (h : rm.DownOrder side k) :
    (rm.sortDown side k).Ordered side ∧ Touched side k rm (rm.sortDown side k) :=
  sortDownFrom_spec hk h (by omega)

section
variable (h : rm.UpOrder side k) (hbefore : side.before (rm.key side k) (rm.key side (k / 2)))
  (hswap : Swapped side k (k / 2) rm rm')
include h hbefore hswap

theorem UpOrder.swapped_off (j : Nat) (hj : 0 < j) (hjct : j ≤ rm.count side) (hjne : j ≠ k / 2) :
    ¬ side.before (rm'.key side j) (rm'.key side (j / 2)) := by
  by_cases hjk : j = k
  · rw [hjk, hswap.child_key, hswap.parent_key]
    exact side.not_before_of_before hbefore
  · rw [hswap.same j hjk hjne]
    by_cases hchild : j / 2 = k
    · rw [hchild, hswap.child_key]
      exact h.grand j hj hjct hchild
    · by_cases hsibling : j / 2 = k / 2
      · have hold := h.off j hj hjct hjk
        rw [hsibling] at hold
        rw [hsibling, hswap.parent_key]
        exact side.before_trans (side.not_before_of_before hbefore) hold
      · rw [hswap.same (j / 2) hchild hsibling]
        exact h.off j hj hjct hjk

theorem UpOrder.swapped (hk : 0 < k / 2) (hkct : k ≤ rm.count side) : rm'.UpOrder side (k / 2) := by
  have hcount := hswap.rearranged.count side
  have hup : ¬ side.before (rm.key side (k / 2)) (rm.key side (k / 2 / 2)) :=
    h.off (k / 2) hk (by omega) (by omega)
  refine ⟨fun j hj hjct => h.swapped_off hbefore hswap j hj (hcount ▸ hjct), ?_⟩
  intro j hj hjct hjk
  rw [hcount] at hjct
  rw [hswap.same (k / 2 / 2) (by omega) (by omega)]
  by_cases hjeq : j = k
  · rw [hjeq, hswap.child_key]
    exact hup
  · have hold := h.off j hj hjct hjeq
    rw [hjk] at hold
    rw [hswap.same j hjeq (by omega)]
    exact side.before_trans hup hold

end

theorem UpOrder.ordered (h : rm.UpOrder side k)
    (hstop : ¬ side.before (rm.key side k) (rm.key side (k / 2))) : rm.Ordered side := by
  intro j hj hjct
  by_cases hjk : j = k
  · rw [hjk]
    exact hstop
  · exact h.off j hj hjct hjk

structure Raised (side : Side) (rm : RollingMedian) (r : Bool × RollingMedian) : Prop where
  ordered : r.2.Ordered side
  other : ∀ j, 0 < j → r.2.key side.other j = rm.key side.other j
  rearranged : Rearranged rm r.2
  kept : r.1 = false → r.2.key side 0 = rm.key side 0
  reached : r.1 = true → r.2.key side 1 = rm.key side 0 ∧
    side.before (r.2.key side 0) (rm.key side 0)

theorem sortUpFrom_spec {fuel : Nat} (hk : 0 < k) (hkct : k ≤ rm.count side) (hfuel : k ≤ fuel)
    (h : rm.UpOrder side k) : Raised side rm (sortUpFrom side fuel k rm) := by
  induction fuel generalizing k rm with
  | zero => omega
  | succ fuel ih =>
    rw [sortUpFrom, if_pos hk]
    rcases cmpExch_cases side (show k / 2 < k by omega) hkct with
      ⟨hstop, heq⟩ | ⟨hbefore, rm', heq, hswap⟩
    · rw [heq]
      exact ⟨h.ordered hstop, fun _ _ => rfl, .refl rm, fun _ => rfl, fun hr => by cases hr⟩
    · rw [heq]
      have hcount := hswap.rearranged.count side
      by_cases hroot : 0 < k / 2
      · obtain ⟨hordered, hother, hrearranged, hkept, hreached⟩ :=
          ih hroot (by omega) (by omega) (h.swapped hbefore hswap hroot hkct)
        have hmedian : rm'.key side 0 = rm.key side 0 := hswap.same 0 (by omega) (by omega)
        rw [hmedian] at hkept hreached
        exact ⟨hordered, fun j hj => (hother j hj).trans (hswap.other j hj),
          hswap.rearranged.trans hrearranged, hkept, hreached⟩
      · have hone : k = 1 := by omega
        subst hone
        have hdone : sortUpFrom side fuel (1 / 2) rm' = (true, rm') := by
          cases fuel <;> rfl
        simp only [hdone]
        refine ⟨?_, hswap.other, hswap.rearranged, (fun hr => by cases hr), fun _ => ?_⟩
        · intro j hj hjct
          exact h.swapped_off hbefore hswap j hj (hcount ▸ hjct) (by omega)
        · exact ⟨hswap.child_key, hswap.parent_key.symm ▸ hbefore⟩

def OrderedBelow (rm : RollingMedian) (side : Side) : Prop :=
  ∀ j, 1 < j → j ≤ rm.count side → ¬ side.before (rm.key side j) (rm.key side (j / 2))

theorem Ordered.below (h : rm.Ordered side) : rm.OrderedBelow side :=
  fun j hj => h j (Nat.zero_lt_of_lt hj)

theorem OrderedBelow.root_first (h : rm.OrderedBelow side) {j : Nat} (hj : 0 < j)
    (hjct : j ≤ rm.count side) : ¬ side.before (rm.key side j) (rm.key side 1) := by
  induction j using Nat.strong_induction_on with
  | _ j ih =>
    by_cases hone : j = 1
    · rw [hone]
      exact side.not_before_self _
    · exact side.before_trans (ih (j / 2) (by omega) (by omega) (by omega))
        (h j (by omega) hjct)

theorem OrderedBelow.ordered (h : rm.OrderedBelow side)
    (hroot : 0 < rm.count side → ¬ side.before (rm.key side 1) (rm.key side 0)) :
    rm.Ordered side := by
  intro j hj hjct
  by_cases hone : j = 1
  · subst hone
    exact hroot hjct
  · exact h j (by omega) hjct

theorem Ordered.median_first (h : rm.Ordered side) {j : Nat} (hj : 0 < j)
    (hjct : j ≤ rm.count side) : ¬ side.before (rm.key side j) (rm.key side 0) :=
  side.before_trans (h 1 Nat.one_pos (by omega)) (h.below.root_first hj hjct)

end RollingMedian
end Jero.Epee
