import Jero.Ringct.MultiexpSum
import Jero.Ringct.Simple

namespace Jero.Ringct
open List MultiexpData
variable {E : Type}

structure MaxHeap (E : Type) where
  pop : List (MultiexpData E) → MultiexpData E × List (MultiexpData E)
  perm : ∀ {heap}, heap ≠ [] → heap.Perm ((pop heap).1 :: (pop heap).2)
  max : ∀ {heap d}, d ∈ heap → d.scalar ≤ (pop heap).1.scalar

def scSub (a b : Nat) : Nat := (a + groupOrder - b) % groupOrder

variable [AddCommGroup E]

def bosCosterHalve (second : Nat) (d : MultiexpData E) (heap : List (MultiexpData E)) :
    MultiexpData E × List (MultiexpData E) :=
  if second < d.scalar / 2 then
    bosCosterHalve second ⟨d.scalar / 2, d.point + d.point⟩
      (if d.scalar % 2 = 1 then ⟨1, d.point⟩ :: heap else heap)
  else (d, heap)
termination_by d.scalar
decreasing_by omega

def bosCosterStep (h : MaxHeap E) (heap : List (MultiexpData E)) : List (MultiexpData E) :=
  let (first, heap) := h.pop heap
  let (second, heap) := h.pop heap
  let (first, heap) := bosCosterHalve second.scalar first heap
  let rest := scSub first.scalar second.scalar
  ⟨second.scalar, second.point + first.point⟩ ::
    if rest = 0 then heap else ⟨rest, first.point⟩ :: heap

def bosCosterLoop (h : MaxHeap E) : Nat → List (MultiexpData E) → Except String E
  | 0, _ => .error "out of fuel"
  | fuel + 1, heap =>
    if heap.length > 1 then bosCosterLoop h fuel (bosCosterStep h heap)
    else .ok ((h.pop heap).1.scalar • (h.pop heap).1.point)

def bosCosterHeapConvRobust [DecidableEq E] (h : MaxHeap E) (data : List (MultiexpData E)) :
    Except String E :=
  if data.length = 0 then .error "Not enough points"
  else
    let heap := data.filter fun d => d.scalar ≠ 0 ∧ d.point ≠ 0
    if heap.length = 0 then .ok 0
    else if heap.length < 2 then .ok ((h.pop heap).1.scalar • (h.pop heap).1.point)
    else bosCosterLoop h ((heap.map scalar).sum + 1) heap

def InRange (heap : List (MultiexpData E)) : Prop :=
  ∀ d ∈ heap, 0 < d.scalar ∧ d.scalar < groupOrder

structure SameSum (drop : Nat) (heap heap' : List (MultiexpData E)) : Prop where
  sum : dataSum heap' = dataSum heap
  total : (heap'.map scalar).sum + drop ≤ (heap.map scalar).sum
  range : InRange heap → InRange heap'

variable {heap heap' : List (MultiexpData E)} {d first second : MultiexpData E}

theorem SameSum.trans {drop : Nat} {heap'' : List (MultiexpData E)} (h : SameSum 0 heap heap')
    (h' : SameSum drop heap' heap'') : SameSum drop heap heap'' :=
  ⟨h'.sum.trans h.sum, h'.total.trans h.total, fun hrange => h'.range (h.range hrange)⟩

theorem sameSum_perm (h : heap.Perm heap') : SameSum 0 heap heap' :=
  ⟨(h.map _).sum_eq.symm, (h.map _).sum_eq.ge, fun hrange d hd => hrange d (h.mem_iff.mpr hd)⟩

theorem SameSum.cons (h : SameSum 0 heap heap') : SameSum 0 (d :: heap) (d :: heap') := by
  refine ⟨?_, ?_, ?_⟩
  · simpa [dataSum] using h.sum
  · simpa using h.total
  · intro hrange
    obtain ⟨hd, hheap⟩ := forall_mem_cons.mp hrange
    exact forall_mem_cons.mpr ⟨hd, h.range hheap⟩

theorem sameSum_halve (hd : 2 ≤ d.scalar) :
    SameSum 0 (d :: heap) (⟨d.scalar / 2, d.point + d.point⟩ ::
      if d.scalar % 2 = 1 then ⟨1, d.point⟩ :: heap else heap) := by
  have hhalf : d.scalar • d.point = (d.scalar / 2) • (d.point + d.point) +
      (d.scalar % 2) • d.point := by
    rw [← two_nsmul, ← mul_nsmul', ← add_nsmul, Nat.div_add_mod']
  have hone : 1 < groupOrder := by decide
  split
  case isTrue hodd =>
    refine ⟨?_, ?_, ?_⟩
    · simp [dataSum, hhalf, hodd, add_assoc]
    · simp
      omega
    · simp [InRange]
      grind
  case isFalse heven =>
    refine ⟨?_, ?_, ?_⟩
    · simp [dataSum, hhalf, Nat.mod_two_ne_one.mp heven]
    · simp
      omega
    · simp [InRange]
      grind

theorem bosCosterHalve_spec {second : Nat} (hle : second ≤ d.scalar) :
    second ≤ (bosCosterHalve second d heap).1.scalar ∧ SameSum 0 (d :: heap)
      ((bosCosterHalve second d heap).1 :: (bosCosterHalve second d heap).2) := by
  fun_induction bosCosterHalve second d heap with
  | case1 d heap hlt ih =>
    obtain ⟨hbound, hsame⟩ := ih (by simp only; omega)
    exact ⟨hbound, (sameSum_halve (by omega)).trans hsame⟩
  | case2 d heap hstop => exact ⟨hle, rfl, le_rfl, id⟩

theorem sameSum_subtract (hle : second.scalar ≤ first.scalar) (hlt : first.scalar < groupOrder) :
    SameSum second.scalar (second :: first :: heap) (⟨second.scalar, second.point + first.point⟩ ::
      if scSub first.scalar second.scalar = 0 then heap
      else ⟨scSub first.scalar second.scalar, first.point⟩ :: heap) := by
  have hsub : scSub first.scalar second.scalar = first.scalar - second.scalar := by
    rw [scSub, show first.scalar + groupOrder - second.scalar =
      first.scalar - second.scalar + groupOrder by omega, Nat.add_mod_right,
      Nat.mod_eq_of_lt (by omega)]
  have hpoint : first.scalar • first.point = second.scalar • first.point +
      (first.scalar - second.scalar) • first.point := by
    rw [← add_nsmul, Nat.add_sub_cancel' hle]
  rw [hsub]
  split
  case isTrue hzero =>
    rw [hzero, zero_nsmul, add_zero] at hpoint
    refine ⟨?_, ?_, ?_⟩
    · simp [dataSum, hpoint, add_assoc]
    · simp
      omega
    · simp [InRange]
      grind
  case isFalse hrest =>
    refine ⟨?_, ?_, ?_⟩
    · simp [dataSum, hpoint, add_assoc]
    · simp
      omega
    · simp [InRange]
      grind

theorem pop_single (h : MaxHeap E) (hone : heap.length = 1) :
    (h.pop heap).1.scalar • (h.pop heap).1.point = dataSum heap := by
  have hpop := h.perm (ne_nil_of_length_eq_add_one hone)
  rw [← (sameSum_perm hpop).sum]
  have hrest : (h.pop heap).2 = [] := by
    rw [hpop.length_eq] at hone
    simpa using hone
  simp [dataSum, hrest]

theorem bosCosterLoop_eq (h : MaxHeap E) {fuel : Nat} (hne : heap ≠ []) (hrange : InRange heap)
    (hfuel : (heap.map scalar).sum < fuel) : bosCosterLoop h fuel heap = .ok (dataSum heap) := by
  induction fuel generalizing heap with
  | zero => omega
  | succ fuel ih =>
    rw [bosCosterLoop]
    split
    case isTrue hmany =>
      have hstep : SameSum 1 heap (bosCosterStep h heap) := by
        have hfirst := h.perm (ne_nil_of_length_pos (by omega : 0 < heap.length))
        have hsecond := @h.perm (h.pop heap).2 (by
          rintro hnil
          rw [hfirst.length_eq, hnil] at hmany
          simp at hmany)
        have hboth := (hfirst.trans (hsecond.cons _)).trans (.swap _ _ _)
        have hmem : (h.pop (h.pop heap).2).1 ∈ heap := hboth.mem_iff.mpr mem_cons_self
        obtain ⟨hbound, hsame⟩ := @bosCosterHalve_spec E _ (h.pop (h.pop heap).2).2 _ _ (h.max hmem)
        have hhalved := (sameSum_perm hboth).trans (hsame.cons)
        have hfinal := hhalved.trans (sameSum_subtract hbound
          (hhalved.range hrange _ (mem_cons_of_mem _ mem_cons_self)).2)
        exact ⟨hfinal.sum, (Nat.add_le_add_left (hrange _ hmem).1 _).trans hfinal.total,
          hfinal.range⟩
      have htotal := hstep.total
      rw [@ih (bosCosterStep h heap) (cons_ne_nil _ _) (hstep.range hrange) (by omega), hstep.sum]
    case isFalse hfew =>
      have hpos := length_pos_of_ne_nil hne
      rw [pop_single h (by omega)]

theorem bosCoster_eq [DecidableEq E] (h : MaxHeap E) {data : List (MultiexpData E)}
    (hne : data ≠ []) (hrange : ∀ d ∈ data, d.scalar < groupOrder) :
    bosCosterHeapConvRobust h data = .ok (dataSum data) := by
  have hkept : dataSum (data.filter fun d => d.scalar ≠ 0 ∧ d.point ≠ 0) = dataSum data := by
    clear hne hrange
    induction data with
    | nil => rfl
    | cons d data ih =>
      rw [filter_cons]
      split
      case isTrue => simpa [dataSum] using ih
      case isFalse hzero =>
        have hterm : d.scalar • d.point = 0 := by
          by_cases hscalar : d.scalar = 0
          · rw [hscalar, zero_nsmul]
          · simp_all
        simpa [dataSum, hterm] using ih
  rw [bosCosterHeapConvRobust, if_neg (by simpa using hne)]
  simp only
  split
  case isTrue hnone => rw [← hkept, length_eq_zero_iff.mp hnone]; rfl
  case isFalse hsome =>
    split
    case isTrue hfew => rw [pop_single h (by omega), hkept]
    case isFalse hmany =>
      rw [bosCosterLoop_eq h (by simpa using hsome) ?_ (Nat.lt_succ_self _), hkept]
      intro d hd
      obtain ⟨hmem, hnz⟩ := mem_filter.mp hd
      exact ⟨Nat.pos_of_ne_zero (by simpa using (by simpa using hnz : _ ∧ _).1), hrange d hmem⟩

theorem multiexp_algorithms_agree [DecidableEq E] (h : MaxHeap E) {data : List (MultiexpData E)}
    (hrange : ∀ d ∈ data, d.scalar < groupOrder) :
    (∀ cache step, (∀ points, cache = some points → data.length ≤ points.length ∧
        CacheCovers points data.length data) → straus data cache step = .ok (dataSum data)) ∧
      (∀ cache cacheSize c, 1 ≤ c → c ≤ 9 → (∀ points, cache = some points →
        cacheSize ≤ points.length ∧
          CacheCovers points (if cacheSize = 0 then points.length else cacheSize) data) →
        pippenger data cache cacheSize c = .ok (dataSum data)) ∧
      (data ≠ [] → bosCosterHeapConvRobust h data = .ok (dataSum data)) := by
  have hbits : ∀ d ∈ data, d.scalar < 2 ^ keyBits :=
    fun d hd => (hrange d hd).trans (by decide)
  refine ⟨?_, ?_, fun hne => bosCoster_eq h hne hrange⟩
  · intro cache step hcache
    exact straus_eq step hbits (fun p hp => (hcache p hp).1) fun p hp => (hcache p hp).2
  · intro cache cacheSize c _ hc hcache
    exact pippenger_eq hbits hc (fun p hp => (hcache p hp).1) fun p hp => (hcache p hp).2

open Classical in
noncomputable def argmaxHeap : MaxHeap Int where
  pop heap := (heap.argmax scalar).elim (⟨0, 0⟩, []) fun d => (d, heap.erase d)
  perm := by
    intro heap hne
    cases hmax : heap.argmax scalar with
    | none => exact absurd (argmax_eq_none.mp hmax) hne
    | some d => exact perm_cons_erase (argmax_mem hmax)
  max := by
    intro heap d hd
    cases hmax : heap.argmax scalar with
    | none => exact absurd (argmax_eq_none.mp hmax) (ne_nil_of_mem hd)
    | some m => exact le_of_mem_argmax hd hmax

def integerData : List (MultiexpData Int) := [⟨5, 3⟩, ⟨7, -2⟩, ⟨20, 1⟩]

theorem integers_agree :
    straus integerData (some [3, -2, 1]) 2 = .ok 21 ∧
      pippenger integerData (some [3, -2, 1]) 0 2 = .ok 21 ∧
      bosCosterHeapConvRobust argmaxHeap integerData = .ok 21 := by
  have hagree := multiexp_algorithms_agree argmaxHeap
    (show ∀ d ∈ integerData, d.scalar < groupOrder by decide)
  refine ⟨hagree.1 _ _ ?_, hagree.2.1 _ _ _ (by decide) (by decide) ?_,
    hagree.2.2 (by simp [integerData])⟩
  · rintro points ⟨⟩
    exact ⟨le_rfl, cacheCovers_self integerData _⟩
  · rintro points ⟨⟩
    exact ⟨Nat.zero_le _, cacheCovers_self integerData _⟩

end Jero.Ringct
