import Jero.Machine.Word

namespace Jero.Common
open Jero.Machine List

structure Combinator (T : Type) where
  combinations : List (List T)
  current : List Nat
deriving DecidableEq, Repr

variable {T : Type} {n k : Nat}
namespace Combinator

def pick (origin : List T) (indices : List Nat) : List T := indices.filterMap (origin[·]?)

def emit (origin : List T) (st : Combinator T) : Combinator T :=
  { st with combinations := st.combinations ++ [pick origin st.current] }

def level (size k : Nat) (visit : Nat → Combinator T → Combinator T) (start : Nat)
    (st : Combinator T) : Combinator T :=
  let st := (range' start (size - k + 1 - start)).foldl
    (fun st i => visit i { st with current := st.current.dropLast ++ [i] })
    { st with current := st.current ++ [0] }
  { st with current := st.current.dropLast }

def doCombine (origin : List T) : Nat → Nat → Combinator T → Combinator T
  | 0 => level origin.length 0 fun _ => emit origin
  | 1 => level origin.length 1 fun _ => emit origin
  | k + 2 => level origin.length (k + 2) fun i => doCombine origin (k + 1) (i + 1)

def combine (origin : List T) (k : Nat) : Except String (List (List T)) := do
  check (k ≤ origin.length) "k must be smaller than elements number"
  check (k ≠ 0) "k must be greater than zero"
  .ok (doCombine origin k 0 ⟨[], []⟩).combinations

def grown (st : Combinator T) (found : List (List T)) : Combinator T :=
  { st with combinations := st.combinations ++ found }

end Combinator

def countStep (st : Nat × Nat) (i : Nat) : Nat × Nat := (wrap (st.1 * st.2) / i, st.2 - 1)

def countState (k n : Nat) : Nat × Nat := (range' 1 k).foldl countStep (1, n)

def combinationsCount (k n : Nat) : Except String Nat :=
  if k > n then .error "k must not be greater than n" else .ok (countState k n).1

def tuples (n : Nat) : Nat → Nat → List (List Nat)
  | 0, _ => [[]]
  | k + 1, start =>
    (range' start (n - (k + 1) + 1 - start)).flatMap fun i => (tuples n k (i + 1)).map (i :: ·)

open Combinator

theorem level_grown {visit : Nat → Combinator T → Combinator T}
    (found : Nat → List Nat → List (List T))
    (h : ∀ i st, visit i st = st.grown (found i st.current)) (size k start : Nat)
    (st : Combinator T) :
    level size k visit start st = st.grown ((range' start (size - k + 1 - start)).flatMap
      fun i => found i (st.current ++ [i])) := by
  have hloop : ∀ (l : List Nat) (combinations : List (List T)) (last : Nat), ∃ last',
      l.foldl (fun st i => visit i { st with current := st.current.dropLast ++ [i] })
        ⟨combinations, st.current ++ [last]⟩ =
      ⟨combinations ++ l.flatMap fun i => found i (st.current ++ [i]), st.current ++ [last']⟩ := by
    intro l
    induction l with
    | nil => exact fun combinations last => ⟨last, by simp⟩
    | cons i l ih =>
      intro combinations last
      obtain ⟨last', hrest⟩ := ih (combinations ++ found i (st.current ++ [i])) i
      refine ⟨last', ?_⟩
      rw [foldl_cons, h, dropLast_concat, flatMap_cons, ← append_assoc]
      exact hrest
  obtain ⟨last, hrun⟩ := hloop (range' start (size - k + 1 - start)) st.combinations 0
  rw [level, hrun, dropLast_concat]
  rfl

theorem doCombine_grown (origin : List T) (k start : Nat) (st : Combinator T) :
    doCombine origin (k + 1) start st = st.grown ((tuples origin.length (k + 1) start).map
      fun t => pick origin (st.current ++ t)) := by
  induction k generalizing start st with
  | zero =>
    rw [zero_add, doCombine, @level_grown _ (fun _ => emit origin)
      (fun _ current => [pick origin current]) fun _ _ => rfl]
    simp [tuples, flatMap_def, map_flatten, Function.comp_def]
  | succ k ih =>
    rw [doCombine, level_grown (fun i current => (tuples origin.length (k + 1) (i + 1)).map
      fun t => pick origin (current ++ t)) fun i st => ih (i + 1) st]
    simp [tuples, flatMap_def, map_flatten, Function.comp_def]

theorem mem_tuples (hk : k ≤ n) {start : Nat} {t : List Nat} :
    t ∈ tuples n k start ↔
      t.length = k ∧ t.Pairwise (· < ·) ∧ ∀ i ∈ t, start ≤ i ∧ i < n := by
  induction k generalizing start t with
  | zero =>
    rw [tuples, mem_singleton]
    constructor
    · rintro rfl
      exact ⟨rfl, .nil, nofun⟩
    · exact fun h => length_eq_zero_iff.mp h.1
  | succ k ih =>
    rw [tuples, mem_flatMap]
    constructor
    · rintro ⟨i, hi, ht⟩
      obtain ⟨t, htail, rfl⟩ := mem_map.mp ht
      obtain ⟨hlen, hsorted, hrange⟩ := (ih (by omega)).mp htail
      have hi := mem_range'_1.mp hi
      refine ⟨congrArg (· + 1) hlen, pairwise_cons.mpr ⟨fun j hj => (hrange j hj).1, hsorted⟩,
        forall_mem_cons.mpr ⟨by omega, fun j hj => ?_⟩⟩
      have hj := hrange j hj
      omega
    · rintro ⟨hlen, hsorted, hrange⟩
      cases t with
      | nil => cases hlen
      | cons i t =>
        obtain ⟨hlt, hsorted⟩ := pairwise_cons.mp hsorted
        obtain ⟨hi, hrange⟩ := forall_mem_cons.mp hrange
        have hlen : t.length = k := Nat.succ.inj hlen
        have hroom : t.length ≤ (range' (i + 1) (n - (i + 1))).length :=
          (subperm_of_subset (hsorted.imp Nat.ne_of_lt) fun j hj => mem_range'_1.mpr (by
            have hfirst := hlt j hj
            have hlast := (hrange j hj).2
            omega)).length_le
        rw [length_range'] at hroom
        refine ⟨i, mem_range'_1.mpr (by omega), mem_map.mpr ⟨t, (ih (by omega)).mpr ⟨hlen, hsorted,
          fun j hj => ⟨hlt j hj, (hrange j hj).2⟩⟩, rfl⟩⟩

theorem tuples_sorted (n k start : Nat) : (tuples n k start).Pairwise (List.Lex (· < ·)) := by
  induction k generalizing start with
  | zero => exact pairwise_singleton _ _
  | succ k ih =>
    rw [tuples, pairwise_flatMap]
    constructor
    · intro i _
      exact pairwise_map.mpr ((ih (i + 1)).imp .cons)
    · refine (pairwise_lt_range' (s := start)).imp ?_
      intro i j hij x hx y hy
      obtain ⟨s, -, rfl⟩ := mem_map.mp hx
      obtain ⟨t, -, rfl⟩ := mem_map.mp hy
      exact .rel hij

theorem length_tuples (hk : k ≤ n) (start : Nat) :
    (tuples n k start).length = (n - start).choose k := by
  induction k generalizing start with
  | zero => exact (Nat.choose_zero_right _).symm
  | succ k ih =>
    have hsum : ∀ m start, n - (k + 1) + 1 - start = m →
        ((range' start m).map fun i => (n - (i + 1)).choose k).sum =
          (n - start).choose (k + 1) := by
      intro m
      induction m with
      | zero =>
        intro start h
        exact (Nat.choose_eq_zero_of_lt (by omega)).symm
      | succ m ihm =>
        intro start h
        have hpascal : n - start = n - (start + 1) + 1 := by omega
        rw [range'_succ, map_cons, sum_cons, ihm (start + 1) (by omega), hpascal,
          Nat.choose_succ_succ]
    rw [tuples, length_flatMap, ← hsum _ start rfl]
    simp only [length_map, ih (show k ≤ n by omega)]

theorem choose_mul_lt (hn : n ≤ 62) (i : Nat) : n.choose i * (n - i) < 2 ^ 64 := by
  calc n.choose i * (n - i) ≤ Nat.choose 62 i * (62 - i) :=
        Nat.mul_le_mul (Nat.choose_le_choose i hn) (by omega)
    _ = Nat.choose 61 i * 62 := (Nat.choose_mul_succ_eq 61 i).symm
    _ ≤ Nat.choose 61 30 * 62 := Nat.mul_le_mul_right 62 (Nat.choose_le_middle i 61)
    _ < 2 ^ 64 := by
      rw [Nat.choose_eq_descFactorial_div_factorial]
      decide +kernel

theorem countState_eq (hn : n ≤ 62) (hk : k ≤ n) : countState k n = (n.choose k, n - k) := by
  induction k with
  | zero => exact congrArg (·, n) (Nat.choose_zero_right n).symm
  | succ k ih =>
    have hstep : countState (k + 1) n = countStep (countState k n) (1 + k) := by
      rw [countState, range'_concat, foldl_append]
      simp [countState]
    rw [hstep, ih (by omega), countStep, wrap_of_lt (choose_mul_lt hn k), add_comm 1,
      ← Nat.choose_succ_right_eq, Nat.mul_div_cancel _ k.succ_pos]
    rfl

theorem combine_enumerates (origin : List T) (k : Nat) (hk : 1 ≤ k) (hn : k ≤ origin.length) :
    ∃ indices : List (List Nat), combine origin k = .ok (indices.map (pick origin)) ∧
      indices.Pairwise (List.Lex (· < ·)) ∧
      (∀ t, t ∈ indices ↔ t.length = k ∧ t.Pairwise (· < ·) ∧ ∀ i ∈ t, i < origin.length) ∧
      (origin.length ≤ 62 → combinationsCount k origin.length = .ok indices.length ∧
        ∀ i < k, (countState i origin.length).1 * (countState i origin.length).2 < 2 ^ 64 ∧
          i + 1 ∣ (countState i origin.length).1 * (countState i origin.length).2) := by
  refine ⟨tuples origin.length k 0, ?_, tuples_sorted _ _ _, fun t => ?_, fun hsmall => ⟨?_, ?_⟩⟩
  · obtain ⟨k, rfl⟩ := Nat.exists_eq_add_of_le' hk
    rw [combine, check_decide hn, check_decide k.succ_ne_zero, doCombine_grown]
    rfl
  · simp only [mem_tuples hn, Nat.zero_le, true_and]
  · rw [combinationsCount, if_neg (not_lt.mpr hn), countState_eq hsmall hn, length_tuples hn]
    rfl
  · intro i hi
    rw [countState_eq hsmall (by omega)]
    refine ⟨choose_mul_lt hsmall i, ?_⟩
    rw [← Nat.choose_succ_right_eq]
    exact Nat.dvd_mul_left _ _

theorem combine_enumerates_pairs : ∃ indices : List (List Nat),
    combine [10, 20, 30] 2 = .ok (indices.map (pick [10, 20, 30])) ∧
      combinationsCount 2 3 = .ok indices.length := by
  obtain ⟨indices, hcombine, -, -, hcount⟩ := combine_enumerates [10, 20, 30] 2 (by decide)
    (by decide)
  exact ⟨indices, hcombine, (hcount (by decide)).1⟩

end Jero.Common
