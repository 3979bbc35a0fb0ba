import Mathlib.Data.List.Sort

namespace Jero.Lists
open List
variable {v lower upper : List Nat}

def getMid (a b : Nat) : Nat := a / 2 + b / 2 + ((a - 2 * (a / 2)) + (b - 2 * (b / 2))) / 2

def median : List Nat → Nat
  | [] => 0
  | [x] => x
  | v =>
    let sorted := v.insertionSort (· ≤ ·)
    let n := v.length / 2
    if v.length % 2 = 1 then sorted.getD n 0 else getMid (sorted.getD (n - 1) 0) (sorted.getD n 0)

theorem insertionSort_eq_of_perm {u : List Nat} (h : u.Perm v) :
    u.insertionSort (· ≤ ·) = v.insertionSort (· ≤ ·) := by
  have hperm : (u.insertionSort (· ≤ ·)).Perm (v.insertionSort (· ≤ ·)) :=
    (perm_insertionSort _ u).trans (h.trans (perm_insertionSort _ v).symm)
  exact hperm.eq_of_pairwise' (pairwise_insertionSort _ u) (pairwise_insertionSort _ v)

theorem median_eq_of_perm {u : List Nat} (h : u.Perm v) : median u = median v := by
  match u, v, h with
  | [], v, h => rw [nil_perm.mp h]
  | [x], v, h => rw [singleton_perm.mp h]
  | x :: y :: u, [], h => exact absurd h.length_eq (by simp)
  | x :: y :: u, [z], h => exact absurd h.length_eq (by simp)
  | x :: y :: u, z :: w :: v, h => simp only [median, insertionSort_eq_of_perm h, h.length_eq]

theorem insertionSort_split {v : Nat} (hlower : ∀ x ∈ lower, x ≤ v) (hupper : ∀ x ∈ upper, v ≤ x) :
    (lower ++ v :: upper).insertionSort (· ≤ ·) =
      lower.insertionSort (· ≤ ·) ++ v :: upper.insertionSort (· ≤ ·) := by
  have hperm : ((lower ++ v :: upper).insertionSort (· ≤ ·)).Perm
      (lower.insertionSort (· ≤ ·) ++ v :: upper.insertionSort (· ≤ ·)) :=
    (perm_insertionSort _ _).trans ((perm_insertionSort _ lower).symm.append
      ((perm_insertionSort _ upper).symm.cons v))
  refine hperm.eq_of_pairwise' (pairwise_insertionSort _ _) ?_
  refine pairwise_append.mpr ⟨pairwise_insertionSort _ lower,
    pairwise_cons.mpr ⟨?_, pairwise_insertionSort _ upper⟩, ?_⟩
  · intro x hx
    exact hupper x ((perm_insertionSort _ upper).mem_iff.mp hx)
  · intro x hx y hy
    have hxv := hlower x ((perm_insertionSort _ lower).mem_iff.mp hx)
    rcases mem_cons.mp hy with rfl | hy
    · exact hxv
    · exact hxv.trans (hupper y ((perm_insertionSort _ upper).mem_iff.mp hy))

theorem median_of_odd (h : v.length % 2 = 1) :
    median v = (v.insertionSort (· ≤ ·)).getD (v.length / 2) 0 := by
  match v, h with
  | [], h => simp at h
  | [x], _ => simp [median]
  | x :: y :: v, h => simp only [median, if_pos h]

theorem median_of_even (h : v.length % 2 = 0) (hpos : 0 < v.length) :
    median v = getMid ((v.insertionSort (· ≤ ·)).getD (v.length / 2 - 1) 0)
      ((v.insertionSort (· ≤ ·)).getD (v.length / 2) 0) := by
  match v, h, hpos with
  | [x], h, _ => simp at h
  | x :: y :: v, h, _ =>
    have hodd : ¬ (x :: y :: v).length % 2 = 1 := by omega
    simp only [median, if_neg hodd]

theorem median_of_balanced {v : Nat} (hlower : ∀ x ∈ lower, x ≤ v) (hupper : ∀ x ∈ upper, v ≤ x)
    (hlength : lower.length = upper.length) :
    median (lower ++ v :: upper) = v := by
  have htotal : (lower ++ v :: upper).length = 2 * lower.length + 1 := by
    simp [hlength]
    omega
  have hsorted : (lower.insertionSort (· ≤ ·)).length = lower.length := length_insertionSort _ _
  rw [median_of_odd (by omega), insertionSort_split hlower hupper, htotal,
    show (2 * lower.length + 1) / 2 = lower.length by omega, ← hsorted,
    getD_eq_getElem?_getD, getElem?_append_right le_rfl]
  simp

theorem median_of_heavier {m v : Nat} (hlower : ∀ x ∈ lower, x ≤ m) (hmv : m ≤ v)
    (hupper : ∀ x ∈ upper, v ≤ x) (hlength : lower.length = upper.length) :
    median (lower ++ m :: v :: upper) = getMid m v := by
  have htotal : (lower ++ m :: v :: upper).length = 2 * lower.length + 2 := by
    simp [hlength]
    omega
  have hsorted : (lower.insertionSort (· ≤ ·)).length = lower.length := length_insertionSort _ _
  have htail : (v :: upper).insertionSort (· ≤ ·) = v :: upper.insertionSort (· ≤ ·) :=
    insertionSort_split (fun _ h => (not_mem_nil h).elim) hupper
  have hrest : ∀ x ∈ v :: upper, m ≤ x := by
    intro x hx
    rcases mem_cons.mp hx with rfl | hx
    · exact hmv
    · exact hmv.trans (hupper x hx)
  rw [median_of_even (by omega) (by omega), insertionSort_split hlower hrest, htail, htotal,
    show (2 * lower.length + 2) / 2 - 1 = lower.length by omega,
    show (2 * lower.length + 2) / 2 = lower.length + 1 by omega, ← hsorted,
    getD_eq_getElem?_getD, getD_eq_getElem?_getD, getElem?_append_right le_rfl,
    getElem?_append_right (Nat.le_succ _)]
  simp

theorem getMid_comm (a b : Nat) : getMid a b = getMid b a := by
  unfold getMid
  omega

end Jero.Lists
