import Mathlib.GroupTheory.Perm.Support
import Mathlib.Tactic

namespace Jero.Common
open Equiv.Perm Equiv
variable {σ α : Type}

def followCycle (swap : σ → Nat → Nat → σ) (i : Nat) :
    Nat → List Nat → Nat → σ → Option (List Nat × σ)
  | 0, _, _, _ => none
  | fuel + 1, permutation, current, v =>
    let next := permutation.getD current 0
    if i = next then some (permutation.set current current, v)
    else followCycle swap i fuel (permutation.set current current) next (swap v current next)

def applyPermutation (swap : σ → Nat → Nat → σ) (permutation : List Nat) (v : σ) :
    Option (Except String Unit × σ) :=
  if ∀ n < permutation.length, n ∈ permutation then do
    let s ← (List.range permutation.length).foldlM
      (fun s i => followCycle swap i (permutation.length + 1) s.1 i s.2) (permutation, v)
    some (.ok (), s.2)
  else some (.error "Bad permutation", v)

def swapAt (v : List α) (i0 i1 : Nat) : List α :=
  match v[i0]?, v[i1]? with
  | some a, some b => (v.set i0 b).set i1 a
  | _, _ => v

def applyPermutationVector (permutation : List Nat) (v : List α) :
    Option (Except String Unit × List α) :=
  if permutation.length = v.length then applyPermutation swapAt permutation v
  else some (.error "Mismatched vector sizes", v)

def applyPermutationBits (permutation : List Nat) (v : List Bool) :
    Option (Except String Unit × List Bool) :=
  applyPermutationVector permutation v

variable {n : Nat}

theorem swapAt_spec {v : List α} (hv : v.length = n) (a b : Fin n) :
    (swapAt v a b).length = n ∧
      ∀ j : Fin n, (swapAt v a b)[(j : Nat)]? = v[((swap a b j : Fin n) : Nat)]? := by
  subst hv
  simp only [swapAt, List.getElem?_eq_getElem, Fin.is_lt, List.length_set, true_and]
  intro j
  rcases eq_or_ne j b with rfl | hb
  · simp
  rcases eq_or_ne j a with rfl | ha
  · simp [Fin.val_ne_of_ne hb.symm]
  · rw [swap_apply_of_ne_of_ne ha hb]
    simp [Fin.val_ne_of_ne hb.symm, Fin.val_ne_of_ne ha.symm]

structure Tracks (T : Fin n → Option α) (i : Fin n) (P : Equiv.Perm (Fin n)) (current : Fin n)
    (permutation : List Nat) (v : List α) : Prop where
  size : permutation.length = n
  length : v.length = n
  entries : ∀ j : Fin n, permutation.getD j 0 = if P j = current then (i : Nat) else P j
  target : ∀ j, v[(P j : Nat)]? = T j
  start : current ≠ i → P i = i

variable {T : Fin n → Option α} {i c : Fin n} {P : Equiv.Perm (Fin n)} {p : List Nat} {v : List α}

theorem getD_set_self (hp : p.length = n) (c j : Fin n) :
    (p.set c c).getD j 0 = if j = c then (c : Nat) else p.getD j 0 := by
  subst hp
  simp only [List.getD_eq_getElem?_getD, List.getElem?_set, Fin.is_lt, Fin.ext_iff, if_true]
  split_ifs <;> simp_all

theorem Tracks.finish (h : Tracks T i P c p v) (hc : P c = c) :
    Tracks T i P i (p.set c c) v ∧ P i = i := by
  refine ⟨⟨by simp [h.size], h.length, fun j => ?_, h.target, fun hi => absurd rfl hi⟩, ?_⟩
  · rw [getD_set_self h.size, h.entries]
    have hj : P j = c ↔ j = c := by rw [← P.injective.eq_iff (a := j), hc]
    split_ifs <;> simp_all
  · by_cases hi : c = i
    · rw [← hi, hc]
    · exact h.start hi

theorem Tracks.step (h : Tracks T i P c p v) (hc : P c ≠ c) :
    p.getD c 0 = P c ∧ P c ≠ i ∧
      Tracks T i (swap c (P c) * P) (P c) (p.set c c) (swapAt v c (P c)) := by
  have hi : P c ≠ i := by
    intro hi
    by_cases hci : c = i
    · exact hc (hi.trans hci.symm)
    · exact hci (P.injective (hi.trans (h.start hci).symm))
  have hswap := swapAt_spec h.length c (P c)
  refine ⟨by rw [h.entries, if_neg hc], hi, by simp [h.size], hswap.1, fun j => ?_, fun j => ?_,
    fun _ => ?_⟩
  · rw [getD_set_self h.size, h.entries, mul_apply, swap_apply_def]
    by_cases hj : j = c
    · simp [hj, hc, Ne.symm hc]
    · have hne : P j ≠ P c := P.injective.ne hj
      by_cases hjc : P j = c <;> simp [hj, hjc, hne]
  · rw [hswap.2, mul_apply, swap_apply_self, h.target]
  · rw [mul_apply]
    by_cases hci : c = i
    · simp [hci]
    · rw [h.start hci, swap_apply_of_ne_of_ne (Ne.symm hci) hi.symm]

theorem followCycle_spec (fuel : Nat) (h : Tracks T i P c p v) (hfuel : P.support.card < fuel) :
    ∃ Q p' v', followCycle swapAt i fuel p c v = some (p', v') ∧ Tracks T i Q i p' v' ∧
      Q i = i ∧ ∀ j, P j = j → Q j = j := by
  induction fuel generalizing P c p v with
  | zero => exact absurd hfuel (Nat.not_lt_zero _)
  | succ fuel ih =>
    by_cases hc : P c = c
    · have hi : (i : Nat) = p.getD c 0 := by rw [h.entries, if_pos hc]
      obtain ⟨hend, hfix⟩ := h.finish hc
      exact ⟨P, _, v, by rw [followCycle, if_pos hi], hend, hfix, fun _ hj => hj⟩
    · obtain ⟨hnext, hi, hstep⟩ := h.step hc
      obtain ⟨Q, p', v', hrun, hQ, hfix, hkeep⟩ := ih hstep
        ((card_support_swap_mul hc).trans_le (Nat.le_of_lt_succ hfuel))
      have hne : (i : Nat) ≠ p.getD c 0 := by
        rw [hnext]
        exact fun he => hi (Fin.ext he.symm)
      refine ⟨Q, p', v', by rw [followCycle, if_neg hne, hnext, hrun], hQ, hfix, fun j hj => ?_⟩
      have hjc : j ≠ c := fun he => hc (he ▸ hj)
      apply hkeep
      rw [mul_apply, hj, swap_apply_of_ne_of_ne hjc]
      exact fun he => hjc (P.injective (hj.trans he))

theorem cycles_spec (k : Nat) (hk : k ≤ n) (hp : p.length = n) (hv : v.length = n)
    (hP : ∀ j : Fin n, p.getD j 0 = P j) :
    ∃ Q : Equiv.Perm (Fin n), ∃ p' v', (List.range k).foldlM
        (fun s i => followCycle swapAt i (n + 1) s.1 i s.2) (p, v) = some (p', v') ∧
      p'.length = n ∧ v'.length = n ∧ (∀ j : Fin n, p'.getD j 0 = Q j) ∧
      (∀ j : Fin n, v'[(Q j : Nat)]? = v[(P j : Nat)]?) ∧ ∀ j : Fin n, j < k → Q j = j := by
  induction k with
  | zero => exact ⟨P, p, v, rfl, hp, hv, hP, fun _ => rfl, by simp⟩
  | succ k ih =>
    obtain ⟨Q, p', v', hrun, hp', hv', hQ, htarget, hdone⟩ := ih (by omega)
    have h : Tracks (fun j => v[(P j : Nat)]?) ⟨k, hk⟩ Q ⟨k, hk⟩ p' v' := by
      refine ⟨hp', hv', fun j => ?_, htarget, fun hne => absurd rfl hne⟩
      rw [hQ, ite_eq_right_iff.mpr]
      intro hj
      rw [hj]
    obtain ⟨R, p'', v'', hcycle, hR, hfix, hkeep⟩ := followCycle_spec (n + 1) h
      (Nat.lt_succ_of_le ((Finset.card_le_univ _).trans_eq (Fintype.card_fin n)))
    refine ⟨R, p'', v'', ?_, hR.size, hR.length, fun j => ?_, hR.target, fun j hj => ?_⟩
    · simpa [List.range_succ, hrun] using hcycle
    · rw [hR.entries, ite_eq_right_iff.mpr]
      intro hj
      rw [hj]
    · rcases Nat.lt_succ_iff_lt_or_eq.mp hj with hlt | heq
      · exact hkeep j (hdone j hlt)
      · rwa [show j = ⟨k, hk⟩ from Fin.ext heq]

theorem perm_range_iff : p.Perm (List.range p.length) ↔ ∀ n < p.length, n ∈ p := by
  refine ⟨fun h n hn => h.mem_iff.mpr (List.mem_range.mpr hn), fun h => ?_⟩
  have hsub := List.subperm_of_subset (List.nodup_range (n := p.length)) fun n hn =>
    h n (List.mem_range.mp hn)
  exact (hsub.perm_of_length_le (by simp)).symm

theorem exists_perm (h : p.Perm (List.range p.length)) :
    ∃ P : Equiv.Perm (Fin p.length), ∀ j : Fin p.length, p.getD j 0 = P j := by
  have hlt (j : Fin p.length) : p[j] < p.length :=
    List.mem_range.mp (h.mem_iff.mp (List.getElem_mem _))
  have hinj : Function.Injective fun j : Fin p.length => (⟨p[j], hlt j⟩ : Fin p.length) := by
    intro a b hab
    have hnodup : p.Nodup := h.nodup_iff.mpr List.nodup_range
    exact Fin.ext ((hnodup.getElem_inj_iff).mp (Fin.mk.inj hab))
  exact ⟨ofBijective _ (Finite.injective_iff_bijective.mp hinj), fun j => by simp⟩

def Permutes (apply : List Nat → List α → Option (Except String Unit × List α)) : Prop :=
  ∀ permutation v, permutation.length = v.length →
    (¬permutation.Perm (List.range permutation.length) →
      apply permutation v = some (.error "Bad permutation", v)) ∧
    (permutation.Perm (List.range permutation.length) →
      ∃ v', apply permutation v = some (.ok (), v') ∧ v'.length = v.length ∧
        ∀ i (_ : i < permutation.length), v'[i]? = v[permutation[i]]?)

theorem applyPermutationVector_permutes : Permutes (applyPermutationVector (α := α)) := by
  intro p v hlen
  rw [applyPermutationVector, if_pos hlen, applyPermutation, perm_range_iff]
  refine ⟨fun h => if_neg h, fun h => ?_⟩
  obtain ⟨P, hP⟩ := exists_perm (perm_range_iff.mpr h)
  obtain ⟨Q, p', v', hrun, -, hv', -, htarget, hdone⟩ :=
    cycles_spec p.length le_rfl rfl hlen.symm hP
  refine ⟨v', by rw [if_pos h, hrun]; rfl, by omega, fun i hi => ?_⟩
  have := htarget ⟨i, hi⟩
  rwa [hdone ⟨i, hi⟩ hi, ← hP, List.getD_eq_getElem?_getD, List.getElem?_eq_getElem hi] at this

theorem apply_permutation_reads_through (α : Type) :
    Permutes (applyPermutationVector (α := α)) ∧ Permutes applyPermutationBits :=
  ⟨applyPermutationVector_permutes, applyPermutationVector_permutes⟩

example : applyPermutationVector [2, 0, 1] ["a", "b", "c"] = some (.ok (), ["c", "a", "b"]) := rfl

end Jero.Common
