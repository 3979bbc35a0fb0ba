import Jero.Chain.Difficulty
import Jero.Machine.Bytes
import Mathlib.Algebra.Order.Floor.Div
import Mathlib.Data.List.GetD

namespace Jero.Chain
open Jero.Machine List
variable {kept : Nat} {l : List Nat}

def nextDifficulty64 (timestamps cumulativeDifficulties : List Nat) (targetSeconds : Nat) : Nat :=
  let ts := timestamps.take difficultyWindow
  let cumulative := cumulativeDifficulties.take difficultyWindow
  let length := ts.length
  if length ≤ 1 then 1
  else
    let sorted := ts.insertionSort (· ≤ ·)
    let kept := difficultyWindow - 2 * difficultyCut
    let cutBegin := if length ≤ kept then 0 else (length - kept + 1) / 2
    let cutEnd := if length ≤ kept then length else cutBegin + kept
    let timeSpan := max 1 (wsub (sorted.getD (cutEnd - 1) 0) (sorted.getD cutBegin 0))
    let totalWork := wsub (cumulative.getD (cutEnd - 1) 0) (cumulative.getD cutBegin 0)
    let (low, high) := mul64 totalWork targetSeconds
    let rounded := wsub (wrap (low + timeSpan)) 1
    if high ≠ 0 ∨ rounded < low then 0 else rounded / timeSpan

def middle (kept : Nat) (l : List Nat) : List Nat :=
  (l.drop ((l.length - kept + 1) / 2)).take kept

def extent (l : List Nat) : Nat := l.getLastD 0 - l.headD 0

def recentWork (cumulativeDifficulties : List Nat) : Nat :=
  extent (middle 600 (cumulativeDifficulties.take 720))

def recentSpan (timestamps : List Nat) : Nat :=
  max 1 (extent (middle 600 ((timestamps.take 720).insertionSort (· ≤ ·))))

def exactDifficulty (timestamps cumulativeDifficulties : List Nat) (targetSeconds : Nat) : Nat :=
  ⌈(recentWork cumulativeDifficulties * targetSeconds / recentSpan timestamps : ℚ)⌉₊

structure DifficultyWindow (timestamps cumulativeDifficulties : List Nat) : Prop where
  lengths : timestamps.length = cumulativeDifficulties.length
  timestamps_lt : ∀ t ∈ timestamps, t < 2 ^ 64
  increasing : cumulativeDifficulties.Pairwise (· < ·)
  difficulties_lt : ∀ d ∈ cumulativeDifficulties, d < 2 ^ 128

theorem recentSpan_pos (timestamps : List Nat) : 0 < recentSpan timestamps := le_max_left 1 _

theorem ceil_div_eq (a : Nat) {b : Nat} (hb : 0 < b) : ⌈(a / b : ℚ)⌉₊ = (a + b - 1) / b := by
  refine eq_of_forall_ge_iff fun c => ?_
  have hb' : (0 : ℚ) < b := by exact_mod_cast hb
  rw [Nat.ceil_le, div_le_iff₀ hb', ← Nat.ceilDiv_eq_add_pred_div, ceilDiv_le_iff_le_mul hb,
    mul_comm b c]
  exact_mod_cast Iff.rfl

theorem headD_middle (hkept : 0 < kept) (l : List Nat) :
    (middle kept l).headD 0 = l.getD ((l.length - kept + 1) / 2) 0 := by
  rw [middle, headD_eq_head?_getD, head?_take, if_neg hkept.ne', head?_drop, getD_eq_getElem?_getD]

theorem getLastD_middle (hkept : 0 < kept) :
    (middle kept l).getLastD 0 =
      l.getD (min ((l.length - kept + 1) / 2 + kept) l.length - 1) 0 := by
  have hlength : (middle kept l).length = min kept (l.length - (l.length - kept + 1) / 2) := by
    rw [middle, length_take, length_drop]
  have hlast : (l.length - kept + 1) / 2 + ((middle kept l).length - 1) =
      min ((l.length - kept + 1) / 2 + kept) l.length - 1 := by omega
  rw [getLastD_eq_getLast?, getLast?_eq_getElem?, middle, getElem?_take_of_lt,
    getElem?_drop, ← middle, hlast, getD_eq_getElem?_getD]
  rw [← middle, hlength]
  omega

theorem extent_middle (hkept : 0 < kept) :
    extent (middle kept l) = l.getD (min ((l.length - kept + 1) / 2 + kept) l.length - 1) 0 -
      l.getD ((l.length - kept + 1) / 2) 0 := by
  rw [extent, headD_middle hkept, getLastD_middle hkept]

def cutBegin (length : Nat) : Nat := if length ≤ 600 then 0 else (length - 600 + 1) / 2

def cutEnd (length : Nat) : Nat := if length ≤ 600 then length else cutBegin length + 600

theorem cutBegin_eq (n : Nat) : cutBegin n = (n - 600 + 1) / 2 := by
  unfold cutBegin
  split <;> omega

theorem cutEnd_eq (n : Nat) : cutEnd n = min ((n - 600 + 1) / 2 + 600) n := by
  rw [cutEnd, cutBegin_eq]
  split <;> omega

theorem cutBegin_lt {n : Nat} (hn : 1 < n) : cutBegin n < cutEnd n - 1 := by
  rw [cutBegin_eq, cutEnd_eq]
  omega

theorem cutEnd_le {n : Nat} (hn : 0 < n) : cutEnd n - 1 < n := by
  rw [cutEnd_eq]
  omega

theorem kept_extent (l : List Nat) :
    l.getD (cutEnd l.length - 1) 0 - l.getD (cutBegin l.length) 0 = extent (middle 600 l) := by
  rw [cutBegin_eq, cutEnd_eq, extent_middle (by decide)]

theorem getD_lt {bound : Nat} (hbound : 0 < bound) (h : ∀ x ∈ l, x < bound) (i : Nat) :
    l.getD i 0 < bound := by
  rw [getD_eq_getElem?_getD]
  rcases hi : l[i]? with _ | x
  · exact hbound
  · exact h x (mem_of_getElem? hi)

theorem sub_mod_of_le {a b m : Nat} (h : b ≤ a) (ha : a < m) : (a + m - b) % m = a - b := by
  rw [show a + m - b = (a - b) + m by omega, Nat.add_mod_right]
  exact Nat.mod_eq_of_lt (by omega)

theorem getD_rel {r : Nat → Nat → Prop} (h : l.Pairwise r) {i j : Nat} (hij : i < j)
    (hj : j < l.length) : r (l.getD i 0) (l.getD j 0) := by
  rw [getD_eq_getElem _ _ (hij.trans hj), getD_eq_getElem _ _ hj]
  exact pairwise_iff_getElem.mp h i j (hij.trans hj) hj hij

namespace DifficultyWindow
variable {timestamps cumulativeDifficulties : List Nat}

theorem take_lengths (w : DifficultyWindow timestamps cumulativeDifficulties) :
    (cumulativeDifficulties.take 720).length = (timestamps.take 720).length := by
  rw [length_take, length_take, w.lengths]

variable (w : DifficultyWindow timestamps cumulativeDifficulties)
include w

theorem work_eq :
    (cumulativeDifficulties.take 720).getD (cutEnd (timestamps.take 720).length - 1) 0 -
      (cumulativeDifficulties.take 720).getD (cutBegin (timestamps.take 720).length) 0 =
        recentWork cumulativeDifficulties := by
  rw [← w.take_lengths, kept_extent]
  rfl

variable (hlong : 1 < (timestamps.take 720).length)
include hlong

theorem work_lt :
    (cumulativeDifficulties.take 720).getD (cutBegin (timestamps.take 720).length) 0 <
      (cumulativeDifficulties.take 720).getD (cutEnd (timestamps.take 720).length - 1) 0 := by
  refine getD_rel (w.increasing.sublist (take_sublist _ _)) (cutBegin_lt hlong) ?_
  rw [w.take_lengths]
  exact cutEnd_le (by omega)

theorem recentWork_pos : 0 < recentWork cumulativeDifficulties := by
  rw [← w.work_eq]
  exact Nat.sub_pos_of_lt (w.work_lt hlong)

theorem span_eq :
    max 1 (wsub
      (((timestamps.take 720).insertionSort (· ≤ ·)).getD
        (cutEnd (timestamps.take 720).length - 1) 0)
      (((timestamps.take 720).insertionSort (· ≤ ·)).getD
        (cutBegin (timestamps.take 720).length) 0)) = recentSpan timestamps := by
  have hlength := length_insertionSort (· ≤ ·) (timestamps.take 720)
  have hlt : ∀ t ∈ (timestamps.take 720).insertionSort (· ≤ ·), t < 2 ^ 64 := fun t ht =>
    w.timestamps_lt t (mem_of_mem_take ((perm_insertionSort _ _).mem_iff.mp ht))
  have hle := getD_rel (pairwise_insertionSort (· ≤ ·) (timestamps.take 720))
    (cutBegin_lt hlong) (by rw [hlength]; exact cutEnd_le (by omega))
  rw [wsub_of_le hle (getD_lt (by norm_num) hlt _)]
  conv_lhs => rw [← hlength]
  rw [kept_extent]
  rfl

theorem recentSpan_lt : recentSpan timestamps < 2 ^ 64 := by
  rw [← w.span_eq hlong]
  exact max_lt (by norm_num) (wrap_lt _)

theorem nextDifficulty_eq (targetSeconds : Nat) :
    nextDifficulty timestamps cumulativeDifficulties targetSeconds =
      let res := (recentWork cumulativeDifficulties * targetSeconds + recentSpan timestamps - 1) /
        recentSpan timestamps
      if res > 2 ^ 128 - 1 then 0 else res := by
  have hbound : ∀ d ∈ cumulativeDifficulties.take 720, d < 2 ^ 128 := fun d hd =>
    w.difficulties_lt d (mem_of_mem_take hd)
  rw [← w.work_eq, ← sub_mod_of_le (w.work_lt hlong).le (getD_lt (by norm_num) hbound _),
    ← w.span_eq hlong]
  exact if_neg (show ¬ (timestamps.take 720).length ≤ 1 from not_le.mpr hlong)

theorem nextDifficulty64_eq (hfit : ∀ d ∈ cumulativeDifficulties, d < 2 ^ 64)
    (targetSeconds : Nat) :
    nextDifficulty64 timestamps cumulativeDifficulties targetSeconds =
      let product := recentWork cumulativeDifficulties * targetSeconds
      let rounded := wsub (wrap (wrap product + recentSpan timestamps)) 1
      if product / 2 ^ 64 ≠ 0 ∨ rounded < wrap product then 0
      else rounded / recentSpan timestamps := by
  have hbound : ∀ d ∈ cumulativeDifficulties.take 720, d < 2 ^ 64 := fun d hd =>
    hfit d (mem_of_mem_take hd)
  rw [← w.work_eq, ← wsub_of_le (w.work_lt hlong).le (getD_lt (by norm_num) hbound _),
    ← w.span_eq hlong]
  exact if_neg (show ¬ (timestamps.take 720).length ≤ 1 from not_le.mpr hlong)

end DifficultyWindow

theorem rounded_fits {product span : Nat} (hspan : 0 < span) (hlt : span < 2 ^ 64)
    (hfits : ¬ (product / 2 ^ 64 ≠ 0 ∨ wsub (wrap (wrap product + span)) 1 < wrap product)) :
    wsub (wrap (wrap product + span)) 1 = product + span - 1 ∧ product + span - 1 < 2 ^ 64 := by
  obtain ⟨hhigh, hrounded⟩ := not_or.mp hfits
  unfold wsub wrap at *
  omega

section
variable {timestamps cumulativeDifficulties : List Nat} {targetSeconds : Nat}

theorem exactDifficulty_eq : exactDifficulty timestamps cumulativeDifficulties targetSeconds =
    (recentWork cumulativeDifficulties * targetSeconds + recentSpan timestamps - 1) /
      recentSpan timestamps := by
  rw [exactDifficulty, ← Nat.cast_mul, ceil_div_eq _ (recentSpan_pos _)]

theorem next_difficulty_formula (w : DifficultyWindow timestamps cumulativeDifficulties)
    (htarget : 0 < targetSeconds) :
    let exact := exactDifficulty timestamps cumulativeDifficulties targetSeconds
    let result := nextDifficulty timestamps cumulativeDifficulties targetSeconds
    let result64 := nextDifficulty64 timestamps cumulativeDifficulties targetSeconds
    (result = if timestamps.length ≤ 1 then 1 else if exact ≤ 2 ^ 128 - 1 then exact else 0) ∧
      (1 < timestamps.length → 1 ≤ exact) ∧ (result = 0 → 2 ^ 128 - 1 < exact) ∧
      ((∀ d ∈ cumulativeDifficulties, d < 2 ^ 64) → result64 ≠ 0 → result64 = result) := by
  intro exact result result64
  rcases lt_or_ge 1 timestamps.length with hlong | hshort
  · have hlong' : 1 < (timestamps.take 720).length := by
      rw [length_take]
      omega
    have hpos : 0 < exactDifficulty timestamps cumulativeDifficulties targetSeconds := by
      rw [exactDifficulty_eq]
      have hproduct := mul_pos (w.recentWork_pos hlong') htarget
      exact Nat.div_pos (by omega) (recentSpan_pos _)
    have hresult : result = if exact ≤ 2 ^ 128 - 1 then exact else 0 := by
      have heq := w.nextDifficulty_eq hlong' targetSeconds
      rw [← exactDifficulty_eq] at heq
      simp only [gt_iff_lt, ← not_le, ite_not] at heq
      exact heq
    refine ⟨?_, fun _ => hpos, ?_, ?_⟩
    · rw [if_neg (by omega), hresult]
    · intro hzero
      by_contra hle
      rw [hresult, if_pos (not_lt.mp hle)] at hzero
      exact hpos.ne' hzero
    · intro hfit hnonzero
      have heq := w.nextDifficulty64_eq hlong' hfit targetSeconds
      simp only at heq
      split at heq
      · exact absurd heq hnonzero
      · rename_i hfits
        obtain ⟨hrounded, hbound⟩ :=
          rounded_fits (recentSpan_pos _) (w.recentSpan_lt hlong') hfits
        have hquotient := (Nat.div_le_self
          (recentWork cumulativeDifficulties * targetSeconds + recentSpan timestamps - 1)
          (recentSpan timestamps)).trans_lt hbound
        have hvalue := w.nextDifficulty_eq hlong' targetSeconds
        rw [if_neg (by omega)] at hvalue
        rw [hrounded] at heq
        exact heq.trans hvalue.symm
  · obtain ⟨hresult, hresult64⟩ : result = 1 ∧ result64 = 1 := by
      have htake : (timestamps.take difficultyWindow).length ≤ 1 :=
        (length_take_le' _ _).trans hshort
      simp only [result, result64, nextDifficulty, nextDifficulty64, if_pos htake, and_self]
    refine ⟨?_, fun h => absurd hshort (by omega), ?_, fun _ _ => hresult64.trans hresult.symm⟩
    · rw [if_pos hshort]
      exact hresult
    · intro hzero
      exact absurd (hresult.symm.trans hzero) one_ne_zero

end

theorem next_difficulty_unsorted_window :
    nextDifficulty [100, 40, 220] [5, 12, 30] 120 = 17 ∧
      nextDifficulty64 [100, 40, 220] [5, 12, 30] 120 =
        nextDifficulty [100, 40, 220] [5, 12, 30] 120 := by
  have w : DifficultyWindow [100, 40, 220] [5, 12, 30] :=
    ⟨rfl, by decide +kernel, by decide, by decide +kernel⟩
  have hformula := next_difficulty_formula w (show 0 < 120 by decide)
  exact ⟨by decide +kernel, hformula.2.2.2 (by decide +kernel) (by decide +kernel)⟩

end Jero.Chain
