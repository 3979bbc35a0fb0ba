import Mathlib

namespace Jero.Algebra
open List Function Nat

structure Walk (C R : Type) where
  index : Nat
  challenge : C
  first : C
  responses : List R

namespace Walk
variable {C R : Type}

def moveTo (w : Walk C R) (i : Nat) (c : C) : Walk C R :=
  { w with index := i, challenge := c, first := if i = 0 then c else w.first }

def start (n l : Nat) (c unset : C) (responses : List R) : Walk C R :=
  moveTo ⟨l, unset, unset, responses⟩ ((l + 1) % n) c

def advance (n : Nat) (draw : Nat → R) (step : Nat → R → C → C) (w : Walk C R) : Walk C R :=
  { w.moveTo ((w.index + 1) % n) (step w.index (draw w.index) w.challenge) with
    responses := w.responses.set w.index (draw w.index) }

def runUntil (l : Nat) (next : Walk C R → Walk C R) : Nat → Walk C R → Option (Walk C R)
  | 0, w => if w.index = l then some w else none
  | fuel + 1, w => if w.index = l then some w else runUntil l next fuel (next w)

theorem runUntil_iterate {l : Nat} {next : Walk C R → Walk C R} (m fuel : Nat) (w : Walk C R)
    (hfuel : m ≤ fuel) (hbefore : ∀ t < m, (next^[t] w).index ≠ l) (hat : (next^[m] w).index = l) :
    runUntil l next fuel w = some (next^[m] w) := by
  induction m generalizing fuel w with
  | zero =>
    have hw : w.index = l := hat
    cases fuel with
    | zero => simp [runUntil, hw]
    | succ fuel => simp [runUntil, hw]
  | succ m ih =>
    obtain ⟨fuel, rfl⟩ : ∃ k, fuel = k + 1 := ⟨fuel - 1, by omega⟩
    have hw : w.index ≠ l := hbefore 0 (by omega)
    rw [runUntil, if_neg hw, iterate_succ_apply]
    refine ih fuel (next w) (by omega) ?_ ?_
    · intro t ht
      rw [← iterate_succ_apply]
      exact hbefore (t + 1) (by omega)
    · rw [← iterate_succ_apply]
      exact hat

variable (n l : Nat) (draw : Nat → R) (step : Nat → R → C → C) (c₀ : C)

def chain : Nat → C
  | 0 => c₀
  | t + 1 => step ((l + 1 + t) % n) (draw ((l + 1 + t) % n)) (chain t)

variable {n l}
section
variable (unset : C) (responses : List R) (t : Nat)

theorem walked_index :
    ((advance n draw step)^[t] (start n l c₀ unset responses)).index = (l + 1 + t) % n := by
  induction t with
  | zero => rfl
  | succ t ih =>
    rw [iterate_succ_apply']
    change (((advance n draw step)^[t] (start n l c₀ unset responses)).index + 1) % n = _
    rw [ih, mod_add_mod]
    rfl

theorem walked_challenge :
    ((advance n draw step)^[t] (start n l c₀ unset responses)).challenge =
      chain n l draw step c₀ t := by
  induction t with
  | zero => rfl
  | succ t ih =>
    rw [iterate_succ_apply', advance, moveTo, walked_index, ih]
    rfl

theorem walked_first (hl : l < n) (ht : t < n) (hpast : n ≤ l + 1 + t) :
    ((advance n draw step)^[t] (start n l c₀ unset responses)).first =
      chain n l draw step c₀ (n - 1 - l) := by
  induction t with
  | zero =>
    have hn : l + 1 = n := by omega
    have hzero : (l + 1) % n = 0 := by rw [hn, mod_self]
    have hlast : n - 1 - l = 0 := by omega
    rw [hlast]
    change (if (l + 1) % n = 0 then c₀ else unset) = c₀
    rw [if_pos hzero]
  | succ t ih =>
    have hnext := walked_index (n := n) (l := l) draw step c₀ unset responses (t + 1)
    have hchallenge := walked_challenge (n := n) (l := l) draw step c₀ unset responses (t + 1)
    rw [iterate_succ_apply'] at hnext hchallenge ⊢
    generalize (advance n draw step)^[t] (start n l c₀ unset responses) = w at *
    change (w.index + 1) % n = _ at hnext
    change step w.index (draw w.index) w.challenge = _ at hchallenge
    change (if (w.index + 1) % n = 0 then step w.index (draw w.index) w.challenge else w.first) = _
    rw [hnext, hchallenge]
    by_cases hnow : l + 1 + (t + 1) = n
    · have hlast : n - 1 - l = t + 1 := by omega
      rw [if_pos (by rw [hnow, mod_self]), hlast]
    · have hwrapped : (l + 1 + (t + 1)) % n ≠ 0 := by
        rw [mod_eq_sub_mod hpast, mod_eq_of_lt (by omega)]
        omega
      rw [if_neg hwrapped]
      exact ih (by omega) (by omega)

theorem walked_responses :
    let w := (advance n draw step)^[t] (start n l c₀ unset responses)
    w.responses.length = responses.length ∧
      ∀ s < t, (l + 1 + s) % n < responses.length →
        w.responses[(l + 1 + s) % n]? = some (draw ((l + 1 + s) % n)) := by
  induction t with
  | zero => exact ⟨rfl, fun s hs => absurd hs (not_lt_zero s)⟩
  | succ t ih =>
    obtain ⟨hlength, hvisited⟩ := ih
    have hindex := walked_index (n := n) (l := l) draw step c₀ unset responses t
    rw [iterate_succ_apply']
    generalize (advance n draw step)^[t] (start n l c₀ unset responses) = w at *
    refine ⟨?_, ?_⟩
    · change (w.responses.set w.index (draw w.index)).length = _
      rw [length_set, hlength]
    · intro s hs hin
      change (w.responses.set w.index (draw w.index))[_]? = _
      rw [hindex, getElem?_set]
      split
      · rename_i heq
        rw [if_pos (by omega), heq]
      · rename_i hne
        have hlt : s < t := by
          refine lt_of_le_of_ne (by omega) ?_
          rintro rfl
          exact hne rfl
        exact hvisited s hlt hin

theorem walked_mem {r : R}
    (hr : r ∈ ((advance n draw step)^[t] (start n l c₀ unset responses)).responses) :
    r ∈ responses ∨ ∃ i, r = draw i := by
  induction t with
  | zero => exact Or.inl hr
  | succ t ih =>
    rw [iterate_succ_apply'] at hr
    rcases mem_or_eq_of_mem_set hr with hold | hnew
    · exact ih hold
    · exact Or.inr ⟨_, hnew⟩

end

theorem walked_once (unset : C) (responses : List R) (hl : l < n)
    (hlength : responses.length = n) (x : R) :
    ((advance n draw step)^[n - 1] (start n l c₀ unset responses)).responses.set l x =
      (List.range n).map (Function.update draw l x) := by
  obtain ⟨hkept, hvisited⟩ := walked_responses (n := n) (l := l) draw step c₀ unset responses (n - 1)
  generalize (advance n draw step)^[n - 1] (start n l c₀ unset responses) = w at *
  refine ext_getElem? fun j => ?_
  rw [getElem?_set, getElem?_map]
  rcases lt_or_ge j n with hj | hj
  · rw [getElem?_range hj]
    rcases eq_or_ne l j with rfl | hne
    · rw [if_pos rfl, if_pos (by omega), Option.map_some, update_self]
    · rw [if_neg hne, Option.map_some, update_of_ne hne.symm]
      obtain ⟨s, hs, hsj⟩ : ∃ s < n - 1, (l + 1 + s) % n = j := by
        rcases lt_or_ge l j with hlj | hlj
        · refine ⟨j - l - 1, by omega, ?_⟩
          rw [show l + 1 + (j - l - 1) = j by omega, mod_eq_of_lt hj]
        · refine ⟨n + j - l - 1, by omega, ?_⟩
          rw [show l + 1 + (n + j - l - 1) = j + n by omega, add_mod_right, mod_eq_of_lt hj]
      have hvisit := hvisited s hs (by omega)
      rw [hsj] at hvisit
      exact hvisit
  · rw [if_neg (by omega), getElem?_eq_none (by omega : w.responses.length ≤ j),
      getElem?_eq_none (by rw [length_range]; exact hj)]
    rfl

variable {draw step c₀} {responses : Nat → R}

theorem replay_before (hl : l < n)
    (hdraw : ∀ i < n, i ≠ l → responses i = draw i) (i : Nat) (hi : i ≤ l) :
    (List.range i).foldl (fun c i => step i (responses i) c)
        (chain n l draw step c₀ (n - 1 - l)) =
      chain n l draw step c₀ (n - 1 - l + i) := by
  induction i with
  | zero => rfl
  | succ i ih =>
    have hwrap : (l + 1 + (n - 1 - l + i)) % n = i := by
      rw [show l + 1 + (n - 1 - l + i) = i + n by omega, add_mod_right, mod_eq_of_lt (by omega)]
    rw [range_succ, foldl_append, ih (by omega), foldl_cons, foldl_nil,
      hdraw i (by omega) (by omega), ← add_assoc, chain, hwrap]

theorem replay_after
    (hdraw : ∀ i < n, i ≠ l → responses i = draw i) {c : C}
    (hclosed : (List.range (l + 1)).foldl (fun c i => step i (responses i) c) c = c₀)
    (k : Nat) (hk : l + 1 + k ≤ n) :
    (List.range (l + 1 + k)).foldl (fun c i => step i (responses i) c) c =
      chain n l draw step c₀ k := by
  induction k with
  | zero => exact hclosed
  | succ k ih =>
    rw [← add_assoc, range_succ, foldl_append, ih (by omega), foldl_cons,
      foldl_nil, hdraw (l + 1 + k) (by omega) (by omega), chain, mod_eq_of_lt (by omega)]

theorem replay_closes (hl : l < n) (hdraw : ∀ i < n, i ≠ l → responses i = draw i)
    (hclose : step l (responses l) (chain n l draw step c₀ (n - 1)) = c₀) :
    (List.range n).foldl (fun c i => step i (responses i) c)
        (chain n l draw step c₀ (n - 1 - l)) =
      chain n l draw step c₀ (n - 1 - l) := by
  have hback : (range l).foldl (fun c i => step i (responses i) c)
      (chain n l draw step c₀ (n - 1 - l)) = chain n l draw step c₀ (n - 1 - l + l) :=
    replay_before hl hdraw l (le_refl l)
  rw [show n - 1 - l + l = n - 1 by omega] at hback
  have hclosed : (range (l + 1)).foldl (fun c i => step i (responses i) c)
      (chain n l draw step c₀ (n - 1 - l)) = c₀ := by
    rw [range_succ, foldl_append, hback]
    exact hclose
  have hwhole := replay_after hdraw hclosed (n - 1 - l) (by omega)
  rw [show l + 1 + (n - 1 - l) = n by omega] at hwhole
  exact hwhole

variable (draw step c₀)

theorem runUntil_closes (unset : C) (rs : List R) (hl : l < n) (hlength : rs.length = n) :
    ∃ w, runUntil l (advance n draw step) n (start n l c₀ unset rs) = some w ∧
      (∀ r ∈ w.responses, r ∈ rs ∨ ∃ i, r = draw i) ∧
      (∀ x, w.responses.set l x = (List.range n).map (Function.update draw l x)) ∧
      ∀ x, step l x w.challenge = c₀ →
        (List.range n).foldl (fun c i => step i (Function.update draw l x i) c) w.first =
          w.first := by
  refine ⟨(advance n draw step)^[n - 1] (start n l c₀ unset rs), ?_, ?_, ?_, ?_⟩
  · refine runUntil_iterate (n - 1) n _ (by omega) ?_ ?_
    · intro t ht
      rw [walked_index]
      rcases lt_or_ge (l + 1 + t) n with hlt | hge
      · rw [mod_eq_of_lt hlt]
        omega
      · rw [mod_eq_sub_mod hge, mod_eq_of_lt (by omega)]
        omega
    · rw [walked_index, show l + 1 + (n - 1) = l + n by omega, add_mod_right, mod_eq_of_lt hl]
  · intro r hr
    exact walked_mem draw step c₀ unset rs (n - 1) hr
  · exact walked_once draw step c₀ unset rs hl hlength
  · intro x hx
    rw [walked_challenge] at hx
    rw [walked_first draw step c₀ unset rs (n - 1) hl (by omega) (by omega)]
    refine replay_closes hl ?_ ?_
    · intro i _ hi
      exact update_of_ne hi x draw
    · rw [update_self]
      exact hx

end Walk
end Jero.Algebra
