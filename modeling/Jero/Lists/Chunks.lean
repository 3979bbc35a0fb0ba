import Mathlib.Algebra.Order.Floor.Div
import Mathlib.Tactic

namespace Jero.Lists
open List Nat
variable {n w : Nat} {α β : Type} (hw : 0 < w)
include hw

theorem ceilDiv_eq_succ (hn : 0 < n) : n ⌈/⌉ w = 1 + (n - 1) / w := by
  have he : n + w - 1 = (n - 1) + w := by omega
  rw [ceilDiv_eq_add_pred_div, he, add_div_right _ hw]
  omega

theorem ceilDiv_le_self (n : Nat) : n ⌈/⌉ w ≤ n := by
  rw [ceilDiv_le_iff_le_mul hw]
  exact Nat.le_mul_of_pos_left n hw

theorem ceilDiv_sub (hn : 0 < n) : n ⌈/⌉ w = 1 + (n - w) ⌈/⌉ w := by
  rw [ceilDiv_eq_succ hw hn]
  by_cases h : n ≤ w
  · have hz : n - w = 0 := by omega
    rw [hz, zero_ceilDiv, div_eq_of_lt (by omega)]
  · have he : n - 1 = (n - w - 1) + w := by omega
    rw [ceilDiv_eq_succ hw (by omega), he, add_div_right _ hw]
    omega

theorem mul_add_ceilDiv (q n : Nat) : (q * w + n) ⌈/⌉ w = q + n ⌈/⌉ w := by
  induction q with
  | zero => simp
  | succ q ih =>
    have hpos : 0 < (q + 1) * w + n := by rw [succ_mul]; omega
    have hsub : (q + 1) * w + n - w = q * w + n := by rw [succ_mul]; omega
    rw [ceilDiv_sub hw hpos, hsub, ih]
    omega

theorem ceilDiv_split : n ⌈/⌉ w = n / w + (if n % w > 0 then 1 else 0) := by
  rcases Nat.eq_zero_or_pos n with rfl | hn
  · simp
  · rw [ceilDiv_eq_succ hw hn]
    have hd := div_add_mod n w
    have hm := mod_lt n hw
    split
    · rename_i hr
      have he : n - 1 = (n % w - 1) + w * (n / w) := by omega
      rw [he, add_mul_div_left _ _ hw, div_eq_of_lt (by omega)]
      omega
    · rename_i hr
      have hq : 0 < n / w := by
        rcases Nat.eq_zero_or_pos (n / w) with h0 | h0
        · rw [h0, Nat.mul_zero] at hd
          omega
        · exact h0
      obtain ⟨q, hq'⟩ : ∃ q, n / w = q + 1 := ⟨n / w - 1, by omega⟩
      rw [hq', mul_succ] at hd
      have he : n - 1 = (w - 1) + w * q := by omega
      rw [he, hq', add_mul_div_left _ _ hw, div_eq_of_lt (by omega)]
      omega

theorem pred_divMod_of_mod_eq_zero (hn : 0 < n) (h : n % w = 0) :
    (n - 1) % w = w - 1 ∧ (n - 1) / w + 1 = n / w := by
  obtain ⟨q, rfl⟩ := dvd_of_mod_eq_zero h
  obtain ⟨k, rfl⟩ : ∃ k, q = k + 1 := ⟨q - 1, by
    rcases Nat.eq_zero_or_pos q with rfl | hq
    · simp at hn
    · omega⟩
  have he : w * (k + 1) - 1 = (w - 1) + w * k := by rw [mul_succ]; omega
  rw [he, add_mul_mod_self_left, add_mul_div_left _ _ hw, Nat.mul_div_cancel_left _ hw,
    div_eq_of_lt (by omega), mod_eq_of_lt (by omega)]
  exact ⟨rfl, by omega⟩

theorem pred_divMod_of_mod_ne_zero (h : n % w ≠ 0) :
    (n - 1) % w = n % w - 1 ∧ (n - 1) / w = n / w := by
  have hd := div_add_mod n w
  have hm := mod_lt n hw
  have he : n - 1 = (n % w - 1) + w * (n / w) := by omega
  constructor
  · rw [he, add_mul_mod_self_left, mod_eq_of_lt (by omega)]
  · conv_lhs => rw [he, add_mul_div_left _ _ hw, div_eq_of_lt (by omega)]
    omega

omit hw

def chunks (w : Nat) (l : List α) : List (List α) :=
  (List.range (l.length ⌈/⌉ w)).map (fun i => (l.drop (i * w)).take w)

@[simp] theorem chunks_nil (w : Nat) : chunks w ([] : List α) = [] := by
  simp [chunks]

theorem length_chunks (w : Nat) (l : List α) : (chunks w l).length = l.length ⌈/⌉ w := by
  simp [chunks]

variable {l : List α}
include hw

theorem chunks_eq_cons (hl : l ≠ []) :
    chunks w l = l.take w :: chunks w (l.drop w) := by
  have hn : 0 < l.length := length_pos_iff.mpr hl
  have hc : l.length ⌈/⌉ w = (l.drop w).length ⌈/⌉ w + 1 := by
    rw [ceilDiv_sub hw hn, length_drop, add_comm]
  unfold chunks
  rw [hc, range_succ_eq_map]
  simp only [map_cons, map_map, Nat.zero_mul, drop_zero, cons.injEq, true_and]
  apply map_congr_left
  intro i _
  simp only [Function.comp_apply, drop_drop, succ_mul]
  rw [add_comm w]

theorem chunks_append_of_length (q : Nat) (a b : List α) (h : a.length = q * w) :
    chunks w (a ++ b) = chunks w a ++ chunks w b := by
  induction q generalizing a with
  | zero =>
    have ha : a = [] := length_eq_zero_iff.mp (by simpa using h)
    subst ha
    simp
  | succ q ih =>
    rw [succ_mul] at h
    have ha : a ≠ [] := by rintro rfl; simp at h; omega
    have hab : a ++ b ≠ [] := by simp [ha]
    have hle : w ≤ a.length := by omega
    rw [chunks_eq_cons hw hab, chunks_eq_cons hw ha, take_append_of_le_length hle,
      drop_append_of_le_length hle, ih (a.drop w) (by rw [length_drop]; omega)]
    rfl

theorem chunks_take (q : Nat) (l : List α) (h : q * w ≤ l.length) :
    (chunks w l).take q = chunks w (l.take (q * w)) := by
  have hlen : (l.take (q * w)).length = q * w := by rw [length_take]; omega
  have hq : (chunks w (l.take (q * w))).length = q := by
    rw [length_chunks, hlen, ceilDiv_split hw, Nat.mul_div_cancel _ hw, mul_mod_left]
    simp
  conv_lhs => rw [← take_append_drop (q * w) l, chunks_append_of_length hw q _ _ hlen]
  rw [take_append_of_le_length (by omega), take_of_length_le (by omega)]

omit hw

theorem chunks_append_partial (r d : List α) (hr : r.length < w) (hd : d ≠ []) :
    chunks w (r ++ d) = (r ++ d.take (w - r.length)) :: chunks w (d.drop (w - r.length)) := by
  have hw : 0 < w := by omega
  rw [chunks_eq_cons hw (by simp [hd]), take_append, drop_append,
    take_of_length_le (by omega), drop_of_length_le (by omega), nil_append]

include hw

theorem chunks_splice (s : Nat) (x d : List α) (hs : s ≤ x.length) (hd : d ≠ []) :
    chunks w (x.take s ++ d) = (chunks w x).take (s / w) ++
      (((x.drop (s / w * w)).take (s % w) ++ d.take (w - s % w)) ::
        chunks w (d.drop (w - s % w))) := by
  have hdm := div_add_mod s w
  rw [mul_comm] at hdm
  have hmod := mod_lt s hw
  have hsplit : x.take s = x.take (s / w * w) ++ (x.drop (s / w * w)).take (s % w) := by
    conv_lhs => rw [← hdm, take_add]
  have hlen : (x.take (s / w * w)).length = s / w * w := by rw [length_take]; omega
  have hr : ((x.drop (s / w * w)).take (s % w)).length = s % w := by
    rw [length_take, length_drop]; omega
  rw [hsplit, append_assoc, chunks_append_of_length hw (s / w) _ _ hlen,
    chunks_append_partial _ _ (by omega) hd, hr, chunks_take hw (s / w) x (by omega)]

theorem getLast_chunks (hl : l ≠ []) :
    (chunks w l).getLast? = some (l.drop ((l.length - 1) / w * w)) := by
  have hn : 0 < l.length := length_pos_iff.mpr hl
  have hd := div_add_mod (l.length - 1) w
  have hm := mod_lt (l.length - 1) hw
  rw [mul_comm] at hd
  rw [chunks, ceilDiv_eq_succ hw hn, add_comm, range_succ, map_append,
    map_singleton, getLast?_append, getLast?_singleton]
  rw [take_of_length_le (by rw [length_drop]; omega)]
  rfl

omit hw

def fullChunks (w : Nat) (l : List α) : List (List α) :=
  (List.range (l.length / w)).map (fun i => (l.drop (i * w)).take w)

def lastChunk (w : Nat) (l : List α) : List α := l.drop (l.length / w * w)

theorem fullChunks_of_lt (h : l.length < w) : fullChunks w l = [] := by
  rw [fullChunks, div_eq_of_lt h]
  rfl

theorem lastChunk_of_lt (h : l.length < w) : lastChunk w l = l := by
  rw [lastChunk, div_eq_of_lt h, Nat.zero_mul, drop_zero]

include hw

theorem fullChunks_append {a : List α} (ha : a.length = w) (l : List α) :
    fullChunks w (a ++ l) = a :: fullChunks w l := by
  have hcount : (a ++ l).length / w = l.length / w + 1 := by
    rw [length_append, ha, add_comm, add_div_right _ hw]
  unfold fullChunks
  rw [hcount, range_succ_eq_map, map_cons, map_map, Nat.zero_mul, drop_zero,
    take_append_of_le_length ha.ge, take_of_length_le ha.le]
  refine congrArg (cons a) (map_congr_left ?_)
  intro i _
  rw [Function.comp_apply, succ_mul, add_comm, ← drop_drop,
    drop_append_of_le_length ha.ge, drop_of_length_le ha.le, nil_append]

theorem lastChunk_append {a : List α} (ha : a.length = w) (l : List α) :
    lastChunk w (a ++ l) = lastChunk w l := by
  have hcount : (a ++ l).length / w * w = w + l.length / w * w := by
    rw [length_append, ha, add_comm, add_div_right _ hw, succ_mul, add_comm]
  rw [lastChunk, hcount, ← drop_drop, drop_append_of_le_length ha.ge,
    drop_of_length_le ha.le, nil_append, lastChunk]

theorem chunk_induction {P : List α → Prop} (short : ∀ l, l.length < w → P l)
    (full : ∀ a l, a.length = w → P l → P (a ++ l)) (l : List α) : P l := by
  induction hn : l.length using Nat.strong_induction_on generalizing l with
  | _ n ih =>
    rcases lt_or_ge l.length w with hshort | hlong
    · exact short l hshort
    · rw [← take_append_drop w l]
      refine full _ _ (length_take_of_le hlong) (ih _ ?_ _ rfl)
      rw [length_drop]
      omega

omit hw

def interleave : List α → List α → List α
  | [], bs => bs
  | a :: as, [] => a :: as
  | a :: as, b :: bs => a :: b :: interleave as bs

theorem interleave_cons (a : α) (as bs : List α) :
    interleave (a :: as) bs = a :: interleave bs as := by
  induction bs generalizing a as with
  | nil => cases as <;> rfl
  | cons b bs ih =>
    cases as with
    | nil => cases bs <;> rfl
    | cons c as => simp only [interleave, ih]

end Jero.Lists
