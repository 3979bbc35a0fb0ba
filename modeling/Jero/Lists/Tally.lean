import Mathlib.Data.List.Basic

namespace Jero.Lists
open List Function
variable {α : Type} {n m : Nat}

def lastN (n : Nat) (l : List α) : List α := l.drop (l.length - n)

theorem length_lastN (n : Nat) (l : List α) : (lastN n l).length = min n l.length := by
  rw [lastN, length_drop]
  omega

theorem lastN_of_le {l : List α} (h : l.length ≤ n) : lastN n l = l := by
  rw [lastN, Nat.sub_eq_zero_of_le h, drop_zero]

theorem lastN_lastN (h : n ≤ m) (l : List α) : lastN n (lastN m l) = lastN n l := by
  rw [lastN, length_lastN, lastN, drop_drop, lastN]
  congr 1
  omega

theorem lastN_append_singleton (n : Nat) (l : List α) (a : α) :
    lastN (n + 1) (l ++ [a]) = lastN n l ++ [a] := by
  rw [lastN, length_append, length_singleton, Nat.add_sub_add_right,
    drop_append_of_le_length (Nat.sub_le _ _), lastN]

variable [DecidableEq α]

def tally (l : List α) (a : α) : UInt32 := UInt32.ofNat (l.count a)

theorem tally_nil : tally ([] : List α) = fun _ => 0 := rfl

theorem tally_perm {l l' : List α} (h : l.Perm l') : tally l = tally l' := by
  funext a
  rw [tally, tally, h.count_eq]

theorem tally_cons (a : α) (l : List α) :
    update (tally l) a (tally l a + 1) = tally (a :: l) := by
  funext b
  rw [update_apply, tally, tally, tally]
  split
  · rename_i hb
    rw [hb, count_cons_self, UInt32.ofNat_add]
    rfl
  · rename_i hb
    rw [count_cons_of_ne (Ne.symm hb)]

theorem tally_uncons (a : α) (l : List α) :
    update (tally (a :: l)) a (tally (a :: l) a - 1) = tally l := by
  rw [← tally_cons, update_self, update_idem, UInt32.add_sub_cancel, update_eq_self]

theorem tally_snoc (l : List α) (a : α) :
    update (tally l) a (tally l a + 1) = tally (l ++ [a]) := by
  rw [tally_cons]
  exact tally_perm (perm_append_singleton a l).symm

theorem tally_unsnoc (l : List α) (a : α) :
    update (tally (l ++ [a])) a (tally (l ++ [a]) a - 1) = tally l := by
  rw [tally_perm (perm_append_singleton a l)]
  exact tally_uncons a l

end Jero.Lists
