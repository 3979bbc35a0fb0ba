import Mathlib.Tactic

namespace Jero.Lists
open List
variable {α : Type*}

structure SplitState (α : Type*) where
  space : Bool
  fields : List (List α)

def splitStep (isSpace : α → Bool) (st : SplitState α) (c : α) : SplitState α :=
  if isSpace c then ⟨true, st.fields⟩
  else if st.space then ⟨false, st.fields ++ [[c]]⟩
  else ⟨false, st.fields.dropLast ++ [st.fields.getLastD [] ++ [c]]⟩

def splitFields (isSpace : α → Bool) (l : List α) : List (List α) :=
  (l.foldl (splitStep isSpace) ⟨true, []⟩).fields

structure IsField (isSpace : α → Bool) (w : List α) : Prop where
  nonempty : w ≠ []
  solid : ∀ c ∈ w, isSpace c = false

variable {isSpace : α → Bool}

theorem foldl_splitStep_field {w : List α} (h : IsField isSpace w) (fields : List (List α)) :
    w.foldl (splitStep isSpace) ⟨true, fields⟩ = ⟨false, fields ++ [w]⟩ := by
  obtain ⟨hne, hsolid⟩ := h
  induction w using reverseRecOn with
  | nil => exact absurd rfl hne
  | append_singleton w c ih =>
    have hc := hsolid c (by simp)
    rw [foldl_append, foldl_cons, foldl_nil]
    rcases eq_or_ne w [] with rfl | hw
    · simp [splitStep, hc]
    · rw [ih hw (fun d hd => hsolid d (by simp [hd]))]
      simp [splitStep, hc]

theorem foldl_splitStep_terminated {sep : α} (hsep : isSpace sep = true) (ws : List (List α))
    (hws : ∀ w ∈ ws, IsField isSpace w) (fields : List (List α)) :
    (ws.flatMap (· ++ [sep])).foldl (splitStep isSpace) ⟨true, fields⟩ = ⟨true, fields ++ ws⟩ := by
  induction ws generalizing fields with
  | nil => simp
  | cons w ws ih =>
    rw [flatMap_cons, foldl_append, foldl_append,
      foldl_splitStep_field (hws w (by simp)), foldl_cons, foldl_nil, splitStep,
      if_pos hsep, ih (fun v hv => hws v (by simp [hv]))]
    simp

theorem splitFields_joined {sep : α} (hsep : isSpace sep = true) (ws : List (List α))
    (hws : ∀ w ∈ ws, IsField isSpace w) {last : List α} (hlast : IsField isSpace last) :
    splitFields isSpace (ws.flatMap (· ++ [sep]) ++ last) = ws ++ [last] := by
  rw [splitFields, foldl_append, foldl_splitStep_terminated hsep ws hws,
    foldl_splitStep_field hlast, nil_append]

end Jero.Lists
