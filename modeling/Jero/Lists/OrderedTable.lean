import Jero.Lists.SortedMap

namespace Jero.Lists.SortedMap
open List Option
section
variable {κ ν : Type} [LinearOrder κ]

def append (m : SortedMap κ ν) (k : κ) (v : ν) : Option (SortedMap κ ν) :=
  match m.entries.getLast? with
  | none => some (m.insert k v)
  | some last => if last.1 < k then some (m.insert k v) else none

variable {m m' : SortedMap κ ν} {k : κ} {v : ν}

theorem eq_of_mem_iff {l l' : List (κ × ν)} (hl : l.Pairwise (fun a b => a.1 < b.1))
    (hl' : l'.Pairwise (fun a b => a.1 < b.1)) (h : ∀ e, e ∈ l ↔ e ∈ l') : l = l' := by
  have hnodup : ∀ {l : List (κ × ν)}, l.Pairwise (fun a b => a.1 < b.1) → l.Nodup :=
    fun hsorted => hsorted.imp fun hlt heq => hlt.ne (congrArg Prod.fst heq)
  have hperm : l.Perm l' := (perm_ext_iff_of_nodup (hnodup hl) (hnodup hl')).mpr h
  refine hperm.eq_of_pairwise ?_ hl hl'
  intro a b _ _ hab hba
  exact absurd hba hab.asymm

theorem key_lt_of_last {l : List (κ × ν)} (hl : l.Pairwise (fun a b => a.1 < b.1))
    (h : ∀ last, l.getLast? = some last → last.1 < k) : ∀ e ∈ l, e.1 < k := by
  intro e he
  cases hlast : l.getLast? with
  | none =>
    rw [getLast?_eq_none_iff.mp hlast] at he
    cases he
  | some last => exact (key_le_getLast hl he hlast).trans_lt (h last hlast)

theorem sorted_concat {l : List (κ × ν)} (hl : l.Pairwise (fun a b => a.1 < b.1))
    (h : ∀ last, l.getLast? = some last → last.1 < k) :
    (l ++ [(k, v)]).Pairwise (fun a b => a.1 < b.1) := by
  refine pairwise_append.mpr ⟨hl, pairwise_singleton _ _, ?_⟩
  intro e he f hf
  rw [mem_singleton.mp hf]
  exact key_lt_of_last hl h e he

theorem appended {α : Type} {l : List (κ × ν)} {r r' : α} (h : (match l.getLast? with
      | none => some r
      | some last => if last.1 < k then some r else none) = some r') :
    (∀ last, l.getLast? = some last → last.1 < k) ∧ r' = r := by
  split at h
  · rename_i hnone
    exact ⟨fun last hlast => (nomatch hnone.symm.trans hlast), (some.inj h).symm⟩
  · rename_i last hlast
    split at h
    · rename_i hlt
      refine ⟨?_, (some.inj h).symm⟩
      intro other hother
      rwa [← some.inj (hlast.symm.trans hother)]
    · cases h

theorem find?_insert_fresh (hnone : m.find? k = none) {j : κ} {w : ν} :
    (m.insert k v).find? j = some w ↔ m.find? j = some w ∨ j = k ∧ w = v := by
  rw [find?_insert]
  split
  · rename_i hkey
    simp [hkey, hnone, eq_comm]
  · rename_i hkey
    simp [hkey]

theorem append_eq_some (h : m.append k v = some m') : m.find? k = none ∧ m' = m.insert k v := by
  obtain ⟨hlast, hinsert⟩ := appended h
  refine ⟨eq_none_iff_forall_ne_some.mpr ?_, hinsert⟩
  intro w hfind
  exact (key_lt_of_last m.sorted hlast _ ((m.mem_entries_iff (k, w)).mpr hfind)).false

theorem append_entries (h : m.append k v = some m') : m'.entries = m.entries ++ [(k, v)] := by
  obtain ⟨hnone, hinsert⟩ := append_eq_some h
  refine eq_of_mem_iff m'.sorted (sorted_concat m.sorted (appended h).1) ?_
  intro e
  rw [mem_entries_iff, hinsert, find?_insert_fresh hnone, mem_append, mem_entries_iff,
    mem_singleton, Prod.ext_iff]

theorem erase_insert (h : m.find? k = none) (v : ν) : (m.insert k v).erase k = m := by
  refine eq_of_find? ?_
  intro j
  rw [find?_erase, find?_insert]
  split
  · rename_i hj
    rw [hj, h]
  · rfl

theorem erase_of_find? (h : m.find? k = none) : m.erase k = m := by
  refine eq_of_find? ?_
  intro j
  rw [find?_erase]
  split
  · rename_i hj
    rw [hj, h]
  · rfl

theorem find?_foldl_erase (ks : List κ) (m : SortedMap κ ν) (j : κ) :
    (ks.foldl erase m).find? j = if j ∈ ks then none else m.find? j := by
  induction ks generalizing m with
  | nil => simp
  | cons k ks ih =>
    rw [foldl_cons, ih, find?_erase]
    by_cases hks : j ∈ ks
    · simp [hks]
    · by_cases hk : j = k
      · simp [hk]
      · simp [hks, hk]

theorem length_insert (h : m.find? k = none) (v : ν) :
    (m.insert k v).entries.length = m.entries.length + 1 := by
  have htotal := total_insert (m := m) (f := fun _ _ => 1) (k := k) v
  rw [h] at htotal
  simpa [total] using htotal

end
variable {α β ν : Type} [LinearOrder α] [LinearOrder β]

def dups (m : SortedMap (α ×ₗ β) ν) (a : α) : List (β × ν) :=
  m.entries.filterMap fun e =>
    if (ofLex e.1).1 = a then some ((ofLex e.1).2, e.2) else none

def appendDup (m : SortedMap (α ×ₗ β) ν) (a : α) (b : β) (v : ν) : Option (SortedMap (α ×ₗ β) ν) :=
  match (m.dups a).getLast? with
  | none => some (m.insert (toLex (a, b)) v)
  | some last => if last.1 < b then some (m.insert (toLex (a, b)) v) else none

theorem mem_dups {m : SortedMap (α ×ₗ β) ν} {a : α} {b : β} {v : ν} :
    (b, v) ∈ m.dups a ↔ m.find? (toLex (a, b)) = some v := by
  rw [dups, mem_filterMap]
  constructor
  · rintro ⟨e, he, hsome⟩
    split at hsome
    · rename_i ha
      obtain ⟨hb, hv⟩ := Prod.mk.inj (some.inj hsome)
      have hkey : e.1 = toLex (a, b) := by
        rw [← ha, ← hb]
        rfl
      rw [← hkey, ← hv]
      exact (m.mem_entries_iff e).mp he
    · cases hsome
  · intro hfind
    exact ⟨(toLex (a, b), v), (m.mem_entries_iff (toLex (a, b), v)).mpr hfind, if_pos rfl⟩

theorem dups_sorted (m : SortedMap (α ×ₗ β) ν) (a : α) :
    (m.dups a).Pairwise (fun x y => x.1 < y.1) := by
  refine List.Pairwise.filterMap _ ?_ m.sorted
  intro e e' hlt x hx y hy
  split at hx
  · rename_i ha
    split at hy
    · rename_i ha'
      obtain rfl := some.inj hx
      obtain rfl := some.inj hy
      obtain ⟨-, hsnd⟩ := Prod.Lex.lt_iff'.mp hlt
      exact hsnd (ha.trans ha'.symm)
    · cases hy
  · cases hx

variable {m m' : SortedMap (α ×ₗ β) ν} {a : α} {b : β} {v : ν} (h : m.appendDup a b v = some m')
include h

theorem appendDup_eq_some : m.find? (toLex (a, b)) = none ∧ m' = m.insert (toLex (a, b)) v := by
  obtain ⟨hlast, hinsert⟩ := appended h
  refine ⟨eq_none_iff_forall_ne_some.mpr ?_, hinsert⟩
  intro w hfind
  exact (key_lt_of_last (m.dups_sorted a) hlast _ (mem_dups.mpr hfind)).false

theorem dups_appendDup : m'.dups a = m.dups a ++ [(b, v)] := by
  obtain ⟨hnone, hinsert⟩ := appendDup_eq_some h
  refine eq_of_mem_iff (m'.dups_sorted a) (sorted_concat (m.dups_sorted a) (appended h).1) ?_
  rintro ⟨i, w⟩
  rw [mem_dups, hinsert, find?_insert_fresh hnone, mem_append, mem_dups, mem_singleton]
  simp

theorem dups_appendDup_of_ne {c : α} (hne : c ≠ a) : m'.dups c = m.dups c := by
  obtain ⟨-, hinsert⟩ := appendDup_eq_some h
  refine eq_of_mem_iff (m'.dups_sorted c) (m.dups_sorted c) ?_
  rintro ⟨i, w⟩
  have hkey : toLex (c, i) ≠ toLex (a, b) := fun heq =>
    hne (congrArg Prod.fst (toLex.injective heq))
  rw [mem_dups, mem_dups, hinsert, find?_insert, if_neg hkey]

end Jero.Lists.SortedMap
