import Mathlib.Tactic

namespace Jero.Lists
open List
variable {κ κ' ν : Type*} [DecidableEq κ']

def upsert (key : κ → κ') : List (κ × ν) → κ → ν → List (κ × ν)
  | [], k, v => [(k, v)]
  | e :: table, k, v =>
    if key e.1 = key k then (e.1, v) :: table else e :: upsert key table k v

def lookupBy (key : κ → κ') (table : List (κ × ν)) (k : κ) : Option (κ × ν) :=
  table.find? (fun e => key e.1 = key k)

def tabulate (key : κ → κ') (entries : List (κ × ν)) : List (κ × ν) :=
  entries.foldl (fun table e => upsert key table e.1 e.2) []

variable {key : κ → κ'} {table : List (κ × ν)} {k : κ} {e : κ × ν}

theorem upsert_fresh (h : ∀ e ∈ table, key e.1 ≠ key k) (v : ν) :
    upsert key table k v = table ++ [(k, v)] := by
  induction table with
  | nil => rfl
  | cons e table ih =>
    rw [upsert, if_neg (h e (by simp)), ih (fun e' he' => h e' (by simp [he']))]
    rfl

theorem tabulate_distinct (entries : List (κ × ν))
    (h : (entries.map (fun e => key e.1)).Nodup) : tabulate key entries = entries := by
  induction entries using reverseRecOn with
  | nil => rfl
  | append_singleton entries e ih =>
    rw [map_append, nodup_append] at h
    obtain ⟨hinit, -, hfresh⟩ := h
    rw [tabulate, foldl_append, ← tabulate, ih hinit, foldl_cons, foldl_nil]
    refine upsert_fresh ?_ e.2
    intro e' he'
    exact hfresh _ (mem_map_of_mem he') _ (by simp)

theorem lookupBy_of_mem (h : (table.map (fun e => key e.1)).Nodup) (he : e ∈ table)
    (hk : key k = key e.1) : lookupBy key table k = some e := by
  induction table with
  | nil => cases he
  | cons d table ih =>
    rw [map_cons, nodup_cons] at h
    rw [lookupBy, find?_cons]
    rcases mem_cons.mp he with rfl | htail
    · simp [hk]
    · have hne : key d.1 ≠ key k := by
        rw [hk]
        intro heq
        exact h.1 (heq ▸ mem_map_of_mem htail)
      simpa [hne, lookupBy] using ih h.2 htail

theorem upsert_values {v : ν} (h : e ∈ upsert key table k v) :
    e.2 = v ∨ ∃ d ∈ table, d.2 = e.2 := by
  induction table with
  | nil =>
    rw [upsert, mem_singleton] at h
    exact .inl (congrArg Prod.snd h)
  | cons d table ih =>
    rw [upsert] at h
    split at h
    · rcases mem_cons.mp h with rfl | htail
      · exact .inl rfl
      · exact .inr ⟨e, by simp [htail], rfl⟩
    · rcases mem_cons.mp h with rfl | htail
      · exact .inr ⟨e, by simp, rfl⟩
      · rcases ih htail with heq | ⟨d', hd', heq⟩
        · exact .inl heq
        · exact .inr ⟨d', by simp [hd'], heq⟩

theorem tabulate_values {entries : List (κ × ν)} (h : e ∈ tabulate key entries) :
    ∃ d ∈ entries, d.2 = e.2 := by
  induction entries using reverseRecOn generalizing e with
  | nil => cases h
  | append_singleton entries d ih =>
    rw [tabulate, foldl_append, ← tabulate, foldl_cons, foldl_nil] at h
    rcases upsert_values h with heq | ⟨d', hd', heq⟩
    · exact ⟨d, by simp, heq.symm⟩
    · obtain ⟨d'', hd'', heq'⟩ := ih hd'
      exact ⟨d'', by simp [hd''], heq'.trans heq⟩

end Jero.Lists
