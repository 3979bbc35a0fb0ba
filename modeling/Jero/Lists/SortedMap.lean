import Mathlib.Tactic

namespace Jero.Lists
open List Option
variable {κ ν : Type} [LinearOrder κ]

def putEntry (k : κ) (v : ν) : List (κ × ν) → List (κ × ν)
  | [] => [(k, v)]
  | e :: m => if k < e.1 then (k, v) :: e :: m else if k = e.1 then (k, v) :: m else e :: putEntry k v m

variable {e : κ × ν} {v : ν}

theorem mem_putEntry {k : κ} {m : List (κ × ν)} (h : e ∈ putEntry k v m) : e = (k, v) ∨ e ∈ m := by
  induction m with
  | nil => exact .inl (mem_singleton.mp h)
  | cons a m ih =>
    simp only [putEntry] at h
    split at h
    · rcases mem_cons.mp h with rfl | hm
      · exact .inl rfl
      · exact .inr hm
    · split at h
      · rcases mem_cons.mp h with rfl | hm
        · exact .inl rfl
        · exact .inr (mem_cons_of_mem _ hm)
      · rcases mem_cons.mp h with rfl | hm
        · exact .inr mem_cons_self
        · rcases ih hm with rfl | hm
          · exact .inl rfl
          · exact .inr (mem_cons_of_mem _ hm)

variable (k : κ)

theorem sorted_putEntry (v : ν) {m : List (κ × ν)}
    (h : m.Pairwise (fun a b => a.1 < b.1)) : (putEntry k v m).Pairwise (fun a b => a.1 < b.1) := by
  induction m with
  | nil => exact pairwise_singleton _ _
  | cons a m ih =>
    obtain ⟨ha, hm⟩ := pairwise_cons.mp h
    simp only [putEntry]
    split
    · rename_i hlt
      refine pairwise_cons.mpr ⟨?_, h⟩
      intro b hb
      rcases mem_cons.mp hb with rfl | hb
      · exact hlt
      · exact lt_trans hlt (ha b hb)
    · split
      · rename_i heq
        refine pairwise_cons.mpr ⟨?_, hm⟩
        intro b hb
        rw [heq]
        exact ha b hb
      · rename_i hnlt hne
        refine pairwise_cons.mpr ⟨?_, ih hm⟩
        intro b hb
        rcases mem_putEntry hb with rfl | hb
        · exact lt_of_le_of_ne (le_of_not_gt hnlt) (Ne.symm hne)
        · exact ha b hb

def getEntry (k : κ) : List (κ × ν) → Option ν
  | [] => none
  | e :: m => if k = e.1 then some e.2 else getEntry k m

theorem getEntry_putEntry (v : ν) (m : List (κ × ν)) (j : κ) :
    getEntry j (putEntry k v m) = if j = k then some v else getEntry j m := by
  induction m with
  | nil => rfl
  | cons e m ih =>
    simp only [putEntry]
    split
    · rfl
    · split
      · rename_i heq
        simp only [getEntry, ← heq]
        split <;> rfl
      · rename_i hne
        simp only [getEntry, ih]
        by_cases hj : j = e.1
        · have hjk : j ≠ k := fun hjk => hne (hjk.symm.trans hj)
          rw [if_pos hj, if_neg hjk, if_pos hj]
        · rw [if_neg hj, if_neg hj]

theorem getEntry_filter_ne (m : List (κ × ν)) (j : κ) :
    getEntry j (m.filter (fun e => e.1 ≠ k)) = if j = k then none else getEntry j m := by
  induction m with
  | nil => simp [getEntry]
  | cons e m ih =>
    by_cases he : e.1 = k
    · have hdrop : (e :: m).filter (fun e => e.1 ≠ k) = m.filter (fun e => e.1 ≠ k) := by simp [he]
      rw [hdrop, ih]
      by_cases hj : j = k
      · rw [if_pos hj, if_pos hj]
      · rw [if_neg hj, if_neg hj, getEntry, if_neg (fun h => hj (h.trans he))]
    · have hkeep : (e :: m).filter (fun e => e.1 ≠ k) = e :: m.filter (fun e => e.1 ≠ k) := by
        simp [he]
      rw [hkeep, getEntry, ih]
      by_cases hj : j = e.1
      · have hjk : j ≠ k := fun h => he (hj.symm.trans h)
        rw [if_pos hj, if_neg hjk, getEntry, if_pos hj]
      · rw [if_neg hj, getEntry, if_neg hj]

theorem mem_of_getEntry {k : κ} {m : List (κ × ν)} (h : getEntry k m = some v) : (k, v) ∈ m := by
  induction m with
  | nil => cases h
  | cons e m ih =>
    simp only [getEntry] at h
    split at h
    · rename_i hk
      obtain rfl := some.inj h
      rw [hk]
      exact mem_cons_self
    · exact mem_cons_of_mem _ (ih h)

theorem getEntry_of_mem {m : List (κ × ν)} (h : m.Pairwise (fun a b => a.1 < b.1)) (he : e ∈ m) :
    getEntry e.1 m = some e.2 := by
  induction m with
  | nil => cases he
  | cons a m ih =>
    obtain ⟨ha, hm⟩ := pairwise_cons.mp h
    rcases mem_cons.mp he with rfl | he
    · rw [getEntry, if_pos rfl]
    · rw [getEntry, if_neg (ha e he).ne']
      exact ih hm he

theorem key_le_getLast {m : List (κ × ν)} (h : m.Pairwise (fun a b => a.1 < b.1)) {last : κ × ν}
    (he : e ∈ m) (hlast : m.getLast? = some last) : e.1 ≤ last.1 := by
  induction m generalizing e with
  | nil => cases he
  | cons a m ih =>
    obtain ⟨ha, hm⟩ := pairwise_cons.mp h
    cases m with
    | nil =>
      have hsame : a = last := some.inj hlast
      rw [mem_singleton.mp he, hsame]
    | cons b m =>
      rw [getLast?_cons_cons] at hlast
      rcases mem_cons.mp he with rfl | he
      · exact (ha b mem_cons_self).le.trans (ih hm mem_cons_self hlast)
      · exact ih hm he hlast

structure SortedMap (κ ν : Type) [LinearOrder κ] where
  entries : List (κ × ν)
  sorted : entries.Pairwise (fun a b => a.1 < b.1)
deriving DecidableEq

namespace SortedMap

def empty : SortedMap κ ν := ⟨[], .nil⟩

def find? (m : SortedMap κ ν) (k : κ) : Option ν := getEntry k m.entries

def insert (m : SortedMap κ ν) (k : κ) (v : ν) : SortedMap κ ν :=
  ⟨putEntry k v m.entries, sorted_putEntry k v m.sorted⟩

def erase (m : SortedMap κ ν) (k : κ) : SortedMap κ ν :=
  ⟨m.entries.filter (fun e => e.1 ≠ k), m.sorted.filter _⟩

variable (m : SortedMap κ ν)

@[simp] theorem find?_empty : (empty : SortedMap κ ν).find? k = none := rfl

theorem find?_insert (k j : κ) (v : ν) :
    (m.insert k v).find? j = if j = k then some v else m.find? j := getEntry_putEntry k v m.entries j

@[simp] theorem find?_insert_self (v : ν) : (m.insert k v).find? k = some v := by
  rw [find?_insert, if_pos rfl]

theorem find?_erase (k j : κ) : (m.erase k).find? j = if j = k then none else m.find? j :=
  getEntry_filter_ne k m.entries j

theorem nodup_keys : (m.entries.map Prod.fst).Nodup := by
  rw [List.Nodup, pairwise_map]
  exact m.sorted.imp (fun h => ne_of_lt h)

theorem nodup_entries : m.entries.Nodup := m.nodup_keys.of_map _

theorem mem_entries_iff (e : κ × ν) : e ∈ m.entries ↔ m.find? e.1 = some e.2 :=
  ⟨getEntry_of_mem m.sorted, mem_of_getEntry⟩

def total (f : κ → ν → Nat) : Nat := (m.entries.map fun e => f e.1 e.2).sum

variable {m} {f : κ → ν → Nat} {k : κ}

theorem eq_of_find? {m₁ m₂ : SortedMap κ ν} (h : ∀ k, m₁.find? k = m₂.find? k) : m₁ = m₂ := by
  have hperm : m₁.entries.Perm m₂.entries := by
    refine (perm_ext_iff_of_nodup m₁.nodup_entries m₂.nodup_entries).mpr ?_
    intro e
    rw [mem_entries_iff, mem_entries_iff, h]
  have hentries : m₁.entries = m₂.entries := by
    refine hperm.eq_of_pairwise ?_ m₁.sorted m₂.sorted
    intro a b _ _ hab hba
    exact absurd hba hab.asymm
  cases m₁
  cases m₂
  cases hentries
  rfl

theorem perm_insert (v : ν) : (m.insert k v).entries.Perm ((k, v) :: (m.erase k).entries) := by
  have habsent : (k, v) ∉ (m.erase k).entries := by
    rw [mem_entries_iff, find?_erase, if_pos rfl]
    simp
  refine (perm_ext_iff_of_nodup (m.insert k v).nodup_entries
    (nodup_cons.mpr ⟨habsent, (m.erase k).nodup_entries⟩)).mpr ?_
  rintro ⟨j, w⟩
  rw [mem_cons, mem_entries_iff, mem_entries_iff, find?_insert, find?_erase, Prod.mk.injEq]
  by_cases hj : j = k
  · simp [hj, eq_comm]
  · simp [hj]

theorem total_insert_erase (v : ν) : (m.insert k v).total f = f k v + (m.erase k).total f := by
  rw [total, total, ((perm_insert v).map _).sum_eq, map_cons, sum_cons]

theorem total_erase : (m.erase k).total f + (m.find? k).elim 0 (f k) = m.total f := by
  cases hfind : m.find? k with
  | none =>
    have hsame : m.erase k = m := by
      refine eq_of_find? fun j => (m.find?_erase k j).trans ?_
      split
      · rename_i hj
        rw [hj, hfind]
      · rfl
    rw [hsame]
    rfl
  | some w =>
    have hsame : m.insert k w = m := by
      refine eq_of_find? fun j => (m.find?_insert k j w).trans ?_
      split
      · rename_i hj
        rw [hj, hfind]
      · rfl
    rw [elim_some, Nat.add_comm, ← total_insert_erase, hsame]

theorem total_insert (v : ν) :
    (m.insert k v).total f + (m.find? k).elim 0 (f k) = m.total f + f k v := by
  rw [total_insert_erase, Nat.add_assoc, total_erase, Nat.add_comm]

theorem insert_erase (m : SortedMap κ ν) (k : κ) (v : ν) :
    (m.erase k).insert k v = m.insert k v := by
  refine eq_of_find? ?_
  intro j
  rw [find?_insert, find?_insert, find?_erase]
  split <;> rfl

end SortedMap
end Jero.Lists
