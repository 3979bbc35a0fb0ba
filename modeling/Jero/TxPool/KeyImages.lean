import Jero.TxPool.Add

namespace Jero.TxPool
open Jero.Lists Jero.Tx List SortedMap

abbrev KeyImageIndex := SortedMap KeyImage (Finset Hash)

def holders (images : KeyImageIndex) (k : KeyImage) : Finset Hash := (images.find? k).getD ∅

def NoneEmpty (images : KeyImageIndex) : Prop := ∀ k s, images.find? k = some s → s ≠ ∅

variable {images : KeyImageIndex} {id : Hash}

theorem holders_insert (images : KeyImageIndex) (k j : KeyImage) (s : Finset Hash) :
    holders (images.insert k s) j = if j = k then s else holders images j := by
  unfold holders
  rw [find?_insert]
  split <;> rfl

theorem holders_erase (images : KeyImageIndex) (k j : KeyImage) :
    holders (images.erase k) j = if j = k then ∅ else holders images j := by
  unfold holders
  rw [find?_erase]
  split <;> rfl

theorem NoneEmpty.insert (h : NoneEmpty images) (k : KeyImage) {s : Finset Hash} (hs : s ≠ ∅) :
    NoneEmpty (images.insert k s) := by
  intro j t hj
  rw [find?_insert] at hj
  split at hj
  · obtain rfl := Option.some.inj hj
    exact hs
  · exact h j t hj

theorem insertKeyImages_noneEmpty (legacy : Bool) (relay : RelayMethod) (vin : List TxIn)
    (h : NoneEmpty images) : NoneEmpty (insertKeyImages legacy id relay vin images).2 := by
  induction vin generalizing images with
  | nil => exact h
  | cons txin vin ih =>
    cases txin with
    | toKey input =>
      have hnext := h.insert input.kImage (Finset.insert_ne_empty id (holders images input.kImage))
      simp only [insertKeyImages]
      split
      · exact h
      · split
        · exact ih hnext
        · exact hnext
    | gen height => exact h
    | toScript => exact h
    | toScriptHash => exact h

variable {vin : List TxIn}

theorem insertKeyImages_known (legacy : Bool) (relay : RelayMethod)
    (h : ∀ k ∈ keyImages vin, id ∈ holders images k) (k : KeyImage) :
    holders (insertKeyImages legacy id relay vin images).2 k = holders images k := by
  induction vin generalizing images with
  | nil => rfl
  | cons txin vin ih =>
    cases txin with
    | toKey input =>
      rw [keyImages_cons_toKey] at h
      obtain ⟨hhead, htail⟩ := forall_mem_cons.mp h
      have hsame : ∀ j, holders (images.insert input.kImage
          (insert id (holders images input.kImage))) j = holders images j := by
        intro j
        rw [holders_insert, Finset.insert_eq_of_mem hhead]
        split
        · rename_i hj
          rw [hj]
        · rfl
      simp only [insertKeyImages]
      split
      · rfl
      · split
        · refine (ih ?_).trans (hsame k)
          intro j hj
          change id ∈ holders (images.insert input.kImage (insert id (holders images input.kImage))) j
          rw [hsame]
          exact htail j hj
        · exact hsame k
    | gen height => rfl
    | toScript => rfl
    | toScriptHash => rfl

theorem insertKeyImages_new {relay : RelayMethod} (legacy : Bool) (hkeys : AllToKey vin)
    (hnodup : (keyImages vin).Nodup) (hfresh : ∀ k ∈ keyImages vin, id ∉ holders images k)
    (hfree : relay ≠ .block → ∀ k ∈ keyImages vin, holders images k = ∅) :
    (insertKeyImages legacy id relay vin images).1 = true ∧ ∀ k,
      holders (insertKeyImages legacy id relay vin images).2 k =
        if k ∈ keyImages vin then insert id (holders images k) else holders images k := by
  induction vin generalizing images with
  | nil => exact ⟨rfl, fun _ => rfl⟩
  | cons txin vin ih =>
    obtain ⟨⟨input, rfl⟩, htail⟩ := forall_mem_cons.mp hkeys
    rw [keyImages_cons_toKey] at hnodup hfresh hfree ⊢
    obtain ⟨hnot, hrest⟩ := nodup_cons.mp hnodup
    obtain ⟨hhead, hothers⟩ := forall_mem_cons.mp hfresh
    have hguard : ¬ (relay ≠ .block ∧ ¬ ((images.find? input.kImage).getD ∅ = ∅ ∨
        (images.find? input.kImage).getD ∅ = {id})) := by
      rintro ⟨hrelay, hbad⟩
      exact hbad (.inl (hfree hrelay _ mem_cons_self))
    have hstep : insertKeyImages legacy id relay (.toKey input :: vin) images =
        insertKeyImages legacy id relay vin
          (images.insert input.kImage (insert id (holders images input.kImage))) := by
      simp only [insertKeyImages]
      rw [if_neg hguard]
      exact if_pos (.inl hhead)
    have hsame : ∀ k ∈ keyImages vin, holders (images.insert input.kImage
        (insert id (holders images input.kImage))) k = holders images k := by
      intro k hk
      rw [holders_insert, if_neg]
      rintro rfl
      exact hnot hk
    obtain ⟨hok, hholders⟩ := @ih
      (images.insert input.kImage (insert id (holders images input.kImage))) htail hrest
      (fun k hk => (hsame k hk).symm ▸ hothers k hk)
      (fun hrelay k hk => (hsame k hk).trans (hfree hrelay k (mem_cons_of_mem _ hk)))
    rw [hstep]
    refine ⟨hok, ?_⟩
    intro k
    rw [hholders, holders_insert]
    by_cases hk : k = input.kImage
    · subst hk
      simp [hnot]
    · simp [hk]

theorem removeTransactionKeyimages_spec (hkeys : AllToKey vin) (hnodup : (keyImages vin).Nodup)
    (hheld : ∀ k ∈ keyImages vin, id ∈ holders images k) :
    (removeTransactionKeyimages id vin images).1 = true ∧ ∀ k,
      holders (removeTransactionKeyimages id vin images).2 k =
        if k ∈ keyImages vin then (holders images k).erase id else holders images k := by
  induction vin generalizing images with
  | nil => exact ⟨rfl, fun _ => rfl⟩
  | cons txin vin ih =>
    obtain ⟨⟨input, rfl⟩, htail⟩ := forall_mem_cons.mp hkeys
    rw [keyImages_cons_toKey] at hnodup hheld ⊢
    obtain ⟨hnot, hrest⟩ := nodup_cons.mp hnodup
    obtain ⟨hhead, hothers⟩ := forall_mem_cons.mp hheld
    obtain ⟨s, hs⟩ : ∃ s, images.find? input.kImage = some s := by
      cases hfind : images.find? input.kImage with
      | none =>
        rw [holders, hfind] at hhead
        exact absurd hhead (Finset.notMem_empty id)
      | some s => exact ⟨s, rfl⟩
    have hset : holders images input.kImage = s := by
      rw [holders, hs]
      rfl
    rw [hset] at hhead
    have hnext : ∀ j, holders (if s.erase id = ∅ then images.erase input.kImage
        else images.insert input.kImage (s.erase id)) j =
          if j = input.kImage then s.erase id else holders images j := by
      intro j
      split
      · rename_i hempty
        rw [holders_erase, hempty]
      · rw [holders_insert]
    have hstep : removeTransactionKeyimages id (.toKey input :: vin) images =
        removeTransactionKeyimages id vin (if s.erase id = ∅ then images.erase input.kImage
          else images.insert input.kImage (s.erase id)) := by
      simp only [removeTransactionKeyimages, hs]
      rw [if_neg (not_not.mpr hhead)]
    obtain ⟨hok, hholders⟩ := @ih (if s.erase id = ∅ then images.erase input.kImage
        else images.insert input.kImage (s.erase id)) htail hrest (by
      intro k hk
      rw [hnext, if_neg]
      · exact hothers k hk
      · rintro rfl
        exact hnot hk)
    rw [hstep]
    refine ⟨hok, ?_⟩
    intro k
    rw [hholders, hnext]
    by_cases hk : k = input.kImage
    · subst hk
      simp [hnot, hset]
    · simp [hk]

theorem removeTransactionKeyimages_noneEmpty (vin : List TxIn) (h : NoneEmpty images) :
    NoneEmpty (removeTransactionKeyimages id vin images).2 := by
  induction vin generalizing images with
  | nil => exact h
  | cons txin vin ih =>
    cases txin with
    | toKey input =>
      simp only [removeTransactionKeyimages]
      split
      · exact h
      · split
        · exact h
        · refine ih ?_
          split
          · intro j t hj
            rw [find?_erase] at hj
            split at hj
            · cases hj
            · exact h j t hj
          · rename_i hrest
            exact h.insert _ hrest
    | gen height => exact h
    | toScript => exact h
    | toScriptHash => exact h

end Jero.TxPool
