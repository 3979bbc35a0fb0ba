import Jero.Protocol.BlockQueue

namespace Jero.Protocol.BlockQueue
open Jero.Machine Jero.Lists Jero.Tx List Option Function
variable {β : Type} {q q' : BlockQueue β} {start : Nat} {span : Span β}

structure Indexed (q : BlockQueue β) : Prop where
  requested : ∀ h, h ∈ q.requestedHashes ↔
    ∃ start span, q.blocks.find? start = some span ∧ h ∈ span.hashes
  filled : ∀ h k, q.haveBlocks h = some k ↔ ∃ start span i, q.blocks.find? start = some span ∧
    span.blocks ≠ [] ∧ span.hashes[i]? = some h ∧ k = wrap (start + i)
  owner : ∀ start span start' span' h, q.blocks.find? start = some span →
    q.blocks.find? start' = some span' → h ∈ span.hashes → h ∈ span'.hashes → start = start'
  nodup : ∀ start span, q.blocks.find? start = some span → span.hashes.Nodup

variable (hashes : List Hash)

theorem forget_blocks : (q.forget hashes).blocks = q.blocks := by
  induction hashes generalizing q with
  | nil => rfl
  | cons h hashes ih => rw [forget, ih]

theorem mem_forget {h : Hash} :
    h ∈ (q.forget hashes).requestedHashes ↔ h ∉ hashes ∧ h ∈ q.requestedHashes := by
  induction hashes generalizing q with
  | nil => simp [forget]
  | cons h' hashes ih =>
    rw [forget, ih, Finset.mem_erase, mem_cons, not_or]
    tauto

theorem haveBlocks_forget {h : Hash} {k : Nat} :
    (q.forget hashes).haveBlocks h = some k ↔ h ∉ hashes ∧ q.haveBlocks h = some k := by
  induction hashes generalizing q with
  | nil => simp [forget]
  | cons h' hashes ih =>
    rw [forget, ih, mem_cons, not_or]
    simp only [update_apply]
    split
    · rename_i heq
      simp [heq]
    · rename_i hne
      simp [hne]

theorem request_eq :
    (q.request hashes).blocks = q.blocks ∧ (q.request hashes).haveBlocks = q.haveBlocks ∧
      ∀ h, h ∈ (q.request hashes).requestedHashes ↔ h ∈ hashes ∨ h ∈ q.requestedHashes := by
  induction hashes generalizing q with
  | nil => exact ⟨rfl, rfl, fun h => by simp [request]⟩
  | cons h' hashes ih =>
    obtain ⟨hblocks, hhave, hrequested⟩ := @ih
      { q with requestedHashes := insert h' q.requestedHashes }
    refine ⟨hblocks, hhave, fun h => ?_⟩
    rw [request, hrequested, Finset.mem_insert, mem_cons]
    tauto

theorem receive_blocks (height : Nat) :
    (q.receive hashes height).blocks = q.blocks ∧
      ∀ h, h ∈ (q.receive hashes height).requestedHashes ↔ h ∈ hashes ∨ h ∈ q.requestedHashes := by
  induction hashes generalizing q height with
  | nil => exact ⟨rfl, fun h => by simp [receive]⟩
  | cons h' hashes ih =>
    rw [receive]
    obtain ⟨hblocks, hrequested⟩ := ih (height + 1)
    refine ⟨hblocks, fun h => ?_⟩
    rw [hrequested, Finset.mem_insert, mem_cons]
    tauto

theorem receive_haveBlocks {hashes : List Hash} (hnodup : hashes.Nodup)
    (hfree : ∀ h ∈ hashes, q.haveBlocks h = none) (height : Nat) (h : Hash) (k : Nat) :
    (q.receive hashes height).haveBlocks h = some k ↔
      q.haveBlocks h = some k ∨ ∃ i, hashes[i]? = some h ∧ k = wrap (height + i) := by
  induction hashes generalizing q height with
  | nil => simp [receive]
  | cons h' hashes ih =>
    obtain ⟨hnew, hnodup⟩ := nodup_cons.mp hnodup
    obtain ⟨hfree', hfree⟩ := forall_mem_cons.mp hfree
    rw [receive]
    simp only [hfree', isSome_none, Bool.false_eq_true, if_false]
    rw [ih hnodup]
    · simp only [update_apply]
      constructor
      · rintro (hold | ⟨i, hi, rfl⟩)
        · split at hold
          · rename_i heq
            exact .inr ⟨0, by rw [heq]; rfl, (some.inj hold).symm⟩
          · exact .inl hold
        · exact .inr ⟨i + 1, hi, by rw [add_assoc, add_comm 1]⟩
      · rintro (hold | ⟨i, hi, rfl⟩)
        · left
          rw [if_neg]
          · exact hold
          · rintro rfl
            rw [hfree'] at hold
            cases hold
        · cases i with
          | zero =>
            left
            rw [if_pos (some.inj hi).symm]
            rfl
          | succ i =>
            right
            exact ⟨i, hi, by rw [add_assoc, add_comm 1]⟩
    · intro g hg
      simp only [update_apply]
      rw [if_neg]
      · exact hfree g hg
      · rintro rfl
        exact hnew hg

theorem Indexed.empty : Indexed (empty : BlockQueue β) where
  requested := by simp [BlockQueue.empty]
  filled := by simp [BlockQueue.empty]
  owner := by simp [BlockQueue.empty]
  nodup := by simp [BlockQueue.empty]

theorem find?_eraseBlock (q : BlockQueue β) (start : Nat) (span : Span β) (start' : Nat) :
    (q.eraseBlock start span).blocks.find? start' =
      if start' = start then none else q.blocks.find? start' := by
  rw [eraseBlock, forget_blocks, SortedMap.find?_erase]

theorem Indexed.eraseBlock (hq : q.Indexed) (hspan : q.blocks.find? start = some span) :
    (q.eraseBlock start span).Indexed := by
  have hkept : ∀ {start' span'}, (q.eraseBlock start span).blocks.find? start' = some span' ↔
      start' ≠ start ∧ q.blocks.find? start' = some span' := by
    intro start' span'
    rw [find?_eraseBlock]
    split
    · rename_i heq
      simp [heq]
    · rename_i hne
      simp [hne]
  have hother : ∀ {start' span' h}, q.blocks.find? start' = some span' → h ∈ span'.hashes →
      h ∉ span.hashes → start' ≠ start := by
    rintro start' span' h hfind hmem hnot rfl
    rw [hspan] at hfind
    obtain rfl := some.inj hfind
    exact hnot hmem
  refine ⟨?_, ?_, ?_, ?_⟩
  · intro h
    change h ∈ (q.forget span.hashes).requestedHashes ↔ _
    rw [mem_forget, hq.requested]
    constructor
    · rintro ⟨hnot, start', span', hfind, hmem⟩
      exact ⟨start', span', hkept.mpr ⟨hother hfind hmem hnot, hfind⟩, hmem⟩
    · rintro ⟨start', span', hfind, hmem⟩
      obtain ⟨hne, hfind⟩ := hkept.mp hfind
      exact ⟨fun h => hne (hq.owner _ _ _ _ _ hfind hspan hmem h), start', span', hfind, hmem⟩
  · intro h k
    change (q.forget span.hashes).haveBlocks h = some k ↔ _
    rw [haveBlocks_forget, hq.filled]
    constructor
    · rintro ⟨hnot, start', span', i, hfind, hfilled, hi, hk⟩
      exact ⟨start', span', i, hkept.mpr ⟨hother hfind (mem_of_getElem? hi) hnot, hfind⟩,
        hfilled, hi, hk⟩
    · rintro ⟨start', span', i, hfind, hfilled, hi, hk⟩
      obtain ⟨hne, hfind⟩ := hkept.mp hfind
      exact ⟨fun h => hne (hq.owner _ _ _ _ _ hfind hspan (mem_of_getElem? hi) h),
        start', span', i, hfind, hfilled, hi, hk⟩
  · intro s₁ span₁ s₂ span₂ h h₁ h₂
    exact hq.owner _ _ _ _ h (hkept.mp h₁).2 (hkept.mp h₂).2
  · intro s₁ span₁ h₁
    exact hq.nodup _ _ (hkept.mp h₁).2

structure Placed (q : BlockQueue β) (start : Nat) (span : Span β) (q' : BlockQueue β) : Prop where
  vacant : q.blocks.find? start = none
  nodup : span.hashes.Nodup
  fresh : ∀ h ∈ span.hashes, h ∉ q.requestedHashes
  blocks : ∀ start', q'.blocks.find? start' =
    if start' = start then some span else q.blocks.find? start'
  requested : ∀ h, h ∈ q'.requestedHashes ↔ h ∈ span.hashes ∨ h ∈ q.requestedHashes
  filled : ∀ h k, q'.haveBlocks h = some k ↔ q.haveBlocks h = some k ∨
    (span.blocks ≠ [] ∧ ∃ i, span.hashes[i]? = some h ∧ k = wrap (start + i))

theorem Indexed.placed (hq : q.Indexed) (hp : Placed q start span q') : q'.Indexed := by
  have hfind : ∀ {start' span'}, q'.blocks.find? start' = some span' ↔
      (start' = start ∧ span' = span) ∨ q.blocks.find? start' = some span' := by
    intro start' span'
    rw [hp.blocks]
    split
    · rename_i heq
      rw [heq, hp.vacant]
      simp [eq_comm]
    · rename_i hne
      simp [hne]
  have hfresh : ∀ {start' span' h}, q.blocks.find? start' = some span' → h ∈ span'.hashes →
      h ∉ span.hashes := fun hf hmem h => hp.fresh _ h ((hq.requested _).mpr ⟨_, _, hf, hmem⟩)
  refine ⟨?_, ?_, ?_, ?_⟩
  · intro h
    rw [hp.requested, hq.requested]
    constructor
    · rintro (hnew | ⟨start', span', hold, hmem⟩)
      · exact ⟨start, span, hfind.mpr (.inl ⟨rfl, rfl⟩), hnew⟩
      · exact ⟨start', span', hfind.mpr (.inr hold), hmem⟩
    · rintro ⟨start', span', hold, hmem⟩
      rcases hfind.mp hold with ⟨rfl, rfl⟩ | hold
      · exact .inl hmem
      · exact .inr ⟨start', span', hold, hmem⟩
  · intro h k
    rw [hp.filled, hq.filled]
    constructor
    · rintro (⟨start', span', i, hold, hrest⟩ | ⟨hblocks, i, hi, hk⟩)
      · exact ⟨start', span', i, hfind.mpr (.inr hold), hrest⟩
      · exact ⟨start, span, i, hfind.mpr (.inl ⟨rfl, rfl⟩), hblocks, hi, hk⟩
    · rintro ⟨start', span', i, hold, hblocks, hi, hk⟩
      rcases hfind.mp hold with ⟨rfl, rfl⟩ | hold
      · exact .inr ⟨hblocks, i, hi, hk⟩
      · exact .inl ⟨start', span', i, hold, hblocks, hi, hk⟩
  · intro s₁ span₁ s₂ span₂ h h₁ h₂ hm₁ hm₂
    rcases hfind.mp h₁ with ⟨rfl, rfl⟩ | hold₁
    · rcases hfind.mp h₂ with ⟨rfl, rfl⟩ | hold₂
      · rfl
      · exact absurd hm₁ (hfresh hold₂ hm₂)
    · rcases hfind.mp h₂ with ⟨rfl, rfl⟩ | hold₂
      · exact absurd hm₂ (hfresh hold₁ hm₁)
      · exact hq.owner _ _ _ _ h hold₁ hold₂ hm₁ hm₂
  · intro s₁ span₁ h₁
    rcases hfind.mp h₁ with ⟨rfl, rfl⟩ | hold₁
    · exact hp.nodup
    · exact hq.nodup _ _ hold₁

end Jero.Protocol.BlockQueue
