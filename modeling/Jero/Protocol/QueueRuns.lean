import Jero.Protocol.QueueIndexes

namespace Jero.Protocol.BlockQueue
open Jero.Machine Jero.Lists Jero.Tx List SortedMap Except BlockQueue
variable {height connectionId : Nat} {β : Type} {q q' : BlockQueue β} {start : Nat} {span : Span β}

theorem Indexed.eraseWhere {erased : Nat → Span β → Bool} {entries : List (Nat × Span β)}
    (hnodup : (entries.map Prod.fst).Nodup) (hq : q.Indexed)
    (hentries : ∀ e ∈ entries, q.blocks.find? e.1 = some e.2) :
    (eraseWhere erased entries q).Indexed := by
  induction entries generalizing q with
  | nil => exact hq
  | cons e entries ih =>
    obtain ⟨start, span⟩ := e
    obtain ⟨hnew, hnodup⟩ := nodup_cons.mp hnodup
    obtain ⟨hfirst, hrest⟩ := forall_mem_cons.mp hentries
    rw [eraseWhere]
    split
    · refine ih hnodup (hq.eraseBlock hfirst) fun e he => ?_
      rw [find?_eraseBlock, if_neg]
      · exact hrest e he
      · rintro rfl
        exact hnew (mem_map.mpr ⟨e, he, rfl⟩)
    · exact ih hnodup hq hrest

variable (hq : q.Indexed)

include hq in
theorem Indexed.eraseQueued (erased : Nat → Span β → Bool) :
    (BlockQueue.eraseWhere erased q.blocks.entries q).Indexed :=
  hq.eraseWhere q.blocks.nodup_keys fun e he => (q.blocks.mem_entries_iff e).mp he

theorem erased_free (q : BlockQueue β) (start : Nat) (span : Span β) :
    (q.eraseBlock start span).blocks.find? start = none ∧
      ∀ h ∈ span.hashes, h ∉ (q.eraseBlock start span).requestedHashes ∧
        (q.eraseBlock start span).haveBlocks h = none := by
  refine ⟨by rw [find?_eraseBlock, if_pos rfl], fun h hmem => ⟨?_, ?_⟩⟩
  · intro hrequested
    exact ((mem_forget _).mp hrequested).1 hmem
  · rw [Option.eq_none_iff_forall_ne_some]
    intro k hk
    exact ((haveBlocks_forget _).mp hk).1 hmem

include hq

theorem Indexed.removeSpan (start : Nat) : (q.removeSpan start).2.Indexed := by
  unfold BlockQueue.removeSpan
  split
  · exact hq
  · rename_i span hspan
    exact hq.eraseBlock hspan

theorem Indexed.addPlaceholder {nblocks : Nat} {added : Bool}
    (h : q.addPlaceholder height nblocks connectionId = .ok (added, q')) : q'.Indexed := by
  unfold BlockQueue.addPlaceholder at h
  split at h
  · cases h
  split at h
  · obtain ⟨-, rfl⟩ := Prod.mk.inj (ok.inj h)
    exact hq
  · rename_i hvacant
    obtain ⟨-, rfl⟩ := Prod.mk.inj (ok.inj h)
    have hplaced : Placed q height ⟨[], [], connectionId, nblocks⟩
        { q with blocks := q.blocks.insert height ⟨[], [], connectionId, nblocks⟩ } :=
      ⟨hvacant, nodup_nil, fun _ hmem => absurd hmem not_mem_nil,
        fun _ => find?_insert _ _ _ _, by simp, by simp⟩
    exact hq.placed hplaced

theorem Indexed.setSpanHashes {startHeight : Nat} {hashes : List Hash}
    (hnodup : hashes.Nodup) (hfresh : ∀ h ∈ hashes, h ∉ q.requestedHashes)
    (hplaceholder : ∀ span, q.blocks.find? startHeight = some span → span.connectionId =
      connectionId → span.blocks = []) :
    (q.setSpanHashes startHeight connectionId hashes).Indexed := by
  unfold BlockQueue.setSpanHashes
  split
  · exact hq
  rename_i span hspan
  split
  · exact hq
  rename_i hconnection
  have hblocks := hplaceholder span hspan (not_not.mp hconnection)
  obtain ⟨hsame, hhave, hrequested⟩ :=
    @request_eq β (q.eraseBlock startHeight span) hashes
  have hplaced : Placed (q.eraseBlock startHeight span) startHeight { span with hashes := hashes }
      { (q.eraseBlock startHeight span).request hashes with
        blocks := ((q.eraseBlock startHeight span).request hashes).blocks.insert startHeight
          { span with hashes := hashes } } := by
    refine ⟨(erased_free q startHeight span).1, hnodup, ?_, ?_, hrequested, ?_⟩
    · intro h hmem hrequested
      exact hfresh h hmem ((mem_forget _).mp hrequested).2
    · intro start'
      rw [find?_insert, hsame]
    · intro h k
      simp only [hhave, hblocks, ne_eq, not_true_eq_false, false_and, or_false]
  exact (hq.eraseBlock hspan).placed hplaced

omit hq

theorem addBlocks_replaces (hspan : q.blocks.find? height = some span) (bcel : List β)
    (connectionId : Nat) :
    let received : BlockQueue β := BlockQueue.receive
      { q.eraseBlock height span with
        blocks := (q.eraseBlock height span).blocks.insert height
          ⟨[], bcel, connectionId, bcel.length⟩ } span.hashes height
    q.addBlocks height bcel connectionId =
      { (received.eraseBlock height ⟨[], bcel, connectionId, bcel.length⟩).request span.hashes with
        blocks := ((received.eraseBlock height ⟨[], bcel, connectionId, bcel.length⟩).request
          span.hashes).blocks.insert height ⟨span.hashes, bcel, connectionId, bcel.length⟩ } := by
  intro received
  have hfind : received.blocks.find? height = some ⟨[], bcel, connectionId, bcel.length⟩ := by
    rw [(receive_blocks span.hashes height).1, find?_insert_self]
  simp only [addBlocks, removeSpan, hspan]
  change received.setSpanHashes height connectionId span.hashes = _
  rw [setSpanHashes, hfind]
  simp only [ne_eq, not_true_eq_false, if_false]

include hq in
theorem Indexed.addBlocks (height : Nat) {bcel : List β} (hbcel : bcel ≠ [])
    (connectionId : Nat) : (q.addBlocks height bcel connectionId).Indexed := by
  rcases hspan : q.blocks.find? height with _ | span
  · simp only [BlockQueue.addBlocks, BlockQueue.removeSpan, hspan]
    have hplaced : Placed q height ⟨[], bcel, connectionId, bcel.length⟩
        { q with blocks := q.blocks.insert height ⟨[], bcel, connectionId, bcel.length⟩ } :=
      ⟨hspan, nodup_nil, fun _ hmem => absurd hmem not_mem_nil,
        fun _ => find?_insert _ _ _ _, by simp, by simp⟩
    exact hq.placed hplaced
  · rw [addBlocks_replaces hspan]
    obtain ⟨hvacant, hfree⟩ := erased_free q height span
    have hnodup := hq.nodup _ _ hspan
    have hreceive := @receive_blocks β
      { q.eraseBlock height span with
        blocks := (q.eraseBlock height span).blocks.insert height
          ⟨[], bcel, connectionId, bcel.length⟩ } span.hashes height
    have hhave := @receive_haveBlocks β
      { q.eraseBlock height span with
        blocks := (q.eraseBlock height span).blocks.insert height
          ⟨[], bcel, connectionId, bcel.length⟩ } span.hashes hnodup
      (fun h hmem => (hfree h hmem).2) height
    generalize receive _ span.hashes height = received at hreceive hhave ⊢
    obtain ⟨hsame, hkept, hrequested⟩ := @request_eq β
      (received.eraseBlock height ⟨[], bcel, connectionId, bcel.length⟩) span.hashes
    generalize (received.eraseBlock height ⟨[], bcel, connectionId, bcel.length⟩).request
      span.hashes = renamed at hsame hkept hrequested ⊢
    have hplaced : Placed (q.eraseBlock height span) height
        ⟨span.hashes, bcel, connectionId, bcel.length⟩
        { renamed with
          blocks := renamed.blocks.insert height
            ⟨span.hashes, bcel, connectionId, bcel.length⟩ } := by
      refine ⟨hvacant, hnodup, fun h hmem => (hfree h hmem).1, ?_, ?_, ?_⟩
      · intro start'
        rw [find?_insert, hsame, find?_eraseBlock, hreceive.1, find?_insert]
        split <;> rfl
      · intro h
        rw [hrequested]
        change _ ∨ h ∈ received.requestedHashes ↔ _
        rw [hreceive.2]
        tauto
      · intro h k
        rw [hkept]
        change received.haveBlocks h = some k ↔ _
        rw [hhave]
        simp only [hbcel, ne_eq, not_false_eq_true, true_and]
    exact (hq.eraseBlock hspan).placed hplaced

theorem skipRequested_eq (q : BlockQueue β) (l : List (Hash × Nat)) (height : Nat) :
    ∃ k ≤ l.length, q.skipRequested l height = (l.drop k, height + k) := by
  induction l generalizing height with
  | nil => exact ⟨0, le_refl 0, rfl⟩
  | cons e l ih =>
    rw [skipRequested]
    split
    · obtain ⟨k, hk, heq⟩ := ih (height + 1)
      refine ⟨k + 1, Nat.succ_le_succ hk, ?_⟩
      rw [heq, drop_succ_cons, add_right_comm, add_assoc]
    · exact ⟨0, Nat.zero_le _, rfl⟩

theorem takeHashes_spec (q : BlockQueue β) (peer : PeerView) (start maxBlocks : Nat)
    (firstIsPruned : Bool) (l : List (Hash × Nat)) (taken : Nat) :
    let hashes := q.takeHashes peer start maxBlocks firstIsPruned l taken
    hashes = (l.take hashes.length).map Prod.fst ∧ hashes.length ≤ l.length ∧
      (hashes ≠ [] → taken + hashes.length ≤ maxBlocks) ∧
      (∀ h ∈ hashes, q.requested h = false) ∧
      (peer.syncPrunedBlocks = false → ∀ i < hashes.length,
        hasUnprunedBlock (start + (taken + i)) peer.blockchainHeight peer.pruningSeed = true) := by
  induction l generalizing taken with
  | nil => simp [takeHashes]
  | cons e l ih =>
    simp only [takeHashes]
    split
    · rename_i hguard
      obtain ⟨hroom, hfresh, hkept⟩ := hguard
      split
      · simp
      · obtain ⟨hmap, hlen, hmax, hrequested, hunpruned⟩ := ih (taken + 1)
        generalize q.takeHashes peer start maxBlocks firstIsPruned l (taken + 1) = hashes at *
        refine ⟨?_, ?_, ?_, ?_, ?_⟩
        · rw [length_cons, take_succ_cons, map_cons, ← hmap]
        · rw [length_cons, length_cons]
          exact Nat.succ_le_succ hlen
        · intro _
          cases hashes with
          | nil => simpa using hroom
          | cons h hashes =>
            have hrest := hmax (cons_ne_nil h hashes)
            rw [length_cons] at hrest ⊢
            rw [length_cons]
            omega
        · intro h hmem
          rcases mem_cons.mp hmem with rfl | hmem
          · simpa using hfresh
          · exact hrequested h hmem
        · intro hpeer i hi
          rw [length_cons] at hi
          cases i with
          | zero =>
            rcases hkept with hsync | hkept
            · rw [hpeer] at hsync
              cases hsync
            · exact hkept
          | succ i =>
            have hrest := hunpruned hpeer i (by omega)
            rw [add_right_comm] at hrest
            exact hrest
    · simp

theorem addPlaceholder_added {nblocks : Nat}
    (h : q.addPlaceholder height nblocks connectionId = .ok (true, q')) :
    q'.requestedHashes = q.requestedHashes ∧
      q'.blocks.find? height = some ⟨[], [], connectionId, nblocks⟩ := by
  unfold addPlaceholder at h
  split at h
  · cases h
  split at h
  · cases (Prod.mk.inj (ok.inj h)).1
  · obtain ⟨-, rfl⟩ := Prod.mk.inj (ok.inj h)
    exact ⟨rfl, find?_insert_self _ _ _⟩

theorem le_nextStart (peer : PeerView) (height : Nat) : height ≤ nextStart peer height := by
  unfold nextStart
  split
  · exact le_refl height
  · dsimp only
    split
    · rename_i hnext
      exact hnext.1.le
    · exact le_refl height

section
variable {firstBlockHeight lastBlockHeight maxBlocks n : Nat} {peer : PeerView}
  {blockHashes : List (Hash × Nat)}
  (h : q.reserveSpan firstBlockHeight lastBlockHeight maxBlocks connectionId peer blockHashes =
    .ok ((start, n), q'))
include h

theorem reserveSpan_cases : (n = 0 ∧ q' = q) ∨ ∃ hashes,
    (∃ placed, q.addPlaceholder start n connectionId = .ok (true, placed) ∧
      q' = placed.setSpanHashes start connectionId hashes) ∧
    (1 ≤ n ∧ n ≤ maxBlocks) ∧
    (lastBlockHeight + 1 - blockHashes.length ≤ start ∧ start + n ≤ lastBlockHeight + 1) ∧
    hashes = ((blockHashes.drop (start - (lastBlockHeight + 1 - blockHashes.length))).take
      n).map Prod.fst ∧
    (∀ h ∈ hashes, q.requested h = false) ∧
    (peer.syncPrunedBlocks = false → ∀ i < n,
      hasUnprunedBlock (start + i) peer.blockchainHeight peer.pruningSeed = true) := by
  have hunreserved : (ok ((0, 0), q) : Except String _) = .ok ((start, n), q') →
      n = 0 ∧ q' = q := by
    rintro ⟨⟩
    exact ⟨rfl, rfl⟩
  unfold reserveSpan at h
  split at h
  · exact .inl (hunreserved h)
  split at h
  · exact .inl (hunreserved h)
  rename_i hfits
  extract_lets listStart jumped at h
  split at h
  · exact .inl (hunreserved h)
  rename_i hinside
  have hjumped : listStart ≤ jumped := by
    obtain ⟨k, -, hskip⟩ := q.skipRequested_eq blockHashes listStart
    have hle := le_nextStart peer (q.skipRequested blockHashes listStart).2
    rw [hskip] at hle
    exact (Nat.le_add_right listStart k).trans (hle.trans_eq (by rw [← hskip]))
  obtain ⟨k, hk, hskip⟩ := q.skipRequested_eq (blockHashes.drop (jumped - listStart)) jumped
  rw [hskip] at h
  dsimp only at h
  generalize (peer.syncPrunedBlocks &&
    !hasUnprunedBlock (jumped + k) peer.blockchainHeight peer.localPruningSeed) = firstIsPruned at h
  obtain ⟨hmap, hlen, hmax, hfresh, hunpruned⟩ := q.takeHashes_spec peer (jumped + k) maxBlocks
    firstIsPruned ((blockHashes.drop (jumped - listStart)).drop k) 0
  generalize q.takeHashes peer (jumped + k) maxBlocks firstIsPruned
    ((blockHashes.drop (jumped - listStart)).drop k) 0 = hashes at *
  split at h
  · exact .inl (hunreserved h)
  rename_i hsome
  have hpos := Nat.pos_of_ne_zero hsome
  rcases hplace : q.addPlaceholder (jumped + k) hashes.length connectionId with error | ⟨added, q₁⟩
  · rw [hplace] at h
    cases h
  rw [hplace] at h
  cases added with
  | false =>
    have hkept : q₁ = q := by
      unfold addPlaceholder at hplace
      split at hplace
      · cases hplace
      split at hplace
      · exact (Prod.mk.inj (ok.inj hplace)).2.symm
      · cases hplace
    exact .inl (hunreserved (hkept ▸ h))
  | true =>
    obtain ⟨hpair, rfl⟩ := Prod.mk.inj (ok.inj h)
    obtain ⟨rfl, rfl⟩ := Prod.mk.inj hpair
    have hstart : lastBlockHeight + 1 - blockHashes.length = listStart := by omega
    rw [length_drop, length_drop] at hlen
    have hroom := hmax (length_pos_iff.mp hpos)
    rw [drop_drop, show jumped - listStart + k = jumped + k - listStart by omega] at hmap
    rw [hstart]
    refine .inr ⟨hashes, ⟨q₁, hplace, rfl⟩, ⟨hpos, by omega⟩, ⟨by omega, by omega⟩, hmap, hfresh,
      ?_⟩
    intro hpeer i hi
    rw [← zero_add i]
    exact hunpruned hpeer i hi

include hq in
theorem Indexed.reserveSpan (hnodup : (blockHashes.map Prod.fst).Nodup) : q'.Indexed := by
  rcases reserveSpan_cases h with ⟨-, rfl⟩ |
    ⟨hashes, ⟨placed, hplace, rfl⟩, -, -, htaken, hfresh, -⟩
  · exact hq
  have hdistinct : hashes.Nodup := by
    rw [htaken]
    exact hnodup.sublist (((take_sublist _ _).trans (drop_sublist _ _)).map Prod.fst)
  obtain ⟨hsame, hfind⟩ := addPlaceholder_added hplace
  refine (hq.addPlaceholder hplace).setSpanHashes hdistinct
    (fun g hg => hsame ▸ of_decide_eq_false (hfresh g hg)) ?_
  intro span hspan _
  obtain rfl := Option.some.inj (hfind.symm.trans hspan)
  rfl

end

inductive Call (β : Type) where
  | addBlocks (height : Nat) (bcel : List β) (connectionId : Nat)
  | addPlaceholder (height nblocks connectionId : Nat)
  | reserveSpan (firstBlockHeight lastBlockHeight maxBlocks connectionId : Nat) (peer : PeerView)
      (blockHashes : List (Hash × Nat))
  | setSpanHashes (startHeight connectionId : Nat) (hashes : List Hash)
  | flushSpans (connectionId : Nat) (all : Bool)
  | flushStaleSpans (liveConnections : List Nat)
  | removeSpan (startBlockHeight : Nat)
  | removeSpans (connectionId startBlockHeight : Nat)
deriving DecidableEq, Repr

def keepOnThrow {α : Type} (q : BlockQueue β) (r : Except String (α × BlockQueue β)) :
    BlockQueue β :=
  match r with
  | .error _ => q
  | .ok (_, q') => q'

def Call.run (q : BlockQueue β) : Call β → BlockQueue β
  | .addBlocks height bcel connectionId => q.addBlocks height bcel connectionId
  | .addPlaceholder height nblocks connectionId =>
    q.keepOnThrow (q.addPlaceholder height nblocks connectionId)
  | .reserveSpan firstBlockHeight lastBlockHeight maxBlocks connectionId peer blockHashes =>
    q.keepOnThrow
      (q.reserveSpan firstBlockHeight lastBlockHeight maxBlocks connectionId peer blockHashes)
  | .setSpanHashes startHeight connectionId hashes =>
    q.setSpanHashes startHeight connectionId hashes
  | .flushSpans connectionId all => q.flushSpans connectionId all
  | .flushStaleSpans liveConnections => q.flushStaleSpans liveConnections
  | .removeSpan startBlockHeight => (q.removeSpan startBlockHeight).2
  | .removeSpans connectionId startBlockHeight => q.removeSpans connectionId startBlockHeight

def Call.MadeByHandler (q : BlockQueue β) : Call β → Prop
  | .addBlocks _ bcel _ => bcel ≠ []
  | .reserveSpan _ _ _ _ _ blockHashes => (blockHashes.map Prod.fst).Nodup
  | .setSpanHashes startHeight connectionId hashes =>
    hashes.Nodup ∧ (∀ h ∈ hashes, h ∉ q.requestedHashes) ∧
      ∀ span, q.blocks.find? startHeight = some span →
        span.connectionId = connectionId → span.blocks = []
  | _ => True

def runCalls : BlockQueue β → List (Call β) → BlockQueue β
  | q, [] => q
  | q, call :: calls => runCalls (call.run q) calls

def MadeByHandler : BlockQueue β → List (Call β) → Prop
  | _, [] => True
  | q, call :: calls => call.MadeByHandler q ∧ MadeByHandler (call.run q) calls

include hq

theorem Indexed.run {call : Call β} (hmade : call.MadeByHandler q) :
    (call.run q).Indexed := by
  cases call with
  | addBlocks height bcel connectionId => exact hq.addBlocks height hmade connectionId
  | addPlaceholder height nblocks connectionId =>
    simp only [Call.run, keepOnThrow]
    split
    · exact hq
    · rename_i h
      exact hq.addPlaceholder h
  | reserveSpan firstBlockHeight lastBlockHeight maxBlocks connectionId peer blockHashes =>
    simp only [Call.run, keepOnThrow]
    split
    · exact hq
    · rename_i h
      exact hq.reserveSpan h hmade
  | setSpanHashes startHeight connectionId hashes =>
    exact hq.setSpanHashes hmade.1 hmade.2.1 hmade.2.2
  | flushSpans connectionId all => exact hq.eraseQueued _
  | flushStaleSpans liveConnections => exact hq.eraseQueued _
  | removeSpan startBlockHeight => exact hq.removeSpan startBlockHeight
  | removeSpans connectionId startBlockHeight => exact hq.eraseQueued _

theorem Indexed.runCalls {calls : List (Call β)}
    (hmade : MadeByHandler q calls) : (q.runCalls calls).Indexed := by
  induction calls generalizing q with
  | nil => exact hq
  | cons call calls ih => exact ih (hq.run hmade.1) hmade.2

omit hq

theorem queue_indexes_exact (calls : List (Call β))
    (hmade : MadeByHandler (empty : BlockQueue β) calls) :
    let q := (empty : BlockQueue β).runCalls calls
    (∀ h, q.requested h = true ↔ ∃ start span, (start, span) ∈ q.blocks.entries ∧
      h ∈ span.hashes) ∧
      (∀ h k, q.haveBlocks h = some k ↔ ∃ start span i, (start, span) ∈ q.blocks.entries ∧
        span.blocks ≠ [] ∧ span.hashes[i]? = some h ∧ k = wrap (start + i)) ∧
      ∀ start span i h, (start, span) ∈ q.blocks.entries → span.blocks ≠ [] →
        span.hashes[i]? = some h → q.haveHeight h = wrap (start + i) := by
  intro q
  have hq : q.Indexed := Indexed.empty.runCalls hmade
  simp only [mem_entries_iff]
  refine ⟨fun h => ?_, hq.filled, ?_⟩
  · rw [requested, decide_eq_true_eq]
    exact hq.requested h
  · intro start span i h hspan hblocks hi
    rw [haveHeight, (hq.filled h _).mpr ⟨start, span, i, hspan, hblocks, hi, rfl⟩]

def syncCalls : List (Call Nat) :=
  [.reserveSpan 1 3 2 7 ⟨false, 0, 0, 10⟩ [(11, 0), (12, 0), (13, 0)], .addBlocks 1 [101, 102] 7,
    .reserveSpan 1 3 2 8 ⟨false, 0, 0, 10⟩ [(11, 0), (12, 0), (13, 0)], .flushSpans 8 false]

theorem queue_indexes_after_sync :
    ((empty : BlockQueue Nat).runCalls syncCalls).haveHeight 12 = 2 ∧
      ((empty : BlockQueue Nat).runCalls syncCalls).requested 13 = false := by
  have hmade : MadeByHandler (empty : BlockQueue Nat) syncCalls :=
    ⟨show ([(11, 0), (12, 0), (13, 0)].map Prod.fst).Nodup by decide,
      show [101, 102] ≠ [] by decide,
      show ([(11, 0), (12, 0), (13, 0)].map Prod.fst).Nodup by decide, trivial, trivial⟩
  obtain ⟨-, -, hheight⟩ := queue_indexes_exact syncCalls hmade
  exact ⟨hheight 1 ⟨[11, 12], [101, 102], 7, 2⟩ 1 12 (by decide +kernel) (by decide) rfl,
    by decide +kernel⟩
variable {β : Type}

def neededFrom (blockchainHeight : Nat) : List (Nat × Span β) → Nat → Nat
  | [], coveredUntil => coveredUntil
  | (start, span) :: rest, coveredUntil =>
    let spanEnd := wsub (wrap (start + span.nblocks)) 1
    if spanEnd < blockchainHeight then neededFrom blockchainHeight rest coveredUntil
    else if start > coveredUntil then coveredUntil
    else neededFrom blockchainHeight rest (max coveredUntil (wrap (start + span.nblocks)))

def getNextNeededHeight (q : BlockQueue β) (blockchainHeight : Nat) : Nat :=
  if q.blocks.entries.isEmpty then blockchainHeight
  else neededFrom blockchainHeight q.blocks.entries blockchainHeight

def Covers (e : Nat × Span β) (height : Nat) : Prop :=
  e.1 ≤ height ∧ height < e.1 + e.2.nblocks

def Unwrapped (e : Nat × Span β) : Prop := 1 ≤ e.2.nblocks ∧ e.1 + e.2.nblocks < 2 ^ 64

theorem neededFrom_isLeast {blockchainHeight : Nat} {entries : List (Nat × Span β)}
    (hsorted : entries.Pairwise (fun a b => a.1 < b.1)) (hspans : ∀ e ∈ entries, Unwrapped e)
    {coveredUntil : Nat} (hcovered : blockchainHeight ≤ coveredUntil) :
    IsLeast {height | coveredUntil ≤ height ∧ ∀ e ∈ entries, ¬ Covers e height}
      (neededFrom blockchainHeight entries coveredUntil) := by
  induction entries generalizing coveredUntil with
  | nil =>
    refine ⟨⟨le_refl coveredUntil, fun e he => absurd he not_mem_nil⟩, ?_⟩
    rintro height ⟨hle, -⟩
    exact hle
  | cons e entries ih =>
    obtain ⟨start, span⟩ := e
    obtain ⟨hafter, hsorted⟩ := pairwise_cons.mp hsorted
    obtain ⟨hspan, hspans⟩ := forall_mem_cons.mp hspans
    obtain ⟨hpos, hlt⟩ := hspan
    have hend := wsub_of_le (hpos.trans (Nat.le_add_left _ start)) hlt
    have hwrap := wrap_of_lt hlt
    simp only [neededFrom, hwrap, hend, forall_mem_cons, Covers]
    split
    · rename_i hbelow
      have hleast := ih hsorted hspans hcovered
      refine ⟨⟨hleast.1.1, ?_, hleast.1.2⟩, ?_⟩
      · have hge := hleast.1.1
        omega
      · rintro height ⟨hle, -, hrest⟩
        exact hleast.2 ⟨hle, hrest⟩
    · split
      · rename_i hgap
        refine ⟨⟨le_refl coveredUntil, by omega, ?_⟩, ?_⟩
        · rintro e he ⟨hstarts, -⟩
          have hlater := hafter e he
          omega
        · rintro height ⟨hle, -⟩
          exact hle
      · rename_i hjoins
        have hleast := ih hsorted hspans
          (hcovered.trans (le_max_left coveredUntil (start + span.nblocks)))
        refine ⟨⟨(le_max_left _ _).trans hleast.1.1, ?_, hleast.1.2⟩, ?_⟩
        · have hge := (le_max_right _ _).trans hleast.1.1
          omega
        · rintro height ⟨hle, hmissed, hrest⟩
          refine hleast.2 ⟨max_le hle ?_, hrest⟩
          omega

theorem next_needed_height_isLeast (q : BlockQueue β) (blockchainHeight : Nat)
    (hspans : ∀ e ∈ q.blocks.entries, Unwrapped e) :
    IsLeast {height | blockchainHeight ≤ height ∧ ∀ e ∈ q.blocks.entries, ¬ Covers e height}
      (q.getNextNeededHeight blockchainHeight) := by
  have hleast := neededFrom_isLeast q.blocks.sorted hspans (le_refl blockchainHeight)
  unfold getNextNeededHeight
  split
  · rename_i hempty
    rw [List.isEmpty_iff] at hempty
    rw [hempty] at hleast ⊢
    exact hleast
  · exact hleast

def nestedQueue : BlockQueue Nat where
  blocks := ((SortedMap.empty.insert 3 ⟨[], [], 1, 6⟩).insert 4 ⟨[], [], 2, 2⟩).insert 9
    ⟨[], [], 1, 1⟩
  requestedHashes := ∅
  haveBlocks := fun _ => none

theorem nested_next_needed :
    nestedQueue.getNextNeededHeight 5 = 10 ∧
      IsLeast {height | 5 ≤ height ∧ ∀ e ∈ nestedQueue.blocks.entries, ¬ Covers e height}
        (nestedQueue.getNextNeededHeight 5) := by
  refine ⟨by decide +kernel, next_needed_height_isLeast nestedQueue 5 ?_⟩
  unfold Unwrapped
  decide +kernel

theorem reserved_span_exact {q q' : BlockQueue β}
    {firstBlockHeight lastBlockHeight maxBlocks connectionId : Nat} {peer : PeerView}
    {blockHashes : List (Hash × Nat)} {start n : Nat}
    (h : q.reserveSpan firstBlockHeight lastBlockHeight maxBlocks connectionId peer blockHashes =
      .ok ((start, n), q')) (hn : n ≠ 0) :
    (1 ≤ n ∧ n ≤ maxBlocks) ∧
      (lastBlockHeight + 1 - blockHashes.length ≤ start ∧ start + n ≤ lastBlockHeight + 1) ∧
      (firstBlockHeight + blockHashes.length ≤ lastBlockHeight + 1 → firstBlockHeight ≤ start) ∧
      ∃ span, q'.blocks.find? start = some span ∧ span.nblocks = n ∧
        span.hashes = ((blockHashes.drop (start - (lastBlockHeight + 1 - blockHashes.length))).take
          n).map Prod.fst ∧
        (∀ h ∈ span.hashes, q.requested h = false) ∧
        (peer.syncPrunedBlocks = false → ∀ i < n,
          hasUnprunedBlock (start + i) peer.blockchainHeight peer.pruningSeed = true) := by
  rcases reserveSpan_cases h with ⟨hzero, -⟩ |
    ⟨hashes, ⟨placed, hplace, rfl⟩, hcount, hrange, htaken, hfresh, hunpruned⟩
  · exact absurd hzero hn
  refine ⟨hcount, hrange, by omega, ⟨hashes, [], connectionId, n⟩, ?_, rfl, htaken, hfresh,
    hunpruned⟩
  rw [setSpanHashes, (addPlaceholder_added hplace).2]
  simp only [SortedMap.find?_insert_self, ne_eq, not_true_eq_false, if_false]

def pendingQueue : BlockQueue Nat where
  blocks := SortedMap.empty.insert 4096 ⟨[13], [], 1, 1⟩
  requestedHashes := {13}
  haveBlocks := fun _ => none

def pendingHashes : List (Hash × Nat) := [(11, 0), (12, 0), (13, 0), (14, 0), (15, 0), (16, 0)]

theorem reserved_after_sync :
    ∃ q', pendingQueue.reserveSpan 4094 4099 2 7 ⟨false, 0, 385, 20000⟩ pendingHashes =
        .ok ((4097, 2), q') ∧
      (∃ span, q'.blocks.find? 4097 = some span ∧ span.hashes = [14, 15]) ∧
      hasUnprunedBlock 4095 20000 385 = false := by
  obtain ⟨q', hq'⟩ : ∃ q', pendingQueue.reserveSpan 4094 4099 2 7 ⟨false, 0, 385, 20000⟩
      pendingHashes = .ok ((4097, 2), q') := ⟨_, rfl⟩
  obtain ⟨-, -, -, span, hspan, -, hhashes, -⟩ := reserved_span_exact hq' (by decide)
  exact ⟨q', hq', ⟨span, hspan, hhashes⟩, by decide⟩

theorem reserved_before_first :
    ∃ q', (empty : BlockQueue Nat).reserveSpan 5 5 2 7 ⟨false, 0, 0, 10⟩
      [(11, 0), (12, 0), (13, 0)] = .ok ((3, 2), q') ∧ 3 < 5 :=
  ⟨_, rfl, by decide⟩

end Jero.Protocol.BlockQueue
