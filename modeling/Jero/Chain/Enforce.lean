import Jero.Chain.SwitchSteps

namespace Jero.Chain
open Jero.Machine Jero.Lists Jero.Tx ChainEnv SortedMap
open List hiding get set modify
variable {before : List (Nat × Hash)} {earlier : Nat × Hash}

def Contradicts (env : ChainEnv) (chain : List Entry) (point : Nat × Hash) : Prop :=
  ∃ e, chain[point.1]? = some e ∧ env.blockHash e.block ≠ point.2

def Converges (env : ChainEnv) (chain : List Entry) (points : SortedMap Nat Hash) : Prop :=
  (∀ point ∈ points.entries, ¬ Contradicts env chain point) ∨
    ∃ point ∈ points.entries, 3 ≤ point.1 ∧ Contradicts env chain point ∧
      (∀ earlier ∈ points.entries, earlier.1 < point.1 → Contradicts env chain earlier →
        earlier.1 = 1 ∧ point.1 = 3) ∧
      ∀ later ∈ points.entries, point.1 < later.1 → chain.length ≤ later.1

namespace Blockchain
variable {env : ChainEnv} {s : Blockchain}

theorem popWhile_all_throws {fuel : Nat} {popped : List Block} (hne : s.db.chain ≠ [])
    (hfuel : s.db.chain.length ≤ fuel) :
    ∃ s', popWhile (fun s => s.db.chain.length != 0) fuel popped s =
      .error "Cannot pop the genesis block" s' := by
  induction fuel generalizing s popped with
  | zero => exact absurd (length_eq_zero_iff.mp (Nat.le_zero.mp hfuel)) hne
  | succ fuel ih =>
    have hmore : (s.db.chain.length != 0) = true := by
      rw [bne_iff_ne, Ne, length_eq_zero_iff]
      exact hne
    rcases lt_or_ge 1 s.db.chain.length with hlong | hshort
    · obtain ⟨init, e, hchain⟩ := (eq_nil_or_concat' s.db.chain).resolve_left hne
      have hinit : init ≠ [] := by
        rintro rfl
        rw [hchain] at hlong
        exact absurd hlong (by simp)
      have hlen : init.length ≤ fuel := by
        rw [hchain, length_append, length_singleton] at hfuel
        omega
      obtain ⟨s', hrest⟩ : ∃ s', popWhile (fun s => s.db.chain.length != 0) fuel
          (e.block :: popped) (s.markReset.setChain init) =
            .error "Cannot pop the genesis block" s' := ih hinit hlen
      refine ⟨s', ?_⟩
      simp only [popWhile, exec_get_bind, hmore, if_true,
        exec_bind_ok (popBlock_concat hchain hinit), hrest]
    · refine ⟨s.markReset, ?_⟩
      simp only [popWhile, exec_get_bind, hmore, if_true, exec_bind_error (popBlock_short hshort)]

theorem rollback_too_high {height : Nat} (h : s.db.chain.length < height) :
    rollbackBlockchainSwitching env [] height s = .ok true s := by
  have hgt : height > s.db.chain.length := h
  simp only [rollbackBlockchainSwitching, exec_get_bind, if_pos hgt]
  rfl

theorem rollback_to_zero (hne : s.db.chain ≠ []) :
    ∃ s', rollbackBlockchainSwitching env [] 0 s = .error "Cannot pop the genesis block" s' := by
  have hnot : ¬ 0 > s.db.chain.length := Nat.not_lt_zero _
  obtain ⟨s', hpop⟩ : ∃ s', popWhile (fun s => s.db.chain.length != 0) s.db.chain.length []
      s.markReset = .error "Cannot pop the genesis block" s' :=
    popWhile_all_throws hne (le_refl _)
  refine ⟨s', ?_⟩
  simp only [rollbackBlockchainSwitching, exec_get_bind, if_neg hnot, exec_modify_bind,
    exec_bind_error hpop]

variable {point : Nat × Hash}

theorem not_contradicts_iff {chain : List Entry} :
    ¬ Contradicts env chain point ↔
      (point.1 < chain.length → env.blockHashFromHeight chain point.1 = .ok point.2) := by
  constructor
  · intro hagree hlt
    rw [blockHashFromHeight, getElem?_eq_getElem hlt]
    refine congrArg Except.ok ?_
    by_contra hne
    exact hagree ⟨_, getElem?_eq_getElem hlt, hne⟩
  · rintro hread ⟨e, he, hne⟩
    have hhash := hread (List.getElem?_eq_some_iff.mp he).1
    rw [blockHashFromHeight, he] at hhash
    exact hne (Except.ok.inj hhash)

section
variable {points : SortedMap Nat Hash} {point : Nat × Hash} {rest : List (Nat × Hash)} {height : Nat}

theorem enforcePoints_beyond (h : height ≤ point.1) :
    enforcePoints env points true height (point :: rest) s =
      enforcePoints env points true height rest s := by
  rw [enforcePoints, if_pos h]

theorem enforcePoints_agrees (hpoint : point ∈ points.entries) (h : point.1 < height)
    (hread : env.blockHashFromHeight s.db.chain point.1 = .ok point.2) :
    enforcePoints env points true height (point :: rest) s =
      enforcePoints env points true height rest s := by
  have hfind : points.find? point.1 = some point.2 := getEntry_of_mem points.sorted hpoint
  have hcheck : checkBlock points point.1 point.2 = true := (checkBlock_of_find hfind _).mpr rfl
  rw [enforcePoints, if_neg (not_le.mpr h)]
  simp only [exec_get_bind, hread, hcheck, Bool.not_true, Bool.false_and, Bool.false_eq_true,
    if_false]

theorem enforcePoints_contradicts (hpoint : point ∈ points.entries) (h : point.1 < height)
    (hbad : Contradicts env s.db.chain point) :
    enforcePoints env points true height (point :: rest) s =
      (rollbackBlockchainSwitching env [] (wsub point.1 2) >>= fun _ =>
        enforcePoints env points true height rest) s := by
  obtain ⟨e, he, hne⟩ := hbad
  have hfind : points.find? point.1 = some point.2 := getEntry_of_mem points.sorted hpoint
  have hcheck : checkBlock points point.1 (env.blockHash e.block) = false := by
    rw [← Bool.not_eq_true, checkBlock_of_find hfind]
    exact hne
  have hread : env.blockHashFromHeight s.db.chain point.1 = .ok (env.blockHash e.block) := by
    rw [blockHashFromHeight, he]
  rw [enforcePoints, if_neg (not_le.mpr h)]
  rw [exec_get_bind, hread]
  simp only [hcheck, Bool.not_false, Bool.and_self, if_true]

theorem enforcePoints_shallow (hfits : s.db.chain.length < 2 ^ 64 - 2)
    (hpoints : ∀ point ∈ before, point ∈ points.entries)
    (hshallow : ∀ point ∈ before, Contradicts env s.db.chain point → point.1 < 2) :
    enforcePoints env points true s.db.chain.length (before ++ rest) s =
      enforcePoints env points true s.db.chain.length rest s := by
  induction before with
  | nil => rfl
  | cons point before ih =>
    obtain ⟨hpoint, hpoints⟩ := forall_mem_cons.mp hpoints
    obtain ⟨hfirst, hshallow⟩ := forall_mem_cons.mp hshallow
    rw [cons_append]
    rcases lt_or_ge point.1 s.db.chain.length with hlt | hge
    · by_cases hbad : Contradicts env s.db.chain point
      · have hhigh : s.db.chain.length < wsub point.1 2 := by
          have hsmall := hfirst hbad
          unfold wsub
          omega
        rw [enforcePoints_contradicts hpoint hlt hbad, exec_bind_ok (rollback_too_high hhigh)]
        exact ih hpoints hshallow
      · have hread : env.blockHashFromHeight s.db.chain point.1 = .ok point.2 :=
          not_contradicts_iff.mp hbad hlt
        rw [enforcePoints_agrees hpoint hlt hread]
        exact ih hpoints hshallow
    · rw [enforcePoints_beyond hge]
      exact ih hpoints hshallow

theorem enforcePoints_all_beyond (h : ∀ point ∈ rest, height ≤ point.1) :
    enforcePoints env points true height rest s = .ok () s := by
  induction rest with
  | nil => rfl
  | cons point rest ih =>
    obtain ⟨hfirst, hrest⟩ := forall_mem_cons.mp h
    rw [enforcePoints_beyond hfirst]
    exact ih hrest

theorem enforcePoints_after_rollback (hmissing : ∀ point ∈ rest, s.db.chain.length ≤ point.1)
    (hbelow : ∃ point ∈ rest, point.1 < height) :
    enforcePoints env points true height rest s =
      .error "Attempt to get hash from height failed -- hash not in db" s := by
  induction rest with
  | nil =>
    obtain ⟨point, hpoint, -⟩ := hbelow
    cases hpoint
  | cons point rest ih =>
    obtain ⟨hfirst, hrest⟩ := forall_mem_cons.mp hmissing
    rcases lt_or_ge point.1 height with hlt | hge
    · have hread : env.blockHashFromHeight s.db.chain point.1 =
          .error "Attempt to get hash from height failed -- hash not in db" := by
        rw [blockHashFromHeight, getElem?_eq_none hfirst]
      rw [enforcePoints, if_neg (not_le.mpr hlt)]
      simp only [exec_get_bind, hread]
      rfl
    · rw [enforcePoints_beyond hge]
      obtain ⟨other, hother, hlow⟩ := hbelow
      rcases mem_cons.mp hother with rfl | hother
      · exact absurd hlow (not_lt.mpr hge)
      · exact ih hrest ⟨other, hother, hlow⟩

end

theorem batchStart_db (s : Blockchain) : (batchStart s).2.db = s.db := by
  unfold batchStart
  split <;> rfl

variable {points : SortedMap Nat Hash}

theorem checkAgainstCheckpoints_ok_iff {db : Db} :
    (∃ s', checkAgainstCheckpoints env points true s = .ok () s' ∧ s'.db = db) ↔
      ∃ s₁, enforcePoints env points true s.db.chain.length points.entries (batchStart s).2 =
        .ok () s₁ ∧ s₁.db = db := by
  have hchain : (batchStart s).2.db.chain.length = s.db.chain.length := by rw [batchStart_db]
  have hrun : checkAgainstCheckpoints env points true s =
      (enforcePoints env points true s.db.chain.length points.entries >>= fun _ =>
        if (batchStart s).1 then modify batchStop else pure ()) (batchStart s).2 := by
    rw [← hchain]
    rfl
  rw [hrun]
  cases henforce : enforcePoints env points true s.db.chain.length points.entries
      (batchStart s).2 with
  | ok u s₁ =>
    rw [exec_bind_ok henforce]
    cases (batchStart s).1 with
    | true =>
      constructor
      · rintro ⟨s', ⟨⟩, rfl⟩
        exact ⟨s₁, rfl, rfl⟩
      · rintro ⟨s', ⟨⟩, rfl⟩
        exact ⟨s₁.batchStop, rfl, rfl⟩
    | false =>
      constructor
      · rintro ⟨s', ⟨⟩, rfl⟩
        exact ⟨s₁, rfl, rfl⟩
      · rintro ⟨s', ⟨⟩, rfl⟩
        exact ⟨s₁, rfl, rfl⟩
  | error e s₁ =>
    rw [exec_bind_error henforce]

theorem enforcePoints_all_shallow
    (hfits : s.db.chain.length < 2 ^ 64 - 2)
    (hshallow : ∀ point ∈ points.entries, Contradicts env s.db.chain point → point.1 < 2) :
    enforcePoints env points true s.db.chain.length points.entries s = .ok () s := by
  have hrun : enforcePoints env points true s.db.chain.length (points.entries ++ []) s =
      enforcePoints env points true s.db.chain.length [] s :=
    enforcePoints_shallow hfits (fun _ hp => hp) hshallow
  rwa [append_nil] at hrun

structure FirstDeep (env : ChainEnv) (chain : List Entry) (points : SortedMap Nat Hash)
    (before : List (Nat × Hash)) (point : Nat × Hash) (after : List (Nat × Hash)) : Prop where
  split : points.entries = before ++ point :: after
  two : 2 ≤ point.1
  bad : Contradicts env chain point
  shallow : ∀ earlier ∈ before, Contradicts env chain earlier → earlier.1 < 2

namespace FirstDeep
variable {chain : List Entry} {points : SortedMap Nat Hash} {before after : List (Nat × Hash)}
  {point : Nat × Hash}
variable (h : FirstDeep env chain points before point after)
include h

theorem mem : point ∈ points.entries := by
  rw [h.split]
  simp

theorem mem_before (hin : earlier ∈ before) : earlier ∈ points.entries := by
  rw [h.split]
  exact mem_append_left _ hin

variable {later : Nat × Hash}

theorem lt_of_mem_after (hin : later ∈ after) : point.1 < later.1 := by
  have hsorted := points.sorted
  rw [h.split, pairwise_append, pairwise_cons] at hsorted
  exact hsorted.2.1.1 later hin

theorem lt_of_mem_before (hin : earlier ∈ before) : earlier.1 < point.1 := by
  have hsorted := points.sorted
  rw [h.split, pairwise_append] at hsorted
  exact hsorted.2.2 earlier hin point mem_cons_self

theorem mem_before_of_lt (hin : earlier ∈ points.entries) (hlt : earlier.1 < point.1) :
    earlier ∈ before := by
  rw [h.split, mem_append, mem_cons] at hin
  rcases hin with hin | rfl | hin
  · exact hin
  · exact absurd hlt (lt_irrefl _)
  · exact absurd (h.lt_of_mem_after hin) (not_lt.mpr hlt.le)

theorem mem_after_of_lt (hin : later ∈ points.entries) (hlt : point.1 < later.1) :
    later ∈ after := by
  rw [h.split, mem_append, mem_cons] at hin
  rcases hin with hin | rfl | hin
  · exact absurd (h.lt_of_mem_before hin) (not_lt.mpr hlt.le)
  · exact absurd hlt (lt_irrefl _)
  · exact hin

end FirstDeep

theorem all_shallow_or_firstDeep (env : ChainEnv) (chain : List Entry)
    (points : SortedMap Nat Hash) :
    (∀ point ∈ points.entries, Contradicts env chain point → point.1 < 2) ∨
      ∃ before point after, FirstDeep env chain points before point after := by
  classical
  by_cases hany : ∃ point ∈ points.entries, decide (2 ≤ point.1 ∧ Contradicts env chain point)
  · obtain ⟨point, hfirst⟩ := Option.isSome_iff_exists.mp (find?_isSome.mpr hany)
    obtain ⟨hpoint, before, after, hsplit, hbefore⟩ := find?_eq_some_iff_append.mp hfirst
    obtain ⟨htwo, hbad⟩ := of_decide_eq_true hpoint
    refine .inr ⟨before, point, after, hsplit, htwo, hbad, ?_⟩
    intro earlier hin hbad'
    by_contra hdeep
    have hnot := hbefore earlier hin
    rw [decide_eq_true ⟨not_lt.mp hdeep, hbad'⟩] at hnot
    cases hnot
  · refine .inl ?_
    intro point hin hbad
    by_contra hdeep
    exact hany ⟨point, hin, decide_eq_true ⟨not_lt.mp hdeep, hbad⟩⟩

section
variable {points : SortedMap Nat Hash} (hfits : s.db.chain.length < 2 ^ 64 - 2)
include hfits
variable {after : List (Nat × Hash)} (h : FirstDeep env s.db.chain points before point after)

include h in
theorem enforcePoints_firstDeep (hdeep : 3 ≤ point.1) :
    enforcePoints env points true s.db.chain.length points.entries s =
      enforcePoints env points true s.db.chain.length after
        (s.markReset.setChain (s.db.chain.take (point.1 - 2))) := by
  rw [h.split, enforcePoints_shallow hfits (fun _ hin => h.mem_before hin) h.shallow]
  obtain ⟨e, he, -⟩ := id h.bad
  have hlt := (List.getElem?_eq_some_iff.mp he).1
  have hheight : wsub point.1 2 = point.1 - 2 := wsub_of_le (by omega) (by omega)
  rw [enforcePoints_contradicts h.mem hlt h.bad, hheight]
  exact exec_bind_ok (rollbackBlockchainSwitching_run [] (by omega) (by omega))

theorem enforcePoints_converges (h : Converges env s.db.chain points) :
    ∃ s₁, enforcePoints env points true s.db.chain.length points.entries s = .ok () s₁ ∧
      s₁.db.chain <+: s.db.chain ∧
      ∀ point ∈ points.entries, ¬ Contradicts env s₁.db.chain point := by
  rcases h with hnone | ⟨point, hmem, hdeep, hbad, hearlier, hlater⟩
  · refine ⟨s, ?_, prefix_refl _, hnone⟩
    exact enforcePoints_all_shallow hfits (fun point hp hbad => absurd hbad (hnone point hp))
  · obtain ⟨before, after, hsplit⟩ := append_of_mem hmem
    have hsorted := points.sorted
    rw [hsplit, pairwise_append] at hsorted
    have hfirst : FirstDeep env s.db.chain points before point after := by
      refine ⟨hsplit, by omega, hbad, ?_⟩
      intro earlier hin hbad'
      have hone := hearlier earlier (by rw [hsplit]; exact mem_append_left _ hin)
        (hsorted.2.2 earlier hin point mem_cons_self) hbad'
      omega
    refine ⟨s.markReset.setChain (s.db.chain.take (point.1 - 2)), ?_, take_prefix _ _, ?_⟩
    · rw [enforcePoints_firstDeep hfits hfirst hdeep]
      refine enforcePoints_all_beyond ?_
      intro later hin
      exact hlater later (by rw [hsplit]; simp [hin]) (hfirst.lt_of_mem_after hin)
    · rintro other hother ⟨e, he, hne⟩
      have hlow := (List.getElem?_eq_some_iff.mp he).1
      have hlen : other.1 < point.1 - 2 := lt_of_lt_of_le hlow (length_take_le _ _)
      have hold : s.db.chain[other.1]? = some e := (getElem?_take_of_lt hlen).symm.trans he
      have hone := hearlier other hother (by omega) ⟨e, hold, hne⟩
      omega

variable {s₁ : Blockchain}
  (hrun : enforcePoints env points true s.db.chain.length points.entries s = .ok () s₁)
  (hagree : ∀ point ∈ points.entries, ¬ Contradicts env s₁.db.chain point)
include hrun hagree

include h in
theorem converges_of_firstDeep (hdeep : 3 ≤ point.1) : Converges env s.db.chain points := by
  rw [enforcePoints_firstDeep hfits h hdeep] at hrun
  have hlater : ∀ later ∈ after, s.db.chain.length ≤ later.1 := by
    intro later hin
    by_contra hlow
    rw [enforcePoints_after_rollback (fun other hother => ?_) ⟨later, hin, not_le.mp hlow⟩] at hrun
    · cases hrun
    · have habove := h.lt_of_mem_after hother
      refine (length_take_le _ _).trans ?_
      omega
  have hkept : s₁ = s.markReset.setChain (s.db.chain.take (point.1 - 2)) := by
    rw [enforcePoints_all_beyond hlater] at hrun
    exact (EStateM.Result.ok.inj hrun).2.symm
  refine .inr ⟨point, h.mem, hdeep, h.bad, ?_, ?_⟩
  · rintro earlier hin hlt ⟨e, he, hne⟩
    have hlow := h.shallow earlier (h.mem_before_of_lt hin hlt) ⟨e, he, hne⟩
    by_contra hbound
    have hinside : earlier.1 < point.1 - 2 := by omega
    refine hagree earlier hin ⟨e, ?_, hne⟩
    rw [hkept]
    exact (getElem?_take_of_lt hinside).trans he
  · intro later hin hlt
    exact hlater later (h.mem_after_of_lt hin hlt)

theorem converges_of_enforcePoints : Converges env s.db.chain points := by
  rcases all_shallow_or_firstDeep env s.db.chain points with hshallow |
    ⟨before, point, after, hfirst⟩
  · rw [enforcePoints_all_shallow hfits hshallow] at hrun
    have hkept : s = s₁ := (EStateM.Result.ok.inj hrun).2
    rw [← hkept] at hagree
    exact .inl hagree
  · rcases hfirst.two.eq_or_lt with hsecond | hdeep
    · obtain ⟨s', hthrow⟩ : ∃ s', enforcePoints env points true s.db.chain.length
          (point :: after) s = .error "Cannot pop the genesis block" s' := by
        obtain ⟨e, he, -⟩ := id hfirst.bad
        have hlt := (List.getElem?_eq_some_iff.mp he).1
        have hne : s.db.chain ≠ [] := ne_nil_of_length_pos (by omega)
        obtain ⟨s', hthrow⟩ : ∃ s', rollbackBlockchainSwitching env [] 0 s =
            .error "Cannot pop the genesis block" s' := rollback_to_zero hne
        refine ⟨s', ?_⟩
        rw [enforcePoints_contradicts hfirst.mem hlt hfirst.bad, ← hsecond]
        exact exec_bind_error hthrow
      rw [hfirst.split, enforcePoints_shallow hfits (fun _ hin => hfirst.mem_before hin)
        hfirst.shallow, hthrow] at hrun
      cases hrun
    · exact converges_of_firstDeep hfits hfirst hrun hagree hdeep

end

theorem enforced_checkpoints_converge_iff {env : ChainEnv} {s : Blockchain}
    (hfits : s.db.chain.length < 2 ^ 64 - 2) (points : SortedMap Nat Hash) :
    (∃ s', checkAgainstCheckpoints env points true s = .ok () s' ∧
      s'.db.chain <+: s.db.chain ∧
      ∀ point ∈ points.entries, point.1 < s'.db.chain.length →
        env.blockHashFromHeight s'.db.chain point.1 = .ok point.2) ↔
      Converges env s.db.chain points := by
  have hdb := batchStart_db s
  rw [← hdb] at hfits
  constructor
  · rintro ⟨s', hrun, -, hagree⟩
    obtain ⟨s₁, hloop, hsame⟩ := checkAgainstCheckpoints_ok_iff.mp ⟨s', hrun, rfl⟩
    rw [← hdb] at hloop ⊢
    refine converges_of_enforcePoints hfits hloop ?_
    intro point hpoint
    rw [hsame]
    exact not_contradicts_iff.mpr (hagree point hpoint)
  · intro h
    rw [← hdb] at h
    obtain ⟨s₁, hloop, hkept, hagree⟩ := enforcePoints_converges hfits h
    rw [hdb] at hloop hkept
    obtain ⟨s', hrun, hsame⟩ := checkAgainstCheckpoints_ok_iff.mpr ⟨s₁, hloop, rfl⟩
    refine ⟨s', hrun, by rw [hsame]; exact hkept, ?_⟩
    intro point hpoint
    rw [hsame]
    exact not_contradicts_iff.mp (hagree point hpoint)

def tenBlocks : Blockchain :=
  ⟨⟨(List.range 10).map (fun height =>
    ⟨sampleBlock height 1 (1000 * height + 1), height, 0⟩), .empty⟩, none, true, .initial, ∅⟩

theorem lone_contradiction_converges :
    ∃ s', checkAgainstCheckpoints sampleEnv (empty.insert 5 1) true tenBlocks =
        .ok () s' ∧
      s'.db.chain <+: tenBlocks.db.chain ∧
      ∀ point ∈ (empty.insert 5 1 : SortedMap Nat Hash).entries,
        point.1 < s'.db.chain.length →
          sampleEnv.blockHashFromHeight s'.db.chain point.1 = .ok point.2 := by
  refine (enforced_checkpoints_converge_iff (by decide) (empty.insert 5 1)).mpr (.inr ?_)
  refine ⟨(5, 1), mem_singleton_self _, by decide, ⟨_, rfl, by decide⟩, ?_, ?_⟩
  · intro earlier hearlier hlt
    rw [mem_singleton.mp hearlier] at hlt
    exact absurd hlt (lt_irrefl _)
  · intro later hlater hlt
    rw [mem_singleton.mp hlater] at hlt
    exact absurd hlt (lt_irrefl _)

theorem stale_height_read_throws :
    thrown (checkAgainstCheckpoints sampleEnv
      ((empty.insert 5 1).insert 8 9001) true tenBlocks) =
        some "Attempt to get hash from height failed -- hash not in db" := by
  decide +kernel

end Blockchain
end Jero.Chain
