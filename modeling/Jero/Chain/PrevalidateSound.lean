import Jero.Chain.Prevalidate

namespace Jero.Chain
open Jero.Machine Jero.Tx List Option Announcement HashCheck
variable {n k : Nat}

structure GroupHash.CollisionFree (gh : GroupHash) : Prop where
  hashes : ∀ u v : List Hash, u.length = hashOfHashesStep → v.length = hashOfHashesStep →
    gh.ofHashes u = gh.ofHashes v → u = v
  weights : ∀ u v : List Nat, u.length = hashOfHashesStep → v.length = hashOfHashesStep →
    gh.ofWeights u = gh.ofWeights v → u = v

structure Consistent (gh : GroupHash) (table : HashTable) (check : List CheckEntry) : Prop where
  length : check.length = table.groups.length * hashOfHashesStep
  hash : ∀ i e expected, check[i]? = some e → table.groups[i / hashOfHashesStep]? = some expected →
    e.1 ≠ nullHash → ∃ hs : List Hash, hs.length = hashOfHashesStep ∧
      gh.ofHashes hs = expected.1 ∧ hs[i % hashOfHashesStep]? = some e.1
  weight : ∀ i e expected, check[i]? = some e → table.groups[i / hashOfHashesStep]? = some expected →
    e.2 ≠ 0 → ∃ ws : List Nat, ws.length = hashOfHashesStep ∧
      gh.ofWeights ws = expected.2 ∧ ws[i % hashOfHashesStep]? = some e.2

def Written (a : Announcement) (check check' : List CheckEntry) (n : Nat) : Prop :=
  ∀ k < hashOfHashesStep, ∃ h w old, a.hashAt (n * hashOfHashesStep + k) = some h ∧
    check[n * hashOfHashesStep + k]? = some old ∧
    check'[n * hashOfHashesStep + k]? = some (h, w) ∧
    if a.weights = [] then w = old.2 else a.weightAt (n * hashOfHashesStep + k) = some w

def Untouched (check check' : List CheckEntry) (n : Nat) : Prop :=
  ∀ k < hashOfHashesStep,
    check'[n * hashOfHashesStep + k]? = check[n * hashOfHashesStep + k]?

variable {gh : GroupHash} {table : HashTable} {a : Announcement} {check check' : List CheckEntry}

theorem group_div (hk : k < hashOfHashesStep) :
    (n * hashOfHashesStep + k) / hashOfHashesStep = n ∧
      (n * hashOfHashesStep + k) % hashOfHashesStep = k := by
  unfold hashOfHashesStep at *
  omega

section
variable (hc : Consistent gh table check) (hmatch : a.Matches gh table n)
include hc hmatch

theorem compatible_of_consistent (hfree : gh.CollisionFree) (hk : k < hashOfHashesStep) {h : Hash}
    (hh : a.hashAt (n * hashOfHashesStep + k) = some h) {old : CheckEntry}
    (hold : check[n * hashOfHashesStep + k]? = some old) :
    Compatible old (h, a.newWeight (n * hashOfHashesStep + k)) := by
  obtain ⟨expected, hexpected, hhashes, hweights⟩ := hmatch
  obtain ⟨hdiv, hmod⟩ := @group_div n k hk
  refine ⟨?_, ?_⟩
  · intro hnull
    obtain ⟨hs, hlength, hdigest, hget⟩ :=
      hc.hash _ old expected hold (by rw [hdiv]; exact hexpected) hnull
    have hsame := hfree.hashes hs (a.groupHashes n) hlength (by simp [groupHashes])
      (hdigest.trans hhashes.symm)
    rw [hmod, hsame, groupHashes, getElem?_map, getElem?_range hk, map_some, hh] at hget
    exact (some.inj hget).symm
  · intro w hw hzero
    have hwith : a.weights ≠ [] := by
      intro hnone
      simp [newWeight, hnone] at hw
    have hw : a.weightAt (n * hashOfHashesStep + k) = some w := by
      simpa [newWeight, hwith] using hw
    obtain ⟨ws, hlength, hdigest, hget⟩ :=
      hc.weight _ old expected hold (by rw [hdiv]; exact hexpected) hzero
    have hsame := hfree.weights ws (a.groupWeights n) hlength (by simp [groupWeights])
      (hdigest.trans (hweights hwith).symm)
    rw [hmod, hsame, groupWeights, getElem?_map, getElem?_range hk, map_some, hw] at hget
    exact (some.inj hget).symm

theorem Consistent.written (hlength : check'.length = check.length)
    (hwritten : Written a check check' n) (hother : ∀ m, m ≠ n → Untouched check check' m) :
    Consistent gh table check' := by
  obtain ⟨expected, hexpected, hhashes, hweights⟩ := hmatch
  have hsplit : ∀ i, i = i / hashOfHashesStep * hashOfHashesStep + i % hashOfHashesStep := by
    intro i
    rw [mul_comm, Nat.div_add_mod]
  have hmod : ∀ i, i % hashOfHashesStep < hashOfHashesStep := fun i => Nat.mod_lt _ (by decide)
  refine ⟨hlength.trans hc.length, ?_, ?_⟩
  · intro i e expected' he hexpected' hnull
    by_cases hgroup : i / hashOfHashesStep = n
    · obtain ⟨h, w, old, hh, -, hnew, -⟩ := hwritten _ (hmod i)
      rw [hgroup, hexpected] at hexpected'
      obtain rfl := some.inj hexpected'
      rw [← hgroup, ← hsplit i, he] at hnew
      obtain rfl := some.inj hnew
      refine ⟨a.groupHashes n, by simp [groupHashes], hhashes, ?_⟩
      rw [groupHashes, getElem?_map, getElem?_range (hmod i), map_some, hh]
      rfl
    · refine hc.hash i e expected' ?_ hexpected' hnull
      have hsame := hother _ hgroup _ (hmod i)
      rwa [← hsplit i, he, eq_comm] at hsame
  · intro i e expected' he hexpected' hzero
    by_cases hgroup : i / hashOfHashesStep = n
    · obtain ⟨h, w, old, -, hold, hnew, hw⟩ := hwritten _ (hmod i)
      have hnew' := hnew
      rw [← hgroup, ← hsplit i, he] at hnew
      obtain rfl := some.inj hnew
      by_cases hwith : a.weights = []
      · rw [if_pos hwith] at hw
        rw [← hgroup, ← hsplit i] at hold
        rw [hw] at hzero ⊢
        exact hc.weight i old expected' hold hexpected' hzero
      · rw [if_neg hwith] at hw
        rw [hgroup, hexpected] at hexpected'
        obtain rfl := some.inj hexpected'
        refine ⟨a.groupWeights n, by simp [groupWeights], hweights hwith, ?_⟩
        rw [groupWeights, getElem?_map, getElem?_range (hmod i), map_some, hw]
        rfl
    · refine hc.weight i e expected' ?_ hexpected' hzero
      have hsame := hother _ hgroup _ (hmod i)
      rwa [← hsplit i, he, eq_comm] at hsame

theorem writeGroup_consistent (hfree : gh.CollisionFree) (hn : a.gather.firstIndex ≤ n)
    (hcontained : a.Contained n) (hshape : a.Shaped) :
    ∃ check', writeGroup (n * hashOfHashesStep) (a.gather.entries a.withWeights n) check =
        (true, check') ∧ Consistent gh table check' ∧ Written a check check' n ∧
      ∀ m, m ≠ n → Untouched check check' m := by
  have hlength := entries_length hn hcontained hshape
  obtain ⟨expected, hexpected, -⟩ := id hmatch
  obtain ⟨hin, -⟩ := List.getElem?_eq_some_iff.mp hexpected
  have hget : ∀ k, k < hashOfHashesStep → ∃ h, a.hashAt (n * hashOfHashesStep + k) = some h ∧
      (a.gather.entries a.withWeights n)[k]? =
        some (h, a.newWeight (n * hashOfHashesStep + k)) := by
    intro k hk
    obtain ⟨h, hh⟩ := isSome_iff_exists.mp (hcontained k hk)
    exact ⟨h, hh, by rw [entries_getElem? hn hcontained hshape hk, hh]; rfl⟩
  have hroom : n * hashOfHashesStep + (a.gather.entries a.withWeights n).length ≤ check.length := by
    rw [hlength, hc.length, ← Nat.succ_mul]
    exact Nat.mul_le_mul_right _ hin
  obtain ⟨check', hrun, hsize, houtside, hinside⟩ := writeGroup_ok _ hroom (by
    intro k e old he hold
    obtain ⟨hk, -⟩ := List.getElem?_eq_some_iff.mp he
    rw [hlength] at hk
    obtain ⟨h, hh, hentry⟩ := hget k hk
    rw [hentry] at he
    obtain rfl := some.inj he
    exact compatible_of_consistent hc hmatch hfree hk hh hold)
  have hwritten : Written a check check' n := by
    intro k hk
    obtain ⟨h, hh, hentry⟩ := hget k hk
    have hlt : n * hashOfHashesStep + k < table.groups.length * hashOfHashesStep := by
      unfold hashOfHashesStep at *
      omega
    rw [← hc.length] at hlt
    obtain ⟨old, hold⟩ : ∃ old, check[n * hashOfHashesStep + k]? = some old :=
      ⟨_, getElem?_eq_getElem hlt⟩
    refine ⟨h, _, old, hh, hold, hinside k _ old hentry hold, ?_⟩
    unfold newWeight
    by_cases hwith : a.weights = []
    · rw [if_pos hwith, if_pos hwith]
      rfl
    · rw [if_neg hwith, if_neg hwith]
      obtain ⟨w, hw⟩ := isSome_iff_exists.mp
        (weightAt_isSome hn hcontained hshape hwith hk)
      rw [hw]
      rfl
  have hother : ∀ m, m ≠ n → Untouched check check' m := by
    intro m hm k hk
    refine houtside _ ?_
    rw [hlength]
    unfold hashOfHashesStep at *
    omega
  exact ⟨check', hrun, hc.written hmatch hsize hwritten hother, hwritten, hother⟩

end

def usableAt (table : HashTable) (a : Announcement) (n : Nat) : Nat :=
  if n ≤ table.groups.length then wsub (n * hashOfHashesStep) a.height
  else min (n * hashOfHashesStep - a.height) a.hashes.length

theorem usableAt_of_le (hn : n ≤ table.groups.length) :
    usableAt table a n = wsub (n * hashOfHashesStep) a.height := if_pos hn

theorem usableAt_of_gt (hn : table.groups.length < n) :
    usableAt table a n = min (n * hashOfHashesStep - a.height) a.hashes.length :=
  if_neg (not_le.mpr hn)

theorem usableAt_succ_inside (hn : n < table.groups.length)
    (hheight : a.height < table.groups.length * hashOfHashesStep) :
    wrap (usableAt table a n + hashOfHashesStep) = usableAt table a (n + 1) := by
  have hbound := table.bounded
  rw [usableAt_of_le hn.le, usableAt_of_le hn]
  unfold wrap wsub hashOfHashesStep at *
  omega

theorem usableAt_succ_outside (hn : table.groups.length ≤ n)
    (hheight : a.height < table.groups.length * hashOfHashesStep) :
    (if wrap (usableAt table a n + hashOfHashesStep) > a.hashes.length then a.hashes.length
      else wrap (usableAt table a n + hashOfHashesStep)) = usableAt table a (n + 1) := by
  have hbound := table.bounded
  have hfits := a.fits
  have hcurrent : wrap (usableAt table a n + hashOfHashesStep) =
      usableAt table a n + hashOfHashesStep ∧
      (usableAt table a n = n * hashOfHashesStep - a.height ∨
        usableAt table a n = a.hashes.length) ∧
      usableAt table a n ≤ n * hashOfHashesStep - a.height := by
    rcases hn.eq_or_lt with rfl | hlt
    · rw [usableAt_of_le le_rfl, wsub_of_le hheight.le (by unfold hashOfHashesStep; omega)]
      refine ⟨wrap_of_lt ?_, .inl rfl, le_rfl⟩
      unfold hashOfHashesStep
      omega
    · rw [usableAt_of_gt hlt]
      refine ⟨wrap_of_lt ?_, ?_, min_le_left _ _⟩
      · unfold hashOfHashesStep
        omega
      · rcases le_total (n * hashOfHashesStep - a.height) a.hashes.length with hle | hle
        · exact .inl (min_eq_left hle)
        · exact .inr (min_eq_right hle)
  obtain ⟨hwrap, hvalue, hle⟩ := hcurrent
  have hnext : usableAt table a (n + 1) =
      min (n * hashOfHashesStep + hashOfHashesStep - a.height) a.hashes.length := by
    rw [usableAt_of_gt (Nat.lt_succ_of_le hn), Nat.succ_mul]
  rw [hwrap, hnext]
  have hbelow : a.height ≤ n * hashOfHashesStep :=
    hheight.le.trans (Nat.mul_le_mul_right _ hn)
  split
  · omega
  · omega

theorem contained_reach (h : a.Contained n) :
    (n + 1) * hashOfHashesStep ≤ a.height + a.hashes.length := by
  have hlast := h (hashOfHashesStep - 1) (by decide)
  unfold hashAt at hlast
  split at hlast
  · unfold hashOfHashesStep at *
    omega
  · have hlt : n * hashOfHashesStep + (hashOfHashesStep - 1) - a.height < a.hashes.length := by
      simpa using hlast
    unfold hashOfHashesStep at *
    omega

structure GroupsChecked (gh : GroupHash) (table : HashTable) (a : Announcement)
    (n stop : Nat) (check check' : List CheckEntry) : Prop where
  consistent : Consistent gh table check'
  le_stop : n ≤ stop
  reach : stop ≤ table.groups.length → stop * hashOfHashesStep ≤ a.height + a.hashes.length
  checked : ∀ m, n ≤ m → m < stop → m < table.groups.length →
    a.Contained m ∧ a.Matches gh table m ∧ Written a check check' m
  others : ∀ m, ¬ (n ≤ m ∧ m < stop ∧ m < table.groups.length) → Untouched check check' m

section
variable (hc : Consistent gh table check)
  (hreach : n ≤ table.groups.length → n * hashOfHashesStep ≤ a.height + a.hashes.length)
include hc hreach

theorem GroupsChecked.stopped : GroupsChecked gh table a n n check check :=
  ⟨hc, le_rfl, hreach, fun _ hm hlt => absurd hm (not_le.mpr hlt), fun _ _ _ _ => rfl⟩

theorem checkGroups_spec (hfree : gh.CollisionFree) (hshape : a.Shaped)
    (hheight : a.height < table.groups.length * hashOfHashesStep) (fuel : Nat)
    (hn : a.gather.firstIndex ≤ n) :
    ∃ stop check', checkGroups gh table.groups a.gather a.withWeights a.hashes.length fuel n
        (usableAt table a n) check = (some (usableAt table a stop), check') ∧
      GroupsChecked gh table a n stop check check' := by
  induction fuel generalizing n check with
  | zero => exact ⟨n, check, rfl, .stopped hc hreach⟩
  | succ fuel ih =>
    unfold checkGroups
    cases hexpected : table.groups[n]? with
    | none =>
      have hout : table.groups.length ≤ n := List.getElem?_eq_none_iff.mp hexpected
      simp only [usableAt_succ_outside hout hheight]
      obtain ⟨stop, check', hrun, hdone⟩ := ih hc (fun hle => absurd hle (by omega))
        (hn.trans (Nat.le_succ n))
      have hle := hdone.le_stop
      refine ⟨stop, check', hrun, hdone.consistent, by omega, hdone.reach, ?_, ?_⟩
      · intro m hm hstop hin
        omega
      · intro m hm
        exact hdone.others m (by omega)
    | some expected =>
      obtain ⟨hin, -⟩ := List.getElem?_eq_some_iff.mp hexpected
      simp only
      split
      · exact ⟨n, check, rfl, .stopped hc hreach⟩
      rename_i hfilled
      have hcontained := (contained_iff hn).mpr (Nat.le_of_not_lt hfilled)
      split
      · exact ⟨n, check, rfl, .stopped hc hreach⟩
      rename_i hvalid
      have hmatch : a.Matches gh table n :=
        (valid_iff hn hcontained hshape hexpected).mp (by simpa using hvalid)
      obtain ⟨next, hwrite, hnext, hwritten, hother⟩ :=
        writeGroup_consistent hc hmatch hfree hn hcontained hshape
      rw [hwrite, usableAt_succ_inside hin hheight]
      obtain ⟨stop, check', hrun, hdone⟩ := ih hnext
        (fun _ => contained_reach hcontained) (hn.trans (Nat.le_succ n))
      have hle := hdone.le_stop
      refine ⟨stop, check', hrun, hdone.consistent, by omega, hdone.reach, ?_, ?_⟩
      · intro m hm hstop hlt
        by_cases hsame : m = n
        · subst hsame
          refine ⟨hcontained, hmatch, ?_⟩
          intro k hk
          obtain ⟨h, w, old, hh, hold, hnew, hw⟩ := hwritten k hk
          exact ⟨h, w, old, hh, hold, (hdone.others m (by omega) k hk).trans hnew, hw⟩
        · obtain ⟨hmin, hmatches, hmwritten⟩ := hdone.checked m (by omega) hstop hlt
          refine ⟨hmin, hmatches, ?_⟩
          intro k hk
          obtain ⟨h, w, old, hh, hold, hnew, hw⟩ := hmwritten k hk
          exact ⟨h, w, old, hh, (hother m hsame k hk).symm.trans hold, hnew, hw⟩
      · intro m hm k hk
        by_cases hsame : m = n
        · omega
        · exact (hdone.others m (by omega) k hk).trans (hother m hsame k hk)

end

theorem lastIndex_eq (h : 0 < a.height + a.hashes.length)
    (hheight : a.height < table.groups.length * hashOfHashesStep) :
    a.lastIndex = (a.height + a.hashes.length - 1) / hashOfHashesStep := by
  have hbound := table.bounded
  have hfits := a.fits
  have hsum : a.height + a.hashes.length < 2 ^ 64 := by
    unfold hashOfHashesStep at hheight
    omega
  rw [lastIndex, wrap_of_lt hsum, wsub_of_le h hsum]

abbrev Announcement.TooShort (a : Announcement) : Prop :=
  a.height / hashOfHashesStep = a.lastIndex ∧ a.hashes.length < hashOfHashesStep ∧
    (a.height + a.hashes.length) % hashOfHashesStep ≠ 0

section
variable (hheight : a.height < table.groups.length * hashOfHashesStep)
include hheight

theorem tooShort_not_contained (hshort : a.TooShort)
    (hreach : a.height < (n + 1) * hashOfHashesStep) : ¬ a.Contained n := by
  intro hcontained
  have hend := contained_reach hcontained
  obtain ⟨hlast, hfew, hrest⟩ := hshort
  rw [lastIndex_eq (by omega) hheight] at hlast
  unfold hashOfHashesStep at *
  omega

theorem usable_count {stop : Nat} :
    (if usableAt table a stop < (2 ^ 64 - 1) / 2 then usableAt table a stop else 0) ≤
      if stop ≤ table.groups.length then stop * hashOfHashesStep - a.height else a.hashes.length := by
  have hbound := table.bounded
  by_cases hin : stop ≤ table.groups.length
  · rw [usableAt_of_le hin, if_pos hin]
    unfold wsub hashOfHashesStep at *
    split <;> omega
  · rw [usableAt_of_gt (Nat.lt_of_not_le hin), if_neg hin]
    split
    · exact min_le_right _ _
    · exact Nat.zero_le _

end
namespace HashCheck

def Holds (gh : GroupHash) (s : HashCheck) : Prop := s.check = [] ∨ Consistent gh s.table s.check

structure Sound (gh : GroupHash) (s : HashCheck) (a : Announcement) (r : Nat × HashCheck) : Prop where
  count_le : r.1 ≤ a.hashes.length
  table : r.2.table = s.table
  length : r.2.check.length = s.check.length
  groups : ∀ n, (n < s.table.groups.length ∧ a.Contained n ∧ a.Matches gh s.table n ∧
    Written a s.check r.2.check n) ∨ Untouched s.check r.2.check n
  mismatch : s.check ≠ [] → ∀ n < s.table.groups.length,
    a.height < (n + 1) * hashOfHashesStep → a.Contained n → ¬ a.Matches gh s.table n →
      r.1 ≤ n * hashOfHashesStep - a.height

variable {s : HashCheck}
section
variable (hc : Consistent gh s.table s.check)
  (hheight : a.height < s.table.groups.length * hashOfHashesStep)
include hc hheight

theorem prevalidate_checked (hfree : gh.CollisionFree) (hshape : a.Shaped) (hheld : s.check ≠ [])
    (hlong : ¬ a.TooShort) :
    ∃ stop check', GroupsChecked gh s.table a a.gather.firstIndex stop s.check check' ∧
      s.prevalidateBlockHashes gh a =
        (if usableAt s.table a stop < (2 ^ 64 - 1) / 2 then usableAt s.table a stop else 0,
          s.setCheck check') := by
  have hreach : a.gather.firstIndex * hashOfHashesStep ≤ a.height + a.hashes.length := by
    unfold gather
    split
    · rename_i hdisconnected
      unfold Announcement.TooShort at hlong
      rw [lastIndex_eq (by omega) hheight] at hlong
      unfold hashOfHashesStep at *
      simp only
      omega
    · exact (Nat.div_mul_le_self _ _).trans (Nat.le_add_right _ _)
  have hfirst : a.gather.firstIndex ≤ s.table.groups.length := by
    have hin : a.height / hashOfHashesStep < s.table.groups.length := by
      unfold hashOfHashesStep at *
      omega
    unfold gather
    split
    · exact hin
    · exact hin.le
  obtain ⟨stop, check', hrun, hdone⟩ := checkGroups_spec hc (fun _ => hreach) hfree hshape hheight
    (a.lastIndex + 1 - a.gather.firstIndex) le_rfl
  refine ⟨stop, check', hdone, ?_⟩
  rw [usableAt_of_le hfirst] at hrun
  unfold prevalidateBlockHashes
  rw [if_neg (not_not.mpr hshape), if_neg (not_le.mpr hheight), if_neg hheld, if_neg hlong]
  simp only [hrun]

theorem sound_of_checked {stop : Nat}
    (h : GroupsChecked gh s.table a a.gather.firstIndex stop s.check check') :
    Sound gh s a (if usableAt s.table a stop < (2 ^ 64 - 1) / 2 then usableAt s.table a stop else 0,
      s.setCheck check') := by
  have hcount := @usable_count s.table a hheight stop
  refine ⟨hcount.trans ?_, rfl, h.consistent.length.trans hc.length.symm, ?_, ?_⟩
  · split
    · rename_i hin
      have hreach := h.reach hin
      omega
    · exact le_rfl
  · intro n
    by_cases hn : a.gather.firstIndex ≤ n ∧ n < stop ∧ n < s.table.groups.length
    · obtain ⟨hfirst, hstop, hin⟩ := hn
      exact .inl ⟨hin, h.checked n hfirst hstop hin⟩
    · exact .inr (h.others n hn)
  · intro _ n hin hreach hcontained hmatch
    have hfirst : a.gather.firstIndex ≤ n := by
      have hfirst : a.height / hashOfHashesStep ≤ n := by
        unfold hashOfHashesStep at *
        omega
      unfold gather
      split
      · rename_i hdisconnected
        obtain ⟨hheight, haligned⟩ := hdisconnected
        by_contra hlt
        have hlt : ¬ a.height / hashOfHashesStep + 1 ≤ n := hlt
        have hlast := hcontained (a.height - 1 - n * hashOfHashesStep) (by
          unfold hashOfHashesStep at *
          omega)
        have hsame : n * hashOfHashesStep + (a.height - 1 - n * hashOfHashesStep) = a.height - 1 :=
          by
          unfold hashOfHashesStep at *
          omega
        rw [hsame, hashAt, if_pos (by omega), getElem?_eq_none (by omega)] at hlast
        simp at hlast
      · exact hfirst
    have hstop : stop ≤ n := by
      by_contra hlt
      exact hmatch (h.checked n hfirst (Nat.lt_of_not_le hlt) hin).2.1
    rw [if_pos (hstop.trans hin.le)] at hcount
    exact hcount.trans (Nat.sub_le_sub_right (Nat.mul_le_mul_right _ hstop) _)

end

theorem prevalidate_spec (hfree : gh.CollisionFree) (hs : s.Holds gh) (hshape : a.Shaped) :
    Sound gh s a (s.prevalidateBlockHashes gh a) ∧ (s.prevalidateBlockHashes gh a).2.Holds gh := by
  by_cases hpast : a.height ≥ s.table.groups.length * hashOfHashesStep
  · unfold prevalidateBlockHashes
    rw [if_neg (not_not.mpr hshape), if_pos hpast]
    refine ⟨⟨le_rfl, rfl, rfl, fun _ => .inr fun _ _ => rfl, ?_⟩, hs⟩
    intro _ n hn hreach
    have hend := Nat.mul_le_mul_right hashOfHashesStep (Nat.succ_le_of_lt hn)
    exact absurd (hreach.trans_le hend) (not_lt.mpr hpast)
  by_cases hempty : s.check = []
  · unfold prevalidateBlockHashes
    rw [if_neg (not_not.mpr hshape), if_neg hpast, if_pos hempty]
    exact ⟨⟨le_rfl, rfl, rfl, fun _ => .inr fun _ _ => rfl, fun hne => absurd hempty hne⟩, hs⟩
  have hheight := Nat.lt_of_not_le hpast
  by_cases hshort : a.TooShort
  · unfold prevalidateBlockHashes
    rw [if_neg (not_not.mpr hshape), if_neg hpast, if_neg hempty, if_pos hshort]
    refine ⟨⟨le_rfl, rfl, rfl, fun _ => .inr fun _ _ => rfl, ?_⟩, hs⟩
    intro _ n _ hreach hcontained
    exact absurd hcontained (tooShort_not_contained hheight hshort hreach)
  have hc := hs.resolve_left hempty
  obtain ⟨stop, check', hdone, hrun⟩ :=
    prevalidate_checked hc hheight hfree hshape hempty hshort
  rw [hrun]
  exact ⟨sound_of_checked hc hheight hdone, .inr hdone.consistent⟩

theorem step_holds (hfree : gh.CollisionFree) (hs : s.Holds gh) (call : Call) :
    (s.step gh call).Holds gh := by
  cases call with
  | prevalidateBlockHashes a =>
    change (prevalidateBlockHashes gh s a).2.Holds gh
    by_cases hshape : a.Shaped
    · exact (prevalidate_spec hfree hs hshape).2
    · unfold prevalidateBlockHashes
      rw [if_pos hshape]
      exact hs
  | cleanupHandleIncomingBlocks dbHeight =>
    change (cleanupHandleIncomingBlocks s dbHeight).Holds gh
    unfold cleanupHandleIncomingBlocks
    split
    · exact .inl rfl
    · exact hs

theorem run_holds (hfree : gh.CollisionFree) (table : HashTable) (calls : List Call) :
    (calls.foldl (step gh) (load table)).Holds gh := by
  induction calls using reverseRecOn with
  | nil =>
    refine .inr ⟨length_replicate, ?_, ?_⟩
    · intro i e expected he _ hnull
      obtain rfl := (mem_replicate.mp (mem_of_getElem? he)).2
      exact absurd rfl hnull
    · intro i e expected he _ hzero
      obtain rfl := (mem_replicate.mp (mem_of_getElem? he)).2
      exact absurd rfl hzero
  | append_singleton calls call ih =>
    rw [foldl_append]
    exact step_holds hfree ih call

theorem prevalidated_hashes_sound {gh : GroupHash} (hfree : gh.CollisionFree) (table : HashTable)
    (calls : List Call) (a : Announcement)
    (hshape : a.weights = [] ∨ a.weights.length = a.hashes.length) :
    let s := calls.foldl (step gh) (load table)
    let r := s.prevalidateBlockHashes gh a
    r.1 ≤ a.hashes.length ∧ r.2.table = s.table ∧ r.2.check.length = s.check.length ∧
      (∀ n, (n < s.table.groups.length ∧ a.Contained n ∧ a.Matches gh s.table n ∧
        Written a s.check r.2.check n) ∨ Untouched s.check r.2.check n) ∧
      (s.check ≠ [] → ∀ n < s.table.groups.length, a.height < (n + 1) * hashOfHashesStep →
        a.Contained n → ¬ a.Matches gh s.table n → r.1 ≤ n * hashOfHashesStep - a.height) := by
  intro s r
  have hsound : Sound gh s a r :=
    (prevalidate_spec hfree (run_holds hfree table calls) hshape).1
  exact ⟨hsound.count_le, hsound.table, hsound.length, hsound.groups, hsound.mismatch⟩

def codedGroups : GroupHash := ⟨Encodable.encode, Encodable.encode⟩

theorem codedGroups_collisionFree : codedGroups.CollisionFree :=
  ⟨fun _ _ _ _ h => Encodable.encode_injective h, fun _ _ _ _ h => Encodable.encode_injective h⟩

def zeroTable : HashTable :=
  ⟨[(Encodable.encode (List.replicate hashOfHashesStep 0), 0)], by decide⟩

def forgedHashes : Announcement :=
  ⟨List.replicate 5000 (7, 1), 0, List.replicate hashOfHashesStep 1, [], by decide +kernel⟩

theorem forgedHashes_contained : forgedHashes.Contained 0 := by
  intro k hk
  rw [Nat.zero_mul, zero_add]
  change ((replicate hashOfHashesStep 1)[k]?).isSome
  rw [getElem?_replicate, if_pos hk]
  rfl

theorem forgedHashes_mismatch : ¬ forgedHashes.Matches codedGroups zeroTable 0 := by
  rintro ⟨expected, hexpected, hhashes, -⟩
  obtain rfl := some.inj hexpected
  exact absurd (Encodable.encode_injective hhashes) (by decide +kernel)

theorem forged_hashes_refused :
    ((load zeroTable).prevalidateBlockHashes codedGroups forgedHashes).1 ≤ 0 := by
  obtain ⟨-, -, -, -, hmismatch⟩ :=
    prevalidated_hashes_sound codedGroups_collisionFree zeroTable [] forgedHashes (.inl rfl)
  exact hmismatch (cons_ne_nil _ _) 0 (by decide) (by decide) forgedHashes_contained
    forgedHashes_mismatch

theorem dropped_table_accepts_forged_hashes :
    let s := [Call.cleanupHandleIncomingBlocks forgedHashes.chain.length].foldl (step codedGroups)
      (load zeroTable)
    codedGroups.CollisionFree ∧ forgedHashes.weights = [] ∧ 0 < s.table.groups.length ∧
      forgedHashes.height = 0 ∧ forgedHashes.Contained 0 ∧
      ¬ forgedHashes.Matches codedGroups s.table 0 ∧
      (s.prevalidateBlockHashes codedGroups forgedHashes).1 = 512 := by
  have htable : ((load zeroTable).cleanupHandleIncomingBlocks forgedHashes.chain.length).table =
      zeroTable := by
    unfold cleanupHandleIncomingBlocks
    split <;> rfl
  refine ⟨codedGroups_collisionFree, rfl, by decide +kernel, rfl, forgedHashes_contained, ?_,
    by decide +kernel⟩
  rw [foldl_cons, foldl_nil, step, htable]
  exact forgedHashes_mismatch

end HashCheck
end Jero.Chain
