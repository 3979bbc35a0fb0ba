import Jero.Tx.Basic

namespace Jero.Chain
open Jero.Machine Jero.Tx List Option

def hashOfHashesStep : Nat := 512

structure HashTable where
  groups : List (Hash × Hash)
  bounded : groups.length ≤ (2 ^ 32 - 1 - 4) / 32

structure GroupHash where
  ofHashes : List Hash → Hash
  ofWeights : List Nat → Hash

structure Announcement where
  chain : List (Hash × Nat)
  height : Nat
  hashes : List Hash
  weights : List Nat
  fits : hashes.length < 2 ^ 58

structure GroupData where
  firstIndex : Nat
  hashes : List Hash
  weights : List Nat

abbrev CheckEntry := Hash × Nat

structure HashCheck where
  table : HashTable
  check : List CheckEntry

namespace GroupData
variable (d : GroupData)

def hashesOf (n : Nat) : List Hash :=
  (d.hashes.drop ((n - d.firstIndex) * hashOfHashesStep)).take hashOfHashesStep

def weightsOf (n : Nat) : List Nat :=
  (d.weights.drop ((n - d.firstIndex) * hashOfHashesStep)).take hashOfHashesStep

def valid (gh : GroupHash) (withWeights : Bool) (n : Nat) (expected : Hash × Hash) : Bool :=
  gh.ofHashes (d.hashesOf n) == expected.1 &&
    (!withWeights || gh.ofWeights (d.weightsOf n) == expected.2)

def entries (withWeights : Bool) (n : Nat) : List (Hash × Option Nat) :=
  if withWeights then List.zipWith (fun h w => (h, some w)) (d.hashesOf n) (d.weightsOf n)
  else (d.hashesOf n).map fun h => (h, none)

end GroupData

def writeEntry (old : CheckEntry) : Hash × Option Nat → Bool × CheckEntry
  | (h, w) =>
    if old.1 ≠ nullHash ∧ old.1 ≠ h then (false, old)
    else match w with
      | none => (true, (h, old.2))
      | some w => if old.2 ≠ 0 ∧ old.2 ≠ w then (false, (h, old.2)) else (true, (h, w))

def writeGroup : Nat → List (Hash × Option Nat) → List CheckEntry → Bool × List CheckEntry
  | _, [], check => (true, check)
  | i, e :: rest, check =>
    match writeEntry (check.getD i (nullHash, 0)) e with
    | (false, entry) => (false, check.set i entry)
    | (true, entry) => writeGroup (i + 1) rest (check.set i entry)

def checkGroups (gh : GroupHash) (groups : List (Hash × Hash)) (d : GroupData)
    (withWeights : Bool) (size : Nat) :
    Nat → Nat → Nat → List CheckEntry → Option Nat × List CheckEntry
  | 0, _, usable, check => (some usable, check)
  | fuel + 1, n, usable, check =>
    match groups[n]? with
    | some expected =>
      if d.hashes.length < (n - d.firstIndex) * hashOfHashesStep + hashOfHashesStep then
        (some usable, check)
      else if !d.valid gh withWeights n expected then (some usable, check)
      else match writeGroup (n * hashOfHashesStep) (d.entries withWeights n) check with
        | (false, check) => (none, check)
        | (true, check) =>
          checkGroups gh groups d withWeights size fuel (n + 1) (wrap (usable + hashOfHashesStep)) check
    | none =>
      let usable := wrap (usable + hashOfHashesStep)
      checkGroups gh groups d withWeights size fuel (n + 1)
        (if usable > size then size else usable) check

namespace Announcement
variable (a : Announcement)

def withWeights : Bool := !a.weights.isEmpty

def gather : GroupData :=
  let firstIndex := a.height / hashOfHashesStep
  if a.height > a.chain.length ∧ a.height % hashOfHashesStep ≠ 0 then
    let pop := hashOfHashesStep - a.height % hashOfHashesStep
    ⟨firstIndex + 1, a.hashes.drop pop, a.weights.drop pop⟩
  else
    let below := (a.chain.drop (firstIndex * hashOfHashesStep)).take
      (a.height - firstIndex * hashOfHashesStep)
    ⟨firstIndex, below.map Prod.fst ++ a.hashes,
      if a.withWeights then below.map Prod.snd ++ a.weights else []⟩

def lastIndex : Nat := wsub (wrap (a.height + a.hashes.length)) 1 / hashOfHashesStep

end Announcement
namespace HashCheck

def load (table : HashTable) : HashCheck :=
  ⟨table, List.replicate (table.groups.length * hashOfHashesStep) (nullHash, 0)⟩

def setCheck (s : HashCheck) (check : List CheckEntry) : HashCheck := { s with check := check }

def prevalidateBlockHashes (gh : GroupHash) (s : HashCheck) (a : Announcement) : Nat × HashCheck :=
  if ¬ (a.weights = [] ∨ a.weights.length = a.hashes.length) then (0, s)
  else if a.height ≥ s.table.groups.length * hashOfHashesStep then (a.hashes.length, s)
  else if s.check = [] then (a.hashes.length, s)
  else if a.height / hashOfHashesStep = a.lastIndex ∧ a.hashes.length < hashOfHashesStep ∧
      (a.height + a.hashes.length) % hashOfHashesStep ≠ 0 then (a.hashes.length, s)
  else
    let d := a.gather
    let usable := wsub (d.firstIndex * hashOfHashesStep) a.height
    match checkGroups gh s.table.groups d a.withWeights a.hashes.length
        (a.lastIndex + 1 - d.firstIndex) d.firstIndex usable s.check with
    | (none, check) => (0, s.setCheck check)
    | (some usable, check) => (if usable < (2 ^ 64 - 1) / 2 then usable else 0, s.setCheck check)

def cleanupHandleIncomingBlocks (s : HashCheck) (dbHeight : Nat) : HashCheck :=
  if s.check ≠ [] ∧ dbHeight > s.check.length + 4096 then s.setCheck [] else s

inductive Call where
  | prevalidateBlockHashes (a : Announcement)
  | cleanupHandleIncomingBlocks (dbHeight : Nat)

def step (gh : GroupHash) (s : HashCheck) : Call → HashCheck
  | .prevalidateBlockHashes a => (HashCheck.prevalidateBlockHashes gh s a).2
  | .cleanupHandleIncomingBlocks dbHeight => HashCheck.cleanupHandleIncomingBlocks s dbHeight

end HashCheck
namespace Announcement
variable (a : Announcement)

def hashAt (h : Nat) : Option Hash :=
  if h < a.height then a.chain[h]?.map Prod.fst else a.hashes[h - a.height]?

def weightAt (h : Nat) : Option Nat :=
  if h < a.height then a.chain[h]?.map Prod.snd else a.weights[h - a.height]?

def Contained (n : Nat) : Prop :=
  ∀ k < hashOfHashesStep, (a.hashAt (n * hashOfHashesStep + k)).isSome

def groupHashes (n : Nat) : List Hash :=
  (List.range hashOfHashesStep).map fun k => (a.hashAt (n * hashOfHashesStep + k)).getD nullHash

def groupWeights (n : Nat) : List Nat :=
  (List.range hashOfHashesStep).map fun k => (a.weightAt (n * hashOfHashesStep + k)).getD 0

def Matches (gh : GroupHash) (table : HashTable) (n : Nat) : Prop :=
  ∃ expected, table.groups[n]? = some expected ∧ gh.ofHashes (a.groupHashes n) = expected.1 ∧
    (a.weights ≠ [] → gh.ofWeights (a.groupWeights n) = expected.2)

abbrev Shaped : Prop := a.weights = [] ∨ a.weights.length = a.hashes.length

variable {a}

theorem withWeights_iff : a.withWeights = true ↔ a.weights ≠ [] := by
  simp [withWeights]

theorem below_getElem? {α : Type} (f : Hash × Nat → α) (rest : List α) {start height : Nat}
    (hstart : start ≤ height) (hheight : height ≤ a.chain.length ∨ start = height) (k : Nat) :
    (((a.chain.drop start).take (height - start)).map f ++ rest)[k]? =
      if start + k < height then a.chain[start + k]?.map f else rest[start + k - height]? := by
  have hlength : (((a.chain.drop start).take (height - start)).map f).length = height - start := by
    rw [length_map, length_take, length_drop]
    omega
  split
  · rw [getElem?_append_left (by omega), getElem?_map, getElem?_take_of_lt (by omega),
      getElem?_drop]
  · rw [getElem?_append_right (by omega), hlength]
    congr 1
    omega

theorem gather_hashes (k : Nat) :
    a.gather.hashes[k]? = a.hashAt (a.gather.firstIndex * hashOfHashesStep + k) := by
  unfold gather hashAt hashOfHashesStep
  split
  · rw [if_neg (by simp only; omega)]
    simp only
    rw [getElem?_drop]
    congr 1
    omega
  · exact below_getElem? Prod.fst a.hashes (by omega) (by omega) k

theorem gather_weights (hwith : a.weights ≠ []) (k : Nat) :
    a.gather.weights[k]? = a.weightAt (a.gather.firstIndex * hashOfHashesStep + k) := by
  unfold gather weightAt hashOfHashesStep
  split
  · rw [if_neg (by simp only; omega)]
    simp only
    rw [getElem?_drop]
    congr 1
    omega
  · simp only [if_pos (withWeights_iff.mpr hwith)]
    exact below_getElem? Prod.snd a.weights (by omega) (by omega) k

theorem gather_lengths (hshape : a.weights.length = a.hashes.length) (hwith : a.weights ≠ []) :
    a.gather.weights.length = a.gather.hashes.length := by
  unfold gather
  split
  · rw [length_drop, length_drop, hshape]
  · simp only [if_pos (withWeights_iff.mpr hwith), length_append, length_map, hshape]

theorem group_index {first n : Nat} (hn : first ≤ n) (k : Nat) :
    first * hashOfHashesStep + ((n - first) * hashOfHashesStep + k) = n * hashOfHashesStep + k := by
  rw [← add_assoc, ← add_mul, Nat.add_sub_cancel' hn]

theorem contained_iff {n : Nat} (hn : a.gather.firstIndex ≤ n) :
    a.Contained n ↔
      (n - a.gather.firstIndex) * hashOfHashesStep + hashOfHashesStep ≤ a.gather.hashes.length := by
  have hindex : ∀ k, a.hashAt (n * hashOfHashesStep + k) =
      a.gather.hashes[(n - a.gather.firstIndex) * hashOfHashesStep + k]? := by
    intro k
    rw [gather_hashes, group_index hn]
  constructor
  · intro hcontained
    have hlast := hcontained (hashOfHashesStep - 1) (by decide)
    rw [hindex] at hlast
    have hlt : (n - a.gather.firstIndex) * hashOfHashesStep + (hashOfHashesStep - 1) <
        a.gather.hashes.length := by simpa using hlast
    omega
  · intro hlength k hk
    rw [hindex, getElem?_eq_getElem (by omega)]
    rfl

theorem slice_eq {α : Type} {l : List α} {f : Nat → Option α} {m : Nat} (default : α)
    (hget : ∀ k, l[m + k]? = f k) (hlength : m + hashOfHashesStep ≤ l.length) :
    (l.drop m).take hashOfHashesStep =
      (List.range hashOfHashesStep).map fun k => (f k).getD default := by
  refine ext_getElem? ?_
  intro k
  by_cases hk : k < hashOfHashesStep
  · rw [getElem?_take_of_lt hk, getElem?_drop, getElem?_map, getElem?_range hk, map_some, ← hget,
      getElem?_eq_getElem (show m + k < l.length by omega)]
    rfl
  · rw [getElem?_eq_none (by rw [length_take]; omega),
      getElem?_eq_none (by rw [length_map, length_range]; omega)]

section
variable {n : Nat} (hn : a.gather.firstIndex ≤ n) (hcontained : a.Contained n)
include hn hcontained

theorem hashesOf_eq : a.gather.hashesOf n = a.groupHashes n := by
  refine slice_eq nullHash ?_ ((contained_iff hn).mp hcontained)
  intro k
  rw [gather_hashes, group_index hn]

theorem weightsOf_eq (hshape : a.Shaped) (hwith : a.weights ≠ []) :
    a.gather.weightsOf n = a.groupWeights n := by
  have hlengths := gather_lengths (hshape.resolve_left hwith) hwith
  refine slice_eq 0 ?_ (hlengths ▸ (contained_iff hn).mp hcontained)
  intro k
  rw [gather_weights hwith, group_index hn]

theorem weightAt_isSome {k : Nat} (hshape : a.Shaped) (hwith : a.weights ≠ [])
    (hk : k < hashOfHashesStep) : (a.weightAt (n * hashOfHashesStep + k)).isSome := by
  have hlengths := gather_lengths (hshape.resolve_left hwith) hwith
  have hlength := (contained_iff hn).mp hcontained
  have hindex : a.weightAt (n * hashOfHashesStep + k) =
      a.gather.weights[(n - a.gather.firstIndex) * hashOfHashesStep + k]? := by
    rw [gather_weights hwith, group_index hn]
  rw [hindex, getElem?_eq_getElem (by omega)]
  rfl

theorem valid_iff {gh : GroupHash} {table : HashTable} {expected : Hash × Hash}
    (hshape : a.Shaped) (hexpected : table.groups[n]? = some expected) :
    a.gather.valid gh a.withWeights n expected = true ↔ a.Matches gh table n := by
  unfold GroupData.valid Matches
  rw [hashesOf_eq hn hcontained, hexpected]
  by_cases hwith : a.weights = []
  · simp [withWeights, hwith]
  · rw [weightsOf_eq hn hcontained hshape hwith]
    simp [withWeights_iff.mpr hwith, hwith]

end

def newWeight (a : Announcement) (h : Nat) : Option Nat :=
  if a.weights = [] then none else a.weightAt h

theorem entries_getElem? {n k : Nat} (hn : a.gather.firstIndex ≤ n) (hcontained : a.Contained n)
    (hshape : a.Shaped) (hk : k < hashOfHashesStep) :
    (a.gather.entries a.withWeights n)[k]? = (a.hashAt (n * hashOfHashesStep + k)).map
      fun h => (h, a.newWeight (n * hashOfHashesStep + k)) := by
  have hhash := hcontained k hk
  obtain ⟨h, hh⟩ := isSome_iff_exists.mp hhash
  unfold GroupData.entries newWeight
  rw [hashesOf_eq hn hcontained, hh]
  by_cases hwith : a.weights = []
  · have hflag : a.withWeights = false := by simp [withWeights, hwith]
    simp [hflag, hwith, groupHashes, hk, hh]
  · have hflag := withWeights_iff.mpr hwith
    obtain ⟨w, hw⟩ := isSome_iff_exists.mp (weightAt_isSome hn hcontained hshape hwith hk)
    rw [weightsOf_eq hn hcontained hshape hwith, if_pos hflag, if_neg hwith, hw]
    simp [groupHashes, groupWeights, hk, hh, hw]

theorem entries_length {n : Nat} (hn : a.gather.firstIndex ≤ n) (hcontained : a.Contained n)
    (hshape : a.Shaped) : (a.gather.entries a.withWeights n).length = hashOfHashesStep := by
  unfold GroupData.entries
  rw [hashesOf_eq hn hcontained]
  by_cases hwith : a.weights = []
  · have hflag : a.withWeights = false := by simp [withWeights, hwith]
    simp [hflag, groupHashes]
  · rw [weightsOf_eq hn hcontained hshape hwith, if_pos (withWeights_iff.mpr hwith)]
    simp [groupHashes, groupWeights]

end Announcement

structure Compatible (old : CheckEntry) (e : Hash × Option Nat) : Prop where
  hash : old.1 ≠ nullHash → old.1 = e.1
  weight : ∀ w, e.2 = some w → old.2 ≠ 0 → old.2 = w

theorem writeEntry_ok {old : CheckEntry} {e : Hash × Option Nat} (h : Compatible old e) :
    writeEntry old e = (true, (e.1, e.2.getD old.2)) := by
  obtain ⟨hash, weight⟩ := e
  have hhash : ¬ (old.1 ≠ nullHash ∧ old.1 ≠ hash) := fun hbad => hbad.2 (h.hash hbad.1)
  simp only [writeEntry, if_neg hhash]
  cases weight with
  | none => rfl
  | some w =>
    have hweight : ¬ (old.2 ≠ 0 ∧ old.2 ≠ w) := fun hbad => hbad.2 (h.weight w rfl hbad.1)
    simp only [if_neg hweight]
    rfl

theorem writeGroup_ok (entries : List (Hash × Option Nat)) {i : Nat} {check : List CheckEntry}
    (hroom : i + entries.length ≤ check.length)
    (h : ∀ k e old, entries[k]? = some e → check[i + k]? = some old → Compatible old e) :
    ∃ check', writeGroup i entries check = (true, check') ∧ check'.length = check.length ∧
      (∀ j, j < i ∨ i + entries.length ≤ j → check'[j]? = check[j]?) ∧
      ∀ k e old, entries[k]? = some e → check[i + k]? = some old →
        check'[i + k]? = some (e.1, e.2.getD old.2) := by
  induction entries generalizing i check with
  | nil =>
    refine ⟨check, rfl, rfl, fun _ _ => rfl, ?_⟩
    intro k e old he
    simp at he
  | cons e entries ih =>
    rw [length_cons] at hroom
    obtain ⟨old, hold⟩ : ∃ old, check[i]? = some old :=
      ⟨_, getElem?_eq_getElem (show i < check.length by omega)⟩
    have hwrite : writeEntry (check.getD i (nullHash, 0)) e = (true, (e.1, e.2.getD old.2)) := by
      rw [getD_eq_getElem?_getD, hold]
      exact writeEntry_ok (h 0 e old rfl hold)
    obtain ⟨check', hrun, hlength, houtside, hinside⟩ :=
      @ih (i + 1) (check.set i (e.1, e.2.getD old.2)) (by rw [length_set]; omega) (by
        intro k e' old' he' hold'
        rw [getElem?_set_ne (by omega), show i + 1 + k = i + (k + 1) by omega] at hold'
        exact h (k + 1) e' old' he' hold')
    refine ⟨check', ?_, hlength.trans (length_set ..), ?_, ?_⟩
    · rw [writeGroup, hwrite]
      exact hrun
    · intro j hj
      rw [length_cons] at hj
      rw [houtside j (by omega), getElem?_set_ne (by omega)]
    · intro k e' old' he' hold'
      cases k with
      | zero =>
        obtain rfl : e = e' := some.inj he'
        rw [add_zero] at hold' ⊢
        obtain rfl : old = old' := some.inj (hold.symm.trans hold')
        rw [houtside i (by omega), getElem?_set_self (by omega)]
      | succ k =>
        rw [show i + (k + 1) = i + 1 + k by omega] at hold' ⊢
        exact hinside k e' old' he' (by rw [getElem?_set_ne (by omega)]; exact hold')

end Jero.Chain
