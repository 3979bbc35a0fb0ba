import Mathlib.Tactic

namespace Jero.Sync
open Function

structure Stamp where
  time : Nat
  hidden : Bool
deriving DecidableEq, Repr

structure Departure (κ : Type*) where
  time : Nat
  key : κ
  hidden : Bool
deriving DecidableEq, Repr

structure Journal (κ : Type*) where
  present : κ → Option Stamp
  presentFrom : Nat
  gone : Set (Departure κ)
  lost : Nat

def visible (trusted hidden : Bool) : Bool := trusted || !hidden

namespace Journal
variable {κ : Type*} {j g h : Journal κ} {trusted hidden : Bool} {now t : Nat} {k : κ}

def Shows (j : Journal κ) (trusted : Bool) (k : κ) : Prop :=
  ∃ s, j.present k = some s ∧ visible trusted s.hidden = true

def Admits (j : Journal κ) (k : κ) (hidden : Bool) : Prop :=
  ∀ s, j.present k = some s → s.hidden = false → hidden = false

def Reports (j : Journal κ) (t : Nat) (trusted : Bool) (k : κ) : Prop :=
  ∃ d ∈ j.gone, t ≤ d.time ∧ d.key = k ∧ visible trusted d.hidden = true

theorem Admits.visible (hadmits : j.Admits k hidden) (hshows : j.Shows trusted k) :
    visible trusted hidden = true := by
  obtain ⟨s, hs, hvisible⟩ := hshows
  cases trusted with
  | true => rfl
  | false =>
    have hopen : s.hidden = false := by simpa [Sync.visible] using hvisible
    rw [hadmits s hs hopen]
    rfl

def blank : Journal κ := ⟨fun _ => none, 0, ∅, 0⟩

structure Clocked (now : Nat) (j : Journal κ) : Prop where
  gone : ∀ d ∈ j.gone, d.time ≤ now
  readded : ∀ d ∈ j.gone, ∀ s, j.present d.key = some s → d.time ≤ s.time

theorem Clocked.blank (now : Nat) : Clocked now (blank : Journal κ) :=
  ⟨fun _ hd => absurd hd (Set.notMem_empty _), fun _ hd => absurd hd (Set.notMem_empty _)⟩

structure Tracks (t : Nat) (trusted : Bool) (base j : Journal κ) : Prop where
  held : ∀ k, base.Shows trusted k → j.Shows trusted k ∨ t ≤ j.lost ∨ j.Reports t trusted k
  fresh : ∀ k s, j.present k = some s → visible trusted s.hidden = true →
    ¬ base.Shows trusted k → t ≤ s.time

def Since (t : Nat) (trusted : Bool) (base j : Journal κ) : Prop :=
  (j.presentFrom = 0 ∨ t ≤ j.presentFrom) ∨ Tracks t trusted base j

theorem Tracks.refl (t : Nat) (trusted : Bool) (j : Journal κ) : Tracks t trusted j j :=
  ⟨fun _ hk => .inl hk, fun _ s hs hvisible hnot => absurd ⟨s, hs, hvisible⟩ hnot⟩

variable {base : Journal κ}

theorem Since.shows_iff (hsince : Since t trusted base j) (hclocked : Clocked now j)
    (hfrom : j.presentFrom ≠ 0) (hafter : j.presentFrom < t) (hlost : j.lost < t) (k : κ) :
    j.Shows trusted k ↔ (base.Shows trusted k ∧ ¬ j.Reports t trusted k) ∨
      ∃ s, j.present k = some s ∧ visible trusted s.hidden = true ∧ t ≤ s.time := by
  have htracks : Tracks t trusted base j := by
    rcases hsince with (hzero | hlate) | htracks
    · exact absurd hzero hfrom
    · exact absurd hlate (not_le.mpr hafter)
    · exact htracks
  constructor
  · rintro ⟨s, hs, hvisible⟩
    rcases le_or_gt t s.time with hrecent | hold
    · exact .inr ⟨s, hs, hvisible, hrecent⟩
    · refine .inl ⟨?_, ?_⟩
      · by_contra hnot
        exact absurd (htracks.fresh k s hs hvisible hnot) (not_le.mpr hold)
      · rintro ⟨d, hd, htime, rfl, -⟩
        exact absurd (htime.trans (hclocked.readded d hd s hs)) (not_le.mpr hold)
  · rintro (⟨hbase, hnot⟩ | ⟨s, hs, hvisible, -⟩)
    · rcases htracks.held k hbase with hshows | hlate | hreports
      · exact hshows
      · exact absurd hlate (not_le.mpr hlost)
      · exact absurd hreports hnot
    · exact ⟨s, hs, hvisible⟩

variable [DecidableEq κ]

def arrived (j : Journal κ) (now : Nat) (k : κ) (hidden : Bool) : Journal κ :=
  { j with
    present := Function.update j.present k (some ⟨now, hidden⟩)
    presentFrom := if j.presentFrom = 0 then now else j.presentFrom }

structure Left (j : Journal κ) (now : Nat) (k : κ) (hidden : Bool) (g : Journal κ) : Prop where
  present : g.present = Function.update j.present k none
  presentFrom : g.presentFrom = j.presentFrom
  gone : ∀ d ∈ g.gone, d ∈ j.gone ∨ d = ⟨now, k, hidden⟩
  kept : ∀ d, d ∈ j.gone ∨ d = ⟨now, k, hidden⟩ → d ∈ g.gone ∨ d.time ≤ g.lost
  lost : j.lost ≤ g.lost

inductive Step (now : Nat) : Journal κ → Journal κ → Prop
  | arrive {j : Journal κ} {k : κ} {hidden : Bool} (h : j.Admits k hidden) :
      Step now j (j.arrived now k hidden)
  | leave {j g : Journal κ} {k : κ} {hidden : Bool} (h : j.Admits k hidden)
      (hleft : j.Left now k hidden g) : Step now j g
  | reset {j : Journal κ} : Step now j blank

inductive Elapses : Nat → Journal κ → Nat → Journal κ → Prop
  | refl (now : Nat) (j : Journal κ) : Elapses now j now j
  | wait {a b c : Nat} {j g : Journal κ} (hrun : Elapses a j b g) (hle : b ≤ c) : Elapses a j c g
  | step {a b : Nat} {j g h : Journal κ} (hrun : Elapses a j b g) (hstep : Step b g h) :
      Elapses a j b h

theorem Elapses.trans {a b c : Nat} (hfirst : Elapses a j b g) (hsecond : Elapses b g c h) :
    Elapses a j c h := by
  induction hsecond with
  | refl => exact hfirst
  | wait _ hle ih => exact (ih hfirst).wait hle
  | step _ hstep ih => exact (ih hfirst).step hstep

theorem Elapses.le {a b : Nat} (hrun : Elapses a j b g) : a ≤ b := by
  induction hrun with
  | refl => exact le_rfl
  | wait _ hle ih => exact ih.trans hle
  | step _ _ ih => exact ih

theorem Clocked.step (hj : Clocked now j) (hstep : Step now j g) : Clocked now g := by
  cases hstep with
  | arrive hadmits =>
    refine ⟨hj.gone, ?_⟩
    intro d hd s hs
    simp only [arrived, update_apply] at hs
    split at hs
    · obtain rfl := Option.some.inj hs
      exact hj.gone d hd
    · exact hj.readded d hd s hs
  | leave hadmits hleft =>
    refine ⟨?_, ?_⟩
    · intro d hd
      rcases hleft.gone d hd with hold | rfl
      · exact hj.gone d hold
      · exact le_rfl
    · intro d hd s hs
      rw [hleft.present, update_apply] at hs
      split at hs
      · cases hs
      · rename_i hne
        rcases hleft.gone d hd with hold | rfl
        · exact hj.readded d hold s hs
        · exact absurd rfl hne
  | reset => exact Clocked.blank now

theorem Clocked.elapses {a b : Nat} (hj : Clocked a j) (hrun : Elapses a j b g) : Clocked b g := by
  induction hrun with
  | refl => exact hj
  | wait _ hle ih => exact ⟨fun d hd => ((ih hj).gone d hd).trans hle, (ih hj).readded⟩
  | step _ hstep ih => exact (ih hj).step hstep

theorem Tracks.arrived (htracks : Tracks t trusted base j) (hnow : t ≤ now)
    (hadmits : j.Admits k hidden) : Tracks t trusted base (j.arrived now k hidden) := by
  refine ⟨?_, ?_⟩
  · intro i hi
    refine (htracks.held i hi).imp_left ?_
    intro hshows
    by_cases hik : i = k
    · subst hik
      exact ⟨_, update_self .., hadmits.visible hshows⟩
    · obtain ⟨s, hs, hvisible⟩ := hshows
      exact ⟨s, (update_of_ne hik ..).trans hs, hvisible⟩
  · intro i s hs hvisible hnot
    simp only [Journal.arrived, update_apply] at hs
    split at hs
    · obtain rfl := Option.some.inj hs
      exact hnow
    · exact htracks.fresh i s hs hvisible hnot

theorem Tracks.left (htracks : Tracks t trusted base j) (hnow : t ≤ now)
    (hadmits : j.Admits k hidden) (hleft : j.Left now k hidden g) : Tracks t trusted base g := by
  refine ⟨?_, ?_⟩
  · intro i hi
    rcases htracks.held i hi with hshows | hlost | ⟨d, hd, htime, hkey, hvisible⟩
    · by_cases hik : i = k
      · subst hik
        rcases hleft.kept _ (.inr rfl) with hgone | hlost
        · exact .inr (.inr ⟨_, hgone, hnow, rfl, hadmits.visible hshows⟩)
        · exact .inr (.inl (hnow.trans hlost))
      · obtain ⟨s, hs, hvisible⟩ := hshows
        refine .inl ⟨s, ?_, hvisible⟩
        rw [hleft.present, update_of_ne hik]
        exact hs
    · exact .inr (.inl (hlost.trans hleft.lost))
    · rcases hleft.kept d (.inl hd) with hgone | hlost
      · exact .inr (.inr ⟨d, hgone, htime, hkey, hvisible⟩)
      · exact .inr (.inl (htime.trans hlost))
  · intro i s hs hvisible hnot
    rw [hleft.present, update_apply] at hs
    split at hs
    · cases hs
    · exact htracks.fresh i s hs hvisible hnot

theorem Since.step (hsince : Since t trusted base j) (hnow : t ≤ now) (hstep : Step now j g) :
    Since t trusted base g := by
  cases hstep with
  | arrive hadmits =>
    rcases hsince with (hzero | hlate) | htracks
    · refine .inl (.inr ?_)
      simp only [arrived, hzero, if_true]
      exact hnow
    · refine .inl ?_
      simp only [arrived]
      split
      · exact .inr hnow
      · exact .inr hlate
    · exact .inr (htracks.arrived hnow hadmits)
  | leave hadmits hleft =>
    rcases hsince with hstale | htracks
    · exact .inl (hleft.presentFrom ▸ hstale)
    · exact .inr (htracks.left hnow hadmits hleft)
  | reset => exact .inl (.inl rfl)

theorem Since.elapses {a b : Nat} (hsince : Since t trusted base j) (hta : t ≤ a)
    (hrun : Elapses a j b g) : Since t trusted base g := by
  induction hrun with
  | refl => exact hsince
  | wait _ _ ih => exact ih hsince
  | step hrun hstep ih => exact (ih hsince).step (hta.trans hrun.le) hstep

end Journal
end Jero.Sync
