import Mathlib.Data.List.Basic

namespace Jero.Serial

inductive Advance (σ β μ : Type) where
  | wait
  | reject
  | next (state : σ) (rest : List β) (out : Option μ)

structure Framer (σ β μ : Type) where
  step : σ → List β → Advance σ β μ
  next_append : ∀ {s s' : σ} {a rest : List β} {out : Option μ} (b : List β),
    step s a = .next s' rest out → step s (a ++ b) = .next s' (rest ++ b) out
  reject_append : ∀ {s : σ} {a : List β} (b : List β),
    step s a = .reject → step s (a ++ b) = .reject

namespace Framer
variable {σ β μ : Type} {F : Framer σ β μ} {P : σ → Option μ → Prop}

inductive Runs (F : Framer σ β μ) (P : σ → Option μ → Prop) :
    σ → List β → List μ → σ → List β → Prop
  | refl (s : σ) (a : List β) : Runs F P s a [] s a
  | step {s s₁ s₂ : σ} {a a₁ a₂ : List β} {out : Option μ} {ms : List μ}
      (hstep : F.step s a = .next s₁ a₁ out) (hout : P s₁ out)
      (hrest : Runs F P s₁ a₁ ms s₂ a₂) : Runs F P s a (out.toList ++ ms) s₂ a₂

structure Completes (F : Framer σ β μ) (P : σ → Option μ → Prop) (s : σ) (a : List β)
    (ms : List μ) (s' : σ) (a' : List β) : Prop where
  runs : F.Runs P s a ms s' a'
  waits : F.step s' a' = .wait

theorem Runs.append {s s' : σ} {a a' : List β} {ms : List μ} (h : F.Runs P s a ms s' a')
    (b : List β) : F.Runs P s (a ++ b) ms s' (a' ++ b) := by
  induction h with
  | refl s a => exact .refl s (a ++ b)
  | step hstep hout _ ih => exact .step (F.next_append b hstep) hout ih

theorem Runs.trans {s s' s'' : σ} {a a' a'' : List β} {ms ns : List μ}
    (h : F.Runs P s a ms s' a') (k : F.Runs P s' a' ns s'' a'') :
    F.Runs P s a (ms ++ ns) s'' a'' := by
  induction h with
  | refl s a => exact k
  | step hstep hout _ ih =>
    rw [List.append_assoc]
    exact .step hstep hout (ih k)

theorem Runs.single {s s' : σ} {a a' : List β} {out : Option μ}
    (hstep : F.step s a = .next s' a' out) (hout : P s' out) :
    F.Runs P s a out.toList s' a' := by
  have h := Runs.step hstep hout (.refl s' a')
  rwa [List.append_nil] at h

namespace Completes
variable {s s' s'' : σ} {a a' a'' b : List β} {ms ns : List μ}

theorem refl (h : F.step s a = .wait) : F.Completes P s a [] s a :=
  ⟨.refl s a, h⟩

theorem advance {s₁ : σ} {a₁ : List β} {out : Option μ}
    (h : F.Completes P s a ms s' a') (hstep : F.step s a = .next s₁ a₁ out) :
    P s₁ out ∧ ∃ ns, ms = out.toList ++ ns ∧ F.Completes P s₁ a₁ ns s' a' := by
  obtain ⟨hruns, hwaits⟩ := h
  cases hruns with
  | refl =>
    rw [hwaits] at hstep
    cases hstep
  | step hfirst hout hrest =>
    rw [hfirst] at hstep
    cases hstep
    exact ⟨hout, _, rfl, hrest, hwaits⟩

theorem not_reject (h : F.Completes P s (a ++ b) ms s' a') : F.step s a ≠ .reject := by
  intro hreject
  have hfull := F.reject_append b hreject
  obtain ⟨hruns, hwaits⟩ := h
  cases hruns with
  | refl =>
    rw [hwaits] at hfull
    cases hfull
  | step hfirst _ _ =>
    rw [hfirst] at hfull
    cases hfull

theorem unique {Q : σ → Option μ → Prop} (h : F.Completes P s a ms s' a')
    (k : F.Completes Q s a ns s'' a'') : ms = ns ∧ s' = s'' ∧ a' = a'' := by
  obtain ⟨hruns, hwaits⟩ := h
  induction hruns generalizing ns with
  | refl s a =>
    obtain ⟨kruns, kwaits⟩ := k
    cases kruns with
    | refl => exact ⟨rfl, rfl, rfl⟩
    | step kfirst _ _ =>
      rw [hwaits] at kfirst
      cases kfirst
  | step hstep _ _ ih =>
    obtain ⟨_, rest, rfl, krest⟩ := k.advance hstep
    obtain ⟨rfl, hs, ha⟩ := ih krest hwaits
    exact ⟨rfl, hs, ha⟩

end Completes
end Framer
end Jero.Serial
