import Mathlib.Init

namespace Jero.Machine

abbrev Exec (σ α : Type) := EStateM String σ α

variable {σ α β : Type}

def stateAfter : EStateM.Result String σ α → σ
  | .ok _ s => s
  | .error _ s => s

def returned : EStateM.Result String σ α → Option α
  | .ok a _ => some a
  | .error _ _ => none

def thrown : EStateM.Result String σ α → Option String
  | .ok _ _ => none
  | .error e _ => some e

def Preserves (inv : σ → Prop) (x : Exec σ α) : Prop := ∀ s, inv s → inv (stateAfter (x s))

variable {x : Exec σ α} {f : α → Exec σ β}

theorem exec_bind_ok {s s₁ : σ} {a : α} (h : x s = .ok a s₁) : (x >>= f) s = f a s₁ := by
  simp only [bind, EStateM.bind, h]

theorem exec_bind_error {s s₁ : σ} {e : String} (h : x s = .error e s₁) :
    (x >>= f) s = .error e s₁ := by
  simp only [bind, EStateM.bind, h]

theorem exec_get_bind (f : σ → Exec σ β) (s : σ) : (get >>= f) s = f s s := rfl

theorem exec_modify_bind (g : σ → σ) (f : Unit → Exec σ β) (s : σ) :
    (modify g >>= f) s = f () (g s) := rfl

namespace Preserves
variable {inv : σ → Prop}

theorem pure (a : α) : Preserves inv (Pure.pure a : Exec σ α) := fun _ h => h

theorem bind (hx : Preserves inv x) (hf : ∀ a, Preserves inv (f a)) : Preserves inv (x >>= f) := by
  intro s hs
  have hmid := hx s hs
  cases hrun : x s with
  | ok a s₁ =>
    rw [hrun] at hmid
    rw [exec_bind_ok hrun]
    exact hf a s₁ hmid
  | error e s₁ =>
    rw [hrun] at hmid
    rw [exec_bind_error hrun]
    exact hmid

theorem ite {y : Exec σ α} {c : Prop} [Decidable c] (hx : Preserves inv x) (hy : Preserves inv y) :
    Preserves inv (if c then x else y) := by
  split
  · exact hx
  · exact hy

theorem get_bind {f : σ → Exec σ β} (hf : ∀ s, inv s → inv (stateAfter (f s s))) :
    Preserves inv (get >>= f) := hf

theorem modify {g : σ → σ} (h : ∀ s, inv s → inv (g s)) :
    Preserves inv (modify g : Exec σ PUnit) := h

theorem modifyGet {g : σ → α × σ} (h : ∀ s, inv s → inv (g s).2) :
    Preserves inv (modifyGet g : Exec σ α) := h

theorem tryCatch {handler : String → Exec σ α} (hx : Preserves inv x)
    (hh : ∀ e, Preserves inv (handler e)) : Preserves inv (tryCatch x handler) := by
  intro s hs
  have hmid := hx s hs
  change inv (stateAfter (EStateM.tryCatch x handler s))
  delta EStateM.tryCatch
  cases hrun : x s with
  | ok a s₁ =>
    rw [hrun] at hmid
    simpa only [hrun] using hmid
  | error e s₁ =>
    rw [hrun] at hmid
    exact hh e s₁ hmid

end Preserves
variable {σ α β : Type}

def require (c : Prop) [Decidable c] (msg : String) : Exec σ Unit :=
  if c then pure () else throw msg

structure Settles (x : Exec σ α) (s : σ) (c : Prop) (a : α) (s' : σ) : Prop where
  ok : c → x s = .ok a s'
  error : ¬ c → ∃ e t, x s = .error e t

namespace Settles
variable {x : Exec σ α} {f : α → Exec σ β} {s s₁ s₂ : σ} {c d : Prop} {a : α} {b : β}

theorem congr (h : Settles x s c a s₁) (hc : d ↔ c) : Settles x s d a s₁ :=
  ⟨fun hd => h.ok (hc.mp hd), fun hd => h.error (fun hc' => hd (hc.mpr hc'))⟩

theorem pure (a : α) (s : σ) : Settles (Pure.pure a : Exec σ α) s True a s :=
  ⟨fun _ => rfl, fun h => absurd trivial h⟩

theorem throw (e : String) (s : σ) : Settles (throw e : Exec σ α) s False a s₁ :=
  ⟨False.elim, fun _ => ⟨e, s, rfl⟩⟩

theorem require (c : Prop) [Decidable c] (msg : String) (s : σ) :
    Settles (Machine.require c msg) s c () s := by
  unfold Machine.require
  constructor
  · intro hc
    rw [if_pos hc]
    rfl
  · intro hc
    rw [if_neg hc]
    exact ⟨msg, s, rfl⟩

theorem bind (hx : Settles x s c a s₁) (hf : c → Settles (f a) s₁ d b s₂) :
    Settles (x >>= f) s (c ∧ d) b s₂ := by
  constructor
  · rintro ⟨hc, hd⟩
    rw [exec_bind_ok (hx.ok hc)]
    exact (hf hc).ok hd
  · intro hcd
    by_cases hc : c
    · rw [exec_bind_ok (hx.ok hc)]
      exact (hf hc).error (fun hd => hcd ⟨hc, hd⟩)
    · obtain ⟨e, t, hrun⟩ := hx.error hc
      exact ⟨e, t, exec_bind_error hrun⟩

theorem bind_true (hx : Settles x s True a s₁) (hf : Settles (f a) s₁ d b s₂) :
    Settles (x >>= f) s d b s₂ :=
  (hx.bind (fun _ => hf)).congr (iff_of_eq (true_and d)).symm

theorem require_bind [Decidable c] (hc : c) {msg : String} {f : Unit → Exec σ β}
    (h : Settles (f ()) s d b s₁) : Settles (Machine.require c msg >>= f) s d b s₁ :=
  ((require c msg s).congr (iff_of_true trivial hc)).bind_true h

theorem get_bind {f : σ → Exec σ β} (h : Settles (f s) s c b s₁) :
    Settles (get >>= f) s c b s₁ := ⟨h.ok, h.error⟩

theorem modify_bind {g : σ → σ} {f : PUnit → Exec σ β} (h : Settles (f ⟨⟩) (g s) c b s₁) :
    Settles (modify g >>= f) s c b s₁ := ⟨h.ok, h.error⟩

theorem bind_pure (hx : Settles x s c a s₁) (g : α → β) :
    Settles (x >>= fun a => Pure.pure (g a)) s c (g a) s₁ :=
  (hx.bind (fun _ => pure (g a) s₁)).congr (iff_of_eq (and_true c)).symm

theorem map (hx : Settles x s c a s₁) (g : α → β) : Settles (g <$> x) s c (g a) s₁ := by
  rw [map_eq_pure_bind]
  exact hx.bind_pure g

end Settles
end Jero.Machine
