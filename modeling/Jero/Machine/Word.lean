import Mathlib.Tactic

namespace Jero.Machine

def wrap (n : Nat) : Nat := n % 2 ^ 64

def wsub (a b : Nat) : Nat := (a + 2 ^ 64 - b) % 2 ^ 64

def roundToFloat32 (n : Nat) : Nat :=
  let e := Nat.log2 n - 23
  let q := n / 2 ^ e
  let r := n % 2 ^ e
  if 2 * r > 2 ^ e ∨ (2 * r = 2 ^ e ∧ q % 2 = 1) then (q + 1) * 2 ^ e else q * 2 ^ e

theorem wrap_of_lt {n : Nat} (h : n < 2 ^ 64) : wrap n = n := Nat.mod_eq_of_lt h

theorem wrap_lt (n : Nat) : wrap n < 2 ^ 64 := Nat.mod_lt _ (by norm_num)

theorem wsub_of_le {a b : Nat} (h : b ≤ a) (ha : a < 2 ^ 64) : wsub a b = a - b := by
  unfold wsub
  have he : a + 2 ^ 64 - b = (a - b) + 2 ^ 64 := by omega
  rw [he, Nat.add_mod_right]
  exact Nat.mod_eq_of_lt (by omega)

def check (c : Bool) (msg : String) : Except String Unit :=
  if c then .ok () else .error msg

variable {α : Type}

theorem check_true {c : Bool} (h : c = true) (msg : String) (f : Unit → Except String α) :
    (check c msg >>= f) = f () := by
  subst h
  rfl

theorem check_decide {p : Prop} [Decidable p] (h : p) (msg : String)
    (f : Unit → Except String α) : (check (decide p) msg >>= f) = f () :=
  check_true (decide_eq_true h) msg f

theorem check_bind_ok_iff {c : Bool} {msg : String} {f : Unit → Except String α} {a : α} :
    (check c msg >>= f) = .ok a ↔ c = true ∧ f () = .ok a := by
  cases c with
  | false =>
    constructor
    · intro h
      cases h
    · rintro ⟨h, -⟩
      cases h
  | true => exact ⟨fun h => ⟨rfl, h⟩, fun h => h.2⟩

variable {β : Type} {f : α → Except String β} {x : Except String α}

@[simp] theorem ok_bind (a : α) (f : α → Except String β) :
    (Except.ok a >>= f) = f a := rfl

theorem bind_ok {b : β} (h : (x >>= f) = .ok b) : ∃ a, x = .ok a ∧ f a = .ok b := by
  cases x with
  | error e => cases h
  | ok a => exact ⟨a, rfl, h⟩

theorem bind_ok_iff {b : β} : (x >>= f) = .ok b ↔ ∃ a, x = .ok a ∧ f a = .ok b := by
  constructor
  · exact bind_ok
  · rintro ⟨a, rfl, h⟩
    exact h

theorem except_map_bind {γ : Type} (x : Except String α) (f : α → Except String β) (g : β → γ) :
    (x >>= f).map g = x >>= fun a => (f a).map g := by
  cases x <;> rfl

theorem mapM_ok_of_forall {g : α → β} (l : List α) (h : ∀ a ∈ l, f a = .ok (g a)) :
    l.mapM f = .ok (l.map g) := by
  induction l with
  | nil => rfl
  | cons a l ih =>
    have ha := h a (by simp)
    have hl := ih (fun b hb => h b (by simp [hb]))
    rw [List.mapM_cons, ha, hl]
    rfl

theorem accepted_past_guard {α : Type*} {c : Prop} [Decidable c] {a : α} {rest : Bool × α}
    (h : (if c then (false, a) else rest).1 = true) : ¬ c ∧ rest.1 = true := by
  split at h
  · cases h
  · rename_i hc
    exact ⟨hc, h⟩

theorem not_rejected {b : Bool} (h : ¬ (!b) = true) : b = true := by
  simpa using h

end Jero.Machine
