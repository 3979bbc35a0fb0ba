import Mathlib.Tactic

namespace Jero.Serial
open List Option
variable {b rest w : List UInt8} {k : Nat}

structure Codec (α : Type) where
  write : α → Option (List UInt8)
  read : List UInt8 → Option (α × List UInt8)

namespace Codec
variable {α β : Type}

structure Lawful (c : Codec α) (Fits : α → Prop) (norm : α → α) : Prop where
  restore : ∀ x, Fits x → ∃ w, c.write x = some w ∧ ∀ rest, c.read (w ++ rest) = some (norm x, rest)
  fits : ∀ ⦃b x rest⦄, c.read b = some (x, rest) → Fits x ∧ norm x = x
  more : ∀ ⦃b x y ys⦄, c.read b = some (x, y :: ys) → ∃ w, c.write x = some w ∧ b = w ++ y :: ys
  nil : ∀ ⦃x rest⦄, c.read [] = some (x, rest) → c.write x = some [] ∧ rest = []

def Exact (c : Codec α) : Prop :=
  ∀ ⦃b x rest⦄, c.read b = some (x, rest) → ∃ w, c.write x = some w ∧ b = w ++ rest

def MinWidth (c : Codec α) (k : Nat) : Prop := ∀ ⦃x w⦄, c.write x = some w → k ≤ w.length

variable {c : Codec α} {Fits : α → Prop} {norm : α → α}

theorem Exact.lawful (h : c.Exact) (restore : ∀ x, Fits x → ∃ w, c.write x = some w ∧
      ∀ rest, c.read (w ++ rest) = some (norm x, rest))
    (fits : ∀ ⦃b x rest⦄, c.read b = some (x, rest) → Fits x ∧ norm x = x) :
    c.Lawful Fits norm := by
  refine ⟨restore, fits, fun _ _ _ _ hread => h hread, ?_⟩
  intro x rest hread
  obtain ⟨w, hw, hnil⟩ := h hread
  obtain ⟨rfl, rfl⟩ := append_eq_nil_iff.mp hnil.symm
  exact ⟨hw, rfl⟩

section
variable {c : Codec α} {Fits : α → Prop} {norm : α → α} (h : c.Lawful Fits norm)
include h
variable {x : α}

theorem Lawful.exact_of_rest (hread : c.read b = some (x, rest)) (hrest : rest ≠ []) :
    ∃ w, c.write x = some w ∧ b = w ++ rest := by
  obtain ⟨y, ys, rfl⟩ := exists_cons_of_ne_nil hrest
  exact h.more hread

theorem Lawful.read_written (hread : c.read b = some (x, rest))
    (hwrite : c.write x = some w) (rest' : List UInt8) : c.read (w ++ rest') = some (x, rest') := by
  obtain ⟨hfits, hnorm⟩ := h.fits hread
  obtain ⟨w', hw', hback⟩ := h.restore x hfits
  obtain rfl : w = w' := some.inj (hwrite.symm.trans hw')
  rw [hback, hnorm]

theorem Lawful.read_cut (hread : c.read b = some (x, rest)) :
    c.read (b.take (b.length - rest.length)) = some (x, []) := by
  cases rest with
  | nil =>
    rw [length_nil, Nat.sub_zero, take_length]
    exact hread
  | cons y ys =>
    obtain ⟨w, hw, rfl⟩ := h.more hread
    have hcut : (w ++ y :: ys).length - (y :: ys).length = w.length := by
      rw [length_append, Nat.add_sub_cancel]
    rw [hcut, take_left, ← append_nil w]
    exact h.read_written hread hw []

theorem Lawful.write_norm (hx : Fits x) : c.write (norm x) = c.write x := by
  obtain ⟨w, hw, hread⟩ := h.restore x hx
  obtain ⟨w', hw', hb⟩ := h.more (hread [0])
  rw [hw, hw', append_cancel_right hb]

theorem Lawful.fits_norm (hx : Fits x) : Fits (norm x) := by
  obtain ⟨w, -, hread⟩ := h.restore x hx
  exact (h.fits (hread [])).1

variable {Fits' : α → Prop} {norm' : α → α}

theorem Lawful.restrict (hfits : ∀ x, Fits' x → Fits x)
    (hread : ∀ x, Fits x → norm x = x → Fits' x) (hnorm : ∀ x, Fits' x → norm' x = norm x) :
    c.Lawful Fits' norm' := by
  refine ⟨?_, ?_, h.more, h.nil⟩
  · intro x hx
    rw [hnorm x hx]
    exact h.restore x (hfits x hx)
  · intro b x rest hb
    obtain ⟨hx, hsame⟩ := h.fits hb
    have hx' := hread x hx hsame
    exact ⟨hx', (hnorm x hx').trans hsame⟩

theorem Lawful.weaken (hfits : ∀ x, Fits' x ↔ Fits x) (hnorm : ∀ x, Fits x → norm' x = norm x) :
    c.Lawful Fits' norm' :=
  h.restrict (fun x hx => (hfits x).mp hx) (fun x hx _ => (hfits x).mpr hx)
    (fun x hx => hnorm x ((hfits x).mp hx))

end

def skip (d : α) : Codec α where
  write _ := some []
  read b := some (d, b)

theorem skip_exact (d : α) : (skip d).Exact := by
  intro b x rest h
  obtain ⟨rfl, rfl⟩ := Prod.mk.inj (some.inj h)
  exact ⟨[], rfl, rfl⟩

theorem skip_lawful (d : α) : (skip d).Lawful (fun x => x = d) id := by
  refine (skip_exact d).lawful ?_ ?_
  · rintro x rfl
    exact ⟨[], rfl, fun rest => rfl⟩
  · intro b x rest h
    exact ⟨(Prod.mk.inj (some.inj h)).1.symm, rfl⟩

def fail : Codec α where
  write _ := none
  read _ := none

theorem fail_exact : (fail : Codec α).Exact := by
  intro b x rest h
  cases h

theorem fail_lawful : (fail : Codec α).Lawful (fun _ => False) id := by
  refine fail_exact.lawful ?_ ?_
  · intro x hx
    exact hx.elim
  · intro b x rest h
    cases h

def dep (c : Codec α) (d : α → Codec β) : Codec (α × β) where
  write x := (c.write x.1).bind fun first => ((d x.1).write x.2).map fun second => first ++ second
  read b := (c.read b).bind fun r => ((d r.1).read r.2).map fun s => ((r.1, s.1), s.2)

variable {x : α × β} {F : α → Prop} {n : α → α} {d : α → Codec β}

theorem dep_write :
    (c.dep d).write x = some w ↔
      ∃ u v, c.write x.1 = some u ∧ (d x.1).write x.2 = some v ∧ w = u ++ v := by
  simp only [dep, bind_eq_some_iff, map_eq_some_iff]
  constructor
  · rintro ⟨u, hu, v, hv, rfl⟩
    exact ⟨u, v, hu, hv, rfl⟩
  · rintro ⟨u, v, hu, hv, rfl⟩
    exact ⟨u, hu, v, hv, rfl⟩

theorem dep_read :
    (c.dep d).read b = some (x, rest) ↔
      ∃ mid, c.read b = some (x.1, mid) ∧ (d x.1).read mid = some (x.2, rest) := by
  simp only [dep, bind_eq_some_iff, map_eq_some_iff]
  constructor
  · rintro ⟨⟨x₁, mid⟩, hc, ⟨x₂, rest'⟩, hd, heq⟩
    obtain ⟨rfl, rfl⟩ := Prod.mk.inj heq
    exact ⟨mid, hc, hd⟩
  · rintro ⟨mid, hc, hd⟩
    exact ⟨(x.1, mid), hc, (x.2, rest), hd, rfl⟩

section
variable {c : Codec α} {d : α → Codec β}

theorem dep_exact (hc : c.Exact) (hd : ∀ x, (d x).Exact) : (c.dep d).Exact := by
  intro b x rest h
  obtain ⟨mid, hfirst, hsecond⟩ := dep_read.mp h
  obtain ⟨u, hu, rfl⟩ := hc hfirst
  obtain ⟨v, hv, rfl⟩ := hd x.1 hsecond
  exact ⟨u ++ v, dep_write.mpr ⟨u, v, hu, hv, rfl⟩, (append_assoc _ _ _).symm⟩

theorem Lawful.dep_exact (hc : c.Lawful Fits norm)
    (hd : ∀ x, Fits x → (d x).Exact) (hnil : ∀ x, Fits x → (d x).read [] = none) :
    (c.dep d).Exact := by
  intro b x rest h
  obtain ⟨mid, hfirst, hsecond⟩ := dep_read.mp h
  have hx := (hc.fits hfirst).1
  have hmid : mid ≠ [] := by
    rintro rfl
    rw [hnil x.1 hx] at hsecond
    cases hsecond
  obtain ⟨u, hu, rfl⟩ := hc.exact_of_rest hfirst hmid
  obtain ⟨v, hv, rfl⟩ := hd x.1 hx hsecond
  exact ⟨u ++ v, dep_write.mpr ⟨u, v, hu, hv, rfl⟩, (append_assoc _ _ _).symm⟩

theorem Lawful.dep {G : α → β → Prop} {m : α → β → β} (hc : c.Lawful F n)
    (hd : ∀ x, F x → (d x).Lawful (G x) (m x)) (hsame : ∀ x, d (n x) = d x) :
    (c.dep d).Lawful (fun x => F x.1 ∧ G x.1 x.2) (fun x => (n x.1, m x.1 x.2)) := by
  refine ⟨?_, ?_, ?_, ?_⟩
  · rintro ⟨x, y⟩ ⟨hx, hy⟩
    obtain ⟨u, hu, hfirst⟩ := hc.restore x hx
    obtain ⟨v, hv, hsecond⟩ := (hd x hx).restore y hy
    refine ⟨u ++ v, dep_write.mpr ⟨u, v, hu, hv, rfl⟩, ?_⟩
    intro rest
    refine dep_read.mpr ⟨v ++ rest, ?_, ?_⟩
    · rw [append_assoc, hfirst]
    · rw [hsame]
      exact hsecond rest
  · intro b x rest h
    obtain ⟨mid, hfirst, hsecond⟩ := dep_read.mp h
    obtain ⟨hx, hnx⟩ := hc.fits hfirst
    obtain ⟨hy, hmy⟩ := (hd x.1 hx).fits hsecond
    exact ⟨⟨hx, hy⟩, Prod.ext hnx hmy⟩
  · intro b x y ys h
    obtain ⟨mid, hfirst, hsecond⟩ := dep_read.mp h
    obtain ⟨v, hv, rfl⟩ := (hd x.1 (hc.fits hfirst).1).more hsecond
    obtain ⟨u, hu, rfl⟩ := hc.exact_of_rest hfirst (by simp)
    exact ⟨u ++ v, dep_write.mpr ⟨u, v, hu, hv, rfl⟩, (append_assoc _ _ _).symm⟩
  · intro x rest h
    obtain ⟨mid, hfirst, hsecond⟩ := dep_read.mp h
    obtain ⟨hu, rfl⟩ := hc.nil hfirst
    obtain ⟨hv, rfl⟩ := (hd x.1 (hc.fits hfirst).1).nil hsecond
    exact ⟨dep_write.mpr ⟨[], [], hu, hv, rfl⟩, rfl⟩

theorem dep_minWidth {l : Nat} (hc : c.MinWidth k) (hd : ∀ x, (d x).MinWidth l) :
    (c.dep d).MinWidth (k + l) := by
  intro x w h
  obtain ⟨u, v, hu, hv, rfl⟩ := dep_write.mp h
  rw [length_append]
  exact add_le_add (hc hu) (hd _ hv)

end

def seq (c : Codec α) (d : Codec β) : Codec (α × β) := c.dep fun _ => d

section
variable {c : Codec α} {d : Codec β}

theorem seq_write :
    (c.seq d).write x = some w ↔ ∃ u v, c.write x.1 = some u ∧ d.write x.2 = some v ∧ w = u ++ v :=
  dep_write

theorem seq_read :
    (c.seq d).read b = some (x, rest) ↔
      ∃ mid, c.read b = some (x.1, mid) ∧ d.read mid = some (x.2, rest) :=
  dep_read

theorem Lawful.seq {G : β → Prop} {m : β → β} (hc : c.Lawful F n) (hd : d.Lawful G m) :
    (c.seq d).Lawful (fun x => F x.1 ∧ G x.2) (fun x => (n x.1, m x.2)) :=
  hc.dep (fun _ _ => hd) (fun _ => rfl)

theorem seq_exact (hc : c.Exact) (hd : d.Exact) : (c.seq d).Exact :=
  dep_exact hc (fun _ => hd)

theorem seq_minWidth {l : Nat} (hc : c.MinWidth k) (hd : d.MinWidth l) :
    (c.seq d).MinWidth (k + l) :=
  dep_minWidth hc (fun _ => hd)

end

theorem dep_read_nil (h : c.read [] = none) :
    (c.dep d).read [] = none := by
  simp only [dep, h, bind_none]

theorem read_map {inj : α → β} {x : β} :
    ((c.read b).map fun r => (inj r.1, r.2)) = some (x, rest) ↔
      ∃ a, c.read b = some (a, rest) ∧ inj a = x := by
  simp only [map_eq_some_iff]
  constructor
  · rintro ⟨⟨a, rest'⟩, hread, heq⟩
    obtain ⟨hx, rfl⟩ := Prod.mk.inj heq
    exact ⟨a, hread, hx⟩
  · rintro ⟨a, hread, rfl⟩
    exact ⟨(a, rest), hread, rfl⟩

def image (c : Codec α) (proj : β → α) (inj : α → β) : Codec β where
  write x := c.write (proj x)
  read b := (c.read b).map fun r => (inj r.1, r.2)

variable {c : Codec α} {proj : β → α} {inj : α → β}

theorem image_write (x : β) : (c.image proj inj).write x = c.write (proj x) := rfl

theorem image_read {x : β} :
    (c.image proj inj).read b = some (x, rest) ↔ ∃ a, c.read b = some (a, rest) ∧ inj a = x :=
  read_map

theorem image_read_nil (h : c.read [] = none) : (c.image proj inj).read [] = none := by
  simp only [image, h, map_none]

theorem image_exact (hc : c.Exact) (hproj : ∀ a, proj (inj a) = a) : (c.image proj inj).Exact := by
  intro b x rest h
  obtain ⟨a, hread, rfl⟩ := image_read.mp h
  obtain ⟨w, hw, rfl⟩ := hc hread
  refine ⟨w, ?_, rfl⟩
  rw [image_write, hproj]
  exact hw

theorem Lawful.image (hc : c.Lawful F n) (hproj : ∀ a, F a → proj (inj a) = a) :
    (c.image proj inj).Lawful (fun x => F (proj x)) (fun x => inj (n (proj x))) := by
  refine ⟨?_, ?_, ?_, ?_⟩
  · intro x hx
    obtain ⟨w, hw, hread⟩ := hc.restore _ hx
    exact ⟨w, hw, fun rest => image_read.mpr ⟨_, hread rest, rfl⟩⟩
  · intro b x rest h
    obtain ⟨a, hread, rfl⟩ := image_read.mp h
    obtain ⟨ha, hn⟩ := hc.fits hread
    rw [hproj a ha, hn]
    exact ⟨ha, rfl⟩
  · intro b x y ys h
    obtain ⟨a, hread, rfl⟩ := image_read.mp h
    obtain ⟨w, hw, rfl⟩ := hc.more hread
    refine ⟨w, ?_, rfl⟩
    rw [image_write, hproj a (hc.fits hread).1]
    exact hw
  · intro x rest h
    obtain ⟨a, hread, rfl⟩ := image_read.mp h
    rw [image_write, hproj a (hc.fits hread).1]
    exact hc.nil hread

theorem image_minWidth (hc : c.MinWidth k) : (c.image proj inj).MinWidth k := by
  intro x w h
  exact hc h

end Codec
end Jero.Serial
