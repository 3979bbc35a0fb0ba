import Jero.Serial.Codec

namespace Jero.Serial.Codec
open List Option
variable {w b rest : List UInt8} {α β : Type}

def embed (c : Codec α) (proj : β → Option α) (inj : α → β) : Codec β where
  write x := (proj x).bind c.write
  read b := (c.read b).map fun r => (inj r.1, r.2)

variable {F : α → Prop} {n : α → α} {x : α} {xs : List α}
section
variable {c : Codec α} {proj : β → Option α} {inj : α → β}

theorem embed_write {x : β} :
    (c.embed proj inj).write x = some w ↔ ∃ a, proj x = some a ∧ c.write a = some w :=
  bind_eq_some_iff

theorem embed_read {x : β} :
    (c.embed proj inj).read b = some (x, rest) ↔ ∃ a, c.read b = some (a, rest) ∧ inj a = x :=
  read_map

theorem embed_exact (hc : c.Exact) (hproj : ∀ a, proj (inj a) = some a) :
    (c.embed proj inj).Exact := by
  intro b x rest h
  obtain ⟨a, hread, rfl⟩ := embed_read.mp h
  obtain ⟨w, hw, rfl⟩ := hc hread
  exact ⟨w, embed_write.mpr ⟨a, hproj a, hw⟩, rfl⟩

theorem Lawful.embed (hc : c.Lawful F n) (hproj : ∀ a, proj (inj a) = some a) :
    (c.embed proj inj).Lawful (fun x => ∃ a, proj x = some a ∧ F a)
      (fun x => ((proj x).map fun a => inj (n a)).getD x) := by
  refine ⟨?_, ?_, ?_, ?_⟩
  · rintro x ⟨a, ha, hfits⟩
    obtain ⟨w, hw, hread⟩ := hc.restore a hfits
    refine ⟨w, embed_write.mpr ⟨a, ha, hw⟩, fun rest => ?_⟩
    rw [ha]
    exact embed_read.mpr ⟨_, hread rest, rfl⟩
  · intro b x rest h
    obtain ⟨a, hread, rfl⟩ := embed_read.mp h
    obtain ⟨hfits, hnorm⟩ := hc.fits hread
    refine ⟨⟨a, hproj a, hfits⟩, ?_⟩
    rw [hproj, map_some, getD_some, hnorm]
  · intro b x y ys h
    obtain ⟨a, hread, rfl⟩ := embed_read.mp h
    obtain ⟨w, hw, rfl⟩ := hc.more hread
    exact ⟨w, embed_write.mpr ⟨a, hproj a, hw⟩, rfl⟩
  · intro x rest h
    obtain ⟨a, hread, rfl⟩ := embed_read.mp h
    obtain ⟨hw, hrest⟩ := hc.nil hread
    exact ⟨embed_write.mpr ⟨a, hproj a, hw⟩, hrest⟩

theorem Lawful.embed_id (hc : c.Lawful F id) (hproj : ∀ a, proj (inj a) = some a)
    (hinj : ∀ x a, proj x = some a → inj a = x) :
    (c.embed proj inj).Lawful (fun x => ∃ a, proj x = some a ∧ F a) id := by
  refine (hc.embed hproj).weaken (fun _ => Iff.rfl) ?_
  rintro x ⟨a, ha, -⟩
  rw [ha, map_some, getD_some]
  exact (hinj x a ha).symm

end

def tagged (tagOf : α → UInt8) (branch : UInt8 → Codec α) : Codec α where
  write x := ((branch (tagOf x)).write x).map fun w => tagOf x :: w
  read
    | [] => none
    | tag :: b => (branch tag).read b

section
variable {tagOf : α → UInt8} {branch : UInt8 → Codec α}

theorem tagged_write :
    (tagged tagOf branch).write x = some w ↔
      ∃ v, (branch (tagOf x)).write x = some v ∧ w = tagOf x :: v := by
  simp only [tagged, map_eq_some_iff]
  constructor
  · rintro ⟨v, hv, rfl⟩
    exact ⟨v, hv, rfl⟩
  · rintro ⟨v, hv, rfl⟩
    exact ⟨v, hv, rfl⟩

theorem Lawful.tagged {F : UInt8 → α → Prop} (hb : ∀ tag, (branch tag).Lawful (F tag) id)
    (htag : ∀ tag x, F tag x → tagOf x = tag) :
    (tagged tagOf branch).Lawful (fun x => F (tagOf x) x) id := by
  refine ⟨?_, ?_, ?_, ?_⟩
  · intro x hx
    obtain ⟨w, hw, hread⟩ := (hb (tagOf x)).restore x hx
    exact ⟨tagOf x :: w, tagged_write.mpr ⟨w, hw, rfl⟩, hread⟩
  · intro b x rest h
    cases b with
    | nil => cases h
    | cons tag b =>
      have hx := ((hb tag).fits h).1
      rw [htag tag x hx]
      exact ⟨hx, rfl⟩
  · intro b x y ys h
    cases b with
    | nil => cases h
    | cons tag b =>
      obtain ⟨w, hw, rfl⟩ := (hb tag).more h
      obtain rfl := htag tag x ((hb tag).fits h).1
      exact ⟨tagOf x :: w, tagged_write.mpr ⟨w, hw, rfl⟩, rfl⟩
  · intro x rest h
    cases h

theorem tagged_minWidth {k : Nat} (hb : ∀ tag, (branch tag).MinWidth k) :
    (tagged tagOf branch).MinWidth (k + 1) := by
  intro x w h
  obtain ⟨v, hv, rfl⟩ := tagged_write.mp h
  rw [length_cons]
  exact Nat.succ_le_succ (hb _ hv)

end

def accept (c : Codec α) (p : α → Bool) : Codec α where
  write := c.write
  read b := (c.read b).filter fun r => p r.1

section
variable {c : Codec α} {p : α → Bool}

theorem accept_read :
    (c.accept p).read b = some (x, rest) ↔ c.read b = some (x, rest) ∧ p x = true := by
  simp only [accept, filter_eq_some_iff]

theorem Lawful.accept (hc : c.Lawful F n) (hp : ∀ x, p (n x) = p x) :
    (c.accept p).Lawful (fun x => F x ∧ p x = true) n := by
  refine ⟨?_, ?_, ?_, ?_⟩
  · rintro x ⟨hx, hpx⟩
    obtain ⟨w, hw, hread⟩ := hc.restore x hx
    exact ⟨w, hw, fun rest => accept_read.mpr ⟨hread rest, (hp x).trans hpx⟩⟩
  · intro b x rest h
    obtain ⟨hread, hpx⟩ := accept_read.mp h
    exact ⟨⟨(hc.fits hread).1, hpx⟩, (hc.fits hread).2⟩
  · intro b x y ys h
    exact hc.more (accept_read.mp h).1
  · intro x rest h
    exact hc.nil (accept_read.mp h).1

end

def check (c : Codec α) (p : α → Bool) : Codec α where
  write x := if p x then c.write x else none
  read b := (c.read b).filter fun r => p r.1

section
variable {c : Codec α} {p : α → Bool}

theorem check_write : (c.check p).write x = some w ↔ c.write x = some w ∧ p x = true := by
  simp only [check]
  split
  · rename_i hp
    exact ⟨fun h => ⟨h, hp⟩, fun h => h.1⟩
  · rename_i hp
    refine ⟨?_, fun h => absurd h.2 hp⟩
    intro h
    cases h

theorem check_read : (c.check p).read b = some (x, rest) ↔ c.read b = some (x, rest) ∧ p x = true :=
  accept_read

theorem Lawful.check (hc : c.Lawful F n) (hp : ∀ x, p (n x) = p x) :
    (c.check p).Lawful (fun x => F x ∧ p x = true) n := by
  have ha := hc.accept hp
  refine ⟨?_, ha.fits, ?_, ?_⟩
  · rintro x ⟨hx, hpx⟩
    obtain ⟨w, hw, hread⟩ := ha.restore x ⟨hx, hpx⟩
    exact ⟨w, check_write.mpr ⟨hw, hpx⟩, hread⟩
  · intro b x y ys h
    obtain ⟨w, hw, hb⟩ := ha.more h
    exact ⟨w, check_write.mpr ⟨hw, (check_read.mp h).2⟩, hb⟩
  · intro x rest h
    obtain ⟨hw, hrest⟩ := ha.nil h
    exact ⟨check_write.mpr ⟨hw, (check_read.mp h).2⟩, hrest⟩

end

def precheck (c : Codec α) (p : List UInt8 → Bool) : Codec α where
  write := c.write
  read b := if p b then c.read b else none

section
variable {c : Codec α} {p : List UInt8 → Bool}

theorem precheck_read :
    (c.precheck p).read b = some (x, rest) ↔ p b = true ∧ c.read b = some (x, rest) := by
  simp only [precheck, ite_none_right_eq_some]

theorem precheck_exact (hc : c.Exact) : (c.precheck p).Exact :=
  fun _ _ _ h => hc (precheck_read.mp h).2

theorem precheck_read_nil (h : c.read [] = none) : (c.precheck p).read [] = none := by
  simp only [precheck, h, ite_self]

theorem Lawful.precheck (hc : c.Lawful F n)
    (hp : ∀ x w rest, c.write x = some w → p (w ++ rest) = true) : (c.precheck p).Lawful F n := by
  refine ⟨?_, ?_, ?_, ?_⟩
  · intro x hx
    obtain ⟨w, hw, hread⟩ := hc.restore x hx
    exact ⟨w, hw, fun rest => precheck_read.mpr ⟨hp x w rest hw, hread rest⟩⟩
  · intro b x rest h
    exact hc.fits (precheck_read.mp h).2
  · intro b x y ys h
    exact hc.more (precheck_read.mp h).2
  · intro x rest h
    exact hc.nil (precheck_read.mp h).2

end

def headTail : List α → Option (α × List α)
  | [] => none
  | x :: xs => some (x, xs)

def each {ι : Type} (f : ι → Codec α) : List ι → Codec (List α)
  | [] => (skip ()).embed (fun xs => if xs.isEmpty then some () else none) (fun _ => [])
  | i :: is => ((f i).seq (each f is)).embed headTail (fun x => x.1 :: x.2)

section
variable {ι : Type} {f : ι → Codec α}

theorem each_exact (hf : ∀ i, (f i).Exact) (is : List ι) : (each f is).Exact := by
  induction is with
  | nil => exact embed_exact (skip_exact ()) (fun _ => rfl)
  | cons i is ih => exact embed_exact (seq_exact (hf i) ih) (fun _ => rfl)

theorem Lawful.each {F : ι → α → Prop} (hf : ∀ i, (f i).Lawful (F i) n) (is : List ι) :
    (each f is).Lawful (List.Forall₂ F is) (List.map n) := by
  induction is with
  | nil =>
    have hnil : (Codec.each f []).Lawful _ _ := (skip_lawful ()).embed (fun _ => rfl)
    refine hnil.weaken ?_ ?_
    · intro xs
      cases xs with
      | nil => exact ⟨fun _ => ⟨(), rfl, rfl⟩, fun _ => .nil⟩
      | cons x xs =>
        constructor
        · intro h
          cases h
        · rintro ⟨a, ha, -⟩
          cases ha
    · rintro xs ⟨a, ha, -⟩
      cases xs with
      | nil => rfl
      | cons x xs => cases ha
  | cons i is ih =>
    have hcons : (Codec.each f (i :: is)).Lawful _ _ := ((hf i).seq ih).embed (fun _ => rfl)
    refine hcons.weaken ?_ ?_
    · intro xs
      cases xs with
      | nil =>
        constructor
        · intro h
          cases h
        · rintro ⟨a, ha, -⟩
          cases ha
      | cons x xs =>
        rw [forall₂_cons]
        refine ⟨fun h => ⟨(x, xs), rfl, h⟩, ?_⟩
        rintro ⟨a, ha, hfits⟩
        obtain rfl := some.inj ha
        exact hfits
    · rintro xs ⟨a, ha, -⟩
      cases xs with
      | nil => cases ha
      | cons x xs => rfl

variable {is : List ι} {i : ι}

theorem each_cons_write :
    (each f (i :: is)).write xs = some w ↔
      ∃ x ys u v, xs = x :: ys ∧ (f i).write x = some u ∧ (each f is).write ys = some v ∧
        w = u ++ v := by
  refine embed_write.trans ⟨?_, ?_⟩
  · rintro ⟨⟨x, ys⟩, hsplit, hw⟩
    obtain ⟨u, v, hu, hv, rfl⟩ := dep_write.mp hw
    cases xs with
    | nil => cases hsplit
    | cons x' ys' =>
      obtain ⟨rfl, rfl⟩ := Prod.mk.inj (some.inj hsplit)
      exact ⟨x', ys', u, v, rfl, hu, hv, rfl⟩
  · rintro ⟨x, ys, u, v, rfl, hu, hv, rfl⟩
    exact ⟨(x, ys), rfl, dep_write.mpr ⟨u, v, hu, hv, rfl⟩⟩

theorem each_nil_write : (each f []).write xs = some w ↔ xs = [] ∧ w = [] := by
  refine embed_write.trans ?_
  cases xs with
  | nil =>
    constructor
    · rintro ⟨a, -, hw⟩
      exact ⟨rfl, (some.inj hw).symm⟩
    · rintro ⟨-, rfl⟩
      exact ⟨(), rfl, rfl⟩
  | cons x xs =>
    constructor
    · rintro ⟨a, ha, -⟩
      cases ha
    · rintro ⟨h, -⟩
      cases h

theorem each_nil_read : (each f []).read b = some (xs, rest) ↔ xs = [] ∧ rest = b := by
  refine embed_read.trans ?_
  constructor
  · rintro ⟨a, ha, rfl⟩
    exact ⟨rfl, (Prod.mk.inj (some.inj ha)).2.symm⟩
  · rintro ⟨rfl, rfl⟩
    exact ⟨(), rfl, rfl⟩

theorem each_cons_read :
    (each f (i :: is)).read b = some (xs, rest) ↔
      ∃ x ys mid, xs = x :: ys ∧ (f i).read b = some (x, mid) ∧
        (each f is).read mid = some (ys, rest) := by
  refine embed_read.trans ?_
  constructor
  · rintro ⟨⟨x, ys⟩, hread, rfl⟩
    obtain ⟨mid, hx, hys⟩ := dep_read.mp hread
    exact ⟨x, ys, mid, rfl, hx, hys⟩
  · rintro ⟨x, ys, mid, rfl, hx, hys⟩
    exact ⟨(x, ys), dep_read.mpr ⟨mid, hx, hys⟩, rfl⟩

theorem each_read_nil (h : (f i).read [] = none) : (each f (i :: is)).read [] = none := by
  have hseq : ((f i).seq (each f is)).read [] = none := dep_read_nil h
  simp only [each, embed, hseq, map_none]

end

def times (c : Codec α) (n : Nat) : Codec (List α) := each (fun _ => c) (List.replicate n ())

variable {c : Codec α}

theorem times_zero_read : (c.times 0).read b = some (xs, rest) ↔ xs = [] ∧ rest = b :=
  each_nil_read

theorem times_succ_read {n : Nat} :
    (c.times (n + 1)).read b = some (xs, rest) ↔
      ∃ x ys mid, xs = x :: ys ∧ c.read b = some (x, mid) ∧
        (c.times n).read mid = some (ys, rest) :=
  each_cons_read

theorem times_exact (hc : c.Exact) (n : Nat) : (c.times n).Exact := each_exact (fun _ => hc) _

theorem forall₂_replicate {n : Nat} :
    List.Forall₂ (fun _ x => F x) (List.replicate n ()) xs ↔ xs.length = n ∧ ∀ x ∈ xs, F x := by
  induction n generalizing xs with
  | zero =>
    rw [replicate_zero, forall₂_nil_left_iff, length_eq_zero_iff]
    refine ⟨?_, fun h => h.1⟩
    rintro rfl
    exact ⟨rfl, fun x hx => by cases hx⟩
  | succ n ih =>
    rw [replicate_succ]
    cases xs with
    | nil => simp
    | cons x xs =>
      rw [forall₂_cons, ih, forall_mem_cons, length_cons, Nat.succ_inj]
      exact and_left_comm

theorem Lawful.times {m : α → α} (hc : c.Lawful F m) (n : Nat) :
    (c.times n).Lawful (fun xs => xs.length = n ∧ ∀ x ∈ xs, F x) (List.map m) :=
  (Lawful.each (fun _ => hc) _).weaken (fun _ => forall₂_replicate.symm) (fun _ _ => rfl)

theorem times_minWidth {k : Nat} (hc : c.MinWidth k) (n : Nat) : (c.times n).MinWidth (n * k) := by
  induction n with
  | zero =>
    intro xs w h
    rw [Nat.zero_mul]
    exact Nat.zero_le _
  | succ n ih =>
    intro xs w h
    obtain ⟨x, ys, u, v, rfl, hu, hv, rfl⟩ := each_cons_write.mp h
    have hx := hc hu
    have hys := ih hv
    rw [length_append, Nat.succ_mul]
    omega

end Jero.Serial.Codec
