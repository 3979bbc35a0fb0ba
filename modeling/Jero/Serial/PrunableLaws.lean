import Jero.Serial.RctPrunable

namespace Jero.Serial
open List Codec BulletproofPlus
variable {type : RctType} {inputs : Nat}

theorem key64_lawful : key64.Lawful (fun _ => True) id := blob_lawful (64 * 32)

theorem key64_minWidth : key64.MinWidth (64 * 32) := blob_minWidth (64 * 32)

theorem boroSig_lawful : boroSig.Lawful (fun _ => True) id :=
  ((key64_lawful.seq (key64_lawful.seq key_lawful)).image (fun _ _ => rfl)).weaken
    (fun _ => ⟨fun _ => ⟨trivial, trivial, trivial⟩, fun _ => trivial⟩) (fun _ _ => rfl)

theorem rangeSig_lawful : rangeSig.Lawful (fun _ => True) id :=
  ((boroSig_lawful.seq key64_lawful).image (fun _ _ => rfl)).weaken
    (fun _ => ⟨fun _ => ⟨trivial, trivial⟩, fun _ => trivial⟩) (fun _ _ => rfl)

theorem rangeSig_minWidth : rangeSig.MinWidth (193 * 32) := by
  have hboro : boroSig.MinWidth (64 * 32 + (64 * 32 + 32)) :=
    image_minWidth (seq_minWidth key64_minWidth
      (seq_minWidth key64_minWidth key_minWidth))
  intro s w h
  exact seq_minWidth hboro key64_minWidth h

theorem keys6_lawful : keys6.Lawful (fun _ => True) id :=
  (key_lawful.seq (key_lawful.seq (key_lawful.seq (key_lawful.seq
    (key_lawful.seq key_lawful))))).weaken
    (fun _ => ⟨fun _ => ⟨trivial, trivial, trivial, trivial, trivial, trivial⟩, fun _ => trivial⟩)
    (fun _ _ => rfl)

theorem keys6_minWidth : keys6.MinWidth (6 * 32) := by
  have hsum : keys6.MinWidth (32 + (32 + (32 + (32 + (32 + 32))))) :=
    seq_minWidth key_minWidth (seq_minWidth key_minWidth
      (seq_minWidth key_minWidth (seq_minWidth key_minWidth
        (seq_minWidth key_minWidth key_minWidth))))
  exact hsum

theorem halvesFit_iff {L R : List Key} :
    HalvesFit L R ↔ (L.length < 2 ^ 64 ∧ R.length < 2 ^ 64) ∧ halvesMatch L R = true := by
  have hmatch : halvesMatch L R = true ↔ L ≠ [] ∧ L.length = R.length := by
    simp [halvesMatch]
  rw [hmatch]
  constructor
  · rintro ⟨hne, hlen, hsize⟩
    exact ⟨⟨hsize, hlen ▸ hsize⟩, hne, hlen⟩
  · rintro ⟨⟨hsize, -⟩, hne, hlen⟩
    exact ⟨hne, hlen, hsize⟩

theorem bulletproof_lawful :
    bulletproof.Lawful (fun p => HalvesFit p.L p.R) Bulletproof.onWire := by
  refine (((keys6_lawful.seq ((keys_lawful.seq keys_lawful).seq
    (key_lawful.seq (key_lawful.seq key_lawful)))).image (fun _ _ => rfl)).check
      (fun _ => rfl)).weaken ?_ (fun _ _ => rfl)
  intro p
  rw [halvesFit_iff]
  constructor
  · rintro ⟨hsizes, hmatch⟩
    exact ⟨⟨trivial, hsizes, trivial, trivial, trivial⟩, hmatch⟩
  · rintro ⟨⟨-, hsizes, -⟩, hmatch⟩
    exact ⟨hsizes, hmatch⟩

theorem bulletproofPlus_lawful :
    bulletproofPlus.Lawful (fun p => HalvesFit p.L p.R) onWire := by
  refine (((keys6_lawful.seq (keys_lawful.seq keys_lawful)).image (fun _ _ => rfl)).check
    (fun _ => rfl)).weaken ?_ (fun _ _ => rfl)
  intro p
  rw [halvesFit_iff]
  constructor
  · rintro ⟨hsizes, hmatch⟩
    exact ⟨⟨trivial, hsizes⟩, hmatch⟩
  · rintro ⟨⟨-, hsizes⟩, hmatch⟩
    exact ⟨hsizes, hmatch⟩

theorem bulletproof_minWidth : bulletproof.MinWidth (9 * 32) := by
  have htail : (key.seq (key.seq key)).MinWidth (32 + (32 + 32)) :=
    seq_minWidth key_minWidth (seq_minWidth key_minWidth key_minWidth)
  have hrest : (halves.seq (key.seq (key.seq key))).MinWidth (0 + (32 + (32 + 32))) :=
    seq_minWidth (fun _ _ _ => Nat.zero_le _) htail
  intro p w h
  exact seq_minWidth keys6_minWidth hrest (check_write.mp h).1

theorem bulletproofPlus_minWidth : bulletproofPlus.MinWidth (6 * 32) := by
  have hrest : halves.MinWidth 0 := fun _ _ _ => Nat.zero_le _
  intro p w h
  exact seq_minWidth keys6_minWidth hrest (check_write.mp h).1

theorem nBulletproofMaxAmounts_onWire (proofs : List Bulletproof) :
    nBulletproofMaxAmounts (proofs.map Bulletproof.onWire) = nBulletproofMaxAmounts proofs := by
  rw [nBulletproofMaxAmounts, map_map]
  rfl

theorem nBulletproofPlusMaxAmounts_onWire (proofs : List BulletproofPlus) :
    nBulletproofPlusMaxAmounts (proofs.map onWire) =
      nBulletproofPlusMaxAmounts proofs := by
  rw [nBulletproofPlusMaxAmounts, map_map]
  rfl

theorem proofCount_lawful (type : RctType) : (proofCount type).Lawful (fun _ => True) id := by
  cases type with
  | bulletproof => exact uint32_lawful
  | _ => exact varint32_lawful

section
variable {α : Type} {c : Codec (List α)} {F : List α → Prop} {n : α → α}

theorem optionalField_lawful (used : Bool) (hc : c.Lawful F (List.map n)) :
    (if used then c else Codec.skip []).Lawful (fun xs => if used then F xs else xs = [])
      (List.map n) := by
  cases used with
  | true => exact hc
  | false =>
    refine (skip_lawful []).weaken (fun _ => Iff.rfl) ?_
    rintro xs rfl
    rfl

theorem optionalVector_lawful (used : Bool) {count : Nat}
    (hc : c.Lawful (fun xs => xs.length = count) (List.map id)) :
    (if used then c else Codec.skip []).Lawful
      (fun xs => xs.length = if used then count else 0) id := by
  refine (optionalField_lawful used hc).weaken ?_ (fun xs _ => (map_id xs).symm)
  intro xs
  cases used with
  | true => exact Iff.rfl
  | false => exact length_eq_zero_iff

theorem optionalField_exact (used : Bool) (hc : c.Exact) :
    (if used then c else Codec.skip []).Exact := by
  cases used with
  | true => exact hc
  | false => exact skip_exact []

end

theorem rangeSigsField_lawful (type : RctType) (outputs : Nat) :
    (rangeSigsField type outputs).Lawful
      (fun xs => xs.length = if type.isBorromean then outputs else 0) id :=
  optionalVector_lawful _ (customVector_lawful_all rangeSig_lawful outputs rangeSig_minWidth)

variable (rows columns : Nat)

theorem mgSig_lawful (hcolumns : columns ≠ 0) :
    (mgSig rows columns).Lawful (MgShaped rows columns) MgSig.onWire := by
  have hrow : (customVector key columns 32).MinWidth 32 := by
    intro row w h
    have hwidth := customVector_minWidth key_minWidth columns 32 h
    exact (Nat.le_mul_of_pos_left 32 (pos_of_ne_zero hcolumns)).trans hwidth
  have hss := (customVector_lawful (keyVector_lawful columns) rows hrow).weaken
    (fun _ => Iff.rfl) (fun xs _ => (map_id xs).symm)
  refine ((hss.seq key_lawful).image (fun _ _ => rfl)).weaken ?_ (fun _ _ => rfl)
  intro m
  constructor
  · intro h
    exact ⟨⟨h.rows, h.columns⟩, trivial⟩
  · rintro ⟨⟨hrows, hcols⟩, -⟩
    exact ⟨hrows, hcols⟩

theorem mgSig_minWidth (hcolumns : columns ≠ 0) (hrows : rows ≠ 0) :
    (mgSig rows columns).MinWidth (2 * 32) := by
  have hss : (customVector (customVector key columns 32) rows 32).MinWidth 32 := by
    intro ss w h
    have hwidth := customVector_minWidth (customVector_minWidth key_minWidth columns 32) rows 32 h
    have htotal : columns * 32 ≤ rows * (columns * 32) :=
      Nat.le_mul_of_pos_left _ (pos_of_ne_zero hrows)
    omega
  have hsum : (mgSig rows columns).MinWidth (32 + 32) :=
    image_minWidth (seq_minWidth hss key_minWidth)
  exact hsum

theorem mgsField_lawful (type : RctType) (inputs mixin : Nat) :
    (mgsField type inputs mixin).Lawful
      (fun xs => if type.isMlsag then xs.length = mgElements type inputs ∧
        ∀ m ∈ xs, MgShaped (mixin + 1) (mgColumns type inputs) m else xs = [])
      (List.map MgSig.onWire) :=
  optionalField_lawful type.isMlsag (customVector_lawful
    (mgSig_lawful (mixin + 1) (mgColumns type inputs) (Nat.succ_ne_zero _))
    (mgElements type inputs) (mgSig_minWidth _ _ (Nat.succ_ne_zero _) (Nat.succ_ne_zero _)))

variable (mixin : Nat)

theorem clsag_lawful :
    (clsag mixin).Lawful (fun c => c.s.length = mixin + 1) Clsag.onWire :=
  (((keyVector_lawful (mixin + 1)).seq (key_lawful.seq key_lawful)).image
    (fun _ _ => rfl)).weaken (fun _ => ⟨fun h => ⟨h, trivial, trivial⟩, fun h => h.1⟩)
    (fun _ _ => rfl)

theorem clsag_minWidth : (clsag mixin).MinWidth (3 * 32) := by
  have hs : (customVector key (mixin + 1) 32).MinWidth 32 := by
    intro s w h
    have hwidth := customVector_minWidth key_minWidth (mixin + 1) 32 h
    omega
  have hsum : (clsag mixin).MinWidth (32 + (32 + 32)) :=
    image_minWidth (seq_minWidth hs (seq_minWidth key_minWidth key_minWidth))
  exact hsum

theorem pseudoOutsField_lawful (type : RctType) (inputs : Nat) :
    (pseudoOutsField type inputs).Lawful
      (fun xs => xs.length = if type.isBulletproof || type.isBulletproofPlus then inputs else 0)
      id :=
  optionalVector_lawful _ (customVector_lawful_all key_lawful inputs key_minWidth)

theorem rangeProofs_lawful (type : RctType) (outputs : Nat) :
    (rangeProofs type outputs).Lawful
      (fun x => x.1.length = (if type.isBorromean then outputs else 0) ∧
        (if type.isBulletproof then
          ProofsShaped (fun q => HalvesFit q.L q.R) outputs nBulletproofMaxAmounts x.2.1
          else x.2.1 = []) ∧
        (if type.isBulletproofPlus then
          ProofsShaped (fun q => HalvesFit q.L q.R) outputs nBulletproofPlusMaxAmounts x.2.2
          else x.2.2 = []))
      (fun x => (x.1, x.2.1.map Bulletproof.onWire, x.2.2.map onWire)) :=
  (rangeSigsField_lawful type outputs).seq
    ((optionalField_lawful type.isBulletproof (proofVector_lawful (proofCount_lawful type)
      bulletproof_lawful bulletproof_minWidth outputs nBulletproofMaxAmounts_onWire)).seq
    (optionalField_lawful type.isBulletproofPlus (proofVector_lawful varint32_lawful
      bulletproofPlus_lawful bulletproofPlus_minWidth outputs nBulletproofPlusMaxAmounts_onWire)))

theorem rctSigPrunable_lawful (type : RctType) (inputs outputs mixin : Nat) :
    (rctSigPrunable type inputs outputs mixin).Lawful
      (fun p => p.Shaped type inputs outputs mixin) RctSigPrunable.onWire := by
  unfold rctSigPrunable
  split
  · rename_i hbig
    have hnone : ∀ p : RctSigPrunable, ¬ p.Shaped type inputs outputs mixin := by
      intro p h
      have hi := h.inputsBound
      have ho := h.outputsBound
      have hm := h.mixinBound
      omega
    exact fail_lawful.restrict (fun p h => (hnone p h).elim) (fun _ h _ => h.elim)
      (fun p h => (hnone p h).elim)
  · rename_i hsmall
    refine (((rangeProofs_lawful type outputs).seq ((mgsField_lawful type inputs mixin).seq
      ((optionalField_lawful type.isClsag (customVector_lawful (clsag_lawful mixin) inputs
        (clsag_minWidth mixin))).seq (pseudoOutsField_lawful type inputs)))).image
      (fun _ _ => rfl)).weaken ?_ (fun _ _ => rfl)
    intro p
    constructor
    · intro h
      exact ⟨⟨h.rangeSigs, h.bulletproofs, h.bulletproofsPlus⟩, h.MGs, h.CLSAGs, h.pseudoOuts⟩
    · rintro ⟨⟨hrange, hbp, hbpp⟩, hmgs, hclsags, hpseudo⟩
      exact ⟨by omega, by omega, by omega, hrange, hbp, hbpp, hmgs, hclsags, hpseudo⟩

theorem mgSig_exact : (mgSig rows columns).Exact :=
  image_exact (seq_exact
    (customVector_exact (customVector_exact key_exact columns 32) rows 32) key_exact)
    (fun _ => rfl)

theorem clsag_exact : (clsag mixin).Exact :=
  image_exact (seq_exact (customVector_exact key_exact (mixin + 1) 32)
    (seq_exact key_exact key_exact)) (fun _ => rfl)

theorem inputProofs_exact (type : RctType) (inputs mixin : Nat) :
    (inputProofs type inputs mixin).Exact :=
  seq_exact (optionalField_exact type.isMlsag (customVector_exact (mgSig_exact _ _) _ _))
    (seq_exact (optionalField_exact type.isClsag (customVector_exact (clsag_exact mixin) _ _))
      (optionalField_exact _ (customVector_exact key_exact _ _)))

theorem clsag_read_nil : (clsag mixin).read [] = none :=
  image_read_nil (dep_read_nil
    (customVector_read_nil (blob_read_nil 31) (Nat.succ_ne_zero _) 32))

theorem isMlsag_or_isClsag (h : type ≠ .null) : type.isMlsag = true ∨ type.isClsag = true := by
  cases type with
  | null => exact absurd rfl h
  | clsag => exact .inr rfl
  | bulletproofPlus => exact .inr rfl
  | _ => exact .inl rfl

theorem mgElements_ne_zero (type : RctType) (h : inputs ≠ 0) : mgElements type inputs ≠ 0 := by
  unfold mgElements
  split
  · exact h
  · exact one_ne_zero

variable (mixin : Nat) (htype : type ≠ .null) (hinputs : inputs ≠ 0)
include htype hinputs

theorem inputProofs_read_nil : (inputProofs type inputs mixin).read [] = none := by
  refine Option.eq_none_iff_forall_ne_some.mpr ?_
  rintro ⟨x, rest⟩ h
  obtain ⟨mid, hmgs, hrest⟩ := seq_read.mp h
  rcases isMlsag_or_isClsag htype with hmlsag | hclsag
  · have hnil : (mgSig (mixin + 1) (mgColumns type inputs)).read [] = none :=
      image_read_nil (dep_read_nil (customVector_read_nil
        (customVector_read_nil (blob_read_nil 31) (Nat.succ_ne_zero _) 32) (Nat.succ_ne_zero _) 32))
    rw [mgsField, if_pos hmlsag, customVector_read_nil hnil (mgElements_ne_zero type hinputs)]
      at hmgs
    cases hmgs
  · obtain ⟨-, rfl⟩ := (mgsField_lawful type inputs mixin).nil hmgs
    obtain ⟨mid, hclsags, -⟩ := seq_read.mp hrest
    rw [clsagsField, if_pos hclsag, customVector_read_nil (clsag_read_nil mixin) hinputs]
      at hclsags
    cases hclsags

theorem rctSigPrunable_exact (outputs : Nat) :
    (rctSigPrunable type inputs outputs mixin).Exact := by
  unfold rctSigPrunable
  split
  · exact fail_exact
  · refine image_exact ?_ (fun _ => rfl)
    exact (rangeProofs_lawful type outputs).dep_exact
      (fun _ _ => inputProofs_exact type inputs mixin)
      (fun _ _ => inputProofs_read_nil mixin htype hinputs)

theorem rctSigPrunable_read_nil (outputs : Nat) :
    (rctSigPrunable type inputs outputs mixin).read [] = none := by
  unfold rctSigPrunable
  split
  · rfl
  · refine image_read_nil (Option.eq_none_iff_forall_ne_some.mpr ?_)
    rintro ⟨x, rest⟩ h
    obtain ⟨mid, hproofs, hrest⟩ := seq_read.mp h
    obtain ⟨-, rfl⟩ := (rangeProofs_lawful type outputs).nil hproofs
    rw [inputProofs_read_nil mixin htype hinputs] at hrest
    cases hrest

end Jero.Serial
