import Jero.Serial.Block

namespace Jero.Serial
open List Option RctSigPrunable
variable {outputs : Nat} {baseOnly : Bool} {t t' : Transaction} {inputs : Nat} {p : RctSigPrunable}

theorem RctSigBase.shaped_of_onWire {s : RctSigBase} (h : s.onWire.Shaped inputs outputs) :
    s.Shaped inputs outputs := by
  have htype : s.onWire.type = s.type := rfl
  unfold RctSigBase.Shaped at h ⊢
  rw [htype] at h
  split
  · rename_i hnull
    rw [if_pos hnull] at h
    exact ⟨h.txnFee, h.pseudoOuts, map_eq_nil_iff.mp h.ecdhInfo, map_eq_nil_iff.mp h.outPk⟩
  · rename_i hnull
    rw [if_neg hnull] at h
    refine ⟨h.pseudoOuts, ?_, ?_⟩
    · rw [← h.ecdhInfo]
      exact (length_map _).symm
    · rw [← h.outPk]
      exact (length_map _).symm

theorem ProofsShaped.of_map {α : Type} {F : α → Prop} {maxAmounts : List α → Nat} {n : α → α}
    {proofs : List α} (hF : ∀ q, F (n q) → F q)
    (hamounts : maxAmounts (proofs.map n) = maxAmounts proofs)
    (h : ProofsShaped F outputs maxAmounts (proofs.map n)) :
    ProofsShaped F outputs maxAmounts proofs := by
  refine ⟨?_, ?_, ?_, ?_⟩
  · rw [← length_map n]
    exact h.count
  · rw [← length_map n]
    exact h.size
  · intro q hq
    exact hF q (h.fits _ (List.mem_map_of_mem hq))
  · rw [← hamounts]
    exact h.amounts

theorem optional_of_map {α : Type} {used : Bool} {F : List α → Prop} {n : α → α} {xs : List α}
    (hF : F (xs.map n) → F xs) (h : if used then F (xs.map n) else xs.map n = []) :
    if used then F xs else xs = [] := by
  cases used with
  | true => exact hF h
  | false => exact map_eq_nil_iff.mp h

theorem RctSigPrunable.shaped_of_onWire {type : RctType} {mixin : Nat}
    (h : p.onWire.Shaped type inputs outputs mixin) : p.Shaped type inputs outputs mixin := by
  refine ⟨h.inputsBound, h.outputsBound, h.mixinBound, h.rangeSigs, ?_, ?_, ?_, ?_, h.pseudoOuts⟩
  · exact optional_of_map (n := Bulletproof.onWire) (ProofsShaped.of_map (fun _ hq => hq)
      (nBulletproofMaxAmounts_onWire p.bulletproofs)) h.bulletproofs
  · exact optional_of_map (n := BulletproofPlus.onWire) (ProofsShaped.of_map (fun _ hq => hq)
      (nBulletproofPlusMaxAmounts_onWire p.bulletproofsPlus)) h.bulletproofsPlus
  · refine optional_of_map (n := MgSig.onWire) (F := fun xs => xs.length = mgElements type inputs ∧
      ∀ m ∈ xs, MgShaped (mixin + 1) (mgColumns type inputs) m) ?_ h.MGs
    rintro ⟨hlen, hmgs⟩
    refine ⟨by rwa [length_map] at hlen, fun m hm => ?_⟩
    obtain ⟨hrows, hcolumns⟩ := hmgs _ (List.mem_map_of_mem hm)
    exact ⟨hrows, hcolumns⟩
  · refine optional_of_map (n := Clsag.onWire) (F := fun xs => xs.length = inputs ∧
      ∀ c ∈ xs, c.s.length = mixin + 1) ?_ h.CLSAGs
    rintro ⟨hlen, hclsags⟩
    exact ⟨by rwa [length_map] at hlen, fun c hc =>
      hclsags c.onWire (List.mem_map_of_mem hc)⟩

variable {scalarmultInvEight : Key → Key} {outPk : List CtKey} {vout : List TxOut}

theorem fillDest_onWire {outPk' : List CtKey} (hlen : outPk.length = vout.length)
    (h : fillDest outPk vout = some outPk') : outPk'.map CtKey.onWire = outPk.map CtKey.onWire := by
  induction outPk generalizing vout outPk' with
  | nil =>
    obtain rfl := some.inj h
    rfl
  | cons k outPk ih =>
    cases vout with
    | nil => cases hlen
    | cons out vout =>
      simp only [fillDest] at h
      split at h
      · cases h
      · rw [map_eq_some_iff] at h
        obtain ⟨tail, htail, rfl⟩ := h
        rw [map_cons, map_cons, ih (Nat.succ.inj hlen) htail]
        rfl

theorem expandPrunable_onWire {type : RctType} {p' : RctSigPrunable}
    (h : expandPrunable scalarmultInvEight type vout outPk p = some p') : p'.onWire = p.onWire := by
  unfold expandPrunable at h
  split at h
  · unfold expandBulletproofsPlus at h
    split at h
    · rename_i proof hproof
      split at h
      · cases h
      split at h
      · cases h
      obtain rfl := some.inj h
      simp only [onWire, hproof]
      rfl
    · cases h
  split at h
  · unfold expandBulletproofs at h
    split at h
    · rename_i proof hproof
      split at h
      · cases h
      split at h
      · cases h
      obtain rfl := some.inj h
      simp only [onWire, hproof]
      rfl
    · cases h
  · obtain rfl := some.inj h
    rfl

structure SameWire (t t' : Transaction) : Prop where
  txPrefix : t'.toTransactionPrefix = t.toTransactionPrefix
  signatures : t'.signatures = t.signatures
  rctSignatures : t'.rctSignatures.onWire = t.rctSignatures.onWire
  pruned : t'.pruned = t.pruned

theorem expandTransaction1_cases (h : expandTransaction1 scalarmultInvEight baseOnly t = some t') :
    t' = t ∨ (2 ≤ t.version ∧ t.rctSignatures.type ≠ .null ∧ SameWire t t') := by
  unfold expandTransaction1 at h
  split at h
  · rename_i hexpand
    split at h
    · exact .inl (some.inj h).symm
    rename_i htype
    split at h
    · cases h
    rename_i hlen
    rw [bind_eq_some_iff] at h
    obtain ⟨outPk, hfill, h⟩ := h
    have hwire := fillDest_onWire (not_not.mp hlen) hfill
    refine .inr ⟨hexpand.1, htype, ?_⟩
    split at h
    · obtain rfl := some.inj h
      refine ⟨rfl, rfl, ?_, rfl⟩
      simp only [RctSig.onWire, RctSigBase.onWire, hwire]
    · rw [map_eq_some_iff] at h
      obtain ⟨p, hp, rfl⟩ := h
      refine ⟨rfl, rfl, ?_, rfl⟩
      simp only [RctSig.onWire, RctSigBase.onWire, hwire, expandPrunable_onWire hp]
  · exact .inl (some.inj h).symm

theorem SameWire.base (h : SameWire t t') :
    t'.rctSignatures.toRctSigBase.onWire = t.rctSignatures.toRctSigBase.onWire :=
  congrArg RctSig.toRctSigBase h.rctSignatures

theorem SameWire.prunable (h : SameWire t t') :
    t'.rctSignatures.p.onWire = t.rctSignatures.p.onWire :=
  congrArg RctSig.p h.rctSignatures

theorem SameWire.type (h : SameWire t t') : t'.rctSignatures.type = t.rctSignatures.type := by
  have htype := congrArg RctSigBase.type h.base
  exact htype

theorem SameWire.shaped (h : SameWire t t') (hversion : 2 ≤ t.version)
    (htype : t.rctSignatures.type ≠ .null) (ht : t.Shaped) : t'.Shaped := by
  refine ⟨h.txPrefix ▸ ht.readable, ?_⟩
  have htail := ht.tail
  have htail' := (transaction_lawful.fits_norm ht).tail
  rw [h.txPrefix]
  unfold TailShaped at htail htail' ⊢
  split
  · rename_i hone
    rw [hone] at hversion
    exact absurd hversion (by decide)
  rename_i hone
  rw [if_neg hone] at htail htail'
  split
  · rename_i hempty
    rw [if_pos hempty] at htail
    simp only [Prod.mk.injEq] at htail
    rw [htail.2.1] at htype
    exact absurd rfl htype
  rename_i hempty
  rw [if_neg hempty] at htail'
  obtain ⟨hsigs, hbase, hprunable⟩ := htail'
  refine ⟨h.signatures.trans hsigs, ?_, ?_⟩
  · refine RctSigBase.shaped_of_onWire ?_
    rw [h.base]
    exact hbase
  · have hnorm : t.rctSignatures.onWire.type ≠ .null := htype
    unfold PrunableShaped at hprunable ⊢
    rw [if_neg hnorm] at hprunable
    rw [if_neg (h.type ▸ htype)]
    refine shaped_of_onWire ?_
    rw [h.prunable, h.type]
    exact hprunable

variable (h : expandTransaction1 scalarmultInvEight baseOnly t = some t')
include h

theorem expandTransaction1_shaped (ht : t.Shaped) : t'.Shaped := by
  rcases expandTransaction1_cases h with rfl | ⟨hversion, htype, hwire⟩
  · exact ht
  · exact hwire.shaped hversion htype ht

theorem expandTransaction1_sameWire : SameWire t t' := by
  rcases expandTransaction1_cases h with rfl | ⟨-, -, hwire⟩
  · exact ⟨rfl, rfl, rfl, rfl⟩
  · exact hwire

theorem expandTransaction1_write (ht : t.Shaped) : transaction.write t' = transaction.write t := by
  have hwire := expandTransaction1_sameWire h
  rw [← transaction_lawful.write_norm ht,
    ← transaction_lawful.write_norm (expandTransaction1_shaped h ht)]
  congr 1
  obtain ⟨p, signatures, rct, pruned⟩ := t
  obtain ⟨p', signatures', rct', pruned'⟩ := t'
  obtain ⟨rfl, rfl, hrct, rfl⟩ := hwire
  rw [hrct]

end Jero.Serial
