import Jero.Chain.RingRead

namespace Jero.Chain
open Jero.Machine Jero.Tx List OutputData TxIn
variable {rings : List (List OutputData)} {outs : List OutputData}

theorem forall₂_getLast? {α β : Type*} {R : α → β → Prop} {as : List α} {bs : List β}
    (h : List.Forall₂ R as bs) : Option.Rel R as.getLast? bs.getLast? := by
  induction h with
  | nil => exact .none
  | cons hab hrest ih =>
    cases hrest with
    | nil => exact .some hab
    | cons hab' hrest' => simpa only [getLast?_cons_cons] using ih

theorem forall₂_exists_right {α β : Type*} {R : α → β → Prop} {as : List α} {bs : List β}
    (h : List.Forall₂ R as bs) {a : α} (ha : a ∈ as) : ∃ b, R a b := by
  induction h with
  | nil => cases ha
  | cons hab _ ih =>
    rcases mem_cons.mp ha with rfl | hrest
    · exact ⟨_, hab⟩
    · exact ih hrest

theorem le_foldl_raiseTo (rings : List (List OutputData)) (pmax : Nat) :
    pmax ≤ rings.foldl raiseTo pmax := by
  induction rings generalizing pmax with
  | nil => exact le_refl pmax
  | cons outs rings ih => exact (le_raiseTo pmax outs).trans (ih _)

variable {d : OutputData} {input : TxInToKey} {vin : List TxIn} {sigIndex : Nat}

theorem height_le_foldl_raiseTo (h : outs ∈ rings) (hd : outs.getLast? = some d) (pmax : Nat) :
    d.height ≤ rings.foldl raiseTo pmax := by
  induction rings generalizing pmax with
  | nil => cases h
  | cons ring rings ih =>
    rcases mem_cons.mp h with rfl | hrest
    · refine le_trans ?_ (le_foldl_raiseTo rings _)
      simp only [raiseTo, hd, Option.elim_some]
      exact le_max_right _ _
    · exact ih hrest _

theorem foldl_raiseTo_eq_zero (h : ∀ outs ∈ rings, ∀ d, outs.getLast? = some d → d.height = 0) :
    rings.foldl raiseTo 0 = 0 := by
  induction rings with
  | nil => rfl
  | cons outs rings ih =>
    obtain ⟨hhead, htail⟩ := forall_mem_cons.mp h
    have hraise : raiseTo 0 outs = 0 := by
      unfold raiseTo
      cases hlast : outs.getLast? with
      | none => rfl
      | some d => simp [hhead d hlast]
    rw [foldl_cons, hraise]
    exact ih htail

namespace Ledger
variable {l : Ledger} {tx : Transaction}

structure PassesInputs (l : Ledger) (tx : Transaction) (tvc : TxVerificationContext)
    (verificationId : Hash) (rings : List (List OutputData)) : Prop where
  checkedPrefix : (l.checkPrefix tx tvc).1 = true
  read : l.RingsRead tx 0 tx.vin rings
  age : l.hfVersion ≥ hfVersionEnforceMinAge →
    rings.foldl raiseTo 0 + defaultTxSpendableAge ≤ l.height
  proofs : (l.verifyProofs tx verificationId (ringKeys rings)).1 = true

theorem checkTxInputs_ok_iff (hscan : l.ScanAgrees tx) (tvc : TxVerificationContext)
    (verificationId : Hash) :
    (l.checkTxInputs tx tvc verificationId).ok = true ↔
      ∃ rings, l.PassesInputs tx tvc verificationId rings := by
  constructor
  · intro h
    simp only [checkTxInputs] at h
    split at h
    · cases h
    rename_i hbase
    split at h
    · cases h
    rename_i hrings
    obtain ⟨rings, hread⟩ := read_of_checkRings hscan (fun _ h => h) (not_rejected hrings)
    rw [checkRings_of_read hscan hread (fun _ h => h)] at h
    split at h
    · cases h
    rename_i hage
    refine ⟨rings, not_rejected hbase, hread, ?_, h⟩
    intro hfork
    by_contra hyoung
    exact hage ⟨hfork, hyoung⟩
  · rintro ⟨rings, hbase, hread, hage, hproofs⟩
    have hold : ¬ (l.hfVersion ≥ hfVersionEnforceMinAge ∧
        ¬ rings.foldl raiseTo 0 + defaultTxSpendableAge ≤ l.height) := by
      rintro ⟨hfork, hyoung⟩
      exact hyoung (hage hfork)
    simp only [checkTxInputs, hbase, Bool.not_true, Bool.false_eq_true, if_false,
      checkRings_of_read hscan hread (fun _ h => h), if_neg hold]
    exact hproofs

structure AcceptedAt (l : Ledger) (env : TxChecks) (tx : Transaction) : Prop where
  scan : l.ScanAgrees tx
  fork : hfVersionEnforceMinAge ≤ l.hfVersion
  passes : ∃ tvc verificationId, (checkTxSemantic env tx tvc l.hfVersion).1 = true ∧
    (l.checkTxInputs tx tvc verificationId).ok = true

def Aged (l : Ledger) (tx : Transaction) : Prop :=
  ∀ input, toKey input ∈ tx.vin →
    ∀ off ∈ relativeOutputOffsetsToAbsolute input.keyOffsets,
      ∃ d, l.getOutputKey input.amount off = some d ∧
        d.height + defaultTxSpendableAge ≤ l.height

theorem RingsRead.exists_ring (h : l.RingsRead tx sigIndex vin rings) (hinput : toKey input ∈ vin) :
    ∃ outs ∈ rings,
      l.Reads input.amount (relativeOutputOffsetsToAbsolute input.keyOffsets) outs := by
  induction h with
  | nil sigIndex => cases hinput
  | @cons sigIndex other vin outs rings hspent hread hrest ih =>
    rcases mem_cons.mp hinput with hhead | htail
    · obtain rfl := toKey.inj hhead
      exact ⟨outs, mem_cons_self, hread.reads⟩
    · obtain ⟨outs', hmem, hreads⟩ := ih htail
      exact ⟨outs', mem_cons_of_mem _ hmem, hreads⟩

theorem height_mono {amount i j : Nat} {e : OutputData} (hij : i ≤ j)
    (hd : l.getOutputKey amount i = some d) (he : l.getOutputKey amount j = some e) :
    d.height ≤ e.height := by
  obtain ⟨hi, rfl⟩ := List.getElem?_eq_some_iff.mp hd
  obtain ⟨hj, rfl⟩ := List.getElem?_eq_some_iff.mp he
  rcases eq_or_lt_of_le hij with rfl | hlt
  · exact le_refl _
  · have hsorted := pairwise_iff_getElem.mp (l.heights_sorted amount) i j
      (by simpa using hi) (by simpa using hj) hlt
    simpa using hsorted

end Ledger

def RingsOrdered (tx : Transaction) : Prop :=
  ∀ input, toKey input ∈ tx.vin →
    ∀ off ∈ relativeOutputOffsetsToAbsolute input.keyOffsets,
      ∃ other, toKey other ∈ tx.vin ∧ other.amount = input.amount ∧
        ∃ last, (relativeOutputOffsetsToAbsolute other.keyOffsets).getLast? = some last ∧ off ≤ last

namespace Ledger
variable {l : Ledger} {env : TxChecks} {tx : Transaction}

theorem aged_of_ringsOrdered (hacc : l.AcceptedAt env tx) (h : RingsOrdered tx) : l.Aged tx := by
  obtain ⟨tvc, verificationId, -, hinputs⟩ := hacc.passes
  obtain ⟨rings, hpasses⟩ := (checkTxInputs_ok_iff hacc.scan tvc verificationId).mp hinputs
  have hage := hpasses.age hacc.fork
  intro input hinput off hoff
  obtain ⟨other, hother, hamount, last, hlast, hle⟩ := h input hinput off hoff
  obtain ⟨outs, -, hreads⟩ := hpasses.read.exists_ring hinput
  obtain ⟨d, hd⟩ := forall₂_exists_right hreads hoff
  obtain ⟨outs', hmem, hreads'⟩ := hpasses.read.exists_ring hother
  have hrel := forall₂_getLast? hreads'
  rw [hlast] at hrel
  obtain ⟨e, hlast', he⟩ : ∃ e, outs'.getLast? = some e ∧
      l.getOutputKey other.amount last = some e := by
    cases hend : outs'.getLast? with
    | none =>
      rw [hend] at hrel
      cases hrel
    | some e =>
      rw [hend] at hrel
      cases hrel with
      | some he => exact ⟨e, rfl, he⟩
  rw [hamount] at he
  refine ⟨d, hd, ?_⟩
  calc d.height + defaultTxSpendableAge
      ≤ e.height + defaultTxSpendableAge := Nat.add_le_add_right (height_mono hle hd he) _
    _ ≤ rings.foldl raiseTo 0 + defaultTxSpendableAge :=
        Nat.add_le_add_right (height_le_foldl_raiseTo hmem hlast' 0) _
    _ ≤ l.height := hage

theorem height_pos (hacc : l.AcceptedAt env tx) : 0 < l.height := by
  obtain ⟨tvc, verificationId, -, hinputs⟩ := hacc.passes
  obtain ⟨rings, hpasses⟩ := (checkTxInputs_ok_iff hacc.scan tvc verificationId).mp hinputs
  exact lt_of_lt_of_le (Nat.add_pos_right _ (by decide)) (hpasses.age hacc.fork)

section
variable (f : Nat → Nat → Nat) (hmono : ∀ amount, Monotone (f amount))
variable (hlt : ∀ amount i, f amount i < l.height)

def reheight (l : Ledger) (f : Nat → Nat → Nat) (hmono : ∀ amount, Monotone (f amount))
    (hlt : ∀ amount i, f amount i < l.height) : Ledger :=
  { l with
    outputs := fun amount => (l.outputs amount).mapIdx (fun i d => { d with height := f amount i })
    scanTable := fun _ _ => none
    heights_sorted := by
      intro amount
      rw [List.pairwise_iff_getElem]
      intro i j hi hj hij
      simp only [List.getElem_map, List.getElem_mapIdx]
      exact hmono amount hij.le
    heights_lt := by
      intro amount d hd
      obtain ⟨i, hi, rfl⟩ := List.mem_mapIdx.mp hd
      exact hlt amount i }

theorem getOutputKey_reheight (amount i : Nat) :
    (l.reheight f hmono hlt).getOutputKey amount i =
      (l.getOutputKey amount i).map (fun d => { d with height := f amount i }) := by
  simp only [getOutputKey, reheight, getElem?_mapIdx]

theorem checkPrefix_reheight (tvc : TxVerificationContext) :
    (l.reheight f hmono hlt).checkPrefix tx tvc = l.checkPrefix tx tvc := by
  have hnum : (l.reheight f hmono hlt).getNumOutputs = l.getNumOutputs := by
    funext amount
    exact length_mapIdx
  have hcount : (l.reheight f hmono hlt).countMixin = l.countMixin := by
    funext c txin
    cases txin with
    | toKey input =>
      simp only [countMixin, hnum]
      rfl
    | gen height => rfl
    | toScript => rfl
    | toScriptHash => rfl
  simp only [checkPrefix, checkMixins, hcount]
  rfl

theorem Reads.reheight {amount : Nat} {offs : List Nat} (h : l.Reads amount offs outs) :
    ∃ outs', (l.reheight f hmono hlt).Reads amount offs outs' ∧
      outs'.map ctKey = outs.map ctKey ∧
      outs'.map unlockTime = outs.map unlockTime := by
  induction h with
  | nil => exact ⟨[], .nil, rfl, rfl⟩
  | @cons off d offs outs hd hrest ih =>
    obtain ⟨outs', hreads, hkeys, htimes⟩ := ih
    refine ⟨{ d with height := f amount off } :: outs', .cons ?_ hreads, ?_, ?_⟩
    · rw [getOutputKey_reheight, hd]
      rfl
    · rw [map_cons, hkeys]
      rfl
    · rw [map_cons, htimes]
      rfl

theorem RingRead.reheight {version : Nat} {signatures : Option Nat}
    (h : l.RingRead version input signatures outs) :
    ∃ outs', (l.reheight f hmono hlt).RingRead version input signatures outs' ∧
      outs'.map ctKey = outs.map ctKey := by
  obtain ⟨outs', hreads, hkeys, htimes⟩ := h.reads.reheight f hmono hlt
  refine ⟨outs', ⟨h.nonempty, hreads, ?_, ?_⟩, hkeys⟩
  · intro d hd
    have hmem : d.unlockTime ∈ outs.map unlockTime := by
      rw [← htimes]
      exact mem_map_of_mem hd
    obtain ⟨e, he, heq⟩ := mem_map.mp hmem
    rw [← heq]
    exact h.unlocked e he
  · intro hversion
    have hlen : outs'.length = outs.length := by simpa using congrArg length hkeys
    rw [hlen]
    exact h.signed hversion

theorem RingsRead.reheight (h : l.RingsRead tx sigIndex vin rings)
    (hlast : ∀ input, toKey input ∈ vin → ∀ last,
      (relativeOutputOffsetsToAbsolute input.keyOffsets).getLast? = some last → f input.amount last
      = 0) :
    ∃ rings', (l.reheight f hmono hlt).RingsRead tx sigIndex vin rings' ∧
      ringKeys rings' = ringKeys rings ∧
      ∀ outs ∈ rings', ∀ d, outs.getLast? = some d → d.height = 0 := by
  induction h with
  | nil sigIndex => exact ⟨[], .nil sigIndex, rfl, by simp⟩
  | @cons sigIndex input vin outs rings hspent hread hrest ih =>
    obtain ⟨rings', hrings, hkeys, hzero⟩ := ih (fun other hother =>
      hlast other (mem_cons_of_mem _ hother))
    obtain ⟨outs', hread', hkeys'⟩ := hread.reheight f hmono hlt
    refine ⟨outs' :: rings', .cons hspent hread' hrings, ?_, forall_mem_cons.mpr ⟨?_, hzero⟩⟩
    · simp only [ringKeys, map_cons, hkeys'] at hkeys ⊢
      rw [hkeys]
    · intro d hd
      have hrel := forall₂_getLast? hread'.reads
      rw [hd] at hrel
      cases hend : (relativeOutputOffsetsToAbsolute input.keyOffsets).getLast? with
      | none =>
        rw [hend] at hrel
        cases hrel
      | some last =>
        rw [hend] at hrel
        cases hrel with
        | some hget =>
          rw [getOutputKey_reheight] at hget
          obtain ⟨e, -, rfl⟩ := Option.map_eq_some_iff.mp hget
          exact hlast input mem_cons_self last hend

theorem AcceptedAt.reheight (hacc : l.AcceptedAt env tx)
    (hlast : ∀ input, toKey input ∈ tx.vin → ∀ last,
      (relativeOutputOffsetsToAbsolute input.keyOffsets).getLast? = some last →
        f input.amount last = 0) :
    (l.reheight f hmono hlt).AcceptedAt env tx := by
  obtain ⟨tvc, verificationId, hsemantic, hinputs⟩ := hacc.passes
  obtain ⟨rings, hpasses⟩ := (checkTxInputs_ok_iff hacc.scan tvc verificationId).mp hinputs
  obtain ⟨rings', hread, hkeys, hzero⟩ := hpasses.read.reheight f hmono hlt hlast
  have hscan : (l.reheight f hmono hlt).ScanAgrees tx := by
    intro input hinput cached hcached
    cases hcached
  refine ⟨hscan, hacc.fork, tvc, verificationId, hsemantic, ?_⟩
  refine (checkTxInputs_ok_iff hscan tvc verificationId).mpr ⟨rings', ?_, hread, ?_, ?_⟩
  · rw [checkPrefix_reheight]
    exact hpasses.checkedPrefix
  · intro hfork
    rw [foldl_raiseTo_eq_zero hzero]
    exact le_trans (Nat.add_le_add_right (Nat.zero_le _) _) (hpasses.age hfork)
  · rw [hkeys]
    exact hpasses.proofs

end

theorem spendable_age_iff (hacc : ∃ l : Ledger, l.AcceptedAt env tx) :
    RingsOrdered tx ↔ ∀ l : Ledger, l.AcceptedAt env tx → l.Aged tx := by
  constructor
  · intro hordered l hl
    exact aged_of_ringsOrdered hl hordered
  · intro haged
    by_contra hunordered
    obtain ⟨l, hl⟩ := hacc
    simp only [RingsOrdered, not_forall, not_exists, not_and, not_le] at hunordered
    obtain ⟨input, hinput, off, hoff, hbeyond⟩ := hunordered
    have hpos : 0 < l.height := height_pos hl
    let f : Nat → Nat → Nat := fun amount i =>
      if amount = input.amount ∧ off ≤ i then l.height - 1 else 0
    have hmono : ∀ amount, Monotone (f amount) := by
      intro amount i j hij
      simp only [f]
      split
      · rename_i hi
        rw [if_pos ⟨hi.1, hi.2.trans hij⟩]
      · exact Nat.zero_le _
    have hlt : ∀ amount i, f amount i < l.height := by
      intro amount i
      simp only [f]
      split
      · exact Nat.sub_lt hpos one_pos
      · exact hpos
    have hlast : ∀ other, toKey other ∈ tx.vin → ∀ last,
        (relativeOutputOffsetsToAbsolute other.keyOffsets).getLast? = some last →
          f other.amount last = 0 := by
      intro other hother last hend
      refine if_neg ?_
      rintro ⟨hamount, hle⟩
      exact absurd hle (not_le.mpr (hbeyond other hother hamount last hend))
    obtain ⟨d, hd, hold⟩ := haged _ (hl.reheight f hmono hlt hlast) input hinput off hoff
    rw [getOutputKey_reheight] at hd
    obtain ⟨e, -, rfl⟩ := Option.map_eq_some_iff.mp hd
    have hyoung : f input.amount off = l.height - 1 := if_pos ⟨rfl, le_refl off⟩
    simp only [hyoung] at hold
    have hheight : (l.reheight f hmono hlt).height = l.height := rfl
    rw [hheight, defaultTxSpendableAge] at hold
    omega

end Ledger

theorem absolute_go_le_total (offs : List Nat) (previous : Nat) (h : previous + offs.sum < 2 ^ 64) :
    (previous :: relativeOutputOffsetsToAbsolute.go previous offs).getLast? =
        some (previous + offs.sum) ∧
      ∀ off ∈ previous :: relativeOutputOffsetsToAbsolute.go previous offs,
        off ≤ previous + offs.sum := by
  induction offs generalizing previous with
  | nil => simp [relativeOutputOffsetsToAbsolute.go]
  | cons off offs ih =>
    rw [sum_cons] at h ⊢
    have hwrap : wrap (off + previous) = previous + off := by
      rw [add_comm off previous]
      exact wrap_of_lt (by omega)
    obtain ⟨hlast, hle⟩ := ih (previous + off) (by omega)
    rw [relativeOutputOffsetsToAbsolute.go, hwrap]
    refine ⟨?_, forall_mem_cons.mpr ⟨by omega, ?_⟩⟩
    · rw [getLast?_cons_cons, hlast, add_assoc]
    · intro x hx
      rw [← add_assoc]
      exact hle x hx

theorem ringsOrdered_of_offsets_fit {tx : Transaction}
    (h : ∀ input, toKey input ∈ tx.vin → input.keyOffsets.sum < 2 ^ 64) : RingsOrdered tx := by
  intro input hinput off hoff
  have hsum := h input hinput
  refine ⟨input, hinput, rfl, input.keyOffsets.sum, ?_⟩
  cases hkeys : input.keyOffsets with
  | nil =>
    rw [hkeys] at hoff
    cases hoff
  | cons first offs =>
    rw [hkeys] at hoff hsum
    obtain ⟨hlast, hle⟩ := absolute_go_le_total offs first (by simpa using hsum)
    rw [sum_cons]
    exact ⟨hlast, hle off hoff⟩

def sampleOutputs : Nat → List OutputData
  | 0 => (List.range 19).map (fun i => ⟨i, 0, i, 0⟩) ++ [⟨19, 0, 99, 0⟩]
  | _ + 1 => []

def sampleLedger : Ledger where
  timestamps := List.replicate 100 0
  hfVersion := 16
  now := 0
  outputs := sampleOutputs
  heights_sorted := by
    intro amount
    cases amount with
    | zero => decide +kernel
    | succ amount => exact List.Pairwise.nil
  heights_lt := by
    intro amount
    cases amount with
    | zero => decide +kernel
    | succ amount => exact fun d hd => by cases hd
  keyImageSpent := fun _ => false
  scanTable := fun _ _ => none
  prefixHash := fun _ => nullHash
  makeInputVerificationId := fun _ _ => nullHash
  verInputProofsRings := fun _ _ => true

def sampleChecks : TxChecks :=
  ⟨fun _ => true, fun _ => true, fun _ => 0, fun _ => 0, fun _ tvc _ => (true, tvc), fun _ => true⟩

def sampleSpend (keyOffsets : List Nat) : Transaction :=
  ⟨2, 0, [.toKey ⟨0, keyOffsets, 7⟩], [⟨0, .toTaggedKey 1⟩, ⟨0, .toTaggedKey 2⟩], 0, [], 2, 0, false⟩

def wrappedOffsets : List Nat := 19 :: (2 ^ 64 - 19) :: List.replicate 14 1

def plainOffsets : List Nat := 0 :: List.replicate 15 1

theorem sampleLedger_accepts {keyOffsets : List Nat}
    (hsemantic : (checkTxSemantic sampleChecks (sampleSpend keyOffsets) .initial 16).1 = true)
    (hinputs : (sampleLedger.checkTxInputs (sampleSpend keyOffsets) .initial nullHash).ok = true) :
    sampleLedger.AcceptedAt sampleChecks (sampleSpend keyOffsets) := by
  refine ⟨?_, by decide, .initial, nullHash, hsemantic, hinputs⟩
  intro input hinput cached hcached
  cases hcached

theorem wrapped_ring_member_too_young :
    sampleLedger.AcceptedAt sampleChecks (sampleSpend wrappedOffsets) ∧
      ¬ sampleLedger.Aged (sampleSpend wrappedOffsets) := by
  refine ⟨sampleLedger_accepts (by decide +kernel) (by decide +kernel), ?_⟩
  intro haged
  obtain ⟨d, hd, hold⟩ := haged ⟨0, wrappedOffsets, 7⟩ (by decide) 19 (by decide +kernel)
  have hyoung : sampleLedger.getOutputKey 0 19 = some ⟨19, 0, 99, 0⟩ := by decide +kernel
  obtain rfl := Option.some.inj (hyoung.symm.trans hd)
  exact absurd hold (by decide +kernel)

theorem spendable_age_plain_ring :
    RingsOrdered (sampleSpend plainOffsets) ∧ sampleLedger.Aged (sampleSpend plainOffsets) := by
  have hacc : sampleLedger.AcceptedAt sampleChecks (sampleSpend plainOffsets) :=
    sampleLedger_accepts (by decide +kernel) (by decide +kernel)
  have hordered : RingsOrdered (sampleSpend plainOffsets) := by
    apply ringsOrdered_of_offsets_fit
    intro input hinput
    obtain rfl := toKey.inj (mem_singleton.mp hinput)
    decide
  exact ⟨hordered, (Ledger.spendable_age_iff ⟨sampleLedger, hacc⟩).mp hordered sampleLedger hacc⟩

end Jero.Chain
