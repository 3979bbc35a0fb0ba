import Jero.Chain.Inputs

namespace Jero.Chain
open Jero.Machine Jero.Tx List Option
variable {outs outputs : List OutputData} {amount count pmax : Nat} {offs : List Nat}
  {input : TxInToKey} {txPrefixHash : Hash}

def raiseTo (pmax : Nat) (outs : List OutputData) : Nat :=
  outs.getLast?.elim pmax (fun d => max pmax d.height)

theorem raiseTo_singleton (pmax : Nat) (d : OutputData) :
    raiseTo pmax [d] = if pmax < d.height then d.height else pmax := by
  split
  · rename_i h
    exact max_eq_right h.le
  · rename_i h
    exact max_eq_left (not_lt.mp h)

theorem raiseTo_cons (pmax : Nat) (d : OutputData) (h : outs ≠ []) :
    raiseTo pmax (d :: outs) = raiseTo pmax outs := by
  obtain ⟨last, hlast⟩ := isSome_iff_exists.mp (getLast?_isSome.mpr h)
  simp only [raiseTo, getLast?_cons, hlast, getD_some, elim_some]

theorem le_raiseTo (pmax : Nat) (outs : List OutputData) : pmax ≤ raiseTo pmax outs := by
  unfold raiseTo
  cases outs.getLast? with
  | none => exact le_refl pmax
  | some d => exact le_max_left _ _

theorem relativeOutputOffsetsToAbsolute_length (offs : List Nat) :
    (relativeOutputOffsetsToAbsolute offs).length = offs.length := by
  have hgo : ∀ (offs : List Nat) (previous : Nat),
      (relativeOutputOffsetsToAbsolute.go previous offs).length = offs.length := by
    intro offs
    induction offs with
    | nil => intro previous; rfl
    | cons off offs ih =>
      intro previous
      simp only [relativeOutputOffsetsToAbsolute.go, length_cons, ih]
  cases offs with
  | nil => rfl
  | cons off offs => simp only [relativeOutputOffsetsToAbsolute, length_cons, hgo]

namespace Ledger
variable (l : Ledger)

def Reads (amount : Nat) (offs : List Nat) (outs : List OutputData) : Prop :=
  List.Forall₂ (fun off d => l.getOutputKey amount off = some d) offs outs

def ScanAgrees (tx : Transaction) : Prop :=
  ∀ input, TxIn.toKey input ∈ tx.vin → ∀ cached,
    l.scanTable (l.prefixHash tx) input.kImage = some cached →
      ∃ n, l.Reads input.amount ((relativeOutputOffsetsToAbsolute input.keyOffsets).take n) cached

def Backed (amount : Nat) (outputs : List OutputData) (count : Nat) (offs : List Nat) : Prop :=
  ∀ i off d, offs[i]? = some off → outputs[count + i]? = some d → l.getOutputKey amount off = some d

structure RingRead (version : Nat) (input : TxInToKey) (signatures : Option Nat)
    (outs : List OutputData) : Prop where
  nonempty : input.keyOffsets ≠ []
  reads : l.Reads input.amount (relativeOutputOffsetsToAbsolute input.keyOffsets) outs
  unlocked : ∀ d ∈ outs, l.isTxSpendtimeUnlocked d.unlockTime = true
  signed : version = 1 → signatures = some outs.length

inductive RingsRead (tx : Transaction) : Nat → List TxIn → List (List OutputData) → Prop where
  | nil (sigIndex : Nat) : RingsRead tx sigIndex [] []
  | cons {sigIndex : Nat} {input : TxInToKey} {vin : List TxIn} {outs : List OutputData}
      {rings : List (List OutputData)} :
      l.keyImageSpent input.kImage = false →
      l.RingRead tx.version input tx.signatures[sigIndex]? outs →
      RingsRead tx (sigIndex + 1) vin rings →
      RingsRead tx sigIndex (.toKey input :: vin) (outs :: rings)

variable {l}

theorem getOutputKeys_of_reads (h : l.Reads amount offs outs) :
    l.getOutputKeys amount offs = outs := by
  induction h with
  | nil => rfl
  | cons hd _ ih => simp only [getOutputKeys, hd, ih]

theorem reads_of_getOutputKeys (h : offs.length = (l.getOutputKeys amount offs).length) :
    l.Reads amount offs (l.getOutputKeys amount offs) := by
  induction offs with
  | nil => exact .nil
  | cons off offs ih =>
    cases hd : l.getOutputKey amount off with
    | none => simp [getOutputKeys, hd] at h
    | some d =>
      simp only [getOutputKeys, hd, length_cons, add_right_cancel_iff] at h ⊢
      exact .cons hd (ih h)

theorem Reads.backed (h : l.Reads amount offs outs) (rest : List Nat) :
    l.Backed amount outs 0 (offs ++ rest) := by
  intro i off d hoff hd
  rw [zero_add] at hd
  have hi : i < outs.length := (List.getElem?_eq_some_iff.mp hd).1
  have hlen := h.length_eq
  rw [getElem?_append_left (hlen ▸ hi)] at hoff
  obtain ⟨hi', rfl⟩ := List.getElem?_eq_some_iff.mp hoff
  obtain ⟨hi'', rfl⟩ := List.getElem?_eq_some_iff.mp hd
  exact (forall₂_iff_get.mp h).2 i hi' hi''

variable {absolute : List Nat} {keys : List CtKey} {signatures : Option Nat}
  {version sigIndex : Nat} {tx : Transaction} {vin : List TxIn}

theorem cachedOutputs_backed
    (hscan : ∀ cached, l.scanTable txPrefixHash input.kImage = some cached → ∃ n, l.Reads
      input.amount (absolute.take n) cached)
    (h : l.cachedOutputs input txPrefixHash absolute = some outputs) :
    l.Backed input.amount outputs 0 absolute := by
  unfold cachedOutputs at h
  split at h
  · simp only at h
    split at h
    · cases h
    · rename_i hlen
      obtain rfl := some.inj h
      simpa using (reads_of_getOutputKeys (not_not.mp hlen)).backed []
  · rename_i cached hcached
    obtain ⟨n, hreads⟩ := hscan cached hcached
    have hsplit : absolute.take n ++ absolute.drop n = absolute := take_append_drop n absolute
    split at h
    · rename_i hshort
      have hn : n = cached.length := by
        have hlen := hreads.length_eq
        rw [length_take] at hlen
        omega
      simp only at h
      split at h
      · cases h
      · rename_i hlen
        obtain rfl := some.inj h
        have hadded := reads_of_getOutputKeys (not_not.mp hlen)
        rw [hn] at hreads hsplit
        have hall : l.Reads input.amount (absolute.take cached.length ++
            absolute.drop cached.length) (cached ++ _) := rel_append hreads hadded
        rw [hsplit] at hall
        simpa using hall.backed []
    · obtain rfl := some.inj h
      have hbacked := hreads.backed (absolute.drop n)
      rwa [hsplit] at hbacked

theorem Backed.head {off : Nat} (h : l.Backed amount outputs count (off :: offs)) :
    (if count < outputs.length then outputs[count]? else l.getOutputKey amount off) =
      l.getOutputKey amount off := by
  split
  · rename_i hcount
    rw [getElem?_eq_getElem hcount]
    exact (h 0 off _ rfl (getElem?_eq_getElem hcount)).symm
  · rfl

theorem Backed.tail {off : Nat} (h : l.Backed amount outputs count (off :: offs)) :
    l.Backed amount outputs (count + 1) offs := by
  intro i off' d hoff hd
  refine h (i + 1) off' d hoff ?_
  rwa [← add_assoc, add_right_comm]

theorem visitOutputs_of_reads (h : l.Reads amount offs outs)
    (hunlocked : ∀ d ∈ outs, l.isTxSpendtimeUnlocked d.unlockTime = true) (count : Nat)
    (hbacked : l.Backed amount outputs count offs) (keys : List CtKey) (pmax : Nat) :
    l.visitOutputs amount outputs count offs keys pmax =
      (some (keys ++ outs.map OutputData.ctKey), raiseTo pmax outs) := by
  induction h generalizing count keys pmax with
  | nil => simp [visitOutputs, raiseTo]
  | @cons off d offs outs hd hrest ih =>
    obtain ⟨hhead, htail⟩ := forall_mem_cons.mp hunlocked
    have hsource := hbacked.head.trans hd
    simp only [visitOutputs, hsource, hhead, Bool.not_true, Bool.false_eq_true, if_false]
    rw [ih htail (count + 1) hbacked.tail]
    refine Prod.ext (by simp) ?_
    cases hrest with
    | nil =>
      rw [raiseTo_singleton]
      simp [raiseTo]
    | cons hd' hrest' =>
      rw [raiseTo_cons pmax d (cons_ne_nil _ _)]
      simp

theorem reads_of_visitOutputs (hbacked : l.Backed amount outputs count offs) {keys' : List CtKey}
    (h : (l.visitOutputs amount outputs count offs keys pmax).1 = some keys') :
    ∃ outs, l.Reads amount offs outs ∧ ∀ d ∈ outs, l.isTxSpendtimeUnlocked d.unlockTime = true := by
  induction offs generalizing count keys pmax with
  | nil => exact ⟨[], .nil, by simp⟩
  | cons off offs ih =>
    simp only [visitOutputs, hbacked.head] at h
    cases hd : l.getOutputKey amount off with
    | none => simp [hd] at h
    | some d =>
      simp only [hd] at h
      split at h
      · cases h
      · rename_i hunlocked
        obtain ⟨outs, hreads, hall⟩ := ih hbacked.tail h
        exact ⟨d :: outs, .cons hd hreads, forall_mem_cons.mpr ⟨not_rejected hunlocked, hall⟩⟩

section
variable
  (hscan : ∀ cached, l.scanTable txPrefixHash input.kImage = some cached → ∃ n, l.Reads input.amount
    ((relativeOutputOffsetsToAbsolute input.keyOffsets).take n) cached)
include hscan

theorem checkTxInput_of_read (h : l.RingRead version input signatures outs) (pmax : Nat) :
    l.checkTxInput version input txPrefixHash signatures pmax =
      (some (outs.map OutputData.ctKey), raiseTo pmax outs) := by
  obtain ⟨outputs, houtputs⟩ : ∃ outputs, l.cachedOutputs input txPrefixHash
    (relativeOutputOffsetsToAbsolute input.keyOffsets) = some outputs := by
    unfold cachedOutputs
    split
    · rw [getOutputKeys_of_reads h.reads, if_neg (not_not.mpr h.reads.length_eq)]
      exact ⟨outs, rfl⟩
    · rename_i cached hcached
      split
      · have hrest := forall₂_drop cached.length h.reads
        simp only [getOutputKeys_of_reads hrest, if_neg (not_not.mpr hrest.length_eq)]
        exact ⟨_, rfl⟩
      · exact ⟨cached, rfl⟩
  have hvisit := visitOutputs_of_reads h.reads h.unlocked 0
    (cachedOutputs_backed hscan houtputs) [] pmax
  have hlen : input.keyOffsets.length = outs.length := by
    rw [← relativeOutputOffsetsToAbsolute_length]
    exact h.reads.length_eq
  have hempty : ¬ input.keyOffsets.isEmpty = true := by
    rw [List.isEmpty_iff]
    exact h.nonempty
  simp only [checkTxInput, scanOutputkeysForIndexes, if_neg hempty, houtputs, hvisit,
    nil_append, length_map]
  rw [if_neg (not_not.mpr hlen), if_neg]
  rintro ⟨hversion, hsigned⟩
  exact hsigned (h.signed hversion)

theorem read_of_checkTxInput
    (h : (l.checkTxInput version input txPrefixHash signatures pmax).1 = some keys) :
    ∃ outs, l.RingRead version input signatures outs := by
  cases hempty : input.keyOffsets.isEmpty with
  | true => simp [checkTxInput, scanOutputkeysForIndexes, hempty] at h
  | false =>
    cases houtputs : l.cachedOutputs input txPrefixHash
        (relativeOutputOffsetsToAbsolute input.keyOffsets) with
    | none => simp [checkTxInput, scanOutputkeysForIndexes, hempty, houtputs] at h
    | some outputs =>
      have hbacked := cachedOutputs_backed hscan houtputs
      simp only [checkTxInput, scanOutputkeysForIndexes, hempty, houtputs, Bool.false_eq_true,
        if_false] at h
      split at h
      · cases h
      · rename_i visited pmax' hvisit
        obtain ⟨outs, hreads, hunlocked⟩ := reads_of_visitOutputs hbacked (congrArg Prod.fst hvisit)
        have hall := visitOutputs_of_reads hreads hunlocked 0 hbacked [] pmax
        obtain ⟨hkeys, -⟩ := Prod.ext_iff.mp (hvisit.symm.trans hall)
        simp only [nil_append, some.injEq] at hkeys
        split at h
        · cases h
        · split at h
          · cases h
          · rename_i hsigned
            refine ⟨outs, ?_, hreads, hunlocked, ?_⟩
            · rintro hnil
              simp [hnil] at hempty
            · intro hversion
              by_contra hsig
              rw [hkeys, length_map] at hsigned
              exact hsigned ⟨hversion, hsig⟩

end

def ringKeys (rings : List (List OutputData)) : List (List CtKey) :=
  rings.map (fun outs => outs.map OutputData.ctKey)

theorem checkRings_of_read (hscan : l.ScanAgrees tx) {rings : List (List OutputData)}
    (h : l.RingsRead tx sigIndex vin rings) (hvin : ∀ txin ∈ vin, txin ∈ tx.vin)
    (tvc : TxVerificationContext) (pubkeys : List (List CtKey)) (pmax : Nat) :
    l.checkRings tx tvc sigIndex vin pubkeys pmax =
      (true, tvc, pubkeys ++ ringKeys rings, rings.foldl raiseTo pmax) := by
  induction h generalizing pubkeys pmax with
  | nil sigIndex => simp [checkRings, ringKeys]
  | @cons sigIndex input vin outs rings hspent hread hrest ih =>
    obtain ⟨hinput, htail⟩ := forall_mem_cons.mp hvin
    have hempty : input.keyOffsets.isEmpty = false := by
      rw [isEmpty_eq_false_iff]
      exact hread.nonempty
    have hindex : ¬ (tx.version = 1 ∧ ¬ sigIndex < tx.signatures.length) := by
      rintro ⟨hversion, hout⟩
      have hsigned := hread.signed hversion
      rw [getElem?_eq_none (not_lt.mp hout)] at hsigned
      cases hsigned
    simp only [checkRings, hempty, Bool.false_eq_true, if_false, hspent, if_neg hindex,
      checkTxInput_of_read (hscan input hinput) hread pmax]
    rw [ih htail]
    simp [ringKeys]

theorem read_of_checkRings (hscan : l.ScanAgrees tx) {tvc : TxVerificationContext}
    (hvin : ∀ txin ∈ vin, txin ∈ tx.vin) {pubkeys : List (List CtKey)}
    (h : (l.checkRings tx tvc sigIndex vin pubkeys pmax).1 = true) :
    ∃ rings, l.RingsRead tx sigIndex vin rings := by
  induction vin generalizing sigIndex pubkeys pmax with
  | nil => exact ⟨[], .nil sigIndex⟩
  | cons txin vin ih =>
    obtain ⟨hinput, htail⟩ := forall_mem_cons.mp hvin
    cases txin with
    | toKey input =>
      simp only [checkRings] at h
      split at h
      · cases h
      split at h
      · cases h
      split at h
      · cases h
      rename_i hspent hindex
      split at h
      · cases h
      · rename_i keys pmax' hcheck
        obtain ⟨outs, hread⟩ :=
          read_of_checkTxInput (hscan input hinput) (congrArg Prod.fst hcheck)
        obtain ⟨rings, hrings⟩ := ih htail h
        exact ⟨outs :: rings, .cons (by simpa using hspent) hread hrings⟩
    | gen height => cases h
    | toScript => cases h
    | toScriptHash => cases h

end Ledger
end Jero.Chain
