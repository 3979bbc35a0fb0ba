import Jero.Algebra.RingWalk
import Jero.Machine.Word
import Jero.Ringct.Multiexp

namespace Jero.Ringct
open Jero.Algebra Jero.Machine Walk List

structure RingParams (F E K : Type) [Field F] [AddCommGroup E] [Module F E] where
  G : E
  invEight : F
  eight_mul_invEight : 8 * invEight = 1
  encode : E → K
  hashKeyClsagAgg0 : K
  hashKeyClsagAgg1 : K
  hashKeyClsagRound : K
  hashToScalar : List K → F
  hashToPoint : E → E

structure RingMember (A : Type) where
  dest : A
  mask : A
deriving DecidableEq, Repr

open RingMember

structure Clsag (F E : Type) where
  s : List F
  c1 : F
  I : E
  D : E
deriving DecidableEq, Repr

structure MgSig (F E : Type) where
  ss : List (List F)
  cc : F
  II : List E
deriving DecidableEq, Repr

structure ClsagNonce (F E : Type) where
  I : E
  D : E
  aG : E
  aH : E
deriving DecidableEq, Repr

namespace RingParams
variable {F E K : Type} [Field F] [AddCommGroup E] [Module F E] (p : RingParams F E K)

def addKeys2 (a b : F) (B : E) : E := a • p.G + b • B

def addKeys3 (a : F) (A : E) (b : F) (B : E) : E := a • A + b • B

def addKeysAGbBcC (a b : F) (B : E) (c : F) (C : E) : E := a • p.G + b • B + c • C

def addKeysAAbBcC (a : F) (A : E) (b : F) (B : E) (c : F) (C : E) : E := a • A + b • B + c • C

def clsagPrepare (sk z : F) (H : E) (a : F) : ClsagNonce F E where
  I := sk • H
  D := z • H
  aG := a • p.G
  aH := a • H

def clsagSign (c a sk z muP muC : F) : F := a - c * (muC * z + muP * sk)

def clsagAggregation (domain : K) (P Cnonzero : List E) (I D Coffset : E) : F :=
  p.hashToScalar (domain :: (P.map p.encode ++ Cnonzero.map p.encode ++
    [p.encode I, p.encode D, p.encode Coffset]))

def clsagToHash (P Cnonzero : List E) (Coffset : E) (message : K) : List K :=
  p.hashKeyClsagRound :: (P.map p.encode ++ Cnonzero.map p.encode ++ [p.encode Coffset, message])

def clsagHash (toHash : List K) (L R : E) : F :=
  p.hashToScalar (toHash ++ [p.encode L, p.encode R])

def clsagRound (toHash : List K) (muP muC : F) (I D Pi Ci : E) (s c : F) : F :=
  let cP := muP * c
  let cC := muC * c
  p.clsagHash toHash (p.addKeysAGbBcC s cP Pi cC Ci)
    (addKeysAAbBcC s (p.hashToPoint Pi) cP I cC D)

def clsagGen (message : K) (P : List E) (sk : F) (C : List E) (z : F) (Cnonzero : List E)
    (Coffset : E) (l : Nat) (a : F) (skGen : Nat → F) : Except String (Clsag F E) := do
  let n := P.length
  check (decide (n = C.length)) "Signing and commitment key vector sizes must match!"
  check (decide (n = Cnonzero.length)) "Signing and commitment key vector sizes must match!"
  check (decide (l < n)) "Signing index out of range!"
  let nonce := p.clsagPrepare sk z (p.hashToPoint (P.getD l 0)) a
  let sigD := p.invEight • nonce.D
  let muP := p.clsagAggregation p.hashKeyClsagAgg0 P Cnonzero nonce.I sigD Coffset
  let muC := p.clsagAggregation p.hashKeyClsagAgg1 P Cnonzero nonce.I sigD Coffset
  let toHash := p.clsagToHash P Cnonzero Coffset message
  let round := fun i => p.clsagRound toHash muP muC nonce.I nonce.D (P.getD i 0) (C.getD i 0)
  let c := p.clsagHash toHash nonce.aG nonce.aH
  match runUntil l (advance n skGen round) n
      (start n l c 0 (List.replicate n 0)) with
  | some w =>
    pure ⟨w.responses.set l (clsagSign w.challenge a sk z muP muC), w.first, nonce.I, sigD⟩
  | none => throw "the walk around the ring did not return to the signing index"

def proveRctCLSAGSimple (message : K) (pubs : List (RingMember E)) (inSk : RingMember F)
    (cOut : F) (Cout : E) (index : Nat) (a : F) (skGen : Nat → F) :
    Except String (Clsag F E) := do
  check (!pubs.isEmpty) "Empty pubs"
  let P := pubs.map dest
  let Cnonzero := pubs.map mask
  let C := pubs.map fun k => k.mask - Cout
  let zeroCommitSk := inSk.mask - cOut
  p.clsagGen message P inSk.dest C zeroCommitSk Cnonzero Cout index a skGen

def verifyRounds [DecidableEq F] (round : Nat → F → F) (n : Nat) (c : F) : Except String F :=
  (List.range n).foldlM
    (fun c i => do
      let cNew := round i c
      check (decide (cNew ≠ 0)) "Bad signature hash"
      pure cNew)
    c

variable [DecidableEq F] [DecidableEq E]

def clsagVerdict (message : K) (sig : Clsag F E) (pubs : List (RingMember E)) (Coffset : E) :
    Except String Bool := do
  let n := pubs.length
  check (decide (1 ≤ n)) "Empty pubs"
  check (decide (n = sig.s.length)) "Signature scalar vector is the wrong size!"
  check (decide (sig.I ≠ 0)) "Bad key image!"
  let D8 := (8 : F) • sig.D
  check (decide (D8 ≠ 0)) "Bad auxiliary key image!"
  let P := pubs.map dest
  let Cnonzero := pubs.map mask
  let muP := p.clsagAggregation p.hashKeyClsagAgg0 P Cnonzero sig.I sig.D Coffset
  let muC := p.clsagAggregation p.hashKeyClsagAgg1 P Cnonzero sig.I sig.D Coffset
  let toHash := p.clsagToHash P Cnonzero Coffset message
  let round := fun i => p.clsagRound toHash muP muC sig.I D8
    (pubs.getD i ⟨0, 0⟩).dest ((pubs.getD i ⟨0, 0⟩).mask - Coffset) (sig.s.getD i 0)
  let c ← verifyRounds round n sig.c1
  pure (decide (c - sig.c1 = 0))

def verRctCLSAGSimple (message : K) (sig : Clsag F E) (pubs : List (RingMember E))
    (Coffset : E) : Bool :=
  match p.clsagVerdict message sig pubs Coffset with
  | .ok verdict => verdict
  | .error _ => false

def mlsagHash (message : K) (rows dsRows : Nat) (pk L R : Nat → E) : F :=
  p.hashToScalar (message ::
    ((List.range dsRows).flatMap (fun j => [p.encode (pk j), p.encode (L j), p.encode (R j)]) ++
      (List.range' dsRows (rows - dsRows)).flatMap
        (fun j => [p.encode (pk j), p.encode (L j)])))

def mlsagRound (message : K) (rows dsRows : Nat) (II : List E) (pk : List E) (ss : List F)
    (c : F) : F :=
  p.mlsagHash message rows dsRows (fun j => pk.getD j 0)
    (fun j => p.addKeys2 (ss.getD j 0) c (pk.getD j 0))
    (fun j => addKeys3 (ss.getD j 0) (p.hashToPoint (pk.getD j 0)) c (II.getD j 0))

def mlsagSign (c : F) (xx alpha : List F) (rows dsRows : Nat) (ss : List F) :
    Except String (List F) := do
  check (decide (dsRows ≤ rows)) "dsRows greater than rows"
  check (decide (xx.length = rows)) "xx size does not match rows"
  check (decide (alpha.length = rows)) "alpha size does not match rows"
  check (decide (ss.length = rows)) "ss size does not match rows"
  pure ((List.range rows).map fun j => alpha.getD j 0 - c * xx.getD j 0)

def mlsagGen (message : K) (pk : List (List E)) (xx : List F) (index dsRows : Nat)
    (skGen : Nat → F) (skvGen : Nat → Nat → F) : Except String (MgSig F E) := do
  let cols := pk.length
  check (decide (2 ≤ cols)) "Error! What is c if cols = 1!"
  check (decide (index < cols)) "Index out of range"
  let rows := (pk.getD 0 []).length
  check (decide (1 ≤ rows)) "Empty pk"
  check (pk.tail.all fun column => decide (column.length = rows)) "pk is not rectangular"
  check (decide (xx.length = rows)) "Bad xx size"
  check (decide (dsRows ≤ rows)) "Bad dsRows size"
  let own := fun j => (pk.getD index []).getD j 0
  let alpha := (List.range rows).map skGen
  let II := (List.range dsRows).map fun j => xx.getD j 0 • p.hashToPoint (own j)
  let c := p.mlsagHash message rows dsRows own (fun j => alpha.getD j 0 • p.G)
    (fun j => alpha.getD j 0 • p.hashToPoint (own j))
  let round := fun i => p.mlsagRound message rows dsRows II (pk.getD i [])
  match runUntil index
      (advance cols (fun i => (List.range rows).map (skvGen i)) round) cols
      (start cols index c 0 (List.replicate cols (List.replicate rows 0))) with
  | some w =>
    let ss ← mlsagSign w.challenge xx alpha rows dsRows (w.responses.getD index [])
    pure ⟨w.responses.set index ss, w.first, II⟩
  | none => throw "the walk around the ring did not return to the signing index"

def mlsagVerdict (message : K) (pk : List (List E)) (rv : MgSig F E) (dsRows : Nat) :
    Except String Bool := do
  let cols := pk.length
  check (decide (2 ≤ cols)) "Signature must contain more than one public key"
  let rows := (pk.getD 0 []).length
  check (decide (1 ≤ rows)) "Bad total row number"
  check (pk.tail.all fun column => decide (column.length = rows))
    "Bad public key matrix dimensions"
  check (decide (rv.II.length = dsRows)) "Wrong number of key images present"
  check (decide (rv.ss.length = cols)) "Bad scalar matrix dimensions"
  check (rv.ss.all fun column => decide (column.length = rows)) "Bad scalar matrix dimensions"
  check (decide (dsRows ≤ rows)) "Non-double-spend rows cannot exceed total rows"
  check (rv.II.all fun image => decide (image ≠ 0)) "Bad key image"
  let round := fun i => p.mlsagRound message rows dsRows rv.II (pk.getD i []) (rv.ss.getD i [])
  let c ← verifyRounds round cols rv.cc
  pure (decide (c - rv.cc = 0))

def mlsagVer (message : K) (pk : List (List E)) (rv : MgSig F E) (dsRows : Nat) : Bool :=
  match p.mlsagVerdict message pk rv dsRows with
  | .ok verdict => verdict
  | .error _ => false

end RingParams

theorem getD_map_range {A : Type} (f : Nat → A) (d : A) {n i : Nat} (hi : i < n) :
    ((List.range n).map f).getD i d = f i := by
  rw [getD_eq_getElem?_getD, getElem?_map, getElem?_range hi]
  rfl

theorem foldl_range_congr {C : Type} {f g : C → Nat → C} {n : Nat} (c : C)
    (h : ∀ i < n, ∀ c, f c i = g c i) :
    (List.range n).foldl f c = (List.range n).foldl g c := by
  refine foldl_ext f g c ?_
  intro c i hi
  exact h i (mem_range.mp hi) c

theorem rectangular {A : Type} {pk : List (List A)} {rows : Nat} (hcols : 2 ≤ pk.length)
    (hpk : ∀ column ∈ pk, column.length = rows) :
    (pk.getD 0 []).length = rows ∧
      (pk.tail.all fun column => decide (column.length = rows)) = true := by
  cases pk with
  | nil => cases hcols
  | cons first rest =>
    refine ⟨hpk first (mem_cons_self ..), ?_⟩
    simp only [tail_cons, all_eq_true, decide_eq_true_eq]
    intro column hcolumn
    exact hpk column (mem_cons_of_mem first hcolumn)

namespace RingParams
variable {F E K : Type} [Field F] [AddCommGroup E] [Module F E] (p : RingParams F E K)

theorem verifyRounds_closed [DecidableEq F] {round : Nat → F → F} {n : Nat} {c : F}
    (hclosed : (List.range n).foldl (fun c i => round i c) c = c) (hround : ∀ i c, round i c ≠ 0) :
    verifyRounds round n c = .ok c := by
  have hall : ∀ (l : List Nat) (c : F),
      l.foldlM (fun c i => do
        let cNew := round i c
        check (decide (cNew ≠ 0)) "Bad signature hash"
        pure cNew) c = Except.ok (l.foldl (fun c i => round i c) c) := by
    intro l
    induction l with
    | nil => exact fun _ => rfl
    | cons i l ih =>
      intro c
      rw [foldlM_cons, check_true (by simpa using hround i c)]
      exact ih (round i c)
  rw [verifyRounds, hall, hclosed]

theorem clsagRound_sign (toHash : List K) (muP muC sk z a c : F) {Pl Cl : E}
    (hP : Pl = sk • p.G) (hC : Cl = z • p.G) :
    let nonce := p.clsagPrepare sk z (p.hashToPoint Pl) a
    p.clsagRound toHash muP muC nonce.I nonce.D Pl Cl (clsagSign c a sk z muP muC) c =
      p.clsagHash toHash nonce.aG nonce.aH := by
  have hL : p.addKeysAGbBcC (clsagSign c a sk z muP muC) (muP * c) Pl (muC * c) Cl = a • p.G := by
    rw [hP, hC, addKeysAGbBcC, clsagSign]
    module
  have hR : addKeysAAbBcC (clsagSign c a sk z muP muC) (p.hashToPoint Pl) (muP * c)
      (sk • p.hashToPoint Pl) (muC * c) (z • p.hashToPoint Pl) = a • p.hashToPoint Pl := by
    rw [addKeysAAbBcC, clsagSign]
    module
  dsimp only [clsagRound, clsagPrepare]
  rw [hL, hR]

theorem clsagGen_ok (message : K) (P : List E) (sk : F) (C : List E) (z : F) (Cnonzero : List E)
    (Coffset : E) (l : Nat) (a : F) (skGen : Nat → F) (hsize : P.length = C.length)
    (hnonzero : P.length = Cnonzero.length) (hl : l < P.length)
    (hP : P.getD l 0 = sk • p.G) (hC : C.getD l 0 = z • p.G) :
    let nonce := p.clsagPrepare sk z (p.hashToPoint (P.getD l 0)) a
    let sigD := p.invEight • nonce.D
    let muP := p.clsagAggregation p.hashKeyClsagAgg0 P Cnonzero nonce.I sigD Coffset
    let muC := p.clsagAggregation p.hashKeyClsagAgg1 P Cnonzero nonce.I sigD Coffset
    let toHash := p.clsagToHash P Cnonzero Coffset message
    ∃ s c1, p.clsagGen message P sk C z Cnonzero Coffset l a skGen =
        .ok ⟨(List.range P.length).map s, c1, nonce.I, sigD⟩ ∧
      (List.range P.length).foldl
        (fun c i => p.clsagRound toHash muP muC nonce.I nonce.D (P.getD i 0) (C.getD i 0) (s i) c)
        c1 = c1 := by
  intro nonce sigD muP muC toHash
  obtain ⟨w, hrun, -, hset, hclose⟩ := Walk.runUntil_closes skGen
    (fun i => p.clsagRound toHash muP muC nonce.I nonce.D (P.getD i 0) (C.getD i 0))
    (p.clsagHash toHash nonce.aG nonce.aH) 0 (replicate P.length 0) hl
    length_replicate
  have hsigned := p.clsagRound_sign toHash muP muC sk z a w.challenge hP hC
  refine ⟨Function.update skGen l (clsagSign w.challenge a sk z muP muC), w.first, ?_,
    hclose _ hsigned⟩
  dsimp only [clsagGen]
  rw [check_decide hsize, check_decide hnonzero, check_decide hl, hrun, ← hset]
  rfl

theorem mlsagHash_congr (message : K) (rows dsRows : Nat) (pk : Nat → E) {L R L' R' : Nat → E}
    (hds : dsRows ≤ rows) (hL : ∀ j < rows, L j = L' j) (hR : ∀ j < dsRows, R j = R' j) :
    p.mlsagHash message rows dsRows pk L R = p.mlsagHash message rows dsRows pk L' R' := by
  have hlinked : (range dsRows).flatMap
      (fun j => [p.encode (pk j), p.encode (L j), p.encode (R j)]) =
      (range dsRows).flatMap
        (fun j => [p.encode (pk j), p.encode (L' j), p.encode (R' j)]) := by
    refine flatMap_congr fun j hj => ?_
    have hj := mem_range.mp hj
    rw [hL j (by omega), hR j hj]
  have hunlinked : (range' dsRows (rows - dsRows)).flatMap
      (fun j => [p.encode (pk j), p.encode (L j)]) =
      (range' dsRows (rows - dsRows)).flatMap
        (fun j => [p.encode (pk j), p.encode (L' j)]) := by
    refine flatMap_congr fun j hj => ?_
    have hj := (mem_range'_1.mp hj).2
    rw [hL j (by omega)]
  rw [mlsagHash, mlsagHash, hlinked, hunlinked]

theorem mlsagGen_ok (message : K) (pk : List (List E)) (xx : List F) (index dsRows rows : Nat)
    (skGen : Nat → F) (skvGen : Nat → Nat → F) (hcols : 2 ≤ pk.length) (hrows : 1 ≤ rows)
    (hpk : ∀ column ∈ pk, column.length = rows) (hxx : xx.length = rows)
    (hds : dsRows ≤ rows) (hindex : index < pk.length)
    (hopened : ∀ j < rows, (pk.getD index []).getD j 0 = xx.getD j 0 • p.G) :
    let II := (List.range dsRows).map fun j =>
      xx.getD j 0 • p.hashToPoint ((pk.getD index []).getD j 0)
    ∃ ss cc, p.mlsagGen message pk xx index dsRows skGen skvGen =
        .ok ⟨(List.range pk.length).map ss, cc, II⟩ ∧
      (∀ i, (ss i).length = rows) ∧
      (List.range pk.length).foldl
        (fun c i => p.mlsagRound message rows dsRows II (pk.getD i []) (ss i) c) cc = cc := by
  intro II
  obtain ⟨hfirst, hrest⟩ := rectangular hcols hpk
  have hdraws : ∀ i, ((range rows).map (skvGen i)).length = rows := by
    intro i
    simp
  obtain ⟨w, hrun, hmem, hset, hclose⟩ := Walk.runUntil_closes
    (fun i => (range rows).map (skvGen i))
    (fun i => p.mlsagRound message rows dsRows II (pk.getD i []))
    (p.mlsagHash message rows dsRows (fun j => (pk.getD index []).getD j 0)
      (fun j => ((range rows).map skGen).getD j 0 • p.G)
      (fun j => ((range rows).map skGen).getD j 0 •
        p.hashToPoint ((pk.getD index []).getD j 0)))
    0 (replicate pk.length (replicate rows 0)) hindex length_replicate
  have hsigned : p.mlsagRound message rows dsRows II (pk.getD index [])
      ((range rows).map fun j =>
        ((range rows).map skGen).getD j 0 - w.challenge * xx.getD j 0) w.challenge =
        p.mlsagHash message rows dsRows (fun j => (pk.getD index []).getD j 0)
          (fun j => ((range rows).map skGen).getD j 0 • p.G)
          (fun j => ((range rows).map skGen).getD j 0 •
            p.hashToPoint ((pk.getD index []).getD j 0)) := by
    refine p.mlsagHash_congr message rows dsRows _ hds ?_ ?_
    · intro j hj
      dsimp only [addKeys2]
      rw [getD_map_range _ _ hj, hopened j hj]
      module
    · intro j hj
      dsimp only [addKeys3]
      rw [getD_map_range _ _ (hj.trans_le hds), getD_map_range _ _ hj]
      module
  have hlength : w.responses.length = pk.length := by
    simpa using congrArg length (hset [])
  have hunsigned : (w.responses.getD index []).length = rows := by
    rw [getD_eq_getElem _ _ (hlength ▸ hindex)]
    rcases hmem _ (getElem_mem (hlength ▸ hindex)) with hold | ⟨i, hdraw⟩
    · rw [eq_of_mem_replicate hold, length_replicate]
    · rw [hdraw, hdraws i]
  refine ⟨_, w.first, ?_, ?_, hclose _ hsigned⟩
  · dsimp only [mlsagGen]
    rw [check_decide hcols, check_decide hindex, hfirst, check_decide hrows, check_true hrest,
      check_decide hxx, check_decide hds, hrun]
    dsimp only
    rw [mlsagSign, check_decide hds, check_decide hxx, check_decide (by simp),
      check_decide hunsigned, pure_bind, ← hset]
    rfl
  · intro i
    rcases eq_or_ne i index with rfl | hne
    · simp
    · rw [Function.update_of_ne hne]
      exact hdraws i

variable [DecidableEq F] [DecidableEq E] (hscalar : ∀ l, p.hashToScalar l ≠ 0)
include hscalar

theorem mlsagVer_of_closed (message : K) (pk : List (List E)) (rv : MgSig F E)
    (dsRows rows : Nat) (hcols : 2 ≤ pk.length) (hrows : 1 ≤ rows)
    (hpk : ∀ column ∈ pk, column.length = rows) (hII : rv.II.length = dsRows)
    (hss : rv.ss.length = pk.length) (hcolumns : ∀ column ∈ rv.ss, column.length = rows)
    (hds : dsRows ≤ rows) (hclosed : (List.range pk.length).foldl
      (fun c i => p.mlsagRound message rows dsRows rv.II (pk.getD i []) (rv.ss.getD i []) c) rv.cc =
        rv.cc) :
    p.mlsagVer message pk rv dsRows = true ↔ ∀ image ∈ rv.II, image ≠ 0 := by
  obtain ⟨hfirst, hrest⟩ := rectangular hcols hpk
  have hverdict : p.mlsagVerdict message pk rv dsRows =
      (check (rv.II.all fun image => decide (image ≠ 0)) "Bad key image" >>= fun _ =>
        .ok true) := by
    dsimp only [mlsagVerdict]
    rw [check_decide hcols, hfirst, check_decide hrows, check_true hrest,
      check_decide hII, check_decide hss, check_true (by simpa using hcolumns), check_decide hds,
      verifyRounds_closed hclosed (fun _ _ => hscalar _), ok_bind, decide_eq_true (sub_self _)]
    rfl
  have himages : (rv.II.all fun image => decide (image ≠ 0)) = true ↔
      ∀ image ∈ rv.II, image ≠ 0 := by
    simp
  rw [mlsagVer, hverdict, ← himages]
  cases rv.II.all fun image => decide (image ≠ 0) with
  | false => exact Iff.rfl
  | true => exact Iff.rfl

theorem ring_signatures_complete (hpoint : ∀ x, p.hashToPoint x ≠ 0) :
    (∀ (message : K) (pubs : List (RingMember E)) (inSk : RingMember F) (cOut : F) (Cout : E)
      (index : Nat) (a : F) (skGen : Nat → F), index < pubs.length → inSk.dest ≠ 0 →
      inSk.mask - cOut ≠ 0 → (pubs.getD index ⟨0, 0⟩).dest = inSk.dest • p.G →
      (pubs.getD index ⟨0, 0⟩).mask - Cout = (inSk.mask - cOut) • p.G →
      ∃ sig, p.proveRctCLSAGSimple message pubs inSk cOut Cout index a skGen = .ok sig ∧
        p.verRctCLSAGSimple message sig pubs Cout = true) ∧
    ∀ (message : K) (pk : List (List E)) (xx : List F) (index dsRows rows : Nat)
      (skGen : Nat → F) (skvGen : Nat → Nat → F), 2 ≤ pk.length → 1 ≤ rows →
      (∀ column ∈ pk, column.length = rows) → xx.length = rows → dsRows ≤ rows →
      index < pk.length → (∀ j < rows, (pk.getD index []).getD j 0 = xx.getD j 0 • p.G) →
      ∃ sig, p.mlsagGen message pk xx index dsRows skGen skvGen = .ok sig ∧
        (p.mlsagVer message pk sig dsRows = true ↔ ∀ j < dsRows, xx.getD j 0 ≠ 0) := by
  refine ⟨?_, ?_⟩
  · intro message pubs inSk cOut Cout index a skGen hindex hp hz hdest hmask
    have hP : ∀ i < pubs.length, (pubs.map dest).getD i 0 = (pubs.getD i ⟨0, 0⟩).dest := by
      intro i hi
      simp [getD_eq_getElem?_getD, hi]
    have hC : ∀ i < pubs.length,
        (pubs.map fun k => k.mask - Cout).getD i 0 = (pubs.getD i ⟨0, 0⟩).mask - Cout := by
      intro i hi
      simp [getD_eq_getElem?_getD, hi]
    obtain ⟨s, c1, hgen, hchain⟩ := p.clsagGen_ok message (pubs.map dest) inSk.dest
      (pubs.map fun k => k.mask - Cout) (inSk.mask - cOut) (pubs.map mask) Cout index a
      skGen (by simp) (by simp) (by simpa using hindex) (by rw [hP index hindex, hdest])
      (by rw [hC index hindex, hmask])
    have hprove : p.proveRctCLSAGSimple message pubs inSk cOut Cout index a skGen =
        p.clsagGen message (pubs.map dest) inSk.dest (pubs.map fun k => k.mask - Cout)
          (inSk.mask - cOut) (pubs.map mask) Cout index a skGen := by
      cases pubs with
      | nil => cases hindex
      | cons k pubs => rfl
    rw [hgen] at hprove
    rw [length_map] at hprove hchain
    generalize hH : p.hashToPoint ((pubs.map dest).getD index 0) = H at *
    have hH0 : H ≠ 0 := hH ▸ hpoint _
    have hD8 : (8 : F) • p.invEight • (inSk.mask - cOut) • H = (inSk.mask - cOut) • H := by
      rw [smul_smul, p.eight_mul_invEight, one_smul]
    refine ⟨_, hprove, ?_⟩
    dsimp only [verRctCLSAGSimple, clsagVerdict, clsagPrepare] at hchain ⊢
    rw [hD8, check_decide (by omega), check_decide (by simp),
      check_decide (smul_ne_zero hp hH0), check_decide (smul_ne_zero hz hH0),
      verifyRounds_closed, ok_bind, decide_eq_true (sub_self _)]
    · rfl
    · refine (foldl_range_congr c1 ?_).trans hchain
      intro i hi c
      rw [hP i hi, hC i hi, getD_map_range s 0 hi]
    · exact fun _ _ => hscalar _
  · intro message pk xx index dsRows rows skGen skvGen hcols hrows hpk hxx hds hindex hopened
    obtain ⟨ss, cc, hgen, hlength, hclosed⟩ := p.mlsagGen_ok message pk xx index dsRows rows skGen
      skvGen hcols hrows hpk hxx hds hindex hopened
    refine ⟨_, hgen, ?_⟩
    rw [p.mlsagVer_of_closed hscalar message pk _ dsRows rows hcols hrows hpk (by simp) (by simp)
      (by simpa using fun i _ => hlength i) hds ?_]
    · constructor
      · intro himages j hj hzero
        refine himages _ (mem_map.mpr ⟨j, mem_range.mpr hj, rfl⟩) ?_
        rw [hzero, zero_smul]
      · intro hsecret image himage
        obtain ⟨j, hj, rfl⟩ := mem_map.mp himage
        exact smul_ne_zero (hsecret j (mem_range.mp hj)) (hpoint _)
    · refine (foldl_range_congr cc ?_).trans hclosed
      intro i hi c
      rw [getD_map_range ss [] hi]

end RingParams

theorem eight_mul_two : (8 : ZMod 3) * 2 = 1 := by decide

def sampleRing : RingParams (ZMod 3) (ZMod 3) (ZMod 3) where
  G := 1
  invEight := 2
  eight_mul_invEight := eight_mul_two
  encode := id
  hashKeyClsagAgg0 := 0
  hashKeyClsagAgg1 := 1
  hashKeyClsagRound := 2
  hashToScalar := fun l => if l.sum = 0 then 1 else l.sum
  hashToPoint := fun x => if x = 1 then 2 else 1

theorem sampleRing_hashes : (∀ l, sampleRing.hashToScalar l ≠ 0) ∧
    ∀ x, sampleRing.hashToPoint x ≠ 0 := by
  constructor
  · intro l
    dsimp only [sampleRing]
    split
    · decide
    · assumption
  · decide

theorem sample_ring_signatures :
    (∃ sig, sampleRing.proveRctCLSAGSimple 1 [⟨0, 1⟩, ⟨2, 2⟩, ⟨1, 0⟩] ⟨2, 1⟩ 2 0 1 1
        (fun i => i) = .ok sig ∧
      sampleRing.verRctCLSAGSimple 1 sig [⟨0, 1⟩, ⟨2, 2⟩, ⟨1, 0⟩] 0 = true) ∧
    ∃ sig, sampleRing.mlsagGen 1 [[1, 2], [2, 0]] [2, 0] 1 1 (fun i => i)
        (fun i j => i + j) = .ok sig ∧
      (sampleRing.mlsagVer 1 [[1, 2], [2, 0]] sig 1 = true ↔
        ∀ j < 1, [(2 : ZMod 3), 0].getD j 0 ≠ 0) :=
  have h := sampleRing.ring_signatures_complete sampleRing_hashes.1 sampleRing_hashes.2
  ⟨h.1 1 [⟨0, 1⟩, ⟨2, 2⟩, ⟨1, 0⟩] ⟨2, 1⟩ 2 0 1 1 (fun i => i) (by decide) (by decide) (by decide)
      (by decide) (by decide),
    h.2 1 [[1, 2], [2, 0]] [2, 0] 1 1 2 (fun i => i) (fun i j => i + j) (by decide) (by decide)
      (by decide) rfl (by decide) (by decide) (by decide)⟩

theorem zero_row_signature_rejected :
    ∃ sig, (∀ l, sampleRing.hashToScalar l ≠ 0) ∧ (∀ x, sampleRing.hashToPoint x ≠ 0) ∧
      (∀ j < 1, ([[0], [1]].getD 0 []).getD j 0 = [(0 : ZMod 3)].getD j 0 • sampleRing.G) ∧
      sampleRing.mlsagGen 1 [[0], [1]] [0] 0 1 (fun i => i) (fun i j => i + j) = .ok sig ∧
      sampleRing.mlsagVer 1 [[0], [1]] sig 1 = false := by
  refine ⟨⟨[[0], [1]], 1, [0]⟩, sampleRing_hashes.1, sampleRing_hashes.2, by decide, ?_, ?_⟩
  · decide +kernel
  · decide +kernel

end Jero.Ringct
