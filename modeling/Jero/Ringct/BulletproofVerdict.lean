import Jero.Ringct.BulletproofBatch

namespace Jero.Ringct
open Jero.Machine List Except MultiexpData WeightedBatch

def BulletproofPlus.WellSized {F E : Type} (proof : BulletproofPlus F E) : Prop :=
  1 ≤ proof.V.length ∧ proof.V.length ≤ maxM ∧ proof.L.length = proof.R.length ∧
    proof.L.length = logN + Nat.clog 2 proof.V.length

theorem logMFor_eq {size : Nat} (hpos : 1 ≤ size) (hle : size ≤ maxM) :
    logMFor size = Nat.clog 2 size := by
  have hall : ∀ size ≤ 16, 1 ≤ size → logMFor size = Nat.clog 2 size := by decide +kernel
  exact hall size hle hpos

theorem clog_le_four {size : Nat} (hle : size ≤ maxM) : Nat.clog 2 size ≤ 4 :=
  Nat.clog_le_of_le_pow hle

namespace BulletproofParams
variable {F E : Type} [Field F] [AddCommGroup E] [Module F E] (p : BulletproofParams F E)

def roundTranscript (transcript : Key F E) : List (E × E) → List F × Key F E
  | [] => ([], transcript)
  | lr :: rest =>
    let challenge := p.transcriptUpdate transcript [.point lr.1, .point lr.2]
    (challenge :: (roundTranscript (.scalar challenge) rest).1,
      (roundTranscript (.scalar challenge) rest).2)

def yOf (V : List E) (A : E) : F :=
  p.transcriptUpdate (.scalar (p.transcriptUpdate (.point p.initialTranscript)
    [.scalar (p.hashToScalar (V.map Key.point))])) [.point A]

def zOf (V : List E) (A : E) : F := p.hashToScalar [.scalar (p.yOf V A)]

def roundsOf (proof : BulletproofPlus F E) : List F × Key F E :=
  p.roundTranscript (.scalar (p.zOf proof.V proof.A)) (proof.L.zip proof.R)

def dataOf (invOffset : Nat) (proof : BulletproofPlus F E) : ProofData F where
  y := p.yOf proof.V proof.A
  z := p.zOf proof.V proof.A
  e := p.transcriptUpdate (p.roundsOf proof).2 [.point proof.A1, .point proof.B]
  challenges := (p.roundsOf proof).1
  logM := Nat.clog 2 proof.V.length
  invOffset := invOffset

structure Challenged (proof : BulletproofPlus F E) : Prop where
  y : (p.dataOf 0 proof).y ≠ 0
  z : (p.dataOf 0 proof).z ≠ 0
  rounds : ∀ x ∈ (p.dataOf 0 proof).challenges, x ≠ 0
  e : (p.dataOf 0 proof).e ≠ 0

theorem length_roundTranscript (transcript : Key F E) (l : List (E × E)) :
    (p.roundTranscript transcript l).1.length = l.length := by
  induction l generalizing transcript with
  | nil => rfl
  | cons lr rest ih => exact congrArg (· + 1) (ih _)

variable {proof : BulletproofPlus F E} {n : Nat} {pd : ProofData F}

theorem length_challenges (h : proof.WellSized) (invOffset : Nat) :
    (p.dataOf invOffset proof).challenges.length = (p.dataOf invOffset proof).rounds := by
  obtain ⟨-, -, hlr, hlen⟩ := h
  have hzip : (p.dataOf invOffset proof).challenges.length = (proof.L.zip proof.R).length :=
    p.length_roundTranscript _ _
  rw [hzip, length_zip, ← hlr, min_self, hlen, add_comm]
  rfl

theorem length_higi (n : Nat) :
    ((List.range n).flatMap fun i => [p.Gi i, p.Hi i]).length = 2 * n := by
  induction n with
  | zero => rfl
  | succ n ih =>
    rw [range_succ, flatMap_append, length_append, ih]
    rfl

theorem higi_covered (hn : n ≤ maxN * maxM) (f g : Nat → F) (after : List (MultiexpData E)) :
    CacheCovers p.higiCache (2 * n)
      ((List.range n).flatMap (fun i => [p.term (f i) (p.Gi i), p.term (g i) (p.Hi i)]) ++
        after) := by
  have hpoints : ((range n).flatMap (fun i =>
      [p.term (f i) (p.Gi i), p.term (g i) (p.Hi i)]) ++ after).map point =
      ((range n).flatMap fun i => [p.Gi i, p.Hi i]) ++ after.map point := by
    rw [map_append, map_flatMap]
    rfl
  obtain ⟨rest, hcache⟩ : ∃ rest, p.higiCache = ((List.range n).flatMap fun i => [p.Gi i, p.Hi i])
    ++ rest := by
    obtain ⟨m, hm⟩ := Nat.exists_eq_add_of_le hn
    refine ⟨((range m).map (n + ·)).flatMap fun i => [p.Gi i, p.Hi i], ?_⟩
    rw [higiCache, hm, range_add, flatMap_append]
  intro i d hi hd
  have hlt : i < ((range n).flatMap fun i => [p.Gi i, p.Hi i]).length := by
    rwa [p.length_higi]
  have hpoint := congrArg (Option.map point) hd
  rw [← getElem?_map, hpoints, getElem?_append_left hlt, Option.map_some] at hpoint
  rw [hcache, getElem?_append_left hlt, hpoint]

theorem le_higiCache (hn : n ≤ maxN * maxM) : 2 * n ≤ p.higiCache.length := by
  rw [higiCache, p.length_higi]
  exact Nat.mul_le_mul_left 2 hn

theorem dataSum_batchTerms (n : Nat) (acc : WeightedBatch F E) :
    dataSum (p.batchTerms n acc) = p.element n acc := by
  have hpairs : ∀ i, dataSum [p.term (acc.giScalars i) (p.Gi i), p.term (acc.hiScalars i) (p.Hi i)]
      = acc.giScalars i • p.Gi i + acc.hiScalars i • p.Hi i := fun i => p.dataSum_terms _ _ _ _
  rw [batchTerms, dataSum_append, dataSum_append, dataSum_range, p.dataSum_terms, element,
    Finset.sum_congr rfl fun i _ => hpairs i]
  abel

theorem bounded_batchTerms {acc : WeightedBatch F E} (h : Bounded acc.data) (n : Nat) :
    Bounded (p.batchTerms n acc) :=
  (bounded_flatMap (fun _ => p.bounded_cons (p.bounded_cons bounded_nil)) n).append
    (h.append (p.bounded_cons (p.bounded_cons bounded_nil)))

theorem inverses_of_slice {toInvert : List F} {before after : List F}
    (hsplit : toInvert = before ++ ((pd.challenges ++ [pd.y]) ++ after))
    (hlen : before.length = pd.invOffset) (hcount : pd.challenges.length = pd.rounds) :
    Inverses (toInvert.map (·⁻¹)) pd := by
  have hget : ∀ j, (toInvert.map (·⁻¹)).getD (pd.invOffset + j) 0 =
      (((pd.challenges ++ [pd.y]) ++ after).getD j 0)⁻¹ := by
    intro j
    rw [getD_eq_getElem?_getD, getD_eq_getElem?_getD, getElem?_map, hsplit,
      ← hlen, getElem?_append_right (Nat.le_add_right _ _), Nat.add_sub_cancel_left]
    cases ((pd.challenges ++ [pd.y]) ++ after)[j]? with
    | none => exact inv_zero.symm
    | some x => rfl
  constructor
  · intro j hj
    rw [hget, append_assoc, getD_append _ _ _ _ (hcount ▸ hj)]
    rfl
  · rw [hget, append_assoc, getD_append_right _ _ _ _ hcount.le, hcount, Nat.sub_self]
    rfl

structure BatchReads (proofs : List (BulletproofPlus F E)) (batch : BatchData F) : Prop where
  data : List.Forall₂ (fun proof pd => pd = p.dataOf pd.invOffset proof ∧ proof.WellSized)
    proofs batch.proofData
  offset : batch.toInvert.length = batch.invOffset
  slices : ∀ pd ∈ batch.proofData, ∃ before after,
    batch.toInvert = before ++ ((pd.challenges ++ [pd.y]) ++ after) ∧ before.length = pd.invOffset
  lengths : ∀ proof ∈ proofs, proof.L.length ≤ batch.maxLength
  bound : batch.maxLength ≤ 10
  nonzero : ∀ x ∈ batch.toInvert, x ≠ 0

variable {batch : List (BulletproofPlus F E × F)}

theorem batchReads_forall {read : BatchData F} (h : p.BatchReads (batch.map Prod.fst) read) :
    List.Forall₂ (fun x pd =>
      pd = p.dataOf pd.invOffset x.1 ∧ x.1.L.length = 6 + pd.logM ∧ pd.rounds ≤ 64 ∧
        Inverses (read.toInvert.map (·⁻¹)) pd ∧ 2 ^ pd.rounds ≤ 2 ^ read.maxLength)
      batch read.proofData := by
  have hdata := forall₂_map_left_iff.mp h.data
  refine (forall₂_iff_get.mpr ⟨hdata.length_eq, ?_⟩)
  intro i hi hpd
  obtain ⟨heq, hsized⟩ := forall₂_iff_get.mp hdata |>.2 i hi hpd
  obtain ⟨before, after, hsplit, hlen⟩ := h.slices _ (get_mem read.proofData ⟨i, hpd⟩)
  have hlength := h.lengths _ (mem_map_of_mem (get_mem batch ⟨i, hi⟩))
  have hlog : (read.proofData.get ⟨i, hpd⟩).logM = Nat.clog 2 (batch.get ⟨i, hi⟩).1.V.length := by
    rw [heq]
    rfl
  have hcount : (read.proofData.get ⟨i, hpd⟩).challenges.length =
      (read.proofData.get ⟨i, hpd⟩).rounds := by
    rw [heq]
    exact p.length_challenges hsized _
  obtain ⟨-, hle, -, hsize⟩ := hsized
  have hclog := clog_le_four hle
  have hrounds : (read.proofData.get ⟨i, hpd⟩).rounds = (batch.get ⟨i, hi⟩).1.L.length := by
    rw [ProofData.rounds, hlog, hsize, add_comm]
  refine ⟨heq, ?_, ?_, inverses_of_slice hsplit hlen hcount, ?_⟩
  · rw [hsize, hlog]
    rfl
  · rw [ProofData.rounds, hlog, logN]
    omega
  · rw [hrounds]
    exact Nat.pow_le_pow_right two_pos hlength

theorem element_empty (n : Nat) : p.element n WeightedBatch.empty = 0 := by
  have hzero : ∀ i ∈ Finset.range n, (empty : WeightedBatch F E).giScalars i • p.Gi i +
      (empty : WeightedBatch F E).hiScalars i • p.Hi i = 0 := by
    intro i _
    rw [empty, zero_smul, zero_smul, add_zero]
  rw [element, Finset.sum_eq_zero hzero, empty, zero_smul, zero_smul]
  simp [dataSum]

def weightedResiduals (batch : List (BulletproofPlus F E × F)) : E :=
  (batch.map fun x => x.2 • p.residual x.1 (p.dataOf 0 x.1)).sum

theorem weightedResiduals_split (before after : List (BulletproofPlus F E × F))
    (proof : BulletproofPlus F E) (w : F) :
    p.weightedResiduals (before ++ (proof, w) :: after) =
      w • p.residual proof (p.dataOf 0 proof) + p.weightedResiduals (before ++ after) := by
  simp only [weightedResiduals, map_append, map_cons, sum_append, sum_cons]
  abel

theorem two_ne_zero_of_params (p : BulletproofParams F E) : (2 : F) ≠ 0 := by
  intro htwo
  have hone := p.eight_mul_invEight
  rw [show (8 : F) = 2 * 4 by norm_num, htwo, zero_mul, zero_mul] at hone
  exact zero_ne_one hone

variable [DecidableEq F]

theorem roundChallenges_ok_iff {transcript : Key F E} {l : List (E × E)} {r : List F × Key F E} :
    p.roundChallenges transcript l = .ok r ↔
      (∀ x ∈ (p.roundTranscript transcript l).1, x ≠ 0) ∧ r = p.roundTranscript transcript l := by
  induction l generalizing transcript r with
  | nil =>
    constructor
    · intro h
      exact ⟨fun x hx => (nomatch hx), (ok.inj h).symm⟩
    · rintro ⟨-, rfl⟩
      rfl
  | cons lr rest ih =>
    rw [roundChallenges, check_bind_ok_iff, bind_ok_iff, decide_eq_true_iff, roundTranscript]
    constructor
    · rintro ⟨hne, tail, htail, hr⟩
      obtain ⟨hrest, rfl⟩ := ih.mp htail
      exact ⟨forall_mem_cons.mpr ⟨hne, hrest⟩, (ok.inj hr).symm⟩
    · rintro ⟨hall, rfl⟩
      obtain ⟨hne, hrest⟩ := forall_mem_cons.mp hall
      exact ⟨hne, _, ih.mpr ⟨hrest, rfl⟩, rfl⟩

theorem readProof_ok_iff {invOffset : Nat} :
    p.readProof invOffset proof = .ok pd ↔
      (proof.WellSized ∧ p.Challenged proof) ∧ pd = p.dataOf invOffset proof := by
  rw [readProof]
  simp only [check_bind_ok_iff, decide_eq_true_iff]
  rw [bind_ok_iff]
  simp only [check_bind_ok_iff, decide_eq_true_iff, p.roundChallenges_ok_iff]
  constructor
  · rintro ⟨hpos, hle, hlr, -, hy, hz, hlen, -, rounds, ⟨hall, rfl⟩, he, hpd⟩
    rw [logMFor_eq hpos hle] at hlen hpd
    exact ⟨⟨⟨hpos, hle, hlr, hlen⟩, hy, hz, hall, he⟩, (ok.inj hpd).symm⟩
  · rintro ⟨⟨⟨hpos, hle, hlr, hlen⟩, hc⟩, rfl⟩
    rw [logMFor_eq hpos hle]
    refine ⟨hpos, hle, hlr, ?_, hc.y, hc.z, hlen, Nat.succ_pos _, _, ⟨hc.rounds, rfl⟩, hc.e, rfl⟩
    rw [hlen]
    exact Nat.lt_of_lt_of_le (by decide) (Nat.le_add_right logN _)

section
variable {proofs : List (BulletproofPlus F E)} {batch : BatchData F}

theorem BatchReads.step {next : BatchData F} (h : p.BatchReads proofs batch)
    (hstep : p.readProofStep batch proof = .ok next) : p.BatchReads (proofs ++ [proof]) next := by
  obtain ⟨pd, hread, hnext⟩ := bind_ok hstep
  obtain rfl := ok.inj hnext
  obtain ⟨⟨hsized, hchallenged⟩, rfl⟩ := p.readProof_ok_iff.mp hread
  have hcount := p.length_challenges hsized batch.invOffset
  refine ⟨?_, ?_, ?_, ?_, ?_, ?_⟩
  · exact rel_append h.data (.cons ⟨rfl, hsized⟩ .nil)
  · rw [length_append, length_append, h.offset, hcount]
    rfl
  · intro pd hpd
    rcases mem_append.mp hpd with hold | hnew
    · obtain ⟨before, after, hsplit, hlen⟩ := h.slices pd hold
      refine ⟨before, after ++ ((p.dataOf batch.invOffset proof).challenges ++
        [(p.dataOf batch.invOffset proof).y]), ?_, hlen⟩
      rw [hsplit, append_assoc, append_assoc]
    · obtain rfl := mem_singleton.mp hnew
      exact ⟨batch.toInvert, [], by rw [append_nil], h.offset⟩
  · intro q hq
    rcases mem_append.mp hq with hold | hnew
    · exact (h.lengths q hold).trans (Nat.le_max_left _ _)
    · obtain rfl := mem_singleton.mp hnew
      exact Nat.le_max_right _ _
  · obtain ⟨-, hle, -, hlen⟩ := hsized
    have hclog := clog_le_four hle
    refine Nat.max_le.mpr ⟨h.bound, ?_⟩
    rw [hlen, logN]
    omega
  · intro x hx
    rcases mem_append.mp hx with hold | hnew
    · exact h.nonzero x hold
    · rcases mem_append.mp hnew with hround | hy
      · exact hchallenged.rounds x hround
      · obtain rfl := mem_singleton.mp hy
        exact hchallenged.y

theorem BatchReads.run {done : List (BulletproofPlus F E)} {final : BatchData F}
    (h : p.BatchReads done batch) (hrun : proofs.foldlM p.readProofStep batch = .ok final) :
    p.BatchReads (done ++ proofs) final := by
  induction proofs generalizing done batch with
  | nil =>
    obtain rfl := ok.inj hrun
    rwa [append_nil]
  | cons proof proofs ih =>
    rw [foldlM_cons] at hrun
    obtain ⟨next, hstep, hrest⟩ := bind_ok hrun
    have hall := ih (h.step p hstep) hrest
    rwa [append_assoc] at hall

theorem readProofs_reads (h : p.readProofs proofs = .ok batch) : p.BatchReads proofs batch := by
  have hempty : p.BatchReads [] .empty :=
    ⟨.nil, rfl, fun _ h => (nomatch h), fun _ h => (nomatch h), Nat.zero_le _,
      fun _ h => (nomatch h)⟩
  exact hempty.run p h

theorem readProofs_acceptable (h : ∃ final, proofs.foldlM p.readProofStep batch = .ok final) :
    ∀ proof ∈ proofs, proof.WellSized ∧ p.Challenged proof := by
  induction proofs generalizing batch with
  | nil => exact fun _ hmem => (nomatch hmem)
  | cons proof proofs ih =>
    obtain ⟨final, hfinal⟩ := h
    rw [foldlM_cons] at hfinal
    obtain ⟨next, hstep, hrest⟩ := bind_ok hfinal
    obtain ⟨pd, hread, -⟩ := bind_ok hstep
    exact forall_mem_cons.mpr ⟨(p.readProof_ok_iff.mp hread).1, ih ⟨final, hrest⟩⟩

end

theorem readProofs_complete {proofs : List (BulletproofPlus F E)}
    (h : ∀ proof ∈ proofs, proof.WellSized ∧ p.Challenged proof) (batch : BatchData F) :
    ∃ final, proofs.foldlM p.readProofStep batch = .ok final := by
  induction proofs generalizing batch with
  | nil => exact ⟨batch, rfl⟩
  | cons proof proofs ih =>
    obtain ⟨hproof, hrest⟩ := forall_mem_cons.mp h
    have hread : p.readProof batch.invOffset proof = .ok (p.dataOf batch.invOffset proof) :=
      p.readProof_ok_iff.mpr ⟨hproof, rfl⟩
    rw [foldlM_cons, readProofStep, hread, ok_bind]
    exact ih hrest _

theorem accumulate_run {inverses : List F} {pds : List (ProofData F)}
    (hall : List.Forall₂ (fun x pd => pd = p.dataOf pd.invOffset x.1 ∧ x.1.L.length = 6 + pd.logM ∧
      pd.rounds ≤ 64 ∧ Inverses inverses pd ∧ 2 ^ pd.rounds ≤ n) batch pds)
    (acc : WeightedBatch F E) (hacc : Bounded acc.data) :
    ∃ final, (batch.zip pds).foldlM (p.accumulate inverses) acc = .ok final ∧
      Bounded final.data ∧ p.element n final = p.element n acc + p.weightedResiduals batch := by
  induction hall generalizing acc with
  | nil => exact ⟨acc, rfl, hacc, (add_zero _).symm⟩
  | @cons x pd batch pds hx _ ih =>
    obtain ⟨proof, weight⟩ := x
    obtain ⟨hpd, hsize, hlog, hinv, hn⟩ := hx
    have hbounded : Bounded (p.accumulated inverses acc proof weight pd).data :=
      hacc.append (p.bounded_stepData inverses proof weight pd)
    obtain ⟨final, hrun, hfinal, hsum⟩ := ih _ hbounded
    have hresidual : p.residual proof pd = p.residual proof (p.dataOf 0 proof) := by
      rw [hpd]
      rfl
    refine ⟨final, ?_, hfinal, ?_⟩
    · rw [zip_cons_cons, foldlM_cons, p.accumulate_eq inverses acc proof weight pd hsize,
        ok_bind, hrun]
    · rw [hsum, p.element_accumulated acc proof weight hinv hlog hn, hresidual, add_assoc]
      rfl

theorem testedElement_of_acceptable
    (h : ∀ x ∈ batch, x.1.WellSized ∧ p.Challenged x.1) :
    p.testedElement batch = .ok (p.weightedResiduals batch) := by
  obtain ⟨read, hread⟩ := p.readProofs_complete (forall_mem_map.mpr h) .empty
  have hreads := p.readProofs_reads hread
  have hbound := hreads.bound
  have hshort : read.maxLength < 32 := by omega
  have hsize : 2 ^ read.maxLength ≤ maxN * maxM :=
    (Nat.pow_le_pow_right two_pos hbound).trans (by decide)
  obtain ⟨final, hrun, hfinal, hsum⟩ :=
    p.accumulate_run (p.batchReads_forall hreads) .empty bounded_nil
  rw [p.element_empty, zero_add] at hsum
  rw [testedElement, readProofs, hread, ok_bind, check_decide hshort,
    invertBatch_eq hreads.nonzero, ok_bind, hrun, ok_bind,
    multiexp_eq (p.bounded_batchTerms hfinal _) (p.le_higiCache hsize) (p.higi_covered hsize _ _ _),
    p.dataSum_batchTerms, hsum]

theorem testedElement_ok_iff {r : E} :
    p.testedElement batch = .ok r ↔
      (∀ x ∈ batch, x.1.WellSized ∧ p.Challenged x.1) ∧ r = p.weightedResiduals batch := by
  constructor
  · intro h
    obtain ⟨read, hread, -⟩ := bind_ok h
    have hall := forall_mem_map.mp (p.readProofs_acceptable ⟨read, hread⟩)
    rw [p.testedElement_of_acceptable hall] at h
    exact ⟨hall, (ok.inj h).symm⟩
  · rintro ⟨hall, rfl⟩
    exact p.testedElement_of_acceptable hall

def soleElement (proof : BulletproofPlus F E) : Option E :=
  (p.testedElement [(proof, 1)]).toOption

theorem soleElement_eq_some_iff {r : E} :
    p.soleElement proof = some r ↔
      (proof.WellSized ∧ p.Challenged proof) ∧ r = p.residual proof (p.dataOf 0 proof) := by
  have hoption : p.soleElement proof = some r ↔ p.testedElement [(proof, 1)] = .ok r := by
    rw [soleElement]
    cases p.testedElement [(proof, 1)] with
    | error message => exact ⟨fun h => (nomatch h), fun h => (nomatch h)⟩
    | ok a => exact ⟨fun h => congrArg ok (Option.some.inj h), fun h => congrArg some (ok.inj h)⟩
  have hsingle : p.weightedResiduals [(proof, 1)] = p.residual proof (p.dataOf 0 proof) := by
    rw [weightedResiduals, map_singleton, sum_singleton, one_smul]
  rw [hoption, p.testedElement_ok_iff, hsingle, forall_mem_singleton]

variable [DecidableEq E]

theorem verify_iff :
    p.bulletproofPlusVerify batch = true ↔
      (∀ x ∈ batch, x.1.WellSized ∧ p.Challenged x.1) ∧ p.weightedResiduals batch = 0 := by
  rw [bulletproofPlusVerify]
  cases hresult : p.testedElement batch with
  | error message =>
    constructor
    · intro h
      cases h
    · rintro ⟨hall, -⟩
      rw [p.testedElement_of_acceptable hall] at hresult
      cases hresult
  | ok r =>
    obtain ⟨hall, rfl⟩ := p.testedElement_ok_iff.mp hresult
    rw [decide_eq_true_iff]
    exact ⟨fun h => ⟨hall, h⟩, fun h => h.2⟩

theorem verify_iff_weighted :
    p.bulletproofPlusVerify batch = true ↔
      ∃ rs, batch.map (fun x => p.soleElement x.1) = rs.map some ∧
        (List.zipWith (fun x r => x.2 • r) batch rs).sum = 0 := by
  have hsum : ∀ l : List (BulletproofPlus F E × F),
      (zipWith (fun x r => x.2 • r) l
        (l.map fun x => p.residual x.1 (p.dataOf 0 x.1))).sum = p.weightedResiduals l := by
    intro l
    rw [zipWith_map_right, zipWith_self]
    rfl
  rw [p.verify_iff]
  constructor
  · rintro ⟨hall, hzero⟩
    refine ⟨batch.map fun x => p.residual x.1 (p.dataOf 0 x.1), ?_, ?_⟩
    · rw [map_map]
      exact map_congr_left fun x hx => p.soleElement_eq_some_iff.mpr ⟨hall x hx, rfl⟩
    · rw [hsum, hzero]
  · rintro ⟨rs, hrs, hzero⟩
    have hboth : (∀ x ∈ batch, x.1.WellSized ∧ p.Challenged x.1) ∧
        rs = batch.map fun x => p.residual x.1 (p.dataOf 0 x.1) := by
      clear hzero
      induction batch generalizing rs with
      | nil =>
        cases rs with
        | nil => exact ⟨fun _ h => (nomatch h), rfl⟩
        | cons r rs => cases hrs
      | cons x batch ih =>
        cases rs with
        | nil => cases hrs
        | cons r rs =>
          obtain ⟨hhead, htail⟩ := cons.inj hrs
          obtain ⟨hx, rfl⟩ := p.soleElement_eq_some_iff.mp hhead
          obtain ⟨hall, rfl⟩ := ih rs htail
          exact ⟨forall_mem_cons.mpr ⟨hx, hall⟩, rfl⟩
    obtain ⟨hall, rfl⟩ := hboth
    rw [hsum] at hzero
    exact ⟨hall, hzero⟩

theorem weight_unique {before after : List (BulletproofPlus F E × F)} {w w' : F}
    (hne : p.soleElement proof ≠ some 0)
    (h : p.bulletproofPlusVerify (before ++ (proof, w) :: after) = true)
    (h' : p.bulletproofPlusVerify (before ++ (proof, w') :: after) = true) : w = w' := by
  obtain ⟨hall, hzero⟩ := p.verify_iff.mp h
  obtain ⟨-, hzero'⟩ := p.verify_iff.mp h'
  rw [p.weightedResiduals_split] at hzero hzero'
  have hproof := hall (proof, w) (mem_append_right before mem_cons_self)
  have hresidual : p.residual proof (p.dataOf 0 proof) ≠ 0 := by
    intro hres
    exact hne (p.soleElement_eq_some_iff.mpr ⟨hproof, hres.symm⟩)
  have hdiff : (w - w') • p.residual proof (p.dataOf 0 proof) = 0 := by
    rw [sub_smul, add_right_cancel (hzero.trans hzero'.symm), sub_self]
  rcases smul_eq_zero.mp hdiff with hw | hres
  · exact sub_eq_zero.mp hw
  · exact absurd hres hresidual

theorem batch_verdict_is_weighted_sum :
    (∀ proof, p.soleElement proof = (p.testedElement [(proof, 1)]).toOption) ∧
      (∀ proof, (p.soleElement proof).isSome = true ↔
        proof.WellSized ∧ p.Challenged proof) ∧
      (∀ batch, p.bulletproofPlusVerify batch = true ↔
        ∃ rs, batch.map (fun x => p.soleElement x.1) = rs.map some ∧
          (List.zipWith (fun x r => x.2 • r) batch rs).sum = 0) ∧
      (∀ proofs, (∀ batch : List (BulletproofPlus F E × F), batch.map Prod.fst = proofs →
          (∀ x ∈ batch, x.2 ≠ 0) → p.bulletproofPlusVerify batch = true) ↔
        ∀ proof ∈ proofs, ∀ w : F, w ≠ 0 → p.bulletproofPlusVerify [(proof, w)] = true) ∧
      ∀ before after proof (w w' : F), p.soleElement proof ≠ some 0 →
        p.bulletproofPlusVerify (before ++ (proof, w) :: after) = true →
        p.bulletproofPlusVerify (before ++ (proof, w') :: after) = true → w = w' := by
  refine ⟨fun _ => rfl, ?_, fun _ => p.verify_iff_weighted, ?_, fun _ _ _ _ _ => p.weight_unique⟩
  · intro proof
    rw [Option.isSome_iff_exists]
    constructor
    · rintro ⟨r, hr⟩
      exact (p.soleElement_eq_some_iff.mp hr).1
    · intro h
      exact ⟨_, p.soleElement_eq_some_iff.mpr ⟨h, rfl⟩⟩
  · intro proofs
    constructor
    · intro h proof hproof w hw
      obtain ⟨before, after, rfl⟩ := append_of_mem hproof
      have hbatch : ∀ c : F, c ≠ 0 → p.bulletproofPlusVerify
          (before.map (·, 1) ++ (proof, c) :: after.map (·, 1)) = true := by
        intro c hc
        refine h _ ?_ ?_
        · simp [map_map, Function.comp_def]
        · intro x hx
          rcases mem_append.mp hx with hx | hx
          · obtain ⟨q, -, rfl⟩ := mem_map.mp hx
            exact one_ne_zero
          · rcases mem_cons.mp hx with rfl | hx
            · exact hc
            · obtain ⟨q, -, rfl⟩ := mem_map.mp hx
              exact one_ne_zero
      have hone := hbatch 1 one_ne_zero
      have htwo := hbatch 2 p.two_ne_zero_of_params
      have hsole : p.soleElement proof = some 0 := by
        by_contra hne
        have hsame := p.weight_unique hne hone htwo
        rw [← one_add_one_eq_two, left_eq_add] at hsame
        exact one_ne_zero hsame
      obtain ⟨hacceptable, hzero⟩ := p.soleElement_eq_some_iff.mp hsole
      rw [p.verify_iff, forall_mem_singleton, weightedResiduals, map_singleton,
        sum_singleton, ← hzero, smul_zero]
      exact ⟨hacceptable, rfl⟩
    · rintro h batch rfl -
      have hone : ∀ x ∈ batch, (x.1.WellSized ∧ p.Challenged x.1) ∧
          p.residual x.1 (p.dataOf 0 x.1) = 0 := by
        intro x hx
        obtain ⟨hall, hzero⟩ := p.verify_iff.mp
          (h x.1 (mem_map_of_mem hx) 1 one_ne_zero)
        rw [weightedResiduals, map_singleton, sum_singleton, one_smul] at hzero
        exact ⟨hall (x.1, 1) mem_cons_self, hzero⟩
      refine p.verify_iff.mpr ⟨fun x hx => (hone x hx).1, ?_⟩
      refine sum_eq_zero ?_
      intro r hr
      obtain ⟨x, hx, rfl⟩ := mem_map.mp hr
      rw [(hone x hx).2, smul_zero]

end BulletproofParams
end Jero.Ringct
