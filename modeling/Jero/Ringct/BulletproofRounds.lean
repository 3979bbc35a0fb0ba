import Jero.Ringct.BulletproofProve
import Jero.Ringct.BulletproofVerdict

namespace Jero.Ringct
open Jero.Algebra Jero.Machine List Function
variable {n i k : Nat}
section
variable {F : Type}

theorem slice_low {a : Vec F} (hn : 0 < n) (h : a.size = 2 * n) : slice a 0 n = .ok ⟨n, a.get⟩ := by
  rw [slice, check_decide (by omega), check_decide (by omega), check_decide hn]
  simp only [zero_add]
  rfl

theorem slice_high {a : Vec F} (hn : 0 < n) (h : a.size = 2 * n) :
    slice a n a.size = .ok ⟨n, upper n a.get⟩ := by
  have hrest : a.size - n = n := by omega
  rw [slice, check_decide (by omega), check_decide le_rfl, check_decide (by omega), hrest]
  rfl

end
section
variable {F : Type} [Field F]

theorem vectorScalar_mk (n : Nat) (f : Nat → F) (x : F) :
    vectorScalar ⟨n, f⟩ x = ⟨n, fun i => f i * x⟩ := rfl

theorem vectorAdd_mk (n : Nat) (f g : Nat → F) :
    vectorAdd ⟨n, f⟩ ⟨n, g⟩ = .ok ⟨n, fun i => f i + g i⟩ := by
  rw [vectorAdd, check_decide rfl]
  rfl

theorem weightedInnerProduct_mk (n : Nat) (f g : Nat → F) (y : F) :
    weightedInnerProduct ⟨n, f⟩ ⟨n, g⟩ y = .ok (weightedPairing n y f g) := by
  have hloop : ∀ m, (range m).foldl
      (fun (acc : F × F) i => (f i * g i * (acc.2 * y) + acc.1, acc.2 * y)) (0, 1) =
        (weightedPairing m y f g, y ^ m) := by
    intro m
    induction m with
    | zero => rw [range_zero, foldl_nil, weightedPairing, Finset.sum_range_zero, pow_zero]
    | succ m ih =>
      rw [range_succ, foldl_append, ih, foldl_cons, foldl_nil, weightedPairing,
        weightedPairing, Finset.sum_range_succ, ← pow_succ, add_comm]
  rw [weightedInnerProduct, check_decide rfl, hloop]
  rfl

theorem hadamardFold_eq {E : Type} [AddCommGroup E] [Module F E] {v : Vec E} (h : v.size = 2 * n)
    (a b : F) :
    ∃ g, hadamardFold v a b = .ok ⟨n, g⟩ ∧ ∀ i < n, g i = a • v.get i + b • upper n v.get i := by
  have hhalf : v.size / 2 = n := by omega
  have heven : v.size &&& 1 = 0 := by
    rw [Nat.and_one_is_mod]
    omega
  have hloop : ∀ m ≤ n, ∀ i, (range m).foldl
      (fun g k => update g k (a • g k + b • g (n + k))) v.get i =
        if i < m then a • v.get i + b • upper n v.get i else v.get i := by
    intro m
    induction m with
    | zero =>
      intro _ i
      rw [range_zero, foldl_nil, if_neg (Nat.not_lt_zero i)]
    | succ m ih =>
      intro hm i
      have hprev := ih (Nat.le_of_succ_le hm)
      rw [range_succ, foldl_append, foldl_cons, foldl_nil, hprev m,
        hprev (n + m), if_neg (lt_irrefl m), if_neg (by omega)]
      by_cases hi : i = m
      · rw [hi, update_self, if_pos (Nat.lt_succ_self m)]
        rfl
      · rw [update_of_ne hi, hprev i]
        exact if_congr (by omega) rfl rfl
  refine ⟨_, ?_, fun i hi => (hloop n le_rfl i).trans (if_pos hi)⟩
  rw [hadamardFold, check_decide heven, hhalf]
  rfl

theorem vectorOfScalarPowers_eq (x : F) (hn : 2 ≤ n) :
    ∃ powers, vectorOfScalarPowers x n = .ok powers ∧ ∀ i < n, powers i = x ^ i := by
  have hloop : ∀ m i, i < m + 2 → (range m).foldl
      (fun res i => update res (i + 2) (res (i + 1) * x))
        (update (update (fun _ => (0 : F)) 0 1) 1 x) i = x ^ i := by
    intro m
    induction m with
    | zero =>
      intro i hi
      rw [range_zero, foldl_nil]
      interval_cases i
      · rw [update_of_ne zero_ne_one, update_self, pow_zero]
      · rw [update_self, pow_one]
    | succ m ih =>
      intro i hi
      rw [range_succ, foldl_append, foldl_cons, foldl_nil]
      by_cases hlast : i = m + 2
      · rw [hlast, update_self, ih (m + 1) (Nat.lt_succ_self _), ← pow_succ]
      · rw [update_of_ne hlast, ih i (by omega)]
  refine ⟨_, ?_, fun i hi => hloop (n - 2) i (by omega)⟩
  rw [vectorOfScalarPowers, check_decide (by omega), if_neg (by omega)]
  rfl

theorem inversePowers_eq (yinv : F) (n : Nat) (hi : i < n) : inversePowers yinv n i = yinv ^ i := by
  have hloop : ∀ m i, i ≤ m → (range m).foldl
      (fun res i => update res (i + 1) (res i * yinv))
        (update (fun _ => 0) 0 1) i = yinv ^ i := by
    intro m
    induction m with
    | zero =>
      intro i hi
      obtain rfl := Nat.le_zero.mp hi
      rw [range_zero, foldl_nil, update_self, pow_zero]
    | succ m ih =>
      intro i hi
      rw [range_succ, foldl_append, foldl_cons, foldl_nil]
      by_cases hlast : i = m + 1
      · rw [hlast, update_self, ih m le_rfl, ← pow_succ]
      · rw [update_of_ne hlast, ih i (by omega)]
  exact hloop (n - 1) i (by omega)

end
namespace BulletproofParams
variable {F E : Type} [Field F] [AddCommGroup E] [Module F E] (p : BulletproofParams F E)

theorem multiexp_terms {data : List (MultiexpData E)} (h : Bounded data) :
    multiexp p.higiCache data 0 = .ok (dataSum data) :=
  multiexp_eq h (Nat.zero_le _) fun _ _ hi => absurd hi (Nat.not_lt_zero _)

theorem eight_cancel (x : F) : 8 * (x * p.invEight) = x := by
  calc 8 * (x * p.invEight) = x * (8 * p.invEight) := by ring
    _ = x := by rw [p.eight_mul_invEight, mul_one]

theorem scalarmult8_term (x : F) (point : E) :
    scalarmult8 (F := F) ((x * p.invEight) • point) = x • point := by
  rw [scalarmult8, smul_smul, p.eight_cancel]

theorem scalarmult8_invEight (P : E) : scalarmult8 (F := F) (p.invEight • P) = P := by
  rw [scalarmult8, smul_smul, p.eight_mul_invEight, one_smul]

theorem scalarmult8_add (P Q : E) : scalarmult8 (F := F) (P + Q) =
    scalarmult8 (F := F) P + scalarmult8 (F := F) Q := smul_add _ _ _

theorem dataSum_pairs (n : Nat) (a b : Nat → F) (G H : Nat → E) :
    dataSum ((List.range n).flatMap fun i => [p.term (a i) (G i), p.term (b i) (H i)]) =
      pairing n a G + pairing n b H := by
  rw [dataSum_range, pairing, pairing, ← Finset.sum_add_distrib]
  exact Finset.sum_congr rfl fun i _ => p.dataSum_terms _ _ _ _

theorem bounded_pairs (n : Nat) (a b : Nat → F) (G H : Nat → E) :
    Bounded ((List.range n).flatMap fun i => [p.term (a i) (G i), p.term (b i) (H i)]) :=
  bounded_flatMap (fun _ => p.bounded_cons (p.bounded_cons bounded_nil)) n

theorem vectorExponent_eq {a b : Vec F} (hsize : a.size = b.size) (hle : a.size ≤ maxN * maxM) :
    p.vectorExponent a b = .ok (pairing a.size a.get p.Gi + pairing a.size b.get p.Hi) := by
  have hcovered := p.higi_covered hle a.get b.get []
  rw [append_nil] at hcovered
  rw [vectorExponent, check_decide hsize, check_decide hle,
    multiexp_eq (p.bounded_pairs _ _ _ _ _) (p.le_higiCache hle) hcovered, p.dataSum_pairs]

theorem upper_zero {α : Type} (f : Nat → α) : upper 0 f = f := by
  funext i
  rw [upper, zero_add]

theorem computeLR_eq {size G0 H0 a0 b0 : Nat} {G H : Vec E} {a b : Vec F} (y c d : F)
    (hG : size + G0 ≤ G.size) (hH : size + H0 ≤ H.size) (ha : size + a0 ≤ a.size)
    (hb : size + b0 ≤ b.size) (hsize : size ≤ maxN * maxM) :
    p.computeLR size y G G0 H H0 a a0 b b0 c d =
      .ok (p.invEight • (y • pairing size (upper a0 a.get) (upper G0 G.get) +
        pairing size (upper b0 b.get) (upper H0 H.get) + c • p.H + d • p.G)) := by
  have hsum := p.dataSum_pairs size (fun i => upper a0 a.get i * y * p.invEight)
    (fun i => upper b0 b.get i * p.invEight) (upper G0 G.get) (upper H0 H.get)
  rw [pairing_mul_left, pairing_mul_left, pairing_mul_left] at hsum
  rw [computeLR, check_decide hG, check_decide hH, check_decide ha, check_decide hb,
    check_decide hsize, p.multiexp_terms
      ((p.bounded_pairs _ _ _ _ _).append (p.bounded_cons (p.bounded_cons bounded_nil))),
    dataSum_append, p.dataSum_terms]
  refine congrArg Except.ok ((congrArg (· + _) hsum).trans ?_)
  module

structure Sized (n : Nat) (st : ProverState F E) : Prop where
  a : st.aprime.size = n
  b : st.bprime.size = n
  G : st.Gprime.size = n
  H : st.Hprime.size = n

structure Folded (n : Nat) (yn : F) (x dL dR : F) (L R : E) (st next : ProverState F E) :
    Prop where
  sized : Sized n next
  a : ∀ i < n, next.aprime.get i = st.aprime.get i * x + upper n st.aprime.get i * (x⁻¹ * yn)
  b : ∀ i < n, next.bprime.get i = st.bprime.get i * x⁻¹ + upper n st.bprime.get i * x
  G : ∀ i < n, next.Gprime.get i = x⁻¹ • st.Gprime.get i + (yn⁻¹ * x) • upper n st.Gprime.get i
  H : ∀ i < n, next.Hprime.get i = x • st.Hprime.get i + x⁻¹ • upper n st.Hprime.get i
  alpha1 : next.alpha1 = dR * (x⁻¹ * x⁻¹) + (dL * (x * x) + st.alpha1)
  transcript : next.transcript = .scalar x
  L : next.L = st.L ++ [L]
  R : next.R = st.R ++ [R]

def statement (y : F) (n : Nat) (st : ProverState F E) : E :=
  pairing n st.aprime.get st.Gprime.get + pairing n st.bprime.get st.Hprime.get +
    weightedPairing n y st.aprime.get st.bprime.get • p.H + st.alpha1 • p.G

def leftTerm (y : F) (n : Nat) (dL : F) (st : ProverState F E) : E :=
  (y ^ n)⁻¹ • pairing n st.aprime.get (upper n st.Gprime.get) +
    pairing n (upper n st.bprime.get) st.Hprime.get +
    weightedPairing n y st.aprime.get (upper n st.bprime.get) • p.H + dL • p.G

def rightTerm (y : F) (n : Nat) (dR : F) (st : ProverState F E) : E :=
  y ^ n • pairing n (upper n st.aprime.get) st.Gprime.get +
    pairing n st.bprime.get (upper n st.Hprime.get) +
    (y ^ n * weightedPairing n y (upper n st.aprime.get) st.bprime.get) • p.H + dR • p.G

variable {st next : ProverState F E} {x : F}

theorem statement_fold {y dL dR : F} (hy : y ≠ 0) (hx : x ≠ 0) {L R : E}
    (h : Folded n (y ^ n) x dL dR L R st next) :
    p.statement y n next = p.statement y (2 * n) st + (x * x) • p.leftTerm y n dL st +
      (x⁻¹ * x⁻¹) • p.rightTerm y n dR st := by
  have hweighted : weightedPairing n y next.aprime.get next.bprime.get =
      weightedPairing n y (fun i => st.aprime.get i * x + upper n st.aprime.get i * (x⁻¹ * y ^ n))
        (fun i => st.bprime.get i * x⁻¹ + upper n st.bprime.get i * x) :=
    weightedPairing_congr y h.a h.b
  rw [statement, statement, leftTerm, rightTerm, hweighted, h.alpha1, pairing_congr h.a h.G,
    pairing_congr h.b h.H, pairing_fold, pairing_fold, weightedPairing_fold, pairing_split,
    pairing_split, weightedPairing_split]
  match_scalars <;> field_simp <;> ring

def crossFold (xs : List F) (L R : List E) (k : Nat) : E :=
  ∑ j ∈ Finset.range k,
    ((xs.getD j 0 * xs.getD j 0) • scalarmult8 (F := F) (L.getD j 0) +
      ((xs.getD j 0)⁻¹ * (xs.getD j 0)⁻¹) • scalarmult8 (F := F) (R.getD j 0))

theorem crossFold_cons (x : F) (xs : List F) (P Q : E) (L R : List E) (k : Nat) :
    crossFold (x :: xs) (P :: L) (Q :: R) (k + 1) =
      crossFold xs L R k + ((x * x) • scalarmult8 (F := F) P +
        (x⁻¹ * x⁻¹) • scalarmult8 (F := F) Q) := by
  rw [crossFold, Finset.sum_range_succ']
  rfl

def foldProduct (xs : List F) (k i : Nat) : F :=
  challengeProduct (fun j => xs.getD j 0) (fun j => (xs.getD j 0)⁻¹) k i

theorem foldProduct_cons (x : F) (xs : List F) (k i : Nat) :
    foldProduct (x :: xs) (k + 1) i =
      challengeProduct (fun j => xs.getD j 0) (fun j => (xs.getD j 0)⁻¹) k i *
        (if i.testBit k then x else x⁻¹) := by
  rw [foldProduct, challengeProduct, Finset.prod_range_succ', challengeProduct]
  congr 1
  refine Finset.prod_congr rfl ?_
  intro j hj
  have hindex : k + 1 - 1 - (j + 1) = k - 1 - j := by omega
  rw [hindex]
  rfl

theorem foldProduct_low (x : F) (xs : List F) (hi : i < 2 ^ k) :
    foldProduct (x :: xs) (k + 1) i = x⁻¹ * foldProduct xs k i := by
  rw [foldProduct_cons, Nat.testBit_lt_two_pow hi, if_neg Bool.false_ne_true, mul_comm]
  rfl

theorem foldProduct_high (x : F) (xs : List F) (hi : i < 2 ^ k) :
    foldProduct (x :: xs) (k + 1) (2 ^ k + i) = x * foldProduct xs k i := by
  have htop : (2 ^ k + i).testBit k = true := by
    rw [Nat.testBit_two_pow_add_eq, Nat.testBit_lt_two_pow hi]
    rfl
  rw [foldProduct_cons, htop, if_pos rfl, mul_comm, foldProduct, challengeProduct, challengeProduct]
  congr 1
  refine Finset.prod_congr rfl ?_
  intro j hj
  have hj := Finset.mem_range.mp hj
  rw [Nat.testBit_two_pow_add_gt (by omega)]

structure Reduced (y : F) (k : Nat) (st final : ProverState F E) (Ls Rs : List E) : Prop where
  sized : Sized 1 final
  L : final.L = st.L ++ Ls
  R : final.R = st.R ++ Rs
  lengthL : Ls.length = k
  lengthR : Rs.length = k
  transcript : final.transcript = (p.roundTranscript st.transcript (Ls.zip Rs)).2
  statement : p.statement y 1 final = p.statement y (2 ^ k) st +
    crossFold (p.roundTranscript st.transcript (Ls.zip Rs)).1 Ls Rs k
  G : final.Gprime.get 0 = pairing (2 ^ k)
    (fun i => (y⁻¹) ^ i * foldProduct (p.roundTranscript st.transcript (Ls.zip Rs)).1 k i)
    st.Gprime.get
  H : final.Hprime.get 0 = pairing (2 ^ k)
    (fun i => foldProduct (p.roundTranscript st.transcript (Ls.zip Rs)).1 k (2 ^ k - 1 - i))
    st.Hprime.get

theorem Reduced.refl {y : F} (hs : Sized 1 st) : p.Reduced y 0 st st [] [] := by
  refine ⟨hs, (append_nil _).symm, (append_nil _).symm, rfl, rfl, rfl, (add_zero _).symm, ?_, ?_⟩
  · rw [pairing, pow_zero, Finset.sum_range_one, pow_zero, one_mul]
    exact (one_smul F _).symm
  · rw [pairing, pow_zero, Finset.sum_range_one]
    exact (one_smul F _).symm

theorem Reduced.cons {y : F} (hy : y ≠ 0) {final : ProverState F E} {L R : E} {dL dR : F}
    {Ls Rs : List E} (hx : p.transcriptUpdate st.transcript [.point L, .point R] ≠ 0)
    (hfold : Folded (2 ^ k) (y ^ 2 ^ k) (p.transcriptUpdate st.transcript [.point L, .point R]) dL
      dR L R st next) (hL : scalarmult8 (F := F) L = p.leftTerm y (2 ^ k) dL st)
    (hR : scalarmult8 (F := F) R = p.rightTerm y (2 ^ k) dR st)
    (h : p.Reduced y k next final Ls Rs) : p.Reduced y (k + 1) st final (L :: Ls) (R :: Rs) := by
  have hrest : p.roundTranscript st.transcript ((L :: Ls).zip (R :: Rs)) =
      (p.transcriptUpdate st.transcript [.point L, .point R] ::
        (p.roundTranscript next.transcript (Ls.zip Rs)).1,
        (p.roundTranscript next.transcript (Ls.zip Rs)).2) := by
    rw [hfold.transcript]
    rfl
  have hdouble : 2 ^ (k + 1) = 2 * 2 ^ k := pow_succ' 2 k
  refine ⟨h.sized, ?_, ?_, congrArg (· + 1) h.lengthL, congrArg (· + 1) h.lengthR, ?_, ?_, ?_, ?_⟩
  · rw [h.L, hfold.L, append_assoc]
    rfl
  · rw [h.R, hfold.R, append_assoc]
    rfl
  · rw [h.transcript, hrest]
  · rw [h.statement, p.statement_fold hy hx hfold, hrest, crossFold_cons, hL, hR, hdouble]
    abel
  · rw [h.G, hrest, hdouble, pairing_congr (fun _ _ => rfl) hfold.G]
    refine pairing_generators _ _ _ ?_ ?_
    · intro i hi
      rw [foldProduct_low _ _ hi]
      ring
    · intro i hi
      rw [upper, foldProduct_high _ _ hi, pow_add, inv_pow]
      ring
  · rw [h.H, hrest, hdouble, pairing_congr (fun _ _ => rfl) hfold.H]
    refine pairing_generators _ _ _ ?_ ?_
    · intro i hi
      have hindex : 2 * 2 ^ k - 1 - i = 2 ^ k + (2 ^ k - 1 - i) := by omega
      rw [hindex, foldProduct_high _ _ (by omega), mul_comm]
    · intro i hi
      have hindex : 2 * 2 ^ k - 1 - (2 ^ k + i) = 2 ^ k - 1 - i := by omega
      rw [upper, hindex, foldProduct_low _ _ (by omega), mul_comm]

variable [DecidableEq F] {y : F} {yPowers yinvpow : Nat → F} (draws : ProverDraws F)

theorem invert_eq (hx : x ≠ 0) : invert x = .ok x⁻¹ := by
  rw [invert, check_decide hx]
  rfl

theorem foldState_spec (hn : 0 < n) (hs : Sized (2 * n) st) {yn : F} (hx : x ≠ 0)
    (hpow : yPowers n = yn) (hinv : yinvpow n = yn⁻¹) (L R : E) (dL dR : F) :
    ∃ next, foldState yPowers yinvpow n st L R x dL dR = .ok next ∧
      Folded n yn x dL dR L R st next := by
  obtain ⟨g, hg, hgi⟩ := hadamardFold_eq hs.G x⁻¹ (yinvpow n * x)
  obtain ⟨h, hh, hhi⟩ := hadamardFold_eq hs.H x x⁻¹
  rw [hinv] at hgi
  have hrun : foldState yPowers yinvpow n st L R x dL dR = .ok {
      aprime := ⟨n, fun i => st.aprime.get i * x +
        upper n st.aprime.get i * (x⁻¹ * yPowers n)⟩
      bprime := ⟨n, fun i => st.bprime.get i * x⁻¹ + upper n st.bprime.get i * x⟩
      Gprime := ⟨n, g⟩
      Hprime := ⟨n, h⟩
      alpha1 := dR * (x⁻¹ * x⁻¹) + (dL * (x * x) + st.alpha1)
      transcript := .scalar x
      L := st.L ++ [L]
      R := st.R ++ [R] } := by
    rw [foldState, invert_eq hx, ok_bind, hg, ok_bind, hh, ok_bind, slice_low hn hs.a, ok_bind,
      slice_high hn hs.a, ok_bind, vectorScalar_mk, vectorScalar_mk, vectorAdd_mk, ok_bind,
      slice_low hn hs.b, ok_bind, slice_high hn hs.b, ok_bind, vectorScalar_mk, vectorScalar_mk,
      vectorAdd_mk, ok_bind]
    rfl
  refine ⟨_, hrun, ⟨rfl, rfl, rfl, rfl⟩, ?_, fun _ _ => rfl, hgi, hhi, rfl, rfl, rfl, rfl⟩
  intro i _
  rw [← hpow]

theorem proverRound_spec (hhash : ∀ l, p.hashToScalar l ≠ 0) (hn : 0 < n) (hle : n ≤ maxN * maxM)
    (hs : Sized (2 * n) st) (hpow : yPowers n = y ^ n) (hinv : yinvpow n = (y ^ n)⁻¹)
    (round : Nat) :
    ∃ L R next, p.proverRound y yPowers yinvpow draws round n st = .ok (some next) ∧
      Folded n (y ^ n) (p.transcriptUpdate st.transcript [.point L, .point R]) (draws.dL round)
        (draws.dR round) L R st next ∧
      scalarmult8 (F := F) L = p.leftTerm y n (draws.dL round) st ∧
      scalarmult8 (F := F) R = p.rightTerm y n (draws.dR round) st := by
  have hboth : n + n ≤ 2 * n := by omega
  have hlow : n + 0 ≤ 2 * n := by omega
  have hL := p.computeLR_eq (yinvpow n)
    (weightedPairing n y st.aprime.get (upper n st.bprime.get)) (draws.dL round)
    (hs.G.symm ▸ hboth) (hs.H.symm ▸ hlow) (hs.a.symm ▸ hlow) (hs.b.symm ▸ hboth) hle
  have hR := p.computeLR_eq (yPowers n)
    (weightedPairing n y (fun i => upper n st.aprime.get i * yPowers n) st.bprime.get)
    (draws.dR round) (hs.G.symm ▸ hlow) (hs.H.symm ▸ hboth) (hs.a.symm ▸ hboth)
    (hs.b.symm ▸ hlow) hle
  rw [upper_zero, upper_zero, hinv, ← leftTerm] at hL
  rw [upper_zero, upper_zero, weightedPairing_mul_left, hpow, ← rightTerm] at hR
  have hchallenge : p.transcriptUpdate st.transcript
      [.point (p.invEight • p.leftTerm y n (draws.dL round) st),
        .point (p.invEight • p.rightTerm y n (draws.dR round) st)] ≠ 0 := hhash _
  obtain ⟨next, hfold, hfolded⟩ := foldState_spec hn hs hchallenge hpow hinv
    (p.invEight • p.leftTerm y n (draws.dL round) st)
    (p.invEight • p.rightTerm y n (draws.dR round) st) (draws.dL round) (draws.dR round)
  refine ⟨_, _, next, ?_, hfolded, p.scalarmult8_invEight _, p.scalarmult8_invEight _⟩
  rw [proverRound, slice_low hn hs.a, ok_bind, slice_high hn hs.b, ok_bind,
    weightedInnerProduct_mk, ok_bind, slice_high hn hs.a, ok_bind, slice_low hn hs.b, ok_bind,
    vectorScalar_mk, weightedInnerProduct_mk, weightedPairing_mul_left, ok_bind, hpow, hinv, hL,
    ok_bind, hR, ok_bind]
  rw [if_neg hchallenge, hfold]
  rfl

theorem innerRounds_spec (hhash : ∀ l, p.hashToScalar l ≠ 0) (hy : y ≠ 0)
    (hle : 2 ^ k ≤ maxN * maxM) (hpow : ∀ i < 2 ^ k, yPowers i = y ^ i)
    (hinv : ∀ i < 2 ^ k, yinvpow i = (y ^ i)⁻¹) (round : Nat) (hs : Sized (2 ^ k) st) :
    ∃ final Ls Rs, p.innerRounds y yPowers yinvpow draws round (2 ^ k) st = .ok (some final) ∧
      p.Reduced y k st final Ls Rs := by
  induction k generalizing round st with
  | zero =>
    refine ⟨st, [], [], ?_, Reduced.refl p hs⟩
    rw [innerRounds, if_neg (by decide)]
    rfl
  | succ k ih =>
    have hpos := Nat.two_pow_pos k
    have hdouble : 2 ^ (k + 1) = 2 * 2 ^ k := pow_succ' 2 k
    have hhalf : 2 ^ (k + 1) / 2 = 2 ^ k := by omega
    rw [hdouble] at hs
    obtain ⟨L, R, next, hround, hfold, hL, hR⟩ := p.proverRound_spec draws hhash hpos (by omega) hs
      (hpow _ (by omega)) (hinv _ (by omega)) round
    obtain ⟨final, Ls, Rs, hrun, hreduced⟩ := ih (by omega) (fun i hi => hpow i (by omega))
      (fun i hi => hinv i (by omega)) (round + 1) hfold.sized
    refine ⟨final, L :: Ls, R :: Rs, ?_, hreduced.cons p hy (hhash _) hfold hL hR⟩
    rw [innerRounds, if_pos (by omega), hhalf, hround, ok_bind]
    exact hrun

end BulletproofParams
end Jero.Ringct
