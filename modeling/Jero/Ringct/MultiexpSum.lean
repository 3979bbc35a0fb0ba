import Jero.Algebra.Windows
import Jero.Ringct.Multiexp

namespace Jero.Ringct
open Jero.Algebra List Option Function Nat MultiexpData
variable {E : Type} {step n c cacheSize : Nat} {data : List (MultiexpData E)} {points : List E}
section

theorem coverBits_covers {m fuel : Nat} (hstep : 0 < step) (hm : m < 2 ^ keyBits)
    (hfuel : keyBits ≤ fuel + n) : m < 2 ^ coverBits step m fuel n := by
  induction fuel generalizing n with
  | zero =>
    rw [zero_add] at hfuel
    exact hm.trans_le (Nat.pow_le_pow_right two_pos hfuel)
  | succ fuel ih =>
    rw [coverBits]
    split
    case isTrue => exact ih (by omega)
    case isFalse hstop =>
      by_cases hn : n < keyBits
      · exact not_not.mp fun hlt => hstop ⟨hn, hlt⟩
      · exact hm.trans_le (Nat.pow_le_pow_right two_pos (not_lt.mp hn))

theorem coverBits_dvd {m fuel : Nat} (h : step ∣ n) : step ∣ coverBits step m fuel n := by
  induction fuel generalizing n with
  | zero => exact h
  | succ fuel ih =>
    rw [coverBits]
    split
    · exact ih (Dvd.dvd.add h (dvd_refl step))
    · exact h

variable {d : MultiexpData E}

theorem le_maxScalar (h : d ∈ data) : d.scalar ≤ maxScalar data := by
  have hstep : ∀ (l : List (MultiexpData E)) (m : Nat),
      m ≤ l.foldl (fun m d => if m < d.scalar then d.scalar else m) m ∧
        ∀ d ∈ l, d.scalar ≤ l.foldl (fun m d => if m < d.scalar then d.scalar else m) m := by
    intro l
    induction l with
    | nil =>
      intro m
      exact ⟨le_refl m, fun d hd => absurd hd not_mem_nil⟩
    | cons e l ih =>
      intro m
      obtain ⟨hbase, hall⟩ := ih (if m < e.scalar then e.scalar else m)
      have hmax : m ≤ (if m < e.scalar then e.scalar else m) ∧
          e.scalar ≤ (if m < e.scalar then e.scalar else m) := by
        split <;> omega
      refine ⟨hmax.1.trans hbase, ?_⟩
      intro d hd
      rcases mem_cons.mp hd with rfl | hd
      · exact hmax.2.trans hbase
      · exact hall d hd
  exact (hstep data 0).2 d h

theorem maxScalar_lt {bound : Nat} (hpos : 0 < bound)
    (h : ∀ d ∈ data, d.scalar < bound) : maxScalar data < bound := by
  have hstep : ∀ (l : List (MultiexpData E)) (m : Nat), m < bound →
      (∀ d ∈ l, d.scalar < bound) →
        l.foldl (fun m d => if m < d.scalar then d.scalar else m) m < bound := by
    intro l
    induction l with
    | nil =>
      intro m hm _
      exact hm
    | cons e l ih =>
      intro m hm hl
      refine ih _ ?_ fun d hd => hl d (mem_cons_of_mem e hd)
      dsimp only
      split
      · exact hl e mem_cons_self
      · exact hm
  exact hstep data 0 hpos h

theorem scalar_lt_cover (hstep : 0 < step)
    (h : ∀ d ∈ data, d.scalar < 2 ^ keyBits) (hd : d ∈ data) :
    d.scalar < 2 ^ coverBits step (maxScalar data) keyBits 0 :=
  (le_maxScalar hd).trans_lt
    (coverBits_covers hstep (maxScalar_lt (Nat.two_pow_pos keyBits) h) (le_add_right _ _))

def CacheCovers (points : List E) (count : Nat) (data : List (MultiexpData E)) : Prop :=
  ∀ i d, i < count → data[i]? = some d → points[i]? = some d.point

theorem cacheCovers_self (data : List (MultiexpData E)) (count : Nat) :
    CacheCovers (data.map MultiexpData.point) count data := by
  intro i d _ hd
  rw [getElem?_map, hd, map_some]

end
section
variable [AddCommGroup E]

theorem doublings_eq (n : Nat) (p : E) : doublings n p = 2 ^ n • p := by
  induction n generalizing p with
  | zero => rw [pow_zero, one_smul, doublings, iterate_zero, id_eq]
  | succ n ih =>
    have hnext : doublings (n + 1) p = doublings n (p + p) := rfl
    rw [hnext, ih, pow_succ, mul_smul, two_smul]

theorem strausMultiple_eq (point : E) (digit : Nat) :
    strausMultiple point digit = digit • point := by
  induction digit using strausMultiple.induct with
  | case1 => rw [strausMultiple, zero_smul]
  | case2 => rw [strausMultiple, one_smul]
  | case3 digit ih => rw [strausMultiple, ih, succ_nsmul' point (digit + 1)]

theorem strausAddDigit_eq (k : Nat) (band : E) (term : Nat × E) :
    strausAddDigit k band term = band + strausDigit term.1 k • term.2 := by
  rw [strausAddDigit]
  split
  case isTrue hzero => rw [hzero, zero_smul, add_zero]
  case isFalse => rw [strausMultiple_eq]

theorem foldl_strausAddDigit (k : Nat) (band : E) (terms : List (Nat × E)) :
    terms.foldl (strausAddDigit k) band = band + termSum (window (2 ^ strausC) k terms) := by
  induction terms generalizing band with
  | nil => exact (add_zero band).symm
  | cons t terms ih =>
    rw [foldl_cons, ih, strausAddDigit_eq, window_cons, termSum_cons, strausDigit, pow_mul,
      add_assoc]

theorem strausDigits_eq (terms : List (Nat × E)) (k : Nat) :
    strausDigits terms k (termSum (high (2 ^ strausC) k terms)) = termSum terms := by
  induction k with
  | zero => rw [strausDigits, high_zero]
  | succ k ih =>
    rw [strausDigits, foldl_strausAddDigit, doublings_eq, ← termSum_high_step, ih]

variable {terms : List (Nat × E)}

theorem strausBand_eq (h : ∀ t ∈ terms, t.1 < (2 ^ strausC) ^ n) :
    strausBand terms n = termSum terms := by
  have htop := termSum_high_top h
  cases n with
  | zero => rw [strausBand, ← htop, high_zero]
  | succ k =>
    have hfirst := termSum_high_step (2 ^ strausC) k terms
    rw [htop, smul_zero] at hfirst
    rw [strausBand, foldl_strausAddDigit, ← hfirst, strausDigits_eq]

theorem straus_chunks (h : ∀ t ∈ terms, t.1 < (2 ^ strausC) ^ n) (count : Nat) :
    (List.range count).foldl
        (fun res k => res + strausBand ((terms.drop (k * step)).take step) n) 0 =
      termSum (terms.take (count * step)) := by
  induction count with
  | zero => rw [Nat.zero_mul, take_zero, range_zero, foldl_nil, termSum_nil]
  | succ count ih =>
    have hchunk : ∀ t ∈ (terms.drop (count * step)).take step, t.1 < (2 ^ strausC) ^ n :=
      fun t ht => h t (mem_of_mem_drop (mem_of_mem_take ht))
    rw [range_succ, foldl_append, ih, foldl_cons, foldl_nil, strausBand_eq hchunk, Nat.succ_mul,
      take_add, termSum_append]

def dataSum (data : List (MultiexpData E)) : E := (data.map fun d => d.scalar • d.point).sum

theorem le_ceil_mul (n : Nat) (h : 0 < step) : n ≤ (n + step - 1) / step * step := by
  have hdiv := div_add_mod (n + step - 1) step
  have hmod := mod_lt (n + step - 1) h
  rw [mul_comm] at hdiv
  omega

theorem termSum_zip
    (h : CacheCovers points data.length data) :
    termSum ((data.zip points).map fun x => (x.1.scalar, x.2)) = dataSum data := by
  induction data generalizing points with
  | nil => rfl
  | cons d data ih =>
    have hhead := h 0 d (zero_lt_succ _) rfl
    cases points with
    | nil => cases hhead
    | cons p points =>
      obtain rfl := some.inj hhead
      rw [zip_cons_cons, map_cons, termSum_cons,
        ih fun i e hi he => h (i + 1) e (succ_lt_succ hi) he]
      rfl

theorem straus_eq {cache : Option (List E)} (step : Nat)
    (hbits : ∀ d ∈ data, d.scalar < 2 ^ keyBits)
    (hlen : ∀ points, cache = some points → data.length ≤ points.length)
    (hcache : ∀ points, cache = some points → CacheCovers points data.length data) :
    straus data cache step = .ok (dataSum data) := by
  have hpoints : data.length ≤ (cache.getD (data.map point)).length ∧
      CacheCovers (cache.getD (data.map point)) data.length data := by
    cases cache with
    | none => exact ⟨(length_map _).ge, cacheCovers_self data data.length⟩
    | some points => exact ⟨hlen points rfl, hcache points rfl⟩
  obtain ⟨hsize, hcovers⟩ := hpoints
  have hstep : 0 < (if step = 0 then 192 else step) := by
    split <;> omega
  have hdvd : strausC ∣ coverBits strausC (maxScalar data) keyBits 0 := coverBits_dvd (dvd_zero _)
  have hterms : ∀ t ∈ (data.zip (cache.getD (data.map point))).map
      (fun x => (x.1.scalar, x.2)),
      t.1 < (2 ^ strausC) ^ (coverBits strausC (maxScalar data) keyBits 0 / strausC) := by
    intro t ht
    obtain ⟨x, hmem, rfl⟩ := List.mem_map.mp ht
    rw [← pow_mul, Nat.mul_div_cancel' hdvd]
    exact scalar_lt_cover (by decide) hbits (of_mem_zip hmem).1
  rw [straus, if_neg (not_lt.mpr hsize)]
  dsimp only
  rw [straus_chunks hterms, take_of_length_le, termSum_zip hcovers]
  rw [length_map, length_zip, min_eq_left hsize]
  exact le_ceil_mul data.length hstep

end
variable [AddCommGroup E]

theorem addCell_getD (cell other : Option E) :
    (addCell cell other).getD 0 = cell.getD 0 + other.getD 0 := by
  cases other with
  | none => exact (add_zero _).symm
  | some q =>
    cases cell with
    | none => exact (zero_add q).symm
    | some q => rfl

variable {scalar : Nat} {t : PippengerTerm E} {terms : List (PippengerTerm E)} {cached : List E}

theorem test_eq (h : scalar < 2 ^ keyBits) (n : Nat) : test scalar n = scalar.testBit n := by
  rw [test]
  by_cases hn : n < keyBits
  · rw [decide_eq_true hn, Bool.true_and]
  · rw [decide_eq_false hn, Bool.false_and]
    exact (testBit_lt_two_pow
      (h.trans_le (Nat.pow_le_pow_right two_pos (not_lt.mp hn)))).symm

theorem or_shift {a : Nat} (h : a < 2 ^ n) : a ||| 1 <<< n = a + 2 ^ n := by
  have hor := two_pow_add_eq_or_of_lt h 1
  rw [mul_one] at hor
  rw [one_shiftLeft, Nat.or_comm, Nat.add_comm, hor]

theorem pippengerBucket_eq (h : scalar < 2 ^ keyBits) (c k : Nat) :
    pippengerBucket c k scalar = scalar / (2 ^ c) ^ k % 2 ^ c := by
  have hpartial : ∀ n, (range n).foldl
      (fun bucket j => if test scalar (k * c + j) then bucket ||| 1 <<< j else bucket) 0 =
        scalar / (2 ^ c) ^ k % 2 ^ n := by
    intro n
    induction n with
    | zero => rw [range_zero, foldl_nil, pow_zero, mod_one]
    | succ n ih =>
      have hbit : (scalar / (2 ^ c) ^ k).testBit n = test scalar (k * c + n) := by
        rw [← pow_mul, mul_comm c k, testBit_div_two_pow, test_eq h, add_comm]
      have hlt := mod_lt (scalar / (2 ^ c) ^ k) (Nat.two_pow_pos n)
      rw [range_succ, foldl_append, ih, foldl_cons, foldl_nil, mod_two_pow_succ, hbit]
      cases test scalar (k * c + n) with
      | false => rw [if_neg Bool.false_ne_true, Bool.toNat_false, Nat.zero_mul, add_zero]
      | true => rw [if_pos rfl, or_shift hlt, Bool.toNat_true, one_mul]
  exact hpartial c

def bucketWeight (n : Nat) (buckets : Nat → Option E) : E :=
  ∑ b ∈ Finset.range n, b • (buckets b).getD 0

theorem bucketWeight_update {b : Nat} (hb : b < n) (buckets : Nat → Option E) (p : E) {q : E}
    (hq : q = (buckets b).getD 0 + p) :
    bucketWeight n (Function.update buckets b (some q)) = bucketWeight n buckets + b • p := by
  have hcell : ∀ i ∈ Finset.range n, i • (update buckets b (some q) i).getD 0 =
      i • (buckets i).getD 0 + if i = b then b • p else 0 := by
    intro i _
    by_cases hi : i = b
    · rw [hi, update_self, if_pos rfl, getD_some, hq, smul_add]
    · rw [update_of_ne hi, if_neg hi, add_zero]
  rw [bucketWeight, Finset.sum_congr rfl hcell, Finset.sum_add_distrib, Finset.sum_ite_eq',
    if_pos (Finset.mem_range.mpr hb)]
  rfl

def PippengerTerm.pair (t : PippengerTerm E) : Nat × E := (t.scalar, t.point)

theorem bucketWeight_insert (c k : Nat) (buckets : Nat → Option E)
    (hbits : t.scalar < 2 ^ keyBits) (hcached : t.cached = t.point) :
    bucketWeight (2 ^ c) (pippengerInsert c k buckets t) =
      bucketWeight (2 ^ c) buckets + (t.scalar / (2 ^ c) ^ k % 2 ^ c) • t.point := by
  have hbucket := pippengerBucket_eq hbits c k
  have hlt : pippengerBucket c k t.scalar < 2 ^ c := by
    rw [hbucket]
    exact mod_lt _ (Nat.two_pow_pos c)
  rw [← hbucket, pippengerInsert, hcached]
  split
  case isTrue hzero => rw [hzero, zero_smul, add_zero]
  case isFalse =>
    cases hcell : buckets (pippengerBucket c k t.scalar) with
    | none =>
      refine bucketWeight_update hlt buckets t.point ?_
      rw [hcell, getD_none, zero_add]
    | some q =>
      refine bucketWeight_update hlt buckets t.point ?_
      rw [hcell, getD_some]

section
variable (c k : Nat) (hbits : ∀ t ∈ terms, t.scalar < 2 ^ keyBits)
  (hcached : ∀ t ∈ terms, t.cached = t.point)
include hbits hcached

theorem bucketWeight_foldl (buckets : Nat → Option E) :
    bucketWeight (2 ^ c) (terms.foldl (pippengerInsert c k) buckets) =
      bucketWeight (2 ^ c) buckets + termSum (window (2 ^ c) k (terms.map PippengerTerm.pair)) := by
  induction terms generalizing buckets with
  | nil => exact (add_zero _).symm
  | cons t terms ih =>
    rw [foldl_cons, ih (fun s hs => hbits s (mem_cons_of_mem t hs))
      (fun s hs => hcached s (mem_cons_of_mem t hs)),
      bucketWeight_insert c k buckets (hbits t mem_cons_self) (hcached t mem_cons_self),
      map_cons, window_cons, termSum_cons, add_assoc]
    rfl

theorem bucketWeight_partition :
    bucketWeight (2 ^ c) (pippengerPartition c k terms) =
      termSum (window (2 ^ c) k (terms.map PippengerTerm.pair)) := by
  have hempty : bucketWeight (2 ^ c) (fun _ => (none : Option E)) = 0 :=
    Finset.sum_eq_zero fun b _ => smul_zero b
  rw [pippengerPartition, bucketWeight_foldl c k hbits hcached, hempty, zero_add]

end

theorem pippengerSum_eq (buckets : Nat → Option E) (n : Nat) (result pail : Option E) :
    (pippengerSum buckets n result pail).getD 0 =
      result.getD 0 + n • pail.getD 0 + bucketWeight (n + 1) buckets := by
  induction n generalizing result pail with
  | zero =>
    rw [pippengerSum, bucketWeight, Finset.sum_range_one, zero_smul, zero_smul, add_zero, add_zero]
  | succ n ih =>
    rw [pippengerSum, ih, addCell_getD, addCell_getD, bucketWeight, bucketWeight,
      Finset.sum_range_succ _ (n + 1), smul_add, succ_nsmul, succ_nsmul]
    abel

theorem pippengerGroups_eq (hbits : ∀ t ∈ terms, t.scalar < 2 ^ keyBits)
    (hcached : ∀ t ∈ terms, t.cached = t.point) (k : Nat) {result : Option E}
    (h : result.getD 0 = termSum (high (2 ^ c) k (terms.map PippengerTerm.pair))) :
    (pippengerGroups c terms k result).getD 0 = termSum (terms.map PippengerTerm.pair) := by
  induction k generalizing result with
  | zero => rw [pippengerGroups, h, high_zero]
  | succ k ih =>
    have hdouble : (result.map (doublings c)).getD 0 = 2 ^ c • result.getD 0 := by
      cases result with
      | none => exact (smul_zero _).symm
      | some p => exact doublings_eq c p
    have hall : 2 ^ c - 1 + 1 = 2 ^ c := Nat.sub_add_cancel (Nat.two_pow_pos c)
    refine ih ?_
    rw [pippengerSum_eq, hdouble, h, hall, bucketWeight_partition c k hbits hcached,
      getD_none, smul_zero, add_zero, ← termSum_high_step]

theorem pippengerTerms_cached
    (h : CacheCovers cached cacheSize data) (ht : t ∈ pippengerTerms data cached cacheSize) :
    t.cached = t.point ∧ ∃ d ∈ data, d.scalar = t.scalar := by
  obtain ⟨i, hi, rfl⟩ := exists_of_mem_mapIdx ht
  refine ⟨?_, _, getElem_mem hi, rfl⟩
  split
  case isTrue hcount =>
    rw [getD_eq_getElem?_getD, h i _ hcount (getElem?_eq_getElem hi), getD_some]
  case isFalse => rfl

variable (hbits : ∀ d ∈ data, d.scalar < 2 ^ keyBits)

include hbits in
theorem pippengerGroups_data (hc : 0 < c) (h : CacheCovers cached cacheSize data) :
    (pippengerGroups c (pippengerTerms data cached cacheSize)
      ((coverBits 1 (maxScalar data) keyBits 0 + c - 1) / c) none).getD 0 = dataSum data := by
  have hpair : (pippengerTerms data cached cacheSize).map PippengerTerm.pair = data.map fun d =>
    (d.scalar, d.point) := by
    refine ext_getElem? fun i => ?_
    rw [pippengerTerms, getElem?_map, getElem?_mapIdx, getElem?_map, Option.map_map]
    rfl
  have hterms : ∀ t ∈ pippengerTerms data cached cacheSize, t.scalar < 2 ^ keyBits := by
    intro t ht
    obtain ⟨-, d, hd, hscalar⟩ := pippengerTerms_cached h ht
    exact hscalar ▸ hbits d hd
  have htop : ∀ t ∈ (pippengerTerms data cached cacheSize).map PippengerTerm.pair,
      t.1 < (2 ^ c) ^ ((coverBits 1 (maxScalar data) keyBits 0 + c - 1) / c) := by
    intro t ht
    rw [hpair] at ht
    obtain ⟨d, hd, rfl⟩ := List.mem_map.mp ht
    rw [← pow_mul, mul_comm]
    exact (scalar_lt_cover one_pos hbits hd).trans_le
      (Nat.pow_le_pow_right two_pos (le_ceil_mul _ hc))
  have hstart : (none : Option E).getD 0 = termSum (high (2 ^ c)
      ((coverBits 1 (maxScalar data) keyBits 0 + c - 1) / c)
      ((pippengerTerms data cached cacheSize).map PippengerTerm.pair)) :=
    (termSum_high_top htop).symm
  rw [pippengerGroups_eq hterms (fun t ht => (pippengerTerms_cached h ht).1) _ hstart, hpair,
    termSum, List.map_map]
  rfl

theorem getPippengerC_range (n : Nat) : 0 < getPippengerC n ∧ getPippengerC n ≤ 9 := by
  rw [getPippengerC]
  split_ifs <;> omega

include hbits

theorem pippenger_eq {cache : Option (List E)} (hc : c ≤ 9)
    (hlen : ∀ points, cache = some points → cacheSize ≤ points.length)
    (hcache : ∀ points, cache = some points →
      CacheCovers points (if cacheSize = 0 then points.length else cacheSize) data) :
    pippenger data cache cacheSize c = .ok (dataSum data) := by
  obtain ⟨hpos, hle⟩ := getPippengerC_range data.length
  have hwidth : 0 < (if c = 0 then getPippengerC data.length else c) ∧
      (if c = 0 then getPippengerC data.length else c) ≤ 9 := by
    split <;> omega
  cases cache with
  | none =>
    rw [pippenger]
    simp only [isSome_none, Bool.false_eq_true, false_and, if_false, getD_none]
    rw [if_neg (not_lt.mpr hwidth.2),
      pippengerGroups_data hbits hwidth.1 (cacheCovers_self data cacheSize)]
  | some points =>
    have hfits : ¬ points.length < (if cacheSize = 0 then points.length else cacheSize) := by
      have hsize := hlen points rfl
      split <;> omega
    rw [pippenger]
    simp only [isSome_some, true_and, getD_some]
    rw [if_neg hfits, if_neg (not_lt.mpr hwidth.2),
      pippengerGroups_data hbits hwidth.1 (hcache points rfl)]

theorem multiexp_eq {higiCache : List E} {higiSize : Nat} (hlen : higiSize ≤ higiCache.length)
    (hcache : CacheCovers higiCache higiSize data) :
    multiexp higiCache data higiSize = .ok (dataSum data) := by
  have hc := (getPippengerC_range data.length).2
  rw [multiexp]
  split
  case isTrue hsize =>
    split
    case isTrue hstraus =>
      have htake : data.length ≤ (higiCache.take strausSizeLimit).length := by
        rw [length_take, strausSizeLimit]
        omega
      refine straus_eq 0 hbits ?_ ?_
      · rintro points hpoints
        obtain rfl := some.inj hpoints
        exact htake
      · rintro points hpoints i d hi hd
        obtain rfl := some.inj hpoints
        rw [length_take] at htake
        rw [getElem?_take_of_lt (by omega)]
        exact hcache i d (by omega) hd
    case isFalse =>
      refine pippenger_eq hbits hc ?_ ?_
      · rintro points hpoints
        obtain rfl := some.inj hpoints
        exact hlen
      · rintro points hpoints
        obtain rfl := some.inj hpoints
        rw [if_neg hsize.ne']
        exact hcache
  case isFalse =>
    split
    · exact straus_eq 0 hbits (fun _ h => nomatch h) fun _ h => nomatch h
    · exact pippenger_eq hbits hc (fun _ h => nomatch h) fun _ h => nomatch h

end Jero.Ringct
