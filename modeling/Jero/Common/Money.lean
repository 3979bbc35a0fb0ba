import Jero.Machine.Word

namespace Jero.Common
open Jero.Machine List Nat Char

def bumpDigits : List Char → Bool × List Char
  | [] => (true, [])
  | c :: cs =>
    if c = '9' then ((bumpDigits cs).1, '0' :: (bumpDigits cs).2)
    else (false, ofNat (c.toNat + 1) :: cs)

def roundText (buf : List Char) (significantDigits : Nat) : List Char :=
  if buf.length > significantDigits then
    let head := buf.take significantDigits
    let tail := buf.drop significantDigits
    let zeros := tail.map (fun c => if c ≠ '0' then '0' else c)
    let bumped := bumpDigits head.reverse
    if tail.any (fun c => c ≠ '0') then
      if bumped.1 then '1' :: (bumped.2.reverse ++ zeros) else bumped.2.reverse ++ zeros
    else head ++ zeros
  else buf

def strtoull (buf : List Char) : Nat × Bool :=
  let value := Nat.ofDigitChars 10 buf 0
  if value < 2 ^ 64 then (value, false) else (2 ^ 64 - 1, true)

def roundMoneyUp (amount significantDigits : Nat) : Except String Nat := do
  check (decide (significantDigits > 0)) "significant_digits must not be 0"
  let buf := roundText (Nat.toDigits 10 amount) significantDigits
  let ull := strtoull buf
  check (decide (ull.1 ≠ 2 ^ 64 - 1) || !ull.2)
    ("Failed to parse rounded amount: " ++ String.ofList buf)
  check (decide (ull.1 ≠ 0) || decide (amount = 0)) "Overflow in rounding"
  pure ull.1

def decimalUnit (amount s : Nat) : Nat := 10 ^ ((Nat.toDigits 10 amount).length - s)

def roundedUp (amount s : Nat) : Nat :=
  (amount + (decimalUnit amount s - 1)) / decimalUnit amount s * decimalUnit amount s

section

abbrev textValue (l : List Char) : Nat := Nat.ofDigitChars 10 l 0

theorem textValue_append (l m : List Char) :
    textValue (l ++ m) = 10 ^ m.length * textValue l + textValue m := by
  rw [textValue, ofDigitChars_append, ofDigitChars_eq_ofDigitChars_zero]

theorem textValue_zeros (l : List Char) :
    textValue (l.map (fun c => if c ≠ '0' then '0' else c)) = 0 := by
  have hmap : l.map (fun c => if c ≠ '0' then '0' else c) = replicate l.length '0' := by
    refine eq_replicate_iff.mpr ⟨length_map _, ?_⟩
    intro c hc
    obtain ⟨d, -, rfl⟩ := mem_map.mp hc
    split
    · rfl
    · exact not_not.mp ‹_›
  rw [hmap, textValue, ofDigitChars_replicate_zero, mul_zero]

theorem textValue_concat (l : List Char) (c : Char) :
    textValue (l ++ [c]) = 10 * textValue l + (c.toNat - 48) := by
  rw [textValue, ofDigitChars_append, ofDigitChars_cons, ofDigitChars_nil]
  rfl

theorem toNat_succ {c : Char} (h : c.toNat ≤ 57) :
    (ofNat (c.toNat + 1)).toNat = c.toNat + 1 := by
  have hvalid : (c.toNat + 1).isValidChar := Or.inl (by omega)
  rw [ofNat, dif_pos hvalid]
  rfl

theorem textValue_lt (l : List Char) (h : ∀ c ∈ l, c.isDigit = true) :
    textValue l < 10 ^ l.length := by
  induction l using reverseRecOn with
  | nil => exact one_pos
  | append_singleton l c ih =>
    have hl := ih (fun d hd => h d (by simp [hd]))
    obtain ⟨-, hc⟩ : 48 ≤ c.toNat ∧ c.toNat ≤ 57 := isDigit_iff_toNat.mp (h c (by simp))
    rw [textValue_concat, length_append, length_singleton, pow_succ]
    omega

theorem textValue_eq_zero_iff (l : List Char) (h : ∀ c ∈ l, c.isDigit = true) :
    textValue l = 0 ↔ ∀ c ∈ l, c = '0' := by
  induction l using reverseRecOn with
  | nil => simp [textValue]
  | append_singleton l c ih =>
    have hl := ih (fun d hd => h d (by simp [hd]))
    obtain ⟨hc, -⟩ : 48 ≤ c.toNat ∧ c.toNat ≤ 57 := isDigit_iff_toNat.mp (h c (by simp))
    have hzero : c.toNat - 48 = 0 ↔ c = '0' := by
      constructor
      · intro hd
        exact toNat_inj.mp (show c.toNat = 48 by omega)
      · rintro rfl
        rfl
    rw [textValue_concat, Nat.add_eq_zero_iff, mul_eq_zero, hzero, hl]
    simp [or_imp, forall_and]

theorem bumpDigits_spec (cs : List Char) (h : ∀ c ∈ cs, c.isDigit = true) :
    (bumpDigits cs).2.length = cs.length ∧
      textValue (bumpDigits cs).2.reverse + (if (bumpDigits cs).1 then 10 ^ cs.length else 0) =
        textValue cs.reverse + 1 := by
  induction cs with
  | nil => exact ⟨rfl, rfl⟩
  | cons c cs ih =>
    obtain ⟨hlen, hval⟩ := ih (fun d hd => h d (by simp [hd]))
    obtain ⟨hlow, hhigh⟩ : 48 ≤ c.toNat ∧ c.toNat ≤ 57 :=
      isDigit_iff_toNat.mp (h c (by simp))
    by_cases hnine : c = '9'
    · subst hnine
      rw [bumpDigits, if_pos rfl]
      refine ⟨congrArg succ hlen, ?_⟩
      have hcarry : (if (bumpDigits cs).1 then 10 ^ (cs.length + 1) else 0) =
          10 * (if (bumpDigits cs).1 then 10 ^ cs.length else 0) := by
        split
        · exact pow_succ'
        · rfl
      simp only [reverse_cons, textValue_concat, length_cons, hcarry]
      change 10 * _ + 0 + _ = 10 * _ + 9 + 1
      omega
    · have hlt : c.toNat ≠ 57 := fun hc => hnine (toNat_inj.mp hc)
      rw [bumpDigits, if_neg hnine]
      refine ⟨rfl, ?_⟩
      simp only [reverse_cons, textValue_concat, toNat_succ hhigh]
      simp only [Bool.false_eq_true, if_false]
      omega

end
variable {amount s : Nat}

theorem decimalUnit_pos (amount s : Nat) : 0 < decimalUnit amount s := Nat.pow_pos (by norm_num)

theorem le_roundedUp (amount s : Nat) : amount ≤ roundedUp amount s := by
  have hpos := decimalUnit_pos amount s
  have h := lt_div_mul_add hpos (a := amount + (decimalUnit amount s - 1))
  rw [roundedUp]
  omega

theorem div_up_split {u high low : Nat} (h : low < u) :
    (u * high + low + (u - 1)) / u = if low = 0 then high else high + 1 := by
  have hu : 0 < u := by omega
  by_cases hlow : low = 0
  · rw [if_pos hlow, hlow, add_zero, mul_add_div hu, div_eq_of_lt (by omega), add_zero]
  · have hsum : u * high + low + (u - 1) = u * (high + 1) + (low - 1) := by
      rw [mul_add, mul_one]
      omega
    rw [if_neg hlow, hsum, mul_add_div hu, div_eq_of_lt (by omega), add_zero]

theorem bumped_value (head zeros : List Char) (h : ∀ c ∈ head, c.isDigit = true)
    (hzeros : textValue zeros = 0) :
    textValue (if (bumpDigits head.reverse).1 then
        '1' :: ((bumpDigits head.reverse).2.reverse ++ zeros)
      else (bumpDigits head.reverse).2.reverse ++ zeros) =
      (textValue head + 1) * 10 ^ zeros.length := by
  obtain ⟨hlen, hval⟩ := bumpDigits_spec head.reverse
    (fun c hc => h c (mem_reverse.mp hc))
  rw [reverse_reverse] at hval
  cases hcarry : (bumpDigits head.reverse).1 with
  | false =>
    simp only [hcarry, Bool.false_eq_true, if_false, add_zero] at hval ⊢
    rw [textValue_append, hzeros, hval, add_zero, mul_comm]
  | true =>
    simp only [hcarry, if_true] at hval ⊢
    have hfront : '1' :: ((bumpDigits head.reverse).2.reverse ++ zeros) =
        (['1'] ++ (bumpDigits head.reverse).2.reverse) ++ zeros := rfl
    have hone : textValue ['1'] = 1 := rfl
    rw [hfront, textValue_append, textValue_append, hone, hzeros, length_reverse, hlen,
      mul_one, add_comm (10 ^ _), hval, add_zero, mul_comm]

theorem textValue_roundText (l : List Char) (h : ∀ c ∈ l, c.isDigit = true) (s : Nat) :
    textValue (roundText l s) =
      (textValue l + (10 ^ (l.length - s) - 1)) / 10 ^ (l.length - s) * 10 ^ (l.length - s) := by
  by_cases hlen : l.length > s
  · have hhead : ∀ c ∈ l.take s, c.isDigit = true := fun c hc => h c (mem_of_mem_take hc)
    have htail : ∀ c ∈ l.drop s, c.isDigit = true := fun c hc => h c (mem_of_mem_drop hc)
    have hzeros := textValue_zeros (l.drop s)
    have hsplit : textValue l = 10 ^ (l.length - s) * textValue (l.take s) + textValue (l.drop s) := by
      conv_lhs => rw [← take_append_drop s l]
      rw [textValue_append, length_drop]
    have hlow : textValue (l.drop s) < 10 ^ (l.length - s) := by
      rw [← length_drop]
      exact textValue_lt _ htail
    rw [hsplit, div_up_split hlow, roundText, if_pos hlen]
    by_cases hzero : textValue (l.drop s) = 0
    · have hany : ¬ (l.drop s).any (fun c => c ≠ '0') = true := by
        simpa using (textValue_eq_zero_iff _ htail).mp hzero
      rw [if_pos hzero, if_neg hany, textValue_append, hzeros, length_map, length_drop,
        add_zero, mul_comm]
    · have hany : (l.drop s).any (fun c => c ≠ '0') = true := by
        simpa using (textValue_eq_zero_iff _ htail).not.mp hzero
      rw [if_neg hzero, if_pos hany, bumped_value _ _ hhead hzeros, length_map, length_drop]
  · rw [roundText, if_neg hlen, Nat.sub_eq_zero_of_le (not_lt.mp hlen)]
    simp

theorem roundText_value (amount s : Nat) :
    textValue (roundText (Nat.toDigits 10 amount) s) = roundedUp amount s := by
  rw [textValue_roundText _ fun c => isDigit_of_mem_toDigits (by norm_num) le_rfl]
  rw [textValue, ofDigitChars_ten_toDigits]
  rfl

theorem roundMoneyUp_eq (hs : 0 < s) (h : roundedUp amount s < 2 ^ 64) :
    roundMoneyUp amount s = .ok (roundedUp amount s) := by
  have hread : strtoull (roundText (toDigits 10 amount) s) = (roundedUp amount s, false) := by
    rw [strtoull, ← textValue, roundText_value]
    exact if_pos h
  have hle := le_roundedUp amount s
  simp only [roundMoneyUp, hread]
  rw [Bool.not_false, Bool.or_true, check_decide hs, check_true rfl, check_true]
  · rfl
  · rw [Bool.or_eq_true, decide_eq_true_iff, decide_eq_true_iff]
    omega

theorem lt_pow_length (n : Nat) : n < 10 ^ (Nat.toDigits 10 n).length :=
  (length_toDigits_le_iff (by norm_num) length_toDigits_pos).mp le_rfl

theorem roundedUp_le (amount s : Nat) :
    roundedUp amount s ≤ 10 ^ (Nat.toDigits 10 amount).length := by
  have hpow : 10 ^ (toDigits 10 amount).length =
      10 ^ ((toDigits 10 amount).length - ((toDigits 10 amount).length - s)) *
        decimalUnit amount s := by
    rw [decimalUnit, ← pow_add, Nat.sub_add_cancel (sub_le _ _)]
  have hlt := lt_pow_length amount
  have hpos := decimalUnit_pos amount s
  rw [hpow] at hlt ⊢
  refine mul_le_mul_right _ (le_of_lt_succ ((div_lt_iff_lt_mul hpos).mpr ?_))
  rw [succ_mul]
  omega

theorem pow_length_le {n : Nat} (h : 1 < (Nat.toDigits 10 n).length) :
    10 ^ ((Nat.toDigits 10 n).length - 1) ≤ n := by
  by_contra hlt
  have hlen := (length_toDigits_le_iff (by norm_num) (by omega)).mpr (not_le.mp hlt)
  omega

theorem roundedUp_mono {a b : Nat} (h : a ≤ b) : roundedUp a s ≤ roundedUp b s := by
  have hlen : (toDigits 10 a).length ≤ (toDigits 10 b).length :=
    (length_toDigits_le_iff (by norm_num) length_toDigits_pos).mpr
      (h.trans_lt (lt_pow_length b))
  rcases hlen.eq_or_lt with heq | hlt
  · have hunit : decimalUnit a s = decimalUnit b s := by rw [decimalUnit, heq, decimalUnit]
    rw [roundedUp, roundedUp, hunit]
    exact Nat.mul_le_mul_right _ (Nat.div_le_div_right (Nat.add_le_add_right h _))
  · have hfirst : 0 < (toDigits 10 a).length := length_toDigits_pos
    calc roundedUp a s ≤ 10 ^ (toDigits 10 a).length := roundedUp_le a s
      _ ≤ 10 ^ ((toDigits 10 b).length - 1) := Nat.pow_le_pow_right (by norm_num) (by omega)
      _ ≤ b := pow_length_le (by omega)
      _ ≤ roundedUp b s := le_roundedUp b s

theorem roundMoneyUp_of_lt (hs : 0 < s) (h : amount < 10 ^ 19) :
    roundMoneyUp amount s = .ok (roundedUp amount s) := by
  have hlen : (toDigits 10 amount).length ≤ 19 :=
    (length_toDigits_le_iff (by norm_num) (by norm_num)).mpr h
  refine roundMoneyUp_eq hs ((roundedUp_le amount s).trans_lt ?_)
  exact (Nat.pow_le_pow_right (by norm_num) hlen).trans_lt (by norm_num)

def AtMostSignificant (s n : Nat) : Prop := ∀ c ∈ (Nat.toDigits 10 n).drop s, c = '0'

instance (s n : Nat) : Decidable (AtMostSignificant s n) :=
  inferInstanceAs (Decidable (∀ c ∈ (Nat.toDigits 10 n).drop s, c = '0'))

theorem atMostSignificant_iff (s n : Nat) : AtMostSignificant s n ↔ decimalUnit n s ∣ n := by
  have hdigits : ∀ c ∈ toDigits 10 n, c.isDigit = true :=
    fun c => isDigit_of_mem_toDigits (by norm_num) le_rfl
  have htail : ∀ c ∈ (toDigits 10 n).drop s, c.isDigit = true :=
    fun c hc => hdigits c (mem_of_mem_drop hc)
  have hlow := textValue_lt _ htail
  have hsplit := textValue_append ((toDigits 10 n).take s) ((toDigits 10 n).drop s)
  rw [take_append_drop, textValue, ofDigitChars_ten_toDigits] at hsplit
  rw [length_drop] at hlow hsplit
  have hdvd := Nat.dvd_add_right (c := textValue ((toDigits 10 n).drop s))
    (Nat.dvd_mul_right (10 ^ ((toDigits 10 n).length - s))
      (textValue ((toDigits 10 n).take s)))
  rw [← hsplit] at hdvd
  rw [AtMostSignificant, ← textValue_eq_zero_iff _ htail, decimalUnit, hdvd]
  exact ⟨fun hzero => hzero ▸ dvd_zero _, fun h => eq_zero_of_dvd_of_lt h hlow⟩

theorem length_toDigits_mono {a b : Nat} (h : a ≤ b) :
    (Nat.toDigits 10 a).length ≤ (Nat.toDigits 10 b).length :=
  (length_toDigits_le_iff (by norm_num) length_toDigits_pos).mpr
    (h.trans_lt (lt_pow_length b))

theorem atMostSignificant_roundedUp (hs : 0 < s) (amount : Nat) :
    AtMostSignificant s (roundedUp amount s) := by
  rw [atMostSignificant_iff, decimalUnit]
  rcases (roundedUp_le amount s).lt_or_eq with hlt | heq
  · have hlen := (length_toDigits_le_iff (by norm_num) length_toDigits_pos).mpr hlt
    exact (pow_dvd_pow 10 (Nat.sub_le_sub_right hlen s)).trans (Nat.dvd_mul_left _ _)
  · have hlen : (toDigits 10 (roundedUp amount s)).length ≤
        (toDigits 10 amount).length + 1 := by
      refine (length_toDigits_le_iff (by norm_num) (succ_pos _)).mpr ?_
      rw [heq]
      exact Nat.pow_lt_pow_right (by norm_num) (lt_succ_self _)
    have hunit : 10 ^ ((toDigits 10 (roundedUp amount s)).length - s) ∣
        10 ^ (toDigits 10 amount).length := pow_dvd_pow 10 (by omega)
    rwa [← heq] at hunit

theorem roundedUp_least {n : Nat} (h : amount ≤ n) (hn : AtMostSignificant s n) :
    roundedUp amount s ≤ n := by
  have hunit : decimalUnit amount s ∣ decimalUnit n s :=
    pow_dvd_pow 10 (Nat.sub_le_sub_right (length_toDigits_mono h) s)
  obtain ⟨k, rfl⟩ := hunit.trans ((atMostSignificant_iff s n).mp hn)
  rw [roundedUp, mul_comm (decimalUnit amount s) k]
  refine mul_le_mul_right _ (le_of_lt_succ ((div_lt_iff_lt_mul
    (decimalUnit_pos amount s)).mpr ?_))
  have hpos := decimalUnit_pos amount s
  rw [succ_mul, mul_comm k]
  omega

theorem roundMoneyUp_throws (h : 2 ^ 64 ≤ roundedUp amount s) :
    ∃ message, roundMoneyUp amount s = .error message := by
  have hread : strtoull (roundText (toDigits 10 amount) s) = (2 ^ 64 - 1, true) := by
    rw [strtoull, ← textValue, roundText_value]
    exact if_neg (not_lt.mpr h)
  simp only [roundMoneyUp, hread]
  by_cases hs : 0 < s
  · rw [check_decide hs]
    exact ⟨_, rfl⟩
  · rw [decide_eq_false hs]
    exact ⟨_, rfl⟩

theorem round_money_up_is_least (hs : 0 < s) :
    (∀ amount, ∃ least, IsLeast {n | amount ≤ n ∧ AtMostSignificant s n} least ∧
      (∀ r, roundMoneyUp amount s = .ok r ↔ r = least ∧ least < 2 ^ 64) ∧
      ((∃ message, roundMoneyUp amount s = .error message) ↔ 2 ^ 64 ≤ least)) ∧
    (∀ a b rb, a ≤ b → roundMoneyUp b s = .ok rb → ∃ ra ≤ rb, roundMoneyUp a s = .ok ra) ∧
    ∀ a r, roundMoneyUp a s = .ok r → roundMoneyUp r s = .ok r := by
  have hok : ∀ {a r}, roundMoneyUp a s = .ok r → r = roundedUp a s ∧ roundedUp a s < 2 ^ 64 := by
    intro a r h
    rcases lt_or_ge (roundedUp a s) (2 ^ 64) with hlt | hge
    · rw [roundMoneyUp_eq hs hlt] at h
      exact ⟨(Except.ok.inj h).symm, hlt⟩
    · obtain ⟨message, herror⟩ := roundMoneyUp_throws hge
      rw [herror] at h
      cases h
  refine ⟨?_, ?_, ?_⟩
  · intro amount
    refine ⟨roundedUp amount s, ⟨⟨le_roundedUp amount s, atMostSignificant_roundedUp hs amount⟩,
      fun n hn => roundedUp_least hn.1 hn.2⟩, fun r => ⟨hok, ?_⟩, ?_, roundMoneyUp_throws⟩
    · rintro ⟨rfl, hlt⟩
      exact roundMoneyUp_eq hs hlt
    · rintro ⟨message, herror⟩
      by_contra hlt
      rw [roundMoneyUp_eq hs (not_le.mp hlt)] at herror
      cases herror
  · intro a b rb hab hb
    obtain ⟨rfl, hlt⟩ := hok hb
    exact ⟨_, roundedUp_mono hab, roundMoneyUp_eq hs ((roundedUp_mono hab).trans_lt hlt)⟩
  · intro a r h
    obtain ⟨rfl, hlt⟩ := hok h
    have hsame : roundedUp (roundedUp a s) s = roundedUp a s := le_antisymm
      (roundedUp_least le_rfl (atMostSignificant_roundedUp hs a)) (le_roundedUp _ s)
    rw [roundMoneyUp_eq hs (hsame.trans_lt hlt), hsame]

theorem carried_amount_rounds : roundMoneyUp 999961 4 = .ok 1000000 ∧
    IsLeast {n | 999961 ≤ n ∧ AtMostSignificant 4 n} 1000000 := by
  have hround : roundMoneyUp 999961 4 = .ok 1000000 := by decide +kernel
  obtain ⟨least, hleast, hok, -⟩ := (round_money_up_is_least (s := 4) (by decide)).1 999961
  obtain ⟨rfl, -⟩ := (hok 1000000).mp hround
  exact ⟨hround, hleast⟩

end Jero.Common
