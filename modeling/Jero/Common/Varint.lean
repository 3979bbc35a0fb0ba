import Jero.Machine.Word

namespace Jero.Common
open List Nat

abbrev Bytes := List UInt8

def writeVarintFrom : Nat → Nat → Bytes
  | 0, i => [UInt8.ofNat i]
  | fuel + 1, i =>
    if i ≥ 0x80 then UInt8.ofNat (i % 128 + 128) :: writeVarintFrom fuel (i / 128)
    else [UInt8.ofNat i]

def writeVarint (i : Nat) : Bytes := writeVarintFrom i i

def getVarintByteSizeFrom : Nat → Nat → Nat → Nat
  | 0, bytes, _ => bytes
  | fuel + 1, bytes, val =>
    if val / 128 = 0 then bytes + 1 else getVarintByteSizeFrom fuel (bytes + 1) (val / 128)

def getVarintByteSize (val : Nat) : Nat := getVarintByteSizeFrom (val + 1) 0 val

inductive VarintError where
  | overflow
  | represent
deriving DecidableEq, Repr

structure VarintRead where
  read : Nat
  write : Nat
  rest : Bytes
deriving DecidableEq, Repr

def readVarintFrom (bits : Nat) : Nat → Nat → Nat → Bytes → Except VarintError VarintRead
  | _, read, write, [] => .ok ⟨read, write, []⟩
  | shift, read, write, byte :: rest =>
    if shift + 7 ≥ bits ∧ byte.toNat ≥ 2 ^ (bits - shift) then .error .overflow
    else if byte = 0 ∧ shift ≠ 0 then .error .represent
    else
      let write := write ||| (byte.toNat % 128) <<< shift
      if byte.toNat < 128 then .ok ⟨read + 1, write, rest⟩
      else readVarintFrom bits (shift + 7) (read + 1) write rest

def readVarint (bits : Nat) (bytes : Bytes) : Except VarintError VarintRead :=
  readVarintFrom bits 0 0 0 bytes

variable {i digit write shift bits : Nat} {bytes : Bytes} {r : VarintRead}

theorem toNat_ofNat_of_lt {n : Nat} (h : n < 256) : (UInt8.ofNat n).toNat = n := by
  rw [UInt8.toNat_ofNat']
  exact mod_eq_of_lt h

theorem writeVarintFrom_fuel {fuel fuel' : Nat} (h : i ≤ fuel) (h' : i ≤ fuel') :
    writeVarintFrom fuel i = writeVarintFrom fuel' i := by
  induction fuel generalizing fuel' i with
  | zero =>
    obtain rfl : i = 0 := le_zero.mp h
    cases fuel' <;> rfl
  | succ fuel ih =>
    cases fuel' with
    | zero =>
      obtain rfl : i = 0 := le_zero.mp h'
      rfl
    | succ fuel' =>
      simp only [writeVarintFrom]
      split
      · rw [@ih (i / 128) fuel' (by omega) (by omega)]
      · rfl

theorem writeVarint_small (h : i < 128) : writeVarint i = [UInt8.ofNat i] := by
  unfold writeVarint
  cases i with
  | zero => rfl
  | succ i => rw [writeVarintFrom, if_neg (by omega)]

theorem writeVarint_large (h : 128 ≤ i) :
    writeVarint i = UInt8.ofNat (i % 128 + 128) :: writeVarint (i / 128) := by
  unfold writeVarint
  obtain ⟨k, rfl⟩ : ∃ k, i = k + 1 := ⟨i - 1, by omega⟩
  rw [writeVarintFrom, if_pos h, writeVarintFrom_fuel (by omega) le_rfl]

theorem writeVarint_digit {high : Nat} (hdigit : digit < 128) (hhigh : 0 < high) :
    writeVarint (digit + 128 * high) = UInt8.ofNat (digit + 128) :: writeVarint high := by
  rw [writeVarint_large (by omega)]
  have hmod : (digit + 128 * high) % 128 = digit := by omega
  have hdiv : (digit + 128 * high) / 128 = high := by omega
  rw [hmod, hdiv]

theorem writeVarint_induction {P : Nat → Prop} (small : ∀ i, i < 128 → P i)
    (large : ∀ digit high, digit < 128 → 0 < high → P high → P (digit + 128 * high)) (i : Nat) :
    P i := by
  induction i using Nat.strongRecOn with
  | ind i ih =>
    rcases lt_or_ge i 128 with hsmall | hlarge
    · exact small i hsmall
    · rw [← mod_add_div i 128]
      exact large _ _ (mod_lt _ (by decide)) (by omega) (ih _ (by omega))

theorem writeVarint_ne_nil (i : Nat) : writeVarint i ≠ [] := by
  rcases lt_or_ge i 128 with hsmall | hlarge
  · rw [writeVarint_small hsmall]
    simp
  · rw [writeVarint_large hlarge]
    simp

theorem exists_small_of_writeVarint (i : Nat) : ∃ b ∈ writeVarint i, b.toNat < 128 := by
  induction i using writeVarint_induction with
  | small i hi =>
    rw [writeVarint_small hi]
    exact ⟨_, mem_singleton_self _, by rw [toNat_ofNat_of_lt (by omega)]; exact hi⟩
  | large digit high hdigit hhigh ih =>
    obtain ⟨b, hb, hlt⟩ := ih
    rw [writeVarint_digit hdigit hhigh]
    exact ⟨b, mem_cons_of_mem _ hb, hlt⟩

theorem place_or (h : write < 2 ^ shift) (digit : Nat) :
    write ||| digit <<< shift = write + digit * 2 ^ shift := by
  rw [shiftLeft_eq, Nat.or_comm, Nat.mul_comm, ← two_pow_add_eq_or_of_lt h, Nat.add_comm]

theorem place_lt (h : write < 2 ^ shift) (hdigit : digit < 128) :
    write + digit * 2 ^ shift < 2 ^ (shift + 7) := by
  have hle : digit * 2 ^ shift ≤ 127 * 2 ^ shift := Nat.mul_le_mul_right _ (by omega)
  rw [Nat.pow_add]
  omega

theorem pow_split (hroom : shift + 7 ≤ bits) :
    2 ^ (bits - shift) = 2 ^ (bits - (shift + 7)) * 128 := by
  rw [show bits - shift = bits - (shift + 7) + 7 by omega, Nat.pow_add]

theorem room_of_large {v : Nat} (hfits : ¬ (shift + 7 ≥ bits ∧ 2 ^ (bits - shift) ≤ v))
    (hlarge : 128 ≤ v) : shift + 7 < bits := by
  by_contra hfull
  refine hfits ⟨Nat.le_of_not_lt hfull, ?_⟩
  have hpow : 2 ^ (bits - shift) ≤ 2 ^ 7 := Nat.pow_le_pow_right (by decide) (by omega)
  omega

theorem readVarintFrom_write (hshift : shift ≤ bits) (hwrite : write < 2 ^ shift) (v : Nat)
    (hv : v < 2 ^ (bits - shift)) (hzero : v ≠ 0 ∨ shift = 0) (read : Nat) (rest : Bytes) :
    readVarintFrom bits shift read write (writeVarint v ++ rest) =
      .ok ⟨read + (writeVarint v).length, write + v * 2 ^ shift, rest⟩ := by
  induction v using writeVarint_induction generalizing shift write read with
  | small v hsmall =>
    have hbyte := toNat_ofNat_of_lt (show v < 256 by omega)
    have hnonzero : ¬ (UInt8.ofNat v = 0 ∧ shift ≠ 0) := by
      rintro ⟨hv0, hs⟩
      have hvzero : v = 0 := by rw [← hbyte, hv0]; rfl
      exact hzero.elim (fun hne => hne hvzero) hs
    rw [writeVarint_small hsmall, singleton_append, readVarintFrom, hbyte,
      if_neg (by omega), if_neg hnonzero, if_pos hsmall, mod_eq_of_lt hsmall, place_or hwrite]
    rfl
  | large digit high hdigit hhigh ih =>
    have hbyte := toNat_ofNat_of_lt (show digit + 128 < 256 by omega)
    have hroom : shift + 7 < bits :=
      room_of_large (fun h => absurd h.2 (not_le.mpr hv)) (by omega)
    have hhigher : high < 2 ^ (bits - (shift + 7)) := by
      have hsplit := pow_split hroom.le
      omega
    have hnonzero : ¬ (UInt8.ofNat (digit + 128) = 0 ∧ shift ≠ 0) := by
      rintro ⟨h0, -⟩
      rw [h0] at hbyte
      exact absurd hbyte (by simp)
    rw [writeVarint_digit hdigit hhigh, cons_append, readVarintFrom, hbyte,
      if_neg (by omega), if_neg hnonzero, if_neg (by omega),
      show (digit + 128) % 128 = digit by omega, place_or hwrite,
      ih hroom.le (place_lt hwrite hdigit) hhigher (.inl hhigh.ne')]
    congr 2
    · rw [length_cons]
      omega
    · rw [pow_add]
      ring

theorem readVarint_write {v : Nat} (hv : v < 2 ^ bits) (rest : Bytes) :
    readVarint bits (writeVarint v ++ rest) = .ok ⟨(writeVarint v).length, v, rest⟩ := by
  unfold readVarint
  rw [readVarintFrom_write (zero_le _) (by simp) v (by simpa using hv) (.inr rfl)]
  simp

def Unterminated (bytes : Bytes) : Prop := ∀ b ∈ bytes, 128 ≤ b.toNat

instance (bytes : Bytes) : Decidable (Unterminated bytes) := List.decidableBAll _ _

theorem unterminated_ne_writeVarint (h : Unterminated bytes) (v : Nat) (rest : Bytes) :
    bytes ≠ writeVarint v ++ rest := by
  rintro rfl
  obtain ⟨b, hb, hlt⟩ := exists_small_of_writeVarint v
  exact absurd (h b (mem_append_left _ hb)) (by omega)

structure ReadExact (bits shift read write : Nat) (bytes : Bytes) (v : Nat) (r : VarintRead) :
    Prop where
  value : r.write = write + v * 2 ^ shift
  bound : v < 2 ^ (bits - shift)
  consumed : (bytes = writeVarint v ++ r.rest ∧ r.read = read + (writeVarint v).length ∧
      (shift = 0 ∨ v ≠ 0)) ∨
    (Unterminated bytes ∧ r.rest = [] ∧ r.read = read + bytes.length)

theorem ReadExact.cons {read v : Nat} {byte : UInt8} (hroom : shift + 7 < bits)
    (hbyte : byte.toNat = digit + 128)
    (h : ReadExact bits (shift + 7) (read + 1) (write + digit * 2 ^ shift) bytes v r) :
    ReadExact bits shift read write (byte :: bytes) (digit + 128 * v) r := by
  have hdigit : digit < 128 := by
    have hlt := byte.toNat_lt
    omega
  refine ⟨?_, ?_, ?_⟩
  · rw [h.value, pow_add]
    ring
  · have hsplit := pow_split hroom.le
    have hbound := h.bound
    omega
  · rcases h.consumed with ⟨hbytes, hread, hnonzero⟩ | ⟨hopen, hrest, hread⟩
    · have hv : 0 < v := pos_of_ne_zero (hnonzero.resolve_left (by omega))
      refine .inl ⟨?_, ?_, .inr (by omega)⟩
      · rw [writeVarint_digit hdigit hv, cons_append, ← hbytes, ← hbyte, UInt8.ofNat_toNat]
      · rw [writeVarint_digit hdigit hv, length_cons, hread]
        omega
    · refine .inr ⟨forall_mem_cons.mpr ⟨by omega, hopen⟩, hrest, ?_⟩
      rw [hread, length_cons]
      omega

theorem readVarintFrom_exact {read : Nat} (hwrite : write < 2 ^ shift)
    (h : readVarintFrom bits shift read write bytes = .ok r) :
    ∃ v, ReadExact bits shift read write bytes v r := by
  induction bytes generalizing shift read write with
  | nil =>
    obtain rfl := Except.ok.inj h
    refine ⟨0, by simp, Nat.two_pow_pos _, .inr ⟨?_, rfl, rfl⟩⟩
    intro b hb
    cases hb
  | cons byte bytes ih =>
    have hlt := byte.toNat_lt
    simp only [readVarintFrom] at h
    split at h
    · cases h
    rename_i hfits
    split at h
    · cases h
    rename_i hcanonical
    have hmod : byte.toNat % 128 < 128 := mod_lt _ (by decide)
    rw [place_or hwrite] at h
    split at h
    · rename_i hlast
      obtain rfl := Except.ok.inj h
      refine ⟨byte.toNat, by rw [mod_eq_of_lt hlast], ?_, .inl ⟨?_, ?_, ?_⟩⟩
      · by_contra hbig
        have hpow : 2 ^ 7 < 2 ^ (bits - shift) ∨ shift + 7 ≥ bits := by
          rcases lt_or_ge (shift + 7) bits with hroom | hfull
          · exact .inl (Nat.pow_lt_pow_right (by decide) (by omega))
          · exact .inr hfull
        rcases hpow with hpow | hfull
        · omega
        · exact hfits ⟨hfull, Nat.le_of_not_lt hbig⟩
      · rw [writeVarint_small hlast, UInt8.ofNat_toNat]
        rfl
      · rw [writeVarint_small hlast]
        rfl
      · by_contra hzero
        obtain ⟨hshift, hbyte⟩ := not_or.mp hzero
        exact hcanonical ⟨UInt8.toNat_inj.mp (not_not.mp hbyte), hshift⟩
    · rename_i hmore
      obtain ⟨v, hv⟩ := ih (place_lt hwrite hmod) h
      exact ⟨_, hv.cons (room_of_large hfits (by omega)) (by omega)⟩

theorem readVarint_exact (h : readVarint bits bytes = .ok r) :
    r.write < 2 ^ bits ∧
      ((bytes = writeVarint r.write ++ r.rest ∧ r.read = (writeVarint r.write).length) ∨
        (Unterminated bytes ∧ r.rest = [] ∧ r.read = bytes.length)) := by
  obtain ⟨v, hvalue, hbound, hconsumed⟩ := readVarintFrom_exact one_pos h
  rw [pow_zero, mul_one, zero_add] at hvalue
  rw [hvalue]
  simp only [zero_add] at hconsumed
  exact ⟨hbound, hconsumed.imp_left (fun hdone => ⟨hdone.1, hdone.2.1⟩)⟩

theorem getVarintByteSizeFrom_eq (val fuel bytes : Nat) (h : val < fuel) :
    getVarintByteSizeFrom fuel bytes val = bytes + (writeVarint val).length := by
  induction val using writeVarint_induction generalizing fuel bytes with
  | small val hsmall =>
    obtain ⟨fuel, rfl⟩ := exists_eq_add_one_of_ne_zero (ne_zero_of_lt h)
    rw [getVarintByteSizeFrom, if_pos (by omega), writeVarint_small hsmall, length_singleton]
  | large digit high hdigit hhigh ih =>
    obtain ⟨fuel, rfl⟩ := exists_eq_add_one_of_ne_zero (ne_zero_of_lt h)
    have hdiv : (digit + 128 * high) / 128 = high := by omega
    rw [getVarintByteSizeFrom, hdiv, if_neg hhigh.ne', ih fuel (bytes + 1) (by omega),
      writeVarint_digit hdigit hhigh, length_cons]
    omega

theorem varint_codec_iff_terminated (bits : Nat) :
    (∀ v < 2 ^ bits, ∀ rest,
      readVarint bits (writeVarint v ++ rest) = .ok ⟨getVarintByteSize v, v, rest⟩) ∧
    ∀ bytes r, readVarint bits bytes = .ok r → bytes.drop r.read = r.rest ∧
      (bytes.take r.read = writeVarint r.write ↔ ∃ b ∈ bytes, b.toNat < 128) := by
  refine ⟨?_, ?_⟩
  · intro v hv rest
    rw [readVarint_write hv, getVarintByteSize, getVarintByteSizeFrom_eq v _ 0 (lt_succ_self v),
      zero_add]
  · intro bytes r h
    rcases (readVarint_exact h).2 with ⟨hbytes, hread⟩ | ⟨hopen, hrest, hread⟩
    · obtain ⟨b, hb, hlt⟩ := exists_small_of_writeVarint r.write
      rw [hread, hbytes, drop_left, take_left]
      exact ⟨rfl, fun _ => ⟨b, mem_append_left _ hb, hlt⟩, fun _ => rfl⟩
    · rw [hread, drop_length, take_length, hrest]
      refine ⟨rfl, fun heq => ?_, fun ⟨b, hb, hlt⟩ => absurd (hopen b hb) (by omega)⟩
      rw [heq]
      exact exists_small_of_writeVarint r.write

theorem three_hundred_read_back :
    readVarint 64 [0xac, 0x02, 0xff] = .ok ⟨2, 300, [0xff]⟩ ∧ [0xac, 0x02] = writeVarint 300 := by
  have hcodec := varint_codec_iff_terminated 64
  have hread : readVarint 64 [0xac, 0x02, 0xff] = .ok ⟨2, 300, [0xff]⟩ :=
    hcodec.1 300 (by decide) [0xff]
  exact ⟨hread, (hcodec.2 _ _ hread).2.mpr ⟨0x02, by decide, by decide⟩⟩

theorem truncated_varint_accepted :
    readVarint 64 [0x80] = .ok ⟨1, 0, []⟩ ∧ [0x80] ≠ writeVarint 0 := by
  decide

end Jero.Common
