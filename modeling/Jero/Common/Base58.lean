import Jero.Common.Varint
import Jero.Lists.Chunks
import Jero.Lists.Numerals
import Jero.Machine.Bytes

namespace Jero.Common.Base58
open Jero.Machine Jero.Lists Nat
open List hiding Vector
variable {n i resNum : Nat} {ds : List Nat} {block data : Bytes}

def alphabet : List UInt8 :=
  [49, 50, 51, 52, 53, 54, 55, 56, 57, 65, 66, 67, 68, 69, 70, 71, 72, 74, 75, 76, 77, 78, 80,
    81, 82, 83, 84, 85, 86, 87, 88, 89, 90, 97, 98, 99, 100, 101, 102, 103, 104, 105, 106, 107,
    109, 110, 111, 112, 113, 114, 115, 116, 117, 118, 119, 120, 121, 122]

def letter (digit : Nat) : UInt8 := alphabet.getD digit 0

def encodedBlockSizes : List Nat := [0, 2, 3, 5, 6, 7, 9, 10, 11]

def encodedBlockSize (size : Nat) : Nat := encodedBlockSizes.getD size 0

def fullBlockSize : Nat := 8

def fullEncodedBlockSize : Nat := 11

def reverseAlphabet : List Int :=
  alphabet.zipIdx.foldl (fun data e => data.set (e.1.toNat - 49) e.2) (List.replicate 74 (-1))

def digitOf (c : UInt8) : Int :=
  if c.toNat < 49 then -1 else reverseAlphabet.getD (c.toNat - 49) (-1)

def decodedBlockSizes : List Int :=
  encodedBlockSizes.zipIdx.foldl (fun data e => data.set e.1 e.2)
    (List.replicate (fullEncodedBlockSize + 1) (-1))

def decodedBlockSize (size : Nat) : Int := decodedBlockSizes.getD size (-1)

def uint8beTo64 (data : Bytes) : Nat := littleEndian data.reverse

def uint64To8be (num size : Nat) : Bytes := ((digitsAt 256 size num).map UInt8.ofNat).reverse

def encodeLoop : Nat → Nat → Bytes → Bytes
  | 0, _, res => res
  | i + 1, num, res =>
    if 0 < num then encodeLoop i (num / alphabet.length) (res.set i (letter (num % alphabet.length)))
    else res

def encodeBlock (block : Bytes) : Bytes :=
  let size := encodedBlockSize block.length
  encodeLoop size (uint8beTo64 block) (List.replicate size (letter 0))

def decodeLoop : Bytes → Nat → Nat → Option Nat
  | [], resNum, _ => some resNum
  | c :: rest, resNum, order =>
    if digitOf c < 0 then none
    else
      let (product, productHi) := mul64 order (digitOf c).toNat
      let tmp := wrap (resNum + product)
      if tmp < resNum ∨ productHi ≠ 0 then none
      else decodeLoop rest tmp (wrap (order * alphabet.length))

def decodeBlock (block : Bytes) : Option Bytes :=
  let resSize := decodedBlockSize block.length
  if resSize ≤ 0 then none
  else match decodeLoop block.reverse 0 1 with
    | none => none
    | some resNum =>
      if resSize.toNat < fullBlockSize ∧ 2 ^ (8 * resSize.toNat) ≤ resNum then none
      else some (uint64To8be resNum resSize.toNat)

def encode (data : Bytes) : Bytes :=
  if data.isEmpty then []
  else (fullChunks fullBlockSize data).flatMap encodeBlock ++
    (if 0 < data.length % fullBlockSize then encodeBlock (lastChunk fullBlockSize data) else [])

def decodeBlocks : List Bytes → Option Bytes
  | [] => some []
  | block :: blocks =>
    match decodeBlock block with
    | none => none
    | some data => (decodeBlocks blocks).map (data ++ ·)

def decode (enc : Bytes) : Option Bytes :=
  if enc.isEmpty then some []
  else
    let lastBlockSize := enc.length % fullEncodedBlockSize
    if decodedBlockSize lastBlockSize < 0 then none
    else
      decodeBlocks (fullChunks fullEncodedBlockSize enc ++
        (if 0 < lastBlockSize then [lastChunk fullEncodedBlockSize enc] else []))

theorem length_alphabet : alphabet.length = 58 := rfl

theorem digitOf_letter {d : Nat} (h : d < 58) : digitOf (letter d) = d := by
  have hall : ∀ d : Fin 58, digitOf (letter d) = d := by decide +kernel
  exact hall ⟨d, h⟩

theorem letter_digitOf {c : UInt8} (h : ¬ digitOf c < 0) :
    (digitOf c).toNat < 58 ∧ letter (digitOf c).toNat = c := by
  have hall : ∀ n : Fin 256, ¬ digitOf (UInt8.ofNat n) < 0 →
      (digitOf (UInt8.ofNat n)).toNat < 58 ∧
        letter (digitOf (UInt8.ofNat n)).toNat = UInt8.ofNat n := by decide +kernel
  have hc := hall ⟨c.toNat, c.toNat_lt⟩
  simp only [UInt8.ofNat_toNat] at hc
  exact hc h

theorem decodedBlockSize_encodedBlockSize (h : n ≤ 8) :
    decodedBlockSize (encodedBlockSize n) = n := by
  have hall : ∀ n : Fin 9, decodedBlockSize (encodedBlockSize n) = n := by decide
  exact hall ⟨n, by omega⟩

theorem encodedBlockSize_decodedBlockSize {k : Nat} (h : k ≤ 11) (hk : 0 ≤ decodedBlockSize k) :
    encodedBlockSize (decodedBlockSize k).toNat = k ∧ (decodedBlockSize k).toNat ≤ 8 := by
  have hall : ∀ k : Fin 12, 0 ≤ decodedBlockSize k →
      encodedBlockSize (decodedBlockSize k).toNat = k ∧ (decodedBlockSize k).toNat ≤ 8 := by decide
  exact hall ⟨k, by omega⟩ hk

theorem block_fits (h : n ≤ 8) : 256 ^ n ≤ 58 ^ encodedBlockSize n := by
  have hall : ∀ n : Fin 9, 256 ^ n.val ≤ 58 ^ encodedBlockSize n := by decide
  exact hall ⟨n, by omega⟩

theorem encodedBlockSize_le (h : n ≤ 8) : encodedBlockSize n ≤ 11 := by
  have hall : ∀ n : Fin 9, encodedBlockSize n ≤ 11 := by decide
  exact hall ⟨n, by omega⟩

theorem encodedBlockSize_lt (h : n < 8) : encodedBlockSize n < 11 := by
  have hall : ∀ n : Fin 8, encodedBlockSize n < 11 := by decide
  exact hall ⟨n, h⟩

theorem littleEndian_eq_ofDigits (bytes : Bytes) :
    littleEndian bytes = Nat.ofDigits 256 (bytes.map UInt8.toNat) := by
  induction bytes with
  | nil => rfl
  | cons b bytes ih => rw [littleEndian, ih, map_cons, ofDigits_cons]

theorem length_uint64To8be (num size : Nat) : (uint64To8be num size).length = size := by
  rw [uint64To8be, length_reverse, length_map, length_digitsAt]

theorem map_toNat_ofNat (h : ∀ d ∈ ds, d < 256) : (ds.map UInt8.ofNat).map UInt8.toNat = ds := by
  rw [map_map]
  refine (map_congr_left ?_).trans (map_id ds)
  intro d hd
  exact toNat_ofNat_of_lt (h d hd)

theorem uint8beTo64_uint64To8be {num size : Nat} (h : num < 256 ^ size) :
    uint8beTo64 (uint64To8be num size) = num := by
  rw [uint8beTo64, uint64To8be, reverse_reverse, littleEndian_eq_ofDigits,
    map_toNat_ofNat (digitsAt_lt (by decide) _ _), ofDigits_digitsAt h]

theorem uint64To8be_uint8beTo64 (data : Bytes) :
    uint64To8be (uint8beTo64 data) data.length = data := by
  have hbytes : ∀ d ∈ data.reverse.map UInt8.toNat, d < 256 := by
    intro d hd
    obtain ⟨b, -, rfl⟩ := mem_map.mp hd
    exact b.toNat_lt
  have hlength : data.length = (data.reverse.map UInt8.toNat).length := by simp
  rw [uint64To8be, uint8beTo64, littleEndian_eq_ofDigits, hlength,
    digitsAt_ofDigits (by decide) _ hbytes, map_map]
  have hid : data.reverse.map (UInt8.ofNat ∘ UInt8.toNat) = data.reverse := by
    refine (map_congr_left ?_).trans (map_id _)
    intro b _
    exact UInt8.ofNat_toNat
  rw [hid, reverse_reverse]

theorem encodeLoop_eq (k num : Nat) (res : Bytes) (hk : k ≤ res.length)
    (hzero : res.take k = List.replicate k (letter 0)) :
    encodeLoop k num res = ((digitsAt 58 k num).map letter).reverse ++ res.drop k := by
  induction k generalizing num res with
  | zero => rfl
  | succ k ih =>
    simp only [encodeLoop, length_alphabet]
    split
    · have hset : (res.set k (letter (num % 58))).drop k =
          letter (num % 58) :: res.drop (k + 1) := by
        rw [drop_set, if_neg (lt_irrefl k), Nat.sub_self, drop_eq_getElem_cons hk, set_cons_zero]
      have hprev : (res.set k (letter (num % 58))).take k = replicate k (letter 0) := by
        rw [take_set_of_le le_rfl]
        have htake := congrArg (take k) hzero
        rwa [take_take, min_eq_left (le_succ k), take_replicate, min_eq_left (le_succ k)] at htake
      rw [ih _ _ (by rw [length_set]; omega) hprev, hset, digitsAt, map_cons,
        reverse_cons, append_assoc, singleton_append]
    · rename_i hdone
      obtain rfl : num = 0 := by omega
      rw [digitsAt_zero, map_replicate, reverse_replicate, ← hzero, take_append_drop]

theorem encodeBlock_eq (block : Bytes) : encodeBlock block =
    ((digitsAt 58 (encodedBlockSize block.length) (uint8beTo64 block)).map letter).reverse := by
  unfold encodeBlock
  rw [encodeLoop_eq _ _ _ (by simp) (by simp)]
  simp

theorem length_encodeBlock (block : Bytes) :
    (encodeBlock block).length = encodedBlockSize block.length := by
  rw [encodeBlock_eq, length_reverse, length_map, length_digitsAt]

theorem wrap_order (i : Nat) : wrap (wrap (58 ^ i) * alphabet.length) = wrap (58 ^ (i + 1)) := by
  rw [length_alphabet, pow_succ]
  unfold wrap
  rw [mod_mul_mod]

theorem wrap_order_of_le (h : i ≤ 10) : wrap (58 ^ i) = 58 ^ i := by
  refine wrap_of_lt (lt_of_le_of_lt (Nat.pow_le_pow_right (by decide) h) ?_)
  norm_num

theorem decodeLoop_step {digit : Nat} (hi : i ≤ 10) (hres : resNum < 2 ^ 64) (hdigit : digit < 58)
    (rest : Bytes) :
    decodeLoop (letter digit :: rest) resNum (wrap (58 ^ i)) =
      if resNum + 58 ^ i * digit < 2 ^ 64 then
        decodeLoop rest (resNum + 58 ^ i * digit) (wrap (58 ^ (i + 1)))
      else none := by
  have hnat : (digitOf (letter digit)).toNat = digit := by
    rw [digitOf_letter hdigit]
    rfl
  have hnonneg : ¬ digitOf (letter digit) < 0 := by
    rw [digitOf_letter hdigit]
    omega
  simp only [decodeLoop, if_neg hnonneg, hnat, wrap_order, mul64]
  rw [wrap_order_of_le hi]
  generalize 58 ^ i * digit = product
  by_cases hfits : resNum + product < 2 ^ 64
  · have hproduct : product < 2 ^ 64 := by omega
    rw [wrap_of_lt hproduct, wrap_of_lt hfits, div_eq_of_lt hproduct, if_pos hfits,
      if_neg (by omega)]
  · rw [if_neg hfits, if_pos]
    rcases lt_or_ge product (2 ^ 64) with hsmall | hbig
    · left
      rw [wrap_of_lt hsmall]
      unfold wrap
      omega
    · right
      exact (div_pos hbig (by norm_num)).ne'

theorem decodeLoop_letters (hds : ∀ d ∈ ds, d < 58) (hlength : i + ds.length ≤ 11)
    (hres : resNum < 2 ^ 64) :
    decodeLoop (ds.map letter) resNum (wrap (58 ^ i)) =
      if resNum + 58 ^ i * Nat.ofDigits 58 ds < 2 ^ 64 then
        some (resNum + 58 ^ i * Nat.ofDigits 58 ds)
      else none := by
  induction ds generalizing i resNum with
  | nil =>
    rw [ofDigits_nil, Nat.mul_zero, add_zero, if_pos hres]
    rfl
  | cons d ds ih =>
    obtain ⟨hd, hrest⟩ := forall_mem_cons.mp hds
    rw [length_cons] at hlength
    have hvalue : resNum + 58 ^ i * ofDigits 58 (d :: ds) =
        resNum + 58 ^ i * d + 58 ^ (i + 1) * ofDigits 58 ds := by
      rw [ofDigits_cons, pow_succ]
      ring
    rw [map_cons, decodeLoop_step (by omega) hres hd, hvalue]
    split
    · rename_i hfits
      exact ih hrest (by omega) hfits
    · rename_i hover
      rw [if_neg]
      intro hsum
      exact hover (by omega)

theorem decodeLoop_initial (hds : ∀ d ∈ ds, d < 58) (hlength : ds.length ≤ 11) :
    decodeLoop (ds.map letter) 0 1 =
      if Nat.ofDigits 58 ds < 2 ^ 64 then some (Nat.ofDigits 58 ds) else none := by
  have hspec := @decodeLoop_letters 0 0 ds hds (by omega) (by norm_num)
  rwa [Nat.zero_add, Nat.pow_zero, Nat.one_mul, wrap_of_lt (by norm_num)] at hspec

theorem decodeLoop_digits {cs : Bytes} {order v : Nat} (h : decodeLoop cs resNum order = some v) :
    ∃ ds : List Nat, cs = ds.map letter ∧ ∀ d ∈ ds, d < 58 := by
  induction cs generalizing resNum order with
  | nil => exact ⟨[], rfl, fun d hd => by cases hd⟩
  | cons c cs ih =>
    simp only [decodeLoop] at h
    split at h
    · cases h
    · rename_i hdigit
      split at h
      · cases h
      · obtain ⟨ds, rfl, hds⟩ := ih h
        obtain ⟨hlt, hletter⟩ := letter_digitOf hdigit
        exact ⟨(digitOf c).toNat :: ds, by rw [map_cons, hletter], forall_mem_cons.mpr ⟨hlt, hds⟩⟩

theorem pow_two_eight (n : Nat) : 2 ^ (8 * n) = 256 ^ n := by
  rw [Nat.pow_mul]

theorem decodeBlock_encodeBlock (hpos : 0 < block.length) (hle : block.length ≤ 8) :
    decodeBlock (encodeBlock block) = some block := by
  set n := block.length with hn
  have hvalue : uint8beTo64 block < 256 ^ block.length := by
    have hlt := littleEndian_lt block.reverse
    rwa [length_reverse] at hlt
  rw [← hn] at hvalue
  have hbound : uint8beTo64 block < 2 ^ 64 :=
    hvalue.trans_le ((Nat.pow_le_pow_right (by decide) hle).trans_eq (by norm_num))
  have hsize : decodedBlockSize (encodeBlock block).length = n := by
    rw [length_encodeBlock, ← hn]
    exact decodedBlockSize_encodedBlockSize hle
  have hdigits := digitsAt_lt (show 0 < 58 by decide) (encodedBlockSize n) (uint8beTo64 block)
  have hloop : decodeLoop (encodeBlock block).reverse 0 1 = some (uint8beTo64 block) := by
    rw [encodeBlock_eq, reverse_reverse, ← hn, decodeLoop_initial hdigits
      ((length_digitsAt _ _ _).trans_le (encodedBlockSize_le hle)),
      ofDigits_digitsAt (hvalue.trans_le (block_fits hle)), if_pos hbound]
  simp only [decodeBlock, hsize, hloop, Int.toNat_natCast]
  rw [if_neg (by omega), if_neg]
  · rw [hn, uint64To8be_uint8beTo64]
  · rintro ⟨-, hover⟩
    rw [pow_two_eight] at hover
    omega

structure BlockDecodes (block data : Bytes) : Prop where
  encodes : encodeBlock data = block
  positive : 0 < data.length
  bounded : data.length ≤ 8

theorem encodeBlock_decodeBlock (hle : block.length ≤ 11) (h : decodeBlock block = some data) :
    BlockDecodes block data := by
  simp only [decodeBlock] at h
  split at h
  · cases h
  rename_i hpositive
  obtain ⟨hencoded, hbounded⟩ := encodedBlockSize_decodedBlockSize hle (by omega)
  set n := (decodedBlockSize block.length).toNat with hn
  have hn0 : 0 < n := by omega
  split at h
  · cases h
  rename_i resNum hloop
  obtain ⟨ds, hds, hdigits⟩ := decodeLoop_digits hloop
  have hlength : ds.length = encodedBlockSize n := by
    have hcount := congrArg length hds
    rw [length_reverse, length_map] at hcount
    exact hcount.symm.trans hencoded.symm
  rw [hds] at hloop
  have hresNum : ofDigits 58 ds = resNum ∧ resNum < 2 ^ 64 := by
    rw [decodeLoop_initial hdigits (hlength.trans_le (encodedBlockSize_le hbounded))] at hloop
    split at hloop
    · rename_i hfits
      obtain rfl := Option.some.inj hloop
      exact ⟨rfl, hfits⟩
    · cases hloop
  split at h
  · cases h
  rename_i hfits
  obtain rfl := Option.some.inj h
  have hvalue : resNum < 256 ^ n := by
    rcases lt_or_ge n 8 with hsmall | hfull
    · rw [← pow_two_eight]
      exact Nat.lt_of_not_le fun hover => hfits ⟨hsmall, hover⟩
    · have hn8 : n = 8 := by omega
      rw [hn8]
      exact hresNum.2.trans_eq (by norm_num)
  refine ⟨?_, ?_, ?_⟩
  · rw [encodeBlock_eq, length_uint64To8be, uint8beTo64_uint64To8be hvalue, ← hlength,
      ← hresNum.1, digitsAt_ofDigits (by decide) ds hdigits, ← hds, reverse_reverse]
  · rw [length_uint64To8be]
    exact hn0
  · rw [length_uint64To8be]
    exact hbounded

theorem encode_blocks (data : Bytes) : encode data =
    (fullChunks 8 data).flatMap encodeBlock ++
      (if 0 < data.length % 8 then encodeBlock (lastChunk 8 data) else []) := by
  cases data with
  | nil => rfl
  | cons b data => rfl

theorem decode_blocks (enc : Bytes) : decode enc =
    if decodedBlockSize (enc.length % 11) < 0 then none
    else decodeBlocks (fullChunks 11 enc ++
      (if 0 < enc.length % 11 then [lastChunk 11 enc] else [])) := by
  cases enc with
  | nil => rfl
  | cons c enc => rfl

theorem encode_append (hblock : block.length = 8) (data : Bytes) :
    encode (block ++ data) = encodeBlock block ++ encode data := by
  rw [encode_blocks, encode_blocks, fullChunks_append (by decide) hblock,
    lastChunk_append (by decide) hblock, length_append, hblock, add_mod_left,
    flatMap_cons, append_assoc]

theorem encode_short (hpos : 0 < data.length) (hlt : data.length < 8) :
    encode data = encodeBlock data := by
  rw [encode_blocks, fullChunks_of_lt hlt, lastChunk_of_lt hlt, mod_eq_of_lt hlt, if_pos hpos]
  rfl

theorem encode_block (hpos : 0 < data.length) (hle : data.length ≤ 8) :
    encode data = encodeBlock data := by
  rcases lt_or_eq_of_le hle with hlt | hfull
  · exact encode_short hpos hlt
  · have happend := encode_append hfull []
    rw [append_nil] at happend
    rw [happend]
    exact append_nil _

theorem decode_append (hblock : block.length = 11) (enc : Bytes) :
    decode (block ++ enc) = (decodeBlock block).bind fun data => (decode enc).map (data ++ ·) := by
  rw [decode_blocks, decode_blocks, fullChunks_append (by decide) hblock,
    lastChunk_append (by decide) hblock, length_append, hblock, add_mod_left]
  split
  · cases decodeBlock block <;> rfl
  · rw [cons_append, decodeBlocks]
    cases decodeBlock block <;> rfl

theorem decode_short {enc : Bytes} (hpos : 0 < enc.length) (hlt : enc.length < 11) :
    decode enc = decodeBlock enc := by
  rw [decode_blocks, fullChunks_of_lt hlt, lastChunk_of_lt hlt, mod_eq_of_lt hlt, if_pos hpos,
    nil_append]
  simp only [decodeBlocks, Option.map_some, append_nil]
  split
  · rename_i hinvalid
    rw [decodeBlock, if_pos (by omega)]
  · cases decodeBlock enc <;> rfl

theorem decode_encode (data : Bytes) : decode (encode data) = some data := by
  induction data using chunk_induction (show 0 < 8 by decide) with
  | short data hlt =>
    rcases Nat.eq_zero_or_pos data.length with hempty | hpos
    · rw [eq_nil_of_length_eq_zero hempty]
      rfl
    · have hpositive : 0 < (encodeBlock data).length := by
        by_contra hzero
        have hsize := decodedBlockSize_encodedBlockSize hlt.le
        rw [← length_encodeBlock, Nat.eq_zero_of_not_pos hzero] at hsize
        exact hpos.ne (Int.ofNat_inj.mp hsize)
      rw [encode_short hpos hlt, decode_short hpositive
        ((length_encodeBlock data).trans_lt (encodedBlockSize_lt hlt)),
        decodeBlock_encodeBlock hpos hlt.le]
  | full block data hblock ih =>
    have hfull : (encodeBlock block).length = 11 := by
      rw [length_encodeBlock, hblock]
      rfl
    rw [encode_append hblock, decode_append hfull,
      decodeBlock_encodeBlock (hblock ▸ by decide) hblock.le, ih]
    rfl

theorem encode_decode {enc : Bytes} (h : decode enc = some data) : encode data = enc := by
  induction enc using chunk_induction (show 0 < 11 by decide) generalizing data with
  | short enc hlt =>
    rcases Nat.eq_zero_or_pos enc.length with hempty | hpos
    · obtain rfl := eq_nil_of_length_eq_zero hempty
      obtain rfl := Option.some.inj h
      rfl
    · rw [decode_short hpos hlt] at h
      have hblock := encodeBlock_decodeBlock hlt.le h
      rw [encode_block hblock.positive hblock.bounded, hblock.encodes]
  | full block enc hfull ih =>
    rw [decode_append hfull, Option.bind_eq_some_iff] at h
    obtain ⟨head, hhead, h⟩ := h
    obtain ⟨tail, htail, rfl⟩ := Option.map_eq_some_iff.mp h
    have hblock := encodeBlock_decodeBlock hfull.le hhead
    have hlength : head.length = 8 := by
      refine le_antisymm hblock.bounded (Nat.le_of_not_lt fun hshort => ?_)
      have hsize := encodedBlockSize_lt hshort
      rw [← length_encodeBlock, hblock.encodes, hfull] at hsize
      exact lt_irrefl _ hsize
    rw [encode_append hlength, hblock.encodes, ih htail]

theorem base58_bijective :
    (∀ data : Bytes, decode (encode data) = some data) ∧
      ∀ enc data : Bytes, decode enc = some data → encode data = enc :=
  ⟨decode_encode, fun _ _ h => encode_decode h⟩

theorem base58_bijective_two_blocks :
    decode [49, 65, 102, 86, 51, 51, 103, 72, 65, 53, 106, 49, 56] =
        some [0, 255, 1, 2, 3, 4, 5, 6, 7] ∧
      encode [0, 255, 1, 2, 3, 4, 5, 6, 7] =
        [49, 65, 102, 86, 51, 51, 103, 72, 65, 53, 106, 49, 56] := by
  have hdecode : decode [49, 65, 102, 86, 51, 51, 103, 72, 65, 53, 106, 49, 56] =
      some [0, 255, 1, 2, 3, 4, 5, 6, 7] := by decide +kernel
  exact ⟨hdecode, base58_bijective.2 _ _ hdecode⟩
variable (cnFastHash : Bytes → Vector UInt8 32)

def addrChecksumSize : Nat := 4

def addrChecksum (buf : Bytes) : Bytes := (cnFastHash buf).toList.take addrChecksumSize

def encodeAddr (tag : Nat) (data : Bytes) : Bytes :=
  let buf := writeVarint tag ++ data
  encode (buf ++ addrChecksum cnFastHash buf)

def decodeAddr (addr : Bytes) : Option (Nat × Bytes) :=
  match decode addr with
  | none => none
  | some addrData =>
    if addrData.length ≤ addrChecksumSize then none
    else
      let checksum := addrData.drop (addrData.length - addrChecksumSize)
      let addrData := addrData.take (addrData.length - addrChecksumSize)
      if addrChecksum cnFastHash addrData ≠ checksum then none
      else match readVarint 64 addrData with
        | .error _ => none
        | .ok r => if r.read = 0 then none else some (r.write, addrData.drop r.read)

def addrPayload (addr : Bytes) : Bytes :=
  match decode addr with
  | none => []
  | some addrData => addrData.take (addrData.length - addrChecksumSize)

variable {cnFastHash} (buf : Bytes)

theorem length_addrChecksum : (addrChecksum cnFastHash buf).length = 4 := by
  simp [addrChecksum, addrChecksumSize]

theorem take_checksummed :
    (buf ++ addrChecksum cnFastHash buf).take
      ((buf ++ addrChecksum cnFastHash buf).length - addrChecksumSize) = buf := by
  rw [length_append, length_addrChecksum]
  exact take_left

theorem drop_checksummed :
    (buf ++ addrChecksum cnFastHash buf).drop
      ((buf ++ addrChecksum cnFastHash buf).length - addrChecksumSize) =
        addrChecksum cnFastHash buf := by
  rw [length_append, length_addrChecksum]
  exact drop_left

theorem decodeAddr_checksummed {buf : Bytes} (hbuf : buf ≠ []) :
    decodeAddr cnFastHash (encode (buf ++ addrChecksum cnFastHash buf)) =
      match readVarint 64 buf with
      | .error _ => none
      | .ok r => if r.read = 0 then none else some (r.write, buf.drop r.read) := by
  have hlong : ¬ (buf ++ addrChecksum cnFastHash buf).length ≤ addrChecksumSize := by
    have hpos := length_pos_of_ne_nil hbuf
    rw [length_append, length_addrChecksum, addrChecksumSize]
    omega
  simp only [decodeAddr, decode_encode, if_neg hlong, take_checksummed, drop_checksummed, ne_eq,
    not_true_eq_false, if_false]

theorem addrPayload_checksummed :
    addrPayload (encode (buf ++ addrChecksum cnFastHash buf)) = buf := by
  rw [addrPayload, decode_encode]
  exact take_checksummed buf

variable {tag : Nat} {addr data : Bytes}

theorem address_canonical_iff_tag_terminated (cnFastHash : Bytes → Vector UInt8 32) :
    (∀ (tag : Nat) (data : Bytes), tag < 2 ^ 64 →
        decodeAddr cnFastHash (encodeAddr cnFastHash tag data) = some (tag, data)) ∧
      ∀ (addr : Bytes) (tag : Nat) (data : Bytes), decodeAddr cnFastHash addr = some (tag, data) →
        (encodeAddr cnFastHash tag data = addr ↔ ¬ Unterminated (addrPayload addr)) := by
  refine ⟨?_, ?_⟩
  · intro tag data htag
    have hbuf : writeVarint tag ++ data ≠ [] :=
      append_ne_nil_of_left_ne_nil (writeVarint_ne_nil tag) data
    have hread : (writeVarint tag).length ≠ 0 :=
      (length_pos_of_ne_nil (writeVarint_ne_nil tag)).ne'
    unfold encodeAddr
    simp only [decodeAddr_checksummed hbuf, readVarint_write htag, if_neg hread, drop_left]
  · intro addr tag data h
    obtain ⟨buf, hbuf, rfl⟩ : ∃ buf, buf ≠ [] ∧
        addr = encode (buf ++ addrChecksum cnFastHash buf) := by
      simp only [decodeAddr] at h
      split at h
      · cases h
      rename_i addrData hdecode
      split at h
      · cases h
      rename_i hlong
      split at h
      · cases h
      rename_i hchecksum
      have hsplit := take_append_drop (addrData.length - addrChecksumSize) addrData
      rw [← not_not.mp hchecksum] at hsplit
      refine ⟨_, ?_, (encode_decode hdecode).symm.trans (congrArg encode hsplit.symm)⟩
      rw [ne_eq, take_eq_nil_iff]
      rintro (hzero | hempty)
      · omega
      · exact hlong (hempty ▸ Nat.zero_le _)
    rw [addrPayload_checksummed]
    rw [decodeAddr_checksummed hbuf] at h
    split at h
    · cases h
    rename_i r hr
    split at h
    · cases h
    obtain ⟨rfl, rfl⟩ := Prod.mk.inj (Option.some.inj h)
    constructor
    · intro hencode hopen
      have hpayload := congrArg addrPayload hencode
      rw [encodeAddr, addrPayload_checksummed, addrPayload_checksummed] at hpayload
      exact unterminated_ne_writeVarint hopen _ _ hpayload.symm
    · intro hclosed
      obtain ⟨-, ⟨hbytes, hread⟩ | ⟨hopen, -⟩⟩ := readVarint_exact hr
      · have hdata : buf.drop r.read = r.rest := by
          rw [hread]
          conv_lhs => rw [hbytes]
          exact drop_left
        rw [encodeAddr, hdata, ← hbytes]
      · exact absurd hopen hclosed

def zeroHash (_ : Bytes) : Vector UInt8 32 := Vector.replicate 32 0

theorem address_canonical_tag_eighteen :
    decodeAddr zeroHash (encodeAddr zeroHash 18 [7]) = some (18, [7]) ∧
      decodeAddr zeroHash [49, 57, 121, 102, 119, 55, 102, 87, 55] = some (18, [7]) ∧
      encodeAddr zeroHash 18 [7] = [49, 57, 121, 102, 119, 55, 102, 87, 55] := by
  have haccepted : decodeAddr zeroHash [49, 57, 121, 102, 119, 55, 102, 87, 55] = some (18, [7]) := by
    decide +kernel
  obtain ⟨hround, hcanonical⟩ := address_canonical_iff_tag_terminated zeroHash
  exact ⟨hround 18 [7] (by norm_num), haccepted,
    (hcanonical _ _ _ haccepted).mpr (by decide +kernel)⟩

theorem truncated_tag_accepted :
    decodeAddr zeroHash [70, 83, 98, 51, 70, 71, 75] = some (0, []) ∧
      encodeAddr zeroHash 0 [] ≠ [70, 83, 98, 51, 70, 71, 75] := by
  decide +kernel

end Jero.Common.Base58
