import Jero.Mnemonics.Electrum

namespace Jero.Mnemonics
open Jero.Machine Jero.Lists List Option Loaded
variable {i idx len k : Nat} {indices : List Nat} {seed : List Word} {expected : String}
section
variable {α β : Type}

theorem mapM_map_some {f : β → Option α} {g : α → β} (l : List α)
    (h : ∀ a ∈ l, f (g a) = some a) : (l.map g).mapM f = some l := by
  induction l with
  | nil => rfl
  | cons a l ih =>
    have htail := ih (fun b hb => h b (mem_cons_of_mem _ hb))
    rw [map_cons, mapM_cons, h a mem_cons_self, htail]
    rfl

theorem mapM_some_cons {f : α → Option β} {a : α} {l : List α} {bs : List β}
    (h : (a :: l).mapM f = some bs) :
    ∃ b rest, f a = some b ∧ l.mapM f = some rest ∧ bs = b :: rest := by
  rw [mapM_cons] at h
  obtain ⟨b, hb, h⟩ := bind_eq_some_iff.mp h
  obtain ⟨rest, hrest, h⟩ := bind_eq_some_iff.mp h
  exact ⟨b, rest, hb, hrest, (some.inj h).symm⟩

section
variable {f : α → Option β} {l : List α} {bs : List β} (h : l.mapM f = some bs)
include h

theorem mapM_some_take (n : Nat) : (l.take n).mapM f = some (bs.take n) := by
  induction l generalizing bs n with
  | nil =>
    cases h
    simp
  | cons a l ih =>
    obtain ⟨b, rest, hb, hrest, rfl⟩ := mapM_some_cons h
    cases n with
    | zero => rfl
    | succ n =>
      rw [take_succ_cons, take_succ_cons, mapM_cons, hb, ih hrest n]
      rfl

theorem mapM_some_length : bs.length = l.length := by
  induction l generalizing bs with
  | nil =>
    cases h
    rfl
  | cons a l ih =>
    obtain ⟨b, rest, -, hrest, rfl⟩ := mapM_some_cons h
    rw [length_cons, length_cons, ih hrest]

theorem mapM_some_mem {b : β} (hb : b ∈ bs) : ∃ a ∈ l, f a = some b := by
  induction l generalizing bs with
  | nil =>
    cases h
    cases hb
  | cons a l ih =>
    obtain ⟨c, rest, hc, hrest, rfl⟩ := mapM_some_cons h
    rcases mem_cons.mp hb with rfl | htail
    · exact ⟨a, mem_cons_self, hc⟩
    · obtain ⟨d, hd, heq⟩ := ih hrest htail
      exact ⟨d, mem_cons_of_mem _ hd, heq⟩

end

theorem getLast?_filter_of_unique {p : α → Bool} {l : List α} {a : α} (ha : a ∈ l) (hp : p a = true)
    (h : ∀ b ∈ l, p b = true → b = a) : (l.filter p).getLast? = some a := by
  have hmem : a ∈ l.filter p := mem_filter.mpr ⟨ha, hp⟩
  have hne : l.filter p ≠ [] := ne_nil_of_mem hmem
  rw [getLast?_eq_some_getLast hne]
  obtain ⟨hin, htrue⟩ := mem_filter.mp (getLast_mem hne)
  rw [h _ hin htrue]

end
variable {hasChecksum : Bool}
namespace Loaded
variable {env : WordEnv} {l : Loaded env}

def wordAt (l : Loaded env) (i : Nat) : Word := l.language.wordList.getD i []

theorem getElem?_wordAt (h : i < wordCount) : l.language.wordList[i]? = some (l.wordAt i) := by
  have hlt : i < l.language.wordList.length := l.count ▸ h
  rw [wordAt, getD_eq_getElem?_getD, getElem?_eq_getElem hlt, getD_some]

theorem findIndex_wordAt (h : l.DistinctPrefixes) (hi : i < wordCount) :
    l.findIndex true (l.wordAt i) = some i := by
  rw [findIndex, if_pos rfl, findTrimmed, trimmed_lookup h (getElem?_wordAt hi), map_some]

theorem findIndex_lt {w : Word} (h : l.findIndex hasChecksum w = some i) : i < wordCount := by
  cases hasChecksum with
  | true =>
    obtain ⟨e, he, rfl⟩ := map_eq_some_iff.mp h
    exact l.trimmedWordMap_lt he
  | false =>
    obtain ⟨e, he, rfl⟩ := map_eq_some_iff.mp h
    rw [l.maps_eq.1] at he
    exact value_lt l.zipIdx_lt he

theorem createChecksumIndex_words (h : l.DistinctPrefixes) (hne : indices ≠ [])
    (hlt : ∀ i ∈ indices, i < wordCount) :
    ∃ idx < indices.length, l.createChecksumIndex (indices.map l.wordAt) = .ok idx := by
  have hkeys : (indices.map l.wordAt).mapM l.trimmedKey =
      .ok ((indices.map l.wordAt).map l.language.trim) := by
    refine mapM_ok_of_forall _ ?_
    intro w hw
    obtain ⟨i, hi, rfl⟩ := List.mem_map.mp hw
    rw [trimmedKey, findTrimmed, trimmed_lookup h (getElem?_wordAt (hlt i hi))]
  have hsome : (!(indices.map l.wordAt).isEmpty) = true := by
    simpa using hne
  refine ⟨env.crc32 ((indices.map l.wordAt).map l.language.trim).flatten %
    (indices.map l.wordAt).length, ?_, ?_⟩
  · rw [length_map]
    exact Nat.mod_lt _ (length_pos_of_ne_nil hne)
  · rw [createChecksumIndex, hkeys, ok_bind, check_true hsome]
    rfl

theorem checksumTest_appended {words : List Word} (h : l.createChecksumIndex words = .ok idx) :
    l.checksumTest (words ++ [words.getD idx []]) = .ok true := by
  simp only [checksumTest, getLast?_append, getLast?_singleton, some_or,
    dropLast_concat, h, ok_bind]
  rfl

end Loaded
variable {env : WordEnv} {l : Loaded env} {languages : List (Loaded env)}

theorem findSeedLanguage_of_unique
    (hexpected : env.expects expected l.language = true)
    (hindices : seed.mapM (l.findIndex true) = some indices)
    (hchecksum : l.checksumTest seed = .ok true) (hl : l ∈ languages)
    (hunique : ∀ l' ∈ languages, env.expects expected l'.language = true → l' = l)
    (fallback : Option (Loaded env)) :
    findSeedLanguage seed true expected languages fallback = .ok (some (l, indices)) := by
  induction languages with
  | nil => cases hl
  | cons l' rest ih =>
    by_cases hexp : env.expects expected l'.language = true
    · obtain rfl := hunique l' mem_cons_self hexp
      simp only [findSeedLanguage, hexp, hindices, hchecksum, ok_bind, Bool.not_true,
        Bool.false_eq_true, if_false, if_true]
      rfl
    · have hrest : l ∈ rest := by
        rcases mem_cons.mp hl with rfl | hrest
        · exact absurd hexpected hexp
        · exact hrest
      rw [findSeedLanguage, if_pos (by simpa using hexp)]
      exact ih hrest (fun m hm => hunique m (mem_cons_of_mem _ hm))

theorem findSeedLanguage_sound {fallback : Option (Loaded env)}
    (hfallback : ∀ m, fallback = some m → hasChecksum = true ∧ m.checksumTest seed = .ok false)
    (h : findSeedLanguage seed hasChecksum expected languages fallback = .ok (some (l, indices))) :
    (l ∈ languages ∧ seed.mapM (l.findIndex hasChecksum) = some indices) ∨
      (hasChecksum = true ∧ l.checksumTest seed = .ok false) := by
  induction languages generalizing fallback with
  | nil =>
    obtain ⟨m, hm, heq⟩ := map_eq_some_iff.mp (Except.ok.inj h)
    obtain rfl : m = l := congrArg Prod.fst heq
    exact .inr (hfallback m hm)
  | cons m rest ih =>
    have hlater : (l ∈ rest ∧ seed.mapM (l.findIndex hasChecksum) = some indices) ∨
        (hasChecksum = true ∧ l.checksumTest seed = .ok false) →
        (l ∈ m :: rest ∧ seed.mapM (l.findIndex hasChecksum) = some indices) ∨
          (hasChecksum = true ∧ l.checksumTest seed = .ok false) := by
      intro hfound
      exact hfound.imp_left (And.imp_left (mem_cons_of_mem _))
    rw [findSeedLanguage] at h
    split at h
    · exact hlater (ih hfallback h)
    · split at h
      · exact hlater (ih hfallback h)
      · rename_i found hfound
        split at h
        · rename_i hsum
          obtain ⟨valid, hvalid, h⟩ := bind_ok h
          cases valid with
          | true =>
            cases h
            exact .inl ⟨mem_cons_self, hfound⟩
          | false =>
            refine hlater (ih ?_ h)
            rintro m' hm'
            obtain rfl := some.inj hm'
            exact ⟨hsum, hvalid⟩
        · cases h
          exact .inl ⟨mem_cons_self, hfound⟩

def seedPayload (len : Nat) (seed : List Word) : List Word :=
  if seedHasChecksum len seed.length then seed.dropLast else seed

theorem expectedWords_eq (hbound : 4 * k * 24 < 2 ^ 64) : expectedWords (4 * k) = 3 * k := by
  rw [expectedWords, wrap_of_lt (by omega)]
  omega

theorem seedPayload_length {m : Nat} (hm : 0 < m) (hbound : 4 * m * 24 < 2 ^ 64)
    (hsize : seedSizeExpected (4 * m) seed.length = true) :
    (seedPayload (4 * m) seed).length = if seed.length = 3 * m / 2 then 3 * m / 2 else 3 * m := by
  have hexpected := expectedWords_eq hbound
  have hpos : ¬ 4 * m = 0 := by omega
  simp only [seedSizeExpected, hexpected, Bool.or_eq_true, beq_iff_eq, hpos, false_or] at hsize
  simp only [seedPayload, seedHasChecksum, ne_eq, hpos, not_false_eq_true, if_true, hexpected,
    beq_iff_eq]
  split
  · rw [length_dropLast]
    split <;> omega
  · split <;> omega

theorem payload_of_half (hbound : len * 24 < 2 ^ 64 ∨ seed.length < 2 ^ 55) (hlen : 0 < len)
    (hsize : seedSizeExpected len seed.length = true)
    (hhalf : (seedPayload len seed).length = wrap (len * 3) / 32 / 2) :
    seedPayload len seed = [] := by
  refine length_eq_zero_iff.mp ?_
  simp only [seedSizeExpected, expectedWords, Bool.or_eq_true, beq_iff_eq, wrap] at hsize
  simp only [seedPayload, seedHasChecksum, if_pos hlen.ne', expectedWords, beq_iff_eq, wrap,
    apply_ite length, length_dropLast] at hhalf ⊢
  have hsmall : len * 3 % 2 ^ 64 < 2 ^ 61 := by
    rcases hbound with hbound | hbound
    · rw [Nat.mod_eq_of_lt (by omega)]
      omega
    · split at hhalf <;> omega
  have hbits : len * 8 * 3 % 2 ^ 64 = 8 * (len * 3 % 2 ^ 64) := by omega
  rw [hbits] at hsize hhalf ⊢
  split_ifs at hhalf ⊢ <;> omega

theorem duplicated_eq (hbound : len * 24 < 2 ^ 64 ∨ seed.length < 2 ^ 55)
    (hsize : seedSizeExpected len seed.length = true) (duplicate : Bool) (dst : Bytes)
    (hdst : seedPayload len seed = [] → dst = []) :
    duplicated len (seedPayload len seed).length duplicate dst = dst := by
  unfold duplicated
  split_ifs with hdup hhalf
  · rw [hdst (payload_of_half hbound hdup.1 hsize hhalf), nil_append]
  · rfl
  · rfl

variable {duplicate : Bool} {d : Decoded}

theorem decodeSeed_eq (h : decodeSeed l seed indices len duplicate = some d) :
    ∃ dst, decodeIndices wordCount (indices.take seed.length) = some dst ∧
      d = ⟨duplicated len seed.length duplicate dst, l.language.languageName⟩ := by
  obtain ⟨dst, hdst, rfl⟩ := map_eq_some_iff.mp h
  rw [l.count] at hdst
  exact ⟨dst, hdst, rfl⟩

variable {languages : List (Loaded env)} {words src : Bytes}
  (h : wordsToBytes languages words len duplicate expected = .ok (some d))
include h

theorem wordsToBytes_accepted
    (hbound : len * 24 < 2 ^ 64 ∨ (splitFields isSpace words).length < 2 ^ 55) :
    ∃ l ∈ languages, ∃ indices,
      (seedPayload len (splitFields isSpace words)).mapM
        (l.findIndex (seedHasChecksum len (splitFields isSpace words).length)) = some indices ∧
      decodeIndices wordCount indices = some d.dst ∧
      d.languageName = l.language.languageName := by
  unfold wordsToBytes at h
  dsimp only at h
  split at h
  · cases h
  split at h
  · cases h
  rename_i hsize
  have hsize := not_rejected hsize
  obtain ⟨found, hfound, h⟩ := bind_ok h
  have hdup := duplicated_eq hbound hsize duplicate
  generalize splitFields isSpace words = seed at *
  match found, h with
  | some (l, indices), h =>
    have hsound := findSeedLanguage_sound (fun m hm => by cases hm) hfound
    by_cases hsum : seedHasChecksum len seed.length = true
    · simp only [hsum, if_true] at h hsound
      obtain ⟨valid, hvalid, h⟩ := bind_ok h
      cases valid with
      | false => cases h
      | true =>
        obtain ⟨dst, hdst, rfl⟩ := decodeSeed_eq (Except.ok.inj h)
        rcases hsound with ⟨hl, hindices⟩ | ⟨-, hinvalid⟩
        · refine ⟨l, hl, indices.take seed.dropLast.length, ?_, ?_, rfl⟩
          · rw [seedPayload, if_pos hsum, hsum, length_dropLast, dropLast_eq_take]
            exact mapM_some_take hindices _
          · rw [seedPayload, if_pos hsum] at hdup
            rwa [hdup]
            intro hnil
            rw [hnil] at hdst
            exact (some.inj hdst).symm
        · rw [hvalid] at hinvalid
          cases hinvalid
    · dsimp only at h
      rw [if_neg hsum] at h
      obtain ⟨dst, hdst, rfl⟩ := decodeSeed_eq (Except.ok.inj h)
      rcases hsound with ⟨hl, hindices⟩ | ⟨hinvalid, -⟩
      · refine ⟨l, hl, indices, ?_, ?_, rfl⟩
        · rwa [seedPayload, if_neg hsum]
        · rw [seedPayload, if_neg hsum] at hdup
          rw [← mapM_some_length hindices, take_length] at hdst
          rwa [hdup]
          rintro rfl
          cases hindices
          exact (some.inj hdst).symm
      · exact absurd hinvalid hsum

theorem wordsToBytes_sized :
    seedSizeExpected len (splitFields isSpace words).length = true := by
  by_contra hsize
  simp only [wordsToBytes, Bool.eq_false_iff.mpr hsize] at h
  split at h <;> cases h

omit h

theorem wordsToBytes_of_found {payload : List Word} {last : Word}
    (hsplit : splitFields isSpace words = payload ++ [last]) (hk : 0 < k)
    (hbound : 4 * k * 24 < 2 ^ 64) (hcount : payload.length = 3 * k)
    (hfound : findSeedLanguage (payload ++ [last]) true expected languages none = .ok
      (some (l, indices))) (hvalid : l.checksumTest (payload ++ [last]) = .ok true) {dst : Bytes}
    (hdst : decodeIndices wordCount (indices.take payload.length) = some dst) (duplicate : Bool) :
    wordsToBytes languages words (4 * k) duplicate expected =
      .ok (some ⟨dst, l.language.languageName⟩) := by
  have hexpected := expectedWords_eq hbound
  have hlen : (payload ++ [last]).length = 3 * k + 1 := by
    rw [length_append, hcount, length_singleton]
  have hsum : seedHasChecksum (4 * k) (payload ++ [last]).length = true := by
    rw [seedHasChecksum, if_pos (by omega), hexpected, hlen, beq_self_eq_true]
  have hsize : seedSizeExpected (4 * k) (payload ++ [last]).length = true := by
    rw [seedSizeExpected, hexpected, hlen, beq_self_eq_true, Bool.or_true]
  have hfour : 4 * k % 4 = 0 := Nat.mul_mod_right 4 k
  have hpayload : seedPayload (4 * k) (payload ++ [last]) = payload := by
    rw [seedPayload, if_pos hsum, dropLast_concat]
  have hdup := duplicated_eq (.inl hbound) hsize duplicate dst
  rw [hpayload] at hdup
  replace hdup := hdup fun hnil => by
    rw [hnil, length_nil] at hcount
    omega
  rw [wordsToBytes]
  simp only [hsplit, hsum, hsize, hfour, hfound, hvalid, ok_bind, dropLast_concat, decodeSeed,
    l.count, hdst, map_some, hdup, Bool.not_true, Bool.false_eq_true, if_false, if_true,
    ne_eq, not_true_eq_false]
  rfl

variable {l : Loaded env} (hl : l ∈ languages) (hk : 0 < k) (hsrc : src.length = 4 * k)
  (hsum : l.createChecksumIndex ((encodeIndices wordCount src).map l.wordAt) = .ok idx)
include hl hk hsrc hsum

theorem wordsToBytes_complete (hbound : 4 * k * 24 < 2 ^ 64)
    (hexpected : env.expects expected l.language = true)
    (hunique : ∀ l' ∈ languages, env.expects expected l'.language = true → l' = l)
    (hdistinct : l.DistinctPrefixes) (hfields : ∀ w ∈ l.language.wordList, IsField isSpace w)
    (duplicate : Bool) (hidx : idx < (encodeIndices wordCount src).length) :
    wordsToBytes languages
      (((encodeIndices wordCount src).map l.wordAt).flatMap (· ++ [32]) ++
        ((encodeIndices wordCount src).map l.wordAt).getD idx []) (4 * k) duplicate expected =
      .ok (some ⟨src, l.language.languageName⟩) := by
  obtain ⟨hcount, hlt, hback⟩ := encodeIndices_spec k src hsrc
  generalize hindices : encodeIndices wordCount src = indices at *
  have hword : ∀ i ∈ indices, IsField isSpace (l.wordAt i) := by
    intro i hi
    exact hfields _ (mem_of_getElem? (getElem?_wordAt (hlt i hi)))
  have hchecksum : (indices.map l.wordAt).getD idx [] = l.wordAt (indices[idx]) := by
    simp [getD_eq_getElem?_getD, hidx]
  have hsplit : splitFields isSpace ((indices.map l.wordAt).flatMap (· ++ [32]) ++
      (indices.map l.wordAt).getD idx []) =
        indices.map l.wordAt ++ [(indices.map l.wordAt).getD idx []] := by
    refine splitFields_joined rfl _ ?_ ?_
    · intro w hw
      obtain ⟨i, hi, rfl⟩ := List.mem_map.mp hw
      exact hword i hi
    · rw [hchecksum]
      exact hword _ (getElem_mem hidx)
  have hfound : (indices.map l.wordAt ++ [(indices.map l.wordAt).getD idx []]).mapM
      (l.findIndex true) = some (indices ++ [indices[idx]]) := by
    have hall := mapM_map_some (f := l.findIndex true) (g := l.wordAt) (indices ++ [indices[idx]])
      ?_
    · rwa [map_append, map_cons, map_nil, ← hchecksum] at hall
    · intro i hi
      rcases mem_append.mp hi with hi | hi
      · exact findIndex_wordAt hdistinct (hlt i hi)
      · obtain rfl := mem_singleton.mp hi
        exact findIndex_wordAt hdistinct (hlt _ (getElem_mem hidx))
  have hvalid := checksumTest_appended hsum
  refine wordsToBytes_of_found hsplit hk hbound ?_
    (findSeedLanguage_of_unique hexpected hfound hvalid hl hunique none) hvalid ?_ duplicate
  · rw [length_map, hcount]
  · rw [length_map, take_left]
    exact hback

theorem bytesToWords_eq {name : String}
    (hname : name = l.language.languageName ∨ name = l.language.englishLanguageName)
    (hunique : ∀ l' ∈ languages, name = l'.language.languageName ∨ name =
      l'.language.englishLanguageName → l' = l) :
    bytesToWords languages src name =
      .ok (some (((encodeIndices wordCount src).map l.wordAt).flatMap (· ++ [32]) ++
        ((encodeIndices wordCount src).map l.wordAt).getD idx [])) := by
  have hpick := getLast?_filter_of_unique
    (p := fun l : Loaded env => name == l.language.languageName ||
      name == l.language.englishLanguageName) hl (by simpa using hname)
    (fun l' hl' htrue => hunique l' hl' (by simpa using htrue))
  have hguard : ¬ (src.length % 4 ≠ 0 ∨ src.length = 0) := by omega
  rw [bytesToWords, if_neg hguard, hpick]
  dsimp only
  rw [l.count]
  exact bind_ok_iff.mpr ⟨idx, hsum, rfl⟩

end Jero.Mnemonics
