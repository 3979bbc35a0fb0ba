import Jero.Mnemonics.Roundtrip

namespace Jero.Mnemonics
open Jero.Machine Jero.Lists List Loaded UInt8
variable {env : WordEnv} {l : Loaded env} {bytes : Bytes} {i k : Nat}

theorem encodeIndices_of_accepted {payload : List Word} {hasChecksum : Bool} {indices : List Nat}
    (hindices : payload.mapM (l.findIndex hasChecksum) = some indices)
    (hk : payload.length = 3 * k) (hbytes : decodeIndices wordCount indices = some bytes) :
    encodeIndices wordCount bytes = indices ∧ bytes.length = 4 * k := by
  refine encodeIndices_decodeIndices k indices ?_ ?_ hbytes
  · rw [mapM_some_length hindices, hk]
  · intro i hi
    obtain ⟨w, -, hw⟩ := mapM_some_mem hindices hi
    exact findIndex_lt hw

theorem mnemonic_seeds_faithful (env : WordEnv) (hfold : env.FoldsApart) (t : LanguageTable env) :
    (∀ l ∈ t.languageList, l.DistinctPrefixes →
      (∀ w ∈ l.language.wordList, IsField isSpace w) →
      ∀ name, l.language.HasName name → ∀ (k : Nat) (src : Bytes) (duplicate : Bool),
      0 < k → 4 * k * 24 < 2 ^ 64 → src.length = 4 * k →
      ∃ words, bytesToWords t.languageList src name = .ok (some words) ∧
        wordsToBytes t.seedLanguages words (4 * k) duplicate name =
          .ok (some ⟨src, l.language.languageName⟩)) ∧
    (∀ (words : Bytes) (len : Nat) (duplicate : Bool) (expected : String) (d : Decoded) (k : Nat),
      len * 24 < 2 ^ 64 ∨ (splitFields isSpace words).length < 2 ^ 55 →
      wordsToBytes t.seedLanguages words len duplicate expected = .ok (some d) →
      (seedPayload len (splitFields isSpace words)).length = 3 * k →
      ∃ l ∈ t.seedLanguages, d.languageName = l.language.languageName ∧ ∃ indices,
        (seedPayload len (splitFields isSpace words)).mapM
          (l.findIndex (seedHasChecksum len (splitFields isSpace words).length)) = some indices ∧
        decodeIndices wordCount indices = some d.dst ∧
        encodeIndices wordCount d.dst = indices ∧ d.dst.length = 4 * k) ∧
    (∀ a b : List Nat, 3 ∣ a.length → 3 ∣ b.length → (∀ w ∈ a, w < wordCount) →
      (∀ w ∈ b, w < wordCount) → ∀ bytes, decodeIndices wordCount a = some bytes →
      decodeIndices wordCount b = some bytes → a = b) ∧
    (∀ (before after : List Nat) (w1 w2 w3 : Nat), 3 ∣ before.length → w1 < wordCount →
      w2 < wordCount → w3 < wordCount → 2 ^ 32 ≤ tripleValue wordCount w1 w2 w3 →
      decodeIndices wordCount (before ++ w1 :: w2 :: w3 :: after) = none) := by
  refine ⟨?_, ?_, ?_, ?_⟩
  · intro l hl hdistinct hfields name hname k src duplicate hk hbound hsrc
    have hseed := t.languageList_subset hl
    obtain ⟨hcount, hlt, -⟩ := encodeIndices_spec k src hsrc
    have hne : encodeIndices wordCount src ≠ [] := by
      refine ne_nil_of_length_pos ?_
      rw [hcount]
      omega
    obtain ⟨idx, hidx, hsum⟩ := createChecksumIndex_words hdistinct hne hlt
    refine ⟨_, bytesToWords_eq hl hk hsrc hsum hname ?_, ?_⟩
    · intro l' hl' hname'
      exact t.name_unique hseed (t.languageList_subset hl') hname hname'
    · refine wordsToBytes_complete hseed hk hsrc hsum hbound (env.expects_of_name hname) ?_ hdistinct
        hfields duplicate hidx
      intro l' hl' hexpects
      exact t.expected_unique hseed hl' hname hfold hexpects
  · intro words len duplicate expected d k hbound haccepted hk
    obtain ⟨l, hl, indices, hindices, hdst, hlanguage⟩ := wordsToBytes_accepted haccepted hbound
    exact ⟨l, hl, hlanguage, indices, hindices, hdst, encodeIndices_of_accepted hindices hk hdst⟩
  · intro a b ha hb halt hblt bytes hda hdb
    obtain ⟨j, hj⟩ := ha
    obtain ⟨k, hk⟩ := hb
    rw [← (encodeIndices_decodeIndices j a hj halt hda).1,
      (encodeIndices_decodeIndices k b hk hblt hdb).1]
  · intro before after w1 w2 w3 hbefore h1 h2 h3 hvalue
    obtain ⟨k, hk⟩ := hbefore
    induction k generalizing before with
    | zero =>
      obtain rfl : before = [] := length_eq_zero_iff.mp hk
      rw [nil_append, decodeIndices, decodeTriple_eq h1 h2 h3, if_neg (not_lt.mpr hvalue)]
      rfl
    | succ k ih =>
      obtain ⟨u1, u2, u3, rest, rfl, hrest⟩ := exists_three hk
      simp only [cons_append, decodeIndices, ih rest hrest, Option.map_none]
      cases decodeTriple wordCount u1 u2 u3 <;> rfl

def sampleEnv : WordEnv := ⟨id, fun w => (w.map toNat).sum, id⟩

def sampleWord (i : Nat) : Word :=
  [ofNat (97 + i / 144), ofNat (97 + i / 12 % 12), ofNat (97 + i % 12)]

def sampleLanguage (names : String × String) : Language :=
  ⟨names.1, names.2, (List.range wordCount).map sampleWord, 3⟩

theorem populate_foldlM_permissive (env : WordEnv) (l : Language) (entries : List (Word × Nat))
    (maps : WordMaps) :
    ∃ last, entries.foldlM (populateStep env l ⟨true, true⟩) maps = .ok last := by
  induction entries generalizing maps with
  | nil => exact ⟨maps, rfl⟩
  | cons e entries ih =>
    rw [foldlM_cons, populateStep, check_true (Bool.or_true _), check_true (Bool.or_true _)]
    exact ih _

def Language.mapsOf (env : WordEnv) (l : Language) : WordMaps :=
  ⟨tabulate env.canonical l.wordList.zipIdx,
    tabulate env.canonical (l.wordList.zipIdx.map (fun e => (l.trim e.1, e.2)))⟩

theorem populateMaps_permissive (env : WordEnv) {l : Language} (h : l.wordList.length = wordCount) :
    populateMaps env l ⟨true, true⟩ = .ok (l.mapsOf env) := by
  obtain ⟨maps, hmaps⟩ := populate_foldlM_permissive env l l.wordList.zipIdx ⟨[], []⟩
  have hpopulated : populateMaps env l ⟨true, true⟩ = .ok maps := by
    rw [populateMaps, check_decide h, hmaps]
  obtain ⟨hwords, htrimmed⟩ := maps_eq ⟨l, ⟨true, true⟩, maps, hpopulated⟩
  rw [hpopulated, Language.mapsOf, ← hwords, ← htrimmed]

def sampleLoaded (names : String × String) : Loaded sampleEnv where
  language := sampleLanguage names
  flags := ⟨true, true⟩
  maps := (sampleLanguage names).mapsOf sampleEnv
  populated := populateMaps_permissive sampleEnv
    (by rw [sampleLanguage, length_map, length_range])

def sampleTable : LanguageTable sampleEnv where
  chineseSimplified := sampleLoaded ("简体中文 (中国)", "Chinese (simplified)")
  english := sampleLoaded ("English", "English")
  dutch := sampleLoaded ("Nederlands", "Dutch")
  french := sampleLoaded ("Français", "French")
  spanish := sampleLoaded ("Español", "Spanish")
  german := sampleLoaded ("Deutsch", "German")
  italian := sampleLoaded ("Italiano", "Italian")
  portuguese := sampleLoaded ("Português", "Portuguese")
  japanese := sampleLoaded ("日本語", "Japanese")
  russian := sampleLoaded ("Русский", "Russian")
  esperanto := sampleLoaded ("Esperanto", "Esperanto")
  lojban := sampleLoaded ("Lojban", "Lojban")
  englishOld := sampleLoaded ("EnglishOld", "English (old)")
  named := rfl

theorem toNat_sampleByte {n : Nat} (h : n < 12) : (ofNat (97 + n)).toNat = 97 + n := by
  rw [toNat_ofNat']
  omega

theorem sampleWord_injective {j : Nat} (hi : i < wordCount) (hj : j < wordCount)
    (h : sampleWord i = sampleWord j) : i = j := by
  simp only [wordCount] at hi hj
  obtain ⟨hhigh, hrest⟩ := cons.inj h
  obtain ⟨hmiddle, hlow⟩ := cons.inj hrest
  have hhigh := congrArg toNat hhigh
  have hmiddle := congrArg toNat hmiddle
  have hlow := congrArg toNat (cons.inj hlow).1
  rw [toNat_sampleByte (by omega), toNat_sampleByte (by omega)] at hhigh hmiddle hlow
  omega

theorem sampleWord_field (hi : i < wordCount) : IsField isSpace (sampleWord i) := by
  simp only [wordCount] at hi
  refine ⟨cons_ne_nil _ _, ?_⟩
  have hbyte : ∀ n < 12, isSpace (ofNat (97 + n)) = false := by decide
  simp only [sampleWord, mem_cons, not_mem_nil, or_false]
  rintro c (rfl | rfl | rfl)
  · exact hbyte _ (by omega)
  · exact hbyte _ (by omega)
  · exact hbyte _ (by omega)

variable (names : String × String)

theorem sampleLanguage_fields :
    ∀ w ∈ (sampleLanguage names).wordList, IsField isSpace w := by
  rw [sampleLanguage, forall_mem_map]
  intro i hi
  exact sampleWord_field (mem_range.mp hi)

theorem sampleWords_nodup : ((List.range wordCount).map sampleWord).Nodup := by
  refine List.Nodup.map_on ?_ nodup_range
  intro i hi j hj h
  exact sampleWord_injective (mem_range.mp hi) (mem_range.mp hj) h

theorem sampleLoaded_distinct :
    (sampleLoaded names).DistinctPrefixes := by
  have hkeys : (sampleLanguage names).wordList.map
      (fun w => sampleEnv.canonical ((sampleLanguage names).trim w)) =
        (range wordCount).map sampleWord := by
    rw [sampleLanguage, map_map]
    rfl
  have hnodup := sampleWords_nodup
  rw [← hkeys] at hnodup
  exact hnodup

theorem sampleLanguage_words :
    (sampleLanguage names).wordList = (List.range wordCount).map sampleWord := by
  rw [sampleLanguage]

theorem sampleLoaded_findIndex (hi : i < wordCount) :
    (sampleLoaded names).findIndex false (sampleWord i) = some i := by
  have hfirst : (fun e : Word × Nat => sampleEnv.canonical e.1) = Prod.fst := rfl
  have hkeys : ((sampleLanguage names).wordList.zipIdx.map
      (fun e => sampleEnv.canonical e.1)).Nodup := by
    rw [hfirst, zipIdx_map_fst, sampleLanguage_words]
    exact sampleWords_nodup
  have hmem : (sampleWord i, i) ∈ (sampleLanguage names).wordList.zipIdx := by
    rw [mem_zipIdx_iff_getElem?, sampleLanguage_words, getElem?_map,
      getElem?_range hi, Option.map_some]
  rw [findIndex, if_neg (by decide)]
  dsimp only [sampleLoaded, Language.mapsOf]
  rw [tabulate_distinct _ hkeys, lookupBy_of_mem hkeys hmem rfl, Option.map_some]

theorem sample_seed_recovers :
    ∃ words, bytesToWords sampleTable.languageList [239, 190, 173, 222, 1, 0, 0, 0] "Deutsch" =
        .ok (some words) ∧
      wordsToBytes sampleTable.seedLanguages words 8 false "Deutsch" =
        .ok (some ⟨[239, 190, 173, 222, 1, 0, 0, 0], "Deutsch"⟩) := by
  have hfold : sampleEnv.FoldsApart := ⟨fun _ _ _ _ _ _ _ _ h => h⟩
  refine (mnemonic_seeds_faithful sampleEnv hfold sampleTable).1 (sampleLoaded ("Deutsch", "German"))
    mem_cons_self (sampleLoaded_distinct _) ?_ "Deutsch" (.inl rfl) 2 _ false (by decide)
    (by decide) rfl
  exact sampleLanguage_fields ("Deutsch", "German")

theorem seed_fills_iff_not_half {env : WordEnv} (languages : List (Loaded env)) (words : Bytes)
    (expected : String) {len : Nat} (hpos : 0 < len) (hbound : len * 24 < 2 ^ 64)
    (hfour : len % 4 = 0) {d : Decoded}
    (h : wordsToBytes languages words len true expected = .ok (some d)) :
    ∃ l ∈ languages, ∃ indices data,
      (seedPayload len (splitFields isSpace words)).mapM
        (l.findIndex (seedHasChecksum len (splitFields isSpace words).length)) = some indices ∧
      decodeIndices wordCount indices = some data ∧
      ((d.dst.length = len ∧ d.dst = if (splitFields isSpace words).length = len * 8 * 3 / 32 / 2
        then data ++ data else data) ↔
          (splitFields isSpace words).length ≠ len * 8 * 3 / 32 / 2) := by
  obtain ⟨l, hl, indices, hindices, hdst, -⟩ := wordsToBytes_accepted h (.inl hbound)
  refine ⟨l, hl, indices, d.dst, hindices, hdst, ?_⟩
  obtain ⟨m, rfl⟩ := Nat.dvd_of_mod_eq_zero hfour
  have hpayload := seedPayload_length (by omega) hbound (wordsToBytes_sized h)
  have hexpected : 4 * m * 8 * 3 / 32 = 3 * m := by omega
  rw [hexpected]
  split_ifs at hpayload ⊢ with hhalf
  · simp only [hhalf, ne_eq, not_true_eq_false, iff_false, not_and, self_eq_append_right]
    rintro hlength hnil
    rw [hnil, length_nil] at hlength
    omega
  · simp only [hhalf, ne_eq, not_false_eq_true, iff_true, and_true]
    exact (encodeIndices_of_accepted hindices hpayload hdst).2

theorem half_seed_decodes {w : Word} {words : Bytes} (hexpects : env.expects "" l.language = true)
    (hfind : l.findIndex false w = some 0) (hsplit : splitFields isSpace words = [w, w, w]) :
    wordsToBytes [l] words 8 true "" = .ok (some ⟨[0, 0, 0, 0], l.language.languageName⟩) := by
  have hdecoded : decodeIndices wordCount [0, 0, 0] = some [0, 0, 0, 0] := by decide +kernel
  simp [wordsToBytes, hsplit, findSeedLanguage, hexpects, hfind, decodeSeed, l.count, hdecoded,
    seedHasChecksum, seedSizeExpected, expectedWords, duplicated, wrap]
  rfl

theorem sample_half_seed :
    wordsToBytes [sampleLoaded ("English", "English")]
        [97, 97, 97, 32, 97, 97, 97, 32, 97, 97, 97] 8 true "" =
      .ok (some ⟨[0, 0, 0, 0], "English"⟩) :=
  half_seed_decodes rfl (sampleLoaded_findIndex _ (by decide)) (by decide)

theorem half_seed_is_not_duplicated :
    wordsToBytes [sampleLoaded ("English", "English")]
        [97, 97, 97, 32, 97, 97, 97, 32, 97, 97, 97] 8 true "" =
      .ok (some ⟨[0, 0, 0, 0], "English"⟩) ∧ ([0, 0, 0, 0] : Bytes).length ≠ 8 :=
  ⟨sample_half_seed, by decide⟩

theorem sample_half_seed_short : ∃ l ∈ [sampleLoaded ("English", "English")], ∃ indices data,
    decodeIndices wordCount indices = some data ∧
      ¬ (([0, 0, 0, 0] : Bytes).length = 8 ∧ [0, 0, 0, 0] = data ++ data) := by
  obtain ⟨l, hl, indices, data, -, hdata, hiff⟩ := seed_fills_iff_not_half _ _ _ (by decide)
    (by decide) (by decide) sample_half_seed
  rw [if_pos (by decide)] at hiff
  exact ⟨l, hl, indices, data, hdata, fun hfull => hiff.mp hfull (by decide)⟩

end Jero.Mnemonics
