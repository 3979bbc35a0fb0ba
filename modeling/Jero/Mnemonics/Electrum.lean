import Jero.Lists.Fields
import Jero.Mnemonics.Language

namespace Jero.Mnemonics
open Jero.Machine Jero.Lists List

def isSpace (c : UInt8) : Bool := c == 32 || (9 ≤ c && c ≤ 13)

def WordEnv.nameMatches (env : WordEnv) (name candidate : String) : Bool :=
  name == candidate || (env.casefold name != "" && env.casefold name == env.casefold candidate)

def WordEnv.expects (env : WordEnv) (expected : String) (l : Language) : Bool :=
  expected == "" || env.nameMatches expected l.languageName ||
    env.nameMatches expected l.englishLanguageName

namespace Loaded
variable {env : WordEnv} (l : Loaded env)

def findTrimmed (w : Word) : Option (Word × Nat) :=
  lookupBy env.canonical l.maps.trimmedWordMap (utf8Prefix l.language.uniquePrefixLength w)

def findIndex (hasChecksum : Bool) (w : Word) : Option Nat :=
  if hasChecksum then (l.findTrimmed w).map Prod.snd
  else (lookupBy env.canonical l.maps.wordMap w).map Prod.snd

def trimmedKey (w : Word) : Except String Word :=
  match l.findTrimmed w with
  | some entry => .ok entry.1
  | none => .error ("Word \"" ++ wordText (utf8Prefix l.language.uniquePrefixLength w) ++
      "\" not found in trimmed word map in " ++ l.language.englishLanguageName)

def createChecksumIndex (wordList : List Word) : Except String Nat := do
  let trimmedWords ← wordList.mapM l.trimmedKey
  check (!wordList.isEmpty) "division by zero"
  pure (env.crc32 trimmedWords.flatten % wordList.length)

def checksumTest (seed : List Word) : Except String Bool :=
  match seed.getLast? with
  | none => .ok false
  | some lastWord => do
    let idx ← l.createChecksumIndex seed.dropLast
    let checksum := seed.dropLast.getD idx []
    pure (decide (env.canonical (l.language.trim checksum) =
      env.canonical (l.language.trim lastWord)))

end Loaded
section
variable {env : WordEnv}

def findSeedLanguage (seed : List Word) (hasChecksum : Bool) (expected : String) :
    List (Loaded env) → Option (Loaded env) → Except String (Option (Loaded env × List Nat))
  | [], fallback => .ok (fallback.map (·, []))
  | l :: rest, fallback =>
    if !env.expects expected l.language then findSeedLanguage seed hasChecksum expected rest fallback
    else match seed.mapM (l.findIndex hasChecksum) with
      | none => findSeedLanguage seed hasChecksum expected rest fallback
      | some indices =>
        if hasChecksum then do
          let valid ← l.checksumTest seed
          if valid then pure (some (l, indices))
          else findSeedLanguage seed hasChecksum expected rest (some l)
        else .ok (some (l, indices))

structure Decoded where
  dst : Bytes
  languageName : String
deriving DecidableEq, Repr

def expectedWords (len : Nat) : Nat := wrap (len * 8 * 3) / 32

def seedHasChecksum (len size : Nat) : Bool :=
  if len ≠ 0 then size == expectedWords len + 1 else true

def seedSizeExpected (len size : Nat) : Bool :=
  len == 0 || size == expectedWords len / 2 || size == expectedWords len ||
    size == expectedWords len + 1

def duplicated (len size : Nat) (duplicate : Bool) (dst : Bytes) : Bytes :=
  if len > 0 ∧ duplicate then if size = wrap (len * 3) / 32 / 2 then dst ++ dst else dst else dst

def decodeSeed (l : Loaded env) (seed : List Word) (indices : List Nat) (len : Nat)
    (duplicate : Bool) : Option Decoded :=
  (decodeIndices l.language.wordList.length (indices.take seed.length)).map (fun dst =>
    ⟨duplicated len seed.length duplicate dst, l.language.languageName⟩)

def wordsToBytes (languages : List (Loaded env)) (words : Bytes) (len : Nat) (duplicate : Bool)
    (expectedLanguage : String) : Except String (Option Decoded) :=
  let seed := splitFields isSpace words
  let hasChecksum := seedHasChecksum len seed.length
  if len % 4 ≠ 0 then .ok none
  else if !seedSizeExpected len seed.length then .ok none
  else do
    match ← findSeedLanguage seed hasChecksum expectedLanguage languages none with
    | none => pure none
    | some (l, indices) =>
      if hasChecksum then do
        let valid ← l.checksumTest seed
        if !valid then pure none else pure (decodeSeed l seed.dropLast indices len duplicate)
      else pure (decodeSeed l seed indices len duplicate)

def bytesToWords (languages : List (Loaded env)) (src : Bytes) (languageName : String) :
    Except String (Option Bytes) :=
  if src.length % 4 ≠ 0 ∨ src.length = 0 then .ok none
  else match (languages.filter (fun l => languageName == l.language.languageName ||
      languageName == l.language.englishLanguageName)).getLast? with
    | none => .ok none
    | some l => do
      let indices := encodeIndices l.language.wordList.length src
      let wordsStore := indices.map (fun i => l.language.wordList.getD i [])
      let idx ← l.createChecksumIndex wordsStore
      pure (some (wordsStore.flatMap (· ++ [32]) ++ wordsStore.getD idx []))

end

structure LanguageSet (env : WordEnv) where
  chineseSimplified : Loaded env
  english : Loaded env
  dutch : Loaded env
  french : Loaded env
  spanish : Loaded env
  german : Loaded env
  italian : Loaded env
  portuguese : Loaded env
  japanese : Loaded env
  russian : Loaded env
  esperanto : Loaded env
  lojban : Loaded env
  englishOld : Loaded env

namespace LanguageSet
variable {env : WordEnv} (t : LanguageSet env)

def seedLanguages : List (Loaded env) :=
  [t.chineseSimplified, t.english, t.dutch, t.french, t.spanish, t.german, t.italian, t.portuguese,
    t.japanese, t.russian, t.esperanto, t.lojban, t.englishOld]

def languageList : List (Loaded env) :=
  [t.german, t.english, t.spanish, t.french, t.italian, t.dutch, t.portuguese, t.russian,
    t.japanese, t.chineseSimplified, t.esperanto, t.lojban]

theorem languageList_subset : t.languageList ⊆ t.seedLanguages := by
  intro l hl
  simp only [languageList, seedLanguages, mem_cons, not_mem_nil, or_false] at hl ⊢
  tauto

end LanguageSet

def languageNames : List (String × String) :=
  [("简体中文 (中国)", "Chinese (simplified)"), ("English", "English"), ("Nederlands", "Dutch"),
    ("Français", "French"), ("Español", "Spanish"), ("Deutsch", "German"), ("Italiano", "Italian"),
    ("Português", "Portuguese"), ("日本語", "Japanese"), ("Русский", "Russian"),
    ("Esperanto", "Esperanto"), ("Lojban", "Lojban"), ("EnglishOld", "English (old)")]

structure LanguageTable (env : WordEnv) extends LanguageSet env where
  named : toLanguageSet.seedLanguages.map
    (fun l => (l.language.languageName, l.language.englishLanguageName)) = languageNames

def IsName (names : String × String) (name : String) : Prop := name = names.1 ∨ name = names.2

instance (names : String × String) (name : String) : Decidable (IsName names name) :=
  inferInstanceAs (Decidable (_ ∨ _))

def Language.HasName (l : Language) (name : String) : Prop :=
  IsName (l.languageName, l.englishLanguageName) name

structure WordEnv.FoldsApart (env : WordEnv) : Prop where
  apart : ∀ p ∈ languageNames, ∀ q ∈ languageNames, ∀ a b, IsName p a → IsName q b →
    env.casefold a = env.casefold b → a = b

theorem languageNames_apart :
    languageNames.Pairwise (fun p q => ¬ IsName p q.1 ∧ ¬ IsName p q.2) := by
  decide

theorem languageNames_nonempty : ∀ p ∈ languageNames, ¬ IsName p "" := by
  decide

namespace LanguageTable
variable {env : WordEnv} (t : LanguageTable env)

theorem names_mem {l : Loaded env} (hl : l ∈ t.seedLanguages) :
    (l.language.languageName, l.language.englishLanguageName) ∈ languageNames := by
  rw [← t.named]
  exact mem_map_of_mem hl

variable {l l' : Loaded env} (hl : l ∈ t.seedLanguages) (hl' : l' ∈ t.seedLanguages) {name : String}
  (h : l.language.HasName name)
include hl hl' h

theorem name_unique (h' : l'.language.HasName name) : l' = l := by
  have hapart := languageNames_apart
  rw [← t.named, pairwise_map] at hapart
  have hclash : ∀ {m m' : Loaded env},
      ¬ IsName (m.language.languageName, m.language.englishLanguageName) m'.language.languageName ∧
        ¬ IsName (m.language.languageName, m.language.englishLanguageName)
          m'.language.englishLanguageName →
      m.language.HasName name → ¬ m'.language.HasName name := by
    rintro m m' ⟨hnative, henglish⟩ hm (rfl | rfl)
    · exact hnative hm
    · exact henglish hm
  have hsame : t.seedLanguages.Pairwise
      (fun m m' => m.language.HasName name → m'.language.HasName name → m' = m) :=
    hapart.imp (fun hd hm hm' => absurd hm' (hclash hd hm))
  have hflip : t.seedLanguages.Pairwise
      (flip (fun m m' => m.language.HasName name → m'.language.HasName name → m' = m)) :=
    hapart.imp (fun hd hm' hm => absurd hm' (hclash hd hm))
  exact List.Pairwise.forall_of_forall_of_flip (fun _ _ _ _ => rfl) hsame hflip hl hl' h h'

theorem expected_unique (hfold : env.FoldsApart) (hexpects : env.expects name l'.language = true) :
    l' = l := by
  refine t.name_unique hl hl' h ?_
  have hmatch : ∀ candidate, l'.language.HasName candidate →
      env.nameMatches name candidate = true → l'.language.HasName name := by
    intro candidate hcandidate hmatches
    simp only [WordEnv.nameMatches, Bool.or_eq_true, Bool.and_eq_true, beq_iff_eq] at hmatches
    rcases hmatches with rfl | ⟨-, hfolded⟩
    · exact hcandidate
    · obtain rfl := hfold.apart _ (t.names_mem hl) _ (t.names_mem hl') _ _ h hcandidate hfolded
      exact hcandidate
  simp only [WordEnv.expects, Bool.or_eq_true, beq_iff_eq] at hexpects
  rcases hexpects with (rfl | hnative) | henglish
  · exact absurd h (languageNames_nonempty _ (t.names_mem hl))
  · exact hmatch _ (.inl rfl) hnative
  · exact hmatch _ (.inr rfl) henglish

end LanguageTable

theorem WordEnv.expects_of_name (env : WordEnv) {l : Language} {name : String} (h : l.HasName name) :
    env.expects name l = true := by
  rcases h with rfl | rfl <;> simp [expects, nameMatches]

end Jero.Mnemonics
