import Jero.Lists.KeyedTable
import Jero.Mnemonics.Triples

namespace Jero.Mnemonics
open Jero.Machine Jero.Lists List

abbrev Word := List UInt8

variable {w : Word} {e : Word × Nat}

structure Language where
  languageName : String
  englishLanguageName : String
  wordList : List Word
  uniquePrefixLength : Nat
deriving DecidableEq, Repr

structure WordEnv where
  canonical : Word → Word
  crc32 : Word → Nat
  casefold : String → String

structure MapFlags where
  allowShortWords : Bool
  allowDuplicatePrefixes : Bool
deriving DecidableEq, Repr

structure WordMaps where
  wordMap : List (Word × Nat)
  trimmedWordMap : List (Word × Nat)
deriving DecidableEq, Repr

def isContinuation (c : UInt8) : Bool := c &&& 0xc0 == 0x80

def utf8Prefix : Nat → Word → Word
  | 0, _ => []
  | _ + 1, [] => []
  | count + 1, c :: rest =>
    c :: (rest.takeWhile isContinuation ++ utf8Prefix count (rest.dropWhile isContinuation))

def wordText (w : Word) : String := String.ofList (w.map (fun c => Char.ofNat c.toNat))

def Language.trim (l : Language) (w : Word) : Word :=
  if w.length > l.uniquePrefixLength then utf8Prefix l.uniquePrefixLength w else w

def populateStep (env : WordEnv) (l : Language) (flags : MapFlags) (maps : WordMaps)
    (entry : Word × Nat) : Except String WordMaps := do
  check (!decide (entry.1.length < l.uniquePrefixLength) || flags.allowShortWords)
    ("Too short word in " ++ l.languageName ++ " word list: " ++ wordText entry.1)
  check ((lookupBy env.canonical maps.trimmedWordMap (l.trim entry.1)).isNone ||
      flags.allowDuplicatePrefixes)
    ("Duplicate prefix in " ++ l.languageName ++ " word list: " ++ wordText (l.trim entry.1))
  pure ⟨upsert env.canonical maps.wordMap entry.1 entry.2,
    upsert env.canonical maps.trimmedWordMap (l.trim entry.1) entry.2⟩

def populateMaps (env : WordEnv) (l : Language) (flags : MapFlags) : Except String WordMaps := do
  check (decide (l.wordList.length = wordCount)) ("Wrong word list length for " ++ l.languageName)
  l.wordList.zipIdx.foldlM (populateStep env l flags) ⟨[], []⟩

structure Loaded (env : WordEnv) where
  language : Language
  flags : MapFlags
  maps : WordMaps
  populated : populateMaps env language flags = .ok maps

theorem utf8Prefix_of_length_le (w : Word) (n : Nat) (h : w.length ≤ n) : utf8Prefix n w = w := by
  induction n generalizing w with
  | zero => rw [length_eq_zero_iff.mp (Nat.le_zero.mp h), utf8Prefix]
  | succ n ih =>
    cases w with
    | nil => rfl
    | cons c rest =>
      have hrest : (rest.dropWhile isContinuation).length ≤ n :=
        (dropWhile_sublist _).length_le.trans (Nat.le_of_succ_le_succ h)
      rw [utf8Prefix, ih _ hrest, takeWhile_append_dropWhile]

theorem Language.trim_eq (l : Language) (w : Word) : l.trim w = utf8Prefix l.uniquePrefixLength w := by
  unfold trim
  split
  · rfl
  · exact (utf8Prefix_of_length_le w _ (not_lt.mp ‹_›)).symm

theorem populate_foldlM {env : WordEnv} {l : Language} {flags : MapFlags}
    (entries : List (Word × Nat)) {maps last : WordMaps}
    (h : entries.foldlM (populateStep env l flags) maps = .ok last) :
    last.wordMap = entries.foldl (fun m e => upsert env.canonical m e.1 e.2) maps.wordMap ∧
      last.trimmedWordMap =
        (entries.map (fun e => (l.trim e.1, e.2))).foldl
          (fun m e => upsert env.canonical m e.1 e.2) maps.trimmedWordMap := by
  induction entries generalizing maps with
  | nil =>
    cases h
    exact ⟨rfl, rfl⟩
  | cons e entries ih =>
    rw [foldlM_cons] at h
    obtain ⟨next, hstep, hrest⟩ := bind_ok h
    obtain ⟨hwords, htrimmed⟩ := ih hrest
    simp only [populateStep, check_bind_ok_iff] at hstep
    obtain ⟨-, -, hnext⟩ := hstep
    cases hnext
    exact ⟨hwords, htrimmed⟩

namespace Loaded
variable {env : WordEnv} (l : Loaded env)

theorem count : l.language.wordList.length = wordCount := by
  have h := l.populated
  rw [populateMaps, check_bind_ok_iff] at h
  exact of_decide_eq_true h.1

theorem maps_eq :
    l.maps.wordMap = tabulate env.canonical l.language.wordList.zipIdx ∧
      l.maps.trimmedWordMap = tabulate env.canonical
        (l.language.wordList.zipIdx.map (fun e => (l.language.trim e.1, e.2))) := by
  have h := l.populated
  rw [populateMaps, check_bind_ok_iff] at h
  exact populate_foldlM _ h.2

theorem value_lt {key : Word → Word} {entries : List (Word × Nat)}
    (hentries : ∀ e ∈ entries, e.2 < wordCount)
    (h : lookupBy key (tabulate key entries) w = some e) : e.2 < wordCount := by
  obtain ⟨d, hd, heq⟩ := tabulate_values (mem_of_find?_eq_some h)
  exact heq ▸ hentries d hd

theorem zipIdx_lt : ∀ e ∈ l.language.wordList.zipIdx, e.2 < wordCount := by
  intro e he
  rw [← l.count]
  have hlt := snd_lt_of_mem_zipIdx he
  simpa using hlt

theorem trimmedWordMap_lt (h : lookupBy env.canonical l.maps.trimmedWordMap w = some e) :
    e.2 < wordCount := by
  rw [l.maps_eq.2] at h
  refine value_lt ?_ h
  intro e he
  obtain ⟨d, hd, rfl⟩ := mem_map.mp he
  exact l.zipIdx_lt d hd

def DistinctPrefixes : Prop :=
  (l.language.wordList.map (fun w => env.canonical (l.language.trim w))).Nodup

variable {l}

theorem trimmed_lookup (h : l.DistinctPrefixes) {i : Nat} (hw : l.language.wordList[i]? = some w) :
    lookupBy env.canonical l.maps.trimmedWordMap (utf8Prefix l.language.uniquePrefixLength w) =
      some (l.language.trim w, i) := by
  have hkeys : ((l.language.wordList.zipIdx.map (fun e => (l.language.trim e.1, e.2))).map
      (fun e => env.canonical e.1)).Nodup := by
    rw [map_map]
    have hsame : l.language.wordList.zipIdx.map
        ((fun e => env.canonical e.1) ∘ fun e => (l.language.trim e.1, e.2)) =
        (l.language.wordList.zipIdx.map Prod.fst).map
          (fun w => env.canonical (l.language.trim w)) := by
      rw [map_map]
      rfl
    rw [hsame, zipIdx_map_fst]
    exact h
  rw [l.maps_eq.2, tabulate_distinct _ hkeys]
  refine lookupBy_of_mem hkeys ?_ (congrArg env.canonical (l.language.trim_eq w).symm)
  refine mem_map.mpr ⟨(w, i), ?_, rfl⟩
  exact mk_mem_zipIdx_iff_getElem?.mpr hw

end Loaded
end Jero.Mnemonics
