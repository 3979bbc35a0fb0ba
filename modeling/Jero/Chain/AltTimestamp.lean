import Jero.Chain.AltWalk

namespace Jero.Chain
open Jero.Machine Jero.Lists Jero.Tx List ChainEnv

theorem pushTimestamps_eq {chain : List Entry} {k h : Nat} (hk : k ≤ h) (hh : h < chain.length) :
    pushTimestamps chain k h = (timestampsOf ((chain.take (h + 1)).drop (h + 1 - k))).reverse := by
  induction k generalizing h with
  | zero =>
    rw [drop_eq_nil_of_le (by rw [length_take]; omega)]
    rfl
  | succ k ih =>
    obtain ⟨n, rfl⟩ : ∃ n, h = n + 1 := ⟨h - 1, by omega⟩
    have hcut : n + 1 + 1 - (k + 1) ≤ (chain.take (n + 1)).length := by
      rw [length_take]
      omega
    have hlast : chain.take (n + 1 + 1) = chain.take (n + 1) ++ [chain[n + 1]] := by
      rw [take_add_one, getElem?_eq_getElem hh]
      rfl
    have hsame : n + 1 + 1 - (k + 1) = n + 1 - k := by omega
    rw [pushTimestamps, Nat.add_sub_cancel, ih (by omega) (by omega), hlast,
      drop_append_of_le_length hcut, getElem?_eq_getElem hh, timestampsOf_append,
      reverse_append, hsame]
    rfl

section
variable {main : List Entry} {f : Nat} {altChain : List BlockExtendedInfo}

theorem timestampsOf_forkedChain :
    timestampsOf (forkedChain main f altChain) =
      timestampsOf (main.take f) ++ altChain.map (fun bei => bei.bl.timestamp) := by
  rw [forkedChain, timestampsOf_append]
  simp [timestampsOf, Function.comp_def, BlockExtendedInfo.entry]

theorem length_timestampsOf_forkedChain (hf : f ≤ main.length) :
    (timestampsOf (forkedChain main f altChain)).length = f + altChain.length := by
  rw [timestampsOf_forkedChain, length_append, timestampsOf, length_map,
    length_take, min_eq_left hf, length_map]

theorem completeTimestampsVector_short (hpos : 1 ≤ f) (hf : f ≤ main.length)
    (hshort : altChain.length < timestampCheckWindow) :
    completeTimestampsVector main (f - 1) (altChain.reverse.map (fun bei => bei.bl.timestamp)) =
      ((timestampsOf (forkedChain main f altChain)).drop
        (f - min (timestampCheckWindow - altChain.length) (f - 1))).reverse := by
  have hlen : (altChain.reverse.map (fun bei => bei.bl.timestamp)).length = altChain.length := by
    rw [length_map, length_reverse]
  have hcount : f - 1 - (if f - 1 > timestampCheckWindow - altChain.length then
      f - 1 - (timestampCheckWindow - altChain.length) else 0) =
      min (timestampCheckWindow - altChain.length) (f - 1) := by
    split <;> omega
  have htake : (timestampsOf (main.take f)).length = f := by
    rw [timestampsOf, length_map, length_take, min_eq_left hf]
  rw [completeTimestampsVector, hlen, if_neg (by omega), if_neg (by omega)]
  simp only
  rw [hcount, pushTimestamps_eq (by omega) (by omega), Nat.sub_add_cancel hpos,
    timestampsOf_forkedChain, drop_append_of_le_length (by rw [htake]; omega),
    reverse_append, map_reverse]
  congr 2
  rw [timestampsOf, timestampsOf, map_drop]

end
section
variable {now timestamp : Nat} {window : List Nat}

theorem checkBlockTimestamp_reverse (now : Nat) (window : List Nat) (timestamp : Nat) :
    checkBlockTimestamp now window.reverse timestamp = checkBlockTimestamp now window timestamp := by
  rw [checkBlockTimestamp, checkBlockTimestamp, length_reverse,
    median_eq_of_perm (reverse_perm window)]

variable (h : ¬ timestamp > wrap (now + blockFutureTimeLimit))
include h

theorem checkBlockTimestamp_few (hfew : window.length < timestampCheckWindow) :
    checkBlockTimestamp now window timestamp = (true, 0) := by
  rw [checkBlockTimestamp, if_neg h, if_pos hfew]

theorem checkBlockTimestamp_enough (henough : timestampCheckWindow ≤ window.length) :
    checkBlockTimestamp now window timestamp =
      (decide (median window ≤ timestamp), median window) := by
  rw [checkBlockTimestamp, if_neg h, if_neg (not_lt.mpr henough)]
  simp only
  split
  · rename_i hlt
    rw [decide_eq_false (not_le.mpr hlt)]
  · rename_i hle
    rw [decide_eq_true (not_lt.mp hle)]

omit h

theorem checkBlockTimestampMainChain_eq (now : Nat) (chain : List Nat) (timestamp : Nat) :
    checkBlockTimestampMainChain now chain timestamp =
      checkBlockTimestamp now (chain.drop (chain.length - timestampCheckWindow)) timestamp := by
  rw [checkBlockTimestampMainChain]
  congr 2
  split <;> omega

end
section
variable {main : List Entry} {f : Nat} {altChain : List BlockExtendedInfo} {now timestamp : Nat}

theorem short_side_iff (hpos : 1 ≤ f) (hf : f ≤ main.length)
    (hpast : ¬ timestamp > wrap (now + blockFutureTimeLimit))
    (hshort : altChain.length < timestampCheckWindow) :
    let chain := timestampsOf (forkedChain main f altChain)
    checkBlockTimestamp now (completeTimestampsVector main (f - 1)
        (altChain.reverse.map (fun bei => bei.bl.timestamp))) timestamp =
      checkBlockTimestampMainChain now chain timestamp ↔
        f + altChain.length ≠ timestampCheckWindow ∨ median chain = 0 := by
  intro chain
  have hchain : chain.length = f + altChain.length := length_timestampsOf_forkedChain hf
  rw [completeTimestampsVector_short hpos hf hshort, checkBlockTimestamp_reverse,
    checkBlockTimestampMainChain_eq, hchain]
  rcases lt_trichotomy (f + altChain.length) timestampCheckWindow with hlt | heq | hgt
  · rw [checkBlockTimestamp_few hpast (by rw [length_drop, hchain]; omega),
      checkBlockTimestamp_few hpast (by rw [length_drop, hchain]; omega)]
    exact iff_of_true rfl (.inl hlt.ne)
  · have hskip : f - min (timestampCheckWindow - altChain.length) (f - 1) = 1 := by omega
    rw [hskip, heq, Nat.sub_self, drop_zero,
      checkBlockTimestamp_few hpast (by rw [length_drop, hchain]; omega),
      checkBlockTimestamp_enough hpast (by rw [hchain, heq])]
    constructor
    · intro hsame
      exact .inr (Prod.mk.inj hsame).2.symm
    · rintro (hne | hzero)
      · exact absurd rfl hne
      · rw [hzero, decide_eq_true (Nat.zero_le _)]
  · have hsame : f - min (timestampCheckWindow - altChain.length) (f - 1) =
        f + altChain.length - timestampCheckWindow := by omega
    rw [hsame]
    exact iff_of_true rfl (.inl hgt.ne')

theorem long_side_iff (hpos : 1 ≤ f) (hf : f ≤ main.length)
    (hpast : ¬ timestamp > wrap (now + blockFutureTimeLimit))
    (hlong : timestampCheckWindow ≤ altChain.length) :
    let altTimestamps := altChain.map (fun bei => bei.bl.timestamp)
    checkBlockTimestamp now (completeTimestampsVector main (f - 1)
        (altChain.reverse.map (fun bei => bei.bl.timestamp))) timestamp =
      checkBlockTimestampMainChain now
        (timestampsOf (forkedChain main f altChain)) timestamp ↔
        median altTimestamps =
          median (altTimestamps.drop (altChain.length - timestampCheckWindow)) := by
  intro altTimestamps
  have halt : altTimestamps.length = altChain.length := length_map _
  have htake : (timestampsOf (main.take f)).length = f := by
    rw [timestampsOf, length_map, length_take, min_eq_left hf]
  have hwindow : (timestampsOf (forkedChain main f altChain)).drop
      (f + altChain.length - timestampCheckWindow) =
      altTimestamps.drop (altChain.length - timestampCheckWindow) := by
    rw [timestampsOf_forkedChain, drop_append, htake, drop_eq_nil_of_le (by omega),
      nil_append, Nat.sub_right_comm, Nat.add_sub_cancel_left]
  rw [completeTimestampsVector, if_pos (by rw [length_map, length_reverse]; exact hlong),
    map_reverse, checkBlockTimestamp_reverse, checkBlockTimestampMainChain_eq,
    length_timestampsOf_forkedChain hf, hwindow,
    checkBlockTimestamp_enough hpast (by rw [halt]; exact hlong),
    checkBlockTimestamp_enough hpast (by rw [length_drop, halt]; omega)]
  constructor
  · intro hsame
    exact (Prod.mk.inj hsame).2
  · intro hsame
    rw [show median (altChain.map (fun bei => bei.bl.timestamp)) = _ from hsame]

end

theorem alternative_timestamp_verdict_iff {env : ChainEnv} {db : Db} {f : Nat}
    {altChain : List BlockExtendedInfo} {prevId : Hash} (h : Attached env db f altChain prevId)
    (now timestamp : Nat) :
    let chain := timestampsOf (forkedChain db.chain f altChain)
    let altTimestamps := altChain.map (fun bei => bei.bl.timestamp)
    ∃ timestamps, env.buildAltChain db prevId = .ok (some (altChain, timestamps)) ∧
      (checkBlockTimestamp now timestamps timestamp =
          checkBlockTimestampMainChain now chain timestamp ↔
        timestamp > wrap (now + blockFutureTimeLimit) ∨
        altChain.length ≤ 60 ∧ f + altChain.length ≠ 60 ∨
        f + altChain.length = 60 ∧ median chain = 0 ∨
        60 < altChain.length ∧
          median altTimestamps = median (altTimestamps.drop (altChain.length - 60))) := by
  intro chain altTimestamps
  refine ⟨_, buildAltChain_eq h, ?_⟩
  have hpos := h.pos
  have hf : f ≤ db.chain.length := by
    obtain ⟨root, -, hheight⟩ := h.linked
    have := blockHeightOf_lt hheight
    omega
  by_cases hfuture : timestamp > wrap (now + blockFutureTimeLimit)
  · rw [checkBlockTimestampMainChain_eq, checkBlockTimestamp, checkBlockTimestamp,
      if_pos hfuture, if_pos hfuture]
    exact iff_of_true rfl (.inl hfuture)
  rcases lt_or_ge altChain.length timestampCheckWindow with hshort | hlong
  · have hlt : altChain.length < 60 := hshort
    refine (short_side_iff hpos hf hfuture hshort).trans ?_
    constructor
    · rintro (hne | hzero)
      · exact .inr (.inl ⟨hlt.le, hne⟩)
      · by_cases heq : f + altChain.length = 60
        · exact .inr (.inr (.inl ⟨heq, hzero⟩))
        · exact .inr (.inl ⟨hlt.le, heq⟩)
    · rintro (hlate | ⟨-, hne⟩ | ⟨-, hzero⟩ | ⟨hmore, -⟩)
      · exact absurd hlate hfuture
      · exact .inl hne
      · exact .inr hzero
      · exact absurd hmore (by omega)
  · have hge : 60 ≤ altChain.length := hlong
    refine (long_side_iff hpos hf hfuture hlong).trans ?_
    constructor
    · intro hsame
      rcases hge.eq_or_lt with heq | hlt
      · exact .inr (.inl ⟨heq.ge, by omega⟩)
      · exact .inr (.inr (.inr ⟨hlt, hsame⟩))
    · rintro (hlate | ⟨hle, -⟩ | ⟨heq, -⟩ | ⟨-, hsame⟩)
      · exact absurd hlate hfuture
      · have hall : altChain.length - timestampCheckWindow = 0 := Nat.sub_eq_zero_of_le hle
        rw [hall, drop_zero]
      · exact absurd heq (by omega)
      · exact hsame

def sampleTip : BlockExtendedInfo := ⟨sampleBlock 3 400 3300, 3, 0, 5, 0⟩

def sampleForkDb : Db :=
  ⟨sampleMain, (SortedMap.empty.insert 3300 sampleAlt).insert 4400 sampleTip⟩

theorem sampleFork_attached :
    Attached sampleEnv sampleForkDb 2 [sampleAlt, sampleTip] 4400 := by
  refine ⟨by decide, by decide, ⟨2120, .up rfl (.up rfl (.root rfl)), rfl⟩, ?_⟩
  rintro first ⟨⟩
  exact ⟨rfl, by decide⟩

theorem sample_alternative_timestamp_verdict :
    ∃ timestamps, sampleEnv.buildAltChain sampleForkDb 4400 =
        .ok (some ([sampleAlt, sampleTip], timestamps)) ∧
      checkBlockTimestamp 100000 timestamps 500 = checkBlockTimestampMainChain 100000
        (timestampsOf (forkedChain sampleMain 2 [sampleAlt, sampleTip])) 500 := by
  obtain ⟨timestamps, hbuilt, hiff⟩ :=
    alternative_timestamp_verdict_iff sampleFork_attached 100000 500
  exact ⟨timestamps, hbuilt, hiff.mpr (.inr (.inl (by decide)))⟩

def youngMain : List Entry :=
  (List.range 61).map (fun height => ⟨sampleBlock height 1 (1000 * height + 1), height, 0⟩)

theorem genesis_left_out_of_alternative_median :
    Attached sampleEnv ⟨youngMain, .empty⟩ 60 [] 60001 ∧
      sampleEnv.buildAltChain ⟨youngMain, .empty⟩ 60001 =
        .ok (some ([], List.replicate 59 1)) ∧
      checkBlockTimestamp 100000 (List.replicate 59 1) 0 = (true, 0) ∧
      checkBlockTimestampMainChain 100000
        (timestampsOf (forkedChain youngMain 60 [])) 0 = (false, 1) := by
  refine ⟨⟨by decide, by decide +kernel, ⟨60001, .root rfl, by decide +kernel⟩, ?_⟩,
    by decide +kernel, by decide +kernel, by decide +kernel⟩
  rintro first ⟨⟩

end Jero.Chain
