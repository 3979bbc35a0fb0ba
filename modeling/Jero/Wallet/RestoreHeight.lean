import Jero.Machine.Word
import Mathlib

namespace Jero.Wallet
open Machine

structure Daemon where
  connect : Except String Nat
  getHeight : Except String Nat
  getBlocksByHeight : List Nat → Except String (List Nat)

def bisectHeight (daemon : Daemon) (timestampTarget : Nat) : Nat → Nat → Nat → Except String Nat
  | 0, _, _ => .error "failed to find the blockchain height for the given timestamp"
  | iterations + 1, heightMin, heightMax => do
    let heightMid := wrap (heightMin + wsub heightMax heightMin / 2)
    match ← daemon.getBlocksByHeight [heightMin, heightMid, heightMax] with
    | timestampMin :: timestampMid :: timestampMax :: _ =>
      if ¬(timestampMin ≤ timestampMid ∧ timestampMid ≤ timestampMax) then
        .ok (min heightMin (min heightMid heightMax))
      else if timestampTarget > timestampMax then .error "specified date is in the future"
      else if timestampTarget ≤ wrap (timestampMin + 2 * 24 * 60 * 60) then .ok heightMin
      else
        let range := if timestampTarget ≤ timestampMid then (heightMin, heightMid)
          else (heightMid, heightMax)
        if wsub range.2 range.1 ≤ 2 * 24 * 30 then .ok range.1
        else bisectHeight daemon timestampTarget iterations range.1 range.2
    | _ => .error "Not enough blocks returned from daemon"

def getBlockchainHeightByTimestamp (daemon : Daemon) (timestampTarget : Nat) :
    Except String Nat := do
  let version ← daemon.connect
  check (2 ^ 16 + 6 ≤ version) "this function requires RPC version 1.6 or higher"
  let height ← daemon.getHeight
  check (height ≠ 0) "failed to get blockchain height"
  bisectHeight daemon timestampTarget 64 0 (height - 1)

structure TimedChain where
  height : Nat
  timestamp : Nat → Nat
  height_lt : height < 2 ^ 64
  timestamp_lt : ∀ i < height, timestamp i < 2 ^ 63
  ordered : ∀ i j, i ≤ j → j < height → timestamp i ≤ timestamp j

structure Serves (daemon : Daemon) (chain : TimedChain) : Prop where
  connect : ∃ version, daemon.connect = .ok version ∧ 2 ^ 16 + 6 ≤ version
  height : daemon.getHeight = .ok chain.height
  blocks : ∀ heights, (∀ h ∈ heights, h < chain.height) →
    daemon.getBlocksByHeight heights = .ok (heights.map chain.timestamp)

def SafeHeight (chain : TimedChain) (target height : Nat) : Prop :=
  height < chain.height ∧ (∀ i < chain.height, target ≤ chain.timestamp i → height ≤ i) ∧
    ((∃ i < chain.height, target ≤ chain.timestamp i ∧ height ≤ i ∧ i - height ≤ 2 * 24 * 30) ∨
      target ≤ chain.timestamp height + 2 * 24 * 60 * 60)

structure Bracket (chain : TimedChain) (target lo hi : Nat) : Prop where
  le : lo ≤ hi
  lt : hi < chain.height
  below : ∀ i < chain.height, target ≤ chain.timestamp i → lo ≤ i
  above : target ≤ chain.timestamp hi

variable {daemon : Daemon} {chain : TimedChain} {target : Nat}

theorem Bracket.halve {lo hi mid : Nat} (h : Bracket chain target lo hi) (hlo : lo ≤ mid)
    (hhi : mid ≤ hi) :
    (target ≤ chain.timestamp mid → Bracket chain target lo mid) ∧
      (¬target ≤ chain.timestamp mid → Bracket chain target mid hi) := by
  have hmid := hhi.trans_lt h.lt
  refine ⟨fun ht => ⟨hlo, hmid, h.below, ht⟩, fun ht => ⟨hhi, h.lt, fun i _ hti => ?_, h.above⟩⟩
  by_contra hlt
  exact ht (hti.trans (chain.ordered i mid (by omega) hmid))

theorem bisectHeight_safe (hd : Serves daemon chain) (iterations lo hi : Nat)
    (h : Bracket chain target lo hi) (hwidth : hi - lo ≤ 2 ^ iterations * 1440)
    (hpos : iterations ≠ 0) :
    ∃ height, bisectHeight daemon target iterations lo hi = .ok height ∧
      SafeHeight chain target height := by
  induction iterations generalizing lo hi with
  | zero => exact absurd rfl hpos
  | succ iterations ih =>
    have hle := h.le
    have hlt := h.lt
    have hsize := chain.height_lt
    obtain ⟨mid, hm⟩ : ∃ mid, mid = lo + (hi - lo) / 2 := ⟨_, rfl⟩
    have hmid : wrap (lo + wsub hi lo / 2) = mid := by
      rw [wsub_of_le hle (by omega), wrap_of_lt (by omega), hm]
    have hwrap := wrap_of_lt (n := chain.timestamp lo + 2 * 24 * 60 * 60)
      (by have := chain.timestamp_lt lo (by omega); omega)
    have hlm := chain.ordered lo mid (by omega) (by omega)
    have hmh := chain.ordered mid hi (by omega) hlt
    have hhalf := h.halve (show lo ≤ mid by omega) (by omega)
    simp only [bisectHeight, hmid, hd.blocks [lo, mid, hi] (by simp; omega), List.map_cons, ok_bind,
      hwrap, hlm, hmh, and_self, not_true, if_false, gt_iff_lt, Nat.not_lt.mpr h.above]
    split
    case isTrue ht => exact ⟨lo, rfl, by omega, h.below, .inr ht⟩
    obtain ⟨range, hrange, hb, hw⟩ : ∃ range : Nat × Nat,
        (if target ≤ chain.timestamp mid then (lo, mid) else (mid, hi)) = range ∧
          Bracket chain target range.1 range.2 ∧ range.2 - range.1 ≤ (hi - lo + 1) / 2 := by
      split
      case isTrue ht => exact ⟨_, rfl, hhalf.1 ht, by simp only; omega⟩
      case isFalse ht => exact ⟨_, rfl, hhalf.2 ht, by simp only; omega⟩
    have hrle := hb.le
    have hrlt := hb.lt
    rw [hrange, wsub_of_le hrle (by omega)]
    split
    case isTrue hr =>
      exact ⟨_, rfl, by omega, hb.below, .inl ⟨_, hrlt, hb.above, hrle, hr⟩⟩
    case isFalse hr =>
      rw [pow_succ] at hwidth
      refine ih _ _ hb (by omega) ?_
      rintro rfl
      omega

theorem restore_height_skips_no_block (daemon : Daemon) (chain : TimedChain) (target : Nat)
    (hd : Serves daemon chain) (hpos : 0 < chain.height)
    (htop : target ≤ chain.timestamp (chain.height - 1)) :
    ∃ height, getBlockchainHeightByTimestamp daemon target = .ok height ∧
      SafeHeight chain target height := by
  obtain ⟨version, hconnect, hversion⟩ := hd.connect
  have hsize := chain.height_lt
  have h : Bracket chain target 0 (chain.height - 1) :=
    ⟨Nat.zero_le _, by omega, fun _ _ _ => Nat.zero_le _, htop⟩
  simp only [getBlockchainHeightByTimestamp, hconnect, hd.height, ok_bind, check_decide hversion,
    check_decide hpos.ne']
  exact bisectHeight_safe hd 64 0 _ h (by omega) (by norm_num)

theorem restore_height_at_three_blocks :
    ∃ height, getBlockchainHeightByTimestamp
        ⟨.ok (2 ^ 16 + 6), .ok 3, fun heights => .ok (heights.map (· * 200000))⟩ 300000 = .ok height ∧
      SafeHeight ⟨3, (· * 200000), by norm_num, by decide, by omega⟩ 300000 height :=
  restore_height_skips_no_block _ _ _ ⟨⟨_, rfl, le_rfl⟩, rfl, fun _ _ => rfl⟩ (by norm_num)
    (by norm_num)

end Jero.Wallet
