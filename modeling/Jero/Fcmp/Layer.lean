import Jero.Machine.Word
import Jero.Lists.Chunks

namespace Jero.Fcmp
open Jero.Machine Jero.Lists List

structure Curve (Scalar Point CycleScalar : Type) where
  hashInitPoint : Point
  pointToCycleScalar : Point → CycleScalar
  hashGrow : Point → Nat → Scalar → List Scalar → Point
  zeroScalar : Scalar

structure LayerExtension (Point : Type) where
  startIdx : Nat
  updateExistingLastHash : Bool
  hashes : List Point
deriving DecidableEq, Repr

structure GrowLayerInstructions where
  parentChunkWidth : Nat
  oldTotalParents : Nat
  newTotalParents : Nat
  settingNextLayerAfterOldRoot : Bool
  needOldLastChild : Bool
  needOldLastParent : Bool
  startOffset : Nat
  nextParentStartIndex : Nat
deriving DecidableEq, Repr

variable {Scalar Point CycleScalar : Type} (curve : Curve Scalar Point CycleScalar)

def getNewParent (newChildren : List Scalar) : Point :=
  curve.hashGrow curve.hashInitPoint 0 curve.zeroScalar newChildren

variable (oldLastChild : Option Scalar) (oldLastParent : Option Point)

def hashFirstChunk (startOffset : Nat) (newChildScalars : List Scalar) (chunkSize : Nat) :
    Except String Point := do
  let existingHash := oldLastParent.getD curve.hashInitPoint
  let priorChildAfterOffset := oldLastChild.getD curve.zeroScalar
  check (chunkSize ≤ newChildScalars.length)
    "hash_first_chunk: chunk size is larger than expected"
  return curve.hashGrow existingHash startOffset priorChildAfterOffset
    (newChildScalars.take chunkSize)

def hashNextChunk (chunkStartIdx : Nat) (newChildScalars : List Scalar) (chunkSize : Nat) :
    Except String Point := do
  check (wrap (chunkStartIdx + chunkSize) ≤ newChildScalars.length)
    "hash_next_chunk: chunk size is larger than expected"
  return getNewParent curve ((newChildScalars.drop chunkStartIdx).take chunkSize)

def hashChunk (startOffset : Nat) (newChildScalars : List Scalar)
    (firstChunkSize chunkWidth : Nat) (j : Nat) : Except String Point :=
  if j = 0 then
    hashFirstChunk curve oldLastChild oldLastParent startOffset newChildScalars firstChunkSize
  else do
    let chunkStart := wrap (j * chunkWidth)
    check (chunkStart > startOffset) "unexpected small chunk_start"
    let chunkStartIdx := chunkStart - startOffset
    let chunkEndIdx := min (wrap (chunkStartIdx + chunkWidth)) newChildScalars.length
    check (chunkEndIdx > chunkStartIdx) "unexpected large chunk_start_idx"
    hashNextChunk curve chunkStartIdx newChildScalars (chunkEndIdx - chunkStartIdx)

def hashChildrenChunks (startOffset nextParentStartIndex : Nat) (newChildScalars : List Scalar)
    (chunkWidth : Nat) : Except String (LayerExtension Point) := do
  check (!newChildScalars.isEmpty) "empty child scalars"
  check (chunkWidth > startOffset) "start_offset must be smaller than chunk_width"
  let firstChunkSize := min newChildScalars.length (chunkWidth - startOffset)
  check (newChildScalars.length ≥ firstChunkSize) "unexpected first chunk size"
  let nChunks := 1 + (newChildScalars.length - firstChunkSize) / chunkWidth
    + (if (newChildScalars.length - firstChunkSize) % chunkWidth > 0 then 1 else 0)
  match (List.range nChunks).mapM
      (hashChunk curve oldLastChild oldLastParent startOffset newChildScalars firstChunkSize
        chunkWidth) with
  | .error _ => .error "failed to hash chunks"
  | .ok hashes => .ok ⟨nextParentStartIndex, oldLastParent.isSome, hashes⟩

def hashLayer (chunkWidth : Nat) (children : List Scalar) : List Point :=
  (chunks chunkWidth children).map (getNewParent curve)

def grownHashes (startOffset : Nat) (newChildScalars : List Scalar) (chunkWidth : Nat) :
    List Point :=
  curve.hashGrow (oldLastParent.getD curve.hashInitPoint) startOffset
      (oldLastChild.getD curve.zeroScalar) (newChildScalars.take (chunkWidth - startOffset)) ::
    hashLayer curve chunkWidth (newChildScalars.drop (chunkWidth - startOffset))

variable {curve}

theorem length_hashLayer (w : Nat) (children : List Scalar) :
    (hashLayer curve w children).length = children.length ⌈/⌉ w := by
  rw [hashLayer, length_map, length_chunks]

theorem length_grownHashes (c : Option Scalar) (p : Option Point) (off w : Nat)
    (scalars : List Scalar) :
    (grownHashes curve c p off scalars w).length = 1 + (scalars.length - (w - off)) ⌈/⌉ w := by
  rw [grownHashes, length_cons, length_hashLayer, length_drop, add_comm]

variable (c : Option Scalar) (p : Option Point) {off w : Nat} {scalars : List Scalar}

theorem start_add_length_grownHashes (hoff : off < w) (hne : scalars ≠ []) (q : Nat) :
    q + (grownHashes curve c p off scalars w).length = (q * w + (off + scalars.length)) ⌈/⌉ w := by
  have hw : 0 < w := by omega
  have hlen : 0 < scalars.length := length_pos_iff.mpr hne
  have hsub : off + scalars.length - w = scalars.length - (w - off) := by omega
  rw [mul_add_ceilDiv hw, ceilDiv_sub hw (n := off + scalars.length) (by omega), hsub,
    length_grownHashes]

theorem hashChunk_zero (scalars : List Scalar) :
    hashChunk curve c p off scalars (min scalars.length (w - off)) w 0 =
      .ok (curve.hashGrow (p.getD curve.hashInitPoint) off (c.getD curve.zeroScalar)
        (scalars.take (w - off))) := by
  have ht : scalars.take (min scalars.length (w - off)) = scalars.take (w - off) := by
    rw [min_comm, ← take_take, take_length]
  simp only [hashChunk, hashFirstChunk, if_true]
  rw [check_true (by simp), ht]
  rfl

theorem hashChunk_succ (hoff : off < w) (scalars : List Scalar) (i first : Nat)
    (hi : i * w < scalars.length - (w - off)) (hov : off + scalars.length + w ≤ 2 ^ 64) :
    hashChunk curve c p off scalars first w (i + 1) =
      .ok (getNewParent curve (((scalars.drop (w - off)).drop (i * w)).take w)) := by
  have hstart : (i + 1) * w = i * w + w := Nat.succ_mul i w
  have hw1 : wrap ((i + 1) * w) = i * w + w := by
    rw [hstart, wrap_of_lt]
    omega
  have hidx : i * w + w - off = (w - off) + i * w := by omega
  have hw2 : wrap (i * w + w - off + w) = i * w + w - off + w := wrap_of_lt (by omega)
  have hend : wrap (i * w + w - off + (min (i * w + w - off + w) scalars.length -
      (i * w + w - off))) = min (i * w + w - off + w) scalars.length := by
    rw [wrap_of_lt] <;> omega
  have htake : ∀ l : List Scalar, l.length = scalars.length - (i * w + w - off) →
      l.take (min (i * w + w - off + w) scalars.length - (i * w + w - off)) = l.take w := by
    intro l hl
    rcases le_total (i * w + w - off + w) scalars.length with h | h
    · rw [min_eq_left h]
      congr 1
      omega
    · rw [min_eq_right h, ← hl, take_length, take_of_length_le (by omega)]
  simp only [hashChunk, hashNextChunk, Nat.add_eq_zero_iff, one_ne_zero, and_false, if_false, hw1,
    hw2]
  rw [check_true (by simp; omega), check_true (by simp; omega),
    check_true (by rw [hend]; simp), htake _ (by rw [length_drop]), hidx, ← drop_drop]
  rfl

theorem hashChildrenChunks_ok (start : Nat) (hne : scalars ≠ [])
    (hoff : off < w) (hov : off + scalars.length ≤ w ∨ off + scalars.length + w ≤ 2 ^ 64) :
    hashChildrenChunks curve c p off start scalars w =
      .ok ⟨start, p.isSome, grownHashes curve c p off scalars w⟩ := by
  have hw : 0 < w := by omega
  have hrest : scalars.length - min scalars.length (w - off) = scalars.length - (w - off) := by
    omega
  have hn : 1 + (scalars.length - (w - off)) / w +
      (if (scalars.length - (w - off)) % w > 0 then 1 else 0) =
        (scalars.length - (w - off)) ⌈/⌉ w + 1 := by
    rw [ceilDiv_split hw]
    omega
  have hmap : (range ((scalars.length - (w - off)) ⌈/⌉ w + 1)).mapM
      (hashChunk curve c p off scalars (min scalars.length (w - off)) w) =
        .ok (grownHashes curve c p off scalars w) := by
    rw [range_succ_eq_map, mapM_cons, hashChunk_zero]
    have hrec := mapM_ok_of_forall
      (f := hashChunk curve c p off scalars (min scalars.length (w - off)) w)
      (g := fun j => getNewParent curve (((scalars.drop (w - off)).drop ((j - 1) * w)).take w))
      (map Nat.succ (range ((scalars.length - (w - off)) ⌈/⌉ w))) (by
        intro j hj
        obtain ⟨i, hi, rfl⟩ := mem_map.mp hj
        have hlt : i < (scalars.length - (w - off)) ⌈/⌉ w := mem_range.mp hi
        have hiw : i * w < scalars.length - (w - off) := by
          by_contra hcon
          have hle : (scalars.length - (w - off)) ⌈/⌉ w ≤ i := by
            rw [ceilDiv_le_iff_le_mul hw, mul_comm]
            omega
          omega
        have hov' : off + scalars.length + w ≤ 2 ^ 64 := by
          rcases hov with h | h
          · omega
          · exact h
        exact hashChunk_succ c p hoff scalars i _ hiw hov')
    rw [hrec]
    simp [grownHashes, hashLayer, chunks, Function.comp_def, bind, Except.bind, pure, Except.pure]
  unfold hashChildrenChunks
  rw [check_true (by simpa using hne), check_true (by simpa using hoff)]
  simp only [hrest, hn, hmap]
  rw [check_true (by simp)]

end Jero.Fcmp
