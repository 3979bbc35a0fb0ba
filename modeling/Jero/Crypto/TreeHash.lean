import Jero.Machine.Word

namespace Jero.Crypto
open Jero.Machine

def treeHashCntLoop (count : Nat) : Nat → Nat → Nat
  | 0, pow => pow
  | fuel + 1, pow => if pow < count then treeHashCntLoop count fuel (wrap (pow * 2)) else pow

def treeHashCnt (count : Nat) : Nat := treeHashCntLoop count 64 2 / 2

def pushBit (path : Nat) (bit : Bool) : Nat := path <<< 1 % 2 ^ 32 ||| bit.toNat

structure PathState where
  idx : Nat
  path : Nat
deriving DecidableEq, Repr

namespace PathState

def visit (i j : Nat) (st : PathState) : PathState :=
  if st.idx = i ∨ st.idx = i + 1 then ⟨j, pushBit st.path (decide (st.idx ≠ i))⟩ else st

def pass : Nat → Nat → Nat → PathState → PathState
  | 0, _, _, st => st
  | n + 1, i, j, st => pass n (i + 2) (j + 1) (st.visit i j)

def levels : Nat → Nat → PathState → PathState
  | 0, _, st => st
  | fuel + 1, cnt, st => if cnt > 2 then levels fuel (cnt / 2) (pass (cnt / 2) 0 0 st) else st

end PathState

def treePath (count idx : Nat) : Option Nat :=
  if count = 0 then none
  else if count = 1 then some 0
  else if count = 2 then some (if idx = 0 then 0 else 1)
  else
    let cnt := treeHashCnt count
    let start := 2 * cnt - count
    let st := PathState.pass (cnt - start) start start ⟨idx, 0⟩
    some ((PathState.levels cnt cnt st).visit 0 0).path

variable {α : Type} (hash : α → α → α) (zero : α)

def cell (ints : List α) (i : Nat) : α := ints.getD i zero

def leaf (hashes : List α) (_ : List α) (i : Nat) : α := hashes.getD i zero

def hashPass (read : List α → Nat → α) : Nat → Nat → Nat → List α → List α
  | 0, _, _, ints => ints
  | n + 1, i, j, ints =>
    hashPass read n (i + 2) (j + 1) (ints.set j (hash (read ints i) (read ints (i + 1))))

def hashLevels : Nat → Nat → List α → List α
  | 0, _, ints => ints
  | fuel + 1, cnt, ints =>
    if cnt > 2 then hashLevels fuel (cnt / 2) (hashPass hash (cell zero) (cnt / 2) 0 0 ints) else ints

def copyLeaves (hashes : List α) (cnt : Nat) : List α :=
  hashes.take (2 * cnt - hashes.length) ++
    List.replicate (cnt - (2 * cnt - hashes.length)) zero

def treeHash (hashes : List α) : α :=
  if hashes.length = 1 then cell zero hashes 0
  else if hashes.length = 2 then hash (cell zero hashes 0) (cell zero hashes 1)
  else
    let cnt := treeHashCnt hashes.length
    let start := 2 * cnt - hashes.length
    let ints := hashPass hash (leaf zero hashes) (cnt - start) start start
      (copyLeaves zero hashes cnt)
    let ints := hashLevels hash zero cnt cnt ints
    hash (cell zero ints 0) (cell zero ints 1)

structure BranchState (α : Type) where
  ints : List α
  idx : Nat
  branch : List α
  depth : Nat
  path : Nat

namespace BranchState

def visit (read : List α → Nat → α) (i j : Nat) (st : BranchState α) : BranchState α :=
  if st.idx = i ∨ st.idx = i + 1 then
    { st with
      idx := j
      branch := st.branch ++ [read st.ints (if st.idx = i then i + 1 else i)]
      depth := st.depth + 1
      path := pushBit st.path (decide (st.idx ≠ i)) }
  else st

def store (read : List α → Nat → α) (i j : Nat) (st : BranchState α) : BranchState α :=
  { st with ints := st.ints.set j (hash (read st.ints i) (read st.ints (i + 1))) }

def pass (read : List α → Nat → α) : Nat → Nat → Nat → BranchState α → BranchState α
  | 0, _, _, st => st
  | n + 1, i, j, st => pass read n (i + 2) (j + 1) ((st.visit read i j).store hash read i j)

def levels : Nat → Nat → BranchState α → BranchState α
  | 0, _, st => st
  | fuel + 1, cnt, st =>
    if cnt > 2 then levels fuel (cnt / 2) (pass hash (cell zero) (cnt / 2) 0 0 st) else st

end BranchState

def treeBranch [DecidableEq α] (hashes : List α) (h : α) : Option (List α × Nat × Nat) :=
  let idx := hashes.findIdx (fun other => decide (h = other))
  if hashes.length = 0 then none
  else if idx = hashes.length then none
  else if hashes.length = 1 then some ([], 0, 0)
  else if hashes.length = 2 then
    some ([cell zero hashes (idx ^^^ 1)], 1, if idx = 0 then 0 else 1)
  else
    let cnt := treeHashCnt hashes.length
    let start := 2 * cnt - hashes.length
    let st := BranchState.pass hash (leaf zero hashes) (cnt - start) start start
      ⟨copyLeaves zero hashes cnt, idx, [], 0, 0⟩
    let st := (BranchState.levels hash zero cnt cnt st).visit (cell zero) 0 0
    some (st.branch, st.depth, st.path)

def climb (branch : List α) (depth path : Nat) (node : α) (d : Nat) : α :=
  if path >>> (depth - d - 1) &&& 1 ≠ 0 then hash (cell zero branch d) node
  else hash node (cell zero branch d)

def treeBranchHash (h : α) (branch : List α) (depth path : Nat) : α :=
  (List.range depth).foldl (climb hash zero branch depth path) h

def isBranchInTree [DecidableEq α] (h root : α) (branch : List α) (depth path : Nat) : Bool :=
  decide (treeBranchHash hash zero h branch depth path = root)

theorem treeHashCntLoop_spec {count : Nat} (hcount : count ≤ 2 ^ 28) (fuel k : Nat)
    (hk : 2 ^ k < count) (hfuel : 28 ≤ fuel + k) :
    ∃ m, k ≤ m ∧ treeHashCntLoop count fuel (2 ^ (k + 1)) = 2 ^ (m + 1) ∧
      2 ^ m < count ∧ count ≤ 2 ^ (m + 1) := by
  have hk28 : k < 28 := (Nat.pow_lt_pow_iff_right (by norm_num)).mp (hk.trans_le hcount)
  induction fuel generalizing k with
  | zero => omega
  | succ fuel ih =>
    by_cases hmore : 2 ^ (k + 1) < count
    · have hwrap : wrap (2 ^ (k + 1) * 2) = 2 ^ (k + 1 + 1) := by
        rw [← pow_succ]
        exact wrap_of_lt (Nat.pow_lt_pow_right (by norm_num) (by omega))
      have hk28' : k + 1 < 28 :=
        (Nat.pow_lt_pow_iff_right (by norm_num)).mp (hmore.trans_le hcount)
      obtain ⟨m, hm, hloop, hlow, hhigh⟩ := ih (k + 1) hmore (by omega) hk28'
      refine ⟨m, by omega, ?_, hlow, hhigh⟩
      rw [treeHashCntLoop, if_pos hmore, hwrap, hloop]
    · refine ⟨k, le_rfl, ?_, hk, not_lt.mp hmore⟩
      rw [treeHashCntLoop, if_neg hmore]

open Nat Bool BranchState PathState
open List hiding beq_eq_decide
variable {path depth j p i cnt : Nat} {α : Type} {hash : α → α → α} {zero : α}
section
variable (h : path < 2 ^ depth) (hdepth : depth < 32) (bit : Bool)
include h hdepth

theorem pushBit_eq : pushBit path bit = 2 * path + bit.toNat := by
  have hpow : 2 ^ depth ≤ 2 ^ 31 := Nat.pow_le_pow_right (by norm_num) (by omega)
  have hbit : bit.toNat < 2 ^ 1 := lt_of_le_of_lt (toNat_le bit) (by norm_num)
  rw [pushBit, shiftLeft_eq, mod_eq_of_lt (by omega), mul_comm path,
    ← two_pow_add_eq_or_of_lt hbit, pow_one]

theorem pushBit_lt : pushBit path bit < 2 ^ (depth + 1) := by
  have hbit := toNat_le bit
  rw [pushBit_eq h hdepth, pow_succ]
  omega

theorem pushBit_shift (k : Nat) : pushBit path bit >>> (k + 1) = path >>> k := by
  have hbit := toNat_le bit
  rw [pushBit_eq h hdepth, add_comm k 1, shiftRight_add]
  congr 1
  rw [shiftRight_one]
  omega

theorem pushBit_low : pushBit path bit >>> 0 &&& 1 = bit.toNat := by
  have hbit := toNat_le bit
  rw [pushBit_eq h hdepth, shiftRight_zero, and_one_is_mod]
  omega

end

def join (hash : α → α → α) (bit : Bool) (node sibling : α) : α :=
  if bit then hash sibling node else hash node sibling

theorem treeBranchHash_push {branch : List α} (hlen : branch.length = depth)
    (hpath : path < 2 ^ depth) (hdepth : depth < 32) (bit : Bool) (sibling h : α) :
    treeBranchHash hash zero h (branch ++ [sibling]) (depth + 1) (pushBit path bit) =
      join hash bit (treeBranchHash hash zero h branch depth path) sibling := by
  have hold : ∀ node, ∀ d ∈ range depth,
      climb hash zero (branch ++ [sibling]) (depth + 1) (pushBit path bit) node d =
        climb hash zero branch depth path node d := by
    intro node d hd
    have hlt := mem_range.mp hd
    have hcell : cell zero (branch ++ [sibling]) d = cell zero branch d := by
      rw [cell, cell, getD_eq_getElem?_getD, getD_eq_getElem?_getD,
        getElem?_append_left (hlen ▸ hlt)]
    have hshift : depth + 1 - d - 1 = depth - d - 1 + 1 := by omega
    rw [climb, climb, hshift, pushBit_shift hpath hdepth, hcell]
  have hnew : ∀ node, climb hash zero (branch ++ [sibling]) (depth + 1) (pushBit path bit) node
      depth = join hash bit node sibling := by
    intro node
    have hcell : cell zero (branch ++ [sibling]) depth = sibling := by
      rw [cell, getD_eq_getElem?_getD, getElem?_append_right hlen.le, hlen, Nat.sub_self]
      rfl
    have hshift : depth + 1 - depth - 1 = 0 := by omega
    rw [climb, hshift, pushBit_low hpath hdepth, hcell]
    cases bit <;> rfl
  rw [treeBranchHash, range_succ, foldl_append, foldl_cons, foldl_nil, hnew]
  congr 1
  exact foldl_ext _ _ _ hold

structure Proves (hash : α → α → α) (zero h : α) (st : BranchState α) (depth : Nat) (node : α) :
    Prop where
  depth_eq : st.depth = depth
  length_eq : st.branch.length = depth
  path_lt : st.path < 2 ^ depth
  root_eq : treeBranchHash hash zero h st.branch depth st.path = node

def Stable (read : List α → Nat → α) : Prop :=
  ∀ ints j v p, j < p → read (ints.set j v) p = read ints p

theorem stable_leaf (hashes : List α) : Stable (leaf zero hashes) := fun _ _ _ _ _ => rfl

variable {ints hashes : List α} {st : BranchState α}

theorem cell_set_ne (v : α) (h : j ≠ p) : cell zero (ints.set j v) p = cell zero ints p := by
  simp [cell, getD_eq_getElem?_getD, getElem?_set_ne h]

theorem cell_set_self (v : α) (h : j < ints.length) : cell zero (ints.set j v) j = v := by
  simp [cell, getD_eq_getElem?_getD, getElem?_set_self h]

theorem stable_cell : Stable (cell zero) := fun _ _ v _ h => cell_set_ne v h.ne

theorem length_hashPass (read : List α → Nat → α) (n i j : Nat) (ints : List α) :
    (hashPass hash read n i j ints).length = ints.length := by
  induction n generalizing i j ints with
  | zero => rfl
  | succ n ih => rw [hashPass, ih, length_set]

variable {read : List α → Nat → α}

theorem hashPass_below (n i j : Nat) (ints : List α) (hp : p < j) :
    cell zero (hashPass hash read n i j ints) p = cell zero ints p := by
  induction n generalizing i j ints with
  | zero => rfl
  | succ n ih => rw [hashPass, ih _ _ _ (hp.trans (lt_succ_self j)), cell_set_ne _ hp.ne']

theorem hashPass_at (hread : Stable read) {n q : Nat} (hji : j ≤ i)
    (hq : q < n) (hlen : j + n ≤ ints.length) :
    cell zero (hashPass hash read n i j ints) (j + q) =
      hash (read ints (i + 2 * q)) (read ints (i + 2 * q + 1)) := by
  induction n generalizing i j q ints with
  | zero => omega
  | succ n ih =>
    cases q with
    | zero =>
      change cell zero (hashPass hash read n (i + 2) (j + 1) _) j = _
      rw [hashPass_below n (i + 2) (j + 1) _ (lt_succ_self j), cell_set_self _ (by omega)]
      rfl
    | succ q =>
      rw [hashPass, show j + (q + 1) = j + 1 + q by omega,
        ih (by omega) (by omega) (by rw [length_set]; omega),
        hread _ _ _ _ (by omega), hread _ _ _ _ (by omega),
        show i + 2 + 2 * q = i + 2 * (q + 1) by omega]

namespace BranchState
variable {read : List α → Nat → α}

theorem visit_ints (i j : Nat) (st : BranchState α) : (st.visit read i j).ints = st.ints := by
  unfold visit
  split <;> rfl

theorem pass_ints (n i j : Nat) (st : BranchState α) :
    (pass hash read n i j st).ints = hashPass hash read n i j st.ints := by
  induction n generalizing i j st with
  | zero => rfl
  | succ n ih => rw [pass, ih, hashPass, store, visit_ints]

def position (st : BranchState α) : PathState := ⟨st.idx, st.path⟩

theorem visit_position (i j : Nat) (st : BranchState α) :
    (st.visit read i j).position = st.position.visit i j := by
  unfold visit PathState.visit position
  split <;> rfl

theorem pass_position (n i j : Nat) (st : BranchState α) :
    (pass hash read n i j st).position = PathState.pass n i j st.position := by
  induction n generalizing i j st with
  | zero => rfl
  | succ n ih =>
    rw [pass, ih, PathState.pass, ← visit_position]
    rfl

theorem levels_position (fuel cnt : Nat) (st : BranchState α) :
    (levels hash zero fuel cnt st).position = PathState.levels fuel cnt st.position := by
  induction fuel generalizing cnt st with
  | zero => rfl
  | succ fuel ih =>
    rw [levels, PathState.levels]
    split
    · rw [ih, pass_position]
    · rfl

theorem levels_ints (fuel cnt : Nat) (st : BranchState α) :
    (levels hash zero fuel cnt st).ints = hashLevels hash zero fuel cnt st.ints := by
  induction fuel generalizing cnt st with
  | zero => rfl
  | succ fuel ih =>
    rw [levels, hashLevels]
    split
    · rw [ih, pass_ints]
    · rfl

theorem visit_miss (j : Nat) (h : st.idx < i ∨ i + 1 < st.idx) : st.visit read i j = st := by
  rw [visit, if_neg (by omega)]

theorem pass_miss (n j : Nat) (h : st.idx < i) :
    pass hash read n i j st = { st with ints := hashPass hash read n i j st.ints } := by
  induction n generalizing i j st with
  | zero => rfl
  | succ n ih =>
    have hnext : (st.store hash read i j).idx < i + 2 := Nat.lt_add_right 2 h
    rw [pass, visit_miss j (.inl h), ih _ hnext]
    rfl

def hit (read : List α → Nat → α) (st : BranchState α) (i j q : Nat) (bit : Bool)
    (ints : List α) : BranchState α :=
  ⟨ints, j + q, st.branch ++ [read st.ints (i + 2 * q + (!bit).toNat)], st.depth + 1,
    pushBit st.path bit⟩

theorem visit_hit (j : Nat) {bit : Bool} (hidx : st.idx = i + bit.toNat) :
    st.visit read i j = hit read st i j 0 bit st.ints := by
  cases bit with
  | false =>
    have hidx : st.idx = i := hidx
    simp [visit, hit, hidx]
  | true =>
    have hidx : st.idx = i + 1 := hidx
    simp [visit, hit, hidx]

theorem pass_hit (hread : Stable read) {n q : Nat} {bit : Bool} (hji : j ≤ i) (hq : q < n)
    (hidx : st.idx = i + 2 * q + bit.toNat) :
    pass hash read n i j st = hit read st i j q bit (hashPass hash read n i j st.ints) := by
  induction n generalizing i j q st with
  | zero => omega
  | succ n ih =>
    cases q with
    | zero =>
      have hlow : ((hit read st i j 0 bit st.ints).store hash read i j).idx < i + 2 := by
        change j + 0 < i + 2
        omega
      rw [pass, visit_hit j (by omega), pass_miss _ _ hlow]
      rfl
    | succ q =>
      have hnext : (st.store hash read i j).idx = i + 2 + 2 * q + bit.toNat := by
        change st.idx = _
        omega
      rw [pass, visit_miss j (.inr (by omega)), ih (by omega) (lt_of_succ_lt_succ hq) hnext]
      have hsibling : read (st.store hash read i j).ints (i + 2 + 2 * q + (!bit).toNat) =
          read st.ints (i + 2 * (q + 1) + (!bit).toNat) := by
        rw [show i + 2 + 2 * q = i + 2 * (q + 1) by omega]
        exact hread _ _ _ _ (by omega)
      rw [hit, hsibling, show j + 1 + q = j + (q + 1) by omega]
      rfl

end BranchState
variable {h : α}

theorem Proves.hit {node : α} (hst : Proves hash zero h st depth node)
    (hdepth : depth < 32) (read : List α → Nat → α) (i j q : Nat) (bit : Bool) (ints : List α) :
    Proves hash zero h (st.hit read i j q bit ints) (depth + 1)
      (join hash bit node (read st.ints (i + 2 * q + (!bit).toNat))) := by
  refine ⟨congrArg (· + 1) hst.depth_eq, ?_, pushBit_lt hst.path_lt hdepth bit, ?_⟩
  · exact length_append.trans (congrArg (· + 1) hst.length_eq)
  · rw [← hst.root_eq]
    exact treeBranchHash_push hst.length_eq hst.path_lt hdepth bit _ h

theorem exists_half (idx : Nat) : ∃ q bit, idx = 2 * q + Bool.toNat bit := by
  rcases mod_two_eq_zero_or_one idx with hmod | hmod
  · exact ⟨idx / 2, false, by simp only [toNat_false]; omega⟩
  · exact ⟨idx / 2, true, by simp only [toNat_true]; omega⟩

theorem join_pair (hash : α → α → α) (value : Nat → α) (k : Nat) (bit : Bool) :
    join hash bit (value (k + bit.toNat)) (value (k + (!bit).toNat)) =
      hash (value k) (value (k + 1)) := by
  cases bit <;> rfl

theorem Proves.pass {read : List α → Nat → α} (hread : Stable read)
    (hst : Proves hash zero h st depth (read st.ints st.idx)) (hdepth : depth < 32) {n q : Nat}
    {bit : Bool} (hji : j ≤ i) (hq : q < n) (hidx : st.idx = i + 2 * q + bit.toNat)
    (hlen : j + n ≤ st.ints.length) :
    let st' := BranchState.pass hash read n i j st
    st'.idx = j + q ∧ Proves hash zero h st' (depth + 1) (cell zero st'.ints st'.idx) := by
  intro st'
  have hpass : st' = st.hit read i j q bit (hashPass hash read n i j st.ints) :=
    BranchState.pass_hit hread hji hq hidx
  rw [hpass]
  refine ⟨rfl, ?_⟩
  change Proves hash zero h _ _ (cell zero (hashPass hash read n i j st.ints) (j + q))
  rw [hashPass_at hread hji hq hlen, ← join_pair hash (read st.ints) (i + 2 * q) bit, ← hidx]
  exact hst.hit hdepth read i j q bit _

structure OnLevel (hash : α → α → α) (zero h : α) (cnt depth : Nat) (st : BranchState α) :
    Prop where
  idx_lt : st.idx < cnt
  size : cnt ≤ st.ints.length
  proves : Proves hash zero h st depth (cell zero st.ints st.idx)

theorem OnLevel.pass (hst : OnLevel hash zero h (2 * cnt) depth st) (hdepth : depth < 32) :
    OnLevel hash zero h cnt (depth + 1) (BranchState.pass hash (cell zero) cnt 0 0 st) := by
  obtain ⟨q, bit, hidx⟩ := exists_half st.idx
  have hlt := hst.idx_lt
  have hsize := hst.size
  have hread : st.idx = 0 + 2 * q + bit.toNat := by omega
  obtain ⟨hat, hproves⟩ := hst.proves.pass stable_cell hdepth (zero_le 0)
    (show q < cnt by omega) hread (by omega)
  refine ⟨by omega, ?_, hproves⟩
  rw [BranchState.pass_ints, length_hashPass]
  omega

theorem OnLevel.levels {m : Nat} {fuel : Nat}
    (hst : OnLevel hash zero h (2 ^ (m + 1)) depth st) (hfuel : m ≤ fuel)
    (hdepth : depth + m ≤ 32) :
    OnLevel hash zero h 2 (depth + m)
      (BranchState.levels hash zero fuel (2 ^ (m + 1)) st) := by
  induction m generalizing depth st fuel with
  | zero =>
    cases fuel with
    | zero => exact hst
    | succ fuel =>
      rw [BranchState.levels, if_neg (by norm_num)]
      exact hst
  | succ m ih =>
    cases fuel with
    | zero => omega
    | succ fuel =>
      have hpow : 2 ^ (m + 1 + 1) = 2 * 2 ^ (m + 1) := pow_succ'
      have hmore : 2 ^ (m + 1 + 1) > 2 := by
        have hpos := Nat.two_pow_pos m
        rw [hpow, Nat.pow_succ]
        omega
      rw [hpow] at hst
      have hnext : OnLevel hash zero h 2 (depth + 1 + m) (BranchState.levels hash zero fuel
          (2 ^ (m + 1)) (BranchState.pass hash (cell zero) (2 ^ (m + 1)) 0 0 st)) :=
        ih (hst.pass (by omega)) (by omega) (by omega)
      rw [BranchState.levels, if_pos hmore, hpow, Nat.mul_div_cancel_left _ (by norm_num),
        add_comm m 1, ← add_assoc]
      rwa [add_comm 1 m]

theorem OnLevel.root (hst : OnLevel hash zero h 2 depth st) (hdepth : depth < 32) :
    Proves hash zero h (st.visit (cell zero) 0 0) (depth + 1)
      (hash (cell zero st.ints 0) (cell zero st.ints 1)) := by
  obtain ⟨q, bit, hidx⟩ := exists_half st.idx
  have hlt := hst.idx_lt
  have hq : q = 0 := by omega
  rw [hq, Nat.mul_zero] at hidx
  have hproves := hst.proves.hit hdepth (cell zero) 0 0 0 bit st.ints
  rw [visit_hit 0 hidx, ← join_pair hash (cell zero st.ints) 0 bit, ← hidx]
  exact hproves

theorem cell_take {start : Nat} (rest : List α) (hp : p < start) (hstart : start ≤ hashes.length) :
    cell zero (hashes.take start ++ rest) p = cell zero hashes p := by
  have hlen : p < (hashes.take start).length := by
    rw [length_take]
    omega
  rw [cell, cell, getD_eq_getElem?_getD, getD_eq_getElem?_getD,
    getElem?_append_left hlen, getElem?_take_of_lt hp]

def leafState (hash : α → α → α) (zero : α) (hashes : List α) (idx cnt : Nat) : BranchState α :=
  BranchState.pass hash (leaf zero hashes) (cnt - (2 * cnt - hashes.length))
    (2 * cnt - hashes.length) (2 * cnt - hashes.length) ⟨copyLeaves zero hashes cnt, idx, [], 0, 0⟩

theorem onLevel_leaves {idx : Nat} (hlow : cnt < hashes.length)
    (hhigh : hashes.length ≤ 2 * cnt) (hidx : idx < hashes.length) (hh : cell zero hashes idx = h) :
    ∃ depth, depth ≤ 1 ∧ OnLevel hash zero h cnt depth (leafState hash zero hashes idx cnt) := by
  unfold leafState
  have hlength : (copyLeaves zero hashes cnt).length = cnt := by
    rw [copyLeaves, length_append, length_take, length_replicate]
    omega
  have hstart : Proves hash zero h ⟨copyLeaves zero hashes cnt, idx, [], 0, 0⟩ 0 h :=
    ⟨rfl, rfl, one_pos, rfl⟩
  generalize hs : 2 * cnt - hashes.length = start at *
  by_cases hcopied : idx < start
  · refine ⟨0, zero_le 1, ?_⟩
    rw [pass_miss _ _ hcopied]
    refine ⟨by change idx < cnt; omega, ?_, ?_⟩
    · exact (hlength.symm.trans (length_hashPass _ _ _ _ _).symm).le
    · change Proves hash zero h _ _ (cell zero (hashPass _ _ _ _ _ _) idx)
      rw [hashPass_below _ _ _ _ hcopied, copyLeaves, hs, cell_take _ hcopied (by omega), hh]
      exact ⟨rfl, rfl, one_pos, rfl⟩
  · obtain ⟨q, bit, hhalf⟩ := exists_half (idx - start)
    have hread : idx = start + 2 * q + bit.toNat := by omega
    obtain ⟨hat, hproves⟩ := Proves.pass (stable_leaf hashes)
      (show Proves hash zero h ⟨copyLeaves zero hashes cnt, idx, [], 0, 0⟩ 0 (cell zero hashes idx)
        from hh ▸ hstart) (by norm_num) (le_refl start) (show q < cnt - start by omega) hread
      (by rw [hlength]; omega)
    refine ⟨1, le_rfl, by omega, ?_, hproves⟩
    rw [pass_ints, length_hashPass, hlength]

theorem treeHash_many (idx : Nat) (hlow : 3 ≤ hashes.length) :
    let cnt := treeHashCnt hashes.length
    let st := BranchState.levels hash zero cnt cnt (leafState hash zero hashes idx cnt)
    treeHash hash zero hashes = hash (cell zero st.ints 0) (cell zero st.ints 1) := by
  intro cnt st
  have hints : st.ints = hashLevels hash zero cnt cnt (leafState hash zero hashes idx cnt).ints :=
    levels_ints _ _ _
  rw [treeHash, if_neg (by omega), if_neg (by omega), hints, leafState, pass_ints]

theorem treePath_many (idx : Nat) (hlow : 3 ≤ hashes.length) :
    let cnt := treeHashCnt hashes.length
    let st := BranchState.levels hash zero cnt cnt (leafState hash zero hashes idx cnt)
    treePath hashes.length idx = some (st.visit (cell zero) 0 0).path := by
  intro cnt st
  have hposition : (st.visit (cell zero) 0 0).position =
      (levels cnt cnt (leafState hash zero hashes idx cnt).position).visit 0 0 := by
    rw [visit_position, levels_position]
  have hpath := congrArg PathState.path hposition
  rw [treePath, if_neg (by omega), if_neg (by omega), if_neg (by omega)]
  rw [leafState, pass_position] at hpath
  exact congrArg some hpath.symm

variable [DecidableEq α]

theorem findIdx_eq_idxOf (hashes : List α) (h : α) :
    hashes.findIdx (fun other => decide (h = other)) = hashes.idxOf h := by
  rw [idxOf]
  congr 1
  funext other
  rw [beq_eq_decide, decide_eq_decide]
  exact eq_comm

theorem cell_idxOf (hmem : h ∈ hashes) : cell zero hashes (hashes.idxOf h) = h := by
  have hlt := idxOf_lt_length_iff.mpr hmem
  rw [cell, getD_eq_getElem?_getD, getElem?_eq_getElem hlt, getElem_idxOf]
  rfl

structure BranchFor (hash : α → α → α) (zero : α) (hashes : List α) (h : α) (branch : List α)
    (depth path : Nat) : Prop where
  found : treeBranch hash zero hashes h = some (branch, depth, path)
  root : treeBranchHash hash zero h branch depth path = treeHash hash zero hashes
  size : branch.length = depth
  shallow : depth ≤ 28
  path_eq : treePath hashes.length (hashes.idxOf h) = some path

theorem branchFor_one (x : α) : BranchFor hash zero [x] x [] 0 0 := by
  refine ⟨?_, rfl, rfl, zero_le _, rfl⟩
  simp [treeBranch, findIdx_cons]

theorem branchFor_two {x y : α} (hmem : h ∈ [x, y]) :
    ∃ branch path, BranchFor hash zero [x, y] h branch 1 path := by
  by_cases hx : h = x
  · subst hx
    refine ⟨[y], 0, ?_, rfl, rfl, by norm_num, ?_⟩
    · simp [treeBranch, findIdx_cons, cell]
    · simp [treePath]
  · have hy : h = y := by simpa [hx] using hmem
    subst hy
    have hne : (x == h) = false := beq_eq_false_iff_ne.mpr (Ne.symm hx)
    refine ⟨[x], 1, ?_, rfl, rfl, by norm_num, ?_⟩
    · simp [treeBranch, findIdx_cons, cell, hx]
    · simp [treePath, idxOf_cons, hne]

theorem treeBranch_many (hmem : h ∈ hashes) (hlow : 3 ≤ hashes.length) :
    let cnt := treeHashCnt hashes.length
    let st := (BranchState.levels hash zero cnt cnt
      (leafState hash zero hashes (hashes.idxOf h) cnt)).visit (cell zero) 0 0
    treeBranch hash zero hashes h = some (st.branch, st.depth, st.path) := by
  intro cnt st
  have hidx := idxOf_lt_length_iff.mpr hmem
  simp only [treeBranch, findIdx_eq_idxOf]
  rw [if_neg (by omega), if_neg hidx.ne, if_neg (by omega), if_neg (by omega)]
  rfl

theorem branchFor_many (hmem : h ∈ hashes) (hlow : 3 ≤ hashes.length)
    (hhigh : hashes.length ≤ 2 ^ 28) :
    ∃ branch depth path, BranchFor hash zero hashes h branch depth path := by
  obtain ⟨m, hm, hm28, hcnt, hlt, hle⟩ : ∃ m, 1 ≤ m ∧ m < 28 ∧ treeHashCnt hashes.length = 2 ^ m ∧ 2
    ^ m < hashes.length ∧ hashes.length ≤ 2 ^ (m + 1) := by
    obtain ⟨m, -, hloop, hlt, hle⟩ :=
      treeHashCntLoop_spec hhigh 64 0 (by rw [pow_zero]; omega) (by norm_num)
    have hm : m < 28 := (Nat.pow_lt_pow_iff_right (by norm_num)).mp (hlt.trans_le hhigh)
    refine ⟨m, ?_, hm, ?_, hlt, hle⟩
    · rcases Nat.eq_zero_or_pos m with rfl | hpos
      · omega
      · exact hpos
    · change treeHashCntLoop hashes.length 64 (2 ^ (0 + 1)) / 2 = _
      rw [hloop, Nat.pow_succ, Nat.mul_div_cancel _ (by norm_num)]
  obtain ⟨k, rfl⟩ : ∃ k, m = k + 1 := ⟨m - 1, by omega⟩
  have hidx := idxOf_lt_length_iff.mpr hmem
  rw [pow_succ'] at hle
  obtain ⟨leafDepth, hleafDepth, hleaves⟩ : ∃ depth, depth ≤ 1 ∧ OnLevel hash zero h (2 ^ (k + 1))
      depth (leafState hash zero hashes (hashes.idxOf h) (2 ^ (k + 1))) :=
    onLevel_leaves hlt hle hidx (cell_idxOf hmem)
  have hfuel : k ≤ 2 ^ (k + 1) := (Nat.lt_two_pow_self.trans (Nat.pow_lt_pow_succ (by norm_num))).le
  have hroot := (hleaves.levels hfuel (by omega)).root (by omega)
  have hfound : treeBranch hash zero hashes h = _ := treeBranch_many hmem hlow
  have hhash : treeHash hash zero hashes = _ := treeHash_many (hashes.idxOf h) hlow
  have hpath : treePath hashes.length (hashes.idxOf h) = some (visit _ 0 0
      (levels hash zero _ _ (leafState hash zero hashes (hashes.idxOf h) _))).path :=
    treePath_many (hashes.idxOf h) hlow
  rw [hcnt] at hfound hhash hpath
  refine ⟨_, _, _, hfound, ?_, ?_, ?_, hpath⟩
  · rw [hhash, hroot.depth_eq, hroot.root_eq]
  · rw [hroot.depth_eq, hroot.length_eq]
  · rw [hroot.depth_eq]
    omega

theorem tree_branch_reaches_root (hash : α → α → α) (zero : α) (hashes : List α) (h : α)
    (hmem : h ∈ hashes) (hmax : hashes.length ≤ 2 ^ 28) :
    ∃ branch depth path, treeBranch hash zero hashes h = some (branch, depth, path) ∧
      treeBranchHash hash zero h branch depth path = treeHash hash zero hashes ∧
      isBranchInTree hash zero h (treeHash hash zero hashes) branch depth path = true ∧
      branch.length = depth ∧ depth ≤ 28 ∧
      treePath hashes.length (hashes.idxOf h) = some path := by
  have hbranch : ∃ branch depth path, BranchFor hash zero hashes h branch depth path := by
    match hashes, hmem, hmax with
    | [x], hmem, _ =>
      obtain rfl := mem_singleton.mp hmem
      exact ⟨[], 0, 0, branchFor_one h⟩
    | [x, y], hmem, _ =>
      obtain ⟨branch, path, hbranch⟩ := branchFor_two hmem
      exact ⟨branch, 1, path, hbranch⟩
    | x :: y :: z :: rest, hmem, hmax =>
      exact branchFor_many hmem (by simp) hmax
  obtain ⟨branch, depth, path, hbranch⟩ := hbranch
  exact ⟨branch, depth, path, hbranch.found, hbranch.root, decide_eq_true hbranch.root,
    hbranch.size, hbranch.shallow, hbranch.path_eq⟩

theorem tree_branch_of_five_leaves :
    ∃ branch depth path, treeBranch (fun a b => 10 * a + b) 0 [4, 7, 7, 9, 2] 7 =
        some (branch, depth, path) ∧
      treeBranchHash (fun a b => 10 * a + b) 0 7 branch depth path =
        treeHash (fun a b => 10 * a + b) 0 [4, 7, 7, 9, 2] ∧
      isBranchInTree (fun a b => 10 * a + b) 0 7
        (treeHash (fun a b => 10 * a + b) 0 [4, 7, 7, 9, 2]) branch depth path = true ∧
      branch.length = depth ∧ depth ≤ 28 ∧ treePath 5 1 = some path :=
  tree_branch_reaches_root _ 0 [4, 7, 7, 9, 2] 7 (by decide) (by norm_num)

end Jero.Crypto
