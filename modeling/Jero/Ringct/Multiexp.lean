import Mathlib

namespace Jero.Ringct

scoped instance atLeastTwo_two : Nat.AtLeastTwo 2 := ⟨le_rfl⟩

scoped instance atLeastTwo_eight : Nat.AtLeastTwo 8 := ⟨by decide⟩

structure MultiexpData (E : Type) where
  scalar : Nat
  point : E

def keyBits : Nat := 256

def test (k n : Nat) : Bool := decide (n < keyBits) && k.testBit n

def coverBits (step maxscalar : Nat) : Nat → Nat → Nat
  | 0, n => n
  | fuel + 1, n =>
    if n < keyBits ∧ ¬ maxscalar < 2 ^ n then coverBits step maxscalar fuel (n + step) else n

variable {E : Type} [AddCommGroup E]

def maxScalar (data : List (MultiexpData E)) : Nat :=
  data.foldl (fun maxscalar d => if maxscalar < d.scalar then d.scalar else maxscalar) 0

def doublings (n : Nat) (p : E) : E := (fun q : E => q + q)^[n] p

def strausC : Nat := 4

def strausDigit (scalar k : Nat) : Nat := scalar / 2 ^ (strausC * k) % 2 ^ strausC

def strausMultiple (point : E) : Nat → E
  | 0 => 0
  | 1 => point
  | digit + 2 => point + strausMultiple point (digit + 1)

def strausAddDigit (k : Nat) (band : E) (term : Nat × E) : E :=
  if strausDigit term.1 k = 0 then band
  else band + strausMultiple term.2 (strausDigit term.1 k)

def strausDigits (terms : List (Nat × E)) : Nat → E → E
  | 0, band => band
  | k + 1, band => strausDigits terms k (terms.foldl (strausAddDigit k) (doublings strausC band))

def strausBand (terms : List (Nat × E)) : Nat → E
  | 0 => 0
  | k + 1 => strausDigits terms k (terms.foldl (strausAddDigit k) 0)

def straus (data : List (MultiexpData E)) (cache : Option (List E)) (step : Nat) :
    Except String E :=
  let points := cache.getD (data.map MultiexpData.point)
  if points.length < data.length then .error "Cache is too small"
  else
    let step := if step = 0 then 192 else step
    let terms := (data.zip points).map fun x => (x.1.scalar, x.2)
    let start := coverBits strausC (maxScalar data) keyBits 0
    .ok ((List.range ((data.length + step - 1) / step)).foldl
      (fun res k => res + strausBand ((terms.drop (k * step)).take step) (start / strausC)) 0)

def getPippengerC (n : Nat) : Nat :=
  if n ≤ 13 then 2
  else if n ≤ 29 then 3
  else if n ≤ 83 then 4
  else if n ≤ 185 then 5
  else if n ≤ 465 then 6
  else if n ≤ 1180 then 7
  else if n ≤ 2295 then 8
  else 9

def addInto (cell : Option E) (p : E) : Option E :=
  match cell with
  | some q => some (q + p)
  | none => some p

def pippengerBucket (c k scalar : Nat) : Nat :=
  (List.range c).foldl
    (fun bucket j => if test scalar (k * c + j) then bucket ||| 1 <<< j else bucket) 0

structure PippengerTerm (E : Type) where
  scalar : Nat
  point : E
  cached : E

def pippengerInsert (c k : Nat) (buckets : Nat → Option E) (t : PippengerTerm E) : Nat → Option E :=
  if pippengerBucket c k t.scalar = 0 then buckets
  else match buckets (pippengerBucket c k t.scalar) with
    | some q => Function.update buckets (pippengerBucket c k t.scalar) (some (q + t.cached))
    | none => Function.update buckets (pippengerBucket c k t.scalar) (some t.point)

def pippengerPartition (c k : Nat) (terms : List (PippengerTerm E)) : Nat → Option E :=
  terms.foldl (pippengerInsert c k) fun _ => none

def addCell (cell other : Option E) : Option E :=
  match other with
  | some q => addInto cell q
  | none => cell

def pippengerSum (buckets : Nat → Option E) : Nat → Option E → Option E → Option E
  | 0, result, _ => result
  | i + 1, result, pail =>
    pippengerSum buckets i (addCell result (addCell pail (buckets (i + 1))))
      (addCell pail (buckets (i + 1)))

def pippengerGroups (c : Nat) (terms : List (PippengerTerm E)) : Nat → Option E → Option E
  | 0, result => result
  | k + 1, result =>
    let result := result.map (doublings c)
    let buckets := pippengerPartition c k terms
    pippengerGroups c terms k (pippengerSum buckets (2 ^ c - 1) result none)

def pippengerTerms (data : List (MultiexpData E)) (cached : List E) (cacheSize : Nat) :
    List (PippengerTerm E) :=
  data.mapIdx fun i d =>
    { scalar := d.scalar
      point := d.point
      cached := if i < cacheSize then cached.getD i 0 else d.point }

def pippenger (data : List (MultiexpData E)) (cache : Option (List E)) (cacheSize c : Nat) :
    Except String E :=
  let cached := cache.getD (data.map MultiexpData.point)
  let cacheSize := if cache.isSome ∧ cacheSize = 0 then cached.length else cacheSize
  if cache.isSome ∧ cached.length < cacheSize then .error "Cache is too small"
  else
    let c := if c = 0 then getPippengerC data.length else c
    if 9 < c then .error "c is too large"
    else
      let bits := coverBits 1 (maxScalar data) keyBits 0
      let groups := (bits + c - 1) / c
      .ok ((pippengerGroups c (pippengerTerms data cached cacheSize) groups none).getD 0)

def strausSizeLimit : Nat := 232

def multiexp (higiCache : List E) (data : List (MultiexpData E)) (higiSize : Nat) :
    Except String E :=
  if 0 < higiSize then
    if higiSize ≤ 232 ∧ data.length = higiSize then
      straus data (some (higiCache.take strausSizeLimit)) 0
    else pippenger data (some higiCache) higiSize (getPippengerC data.length)
  else if data.length ≤ 95 then straus data none 0
  else pippenger data none 0 (getPippengerC data.length)

end Jero.Ringct
