import ContentBased.UserInterests

namespace ContentBased

/-- What a vector access, a division of integers or the making of a vector can come to. -/
inductive Trap where
  | outOfRange
  | uninitialized
  | zeroDivisor
  | lengthError
deriving DecidableEq, Repr

/-- A pair is a category and its weight. -/
abbrev VectorPair := List (Int32 × ℚ)

section
variable {α : Type}

def fetch (xs : List α) (i : Nat) : Except Trap α :=
  match xs[i]? with
  | some x => .ok x
  | none => .error .outOfRange

def store (xs : List α) (i : Nat) (x : α) : Except Trap (List α) :=
  if i < xs.length then .ok (xs.set i x) else .error .outOfRange

/-- A cell of an array whose cells have no value until they are written. -/
def fetchCell (xs : List (Option α)) (i : Nat) : Except Trap α := do
  match ← fetch xs i with
  | some x => return x
  | none => .error .uninitialized

end

/-- An `int` where a `size_t` is wanted. -/
def asSize (value : Int32) : Nat := (value.toInt % 2 ^ 64).toNat

def modulo (i : Nat) (divisor : Int32) : Except Trap Nat :=
  if asSize divisor = 0 then .error .zeroDivisor else .ok (i % asSize divisor)

namespace Marshaler

/-- Copies the flags from place `i` on and adds up the weights of those that are set. -/
def copyFlags (interests : VectorPair) : List Int → Nat → List (Option Int) → ℚ → Except Trap (List (Option Int) × ℚ)
  | [], _, totalFlags, tw => return (totalFlags, tw)
  | flag :: flags, i, totalFlags, tw => do
    let totalFlags ← store totalFlags i (some flag)
    if flag = 1 then
      let interest ← fetch interests i
      copyFlags interests flags (i + 1) totalFlags (tw + interest.2)
    else
      copyFlags interests flags (i + 1) totalFlags tw

/-- Sets the flags of the places in the mask. -/
def copyMask (interests : VectorPair) : List Int → List (Option Int) → ℚ → Except Trap (List (Option Int) × ℚ)
  | [], totalFlags, tw => return (totalFlags, tw)
  | place :: mask, totalFlags, tw => do
    if 0 ≤ place then
      if (← fetchCell totalFlags place.toNat) = 0 then
        let totalFlags ← store totalFlags place.toNat (some 1)
        let interest ← fetch interests place.toNat
        copyMask interests mask totalFlags (tw + interest.2)
      else
        copyMask interests mask totalFlags tw
    else
      copyMask interests mask totalFlags tw

/-- Goes over the interests from place `i` on and stops where the share of those without a flag
exceeds the draw. -/
def stopAt (totalFlags : List (Option Int)) (tw r : ℚ) : VectorPair → Nat → ℚ → Except Trap Int
  | [], _, _ => return -1
  | interest :: interests, i, v => do
    if (← fetchCell totalFlags i) = 1 then
      stopAt totalFlags tw r interests (i + 1) v
    else
      -- nothing exceeds the draw when no weight is left to divide by
      let v := v + interest.2 / tw
      if r < v * 100 then return i
      else stopAt totalFlags tw r interests (i + 1) v

/-- The draw is the number that `dist_` returns. -/
def selectInteresting (interests : VectorPair) (flags mask : List Int) (draw : Fin 100) : Except Trap Int := do
  let (totalFlags, tw) ← copyFlags interests flags 0 (List.replicate 100 none) 0
  let (totalFlags, tw) ← copyMask interests mask totalFlags tw
  stopAt totalFlags (1 - tw) draw.val interests 0 0

/-- The place, from `i` on, where the weights added up exceed `r`, or the end. -/
def exceeds (r : ℚ) : VectorPair → Nat → ℚ → Nat
  | [], i, _ => i
  | trend :: trends, i, pr => if r < pr + trend.2 then i else exceeds r trends (i + 1) (pr + trend.2)

/-- `(i+1)>option?(i+1):option`, which is a comparison of `size_t`s. The value goes through an
`int` unchanged, as no vector of the callers has `2 ^ 31` elements. -/
def atLeast (i : Nat) (option : Int32) : Nat := if asSize option < i + 1 then i + 1 else asSize option

/-- The variables of `marshal` that its loops change. -/
structure Shuffle where
  results : VectorPair
  mask : List Int
  trendFlags : List Int
  k : Nat
  g : Nat
deriving DecidableEq, Repr

/-- The first loop; every turn makes the results longer by one, which gives the number of turns. -/
def reserve (trends : VectorPair) (N : Int32) : Nat → Shuffle → Except Trap Shuffle
  | 0, shuffle => return shuffle
  | turns + 1, shuffle => do
    let trend ← fetch trends shuffle.k
    let mask ← store shuffle.mask (← modulo shuffle.g N) shuffle.k
    let trendFlags ← store shuffle.trendFlags shuffle.k 1
    reserve trends N turns ⟨shuffle.results ++ [trend], mask, trendFlags, shuffle.k + 1, shuffle.g + 1⟩

/-- A turn of the second loop. -/
def turn (trends : VectorPair) (P : Nat) (N : Int32) (draw : Fin 100) (shuffle : Shuffle) : Except Trap Shuffle := do
  let cleared := List.replicate shuffle.trendFlags.length 0
  let target ← selectInteresting trends shuffle.trendFlags shuffle.mask draw
  if -1 ≠ target then
    let trend ← fetch trends target.toNat
    let trendFlags ← store shuffle.trendFlags target.toNat 1
    let mask ← store shuffle.mask (← modulo shuffle.g N) target
    if P = 0 then .error .zeroDivisor
    else
      return ⟨shuffle.results ++ [trend], mask, if (shuffle.k + 1) % P = 0 then cleared else trendFlags,
        shuffle.k + 1, shuffle.g + 1⟩
  else
    return { shuffle with trendFlags := cleared }

/-- The second loop for so many turns: the variables where it ended, if it did. -/
def fill (trends : VectorPair) (P : Nat) (N : Int32) (T : Nat) :
    Nat → (Nat → Fin 100) → Shuffle → Except Trap (Option Shuffle)
  | 0, _, shuffle => return if shuffle.results.length < T then none else some shuffle
  | turns + 1, draws, shuffle => do
    if shuffle.results.length < T then
      let shuffle ← turn trends P N (draws 0) shuffle
      fill trends P N T turns (fun i => draws (i + 1)) shuffle
    else
      return some shuffle

/-- Appends to the results. There is no value if the second loop has not ended after `turns` turns. -/
def marshal (options : ModelOptions) (trends : VectorPair) (T : Nat) (results : VectorPair)
    (draws : Nat → Fin 100) (turns : Nat) : Except Trap (Option (Status × VectorPair)) := do
  let N := options.marshalerN
  let TOPT := atLeast (exceeds options.marshalerR1 trends 0 0) options.marshalerTopt
  let P := atLeast (exceeds options.marshalerR2 trends 0 0) options.marshalerP
  let zeros : List Int := List.replicate trends.length 0
  if N.toInt < 0 then .error .lengthError
  else
    let shuffle ← reserve trends N (TOPT - results.length)
      ⟨results, List.replicate N.toInt.toNat 0, zeros, 0, 0⟩
    let filled ← fill trends P N T turns draws { shuffle with trendFlags := zeros, k := 0 }
    return filled.map fun shuffle => (.ok (), shuffle.results)

end Marshaler

end ContentBased
