import Mathlib.Algebra.Order.Floor.Semiring
import Mathlib.Data.Rat.Floor

/-!
# The microphone's samples

`static/audio-capture.js`: `downsampleToPcm16`. Numbers are rational, and `none` is the `NaN` that
an `undefined` makes of a sum. An output remembers its block and the places of `input` it read.
-/

namespace Livehost

/-- An output of `downsampleToPcm16` before the `Int16Array` takes it. -/
structure PcmSample where
  start : Nat
  stop : Nat
  reads : List Nat
  value : Option Rat
  deriving DecidableEq, Repr

/-- The variables of the inner loop, and the places it read. -/
structure BlockSum where
  sum : Option Rat := some 0
  count : Nat := 0
  reads : List Nat := []

/-- `sum += input[j]; count++`. -/
def BlockSum.add (input : List Rat) (b : BlockSum) (j : Nat) : BlockSum where
  sum := do (← b.sum) + (← input[j]?)
  count := b.count + 1
  reads := b.reads ++ [j]

/-- The inner loop. -/
def sumBlock (input : List Rat) (start stop : Nat) : BlockSum :=
  (List.range' start (stop - start)).foldl (BlockSum.add input) {}

/-- `Math.max(-1, Math.min(1, sample))`. -/
def clamped (sample : Rat) : Rat := max (-1) (min 1 sample)

/-- `clamped < 0 ? clamped * 0x8000 : clamped * 0x7fff`. -/
def scaled (clamped : Rat) : Rat := if clamped < 0 then clamped * 0x8000 else clamped * 0x7fff

/-- The outer loop at `i`. -/
def downsampleSample (input : List Rat) (ratio : Rat) (i : Nat) : PcmSample :=
  let start := ⌊(i : Rat) * ratio⌋₊
  let stop := min ⌊((i + 1 : Nat) : Rat) * ratio⌋₊ input.length
  let b := sumBlock input start stop
  -- `input[start] || 0` for an empty block
  let (sample, reads) :=
    if b.count ≠ 0 then (b.sum.map fun sum => sum / (b.count : Rat), b.reads)
    else (some (input[start]?.getD (0 : Rat)), b.reads ++ [start])
  { start, stop, reads, value := sample.map fun s => scaled (clamped s) }

def outLength (input : List Rat) (ratio : Rat) : Nat := ⌊input.length / ratio⌋₊

/-- The outer loop. -/
def downsampleSamples (input : List Rat) (inputRate targetRate : Rat) : List PcmSample :=
  let ratio := inputRate / targetRate
  (List.range (outLength input ratio)).map (downsampleSample input ratio)

/-- What the `Int16Array` stores. -/
def toInt16 : Option Rat → Int
  | none => 0
  | some x => (x.num.tdiv x.den).bmod (2 ^ 16)

def downsampleToPcm16 (input : List Rat) (inputRate targetRate : Rat) : List Int :=
  (downsampleSamples input inputRate targetRate).map fun s => toInt16 s.value

end Livehost
