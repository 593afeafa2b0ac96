import Mathlib.Algebra.Order.Floor.Semiring
import Mathlib.Algebra.Order.Ring.Defs
import Mathlib.Data.List.Range
import Mathlib.Order.Monotone.Basic

/-!
# Blocks between borders

Borders `f 0 ≤ f 1 ≤ …` cut the numbers into blocks `[f i, f (i + 1))`.

* `flatMap_blocks` — the first `n` blocks, one behind the other, are the numbers from `f 0` to `f n`
* `floor_mul_mono`, `floor_mul_lt` — the floors of the multiples of a step as borders
-/

namespace Livehost.Infra

section Blocks

variable {f : Nat → Nat}

/-- The members of a block. -/
def block (f : Nat → Nat) (i : Nat) : List Nat := List.range' (f i) (f (i + 1) - f i)

theorem flatMap_blocks (hf : Monotone f) (n : Nat) :
    (List.range n).flatMap (block f) = List.range' (f 0) (f n - f 0) := by
  induction n with
  | zero => simp
  | succ n ih =>
    have h0 : f 0 ≤ f n := hf (Nat.zero_le n)
    have hn : f n ≤ f (n + 1) := hf (Nat.le_succ n)
    have hlast : block f n = List.range' (f 0 + 1 * (f n - f 0)) (f (n + 1) - f n) := by
      rw [block, Nat.one_mul, Nat.add_sub_cancel' h0]
    have hlength : f (n + 1) - f 0 = (f n - f 0) + (f (n + 1) - f n) := by omega
    rw [List.range_succ, List.flatMap_append, List.flatMap_singleton, ih, hlast, hlength,
      List.range'_append]

end Blocks

section Floors

variable {K : Type*} [Semiring K] [LinearOrder K] [IsStrictOrderedRing K] [FloorSemiring K] {r : K}

theorem floor_mul_mono (hr : 0 ≤ r) : Monotone fun i : Nat => ⌊(i : K) * r⌋₊ := fun _ _ h =>
  Nat.floor_mono (mul_le_mul_of_nonneg_right (Nat.cast_le.mpr h) hr)

/-- A step of at least one leaves no block empty. -/
theorem floor_mul_lt (hr : 1 ≤ r) (i : Nat) : ⌊(i : K) * r⌋₊ < ⌊((i + 1 : Nat) : K) * r⌋₊ := by
  have hi : (0 : K) ≤ i * r := mul_nonneg i.cast_nonneg (zero_le_one.trans hr)
  rw [Nat.lt_iff_add_one_le, ← Nat.floor_add_one hi]
  refine Nat.floor_mono ?_
  rw [Nat.cast_succ, add_one_mul]
  exact add_le_add_right hr _

end Floors

end Livehost.Infra
