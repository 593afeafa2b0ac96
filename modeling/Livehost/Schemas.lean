import Mathlib.Algebra.Group.Nat.Defs
import Mathlib.Data.Int.Cast.Defs
import Mathlib.Data.Int.Order.Basic
import Mathlib.Data.List.Infix
import Mathlib.Order.Lattice

/-!
# Social events

`livehost/schemas.py`: one normalized event from a social live-stream platform. The fields that
no modelled function reads (`id`, `platform`, `user_avatar_url`, `timestamp`) are left out.

Two things of Python stand here because the rest is written over them: `str.lower`, whose
Unicode tables are a parameter of every result, and the arithmetic of scores.
-/

namespace Livehost

/-- `SocialEvent.kind`. -/
inductive Kind
  | comment
  | gift
  | like
  | follow
  | share
  deriving DecidableEq, Repr

structure SocialEvent where
  kind : Kind
  userId : String
  userName : String
  text : Option String := none
  giftName : Option String := none
  giftValue : Option Int := none
  likeCount : Option Int := none
  /-- Filled in by the drain loop from the viewer memory, before the event is enqueued. -/
  viewerNote : Option String := none
  deriving DecidableEq, Repr

/-- Python's `str.lower`. -/
class PyLower where
  lower : String → String

/--
What the scheduler asks of Python's `float`: conversion from `int`, addition and comparison.
Exact integers are one instance; no law relates the operations, so rounding is another.
-/
class Score (σ : Type) extends LinearOrder σ, Add σ, IntCast σ

instance : Score Int where

/-- What IEEE doubles add to that: integers up to `2 ^ 53` and their sums are exact, in order. -/
class ExactScore (σ : Type) [Score σ] : Prop where
  cast_le : ∀ {a b : Int}, a.natAbs ≤ 2 ^ 53 → b.natAbs ≤ 2 ^ 53 → a ≤ b → (a : σ) ≤ (b : σ)
  cast_add : ∀ {a b : Int}, a.natAbs ≤ 2 ^ 53 → b.natAbs ≤ 2 ^ 53 → (a + b).natAbs ≤ 2 ^ 53 →
    (a : σ) + (b : σ) = ((a + b : Int) : σ)

instance : ExactScore Int where
  cast_le := fun _ _ h => h
  cast_add := fun _ _ _ => rfl

/-- Python's `needle in s` on strings. -/
def pyIn (needle s : String) : Bool :=
  s.toList.tails.any fun t => needle.toList.isPrefixOf t

/-- Python's truth value of an optional string: neither `None` nor empty. -/
def nonBlank : Option String → Bool
  | none => false
  | some s => s != ""

/-- Python's `xs[:k]`, a negative `k` counting from the end. -/
def pyTake {α : Type*} (k : Int) (xs : List α) : List α :=
  if 0 ≤ k then xs.take k.toNat else xs.take (xs.length - (-k).toNat)

/-- Python's `xs[k:]`, a negative `k` counting from the end. -/
def pyDrop {α : Type*} (k : Int) (xs : List α) : List α :=
  if 0 ≤ k then xs.drop k.toNat else xs.drop (xs.length - (-k).toNat)

theorem pyTake_prefix {α : Type*} (k : Int) (xs : List α) : pyTake k xs <+: xs := by
  unfold pyTake
  split <;> exact List.take_prefix _ _

@[simp] theorem pyTake_natCast {α : Type*} (n : Nat) (xs : List α) :
    pyTake (n : Int) xs = xs.take n := by simp [pyTake]

theorem pyTake_append_drop {α : Type*} (k : Int) (xs : List α) :
    pyTake k xs ++ xs.drop (pyTake k xs).length = xs :=
  List.prefix_iff_eq_append.mp <| pyTake_prefix k xs

end Livehost
