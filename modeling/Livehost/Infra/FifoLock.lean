import Mathlib.Data.List.Basic

/-!
# A first-come lock

A lock that serves its callers in the order they asked for it. A caller gets the lock at once when
nobody holds it and nobody waits for it; otherwise it joins the line, even in the moment between a
release and the turn of the first waiter.

* `line` — everybody the lock has yet to be done with, in the order they are served
* `acquire_granted`, `acquire_waits` — a caller gets the lock on an empty line, or joins at the end
* `line_wake`, `line_release` — a turn changes nothing of the line, and the front leaves it
-/

namespace Livehost.Infra

variable {κ : Type*}

structure FifoLock (κ : Type*) where
  holder : Option κ := none
  waiters : List κ := []

namespace FifoLock

/-- Ask for the lock; `true` where it is granted at once. -/
def acquire (l : FifoLock κ) (k : κ) : Bool × FifoLock κ :=
  match l.holder, l.waiters with
  | none, [] => (true, { l with holder := some k })
  | _, _ => (false, { l with waiters := l.waiters ++ [k] })

/-- The first waiter's turn, on a free lock. -/
def wake (l : FifoLock κ) : Option (κ × FifoLock κ) :=
  match l.holder, l.waiters with
  | none, k :: waiters => some (k, { holder := some k, waiters })
  | _, _ => none

def release (l : FifoLock κ) : FifoLock κ := { l with holder := none }

/-- The holder and then the waiters. -/
def line (l : FifoLock κ) : List κ := l.holder.toList ++ l.waiters

/-- A caller is granted the lock at once exactly when the line is empty, and then holds it alone. -/
theorem acquire_granted {l : FifoLock κ} {k : κ} (h : (l.acquire k).1 = true) :
    l.line = [] ∧ (l.acquire k).2 = { holder := some k, waiters := [] } := by
  unfold acquire at h ⊢
  split
  next h₁ h₂ => simp [line, h₁, h₂]
  next => simp at h

theorem acquire_waits {l : FifoLock κ} {k : κ} (h : (l.acquire k).1 = false) :
    (l.acquire k).2 = { l with waiters := l.waiters ++ [k] } := by
  unfold acquire at h ⊢
  split
  next h₁ h₂ => simp [h₁, h₂] at h
  next => rfl

theorem wake_some {l l' : FifoLock κ} {k : κ} (h : l.wake = some (k, l')) :
    l.holder = none ∧ l'.holder = some k ∧ l.waiters = k :: l'.waiters := by
  unfold wake at h
  split at h
  next h₁ h₂ =>
    cases h
    exact ⟨h₁, rfl, h₂⟩
  next => cases h

theorem line_wake {l l' : FifoLock κ} {k : κ} (h : l.wake = some (k, l')) : l'.line = l.line := by
  obtain ⟨h₁, h₂, h₃⟩ := wake_some h
  simp [line, h₁, h₂, h₃]

theorem line_release {l : FifoLock κ} {k : κ} (h : l.holder = some k) :
    l.line = k :: l.release.line := by
  simp [line, release, h]

end FifoLock

end Livehost.Infra
