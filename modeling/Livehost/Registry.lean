import Mathlib.Logic.Function.Basic

/-!
# The session registry

`livehost/registry.py`: the sessions that the control routes can reach, by session id. No method
awaits, so each runs as one step.

A session is known here by `ref`, the identity that `is` compares, and by its owner. Its
scheduler and its ingestor belong to the handler that made it and are modelled there, under the
same `ref`.
-/

namespace Livehost

/-- `LivehostSession`. -/
structure LivehostSession where
  ref : Nat
  userId : Option String
  deriving DecidableEq, Repr

structure LivehostSessionRegistry where
  sessions : String → Option LivehostSession := fun _ => none

namespace LivehostSessionRegistry

variable (r : LivehostSessionRegistry) (sessionId : String) (session : LivehostSession)

def register : LivehostSessionRegistry :=
  { sessions := Function.update r.sessions sessionId (some session) }

/-- `false` where the id is held by a different owner. -/
def claim : Bool × LivehostSessionRegistry :=
  match r.sessions sessionId with
  | some existing =>
    -- a claim of the same owner overwrites
    if existing.userId ≠ session.userId then (false, r) else (true, r.register sessionId session)
  | none => (true, r.register sessionId session)

def get : Option LivehostSession := r.sessions sessionId

/-- Compare-and-delete; `is` compares `ref`. -/
def release : Bool × LivehostSessionRegistry :=
  if (r.sessions sessionId).map (·.ref) = some session.ref then
    (true, { sessions := Function.update r.sessions sessionId none })
  else (false, r)

/-! ## What the methods do to the entries -/

theorem claim_cases :
    ((r.claim sessionId session).1 = true ∧
      (r.claim sessionId session).2 = r.register sessionId session) ∨
    ((r.claim sessionId session).1 = false ∧ (r.claim sessionId session).2 = r) := by
  unfold claim
  cases r.sessions sessionId with
  | none => exact Or.inl ⟨rfl, rfl⟩
  | some e =>
    by_cases h : e.userId ≠ session.userId
    · simp [h]
    · simp [h]

variable {r sessionId session}

theorem get_register (id : String) :
    (r.register sessionId session).get id
      = if id = sessionId then some session else r.get id := by
  simp [get, register, Function.update_apply]

/-- **A claim succeeds exactly on a free id or on one of the same owner.** -/
theorem claim_succeeds : (r.claim sessionId session).1 = true ↔
    r.get sessionId = none ∨ ∃ e, r.get sessionId = some e ∧ e.userId = session.userId := by
  unfold claim get
  cases r.sessions sessionId with
  | none => simp
  | some e =>
    by_cases h : e.userId = session.userId
    · simp [h]
    · simp [h]

theorem claim_refused (h : (r.claim sessionId session).1 = false) :
    (r.claim sessionId session).2 = r := by
  rcases r.claim_cases sessionId session with ⟨ht, -⟩ | ⟨-, hr⟩
  · rw [h] at ht; cases ht
  · exact hr

/-- **`release` removes the caller's own entry**, and nothing else. -/
theorem get_release (id : String) :
    (r.release sessionId session).2.get id
      = if id = sessionId ∧ (r.get sessionId).map (·.ref) = some session.ref then none
        else r.get id := by
  unfold release get
  split
  next h => simp [Function.update_apply, h]
  next h => simp [h]

end LivehostSessionRegistry

end Livehost
