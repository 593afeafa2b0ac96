import Livehost.Infra.Machine
import Livehost.Registry

/-!
# Connections on the registry

What the handlers of `api/ws.py` do to the registry: a connection claims an id with its own
session object once, and if that succeeded releases it once later, in the failed dial or in the
teardown. Connection `c` makes session `c`. The history of the calls that changed something is
kept, newest first.
-/

namespace Livehost

/-- How far a connection is. -/
inductive Conn
  | fresh
  | live (sessionId : String) (userId : Option String)
  | refused
  | gone
  deriving DecidableEq

/-- A successful claim, or a release. -/
inductive Entry
  | claimed (sessionId : String) (session : LivehostSession)
  | released (session : LivehostSession)
  deriving DecidableEq

structure Connections where
  registry : LivehostSessionRegistry := {}
  conns : Nat → Conn := fun _ => .fresh
  history : List Entry := []

inductive ConnAct
  | claim (c : Nat) (sessionId : String) (userId : Option String)
  | release (c : Nat)

namespace Connections

/-- No connection yet. -/
def start : Connections := {}

variable (s : Connections) (c : Nat) (id : String) (userId : Option String)

/-- After a granted claim. -/
def granted (registry : LivehostSessionRegistry) : Connections :=
  { registry
    conns := Function.update s.conns c (.live id userId)
    history := .claimed id ⟨c, userId⟩ :: s.history }

/-- After a claim that was refused. -/
def refused : Connections := { s with conns := Function.update s.conns c .refused }

/-- After a release. -/
def freed : Connections :=
  { registry := (s.registry.release id ⟨c, userId⟩).2
    conns := Function.update s.conns c .gone
    history := .released ⟨c, userId⟩ :: s.history }

variable {s c id userId}

theorem granted_conns {registry : LivehostSessionRegistry} (c' : Nat) :
    (s.granted c id userId registry).conns c'
      = if c' = c then .live id userId else s.conns c' := Function.update_apply ..

theorem refused_conns (c' : Nat) :
    (s.refused c).conns c' = if c' = c then .refused else s.conns c' := Function.update_apply ..

theorem freed_conns (c' : Nat) :
    (s.freed c id userId).conns c' = if c' = c then .gone else s.conns c' :=
  Function.update_apply ..

end Connections

def connStep (s : Connections) : ConnAct → Option Connections
  | .claim c id userId =>
    match s.conns c with
    | .fresh =>
      match s.registry.claim id ⟨c, userId⟩ with
      | (true, registry) => some (s.granted c id userId registry)
      | (false, _) => some (s.refused c)
    | _ => none
  | .release c =>
    match s.conns c with
    | .live id userId => some (s.freed c id userId)
    | _ => none

theorem connStep_granted {s : Connections} {c : Nat} {id : String} {userId : Option String}
    (hc : s.conns c = .fresh) (ht : (s.registry.claim id ⟨c, userId⟩).1 = true) :
    connStep s (.claim c id userId)
      = some (s.granted c id userId (s.registry.register id ⟨c, userId⟩)) := by
  rcases s.registry.claim_cases id ⟨c, userId⟩ with ⟨-, hr⟩ | ⟨hf, -⟩
  · have hp : s.registry.claim id ⟨c, userId⟩ = (true, s.registry.register id ⟨c, userId⟩) :=
      Prod.ext ht hr
    simp only [connStep, hc, hp]
  · rw [ht] at hf; cases hf

theorem connStep_refused {s : Connections} {c : Nat} {id : String} {userId : Option String}
    (hc : s.conns c = .fresh) (hf : (s.registry.claim id ⟨c, userId⟩).1 = false) :
    connStep s (.claim c id userId) = some (s.refused c) := by
  have hp : s.registry.claim id ⟨c, userId⟩ = (false, s.registry) :=
    Prod.ext hf (LivehostSessionRegistry.claim_refused hf)
  simp only [connStep, hc, hp]

theorem connStep_release {s : Connections} {c : Nat} {id : String} {userId : Option String}
    (hc : s.conns c = .live id userId) : connStep s (.release c) = some (s.freed c id userId) := by
  simp only [connStep, hc]

/-- **Everything a step can do**: a claim that is granted, a claim that is refused, a release. -/
theorem connStep_cases {s s' : Connections} {a : ConnAct} (h : connStep s a = some s') :
    (∃ c id userId, a = .claim c id userId ∧ s.conns c = .fresh ∧
      (s.registry.claim id ⟨c, userId⟩).1 = true ∧
      s' = s.granted c id userId (s.registry.register id ⟨c, userId⟩)) ∨
    (∃ c id userId, a = .claim c id userId ∧ s.conns c = .fresh ∧
      (s.registry.claim id ⟨c, userId⟩).1 = false ∧ s' = s.refused c) ∨
    ∃ c id userId, a = .release c ∧ s.conns c = .live id userId ∧ s' = s.freed c id userId := by
  cases a with
  | claim c id userId =>
    cases hc : s.conns c with
    | fresh =>
      rcases s.registry.claim_cases id ⟨c, userId⟩ with ⟨ht, -⟩ | ⟨hf, -⟩
      · rw [connStep_granted hc ht] at h
        cases h
        exact Or.inl ⟨c, id, userId, rfl, hc, ht, rfl⟩
      · rw [connStep_refused hc hf] at h
        cases h
        exact Or.inr (Or.inl ⟨c, id, userId, rfl, hc, hf, rfl⟩)
    | _ => simp [connStep, hc] at h
  | release c =>
    cases hc : s.conns c with
    | live id userId =>
      simp only [connStep, hc, Option.some.injEq] at h
      exact Or.inr (Or.inr ⟨c, id, userId, rfl, hc, h.symm⟩)
    | _ => simp [connStep, hc] at h

end Livehost
