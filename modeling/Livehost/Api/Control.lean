import Livehost.Api.Ws
import Livehost.Auth
import Livehost.Infra.Machine

/-!
# The control routes, and the whole server

`livehost/api/control.py`: connect, disconnect and status look a session up, await the introspection
of the caller's ticket, and act on what they looked up. `Server` puts any number of them together
with any number of `livehost_stream` handlers over one registry; its steps interleave the parts at
their awaits.

* `serverStep_cases` — a step is a handler's or a request's
* `streams_inv` — the invariant rule for the handlers
-/

namespace Livehost

open Infra

variable {σ β : Type}

/-- `_caller_user_id`, with the gateway's answer where a ticket is presented. -/
def callerUserId [PyLower] (authorization : Option String) (reply : IntrospectReply) :
    Option String :=
  (bearerTicket authorization).bind fun _ => (introspect reply).userId.bind ownerOf

/-- Which route, with the payload of the request. -/
inductive ControlKind
  | connect (uniqueId : String)
  | disconnect
  | status
  deriving DecidableEq, Repr

inductive Response
  /-- The 404, with its detail. -/
  | notFound (detail : String)
  | connected (state : IngestorState) (uniqueId : String)
  | disconnected (state : IngestorState)
  | status (state : IngestorState) (uniqueId : Option String) (pendingSocialEvents : Nat)
  deriving DecidableEq, Repr

/-- Where a control request is suspended. -/
inductive Request
  | fresh
  /-- In `await introspect(...)`, the session looked up. -/
  | introspecting (kind : ControlKind) (sessionId : String) (session : Option LivehostSession)
  /-- In `await session.ingestor.start(...)` or `stop()`. -/
  | calling (kind : ControlKind) (session : LivehostSession)
  | returned (response : Response)
  deriving DecidableEq, Repr

structure Server (σ β : Type) where
  registry : LivehostSessionRegistry := {}
  streams : Nat → Stream σ β := fun _ => {}
  requests : Nat → Request := fun _ => .fresh
  /-- The granted claims and the releases, newest first. -/
  history : List Entry := []

inductive ServerAct (β : Type)
  | stream (i : Nat) (act : StreamAct β)
  /-- A request arrives; `ticket` is the bearer ticket of its `Authorization` header. -/
  | request (r : Nat) (kind : ControlKind) (sessionId : String) (ticket : Option String)
  /-- `introspect` returned. -/
  | introspected (r : Nat) (userId : Option String)

/-- The call a route makes on the ingestor. -/
def ControlKind.op : ControlKind → Option LockOp
  | .connect uniqueId => some (.start uniqueId)
  | .disconnect => some .stop
  | .status => none

/-- What a route returns, read off the session at the end. -/
def ControlKind.response (kind : ControlKind) (h : Stream σ β) : Response :=
  match kind with
  | .connect uniqueId => .connected h.ingestor.state uniqueId
  | .disconnect => .disconnected h.ingestor.state
  | .status =>
    .status h.ingestor.state h.ingestor.uniqueId h.relay.scheduler.pendingCount

/-- What a step of handler `i` adds to the history. -/
def entries (i : Nat) (before after : Stream σ β) : List Entry :=
  match before.conn, after.conn with
  | .fresh, .live id userId => [.claimed id ⟨i, userId⟩]
  | .live _ userId, .gone => [.released ⟨i, userId⟩]
  | _, _ => []

namespace Server

/-- No handler and no request yet. -/
def start : Server σ β := {}

variable (s : Server σ β)

def withStream (i : Nat) (h : Stream σ β) : Server σ β :=
  { s with streams := Function.update s.streams i h }

def withRequest (r : Nat) (request : Request) : Server σ β :=
  { s with requests := Function.update s.requests r request }

/-- The route's response, once its call on the ingestor returned. -/
def respond (r : Nat) : Server σ β :=
  match s.requests r with
  | .calling kind session =>
    s.withRequest r (.returned (kind.response (s.streams session.ref)))
  | _ => s

/-- The route calls into the ingestor of the session. -/
def callIngestor (r : Nat) (kind : ControlKind) (session : LivehostSession) (op : LockOp) :
    Server σ β :=
  let h := s.streams session.ref
  let (ingestor, returned) := h.ingestor.call (.request r) op
  let s := (s.withStream session.ref { h with ingestor }).withRequest r (.calling kind session)
  match returned with
  | some _ => s.respond r
  | none => s

/-- `_get_owned_session` after the scope is known, and the route behind it. -/
def authorize (r : Nat) (kind : ControlKind) (sessionId : String)
    (session : Option LivehostSession) (scope : Option String) : Server σ β :=
  match session with
  | some session =>
    if session.userId = scope then
      match kind.op with
      | some op => s.callIngestor r kind session op
      | none => s.withRequest r (.returned (kind.response (s.streams session.ref)))
    else s.withRequest r (.returned (.notFound s!"livehost session '{sessionId}' not found"))
  | none => s.withRequest r (.returned (.notFound s!"livehost session '{sessionId}' not found"))

/-- The state after a handler's step. -/
def afterStream (i : Nat) (registry : LivehostSessionRegistry) (h : Stream σ β)
    (returned : Option Nat) : Server σ β :=
  let s := { s with registry, history := entries i (s.streams i) h ++ s.history }
  let s := s.withStream i h
  match returned with
  | some r => s.respond r
  | none => s

end Server

def serverStep [Score σ] [PyLower] (s : Server σ β) : ServerAct β → Option (Server σ β)
  | .stream i act =>
    ((s.streams i).step i s.registry act).map fun (registry, h, returned) =>
      s.afterStream i registry h returned
  | .request r kind sessionId ticket =>
    match s.requests r with
    | .fresh =>
      -- the lookup comes before the await, and its result is what the route acts on
      let session := s.registry.get sessionId
      match ticket with
      | some _ => some (s.withRequest r (.introspecting kind sessionId session))
      | none => some (s.authorize r kind sessionId session none)
    | _ => none
  | .introspected r userId =>
    match s.requests r with
    | .introspecting kind sessionId session =>
      some (s.authorize r kind sessionId session (userId.bind ownerOf))
    | _ => none

/-! ## What a step does -/

namespace Server

variable {s s' : Server σ β}

/-- The call on an ingestor that a request makes on what it looked up. -/
def ownedCall (kind : ControlKind) (session : Option LivehostSession) (scope : Option String) :
    Option (Nat × LockOp) :=
  match session with
  | some session =>
    if session.userId = scope then kind.op.map fun op => (session.ref, op) else none
  | none => none

/-- The call on an ingestor that the action makes on behalf of a control request, with the handler
whose ingestor it is. -/
def callOf (s : Server σ β) : ServerAct β → Option (Nat × LockOp)
  | .stream _ _ => none
  | .request _ kind sessionId ticket =>
    match ticket with
    | some _ => none
    | none => ownedCall kind (s.registry.get sessionId) none
  | .introspected r userId =>
    match s.requests r with
    | .introspecting kind _ session => ownedCall kind session (userId.bind ownerOf)
    | _ => none

theorem respond_frame (s : Server σ β) (r : Nat) :
    (s.respond r).registry = s.registry ∧ (s.respond r).streams = s.streams ∧
      (s.respond r).history = s.history := by
  unfold respond
  split <;> exact ⟨rfl, rfl, rfl⟩

theorem callIngestor_frame (s : Server σ β) (r : Nat) (kind : ControlKind)
    (session : LivehostSession) (op : LockOp) :
    (s.callIngestor r kind session op).registry = s.registry ∧
      (s.callIngestor r kind session op).history = s.history ∧
      (s.callIngestor r kind session op).streams
        = Function.update s.streams session.ref { s.streams session.ref with
            ingestor := ((s.streams session.ref).ingestor.call (.request r) op).1 } := by
  simp only [callIngestor]
  split
  · obtain ⟨h₁, h₂, h₃⟩ := respond_frame (((s.withStream session.ref { s.streams session.ref with
      ingestor := ((s.streams session.ref).ingestor.call (.request r) op).1 }).withRequest r
        (.calling kind session))) r
    exact ⟨h₁, h₃, h₂⟩
  · exact ⟨rfl, rfl, rfl⟩

/-- A request's step leaves everything but its own state alone, or calls into one ingestor. -/
theorem authorize_frame (s : Server σ β) (r : Nat) (kind : ControlKind) (sessionId : String)
    (session : Option LivehostSession) (scope : Option String) :
    let s' := s.authorize r kind sessionId session scope
    s'.registry = s.registry ∧ s'.history = s.history ∧
      match ownedCall kind session scope with
      | some (i, op) =>
        s'.streams = Function.update s.streams i { s.streams i with
          ingestor := ((s.streams i).ingestor.call (.request r) op).1 }
      | none => s'.streams = s.streams := by
  cases session with
  | none => exact ⟨rfl, rfl, rfl⟩
  | some session =>
    by_cases howner : session.userId = scope
    · simp only [authorize, ownedCall, howner, if_true]
      cases hop : kind.op with
      | none => exact ⟨rfl, rfl, rfl⟩
      | some op => exact callIngestor_frame s r kind session op
    · simp only [authorize, ownedCall, howner, if_false]
      exact ⟨rfl, rfl, rfl⟩

end Server

/-- **A step of the server** is the step of a handler, the call of a request into an ingestor, or a
request's step that touches no handler. -/
theorem serverStep_cases [Score σ] [PyLower] {s s' : Server σ β} {a : ServerAct β}
    (hs : serverStep s a = some s') :
    (∃ i act registry h returned, a = .stream i act ∧
      Stream.Moves i s.registry (s.streams i) act registry h returned ∧
      s'.registry = registry ∧ s'.history = entries i (s.streams i) h ++ s.history ∧
      s'.streams = Function.update s.streams i h) ∨
    (s'.registry = s.registry ∧ s'.history = s.history ∧ (∀ i act, a ≠ .stream i act) ∧
      ((∃ r i op, s.callOf a = some (i, op) ∧
        s'.streams = Function.update s.streams i { s.streams i with
          ingestor := ((s.streams i).ingestor.call (.request r) op).1 }) ∨
      (s.callOf a = none ∧ s'.streams = s.streams))) := by
  cases a with
  | stream i act =>
    obtain ⟨⟨registry, h, returned⟩, hstep, rfl⟩ := Option.map_eq_some_iff.mp hs
    refine Or.inl ⟨i, act, registry, h, returned, rfl, Stream.step_moves hstep, ?_⟩
    unfold Server.afterStream
    cases returned with
    | none => exact ⟨rfl, rfl, rfl⟩
    | some r =>
      obtain ⟨h₁, h₂, h₃⟩ := Server.respond_frame
        (Server.withStream { s with
          registry, history := entries i (s.streams i) h ++ s.history } i h) r
      exact ⟨h₁, h₃, h₂⟩
  | request r kind sessionId ticket =>
    right
    cases hr : s.requests r <;> simp only [serverStep, hr, reduceCtorEq] at hs
    cases ticket with
    | some ticket =>
      cases hs
      exact ⟨rfl, rfl, by simp, Or.inr ⟨rfl, rfl⟩⟩
    | none =>
      cases hs
      obtain ⟨h₁, h₂, h₃⟩ := s.authorize_frame r kind sessionId (s.registry.get sessionId) none
      refine ⟨h₁, h₂, by simp, ?_⟩
      show (∃ r i op, Server.ownedCall kind (s.registry.get sessionId) none = some (i, op) ∧ _) ∨
        (Server.ownedCall kind (s.registry.get sessionId) none = none ∧ _)
      cases hcall : Server.ownedCall kind (s.registry.get sessionId) none with
      | none => rw [hcall] at h₃; exact Or.inr ⟨rfl, h₃⟩
      | some call => rw [hcall] at h₃; exact Or.inl ⟨r, call.1, call.2, rfl, h₃⟩
  | introspected r userId =>
    right
    cases hr : s.requests r <;> simp only [serverStep, hr, reduceCtorEq] at hs
    next kind sessionId session =>
    cases hs
    obtain ⟨h₁, h₂, h₃⟩ := s.authorize_frame r kind sessionId session (userId.bind ownerOf)
    refine ⟨h₁, h₂, by simp, ?_⟩
    have hcallOf : s.callOf (.introspected r userId)
        = Server.ownedCall kind session (userId.bind ownerOf) := by simp [Server.callOf, hr]
    rw [hcallOf]
    cases hcall : Server.ownedCall kind session (userId.bind ownerOf) with
    | none => rw [hcall] at h₃; exact Or.inr ⟨rfl, h₃⟩
    | some call => rw [hcall] at h₃; exact Or.inl ⟨r, call.1, call.2, rfl, h₃⟩

/-- **An invariant of the handlers** holds after a server's step if it is kept by a handler's own
step and by the call a request makes on its ingestor. -/
theorem streams_inv [Score σ] [PyLower] {s s' : Server σ β} {a : ServerAct β}
    {I : Nat → Stream σ β → Prop} (hi : ∀ i, I i (s.streams i))
    (hcall : ∀ r i op, s.callOf a = some (i, op) → I i { s.streams i with
      ingestor := ((s.streams i).ingestor.call (.request r) op).1 })
    (hstep : ∀ i act registry h returned, a = .stream i act →
      Stream.Moves i s.registry (s.streams i) act registry h returned → I i h)
    (hs : serverStep s a = some s') : ∀ i, I i (s'.streams i) := by
  intro j
  rcases serverStep_cases hs with ⟨i, act, registry, h, returned, ha, hm, -, -, hstr⟩ |
    ⟨-, -, -, ⟨r, i, op, hop, hstr⟩ | ⟨-, hstr⟩⟩
  · rw [hstr, Function.update_apply]
    split
    next hji =>
      subst hji
      exact hstep j act registry h returned ha hm
    next => exact hi j
  · rw [hstr, Function.update_apply]
    split
    next hji =>
      subst hji
      exact hcall r j op hop
    next => exact hi j
  · rw [hstr]
    exact hi j

end Livehost
