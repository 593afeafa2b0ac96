import Livehost.Api.Down
import Livehost.Infra.Machine
import Livehost.Registry

/-!
# How a handler ends

`livehost/api/ws.py`: `livehost_stream` from the claim to its end, and `_get_memory_store` with the
module's globals. Here every call and every await of the handler may raise, and what matters is
which of its exits is taken and what was released on the way. What the handler does in between
(`Api/Ws.lean`) is left out; any number of handlers share the registry and the globals.
-/

namespace Livehost

/-! ## The memory store -/

/-- `_memory_store`, whether there is one, and the two paths that go with it. -/
structure MemoryGlobals where
  store : Bool := false
  storePath : Option String := none
  failedPath : Option String := none
  deriving DecidableEq

/-- `_get_memory_store()` with `settings.memory_db_path`, and what `ViewerMemoryStore(...)` and
`old_store.close()` raise: whether a store is returned, or what is raised, and the globals. -/
def getMemoryStore (g : MemoryGlobals) (currentPath : String) (build close : Option Exc) :
    Except Exc Bool × MemoryGlobals :=
  if g.failedPath = some currentPath then (.ok false, g)
  else if !g.store || g.storePath != some currentPath then
    match build with
    | some exc =>
      if exc.isException then
        (.ok false, { store := false, storePath := none, failedPath := some currentPath })
      else (.error exc, g)
    | none =>
      let rebuilt := { store := true, storePath := some currentPath, failedPath := none }
      match if g.store then close else none with
      | some exc => (.error exc, rebuilt)
      | none => (.ok true, rebuilt)
  else (.ok true, g)

/-- The call of `memory_store.cleanup(...)`, which catches `sqlite3.Error`: what it raises. -/
def cleanupRaises (hasStore : Bool) (cleanup : Option Exc) : Option Exc :=
  if hasStore then cleanup.filter (· != .sqliteError) else none

/-! ## The handler -/

/-- Where the handler is suspended. `pending` is the exception that goes on after the `finally`. -/
inductive ExitPc
  /-- Before the claim. -/
  | fresh
  /-- In `await websocket.send_json(...)` with an error, or in the `await websocket.close()` behind
  it. -/
  | telling (closing : Bool)
  /-- In `await upstream.connect()`. -/
  | dialing
  /-- In `await websocket.receive()`. -/
  | receiving
  /-- In `await relay.pump_up(message)`. -/
  | forwarding
  /-- In `await task`, the first of so many that are still to be awaited. -/
  | awaiting (tasks : Nat) (pending : Option Exc)
  /-- In `await ingestor.stop()`. -/
  | stopping (pending : Option Exc)
  /-- In `await upstream.close()`. -/
  | closing (pending : Option Exc)
  /-- Returned, or raised. -/
  | finished (raised : Option Exc)
  deriving DecidableEq

structure Handler where
  pc : ExitPc := .fresh
  sessionId : String := ""
  /-- `user_id or None`. -/
  userId : Option String := none
  /-- `idle_topic_seconds > 0`, where `_poll_idle` is the fourth task. -/
  idleTopic : Bool := false
  /-- The claim succeeded. -/
  claimed : Bool := false

/-- What happens before the handler's next await, or at the one it stands at. -/
inductive HandlerAct
  /-- The handler claims `sessionId`; then what `_get_memory_store` and the cleanup call raise. -/
  | accept (sessionId : String) (userId : Option String) (idleTopic : Bool) (path : String)
    (build close cleanup : Option Exc)
  /-- `websocket.receive()` returned a frame, or the disconnect. -/
  | frame
  | disconnect
  /-- What is awaited returned, or raised. -/
  | resume (raised : Option Exc)
  /-- A turn of `_drain_social`, which gets the memory store too. -/
  | drain (path : String) (build close : Option Exc)

namespace Handler

variable (h : Handler)

/-- The session of handler `i`. -/
def session (i : Nat) : LivehostSession := ⟨i, h.userId⟩

/-- From the grant of the claim to the first connect. -/
def acceptGranted (g : MemoryGlobals) (path : String) (build close cleanup : Option Exc) :
    MemoryGlobals × Handler :=
  match getMemoryStore g path build close with
  | (.error exc, g) => (g, { h with pc := .finished (some exc) })
  | (.ok hasStore, g) =>
    match cleanupRaises hasStore cleanup with
    | some exc => (g, { h with pc := .finished (some exc) })
    | none => (g, { h with pc := .dialing })

/-- The receive loop is left: the tasks are cancelled and the first one is awaited. -/
def leaveLoop (raised : Option Exc) : Handler :=
  { h with
    pc := .awaiting (if h.idleTopic then 4 else 3)
      -- `except WebSocketDisconnect: pass`
      (raised.filter (· != .webSocketDisconnect)) }

/-- What is awaited returned or raised. -/
def resume (i : Nat) (r : LivehostSessionRegistry) (raised : Option Exc) :
    Option (LivehostSessionRegistry × Handler) :=
  match h.pc, raised with
  | .telling _, some exc => some (r, { h with pc := .finished (some exc) })
  | .telling false, none => some (r, { h with pc := .telling true })
  | .telling true, none => some (r, { h with pc := .finished none })
  | .dialing, none => some (r, { h with pc := .receiving })
  | .dialing, some exc =>
    if exc.isException then
      some ((r.release h.sessionId (h.session i)).2, { h with pc := .telling false })
    else some (r, { h with pc := .finished (some exc) })
  | .receiving, some exc => some (r, h.leaveLoop (some exc))
  | .forwarding, none => some (r, { h with pc := .receiving })
  | .forwarding, some exc => some (r, h.leaveLoop (some exc))
  -- `except (asyncio.CancelledError, Exception)`
  | .awaiting tasks pending, _ =>
    some (r, { h with
      pc := if tasks ≤ 1 then .stopping pending else .awaiting (tasks - 1) pending })
  | .stopping pending, raised =>
    match raised.filter (!·.isException) with
    | some exc => some (r, { h with pc := .finished (some exc) })
    | none => some (r, { h with pc := .closing pending })
  | .closing pending, raised =>
    match raised.filter (!·.isException) with
    | some exc => some (r, { h with pc := .finished (some exc) })
    | none => some ((r.release h.sessionId (h.session i)).2, { h with pc := .finished pending })
  | _, _ => none

/-- One step of handler `i` on the registry and the globals. -/
def step (i : Nat) (r : LivehostSessionRegistry) (g : MemoryGlobals) :
    HandlerAct → Option (LivehostSessionRegistry × MemoryGlobals × Handler)
  | .accept sessionId userId idleTopic path build close cleanup =>
    match h.pc with
    | .fresh =>
      let h := { h with sessionId, userId, idleTopic }
      match r.claim sessionId (h.session i) with
      | (true, r) =>
        let (g, h) := { h with claimed := true }.acceptGranted g path build close cleanup
        some (r, g, h)
      | (false, r) => some (r, g, { h with pc := .telling false })
    | _ => none
  | .frame =>
    match h.pc with
    | .receiving => some (r, g, { h with pc := .forwarding })
    | _ => none
  | .disconnect =>
    match h.pc with
    | .receiving => some (r, g, h.leaveLoop none)
    | _ => none
  | .resume raised => (h.resume i r raised).map fun (r, h) => (r, g, h)
  | .drain path build close =>
    match h.pc with
    | .receiving | .forwarding => some (r, (getMemoryStore g path build close).2, h)
    | _ => none

end Handler

/-! ## All handlers -/

structure Handlers where
  registry : LivehostSessionRegistry := {}
  globals : MemoryGlobals := {}
  handlers : Nat → Handler := fun _ => {}

/-- No handler has claimed anything yet. -/
def Handlers.start : Handlers := {}

structure HandlersAct where
  handler : Nat
  act : HandlerAct

def handlersStep (s : Handlers) (a : HandlersAct) : Option Handlers :=
  ((s.handlers a.handler).step a.handler s.registry s.globals a.act).map
    fun (registry, globals, h) =>
      { registry, globals, handlers := Function.update s.handlers a.handler h }

end Livehost
