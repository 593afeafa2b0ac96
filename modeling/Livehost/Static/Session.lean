/-!
# The session of the page

`static/livehost.js`: `startLhSession`, the handlers of the WebSocket it creates, and
`stopLhSession`. The part of `lh` they share is `lh.ws`, `lh.sessionId` and `lh.capture`, with the
two buttons of `setLhSessionUI` and the class of `lh-status`; `lhStopAudio` is not part of it.

Between two awaits the page runs alone, so an action is a click, the return of an await, or an
event of a socket. `startLhSession` awaits the warm-up once; what it reads behind it
(`crypto.randomUUID()`, the solo switch) comes with the reply. `createMicCapture` only builds an
object, so the `catch` around it is never entered. `GATEWAY_TOKEN` is fixed for the page and is a
parameter. A socket takes its `readyState` where its event is fired; only `close()` and the
server's closing handshake change it before.
-/

namespace Livehost

/-- What `setLhSessionUI` is called with. -/
inductive SessionUI
  | idle
  | starting
  | recording
  deriving DecidableEq, Repr

/-- `WebSocket.readyState`. -/
inductive ReadyState
  | connecting
  | opened
  | closing
  | closed
  deriving DecidableEq, Repr

/-- `WebSocket.close()`. -/
def ReadyState.close : ReadyState → ReadyState
  | .connecting | .opened => .closing
  | r => r

/-- Neither side has begun to close. -/
def ReadyState.live : ReadyState → Bool
  | .connecting | .opened => true
  | _ => false

/-- The class of `lh-status`. -/
inductive StatusClass
  | statusIdle
  | statusRec
  | statusError
  deriving DecidableEq, Repr

/-- Where the `capture.start()` of `onopen` stands. -/
inductive CaptureStart
  | notCalled
  | awaited
  | settled
  deriving DecidableEq, Repr

/-- A WebSocket with what its handlers close over. -/
structure LhSocket where
  /-- Which call of `startLhSession` created it. -/
  call : Nat
  /-- The `session_id` of its URL. -/
  sessionId : String
  soloMode : Bool
  readyState : ReadyState := .connecting
  captureStart : CaptureStart := .notCalled
  deriving DecidableEq, Repr

/-- What the await of the warm-up ends with. -/
inductive WarmReply
  /-- `warmRes.ok`, and what is read after it. -/
  | ok (uuid : String) (soloMode : Bool)
  | notOk
  /-- `gatewayFetch` rejects. -/
  | failed
  deriving DecidableEq, Repr

/-- The page. Calls of `startLhSession` and sockets are numbered in the order they are made. -/
structure LhPage where
  ws : Option Nat := none
  sessionId : Option String := none
  /-- The socket whose capture `lh.capture` is. -/
  capture : Option Nat := none
  startDisabled : Bool := false
  stopDisabled : Bool := true
  status : StatusClass := .statusIdle
  calls : Nat := 0
  /-- The calls that await the warm-up. -/
  warming : List Nat := []
  sockets : List LhSocket := []
  deriving DecidableEq, Repr

inductive PageAct
  /-- A click on Start that finds `lhDetails.sttAvailable`. -/
  | start (sttAvailable : Bool)
  /-- A click on Stop. -/
  | stop
  | warmed (call : Nat) (reply : WarmReply)
  /-- The open, error and close events of a socket. -/
  | opened (socket : Nat)
  | errored (socket : Nat)
  | closed (socket : Nat)
  /-- The server starts the closing handshake of an open socket. -/
  | closing (socket : Nat)
  /-- `capture.start()` of a socket's `onopen` resolves or rejects. -/
  | captured (socket : Nat)
  | captureDenied (socket : Nat)
  deriving DecidableEq, Repr

namespace LhPage

def setLhSessionUI (s : LhPage) (state : SessionUI) : LhPage :=
  { s with
    startDisabled := decide (state ≠ .idle)
    stopDisabled := decide (state = .idle) }

def modifySocket (s : LhPage) (i : Nat) (f : LhSocket → LhSocket) : LhPage :=
  { s with sockets := s.sockets.modify i f }

/-- `ws.close()`. -/
def closeSocket (s : LhPage) (i : Nat) : LhPage :=
  s.modifySocket i fun w => { w with readyState := w.readyState.close }

/-! ## `startLhSession` -/

/-- Up to the await. -/
def startLhSession (s : LhPage) (sttAvailable : Bool) : LhPage :=
  let s := { s.setLhSessionUI .starting with calls := s.calls + 1 }
  if !sttAvailable then { s.setLhSessionUI .idle with status := .statusError }
  else { s with status := .statusIdle, warming := s.warming ++ [s.calls - 1] }

/-- The rest. -/
def warmReturned (ticket : String) (s : LhPage) (call : Nat) : WarmReply → LhPage
  | .notOk | .failed => { s.setLhSessionUI .idle with status := .statusError }
  | .ok uuid soloMode =>
    let s := { s with sessionId := some uuid }
    if ticket = "" then { s.setLhSessionUI .idle with status := .statusError }
    else
      { s with
        sockets := s.sockets ++ [{ call, sessionId := uuid, soloMode }]
        ws := some s.sockets.length }

/-! ## The handlers -/

def onopen (s : LhPage) (i : Nat) (soloMode : Bool) : LhPage :=
  let s := s.modifySocket i fun w => { w with readyState := .opened }
  if soloMode then { s.setLhSessionUI .recording with status := .statusRec }
  else s.modifySocket i fun w => { w with captureStart := .awaited }

/-- Behind `await capture.start()`. -/
def captureStarted (s : LhPage) (i : Nat) : LhPage :=
  let s := s.modifySocket i fun w => { w with captureStart := .settled }
  { s.setLhSessionUI .recording with capture := some i, status := .statusRec }

/-- The `catch` of `onopen`. -/
def captureFailed (s : LhPage) (i : Nat) : LhPage :=
  let s := s.modifySocket i fun w => { w with captureStart := .settled }
  { s.closeSocket i with status := .statusError }

def onclose (s : LhPage) (i : Nat) : LhPage :=
  let s := s.modifySocket i fun w => { w with readyState := .closed }
  { s.setLhSessionUI .idle with
    sessionId := none
    status := if s.status ≠ .statusError then .statusIdle else s.status }

def stopLhSession (s : LhPage) : LhPage :=
  let s := { s with capture := none }
  let s :=
    match s.ws with
    | some i => { s.closeSocket i with ws := none }
    | none => s
  s.setLhSessionUI .idle

/-! ## Steps -/

/-- The page after an action, `none` where it cannot happen. -/
def next (ticket : String) (s : LhPage) : PageAct → Option LhPage
  | .start sttAvailable => if s.startDisabled then none else some (s.startLhSession sttAvailable)
  | .stop => if s.stopDisabled then none else some s.stopLhSession
  | .warmed call reply =>
    if call ∈ s.warming then
      some (warmReturned ticket { s with warming := s.warming.erase call } call reply)
    else none
  | .opened i => do
    let w ← s.sockets[i]?
    if w.readyState = .connecting then some (s.onopen i w.soloMode) else none
  | .errored i => do
    let w ← s.sockets[i]?
    if w.readyState ≠ .closed then some { s with status := .statusError } else none
  | .closed i => do
    let w ← s.sockets[i]?
    if w.readyState ≠ .closed then some (s.onclose i) else none
  | .closing i => do
    let w ← s.sockets[i]?
    if w.readyState = .opened then
      some (s.modifySocket i fun w => { w with readyState := .closing })
    else none
  | .captured i => do
    let w ← s.sockets[i]?
    if w.captureStart = .awaited then some (s.captureStarted i) else none
  | .captureDenied i => do
    let w ← s.sockets[i]?
    if w.captureStart = .awaited then some (s.captureFailed i) else none

end LhPage

end Livehost
