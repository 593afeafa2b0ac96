import Livehost.Infra.FifoLock
import Livehost.Schemas
import Mathlib.Algebra.Order.Ring.Rat

/-!
# The TikTok ingestor

`livehost/ingest/tiktok.py`: `TikTokLiveIngestor`, a task that connects, drains events onto a
queue and reconnects, and the `start` and `stop` that replace or end it under a lock. The machine
steps from await to await: a `RunAct` is what the awaited client, iterator or sleep gives the task,
and the other actions are those of the coroutines that call `start` and `stop`.

`clients` lists the client objects the factory built, in order; the task works with the last of
them. `κ` names the calling coroutines. The queue is unbounded, so `queue.put` does not suspend.
-/

namespace Livehost

open Infra

variable {κ : Type}

inductive IngestorState
  | idle
  | connecting
  | live
  | reconnecting
  | offlineWaiting
  | error
  deriving DecidableEq, Repr

/-- A client object, and which of its methods got how far. -/
structure LiveClient where
  uniqueId : Option String
  /-- `connect()` returned. -/
  connected : Bool := false
  /-- `close()` was called. -/
  closed : Bool := false
  deriving DecidableEq, Repr

/-- Where `_run` is suspended. -/
inductive RunPc
  /-- Created, not run yet. -/
  | created
  /-- In `await client.connect()`. -/
  | connecting
  /-- In the sleep of an offline room. -/
  | offlineSleep
  /-- In `_sleep_backoff`. -/
  | backoffSleep
  /-- In `_drain`, waiting for the next event. -/
  | draining (receivedEvent : Bool)
  /-- In `await client.close()`; `unwinding` where a cancellation goes on after it. -/
  | closing (stale receivedEvent unwinding : Bool)
  | done
  deriving DecidableEq, Repr

structure RunTask where
  generation : Nat
  pc : RunPc := .created
  backoff : Rat
  /-- `cancel()` was called, and the `CancelledError` has not arrived yet. -/
  cancelled : Bool := false

/-- The two calls that take the lock. -/
inductive LockOp
  | start (uniqueId : String)
  | stop
  deriving DecidableEq, Repr

structure TikTokLiveIngestor (κ : Type) where
  backoffInitial : Rat := 1
  backoffMax : Rat := 60
  offlinePollInterval : Rat := 30
  state : IngestorState := .idle
  uniqueId : Option String := none
  task : Option RunTask := none
  generation : Nat := 0
  stopRequested : Bool := false
  lock : FifoLock (κ × LockOp) := {}
  clients : List LiveClient := []
  queue : List SocialEvent := []

/-- What `client_factory` does: it returns a client, or raises. -/
inductive FactoryOutcome
  | returns
  /-- `RoomOfflineError`. -/
  | roomOffline
  /-- Any other `Exception`. -/
  | fails
  /-- `CancelledError`. -/
  | cancelled
  deriving DecidableEq, Repr

/-- What the awaits of the task give it. -/
inductive RunAct
  /-- The task runs for the first time. -/
  | begin (factory : FactoryOutcome)
  /-- `connect()` returned; `events` is whether `events()` returns. -/
  | connected (events : Bool)
  /-- `connect()` raised `RoomOfflineError`. -/
  | offline
  /-- `connect()` raised anything else. -/
  | connectFails
  /-- A sleep is over. -/
  | slept (factory : FactoryOutcome)
  | event (event : SocialEvent)
  /-- The watchdog's timeout. -/
  | timeout
  /-- The stream is exhausted, yields `None` or raises. -/
  | streamEnds
  /-- `close()` returned or raised. -/
  | closed (factory : FactoryOutcome)
  /-- A `CancelledError` arrives, that of `cancel()` or another. -/
  | cancelled

inductive IngestAct (κ : Type)
  | call (caller : κ) (op : LockOp)
  /-- The first waiter gets the lock. -/
  | wake
  /-- The cancelled task that `_stop_locked` awaits is done. -/
  | awaited
  | run (act : RunAct)

namespace TikTokLiveIngestor

/-- `TikTokLiveIngestor(client_factory, queue, ...)`. -/
def new (backoffInitial backoffMax offlinePollInterval : Rat) : TikTokLiveIngestor κ :=
  { backoffInitial, backoffMax, offlinePollInterval }

variable (s : TikTokLiveIngestor κ)

/-! ## `start` and `stop` -/

/-- What `start` does after `_stop_locked`. -/
def launch (uniqueId : String) : TikTokLiveIngestor κ :=
  { s with
    uniqueId := some uniqueId
    stopRequested := false
    generation := s.generation + 1
    state := .connecting
    task := some { generation := s.generation + 1, backoff := s.backoffInitial } }

/-- From the end of `_stop_locked` to the return of the call, with the lock released. -/
def finish (op : LockOp) : TikTokLiveIngestor κ :=
  let s := { s with state := .idle, task := none, lock := s.lock.release }
  match op with
  | .start uniqueId => s.launch uniqueId
  | .stop => s

/-- From the lock to the next await: the running task is cancelled and awaited. The second
component is the caller whose call returned. -/
def enter (caller : κ) (op : LockOp) : TikTokLiveIngestor κ × Option κ :=
  let s := { s with stopRequested := true }
  match s.task with
  | some task =>
    if task.pc = .done then (s.finish op, some caller)
    else ({ s with task := some { task with cancelled := true } }, none)
  | none => (s.finish op, some caller)

/-- `start` or `stop` is called. -/
def call (caller : κ) (op : LockOp) : TikTokLiveIngestor κ × Option κ :=
  match s.lock.acquire (caller, op) with
  | (true, lock) => { s with lock }.enter caller op
  | (false, lock) => ({ s with lock }, none)

/-! ## `_run` -/

/-- The head of the loop of `_run`, up to the next await. -/
def loopHead (task : RunTask) (factory : FactoryOutcome) : TikTokLiveIngestor κ :=
  if !s.stopRequested && task.generation == s.generation then
    let state := if task.backoff = s.backoffInitial then .connecting else .reconnecting
    match factory with
    | .returns =>
      { s with
        state
        clients := s.clients ++ [{ uniqueId := s.uniqueId }]
        task := some { task with pc := .connecting } }
    | .roomOffline =>
      { s with state := .offlineWaiting, task := some { task with pc := .offlineSleep } }
    | .fails => { s with state := .error, task := some { task with pc := .backoffSleep } }
    | .cancelled => { s with state, task := some { task with pc := .done } }
  else { s with task := some { task with pc := .done } }

/-- Change the client the task works with. -/
def withClient (f : LiveClient → LiveClient) : TikTokLiveIngestor κ :=
  { s with clients := s.clients.modifyLast f }

/-- `_drain` is left: `client.close()` is called. -/
def leaveDrain (task : RunTask) (stale receivedEvent unwinding : Bool) : TikTokLiveIngestor κ :=
  { s.withClient fun c => { c with closed := true } with
    task := some { task with pc := .closing stale receivedEvent unwinding, cancelled := false } }

/-- `_run` after `_drain` returned. -/
def drained (task : RunTask) (stale receivedEvent : Bool) (factory : FactoryOutcome) :
    TikTokLiveIngestor κ :=
  -- the backoff is reset by an event, not by a connection
  let task := if receivedEvent then { task with backoff := s.backoffInitial } else task
  if s.stopRequested || task.generation != s.generation then
    { s with task := some { task with pc := .done } }
  else if stale then s.loopHead task factory
  else { s with state := .reconnecting, task := some { task with pc := .backoffSleep } }

/-- A `CancelledError` arrives at the await the task stands at. -/
def cancelArrives (task : RunTask) : TikTokLiveIngestor κ :=
  match task.pc with
  | .draining receivedEvent => s.leaveDrain task false receivedEvent true
  -- at every other await the exception leaves `_run` at once, the client not closed
  | _ => { s with task := some { task with pc := .done, cancelled := false } }

/-- One step of a task that no `CancelledError` arrives at. -/
def runStep (task : RunTask) : RunAct → Option (TikTokLiveIngestor κ)
  | .begin factory =>
    match task.pc with
    | .created => some (s.loopHead task factory)
    | _ => none
  | .connected events =>
    match task.pc with
    | .connecting =>
      let s := { s.withClient fun c => { c with connected := true } with state := .live }
      -- `client.events()` is called outside the `try`: what it raises ends the task
      some { s with
        task := some { task with pc := if events then .draining false else .done } }
    | _ => none
  | .offline =>
    match task.pc with
    | .connecting =>
      some { s with state := .offlineWaiting, task := some { task with pc := .offlineSleep } }
    | _ => none
  | .connectFails =>
    match task.pc with
    | .connecting =>
      some { s with state := .error, task := some { task with pc := .backoffSleep } }
    | _ => none
  | .slept factory =>
    match task.pc with
    | .offlineSleep => some (s.loopHead task factory)
    | .backoffSleep =>
      some (s.loopHead { task with backoff := min (task.backoff * 2) s.backoffMax } factory)
    | _ => none
  | .event event =>
    match task.pc with
    | .draining _ =>
      some { s with
        queue := s.queue ++ [event]
        task := some { task with pc := .draining true } }
    | _ => none
  | .timeout =>
    match task.pc with
    | .draining receivedEvent => some (s.leaveDrain task true receivedEvent false)
    | _ => none
  | .streamEnds =>
    match task.pc with
    | .draining receivedEvent => some (s.leaveDrain task false receivedEvent false)
    | _ => none
  | .closed factory =>
    match task.pc with
    | .closing _ _ true => some { s with task := some { task with pc := .done } }
    | .closing stale receivedEvent false => some (s.drained task stale receivedEvent factory)
    | _ => none
  | .cancelled => none

/-- One step of the ingestor. The second component is the caller whose call returned. -/
def step : IngestAct κ → Option (TikTokLiveIngestor κ × Option κ)
  | .call caller op => some (s.call caller op)
  | .wake =>
    match s.lock.wake with
    | some ((caller, op), lock) => some ({ s with lock }.enter caller op)
    | none => none
  | .awaited =>
    match s.lock.holder, s.task with
    | some (caller, op), some task =>
      if task.pc = .done then some (s.finish op, some caller) else none
    | _, _ => none
  | .run act =>
    match s.task, act with
    | some task, .cancelled =>
      if task.pc = .done then none else some (s.cancelArrives task, none)
    | some task, act =>
      if task.cancelled || task.pc = .done then none
      else (s.runStep task act).map fun s => (s, none)
    | none, _ => none

end TikTokLiveIngestor

end Livehost
