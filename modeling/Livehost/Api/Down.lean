import Livehost.Relay

/-!
# The down task

`livehost/api/ws.py`: `_redial` drives `_down`'s `_run_once`, which clears both arbitration
flags and enters `Relay.pump_down`. The task is a machine over the relay: `DownPc` is the await
it stands at, a `DownAct` is what that await gives it, and the code up to the next await runs as
one step.

* `downStep_cases` — everything a step can do to the relay
-/

namespace Livehost

variable {σ β : Type}

/-- The exception classes that the handlers of `ws.py` and of what it calls tell apart. -/
inductive Exc
  /-- `OSError`, of which `ConnectionError` is a subclass. -/
  | osError
  /-- `websockets.ConnectionClosed`. -/
  | connectionClosed
  /-- `websockets.InvalidStatus`, a handshake that was refused. -/
  | invalidStatus
  /-- Starlette's `WebSocketDisconnect`. -/
  | webSocketDisconnect
  /-- `sqlite3.Error`. -/
  | sqliteError
  /-- `asyncio.CancelledError`. -/
  | cancelled
  | other
  deriving DecidableEq, Repr

/-- `except Exception`: all of them but the `CancelledError`. -/
def Exc.isException : Exc → Bool
  | .cancelled => false
  | _ => true

/-- `except (ConnectionError, OSError)`. -/
def Exc.retryable : Exc → Bool
  | .osError => true
  | _ => false

/-- Where the down task is suspended. -/
inductive DownPc (β : Type)
  /-- Created, not run yet. -/
  | created
  /-- In `await upstream.connect()`. -/
  | connecting
  /-- In `pump_down`, waiting for the next message of `upstream.events()`. -/
  | receiving
  /-- In `await self.upstream.abort()`, with the message still to forward. -/
  | aborting (message : Message β)
  /-- In `await send_json(message)` or `await send_bytes(message)`. -/
  | forwarding (message : Message β)
  /-- In `await asyncio.sleep(seconds)`. -/
  | sleeping (seconds : Nat)
  | returned
  | raised (exc : Exc)

/-- In `pump_down`, on a connection. -/
def DownPc.streaming : DownPc β → Bool
  | .receiving | .aborting _ | .forwarding _ => true
  | _ => false

structure Down (β : Type) where
  pc : DownPc β := .created
  attempt : Nat := 0

/-- The keyword arguments of `_redial`. -/
structure RedialArgs where
  maxAttempts : Nat
  alreadyConnected : Bool

/-- `_UPSTREAM_RECONNECT_MAX_ATTEMPTS`. -/
def upstreamReconnectMaxAttempts : Nat := 5

/-- What `_down` passes to `_redial`. -/
def downArgs : RedialArgs :=
  { maxAttempts := upstreamReconnectMaxAttempts, alreadyConnected := true }

/-- What the await of the down task gives it. -/
inductive DownAct (β : Type)
  | start
  /-- `upstream.connect()` returned. -/
  | connected
  /-- `upstream.events()` yielded a message, at a time. -/
  | message (now : Rat) (message : Message β)
  /-- `upstream.events()` came to its end. -/
  | ended
  /-- The awaited abort, forward or sleep returned. -/
  | resumed
  /-- What is awaited raised. -/
  | raises (exc : Exc)

/-- `_run_once` up to its first await: both flags are reset and `pump_down` is entered. -/
def runOnce (r : Relay σ) : Relay σ :=
  { r with voiceActive := false, socialTurnInFlight := false }

/-- The head of the loop of `_redial`: another attempt, or giving up. -/
def redialLoop (args : RedialArgs) (r : Relay σ) (d : Down β) : Relay σ × Down β :=
  if d.attempt < args.maxAttempts then
    let attempt := d.attempt + 1
    if args.alreadyConnected && attempt == 1 then (runOnce r, { pc := .receiving, attempt })
    else (r, { pc := .connecting, attempt })
  else (r, { d with pc := .returned })

/-- The exception clause of `_redial`. -/
def redialExcept (d : Down β) (exc : Exc) : Down β :=
  if exc.retryable then { d with pc := .sleeping (min (2 ^ (d.attempt - 1)) 10) }
  else { d with pc := .raised exc }

/-- One step of the down task. -/
def downStep (args : RedialArgs) (r : Relay σ) (d : Down β) :
    DownAct β → Option (Relay σ × Down β)
  | .start =>
    match d.pc with
    | .created => some (redialLoop args r d)
    | _ => none
  | .connected =>
    match d.pc with
    | .connecting => some (runOnce r, { d with pc := .receiving })
    | _ => none
  | .message now message =>
    match d.pc with
    | .receiving =>
      let (r, aborts) := r.receive now message
      some (r, { d with pc := if aborts then .aborting message else .forwarding message })
    | _ => none
  | .ended =>
    match d.pc with
    -- a clean end of the stream returns from `_redial` without another attempt
    | .receiving => some (r, { d with pc := .returned })
    | _ => none
  | .resumed =>
    match d.pc with
    | .aborting message => some (r.abortSent, { d with pc := .forwarding message })
    | .forwarding _ => some (r, { d with pc := .receiving })
    | .sleeping _ => some (redialLoop args r d)
    | _ => none
  | .raises exc =>
    match d.pc with
    | .connecting | .receiving | .aborting _ | .forwarding _ => some (r, redialExcept d exc)
    -- only a cancellation gets here, and the loop has no clause for it
    | .created | .sleeping _ => some (r, { d with pc := .raised exc })
    | .returned | .raised _ => none

/-- Whether the step begins a connection attempt, that is, enters `_run_once`. -/
def beginsAttempt (args : RedialArgs) (d : Down β) : DownAct β → Bool
  | .connected => true
  | .start | .resumed =>
    match d.pc with
    | .created | .sleeping _ =>
      args.alreadyConnected && d.attempt == 0 && decide (0 < args.maxAttempts)
    | _ => false
  | _ => false

/-- The loop head begins an attempt only where a live connection is handed to the first one. -/
theorem redialLoop_cases (args : RedialArgs) (r : Relay σ) (d : Down β) :
    ((args.alreadyConnected && d.attempt == 0 && decide (0 < args.maxAttempts)) = true ∧
      redialLoop args r d = (runOnce r, { pc := .receiving, attempt := d.attempt + 1 })) ∨
    ((args.alreadyConnected && d.attempt == 0 && decide (0 < args.maxAttempts)) = false ∧
      (redialLoop args r d).1 = r ∧ ∀ m, (redialLoop args r d).2.pc ≠ .aborting m) := by
  unfold redialLoop
  by_cases hlt : d.attempt < args.maxAttempts
  · rw [if_pos hlt]
    have hone : (d.attempt + 1 == 1) = (d.attempt == 0) := by simp
    cases hfirst : args.alreadyConnected && d.attempt == 0 with
    | true =>
      have hpos : 0 < args.maxAttempts := by omega
      exact Or.inl ⟨by simp [hpos], by simp only [hone, hfirst, if_true]⟩
    | false =>
      refine Or.inr ⟨by simp, ?_⟩
      simp [hone, hfirst]
  · rw [if_neg hlt]
    refine Or.inr ⟨?_, rfl, by simp⟩
    by_cases hzero : d.attempt = 0
    · have hmax : args.maxAttempts = 0 := by omega
      simp [hmax]
    · simp [hzero]

theorem redialExcept_not_aborting (d : Down β) (exc : Exc) (m : Message β) :
    (redialExcept d exc).pc ≠ .aborting m := by
  unfold redialExcept
  split <;> simp

/-- **Everything a step of the down task can do to the relay**: begin an attempt, look at a
message, finish a barge-in abort, or nothing. -/
theorem downStep_cases {args : RedialArgs} {r r' : Relay σ} {d d' : Down β} {a : DownAct β}
    (h : downStep args r d a = some (r', d')) :
    (beginsAttempt args d a = true ∧ r' = runOnce r ∧ d'.pc = .receiving) ∨
    (beginsAttempt args d a = false ∧
      ((∃ now m, a = .message now m ∧ r' = (r.receive now m).1 ∧
          d'.pc = if (r.receive now m).2 then .aborting m else .forwarding m) ∨
       (∃ m, a = .resumed ∧ d.pc = .aborting m ∧ r' = r.abortSent ∧ d'.pc = .forwarding m) ∨
       ((∀ now m, a ≠ .message now m) ∧ r' = r ∧ ∀ m, d'.pc ≠ .aborting m))) := by
  have hloop : ∀ b : Bool, b = (args.alreadyConnected && d.attempt == 0 &&
      decide (0 < args.maxAttempts)) → redialLoop args r d = (r', d') →
      (b = true ∧ r' = runOnce r ∧ d'.pc = .receiving) ∨
      (b = false ∧ r' = r ∧ ∀ m, d'.pc ≠ .aborting m) := by
    rintro b rfl he
    rcases redialLoop_cases args r d with ⟨hb, hl⟩ | ⟨hb, hr, hd⟩
    · rw [hl] at he
      cases he
      exact Or.inl ⟨hb, rfl, rfl⟩
    · rw [he] at hr hd
      exact Or.inr ⟨hb, hr, hd⟩
  cases a with
  | start =>
    cases hpc : d.pc with
    | created =>
      simp only [downStep, hpc, Option.some.injEq] at h
      simpa [beginsAttempt, hpc] using hloop _ rfl h
    | _ => simp [downStep, hpc] at h
  | connected =>
    cases hpc : d.pc with
    | connecting =>
      simp only [downStep, hpc, Option.some.injEq, Prod.mk.injEq] at h
      exact Or.inl ⟨rfl, h.1.symm, by rw [← h.2]⟩
    | _ => simp [downStep, hpc] at h
  | message now m =>
    cases hpc : d.pc with
    | receiving =>
      simp only [downStep, hpc, Option.some.injEq, Prod.mk.injEq] at h
      exact Or.inr ⟨rfl, Or.inl ⟨now, m, rfl, h.1.symm, by rw [← h.2]⟩⟩
    | _ => simp [downStep, hpc] at h
  | ended =>
    cases hpc : d.pc with
    | receiving =>
      simp only [downStep, hpc, Option.some.injEq, Prod.mk.injEq] at h
      exact Or.inr ⟨rfl, Or.inr (Or.inr ⟨by simp, h.1.symm, by simp [← h.2]⟩)⟩
    | _ => simp [downStep, hpc] at h
  | resumed =>
    cases hpc : d.pc with
    | aborting m =>
      simp only [downStep, hpc, Option.some.injEq, Prod.mk.injEq] at h
      refine Or.inr ⟨by simp [beginsAttempt, hpc], Or.inr (Or.inl ⟨m, rfl, rfl, h.1.symm, ?_⟩)⟩
      rw [← h.2]
    | forwarding m =>
      simp only [downStep, hpc, Option.some.injEq, Prod.mk.injEq] at h
      refine Or.inr ⟨by simp [beginsAttempt, hpc], Or.inr (Or.inr ⟨by simp, h.1.symm, ?_⟩)⟩
      simp [← h.2]
    | sleeping n =>
      simp only [downStep, hpc, Option.some.injEq] at h
      simpa [beginsAttempt, hpc] using hloop _ rfl h
    | _ => simp [downStep, hpc] at h
  | raises exc =>
    -- no await that raises leaves the task in the abort
    have hr : r' = r ∧ ∀ m, d'.pc ≠ .aborting m := by
      cases hpc : d.pc <;> simp only [downStep, hpc, Option.some.injEq, Prod.mk.injEq,
        reduceCtorEq] at h
      case created | sleeping => exact ⟨h.1.symm, by simp [← h.2]⟩
      all_goals exact ⟨h.1.symm, fun m => h.2 ▸ redialExcept_not_aborting d exc m⟩
    exact Or.inr ⟨rfl, Or.inr (Or.inr ⟨by simp, hr⟩)⟩

/-- The down task leaves the scheduler alone. -/
theorem downStep_scheduler {args : RedialArgs} {r r' : Relay σ} {d d' : Down β} {a : DownAct β}
    (hs : downStep args r d a = some (r', d')) : r'.scheduler = r.scheduler := by
  rcases downStep_cases hs with
    ⟨-, rfl, -⟩ | ⟨-, ⟨now, m, -, rfl, -⟩ | ⟨m, -, -, rfl, -⟩ | ⟨-, rfl, -⟩⟩
  · rfl
  · exact r.receive_scheduler now m
  · rfl
  · rfl

theorem downStep_message {args : RedialArgs} {r r' : Relay σ} {d d' : Down β} {now : Rat}
    {m : Message β} (h : downStep args r d (.message now m) = some (r', d')) :
    d.pc = .receiving ∧ r' = (r.receive now m).1 ∧
      d'.pc = if (r.receive now m).2 then .aborting m else .forwarding m := by
  cases hpc : d.pc with
  | receiving =>
    simp only [downStep, hpc, Option.some.injEq, Prod.mk.injEq] at h
    exact ⟨rfl, h.1.symm, by rw [← h.2]⟩
  | _ => simp [downStep, hpc] at h

/-- On a connection, a resumed await leaves `voiceActive` alone and the task on the connection. -/
theorem downStep_resumed {args : RedialArgs} {r r' : Relay σ} {d d' : Down β}
    (hs : d.pc.streaming = true) (h : downStep args r d .resumed = some (r', d')) :
    (r' = r ∨ r' = r.abortSent) ∧ d'.pc.streaming = true := by
  cases hpc : d.pc <;> rw [hpc] at hs <;>
    simp only [DownPc.streaming, Bool.false_eq_true] at hs <;>
    simp only [downStep, hpc, Option.some.injEq, Prod.mk.injEq, reduceCtorEq] at h
  · exact ⟨Or.inr h.1.symm, by rw [← h.2]; rfl⟩
  · exact ⟨Or.inl h.1.symm, by rw [← h.2]; rfl⟩

end Livehost
