import Livehost.Properties.CallsReturn
import Livehost.Properties.OneConnection

/-!
# What the control routes report

A route answers with `ingestor.state`, which `start`, `stop` and the task write each at its own time
and which nobody computes. What it says is true of the task and its client all the same, unless a
`start` or `stop` holds the lock: the task it cancelled may be over by then, and the state is still
the one the task wrote last.

* `StateTrue` — the state against the place of the task
* `stateTrue_step` — every step of an ingestor keeps it
* `reports_true` — every answer of a route, in every run of the server
-/

namespace Livehost

open Infra

namespace TikTokLiveIngestor

variable {κ : Type} {s s' : TikTokLiveIngestor κ} {task : RunTask}

/-- The newest client is of the room, and such. -/
def Newest (s : TikTokLiveIngestor κ) (p : LiveClient → Prop) : Prop :=
  ∃ old c, s.clients = old ++ [c] ∧ c.uniqueId = s.uniqueId ∧ p c

/-- What the state is while the task stands at its place. -/
def StateAt (s : TikTokLiveIngestor κ) (task : RunTask) : Prop :=
  match task.pc with
  | .created => s.state = .connecting
  | .connecting =>
    s.state = (if task.backoff = s.backoffInitial then .connecting else .reconnecting) ∧
      s.Newest fun c => c.connected = false ∧ c.closed = false
  | .offlineSleep => s.state = .offlineWaiting
  | .backoffSleep => s.state = .error ∨ s.state = .reconnecting
  | .draining _ => s.state = .live ∧ s.Newest fun c => c.connected = true ∧ c.closed = false
  | .closing .. => s.state = .live ∧ s.Newest fun c => c.connected = true ∧ c.closed = true
  | .done => s.state ≠ .idle

/-- **The invariant**: the state is that of the task's place, and only a task that somebody with the
lock waits for is about to end. -/
structure StateTrue (s : TikTokLiveIngestor κ) : Prop where
  noTask : s.task = none → s.state = .idle
  place : ∀ task, s.task = some task → s.StateAt task
  current : ∀ task, s.task = some task → task.generation = s.generation
  held : ∀ task, s.task = some task → s.stopRequested = true ∨ task.ending = true →
    s.lock.holder.isSome = true

/-- The `CancelledError` that arrives is that of `cancel()`, and `events()` returns. -/
def OwnCancel (s : TikTokLiveIngestor κ) : RunAct → Prop
  | .begin factory | .slept factory | .closed factory => factory ≠ .cancelled
  | .connected events => events = true
  | .cancelled => ∀ task, s.task = some task → task.cancelled = true
  | _ => True

theorem StateTrue.of_task (htask : s.task = some task) (hplace : s.StateAt task)
    (hcurrent : task.generation = s.generation)
    (hheld : s.stopRequested = true ∨ task.ending = true → s.lock.holder.isSome = true) :
    s.StateTrue := by
  refine ⟨fun hnone => ?_, fun task' he => ?_, fun task' he => ?_, fun task' he => ?_⟩
  · rw [htask] at hnone
    cases hnone
  all_goals
    rw [htask] at he
    cases he
    assumption

theorem StateTrue.of_none (htask : s.task = none) (hidle : s.state = .idle) : s.StateTrue := by
  refine ⟨fun _ => hidle, fun task he => ?_, fun task he => ?_, fun task he => ?_⟩
  all_goals
    rw [htask] at he
    cases he

/-- Where there is a task, the state is not idle. -/
theorem StateAt.ne_idle (h : s.StateAt task) : s.state ≠ .idle := by
  intro hidle
  unfold StateAt at h
  cases hpc : task.pc <;> rw [hpc] at h <;> simp only [hidle] at h
  case connecting => split at h <;> simp at h
  all_goals simp at h

/-! ## `start` and `stop` -/

theorem stateTrue_finish (s : TikTokLiveIngestor κ) (op : LockOp) : (s.finish op).StateTrue := by
  cases op with
  | start uniqueId =>
    refine .of_task rfl rfl rfl fun h => ?_
    rcases h with h | h <;> cases h
  | stop => exact .of_none rfl rfl

/-- With the lock, a call finishes or waits for the task it cancelled. -/
theorem stateTrue_enter {lock : FifoLock (κ × LockOp)} {caller : κ} {op : LockOp}
    {returned : Option κ} (hi : s.StateTrue) (hheld : lock.holder.isSome = true)
    (hs : { s with lock }.enter caller op = (s', returned)) : s'.StateTrue := by
  rcases enter_cases { s with lock } caller op with ⟨task, htask, -, he⟩ | ⟨-, he⟩
  · rw [he] at hs
    cases hs
    exact .of_task rfl (hi.place task htask) (hi.current task htask) fun _ => hheld
  · rw [he] at hs
    cases hs
    exact stateTrue_finish _ op

/-! ## The task -/

/-- A task that goes on is not about to end. -/
theorem not_ending (task : RunTask) {pc : RunPc} (hcancelled : task.cancelled = false)
    (hdone : pc ≠ .done) (hunwinding : ∀ stale received, pc ≠ .closing stale received true) :
    ({ task with pc } : RunTask).ending = false := by
  cases pc with
  | done => exact absurd rfl hdone
  | closing stale received unwinding =>
    cases unwinding with
    | true => exact absurd rfl (hunwinding stale received)
    | false => exact hcancelled
  | _ => exact hcancelled

/-- The task goes on, in a state that is that of its place. -/
theorem StateTrue.goesOn (task : RunTask) {pc : RunPc} {backoff : Rat}
    (htask : s'.task = some { task with pc, backoff })
    (hplace : s'.StateAt { task with pc, backoff }) (hcurrent : task.generation = s'.generation)
    (hcancelled : task.cancelled = false) (hdone : pc ≠ .done)
    (hunwinding : ∀ stale received, pc ≠ .closing stale received true)
    (hheld : s'.stopRequested = true → s'.lock.holder.isSome = true) : s'.StateTrue := by
  refine .of_task htask hplace hcurrent fun h => ?_
  rcases h with hstop | hending
  · exact hheld hstop
  · rw [show ({ task with pc, backoff } : RunTask).ending = false from
      not_ending { task with backoff } hcancelled hdone hunwinding] at hending
    cases hending

theorem stateTrue_loopHead (task : RunTask) {factory : FactoryOutcome}
    (hne : s.state ≠ .idle) (hcurrent : task.generation = s.generation)
    (hheld : s.stopRequested = true → s.lock.holder.isSome = true)
    (hcancelled : task.cancelled = false) (hfactory : factory ≠ .cancelled) :
    (s.loopHead task factory).StateTrue := by
  unfold loopHead
  split
  next =>
    cases factory with
    | returns =>
      have hnewest : ∃ old c,
          s.clients ++ [({ uniqueId := s.uniqueId } : LiveClient)] = old ++ [c] ∧
            c.uniqueId = s.uniqueId ∧ c.connected = false ∧ c.closed = false :=
        ⟨s.clients, _, rfl, rfl, rfl, rfl⟩
      exact .goesOn task rfl ⟨rfl, hnewest⟩ hcurrent hcancelled (by simp) (by simp) hheld
    | roomOffline =>
      exact .goesOn task rfl rfl hcurrent hcancelled (by simp) (by simp) hheld
    | fails =>
      exact .goesOn task rfl (Or.inl rfl) hcurrent hcancelled (by simp) (by simp) hheld
    | cancelled => exact absurd rfl hfactory
  next hstop =>
    -- the generation is the task's, so a `stop` was requested
    have hstopped : s.stopRequested = true := by
      simpa [hcurrent] using hstop
    exact .of_task rfl hne hcurrent fun _ => hheld hstopped

theorem stateTrue_drained {stale receivedEvent : Bool} {factory : FactoryOutcome}
    (hne : s.state ≠ .idle) (hcurrent : task.generation = s.generation)
    (hheld : s.stopRequested = true → s.lock.holder.isSome = true)
    (hcancelled : task.cancelled = false) (hfactory : factory ≠ .cancelled) :
    (s.drained task stale receivedEvent factory).StateTrue := by
  -- an event resets the backoff, which the rest does not look at
  have hrest : ∀ backoff : Rat, ({ task with backoff } : RunTask).generation = s.generation →
      StateTrue (if s.stopRequested || task.generation != s.generation then
          { s with task := some { task with backoff, pc := .done } }
        else if stale then s.loopHead { task with backoff } factory
        else
          { s with
            state := .reconnecting, task := some { task with backoff, pc := .backoffSleep } }) := by
    intro backoff _
    split
    next hstop =>
      have hstopped : s.stopRequested = true := by simpa [hcurrent] using hstop
      exact .of_task rfl hne hcurrent fun _ => hheld hstopped
    split
    · exact stateTrue_loopHead { task with backoff } hne hcurrent hheld hcancelled
        hfactory
    · exact .goesOn task rfl (Or.inr rfl) hcurrent hcancelled (by simp) (by simp) hheld
  unfold drained
  cases receivedEvent with
  | true => exact hrest s.backoffInitial hcurrent
  | false => exact hrest task.backoff hcurrent

/-- Leaving `_drain` closes the client it drained. -/
theorem Newest.close (h : s.Newest fun c => c.connected = true ∧ c.closed = false) (task : RunTask)
    (stale received unwinding : Bool) :
    (s.leaveDrain task stale received unwinding).Newest fun c =>
      c.connected = true ∧ c.closed = true := by
  obtain ⟨old, c, hclients, hroom, hconnected, -⟩ := h
  refine ⟨old, { c with closed := true }, ?_, hroom, hconnected, rfl⟩
  show s.clients.modifyLast _ = _
  rw [hclients, List.modifyLast_concat]

theorem stateTrue_leaveDrain {stale received unwinding : Bool} (hi : s.StateTrue)
    (htask : s.task = some task) {receivedEvent : Bool} (hpc : task.pc = .draining receivedEvent)
    (hunwinding : unwinding = true → s.lock.holder.isSome = true) :
    (s.leaveDrain task stale received unwinding).StateTrue := by
  have hplace := hi.place task htask
  unfold StateAt at hplace
  rw [hpc] at hplace
  refine .of_task rfl ⟨hplace.1, hplace.2.close task stale received unwinding⟩
    (hi.current task htask) fun h => ?_
  rcases h with hstop | hending
  · exact hi.held task htask (Or.inl hstop)
  · cases unwinding with
    | true => exact hunwinding rfl
    | false => cases hending

/-- The `CancelledError` of a `start` or `stop` arrives. -/
theorem stateTrue_cancelArrives (hi : s.StateTrue) (htask : s.task = some task)
    (hcancelled : task.cancelled = true) : (s.cancelArrives task).StateTrue := by
  have hending : task.ending = true := by
    unfold RunTask.ending
    split <;> first | rfl | exact hcancelled
  have hheld : s.lock.holder.isSome = true := hi.held task htask (Or.inr hending)
  unfold cancelArrives
  split
  next receivedEvent hpc => exact stateTrue_leaveDrain hi htask hpc fun _ => hheld
  next => exact .of_task rfl (hi.place task htask).ne_idle (hi.current task htask) fun _ => hheld

theorem stateTrue_runStep {act : RunAct} (hi : s.StateTrue) (htask : s.task = some task)
    (hcancelled : task.cancelled = false) (hown : s.OwnCancel act)
    (hs : s.runStep task act = some s') : s'.StateTrue := by
  have hne : s.state ≠ .idle := (hi.place task htask).ne_idle
  have hcurrent : task.generation = s.generation := hi.current task htask
  have hheld : s.stopRequested = true → s.lock.holder.isSome = true := fun h =>
    hi.held task htask (Or.inl h)
  have hplace := hi.place task htask
  unfold StateAt at hplace
  cases act <;> simp only [runStep] at hs
  case cancelled => cases hs
  case begin factory =>
    split at hs <;> cases hs
    exact stateTrue_loopHead task hne hcurrent hheld hcancelled hown
  case connected events =>
    split at hs <;> cases hs
    next hpc =>
      rw [hpc] at hplace
      obtain ⟨-, old, c, hclients, hroom, -, hclosed⟩ := hplace
      have hevents : events = true := hown
      subst hevents
      have hnew : ({ s with
          clients := s.clients.modifyLast fun c => { c with connected := true } } :
            TikTokLiveIngestor κ).Newest fun c => c.connected = true ∧ c.closed = false := by
        refine ⟨old, { c with connected := true }, ?_, hroom, rfl, hclosed⟩
        show s.clients.modifyLast _ = _
        rw [hclients, List.modifyLast_concat]
      exact .goesOn task rfl ⟨rfl, hnew⟩ hcurrent hcancelled (by simp) (by simp) hheld
  case offline =>
    split at hs <;> cases hs
    exact .goesOn task rfl rfl hcurrent hcancelled (by simp) (by simp) hheld
  case connectFails =>
    split at hs <;> cases hs
    exact .goesOn task rfl (Or.inl rfl) hcurrent hcancelled (by simp) (by simp) hheld
  case slept factory =>
    split at hs <;> cases hs
    · exact stateTrue_loopHead task hne hcurrent hheld hcancelled hown
    · let doubled : RunTask := { task with backoff := min (task.backoff * 2) s.backoffMax }
      exact stateTrue_loopHead doubled hne hcurrent hheld hcancelled hown
  case event event =>
    split at hs <;> cases hs
    next receivedEvent hpc =>
      rw [hpc] at hplace
      exact .goesOn task rfl hplace hcurrent hcancelled (by simp) (by simp) hheld
  case timeout | streamEnds =>
    split at hs <;> cases hs
    next receivedEvent hpc =>
      exact stateTrue_leaveDrain hi htask hpc fun h => by cases h
  case closed factory =>
    split at hs <;> cases hs
    next stale received hpc =>
      refine .of_task rfl hne hcurrent fun _ => hi.held task htask (Or.inr ?_)
      rw [RunTask.ending, hpc]
    next stale received hpc => exact stateTrue_drained hne hcurrent hheld hcancelled hown

/-- **Every step of an ingestor keeps it.** -/
theorem stateTrue_step {a : IngestAct κ} {returned : Option κ} (hi : s.StateTrue)
    (hown : ∀ act, a = .run act → s.OwnCancel act) (hs : s.step a = some (s', returned)) :
    s'.StateTrue := by
  cases a with
  | call caller op =>
    have hs : s.call caller op = (s', returned) := Option.some.inj hs
    rcases call_cases s caller op with ⟨-, hcall⟩ | hcall
    · exact stateTrue_enter hi rfl (hcall ▸ hs)
    · rw [hcall] at hs
      cases hs
      exact ⟨hi.noTask, hi.place, hi.current, hi.held⟩
  | wake =>
    simp only [step] at hs
    split at hs
    next caller op lock hwake =>
      obtain ⟨-, hheld, -⟩ := FifoLock.wake_some hwake
      exact stateTrue_enter hi (by rw [hheld]; rfl) (Option.some.inj hs)
    next => cases hs
  | awaited =>
    simp only [step] at hs
    split at hs
    next caller op task hheld htask =>
      split at hs <;> cases hs
      exact stateTrue_finish s op
    next => cases hs
  | run act =>
    obtain ⟨-, task, htask, -⟩ := run_cases hs
    obtain ⟨-, ⟨rfl, rfl⟩ | ⟨hcancelled, hrun⟩⟩ := run_uncancelled htask hs
    · exact stateTrue_cancelArrives hi htask (hown _ rfl task htask)
    · exact stateTrue_runStep hi htask hcancelled (hown _ rfl) hrun

/-! ## What a call leaves -/

/-- The ingestor as a call `op` leaves it. -/
def After (s s' : TikTokLiveIngestor κ) (op : LockOp) : Prop :=
  ∃ stopRequested lock, s' = { s with stopRequested, lock }.finish op

theorem call_after {caller c : κ} {op : LockOp} (hs : s.call caller op = (s', some c)) :
    c = caller ∧ s.After s' op := by
  rcases call_cases s caller op with ⟨-, hcall⟩ | hcall
  · rcases enter_step (hcall.symm.trans hs) with ⟨_, hr, -⟩ | ⟨stop, hr, -, he⟩
    · cases hr
    · cases hr
      exact ⟨rfl, stop, _, he⟩
  · rw [hcall] at hs
    cases hs

/-- A call that returns behind its caller's wait is in the line. -/
theorem waited_after {a : IngestAct κ} {caller : κ} (ha : ∀ c op, a ≠ .call c op)
    (hs : s.step a = some (s', some caller)) :
    ∃ op, (caller, op) ∈ s.lock.line ∧ s.After s' op := by
  cases a with
  | call c op => exact absurd rfl (ha c op)
  | wake =>
    simp only [step] at hs
    split at hs
    next c op lock hwake =>
      rcases enter_step (Option.some.inj hs) with ⟨_, hr, -⟩ | ⟨stop, hr, -, he⟩
      · cases hr
      · cases hr
        refine ⟨op, ?_, stop, _, he⟩
        rw [← FifoLock.line_wake hwake]
        obtain ⟨-, hheld, -⟩ := FifoLock.wake_some hwake
        simp [FifoLock.line, hheld]
    next => cases hs
  | awaited =>
    simp only [step] at hs
    split at hs
    next c op task hheld htask =>
      split at hs <;> cases hs
      exact ⟨op, by simp [FifoLock.line, hheld], s.stopRequested, s.lock, rfl⟩
    next => cases hs
  | run act => exact absurd (run_cases hs).1 (by simp)

end TikTokLiveIngestor

/-! ## In the server -/

variable {σ β : Type} {s s' : Server σ β}

/-- The session that the request acts on in the step: it has looked it up before, or does now. -/
def Server.LookedUp (s : Server σ β) (a : ServerAct β) (r : Nat) (kind : ControlKind)
    (e : LivehostSession) : Prop :=
  s.requests r = .calling kind e ∨ (∃ id, s.requests r = .introspecting kind id (some e)) ∨
    ∃ id, a = .request r kind id none ∧ s.registry.get id = some e

/-- What a route says of the session. -/
def ControlKind.Says (kind : ControlKind) (h : Stream σ β) (response : Response) : Prop :=
  match kind with
  | .connect uniqueId =>
    response = .connected .connecting uniqueId ∧ h.ingestor.uniqueId = some uniqueId ∧
      ∃ task, h.ingestor.task = some task ∧ task.pc = .created
  | .disconnect => response = .disconnected .idle ∧ h.ingestor.task = none
  | .status =>
    response = .status h.ingestor.state h.ingestor.uniqueId h.relay.scheduler.pendingCount ∧
      h.ingestor.StateTrue

/-- The steps of the ingestors' tasks are undisturbed. -/
def OwnCancels (s : Server σ β) (a : ServerAct β) : Prop :=
  ∀ i act, a = .stream i (.ingest (.run act)) → (s.streams i).ingestor.OwnCancel act

/-- A step that is none of an ingestor's task. -/
theorem OwnCancels.of_ne {a : ServerAct β} (ha : ∀ i act, a ≠ .stream i (.ingest (.run act))) :
    OwnCancels s a := fun i act he => absurd he (ha i act)

theorem Server.requests_withRequest (s : Server σ β) (q r : Nat) (request : Request) :
    (s.withRequest q request).requests r = if r = q then request else s.requests r :=
  Function.update_apply ..

/-- A request is answered by the end of its call, with what its route says then. -/
theorem Server.respond_answer {q r : Nat} {response : Response}
    (hr : (s.respond q).requests r = .returned response)
    (hnew : s.requests r ≠ .returned response) :
    r = q ∧ ∃ kind e, s.requests r = .calling kind e ∧
      response = kind.response ((s.respond q).streams e.ref) := by
  unfold respond at hr ⊢
  split at hr
  next kind e hcalling =>
    rw [requests_withRequest] at hr
    split at hr
    next hrq => exact ⟨hrq, kind, e, hrq ▸ hcalling, (Request.returned.inj hr).symm⟩
    next => exact absurd hr hnew
  next => exact absurd hr hnew

/-- The route's call on the ingestor, where it returns at once. -/
theorem Server.callIngestor_answer {r : Nat} {kind : ControlKind} {e : LivehostSession}
    {op : LockOp} {response : Response} (hs : s' = s.callIngestor r kind e op)
    (hr : s'.requests r = .returned response) :
    response = kind.response (s'.streams e.ref) ∧
      (s.streams e.ref).ingestor.After (s'.streams e.ref).ingestor op := by
  have hstreams : s'.streams = Function.update s.streams e.ref { s.streams e.ref with
      ingestor := ((s.streams e.ref).ingestor.call (.request r) op).1 } :=
    hs ▸ (s.callIngestor_frame r kind e op).2.2
  have hing : (s'.streams e.ref).ingestor =
      ((s.streams e.ref).ingestor.call (.request r) op).1 := by
    rw [hstreams, Function.update_self]
  cases hret : ((s.streams e.ref).ingestor.call (.request r) op).2 with
  | none =>
    rw [hs] at hr
    simp [callIngestor, hret, withRequest, withStream] at hr
  | some caller =>
    refine ⟨?_, ?_⟩
    · rw [hs] at hr ⊢
      simp only [callIngestor, hret] at hr ⊢
      simpa [respond, withRequest, withStream] using hr.symm
    · rw [hing]
      exact (TikTokLiveIngestor.call_after (Prod.ext rfl hret)).2

/-- No other request is answered. -/
theorem Server.authorize_other {q r : Nat} (hrq : r ≠ q) (kind : ControlKind) (sessionId : String)
    (session : Option LivehostSession) (scope : Option String) :
    (s.authorize q kind sessionId session scope).requests r = s.requests r := by
  have hanswer : ∀ answer, (s.withRequest q answer).requests r = s.requests r := fun answer => by
    rw [requests_withRequest, if_neg hrq]
  cases session with
  | none => exact hanswer _
  | some e =>
    by_cases howner : e.userId = scope
    · simp only [authorize, howner, if_true]
      cases kind.op with
      | none => exact hanswer _
      | some op =>
        obtain ⟨response, hrequests⟩ := s.callIngestor_requests q kind e op
        rw [hrequests, Function.update_of_ne hrq]
    · simp only [authorize, howner, if_false]
      exact hanswer _

/-- Behind the lookup: not found, or the answer is read off the session after the call. -/
theorem Server.authorize_answer {r : Nat} {kind : ControlKind} {sessionId : String}
    {session : Option LivehostSession} {scope : Option String} {response : Response}
    (hs : s' = s.authorize r kind sessionId session scope)
    (hr : s'.requests r = .returned response) :
    (∃ detail, response = .notFound detail) ∨
      ∃ e, session = some e ∧ response = kind.response (s'.streams e.ref) ∧
        ∀ op, kind.op = some op →
          (s.streams e.ref).ingestor.After (s'.streams e.ref).ingestor op := by
  have hupdate : ∀ answer, s' = s.withRequest r (.returned answer) → response = answer := by
    rintro answer rfl
    simpa [withRequest] using hr.symm
  cases session with
  | none => exact Or.inl ⟨_, hupdate _ hs⟩
  | some e =>
    by_cases howner : e.userId = scope
    · simp only [authorize, howner, if_true] at hs
      cases hop : kind.op with
      | none =>
        rw [hop] at hs
        refine Or.inr ⟨e, rfl, ?_, fun op he => by cases he⟩
        rw [hupdate _ hs, hs]
        rfl
      | some op =>
        rw [hop] at hs
        obtain ⟨hresponse, hreturned⟩ := callIngestor_answer hs hr
        refine Or.inr ⟨e, rfl, hresponse, fun op' he => ?_⟩
        cases he
        exact hreturned
    · simp only [authorize, howner, if_false] at hs
      exact Or.inl ⟨_, hupdate _ hs⟩

section

variable [Score σ] [PyLower]

/-- In a handler's step: the request whose call on its ingestor returned. -/
theorem stream_answer {i r : Nat} {act : StreamAct β} {response : Response}
    (hs : serverStep s (.stream i act) = some s') (hr : s'.requests r = .returned response)
    (hnew : s.requests r ≠ .returned response) :
    ∃ kind e a, s.requests r = .calling kind e ∧ response = kind.response (s'.streams e.ref) ∧
      (∀ c op, a ≠ .call c op) ∧
      (s.streams i).ingestor.step a = some ((s'.streams i).ingestor, some (.request r)) := by
  obtain ⟨⟨registry, h, returned⟩, hmove, rfl⟩ := Option.map_eq_some_iff.mp hs
  cases returned with
  | none => exact absurd hr hnew
  | some q =>
    -- only a step of the ingestor returns a call
    obtain ⟨a, hcall, hingest⟩ : ∃ a, (∀ c op, a ≠ .call c op) ∧
        (s.streams i).ingestor.step a = some (h.ingestor, some (.request q)) := by
      generalize hq : some q = returned at hmove
      cases Stream.step_moves hmove with
      | ingest a result hstarted hcall hstep =>
        obtain ⟨ingestor, caller⟩ := result
        refine ⟨a, hcall, ?_⟩
        cases caller with
        | none => cases hq
        | some caller =>
          cases caller <;> cases hq
          exact hstep
      | _ => cases hq
    obtain ⟨rfl, kind, e, hcalling, hresponse⟩ := Server.respond_answer
      (s := Server.withStream { s with
        registry, history := entries i (s.streams i) h ++ s.history } i h) hr hnew
    refine ⟨kind, e, a, hcalling, hresponse, hcall, ?_⟩
    have hself : ((s.afterStream i registry h (some r)).streams i).ingestor = h.ingestor := by
      simp [Server.afterStream, Server.respond_frame, Server.withStream]
    rw [hself]
    exact hingest

/-- **An answer** is that nothing was found, or what the route says of the session it looked up,
behind its call on the ingestor. -/
theorem Attended.answer {a : ServerAct β} (hi : Attended s) (hs : serverStep s a = some s')
    {r : Nat} {response : Response} (hr : s'.requests r = .returned response)
    (hnew : s.requests r ≠ .returned response) :
    (∃ detail, response = .notFound detail) ∨
      ∃ kind e, s.LookedUp a r kind e ∧ response = kind.response (s'.streams e.ref) ∧
        ∀ op, kind.op = some op →
          (s.streams e.ref).ingestor.After (s'.streams e.ref).ingestor op := by
  cases a with
  | stream i act =>
    right
    obtain ⟨kind, e, a, hcalling, hresponse, hcall, hstep⟩ := stream_answer hs hr hnew
    refine ⟨kind, e, Or.inl hcalling, hresponse, fun op hop => ?_⟩
    -- the call that returns is in the line, so the request awaits it
    obtain ⟨op', hline, hafter⟩ := TikTokLiveIngestor.waited_after hcall hstep
    obtain ⟨kind', e', hcalling', href, hop'⟩ := (hi.line i _ _).mp hline
    rw [hcalling] at hcalling'
    cases hcalling'
    rw [hop] at hop'
    cases hop'
    subst href
    exact hafter
  | request q kind sessionId ticket =>
    cases hq : s.requests q <;> simp only [serverStep, hq, reduceCtorEq] at hs
    cases ticket with
    | some ticket =>
      cases hs
      rw [Server.requests_withRequest] at hr
      split at hr
      · cases hr
      · exact absurd hr hnew
    | none =>
      have hs := (Option.some.inj hs).symm
      by_cases hrq : r = q
      · subst hrq
        rcases Server.authorize_answer hs hr with hdetail | ⟨e, hget, hresponse, hcall⟩
        · exact Or.inl hdetail
        · exact Or.inr ⟨kind, e, Or.inr (Or.inr ⟨sessionId, rfl, hget⟩), hresponse, hcall⟩
      · rw [hs, Server.authorize_other hrq] at hr
        exact absurd hr hnew
  | introspected q userId =>
    cases hq : s.requests q <;> simp only [serverStep, hq, reduceCtorEq] at hs
    next kind sessionId session =>
      have hs := (Option.some.inj hs).symm
      by_cases hrq : r = q
      · subst hrq
        rcases Server.authorize_answer hs hr with hdetail | ⟨e, rfl, hresponse, hcall⟩
        · exact Or.inl hdetail
        · exact Or.inr ⟨kind, e, Or.inr (Or.inl ⟨sessionId, hq⟩), hresponse, hcall⟩
      · rw [hs, Server.authorize_other hrq] at hr
        exact absurd hr hnew

/-- **Every step of the server keeps the states true.** -/
theorem stateTrue_serverStep {a : ServerAct β} (hi : ∀ i, (s.streams i).ingestor.StateTrue)
    (hown : OwnCancels s a) (hs : serverStep s a = some s') :
    ∀ i, (s'.streams i).ingestor.StateTrue := by
  refine streams_inv (I := fun _ h => h.ingestor.StateTrue) hi (fun r i op hop => ?_)
    (fun i act registry h returned ha hm => ?_) hs
  · exact TikTokLiveIngestor.stateTrue_step (a := .call (.request r) op) (hi i) (by simp) rfl
  · cases hm with
    | granted config => exact .of_none rfl rfl
    | tasksEnded hpc =>
      exact TikTokLiveIngestor.stateTrue_step (a := .call .handler .stop) (hi i) (by simp) rfl
    | ingest act result hstarted hcall hstep =>
      exact TikTokLiveIngestor.stateTrue_step (hi i) (fun run he => hown i run (he ▸ ha)) hstep
    | task act h hpc hstep =>
      obtain ⟨-, -, -, ⟨queue, hingestor⟩, -⟩ := Stream.taskStep_frame hstep
      rw [hingestor]
      exact ⟨(hi i).noTask, (hi i).place, (hi i).current, (hi i).held⟩
    | _ => exact hi i

/--
**What the control routes report is true.** In every run of the server in which the tasks of the
ingestors are cancelled by `start` and `stop` only and no `events()` raises: whenever a request is
answered, it is told that nothing was found, or about the session it has looked up. A connect says
`connecting` and its room, and the new task is not run yet; a disconnect says `idle`, and there is
no task; and the state in a status is that of the place the task stands at, of which only a task
that a `start` or `stop` waits for with the lock is over.
-/
theorem reports_true {acts : List (ServerAct β)} {a : ServerAct β}
    (h : run serverStep .start acts = some s)
    (hown : Along serverStep OwnCancels (.start : Server σ β) (acts ++ [a]))
    (hs : serverStep s a = some s') {r : Nat} {response : Response}
    (hr : s'.requests r = .returned response) (hnew : s.requests r ≠ .returned response) :
    (∃ detail, response = .notFound detail) ∨
      ∃ kind e, s.LookedUp a r kind e ∧ kind.Says (s'.streams e.ref) response := by
  obtain ⟨hbefore, hstep⟩ := along_append.mp hown
  have hattended : Attended s := run_inv (fun _ _ _ hi hs => attended_step hi hs) attended_start h
  have htrue : ∀ i, (s.streams i).ingestor.StateTrue :=
    run_inv_along (I := fun s : Server σ β => ∀ i, (s.streams i).ingestor.StateTrue)
      (fun _ _ _ hi hown hs => stateTrue_serverStep hi hown hs) (fun _ => .of_none rfl rfl)
      hbefore h
  have htrue' : ∀ i, (s'.streams i).ingestor.StateTrue :=
    stateTrue_serverStep htrue (hstep s h).1 hs
  refine (hattended.answer hs hr hnew).imp_right ?_
  rintro ⟨kind, e, hlooked, rfl, hcall⟩
  refine ⟨kind, e, hlooked, ?_⟩
  cases kind with
  | connect uniqueId =>
    obtain ⟨stop, lock, hafter⟩ := hcall _ rfl
    show Response.connected _ _ = _ ∧ _
    rw [hafter]
    exact ⟨rfl, rfl, _, rfl, rfl⟩
  | disconnect =>
    obtain ⟨stop, lock, hafter⟩ := hcall _ rfl
    show Response.disconnected _ = _ ∧ _
    rw [hafter]
    exact ⟨rfl, rfl⟩
  | status => exact ⟨rfl, htrue' e.ref⟩

end

/-- A connect, and the client it leads to. -/
def connectsLive : List (ServerAct Unit) :=
  [ .stream 0 (.accept { sessionId := "room" }), .stream 0 (.dialed 0),
    .request 0 (.connect "host") "room" none, .stream 0 (.ingest (.run (.begin .returns))),
    .stream 0 (.ingest (.run (.connected true))) ]

/-- **A status says `live` of the client that connected.** -/
theorem connectsLive_true : ∃ (_ : PyLower) (s s' : Server Int Unit) (kind : ControlKind)
    (e : LivehostSession), run serverStep .start connectsLive = some s ∧
      serverStep s (.request 1 .status "room" none) = some s' ∧
      s.LookedUp (.request 1 .status "room" none) 1 kind e ∧
      kind.Says (s'.streams e.ref) (.status .live (some "host") 0) := by
  let lower : PyLower := ⟨id⟩
  have hrun : run serverStep (.start : Server Int Unit) connectsLive = some _ := rfl
  have hown : Along serverStep OwnCancels (.start : Server Int Unit)
      (connectsLive ++ [.request 1 .status "room" none]) := by
    have hbegin : ∀ s : Server Int Unit,
        OwnCancels s (.stream 0 (.ingest (.run (.begin .returns)))) := fun s i act he => by
      cases he
      exact (by simp : FactoryOutcome.returns ≠ .cancelled)
    have hconnected : ∀ s : Server Int Unit,
        OwnCancels s (.stream 0 (.ingest (.run (.connected true)))) := fun s i act he => by
      cases he
      rfl
    refine along_cons rfl (.of_ne (by simp)) (along_cons rfl (.of_ne (by simp)) ?_)
    refine along_cons rfl (.of_ne (by simp)) (along_cons rfl (hbegin _) ?_)
    exact along_cons rfl (hconnected _) (along_cons rfl (.of_ne (by simp)) trivial)
  rcases reports_true hrun hown (r := 1) rfl rfl (fun hreturned => by cases hreturned) with
    ⟨detail, hdetail⟩ | ⟨kind, e, hlooked, hsays⟩
  · cases hdetail
  · exact ⟨lower, _, _, kind, e, hrun, rfl, hlooked, hsays⟩

end Livehost
