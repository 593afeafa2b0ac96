import Livehost.Api.Down
import Livehost.Connections
import Livehost.Ingest.Tiktok

/-!
# The browser-facing socket

`livehost/api/ws.py`: `livehost_stream`, from the claim to the end of the teardown, with the tasks
it starts. The handler is a machine over its relay, its upstream connection and its ingestor; a
`StreamAct` lets one of its coroutines run from one await to the next.

* the main coroutine stands at a `StreamPc`; the ticket was accepted before the first step
* the tasks are `down` (`Api/Down.lean`), the drain loop, and the two poll loops at a `PollPc`
* a send that has begun is marked dead when the connection under it drops; a dead send only raises

The tasks run while the main coroutine is in its receive loop. The teardown cancels them all before
its first await, and a cancelled task does nothing but end, so their ends are one step,
`tasksEnded`.
-/

namespace Livehost

variable {σ β : Type}

/-- The coroutines that call into an ingestor: the handler's teardown and the control requests. -/
inductive Caller
  | handler
  | request (r : Nat)
  deriving DecidableEq, Repr

/-- `user_id or None`. -/
def ownerOf (userId : String) : Option String := if userId = "" then none else some userId

/-- What the query parameters and the settings give the handler. -/
structure StreamConfig where
  sessionId : String := ""
  userId : String := ""
  batchMinEvents : Int := 1
  batchWaitSeconds : Rat := 0
  idleTopicSeconds : Int := 0
  skipLikeShare : Bool := false
  mentionKeywords : List String := []
  individualThreshold : Int := 3
  batchTopK : Int := 3
  queueMaxSize : Int := 200
  backoffInitial : Rat := 1
  backoffMax : Rat := 60
  offlinePollInterval : Rat := 30

def StreamConfig.scheduler (c : StreamConfig) : EventScheduler σ :=
  .new c.mentionKeywords c.individualThreshold c.batchTopK c.queueMaxSize

def StreamConfig.ingestor (c : StreamConfig) : TikTokLiveIngestor Caller :=
  { backoffInitial := c.backoffInitial
    backoffMax := c.backoffMax
    offlinePollInterval := c.offlinePollInterval }

/-- Where the main coroutine is suspended. -/
inductive StreamPc
  /-- Before the claim. -/
  | fresh
  /-- The claim was refused; the browser is told. -/
  | refused
  /-- In the first `await upstream.connect()`. -/
  | dialing
  /-- That connect failed and the claim is released; the browser is told. -/
  | reporting
  /-- Returned after a failed connect. -/
  | failed
  /-- In `await websocket.receive()`. -/
  | receiving
  /-- In `await relay.pump_up(message)`. -/
  | forwarding (dead : Bool)
  /-- In the teardown, awaiting the cancelled tasks. -/
  | cancelling
  /-- In `await ingestor.stop()`. -/
  | stopping
  /-- In `await upstream.close()`. -/
  | closing
  /-- Returned after the teardown. -/
  | returned
  deriving DecidableEq, Repr

/-- The receive loop has been entered and not been left. -/
def StreamPc.running : StreamPc → Bool
  | .receiving | .forwarding _ => true
  | _ => false

/-- From the `finally` of the receive loop on. -/
def StreamPc.inTeardown : StreamPc → Bool
  | .cancelling | .stopping | .closing | .returned => true
  | _ => false

/-- Where a poll loop is suspended. -/
inductive PollPc
  /-- No task: the idle topic is off, or there are no tasks. -/
  | absent
  /-- In `await asyncio.sleep(...)`. -/
  | sleeping
  /-- In `await upstream.send_text(...)`. -/
  | sending (dead : Bool)
  /-- The exception of the send ended the task. -/
  | raised (exc : Exc)
  deriving DecidableEq, Repr

/-- The connection under a send drops. -/
def PollPc.drop : PollPc → PollPc
  | .sending _ => .sending true
  | pc => pc

def StreamPc.drop : StreamPc → StreamPc
  | .forwarding _ => .forwarding true
  | pc => pc

@[simp] theorem StreamPc.running_drop (pc : StreamPc) : pc.drop.running = pc.running := by
  cases pc <;> rfl

theorem StreamPc.not_inTeardown {pc : StreamPc} (h : pc.running = true) :
    pc.inTeardown = false := by
  cases pc <;> first | rfl | cases h

/-- What `websocket.receive()` returns of a frame. -/
structure Frame where
  bytes : Option (List UInt8) := none
  text : Option String := none

/-- `pump_up` sends something. -/
def Frame.payload (f : Frame) : Bool := f.bytes.isSome || f.text.isSome

structure Stream (σ β : Type) where
  config : StreamConfig := {}
  pc : StreamPc := .fresh
  relay : Relay σ := .new (.new [] 3 3 200) 0
  /-- The connection that `Upstream._ws` points at is up. -/
  live : Bool := false
  down : Down β := {}
  social : PollPc := .absent
  idle : PollPc := .absent
  ingestor : TikTokLiveIngestor Caller := {}
  /-- `websocket.receive()` has returned the disconnect. -/
  browserGone : Bool := false
  /-- The teardown has called `ingestor.stop()`. -/
  stopCalled : Bool := false

inductive StreamAct (β : Type)
  /-- The handler claims its id. -/
  | accept (config : StreamConfig)
  /-- The first `upstream.connect()` returned, or raised. -/
  | dialed (now : Rat)
  | dialFails
  /-- The browser was told of the failed connect. -/
  | reported
  /-- `websocket.receive()` returned a frame, or the disconnect. -/
  | frame (frame : Frame)
  | disconnect
  /-- The send of `pump_up` returned, or raised. -/
  | forwarded
  | forwardRaises
  /-- The cancelled tasks have ended. -/
  | tasksEnded
  /-- `upstream.close()` returned or raised. -/
  | closed
  /-- The upstream connection drops. -/
  | drop
  | down (act : DownAct β)
  /-- The drain loop takes an event; `note` is what the viewer memory said. -/
  | drain (now : Rat) (note : Option String)
  | pollSocial (now : Rat)
  | socialSent
  | socialRaises (exc : Exc)
  | pollIdle (now : Rat)
  | idleSent
  | idleRaises (exc : Exc)
  /-- The ingestor goes on. -/
  | ingest (act : IngestAct Caller)

/-- `_skip_social_event`. -/
def skipSocialEvent (event : SocialEvent) (skipLikeShare : Bool) : Bool :=
  skipLikeShare && (event.kind == .like || event.kind == .share)

namespace Stream

variable (h : Stream σ β)

/-- The `LivehostSession` of handler `i`. -/
def session (i : Nat) : LivehostSession := ⟨i, ownerOf h.config.userId⟩

/-- What the handler is to the registry. -/
def conn : Conn :=
  match h.pc with
  | .fresh => .fresh
  | .refused => .refused
  | .reporting | .failed | .returned => .gone
  | _ => .live h.config.sessionId (ownerOf h.config.userId)

/-- After the first connect: the relay and the tasks. -/
def enterLoop (now : Rat) : Stream σ β :=
  { h with
    pc := .receiving
    relay := .new h.config.scheduler now
    live := true
    down := {}
    social := .sleeping
    idle := if 0 < h.config.idleTopicSeconds then .sleeping else .absent }

/-- The upstream connection drops under every send. -/
def dropped : Stream σ β :=
  { h with live := false, pc := h.pc.drop, social := h.social.drop, idle := h.idle.drop }

/-- What the connection allows the down task: an awaited abort returns only on a live one, and
the stream of events ends or raises `ConnectionClosed` only on a dropped one. -/
def downAllowed : DownAct β → Bool
  | .resumed =>
    match h.down.pc with
    | .aborting _ => h.live
    | _ => true
  | .ended | .raises .connectionClosed => !h.live
  | _ => true

def downStep (act : DownAct β) : Option (Stream σ β) :=
  if h.downAllowed act then
    (Livehost.downStep downArgs h.relay h.down act).map fun (relay, down) =>
      { h with
        relay, down
        live := match act with
          | .connected => true
          | _ => h.live }
  else none

/-- One turn of `_drain_social`. -/
def drainStep [Score σ] [PyLower] (now : Rat) (note : Option String) : Option (Stream σ β) :=
  match h.ingestor.queue with
  | [] => none
  | event :: queue =>
    let event := { event with viewerNote := note }
    let h := { h with ingestor := { h.ingestor with queue } }
    -- a skipped event is remembered, but it is no activity
    if skipSocialEvent event h.config.skipLikeShare then some h
    else some { h with relay := h.relay.arrive now event }

/-- The poll loops after a tick: asleep again, or in the send of what the tick hands over. -/
def afterTick (text : Option String) : PollPc :=
  match text with
  | some _ => .sending (!h.live)
  | none => .sleeping

/-- The tasks' steps. -/
def taskStep [Score σ] [PyLower] : StreamAct β → Option (Stream σ β)
  | .drop => if h.live then some h.dropped else none
  | .down act => h.downStep act
  | .drain now note => h.drainStep now note
  | .pollSocial now =>
    match h.social with
    | .sleeping =>
      let (relay, text) := h.relay.pollSocial now h.config.batchMinEvents h.config.batchWaitSeconds
      some { h with relay, social := h.afterTick text }
    | _ => none
  | .socialSent =>
    match h.social with
    | .sending false => some { h with social := .sleeping }
    | _ => none
  | .socialRaises exc =>
    match h.social with
    | .sending _ => some { h with social := .raised exc }
    | _ => none
  | .pollIdle now =>
    match h.idle with
    | .sleeping =>
      let (relay, text) := h.relay.pollIdle now h.config.idleTopicSeconds
      some { h with relay, idle := h.afterTick text }
    | _ => none
  | .idleSent =>
    match h.idle with
    | .sending false => some { h with idle := .sleeping }
    | _ => none
  | .idleRaises exc =>
    match h.idle with
    | .sending _ => some { h with idle := .raised exc }
    | _ => none
  | _ => none

/-- A step of the ingestor, after which the handler's own `ingestor.stop()` may have returned. -/
def afterStop (result : TikTokLiveIngestor Caller × Option Caller) : Stream σ β :=
  { h with
    ingestor := result.1
    pc := if h.pc = .stopping ∧ result.2 = some .handler then .closing else h.pc }

/-- The request whose call into the ingestor returned. -/
def requestOf : Option Caller → Option Nat
  | some (.request r) => some r
  | _ => none

/-- One step of handler `i`. The last component is the control request whose call into the
ingestor returned. -/
def step [Score σ] [PyLower] (i : Nat) (r : LivehostSessionRegistry) :
    StreamAct β → Option (LivehostSessionRegistry × Stream σ β × Option Nat)
  | .accept config =>
    match h.pc with
    | .fresh =>
      match r.claim config.sessionId ⟨i, ownerOf config.userId⟩ with
      | (true, r) =>
        some (r, { h with config, pc := .dialing, ingestor := config.ingestor }, none)
      | (false, r) => some (r, { h with config, pc := .refused }, none)
    | _ => none
  | .dialed now =>
    match h.pc with
    | .dialing => some (r, h.enterLoop now, none)
    | _ => none
  | .dialFails =>
    match h.pc with
    -- released before the browser is told, and the ingestor is not stopped
    | .dialing =>
      some ((r.release h.config.sessionId (h.session i)).2, { h with pc := .reporting }, none)
    | _ => none
  | .reported =>
    match h.pc with
    | .reporting => some (r, { h with pc := .failed }, none)
    | _ => none
  | .frame frame =>
    match h.pc with
    | .receiving =>
      some (r, { h with pc := if frame.payload then .forwarding (!h.live) else .receiving }, none)
    | _ => none
  | .disconnect =>
    match h.pc with
    | .receiving => some (r, { h with browserGone := true, pc := .cancelling }, none)
    | _ => none
  | .forwarded =>
    match h.pc with
    | .forwarding false => some (r, { h with pc := .receiving }, none)
    | _ => none
  | .forwardRaises =>
    match h.pc with
    -- `except WebSocketDisconnect` does not catch it, and the `finally` is next
    | .forwarding true => some (r, { h with pc := .cancelling }, none)
    | _ => none
  | .tasksEnded =>
    match h.pc with
    | .cancelling =>
      let h := { h with pc := .stopping, stopCalled := true }
      some (r, h.afterStop (h.ingestor.call .handler .stop), none)
    | _ => none
  | .closed =>
    match h.pc with
    | .closing =>
      some ((r.release h.config.sessionId (h.session i)).2, { h with pc := .returned }, none)
    | _ => none
  | .ingest act =>
    match h.pc, act with
    -- the calls are made by `tasksEnded` and by the control requests
    | .fresh, _ | .refused, _ | _, .call _ _ => none
    | _, act => (h.ingestor.step act).map fun result =>
        (r, h.afterStop result, requestOf result.2)
  | act => if h.pc.running then (h.taskStep act).map fun h => (r, h, none) else none

/-! ## What a step does -/

theorem afterStop_inTeardown (result : TikTokLiveIngestor Caller × Option Caller) :
    (h.afterStop result).pc.inTeardown = h.pc.inTeardown := by
  by_cases hstop : h.pc = .stopping ∧ result.2 = some .handler
  · simp [afterStop, hstop, StreamPc.inTeardown]
  · simp [afterStop, hstop]

theorem afterStop_forwarding (result : TikTokLiveIngestor Caller × Option Caller) (dead : Bool) :
    (h.afterStop result).pc = .forwarding dead ↔ h.pc = .forwarding dead := by
  by_cases hstop : h.pc = .stopping ∧ result.2 = some .handler
  · simp [afterStop, hstop]
  · simp [afterStop, hstop]

theorem afterStop_fresh (result : TikTokLiveIngestor Caller × Option Caller) :
    (h.afterStop result).pc = .fresh ↔ h.pc = .fresh := by
  by_cases hstop : h.pc = .stopping ∧ result.2 = some .handler
  · simp [afterStop, hstop]
  · simp [afterStop, hstop]

/-- A step of handler `i`, by the coroutine that takes it. -/
inductive Moves [Score σ] [PyLower] (i : Nat) (r : LivehostSessionRegistry) (h : Stream σ β) :
    StreamAct β → LivehostSessionRegistry → Stream σ β → Option Nat → Prop
  | granted (config : StreamConfig) (hpc : h.pc = .fresh)
      (hclaim : (r.claim config.sessionId ⟨i, ownerOf config.userId⟩).1 = true) :
      Moves i r h (.accept config) (r.register config.sessionId ⟨i, ownerOf config.userId⟩)
        { h with config, pc := .dialing, ingestor := config.ingestor } none
  | refused (config : StreamConfig) (hpc : h.pc = .fresh)
      (hclaim : (r.claim config.sessionId ⟨i, ownerOf config.userId⟩).1 = false) :
      Moves i r h (.accept config) r { h with config, pc := .refused } none
  | dialed (now : Rat) (hpc : h.pc = .dialing) :
      Moves i r h (.dialed now) r (h.enterLoop now) none
  | dialFails (hpc : h.pc = .dialing) :
      Moves i r h .dialFails (r.release h.config.sessionId (h.session i)).2
        { h with pc := .reporting } none
  | reported (hpc : h.pc = .reporting) : Moves i r h .reported r { h with pc := .failed } none
  | frame (frame : Frame) (hpc : h.pc = .receiving) :
      Moves i r h (.frame frame) r
        { h with pc := if frame.payload then .forwarding (!h.live) else .receiving } none
  | disconnect (hpc : h.pc = .receiving) :
      Moves i r h .disconnect r { h with browserGone := true, pc := .cancelling } none
  | forwarded (hpc : h.pc = .forwarding false) :
      Moves i r h .forwarded r { h with pc := .receiving } none
  | forwardRaises (hpc : h.pc = .forwarding true) :
      Moves i r h .forwardRaises r { h with pc := .cancelling } none
  | tasksEnded (hpc : h.pc = .cancelling) :
      Moves i r h .tasksEnded r
        ({ h with pc := .stopping, stopCalled := true }.afterStop
          (h.ingestor.call .handler .stop)) none
  | closed (hpc : h.pc = .closing) :
      Moves i r h .closed (r.release h.config.sessionId (h.session i)).2
        { h with pc := .returned } none
  | ingest (act : IngestAct Caller) (result : TikTokLiveIngestor Caller × Option Caller)
      (hstarted : h.pc ≠ .fresh ∧ h.pc ≠ .refused) (hcall : ∀ caller op, act ≠ .call caller op)
      (hstep : h.ingestor.step act = some result) :
      Moves i r h (.ingest act) r (h.afterStop result) (requestOf result.2)
  | task (act : StreamAct β) (h' : Stream σ β) (hpc : h.pc.running = true)
      (hstep : h.taskStep act = some h') : Moves i r h act r h' none

theorem step_moves [Score σ] [PyLower] {i : Nat} {r r' : LivehostSessionRegistry}
    {h h' : Stream σ β} {act : StreamAct β} {returned : Option Nat}
    (hs : h.step i r act = some (r', h', returned)) : Moves i r h act r' h' returned := by
  cases act with
  | accept config =>
    cases hpc : h.pc <;> simp only [step, hpc, reduceCtorEq] at hs
    rcases r.claim_cases config.sessionId ⟨i, ownerOf config.userId⟩ with ⟨ht, hr⟩ | ⟨hf, hr⟩
    · rw [show r.claim config.sessionId ⟨i, ownerOf config.userId⟩ = (true, _) from
        Prod.ext ht hr] at hs
      cases hs
      exact .granted config hpc ht
    · rw [show r.claim config.sessionId ⟨i, ownerOf config.userId⟩ = (false, _) from
        Prod.ext hf hr] at hs
      cases hs
      exact .refused config hpc hf
  | dialed now =>
    cases hpc : h.pc <;> simp only [step, hpc, reduceCtorEq] at hs
    cases hs
    exact .dialed now hpc
  | dialFails =>
    cases hpc : h.pc <;> simp only [step, hpc, reduceCtorEq] at hs
    cases hs
    exact .dialFails hpc
  | reported =>
    cases hpc : h.pc <;> simp only [step, hpc, reduceCtorEq] at hs
    cases hs
    exact .reported hpc
  | frame frame =>
    cases hpc : h.pc <;> simp only [step, hpc, reduceCtorEq] at hs
    cases hs
    exact .frame frame hpc
  | disconnect =>
    cases hpc : h.pc <;> simp only [step, hpc, reduceCtorEq] at hs
    cases hs
    exact .disconnect hpc
  | forwarded =>
    simp only [step] at hs
    split at hs <;> cases hs
    exact .forwarded ‹_›
  | forwardRaises =>
    simp only [step] at hs
    split at hs <;> cases hs
    exact .forwardRaises ‹_›
  | tasksEnded =>
    cases hpc : h.pc <;> simp only [step, hpc, reduceCtorEq] at hs
    cases hs
    exact .tasksEnded hpc
  | closed =>
    cases hpc : h.pc <;> simp only [step, hpc, reduceCtorEq] at hs
    cases hs
    exact .closed hpc
  | ingest act =>
    simp only [step] at hs
    split at hs <;> try contradiction
    next hcall hfresh hrefused =>
    obtain ⟨result, hstep, he⟩ := Option.map_eq_some_iff.mp hs
    cases he
    exact .ingest _ result ⟨hfresh, hrefused⟩ hcall hstep
  | _ =>
    simp only [step] at hs
    split at hs
    next hrun =>
      obtain ⟨h', hstep, he⟩ := Option.map_eq_some_iff.mp hs
      cases he
      exact .task _ h' hrun hstep
    next => cases hs

theorem downStep_frame {h h' : Stream σ β} {act : DownAct β} (hs : h.downStep act = some h') :
    ∃ relay down live, h' = { h with relay, down, live } ∧ (h.live = true → live = true) := by
  unfold downStep at hs
  split at hs
  next =>
    obtain ⟨⟨relay, down⟩, -, rfl⟩ := Option.map_eq_some_iff.mp hs
    refine ⟨relay, down, _, rfl, fun hl => ?_⟩
    split
    · rfl
    · exact hl
  next => cases hs

theorem drainStep_frame [Score σ] [PyLower] {h h' : Stream σ β} {now : Rat}
    {note : Option String} (hs : h.drainStep now note = some h') :
    ∃ relay queue, h' = { h with relay, ingestor := { h.ingestor with queue } } := by
  unfold drainStep at hs
  split at hs
  next => cases hs
  next event queue _ =>
    dsimp only at hs
    split at hs
    · cases hs; exact ⟨_, queue, rfl⟩
    · cases hs; exact ⟨_, queue, rfl⟩

/-- **What the tasks leave alone**: the handler's place, the ingestor but for its queue, and a
connection that does not drop. -/
theorem taskStep_frame [Score σ] [PyLower] {h h' : Stream σ β} {act : StreamAct β}
    (hs : h.taskStep act = some h') :
    h'.config = h.config ∧ h'.browserGone = h.browserGone ∧ h'.stopCalled = h.stopCalled ∧
      (∃ queue, h'.ingestor = { h.ingestor with queue }) ∧
      (act = .drop ∧ h.live = true ∧ h'.pc = h.pc.drop ∨
        act ≠ .drop ∧ h'.pc = h.pc ∧ (h.live = true → h'.live = true)) := by
  cases act with
  | drop =>
    simp only [taskStep] at hs
    split at hs <;> cases hs
    next hlive => exact ⟨rfl, rfl, rfl, ⟨_, rfl⟩, Or.inl ⟨rfl, hlive, rfl⟩⟩
  | down act =>
    obtain ⟨relay, down, live, rfl, hlive⟩ := downStep_frame hs
    exact ⟨rfl, rfl, rfl, ⟨_, rfl⟩, Or.inr ⟨by simp, rfl, hlive⟩⟩
  | drain now note =>
    obtain ⟨relay, queue, rfl⟩ := drainStep_frame hs
    exact ⟨rfl, rfl, rfl, ⟨_, rfl⟩, Or.inr ⟨by simp, rfl, id⟩⟩
  | pollSocial | socialSent | socialRaises | pollIdle | idleSent | idleRaises =>
    simp only [taskStep] at hs
    split at hs <;> cases hs
    exact ⟨rfl, rfl, rfl, ⟨_, rfl⟩, Or.inr ⟨by simp, rfl, id⟩⟩
  | _ => cases hs

end Stream

end Livehost
