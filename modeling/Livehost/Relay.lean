import Livehost.Orchestrator
import Mathlib.Algebra.Order.Ring.Rat

/-!
# The relay

`livehost/relay.py`: two pumps and an arbiter. Each definition here is the part of a coroutine
between two of its awaits, so the interleavings of the relay's coroutines are the orders in
which these parts run:

* `Relay.receive` — `pump_down` from a message to its next await, which is the abort of a social
  turn (`true`) or the forward to the browser (`false`); `Relay.abortSent` is what follows the
  awaited abort
* `Relay.pollSocial`, `Relay.pollIdle` — the pollers up to the awaited `upstream.send_text`, the
  last thing they do: the text is what they hand over

Times are seconds of one monotonic clock; the caller passes what `time.monotonic()` returned.
-/

namespace Livehost

variable {σ β : Type}

/-- Sent as a "text" turn, the same mechanism `pollSocial` uses for a comment. -/
def idleTopicPrompt : String :=
  "(Không có bình luận hay sự kiện gì mới trong một lúc. Hãy tự nhiên chuyển " ++
  "sang một chủ đề, câu chuyện, hoặc câu hỏi thú vị để giữ không khí live sôi " ++
  "động -- đừng nhắc đến việc không có ai bình luận, cứ nói như một host thật " ++
  "đang tự dẫn dắt buổi live.)"

/-- What `message.get("event")` is compared with. -/
inductive EventName
  | speechStart
  | turnDone
  | aborted
  | other
  deriving DecidableEq, Repr

/-- What `Upstream.events` yields: audio, or a parsed JSON object. `body` is the rest of the
object, which the relay forwards without looking at it. -/
inductive Message (β : Type)
  | bytes (data : List UInt8)
  | json (event : EventName) (body : β)
  deriving DecidableEq

/-- `turn_done` and `aborted`, the events that clear both flags of the relay. -/
def Message.completes : Message β → Bool
  | .json .turnDone _ | .json .aborted _ => true
  | _ => false

/-- The turn boundaries, by which `pump_down` resets the idle clock. -/
def Message.turnBoundary : Message β → Bool
  | .json .speechStart _ | .json .turnDone _ | .json .aborted _ => true
  | _ => false

structure Relay (σ : Type) where
  scheduler : EventScheduler σ
  voiceActive : Bool := false
  socialTurnInFlight : Bool := false
  lastActivity : Rat
  pendingSince : Option Rat := none

namespace Relay

/-- `Relay(upstream, scheduler)` at time `now`. -/
def new (scheduler : EventScheduler σ) (now : Rat) : Relay σ := { scheduler, lastActivity := now }

/-- Start a batch window, unless one is running. -/
def notePending (r : Relay σ) (now : Rat) : Relay σ :=
  match r.pendingSince with
  | none => { r with pendingSince := some now }
  | some _ => r

/-- Reset the idle clock. -/
def noteActivity (r : Relay σ) (now : Rat) : Relay σ := { r with lastActivity := now }

/-- What the drain loop of `ws.py` does with an event that reaches the scheduler. -/
def arrive [Score σ] [PyLower] (r : Relay σ) (now : Rat) (event : SocialEvent) : Relay σ :=
  ({ r with scheduler := r.scheduler.enqueue event }.noteActivity now).notePending now

/-! ## `pump_down` -/

/-- `pump_down` from a message to its next await; `true` where that is `upstream.abort()`. -/
def receive (r : Relay σ) (now : Rat) : Message β → Relay σ × Bool
  | .bytes _ => (r, false)
  | .json .speechStart _ =>
    -- the turn flag stays up until the abort is sent
    let r := { r with voiceActive := true }.noteActivity now
    (r, r.socialTurnInFlight)
  | .json .turnDone _ | .json .aborted _ =>
    ({ r with voiceActive := false, socialTurnInFlight := false }.noteActivity now, false)
  | .json .other _ => (r, false)

/-- `pump_down` after the awaited abort of a barge-in. -/
def abortSent (r : Relay σ) : Relay σ := { r with socialTurnInFlight := false }

theorem notePending_flags (r : Relay σ) (now : Rat) :
    (r.notePending now).voiceActive = r.voiceActive ∧
      (r.notePending now).socialTurnInFlight = r.socialTurnInFlight := by
  unfold notePending
  split <;> exact ⟨rfl, rfl⟩

theorem notePending_scheduler (r : Relay σ) (now : Rat) :
    (r.notePending now).scheduler = r.scheduler := by
  unfold notePending
  split <;> rfl

theorem arrive_flags [Score σ] [PyLower] (r : Relay σ) (now : Rat) (event : SocialEvent) :
    (r.arrive now event).voiceActive = r.voiceActive ∧
      (r.arrive now event).socialTurnInFlight = r.socialTurnInFlight := notePending_flags _ now

theorem arrive_scheduler [Score σ] [PyLower] (r : Relay σ) (now : Rat) (event : SocialEvent) :
    (r.arrive now event).scheduler = r.scheduler.enqueue event := notePending_scheduler _ now

/-- An event that reaches the scheduler resets the idle clock. -/
theorem arrive_lastActivity [Score σ] [PyLower] (r : Relay σ) (now : Rat) (event : SocialEvent) :
    (r.arrive now event).lastActivity = now := by
  unfold arrive notePending
  split <;> rfl

@[simp] theorem receive_pendingSince (r : Relay σ) (now : Rat) (m : Message β) :
    (r.receive now m).1.pendingSince = r.pendingSince := by
  match m with
  | .bytes _ => rfl
  | .json .speechStart _ => rfl
  | .json .turnDone _ => rfl
  | .json .aborted _ => rfl
  | .json .other _ => rfl

/-- An event starts a batch window, unless one is running. -/
theorem arrive_pendingSince [Score σ] [PyLower] (r : Relay σ) (now : Rat) (event : SocialEvent) :
    (r.arrive now event).pendingSince = some (r.pendingSince.getD now) := by
  cases hp : r.pendingSince <;> simp [arrive, notePending, noteActivity, hp]

theorem receive_lastActivity (r : Relay σ) (now : Rat) (m : Message β) :
    (r.receive now m).1.lastActivity = if m.turnBoundary then now else r.lastActivity := by
  match m with
  | .bytes _ => rfl
  | .json .speechStart _ => rfl
  | .json .turnDone _ => rfl
  | .json .aborted _ => rfl
  | .json .other _ => rfl

theorem receive_completes (r : Relay σ) (now : Rat) {m : Message β} (h : m.completes = true) :
    (r.receive now m).1.voiceActive = false ∧
      (r.receive now m).1.socialTurnInFlight = false := by
  match m, h with
  | .json .turnDone _, _ => exact ⟨rfl, rfl⟩
  | .json .aborted _, _ => exact ⟨rfl, rfl⟩

/-- Any other message leaves the turn flag alone and clears nothing. -/
theorem receive_not_completes (r : Relay σ) (now : Rat) {m : Message β}
    (h : m.completes = false) :
    (r.receive now m).1.socialTurnInFlight = r.socialTurnInFlight ∧
      (r.voiceActive = true → (r.receive now m).1.voiceActive = true) := by
  match m, h with
  | .bytes _, _ => exact ⟨rfl, id⟩
  | .json .speechStart _, _ => exact ⟨rfl, fun _ => rfl⟩
  | .json .other _, _ => exact ⟨rfl, id⟩

/-- An abort is awaited only with the streamer talking and a turn in flight. -/
theorem receive_aborts {r : Relay σ} {now : Rat} {m : Message β}
    (h : (r.receive now m).2 = true) :
    (r.receive now m).1.voiceActive = true ∧ r.socialTurnInFlight = true := by
  match m, h with
  | .json .speechStart _, h => exact ⟨rfl, h⟩

@[simp] theorem receive_scheduler (r : Relay σ) (now : Rat) (m : Message β) :
    (r.receive now m).1.scheduler = r.scheduler := by
  match m with
  | .bytes _ => rfl
  | .json .speechStart _ => rfl
  | .json .turnDone _ => rfl
  | .json .aborted _ => rfl
  | .json .other _ => rfl

/-! ## The pollers -/

/-- `enough_events or waited_enough`, the batch gate. -/
def batchReady (r : Relay σ) (now : Rat) (batchMinEvents : Int) (batchWaitSeconds : Rat) : Bool :=
  let enoughEvents := decide (batchMinEvents ≤ r.scheduler.pendingCount)
  -- a wait of zero is no constraint, and so does not open the gate
  let waitedEnough := decide (0 < batchWaitSeconds) &&
    match r.pendingSince with
    | none => true
    | some since => decide (batchWaitSeconds ≤ now - since)
  enoughEvents || waitedEnough

def pollSocial (r : Relay σ) (now : Rat) (batchMinEvents : Int) (batchWaitSeconds : Rat) :
    Relay σ × Option String :=
  if r.socialTurnInFlight then (r, none)
  else if !r.scheduler.hasPending then (r, none)
  else if r.voiceActive then (r, none)
  else if !r.batchReady now batchMinEvents batchWaitSeconds then (r, none)
  else
    match pollSocialTurn r.scheduler r.voiceActive with
    | (none, scheduler) => ({ r with scheduler }, none)
    | (some (_, formatted), scheduler) =>
      ({ r with scheduler, socialTurnInFlight := true, pendingSince := none }.noteActivity now,
        some formatted)

def pollIdle (r : Relay σ) (now idleSeconds : Rat) : Relay σ × Option String :=
  if r.voiceActive || r.socialTurnInFlight then (r, none)
  else if now - r.lastActivity < idleSeconds then (r, none)
  else ({ r with socialTurnInFlight := true }.noteActivity now, some idleTopicPrompt)

/-! ## What the pollers do -/

/-- The relay after a social turn was handed over, `scheduler` being what `nextTurn` left. -/
def socialSent (r : Relay σ) (now : Rat) (scheduler : EventScheduler σ) : Relay σ :=
  { r with scheduler, socialTurnInFlight := true, pendingSince := none, lastActivity := now }

/-- The relay after an idle prompt was handed over. -/
def idleSent (r : Relay σ) (now : Rat) : Relay σ :=
  { r with socialTurnInFlight := true, lastActivity := now }

/-- **`poll_social` does nothing, or hands over one turn** with both flags clear. -/
theorem pollSocial_cases (r : Relay σ) (now : Rat) (batchMinEvents : Int)
    (batchWaitSeconds : Rat) :
    r.pollSocial now batchMinEvents batchWaitSeconds = (r, none) ∨
    ∃ turn scheduler, r.socialTurnInFlight = false ∧ r.voiceActive = false ∧
      r.batchReady now batchMinEvents batchWaitSeconds = true ∧
      r.scheduler.nextTurn = (some turn, scheduler) ∧
      r.pollSocial now batchMinEvents batchWaitSeconds
        = (r.socialSent now scheduler, some (formatSocialTurn turn)) := by
  unfold pollSocial
  split
  · exact Or.inl rfl
  next hflight =>
  split
  · exact Or.inl rfl
  next hpending =>
  split
  · exact Or.inl rfl
  next hvoice =>
  split
  · exact Or.inl rfl
  next hready =>
  simp only [Bool.not_eq_true, Bool.not_eq_false'] at hflight hpending hvoice hready
  obtain ⟨turn, scheduler, hn, hp⟩ := pollSocialTurn_pending hpending
  refine Or.inr ⟨turn, scheduler, hflight, hvoice, hready, hn, ?_⟩
  simp [hvoice, hp, socialSent, noteActivity]

/-- With both flags clear, something pending and the batch gate open, `poll_social` sends. -/
theorem pollSocial_sends {r : Relay σ} {now : Rat} {batchMinEvents : Int} {batchWaitSeconds : Rat}
    (hflight : r.socialTurnInFlight = false) (hvoice : r.voiceActive = false)
    (hpending : r.scheduler.hasPending = true)
    (hready : r.batchReady now batchMinEvents batchWaitSeconds = true) :
    ∃ turn scheduler, r.scheduler.nextTurn = (some turn, scheduler) ∧
      r.pollSocial now batchMinEvents batchWaitSeconds
        = (r.socialSent now scheduler, some (formatSocialTurn turn)) := by
  obtain ⟨turn, scheduler, hn, hp⟩ := pollSocialTurn_pending hpending
  refine ⟨turn, scheduler, hn, ?_⟩
  simp [pollSocial, hflight, hvoice, hpending, hready, hp, socialSent, noteActivity]

/-- **`poll_idle` does nothing, or hands over the idle prompt** with both flags clear. -/
theorem pollIdle_cases (r : Relay σ) (now idleSeconds : Rat) :
    r.pollIdle now idleSeconds = (r, none) ∨
    (r.socialTurnInFlight = false ∧ r.voiceActive = false ∧ idleSeconds ≤ now - r.lastActivity ∧
      r.pollIdle now idleSeconds = (r.idleSent now, some idleTopicPrompt)) := by
  unfold pollIdle
  split
  · exact Or.inl rfl
  next hflags =>
  split
  · exact Or.inl rfl
  next hidle =>
  simp only [Bool.or_eq_true, not_or, Bool.not_eq_true] at hflags
  exact Or.inr ⟨hflags.2, hflags.1, not_lt.mp hidle, rfl⟩

end Relay

end Livehost
