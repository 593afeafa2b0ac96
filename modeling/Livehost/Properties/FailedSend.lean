import Livehost.Api.Ws
import Livehost.Infra.Machine

/-!
# A send that fails

Both pollers dequeue and raise the flag before they await `upstream.send_text`, and the poll loops
have no handler of their own. So a send that raises loses the turn, leaves the flag up until the
down task clears it, and ends the loop for the rest of the session.

* `failed_send_never_intact` — no failed tick leaves the social path intact
* `failed_social_tick` — what a failed `poll_social` tick leaves behind
* `raised_stays_silent` — nothing is spoken after it
-/

namespace Livehost

open Infra

variable {σ β : Type}

/-! ## Failed ticks -/

/-- The steps that are not the social poll loop's own. -/
def StreamAct.besideSocial : StreamAct β → Bool
  | .pollSocial _ | .socialSent | .socialRaises _ => false
  | _ => true

/-- The steps that are not the idle poll loop's own. -/
def StreamAct.besideIdle : StreamAct β → Bool
  | .pollIdle _ | .idleSent | .idleRaises _ => false
  | _ => true

/-- A poll loop that goes on. -/
def PollPc.polling : PollPc → Bool
  | .sleeping | .sending _ => true
  | _ => false

/-- **The law.** The pending events, the flag and the batch window are as before the tick, and a
loop that was running still is. -/
structure Intact (h h' : Stream σ β) : Prop where
  queue : h'.relay.scheduler.queue = h.relay.scheduler.queue
  inFlight : h'.relay.socialTurnInFlight = h.relay.socialTurnInFlight
  pendingSince : h'.relay.pendingSince = h.relay.pendingSince
  social : h.social.polling = true → h'.social.polling = true
  idle : h.idle.polling = true → h'.idle.polling = true

section

variable [Score σ] [PyLower]

/-- A tick that hands over a turn, any steps of the other tasks, and the exception of the send. -/
inductive FailedTick (h : Stream σ β) : Stream σ β → Prop
  | social (now : Rat) (others : List (StreamAct β)) (exc : Exc) (h₁ h₂ h' : Stream σ β)
      (htick : h.taskStep (.pollSocial now) = some h₁) (hsends : h₁.social ≠ .sleeping)
      (hothers : ∀ a ∈ others, a.besideSocial = true)
      (hrun : run (fun h a => Stream.taskStep h a) h₁ others = some h₂)
      (hraises : h₂.taskStep (.socialRaises exc) = some h') : FailedTick h h'
  | idle (now : Rat) (others : List (StreamAct β)) (exc : Exc) (h₁ h₂ h' : Stream σ β)
      (htick : h.taskStep (.pollIdle now) = some h₁) (hsends : h₁.idle ≠ .sleeping)
      (hothers : ∀ a ∈ others, a.besideIdle = true)
      (hrun : run (fun h a => Stream.taskStep h a) h₁ others = some h₂)
      (hraises : h₂.taskStep (.idleRaises exc) = some h') : FailedTick h h'

/-! ## Ticks and raises -/

/-- A tick of the social loop hands nothing over and sleeps again, or is in the send of a turn. -/
theorem pollSocial_tick {h h₁ : Stream σ β} {now : Rat}
    (htick : h.taskStep (.pollSocial now) = some h₁) :
    h.social = .sleeping ∧
      (h₁.social = .sleeping ∨
        ∃ turn scheduler, h.relay.socialTurnInFlight = false ∧
          h.relay.scheduler.nextTurn = (some turn, scheduler) ∧
          h₁ = { h with
            relay := h.relay.socialSent now scheduler, social := .sending (!h.live) }) := by
  simp only [Stream.taskStep] at htick
  split at htick
  next hsleep =>
    refine ⟨hsleep, ?_⟩
    rcases h.relay.pollSocial_cases now h.config.batchMinEvents h.config.batchWaitSeconds with
      hp | ⟨turn, scheduler, hflight, -, -, hnext, hp⟩
    · rw [hp] at htick
      cases htick
      exact Or.inl rfl
    · rw [hp] at htick
      cases htick
      exact Or.inr ⟨turn, scheduler, hflight, hnext, rfl⟩
  next => cases htick

/-- A tick of the idle loop hands nothing over and sleeps again, or is in the send of the prompt. -/
theorem pollIdle_tick {h h₁ : Stream σ β} {now : Rat}
    (htick : h.taskStep (.pollIdle now) = some h₁) :
    h.idle = .sleeping ∧
      (h₁.idle = .sleeping ∨
        h.relay.socialTurnInFlight = false ∧
          h₁ = { h with relay := h.relay.idleSent now, idle := .sending (!h.live) }) := by
  simp only [Stream.taskStep] at htick
  split at htick
  next hsleep =>
    refine ⟨hsleep, ?_⟩
    rcases h.relay.pollIdle_cases now h.config.idleTopicSeconds with hp | ⟨hflight, -, -, hp⟩
    · rw [hp] at htick
      cases htick
      exact Or.inl rfl
    · rw [hp] at htick
      cases htick
      exact Or.inr ⟨hflight, rfl⟩
  next => cases htick

theorem socialRaises_ends {h h' : Stream σ β} {exc : Exc}
    (hraises : h.taskStep (.socialRaises exc) = some h') :
    h' = { h with social := .raised exc } := by
  simp only [Stream.taskStep] at hraises
  split at hraises <;> cases hraises
  rfl

theorem idleRaises_ends {h h' : Stream σ β} {exc : Exc}
    (hraises : h.taskStep (.idleRaises exc) = some h') :
    h' = { h with idle := .raised exc } := by
  simp only [Stream.taskStep] at hraises
  split at hraises <;> cases hraises
  rfl

/-! ## No failed tick is survived -/

/-- **No failed tick leaves the social path intact**, whatever else happens while it awaits the
send: its loop has ended. -/
theorem failed_send_never_intact {h h' : Stream σ β} (hf : FailedTick h h') : ¬ Intact h h' := by
  intro hi
  cases hf with
  | social now others exc h₁ h₂ _ htick _ _ _ hraises =>
    have hloop := hi.social (by rw [(pollSocial_tick htick).1]; rfl)
    rw [socialRaises_ends hraises] at hloop
    cases hloop
  | idle now others exc h₁ h₂ _ htick _ _ _ hraises =>
    have hloop := hi.idle (by rw [(pollIdle_tick htick).1]; rfl)
    rw [idleRaises_ends hraises] at hloop
    cases hloop

/-! ## What a failed tick leaves behind -/

/-- **A failed `poll_social` tick** takes events off the queue that nobody will hear, and leaves the
flag up with no turn in flight. -/
theorem failed_social_tick {h h₁ h' : Stream σ β} {now : Rat} {exc : Exc}
    (htick : h.taskStep (.pollSocial now) = some h₁) (hsends : h₁.social ≠ .sleeping)
    (hraises : h₁.taskStep (.socialRaises exc) = some h') :
    h'.relay.scheduler.queue.length < h.relay.scheduler.queue.length ∧
      h.relay.socialTurnInFlight = false ∧ h'.relay.socialTurnInFlight = true ∧
      h'.relay.pendingSince = none ∧ h'.social = .raised exc := by
  obtain ⟨-, hsleep | ⟨turn, scheduler, hflight, hnext, rfl⟩⟩ := pollSocial_tick htick
  · exact absurd hsleep hsends
  · rw [socialRaises_ends hraises]
    exact ⟨EventScheduler.nextTurn_shortens hnext, hflight, rfl, rfl, rfl⟩

/-- **A failed `poll_idle` tick** leaves the flag up with no turn in flight. -/
theorem failed_idle_tick {h h₁ h' : Stream σ β} {now : Rat} {exc : Exc}
    (htick : h.taskStep (.pollIdle now) = some h₁) (hsends : h₁.idle ≠ .sleeping)
    (hraises : h₁.taskStep (.idleRaises exc) = some h') :
    h'.relay.scheduler = h.relay.scheduler ∧
      h.relay.socialTurnInFlight = false ∧ h'.relay.socialTurnInFlight = true ∧
      h'.idle = .raised exc := by
  obtain ⟨-, hsleep | ⟨hflight, rfl⟩⟩ := pollIdle_tick htick
  · exact absurd hsleep hsends
  · rw [idleRaises_ends hraises]
    exact ⟨rfl, hflight, rfl, rfl⟩

/-- A social loop that has ended stays ended. -/
theorem raised_step {h h' : Stream σ β} {act : StreamAct β} {exc : Exc}
    (hdead : h.social = .raised exc) (hs : h.taskStep act = some h') :
    h'.social = .raised exc := by
  cases act with
  | drop =>
    simp only [Stream.taskStep] at hs
    split at hs <;> cases hs
    simp [Stream.dropped, hdead, PollPc.drop]
  | down act =>
    obtain ⟨relay, down, live, rfl, -⟩ := Stream.downStep_frame hs
    exact hdead
  | drain now note =>
    obtain ⟨relay, queue, rfl⟩ := Stream.drainStep_frame hs
    exact hdead
  | pollSocial | socialSent | socialRaises => simp [Stream.taskStep, hdead] at hs
  | pollIdle | idleSent | idleRaises =>
    simp only [Stream.taskStep] at hs
    split at hs <;> cases hs
    exact hdead
  | _ => cases hs

/-- **Nothing social is spoken after a failed send**: the loop stays dead through every step of the
tasks, redials included. -/
theorem raised_stays_silent {h t : Stream σ β} {exc : Exc} {acts : List (StreamAct β)}
    (hdead : h.social = .raised exc)
    (hrun : run (fun h a => Stream.taskStep h a) h acts = some t) (now : Rat) :
    t.taskStep (.pollSocial now) = none := by
  have hsocial : t.social = .raised exc :=
    run_inv (I := fun h => h.social = .raised exc) (fun _ _ _ hi hs => raised_step hi hs) hdead hrun
  simp only [Stream.taskStep, hsocial]

end

/-! ## A drop, and then a tick -/

/-- A comment is pending with a quiet streamer when the upstream connection drops. -/
def droppedRoom [PyLower] : Stream Int Unit :=
  let h := ({} : Stream Int Unit).enterLoop 0
  let comment : SocialEvent :=
    { kind := .comment, userId := "a", userName := "A", text := some "hi" }
  { h with relay := h.relay.arrive 0 comment }.dropped

theorem droppedRoom_failedTick [PyLower] : ∃ h', FailedTick droppedRoom h' ∧
    h'.relay.socialTurnInFlight = true ∧ droppedRoom.relay.socialTurnInFlight = false :=
  ⟨_, .social 0 [] .connectionClosed _ _ _ rfl (fun h => by cases h) (by simp) rfl rfl, rfl, rfl⟩

/-- The tick after a drop is a failed tick, and it is not survived. -/
theorem dropped_tick_not_intact : ∃ (_ : PyLower) (h' : Stream Int Unit),
    FailedTick droppedRoom h' ∧ ¬ Intact droppedRoom h' := by
  let lower : PyLower := ⟨id⟩
  obtain ⟨h', htick, -⟩ := droppedRoom_failedTick
  exact ⟨lower, h', htick, failed_send_never_intact htick⟩

/-- **A tick after a drop leaves the flag up.** -/
theorem dropped_tick_breaks : ¬ ∀ (_ : PyLower) (h h' : Stream Int Unit),
    FailedTick h h' → Intact h h' := by
  intro hall
  let lower : PyLower := ⟨id⟩
  obtain ⟨h', htick, hup, hdown⟩ := droppedRoom_failedTick
  have hflag := (hall lower droppedRoom h' htick).inFlight
  rw [hup, hdown] at hflag
  cases hflag

end Livehost
