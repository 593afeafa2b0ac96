import Livehost.Api.Ws
import Livehost.Gateway
import Livehost.Properties.Turns

/-!
# One relay, its coroutines

The down task, the pollers and the drain loop of a relay are one machine, `turnsStep`. The tasks of
a handler are that machine with an upstream connection and an ingestor around it, and the two
parties are that machine with a gateway at the other end. Both simulate it, and what it shows is
what they show.

* `handler_turns_alternate` — the plugin turns of a handler do not overlap
* `handler_scheduler_calls` — its scheduler is a fresh one after `enqueue` and `next_turn` calls
* `party_turns_alternate` — nor do those handed to a gateway
-/

namespace Livehost

open Infra

variable {σ β : Type}

/-! ## The tasks of a handler -/

/-- A handler as the coroutines of its relay. -/
def Stream.turns (h : Stream σ β) : TurnsState σ β := { relay := h.relay, down := h.down }

section

variable [Score σ] [PyLower]

/-- What a step of the tasks shows. -/
def Stream.taskObs (h : Stream σ β) : StreamAct β → List TurnsObs
  | .down act => downObs downArgs h.down act
  | .pollSocial now =>
    handedOver h.relay
      (h.relay.pollSocial now h.config.batchMinEvents h.config.batchWaitSeconds).2
  | .pollIdle now => handedOver h.relay (h.relay.pollIdle now h.config.idleTopicSeconds).2
  | _ => []

/-- **The tasks simulate the coroutines of the relay.** -/
theorem taskStep_simulates {h h' : Stream σ β} {act : StreamAct β}
    (hs : h.taskStep act = some h') :
    h'.turns = h.turns ∧ h.taskObs act = [] ∨
      ∃ b, turnsStep downArgs h.turns b = some h'.turns ∧
        turnsObs downArgs h.turns b = h.taskObs act := by
  cases act with
  | drop =>
    left
    simp only [Stream.taskStep] at hs
    split at hs <;> cases hs
    exact ⟨rfl, rfl⟩
  | down act =>
    right
    refine ⟨.down act, ?_, rfl⟩
    simp only [Stream.taskStep, Stream.downStep] at hs
    split at hs
    next =>
      obtain ⟨⟨relay, down⟩, hdown, rfl⟩ := Option.map_eq_some_iff.mp hs
      show (downStep downArgs h.relay h.down act).map _ = _
      rw [hdown]
      rfl
    next => cases hs
  | drain now note =>
    simp only [Stream.taskStep, Stream.drainStep] at hs
    split at hs
    next => cases hs
    next event queue _ =>
      split at hs <;> cases hs
      · exact Or.inl ⟨rfl, rfl⟩
      · exact Or.inr ⟨.arrive now { event with viewerNote := note }, rfl, rfl⟩
  | pollSocial now =>
    right
    refine ⟨.pollSocial now h.config.batchMinEvents h.config.batchWaitSeconds, ?_, rfl⟩
    simp only [Stream.taskStep] at hs
    split at hs <;> cases hs
    rfl
  | pollIdle now =>
    right
    refine ⟨.pollIdle now h.config.idleTopicSeconds, ?_, rfl⟩
    simp only [Stream.taskStep] at hs
    split at hs <;> cases hs
    rfl
  | socialSent | socialRaises | idleSent | idleRaises =>
    left
    simp only [Stream.taskStep] at hs
    split at hs <;> cases hs
    exact ⟨rfl, rfl⟩
  | _ => cases hs

/-- **The plugin turns of a handler do not overlap**, from its first connect on: between two there
is a completion or a connection attempt, and none is handed over while the streamer talks. -/
theorem handler_turns_alternate (h : Stream σ β) (now : Rat) (acts : List (StreamAct β)) :
    let seen := trace (fun h a => Stream.taskStep h a) Stream.taskObs (h.enterLoop now) acts
    Alternates TurnsObs.isTurn TurnsObs.isMark seen ∧ ∀ v, .turn v ∈ seen → v = false := by
  intro seen
  obtain ⟨bs, hbs⟩ := trace_simulation (f := Stream.turns)
    (fun _ _ _ hs => taskStep_simulates hs) (h.enterLoop now) acts
  have hseen := turns_alternate (s := (h.enterLoop now).turns) downArgs
    (by simp [Stream.turns, Stream.enterLoop]) bs
  rw [hbs] at hseen
  exact hseen

/-! ## The scheduler behind the relay -/

/-- The coroutines use the scheduler through its two calls. -/
theorem turnsStep_scheduler {args : RedialArgs} {s s' : TurnsState σ β} {a : TurnsAct β}
    (hs : turnsStep args s a = some s') :
    s'.relay.scheduler = s.relay.scheduler ∨
      ∃ c, s'.relay.scheduler = s.relay.scheduler.call c := by
  cases a with
  | down a =>
    left
    simp only [turnsStep, Option.map_eq_some_iff] at hs
    obtain ⟨⟨relay, down⟩, hdown, rfl⟩ := hs
    exact downStep_scheduler hdown
  | pollSocial now least wait =>
    cases hs
    rcases s.relay.pollSocial_cases now least wait with hp | ⟨turn, scheduler, -, -, -, hn, hp⟩
    · exact Or.inl (congrArg (·.1.scheduler) hp)
    · refine Or.inr ⟨.nextTurn, (congrArg (·.1.scheduler) hp).trans ?_⟩
      exact (congrArg Prod.snd hn).symm
  | pollIdle now idle =>
    cases hs
    rcases s.relay.pollIdle_cases now idle with hp | ⟨-, -, -, hp⟩
    · exact Or.inl (congrArg (·.1.scheduler) hp)
    · exact Or.inl (congrArg (·.1.scheduler) hp)
  | arrive now event =>
    cases hs
    exact Or.inr ⟨.enqueue event, s.relay.arrive_scheduler now event⟩

/-- **A handler's scheduler is a fresh one after a sequence of calls**, so whatever holds of every
such sequence holds of it. -/
theorem handler_scheduler_calls {h t : Stream σ β} {now : Rat} {acts : List (StreamAct β)}
    (hr : run (fun h a => Stream.taskStep h a) (h.enterLoop now) acts = some t) :
    ∃ cs, t.relay.scheduler = (h.config.scheduler : EventScheduler σ).calls cs := by
  obtain ⟨bs, hbs⟩ := run_simulation (f := Stream.turns)
    (fun _ _ _ hs => (taskStep_simulates hs).imp And.left fun ⟨b, hb, _⟩ => ⟨b, hb⟩) hr
  refine run_inv (I := fun s : TurnsState σ β =>
    ∃ cs, s.relay.scheduler = (h.config.scheduler : EventScheduler σ).calls cs) ?_ ⟨[], rfl⟩ hbs
  rintro s a s' ⟨cs, hcs⟩ hs
  rcases turnsStep_scheduler hs with he | ⟨c, he⟩
  · exact ⟨cs, he.trans hcs⟩
  · exact ⟨cs ++ [c], by rw [he, hcs, EventScheduler.calls_concat]⟩

/-! ## The relay's side of the two parties -/

/-- The relay's side as the coroutines of its relay. -/
def TwoParty.turns (s : TwoParty σ) : TurnsState σ Turn := { relay := s.relay, down := s.pump }

/-- What a step of the relay's side shows. -/
def partyObs (s : TwoParty σ) : PartyAct → List TurnsObs
  | .pump now =>
    match s.downlink with
    | [] => []
    | message :: _ => downObs downArgs s.pump (.message now message)
  | .resume => downObs downArgs s.pump .resumed
  | .pollSocial now least wait => handedOver s.relay (s.relay.pollSocial now least wait).2
  | .pollIdle now idle => handedOver s.relay (s.relay.pollIdle now idle).2
  | _ => []

/-- **The two parties simulate the coroutines of the relay**, the gateway's steps being none. -/
theorem partyStep_simulates {s s' : TwoParty σ} {a : PartyAct} (hs : partyStep s a = some s') :
    s'.turns = s.turns ∧ partyObs s a = [] ∨
      ∃ b, turnsStep downArgs s.turns b = some s'.turns ∧
        turnsObs downArgs s.turns b = partyObs s a := by
  cases a with
  | pump now =>
    right
    cases hd : s.downlink with
    | nil => simp [partyStep, hd] at hs
    | cons message rest =>
      refine ⟨.down (.message now message), ?_, by simp only [partyObs, hd]; rfl⟩
      simp only [partyStep, hd, Option.map_eq_some_iff] at hs
      obtain ⟨⟨relay, pump⟩, hdown, rfl⟩ := hs
      show (downStep downArgs s.relay s.pump (.message now message)).map _ = _
      rw [hdown]
      rfl
  | resume =>
    right
    refine ⟨.down .resumed, ?_, rfl⟩
    simp only [partyStep, Option.map_eq_some_iff] at hs
    obtain ⟨⟨relay, pump⟩, hdown, rfl⟩ := hs
    show (downStep downArgs s.relay s.pump .resumed).map _ = _
    rw [hdown]
    rfl
  | pollSocial now least wait =>
    cases hs
    exact Or.inr ⟨.pollSocial now least wait, rfl, rfl⟩
  | pollIdle now idle =>
    cases hs
    exact Or.inr ⟨.pollIdle now idle, rfl, rfl⟩
  | arrive now event =>
    cases hs
    exact Or.inr ⟨.arrive now event, rfl, rfl⟩
  | begin | finish | take | complete | abandon | chatter =>
    simp only [partyStep] at hs
    obtain ⟨hr, hp, -⟩ := gatewayStep_frame hs
    exact Or.inl ⟨by rw [TwoParty.turns, hr, hp, TwoParty.turns], rfl⟩

/-- **The plugin turns handed to a gateway do not overlap.** -/
theorem party_turns_alternate (scheduler : EventScheduler σ) (t₀ : Rat) (acts : List PartyAct) :
    let seen := trace partyStep partyObs (.start scheduler t₀) acts
    Alternates TurnsObs.isTurn TurnsObs.isMark seen ∧ ∀ v, .turn v ∈ seen → v = false := by
  intro seen
  obtain ⟨bs, hbs⟩ := trace_simulation (f := TwoParty.turns)
    (fun _ _ _ hs => partyStep_simulates hs) (.start scheduler t₀) acts
  have hseen := turns_alternate (s := (TwoParty.start scheduler t₀).turns) downArgs
    (by simp [TwoParty.turns, TwoParty.start]) bs
  rw [hbs] at hseen
  exact hseen

end

end Livehost
