import Livehost.Api.Ws
import Livehost.Properties.Turns
import Mathlib.Order.Interval.Set.Defs

/-!
# The relay under a clock

The coroutines of a relay read one monotonic clock. `clockStep` is `turnsStep` with that clock in
the state: a step that reads it reads a time that is not before the last one. The pollers and the
drain loop get the settings `livehost_stream` was opened with, and an event that the drain loop
skips goes no further.

The idle clock is reset by six different operations. What they have in common is
`lastActivity_step`: a step that is activity sets the clock of the relay, and no other step does.

* `clockStep_turns` — a clocked run is a run of the coroutines
* `idle_topic_after_silence` — the idle prompt is sent after `idleSeconds` without activity
-/

namespace Livehost

open Infra

variable {σ β : Type}

/-! ## The machine -/

/-- What the coroutines of a relay are started with. -/
structure ClockArgs where
  redial : RedialArgs
  batchMinEvents : Int
  batchWaitSeconds : Rat
  idleSeconds : Rat
  skipLikeShare : Bool

structure ClockState (σ β : Type) where
  turns : TurnsState σ β
  /-- What `time.monotonic()` returned last. -/
  clock : Rat
  /-- When the entries of the scheduler were enqueued, by their `seq`. -/
  arrivals : List Rat := []

/-- A relay made at `t₀` over `scheduler`, its coroutines not run yet. -/
def ClockState.start (scheduler : EventScheduler σ) (t₀ : Rat) : ClockState σ β :=
  { turns := { relay := Relay.new scheduler t₀ }, clock := t₀ }

inductive ClockAct (β : Type)
  | down (a : DownAct β)
  /-- The drain loop takes an event, with its note filled in. -/
  | drain (now : Rat) (event : SocialEvent)
  | pollSocial (now : Rat)
  | pollIdle (now : Rat)

/-- What the step reads of the clock. -/
def ClockAct.time : ClockAct β → Option Rat
  | .down (.message now _) => some now
  | .down _ => none
  | .drain now _ | .pollSocial now | .pollIdle now => some now

/-- What the step does to the relay; `none` for an event that the drain loop skips. -/
def ClockAct.turn (args : ClockArgs) : ClockAct β → Option (TurnsAct β)
  | .down a => some (.down a)
  | .drain now event =>
    if skipSocialEvent event args.skipLikeShare then none else some (.arrive now event)
  | .pollSocial now => some (.pollSocial now args.batchMinEvents args.batchWaitSeconds)
  | .pollIdle now => some (.pollIdle now args.idleSeconds)

/-- When the step puts an event into the scheduler. -/
def arrivalTime : TurnsAct β → List Rat
  | .arrive now _ => [now]
  | _ => []

def clockStep [Score σ] [PyLower] (args : ClockArgs) (s : ClockState σ β) (a : ClockAct β) :
    Option (ClockState σ β) :=
  let clock := a.time.getD s.clock
  if s.clock ≤ clock then
    match a.turn args with
    | none => some { s with clock }
    | some b =>
      (turnsStep args.redial s.turns b).map fun turns =>
        { turns, clock, arrivals := s.arrivals ++ arrivalTime b }
  else none

variable {args : ClockArgs} {s s' : ClockState σ β} {a : ClockAct β}

section

variable [Score σ] [PyLower]

/-- A step reads a time that is not before the last one, and is a step of the coroutines unless it
skips an event. -/
theorem clockStep_cases (hs : clockStep args s a = some s') :
    s.clock ≤ a.time.getD s.clock ∧ s'.clock = a.time.getD s.clock ∧
      ((a.turn args = none ∧ s'.turns = s.turns ∧ s'.arrivals = s.arrivals) ∨
        ∃ b, a.turn args = some b ∧ turnsStep args.redial s.turns b = some s'.turns ∧
          s'.arrivals = s.arrivals ++ arrivalTime b) := by
  unfold clockStep at hs
  dsimp only at hs
  split at hs
  next hle =>
    cases hb : a.turn args with
    | none =>
      rw [hb] at hs
      cases hs
      exact ⟨hle, rfl, Or.inl ⟨rfl, rfl, rfl⟩⟩
    | some b =>
      rw [hb] at hs
      obtain ⟨turns, ht, rfl⟩ := Option.map_eq_some_iff.mp hs
      exact ⟨hle, rfl, Or.inr ⟨b, rfl, ht, rfl⟩⟩
  next => cases hs

/-- What the drain loop does with an event that it does not skip. -/
theorem clockStep_drain {now : Rat} {event : SocialEvent}
    (hs : clockStep args s (.drain now event) = some s')
    (hskip : skipSocialEvent event args.skipLikeShare = false) :
    s'.clock = now ∧ s'.arrivals = s.arrivals ++ [now] ∧
      s'.turns.relay = s.turns.relay.arrive now event := by
  have hturn : (ClockAct.drain now event : ClockAct β).turn args = some (.arrive now event) := by
    simp [ClockAct.turn, hskip]
  obtain ⟨-, hclock, ⟨hb, -⟩ | ⟨b, hb, hstep, harr⟩⟩ := clockStep_cases hs
  · rw [hturn] at hb
    cases hb
  · rw [hturn] at hb
    cases hb
    exact ⟨hclock, harr, congrArg (·.relay) (Option.some.inj hstep).symm⟩

/-- **A clocked run is a run of the coroutines**, so whatever holds of those holds of it. -/
theorem clockStep_turns {t : ClockState σ β} {acts : List (ClockAct β)}
    (hr : run (clockStep args) s acts = some t) :
    ∃ bs, run (turnsStep args.redial) s.turns bs = some t.turns := by
  refine run_simulation (f := ClockState.turns) (fun s a s' hs => ?_) hr
  obtain ⟨-, -, ⟨-, hturns, -⟩ | ⟨b, -, hb, -⟩⟩ := clockStep_cases hs
  · exact Or.inl hturns
  · exact Or.inr ⟨b, hb⟩

end

/-! ## Activity -/

/-- When a poller hands a text over. -/
def sentAt (now : Rat) : Option String → List Rat
  | none => []
  | some _ => [now]

/-- When a step of the coroutines is activity: an event is put into the scheduler, a turn boundary
is looked at, a social turn or an idle prompt is handed over. -/
def turnsActivity (s : TurnsState σ β) : TurnsAct β → List Rat
  | .down (.message now m) => if m.turnBoundary then [now] else []
  | .down _ => []
  | .arrive now _ => [now]
  | .pollSocial now least wait => sentAt now (s.relay.pollSocial now least wait).2
  | .pollIdle now idle => sentAt now (s.relay.pollIdle now idle).2

/-- When a step is activity. A skipped event is none. -/
def activity (args : ClockArgs) (s : ClockState σ β) (a : ClockAct β) : List Rat :=
  match a.turn args with
  | none => []
  | some b => turnsActivity s.turns b

/-- The down task leaves the scheduler and the batch window alone, and resets the idle clock at a
turn boundary only. -/
theorem downStep_clock {args : RedialArgs} {r r' : Relay σ} {d d' : Down β} {a : DownAct β}
    (hs : downStep args r d a = some (r', d')) :
    r'.scheduler = r.scheduler ∧ r'.pendingSince = r.pendingSince ∧
      ((r'.lastActivity = r.lastActivity ∧ ∀ now m, a = .message now m → m.turnBoundary = false) ∨
        ∃ now m, a = .message now m ∧ m.turnBoundary = true ∧ r'.lastActivity = now) := by
  rcases downStep_cases hs with
    ⟨hb, rfl, -⟩ | ⟨-, ⟨now, m, rfl, rfl, -⟩ | ⟨m, rfl, -, rfl, -⟩ | ⟨ha, rfl, -⟩⟩
  · refine ⟨rfl, rfl, Or.inl ⟨rfl, ?_⟩⟩
    rintro now m rfl
    cases hb
  · refine ⟨r.receive_scheduler now m, r.receive_pendingSince now m, ?_⟩
    rw [r.receive_lastActivity]
    by_cases hm : m.turnBoundary = true
    · rw [if_pos hm]
      exact Or.inr ⟨now, m, rfl, hm, rfl⟩
    · rw [if_neg hm]
      refine Or.inl ⟨rfl, ?_⟩
      rintro _ _ ⟨⟩
      exact Bool.not_eq_true _ ▸ hm
  · exact ⟨rfl, rfl, Or.inl ⟨rfl, by rintro _ _ ⟨⟩⟩⟩
  · exact ⟨rfl, rfl, Or.inl ⟨rfl, fun now m h => absurd h (ha now m)⟩⟩

/-- A tick of the social poller is no activity and does nothing, or is and hands a turn over. -/
theorem pollSocial_activity (r : Relay σ) (now : Rat) (least : Int) (wait : Rat) :
    (sentAt now (r.pollSocial now least wait).2 = [] ∧ (r.pollSocial now least wait).1 = r) ∨
    ∃ turn scheduler, r.scheduler.nextTurn = (some turn, scheduler) ∧
      sentAt now (r.pollSocial now least wait).2 = [now] ∧
      (r.pollSocial now least wait).1 = r.socialSent now scheduler := by
  rcases r.pollSocial_cases now least wait with hp | ⟨turn, scheduler, -, -, -, hn, hp⟩
  · rw [hp]
    exact Or.inl ⟨rfl, rfl⟩
  · rw [hp]
    exact Or.inr ⟨turn, scheduler, hn, rfl, rfl⟩

/-- A tick of the idle poller is no activity and does nothing, or is and hands the prompt over. -/
theorem pollIdle_activity (r : Relay σ) (now idle : Rat) :
    (sentAt now (r.pollIdle now idle).2 = [] ∧ (r.pollIdle now idle).1 = r) ∨
      (sentAt now (r.pollIdle now idle).2 = [now] ∧ (r.pollIdle now idle).1 = r.idleSent now) := by
  rcases r.pollIdle_cases now idle with hp | ⟨-, -, -, hp⟩
  · rw [hp]
    exact Or.inl ⟨rfl, rfl⟩
  · rw [hp]
    exact Or.inr ⟨rfl, rfl⟩

/-- What the idle clock says of the activity seen so far. -/
structure IdleInv (t₀ : Rat) (s : ClockState σ β) (seen : List Rat) : Prop where
  created : t₀ ≤ s.turns.relay.lastActivity
  past : s.turns.relay.lastActivity ≤ s.clock
  latest : ∀ t ∈ seen, t ≤ s.turns.relay.lastActivity

theorem idleInv_start (scheduler : EventScheduler σ) (t₀ : Rat) :
    IdleInv t₀ (ClockState.start scheduler t₀ : ClockState σ β) [] where
  created := le_refl t₀
  past := le_refl t₀
  latest := by simp

section

variable [Score σ] [PyLower]

/-- **Everything a step can do to the relay, and what of it is activity**: nothing to the scheduler
and the batch window, an event that is put into the scheduler, or a social turn. -/
theorem clockStep_relay_cases (hs : clockStep args s a = some s') :
    (s'.arrivals = s.arrivals ∧ s'.turns.relay.scheduler = s.turns.relay.scheduler ∧
      s'.turns.relay.pendingSince = s.turns.relay.pendingSince ∧
      (activity args s a = [] ∧ s'.turns.relay.lastActivity = s.turns.relay.lastActivity ∨
        activity args s a = [s'.clock] ∧ s'.turns.relay.lastActivity = s'.clock)) ∨
    (∃ event, a = .drain s'.clock event ∧ skipSocialEvent event args.skipLikeShare = false ∧
      s'.arrivals = s.arrivals ++ [s'.clock] ∧
      s'.turns.relay = s.turns.relay.arrive s'.clock event ∧ activity args s a = [s'.clock]) ∨
    (∃ turn scheduler, s.turns.relay.scheduler.nextTurn = (some turn, scheduler) ∧
      s'.arrivals = s.arrivals ∧ s'.turns.relay = s.turns.relay.socialSent s'.clock scheduler ∧
      activity args s a = [s'.clock]) := by
  obtain ⟨-, hclock, ⟨hb, hturns, harr⟩ | ⟨b, hb, hstep, harr⟩⟩ := clockStep_cases hs
  · exact Or.inl ⟨harr, by rw [hturns], by rw [hturns],
      Or.inl ⟨by simp only [activity, hb], by rw [hturns]⟩⟩
  have hact : activity args s a = turnsActivity s.turns b := by simp only [activity, hb]
  rw [hact]
  cases a with
  | down a =>
    cases hb
    obtain ⟨⟨r', d'⟩, hdown, hturns⟩ := Option.map_eq_some_iff.mp hstep
    obtain ⟨hsched, hpending, hlast⟩ := downStep_clock hdown
    rw [← hturns]
    refine Or.inl ⟨harr.trans (List.append_nil _), hsched, hpending, ?_⟩
    rcases hlast with ⟨hlast, hm⟩ | ⟨now, m, rfl, hm, hlast⟩
    · refine Or.inl ⟨?_, hlast⟩
      cases a with
      | message now m => simp [turnsActivity, hm now m rfl]
      | _ => rfl
    · have hnow : s'.clock = now := hclock
      exact Or.inr ⟨by simp [turnsActivity, hm, hnow], hlast.trans hnow.symm⟩
  | drain now event =>
    by_cases hskip : skipSocialEvent event args.skipLikeShare = true
    · simp [ClockAct.turn, hskip] at hb
    · rw [Bool.not_eq_true] at hskip
      obtain ⟨hnow, harr, hrelay⟩ := clockStep_drain hs hskip
      simp only [ClockAct.turn, hskip, Bool.false_eq_true, if_false, Option.some.injEq] at hb
      subst hb
      rw [hnow]
      exact Or.inr (Or.inl ⟨event, rfl, hskip, harr, hrelay, rfl⟩)
  | pollSocial now =>
    have hnow : s'.clock = now := hclock
    cases hb
    have hsame : s'.arrivals = s.arrivals := harr.trans (List.append_nil _)
    rw [← Option.some.inj hstep, hnow]
    rcases pollSocial_activity s.turns.relay now args.batchMinEvents args.batchWaitSeconds with
      ⟨hsent, hrelay⟩ | ⟨turn, scheduler, hn, hsent, hrelay⟩
    · exact Or.inl ⟨hsame, congrArg (·.scheduler) hrelay, congrArg (·.pendingSince) hrelay,
        Or.inl ⟨hsent, congrArg (·.lastActivity) hrelay⟩⟩
    · exact Or.inr (Or.inr ⟨turn, scheduler, hn, hsame, hrelay, hsent⟩)
  | pollIdle now =>
    have hnow : s'.clock = now := hclock
    cases hb
    have hsame : s'.arrivals = s.arrivals := harr.trans (List.append_nil _)
    rw [← Option.some.inj hstep, hnow]
    rcases pollIdle_activity s.turns.relay now args.idleSeconds with
      ⟨hsent, hrelay⟩ | ⟨hsent, hrelay⟩
    · exact Or.inl ⟨hsame, congrArg (·.scheduler) hrelay, congrArg (·.pendingSince) hrelay,
        Or.inl ⟨hsent, congrArg (·.lastActivity) hrelay⟩⟩
    · exact Or.inl ⟨hsame, congrArg (·.scheduler) hrelay, congrArg (·.pendingSince) hrelay,
        Or.inr ⟨hsent, congrArg (·.lastActivity) hrelay⟩⟩

/-- **A step that is activity sets the idle clock to its time, and no other step moves it.** -/
theorem lastActivity_step (hs : clockStep args s a = some s') :
    activity args s a = [] ∧ s'.turns.relay.lastActivity = s.turns.relay.lastActivity ∨
      activity args s a = [s'.clock] ∧ s'.turns.relay.lastActivity = s'.clock := by
  rcases clockStep_relay_cases hs with
    ⟨-, -, -, hlast⟩ | ⟨event, -, -, -, hrelay, hact⟩ | ⟨turn, scheduler, -, -, hrelay, hact⟩
  · exact hlast
  · exact Or.inr ⟨hact, hrelay ▸ s.turns.relay.arrive_lastActivity s'.clock event⟩
  · exact Or.inr ⟨hact, by rw [hrelay]; rfl⟩

/-! ## Real silence -/

theorem idleInv_step {t₀ : Rat} {seen : List Rat} (h : IdleInv t₀ s seen)
    (hs : clockStep args s a = some s') : IdleInv t₀ s' (seen ++ activity args s a) := by
  obtain ⟨hle, hclock, -⟩ := clockStep_cases hs
  rw [← hclock] at hle
  rcases lastActivity_step hs with ⟨hact, hlast⟩ | ⟨hact, hlast⟩
  · rw [hact, List.append_nil]
    exact ⟨hlast ▸ h.created, hlast ▸ h.past.trans hle, hlast ▸ h.latest⟩
  · rw [hact]
    have hlater : s.turns.relay.lastActivity ≤ s'.turns.relay.lastActivity := by
      rw [hlast]
      exact h.past.trans hle
    refine ⟨h.created.trans hlater, le_of_eq hlast, fun t ht => ?_⟩
    rcases List.mem_append.mp ht with ht | ht
    · exact (h.latest t ht).trans hlater
    · rw [List.mem_singleton.mp ht, hlast]

/--
**The idle prompt is sent in real silence.** In every run of the coroutines of a relay made at `t₀`:
if `poll_idle` hands the prompt over at `now`, then `now - idleSeconds` is not before `t₀`, and
since then no event was put into the scheduler, no `speech_start`, `turn_done` or `aborted` was
looked at, and no social turn or idle prompt was handed over.
-/
theorem idle_topic_after_silence (args : ClockArgs) (scheduler : EventScheduler σ) (t₀ : Rat)
    {acts : List (ClockAct β)} {s : ClockState σ β}
    (hrun : run (clockStep args) (.start scheduler t₀) acts = some s) {now : Rat} {text : String}
    (hsent : (s.turns.relay.pollIdle now args.idleSeconds).2 = some text) :
    t₀ ≤ now - args.idleSeconds ∧
      ∀ t ∈ trace (clockStep args) (activity args) (.start scheduler t₀) acts,
        t ∉ Set.Ioc (now - args.idleSeconds) now := by
  have hinv : IdleInv t₀ s
      ([] ++ trace (clockStep args) (activity args) (.start scheduler t₀) acts) :=
    run_trace_inv (fun _ _ _ _ hi hs => idleInv_step hi hs) (idleInv_start scheduler t₀) hrun
  have hidle : s.turns.relay.lastActivity ≤ now - args.idleSeconds := by
    rcases s.turns.relay.pollIdle_cases now args.idleSeconds with hp | ⟨-, -, hge, -⟩
    · rw [hp] at hsent
      cases hsent
    · exact le_sub_comm.mp hge
  refine ⟨hinv.created.trans hidle, fun t ht hmem => ?_⟩
  exact absurd ((hinv.latest t ht).trans hidle) (not_le.mpr hmem.1)

end

/-- A comment is answered, and then the room is quiet. -/
def answeredThenQuiet : List (ClockAct Unit) :=
  [.down .start, .drain 1 { kind := .comment, userId := "a", userName := "A", text := some "hi" },
    .pollSocial 2, .down (.message 5 (.json .turnDone ())), .down .resumed, .pollIdle 20]

/-- Half a minute of silence, no batching. -/
def halfMinute : ClockArgs :=
  { redial := downArgs, batchMinEvents := 1, batchWaitSeconds := 0, idleSeconds := 30
    skipLikeShare := true }

/-- The prompt comes at 35: the comment, its answer and the end of the answer are thirty seconds and
more ago, and the poll at 20 sent nothing. -/
theorem answeredThenQuiet_idle : ∃ (_ : PyLower) (s : ClockState Int Unit),
    run (clockStep halfMinute) (.start (.new [] 3 3 200) 0) answeredThenQuiet = some s ∧
      (s.turns.relay.pollIdle 35 30).2 = some idleTopicPrompt ∧ (0 : Rat) ≤ 35 - 30 ∧
      ∀ t ∈ [(1 : Rat), 2, 5], t ∉ Set.Ioc ((35 : Rat) - 30) 35 := by
  let lower : PyLower := ⟨id⟩
  have hsends : (run (clockStep halfMinute) (.start (.new [] 3 3 200 : EventScheduler Int) 0)
      answeredThenQuiet).map (fun s => (s.turns.relay.pollIdle 35 30).2)
        = some (some idleTopicPrompt) := by decide +kernel
  have hseen : trace (clockStep halfMinute) (activity halfMinute)
      (.start (.new [] 3 3 200 : EventScheduler Int) 0) answeredThenQuiet = [1, 2, 5] := by
    decide +kernel
  obtain ⟨s, hrun, hsent⟩ := Option.map_eq_some_iff.mp hsends
  refine ⟨lower, s, hrun, hsent, ?_⟩
  rw [← hseen]
  exact idle_topic_after_silence halfMinute _ 0 hrun hsent

end Livehost
