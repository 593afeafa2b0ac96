import Livehost.Properties.OneConnection
import Mathlib.Tactic.Linarith

/-!
# The reconnect schedule

`_run` sleeps between two attempts, and how long depends on how the attempts so far ended. Without
a `stop` or a restart the task never ends, and what it shows is fixed by the outcomes alone.

* `sinceEvent`, `doublings` — the attempts that count for the backoff
* `transcript` — the attempts, outcomes and sleeps of a list of outcomes
* `paced_step` — the backoff variable and what has been seen agree at every await
* `backoff_schedule` — every run without a cancellation shows the transcript of its outcomes
-/

namespace Livehost

open Infra

/-! ## Outcomes -/

/-- How an attempt ended. -/
inductive Outcome
  | offline
  /-- `client_factory` or `connect()` raised. -/
  | failed
  /-- The watchdog's timeout. -/
  | stale (receivedEvent : Bool)
  /-- The stream was exhausted, yielded `None` or raised. -/
  | ended (receivedEvent : Bool)
  deriving DecidableEq, Repr

namespace Outcome

def receivedEvent : Outcome → Bool
  | .stale receivedEvent | .ended receivedEvent => receivedEvent
  | _ => false

/-- The outcomes with an exponential delay. -/
def backsOff : Outcome → Bool
  | .failed | .ended _ => true
  | _ => false

end Outcome

/-- The outcomes from the most recent connection that received an event onward. -/
def sinceEvent (os : List Outcome) : List Outcome :=
  os.foldl (fun since o => if o.receivedEvent then [o] else since ++ [o]) []

@[simp] theorem sinceEvent_concat (os : List Outcome) (o : Outcome) :
    sinceEvent (os ++ [o]) = if o.receivedEvent then [o] else sinceEvent os ++ [o] := by
  simp [sinceEvent]

/-- How often the first delay is doubled after `o`, the `earlier` outcomes known. -/
def doublings (earlier : List Outcome) (o : Outcome) : Nat :=
  if o = .ended true then 0 else (sinceEvent earlier).countP Outcome.backsOff

/-! ## What a run shows -/

inductive RunEvent
  /-- `client_factory` is called. -/
  | attempt
  | outcome (outcome : Outcome)
  /-- A sleep of so many seconds begins, its jitter left out. -/
  | sleep (seconds : Rat)
  deriving DecidableEq

/-- The delay after `o`, as it is seen. -/
def delaySeen (initial max poll : Rat) (earlier : List Outcome) (o : Outcome) : List RunEvent :=
  match o with
  | .offline => [.sleep poll]
  | .stale _ => []
  | .failed | .ended _ => [.sleep (min (initial * 2 ^ doublings earlier o) max)]

def transcriptFrom (initial max poll : Rat) (earlier : List Outcome) :
    List Outcome → List RunEvent
  | [] => []
  | o :: os =>
    .attempt :: .outcome o :: delaySeen initial max poll earlier o ++
      transcriptFrom initial max poll (earlier ++ [o]) os

/-- The attempts that ended as `os` says, each with the delay behind it. -/
def transcript (initial max poll : Rat) (os : List Outcome) : List RunEvent :=
  transcriptFrom initial max poll [] os

/-- The outcomes that were seen. -/
def outcomesOf (seen : List RunEvent) : List Outcome :=
  seen.filterMap fun
    | .outcome o => some o
    | _ => none

section Transcript

variable {initial max poll : Rat}

theorem transcriptFrom_concat (earlier os : List Outcome) (o : Outcome) :
    transcriptFrom initial max poll earlier (os ++ [o])
      = transcriptFrom initial max poll earlier os ++
        (.attempt :: .outcome o :: delaySeen initial max poll (earlier ++ os) o) := by
  induction os generalizing earlier with
  | nil => simp [transcriptFrom]
  | cons o' os ih => simp [transcriptFrom, ih]

theorem transcript_concat (os : List Outcome) (o : Outcome) :
    transcript initial max poll (os ++ [o]) = transcript initial max poll os ++
      (.attempt :: .outcome o :: delaySeen initial max poll os o) :=
  transcriptFrom_concat [] os o

@[simp] theorem outcomesOf_append (seen seen' : List RunEvent) :
    outcomesOf (seen ++ seen') = outcomesOf seen ++ outcomesOf seen' :=
  List.filterMap_append

@[simp] theorem outcomesOf_attempt : outcomesOf [.attempt] = [] := rfl

theorem outcomesOf_delaySeen (initial max poll : Rat) (earlier : List Outcome) (o : Outcome) :
    outcomesOf (delaySeen initial max poll earlier o) = [] := by
  cases o <;> rfl

/-- A transcript tells its outcomes. -/
@[simp] theorem outcomesOf_transcript (os : List Outcome) :
    outcomesOf (transcript initial max poll os) = os := by
  induction os using List.reverseRecOn with
  | nil => rfl
  | append_singleton os o ih =>
    have hdelay := outcomesOf_delaySeen initial max poll os o
    rw [transcript_concat, outcomesOf_append, ih]
    simpa [outcomesOf] using hdelay

end Transcript

/-! ## The backoff variable -/

/-- The backoff variable at the loop head. -/
def backoffAfter (initial max : Rat) (os : List Outcome) : Rat :=
  min (initial * 2 ^ (sinceEvent os).countP Outcome.backsOff) max

section Backoff

variable {initial max : Rat} (os : List Outcome)

/-- Doubling a capped power gives the next capped power. -/
theorem min_double {x : Rat} (hmax : 0 ≤ max) : min (min x max * 2) max = min (x * 2) max := by
  rcases le_total x max with hle | hle
  · rw [min_eq_left hle]
  · have h₁ : max ≤ max * 2 := by linarith
    have h₂ : max ≤ x * 2 := by linarith
    rw [min_eq_right hle, min_eq_right h₁, min_eq_right h₂]

theorem backoffAfter_offline :
    backoffAfter initial max (os ++ [.offline]) = backoffAfter initial max os := by
  simp [backoffAfter, Outcome.receivedEvent, Outcome.backsOff]

theorem backoffAfter_stale (receivedEvent : Bool) (hle : initial ≤ max) :
    backoffAfter initial max (os ++ [.stale receivedEvent])
      = if receivedEvent then initial else backoffAfter initial max os := by
  cases receivedEvent <;> simp [backoffAfter, Outcome.receivedEvent, Outcome.backsOff, hle]

theorem backoffAfter_failed (hmax : 0 ≤ max) :
    backoffAfter initial max (os ++ [.failed]) = min (backoffAfter initial max os * 2) max := by
  simp [backoffAfter, Outcome.receivedEvent, Outcome.backsOff, min_double hmax, pow_succ,
    mul_assoc]

theorem backoffAfter_ended (receivedEvent : Bool) (hmax : 0 ≤ max) :
    backoffAfter initial max (os ++ [.ended receivedEvent])
      = min ((if receivedEvent then initial else backoffAfter initial max os) * 2) max := by
  cases receivedEvent
  · simp [backoffAfter, Outcome.receivedEvent, Outcome.backsOff, min_double hmax, pow_succ,
      mul_assoc]
  · simp [backoffAfter, Outcome.receivedEvent, Outcome.backsOff]

end Backoff

namespace TikTokLiveIngestor

variable {κ : Type} {s s' : TikTokLiveIngestor κ}

/-! ## The observer -/

/-- What the loop head shows: an attempt, which is over at once where the factory raises. -/
def headSeen (s : TikTokLiveIngestor κ) (task : RunTask) (factory : FactoryOutcome) :
    List RunEvent :=
  if !s.stopRequested && task.generation == s.generation then
    match factory with
    | .roomOffline => [.attempt, .outcome .offline]
    | .fails => [.attempt, .outcome .failed]
    | .returns | .cancelled => [.attempt]
  else []

/-- The attempts and outcomes of a step of the task. -/
def attemptSeen (s : TikTokLiveIngestor κ) (task : RunTask) : RunAct → List RunEvent
  | .begin factory | .slept factory => s.headSeen task factory
  | .offline => [.outcome .offline]
  | .connectFails => [.outcome .failed]
  | .closed factory =>
    match task.pc with
    | .closing true receivedEvent false =>
      .outcome (.stale receivedEvent) :: s.headSeen task factory
    | .closing false receivedEvent false => [.outcome (.ended receivedEvent)]
    | _ => []
  | _ => []

/-- The sleep the task has begun. -/
def sleepSeen (s : TikTokLiveIngestor κ) : List RunEvent :=
  match s.task with
  | some task =>
    match task.pc with
    | .offlineSleep => [.sleep s.offlinePollInterval]
    | .backoffSleep => [.sleep task.backoff]
    | _ => []
  | none => []

/-- A step of the task, with nobody calling. -/
def runNext (s : TikTokLiveIngestor κ) (act : RunAct) : Option (TikTokLiveIngestor κ) :=
  s.next (.run act)

theorem runNext_eq {task : RunTask} {act : RunAct} (htask : s.task = some task)
    (hact : act ≠ .cancelled) (hcancel : task.cancelled = false) (hdone : task.pc ≠ .done) :
    s.runNext act = s.runStep task act := by
  have hstep : s.step (.run act) = (s.runStep task act).map fun s => (s, none) := by
    unfold step
    rw [htask]
    cases act <;> simp [hcancel, hdone] at hact ⊢
  rw [runNext, next, hstep, Option.map_map]
  exact congrFun Option.map_id _

/-- What a step of the task shows. -/
def runSeen (s : TikTokLiveIngestor κ) (act : RunAct) : List RunEvent :=
  match s.task, s.runNext act with
  | some task, some s' => s.attemptSeen task act ++ s'.sleepSeen
  | _, _ => []

/-- No `CancelledError` arrives, and `events()` does not raise. -/
def Undisturbed : RunAct → Prop
  | .begin factory | .slept factory | .closed factory => factory ≠ .cancelled
  | .connected events => events = true
  | .cancelled => False
  | _ => True

/-! ## Every step -/

/-- The last outcome has a delay behind it. -/
def Delayed (os : List Outcome) : Prop := ∀ receivedEvent, os.getLast? ≠ some (.stale receivedEvent)

/-- **The invariant**: `os` are the outcomes seen, and the task stands where they lead. -/
def PacedAt (initial max poll : Rat) (os : List Outcome) (task : RunTask)
    (seen : List RunEvent) : Prop :=
  match task.pc with
  | .created => os = [] ∧ seen = [] ∧ task.backoff = backoffAfter initial max os
  | .offlineSleep =>
    Delayed os ∧ seen = transcript initial max poll os ∧
      task.backoff = backoffAfter initial max os
  | .backoffSleep =>
    Delayed os ∧ seen = transcript initial max poll os ∧
      min (task.backoff * 2) max = backoffAfter initial max os
  | .connecting | .draining _ | .closing _ _ false =>
    seen = transcript initial max poll os ++ [.attempt] ∧
      task.backoff = backoffAfter initial max os
  | .closing _ _ true | .done => False

/-- The task runs on, at the pace of its outcomes. -/
structure Paced (initial max poll : Rat) (s : TikTokLiveIngestor κ) (seen : List RunEvent) :
    Prop where
  backoffInitial : s.backoffInitial = initial
  backoffMax : s.backoffMax = max
  pollInterval : s.offlinePollInterval = poll
  serving : s.stopRequested = false
  task : ∃ task os, s.task = some task ∧ task.generation = s.generation ∧
    task.cancelled = false ∧ PacedAt initial max poll os task seen

section Steps

variable {initial max poll : Rat} {seen seen' : List RunEvent} {os : List Outcome}

/-- From a task that stands where the outcomes lead. -/
theorem Paced.of_task {task : RunTask} (os : List Outcome) (hinitial : s.backoffInitial = initial)
    (hmax : s.backoffMax = max) (hpoll : s.offlinePollInterval = poll)
    (hserving : s.stopRequested = false) (htask : s.task = some task)
    (hgen : task.generation = s.generation) (hcancel : task.cancelled = false)
    (hat : PacedAt initial max poll os task seen) : Paced initial max poll s seen :=
  ⟨hinitial, hmax, hpoll, hserving, task, os, htask, hgen, hcancel, hat⟩

/-- The room is offline: the sleep that is seen is the poll interval. -/
theorem pacedAt_offline {task : RunTask} (hbackoff : task.backoff = backoffAfter initial max os) :
    PacedAt initial max poll (os ++ [.offline]) { task with pc := .offlineSleep }
      (transcript initial max poll os ++ [.attempt, .outcome .offline, .sleep poll]) := by
  refine ⟨by simp [Delayed], ?_, ?_⟩
  · rw [transcript_concat]
    rfl
  · rw [backoffAfter_offline]
    exact hbackoff

/-- The connection failed: the sleep that is seen is the backoff. -/
theorem pacedAt_failed {task : RunTask} (hmax : 0 ≤ max)
    (hbackoff : task.backoff = backoffAfter initial max os) :
    PacedAt initial max poll (os ++ [.failed]) { task with pc := .backoffSleep }
      (transcript initial max poll os ++ [.attempt, .outcome .failed, .sleep task.backoff]) := by
  refine ⟨by simp [Delayed], ?_, ?_⟩
  · rw [transcript_concat, hbackoff]
    simp [delaySeen, backoffAfter, doublings]
  · rw [backoffAfter_failed os hmax, ← hbackoff]

/-- The loop head begins the next attempt, and a factory that raises ends it. -/
theorem paced_loopHead (hi : Paced initial max poll s seen') (hmax : 0 ≤ max) {task : RunTask}
    {factory : FactoryOutcome} (hfactory : factory ≠ .cancelled)
    (hgen : task.generation = s.generation) (hcancel : task.cancelled = false)
    (hseen : seen = transcript initial max poll os)
    (hbackoff : task.backoff = backoffAfter initial max os) :
    Paced initial max poll (s.loopHead task factory)
      (seen ++ (s.headSeen task factory ++ (s.loopHead task factory).sleepSeen)) := by
  have hgo : (!s.stopRequested && task.generation == s.generation) = true := by
    simp [hi.serving, hgen]
  unfold loopHead headSeen
  rw [if_pos hgo, if_pos hgo]
  cases factory with
  | returns =>
    refine Paced.of_task os hi.backoffInitial hi.backoffMax hi.pollInterval hi.serving rfl hgen
      hcancel ?_
    exact ⟨by simp [hseen, sleepSeen], hbackoff⟩
  | roomOffline =>
    refine Paced.of_task (os ++ [.offline]) hi.backoffInitial hi.backoffMax hi.pollInterval
      hi.serving rfl hgen hcancel ?_
    simpa [hseen, sleepSeen, hi.pollInterval] using pacedAt_offline hbackoff
  | fails =>
    refine Paced.of_task (os ++ [.failed]) hi.backoffInitial hi.backoffMax hi.pollInterval
      hi.serving rfl hgen hcancel ?_
    simpa [hseen, sleepSeen] using pacedAt_failed hmax hbackoff
  | cancelled => exact absurd rfl hfactory

/-- The first delay, or the next one where no event was received. -/
theorem delay_ended (receivedEvent : Bool) (hle : initial ≤ max) :
    min (initial * 2 ^ doublings os (.ended receivedEvent)) max
      = if receivedEvent then initial else backoffAfter initial max os := by
  cases receivedEvent <;> simp [doublings, backoffAfter, hle]

/-- Behind `_drain`, a stale link is replaced at once and an ended one after a delay. -/
theorem paced_drained (hi : Paced initial max poll s seen') (hpos : 0 ≤ initial)
    (hle : initial ≤ max) {task : RunTask} {stale receivedEvent : Bool}
    {factory : FactoryOutcome} (hfactory : factory ≠ .cancelled)
    (hpc : task.pc = .closing stale receivedEvent false)
    (hgen : task.generation = s.generation) (hcancel : task.cancelled = false)
    (hseen : seen = transcript initial max poll os ++ [.attempt])
    (hbackoff : task.backoff = backoffAfter initial max os) :
    Paced initial max poll (s.drained task stale receivedEvent factory)
      (seen ++ (s.attemptSeen task (.closed factory) ++
        (s.drained task stale receivedEvent factory).sleepSeen)) := by
  have hmax : 0 ≤ max := hpos.trans hle
  -- the task with its backoff reset, or not
  obtain ⟨task', htask', hgen', hcancel', hbackoff'⟩ : ∃ task' : RunTask,
      (if receivedEvent then { task with backoff := s.backoffInitial } else task) = task' ∧
      task'.generation = task.generation ∧ task'.cancelled = task.cancelled ∧
      task'.backoff = if receivedEvent then initial else backoffAfter initial max os := by
    cases receivedEvent
    · exact ⟨task, rfl, rfl, rfl, hbackoff⟩
    · exact ⟨_, rfl, rfl, rfl, hi.backoffInitial⟩
  have hgo : (s.stopRequested || task'.generation != s.generation) = false := by
    simp [hi.serving, hgen', hgen]
  simp only [drained, htask', hgo, Bool.false_eq_true, if_false]
  cases stale with
  | true =>
    have hhead : s.headSeen task factory = s.headSeen task' factory := by
      simp only [headSeen, hgen']
    have hseen' : seen ++ [.outcome (.stale receivedEvent)] =
        transcript initial max poll (os ++ [.stale receivedEvent]) := by
      simp [hseen, transcript_concat, delaySeen]
    have h := paced_loopHead hi hmax hfactory (hgen'.trans hgen) (hcancel'.trans hcancel) hseen'
      (by rw [hbackoff', backoffAfter_stale os receivedEvent hle])
    simpa [attemptSeen, hpc, hhead] using h
  | false =>
    refine Paced.of_task (os ++ [.ended receivedEvent]) hi.backoffInitial hi.backoffMax
      hi.pollInterval hi.serving rfl (hgen'.trans hgen) (hcancel'.trans hcancel)
      ⟨by simp [Delayed], ?_, ?_⟩
    · simp [hseen, hpc, attemptSeen, sleepSeen, transcript_concat, delaySeen, hbackoff',
        delay_ended receivedEvent hle]
    · rw [backoffAfter_ended os receivedEvent hmax, ← hbackoff']

/-- **Every step of the task keeps the pace.** -/
theorem paced_step {act : RunAct} (hpos : 0 ≤ initial) (hle : initial ≤ max)
    (hi : Paced initial max poll s seen) (hact : Undisturbed act)
    (hs : s.runNext act = some s') : Paced initial max poll s' (seen ++ s.runSeen act) := by
  have hmax : 0 ≤ max := hpos.trans hle
  obtain ⟨hinitial, hcap, hpoll, hserving, task, os, htask, hgen, hcancel, hat⟩ := id hi
  have hseen : s.runSeen act = s.attemptSeen task act ++ s'.sleepSeen := by
    simp only [runSeen, htask, hs]
  obtain ⟨⟨s₁, r⟩, hstep, rfl⟩ := Option.map_eq_some_iff.mp hs
  obtain ⟨-, task₁, htask₁, -, hrun | ⟨rfl, -⟩⟩ := run_cases hstep
  case inr => cases hact
  rw [htask] at htask₁
  cases htask₁
  rw [hseen]
  unfold PacedAt at hat
  cases act <;> simp only [runStep] at hrun
  case cancelled => cases hrun
  case begin factory =>
    split at hrun <;> cases hrun
    next hpc =>
      rw [hpc] at hat
      obtain ⟨rfl, rfl, hbackoff⟩ := hat
      exact paced_loopHead hi hmax hact hgen hcancel rfl hbackoff
  case slept factory =>
    split at hrun <;> cases hrun
    next hpc =>
      rw [hpc] at hat
      exact paced_loopHead hi hmax hact hgen hcancel hat.2.1 hat.2.2
    next hpc =>
      rw [hpc] at hat
      have hbackoff : min (task.backoff * 2) s.backoffMax = backoffAfter initial max os := by
        rw [hcap]
        exact hat.2.2
      refine paced_loopHead hi hmax hact ?_ ?_ hat.2.1 hbackoff
      · exact hgen
      · exact hcancel
  case closed factory =>
    split at hrun <;> cases hrun
    next hpc =>
      rw [hpc] at hat
      cases hat
    next stale receivedEvent hpc =>
      rw [hpc] at hat
      exact paced_drained hi hpos hle hact hpc hgen hcancel hat.1 hat.2
  case connected events =>
    split at hrun <;> cases hrun
    next hpc =>
      have hevents : events = true := hact
      rw [hpc] at hat
      subst hevents
      refine Paced.of_task os hinitial hcap hpoll hserving rfl hgen hcancel ⟨?_, hat.2⟩
      simp [hat.1, attemptSeen, sleepSeen]
  case offline =>
    split at hrun <;> cases hrun
    next hpc =>
      rw [hpc] at hat
      refine Paced.of_task (os ++ [.offline]) hinitial hcap hpoll hserving rfl hgen hcancel ?_
      simpa [hat.1, attemptSeen, sleepSeen, hpoll] using pacedAt_offline hat.2
  case connectFails =>
    split at hrun <;> cases hrun
    next hpc =>
      rw [hpc] at hat
      refine Paced.of_task (os ++ [.failed]) hinitial hcap hpoll hserving rfl hgen hcancel ?_
      simpa [hat.1, attemptSeen, sleepSeen] using pacedAt_failed hmax hat.2
  case event event =>
    split at hrun <;> cases hrun
    next hpc =>
      rw [hpc] at hat
      refine Paced.of_task os hinitial hcap hpoll hserving rfl hgen hcancel ⟨?_, hat.2⟩
      simp [hat.1, attemptSeen, sleepSeen]
  case timeout | streamEnds =>
    split at hrun <;> cases hrun
    next hpc =>
      rw [hpc] at hat
      refine Paced.of_task os hinitial hcap hpoll hserving rfl hgen rfl ⟨?_, hat.2⟩
      simp [hat.1, attemptSeen, sleepSeen, leaveDrain]

/-- A task at the pace of its outcomes can go on. -/
theorem Paced.progress (hi : Paced initial max poll s seen) :
    ∃ act, Undisturbed act ∧ (s.runNext act).isSome := by
  obtain ⟨-, -, -, -, task, os, htask, -, hcancel, hat⟩ := hi
  have hnext : ∀ act, act ≠ .cancelled → task.pc ≠ .done → (s.runStep task act).isSome →
      (s.runNext act).isSome := by
    intro act hact hdone hrun
    rwa [runNext_eq htask hact hcancel hdone]
  unfold PacedAt at hat
  cases hpc : task.pc <;> rw [hpc] at hat
  case created => exact ⟨.begin .returns, by simp [Undisturbed], hnext _ (by simp) (by simp [hpc])
      (by simp [runStep, hpc])⟩
  case connecting =>
    exact ⟨.offline, trivial, hnext _ (by simp) (by simp [hpc]) (by simp [runStep, hpc])⟩
  case offlineSleep | backoffSleep =>
    exact ⟨.slept .returns, by simp [Undisturbed],
      hnext _ (by simp) (by simp [hpc]) (by simp [runStep, hpc])⟩
  case draining receivedEvent =>
    exact ⟨.timeout, trivial, hnext _ (by simp) (by simp [hpc]) (by simp [runStep, hpc])⟩
  case closing stale receivedEvent unwinding =>
    cases unwinding with
    | true => cases hat
    | false =>
      exact ⟨.closed .returns, by simp [Undisturbed],
        hnext _ (by simp) (by simp [hpc]) (by simp [runStep, hpc])⟩
  case done => cases hat

end Steps

/-- A fresh task has shown nothing yet. -/
theorem paced_launch (s₀ : TikTokLiveIngestor κ) (uniqueId : String)
    (hle : s₀.backoffInitial ≤ s₀.backoffMax) :
    Paced s₀.backoffInitial s₀.backoffMax s₀.offlinePollInterval (s₀.launch uniqueId) [] :=
  Paced.of_task [] rfl rfl rfl rfl rfl rfl rfl
    ⟨rfl, rfl, by simp [backoffAfter, sinceEvent, hle]⟩

/-- What a task at the pace of its outcomes has shown. -/
theorem Paced.seen_eq {initial max poll : Rat} {seen : List RunEvent}
    (hi : Paced initial max poll s seen) :
    (∃ task, s.task = some task ∧ task.pc ≠ .done) ∧
    (Delayed (outcomesOf seen) ∧ seen = transcript initial max poll (outcomesOf seen) ∨
      seen = transcript initial max poll (outcomesOf seen) ++ [.attempt]) := by
  obtain ⟨-, -, -, -, task, os, htask, -, -, hat⟩ := hi
  unfold PacedAt at hat
  have hbegun : seen = transcript initial max poll os ++ [.attempt] → outcomesOf seen = os := by
    rintro rfl
    simp
  cases hpc : task.pc <;> rw [hpc] at hat
  case created =>
    obtain ⟨rfl, rfl, -⟩ := hat
    exact ⟨⟨task, htask, by simp [hpc]⟩, Or.inl ⟨by simp [Delayed, outcomesOf], rfl⟩⟩
  case connecting | draining =>
    rw [hbegun hat.1]
    exact ⟨⟨task, htask, by simp [hpc]⟩, Or.inr hat.1⟩
  case offlineSleep | backoffSleep =>
    obtain ⟨hdelayed, rfl, -⟩ := hat
    rw [outcomesOf_transcript]
    exact ⟨⟨task, htask, by simp [hpc]⟩, Or.inl ⟨hdelayed, rfl⟩⟩
  case closing stale receivedEvent unwinding =>
    cases unwinding with
    | true => cases hat
    | false =>
      rw [hbegun hat.1]
      exact ⟨⟨task, htask, by simp [hpc]⟩, Or.inr hat.1⟩
  case done => cases hat

/-! ## Every list of outcomes -/

/-- The task runs on and stands at the place. -/
def Stands (pc : RunPc) (s : TikTokLiveIngestor κ) : Prop :=
  s.stopRequested = false ∧ ∃ task, s.task = some task ∧ task.pc = pc ∧
    task.generation = s.generation ∧ task.cancelled = false

/-- Where an await leads the task, and the outcomes it ends. -/
inductive Move : RunPc → RunAct → List Outcome → RunPc → Prop
  | begin : Move .created (.begin .returns) [] .connecting
  | offline : Move .connecting .offline [.offline] .offlineSleep
  | connectFails : Move .connecting .connectFails [.failed] .backoffSleep
  | connected : Move .connecting (.connected true) [] (.draining false)
  | event (receivedEvent : Bool) (event : SocialEvent) :
    Move (.draining receivedEvent) (.event event) [] (.draining true)
  | timeout (receivedEvent : Bool) :
    Move (.draining receivedEvent) .timeout [] (.closing true receivedEvent false)
  | streamEnds (receivedEvent : Bool) :
    Move (.draining receivedEvent) .streamEnds [] (.closing false receivedEvent false)
  | stale (receivedEvent : Bool) :
    Move (.closing true receivedEvent false) (.closed .returns) [.stale receivedEvent] .connecting
  | ended (receivedEvent : Bool) :
    Move (.closing false receivedEvent false) (.closed .returns) [.ended receivedEvent]
      .backoffSleep
  | sleptOffline : Move .offlineSleep (.slept .returns) [] .connecting
  | sleptBackoff : Move .backoffSleep (.slept .returns) [] .connecting

theorem stands_loopHead {task : RunTask} (hserving : s.stopRequested = false)
    (hgen : task.generation = s.generation) (hcancel : task.cancelled = false) :
    Stands .connecting (s.loopHead task .returns) := by
  simp [Stands, loopHead, hserving, hgen, hcancel]

theorem stands_drained {task : RunTask} (hserving : s.stopRequested = false)
    (hgen : task.generation = s.generation) (hcancel : task.cancelled = false)
    (stale receivedEvent : Bool) : Stands (if stale then .connecting else .backoffSleep)
      (s.drained task stale receivedEvent .returns) := by
  cases stale <;> cases receivedEvent <;>
    simp [Stands, drained, loopHead, hserving, hgen, hcancel]

theorem outcomesOf_headSeen (task : RunTask) : outcomesOf (s.headSeen task .returns) = [] := by
  unfold headSeen
  split <;> rfl

theorem outcomesOf_sleepSeen (s : TikTokLiveIngestor κ) : outcomesOf s.sleepSeen = [] := by
  unfold sleepSeen
  split
  · split <;> rfl
  · rfl

/-- **Each move is a step.** -/
theorem Move.step {pc pc' : RunPc} {act : RunAct} {os : List Outcome} (h : Move pc act os pc')
    (hs : Stands pc s) :
    ∃ s', s.runNext act = some s' ∧ Stands pc' s' ∧ outcomesOf (s.runSeen act) = os := by
  obtain ⟨hserving, task, htask, hpc, hgen, hcancel⟩ := hs
  have hact : act ≠ .cancelled := by
    rintro rfl
    cases h
  have hdone : task.pc ≠ .done := by
    rw [hpc]
    rintro rfl
    cases h
  suffices hrun : ∃ s', s.runStep task act = some s' ∧ Stands pc' s' ∧
      outcomesOf (s.attemptSeen task act) = os by
    obtain ⟨s', hrun, hstands, hseen⟩ := hrun
    have hnext : s.runNext act = some s' := (runNext_eq htask hact hcancel hdone).trans hrun
    refine ⟨s', hnext, hstands, ?_⟩
    simp only [runSeen, htask, hnext, outcomesOf_append, outcomesOf_sleepSeen, hseen,
      List.append_nil]
  cases h with
  | begin | sleptOffline =>
    simp only [runStep, hpc]
    exact ⟨_, rfl, stands_loopHead hserving hgen hcancel, outcomesOf_headSeen task⟩
  | sleptBackoff =>
    simp only [runStep, hpc]
    refine ⟨_, rfl, stands_loopHead hserving ?_ ?_, outcomesOf_headSeen task⟩
    · exact hgen
    · exact hcancel
  | offline | connectFails | connected | event =>
    simp only [runStep, hpc]
    exact ⟨_, rfl, ⟨hserving, _, rfl, rfl, hgen, hcancel⟩, rfl⟩
  | timeout | streamEnds =>
    simp only [runStep, hpc]
    exact ⟨_, rfl, ⟨hserving, _, rfl, rfl, hgen, rfl⟩, rfl⟩
  | stale receivedEvent =>
    simp only [runStep, hpc]
    refine ⟨_, rfl, stands_drained hserving hgen hcancel true receivedEvent, ?_⟩
    simpa [attemptSeen, hpc, outcomesOf] using outcomesOf_headSeen task
  | ended receivedEvent =>
    simp only [runStep, hpc]
    refine ⟨_, rfl, stands_drained hserving hgen hcancel false receivedEvent, ?_⟩
    simp [attemptSeen, hpc, outcomesOf]

/-- Moves one behind the other. -/
inductive Moves : RunPc → List RunAct → List Outcome → RunPc → Prop
  | nil (pc : RunPc) : Moves pc [] [] pc
  | cons {pc pc' pc'' : RunPc} {act : RunAct} {acts : List RunAct} {os os' : List Outcome}
    (move : Move pc act os pc') (moves : Moves pc' acts os' pc'') :
    Moves pc (act :: acts) (os ++ os') pc''

theorem Moves.run {pc pc' : RunPc} {acts : List RunAct} {os : List Outcome}
    (h : Moves pc acts os pc') (hs : Stands pc s) :
    ∃ s', Infra.run runNext s acts = some s' ∧ Stands pc' s' ∧
      outcomesOf (trace runNext runSeen s acts) = os := by
  induction h generalizing s with
  | nil => exact ⟨s, rfl, hs, rfl⟩
  | cons move _ ih =>
    obtain ⟨s₁, hnext, hs₁, hos⟩ := move.step hs
    obtain ⟨s₂, hrun, hs₂, hos'⟩ := ih hs₁
    refine ⟨s₂, run_cons_some.mpr ⟨s₁, hnext, hrun⟩, hs₂, ?_⟩
    simp only [trace, hnext, outcomesOf_append, hos, hos']

/-- What the awaits give the task from one `connect()` to the next. -/
def actsOf (event : SocialEvent) : Outcome → List RunAct
  | .offline => [.offline, .slept .returns]
  | .failed => [.connectFails, .slept .returns]
  | .stale receivedEvent =>
    .connected true :: (if receivedEvent then [.event event] else []) ++
      [.timeout, .closed .returns]
  | .ended receivedEvent =>
    .connected true :: (if receivedEvent then [.event event] else []) ++
      [.streamEnds, .closed .returns, .slept .returns]

theorem actsOf_moves (event : SocialEvent) (o : Outcome) :
    Moves .connecting (actsOf event o) [o] .connecting := by
  cases o with
  | offline => exact .cons .offline (.cons .sleptOffline (.nil _))
  | failed => exact .cons .connectFails (.cons .sleptBackoff (.nil _))
  | stale receivedEvent =>
    have hgoes : ∀ receivedEvent, Moves (.draining receivedEvent)
        [.timeout, .closed .returns] [.stale receivedEvent] .connecting :=
      fun _ => .cons (.timeout _) (.cons (.stale _) (.nil _))
    cases receivedEvent with
    | true => exact .cons .connected (.cons (.event _ event) (hgoes true))
    | false => exact .cons .connected (hgoes false)
  | ended receivedEvent =>
    have hends : ∀ receivedEvent, Moves (.draining receivedEvent)
        [.streamEnds, .closed .returns, .slept .returns] [.ended receivedEvent] .connecting :=
      fun _ => .cons (.streamEnds _) (.cons (.ended _) (.cons .sleptBackoff (.nil _)))
    cases receivedEvent with
    | true => exact .cons .connected (.cons (.event _ event) (hends true))
    | false => exact .cons .connected (hends false)

theorem actsOf_undisturbed (event : SocialEvent) (o : Outcome) :
    ∀ act ∈ actsOf event o, Undisturbed act := by
  rcases o with _ | _ | (_ | _) | (_ | _) <;> simp [actsOf, Undisturbed]

/-- **Every list of outcomes is that of a run.** -/
theorem outcomes_occur (s₀ : TikTokLiveIngestor κ) (uniqueId : String) (os : List Outcome) :
    ∃ acts s, (∀ act ∈ acts, Undisturbed act) ∧
      run runNext (s₀.launch uniqueId) acts = some s ∧ Stands .connecting s ∧
      outcomesOf (trace runNext runSeen (s₀.launch uniqueId) acts) = os := by
  induction os using List.reverseRecOn with
  | nil =>
    have hlaunch : Stands .created (s₀.launch uniqueId) := ⟨rfl, _, rfl, rfl, rfl, rfl⟩
    obtain ⟨s, hrun, hs, hos⟩ := (Moves.cons .begin (.nil _)).run hlaunch
    exact ⟨[.begin .returns], s, by simp [Undisturbed], hrun, hs, hos⟩
  | append_singleton os o ih =>
    obtain ⟨acts, s, hacts, hrun, hs, hos⟩ := ih
    obtain ⟨s', hrun', hs', ho⟩ :=
      (actsOf_moves { kind := .follow, userId := "", userName := "" } o).run hs
    refine ⟨acts ++ actsOf _ o, s', fun act hact => ?_, run_append_some.mpr ⟨s, hrun, hrun'⟩,
      hs', ?_⟩
    · rcases List.mem_append.mp hact with hact | hact
      · exact hacts act hact
      · exact actsOf_undisturbed _ o act hact
    · rw [trace_append hrun, outcomesOf_append, hos, ho]

/--
**The reconnect schedule.** From a `start` on, without a cancellation and with no `events()` that
raises, for `0 < backoff_initial ≤ backoff_max`: every list of outcomes is that of a run; and
whatever the run, its task is not done and can go on, and it has shown the transcript of its
outcomes, and the next attempt unless it sleeps before it.
-/
theorem backoff_schedule (s₀ : TikTokLiveIngestor κ) (uniqueId : String)
    (hpos : 0 < s₀.backoffInitial) (hle : s₀.backoffInitial ≤ s₀.backoffMax) (os : List Outcome) :
    (∃ acts, (∀ act ∈ acts, Undisturbed act) ∧ (run runNext (s₀.launch uniqueId) acts).isSome ∧
      outcomesOf (trace runNext runSeen (s₀.launch uniqueId) acts) = os) ∧
    ∀ acts s, (∀ act ∈ acts, Undisturbed act) →
      run runNext (s₀.launch uniqueId) acts = some s →
      let seen := trace runNext runSeen (s₀.launch uniqueId) acts
      outcomesOf seen = os →
      let expected :=
        transcript s₀.backoffInitial s₀.backoffMax s₀.offlinePollInterval os
      (∃ task, s.task = some task ∧ task.pc ≠ .done) ∧
      (∃ act, Undisturbed act ∧ (s.runNext act).isSome) ∧
      (Delayed os ∧ seen = expected ∨ seen = expected ++ [.attempt]) := by
  refine ⟨?_, fun acts s hacts hrun hos => ?_⟩
  · obtain ⟨acts, s, hacts, hrun, -, hos⟩ := outcomes_occur s₀ uniqueId os
    exact ⟨acts, hacts, by simp [hrun], hos⟩
  · have hi : Paced s₀.backoffInitial s₀.backoffMax s₀.offlinePollInterval s
        ([] ++ trace runNext runSeen (s₀.launch uniqueId) acts) :=
      run_trace_inv_along (fun _ act _ _ hi hact hs => paced_step hpos.le hle hi hact hs)
        (paced_launch s₀ uniqueId hle) (along_of_forall hacts) hrun
    rw [List.nil_append] at hi
    obtain ⟨htask, hseen⟩ := hi.seen_eq
    rw [hos] at hseen
    exact ⟨htask, hi.progress, hseen⟩

/-- A start, a refused connect, and an event before the stream ends. -/
def refusedThenEnds : List RunAct :=
  [.begin .returns, .connectFails, .slept .returns, .connected true,
    .event { kind := .follow, userId := "bao", userName := "Bao" }, .streamEnds, .closed .returns]

/-- The event resets the delay to the first one. -/
theorem refusedThenEnds_transcript :
    trace runNext runSeen ((new 1 60 30 : TikTokLiveIngestor Nat).launch "room") refusedThenEnds =
      transcript 1 60 30 [.failed, .ended true] := by
  have h := (backoff_schedule (new 1 60 30 : TikTokLiveIngestor Nat) "room" (by decide)
    (by decide) [.failed, .ended true]).2 refusedThenEnds _ (by simp [refusedThenEnds, Undisturbed])
    rfl rfl
  rcases h.2.2 with ⟨-, h⟩ | h
  · exact h
  · exact absurd (congrArg List.length h) (by decide)

end TikTokLiveIngestor

end Livehost
