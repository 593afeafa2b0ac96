import Livehost.Ingest.Tiktok
import Mathlib.Data.List.ModifyLast

/-!
# Calls on an ingestor

`start` and `stop` are served in the order of the calls. So a `stop` behind which only `stop`s wait
leaves the ingestor idle for good.

* `step_line` — everything a step can do to the line of callers
* `Quiet` — idle, with no task and no `start` to come; `quiet_step`
* `Doomed` — a `stop` of a given caller is in the line, and only `stop`s behind it; `doomed_step`
-/

namespace Livehost

open Infra

namespace TikTokLiveIngestor

variable {κ : Type} {s s' : TikTokLiveIngestor κ}

theorem length_modifyLast (f : LiveClient → LiveClient) (clients : List LiveClient) :
    (clients.modifyLast f).length = clients.length := by
  rcases List.eq_nil_or_concat clients with rfl | ⟨old, c, rfl⟩
  · rfl
  · simp [List.modifyLast_concat]

/-! ## The line -/

theorem finish_lock (s : TikTokLiveIngestor κ) (op : LockOp) :
    (s.finish op).lock = s.lock.release := by
  cases op <;> rfl

/-- A running task is cancelled and awaited; otherwise the call returns. -/
theorem enter_cases (s : TikTokLiveIngestor κ) (caller : κ) (op : LockOp) :
    (∃ task, s.task = some task ∧ task.pc ≠ .done ∧ s.enter caller op =
      ({ s with stopRequested := true, task := some { task with cancelled := true } }, none)) ∨
    (∀ task, s.task = some task → task.pc = .done) ∧
      s.enter caller op = ({ s with stopRequested := true }.finish op, some caller) := by
  cases htask : s.task with
  | none => exact Or.inr ⟨by simp, by simp only [enter, htask]⟩
  | some task =>
    by_cases hdone : task.pc = .done
    · refine Or.inr ⟨fun task' he => ?_, by simp only [enter, htask, hdone, if_true]⟩
      cases he
      exact hdone
    · exact Or.inl ⟨task, rfl, hdone, by simp only [enter, htask, hdone, if_false]⟩

/-- What the steps of the task change at most, but for the event it puts on the queue. -/
def TaskFrame (s s' : TikTokLiveIngestor κ) : Prop :=
  ∃ state task clients, s' = { s with state, task, clients }

theorem loopHead_frame (s : TikTokLiveIngestor κ) (task : RunTask) (factory : FactoryOutcome) :
    TaskFrame s (s.loopHead task factory) := by
  unfold loopHead
  split
  · cases factory <;> exact ⟨_, _, _, rfl⟩
  · exact ⟨_, _, _, rfl⟩

theorem drained_frame (s : TikTokLiveIngestor κ) (task : RunTask) (stale receivedEvent : Bool)
    (factory : FactoryOutcome) : TaskFrame s (s.drained task stale receivedEvent factory) := by
  unfold drained
  cases receivedEvent <;> simp only [if_true, Bool.false_eq_true, if_false]
  all_goals
    split
    · exact ⟨_, _, _, rfl⟩
    · split
      · exact loopHead_frame ..
      · exact ⟨_, _, _, rfl⟩

theorem cancelArrives_frame (s : TikTokLiveIngestor κ) (task : RunTask) :
    TaskFrame s (s.cancelArrives task) := by
  unfold cancelArrives
  split <;> exact ⟨_, _, _, rfl⟩

theorem runStep_frame {task : RunTask} {act : RunAct} (hs : s.runStep task act = some s') :
    TaskFrame s s' ∨ ∃ event receivedEvent, task.pc = .draining receivedEvent ∧
      s' = { s with
        queue := s.queue ++ [event]
        task := some { task with pc := .draining true } } := by
  cases act <;> simp only [runStep] at hs
  case cancelled => cases hs
  case begin =>
    split at hs <;> cases hs
    exact Or.inl (loopHead_frame ..)
  case slept =>
    split at hs <;> cases hs <;> exact Or.inl (loopHead_frame ..)
  case event event =>
    split at hs <;> cases hs
    next receivedEvent hpc => exact Or.inr ⟨event, receivedEvent, hpc, rfl⟩
  case closed =>
    split at hs <;> cases hs
    · exact Or.inl ⟨_, _, _, rfl⟩
    · exact Or.inl (drained_frame ..)
  all_goals
    split at hs <;> cases hs
    exact Or.inl ⟨_, _, _, rfl⟩

/-- **A step of the task** is a step of `_run` or the arrival of a `CancelledError`. -/
theorem run_cases {act : RunAct} {returned : Option κ}
    (hs : s.step (.run act) = some (s', returned)) :
    returned = none ∧ ∃ task, s.task = some task ∧ task.pc ≠ .done ∧
      (s.runStep task act = some s' ∨ act = .cancelled ∧ s' = s.cancelArrives task) := by
  simp only [step] at hs
  split at hs
  next task htask =>
    split at hs <;> cases hs
    next hdone => exact ⟨rfl, task, htask, hdone, Or.inr ⟨rfl, rfl⟩⟩
  next task htask hact =>
    split at hs
    · cases hs
    next hfree =>
      obtain ⟨s₁, hrun, he⟩ := Option.map_eq_some_iff.mp hs
      cases he
      exact ⟨rfl, task, htask, fun hdone => hfree (by simp [hdone]), Or.inl hrun⟩
  next => cases hs

theorem run_frame {act : RunAct} {returned : Option κ}
    (hs : s.step (.run act) = some (s', returned)) :
    TaskFrame s s' ∨ ∃ event task receivedEvent, s.task = some task ∧
      task.pc = .draining receivedEvent ∧
      s' = { s with
        queue := s.queue ++ [event]
        task := some { task with pc := .draining true } } := by
  obtain ⟨-, task, htask, -, hrun | ⟨-, rfl⟩⟩ := run_cases hs
  · rcases runStep_frame hrun with hframe | ⟨event, receivedEvent, hpc, he⟩
    · exact Or.inl hframe
    · exact Or.inr ⟨event, task, receivedEvent, htask, hpc, he⟩
  · exact Or.inl (cancelArrives_frame s task)

theorem run_lock {act : RunAct} {returned : Option κ}
    (hs : s.step (.run act) = some (s', returned)) :
    s'.lock = s.lock ∧ s'.uniqueId = s.uniqueId := by
  rcases run_frame hs with ⟨_, _, _, rfl⟩ | ⟨_, _, _, -, -, rfl⟩ <;> exact ⟨rfl, rfl⟩

/-- The state a finished call leaves. -/
def Finished (s : TikTokLiveIngestor κ) : LockOp → Prop
  | .start _ => True
  | .stop => s.state = .idle ∧ s.task = none

theorem finish_finished (s : TikTokLiveIngestor κ) (op : LockOp) : (s.finish op).Finished op := by
  cases op
  · trivial
  · exact ⟨rfl, rfl⟩

/-- A call gets the lock at once, on an empty line, or joins the line. -/
theorem call_cases (s : TikTokLiveIngestor κ) (caller : κ) (op : LockOp) :
    (s.lock.line = [] ∧
      s.call caller op = { s with lock := { holder := some (caller, op) } }.enter caller op) ∨
    s.call caller op
      = ({ s with lock := { s.lock with waiters := s.lock.waiters ++ [(caller, op)] } }, none) := by
  unfold call
  cases hgrant : (s.lock.acquire (caller, op)).1 with
  | true =>
    obtain ⟨hline, hlock⟩ := FifoLock.acquire_granted hgrant
    have hp : s.lock.acquire (caller, op) = (true, { holder := some (caller, op) }) :=
      Prod.ext hgrant hlock
    exact Or.inl ⟨hline, by rw [hp]⟩
  | false =>
    have hp : s.lock.acquire (caller, op)
        = (false, { s.lock with waiters := s.lock.waiters ++ [(caller, op)] }) :=
      Prod.ext hgrant (FifoLock.acquire_waits hgrant)
    exact Or.inr (by rw [hp])

/-- **Everything a step can do to the line**: a call joins it at the end, the call at its front
returns, a call on an empty line returns at once, or nothing. -/
theorem step_line {a : IngestAct κ} {returned : Option κ} (hs : s.step a = some (s', returned)) :
    (∃ caller op, a = .call caller op ∧ returned = none ∧
      s'.lock.line = s.lock.line ++ [(caller, op)]) ∨
    (∃ caller op, a = .call caller op ∧ returned = some caller ∧ s.lock.line = [] ∧
      s'.lock = {} ∧ s'.Finished op) ∨
    (∃ caller op, (∀ c o, a ≠ .call c o) ∧ returned = some caller ∧
      s.lock.line = (caller, op) :: s'.lock.waiters ∧ s'.lock.holder = none ∧ s'.Finished op) ∨
    ((∀ c o, a ≠ .call c o) ∧ returned = none ∧ s'.lock.line = s.lock.line) := by
  cases a with
  | call caller op =>
    have hs : s.call caller op = (s', returned) := Option.some.inj hs
    rcases call_cases s caller op with ⟨hline, hcall⟩ | hcall
    · rcases enter_cases { s with lock := { holder := some (caller, op) } } caller op with
        ⟨task, -, -, he⟩ | ⟨-, he⟩
      · rw [hcall, he] at hs
        cases hs
        exact Or.inl ⟨caller, op, rfl, rfl, by rw [hline]; rfl⟩
      · rw [hcall, he] at hs
        cases hs
        exact Or.inr (Or.inl ⟨caller, op, rfl, rfl, hline, finish_lock .., finish_finished ..⟩)
    · rw [hcall] at hs
      cases hs
      exact Or.inl ⟨caller, op, rfl, rfl, by simp [FifoLock.line]⟩
  | wake =>
    refine Or.inr (Or.inr ?_)
    simp only [step] at hs
    split at hs
    next caller op lock hwake =>
      obtain ⟨-, hheld, -⟩ := FifoLock.wake_some hwake
      have hs : { s with lock }.enter caller op = (s', returned) := Option.some.inj hs
      rcases enter_cases { s with lock } caller op with ⟨task, -, -, he⟩ | ⟨-, he⟩
      · rw [he] at hs
        cases hs
        exact Or.inr ⟨by simp, rfl, FifoLock.line_wake hwake⟩
      · rw [he] at hs
        cases hs
        refine Or.inl ⟨caller, op, by simp, rfl, ?_, ?_, finish_finished ..⟩
        · rw [finish_lock, ← FifoLock.line_wake hwake]
          exact FifoLock.line_release hheld
        · rw [finish_lock]
          rfl
    next => cases hs
  | awaited =>
    refine Or.inr (Or.inr (Or.inl ?_))
    simp only [step] at hs
    split at hs
    next caller op task hheld htask =>
      split at hs <;> cases hs
      refine ⟨caller, op, by simp, rfl, ?_, ?_, finish_finished ..⟩
      · rw [finish_lock]
        exact FifoLock.line_release hheld
      · rw [finish_lock]
        rfl
    next => cases hs
  | run act =>
    exact Or.inr (Or.inr (Or.inr ⟨by simp, (run_cases hs).1, by rw [(run_lock hs).1]⟩))

/-- A call returns to its own caller, if it does. -/
theorem call_returned (s : TikTokLiveIngestor κ) (caller : κ) (op : LockOp) :
    (s.call caller op).2 = none ∨ (s.call caller op).2 = some caller := by
  rcases call_cases s caller op with ⟨-, hcall⟩ | hcall
  · rw [hcall]
    rcases enter_cases { s with lock := { holder := some (caller, op) } } caller op with
      ⟨_, -, -, he⟩ | ⟨-, he⟩
    · exact Or.inl (by rw [he])
    · exact Or.inr (by rw [he])
  · exact Or.inl (by rw [hcall])

/-- Whoever is in the line was there before, or is the caller of the step. -/
theorem mem_line_step {a : IngestAct κ} {returned : Option κ} (hs : s.step a = some (s', returned))
    {w : κ × LockOp} (hw : w ∈ s'.lock.line) :
    w ∈ s.lock.line ∨ a = .call w.1 w.2 := by
  rcases step_line hs with ⟨c, o, rfl, -, hline⟩ | ⟨c, o, -, -, -, hlock, -⟩ |
    ⟨c, o, -, -, hline, hfree, -⟩ | ⟨-, -, hline⟩
  · rw [hline] at hw
    rcases List.mem_append.mp hw with hw | hw
    · exact Or.inl hw
    · rw [List.mem_singleton.mp hw]
      exact Or.inr rfl
  · rw [hlock] at hw
    cases hw
  · left
    rw [hline]
    refine List.mem_cons_of_mem _ ?_
    simpa [FifoLock.line, hfree] using hw
  · exact Or.inl (hline ▸ hw)

/-! ## Who has the lock -/

/-- The call that takes the lock in the step. -/
def takes (s : TikTokLiveIngestor κ) : IngestAct κ → Option LockOp
  | .call caller op => if (s.lock.acquire (caller, op)).1 then some op else none
  | .wake => s.lock.wake.map fun w => w.1.2
  | _ => none

/-- The call that the step goes on with. -/
def served (s : TikTokLiveIngestor κ) : IngestAct κ → Option LockOp
  | .call _ op => some op
  | .wake => s.lock.wake.map fun w => w.1.2
  | .awaited => s.lock.holder.map (·.2)
  | .run _ => none

theorem enter_step {lock : FifoLock (κ × LockOp)} {caller : κ} {op : LockOp}
    {returned : Option κ} (hs : { s with lock }.enter caller op = (s', returned)) :
    (∃ task, returned = none ∧ s.task = some task ∧ s' =
      { s with stopRequested := true, task := some { task with cancelled := true }, lock }) ∨
    (∃ stopRequested, returned = some caller ∧ (∀ task, s.task = some task → task.pc = .done) ∧
      s' = { s with stopRequested, lock }.finish op) := by
  rcases enter_cases { s with lock } caller op with ⟨task, htask, -, he⟩ | ⟨htask, he⟩
  · rw [he] at hs
    cases hs
    exact Or.inl ⟨task, rfl, htask, rfl⟩
  · rw [he] at hs
    cases hs
    exact Or.inr ⟨true, rfl, htask, rfl⟩

/-- **Everything a step can do**: a call waits, a call takes the lock and cancels the running task,
a call finishes behind a task that is done, or the task goes on. -/
theorem step_cases {a : IngestAct κ} {returned : Option κ} (hs : s.step a = some (s', returned)) :
    (∃ waiters, returned = none ∧ s.takes a = none ∧
      s' = { s with lock := { s.lock with waiters } }) ∨
    (∃ op task lock, returned = none ∧ s.takes a = some op ∧ s.task = some task ∧
      s' = { s with
        stopRequested := true
        task := some { task with cancelled := true }
        lock }) ∨
    (∃ caller op stopRequested lock, returned = some caller ∧ s.served a = some op ∧
      (s.takes a = some op ∨ s.lock.holder = some (caller, op)) ∧
      (∀ task, s.task = some task → task.pc = .done) ∧
      s' = { s with stopRequested, lock }.finish op) ∨
    ∃ act, a = .run act := by
  cases a with
  | call caller op =>
    have hs : s.call caller op = (s', returned) := Option.some.inj hs
    unfold call at hs
    split at hs
    next lock hgrant =>
      have htakes : s.takes (.call caller op) = some op := if_pos (by rw [hgrant])
      rcases enter_step hs with ⟨task, hr, htask, he⟩ | ⟨stop, hr, htask, he⟩
      · exact Or.inr (Or.inl ⟨op, task, lock, hr, htakes, htask, he⟩)
      · exact Or.inr (Or.inr (Or.inl
          ⟨caller, op, stop, lock, hr, rfl, Or.inl htakes, htask, he⟩))
    next lock hwait =>
      have hlock := FifoLock.acquire_waits (l := s.lock) (k := (caller, op)) (by rw [hwait])
      rw [hwait] at hlock
      cases hs
      exact Or.inl ⟨_, rfl, if_neg (by simp [hwait]), by rw [← hlock]⟩
  | wake =>
    simp only [step] at hs
    split at hs
    next caller op lock hwake =>
      have htakes : s.takes .wake = some op := by simp [takes, hwake]
      rcases enter_step (Option.some.inj hs) with ⟨task, hr, htask, he⟩ | ⟨stop, hr, htask, he⟩
      · exact Or.inr (Or.inl ⟨op, task, lock, hr, htakes, htask, he⟩)
      · exact Or.inr (Or.inr (Or.inl
          ⟨caller, op, stop, lock, hr, htakes, Or.inl htakes, htask, he⟩))
    next => cases hs
  | awaited =>
    simp only [step] at hs
    split at hs
    next caller op task hheld htask =>
      split at hs <;> cases hs
      next hdone =>
        refine Or.inr (Or.inr (Or.inl ⟨caller, op, s.stopRequested, s.lock, rfl, ?_, Or.inr hheld,
          fun task' he => ?_, rfl⟩))
        · simp [served, hheld]
        · rw [htask] at he
          cases he
          exact hdone
    next => cases hs
  | run act => exact Or.inr (Or.inr (Or.inr ⟨act, rfl⟩))

/-! ## Idle -/

/-- Idle, with no task, and nobody has the lock. -/
structure Idle (s : TikTokLiveIngestor κ) : Prop where
  idle : s.state = .idle
  noTask : s.task = none
  free : s.lock.holder = none

theorem idle_finish (s : TikTokLiveIngestor κ) : (s.finish .stop).Idle := ⟨rfl, rfl, rfl⟩

/-- **An idle ingestor stays idle** until a `start` takes the lock. -/
theorem idle_step {a : IngestAct κ} {returned : Option κ} (hi : s.Idle)
    (ha : ∀ uniqueId, s.takes a ≠ some (.start uniqueId)) (hs : s.step a = some (s', returned)) :
    s'.Idle := by
  rcases step_cases hs with ⟨waiters, -, -, rfl⟩ | ⟨op, task, lock, -, -, htask, -⟩ |
    ⟨caller, op, stop, lock, -, -, htakes, -, rfl⟩ | ⟨act, rfl⟩
  · exact ⟨hi.idle, hi.noTask, hi.free⟩
  · rw [hi.noTask] at htask
    cases htask
  · rcases htakes with htakes | hheld
    · cases op with
      | start uniqueId => exact absurd htakes (ha uniqueId)
      | stop => exact idle_finish _
    · rw [hi.free] at hheld
      cases hheld
  · simp [step, hi.noTask] at hs

/-! ## Quiet -/

/-- Idle, with no task, and no `start` in the line. -/
structure Quiet (s : TikTokLiveIngestor κ) : Prop where
  idle : s.state = .idle
  noTask : s.task = none
  free : s.lock.holder = none
  stops : ∀ w ∈ s.lock.waiters, w.2 = .stop

theorem Quiet.queue (hq : s.Quiet) (queue : List SocialEvent) : Quiet { s with queue } :=
  ⟨hq.idle, hq.noTask, hq.free, hq.stops⟩

/-- The line of a free lock is that of the waiters. -/
theorem line_free (h : s.lock.holder = none) : s.lock.line = s.lock.waiters := by
  simp [FifoLock.line, h]

theorem takes_mem {a : IngestAct κ} {op : LockOp} (h : s.takes a = some op) :
    (∃ caller, a = .call caller op) ∨ ∃ w ∈ s.lock.waiters, w.2 = op := by
  cases a with
  | call caller op' =>
    simp only [takes] at h
    split at h <;> cases h
    exact Or.inl ⟨caller, rfl⟩
  | wake =>
    obtain ⟨⟨w, lock⟩, hwake, rfl⟩ := Option.map_eq_some_iff.mp h
    obtain ⟨-, -, hwaiters⟩ := FifoLock.wake_some hwake
    exact Or.inr ⟨w, by rw [hwaiters]; exact List.mem_cons_self, rfl⟩
  | awaited | run => cases h

/-- **A quiet ingestor stays quiet** until the next call of `start`. -/
theorem quiet_step {a : IngestAct κ} {returned : Option κ} (hq : s.Quiet)
    (ha : ∀ caller uniqueId, a ≠ .call caller (.start uniqueId))
    (hs : s.step a = some (s', returned)) : s'.Quiet := by
  have hidle : s'.Idle := by
    refine idle_step ⟨hq.idle, hq.noTask, hq.free⟩ (fun uniqueId htakes => ?_) hs
    rcases takes_mem htakes with ⟨caller, rfl⟩ | ⟨w, hw, hop⟩
    · exact ha caller uniqueId rfl
    · rw [hq.stops w hw] at hop
      cases hop
  refine ⟨hidle.idle, hidle.noTask, hidle.free, fun w hw => ?_⟩
  rcases mem_line_step hs (by rw [line_free hidle.free]; exact hw) with hw | rfl
  · exact hq.stops w (by rwa [line_free hq.free] at hw)
  · cases hop : w.2 with
    | start uniqueId => exact absurd (by rw [hop]) (ha w.1 uniqueId)
    | stop => rfl

/-! ## Doomed -/

/-- A `stop` of `caller` is in the line, as its only call, and only `stop`s are behind it. -/
def Doomed (s : TikTokLiveIngestor κ) (caller : κ) : Prop :=
  ∃ before behind, s.lock.line = before ++ (caller, .stop) :: behind ∧
    (∀ w ∈ before, w.1 ≠ caller) ∧ ∀ w ∈ behind, w.1 ≠ caller ∧ w.2 = .stop

/-- The caller of a `stop` is in the line with it, or has returned and left the ingestor quiet. -/
theorem call_stop {caller : κ} {returned : Option κ} (hs : ∀ w ∈ s.lock.line, w.1 ≠ caller)
    (hcall : s.call caller .stop = (s', returned)) :
    (returned = none ∧ s'.Doomed caller) ∨
      (returned = some caller ∧ s'.lock = {} ∧ s'.Quiet) := by
  have hstep : s.step (.call caller .stop) = some (s', returned) := congrArg some hcall
  rcases step_line hstep with ⟨c, o, he, hr, hline⟩ | ⟨c, o, he, hr, -, hlock, hfin⟩ |
    ⟨c, o, hne, -⟩ | ⟨hne, -⟩
  · cases he
    exact Or.inl ⟨hr, s.lock.line, [], hline, hs, by simp⟩
  · cases he
    exact Or.inr ⟨hr, hlock, hfin.1, hfin.2, by rw [hlock], by simp [hlock]⟩
  · exact absurd rfl (hne _ _)
  · exact absurd rfl (hne _ _)

/-- **A doomed ingestor stays doomed until the `stop` has returned, and is quiet then.** -/
theorem doomed_step {caller : κ} {a : IngestAct κ} {returned : Option κ} (hd : s.Doomed caller)
    (ha : ∀ c op, a = .call c op → c ≠ caller ∧ op = .stop)
    (hs : s.step a = some (s', returned)) :
    (returned = some caller ∧ s'.Quiet ∧ ∀ w ∈ s'.lock.line, w.1 ≠ caller) ∨
    (returned ≠ some caller ∧ s'.Doomed caller) := by
  obtain ⟨before, behind, hline, hbefore, hbehind⟩ := hd
  rcases step_line hs with ⟨c, o, he, rfl, hline'⟩ | ⟨c, o, he, -, hnil, -⟩ |
    ⟨c, o, -, rfl, hfront, hfree, hfin⟩ | ⟨-, rfl, hline'⟩
  · -- another call joins behind the `stop`
    right
    refine ⟨by simp, before, behind ++ [(c, o)], by rw [hline', hline]; simp, hbefore, ?_⟩
    intro w hw
    rcases List.mem_append.mp hw with hw | hw
    · exact hbehind w hw
    · rw [List.mem_singleton.mp hw]
      exact ha c o he
  · -- the line is not empty, so no call returns at once
    rw [hnil] at hline
    simp at hline
  · -- the front of the line returns: the `stop` itself, or a call before it
    rw [hline] at hfront
    have hline' : s'.lock.line = s'.lock.waiters := line_free hfree
    cases before with
    | nil =>
      left
      obtain ⟨he, hrest⟩ := List.cons.inj hfront
      cases he
      refine ⟨rfl, ⟨hfin.1, hfin.2, hfree, fun w hw => ?_⟩, fun w hw => ?_⟩
      · exact (hbehind w (by rw [hrest]; exact hw)).2
      · exact (hbehind w (by rw [hrest, ← hline']; exact hw)).1
    | cons w before =>
      right
      obtain ⟨he, hrest⟩ := List.cons.inj hfront
      subst he
      refine ⟨fun hc => hbefore (c, o) List.mem_cons_self (Option.some.inj hc), before, behind,
        hline'.trans hrest.symm, fun w hw => hbefore w (List.mem_cons_of_mem _ hw), hbehind⟩
  · exact Or.inr ⟨by simp, before, behind, hline'.trans hline, hbefore, hbehind⟩

end TikTokLiveIngestor

end Livehost
