import Livehost.Infra.Machine
import Livehost.Properties.Ingestor

/-!
# The turns a call waits for

A call that waits for the lock needs the calls before it to return, and a call with the lock needs
the task it cancelled to end. A turn is a step towards that: the first waiter's, one of the task
while somebody awaits it, and the end of that await.

* `turn_step` — a turn brings the call with the lock on, and the third has it return
* `turn_enabled` — while anybody is in the line, some turn can be taken
* `callers_step` — calls return in the order they were made
-/

namespace Livehost

open Infra

/-- The task only ends: it is done, a `CancelledError` is on its way, or one goes on after
`client.close()`. -/
def RunTask.ending (task : RunTask) : Bool :=
  match task.pc with
  | .done | .closing _ _ true => true
  | _ => task.cancelled

/-- How far the end of the task is. -/
def RunTask.stage (task : RunTask) : Nat :=
  if task.pc = .done then 3 else if task.cancelled then 1 else 2

theorem RunTask.stage_pos (task : RunTask) : 1 ≤ task.stage := by
  unfold stage
  split
  · decide
  · split <;> decide

theorem RunTask.stage_le (task : RunTask) : task.stage ≤ 3 := by
  unfold stage
  split
  · decide
  · split <;> decide

namespace TikTokLiveIngestor

variable {κ : Type} {s s' : TikTokLiveIngestor κ}

/-- A step that somebody in the line waits for. -/
def turn (s : TikTokLiveIngestor κ) : IngestAct κ → Bool
  | .call _ _ => false
  | .wake | .awaited => true
  | .run _ => s.lock.holder.isSome

/-- How far the call with the lock is. -/
def progress (s : TikTokLiveIngestor κ) : Nat :=
  match s.lock.holder, s.task with
  | some _, some task => task.stage
  | _, _ => 0

theorem progress_le (s : TikTokLiveIngestor κ) : s.progress ≤ 3 := by
  unfold progress
  split
  · exact RunTask.stage_le _
  · exact Nat.zero_le _

theorem progress_free (h : s.lock.holder = none) : s.progress = 0 := by
  unfold progress
  rw [h]

theorem progress_held {w : κ × LockOp} {task : RunTask} (hheld : s.lock.holder = some w)
    (htask : s.task = some task) : s.progress = task.stage := by
  unfold progress
  rw [hheld, htask]

/-- **The invariant**: whoever has the lock awaits a task that only ends. -/
def Held (s : TikTokLiveIngestor κ) : Prop :=
  ∀ w, s.lock.holder = some w → ∃ task, s.task = some task ∧ task.ending = true

theorem Held.of_free (h : s.lock.holder = none) : s.Held := by
  intro w hw
  rw [h] at hw
  cases hw

/-! ## The task's end -/

/-- While a `CancelledError` is on its way to the task, nothing else arrives. -/
theorem run_uncancelled {task : RunTask} {act : RunAct} {returned : Option κ}
    (htask : s.task = some task) (hs : s.step (.run act) = some (s', returned)) :
    task.pc ≠ .done ∧ (act = .cancelled ∧ s' = s.cancelArrives task ∨
      task.cancelled = false ∧ s.runStep task act = some s') := by
  by_cases hact : act = .cancelled
  · subst hact
    simp only [step, htask] at hs
    split at hs <;> cases hs
    next hdone => exact ⟨hdone, Or.inl ⟨rfl, rfl⟩⟩
  · have hstep : s.step (.run act) = if task.cancelled || task.pc = .done then none
        else (s.runStep task act).map fun s => (s, none) := by
      cases act <;> first | exact absurd rfl hact | simp only [step, htask]
    rw [hstep] at hs
    split at hs
    · cases hs
    next hfree =>
      obtain ⟨s₁, hrun, he⟩ := Option.map_eq_some_iff.mp hs
      cases he
      simp only [Bool.or_eq_true, decide_eq_true_eq, not_or, Bool.not_eq_true] at hfree
      exact ⟨hfree.2, Or.inr ⟨hfree.1, hrun⟩⟩

/-- **A task that only ends is nearer to it after each of its steps.** -/
theorem ending_run {task : RunTask} {act : RunAct} {returned : Option κ}
    (htask : s.task = some task) (hending : task.ending = true)
    (hs : s.step (.run act) = some (s', returned)) :
    ∃ task', s'.task = some task' ∧ task'.ending = true ∧ task.stage < task'.stage := by
  obtain ⟨hdone, ⟨rfl, rfl⟩ | ⟨hcancelled, hrun⟩⟩ := run_uncancelled htask hs
  · unfold cancelArrives
    cases hpc : task.pc
    case draining received =>
      have hcancelled : task.cancelled = true := by simpa [RunTask.ending, hpc] using hending
      exact ⟨_, rfl, rfl, by simp [RunTask.stage, hpc, hcancelled]⟩
    case done => exact absurd hpc hdone
    all_goals
      refine ⟨_, rfl, rfl, ?_⟩
      simp only [RunTask.stage, hpc, reduceCtorEq, if_false, if_true]
      split <;> decide
  · -- no `CancelledError` is on its way any more, so the client is being closed
    obtain ⟨stale, received, hpc⟩ : ∃ stale received, task.pc = .closing stale received true := by
      unfold RunTask.ending at hending
      split at hending
      next hpc => exact absurd hpc hdone
      next stale received hpc => exact ⟨stale, received, hpc⟩
      next => rw [hcancelled] at hending; cases hending
    cases act <;> simp only [runStep, hpc, reduceCtorEq, Option.some.injEq] at hrun
    subst hrun
    exact ⟨_, rfl, rfl, by simp [RunTask.stage, hpc, hcancelled]⟩

/-! ## Every step -/

/-- What `enter` leaves: the call has returned, or awaits the task it cancelled. -/
theorem enter_turn {lock : FifoLock (κ × LockOp)} {caller : κ} {op : LockOp}
    {returned : Option κ} (hheld : lock.holder = some (caller, op))
    (hs : { s with lock }.enter caller op = (s', returned)) :
    s'.Held ∧ (returned.isSome ∨ 1 ≤ s'.progress) := by
  rcases enter_step hs with ⟨task, -, htask, rfl⟩ | ⟨stop, rfl, -, rfl⟩
  · refine ⟨fun w _ => ⟨_, rfl, ?_⟩, Or.inr ?_⟩
    · unfold RunTask.ending
      split <;> rfl
    · rw [progress_held hheld rfl]
      exact RunTask.stage_pos _
  · refine ⟨.of_free ?_, Or.inl rfl⟩
    rw [finish_lock]
    rfl

/-- **A turn brings the call with the lock on**: no step takes it back before it returns, and it
does so within three turns. -/
theorem turn_step {a : IngestAct κ} {returned : Option κ} (hi : s.Held)
    (hs : s.step a = some (s', returned)) :
    s'.Held ∧
      s.progress + (if s.turn a then 1 else 0) ≤ 4 * returned.toList.length + s'.progress := by
  have hbound := s.progress_le
  cases a with
  | call caller op =>
    have hs : s.call caller op = (s', returned) := Option.some.inj hs
    rcases call_cases s caller op with ⟨hline, hcall⟩ | hcall
    · have hfree : s.lock.holder = none := by
        cases hheld : s.lock.holder with
        | none => rfl
        | some w => simp [FifoLock.line, hheld] at hline
      rw [hcall] at hs
      refine ⟨(enter_turn rfl hs).1, ?_⟩
      rw [progress_free hfree]
      exact Nat.zero_le _
    · rw [hcall] at hs
      cases hs
      exact ⟨hi, Nat.le_add_left _ _⟩
  | wake =>
    simp only [step] at hs
    split at hs
    next caller op lock hwake =>
      obtain ⟨hfree, hheld, -⟩ := FifoLock.wake_some hwake
      obtain ⟨hi', hr | hp⟩ := enter_turn hheld (Option.some.inj hs)
      · obtain ⟨c, rfl⟩ := Option.isSome_iff_exists.mp hr
        exact ⟨hi', by rw [progress_free hfree]; simp [turn]; omega⟩
      · refine ⟨hi', ?_⟩
        rw [progress_free hfree]
        exact Nat.le_add_left_of_le hp
    next => cases hs
  | awaited =>
    simp only [step] at hs
    split at hs
    next caller op task hheld htask =>
      split at hs <;> cases hs
      refine ⟨.of_free (by rw [finish_lock]; rfl), ?_⟩
      exact Nat.le_add_right_of_le (Nat.succ_le_succ hbound)
    next => cases hs
  | run act =>
    obtain ⟨hlock, -⟩ := run_lock hs
    obtain ⟨rfl, -⟩ := run_cases hs
    cases hheld : s.lock.holder with
    | none =>
      refine ⟨.of_free (by rw [hlock, hheld]), ?_⟩
      rw [progress_free hheld]
      simp [turn, hheld]
    | some w =>
      obtain ⟨task, htask, hending⟩ := hi w hheld
      obtain ⟨task', htask', hending', hlt⟩ := ending_run htask hending hs
      refine ⟨fun _ _ => ⟨task', htask', hending'⟩, ?_⟩
      rw [progress_held hheld htask, progress_held (hlock ▸ hheld) htask']
      simpa [turn, hheld] using Nat.succ_le_of_lt hlt

/-- **No deadlock**: while anybody is in the line, some turn can be taken. -/
theorem turn_enabled (hi : s.Held) (hline : s.lock.line ≠ []) :
    ∃ a, s.turn a = true ∧ (s.step a).isSome := by
  cases hheld : s.lock.holder with
  | none =>
    cases hwaiters : s.lock.waiters with
    | nil => exact absurd (by simp [FifoLock.line, hheld, hwaiters]) hline
    | cons w waiters =>
      exact ⟨.wake, rfl, by simp [step, FifoLock.wake, hheld, hwaiters]⟩
  | some w =>
    obtain ⟨task, htask, hending⟩ := hi w hheld
    have hturn : ∀ act, s.turn (.run act) = true := fun act => by simp [turn, hheld]
    by_cases hdone : task.pc = .done
    · exact ⟨.awaited, rfl, by simp [step, hheld, htask, hdone]⟩
    · exact ⟨.run .cancelled, hturn _, by simp [step, htask, hdone]⟩

/-! ## The order of the calls -/

/-- Who makes a call in the step. -/
def callerOf : IngestAct κ → Option κ
  | .call caller _ => some caller
  | _ => none

/-- Everybody the lock has yet to be done with, in the order they are served. -/
def callers (s : TikTokLiveIngestor κ) : List κ := s.lock.line.map Prod.fst

/-- **Calls return in the order they were made.** -/
theorem callers_step {a : IngestAct κ} {returned : Option κ} (hs : s.step a = some (s', returned)) :
    s.callers ++ (callerOf a).toList = returned.toList ++ s'.callers := by
  have hother : (∀ c o, a ≠ .call c o) → callerOf a = none := fun ha => by
    cases a <;> first | rfl | exact absurd rfl (ha _ _)
  unfold callers
  rcases step_line hs with ⟨c, o, rfl, rfl, hline⟩ | ⟨c, o, rfl, rfl, hline, hlock, -⟩ |
    ⟨c, o, ha, rfl, hline, hfree, -⟩ | ⟨ha, rfl, hline⟩
  · rw [hline]
    simp [callerOf]
  · rw [hline, hlock]
    rfl
  · rw [hother ha, hline, line_free hfree]
    simp
  · rw [hother ha, hline]
    simp

/-- **Who is in the line after a step**: whoever was or calls, but for the call that returns. -/
theorem mem_line_iff {a : IngestAct κ} {returned : Option κ} (honce : s.callers.Nodup)
    (hs : s.step a = some (s', returned)) (w : κ × LockOp) :
    w ∈ s'.lock.line ↔ (w ∈ s.lock.line ∨ a = .call w.1 w.2) ∧ returned ≠ some w.1 := by
  rcases step_line hs with ⟨c, o, rfl, rfl, hline⟩ | ⟨c, o, rfl, rfl, hline, hlock, -⟩ |
    ⟨c, o, ha, rfl, hline, hfree, -⟩ | ⟨ha, rfl, hline⟩
  · rw [hline]
    simp [Prod.ext_iff, eq_comm]
  · rw [hline, hlock]
    simp only [List.not_mem_nil, false_or, IngestAct.call.injEq]
    refine ⟨fun hw => (by cases hw), fun h => absurd (congrArg some h.1.1) h.2⟩
  · rw [callers, hline, List.map_cons, List.nodup_cons] at honce
    rw [hline, line_free hfree]
    simp only [List.mem_cons, ha, or_false]
    constructor
    · refine fun hw => ⟨Or.inr hw, fun hr => honce.1 ?_⟩
      show c ∈ _
      rw [Option.some.inj hr]
      exact List.mem_map_of_mem hw
    · rintro ⟨rfl | hw, hne⟩
      · exact absurd rfl hne
      · exact hw
  · rw [hline]
    simp [ha]

theorem callers_nodup {a : IngestAct κ} {returned : Option κ} (honce : s.callers.Nodup)
    (hnew : ∀ caller, callerOf a = some caller → caller ∉ s.callers)
    (hs : s.step a = some (s', returned)) : s'.callers.Nodup := by
  have hall : (s.callers ++ (callerOf a).toList).Nodup := by
    cases hcaller : callerOf a with
    | none => simpa using honce
    | some caller =>
      rw [Option.toList_some, List.nodup_append]
      refine ⟨honce, by simp, fun c hc c' hc' => ?_⟩
      obtain rfl := List.mem_singleton.mp hc'
      rintro rfl
      exact hnew c hcaller hc
  rw [callers_step hs] at hall
  exact (List.nodup_append.mp hall).2.1

end TikTokLiveIngestor

end Livehost
