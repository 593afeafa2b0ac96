import Livehost.Properties.OneConnection

/-!
# Abandoned clients

Every client object holds an HTTP client of its own until its `close()` is called. `_drain` calls
it on every way out. A `connect()` that raises, or is cancelled, leaves `_run` or its `try` block
behind with the client still in hand, and the next attempt overwrites the variable.

* `settled_step` — a step keeps the clients closed exactly when no `connect()` fails in it
* `none_abandoned_iff` — every client is closed in time exactly when every `connect()` so far
  returned
* `offline_room_abandons` — an offline room leaves one client behind at every poll
-/

namespace Livehost

open Infra

/-- A client is in the task's hand, and not closed yet. -/
def RunPc.working : RunPc → Bool
  | .connecting | .draining _ => true
  | _ => false

/-- `close()` was called on every client. -/
def AllClosed (clients : List LiveClient) : Prop := ∀ c ∈ clients, c.closed = true

namespace TikTokLiveIngestor

variable {κ : Type} {s s' : TikTokLiveIngestor κ}

/-- The clients the task does not work with. -/
def settled (s : TikTokLiveIngestor κ) : List LiveClient :=
  match s.task with
  | some task => if task.pc.working then s.clients.dropLast else s.clients
  | none => s.clients

/-- The client the task works with is the last one, not closed yet. -/
def Unfinished (s : TikTokLiveIngestor κ) : Prop :=
  ∀ task, s.task = some task → task.pc.working = true →
    ∃ old c, s.clients = old ++ [c] ∧ c.closed = false

/-- A `connect()` returns, and so does the `events()` behind it. -/
def ConnectReturns (s : TikTokLiveIngestor κ) (a : IngestAct κ) : Prop :=
  ∀ task act, s.task = some task → task.pc = .connecting → a = .run act → act = .connected true

/-- In the run, the step after `pre` builds a client, or a `stop` returns in it. -/
def DueAfter (s₀ : TikTokLiveIngestor κ) (acts pre : List (IngestAct κ))
    (m : TikTokLiveIngestor κ) : Prop :=
  ∃ a post m' returned, acts = pre ++ a :: post ∧ run next s₀ pre = some m ∧
    m.step a = some (m', returned) ∧
    (m.clients.length < m'.clients.length ∨ returned ≠ none ∧ m.served a = some .stop)

/-- **The law**: `close()` was called on every client before the next one is built and before a
`stop` returns. -/
def NoneAbandoned (s₀ : TikTokLiveIngestor κ) (acts : List (IngestAct κ)) : Prop :=
  ∀ pre m, DueAfter s₀ acts pre m → AllClosed m.clients

/-! ## The task -/

/-- The clients that are out of the task's hand. -/
structure Settled (s : TikTokLiveIngestor κ) (clients : List LiveClient) : Prop where
  unfinished : s.Unfinished
  settled : s.settled = clients

theorem Settled.of_resting {task : RunTask} (htask : s.task = some task)
    (hpc : task.pc.working = false) : s.Settled s.clients := by
  refine ⟨fun task' he hw => ?_, ?_⟩
  · rw [htask] at he
    cases he
    rw [hpc] at hw
    cases hw
  · simp [TikTokLiveIngestor.settled, htask, hpc]

theorem Settled.of_working {task : RunTask} {old : List LiveClient} {c : LiveClient}
    (htask : s.task = some task) (hpc : task.pc.working = true) (hclients : s.clients = old ++ [c])
    (hc : c.closed = false) : s.Settled old :=
  ⟨fun _ _ _ => ⟨old, c, hclients, hc⟩,
    by simp [TikTokLiveIngestor.settled, htask, hpc, hclients]⟩

theorem settled_loopHead (s : TikTokLiveIngestor κ) (task : RunTask) (factory : FactoryOutcome) :
    (s.loopHead task factory).Settled s.clients := by
  unfold loopHead
  split
  · cases factory with
    | returns => exact Settled.of_working (c := { uniqueId := s.uniqueId }) rfl rfl rfl rfl
    | roomOffline | fails | cancelled => exact Settled.of_resting rfl rfl
  · exact Settled.of_resting rfl rfl

theorem settled_drained (s : TikTokLiveIngestor κ) (task : RunTask) (stale receivedEvent : Bool)
    (factory : FactoryOutcome) :
    (s.drained task stale receivedEvent factory).Settled s.clients := by
  unfold drained
  cases receivedEvent <;> simp only [if_true, Bool.false_eq_true, if_false]
  all_goals
    split
    · exact Settled.of_resting rfl rfl
    · split
      · exact settled_loopHead ..
      · exact Settled.of_resting rfl rfl

/-- Leaving `_drain` closes the client that was drained. -/
theorem settled_leaveDrain {task : RunTask} {old : List LiveClient} {c : LiveClient}
    (hclients : s.clients = old ++ [c]) (stale receivedEvent unwinding : Bool) :
    (s.leaveDrain task stale receivedEvent unwinding).Settled
      (old ++ [{ c with closed := true }]) := by
  have he : (s.leaveDrain task stale receivedEvent unwinding).clients
      = old ++ [{ c with closed := true }] := by
    show s.clients.modifyLast _ = _
    rw [hclients, List.modifyLast_concat]
  have h := Settled.of_resting (s := s.leaveDrain task stale receivedEvent unwinding) rfl rfl
  rwa [he] at h

theorem connectReturns_of_ne {task : RunTask} {a : IngestAct κ} (htask : s.task = some task)
    (hpc : task.pc ≠ .connecting) : s.ConnectReturns a := by
  intro task' act he hconn
  rw [htask] at he
  cases he
  exact absurd hconn hpc

/-- A step of a task that has no client in hand. -/
theorem settled_resting {task : RunTask} {act : RunAct} (hpc : task.pc.working = false)
    (hrun : s.runStep task act = some s' ∨ act = .cancelled ∧ s' = s.cancelArrives task) :
    s'.Settled s.clients := by
  rcases hrun with hrun | ⟨-, rfl⟩
  · cases act <;> simp only [runStep] at hrun
    case cancelled => cases hrun
    case begin | slept =>
      split at hrun <;> cases hrun <;> exact settled_loopHead ..
    case closed =>
      split at hrun <;> cases hrun
      · exact Settled.of_resting rfl rfl
      · exact settled_drained ..
    all_goals
      split at hrun <;> cases hrun
      next hat => simp [hat, RunPc.working] at hpc
  · unfold cancelArrives
    split
    next hat => simp [hat, RunPc.working] at hpc
    next => exact Settled.of_resting rfl rfl

/-- A step of a task whose client drains. -/
theorem settled_draining {task : RunTask} {act : RunAct} {receivedEvent : Bool}
    {old : List LiveClient} {c : LiveClient} (hpc : task.pc = .draining receivedEvent)
    (hclients : s.clients = old ++ [c]) (hc : c.closed = false)
    (hrun : s.runStep task act = some s' ∨ act = .cancelled ∧ s' = s.cancelArrives task) :
    ∃ clients, s'.Settled clients ∧ (AllClosed clients ↔ AllClosed old) := by
  have hclose : AllClosed (old ++ [{ c with closed := true }]) ↔ AllClosed old := by
    simp [AllClosed, or_imp, forall_and]
  rcases hrun with hrun | ⟨-, rfl⟩
  · cases act <;> simp only [runStep, hpc, reduceCtorEq, Option.some.injEq] at hrun
    case event event =>
      cases hrun
      exact ⟨old, Settled.of_working rfl rfl hclients hc, Iff.rfl⟩
    case timeout | streamEnds =>
      cases hrun
      exact ⟨_, settled_leaveDrain hclients .., hclose⟩
  · simp only [cancelArrives, hpc]
    exact ⟨_, settled_leaveDrain hclients .., hclose⟩

/-- A step of a task in `connect()`: unless it returns, its client is left behind. -/
theorem settled_connecting {task : RunTask} {act : RunAct} {old : List LiveClient}
    {c : LiveClient} (hpc : task.pc = .connecting) (hclients : s.clients = old ++ [c])
    (hc : c.closed = false)
    (hrun : s.runStep task act = some s' ∨ act = .cancelled ∧ s' = s.cancelArrives task) :
    ∃ clients, s'.Settled clients ∧
      (AllClosed clients ↔ AllClosed old ∧ act = .connected true) := by
  have hleft : ∀ c' : LiveClient, c'.closed = false → ¬ AllClosed (old ++ [c']) := by
    intro c' hc' h
    have := h c' (by simp)
    simp [hc'] at this
  rcases hrun with hrun | ⟨rfl, rfl⟩
  · cases act <;> simp only [runStep, hpc, reduceCtorEq, Option.some.injEq] at hrun
    case connected events =>
      have hnew : s.clients.modifyLast (fun c => { c with connected := true })
          = old ++ [{ c with connected := true }] := by rw [hclients, List.modifyLast_concat]
      cases hrun
      cases events with
      | true => exact ⟨old, Settled.of_working rfl rfl hnew hc, by simp⟩
      | false =>
        refine ⟨_, Settled.of_resting rfl rfl, ?_⟩
        show AllClosed (s.clients.modifyLast _) ↔ _
        rw [hnew]
        simp [hleft { c with connected := true } hc]
    case offline | connectFails =>
      cases hrun
      refine ⟨_, Settled.of_resting rfl rfl, ?_⟩
      simp [hclients, hleft c hc]
  · have he : s.cancelArrives task
        = { s with task := some { task with pc := .done, cancelled := false } } := by
      simp only [cancelArrives, hpc]
    rw [he]
    refine ⟨_, Settled.of_resting rfl rfl, ?_⟩
    simp [hclients, hleft c hc]

/-! ## Every step -/

/-- The clients of a task that is not there or done are all out of its hand. -/
theorem settled_of_done (hdone : ∀ task, s.task = some task → task.pc = .done) :
    s.settled = s.clients := by
  unfold settled
  cases htask : s.task with
  | none => rfl
  | some task => simp [hdone task htask, RunPc.working]

/-- The calls leave the clients alone. -/
theorem settled_call {a : IngestAct κ} {returned : Option κ} (hu : s.Unfinished)
    (ha : ∀ act, a ≠ .run act) (hs : s.step a = some (s', returned)) : s'.Settled s.settled := by
  rcases step_cases hs with ⟨waiters, -, -, rfl⟩ | ⟨op, task, lock, -, -, htask, rfl⟩ |
    ⟨caller, op, stop, lock, -, -, -, hdone, rfl⟩ | ⟨act, rfl⟩
  · exact ⟨hu, rfl⟩
  · refine ⟨fun task' he hw => hu task htask ?_, ?_⟩
    · cases he
      exact hw
    · simp [settled, htask]
  · rw [settled_of_done hdone]
    cases op with
    | start uniqueId => exact Settled.of_resting rfl rfl
    | stop => exact ⟨fun task he => (by cases he), rfl⟩
  · exact absurd rfl (ha act)

/-- **A step leaves no client behind** exactly when it is not the end of a failed `connect()`. -/
theorem settled_step {a : IngestAct κ} (hu : s.Unfinished) (hs : s.next a = some s') :
    s'.Unfinished ∧ (AllClosed s'.settled ↔ AllClosed s.settled ∧ s.ConnectReturns a) := by
  suffices h : ∃ clients, s'.Settled clients ∧
      (AllClosed clients ↔ AllClosed s.settled ∧ s.ConnectReturns a) by
    obtain ⟨clients, hset, hiff⟩ := h
    rw [hset.settled]
    exact ⟨hset.unfinished, hiff⟩
  obtain ⟨⟨s₁, returned⟩, hstep, rfl⟩ := Option.map_eq_some_iff.mp hs
  by_cases hcall : ∀ act, a ≠ .run act
  · have hreturns : s.ConnectReturns a := fun _ act _ _ he => absurd he (hcall act)
    exact ⟨_, settled_call hu hcall hstep, by simp [hreturns]⟩
  · obtain ⟨act, rfl⟩ := not_forall_not.mp hcall
    obtain ⟨-, task, htask, -, hrun⟩ := run_cases hstep
    have hsettled : ∀ clients, s.Settled clients → s.settled = clients := fun _ h => h.settled
    cases hpc : task.pc with
    | connecting =>
      obtain ⟨old, c, hclients, hc⟩ := hu task htask (by rw [hpc]; rfl)
      obtain ⟨clients, hset, hiff⟩ := settled_connecting hpc hclients hc hrun
      rw [hsettled old (Settled.of_working htask (by rw [hpc]; rfl) hclients hc)]
      have hreturns : s.ConnectReturns (.run act) ↔ act = .connected true :=
        ⟨fun h => h task act htask hpc rfl, fun h _ _ _ _ he => by cases he; exact h⟩
      exact ⟨clients, hset, by rw [hiff, hreturns]⟩
    | draining receivedEvent =>
      obtain ⟨old, c, hclients, hc⟩ := hu task htask (by rw [hpc]; rfl)
      obtain ⟨clients, hset, hiff⟩ := settled_draining hpc hclients hc hrun
      rw [hsettled old (Settled.of_working htask (by rw [hpc]; rfl) hclients hc)]
      exact ⟨clients, hset, by simp [hiff, connectReturns_of_ne htask (by simp [hpc])]⟩
    | created | offlineSleep | backoffSleep | closing | done =>
      have hrest : task.pc.working = false := by rw [hpc]; rfl
      rw [hsettled s.clients (Settled.of_resting htask hrest)]
      exact ⟨_, settled_resting hrest hrun, by simp [connectReturns_of_ne htask (by simp [hpc])]⟩

/-! ## Every run -/

/-- A task with a client in hand does not build another one. -/
theorem length_working {task : RunTask} {act : RunAct} (hpc : task.pc.working = true)
    (hrun : s.runStep task act = some s' ∨ act = .cancelled ∧ s' = s.cancelArrives task) :
    s'.clients.length = s.clients.length := by
  cases hat : task.pc <;> simp only [hat, RunPc.working, Bool.false_eq_true] at hpc
  all_goals
    rcases hrun with hrun | ⟨-, rfl⟩
    · cases act <;> simp only [runStep, hat, reduceCtorEq, Option.some.injEq] at hrun
      all_goals
        cases hrun
        simp [leaveDrain, withClient, length_modifyLast]
    · simp [cancelArrives, hat, leaveDrain, withClient, length_modifyLast]

/-- A client is built, and a `stop` returns, only when the task has no client in hand. -/
theorem settled_due {a : IngestAct κ} {returned : Option κ}
    (hs : s.step a = some (s', returned))
    (hdue : s.clients.length < s'.clients.length ∨ returned ≠ none ∧ s.served a = some .stop) :
    s.settled = s.clients := by
  rcases step_cases hs with ⟨waiters, hr, -, rfl⟩ | ⟨op, task, lock, hr, -, htask, rfl⟩ |
    ⟨caller, op, stop, lock, -, -, -, hdone, rfl⟩ | ⟨act, rfl⟩
  · simp [hr] at hdue
  · simp [hr] at hdue
  · exact settled_of_done hdone
  · obtain ⟨hr, task, htask, -, hrun⟩ := run_cases hs
    have hbuilt : s.clients.length < s'.clients.length := by simpa [hr] using hdue
    cases hpc : task.pc.working with
    | true =>
      have hlen := length_working hpc hrun
      omega
    | false => simp [settled, htask, hpc]

/--
**Every client is closed in time exactly when every `connect()` returned**: in every run, before
the next client is built and before a `stop` returns `close()` was called on every client, exactly
when no `connect()` of an earlier step raised or was cancelled, and no `events()` behind it raised.
-/
theorem none_abandoned_iff (backoffInitial backoffMax offlinePollInterval : Rat)
    (acts : List (IngestAct κ)) :
    NoneAbandoned (new backoffInitial backoffMax offlinePollInterval) acts ↔
      ∀ pre m, DueAfter (new backoffInitial backoffMax offlinePollInterval) acts pre m →
        Along next ConnectReturns (new backoffInitial backoffMax offlinePollInterval) pre := by
  have hiff : ∀ pre m, DueAfter (new backoffInitial backoffMax offlinePollInterval) acts pre m →
      (AllClosed m.clients ↔
        Along next ConnectReturns (new backoffInitial backoffMax offlinePollInterval) pre) := by
    rintro pre m ⟨a, post, m', returned, -, hpre, hstep, hdue⟩
    have hrun := (run_iff_along (I := fun s => AllClosed s.settled) (J := Unfinished)
      (fun _ _ _ hu hs => settled_step hu hs) (fun _ he => by cases he) hpre).2
    rw [← settled_due hstep hdue, hrun]
    exact and_iff_right fun c hc => by cases hc
  exact forall_congr' fun pre => forall_congr' fun m => imp_congr_right (hiff pre m)

/-- The room is offline, and offline again at the next poll. -/
def offlineRoom : List (IngestAct Nat) :=
  [.call 0 (.start "room"), .run (.begin .returns), .run .offline, .run (.slept .returns)]

/-- **An offline room leaves a client behind**: the next one is built, the first one not closed. -/
theorem offline_room_abandons : ¬ NoneAbandoned (new 1 60 30) offlineRoom := by
  intro h
  have hdue : DueAfter (new 1 60 30) offlineRoom (offlineRoom.take 3) _ :=
    ⟨.run (.slept .returns), [], _, none, rfl, rfl, rfl, Or.inl (by decide)⟩
  exact absurd (h _ _ hdue { uniqueId := some "room" } (by decide)) (by decide)

end TikTokLiveIngestor

end Livehost
