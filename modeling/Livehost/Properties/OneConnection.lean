import Livehost.Infra.Machine
import Livehost.Properties.Ingestor
import Mathlib.Data.List.ModifyLast

/-!
# One TikTok connection at a time

A restart, a `stop`, the watchdog, an error of the stream, a disconnect and a `CancelledError` can
hit any await of `_run`. Only a draining task has an open client, the last one the factory built,
and whatever ends the draining calls its `close()` before anything else runs.

* `oneClient_step` — what the clients are at each await of the task
* `one_connection` — one open client; after a `start` its room's events only; after a `stop` none
-/

namespace Livehost

open Infra

/-- `connect()` returned, and `close()` was not called. -/
def LiveClient.isOpen (c : LiveClient) : Bool := c.connected && !c.closed

/-- No client is open. -/
def Shut (clients : List LiveClient) : Prop := ∀ c ∈ clients, c.isOpen = false

theorem Shut.concat {clients : List LiveClient} {c : LiveClient} (h : Shut clients)
    (hc : c.isOpen = false) : Shut (clients ++ [c]) := by
  intro x hx
  rcases List.mem_append.mp hx with hx | hx
  · exact h x hx
  · rw [List.mem_singleton.mp hx]
    exact hc

/-- The clients while the task stands at `pc`. -/
def ClientsAt (uniqueId : Option String) (clients : List LiveClient) : RunPc → Prop
  | .connecting => Shut clients ∧ ∃ old c, clients = old ++ [c] ∧ c.uniqueId = uniqueId
  | .draining _ => ∃ old c, clients = old ++ [c] ∧ Shut old ∧ c.uniqueId = uniqueId
  | _ => Shut clients

namespace TikTokLiveIngestor

variable {κ : Type} {s s' : TikTokLiveIngestor κ}

/-- **The invariant**: the clients are as the await of the task says, and shut without a task. -/
def OneClient (s : TikTokLiveIngestor κ) : Prop :=
  match s.task with
  | none => Shut s.clients
  | some task => ClientsAt s.uniqueId s.clients task.pc

theorem oneClient_task {task : RunTask} (htask : s.task = some task) :
    s.OneClient ↔ ClientsAt s.uniqueId s.clients task.pc := by
  unfold OneClient
  rw [htask]

/-- A task that is not there or done leaves no client open. -/
theorem OneClient.shut (h : s.OneClient) (hdone : ∀ task, s.task = some task → task.pc = .done) :
    Shut s.clients := by
  cases htask : s.task with
  | none =>
    unfold OneClient at h
    rw [htask] at h
    exact h
  | some task =>
    have h := (oneClient_task htask).mp h
    rw [hdone task htask] at h
    exact h

theorem OneClient.count_le (h : s.OneClient) : s.clients.countP LiveClient.isOpen ≤ 1 := by
  have hshut : ∀ {clients : List LiveClient}, Shut clients →
      clients.countP LiveClient.isOpen = 0 := fun hs =>
    List.countP_eq_zero.mpr fun c hc => by simp [hs c hc]
  cases htask : s.task with
  | none => simp [hshut (h.shut (by simp [htask]))]
  | some task =>
    have h := (oneClient_task htask).mp h
    cases hpc : task.pc <;> rw [hpc] at h
    case connecting => simp [hshut h.1]
    case draining =>
      obtain ⟨old, c, hold, hs, -⟩ := h
      rw [hold, List.countP_append, hshut hs, Nat.zero_add]
      exact List.countP_le_length
    all_goals simp [hshut h]

/-! ## The calls -/

theorem oneClient_finish (h : Shut s.clients) (op : LockOp) : (s.finish op).OneClient := by
  cases op <;> exact h

/-! ## The task -/

/-- The loop head finds every client shut, and may build one more. -/
theorem oneClient_loopHead (h : Shut s.clients) (task : RunTask) (factory : FactoryOutcome) :
    (s.loopHead task factory).OneClient := by
  unfold loopHead
  split
  · cases factory with
    | returns => exact ⟨h.concat rfl, s.clients, _, rfl, rfl⟩
    | roomOffline | fails | cancelled => exact h
  · exact h

theorem oneClient_drained (h : Shut s.clients) (task : RunTask) (stale receivedEvent : Bool)
    (factory : FactoryOutcome) : (s.drained task stale receivedEvent factory).OneClient := by
  unfold drained
  cases receivedEvent <;> simp only [if_true, Bool.false_eq_true, if_false]
  all_goals
    split
    · exact h
    · split
      · exact oneClient_loopHead h ..
      · exact h

/-- Leaving `_drain` shuts the client it drained. -/
theorem oneClient_leaveDrain {receivedEvent : Bool}
    (h : ClientsAt s.uniqueId s.clients (.draining receivedEvent)) (task : RunTask)
    (stale received unwinding : Bool) :
    (s.leaveDrain task stale received unwinding).OneClient := by
  obtain ⟨old, c, hold, hs, -⟩ := h
  show Shut (s.clients.modifyLast _)
  rw [hold, List.modifyLast_concat]
  exact hs.concat (by simp [LiveClient.isOpen])

theorem oneClient_cancelArrives {task : RunTask} (h : ClientsAt s.uniqueId s.clients task.pc) :
    (s.cancelArrives task).OneClient := by
  unfold cancelArrives
  cases hpc : task.pc <;> rw [hpc] at h
  case draining receivedEvent => exact oneClient_leaveDrain h task false receivedEvent true
  -- at no other await is a client open
  case connecting => exact h.1
  all_goals exact h

theorem oneClient_runStep {task : RunTask} {act : RunAct} (hact : act ≠ .connected false)
    (h : ClientsAt s.uniqueId s.clients task.pc) (hs : s.runStep task act = some s') :
    s'.OneClient := by
  cases act <;> simp only [runStep] at hs
  case cancelled => cases hs
  case begin factory =>
    split at hs <;> cases hs
    next hpc =>
      rw [hpc] at h
      exact oneClient_loopHead h task factory
  case connected events =>
    split at hs <;> cases hs
    next hpc =>
      rw [hpc] at h
      obtain ⟨hshut, old, c, hold, hc⟩ := h
      cases events with
      | false => exact absurd rfl hact
      | true =>
        refine ⟨old, { c with connected := true }, ?_, fun x hx => ?_, hc⟩
        · show s.clients.modifyLast _ = _
          rw [hold, List.modifyLast_concat]
        · exact hshut x (by rw [hold]; exact List.mem_append_left _ hx)
  case offline | connectFails =>
    split at hs <;> cases hs
    next hpc =>
      rw [hpc] at h
      exact h.1
  case slept factory =>
    split at hs <;> cases hs
    all_goals
      next hpc =>
        rw [hpc] at h
        exact oneClient_loopHead h _ factory
  case event event =>
    split at hs <;> cases hs
    next hpc =>
      rw [hpc] at h
      exact h
  case timeout | streamEnds =>
    split at hs <;> cases hs
    next receivedEvent hpc =>
      rw [hpc] at h
      exact oneClient_leaveDrain h task _ receivedEvent false
  case closed factory =>
    split at hs <;> cases hs
    all_goals
      next hpc =>
        rw [hpc] at h
        first | exact h | exact oneClient_drained h ..

/-! ## Every step -/

theorem oneClient_step {a : IngestAct κ} {returned : Option κ}
    (ha : a ≠ .run (.connected false)) (h : s.OneClient)
    (hs : s.step a = some (s', returned)) : s'.OneClient := by
  rcases step_cases hs with ⟨waiters, -, -, rfl⟩ | ⟨op, task, lock, -, -, htask, rfl⟩ |
    ⟨caller, op, stop, lock, -, -, -, hdone, rfl⟩ | ⟨act, rfl⟩
  · exact h
  · exact (oneClient_task htask).mp h
  · exact oneClient_finish (s := { s with stopRequested := stop, lock }) (h.shut hdone) op
  · obtain ⟨-, task, htask, -, hrun | ⟨-, rfl⟩⟩ := run_cases hs
    · exact oneClient_runStep (fun he => ha (by rw [he])) ((oneClient_task htask).mp h) hrun
    · exact oneClient_cancelArrives ((oneClient_task htask).mp h)

/-- Only a draining task puts something on the queue. -/
theorem queue_step {a : IngestAct κ} {returned : Option κ} (hs : s.step a = some (s', returned)) :
    s'.queue = s.queue ∨
      ∃ task receivedEvent, s.task = some task ∧ task.pc = .draining receivedEvent := by
  rcases step_cases hs with ⟨waiters, -, -, rfl⟩ | ⟨op, task, lock, -, -, -, rfl⟩ |
    ⟨caller, op, stop, lock, -, -, -, -, rfl⟩ | ⟨act, rfl⟩
  · exact Or.inl rfl
  · exact Or.inl rfl
  · cases op <;> exact Or.inl rfl
  · rcases run_frame hs with ⟨_, _, _, rfl⟩ | ⟨-, task, receivedEvent, htask, hpc, -⟩
    · exact Or.inl rfl
    · exact Or.inr ⟨task, receivedEvent, htask, hpc⟩

/-! ## After a `start` -/

/-- Nobody has the lock, and the room is that of the last `start`. -/
structure Serving (uniqueId : String) (s : TikTokLiveIngestor κ) : Prop where
  room : s.uniqueId = some uniqueId
  free : s.lock.holder = none

theorem serving_step {uniqueId : String} {a : IngestAct κ} {returned : Option κ}
    (h : s.Serving uniqueId) (ha : s.takes a = none) (hs : s.step a = some (s', returned)) :
    s'.Serving uniqueId := by
  rcases step_cases hs with ⟨waiters, -, -, rfl⟩ | ⟨op, task, lock, -, htakes, -⟩ |
    ⟨caller, op, stop, lock, -, -, htakes, -⟩ | ⟨act, rfl⟩
  · exact ⟨h.room, h.free⟩
  · rw [ha] at htakes
    cases htakes
  · rcases htakes with htakes | hheld
    · rw [ha] at htakes
      cases htakes
    · rw [h.free] at hheld
      cases hheld
  · obtain ⟨hlock, hroom⟩ := run_lock hs
    exact ⟨hroom.trans h.room, by rw [hlock]; exact h.free⟩

/-- What a call that returned leaves: the room of a `start`, or an idle ingestor. -/
theorem returned_leaves {a : IngestAct κ} {caller : κ} {op : LockOp}
    (hs : s.step a = some (s', some caller)) (hop : s.served a = some op) :
    match op with
    | .start uniqueId => s'.Serving uniqueId
    | .stop => s'.Idle := by
  rcases step_cases hs with ⟨-, hr, -⟩ | ⟨-, -, -, hr, -⟩ |
    ⟨-, op', -, -, -, hop', -, -, rfl⟩ | ⟨act, rfl⟩
  · cases hr
  · cases hr
  · rw [hop] at hop'
    cases hop'
    cases op with
    | start uniqueId => exact ⟨rfl, rfl⟩
    | stop => exact idle_finish _
  · cases hop

/-! ## Every run -/

/-- The state after a step. -/
def next (s : TikTokLiveIngestor κ) (a : IngestAct κ) : Option (TikTokLiveIngestor κ) :=
  (s.step a).map (·.1)

/-- In the run a call `op` has returned, and every step since then meets `P`. -/
def Since (s₀ : TikTokLiveIngestor κ) (acts : List (IngestAct κ)) (op : LockOp)
    (P : TikTokLiveIngestor κ → IngestAct κ → Prop) : Prop :=
  ∃ pre a mid m m' caller, acts = pre ++ a :: mid ∧ run next s₀ pre = some m ∧
    m.step a = some (m', some caller) ∧ m.served a = some op ∧ Along next P m' mid

/-- What every call `op` leaves, and every step that meets `P` keeps, holds now. -/
theorem Since.holds {s₀ : TikTokLiveIngestor κ} {acts : List (IngestAct κ)} {op : LockOp}
    {P : TikTokLiveIngestor κ → IngestAct κ → Prop} {I : TikTokLiveIngestor κ → Prop}
    (h : Since s₀ acts op P) (hs : run next s₀ acts = some s)
    (hleaves : ∀ (m m' : TikTokLiveIngestor κ) a caller, m.step a = some (m', some caller) →
      m.served a = some op → I m')
    (hkeeps : ∀ (m m' : TikTokLiveIngestor κ) a r, I m → P m a → m.step a = some (m', r) → I m') :
    I s := by
  obtain ⟨pre, a, mid, m, m', caller, rfl, hpre, hstep, hop, hmid⟩ := h
  obtain ⟨m₁, hm₁, hrest⟩ := run_append_some.mp hs
  rw [hpre] at hm₁
  cases hm₁
  obtain ⟨m₂, hm₂, hrest⟩ := run_cons_some.mp hrest
  have he : m₂ = m' := by simpa [next, hstep] using hm₂.symm
  subst he
  refine run_inv_along (I := I) (fun t b t' hi hb ht => ?_) (hleaves m m₂ a caller hstep hop)
    hmid hrest
  obtain ⟨⟨t₁, r⟩, ht₁, rfl⟩ := Option.map_eq_some_iff.mp ht
  exact hkeeps t t₁ b r hi hb ht₁

theorem oneClient_run {backoffInitial backoffMax offlinePollInterval : Rat}
    {acts : List (IngestAct κ)} (hacts : ∀ a ∈ acts, a ≠ .run (.connected false))
    (hs : run next (new backoffInitial backoffMax offlinePollInterval) acts = some s) :
    s.OneClient := by
  refine run_inv_along (I := OneClient) (P := fun _ a => a ≠ .run (.connected false))
    (fun t a t' hi ha ht => ?_) ?_ (along_iff.mpr fun pre a post m he _ => hacts a ?_) hs
  · obtain ⟨⟨t₁, r⟩, ht₁, rfl⟩ := Option.map_eq_some_iff.mp ht
    exact oneClient_step ha hi ht₁
  · intro c hc
    cases hc
  · rw [he]
    exact List.mem_append_right _ List.mem_cons_self

/--
**One TikTok connection at a time.** In every run of `start` and `stop` calls and steps of the task
in which no `events()` raises: at most one client is open; after a `start` has returned and until
a call takes the lock, what a step puts on the queue comes from a client built for its room; and
after a `stop` has returned and until a `start` takes the lock, the state is idle, no client is
open and no step puts anything on the queue.
-/
theorem one_connection (backoffInitial backoffMax offlinePollInterval : Rat)
    (acts : List (IngestAct κ)) (hacts : ∀ a ∈ acts, a ≠ .run (.connected false))
    (hs : run next (new backoffInitial backoffMax offlinePollInterval) acts = some s) :
    s.clients.countP LiveClient.isOpen ≤ 1 ∧
    (∀ uniqueId, Since (new backoffInitial backoffMax offlinePollInterval) acts (.start uniqueId)
        (fun t b => t.takes b = none) →
      ∀ b s' r, s.step b = some (s', r) → s'.queue ≠ s.queue →
        ∃ c, s.clients.getLast? = some c ∧ c.uniqueId = some uniqueId) ∧
    (Since (new backoffInitial backoffMax offlinePollInterval) acts .stop
        (fun t b => ∀ uniqueId, t.takes b ≠ some (.start uniqueId)) →
      s.state = .idle ∧ (∀ c ∈ s.clients, c.isOpen = false) ∧
        ∀ b s' r, s.step b = some (s', r) → s'.queue = s.queue) := by
  have hone : s.OneClient := oneClient_run hacts hs
  refine ⟨hone.count_le, fun uniqueId hsince b s' r hb hput => ?_, fun hsince => ?_⟩
  · have hserving : s.Serving uniqueId := hsince.holds hs
      (fun _ _ _ _ hstep hop => returned_leaves hstep hop)
      (fun _ _ _ _ hi hb hstep => serving_step hi hb hstep)
    rcases queue_step hb with hq | ⟨task, receivedEvent, htask, hpc⟩
    · exact absurd hq hput
    · have hclients := (oneClient_task htask).mp hone
      rw [hpc] at hclients
      obtain ⟨old, c, hold, -, hc⟩ := hclients
      exact ⟨c, by rw [hold, List.getLast?_concat], hc.trans hserving.room⟩
  · have hidle : s.Idle := hsince.holds hs
      (fun _ _ _ _ hstep hop => returned_leaves hstep hop)
      (fun _ _ _ _ hi hb hstep => idle_step hi hb hstep)
    refine ⟨hidle.idle, hone.shut (by simp [hidle.noTask]), fun b s' r hb => ?_⟩
    rcases queue_step hb with hq | ⟨task, -, htask, -⟩
    · exact hq
    · rw [hidle.noTask] at htask
      cases htask

/-- A `start` for another room, while the first one is draining. -/
def restartRun : List (IngestAct Nat) :=
  [.call 0 (.start "first"), .run (.begin .returns), .run (.connected true),
    .call 1 (.start "second"), .run .cancelled, .run (.closed .returns), .awaited,
    .run (.begin .returns), .run (.connected true)]

/-- **The second room alone feeds the queue** after the restart. -/
theorem restartRun_feeds_second : ∃ s, run next (new 1 60 30) restartRun = some s ∧
    s.clients.countP LiveClient.isOpen ≤ 1 ∧
    ∀ event s' r, s.step (.run (.event event)) = some (s', r) → s'.queue ≠ s.queue →
      ∃ c, s.clients.getLast? = some c ∧ c.uniqueId = some "second" := by
  have hacts : ∀ a ∈ restartRun, a ≠ .run (.connected false) := by simp [restartRun]
  refine ⟨_, rfl, (one_connection 1 60 30 restartRun hacts rfl).1, fun event s' r hb hput => ?_⟩
  refine (one_connection 1 60 30 restartRun hacts rfl).2.1 "second" ?_ _ s' r hb hput
  refine ⟨restartRun.take 6, .awaited, restartRun.drop 7, _, _, 1, rfl, rfl, rfl, rfl, ?_⟩
  exact ⟨rfl, fun _ _ => ⟨rfl, fun _ _ => trivial⟩⟩

end TikTokLiveIngestor

end Livehost
