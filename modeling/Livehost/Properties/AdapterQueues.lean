import Livehost.Ingest.Adapter
import Livehost.Properties.Ingestor

/-!
# The queues before the scheduler

An event waits in its adapter's queue, and then in the session's queue. What a client's listeners
put stays in front of the client until its first signal to reconnect, and what the ingestor takes of
one client after the other comes out of the session's queue in that order.

* `Fed` — what a step of the ingestor's task does to its clients and its queue
* `FlowAt` — the law of the adapters and the session's queue
* `FlowAt.fed` — a step of the ingestor's task keeps it
-/

namespace Livehost

open Infra

namespace TikTokLiveIngestor

variable {κ : Type} {s s' : TikTokLiveIngestor κ}

/-! ## What the ingestor takes -/

/-- The task works with a client that it has not begun to close. -/
def Listening (s : TikTokLiveIngestor κ) : Prop :=
  ∃ task, s.task = some task ∧ (task.pc = .connecting ∨ ∃ received, task.pc = .draining received)

theorem listening_iff {task : RunTask} (htask : s.task = some task) :
    s.Listening ↔ task.pc = .connecting ∨ ∃ received, task.pc = .draining received := by
  simp [Listening, htask]

/-- **What a step of the task takes and builds.** -/
inductive Fed (s s' : TikTokLiveIngestor κ) : RunAct → Prop
  | event (e : SocialEvent) (hfrom : s.Listening) (hqueue : s'.queue = s.queue ++ [e])
    (hclients : s'.clients.length = s.clients.length) : Fed s s' (.event e)
  | ended (hfrom : s.Listening) (hto : ¬ s'.Listening) (hqueue : s'.queue = s.queue)
    (hclients : s'.clients.length = s.clients.length) : Fed s s' .streamEnds
  | built {act : RunAct} (hitem : act.item = none) (hqueue : s'.queue = s.queue)
    (hclients : s'.clients.length = s.clients.length + 1) : Fed s s' act
  | quiet {act : RunAct} (hitem : act.item = none) (hto : s'.Listening → s.Listening)
    (hqueue : s'.queue = s.queue) (hclients : s'.clients.length = s.clients.length) : Fed s s' act

/-- The loop head builds a client, or goes on without one. -/
theorem loopHead_fed (s : TikTokLiveIngestor κ) (task : RunTask) (factory : FactoryOutcome) :
    (s.loopHead task factory).queue = s.queue ∧
      ((s.loopHead task factory).clients.length = s.clients.length + 1 ∨
        (s.loopHead task factory).clients.length = s.clients.length ∧
          ¬ (s.loopHead task factory).Listening) := by
  unfold loopHead
  split
  · cases factory <;> simp [Listening]
  · simp [Listening]

theorem Fed.of_loopHead {act : RunAct} (hitem : act.item = none) {s₀ : TikTokLiveIngestor κ}
    (hqueue : s₀.queue = s.queue) (hclients : s₀.clients = s.clients) (task : RunTask)
    (factory : FactoryOutcome) : Fed s (s₀.loopHead task factory) act := by
  obtain ⟨hq, hbuilt | ⟨hsame, hto⟩⟩ := s₀.loopHead_fed task factory
  · exact .built hitem (hq.trans hqueue) (by rw [hbuilt, hclients])
  · exact .quiet hitem (fun h => absurd h hto) (hq.trans hqueue) (by rw [hsame, hclients])

theorem Fed.of_drained {act : RunAct} (hitem : act.item = none) (task : RunTask)
    (stale received : Bool) (factory : FactoryOutcome) :
    Fed s (s.drained task stale received factory) act := by
  unfold drained
  cases received <;> simp only [if_true, Bool.false_eq_true, if_false]
  all_goals
    split
    · exact .quiet hitem (by simp [Listening]) rfl rfl
    · split
      · exact Fed.of_loopHead hitem rfl rfl _ _
      · exact .quiet hitem (by simp [Listening]) rfl rfl

theorem fed_runStep {task : RunTask} {act : RunAct} (htask : s.task = some task)
    (hs : s.runStep task act = some s') : Fed s s' act := by
  cases act <;> simp only [runStep] at hs
  case cancelled => cases hs
  case begin factory =>
    split at hs <;> cases hs
    exact .of_loopHead rfl rfl rfl _ _
  case slept factory =>
    split at hs <;> cases hs <;> exact .of_loopHead rfl rfl rfl _ _
  case closed factory =>
    split at hs <;> cases hs
    · exact .quiet rfl (by simp [Listening]) rfl rfl
    · exact .of_drained rfl ..
  case event e =>
    split at hs <;> cases hs
    next received hpc =>
      exact .event e ((listening_iff htask).mpr (Or.inr ⟨received, hpc⟩)) rfl rfl
  case streamEnds =>
    split at hs <;> cases hs
    next received hpc =>
      refine .ended ((listening_iff htask).mpr (Or.inr ⟨received, hpc⟩)) ?_ rfl ?_
      · simp [Listening, leaveDrain]
      · exact length_modifyLast ..
  case connected events =>
    split at hs <;> cases hs
    next hpc =>
      have hfrom : s.Listening := (listening_iff htask).mpr (Or.inl hpc)
      exact .quiet rfl (fun _ => hfrom) rfl (length_modifyLast ..)
  case timeout =>
    split at hs <;> cases hs
    exact .quiet rfl (by simp [Listening, leaveDrain]) rfl (length_modifyLast ..)
  all_goals
    split at hs <;> cases hs
    exact .quiet rfl (by simp [Listening]) rfl rfl

theorem fed_step {act : RunAct} {returned : Option κ}
    (hs : s.step (.run act) = some (s', returned)) : Fed s s' act := by
  obtain ⟨-, task, htask, -, hrun | ⟨rfl, rfl⟩⟩ := run_cases hs
  · exact fed_runStep htask hrun
  · unfold cancelArrives
    split
    · exact .quiet rfl (by simp [Listening, leaveDrain]) rfl (length_modifyLast ..)
    · exact .quiet rfl (by simp [Listening]) rfl rfl

/-- A call, and what it does when its turn comes, takes and builds nothing. -/
theorem unfed_step {a : IngestAct κ} {returned : Option κ} (ha : ∀ act, a ≠ .run act)
    (hs : s.step a = some (s', returned)) :
    s'.clients = s.clients ∧ s'.queue = s.queue ∧ (s'.Listening → s.Listening) := by
  rcases step_cases hs with ⟨waiters, -, -, rfl⟩ | ⟨op, task, lock, -, -, htask, rfl⟩ |
    ⟨caller, op, stop, lock, -, -, -, -, rfl⟩ | ⟨act, rfl⟩
  · exact ⟨rfl, rfl, id⟩
  · refine ⟨rfl, rfl, fun ⟨task', he, hpc⟩ => ?_⟩
    cases he
    exact ⟨task, htask, hpc⟩
  · cases op <;> exact ⟨rfl, rfl, by simp [Listening, finish, launch]⟩
  · exact absurd rfl (ha act)

end TikTokLiveIngestor

/-! ## What is seen of a handler -/

variable {σ β : Type}

inductive FlowEvent
  /-- A listener of the client's adapter put the item. -/
  | heard (client : Nat) (item : Option SocialEvent)
  /-- The drain loop took the event, and this is what the viewer memory said. -/
  | drained (event : SocialEvent) (note : Option String)

/-- What the drain loop takes in a step. -/
def Stream.drainSeen (h : Stream σ β) : StreamAct β → List FlowEvent
  | .drain _ note => h.ingestor.queue.head?.toList.map (.drained · note)
  | _ => []

/-- What a step shows of handler `i`. -/
def LiveServer.flowSeen (i : Nat) (s : LiveServer σ β) : LiveAct β → List FlowEvent
  | .listener j client event => if j = i then event.items.map (.heard client) else []
  | .server (.stream j act) => if j = i then (s.server.streams i).drainSeen act else []
  | _ => []

/-- What was put into the queue of a client's adapter. -/
def heardBy (client : Nat) (seen : List FlowEvent) : List (Option SocialEvent) :=
  seen.filterMap fun
    | .heard c item => if c = client then some item else none
    | .drained _ _ => none

/-- What the drain loop took, with the notes. -/
def drainedOf (seen : List FlowEvent) : List (SocialEvent × Option String) :=
  seen.filterMap fun
    | .heard _ _ => none
    | .drained event note => some (event, note)

@[simp] theorem heardBy_append (c : Nat) (seen seen' : List FlowEvent) :
    heardBy c (seen ++ seen') = heardBy c seen ++ heardBy c seen' := List.filterMap_append

@[simp] theorem drainedOf_append (seen seen' : List FlowEvent) :
    drainedOf (seen ++ seen') = drainedOf seen ++ drainedOf seen' := List.filterMap_append

@[simp] theorem heardBy_heard (c client : Nat) (items : List (Option SocialEvent)) :
    heardBy c (items.map (.heard client)) = if client = c then items else [] := by
  unfold heardBy
  rw [List.filterMap_map]
  split
  next h =>
    have hsome : ((fun e : FlowEvent => match e with
        | .heard c' item => if c' = c then some item else none
        | .drained _ _ => none) ∘ FlowEvent.heard client) = some := by
      funext item
      simp [h]
    rw [hsome, List.filterMap_some]
  next h => exact List.filterMap_eq_nil_iff.mpr fun item _ => if_neg h

@[simp] theorem drainedOf_heard (client : Nat) (items : List (Option SocialEvent)) :
    drainedOf (items.map (.heard client)) = [] := by
  unfold drainedOf
  rw [List.filterMap_map]
  exact List.filterMap_eq_nil_iff.mpr fun _ _ => rfl

/-! ## The law of the queues -/

/-- What the ingestor took of a client, and whether the signal to reconnect ended it. -/
structure Taken where
  events : List SocialEvent := []
  ended : Bool := false

/-- The items that were in the adapter's queue. -/
def Taken.items (w : Taken) : List (Option SocialEvent) :=
  w.events.map some ++ if w.ended then [none] else []

/-- **The law**: of what a client's listeners put, the ingestor took the events in front of the
first signal, and perhaps the signal; what it took of one client after the other is what the drain
loop took, and what the session's queue holds. -/
structure FlowAt (h : Stream σ β) (adapters : List TikTokLiveClientAdapter) (taken : Nat → Taken)
    (seen : List FlowEvent) : Prop where
  clients : adapters.length = h.ingestor.clients.length
  heard : ∀ c, heardBy c seen = (taken c).items ++ (adapters.getD c {}).queue
  unbuilt : ∀ c, adapters.length ≤ c → taken c = {}
  queued : (List.range adapters.length).flatMap (fun c => (taken c).events) =
    (drainedOf seen).map Prod.fst ++ h.ingestor.queue
  listening : h.ingestor.Listening → ∃ c, adapters.length = c + 1 ∧ (taken c).ended = false
  fresh : h.pc = .fresh → adapters = [] ∧ drainedOf seen = []

variable {h h' : Stream σ β} {adapters : List TikTokLiveClientAdapter} {taken : Nat → Taken}
  {seen : List FlowEvent}

theorem flowAt_start : FlowAt ({} : Stream σ β) [] (fun _ => {}) [] := by
  refine ⟨rfl, fun _ => rfl, fun _ _ => rfl, rfl, ?_, fun _ => ⟨rfl, rfl⟩⟩
  rintro ⟨task, htask, -⟩
  cases htask

/-- The ingestor's clients and queue are as they were. -/
theorem FlowAt.congr (hf : FlowAt h adapters taken seen)
    (hclients : h'.ingestor.clients.length = h.ingestor.clients.length)
    (hqueue : h'.ingestor.queue = h.ingestor.queue)
    (hlistening : h'.ingestor.Listening → h.ingestor.Listening)
    (hfresh : h'.pc = .fresh → h.pc = .fresh) : FlowAt h' adapters taken seen where
  clients := hf.clients.trans hclients.symm
  heard := hf.heard
  unbuilt := hf.unbuilt
  queued := by rw [hqueue]; exact hf.queued
  listening hl := hf.listening (hlistening hl)
  fresh hpc := hf.fresh (hfresh hpc)

/-- A fresh handler takes its configuration. -/
theorem FlowAt.granted (hf : FlowAt h adapters taken seen) (hpc : h.pc = .fresh)
    (config : StreamConfig) :
    FlowAt { h with config, pc := .dialing, ingestor := config.ingestor } adapters taken seen := by
  obtain ⟨rfl, hdrained⟩ := hf.fresh hpc
  refine ⟨rfl, hf.heard, hf.unbuilt, by rw [hdrained]; rfl, ?_, fun hc => by cases hc⟩
  rintro ⟨task, htask, -⟩
  cases htask

/-- The drain loop takes the front of the session's queue. -/
theorem FlowAt.drained (hf : FlowAt h adapters taken seen) {event : SocialEvent}
    {queue : List SocialEvent} (hqueue : h.ingestor.queue = event :: queue)
    (hingestor : h'.ingestor = { h.ingestor with queue }) (hpc : h'.pc ≠ .fresh)
    (note : Option String) : FlowAt h' adapters taken (seen ++ [.drained event note]) where
  clients := by rw [hingestor]; exact hf.clients
  heard c := by rw [heardBy_append, hf.heard c]; exact List.append_nil _
  unbuilt := hf.unbuilt
  queued := by
    rw [hf.queued, hqueue, hingestor, drainedOf_append, List.map_append, List.append_assoc]
    rfl
  listening hl := by
    rw [hingestor] at hl
    exact hf.listening hl
  fresh hc := absurd hc hpc

/-- A client calls a listener. -/
theorem FlowAt.listener (hf : FlowAt h adapters taken seen) {client : Nat}
    (hclient : client < adapters.length) (event : ClientEvent) :
    FlowAt h (adapters.modify client (·.on event)) taken
      (seen ++ event.items.map (.heard client)) := by
  have hlength : (adapters.modify client (·.on event)).length = adapters.length :=
    List.length_modify ..
  refine ⟨hlength.trans hf.clients, fun c => ?_, ?_, ?_, ?_, fun hpc => ?_⟩
  · rw [heardBy_append, hf.heard c, heardBy_heard, List.getD_eq_getElem?_getD,
      List.getD_eq_getElem?_getD, List.getElem?_modify]
    by_cases hc : client = c
    · subst hc
      simp [List.getElem?_eq_getElem hclient, TikTokLiveClientAdapter.on]
    · simp [hc]
  · rw [hlength]
    exact hf.unbuilt
  · rw [hlength, drainedOf_append, drainedOf_heard, List.append_nil]
    exact hf.queued
  · rw [hlength]
    exact hf.listening
  · obtain ⟨rfl, -⟩ := hf.fresh hpc
    cases hclient

/-! ## What the task takes -/

theorem adaptersAfter_cases {act : RunAct} {adapters' : List TikTokLiveClientAdapter}
    (h : adaptersAfter adapters act = some adapters') :
    (∃ item old queue, act.item = some item ∧ adapters = old ++ [⟨item :: queue⟩] ∧
      adapters' = old ++ [⟨queue⟩]) ∨
    act.item = none ∧ adapters' = adapters := by
  unfold adaptersAfter at h
  split at h
  next item hitem =>
    obtain ⟨a, hlast, h⟩ := Option.bind_eq_some_iff.mp h
    obtain ⟨a', hget, h⟩ := Option.bind_eq_some_iff.mp h
    obtain ⟨old, rfl⟩ := List.getLast?_eq_some_iff.mp hlast
    obtain ⟨queue⟩ := a
    unfold TikTokLiveClientAdapter.get at hget
    split at hget
    next front rest hqueue =>
      rw [Option.ite_none_right_eq_some] at hget
      obtain ⟨rfl, hget⟩ := hget
      cases hget
      cases h
      subst hqueue
      exact Or.inl ⟨front, old, rest, hitem, rfl, by rw [List.dropLast_concat]⟩
    next => cases hget
  next => cases h
  next hitem =>
    cases h
    exact Or.inr ⟨hitem, rfl⟩

/-- **The ingestor takes an item** of the client it works with. -/
theorem FlowAt.take {old : List TikTokLiveClientAdapter} {queue : List (Option SocialEvent)}
    {item : Option SocialEvent} (hf : FlowAt h (old ++ [⟨item :: queue⟩]) taken seen)
    {w : Taken} (hitems : w.items = (taken old.length).items ++ [item])
    (hevents : w.events = (taken old.length).events ++ item.toList)
    (hqueue : h'.ingestor.queue = h.ingestor.queue ++ item.toList)
    (hclients : h'.ingestor.clients.length = h.ingestor.clients.length)
    (hlistening : h'.ingestor.Listening → w.ended = false) (hpc : h'.pc ≠ .fresh) :
    FlowAt h' (old ++ [⟨queue⟩]) (Function.update taken old.length w) seen := by
  have hlength : (old ++ [(⟨queue⟩ : TikTokLiveClientAdapter)]).length = old.length + 1 :=
    List.length_append
  refine ⟨?_, fun c => ?_, fun c hc => ?_, ?_, fun hl => ?_, fun hc => absurd hc hpc⟩
  · rw [hclients, ← hf.clients, hlength, List.length_append, List.length_singleton]
  · have hheard := hf.heard c
    simp only [List.getD_eq_getElem?_getD, List.getElem?_append] at hheard ⊢
    by_cases hc : c = old.length
    · subst hc
      simpa [hitems] using hheard
    · rw [hheard, Function.update_of_ne hc]
      congr 1
      split
      · rfl
      · rw [List.getElem?_singleton, List.getElem?_singleton, if_neg (by omega),
          if_neg (by omega)]
  · rw [hlength] at hc
    rw [Function.update_of_ne (by omega)]
    exact hf.unbuilt c (by simpa using hc)
  · have hbefore := hf.queued
    have hsame : ∀ c ∈ List.range old.length,
        (Function.update taken old.length w c).events = (taken c).events := fun c hc => by
      rw [Function.update_of_ne (List.mem_range.mp hc).ne]
    simp only [List.length_append, List.length_singleton, List.range_succ, List.flatMap_append,
      List.flatMap_singleton] at hbefore ⊢
    rw [List.flatMap_congr hsame, Function.update_self, hevents, hqueue, ← List.append_assoc,
      hbefore, List.append_assoc]
  · exact ⟨old.length, hlength, by rw [Function.update_self]; exact hlistening hl⟩

/-- The factory makes an adapter. -/
theorem FlowAt.built (hf : FlowAt h adapters taken seen)
    (hqueue : h'.ingestor.queue = h.ingestor.queue)
    (hclients : h'.ingestor.clients.length = h.ingestor.clients.length + 1)
    (hpc : h'.pc ≠ .fresh) : FlowAt h' (adapters ++ [⟨[]⟩]) taken seen := by
  have hnew := hf.unbuilt adapters.length (Nat.le_refl _)
  have hlength : (adapters ++ [(⟨[]⟩ : TikTokLiveClientAdapter)]).length = adapters.length + 1 :=
    List.length_append
  refine ⟨?_, fun c => ?_, fun c hc => ?_, ?_, fun _ => ?_, fun hc => absurd hc hpc⟩
  · rw [hlength, hclients, hf.clients]
  · rw [hf.heard c, List.getD_eq_getElem?_getD, List.getD_eq_getElem?_getD, List.getElem?_append]
    congr 1
    split
    · rfl
    · rw [List.getElem?_singleton, List.getElem?_eq_none (by omega)]
      split <;> rfl
  · rw [hlength] at hc
    exact hf.unbuilt c (by omega)
  · rw [hlength, List.range_succ, List.flatMap_append, List.flatMap_singleton, hnew, hqueue]
    simpa using hf.queued
  · exact ⟨adapters.length, hlength, by rw [hnew]⟩

/-- **A step of the task keeps the law.** -/
theorem FlowAt.fed (hf : FlowAt h adapters taken seen) {act : RunAct}
    {adapters' : List TikTokLiveClientAdapter}
    (hfed : TikTokLiveIngestor.Fed h.ingestor h'.ingestor act)
    (hafter : adaptersAfter adapters act = some adapters') (hpc : h'.pc ≠ .fresh) :
    ∃ taken', FlowAt h' (adapters' ++
      List.replicate (h'.ingestor.clients.length - adapters'.length) ⟨[]⟩) taken' seen := by
  have hclients := hf.clients
  rcases adaptersAfter_cases hafter with ⟨item, old, queue, hitem, rfl, rfl⟩ | ⟨hitem, rfl⟩
  · rw [List.length_append, List.length_singleton] at hclients
    have hlength : (old ++ [(⟨queue⟩ : TikTokLiveClientAdapter)]).length = old.length + 1 :=
      List.length_append
    cases hfed with
    | event e hfrom hqueue hsame =>
      cases hitem
      obtain ⟨c, hc, hended⟩ := hf.listening hfrom
      obtain rfl : old.length = c := by simpa using hc
      rw [hsame, hlength, hclients, Nat.sub_self, List.replicate_zero, List.append_nil]
      exact ⟨_, hf.take (w := ⟨(taken old.length).events ++ [e], false⟩)
        (by simp [Taken.items, hended]) rfl hqueue hsame (fun _ => rfl) hpc⟩
    | ended hfrom hto hqueue hsame =>
      cases hitem
      obtain ⟨c, hc, hended⟩ := hf.listening hfrom
      obtain rfl : old.length = c := by simpa using hc
      rw [hsame, hlength, hclients, Nat.sub_self, List.replicate_zero, List.append_nil]
      exact ⟨_, hf.take (w := ⟨(taken old.length).events, true⟩)
        (by simp [Taken.items, hended]) (by simp) (by simpa using hqueue) hsame
        (fun hl => absurd hl hto) hpc⟩
    | built hnone => rw [hitem] at hnone; cases hnone
    | quiet hnone => rw [hitem] at hnone; cases hnone
  · cases hfed with
    | event e => cases hitem
    | ended => cases hitem
    | built _ hqueue hbuilt =>
      rw [hbuilt, ← hclients, Nat.add_sub_cancel_left]
      exact ⟨taken, hf.built hqueue hbuilt hpc⟩
    | quiet _ hto hqueue hsame =>
      rw [hsame, ← hclients, Nat.sub_self, List.replicate_zero, List.append_nil]
      exact ⟨taken, hf.congr hsame hqueue hto fun hc => absurd hc hpc⟩

end Livehost
