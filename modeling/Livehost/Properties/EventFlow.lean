import Livehost.Properties.AdapterQueues
import Livehost.Spec.Coroutines
import Livehost.Spec.Ledger

/-!
# Where every TikTok event goes

The drain loop takes the session's queue event by event, and leaves an event out or hands it to the
scheduler. Nothing on the way from a listener to a turn is lost, doubled or reordered, whatever
connects, drops, restarts and teardowns come in between.

* `AdmitsAt` — the law of the scheduler
* `flows_step` — a step of the server keeps it and the law of the queues
* `event_flow` — the whole way, down to the scheduler's ledger
-/

namespace Livehost

open Infra

variable {σ β : Type} {h h' : Stream σ β} {adapters : List TikTokLiveClientAdapter}
  {seen : List FlowEvent}

/-! ## What reaches the scheduler -/

open EventScheduler in
/-- The events that the calls enqueue. -/
def enqueuedBy (cs : List Call) : List SocialEvent :=
  cs.filterMap fun
    | .enqueue event => some event
    | .nextTurn => none

/-- What the drain loop hands to the scheduler of what it took. -/
def admitted (skipLikeShare : Bool) (drained : List (SocialEvent × Option String)) :
    List SocialEvent :=
  drained.filterMap fun (event, note) =>
    if skipSocialEvent event skipLikeShare then none else some { event with viewerNote := note }

@[simp] theorem enqueuedBy_append (cs cs' : List EventScheduler.Call) :
    enqueuedBy (cs ++ cs') = enqueuedBy cs ++ enqueuedBy cs' := List.filterMap_append

theorem enqueuedBy_map (events : List SocialEvent) :
    enqueuedBy (events.map .enqueue) = events := by
  unfold enqueuedBy
  rw [List.filterMap_map]
  exact List.filterMap_some

@[simp] theorem admitted_append (skipLikeShare : Bool)
    (drained drained' : List (SocialEvent × Option String)) :
    admitted skipLikeShare (drained ++ drained') =
      admitted skipLikeShare drained ++ admitted skipLikeShare drained' := List.filterMap_append

/-- The first connect has returned, so there is a relay. -/
def StreamPc.entered (pc : StreamPc) : Bool := pc.running || pc.inTeardown

@[simp] theorem StreamPc.entered_drop (pc : StreamPc) : pc.drop.entered = pc.entered := by
  cases pc <;> rfl

@[simp] theorem Stream.afterStop_entered (h : Stream σ β)
    (result : TikTokLiveIngestor Caller × Option Caller) :
    (h.afterStop result).pc.entered = h.pc.entered := by
  by_cases hstop : h.pc = .stopping ∧ result.2 = some .handler
  · simp [Stream.afterStop, hstop, StreamPc.entered, StreamPc.inTeardown]
  · simp [Stream.afterStop, hstop]

section Laws

variable [Score σ] [PyLower]

/-- **The law of the scheduler**: it is a fresh one after calls that enqueue what the drain loop
handed over. -/
structure AdmitsAt (h : Stream σ β) (cs : List EventScheduler.Call) (seen : List FlowEvent) :
    Prop where
  enqueued : enqueuedBy cs = admitted h.config.skipLikeShare (drainedOf seen)
  scheduler : h.pc.entered = true →
    h.relay.scheduler = (h.config.scheduler : EventScheduler σ).calls cs
  before : h.pc.entered = false → cs = [] ∧ drainedOf seen = []

variable {cs : List EventScheduler.Call}

/-- The relay's scheduler is as it was. -/
theorem AdmitsAt.congr (ha : AdmitsAt h cs seen) (hconfig : h'.config = h.config)
    (hsched : h'.relay.scheduler = h.relay.scheduler) (hpc : h'.pc.entered = h.pc.entered) :
    AdmitsAt h' cs seen where
  enqueued := by rw [hconfig]; exact ha.enqueued
  scheduler he := by rw [hsched, hconfig]; exact ha.scheduler (hpc ▸ he)
  before he := ha.before (hpc ▸ he)

/-- **A task's step** is one of the drain loop, or leaves the ingestor alone and takes a turn of the
scheduler at most. -/
theorem taskStep_flow {act : StreamAct β} (hs : h.taskStep act = some h') :
    (∃ now note, act = .drain now note ∧ h.drainStep now note = some h') ∨
    (∀ now note, act ≠ .drain now note) ∧ h'.ingestor = h.ingestor ∧
      (h'.relay.scheduler = h.relay.scheduler ∨
        h'.relay.scheduler = h.relay.scheduler.call .nextTurn) := by
  cases act with
  | drain now note => exact Or.inl ⟨now, note, rfl, hs⟩
  | drop =>
    simp only [Stream.taskStep] at hs
    split at hs <;> cases hs
    exact Or.inr ⟨by simp, rfl, Or.inl rfl⟩
  | down act =>
    simp only [Stream.taskStep, Stream.downStep] at hs
    split at hs
    next =>
      obtain ⟨⟨relay, down⟩, hdown, rfl⟩ := Option.map_eq_some_iff.mp hs
      exact Or.inr ⟨by simp, rfl, Or.inl (downStep_scheduler hdown)⟩
    next => cases hs
  | pollSocial now =>
    simp only [Stream.taskStep] at hs
    split at hs <;> cases hs
    refine Or.inr ⟨by simp, rfl, ?_⟩
    rcases h.relay.pollSocial_cases now h.config.batchMinEvents h.config.batchWaitSeconds with
      hp | ⟨turn, scheduler, -, -, -, hn, hp⟩
    · exact Or.inl (congrArg (·.1.scheduler) hp)
    · exact Or.inr ((congrArg (·.1.scheduler) hp).trans (congrArg Prod.snd hn).symm)
  | pollIdle now =>
    simp only [Stream.taskStep] at hs
    split at hs <;> cases hs
    refine Or.inr ⟨by simp, rfl, Or.inl ?_⟩
    rcases h.relay.pollIdle_cases now h.config.idleTopicSeconds with hp | ⟨-, -, -, hp⟩
    · exact congrArg (·.1.scheduler) hp
    · exact congrArg (·.1.scheduler) hp
  | socialSent | socialRaises | idleSent | idleRaises =>
    simp only [Stream.taskStep] at hs
    split at hs <;> cases hs
    exact Or.inr ⟨by simp, rfl, Or.inl rfl⟩
  | _ => cases hs

/-- **A turn of the drain loop**: the event is skipped, or enqueued with its note. -/
theorem drainStep_cases {now : Rat} {note : Option String} (hs : h.drainStep now note = some h') :
    ∃ event queue, h.ingestor.queue = event :: queue ∧
      h'.ingestor = { h.ingestor with queue } ∧ h'.pc = h.pc ∧ h'.config = h.config ∧
      h'.relay.scheduler = (admitted h.config.skipLikeShare [(event, note)]).foldl
        (fun scheduler event => scheduler.enqueue event) h.relay.scheduler := by
  unfold Stream.drainStep at hs
  split at hs
  next => cases hs
  next event queue hqueue =>
    refine ⟨event, queue, hqueue, ?_⟩
    have hkind : skipSocialEvent { event with viewerNote := note } h.config.skipLikeShare =
        skipSocialEvent event h.config.skipLikeShare := rfl
    dsimp only at hs
    rw [hkind] at hs
    split at hs
    next hskip =>
      cases hs
      exact ⟨rfl, rfl, rfl, by simp [admitted, hskip]⟩
    next hskip =>
      cases hs
      refine ⟨rfl, rfl, rfl, ?_⟩
      simp [admitted, hskip, Relay.arrive_scheduler]

theorem calls_enqueue (cs : List EventScheduler.Call) (s : EventScheduler σ)
    (events : List SocialEvent) :
    s.calls (cs ++ events.map .enqueue) =
      events.foldl (fun scheduler event => scheduler.enqueue event) (s.calls cs) := by
  simp [EventScheduler.calls, List.foldl_map, EventScheduler.call]

/-! ## Every step -/

/-- Both laws of a handler. -/
def Flows (h : Stream σ β) (adapters : List TikTokLiveClientAdapter) (seen : List FlowEvent) :
    Prop :=
  (∃ taken, FlowAt h adapters taken seen) ∧ ∃ cs, AdmitsAt h cs seen

/-- A task's step keeps both laws. -/
theorem Flows.task {act : StreamAct β} (hi : Flows h adapters seen) (hpc : h.pc.running = true)
    (hs : h.taskStep act = some h') : Flows h' adapters (seen ++ h.drainSeen act) := by
  obtain ⟨⟨taken, hf⟩, cs, ha⟩ := hi
  obtain ⟨hconfig, -, -, -, hplace⟩ := Stream.taskStep_frame hs
  have hrun : h'.pc.running = true := by
    rcases hplace with ⟨-, -, hdrop⟩ | ⟨-, hsame, -⟩
    · rw [hdrop, StreamPc.running_drop, hpc]
    · rw [hsame, hpc]
  have hentered : h'.pc.entered = true ∧ h.pc.entered = true := by
    simp [StreamPc.entered, hrun, hpc]
  have hfresh : h'.pc ≠ .fresh := fun hc => by rw [hc] at hrun; cases hrun
  rcases taskStep_flow hs with ⟨now, note, rfl, hdrain⟩ | ⟨hact, hingestor, hsched⟩
  · obtain ⟨event, queue, hqueue, hingestor, -, -, hsched⟩ := drainStep_cases hdrain
    have hseen : h.drainSeen (.drain now note) = [.drained event note] := by
      simp [Stream.drainSeen, hqueue]
    rw [hseen]
    refine ⟨⟨taken, hf.drained hqueue hingestor hfresh note⟩,
      cs ++ (admitted h.config.skipLikeShare [(event, note)]).map .enqueue, ?_, fun _ => ?_, ?_⟩
    · rw [enqueuedBy_append, enqueuedBy_map, ha.enqueued, hconfig, drainedOf_append,
        admitted_append]
      rfl
    · rw [hsched, ha.scheduler hentered.2, hconfig, calls_enqueue]
    · rw [hentered.1]
      simp
  · have hseen : h.drainSeen act = [] := by
      cases act <;> first | rfl | exact absurd rfl (hact _ _)
    rw [hseen, List.append_nil]
    refine ⟨⟨taken, hf.congr ?_ ?_ ?_ fun hc => absurd hc hfresh⟩, ?_⟩
    · rw [hingestor]
    · rw [hingestor]
    · rw [hingestor]; exact id
    · rcases hsched with hsame | hturn
      · exact ⟨cs, ha.congr hconfig hsame (hentered.1.trans hentered.2.symm)⟩
      · refine ⟨cs ++ [.nextTurn], ?_, fun _ => ?_, ?_⟩
        · rw [enqueuedBy_append, hconfig, ha.enqueued]
          exact List.append_nil _
        · rw [hturn, ha.scheduler hentered.2, hconfig, EventScheduler.calls_concat]
        · rw [hentered.1]
          simp

/-- The handler's place and its relay after a step of the ingestor. -/
theorem AdmitsAt.afterStop (ha : AdmitsAt h cs seen)
    (result : TikTokLiveIngestor Caller × Option Caller) :
    AdmitsAt (h.afterStop result) cs seen := ha.congr rfl rfl (h.afterStop_entered result)

/-- The call of a control request keeps both laws. -/
theorem Flows.call (hi : Flows h adapters seen) (caller : Caller) (op : LockOp) :
    Flows { h with ingestor := (h.ingestor.call caller op).1 } adapters seen := by
  obtain ⟨⟨taken, hf⟩, cs, ha⟩ := hi
  obtain ⟨hclients, hqueue, hlistening⟩ := TikTokLiveIngestor.unfed_step
    (s := h.ingestor) (a := .call caller op) (by simp) rfl
  exact ⟨⟨taken, hf.congr (congrArg List.length hclients) hqueue hlistening id⟩,
    cs, ha.congr rfl rfl rfl⟩

/-- **A handler's step keeps both laws**, but for a step of the ingestor's task. -/
theorem Flows.moves {i : Nat} {r r' : LivehostSessionRegistry} {act : StreamAct β}
    {returned : Option Nat} (hi : Flows h adapters seen)
    (hm : Stream.Moves i r h act r' h' returned) (hact : ∀ a, act ≠ .ingest (.run a)) :
    Flows h' adapters (seen ++ h.drainSeen act) := by
  have hplace : ∀ {h' : Stream σ β}, h'.ingestor = h.ingestor → h'.pc ≠ .fresh →
      (∃ cs, AdmitsAt h' cs seen) → Flows h' adapters (seen ++ []) := by
    intro h' hingestor hfresh ha
    obtain ⟨⟨taken, hf⟩, -⟩ := hi
    rw [List.append_nil]
    refine ⟨⟨taken, hf.congr ?_ ?_ ?_ fun hc => absurd hc hfresh⟩, ha⟩
    · rw [hingestor]
    · rw [hingestor]
    · rw [hingestor]; exact id
  obtain ⟨⟨taken, hf⟩, cs, ha⟩ := id hi
  cases hm with
  | granted config hpc =>
    obtain ⟨rfl, hdrained⟩ := ha.before (by rw [hpc]; rfl)
    rw [show h.drainSeen (.accept config) = [] from rfl, List.append_nil]
    refine ⟨⟨taken, hf.granted hpc config⟩, [], ?_, fun hc => (by cases hc),
      fun _ => ⟨rfl, hdrained⟩⟩
    rw [hdrained]
    rfl
  | refused config hpc =>
    obtain ⟨rfl, hdrained⟩ := ha.before (by rw [hpc]; rfl)
    refine hplace rfl (by simp) ⟨[], ?_, fun hc => (by cases hc), fun _ => ⟨rfl, hdrained⟩⟩
    rw [hdrained]
    rfl
  | dialed now hpc =>
    obtain ⟨rfl, hdrained⟩ := ha.before (by rw [hpc]; rfl)
    refine hplace rfl (by simp [Stream.enterLoop]) ⟨[], ?_, fun _ => rfl, fun hc => by cases hc⟩
    rw [hdrained]
    rfl
  | frame frame hpc =>
    refine hplace rfl ?_ ⟨cs, ha.congr rfl rfl ?_⟩
    · dsimp only; split <;> simp
    · rw [hpc]; dsimp only; split <;> rfl
  | dialFails hpc | reported hpc | disconnect hpc | forwarded hpc | forwardRaises hpc
  | closed hpc =>
    exact hplace rfl (by simp) ⟨cs, ha.congr rfl rfl (by rw [hpc]; rfl)⟩
  | tasksEnded hpc =>
    have hcall := (hi.call .handler .stop).1
    obtain ⟨taken', hcall⟩ := hcall
    rw [show h.drainSeen .tasksEnded = [] from rfl, List.append_nil]
    refine ⟨⟨taken', hcall.congr rfl rfl id fun hc => ?_⟩, cs, ?_⟩
    · rw [Stream.afterStop_fresh] at hc
      cases hc
    · have hstop : AdmitsAt { h with pc := .stopping, stopCalled := true } cs seen :=
        ha.congr rfl rfl (by rw [hpc]; rfl)
      exact hstop.afterStop _
  | ingest a result hstarted hcall hstep =>
    obtain ⟨ingestor, returned⟩ := result
    obtain ⟨hclients, hqueue, hlistening⟩ :=
      TikTokLiveIngestor.unfed_step (fun act he => hact act (congrArg _ he)) hstep
    rw [show h.drainSeen (.ingest a) = [] from rfl, List.append_nil]
    refine ⟨⟨taken, hf.congr (congrArg List.length hclients) hqueue hlistening fun hc => ?_⟩,
      cs, ha.afterStop _⟩
    exact (Stream.afterStop_fresh h (ingestor, returned)).mp hc
  | task act h' hpc hstep => exact hi.task hpc hstep

/-- **A step of the ingestor's task keeps both laws.** -/
theorem Flows.run {i : Nat} {r r' : LivehostSessionRegistry} {act : RunAct}
    {returned : Option Nat} {adapters' : List TikTokLiveClientAdapter}
    (hi : Flows h adapters seen) (hm : Stream.Moves i r h (.ingest (.run act)) r' h' returned)
    (hafter : adaptersAfter adapters act = some adapters') :
    Flows h' (adapters' ++
      List.replicate (h'.ingestor.clients.length - adapters'.length) ⟨[]⟩) seen := by
  obtain ⟨⟨taken, hf⟩, cs, ha⟩ := hi
  cases hm with
  | ingest a result hstarted hcall hstep =>
    obtain ⟨ingestor, returned⟩ := result
    refine ⟨hf.fed (TikTokLiveIngestor.fed_step hstep) hafter ?_, cs, ha.afterStop _⟩
    exact fun hc => hstarted.1 ((Stream.afterStop_fresh h (ingestor, returned)).mp hc)
  | task act h' hpc hstep => cases hstep

/-- **A step of the server keeps both laws**, of every handler. -/
theorem flows_step {i : Nat} {s s' : LiveServer σ β} {a : LiveAct β}
    (hi : Flows (s.server.streams i) (s.adapters i) seen) (hs : s.step a = some s') :
    Flows (s'.server.streams i) (s'.adapters i) (seen ++ s.flowSeen i a) := by
  unfold LiveServer.step at hs
  split at hs
  next j client event =>
    rw [Option.ite_none_right_eq_some] at hs
    obtain ⟨hclient, hs⟩ := hs
    cases hs
    obtain ⟨⟨taken, hf⟩, cs, ha⟩ := hi
    by_cases hj : j = i
    · subst hj
      simp only [LiveServer.flowSeen, if_true, Function.update_self]
      refine ⟨⟨taken, hf.listener hclient event⟩, cs, ?_, ha.scheduler, fun he => ?_⟩
      · rw [drainedOf_append, drainedOf_heard, List.append_nil]
        exact ha.enqueued
      · rw [drainedOf_append, drainedOf_heard, List.append_nil]
        exact ha.before he
    · simp only [LiveServer.flowSeen, if_neg hj, Function.update_of_ne (Ne.symm hj),
        List.append_nil]
      exact ⟨⟨taken, hf⟩, cs, ha⟩
  next j act =>
    obtain ⟨adapters', hafter, hs⟩ := Option.bind_eq_some_iff.mp hs
    obtain ⟨server, hserver, hs⟩ := Option.bind_eq_some_iff.mp hs
    cases hs
    rcases serverStep_cases hserver with ⟨j', act', registry, h', returned, ha, hm, -, -, hstr⟩ |
      ⟨-, -, hno, -⟩
    · cases ha
      have hseen : s.flowSeen i (.server (.stream j (.ingest (.run act)))) = [] := ite_self []
      rw [hseen, List.append_nil]
      by_cases hj : j = i
      · subst hj
        simp only [LiveServer.withBuilt, hstr, Function.update_self]
        exact hi.run hm hafter
      · simp only [LiveServer.withBuilt, hstr, Function.update_of_ne (Ne.symm hj)]
        exact hi
    · exact absurd rfl (hno _ _)
  next act hact =>
    obtain ⟨server, hserver, hs⟩ := Option.bind_eq_some_iff.mp hs
    cases hs
    rcases serverStep_cases hserver with ⟨j, act', registry, h', returned, rfl, hm, -, -, hstr⟩ |
      ⟨-, -, hno, ⟨r, j, op, -, hstr⟩ | ⟨-, hstr⟩⟩
    · rw [hstr]
      by_cases hj : j = i
      · subst hj
        simp only [LiveServer.flowSeen, if_true, Function.update_self]
        exact hi.moves hm fun act he => hact j act (by rw [he])
      · simp only [LiveServer.flowSeen, if_neg hj, Function.update_of_ne (Ne.symm hj),
          List.append_nil]
        exact hi
    all_goals
      have hseen : s.flowSeen i (.server act) = [] := by
        cases act <;> first | rfl | exact absurd rfl (hno _ _)
      rw [hseen, List.append_nil, hstr]
    · by_cases hj : j = i
      · subst hj
        rw [Function.update_self]
        exact hi.call (.request r) op
      · rw [Function.update_of_ne (Ne.symm hj)]
        exact hi
    · exact hi

/-! ## The whole way -/

theorem ledger_events (kw : List String) (threshold topK cap : Int)
    (cs : List EventScheduler.Call) :
    (Spec.ledger kw threshold topK cap cs : Spec.Ledger σ).events = enqueuedBy cs := by
  induction cs using List.reverseRecOn with
  | nil => rfl
  | append_singleton cs c ih =>
    rw [Spec.ledger_concat, enqueuedBy_append, ← ih]
    cases c with
    | enqueue event => rfl
    | nextTurn =>
      have hlaw : Spec.Accounted (Spec.ledger kw threshold topK cap cs : Spec.Ledger σ) :=
        Spec.accounted_ledger kw threshold topK cap cs
      rcases Spec.book_nextTurn_cases hlaw with
        ⟨-, hbook⟩ | ⟨turn, delivered, dropped, pending, -, -, -, -, hbook⟩
      · rw [hbook]
        exact (List.append_nil _).symm
      · rw [hbook]
        exact (List.append_nil _).symm

/--
**Where every TikTok event goes.** In every run of the server, for every handler: what the listeners
of each of its clients put is, in order, what the ingestor took of that client and what still waits
in the adapter's queue, where the ingestor took the events up to the first signal to reconnect and
nothing behind it; all that it took, one client after the other, is what the drain loop took and
what waits in the session's queue; what the drain loop did not skip went to the scheduler; and there
each event is pending, evicted, in one turn or in the overflow of one turn, once.
-/
theorem event_flow {acts : List (LiveAct β)} {t : LiveServer σ β}
    (h : run LiveServer.step {} acts = some t) (i : Nat) :
    let seen := trace LiveServer.step (LiveServer.flowSeen i) ({} : LiveServer σ β) acts
    let handler := t.server.streams i
    let config := handler.config
    ∃ (taken : Nat → Taken) (cs : List EventScheduler.Call),
      let L : Spec.Ledger σ := Spec.ledger config.mentionKeywords config.individualThreshold
        config.batchTopK config.queueMaxSize cs
      (∀ c, heardBy c seen = (taken c).items ++ ((t.adapters i).getD c {}).queue) ∧
      (t.adapters i).length = handler.ingestor.clients.length ∧
      (List.range handler.ingestor.clients.length).flatMap (fun c => (taken c).events) =
        (drainedOf seen).map Prod.fst ++ handler.ingestor.queue ∧
      L.events = admitted config.skipLikeShare (drainedOf seen) ∧
      (handler.pc.entered = true → handler.relay.scheduler = L.sched) ∧
      Spec.Accounted L := by
  intro seen handler config
  obtain ⟨⟨taken, hf⟩, cs, ha⟩ : Flows (t.server.streams i) (t.adapters i) seen := by
    refine run_trace_inv (I := fun s seen => Flows (s.server.streams i) (s.adapters i) seen)
      (fun s a s' seen hi hs => flows_step hi hs) ⟨⟨_, flowAt_start⟩, [], rfl, ?_, ?_⟩ h
    · intro hc
      cases hc
    · exact fun _ => ⟨rfl, rfl⟩
  refine ⟨taken, cs, hf.heard, hf.clients, hf.clients ▸ hf.queued, ?_, fun hpc => ?_,
    Spec.accounted_ledger ..⟩
  · rw [ledger_events, ha.enqueued]
  · rw [ha.scheduler hpc, Spec.ledger_sched]
    rfl

end Laws

/-- Lan follows; her room goes offline, and she follows once more. -/
def lanFollows : List (LiveAct Unit) :=
  [ .server (.stream 0 (.accept { sessionId := "room", userId := "u1" })),
    .server (.stream 0 (.dialed 0)), .server (.request 0 (.connect "host") "room" (some "ticket")),
    .server (.introspected 0 (some "u1")), .server (.stream 0 (.ingest (.run (.begin .returns)))),
    .server (.stream 0 (.ingest (.run (.connected true)))),
    .listener 0 0 (.social (.follow ⟨"lan", "Lan"⟩)), .listener 0 0 .liveEnd,
    .listener 0 0 (.social (.follow ⟨"lan", "Lan"⟩)),
    .server (.stream 0 (.ingest (.run (.event (mapFollow ⟨"lan", "Lan"⟩))))),
    .server (.stream 0 (.ingest (.run .streamEnds))), .server (.stream 0 (.drain 1 none)) ]

/-- What comes behind the signal stays in the adapter's queue. -/
theorem lanFollows_flow : ∃ (_ : PyLower) (t : LiveServer Int Unit) (taken : Nat → Taken),
    run LiveServer.step {} lanFollows = some t ∧
    (taken 0).items ++ [some (mapFollow ⟨"lan", "Lan"⟩)] =
      [some (mapFollow ⟨"lan", "Lan"⟩), none, some (mapFollow ⟨"lan", "Lan"⟩)] := by
  let lower : PyLower := ⟨id⟩
  have hrun : run LiveServer.step ({} : LiveServer Int Unit) lanFollows = some _ := rfl
  obtain ⟨taken, -, hheard, -⟩ := event_flow hrun 0
  exact ⟨lower, _, taken, hrun, (hheard 0).symm⟩

end Livehost
