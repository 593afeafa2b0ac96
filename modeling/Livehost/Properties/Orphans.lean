import Livehost.Api.Control
import Livehost.Properties.Ingestor

/-!
# Orphaned ingestors

The teardown stops the handler's ingestor before it releases the registry entry, and a connect
request acts on a session it looked up before it awaited the introspection. So a `start` can come
after the `stop` that was meant to be the last call; and a handler whose first connect fails never
stops its ingestor at all.

* `no_orphan_of_along` — no ingestor outlives its handler in a run whose connects come in time
* `late_connect_orphans` — a connect that is introspected during the teardown
-/

namespace Livehost

open Infra TikTokLiveIngestor

variable {σ β : Type}

/-! ## The law and its condition -/

/-- The handler has returned, by the teardown or after a failed connect. -/
def StreamPc.over : StreamPc → Bool
  | .returned | .failed => true
  | _ => false

/-- The handler has called `ingestor.stop()`, or has returned without. -/
def StreamPc.retired : StreamPc → Bool
  | .stopping | .closing | .returned | .failed => true
  | _ => false

/-- The ingestor of a handler that returned is idle and has no task. -/
def NoOrphan (s : Server σ β) : Prop :=
  ∀ i, (s.streams i).pc.over = true →
    (s.streams i).ingestor.state = .idle ∧ (s.streams i).ingestor.task = none

/-- **The law.** It holds in every state of the run, so also in those after a handler returned. -/
def NeverOrphans [Score σ] [PyLower] (acts : List (ServerAct β)) : Prop :=
  ∀ pre post (s : Server σ β), acts = pre ++ post → run serverStep .start pre = some s →
    NoOrphan s

/-- A connect request of the run `acts` calls `start` only on the ingestor of a handler that has not
called `stop` and not returned, and whose first connect to the gateway does not fail in the run. -/
def ConnectsInTime (acts : List (ServerAct β)) (s : Server σ β) (a : ServerAct β) : Prop :=
  ∀ i uniqueId, s.callOf a = some (i, .start uniqueId) →
    (s.streams i).pc.retired = false ∧ .stream i .dialFails ∉ acts

theorem ConnectsInTime.stream {acts : List (ServerAct β)} {s : Server σ β} {i : Nat}
    {act : StreamAct β} : ConnectsInTime acts s (.stream i act) := by
  intro i uniqueId hcall
  cases hcall

/-! ## One handler -/

/-- What holds of a handler and its ingestor when the connects come in time, where `fails` says that
the handler's first connect fails in the run. -/
structure RetireInv (fails : Prop) (h : Stream σ β) : Prop where
  /-- The handler calls into its ingestor from the teardown only. -/
  silent : h.pc ≠ .stopping → ∀ w ∈ h.ingestor.lock.line, w.1 ≠ .handler
  stopping : h.pc = .stopping → h.ingestor.Doomed .handler
  quiet : h.pc = .closing ∨ h.pc.over = true → h.ingestor.Quiet
  /-- Nobody starts the ingestor of a handler whose first connect fails. -/
  unstarted : fails → h.ingestor.Quiet
  reporting : h.pc = .reporting → fails

/-- A handler whose ingestor nobody has called yet. -/
theorem RetireInv.new {fails : Prop} {h : Stream σ β} (hquiet : h.ingestor.Quiet)
    (hline : h.ingestor.lock.line = []) (hstopping : h.pc ≠ .stopping)
    (hreporting : h.pc ≠ .reporting) : RetireInv fails h where
  silent _ w hw := by simp [hline] at hw
  stopping hc := absurd hc hstopping
  quiet _ := hquiet
  unstarted _ := hquiet
  reporting hc := absurd hc hreporting

theorem RetireInv.queue {fails : Prop} {h : Stream σ β} (hi : RetireInv fails h)
    (queue : List SocialEvent) :
    RetireInv fails { h with ingestor := { h.ingestor with queue } } where
  silent := hi.silent
  stopping := hi.stopping
  quiet hpc := (hi.quiet hpc).queue queue
  unstarted hf := (hi.unstarted hf).queue queue
  reporting := hi.reporting

theorem StreamPc.retired_of_over {pc : StreamPc} (h : pc = .closing ∨ pc.over = true) :
    pc.retired = true := by
  rcases h with rfl | h
  · rfl
  · cases pc <;> first | rfl | cases h

theorem StreamPc.not_running {pc : StreamPc} (h : pc = .closing ∨ pc.over = true) :
    ¬ pc.running = true := by
  rcases h with rfl | h
  · simp [StreamPc.running]
  · cases pc <;> simp [StreamPc.over, StreamPc.running] at h ⊢

/-- A step of the ingestor that is not the handler's own call. -/
theorem RetireInv.ingest {fails : Prop} {h : Stream σ β} {a : IngestAct Caller}
    {result : TikTokLiveIngestor Caller × Option Caller} (hi : RetireInv fails h)
    (ha : ∀ c op, a = .call c op →
      c ≠ .handler ∧ (h.pc.retired = true ∨ fails → op = .stop))
    (hs : h.ingestor.step a = some result) : RetireInv fails (h.afterStop result) := by
  have hunstarted : fails → result.1.Quiet := fun hf =>
    quiet_step (hi.unstarted hf)
      (fun c uniqueId he => LockOp.noConfusion ((ha c _ he).2 (Or.inr hf))) hs
  by_cases hstop : h.pc = .stopping
  · -- the handler waits for its `stop`, behind which only `stop`s have come
    have hcalls : ∀ c op, a = .call c op → c ≠ .handler ∧ op = .stop := fun c op he =>
      ⟨(ha c op he).1, (ha c op he).2 (Or.inl (by rw [hstop]; rfl))⟩
    rcases doomed_step (hi.stopping hstop) hcalls hs with ⟨hret, hquiet, hsilent⟩ | ⟨hret, hdoomed⟩
    · have hpc : (h.afterStop result).pc = .closing := if_pos ⟨hstop, hret⟩
      refine ⟨fun _ => hsilent, ?_, fun _ => hquiet, hunstarted, ?_⟩ <;>
        · intro hc
          rw [hpc] at hc
          cases hc
    · have hpc : (h.afterStop result).pc = .stopping := (if_neg fun hc => hret hc.2).trans hstop
      refine ⟨fun hc => absurd hpc hc, fun _ => hdoomed, ?_, hunstarted, ?_⟩
      · intro hc
        rw [hpc] at hc
        rcases hc with hc | hc <;> cases hc
      · intro hc
        rw [hpc] at hc
        cases hc
  · have hpc : (h.afterStop result).pc = h.pc := if_neg fun hc => hstop hc.1
    refine ⟨?_, ?_, ?_, hunstarted, fun hc => hi.reporting (hpc ▸ hc)⟩
    · intro _ w hw
      rcases mem_line_step hs hw with hw | he
      · exact hi.silent hstop w hw
      · exact (ha w.1 w.2 he).1
    · intro hc
      rw [hpc] at hc
      exact absurd hc hstop
    · intro hc
      rw [hpc] at hc
      refine quiet_step (hi.quiet hc) (fun c uniqueId he => ?_) hs
      exact LockOp.noConfusion ((ha c _ he).2 (Or.inl (StreamPc.retired_of_over hc)))

/-- The teardown's own call of `stop`. -/
theorem RetireInv.stop {fails : Prop} {h : Stream σ β} (hi : RetireInv fails h)
    (hpc : h.pc = .cancelling) :
    RetireInv fails ({ h with pc := .stopping, stopCalled := true }.afterStop
      (h.ingestor.call .handler .stop)) := by
  have hsilent := hi.silent (by rw [hpc]; simp)
  have hunstarted : fails → (h.ingestor.call .handler .stop).1.Quiet := fun hf =>
    quiet_step (a := .call .handler .stop) (hi.unstarted hf) (fun _ _ he => by cases he) rfl
  cases hcall : h.ingestor.call .handler .stop with
  | mk ingestor returned =>
    rw [hcall] at hunstarted
    rcases call_stop hsilent hcall with ⟨rfl, hdoomed⟩ | ⟨rfl, hlock, hquiet⟩
    · -- the call waits
      refine ⟨fun hc => absurd rfl hc, fun _ => hdoomed, ?_, hunstarted, fun hc => by cases hc⟩
      rintro (hc | hc) <;> cases hc
    · -- the call has returned
      refine ⟨?_, ?_, fun _ => hquiet, hunstarted, fun hc => by cases hc⟩
      · intro _ w hw
        have hw : w ∈ ingestor.lock.line := hw
        rw [hlock] at hw
        cases hw
      · intro hc
        cases hc

/-- A move of the handler that leaves the ingestor alone. -/
theorem RetireInv.move {fails : Prop} {h h' : Stream σ β} (hi : RetireInv fails h)
    (hing : h'.ingestor = h.ingestor) (hold : h.pc ≠ .stopping) (hnew : h'.pc ≠ .stopping)
    (hquiet : h'.pc = .closing ∨ h'.pc.over = true → h.ingestor.Quiet)
    (hreporting : h'.pc = .reporting → fails) : RetireInv fails h' where
  silent _ := hing ▸ hi.silent hold
  stopping hc := absurd hc hnew
  quiet hc := hing ▸ hquiet hc
  unstarted hf := hing ▸ hi.unstarted hf
  reporting := hreporting

theorem RetireInv.step [Score σ] [PyLower] {fails : Prop} {i : Nat}
    {r r' : LivehostSessionRegistry} {h h' : Stream σ β} {act : StreamAct β}
    {returned : Option Nat} (hi : RetireInv fails h) (hm : Stream.Moves i r h act r' h' returned)
    (hfails : act = .dialFails → fails) : RetireInv fails h' := by
  cases hm with
  | granted config hpc =>
    exact .new ⟨rfl, rfl, rfl, fun w hw => by cases hw⟩ rfl (by simp) (by simp)
  | ingest act result _ hcall hstep =>
    exact hi.ingest (fun c op he => absurd he (hcall c op)) hstep
  | tasksEnded hpc => exact hi.stop hpc
  | task act h' hrun hstep =>
    obtain ⟨-, -, -, ⟨queue, hing⟩, hpc⟩ := Stream.taskStep_frame hstep
    have hrun' : h'.pc.running = true := by
      rcases hpc with ⟨-, -, hpc⟩ | ⟨-, hpc, -⟩
      · rw [hpc, StreamPc.running_drop, hrun]
      · rw [hpc, hrun]
    refine (hi.queue queue).move hing ?_ ?_ (fun hc => ?_) fun hc => ?_
    · exact fun hc => by rw [show h.pc = .stopping from hc] at hrun; cases hrun
    · exact fun hc => by rw [hc] at hrun'; cases hrun'
    · exact absurd hrun' (StreamPc.not_running hc)
    · rw [hc] at hrun'
      cases hrun'
  | frame frame hpc =>
    refine hi.move rfl (by rw [hpc]; simp) ?_ ?_ ?_ <;>
      cases frame.payload <;> simp [StreamPc.over]
  | dialFails hpc =>
    refine hi.move rfl (by rw [hpc]; simp) (by simp) (fun hc => ?_) fun _ => hfails rfl
    rcases hc with hc | hc <;> cases hc
  | reported hpc =>
    -- the first connect has failed, so nobody has started the ingestor
    exact hi.move rfl (by rw [hpc]; simp) (by simp) (fun _ => hi.unstarted (hi.reporting hpc))
      (by simp)
  | closed hpc =>
    exact hi.move rfl (by rw [hpc]; simp) (by simp) (fun _ => hi.quiet (Or.inl hpc)) (by simp)
  | refused config hpc | dialed now hpc | disconnect hpc | forwarded hpc | forwardRaises hpc =>
    refine hi.move rfl (by rw [hpc]; simp) (by simp [Stream.enterLoop]) (fun hc => ?_)
      (by simp [Stream.enterLoop])
    rcases hc with hc | hc <;> cases hc

/-- A control request's call. -/
theorem RetireInv.request {fails : Prop} {h : Stream σ β} (hi : RetireInv fails h) (r : Nat)
    (op : LockOp) (hop : h.pc.retired = true ∨ fails → op = .stop) :
    RetireInv fails { h with ingestor := (h.ingestor.call (.request r) op).1 } := by
  have hret : (h.ingestor.call (.request r) op).2 ≠ some .handler := by
    rcases call_returned h.ingestor (.request r) op with hn | hs
    · simp [hn]
    · simp [hs]
  have hafter : h.afterStop (h.ingestor.call (.request r) op)
      = { h with ingestor := (h.ingestor.call (.request r) op).1 } := by
    simp [Stream.afterStop, hret]
  rw [← hafter]
  exact hi.ingest (a := .call (.request r) op) (fun c o he => by cases he; exact ⟨by simp, hop⟩) rfl

/-! ## The server -/

section Server

variable [Score σ] [PyLower] {s s' : Server σ β}

theorem retireInv_step {acts : List (ServerAct β)} {a : ServerAct β}
    (hi : ∀ i, RetireInv (.stream i .dialFails ∈ acts) (s.streams i)) (ha : a ∈ acts)
    (hc : ConnectsInTime acts s a) (hs : serverStep s a = some s') :
    ∀ i, RetireInv (.stream i .dialFails ∈ acts) (s'.streams i) := by
  refine streams_inv (I := fun i => RetireInv (.stream i .dialFails ∈ acts)) hi ?_ ?_ hs
  · intro r i op hcall
    refine (hi i).request r op fun hbad => ?_
    cases op with
    | start uniqueId =>
      obtain ⟨hret, hdials⟩ := hc i uniqueId hcall
      rcases hbad with hbad | hfails
      · rw [hret] at hbad
        cases hbad
      · exact absurd hfails hdials
    | stop => rfl
  · intro i act registry h returned he hm
    exact (hi i).step hm fun hact => by rw [← hact, ← he]; exact ha

/-- **No ingestor outlives its handler** in a run whose connect requests come in time. -/
theorem no_orphan_of_along {acts : List (ServerAct β)}
    (hc : Along serverStep (ConnectsInTime acts) (.start : Server σ β) acts) :
    NeverOrphans (σ := σ) acts := by
  intro pre post s he hs i hover
  have hpre : Along serverStep (fun s a => a ∈ acts ∧ ConnectsInTime acts s a)
      (.start : Server σ β) pre := by
    rw [he] at hc
    refine along_iff.mpr fun pre' a post' m he' hm => ?_
    have hmem : a ∈ acts := by simp [he, he']
    exact ⟨hmem, he ▸ along_iff.mp (along_append.mp hc).1 pre' a post' m he' hm⟩
  have hi : ∀ i, RetireInv (.stream i .dialFails ∈ acts) (s.streams i) := by
    refine run_inv_along (I := fun s => ∀ i, RetireInv (.stream i .dialFails ∈ acts)
      (s.streams i)) ?_ ?_ hpre hs
    · intro s a s' hi hc hs
      exact retireInv_step hi hc.1 hc.2 hs
    · -- no handler has begun
      intro i
      exact .new ⟨rfl, rfl, rfl, fun w hw => by cases hw⟩ rfl (fun hc => by cases hc)
        fun hc => by cases hc
  have hq := (hi i).quiet (Or.inr hover)
  exact ⟨hq.idle, hq.noTask⟩

end Server

/-! ## Runs -/

/-- A connect that comes during the run of its handler, and the teardown that stops it. -/
def connectInTime : List (ServerAct Unit) :=
  [ .stream 0 (.accept { sessionId := "room" }), .stream 0 (.dialed 0),
    .request 0 (.connect "host") "room" none, .stream 0 .disconnect, .stream 0 .tasksEnded,
    .stream 0 (.ingest (.run .cancelled)), .stream 0 (.ingest .awaited), .stream 0 .closed ]

theorem connectInTime_leaves_no_orphan :
    ∃ (_ : PyLower) (s : Server Int Unit), run serverStep .start connectInTime = some s ∧
      (s.streams 0).pc = .returned ∧ NoOrphan s := by
  let lower : PyLower := ⟨id⟩
  have hrequest (s : Server Int Unit) (h : s.registry.get "room" = some ⟨0, none⟩)
      (hpc : (s.streams 0).pc = .receiving) :
      ConnectsInTime connectInTime s (.request 0 (.connect "host") "room" none) := by
    intro i uniqueId hcall
    simp only [Server.callOf, h] at hcall
    cases hcall
    rw [hpc]
    exact ⟨rfl, by simp [connectInTime]⟩
  have hc : Along serverStep (ConnectsInTime connectInTime) (.start : Server Int Unit)
      connectInTime := by
    refine along_cons rfl .stream (along_cons rfl .stream ?_)
    refine along_cons rfl (hrequest _ rfl rfl) ?_
    refine along_cons rfl .stream (along_cons rfl .stream ?_)
    exact along_cons rfl .stream (along_cons rfl .stream (along_cons rfl .stream trivial))
  have hrun : run serverStep (.start : Server Int Unit) connectInTime = some _ := rfl
  exact ⟨lower, _, hrun, rfl, no_orphan_of_along hc connectInTime [] _ rfl hrun⟩

/-- The session is looked up, the browser leaves, and the introspection returns after the handler
has. -/
def lateConnect : List (ServerAct Unit) :=
  [ .stream 0 (.accept { sessionId := "room", userId := "u1" }), .stream 0 (.dialed 0),
    .request 0 (.connect "host") "room" (some "ticket"), .stream 0 .disconnect,
    .stream 0 .tasksEnded, .stream 0 .closed, .introspected 0 (some "u1") ]

/-- **A late connect leaves an orphan**: the ingestor connects after its handler has returned. -/
theorem late_connect_orphans :
    ¬ ∀ (_ : PyLower) (acts : List (ServerAct Unit)), NeverOrphans (σ := Int) acts := by
  intro h
  have hidle := (h ⟨id⟩ lateConnect lateConnect [] _ rfl rfl 0 rfl).1
  exact IngestorState.noConfusion hidle

end Livehost
