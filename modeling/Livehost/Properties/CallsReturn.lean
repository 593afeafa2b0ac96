import Livehost.Properties.LockTurns
import Livehost.Properties.Ownership
import Livehost.Spec.Sessions

/-!
# Every call on an ingestor returns

A control request awaits the `start` or `stop` it makes on the ingestor of the session, and the
teardown of a handler awaits its own `stop`. They queue for one lock, behind which a task may have
to be cancelled that stands at any await.

* `Server.Awaits` — who awaits a call on which ingestor, read off the awaiting coroutines
* `attended_step` — those are the callers in the lock's line, whatever happens
* `calls_return` — nobody is left in the line: each is answered in turn, after four turns each
-/

namespace Livehost

open Infra

variable {σ β : Type}

/-- The handler has claimed its id. -/
def StreamPc.started : StreamPc → Bool
  | .fresh | .refused => false
  | _ => true

theorem StreamPc.started_of_running {pc : StreamPc} (h : pc.running = true) :
    pc.started = true := by
  cases pc <;> first | rfl | cases h

theorem StreamPc.started_iff {pc : StreamPc} :
    pc.started = true ↔ pc ≠ .fresh ∧ pc ≠ .refused := by
  cases pc <;> simp [started]

namespace Server

variable (s : Server σ β)

/-- Who awaits which call on the ingestor of handler `i`. -/
def Awaits (i : Nat) : Caller → LockOp → Prop
  | .handler, op => (s.streams i).pc = .stopping ∧ op = .stop
  | .request r, op => ∃ kind session, s.requests r = .calling kind session ∧ session.ref = i ∧
      kind.op = some op

/-- The call has returned to its caller. -/
def Answered (i : Nat) : Caller → Prop
  | .handler => (s.streams i).pc = .closing ∨ (s.streams i).pc = .returned
  | .request r => ∃ response, s.requests r = .returned response

/-- The step of handler `i`'s ingestor in a step of the server. -/
def ingestActOf (i : Nat) (a : ServerAct β) : Option (IngestAct Caller) :=
  match a with
  | .stream j .tasksEnded => if j = i then some (.call .handler .stop) else none
  | .stream j (.ingest act) => if j = i then some act else none
  | .stream _ _ => none
  | .request r _ _ _ | .introspected r _ =>
    (s.callOf a).bind fun (j, op) => if j = i then some (.call (.request r) op) else none

/-- Whose call on the ingestor of handler `i` returns in a step. -/
def returnedOf (i : Nat) (a : ServerAct β) : Option Caller :=
  (s.ingestActOf i a).bind fun act => ((s.streams i).ingestor.step act).bind (·.2)

/-! ## What is seen of the calls on the ingestor of handler `i` -/

def calledBy (i : Nat) (s : Server σ β) (a : ServerAct β) : List Caller :=
  ((s.ingestActOf i a).bind TikTokLiveIngestor.callerOf).toList

def returnedBy (i : Nat) (s : Server σ β) (a : ServerAct β) : List Caller :=
  (s.returnedOf i a).toList

def turnsOf (i : Nat) (s : Server σ β) (a : ServerAct β) : List (IngestAct Caller) :=
  (s.ingestActOf i a).toList.filter (s.streams i).ingestor.turn

end Server

/-! ## What a step does to the calls on one ingestor -/

/-- A handler and its ingestor in a step: `act` is what the ingestor does, and `returned` is whose
call returns then. -/
inductive CallsMove (h h' : Stream σ β) : Option (IngestAct Caller) → Option Caller → Prop
  | quiet (hstarted : h.pc.started = true → h'.pc.started = true)
      (hlock : h'.ingestor.lock = h.ingestor.lock) (htask : h'.ingestor.task = h.ingestor.task)
      (hpc : h'.pc = .stopping ↔ h.pc = .stopping)
      (hover : h.pc = .closing ∨ h.pc = .returned → h'.pc = .closing ∨ h'.pc = .returned) :
      CallsMove h h' none none
  | granted (hfresh : h.pc.started = false) (hstarted : h'.pc.started = true)
      (hpc : h'.pc ≠ .stopping) (hlock : h'.ingestor.lock = {}) : CallsMove h h' none none
  | step {act : IngestAct Caller} {returned : Option Caller}
      (hstarted : h.pc.started = true) (hstarted' : h'.pc.started = true)
      (hstep : h.ingestor.step act = some (h'.ingestor, returned))
      (hop : ∀ op, act = .call .handler op → op = .stop ∧ h.pc ≠ .stopping)
      (hpc : h'.pc = .stopping ↔
        (h.pc = .stopping ∨ act = .call .handler .stop) ∧ returned ≠ some .handler)
      (hover : h.pc = .closing ∨ h.pc = .returned ∨
        (h.pc = .stopping ∨ act = .call .handler .stop) ∧ returned = some .handler →
          h'.pc = .closing ∨ h'.pc = .returned) :
      CallsMove h h' (some act) returned

/-- The ingestor's own step, and the place of the handler after it. -/
theorem CallsMove.of_afterStop {h : Stream σ β} {act : IngestAct Caller}
    {result : TikTokLiveIngestor Caller × Option Caller} (hstarted : h.pc.started = true)
    (hcall : ∀ caller op, act ≠ .call caller op) (hstep : h.ingestor.step act = some result) :
    CallsMove h (h.afterStop result) (some act) result.2 := by
  have hact : act ≠ .call .handler .stop := hcall _ _
  by_cases hstop : h.pc = .stopping ∧ result.2 = some .handler
  · have hpc : (h.afterStop result).pc = .closing := if_pos hstop
    refine .step hstarted (by rw [hpc]; rfl) hstep (fun op he => absurd he (hcall _ _)) ?_
      fun _ => Or.inl hpc
    simp [hpc, hstop.2]
  · have hpc : (h.afterStop result).pc = h.pc := if_neg hstop
    refine .step hstarted (by rw [hpc, hstarted]) hstep (fun op he => absurd he (hcall _ _)) ?_ ?_
    · simp only [hpc, hact, or_false]
      exact ⟨fun hs => ⟨hs, fun hr => hstop ⟨hs, hr⟩⟩, And.left⟩
    · rw [hpc]
      rintro (hc | hc | ⟨hc | hc, hr⟩)
      · exact Or.inl hc
      · exact Or.inr hc
      · exact absurd ⟨hc, hr⟩ hstop
      · exact absurd hc hact

/-- A call into the ingestor by the teardown. -/
theorem CallsMove.of_tasksEnded {h : Stream σ β} (hpc : h.pc = .cancelling) :
    CallsMove h ({ h with pc := .stopping, stopCalled := true }.afterStop
        (h.ingestor.call .handler .stop)) (some (.call .handler .stop))
      (h.ingestor.call .handler .stop).2 := by
  have hop : ∀ op, IngestAct.call Caller.handler .stop = .call .handler op →
      op = .stop ∧ h.pc ≠ .stopping := fun op he => by cases he; exact ⟨rfl, by simp [hpc]⟩
  rcases h.ingestor.call_returned .handler .stop with hr | hr
  · refine .step (by rw [hpc]; rfl) ?_ rfl hop ?_ ?_
    · simp [Stream.afterStop, hr, StreamPc.started]
    · simp [Stream.afterStop, hr]
    · simp [hr, hpc]
  · refine .step (by rw [hpc]; rfl) ?_ rfl hop ?_ ?_
    · simp [Stream.afterStop, hr, StreamPc.started]
    · simp [Stream.afterStop, hr]
    · simp [Stream.afterStop, hr]

/-- A call into the ingestor by a request. -/
theorem CallsMove.of_request {h : Stream σ β} (hstarted : h.pc.started = true) (r : Nat)
    (op : LockOp) :
    CallsMove h { h with ingestor := (h.ingestor.call (.request r) op).1 }
      (some (.call (.request r) op)) (h.ingestor.call (.request r) op).2 := by
  have hr : (h.ingestor.call (.request r) op).2 ≠ some .handler := by
    rcases h.ingestor.call_returned (.request r) op with hr | hr <;> simp [hr]
  refine .step hstarted hstarted rfl (fun op he => by cases he) ?_ ?_
  · simp [hr]
  · rintro (hc | hc | ⟨-, hret⟩)
    · exact Or.inl hc
    · exact Or.inr hc
    · exact absurd hret hr

/-- **What a handler's own step does to the calls on its ingestor.** -/
theorem Stream.Moves.calls [Score σ] [PyLower] {i : Nat} {r r' : LivehostSessionRegistry}
    {h h' : Stream σ β}
    {act : StreamAct β} {returned : Option Nat} (hm : Stream.Moves i r h act r' h' returned)
    (s : Server σ β) (hs : s.streams i = h) :
    CallsMove h h' (s.ingestActOf i (.stream i act)) (s.returnedOf i (.stream i act)) ∧
      ∀ q, returned = some q ↔ s.returnedOf i (.stream i act) = some (.request q) := by
  subst hs
  have idle : ∀ {act : StreamAct β} {h' : Stream σ β}, s.ingestActOf i (.stream i act) = none →
      CallsMove (s.streams i) h' none none →
      CallsMove (s.streams i) h' (s.ingestActOf i (.stream i act))
          (s.returnedOf i (.stream i act)) ∧
        ∀ q, none = some q ↔ s.returnedOf i (.stream i act) = some (.request q) := by
    intro act h' hact hmove
    have hret : s.returnedOf i (.stream i act) = none := by simp [Server.returnedOf, hact]
    rw [hact, hret]
    exact ⟨hmove, by simp⟩
  cases hm with
  | granted config hpc hclaim =>
    exact idle rfl (.granted (by rw [hpc]; rfl) rfl (by simp) rfl)
  | refused config hpc =>
    exact idle rfl (.quiet (by simp [hpc, StreamPc.started]) rfl rfl (by simp [hpc])
      (by simp [hpc]))
  | dialed now hpc | dialFails hpc | reported hpc | disconnect hpc | forwarded hpc
  | forwardRaises hpc | closed hpc =>
    exact idle rfl (.quiet (by simp [Stream.enterLoop, StreamPc.started]) rfl rfl
      (by simp [hpc, Stream.enterLoop]) (by simp [hpc]))
  | frame frame hpc =>
    refine idle rfl (.quiet ?_ rfl rfl ?_ (by simp [hpc]))
    · dsimp only; split <;> simp [StreamPc.started]
    · dsimp only; split <;> simp [hpc]
  | tasksEnded hpc =>
    have hact : s.ingestActOf i (.stream i .tasksEnded) = some (.call .handler .stop) :=
      if_pos rfl
    have hret : s.returnedOf i (.stream i .tasksEnded) =
        ((s.streams i).ingestor.call .handler .stop).2 := by
      simp [Server.returnedOf, hact, TikTokLiveIngestor.step]
    rw [hact, hret]
    refine ⟨.of_tasksEnded hpc, fun q => ?_⟩
    rcases (s.streams i).ingestor.call_returned .handler .stop with hr | hr <;> simp [hr]
  | ingest act result hstarted hcall hstep =>
    have hact : s.ingestActOf i (.stream i (.ingest act)) = some act := if_pos rfl
    have hret : s.returnedOf i (.stream i (.ingest act)) = result.2 := by
      simp [Server.returnedOf, hact, hstep]
    rw [hact, hret]
    refine ⟨.of_afterStop (StreamPc.started_iff.mpr hstarted) hcall hstep, fun q => ?_⟩
    cases hr : result.2 with
    | none => simp [Stream.requestOf]
    | some caller => cases caller <;> simp [Stream.requestOf]
  | task act h' hpc hstep =>
    have hact : s.ingestActOf i (.stream i act) = none := by
      cases act <;> first | rfl | cases hstep
    obtain ⟨-, -, -, ⟨queue, hingestor⟩, hplace⟩ := Stream.taskStep_frame hstep
    have hrun : h'.pc.running = true := by
      rcases hplace with ⟨-, -, hdrop⟩ | ⟨-, hsame, -⟩
      · rw [hdrop, StreamPc.running_drop, hpc]
      · rw [hsame, hpc]
    refine idle hact (.quiet (fun _ => StreamPc.started_of_running hrun) (by rw [hingestor])
      (by rw [hingestor]) ?_ ?_)
    · constructor <;> intro he
      · rw [he] at hrun; cases hrun
      · rw [he] at hpc; cases hpc
    · rintro (he | he) <;> rw [he] at hpc <;> cases hpc

/-! ## What a request's step does -/

/-- The session is on file, or a request has looked it up. -/
def Server.Known (s : Server σ β) (e : LivehostSession) : Prop :=
  (∃ id, s.registry.get id = some e) ∨
    ∃ r kind id, s.requests r = .introspecting kind id (some e)

/-- A request goes on without a call, or calls into an ingestor and awaits the call's return. -/
inductive RequestMove (s s' : Server σ β) (r : Nat) : Option (Nat × LockOp) → Prop
  | aside (request : Request) (hstreams : s'.streams = s.streams)
      (hrequests : s'.requests = Function.update s.requests r request)
      (hcalling : ∀ kind e, request ≠ .calling kind e)
      (hlooked : ∀ kind id e, request = .introspecting kind id (some e) → s.Known e) :
      RequestMove s s' r none
  | calls (kind : ControlKind) (e : LivehostSession) (op : LockOp) (response : Response)
      (hop : kind.op = some op) (hknown : s.Known e)
      (hstreams : s'.streams = Function.update s.streams e.ref { s.streams e.ref with
        ingestor := ((s.streams e.ref).ingestor.call (.request r) op).1 })
      (hrequests : s'.requests = Function.update s.requests r
        (if ((s.streams e.ref).ingestor.call (.request r) op).2.isSome then .returned response
          else .calling kind e)) : RequestMove s s' r (some (e.ref, op))

theorem Server.callIngestor_requests (s : Server σ β) (r : Nat) (kind : ControlKind)
    (e : LivehostSession) (op : LockOp) : ∃ response,
    (s.callIngestor r kind e op).requests = Function.update s.requests r
      (if ((s.streams e.ref).ingestor.call (.request r) op).2.isSome then .returned response
        else .calling kind e) := by
  simp only [callIngestor]
  cases hret : ((s.streams e.ref).ingestor.call (.request r) op).2 with
  | some caller =>
    refine ⟨kind.response { s.streams e.ref with
      ingestor := ((s.streams e.ref).ingestor.call (.request r) op).1 }, ?_⟩
    simp [respond, withRequest, withStream]
  | none => exact ⟨.notFound "", rfl⟩

theorem Server.authorize_move (s : Server σ β) (r : Nat) (kind : ControlKind) (sessionId : String)
    (session : Option LivehostSession) (scope : Option String)
    (hknown : ∀ e, session = some e → s.Known e) :
    RequestMove s (s.authorize r kind sessionId session scope) r
      (ownedCall kind session scope) := by
  have answered : ∀ response, RequestMove s (s.withRequest r (.returned response)) r none :=
    fun response => .aside _ rfl rfl (by simp) (by simp)
  cases session with
  | none => exact answered _
  | some e =>
    by_cases howner : e.userId = scope
    · simp only [authorize, ownedCall, howner, if_true]
      cases hop : kind.op with
      | none => exact answered _
      | some op =>
        obtain ⟨response, hrequests⟩ := s.callIngestor_requests r kind e op
        exact .calls kind e op response hop (hknown e rfl) (s.callIngestor_frame r kind e op).2.2
          hrequests
    · simp only [authorize, ownedCall, howner, if_false]
      exact answered _

/-- **A request's step**, by the request that takes it. -/
theorem serverStep_request [Score σ] [PyLower] {s s' : Server σ β} {a : ServerAct β}
    (ha : ∀ i act, a ≠ .stream i act) (hs : serverStep s a = some s') :
    ∃ r, s'.registry = s.registry ∧ (∀ kind e, s.requests r ≠ .calling kind e) ∧
      (∀ response, s.requests r ≠ .returned response) ∧
      (∀ i, s.ingestActOf i a = (s.callOf a).bind fun (j, op) =>
        if j = i then some (.call (.request r) op) else none) ∧
      RequestMove s s' r (s.callOf a) := by
  cases a with
  | stream i act => exact absurd rfl (ha i act)
  | request r kind sessionId ticket =>
    cases hr : s.requests r <;> simp only [serverStep, hr, reduceCtorEq] at hs
    cases ticket with
    | some ticket =>
      cases hs
      refine ⟨r, rfl, by simp [hr], by simp [hr], fun _ => rfl, ?_⟩
      exact .aside _ rfl rfl (by simp) fun _ _ e he =>
        Or.inl ⟨sessionId, (Request.introspecting.inj he).2.2⟩
    | none =>
      cases hs
      refine ⟨r, (s.authorize_frame ..).1, by simp [hr], by simp [hr], fun _ => rfl, ?_⟩
      exact s.authorize_move r kind sessionId _ none fun e he => Or.inl ⟨sessionId, he⟩
  | introspected r userId =>
    cases hr : s.requests r <;> simp only [serverStep, hr, reduceCtorEq] at hs
    next kind sessionId session =>
      cases hs
      refine ⟨r, (s.authorize_frame ..).1, by simp [hr], by simp [hr], fun _ => rfl, ?_⟩
      have hcall : s.callOf (.introspected r userId) =
          Server.ownedCall kind session (userId.bind ownerOf) := by simp [Server.callOf, hr]
      rw [hcall]
      exact s.authorize_move r kind sessionId session _ fun e he =>
        Or.inr ⟨r, kind, sessionId, by rw [hr, he]⟩

/-- Whose call returns in a request's step: its own, if it does. -/
theorem Server.returnedOf_request {s : Server σ β} {i r : Nat} {a : ServerAct β}
    {call : Option (Nat × LockOp)} (hact : s.ingestActOf i a = call.bind fun (j, op) =>
      if j = i then some (.call (.request r) op) else none) :
    s.returnedOf i a = call.bind fun (j, op) =>
      if j = i then ((s.streams i).ingestor.call (.request r) op).2 else none := by
  rw [returnedOf, hact]
  cases call with
  | none => rfl
  | some call =>
    simp only [Option.bind_some]
    split <;> rfl

/-- The end of a call is the end of the request that awaits it. -/
theorem Server.respond_requests (s : Server σ β) (q : Nat) (r : Nat) :
    (s.respond q).requests r = s.requests r ∧ (r = q → ∀ kind e, s.requests r ≠ .calling kind e) ∨
      r = q ∧ ∃ kind e response, s.requests r = .calling kind e ∧
        (s.respond q).requests r = .returned response := by
  unfold respond
  split
  next kind e hcalling =>
    by_cases hr : r = q
    · subst hr
      exact Or.inr ⟨rfl, kind, e, _, hcalling, Function.update_self ..⟩
    · exact Or.inl ⟨Function.update_of_ne hr .., fun he => absurd he hr⟩
  next hnot =>
    exact Or.inl ⟨rfl, fun he kind e hc => hnot kind e (he ▸ hc)⟩

/-! ## The invariant -/

/-- **The invariant**: the callers in the line of an ingestor are those that await a call on it,
each of them once. -/
structure Attended (s : Server σ β) : Prop where
  onFile : EntriesLive s.connections
  looked : ∀ r kind id e, s.requests r = .introspecting kind id (some e) →
    (s.streams e.ref).pc.started = true
  unstarted : ∀ i, (s.streams i).pc.started = false → (s.streams i).ingestor.lock = {}
  held : ∀ i, (s.streams i).ingestor.Held
  line : ∀ i caller op, (caller, op) ∈ (s.streams i).ingestor.lock.line ↔ s.Awaits i caller op
  once : ∀ i, (s.streams i).ingestor.callers.Nodup

theorem attended_start : Attended (Server.start : Server σ β) where
  onFile _ _ h := by cases h
  looked _ _ _ _ h := by cases h
  unstarted _ _ := rfl
  held _ := .of_free rfl
  line i caller op := by
    refine ⟨fun h => (by cases h), fun h => ?_⟩
    cases caller with
    | handler => cases h.1
    | request r =>
      obtain ⟨kind, e, hc, -⟩ := h
      cases hc
  once _ := List.nodup_nil

namespace Attended

variable {s s' : Server σ β}

/-- A session that anybody knows is that of a handler that has claimed its id. -/
theorem known (hi : Attended s) {e : LivehostSession} (he : s.Known e) :
    (s.streams e.ref).pc.started = true := by
  rcases he with ⟨id, hget⟩ | ⟨r, kind, id, hlooked⟩
  · have hconn : (s.streams e.ref).conn = .live id e.userId := hi.onFile id e hget
    unfold Stream.conn at hconn
    cases hpc : (s.streams e.ref).pc <;> rw [hpc] at hconn <;> first | rfl | cases hconn
  · exact hi.looked r kind id e hlooked

/-- **What a step of the server does to the calls on one ingestor.** -/
theorem calls [Score σ] [PyLower] {a : ServerAct β} (hi : Attended s)
    (hs : serverStep s a = some s') (i : Nat) :
    CallsMove (s.streams i) (s'.streams i) (s.ingestActOf i a) (s.returnedOf i a) := by
  have same : s.ingestActOf i a = none → s'.streams i = s.streams i →
      CallsMove (s.streams i) (s'.streams i) (s.ingestActOf i a) (s.returnedOf i a) := by
    intro hact hstr
    have hret : s.returnedOf i a = none := by simp [Server.returnedOf, hact]
    rw [hact, hret, hstr]
    exact .quiet id rfl rfl Iff.rfl id
  rcases serverStep_cases hs with ⟨j, act, registry, h, returned, rfl, hm, -, -, hstr⟩ |
    ⟨-, -, ha, -⟩
  · by_cases hj : j = i
    · subst hj
      rw [hstr, Function.update_self]
      exact (hm.calls s rfl).1
    · refine same ?_ (by rw [hstr, Function.update_of_ne (Ne.symm hj)])
      cases act <;> first | rfl | exact if_neg hj
  · obtain ⟨r, -, -, -, hact, hmove⟩ := serverStep_request ha hs
    have hact := hact i
    generalize hcall : s.callOf a = call at hmove hact
    cases hmove with
    | aside request hstr => exact same hact (by rw [hstr])
    | calls kind e op response hop hknown hstr =>
      by_cases hj : e.ref = i
      · subst hj
        have hact : s.ingestActOf e.ref a = some (.call (.request r) op) := hact.trans (if_pos rfl)
        have hret : s.returnedOf e.ref a =
            ((s.streams e.ref).ingestor.call (.request r) op).2 := by
          simp [Server.returnedOf, hact, TikTokLiveIngestor.step]
        rw [hact, hret, hstr, Function.update_self]
        exact .of_request (hi.known hknown) r op
      · exact same (hact.trans (if_neg hj)) (by rw [hstr, Function.update_of_ne (Ne.symm hj)])

/-- **Where a handler's step leaves the requests**: the one whose call returned is answered. -/
theorem stream_requests [Score σ] [PyLower] {i : Nat} {act : StreamAct β}
    (hs : serverStep s (.stream i act) = some s') (r : Nat) :
    s'.requests r = s.requests r ∧ (s.returnedOf i (.stream i act) = some (.request r) →
        ∀ kind e, s.requests r ≠ .calling kind e) ∨
      s.returnedOf i (.stream i act) = some (.request r) ∧
        ∃ kind e response, s.requests r = .calling kind e ∧ s'.requests r = .returned response := by
  obtain ⟨⟨registry, h, returned⟩, hstep, rfl⟩ := Option.map_eq_some_iff.mp hs
  have hret := ((Stream.step_moves hstep).calls s rfl).2
  cases returned with
  | none => exact Or.inl ⟨rfl, fun he => absurd ((hret r).mpr he) (by simp)⟩
  | some q =>
    have hq : s.returnedOf i (.stream i act) = some (.request q) := (hret q).mp rfl
    rw [hq]
    rcases Server.respond_requests (Server.withStream { s with
      registry, history := entries i (s.streams i) h ++ s.history } i h) q r with
      ⟨hsame, hnot⟩ | ⟨rfl, hans⟩
    · exact Or.inl ⟨hsame, fun he kind e => hnot (by cases he; rfl) kind e⟩
    · exact Or.inr ⟨rfl, hans⟩

/-- Whose call returns was in the line, or called. -/
theorem returned_awaits [Score σ] [PyLower] {a : ServerAct β} (hi : Attended s)
    (hs : serverStep s a = some s') {i : Nat} {caller : Caller}
    (hret : s.returnedOf i a = some caller) :
    ∃ op, s.Awaits i caller op ∨ s.ingestActOf i a = some (.call caller op) := by
  have hmove := hi.calls hs i
  rw [hret] at hmove
  generalize hact : s.ingestActOf i a = act at hmove
  cases hmove with
  | step _ _ hstep =>
    rcases TikTokLiveIngestor.step_line hstep with ⟨_, _, -, hr, -⟩ | ⟨c, op, rfl, hr, -⟩ |
      ⟨c, op, -, hr, hline, -⟩ | ⟨-, hr, -⟩
    · cases hr
    · cases hr
      exact ⟨op, Or.inr rfl⟩
    · cases hr
      exact ⟨op, Or.inl ((hi.line ..).mp (by rw [hline]; exact List.mem_cons_self))⟩
    · cases hr

theorem awaits_handler {i : Nat} {a : ServerAct β} (hm : CallsMove (s.streams i) (s'.streams i)
      (s.ingestActOf i a) (s.returnedOf i a)) (op : LockOp) :
    s'.Awaits i .handler op ↔
      (s.Awaits i .handler op ∨ s.ingestActOf i a = some (.call .handler op)) ∧
        s.returnedOf i a ≠ some .handler := by
  unfold Server.Awaits
  generalize s.ingestActOf i a = act at hm
  generalize s.returnedOf i a = returned at hm
  cases hm with
  | quiet _ _ _ hpc => simp [hpc]
  | granted hfresh _ hpc =>
    have : (s.streams i).pc ≠ .stopping := fun he => by rw [he] at hfresh; cases hfresh
    simp [hpc, this]
  | step _ _ _ hop hpc =>
    simp only [hpc, Option.some.injEq]
    constructor
    · rintro ⟨⟨hstop | hcall, hret⟩, rfl⟩
      · exact ⟨Or.inl ⟨hstop, rfl⟩, hret⟩
      · exact ⟨Or.inr hcall, hret⟩
    · rintro ⟨⟨hstop, rfl⟩ | hcall, hret⟩
      · exact ⟨⟨Or.inl hstop, hret⟩, rfl⟩
      · obtain ⟨rfl, -⟩ := hop op hcall
        exact ⟨⟨Or.inr hcall, hret⟩, rfl⟩

theorem ingestActOf_stream [Score σ] [PyLower] {i j r : Nat} {act : StreamAct β} {op : LockOp}
    (hs : serverStep s (.stream j act) = some s') :
    s.ingestActOf i (.stream j act) ≠ some (.call (.request r) op) := by
  intro hact
  cases act <;> simp only [Server.ingestActOf, reduceCtorEq, ite_eq_iff] at hact
  case tasksEnded => simp at hact
  case ingest act =>
    obtain ⟨-, he⟩ | ⟨-, he⟩ := hact
    · cases he
      obtain ⟨⟨registry, h, returned⟩, hstep, -⟩ := Option.map_eq_some_iff.mp hs
      cases Stream.step_moves hstep with
      | ingest _ _ _ hcall => exact hcall _ _ rfl
      | task _ _ _ htask => cases htask
    · cases he

/-- A step of handler `j` shows nothing of the calls on the ingestor of handler `i`. -/
theorem returnedOf_other {i j : Nat} {act : StreamAct β} (hj : j ≠ i) :
    s.returnedOf i (.stream j act) = none := by
  have hact : s.ingestActOf i (.stream j act) = none := by
    cases act <;> first | rfl | exact if_neg hj
  simp [Server.returnedOf, hact]

/-- Whoever has its response awaits nothing. -/
theorem not_awaits {i r : Nat} {response : Response} {op : LockOp}
    (h : s.requests r = .returned response) : ¬ s.Awaits i (.request r) op := by
  rintro ⟨kind, e, hcalling, -⟩
  rw [h] at hcalling
  cases hcalling

theorem awaits_stream [Score σ] [PyLower] {j : Nat} {act : StreamAct β} (hi : Attended s)
    (hs : serverStep s (.stream j act) = some s') (i r : Nat) (op : LockOp) :
    s'.Awaits i (.request r) op ↔ s.Awaits i (.request r) op ∧
      s.returnedOf i (.stream j act) ≠ some (.request r) := by
  rcases stream_requests hs r with ⟨hsame, hnot⟩ | ⟨hret, kind, e, response, hcalling, hans⟩
  · simp only [Server.Awaits, hsame]
    refine ⟨fun haw => ⟨haw, fun hret => ?_⟩, And.left⟩
    obtain ⟨kind, e, hcalling, -⟩ := haw
    by_cases hj : j = i
    · subst hj
      exact hnot hret kind e hcalling
    · rw [returnedOf_other hj] at hret
      cases hret
  · refine ⟨fun haw => absurd haw (not_awaits hans), fun ⟨haw, hne⟩ => absurd ?_ hne⟩
    obtain ⟨kind', e', hcalling', rfl, -⟩ := haw
    -- the call is on the ingestor that the request stands in line for
    obtain ⟨op', ⟨kind'', e'', hcalling'', rfl, -⟩ | hcall⟩ := hi.returned_awaits hs hret
    · rw [hcalling'] at hcalling''
      cases hcalling''
      exact hret
    · exact absurd hcall (ingestActOf_stream hs)

theorem awaits_request [Score σ] [PyLower] {a : ServerAct β} (ha : ∀ i act, a ≠ .stream i act)
    (hs : serverStep s a = some s') (i r : Nat) (op : LockOp) :
    s'.Awaits i (.request r) op ↔
      (s.Awaits i (.request r) op ∨ s.ingestActOf i a = some (.call (.request r) op)) ∧
        s.returnedOf i a ≠ some (.request r) := by
  obtain ⟨q, -, hnot, -, hact, hmove⟩ := serverStep_request ha hs
  have hact := hact i
  have hfresh : ∀ op, ¬ s.Awaits i (.request q) op := by
    rintro op ⟨kind, e, hcalling, -⟩
    exact hnot kind e hcalling
  generalize hcall : s.callOf a = call at hmove hact
  cases hmove with
  | aside request hstr hreq hcalling =>
    rw [hact, Server.returnedOf_request hact]
    by_cases hr : r = q
    · subst hr
      simp [Server.Awaits, hreq, hcalling, hnot]
    · simp [Server.Awaits, hreq, Function.update_of_ne hr]
  | calls kind e op' response hop hknown hstr hreq =>
    rw [hact, Server.returnedOf_request hact]
    simp only [Option.bind_some]
    have hown := fun j => (s.streams j).ingestor.call_returned (.request q) op'
    by_cases hr : r = q
    · subst hr
      simp only [hfresh, false_or]
      simp only [Server.Awaits, hreq, Function.update_self]
      by_cases href : e.ref = i
      · subst href
        simp only [if_true, Option.some.injEq, IngestAct.call.injEq, true_and]
        rcases hown e.ref with hown | hown
        · simp only [hown, Option.isSome_none, Bool.false_eq_true, if_false,
            Request.calling.injEq, ne_eq, reduceCtorEq, not_false_eq_true, and_true]
          constructor
          · rintro ⟨_, _, ⟨rfl, rfl⟩, -, hop'⟩
            exact Option.some.inj (hop.symm.trans hop')
          · rintro rfl
            exact ⟨kind, e, ⟨rfl, rfl⟩, rfl, hop⟩
        · simp [hown]
      · simp only [if_neg href, reduceCtorEq, false_and, iff_false]
        rintro ⟨_, e', hcalling, rfl, -⟩
        split at hcalling <;> cases hcalling
        exact href rfl
    · have hother : s'.Awaits i (.request r) op ↔ s.Awaits i (.request r) op := by
        simp [Server.Awaits, hreq, Function.update_of_ne hr]
      rw [hother]
      split
      · rcases hown i with hown | hown <;> simp [hown, Ne.symm hr]
      · simp

/-- **Who awaits a call after a step**: whoever did or calls, but for the call that returns. -/
theorem awaits_step [Score σ] [PyLower] {a : ServerAct β} (hi : Attended s)
    (hs : serverStep s a = some s') (i : Nat) (caller : Caller) (op : LockOp) :
    s'.Awaits i caller op ↔
      (s.Awaits i caller op ∨ s.ingestActOf i a = some (.call caller op)) ∧
        s.returnedOf i a ≠ some caller := by
  cases caller with
  | handler => exact awaits_handler (hi.calls hs i) op
  | request r =>
    cases a with
    | stream j act =>
      rw [hi.awaits_stream hs i r op]
      simp [ingestActOf_stream hs]
    | _ => exact awaits_request (by simp) hs i r op

/-- Whoever calls is not in the line yet. -/
theorem caller_new [Score σ] [PyLower] {a : ServerAct β} (hi : Attended s)
    (hs : serverStep s a = some s') {i : Nat} {caller : Caller} {op : LockOp}
    (hact : s.ingestActOf i a = some (.call caller op)) :
    caller ∉ (s.streams i).ingestor.callers := by
  intro hmem
  obtain ⟨⟨c, op'⟩, hw, rfl⟩ := List.mem_map.mp hmem
  have haw := (hi.line i c op').mp hw
  cases c with
  | handler =>
    have hmove := hi.calls hs i
    rw [hact] at hmove
    cases hmove with
    | step _ _ _ hop => exact (hop op rfl).2 haw.1
  | request r =>
    cases a with
    | stream j act => exact ingestActOf_stream hs hact
    | _ =>
      obtain ⟨q, -, hnot, -, hact', -⟩ := serverStep_request (by simp) hs
      have hact' := hact' i
      rw [hact] at hact'
      obtain ⟨⟨j, op₁⟩, -, he⟩ := Option.bind_eq_some_iff.mp hact'.symm
      obtain ⟨-, he⟩ := Option.ite_none_right_eq_some.mp he
      cases he
      obtain ⟨kind, e, hcalling, -⟩ := haw
      exact hnot kind e hcalling

theorem started_step [Score σ] [PyLower] {a : ServerAct β} (hi : Attended s)
    (hs : serverStep s a = some s') {i : Nat} (h : (s.streams i).pc.started = true) :
    (s'.streams i).pc.started = true := by
  have hmove := hi.calls hs i
  generalize s.ingestActOf i a = act at hmove
  generalize s.returnedOf i a = returned at hmove
  cases hmove with
  | quiet hstarted => exact hstarted h
  | granted _ hstarted => exact hstarted
  | step _ hstarted => exact hstarted

/-- What a request has looked up was known before the step. -/
theorem looked_step [Score σ] [PyLower] {a : ServerAct β} (hs : serverStep s a = some s')
    {r : Nat} {kind : ControlKind} {id : String} {e : LivehostSession}
    (h : s'.requests r = .introspecting kind id (some e)) : s.Known e := by
  cases a with
  | stream j act =>
    rcases stream_requests hs r with ⟨hsame, -⟩ | ⟨-, _, _, response, -, hans⟩
    · exact Or.inr ⟨r, kind, id, by rw [← hsame, h]⟩
    · rw [hans] at h
      cases h
  | _ =>
    obtain ⟨q, -, -, -, -, hmove⟩ := serverStep_request (by simp) hs
    generalize s.callOf _ = call at hmove
    cases hmove with
    | aside request _ hreq _ hlooked =>
      rw [hreq] at h
      by_cases hr : r = q
      · subst hr
        rw [Function.update_self] at h
        exact hlooked kind id e h
      · rw [Function.update_of_ne hr] at h
        exact Or.inr ⟨r, kind, id, h⟩
    | calls _ _ _ response _ _ _ hreq =>
      rw [hreq] at h
      by_cases hr : r = q
      · subst hr
        rw [Function.update_self] at h
        split at h <;> cases h
      · rw [Function.update_of_ne hr] at h
        exact Or.inr ⟨r, kind, id, h⟩

end Attended

variable {s s' : Server σ β}

/-- **Every step keeps the invariant.** -/
theorem attended_step [Score σ] [PyLower] {a : ServerAct β} (hi : Attended s)
    (hs : serverStep s a = some s') : Attended s' where
  onFile := by
    rcases server_simulates hs with he | ⟨b, hb⟩
    · rw [he]
      exact hi.onFile
    · exact entriesLive_step hi.onFile hb
  looked r kind id e h := hi.started_step hs (hi.known (Attended.looked_step hs h))
  unstarted i h := by
    have hmove := hi.calls hs i
    generalize s.ingestActOf i a = act at hmove
    generalize s.returnedOf i a = returned at hmove
    cases hmove with
    | quiet hstarted hlock =>
      rw [hlock]
      refine hi.unstarted i ?_
      by_contra hc
      rw [hstarted (by simpa using hc)] at h
      cases h
    | granted _ hstarted | step _ hstarted =>
      rw [hstarted] at h
      cases h
  held i := by
    have hmove := hi.calls hs i
    generalize s.ingestActOf i a = act at hmove
    generalize s.returnedOf i a = returned at hmove
    cases hmove with
    | quiet _ hlock htask =>
      intro w hw
      rw [hlock] at hw
      rw [htask]
      exact hi.held i w hw
    | granted _ _ _ hlock => exact .of_free (by rw [hlock])
    | step _ _ hstep => exact (TikTokLiveIngestor.turn_step (hi.held i) hstep).1
  line i caller op := by
    have hmove := hi.calls hs i
    rw [hi.awaits_step hs, ← hi.line]
    generalize s.ingestActOf i a = act at hmove ⊢
    generalize s.returnedOf i a = returned at hmove ⊢
    cases hmove with
    | quiet _ hlock => simp [hlock]
    | granted hfresh _ _ hlock => simp [hlock, hi.unstarted i hfresh]
    | step _ _ hstep =>
      rw [TikTokLiveIngestor.mem_line_iff (hi.once i) hstep]
      simp
  once i := by
    have hmove := hi.calls hs i
    have hnew : ∀ caller op, s.ingestActOf i a = some (.call caller op) →
        caller ∉ (s.streams i).ingestor.callers := fun caller op => hi.caller_new hs
    generalize s.ingestActOf i a = act at hmove hnew
    generalize s.returnedOf i a = returned at hmove
    cases hmove with
    | quiet _ hlock =>
      unfold TikTokLiveIngestor.callers
      rw [hlock]
      exact hi.once i
    | granted _ _ _ hlock =>
      unfold TikTokLiveIngestor.callers
      rw [hlock]
      exact List.nodup_nil
    | @step act _ _ _ hstep =>
      refine TikTokLiveIngestor.callers_nodup (hi.once i) (fun caller hcaller => ?_) hstep
      cases act <;> cases hcaller
      exact hnew _ _ rfl

/-! ## Answers -/

/-- **The call that returns is answered**: the teardown goes on, the request has its response. -/
theorem Attended.answered [Score σ] [PyLower] {a : ServerAct β} (hi : Attended s)
    (hs : serverStep s a = some s') {i : Nat} {caller : Caller}
    (hret : s.returnedOf i a = some caller) : s'.Answered i caller := by
  obtain ⟨op, haw⟩ := hi.returned_awaits hs hret
  cases caller with
  | handler =>
    have hmove := hi.calls hs i
    rw [hret] at hmove
    generalize s.ingestActOf i a = act at hmove haw
    cases hmove with
    | step _ _ _ hop _ hover =>
      refine hover (Or.inr (Or.inr ⟨haw.imp And.left fun hcall => ?_, rfl⟩))
      cases hcall
      rw [(hop op rfl).1]
  | request r =>
    cases a with
    | stream j act =>
      by_cases hj : j = i
      · subst hj
        obtain ⟨kind, e, hcalling, -⟩ := haw.resolve_right (ingestActOf_stream hs)
        rcases stream_requests hs r with ⟨-, hnot⟩ | ⟨-, _, _, response, -, hans⟩
        · exact absurd hcalling (hnot hret kind e)
        · exact ⟨response, hans⟩
      · rw [returnedOf_other hj] at hret
        cases hret
    | _ =>
      obtain ⟨q, -, -, -, hact, hmove⟩ := serverStep_request (by simp) hs
      rw [Server.returnedOf_request (hact i)] at hret
      generalize s.callOf _ = call at hmove hret
      cases hmove with
      | aside => cases hret
      | calls kind e op' response _ _ _ hreq =>
        obtain ⟨href, hret⟩ := Option.ite_none_right_eq_some.mp hret
        subst href
        rcases (s.streams e.ref).ingestor.call_returned (.request q) op' with hown | hown
        · rw [hown] at hret
          cases hret
        · rw [hown] at hret
          cases hret
          exact ⟨response, by rw [hreq, Function.update_self, hown]; rfl⟩

/-- An answer stays. -/
theorem Attended.answered_step [Score σ] [PyLower] {a : ServerAct β} (hi : Attended s)
    (hs : serverStep s a = some s') {i : Nat} {caller : Caller} (h : s.Answered i caller) :
    s'.Answered i caller := by
  cases caller with
  | handler =>
    have hmove := hi.calls hs i
    generalize s.ingestActOf i a = act at hmove
    generalize s.returnedOf i a = returned at hmove
    cases hmove with
    | quiet _ _ _ _ hover => exact hover h
    | granted hfresh => rcases h with h | h <;> rw [h] at hfresh <;> cases hfresh
    | step _ _ _ _ _ hover => exact hover (h.imp_right Or.inl)
  | request r =>
    obtain ⟨response, h⟩ := h
    cases a with
    | stream j act =>
      rcases stream_requests hs r with ⟨hsame, -⟩ | ⟨-, _, _, response', -, hans⟩
      · exact ⟨response, hsame.trans h⟩
      · exact ⟨response', hans⟩
    | _ =>
      obtain ⟨q, -, -, hnot, -, hmove⟩ := serverStep_request (by simp) hs
      have hr : r ≠ q := by
        rintro rfl
        exact hnot response h
      generalize s.callOf _ = call at hmove
      cases hmove with
      | aside _ _ hreq | calls _ _ _ _ _ _ _ hreq =>
        exact ⟨response, by rw [hreq, Function.update_of_ne hr, h]⟩

/-! ## Every run -/

/-- Calls on the ingestor of handler `i` return in the order they were made. -/
theorem callers_serverStep [Score σ] [PyLower] {a : ServerAct β} (hi : Attended s)
    (hs : serverStep s a = some s') (i : Nat) :
    (s.streams i).ingestor.callers ++ Server.calledBy i s a =
      Server.returnedBy i s a ++ (s'.streams i).ingestor.callers := by
  have hmove := hi.calls hs i
  unfold Server.calledBy Server.returnedBy
  generalize s.ingestActOf i a = act at hmove ⊢
  generalize s.returnedOf i a = returned at hmove ⊢
  cases hmove with
  | quiet _ hlock => simp [TikTokLiveIngestor.callers, hlock]
  | granted hfresh _ _ hlock => simp [TikTokLiveIngestor.callers, hlock, hi.unstarted i hfresh]
  | step _ _ hstep => exact TikTokLiveIngestor.callers_step hstep

/-- A turn brings the call with the lock on. -/
theorem turn_serverStep [Score σ] [PyLower] {a : ServerAct β} (hi : Attended s)
    (hs : serverStep s a = some s') (i : Nat) :
    (s.streams i).ingestor.progress + (Server.turnsOf i s a).length ≤
      4 * (Server.returnedBy i s a).length + (s'.streams i).ingestor.progress := by
  have hmove := hi.calls hs i
  unfold Server.turnsOf Server.returnedBy
  generalize s.ingestActOf i a = act at hmove ⊢
  generalize s.returnedOf i a = returned at hmove ⊢
  cases hmove with
  | quiet _ hlock htask => simp [TikTokLiveIngestor.progress, hlock, htask]
  | granted hfresh =>
    have hfree : (s.streams i).ingestor.lock.holder = none := by rw [hi.unstarted i hfresh]
    simp [TikTokLiveIngestor.progress_free hfree]
  | @step act _ _ _ hstep =>
    have hturn := (TikTokLiveIngestor.turn_step (hi.held i) hstep).2
    cases hact : (s.streams i).ingestor.turn act <;> simpa [hact] using hturn

/-- **No deadlock**: while anybody is in the line, the ingestor has a turn to take. -/
theorem Attended.turn_enabled [Score σ] [PyLower] (hi : Attended s) {i : Nat}
    (h : (s.streams i).ingestor.callers ≠ []) :
    ∃ act, (s.streams i).ingestor.turn act = true ∧
      (serverStep s (.stream i (.ingest act))).isSome := by
  have hline : (s.streams i).ingestor.lock.line ≠ [] := fun hc => h (by
    simp [TikTokLiveIngestor.callers, hc])
  have hstarted : (s.streams i).pc.started = true := by
    by_contra hc
    rw [hi.unstarted i (by simpa using hc)] at hline
    exact hline rfl
  obtain ⟨hfresh, hrefused⟩ := StreamPc.started_iff.mp hstarted
  obtain ⟨act, hturn, hstep⟩ := TikTokLiveIngestor.turn_enabled (hi.held i) hline
  have hcall : ∀ caller op, act ≠ .call caller op := by
    rintro caller op rfl
    cases hturn
  refine ⟨act, hturn, ?_⟩
  simpa only [serverStep, Stream.step, Option.isSome_map] using hstep

/--
**Every call on an ingestor returns.** In every run of the server, at any point of it and however it
goes on from there, for every handler's ingestor: the callers in the line of its lock are exactly
the requests and the teardown that await a call on it, each once; calls return in the order they
were made, and whoever's call has returned has its answer; among every four turns given to the
ingestor a call returns, so that after `4 * k` of them the first `k` callers have been served; and
while anybody waits, a turn can be taken.
-/
theorem calls_return [Score σ] [PyLower] {acts more : List (ServerAct β)} {t : Server σ β}
    (hs : run serverStep .start acts = some s) (ht : run serverStep s more = some t) (i : Nat) :
    let callers := fun (s : Server σ β) => (s.streams i).ingestor.callers
    let called := trace serverStep (Server.calledBy i) s more
    let returned := trace serverStep (Server.returnedBy i) s more
    let turns := trace serverStep (Server.turnsOf i) s more
    (∀ caller op, (caller, op) ∈ (t.streams i).ingestor.lock.line ↔ t.Awaits i caller op) ∧
    (callers t).Nodup ∧
    callers s ++ called = returned ++ callers t ∧
    (∀ caller ∈ returned, t.Answered i caller) ∧
    (∀ k, 4 * k ≤ turns.length → (callers s ++ called).take k <+: returned) ∧
    (callers t ≠ [] → ∃ act, (t.streams i).ingestor.turn act = true ∧
      (serverStep t (.stream i (.ingest act))).isSome) := by
  intro callers called returned turns
  have hstart : Attended s := run_inv (fun _ _ _ hi hs => attended_step hi hs) attended_start hs
  have hend : Attended t ∧ ∀ caller ∈ [] ++ returned, t.Answered i caller := by
    refine run_trace_inv (I := fun t seen => Attended t ∧ ∀ caller ∈ seen, t.Answered i caller)
      (fun s a s' seen hi hs => ⟨attended_step hi.1 hs, fun caller hc => ?_⟩)
      ⟨hstart, by simp⟩ ht
    rcases List.mem_append.mp hc with hc | hc
    · exact hi.1.answered_step hs (hi.2 caller hc)
    · exact hi.1.answered hs (Option.mem_toList.mp hc)
  have hqueue : callers s ++ called = returned ++ callers t :=
    run_queue (I := Attended) (f := callers)
      (fun s a s' hi hs => ⟨attended_step hi hs, callers_serverStep hi hs i⟩) hstart ht
  have hturns : (s.streams i).ingestor.progress + turns.length ≤
      4 * returned.length + (t.streams i).ingestor.progress :=
    run_potential (I := Attended) (φ := fun s => (s.streams i).ingestor.progress)
      (fun s a s' hi hs => ⟨attended_step hi hs, turn_serverStep hi hs i⟩) hstart ht
  refine ⟨hend.1.line i, hend.1.once i, hqueue, hend.2, fun k hk => ?_, hend.1.turn_enabled⟩
  -- at most three turns have gone to the call that has the lock now
  have hbound := (t.streams i).ingestor.progress_le
  have hserved : k ≤ returned.length := by omega
  rw [hqueue, List.take_append_of_le_length hserved]
  exact List.take_prefix k returned

/-- A handler whose ingestor is draining, with a `disconnect` that awaits the task and a `connect`
that waits behind it. -/
def twoRequests : List (ServerAct Unit) :=
  [.stream 0 (.accept { sessionId := "room" }), .stream 0 (.dialed 0),
    .request 0 (.connect "lan") "room" none, .stream 0 (.ingest (.run (.begin .returns))),
    .stream 0 (.ingest (.run (.connected true))), .request 1 .disconnect "room" none,
    .request 2 (.connect "mai") "room" none]

/-- The four turns that the first of them needs. -/
def fourTurns : List (ServerAct Unit) :=
  [.stream 0 (.ingest (.run .cancelled)), .stream 0 (.ingest (.run (.closed .returns))),
    .stream 0 (.ingest .awaited), .stream 0 (.ingest .wake)]

/-- **After four turns the `disconnect` has returned**, and has its response. -/
theorem twoRequests_return : ∃ (_ : PyLower) (s t : Server Int Unit),
    run serverStep .start twoRequests = some s ∧ run serverStep s fourTurns = some t ∧
    [Caller.request 1] <+: trace serverStep (Server.returnedBy 0) s fourTurns ∧
    t.Answered 0 (.request 1) := by
  let lower : PyLower := ⟨id⟩
  have hs : run serverStep (.start : Server Int Unit) twoRequests = some _ := rfl
  obtain ⟨-, -, -, hanswered, hserved, -⟩ := calls_return hs
    (show run serverStep _ fourTurns = some _ from rfl) 0
  have hfirst := hserved 1 (by decide)
  exact ⟨lower, _, _, hs, rfl, hfirst, hanswered _ (hfirst.subset List.mem_cons_self)⟩

end Livehost
