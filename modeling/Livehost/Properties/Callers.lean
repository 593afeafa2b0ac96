import Livehost.Api.Control

/-!
# What a control request tells its caller

A caller is a user id, or nobody, and the routes act on a session only where it is that caller's.
Two servers that agree on the caller's own sessions cannot be told apart by any request, and no
request touches a handler of anybody else: neither what `authorize` answers nor what it calls
depends on the looked-up session beyond `ownedBy`.

* `alike_step` — the steps of a request, and of the caller's own ingestors, in two servers at once
* `no_existence_oracle` — the same response and the same effect, whatever else the registry holds
-/

namespace Livehost

open Infra

variable {σ β : Type}

/-- The looked-up session, where it is the caller's. -/
def ownedBy (scope : Option String) (session : Option LivehostSession) : Option LivehostSession :=
  session.filter fun e => e.userId = scope

/-- What of a request depends on the caller's own sessions. -/
def Request.view (scope : Option String) : Request → Request
  | .introspecting kind sessionId session => .introspecting kind sessionId (ownedBy scope session)
  | request => request

/-- The session a request is about. -/
def Request.session? : Request → Option LivehostSession
  | .introspecting _ _ session => session
  | .calling _ session => some session
  | _ => none

/-- Handler `i` has an entry of that user. -/
def Server.Owns (s : Server σ β) (scope : Option String) (i : Nat) : Prop :=
  ∃ id e, s.registry.get id = some e ∧ e.userId = scope ∧ e.ref = i

/-- **The relation**: the two servers agree on the handlers `own`, on the entries of the caller and
on the request `r`, as far as it is about the caller's sessions. -/
structure Alike (scope : Option String) (own : Nat → Prop) (r : Nat) (s t : Server σ β) : Prop where
  entries : ∀ id, ownedBy scope (s.registry.get id) = ownedBy scope (t.registry.get id)
  streams : ∀ i, own i → s.streams i = t.streams i
  request : (s.requests r).view scope = (t.requests r).view scope
  mine : ∀ id e, ownedBy scope (s.registry.get id) = some e → own e.ref
  asked : ∀ e, ((s.requests r).view scope).session? = some e → own e.ref

/-- The steps of request `r`, for a caller with that scope, and of the caller's own ingestors. -/
inductive RouteAct (scope : Option String) (own : Nat → Prop) (r : Nat) : ServerAct β → Prop
  | request (kind : ControlKind) (sessionId : String) (ticket : Option String)
      (h : ticket = none → scope = none) : RouteAct scope own r (.request r kind sessionId ticket)
  | introspected (userId : Option String) (h : userId.bind ownerOf = scope) :
      RouteAct scope own r (.introspected r userId)
  | ingest (i : Nat) (act : IngestAct Caller) (h : own i) :
      RouteAct scope own r (.stream i (.ingest act))

namespace Server

variable {scope : Option String} {own : Nat → Prop} {r : Nat} {s t : Server σ β}

/-- The routes look at the session only where it is the caller's. -/
theorem authorize_ownedBy (s : Server σ β) (r : Nat) (kind : ControlKind) (sessionId : String)
    (session : Option LivehostSession) (scope : Option String) :
    s.authorize r kind sessionId session scope
      = s.authorize r kind sessionId (ownedBy scope session) scope := by
  cases session with
  | none => rfl
  | some e =>
    by_cases he : e.userId = scope
    · simp [ownedBy, Option.filter_some, he]
    · simp [ownedBy, Option.filter_some, he, authorize]

end Server

namespace Alike

variable {scope : Option String} {own : Nat → Prop} {r : Nat} {s t : Server σ β}

/-- The relation reads nothing but the registry, the handlers and the one request. -/
theorem congr {s' t' : Server σ β} (h : Alike scope own r s t) (hs : s'.registry = s.registry)
    (ht : t'.registry = t.registry) (hss : s'.streams = s.streams) (hts : t'.streams = t.streams)
    (hsr : s'.requests r = s.requests r) (htr : t'.requests r = t.requests r) :
    Alike scope own r s' t' where
  entries := by rw [hs, ht]; exact h.entries
  streams := by rw [hss, hts]; exact h.streams
  request := by rw [hsr, htr]; exact h.request
  mine := by rw [hs]; exact h.mine
  asked := by rw [hsr]; exact h.asked

theorem withRequest {q : Request} (h : Alike scope own r s t)
    (hq : ∀ e, (q.view scope).session? = some e → own e.ref) :
    Alike scope own r (s.withRequest r q) (t.withRequest r q) where
  entries := h.entries
  streams := h.streams
  request := by simp [Server.withRequest]
  mine := h.mine
  asked := by simpa [Server.withRequest] using hq

theorem withStream (h : Alike scope own r s t) (i : Nat) (stream : Stream σ β) :
    Alike scope own r (s.withStream i stream) (t.withStream i stream) where
  entries := h.entries
  streams := by
    intro j hj
    simp only [Server.withStream, Function.update_apply]
    split
    · rfl
    · exact h.streams j hj
  request := h.request
  mine := h.mine
  asked := h.asked

/-- A call of the request is under way in both servers, on the same handler. -/
theorem calling (h : Alike scope own r s t) {kind : ControlKind} {session : LivehostSession}
    (hr : s.requests r = .calling kind session) :
    t.requests r = .calling kind session ∧ own session.ref := by
  have hview := h.request
  have hasked := h.asked
  rw [hr] at hview hasked
  refine ⟨?_, hasked session rfl⟩
  cases ht : t.requests r <;> rw [ht] at hview <;> cases hview
  rfl

theorem symm (h : Alike scope own r s t) : Alike scope own r t s where
  entries := fun id => (h.entries id).symm
  streams := fun i hi => (h.streams i hi).symm
  request := h.request.symm
  mine := fun id e he => h.mine id e ((h.entries id).trans he)
  asked := fun e he => h.asked e (by rw [h.request]; exact he)

/-- The end of a call into an ingestor, of this request or another. -/
theorem respond (h : Alike scope own r s t) (r' : Nat) :
    Alike scope own r (s.respond r') (t.respond r') := by
  by_cases hr : r' = r
  · subst hr
    cases hs : s.requests r' with
    | calling kind session =>
      obtain ⟨ht, hown⟩ := h.calling hs
      simp only [Server.respond, hs, ht, h.streams session.ref hown]
      exact h.withRequest (by simp [Request.view, Request.session?])
    | _ =>
      have hnot : ∀ kind session, t.requests r' ≠ .calling kind session := fun kind session ht => by
        simp [(h.symm.calling ht).1] at hs
      have ht : t.respond r' = t := by
        unfold Server.respond
        split
        next hc => exact absurd hc (hnot _ _)
        next => rfl
      rw [ht]
      simp only [Server.respond, hs]
      exact h
  · have hother : ∀ s : Server σ β, (s.respond r').requests r = s.requests r := fun s => by
      unfold Server.respond
      split
      · simp [Server.withRequest, Ne.symm hr]
      · rfl
    obtain ⟨hs, hss, -⟩ := Server.respond_frame s r'
    obtain ⟨ht, hts, -⟩ := Server.respond_frame t r'
    exact h.congr hs ht hss hts (hother s) (hother t)

theorem callIngestor (h : Alike scope own r s t) {kind : ControlKind} {session : LivehostSession}
    (hown : own session.ref) (op : LockOp) :
    Alike scope own r (s.callIngestor r kind session op) (t.callIngestor r kind session op) := by
  simp only [Server.callIngestor, h.streams session.ref hown]
  have hcalling := (h.withStream session.ref { t.streams session.ref with
    ingestor := ((t.streams session.ref).ingestor.call (.request r) op).1 }).withRequest
      (q := .calling kind session) (fun e he => by cases he; exact hown)
  cases ((t.streams session.ref).ingestor.call (.request r) op).2 with
  | none => exact hcalling
  | some caller => exact hcalling.respond r

/-- The check of the owner and the route behind it. -/
theorem authorize (h : Alike scope own r s t) (kind : ControlKind) (sessionId : String)
    {a b : Option LivehostSession} (hab : ownedBy scope a = ownedBy scope b)
    (hown : ∀ e, ownedBy scope a = some e → own e.ref) :
    Alike scope own r (s.authorize r kind sessionId a scope)
      (t.authorize r kind sessionId b scope) := by
  rw [s.authorize_ownedBy, t.authorize_ownedBy, ← hab]
  cases he : ownedBy scope a with
  | none => exact h.withRequest (by simp [Request.view, Request.session?])
  | some e =>
    have hmine : own e.ref := hown e he
    have hscope : e.userId = scope := by
      have := Option.filter_eq_some_iff.mp he
      simpa using this.2
    simp only [Server.authorize, hscope, if_true]
    cases kind.op with
    | some op => exact h.callIngestor hmine op
    | none =>
      simp only [h.streams e.ref hmine]
      exact h.withRequest (by simp [Request.view, Request.session?])

end Alike

/-- A step of an ingestor does not look at the registry. -/
theorem ingest_step [Score σ] [PyLower] (h : Stream σ β) (i : Nat) (act : IngestAct Caller) :
    ∃ o : Option (Stream σ β × Option Nat),
      ∀ registry, h.step i registry (.ingest act) = o.map fun p => (registry, p) := by
  simp only [Stream.step]
  split
  · exact ⟨none, fun _ => rfl⟩
  · exact ⟨none, fun _ => rfl⟩
  · exact ⟨none, fun _ => rfl⟩
  next act _ _ _ _ _ =>
    exact ⟨(h.ingestor.step act).map fun result => (h.afterStop result, Stream.requestOf result.2),
      fun registry => by simp [Option.map_map, Function.comp_def]⟩

section Steps

variable {scope : Option String} {own : Nat → Prop} {r : Nat} {s t : Server σ β}

/-- **Two servers that agree on the caller's sessions** stay so, step by step. -/
theorem alike_step [Score σ] [PyLower] {a : ServerAct β} (h : Alike scope own r s t)
    (ha : RouteAct scope own r a) :
    Option.Rel (Alike scope own r) (serverStep s a) (serverStep t a) := by
  cases ha with
  | request kind sessionId ticket hticket =>
    have hrequest := h.request
    cases hs : s.requests r <;> cases ht : t.requests r <;> rw [hs, ht] at hrequest <;>
      simp only [Request.view, reduceCtorEq] at hrequest
    case fresh.fresh =>
      simp only [serverStep, hs, ht]
      cases ticket with
      | some ticket =>
        -- the two lookups may differ, but not in what is the caller's
        refine .some ⟨h.entries, h.streams, ?_, h.mine, ?_⟩
        · simp [Server.withRequest, Request.view, h.entries sessionId]
        · simpa [Server.withRequest, Request.view, Request.session?] using h.mine sessionId
      | none =>
        obtain rfl := hticket rfl
        exact .some (h.authorize kind sessionId (h.entries sessionId) (h.mine sessionId))
    all_goals
      simp only [serverStep, hs, ht]
      exact .none
  | introspected userId huser =>
    have hrequest := h.request
    have hasked := h.asked
    cases hs : s.requests r <;> cases ht : t.requests r <;> rw [hs, ht] at hrequest <;>
      simp only [Request.view, reduceCtorEq, Request.introspecting.injEq] at hrequest
    case introspecting.introspecting kind sessionId a kind' sessionId' b =>
      obtain ⟨rfl, rfl, hab⟩ := hrequest
      rw [hs] at hasked
      simp only [serverStep, hs, ht, huser]
      exact .some (h.authorize kind sessionId hab hasked)
    all_goals
      simp only [serverStep, hs, ht]
      exact .none
  | ingest i act hown =>
    obtain ⟨o, ho⟩ := ingest_step (t.streams i) i act
    simp only [serverStep, h.streams i hown, ho]
    rcases o with _ | ⟨stream, returned⟩
    · exact .none
    · refine .some ?_
      have hstream : Alike scope own r (s.afterStream i s.registry stream none)
          (t.afterStream i t.registry stream none) :=
        (h.withStream i stream).congr rfl rfl rfl rfl rfl rfl
      cases returned with
      | none => exact hstream
      | some r' => exact hstream.respond r'

/-- A route calls into an ingestor of the caller's only. -/
theorem ownedCall_mine {kind : ControlKind} {session : Option LivehostSession} {i : Nat}
    {op : LockOp} (hown : ∀ e, ownedBy scope session = some e → own e.ref)
    (hcall : Server.ownedCall kind session scope = some (i, op)) : own i := by
  cases session with
  | none => cases hcall
  | some e =>
    by_cases he : e.userId = scope
    · obtain ⟨op', -, hop⟩ : ∃ op', kind.op = some op' ∧ (e.ref, op') = (i, op) := by
        simpa [Server.ownedCall, he] using hcall
      cases hop
      exact hown e (by simp [ownedBy, Option.filter_some, he])
    · simp [Server.ownedCall, he] at hcall

theorem callOf_mine {a : ServerAct β} (h : Alike scope own r s t) (ha : RouteAct scope own r a)
    {i : Nat} {op : LockOp} (hcall : s.callOf a = some (i, op)) : own i := by
  cases ha with
  | request kind sessionId ticket hticket =>
    cases ticket with
    | some ticket => cases hcall
    | none =>
      obtain rfl := hticket rfl
      exact ownedCall_mine (h.mine sessionId) hcall
  | introspected userId huser =>
    have hasked := h.asked
    simp only [Server.callOf, huser] at hcall
    cases hr : s.requests r <;> simp only [hr, reduceCtorEq] at hcall
    next kind sessionId session =>
      rw [hr] at hasked
      exact ownedCall_mine hasked hcall
  | ingest i act hown => cases hcall

/-- **No step of the request** touches the registry, or a handler that is not the caller's. -/
theorem untouched_step [Score σ] [PyLower] {a : ServerAct β} {s' : Server σ β}
    (h : Alike scope own r s t) (ha : RouteAct scope own r a) (hs : serverStep s a = some s') :
    s'.registry = s.registry ∧ ∀ i, ¬ own i → s'.streams i = s.streams i := by
  rcases serverStep_cases hs with ⟨i, act, registry, stream, returned, rfl, hm, hreg, -, hstr⟩ |
    ⟨hreg, -, -, ⟨r', i, op, hcall, hstr⟩ | ⟨-, hstr⟩⟩
  · cases ha with
    | ingest i act hown =>
      have hsame : registry = s.registry := by cases hm <;> rfl
      refine ⟨hreg.trans hsame, fun j hj => ?_⟩
      rw [hstr, Function.update_of_ne (by rintro rfl; exact hj hown)]
  · refine ⟨hreg, fun j hj => ?_⟩
    rw [hstr, Function.update_of_ne (by rintro rfl; exact hj (callOf_mine h ha hcall))]
  · exact ⟨hreg, fun j _ => by rw [hstr]⟩

end Steps

/-! ## Every request -/

/-- The steps of a request with that header and that answer of the gateway, and of the ingestors
in `own`. -/
inductive CallerAct [PyLower] (authorization : Option String) (reply : IntrospectReply)
    (kind : ControlKind) (sessionId : String) (r : Nat) (own : Nat → Prop) : ServerAct β → Prop
  | request : CallerAct authorization reply kind sessionId r own
      (.request r kind sessionId (bearerTicket authorization))
  | introspected (ticket : String) (h : bearerTicket authorization = some ticket) :
      CallerAct authorization reply kind sessionId r own
        (.introspected r (introspect reply).userId)
  | ingest (i : Nat) (act : IngestAct Caller) (h : own i) :
      CallerAct authorization reply kind sessionId r own (.stream i (.ingest act))

theorem CallerAct.route [PyLower] {authorization : Option String} {reply : IntrospectReply}
    {kind : ControlKind} {sessionId : String} {r : Nat} {own : Nat → Prop} {a : ServerAct β}
    (h : CallerAct authorization reply kind sessionId r own a) :
    RouteAct (callerUserId authorization reply) own r a := by
  cases h with
  | request => exact .request kind sessionId _ fun he => by simp [callerUserId, he]
  | introspected ticket he => exact .introspected _ (by simp [callerUserId, he])
  | ingest i act hown => exact .ingest i act hown

/-- The two servers `s'` and `t'` that `s` and `t` became, as far as the caller goes. -/
structure SameOutcome (scope : Option String) (r : Nat) (s t s' t' : Server σ β) : Prop where
  response : ∀ response,
    s'.requests r = .returned response ↔ t'.requests r = .returned response
  mine : ∀ i, s.Owns scope i → s'.streams i = t'.streams i
  registry : s'.registry = s.registry ∧ t'.registry = t.registry
  others : ∀ i, ¬ s.Owns scope i → s'.streams i = s.streams i ∧ t'.streams i = t.streams i

/-- What the caller sees of a response is the same. -/
theorem Alike.returned {scope : Option String} {own : Nat → Prop} {r : Nat} {s t : Server σ β}
    (h : Alike scope own r s t) {response : Response} (hs : s.requests r = .returned response) :
    t.requests r = .returned response := by
  have hrequest := h.request
  cases ht : t.requests r <;> rw [hs, ht] at hrequest <;> cases hrequest
  rfl

/--
**The control routes are no existence oracle.** For every header and every answer of the gateway,
every route and session id, and every two servers that agree on the sessions of that caller: along
the steps of the request and of the caller's own ingestors, the response is the same in both, and so
is what becomes of the caller's own sessions; no entry of either registry changes, and no handler
without an entry of that caller does.
-/
theorem no_existence_oracle [Score σ] [PyLower] (authorization : Option String)
    (reply : IntrospectReply) (kind : ControlKind) (sessionId : String) (r : Nat)
    {scope : Option String} (hscope : callerUserId authorization reply = scope)
    (s t : Server σ β) (hs : s.requests r = .fresh) (ht : t.requests r = .fresh)
    (hentries : ∀ id, ownedBy scope (s.registry.get id) = ownedBy scope (t.registry.get id))
    (hstreams : ∀ i, s.Owns scope i → s.streams i = t.streams i) (acts : List (ServerAct β))
    (hacts : ∀ a ∈ acts, CallerAct authorization reply kind sessionId r (s.Owns scope) a) :
    Option.Rel (SameOutcome scope r s t) (run serverStep s acts) (run serverStep t acts) := by
  have h0 : Alike scope (s.Owns scope) r s t :=
    { entries := hentries
      streams := hstreams
      request := by rw [hs, ht]
      mine := fun id e he => by
        obtain ⟨hget, huser⟩ := Option.filter_eq_some_iff.mp he
        exact ⟨id, e, hget, by simpa using huser, rfl⟩
      asked := by simp [hs, Request.view, Request.session?] }
  -- what is carried along is the relation, and that nothing else was touched
  have hstep : ∀ s' t' a, Alike scope (s.Owns scope) r s' t' ∧ SameOutcome scope r s t s' t' →
      CallerAct authorization reply kind sessionId r (s.Owns scope) a →
      Option.Rel (fun s' t' => Alike scope (s.Owns scope) r s' t' ∧ SameOutcome scope r s t s' t')
        (serverStep s' a) (serverStep t' a) := by
    rintro s' t' a ⟨halike, hsame⟩ ha
    have hroute : RouteAct scope (s.Owns scope) r a := hscope ▸ ha.route
    have hrel := alike_step halike hroute
    cases hs' : serverStep s' a <;> cases ht' : serverStep t' a <;> rw [hs', ht'] at hrel <;>
      cases hrel
    case none.none => exact .none
    case some.some s₁ t₁ hnext =>
      obtain ⟨hsreg, hsothers⟩ := untouched_step halike hroute hs'
      obtain ⟨htreg, htothers⟩ := untouched_step halike.symm hroute ht'
      refine .some ⟨hnext, ?_, hnext.streams, ?_, fun i hi => ?_⟩
      · exact fun response => ⟨hnext.returned, hnext.symm.returned⟩
      · exact ⟨hsreg.trans hsame.registry.1, htreg.trans hsame.registry.2⟩
      · exact ⟨(hsothers i hi).trans (hsame.others i hi).1,
          (htothers i hi).trans (hsame.others i hi).2⟩
  have hrel := run_rel hstep
    ⟨h0, fun response => ⟨h0.returned, h0.symm.returned⟩, hstreams, ⟨rfl, rfl⟩,
      fun _ _ => ⟨rfl, rfl⟩⟩ hacts
  cases hs' : run serverStep s acts <;> cases ht' : run serverStep t acts <;>
    rw [hs', ht'] at hrel <;> cases hrel
  case none.none => exact .none
  case some.some h => exact .some h.2

/-- `ann` asks for a session that is not hers. -/
def annAsks : List (ServerAct Unit) :=
  [.request 0 .status "theirs" (some "ticket"), .introspected 0 (some "ann")]

/-- The gateway knows the ticket of `ann`. -/
def annReply : IntrospectReply :=
  .response 200 (some (.object [("data", .object
    [("active", .bool true), ("user_id", .string "ann")])]))

/-- A server that holds a session of `bob`'s. -/
def bobsServer : Server Int Unit :=
  { registry := ({} : LivehostSessionRegistry).register "theirs" ⟨1, some "bob"⟩ }

/-- **The session of somebody else** is answered for like one that does not exist. -/
theorem bobs_session_unseen : ∃ _ : PyLower,
    Option.Rel (SameOutcome (some "ann") 0 bobsServer .start)
      (run serverStep bobsServer annAsks) (run serverStep .start annAsks) := by
  let lower : PyLower := ⟨id⟩
  have hticket : bearerTicket (some "bearer ticket") = some "ticket" := by decide
  have huser : (introspect annReply).userId = some "ann" := by decide
  refine ⟨lower, no_existence_oracle (some "bearer ticket") annReply .status "theirs" 0 (by decide)
    bobsServer .start rfl rfl (fun id => ?_) (fun _ _ => rfl) annAsks ?_⟩
  · rw [bobsServer, LivehostSessionRegistry.get_register]
    split <;> rfl
  · simp only [annAsks, List.mem_cons, List.not_mem_nil, or_false]
    rintro a (rfl | rfl)
    · rw [← hticket]
      exact .request
    · rw [← huser]
      exact .introspected "ticket" hticket

end Livehost
