import Livehost.Api.Exits
import Livehost.Properties.Ownership

/-!
# Every claim is released

Between the claim and its release `livehost_stream` calls and awaits things that raise. Each of them
is guarded, and each guard leads to the release; so a handler that has finished holds no entry, and
what it released was its own.

* `step_conn` — a step of a handler claims, releases, or leaves the registry alone
* `claims_released` — no finished handler holds an entry, whatever failed and whoever came between
-/

namespace Livehost

open Infra

/-! ## What a handler may meet -/

/-- Every failure is an `Exception`, the cleanup fails with a `sqlite3.Error`, and closing a
replaced store does not raise. An awaited task may also end cancelled. -/
def Handler.Ordinary (h : Handler) : HandlerAct → Prop
  | .accept _ _ _ _ build close cleanup =>
    (∀ exc, build = some exc → exc.isException = true) ∧ close = none ∧
      ∀ exc, cleanup = some exc → exc = .sqliteError
  | .resume (some exc) => exc.isException = true ∨ ∃ tasks pending, h.pc = .awaiting tasks pending
  | _ => True

def Handlers.Ordinary (s : Handlers) (a : HandlersAct) : Prop :=
  (s.handlers a.handler).Ordinary a.act

/-- A build that fails with an `Exception` is no more than a missing store. -/
theorem getMemoryStore_ok (g : MemoryGlobals) (path : String) {build : Option Exc}
    (hbuild : ∀ exc, build = some exc → exc.isException = true) :
    ∃ hasStore, (getMemoryStore g path build none).1 = .ok hasStore := by
  unfold getMemoryStore
  split
  · exact ⟨false, rfl⟩
  split
  · cases build with
    | none => exact ⟨true, by simp⟩
    | some exc => exact ⟨false, by simp [hbuild exc rfl]⟩
  · exact ⟨true, rfl⟩

theorem cleanupRaises_none (hasStore : Bool) {cleanup : Option Exc}
    (hcleanup : ∀ exc, cleanup = some exc → exc = .sqliteError) :
    cleanupRaises hasStore cleanup = none := by
  unfold cleanupRaises
  split
  · rw [Option.filter_eq_none_iff]
    intro exc hexc
    simp [hcleanup exc hexc]
  · rfl

namespace Handler

variable {h h' : Handler} {i : Nat} {r r' : LivehostSessionRegistry} {g g' : MemoryGlobals}

/-- What the handler is to the registry. -/
def conn (h : Handler) : Conn :=
  match h.pc with
  | .fresh => .fresh
  | .telling _ | .finished _ => .gone
  | _ => .live h.sessionId h.userId

theorem acceptGranted_dials {path : String} {build cleanup : Option Exc}
    (hbuild : ∀ exc, build = some exc → exc.isException = true)
    (hcleanup : ∀ exc, cleanup = some exc → exc = .sqliteError) :
    (h.acceptGranted g path build none cleanup).2 = { h with pc := .dialing } := by
  obtain ⟨hasStore, hok⟩ := getMemoryStore_ok g path hbuild
  unfold acceptGranted
  rw [show getMemoryStore g path build none = (.ok hasStore, _) from Prod.ext hok rfl]
  simp only [cleanupRaises_none hasStore hcleanup]

/-! ## One handler -/

/-- What a handler's step does to the registry: it claims, releases, or leaves it alone. -/
def ConnStep (i : Nat) (r r' : LivehostSessionRegistry) (c c' : Conn) : Prop :=
  (r' = r ∧ (c' = c ∨ c = .fresh ∧ c' = .gone)) ∨
  (∃ id userId, c = .fresh ∧ r' = r.register id ⟨i, userId⟩ ∧ c' = .live id userId) ∨
  ∃ id userId, c = .live id userId ∧ r' = (r.release id ⟨i, userId⟩).2 ∧ c' = .gone

/-- At any await but that of a task, what is raised is an `Exception`. -/
theorem Ordinary.exception {raised : Option Exc} (hord : h.Ordinary (.resume raised))
    (hpc : ∀ tasks pending, h.pc ≠ .awaiting tasks pending) :
    raised.filter (!·.isException) = none := by
  cases raised with
  | none => rfl
  | some exc =>
    rcases hord with hexc | ⟨tasks, pending, he⟩
    · simp [hexc]
    · exact absurd he (hpc tasks pending)

theorem resume_conn {raised : Option Exc} (hord : h.Ordinary (.resume raised))
    (hs : h.resume i r raised = some (r', h')) : ConnStep i r r' h.conn h'.conn := by
  cases hpc : h.pc with
  | fresh | finished => simp [resume, hpc] at hs
  | telling closing =>
    refine Or.inl ?_
    cases raised with
    | some exc =>
      simp only [resume, hpc, Option.some.injEq, Prod.mk.injEq] at hs
      obtain ⟨rfl, rfl⟩ := hs
      exact ⟨rfl, Or.inl (by simp [conn, hpc])⟩
    | none =>
      cases closing <;> simp only [resume, hpc, Option.some.injEq, Prod.mk.injEq] at hs
      all_goals
        obtain ⟨rfl, rfl⟩ := hs
        exact ⟨rfl, Or.inl (by simp [conn, hpc])⟩
  | dialing =>
    cases raised with
    | none =>
      simp only [resume, hpc, Option.some.injEq, Prod.mk.injEq] at hs
      obtain ⟨rfl, rfl⟩ := hs
      exact Or.inl ⟨rfl, Or.inl (by simp [conn, hpc])⟩
    | some exc =>
      have hexc : exc.isException = true := by
        simpa using hord.exception (by simp [hpc])
      simp only [resume, hpc, hexc, if_true, Option.some.injEq, Prod.mk.injEq] at hs
      obtain ⟨rfl, rfl⟩ := hs
      exact Or.inr (Or.inr ⟨_, _, by simp [conn, hpc], rfl, rfl⟩)
  | receiving | forwarding =>
    cases raised <;> simp only [resume, hpc, Option.some.injEq, Prod.mk.injEq, reduceCtorEq] at hs
    all_goals
      obtain ⟨rfl, rfl⟩ := hs
      exact Or.inl ⟨rfl, Or.inl (by simp [conn, leaveLoop, hpc])⟩
  | awaiting tasks pending =>
    simp only [resume, hpc, Option.some.injEq, Prod.mk.injEq] at hs
    obtain ⟨rfl, rfl⟩ := hs
    refine Or.inl ⟨rfl, Or.inl ?_⟩
    by_cases hlast : tasks ≤ 1 <;> simp [conn, hpc, hlast]
  | stopping pending =>
    have hnone := hord.exception (by simp [hpc])
    simp only [resume, hpc, hnone, Option.some.injEq, Prod.mk.injEq] at hs
    obtain ⟨rfl, rfl⟩ := hs
    exact Or.inl ⟨rfl, Or.inl (by simp [conn, hpc])⟩
  | closing pending =>
    have hnone := hord.exception (by simp [hpc])
    simp only [resume, hpc, hnone, Option.some.injEq, Prod.mk.injEq] at hs
    obtain ⟨rfl, rfl⟩ := hs
    exact Or.inr (Or.inr ⟨_, _, by simp [conn, hpc], rfl, rfl⟩)

/-- **Everything a step of a handler does to the registry.** -/
theorem step_conn {act : HandlerAct} (hord : h.Ordinary act)
    (hs : h.step i r g act = some (r', g', h')) : ConnStep i r r' h.conn h'.conn := by
  cases act with
  | accept sessionId userId idleTopic path build close cleanup =>
    cases hpc : h.pc <;> simp only [step, hpc, reduceCtorEq] at hs
    have hfresh : h.conn = .fresh := by simp [conn, hpc]
    obtain ⟨hbuild, rfl, hcleanup⟩ := hord
    rcases r.claim_cases sessionId ⟨i, userId⟩ with ⟨ht, hr⟩ | ⟨hf, hr⟩
    · simp only [session, show r.claim sessionId ⟨i, userId⟩ = (true, _) from Prod.ext ht hr,
        Option.some.injEq, Prod.mk.injEq] at hs
      obtain ⟨rfl, -, rfl⟩ := hs
      refine Or.inr (Or.inl ⟨sessionId, userId, hfresh, rfl, ?_⟩)
      rw [acceptGranted_dials hbuild hcleanup]
      rfl
    · simp only [session, show r.claim sessionId ⟨i, userId⟩ = (false, _) from Prod.ext hf hr,
        Option.some.injEq, Prod.mk.injEq] at hs
      obtain ⟨rfl, -, rfl⟩ := hs
      exact Or.inl ⟨rfl, Or.inr ⟨hfresh, rfl⟩⟩
  | frame | disconnect =>
    cases hpc : h.pc <;> simp only [step, hpc, reduceCtorEq] at hs
    cases hs
    exact Or.inl ⟨rfl, Or.inl (by simp [conn, leaveLoop, hpc])⟩
  | resume raised =>
    obtain ⟨⟨r₁, h₁⟩, hres, he⟩ := Option.map_eq_some_iff.mp hs
    cases he
    exact resume_conn hord hres
  | drain path build close =>
    cases hpc : h.pc <;> simp only [step, hpc, reduceCtorEq] at hs
    all_goals
      cases hs
      exact Or.inl ⟨rfl, Or.inl rfl⟩

end Handler

/-! ## All handlers -/

/-- The handlers as connections on their registry. -/
def Handlers.connections (s : Handlers) : Connections :=
  { registry := s.registry, conns := fun i => (s.handlers i).conn }

theorem entriesLive_handlersStep {s s' : Handlers} {a : HandlersAct} (hord : s.Ordinary a)
    (h : EntriesLive s.connections) (hs : handlersStep s a = some s') :
    EntriesLive s'.connections := by
  obtain ⟨⟨r', g', h'⟩, hstep, rfl⟩ := Option.map_eq_some_iff.mp hs
  have hconns : (fun j => (Function.update s.handlers a.handler h' j).conn)
      = Function.update s.connections.conns a.handler h'.conn :=
    Function.comp_update (fun h : Handler => h.conn) s.handlers a.handler h'
  unfold Handlers.connections
  rw [hconns]
  rcases Handler.step_conn hord hstep with
    ⟨rfl, hconn⟩ | ⟨id, userId, hfresh, rfl, hconn⟩ | ⟨id, userId, hlive, rfl, hconn⟩
  · refine h.of_live rfl fun c id userId hl => ?_
    by_cases hc : c = a.handler
    · subst hc
      rcases hconn with hconn | ⟨hfresh, -⟩
      · show Function.update _ _ _ _ = _
        rw [Function.update_self, hconn]
        exact hl
      · exact absurd (hfresh.symm.trans hl) (by simp)
    · show Function.update _ _ _ _ = _
      rw [Function.update_of_ne hc]
      exact hl
  · rw [hconn]
    exact h.granted hfresh
  · rw [hconn]
    exact h.freed hlive

/-- A resumed await leaves the registry alone, or is the release of the handler's own session. -/
theorem Handler.resume_registry {h h' : Handler} {i : Nat} {r r' : LivehostSessionRegistry}
    {raised : Option Exc} (hs : h.resume i r raised = some (r', h')) :
    r' = r ∨ r' = (r.release h.sessionId (h.session i)).2 := by
  unfold resume at hs
  split at hs <;> try split at hs
  all_goals
    cases hs <;> first | exact Or.inl rfl | exact Or.inr rfl

theorem others_kept {s s' : Handlers} {i : Nat} {raised : Option Exc}
    (hs : handlersStep s ⟨i, .resume raised⟩ = some s') {id : String} {e : LivehostSession}
    (he : s.registry.get id = some e) (hne : e.ref ≠ i) : s'.registry.get id = some e := by
  obtain ⟨⟨r₁, g₁, h₁⟩, hstep, rfl⟩ := Option.map_eq_some_iff.mp hs
  obtain ⟨⟨r₂, h₂⟩, hres, heq⟩ := Option.map_eq_some_iff.mp hstep
  cases heq
  rcases Handler.resume_registry hres with rfl | rfl
  · exact he
  · rw [LivehostSessionRegistry.get_release, if_neg]
    · exact he
    · -- the release compares references
      rintro ⟨rfl, hheld⟩
      rw [he] at hheld
      exact hne (Option.some.inj hheld)

/--
**Every claim is released.** In every interleaving of handlers in which the failures are ordinary:
once a handler that claimed its id has finished, however it did, the entry of the id is not its
session; and what it awaits and releases leaves every other session's entry where it is, also that
of a later claim on the same id.
-/
theorem claims_released {acts : List HandlersAct} {s : Handlers}
    (hord : Along handlersStep Handlers.Ordinary .start acts)
    (hs : run handlersStep .start acts = some s) :
    (∀ i raised, (s.handlers i).claimed = true → (s.handlers i).pc = .finished raised →
      ∀ e, s.registry.get (s.handlers i).sessionId = some e → e.ref ≠ i) ∧
    ∀ i raised s', handlersStep s ⟨i, .resume raised⟩ = some s' →
      ∀ id e, s.registry.get id = some e → e.ref ≠ i → s'.registry.get id = some e := by
  have hlive : EntriesLive s.connections := by
    refine run_inv_along (I := fun s => EntriesLive s.connections) ?_ ?_ hord hs
    · exact fun _ _ _ hi ha hs => entriesLive_handlersStep ha hi hs
    · intro id e he
      cases he
  refine ⟨fun i raised _ hpc e he href => ?_, fun i raised s' hs id e he hne => ?_⟩
  · -- an entry is that of a connection that is still live on the id
    have hconn : (s.handlers e.ref).conn = .live _ e.userId := hlive _ e he
    rw [href, Handler.conn, hpc] at hconn
    cases hconn
  · exact others_kept hs he hne

/-- Two handlers of one owner on one id: of the first, everything fails that may. -/
def failingRun : List HandlersAct :=
  [⟨0, .accept "room" none true "db" (some .sqliteError) none none⟩, ⟨0, .resume none⟩,
    ⟨1, .accept "room" none false "db" none none none⟩, ⟨0, .frame⟩,
    ⟨0, .resume (some .connectionClosed)⟩, ⟨0, .resume (some .cancelled)⟩,
    ⟨0, .resume (some .other)⟩, ⟨0, .resume (some .cancelled)⟩, ⟨0, .resume (some .cancelled)⟩,
    ⟨0, .resume (some .other)⟩, ⟨0, .resume (some .connectionClosed)⟩]

/-- **The first handler ends with its exception, and without the entry**, which is the second's. -/
theorem failingRun_releases : ∃ s, run handlersStep .start failingRun = some s ∧
    (s.handlers 0).pc = .finished (some .connectionClosed) ∧
    s.registry.get "room" = some ⟨1, none⟩ ∧
    ∀ e, s.registry.get "room" = some e → e.ref ≠ 0 := by
  refine ⟨_, rfl, rfl, rfl, ?_⟩
  refine (claims_released ?_ (show run handlersStep .start failingRun = some _ from rfl)).1 0
    (some .connectionClosed) rfl rfl
  refine along_cons rfl ⟨fun exc he => (by cases he; rfl), rfl, fun exc he => (by cases he)⟩ ?_
  refine along_cons rfl trivial ?_
  refine along_cons rfl ⟨fun exc he => (by cases he), rfl, fun exc he => (by cases he)⟩ ?_
  refine along_cons rfl trivial (along_cons rfl (Or.inl rfl) ?_)
  -- the four tasks, of which two end cancelled and one with an exception
  refine along_cons rfl (Or.inr ⟨4, _, rfl⟩) (along_cons rfl (Or.inl rfl) ?_)
  refine along_cons rfl (Or.inr ⟨2, _, rfl⟩) (along_cons rfl (Or.inr ⟨1, _, rfl⟩) ?_)
  exact along_cons rfl (Or.inl rfl) (along_cons rfl (Or.inl rfl) trivial)

end Livehost
