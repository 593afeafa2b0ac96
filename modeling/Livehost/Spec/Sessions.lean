import Livehost.Api.Control
import Livehost.Spec.LastClaim

/-!
# The server on its registry

Forget everything of the server but the registry and where each handler is between its claim and
its release: what is left are connections on the registry. So whatever holds of every run of these
holds of the server.

* `server_simulates` — a step of the server is none or one step of the connections
* `holds_or_reclaimed` — a live connection holds the entry of its id until its own owner reclaims it
-/

namespace Livehost

open Infra Spec

variable {σ β : Type}

/-! ## The simulation -/

/-- The server as connections on its registry. -/
def Server.connections (s : Server σ β) : Connections :=
  { registry := s.registry, conns := fun i => (s.streams i).conn, history := s.history }

theorem conns_update (streams : Nat → Stream σ β) (i : Nat) (h : Stream σ β) :
    (fun j => (Function.update streams i h j).conn)
      = Function.update (fun j => (streams j).conn) i h.conn :=
  Function.comp_update (fun h : Stream σ β => h.conn) streams i h

theorem entries_same {i : Nat} {h h' : Stream σ β} (he : h'.conn = h.conn) :
    entries i h h' = [] := by
  unfold entries
  rw [he]
  split <;> simp_all

theorem Stream.conn_of_running {h : Stream σ β} (hr : h.pc.running = true) :
    h.conn = .live h.config.sessionId (ownerOf h.config.userId) := by
  unfold Stream.conn
  cases hpc : h.pc <;> rw [hpc] at hr <;> first | rfl | cases hr

/-- The effect of a handler's step on the connections. -/
def ConnMoves (i : Nat) (r r' : LivehostSessionRegistry) (h h' : Stream σ β) : Prop :=
  r' = r ∧ h'.conn = h.conn ∨
  (∃ id userId, h.conn = .fresh ∧
    ((r.claim id ⟨i, userId⟩).1 = true ∧ r' = r.register id ⟨i, userId⟩ ∧
        h'.conn = .live id userId ∨
      (r.claim id ⟨i, userId⟩).1 = false ∧ r' = r ∧ h'.conn = .refused)) ∨
  ∃ id userId, h.conn = .live id userId ∧ r' = (r.release id ⟨i, userId⟩).2 ∧ h'.conn = .gone

theorem Stream.Moves.conn [Score σ] [PyLower] {i : Nat} {r r' : LivehostSessionRegistry}
    {h h' : Stream σ β} {act : StreamAct β} {returned : Option Nat}
    (hm : Moves i r h act r' h' returned) : ConnMoves i r r' h h' := by
  cases hm with
  | granted config hpc hclaim =>
    exact Or.inr (Or.inl ⟨_, _, by simp [Stream.conn, hpc], Or.inl ⟨hclaim, rfl, rfl⟩⟩)
  | refused config hpc hclaim =>
    exact Or.inr (Or.inl ⟨_, _, by simp [Stream.conn, hpc], Or.inr ⟨hclaim, rfl, rfl⟩⟩)
  | dialFails hpc => exact Or.inr (Or.inr ⟨_, _, by simp [Stream.conn, hpc], rfl, rfl⟩)
  | closed hpc => exact Or.inr (Or.inr ⟨_, _, by simp [Stream.conn, hpc], rfl, rfl⟩)
  | ingest act result =>
    refine Or.inl ⟨rfl, ?_⟩
    by_cases hstop : h.pc = .stopping ∧ result.2 = some .handler
    · simp [Stream.conn, Stream.afterStop, hstop]
    · simp [Stream.conn, Stream.afterStop, hstop]
  | tasksEnded hpc =>
    refine Or.inl ⟨rfl, ?_⟩
    by_cases hstop : (h.ingestor.call .handler .stop).2 = some .handler
    · simp [Stream.conn, Stream.afterStop, hpc, hstop]
    · simp [Stream.conn, Stream.afterStop, hpc, hstop]
  | task act h' hrun hstep =>
    obtain ⟨hconfig, -, -, -, hpc⟩ := Stream.taskStep_frame hstep
    have hrun' : h'.pc.running = true := by
      rcases hpc with ⟨-, -, hpc⟩ | ⟨-, hpc, -⟩
      · rw [hpc, StreamPc.running_drop, hrun]
      · rw [hpc, hrun]
    exact Or.inl ⟨rfl, by rw [conn_of_running hrun, conn_of_running hrun', hconfig]⟩
  | frame frame hpc =>
    refine Or.inl ⟨rfl, ?_⟩
    cases hf : frame.payload <;> simp [Stream.conn, hpc]
  | dialed now hpc | reported hpc | disconnect hpc | forwarded hpc | forwardRaises hpc =>
    exact Or.inl ⟨rfl, by simp [Stream.conn, Stream.enterLoop, hpc]⟩

/-- **A step of the server is none or one step of its connections.** -/
theorem server_simulates [Score σ] [PyLower] {s s' : Server σ β} {a : ServerAct β}
    (hs : serverStep s a = some s') :
    s'.connections = s.connections ∨ ∃ b, connStep s.connections b = some s'.connections := by
  unfold Server.connections
  rcases serverStep_cases hs with ⟨i, act, registry, h, returned, -, hm, hreg, hhist, hstr⟩ |
    ⟨hreg, hhist, -, ⟨r, i, op, -, hstr⟩ | ⟨-, hstr⟩⟩
  · rw [hreg, hhist, hstr, conns_update]
    rcases hm.conn with ⟨rfl, hconn⟩ | ⟨id, userId, hc, ⟨ht, rfl, hconn⟩ | ⟨hf, rfl, hconn⟩⟩ |
      ⟨id, userId, hc, rfl, hconn⟩
    · left
      rw [entries_same hconn, hconn, Function.update_eq_self]
      rfl
    · right
      refine ⟨.claim i id userId, (connStep_granted hc ht).trans ?_⟩
      rw [hconn, entries, hc, hconn]
      rfl
    · right
      refine ⟨.claim i id userId, (connStep_refused hc hf).trans ?_⟩
      rw [hconn, entries, hc, hconn]
      rfl
    · right
      refine ⟨.release i, (connStep_release hc).trans ?_⟩
      rw [hconn, entries, hc, hconn]
      rfl
  · -- a request's call changes an ingestor, which no connection shows
    left
    rw [hreg, hhist, hstr, conns_update]
    exact congrArg (fun conns => Connections.mk s.registry conns s.history)
      (Function.update_eq_self i _)
  · left
    rw [hreg, hhist, hstr]

/-! ## Who holds the entry of a live connection's id -/

/-- After the session claimed the id, its own owner claimed it again. -/
def Reclaimed (history : List Entry) (id : String) (session : LivehostSession) : Prop :=
  ∃ newer older other, history = newer ++ .claimed id session :: older ∧
    .claimed id other ∈ newer ∧ other.userId = session.userId

theorem Reclaimed.cons {history : List Entry} {id : String} {session : LivehostSession}
    (h : Reclaimed history id session) (e : Entry) : Reclaimed (e :: history) id session := by
  obtain ⟨newer, older, other, rfl, hm, ho⟩ := h
  exact ⟨e :: newer, older, other, rfl, List.mem_cons_of_mem _ hm, ho⟩

/-- A live connection holds the entry of its id, or its owner has reclaimed the id. -/
def Holds (s : Connections) : Prop :=
  ∀ c id userId, s.conns c = .live id userId →
    .claimed id ⟨c, userId⟩ ∈ s.history ∧
      (s.registry.get id = some ⟨c, userId⟩ ∨ Reclaimed s.history id ⟨c, userId⟩)

theorem holds_step {s s' : Connections} {a : ConnAct} (h : Holds s)
    (hs : connStep s a = some s') : Holds s' := by
  rcases connStep_cases hs with
    ⟨c, id, userId, rfl, hc, ht, rfl⟩ |
    ⟨c, id, userId, rfl, hc, -, rfl⟩ |
    ⟨c, id, userId, rfl, hc, rfl⟩
  · intro c' id' userId' hl
    rw [Connections.granted_conns] at hl
    show _ ∈ Entry.claimed id ⟨c, userId⟩ :: s.history ∧
      ((s.registry.register id ⟨c, userId⟩).get id' = some ⟨c', userId'⟩ ∨
        Reclaimed (.claimed id ⟨c, userId⟩ :: s.history) id' ⟨c', userId'⟩)
    rw [LivehostSessionRegistry.get_register]
    split at hl
    next hcc =>
      cases hl
      exact ⟨by simp [hcc], Or.inl (by rw [if_pos rfl, hcc])⟩
    next =>
      obtain ⟨hm, hentry⟩ := h c' id' userId' hl
      refine ⟨List.mem_cons_of_mem _ hm, ?_⟩
      by_cases hid : id' = id
      · -- the id was reclaimed: by the owner of the entry, if the entry was this connection's
        right
        rcases hentry with hget | hre
        · subst hid
          rcases LivehostSessionRegistry.claim_succeeds.mp ht with hfree | ⟨e, he, howner⟩
          · rw [hget] at hfree; cases hfree
          · rw [hget] at he
            cases he
            obtain ⟨newer, older, hhist⟩ := List.append_of_mem hm
            exact ⟨.claimed id' ⟨c, userId⟩ :: newer, older, ⟨c, userId⟩, by rw [hhist]; rfl,
              List.mem_cons_self, howner.symm⟩
        · exact hre.cons _
      · rw [if_neg hid]
        exact hentry.imp_right fun hre => hre.cons _
  · intro c' id' userId' hl
    rw [Connections.refused_conns] at hl
    split at hl
    · cases hl
    · exact h c' id' userId' hl
  · intro c' id' userId' hl
    rw [Connections.freed_conns] at hl
    split at hl
    next => cases hl
    next hcc =>
      obtain ⟨hm, hentry⟩ := h c' id' userId' hl
      refine ⟨List.mem_cons_of_mem _ hm, ?_⟩
      show (s.registry.release id ⟨c, userId⟩).2.get id' = some ⟨c', userId'⟩ ∨
        Reclaimed (.released ⟨c, userId⟩ :: s.history) id' ⟨c', userId'⟩
      rcases hentry with hget | hre
      · -- the release compares references, and this entry is not the releasing connection's
        left
        rw [LivehostSessionRegistry.get_release, if_neg, hget]
        rintro ⟨rfl, hheld⟩
        rw [hget] at hheld
        exact hcc (Option.some.inj hheld)
      · exact Or.inr (hre.cons _)

/-- **A handler that has not released its claim holds the entry of its id**, unless its own owner
has reclaimed it. -/
theorem holds_or_reclaimed [Score σ] [PyLower] {s : Server σ β} {acts : List (ServerAct β)}
    (h : run serverStep .start acts = some s) {i : Nat} {id : String} {userId : Option String}
    (hl : (s.streams i).conn = .live id userId) :
    s.registry.get id = some ⟨i, userId⟩ ∨ Reclaimed s.history id ⟨i, userId⟩ := by
  obtain ⟨bs, hbs⟩ := run_simulation (fun _ _ _ hs => server_simulates hs) h
  have hholds : Holds s.connections :=
    run_inv (fun _ _ _ hi hs => holds_step hi hs) (fun _ _ _ hl => by cases hl) hbs
  exact (hholds i id userId hl).2

end Livehost
