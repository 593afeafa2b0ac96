import Livehost.Connections

/-!
# The registry refines the last live claim

What the registry is for, said over the history of the claims and releases: an id belongs to its
most recent successful claim, until that claim's own session is released.

* `LiveInv` — the entries are what the history says
* `registry_refines_last_claim` — for any interleaving of any number of connections
-/

namespace Livehost.Spec

open Infra

/-- The session of the most recent successful claim of the id; the history is newest first. -/
def lastClaim : List Entry → String → Option LivehostSession
  | [], _ => none
  | .claimed id' session :: history, id => if id = id' then some session else lastClaim history id
  | .released _ :: history, id => lastClaim history id

/-- The most recent successful claim of the id, if its session has not been released. -/
def lastLive (history : List Entry) (id : String) : Option LivehostSession :=
  (lastClaim history id).filter fun session => decide (.released session ∉ history)

theorem lastClaim_mem {history : List Entry} {id : String} {session : LivehostSession}
    (h : lastClaim history id = some session) : .claimed id session ∈ history := by
  fun_induction lastClaim history id with
  | case1 => cases h
  | case2 => cases h; exact List.mem_cons_self
  | case3 _ _ _ _ _ ih => exact List.mem_cons_of_mem _ (ih h)
  | case4 _ _ _ ih => exact List.mem_cons_of_mem _ (ih h)

/-! ## The invariant -/

/-- What every reachable state satisfies. -/
structure LiveInv (s : Connections) : Prop where
  refines : ∀ id, s.registry.get id = lastLive s.history id
  claimed : ∀ id session, .claimed id session ∈ s.history →
    s.conns session.ref = .live id session.userId ∨ s.conns session.ref = .gone
  released : ∀ session, .released session ∈ s.history → s.conns session.ref = .gone

theorem liveInv_start : LiveInv .start where
  refines _ := rfl
  claimed _ _ h := by cases h
  released _ h := by cases h

variable {s s' : Connections} {c : Nat} {id : String} {userId : Option String}

/-- The history says nothing about a connection that has not claimed. -/
theorem LiveInv.fresh (h : LiveInv s) (hc : s.conns c = .fresh) {session : LivehostSession} :
    (∀ id, .claimed id session ∈ s.history → session.ref ≠ c) ∧
      (.released session ∈ s.history → session.ref ≠ c) := by
  constructor
  · rintro id hm rfl
    rcases h.claimed _ _ hm with hl | hg
    · rw [hc] at hl; cases hl
    · rw [hc] at hg; cases hg
  · rintro hm rfl
    have hg := h.released _ hm
    rw [hc] at hg
    cases hg

theorem LiveInv.granted (h : LiveInv s) (hc : s.conns c = .fresh) :
    LiveInv (s.granted c id userId (s.registry.register id ⟨c, userId⟩)) := by
  refine ⟨fun id' => ?_, fun id' session hm => ?_, fun session hm => ?_⟩
  · show (s.registry.register id ⟨c, userId⟩).get id'
      = lastLive (.claimed id ⟨c, userId⟩ :: s.history) id'
    rw [LivehostSessionRegistry.get_register, lastLive, lastClaim]
    split
    · have hun : .released ⟨c, userId⟩ ∉ s.history := fun hm => (h.fresh hc).2 hm rfl
      simp [Option.filter, hun]
    · rw [h.refines id', lastLive]
      simp
  · rw [Connections.granted_conns]
    rcases List.mem_cons.mp hm with he | hm
    · cases he
      exact Or.inl (if_pos rfl)
    · rw [if_neg ((h.fresh hc).1 id' hm)]
      exact h.claimed id' session hm
  · have hm : .released session ∈ s.history := by
      rcases List.mem_cons.mp hm with he | hm
      · cases he
      · exact hm
    rw [Connections.granted_conns, if_neg ((h.fresh hc).2 hm)]
    exact h.released session hm

theorem LiveInv.refused (h : LiveInv s) (hc : s.conns c = .fresh) : LiveInv (s.refused c) := by
  refine ⟨h.refines, fun id session hm => ?_, fun session hm => ?_⟩
  · rw [Connections.refused_conns, if_neg ((h.fresh hc).1 id hm)]
    exact h.claimed id session hm
  · rw [Connections.refused_conns, if_neg ((h.fresh hc).2 hm)]
    exact h.released session hm

/-- A live connection made one claim, the one it is live on. -/
theorem LiveInv.own_claim (h : LiveInv s) (hc : s.conns c = .live id userId) {id' : String}
    {session : LivehostSession} (hm : .claimed id' session ∈ s.history) (hr : session.ref = c) :
    id' = id ∧ session = ⟨c, userId⟩ := by
  obtain ⟨ref, owner⟩ := session
  cases hr
  rcases h.claimed _ _ hm with hl | hg
  · rw [hc] at hl
    cases hl
    exact ⟨rfl, rfl⟩
  · rw [hc] at hg; cases hg

/-- A live connection holds the entry of its id exactly when its claim is the last one. -/
theorem LiveInv.holds_iff (h : LiveInv s) (hc : s.conns c = .live id userId) :
    (s.registry.get id).map (·.ref) = some c ↔ lastClaim s.history id = some ⟨c, userId⟩ := by
  rw [h.refines, lastLive]
  constructor
  · intro hr
    obtain ⟨session, hs, hr⟩ := Option.map_eq_some_iff.mp hr
    obtain ⟨hlast, -⟩ := Option.filter_eq_some_iff.mp hs
    rw [hlast, (h.own_claim hc (lastClaim_mem hlast) hr).2]
  · intro hlast
    have hun : .released ⟨c, userId⟩ ∉ s.history := fun hm => by
      have hg := h.released _ hm
      rw [hc] at hg
      cases hg
    simp [hlast, Option.filter, hun]

theorem LiveInv.freed (h : LiveInv s) (hc : s.conns c = .live id userId) :
    LiveInv (s.freed c id userId) := by
  refine ⟨fun id' => ?_, fun id' session hm => ?_, fun session hm => ?_⟩
  · show (s.registry.release id ⟨c, userId⟩).2.get id'
      = lastLive (.released ⟨c, userId⟩ :: s.history) id'
    rw [LivehostSessionRegistry.get_release]
    split
    next hheld =>
      -- the entry was this connection's, and its claim is now released
      rw [hheld.1, lastLive, lastClaim, (h.holds_iff hc).mp hheld.2]
      simp [Option.filter]
    next hheld =>
      -- the last claim of the id is not this connection's
      rw [h.refines id', lastLive, lastLive, lastClaim]
      cases hlast : lastClaim s.history id' with
      | none => rfl
      | some session =>
        have hne : session ≠ ⟨c, userId⟩ := by
          rintro rfl
          obtain ⟨rfl, -⟩ := h.own_claim hc (lastClaim_mem hlast) rfl
          exact hheld ⟨rfl, (h.holds_iff hc).mpr hlast⟩
        simp [Option.filter, hne]
  · rw [Connections.freed_conns]
    have hm : .claimed id' session ∈ s.history := by
      rcases List.mem_cons.mp hm with he | hm
      · cases he
      · exact hm
    by_cases hr : session.ref = c
    · exact Or.inr (if_pos hr)
    · rw [if_neg hr]
      exact h.claimed id' session hm
  · rw [Connections.freed_conns]
    by_cases hr : session.ref = c
    · exact if_pos hr
    · rw [if_neg hr]
      rcases List.mem_cons.mp hm with he | hm
      · cases he; exact absurd rfl hr
      · exact h.released session hm

theorem liveInv_step {a : ConnAct} (h : LiveInv s) (hs : connStep s a = some s') :
    LiveInv s' := by
  rcases connStep_cases hs with
    ⟨c, id, userId, rfl, hc, -, rfl⟩ |
    ⟨c, id, userId, rfl, hc, -, rfl⟩ |
    ⟨c, id, userId, rfl, hc, rfl⟩
  · exact h.granted hc
  · exact h.refused hc
  · exact h.freed hc

theorem liveInv_run {acts : List ConnAct} (h : run connStep .start acts = some s) : LiveInv s :=
  run_inv (fun _ _ _ hi hs => liveInv_step hi hs) liveInv_start h

/-! ## The refinement -/

/-- The action has nothing to say about the id: it is a refused claim, the release of a connection
whose claim is not the last one, or about another id. -/
def LeavesAlone (s : Connections) (id : String) : ConnAct → Prop
  | .claim c id' userId => id' ≠ id ∨ (s.registry.claim id' ⟨c, userId⟩).1 = false
  | .release c => ∀ id' userId, s.conns c = .live id' userId →
      id' ≠ id ∨ lastClaim s.history id' ≠ some ⟨c, userId⟩

theorem LiveInv.left_alone (h : LiveInv s) {a : ConnAct} (ha : LeavesAlone s id a)
    (hs : connStep s a = some s') : s'.registry.get id = s.registry.get id := by
  rcases connStep_cases hs with
    ⟨c, id', userId, rfl, -, ht, rfl⟩ |
    ⟨c, id', userId, rfl, -, -, rfl⟩ |
    ⟨c, id', userId, rfl, hc, rfl⟩
  · show (s.registry.register id' ⟨c, userId⟩).get id = s.registry.get id
    rcases ha with hne | hf
    · rw [LivehostSessionRegistry.get_register, if_neg hne.symm]
    · rw [ht] at hf; cases hf
  · rfl
  · show (s.registry.release id' ⟨c, userId⟩).2.get id = s.registry.get id
    rw [LivehostSessionRegistry.get_release]
    refine if_neg fun ⟨he, hheld⟩ => ?_
    rcases ha id' userId hc with hne | hlast
    · exact hne he.symm
    · exact hlast ((h.holds_iff hc).mp hheld)

/--
**The registry refines the last live claim.** In every state that connections reach, an id's entry
is the session of its most recent successful claim while that session is not released, and there
is none otherwise; refused claims, superseded releases and operations on other ids leave an entry
as it is; and a claim succeeds exactly on an id without an entry or with one of the same owner.
-/
theorem registry_refines_last_claim {acts : List ConnAct}
    (h : run connStep .start acts = some s) :
    (∀ id, s.registry.get id = lastLive s.history id) ∧
    (∀ a s' id, connStep s a = some s' → LeavesAlone s id a →
      s'.registry.get id = s.registry.get id) ∧
    ∀ id session, (s.registry.claim id session).1 = true ↔
      s.registry.get id = none ∨
        ∃ e, s.registry.get id = some e ∧ e.userId = session.userId := by
  have hi := liveInv_run h
  exact ⟨hi.refines, fun a s' id hs ha => hi.left_alone ha hs,
    fun id session => LivehostSessionRegistry.claim_succeeds⟩

/-- The owner reclaims the id, and then the superseded connection releases. -/
def reclaimRun : List ConnAct :=
  [.claim 0 "room" (some "u1"), .claim 1 "room" (some "u1"), .release 0]

theorem reclaimRun_keeps_entry :
    ∃ s, run connStep .start reclaimRun = some s ∧
      s.registry.get "room" = some ⟨1, some "u1"⟩ ∧
      s.registry.get "room" = lastLive s.history "room" := by
  have h : run connStep .start reclaimRun = some _ := rfl
  exact ⟨_, h, rfl, (registry_refines_last_claim h).1 "room"⟩

end Livehost.Spec
