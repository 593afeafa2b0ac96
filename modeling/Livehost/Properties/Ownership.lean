import Livehost.Connections

/-!
# One owner per session id

`claim` refuses an id whose entry has another owner. The entry is the last claimer's: once that
connection releases, the id is free while a superseded connection of the same owner may still be
live on it, and anybody may claim it.

* `one_owner_iff` — exactly the claims on a free id that somebody else is still live on break it
* `superseded_owner_is_overwritten` — three connections and four calls that do
-/

namespace Livehost

open Infra

/-- Connections that are live on one id have one owner. -/
def OneOwner (s : Connections) : Prop :=
  ∀ c c' id userId userId', s.conns c = .live id userId → s.conns c' = .live id userId' →
    userId = userId'

/-- The law: every state of the run has one owner per id. -/
def AlwaysOneOwner (acts : List ConnAct) : Prop :=
  ∀ pre post s, acts = pre ++ post → run connStep .start pre = some s → OneOwner s

/-- A claim on an id without an entry finds no other owner's connection live on it. -/
def ClaimsUnused (s : Connections) (a : ConnAct) : Prop :=
  ∀ c id userId, a = .claim c id userId → s.conns c = .fresh → s.registry.get id = none →
    ∀ c' userId', s.conns c' = .live id userId' → userId' = userId

variable {s s' : Connections} {c : Nat} {id : String} {userId : Option String}

/-! ## Entries are live -/

/-- An entry is that of a connection live on the id. -/
def EntriesLive (s : Connections) : Prop :=
  ∀ id e, s.registry.get id = some e → s.conns e.ref = .live id e.userId

theorem EntriesLive.granted (h : EntriesLive s) (hc : s.conns c = .fresh) :
    EntriesLive (s.granted c id userId (s.registry.register id ⟨c, userId⟩)) := by
  intro id' e he
  have he : (s.registry.register id ⟨c, userId⟩).get id' = some e := he
  rw [LivehostSessionRegistry.get_register] at he
  rw [Connections.granted_conns]
  split at he
  next hid =>
    cases he
    rw [if_pos rfl, hid]
  next =>
    have hl := h id' e he
    have hne : e.ref ≠ c := fun hr => by rw [hr, hc] at hl; cases hl
    rw [if_neg hne, hl]

/-- Connections that are live stay so, and the entries stay. -/
theorem EntriesLive.of_live (h : EntriesLive s) (hr : s'.registry = s.registry)
    (hl : ∀ c id userId, s.conns c = .live id userId → s'.conns c = .live id userId) :
    EntriesLive s' := by
  intro id e he
  rw [hr] at he
  exact hl e.ref id e.userId (h id e he)

theorem EntriesLive.refused (h : EntriesLive s) (hc : s.conns c = .fresh) :
    EntriesLive (s.refused c) := by
  refine h.of_live rfl fun c' id userId hl => ?_
  have hne : c' ≠ c := fun hr => by rw [hr, hc] at hl; cases hl
  rw [Connections.refused_conns, if_neg hne, hl]

theorem EntriesLive.freed (h : EntriesLive s) (hc : s.conns c = .live id userId) :
    EntriesLive (s.freed c id userId) := by
  intro id' e hget
  have he : (s.registry.release id ⟨c, userId⟩).2.get id' = some e := hget
  rw [LivehostSessionRegistry.get_release] at he
  rw [Connections.freed_conns]
  clear hget
  split at he
  next => cases he
  next hheld =>
    have hl := h id' e he
    have hne : e.ref ≠ c := by
      rintro rfl
      rw [hl] at hc
      cases hc
      exact hheld ⟨rfl, congrArg (Option.map (·.ref)) he⟩
    rw [if_neg hne, hl]

theorem entriesLive_step {a : ConnAct} (h : EntriesLive s) (hs : connStep s a = some s') :
    EntriesLive s' := by
  rcases connStep_cases hs with
    ⟨c, id, userId, rfl, hc, -, rfl⟩ |
    ⟨c, id, userId, rfl, hc, -, rfl⟩ |
    ⟨c, id, userId, rfl, hc, rfl⟩
  · exact h.granted hc
  · exact h.refused hc
  · exact h.freed hc

/-! ## One owner -/

/-- A connection that joins an id shares its owner with those live on it. -/
theorem OneOwner.granted {registry : LivehostSessionRegistry} (h : OneOwner s)
    (hshare : ∀ c' userId', s.conns c' = .live id userId' → userId' = userId) :
    OneOwner (s.granted c id userId registry) := by
  intro c₁ c₂ id' u₁ u₂ h₁ h₂
  rw [Connections.granted_conns] at h₁ h₂
  split at h₁ <;> split at h₂
  · cases h₁; cases h₂; rfl
  · cases h₁; exact (hshare c₂ u₂ h₂).symm
  · cases h₂; exact hshare c₁ u₁ h₁
  · exact h c₁ c₂ id' u₁ u₂ h₁ h₂

theorem oneOwner_step {a : ConnAct} (h : OneOwner s) (he : EntriesLive s) (ha : ClaimsUnused s a)
    (hs : connStep s a = some s') : OneOwner s' := by
  rcases connStep_cases hs with
    ⟨c, id, userId, rfl, hc, ht, rfl⟩ |
    ⟨c, id, userId, rfl, hc, -, rfl⟩ |
    ⟨c, id, userId, rfl, hc, rfl⟩
  · refine h.granted fun c' userId' hl => ?_
    rcases LivehostSessionRegistry.claim_succeeds.mp ht with hfree | ⟨e, hget, howner⟩
    · exact ha c id userId rfl hc hfree c' userId' hl
    · -- the entry's own connection is live, and has the claimer's owner
      exact (h c' e.ref id userId' e.userId hl (he id e hget)).trans howner
  · intro c₁ c₂ id' u₁ u₂ h₁ h₂
    rw [Connections.refused_conns] at h₁ h₂
    split at h₁ <;> split at h₂ <;> try contradiction
    exact h c₁ c₂ id' u₁ u₂ h₁ h₂
  · intro c₁ c₂ id' u₁ u₂ h₁ h₂
    rw [Connections.freed_conns] at h₁ h₂
    split at h₁ <;> split at h₂ <;> try contradiction
    exact h c₁ c₂ id' u₁ u₂ h₁ h₂

theorem alwaysOneOwner_of_along {acts : List ConnAct}
    (ha : Along connStep ClaimsUnused .start acts) : AlwaysOneOwner acts := by
  rintro pre post s rfl hrun
  have hinv : OneOwner s ∧ EntriesLive s := by
    refine run_inv_along (I := fun s => OneOwner s ∧ EntriesLive s) ?_ ⟨?_, ?_⟩
      (along_append.mp ha).1 hrun
    · intro s a s' hi hc hs
      exact ⟨oneOwner_step hi.1 hi.2 hc hs, entriesLive_step hi.2 hs⟩
    · intro c c' id userId userId' h
      cases h
    · intro id e h
      cases h
  exact hinv.1

/--
**One owner per session id**: in every state of a run, connections live on the same id have the
same owner, exactly when no claim of the run takes an id that has no entry while another owner's
connection is still live on it.
-/
theorem one_owner_iff (acts : List ConnAct) :
    AlwaysOneOwner acts ↔ Along connStep ClaimsUnused .start acts := by
  refine ⟨fun hsafe => ?_, alwaysOneOwner_of_along⟩
  rw [along_iff]
  rintro pre a post s rfl hs c id userId rfl hc hfree c' userId' hl
  -- the claim is granted, and then both connections are live on the id
  have hgrant : connStep s (.claim c id userId) = some _ :=
    connStep_granted hc (LivehostSessionRegistry.claim_succeeds.mpr (Or.inl hfree))
  have hne : c' ≠ c := fun hr => by rw [hr, hc] at hl; cases hl
  refine hsafe (pre ++ [.claim c id userId]) post _ (by simp)
    (run_concat_some.mpr ⟨s, hs, hgrant⟩) c' c id userId' userId ?_ ?_
  · rw [Connections.granted_conns, if_neg hne]
    exact hl
  · rw [Connections.granted_conns, if_pos rfl]

/-- The owner reclaims the id, the second connection ends, and another owner claims the id while
the first connection is still live on it. -/
def takeoverRun : List ConnAct :=
  [.claim 0 "room" (some "u1"), .claim 1 "room" (some "u1"), .release 1,
    .claim 2 "room" (some "u2")]

/-- **A superseded connection is not protected.** -/
theorem superseded_owner_is_overwritten : ¬ ∀ acts, AlwaysOneOwner acts := by
  intro h
  have hone := h takeoverRun takeoverRun [] _ rfl rfl 0 2 "room" (some "u1") (some "u2") rfl rfl
  exact absurd hone (by decide)

end Livehost
