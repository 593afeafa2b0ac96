import Livehost.Api.Down
import Livehost.Infra.Alternation
import Livehost.Infra.Machine

/-!
# Plugin turns do not overlap

The down task, the two pollers and the drain loop share one relay. Any interleaving of them at
their awaits is a list of `TurnsAct`s, and what matters of it is the list of `TurnsObs`: the
text turns handed to `upstream.send_text`, the completions `pump_down` looked at, and the
connection attempts `_run_once` began.

The invariant is one implication: while a turn is open (handed over, with no completion and no
attempt since), one of the two flags is set. A barge-in clears the turn flag after its awaited
abort, and it is `voiceActive` that keeps the pollers out from there on.

* `turns_never_overlap` — between two turns there is a completion or an attempt, and no turn is
  handed over while the streamer talks
-/

namespace Livehost

open Infra

variable {σ β : Type}

structure TurnsState (σ β : Type) where
  relay : Relay σ
  down : Down β := {}

inductive TurnsAct (β : Type)
  | down (a : DownAct β)
  | pollSocial (now : Rat) (batchMinEvents : Int) (batchWaitSeconds : Rat)
  | pollIdle (now idleSeconds : Rat)
  | arrive (now : Rat) (event : SocialEvent)

inductive TurnsObs
  /-- A text turn was handed over; `voiceActive` as it was then. -/
  | turn (voiceActive : Bool)
  /-- `pump_down` looked at a `turn_done` or an `aborted`. -/
  | completed
  /-- `_run_once` began a connection attempt. -/
  | attempt

def TurnsObs.isTurn : TurnsObs → Prop
  | .turn _ => True
  | _ => False

def TurnsObs.isMark : TurnsObs → Prop
  | .completed | .attempt => True
  | _ => False

/-- A text was handed over, or not. -/
def handedOver (r : Relay σ) : Option String → List TurnsObs
  | none => []
  | some _ => [.turn r.voiceActive]

def downObs (args : RedialArgs) (d : Down β) (a : DownAct β) : List TurnsObs :=
  if beginsAttempt args d a then [.attempt]
  else
    match a with
    | .message _ m => if m.completes then [.completed] else []
    | _ => []

def turnsObs (args : RedialArgs) (s : TurnsState σ β) : TurnsAct β → List TurnsObs
  | .down a => downObs args s.down a
  | .pollSocial now least wait => handedOver s.relay (s.relay.pollSocial now least wait).2
  | .pollIdle now idle => handedOver s.relay (s.relay.pollIdle now idle).2
  | .arrive _ _ => []

def turnsStep [Score σ] [PyLower] (args : RedialArgs) (s : TurnsState σ β) :
    TurnsAct β → Option (TurnsState σ β)
  | .down a => (downStep args s.relay s.down a).map fun (relay, down) => { relay, down }
  | .pollSocial now least wait => some { s with relay := (s.relay.pollSocial now least wait).1 }
  | .pollIdle now idle => some { s with relay := (s.relay.pollIdle now idle).1 }
  | .arrive now event => some { s with relay := s.relay.arrive now event }

/-- What links the state to what has been seen. -/
structure TurnsInv (s : TurnsState σ β) (seen : List TurnsObs) : Prop where
  /-- While a turn is open, a flag keeps the pollers out. -/
  guarded : Open TurnsObs.isTurn TurnsObs.isMark seen →
    s.relay.socialTurnInFlight = true ∨ s.relay.voiceActive = true
  /-- A barge-in abort is awaited with the streamer talking. -/
  talking : ∀ m, s.down.pc = .aborting m → s.relay.voiceActive = true
  alternates : Alternates TurnsObs.isTurn TurnsObs.isMark seen
  quiet : ∀ v, .turn v ∈ seen → v = false

theorem turnsInv_nil {s : TurnsState σ β} (hs : ∀ m, s.down.pc ≠ .aborting m) :
    TurnsInv s [] where
  guarded := fun h => absurd h not_open_nil
  talking := fun m hm => absurd hm (hs m)
  alternates := alternates_nil
  quiet := by simp

/-! ## One step -/

/-- A step that shows nothing. -/
theorem TurnsInv.silent {s s' : TurnsState σ β} {seen : List TurnsObs} (h : TurnsInv s seen)
    (hflags : s.relay.socialTurnInFlight = true ∨ s.relay.voiceActive = true →
      s'.relay.socialTurnInFlight = true ∨ s'.relay.voiceActive = true)
    (htalk : ∀ m, s'.down.pc = .aborting m → s'.relay.voiceActive = true) :
    TurnsInv s' (seen ++ []) := by
  rw [List.append_nil]
  exact ⟨fun ho => hflags (h.guarded ho), htalk, h.alternates, h.quiet⟩

/-- A step that shows a completion or an attempt. -/
theorem TurnsInv.mark {s s' : TurnsState σ β} {seen : List TurnsObs} {o : TurnsObs}
    (h : TurnsInv s seen) (hm : o.isMark) (ht : ¬ o.isTurn)
    (htalk : ∀ m, s'.down.pc = .aborting m → s'.relay.voiceActive = true) :
    TurnsInv s' (seen ++ [o]) where
  guarded := fun ho => absurd ho (not_open_concat_mark hm ht)
  talking := htalk
  alternates := alternates_concat h.alternates fun hturn => absurd hturn ht
  quiet := by
    intro v hv
    rcases List.mem_append.mp hv with hv | hv
    · exact h.quiet v hv
    · rw [List.mem_singleton] at hv
      subst hv
      exact absurd trivial ht

/-- A poller that hands a turn over with both flags clear and sets the turn flag. -/
theorem TurnsInv.turn {s : TurnsState σ β} {seen : List TurnsObs} {r : Relay σ}
    (h : TurnsInv s seen) (hflight : s.relay.socialTurnInFlight = false)
    (hvoice : s.relay.voiceActive = false) (hset : r.socialTurnInFlight = true) :
    TurnsInv { s with relay := r } (seen ++ [.turn s.relay.voiceActive]) where
  guarded := fun _ => Or.inl hset
  talking := fun m hm => absurd (h.talking m hm) (by simp [hvoice])
  -- an open turn would have a flag up, and both are down
  alternates := alternates_concat h.alternates fun _ ho => by
    rcases h.guarded ho with hc | hc
    · simp [hflight] at hc
    · simp [hvoice] at hc
  quiet := by
    intro v hv
    rcases List.mem_append.mp hv with hv | hv
    · exact h.quiet v hv
    · rw [List.mem_singleton, TurnsObs.turn.injEq] at hv
      exact hv.trans hvoice

theorem turnsInv_down {args : RedialArgs} {s : TurnsState σ β} {a : DownAct β} {r' : Relay σ}
    {d' : Down β} {seen : List TurnsObs} (h : TurnsInv s seen)
    (hstep : downStep args s.relay s.down a = some (r', d')) :
    TurnsInv { relay := r', down := d' } (seen ++ downObs args s.down a) := by
  rcases downStep_cases hstep with
    ⟨hb, -, hpc⟩ | ⟨hb, ⟨now, m, rfl, rfl, hpc⟩ | ⟨m, rfl, hpc, rfl, -⟩ | ⟨ha, rfl, hpc⟩⟩
  · have hobs : downObs args s.down a = [.attempt] := by simp [downObs, hb]
    rw [hobs]
    exact h.mark trivial id fun m hm => by simp [hpc] at hm
  · have htalk : ∀ m', d'.pc = .aborting m' → (s.relay.receive now m).1.voiceActive = true := by
      intro m' hm'
      cases haborts : (s.relay.receive now m).2 with
      | true => exact (Relay.receive_aborts haborts).1
      | false => simp [hpc, haborts] at hm'
    cases hc : m.completes with
    | true =>
      have hobs : downObs args s.down (.message now m) = [.completed] := by
        simp [downObs, hb, hc]
      rw [hobs]
      exact h.mark trivial id htalk
    | false =>
      have hobs : downObs args s.down (.message now m) = [] := by simp [downObs, hb, hc]
      obtain ⟨hflight, hvoice⟩ := s.relay.receive_not_completes now hc
      rw [hobs]
      exact h.silent (Or.imp (hflight.trans ·) hvoice) htalk
  · -- the abort of a barge-in went out: `voiceActive` takes over from the turn flag
    have hobs : downObs args s.down .resumed = [] := by simp [downObs, hb]
    rw [hobs]
    exact h.silent (fun _ => Or.inr (h.talking m hpc)) fun _ _ => h.talking m hpc
  · have hobs : downObs args s.down a = [] := by
      unfold downObs
      rw [hb]
      cases a <;> simp_all
    rw [hobs]
    exact h.silent id fun m hm => absurd hm (hpc m)

variable [Score σ] [PyLower]

theorem turnsInv_step {args : RedialArgs} {s s' : TurnsState σ β} {a : TurnsAct β}
    {seen : List TurnsObs} (h : TurnsInv s seen) (hstep : turnsStep args s a = some s') :
    TurnsInv s' (seen ++ turnsObs args s a) := by
  cases a with
  | down a =>
    simp only [turnsStep, Option.map_eq_some_iff] at hstep
    obtain ⟨⟨r', d'⟩, hd, rfl⟩ := hstep
    exact turnsInv_down h hd
  | pollSocial now least wait =>
    cases hstep
    rcases s.relay.pollSocial_cases now least wait with hp | ⟨turn, sched, hf, hv, -, -, hp⟩
    · simp only [turnsObs, hp, handedOver]
      exact h.silent id h.talking
    · simp only [turnsObs, hp, handedOver]
      exact h.turn hf hv rfl
  | pollIdle now idle =>
    cases hstep
    rcases s.relay.pollIdle_cases now idle with hp | ⟨hf, hv, -, hp⟩
    · simp only [turnsObs, hp, handedOver]
      exact h.silent id h.talking
    · simp only [turnsObs, hp, handedOver]
      exact h.turn hf hv rfl
  | arrive now event =>
    cases hstep
    obtain ⟨hv, hf⟩ := Relay.notePending_flags
      ({ s.relay with scheduler := s.relay.scheduler.enqueue event }.noteActivity now) now
    refine h.silent (fun hc => ?_) fun m hm => ?_
    · exact hc.imp hf.trans hv.trans
    · exact hv.trans (h.talking m hm)

/-! ## Every interleaving -/

/-- From any state that is not in an abort: the turns alternate with completions and attempts, and
none is handed over while the streamer talks. -/
theorem turns_alternate (args : RedialArgs) {s : TurnsState σ β}
    (hs : ∀ m, s.down.pc ≠ .aborting m) (acts : List (TurnsAct β)) :
    Alternates TurnsObs.isTurn TurnsObs.isMark (trace (turnsStep args) (turnsObs args) s acts) ∧
      ∀ v, .turn v ∈ trace (turnsStep args) (turnsObs args) s acts → v = false := by
  obtain ⟨t, ht⟩ := trace_inv (I := TurnsInv) (fun s a s' seen hi hs => turnsInv_step hi hs)
    (turnsInv_nil hs) acts
  rw [List.nil_append] at ht
  exact ⟨ht.alternates, ht.quiet⟩

/--
**No two plugin turns overlap.** In every interleaving of the down task (with any messages,
redials and exceptions), the two pollers and the drain loop on a fresh relay: between two text
turns handed to `upstream.send_text`, `pump_down` looked at a `turn_done` or an `aborted` or
`_run_once` began a connection attempt; and no text turn was handed over while `voiceActive`
was set.
-/
theorem turns_never_overlap (args : RedialArgs) (scheduler : EventScheduler σ) (t₀ : Rat)
    (acts : List (TurnsAct β)) :
    let seen := trace (turnsStep args) (turnsObs args) { relay := Relay.new scheduler t₀ } acts
    (∀ pre v mid w post, seen = pre ++ .turn v :: (mid ++ .turn w :: post) →
      .completed ∈ mid ∨ .attempt ∈ mid) ∧
    ∀ v, .turn v ∈ seen → v = false := by
  intro seen
  have hstart : ∀ m : Message β, ({ } : Down β).pc ≠ .aborting m := by simp
  obtain ⟨halt, hquiet⟩ :=
    turns_alternate args (s := { relay := Relay.new scheduler t₀ }) hstart acts
  refine ⟨fun pre v mid w post he => ?_, hquiet⟩
  obtain ⟨m, hm, hmark⟩ := halt pre _ mid _ post he trivial trivial
  cases m with
  | turn v => exact absurd hmark id
  | completed => exact Or.inl hm
  | attempt => exact Or.inr hm

end Livehost
