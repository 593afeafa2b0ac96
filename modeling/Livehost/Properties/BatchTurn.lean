import Livehost.Properties.Scheduler
import Livehost.Relay

/-!
# What a social turn covers

Two thresholds decide how pending events are answered. The gate of `poll_social` counts them against
`batchMinEvents`, and lets a batch through; the scheduler then counts them against
`individualThreshold`, and pops one event of a backlog that is not above it.

* `answered_once_iff` — a turn accounts for everything that was pending exactly when the backlog is
  above the threshold, or is one event
* `batch_of_two_answered_apart` — a batch of two comments and a threshold of three
-/

namespace Livehost

variable {σ : Type}

/-- **The law**: the turn that was handed over as `text` accounts for every event that was pending,
among its events or in its overflow, and nothing is left. -/
def AnsweredOnce (r r' : Relay σ) (text : String) : Prop :=
  ∃ turn delivered dropped, r.scheduler.nextTurn = (some turn, r'.scheduler) ∧
    text = formatSocialTurn turn ∧ r.scheduler.queue = delivered ++ dropped ∧
    turn.events = delivered.map (·.event) ∧ turn.overflowCount = dropped.length ∧
    r'.scheduler.queue = []

/-- What `poll_social` sends is the turn that `next_turn` makes of the queue. -/
theorem Relay.pollSocial_sent {r r' : Relay σ} {now batchWaitSeconds : Rat} {batchMinEvents : Int}
    {text : String} (hsent : r.pollSocial now batchMinEvents batchWaitSeconds = (r', some text)) :
    ∃ turn, r.scheduler.nextTurn = (some turn, r'.scheduler) ∧ text = formatSocialTurn turn := by
  rcases r.pollSocial_cases now batchMinEvents batchWaitSeconds with
    hp | ⟨turn, scheduler, -, -, -, hn, hp⟩
  · rw [hp] at hsent
    cases hsent
  · rw [hp] at hsent
    cases hsent
    exact ⟨turn, hn, rfl⟩

/-- A turn empties the queue exactly when it is a batch or takes the only event. -/
theorem nextTurn_empties_iff {s s' : EventScheduler σ} {turn : SocialTurn}
    (hn : s.nextTurn = (some turn, s')) :
    s'.queue = [] ↔ s.individualThreshold < s.pendingCount ∨ s.pendingCount = 1 := by
  have hne : s.queue ≠ [] := by
    intro hnil
    have hshorter := EventScheduler.nextTurn_shortens hn
    rw [hnil, List.length_nil] at hshorter
    omega
  unfold EventScheduler.pendingCount
  by_cases hbatch : s.individualThreshold < s.queue.length
  · rw [EventScheduler.nextTurn_batch hne hbatch] at hn
    cases hn
    simp [hbatch]
  · obtain ⟨top, rest, hq⟩ := List.exists_cons_of_ne_nil hne
    rw [EventScheduler.nextTurn_single hq (not_lt.mp hbatch)] at hn
    cases hn
    have hone : s.queue.length = 1 ↔ rest = [] := by rw [hq]; simp
    rw [or_iff_right hbatch, hone]

/--
**Everything pending is answered by one turn** of `poll_social`, whatever its gate is set to,
exactly when more events are pending than `individualThreshold`, or one.
-/
theorem answered_once_iff {r r' : Relay σ} {now batchWaitSeconds : Rat} {batchMinEvents : Int}
    {text : String} (hsent : r.pollSocial now batchMinEvents batchWaitSeconds = (r', some text)) :
    AnsweredOnce r r' text ↔
      r.scheduler.individualThreshold < r.scheduler.pendingCount ∨
        r.scheduler.pendingCount = 1 := by
  obtain ⟨turn, hn, htext⟩ := Relay.pollSocial_sent hsent
  rw [← nextTurn_empties_iff hn]
  constructor
  · rintro ⟨-, -, -, -, -, -, -, -, hempty⟩
    exact hempty
  · intro hempty
    rcases r.scheduler.nextTurn_cases with
      ⟨-, hnone⟩ | ⟨turn', delivered, dropped, pending, hq, hn', hev, hov, -, -⟩
    · rw [hnone] at hn
      cases hn
    · rw [hn', Prod.mk.injEq] at hn
      obtain ⟨hturn, hsched⟩ := hn
      cases hturn
      -- what `next_turn` leaves is what is pending, that is, nothing
      have hpending : pending = [] := by rw [← hempty, ← hsched]
      refine ⟨turn, delivered, dropped, by rw [hn', hsched], htext, ?_, hev, hov, hempty⟩
      rw [hq, hpending, List.append_nil]

/-! ## Two comments -/

/-- A comment that says no more than that it is one. -/
def hello : SocialEvent := { kind := .comment, userId := "a", userName := "A", text := some "hi" }

/-- A relay whose scheduler got `n` such comments. -/
def helloRelay [PyLower] (threshold : Int) (n : Nat) : Relay Int :=
  .new ((EventScheduler.new [] threshold 3 200).calls (List.replicate n (.enqueue hello))) 0

/-- The gate lets them through once there are two. -/
theorem helloRelay_sends [PyLower] (threshold : Int) (n : Nat)
    (hpending : (helloRelay threshold n).scheduler.hasPending = true)
    (hready : (helloRelay threshold n).batchReady 0 2 0 = true) :
    ∃ turn r' text, (helloRelay threshold n).scheduler.nextTurn = (some turn, r'.scheduler) ∧
      (helloRelay threshold n).pollSocial 0 2 0 = (r', some text) := by
  obtain ⟨turn, scheduler, hn, hsent⟩ := Relay.pollSocial_sends rfl rfl hpending hready
  exact ⟨turn, _, _, hn, hsent⟩

/-- Four of them are answered by one turn. -/
theorem four_answered_once : ∃ (_ : PyLower) (r' : Relay Int) (text : String),
    (helloRelay 3 4).pollSocial 0 2 0 = (r', some text) ∧
      AnsweredOnce (helloRelay 3 4) r' text := by
  let lower : PyLower := ⟨id⟩
  obtain ⟨-, r', text, -, hsent⟩ := helloRelay_sends 3 4 (by decide +kernel) (by decide +kernel)
  exact ⟨lower, r', text, hsent, (answered_once_iff hsent).mpr (by decide +kernel)⟩

/-- **A batch of two comments is answered one at a time** with the default threshold of three. -/
theorem batch_of_two_answered_apart : ¬ ∀ (_ : PyLower) (threshold topK cap : Int)
    (cs : List EventScheduler.Call) (r r' : Relay Int) (now batchWaitSeconds : Rat)
    (batchMinEvents : Int) (text : String), 2 ≤ batchMinEvents →
    r.scheduler = (EventScheduler.new [] threshold topK cap).calls cs →
    r.pollSocial now batchMinEvents batchWaitSeconds = (r', some text) →
    AnsweredOnce r r' text := by
  intro h
  let lower : PyLower := ⟨id⟩
  obtain ⟨turn, r', text, hn, hsent⟩ :=
    helloRelay_sends 3 2 (by decide +kernel) (by decide +kernel)
  obtain ⟨-, -, -, -, -, -, -, -, hempty⟩ :=
    h lower 3 3 200 _ (helloRelay 3 2) r' 0 0 2 text (le_refl 2) rfl hsent
  exact absurd ((nextTurn_empties_iff hn).mp hempty) (by decide +kernel)

end Livehost
