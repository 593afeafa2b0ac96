import Livehost.Properties.Clock
import Livehost.Properties.Scheduler

/-!
# The batch window

One timestamp stands for the age of everything that waits. A turn clears it, also a turn that takes
one event of several; while it is cleared the gate is open. The next arrival sets it again, to its
own time, and what the turn left behind waits another window.

* `batch_wait_bounded` — while no arrival finds such a rest, no event waits longer than the window
* `rearmed_not_answered` — an arrival that finds one makes it wait
* `left_behind_waits_on` — two events, one turn and a third event
-/

namespace Livehost

open Infra

variable {σ β : Type} {args : ClockArgs} {s s' : ClockState σ β} {a : ClockAct β}

/-! ## The law and its condition -/

/-- When the entry was enqueued. -/
def ClockState.arrivedAt (s : ClockState σ β) (x : ScoredEvent σ) : Option Rat :=
  s.arrivals[x.seq]?

/-- **The law**: a `poll_social` with both flags clear sends, once a pending event was enqueued
`batchWaitSeconds` ago. -/
def AnsweredInTime (args : ClockArgs) (s : ClockState σ β) : Prop :=
  ∀ now, s.clock ≤ now → s.turns.relay.voiceActive = false →
    s.turns.relay.socialTurnInFlight = false →
    ∀ x ∈ s.turns.relay.scheduler.queue, ∀ t, s.arrivedAt x = some t →
      args.batchWaitSeconds ≤ now - t →
      ∃ text, (s.turns.relay.pollSocial now args.batchMinEvents args.batchWaitSeconds).2 = some text

/-- **The condition**: an event that is put into the scheduler while no window runs leaves enough
events pending, or none that came before it. -/
def KeepsWindow [Score σ] [PyLower] (args : ClockArgs) (s : ClockState σ β) (a : ClockAct β) :
    Prop :=
  ∀ now event, a = .drain now event → skipSocialEvent event args.skipLikeShare = false →
    s.turns.relay.pendingSince = none →
    args.batchMinEvents ≤ (s.turns.relay.scheduler.enqueue event).queue.length ∨
      ∀ x ∈ (s.turns.relay.scheduler.enqueue event).queue, ∀ t, s.arrivedAt x = some t → now ≤ t

/-- What links the window to the arrivals. -/
structure WindowInv [Score σ] (args : ClockArgs) (s : ClockState σ β) : Prop where
  scheduler : SchedulerInv s.turns.relay.scheduler
  /-- Every entry has its arrival recorded. -/
  recorded : s.turns.relay.scheduler.enqueued = s.arrivals.length
  /-- A running window began in the past, and unless enough events are pending, with the first. -/
  window : ∀ since, s.turns.relay.pendingSince = some since → since ≤ s.clock ∧
    (args.batchMinEvents ≤ s.turns.relay.scheduler.queue.length ∨
      ∀ x ∈ s.turns.relay.scheduler.queue, ∀ t, s.arrivedAt x = some t → since ≤ t)

section

variable [Score σ]

theorem windowInv_start (kw : List String) (threshold topK cap : Int) (t₀ : Rat) :
    WindowInv args (.start (.new kw threshold topK cap) t₀ : ClockState σ β) where
  scheduler := schedulerInv_new kw threshold topK cap
  recorded := rfl
  window := by rintro since ⟨⟩

/-- With the invariant, the gate is open for an event that waited long enough. -/
theorem WindowInv.answered (h : WindowInv args s) (hw : 0 < args.batchWaitSeconds) :
    AnsweredInTime args s := by
  intro now _ hvoice hflight x hx t ht hwait
  have hpending : s.turns.relay.scheduler.hasPending = true := by
    simp [EventScheduler.hasPending, List.ne_nil_of_mem hx]
  have hready :
      s.turns.relay.batchReady now args.batchMinEvents args.batchWaitSeconds = true := by
    simp only [Relay.batchReady, Bool.or_eq_true, Bool.and_eq_true, decide_eq_true_eq]
    cases hp : s.turns.relay.pendingSince with
    | none => exact Or.inr ⟨hw, rfl⟩
    | some since =>
      rcases (h.window since hp).2 with henough | hfirst
      · exact Or.inl henough
      · -- the window began with the event or before it
        have hle : now - t ≤ now - since := sub_le_sub_left (hfirst x hx t ht) now
        exact Or.inr ⟨hw, by simpa using hwait.trans hle⟩
  obtain ⟨turn, scheduler, -, hsends⟩ :=
    Relay.pollSocial_sends hflight hvoice hpending hready
  exact ⟨_, congrArg Prod.snd hsends⟩

/-! ## One step -/

/-- A step that leaves the scheduler and the window alone. -/
theorem WindowInv.frame (h : WindowInv args s)
    (hsched : s'.turns.relay.scheduler = s.turns.relay.scheduler)
    (hpending : s'.turns.relay.pendingSince = s.turns.relay.pendingSince)
    (harr : s'.arrivals = s.arrivals) (hclock : s.clock ≤ s'.clock) : WindowInv args s' where
  scheduler := hsched ▸ h.scheduler
  recorded := by rw [hsched, harr]; exact h.recorded
  window := by
    intro since hp
    obtain ⟨hpast, hfirst⟩ := h.window since (hpending ▸ hp)
    refine ⟨hpast.trans hclock, ?_⟩
    rw [hsched]
    simpa [ClockState.arrivedAt, harr] using hfirst

/-- A social turn takes something off the queue and closes the window. -/
theorem WindowInv.closed (h : WindowInv args s)
    (hsched : s'.turns.relay.scheduler = s.turns.relay.scheduler.nextTurn.2)
    (hpending : s'.turns.relay.pendingSince = none) (harr : s'.arrivals = s.arrivals) :
    WindowInv args s' where
  scheduler := hsched ▸ schedulerInv_nextTurn h.scheduler
  recorded := by
    rw [hsched, harr, EventScheduler.nextTurn_frame]
    exact h.recorded
  window := by simp [hpending]

variable [PyLower]

/-- An entry of the queue after an `enqueue` came now, or was pending and has the arrival it had. -/
theorem WindowInv.arrivedAt_enqueue (h : WindowInv args s) {event : SocialEvent} {now t : Rat}
    {x : ScoredEvent σ} (hx : x ∈ (s.turns.relay.scheduler.enqueue event).queue)
    (ht : (s.arrivals ++ [now])[x.seq]? = some t) :
    t = now ∨ x ∈ s.turns.relay.scheduler.queue ∧ s.arrivedAt x = some t := by
  rcases mem_sortedWith.mp ((enqueue_sublist _ event).subset hx) with hx | rfl
  · have hlt : x.seq < s.arrivals.length := h.recorded ▸ h.scheduler.fresh x hx
    rw [List.getElem?_append_left hlt] at ht
    exact Or.inr ⟨hx, ht⟩
  · have hseq : (s.turns.relay.scheduler.scored event).seq = s.arrivals.length := h.recorded
    rw [hseq, List.getElem?_concat_length] at ht
    exact Or.inl (Option.some.inj ht).symm

/-- An event that is put into the scheduler, by the condition. -/
theorem WindowInv.arrive {event : SocialEvent} (h : WindowInv args s)
    (hk : KeepsWindow args s (.drain s'.clock event))
    (hskip : skipSocialEvent event args.skipLikeShare = false) (hle : s.clock ≤ s'.clock)
    (harr : s'.arrivals = s.arrivals ++ [s'.clock])
    (hrelay : s'.turns.relay = s.turns.relay.arrive s'.clock event) : WindowInv args s' := by
  have hsched : s'.turns.relay.scheduler = s.turns.relay.scheduler.enqueue event := by
    rw [hrelay]
    exact s.turns.relay.arrive_scheduler s'.clock event
  have hpending :
      s'.turns.relay.pendingSince = some (s.turns.relay.pendingSince.getD s'.clock) := by
    rw [hrelay]
    exact s.turns.relay.arrive_pendingSince s'.clock event
  have harrived : ∀ x ∈ (s.turns.relay.scheduler.enqueue event).queue, ∀ t,
      s'.arrivedAt x = some t →
      t = s'.clock ∨ x ∈ s.turns.relay.scheduler.queue ∧ s.arrivedAt x = some t := by
    intro x hx t ht
    rw [ClockState.arrivedAt, harr] at ht
    exact h.arrivedAt_enqueue hx ht
  refine ⟨hsched ▸ schedulerInv_enqueue h.scheduler event, ?_, fun since hp => ?_⟩
  · rw [hsched, harr, List.length_append, ← h.recorded]
    rfl
  rw [hpending] at hp
  rw [hsched]
  cases hold : s.turns.relay.pendingSince with
  | none =>
    -- a fresh window
    rw [hold] at hp
    cases hp
    refine ⟨le_refl s'.clock, (hk s'.clock event rfl hskip hold).imp id fun hfirst x hx t ht => ?_⟩
    rcases harrived x hx t ht with rfl | ⟨-, ht⟩
    · exact le_refl s'.clock
    · exact hfirst x hx t ht
  | some old =>
    rw [hold] at hp
    cases hp
    obtain ⟨hpast, hwindow⟩ := h.window old hold
    have hlonger := length_le_enqueue s.turns.relay.scheduler event
    refine ⟨hpast.trans hle, hwindow.imp (by omega) fun hfirst x hx t ht => ?_⟩
    rcases harrived x hx t ht with rfl | ⟨hx, ht⟩
    · exact hpast.trans hle
    · exact hfirst x hx t ht

theorem windowInv_step (h : WindowInv args s) (hk : KeepsWindow args s a)
    (hs : clockStep args s a = some s') : WindowInv args s' := by
  obtain ⟨hle, hclock, -⟩ := clockStep_cases hs
  rw [← hclock] at hle
  rcases clockStep_relay_cases hs with
    ⟨harr, hsched, hpending, -⟩ | ⟨event, rfl, hskip, harr, hrelay, -⟩ |
      ⟨turn, scheduler, hn, harr, hrelay, -⟩
  · exact h.frame hsched hpending harr hle
  · exact h.arrive hk hskip hle harr hrelay
  · refine h.closed ?_ (by rw [hrelay]; rfl) harr
    rw [hrelay, hn]
    rfl

/-! ## Every run -/

/--
**The batch wait is bounded**: in every state of a run in which each event that is put into the
scheduler while no window runs leaves enough events pending or none that came before it, a
`poll_social` with both flags clear sends once some pending event was enqueued `batchWaitSeconds`
ago.
-/
theorem batch_wait_bounded (args : ClockArgs) (hwait : 0 < args.batchWaitSeconds)
    (kw : List String) (threshold topK cap : Int) (t₀ : Rat) {acts : List (ClockAct β)}
    {s : ClockState σ β}
    (hkeeps : Along (clockStep args) (KeepsWindow args)
      (.start (.new kw threshold topK cap) t₀ : ClockState σ β) acts)
    (hrun : run (clockStep args) (.start (.new kw threshold topK cap) t₀) acts = some s) :
    AnsweredInTime args s := by
  have hinv : WindowInv args s := by
    refine run_inv_along (P := KeepsWindow args) ?_ (windowInv_start kw threshold topK cap t₀)
      hkeeps hrun
    exact fun _ _ _ hi hk hs => windowInv_step hi hk hs
  exact hinv.answered hwait

/-- **Outside the condition an event waits too long**: an arrival that opens a window over a rest
makes the rest wait as long as itself. -/
theorem rearmed_not_answered {now : Rat} {event : SocialEvent}
    (hwait : 0 < args.batchWaitSeconds) (hs : clockStep args s (.drain now event) = some s')
    (hvoice : s.turns.relay.voiceActive = false)
    (hflight : s.turns.relay.socialTurnInFlight = false)
    (hbreaks : ¬ KeepsWindow args s (.drain now event)) : ¬ AnsweredInTime args s' := by
  simp only [KeepsWindow, not_forall, not_or, not_le] at hbreaks
  obtain ⟨_, _, ⟨⟩, hskip, hopen, hfew, x, hx, t, ht, hlt⟩ := hbreaks
  obtain ⟨hclock, harr, hrelay⟩ := clockStep_drain hs hskip
  have hsched := s.turns.relay.arrive_scheduler now event
  have hpending := s.turns.relay.arrive_pendingSince now event
  obtain ⟨hvoice', hflight'⟩ := s.turns.relay.arrive_flags now event
  rw [← hrelay] at hsched hpending hvoice' hflight'
  rw [hopen] at hpending
  intro hanswered
  -- the rest has waited long enough, and the window has not
  have hpast : args.batchWaitSeconds ≤ max now (t + args.batchWaitSeconds) - t :=
    le_sub_iff_add_le'.mpr (le_max_right _ _)
  have hyoung : max now (t + args.batchWaitSeconds) - now < args.batchWaitSeconds := by
    rw [sub_lt_iff_lt_add', max_lt_iff]
    exact ⟨lt_add_of_pos_right now hwait, by gcongr⟩
  have harrived : s'.arrivedAt x = some t := by
    have hold : x.seq < s.arrivals.length := (List.getElem?_eq_some_iff.mp ht).1
    rw [ClockState.arrivedAt, harr, List.getElem?_append_left hold]
    exact ht
  obtain ⟨text, hsent⟩ := hanswered (max now (t + args.batchWaitSeconds))
    (hclock ▸ le_max_left _ _) (hvoice'.trans hvoice) (hflight'.trans hflight) x
    (hsched ▸ hx) t harrived hpast
  rcases s'.turns.relay.pollSocial_cases (max now (t + args.batchWaitSeconds))
    args.batchMinEvents args.batchWaitSeconds with hp | ⟨_, _, -, -, hready, -⟩
  · rw [hp] at hsent
    cases hsent
  · -- the gate: too few events, and a window that is too young
    simp only [Relay.batchReady, EventScheduler.pendingCount, hsched, hpending, Option.getD_none,
      Bool.or_eq_true, Bool.and_eq_true, decide_eq_true_eq] at hready
    rcases hready with henough | ⟨-, hwaited⟩
    · omega
    · exact absurd hwaited (not_le.mpr hyoung)

end

/-! ## Two runs -/

/-- A comment that says no more than that it is one. -/
def remark : SocialEvent := { kind := .comment, userId := "a", userName := "A", text := some "hi" }

/-- Five events or ten seconds. -/
def fiveOrTen : ClockArgs :=
  { redial := downArgs, batchMinEvents := 5, batchWaitSeconds := 10, idleSeconds := 30
    skipLikeShare := true }

/-- A comment that waits alone. -/
def lonelyRemark : List (ClockAct Unit) := [.down .start, .drain 0 remark, .pollSocial 3]

theorem lonelyRemark_answered : ∃ (_ : PyLower) (s : ClockState Int Unit),
    run (clockStep fiveOrTen) (.start (.new [] 3 3 200) 0) lonelyRemark = some s ∧
      AnsweredInTime fiveOrTen s := by
  let lower : PyLower := ⟨id⟩
  refine ⟨lower, _, rfl, ?_⟩
  refine batch_wait_bounded fiveOrTen (by decide +kernel) [] 3 3 200 0 ?_
    (show run _ _ lonelyRemark = some _ from rfl)
  refine along_cons rfl (fun _ _ he => by cases he) (along_cons rfl ?_ ?_)
  · rintro _ _ ⟨⟩ - -
    right
    rintro x - t ⟨⟩
  · exact along_cons rfl (fun _ _ he => by cases he) trivial

/-- Two comments, a turn that takes one of them, a third comment and the end of the answer. -/
def leftBehind : List (ClockAct Unit) :=
  [.down .start, .drain 0 remark, .drain 0 remark, .pollSocial 10, .drain 11 remark,
    .down (.message 12 (.json .turnDone ()))]

/-- **The second comment has waited for twelve seconds of ten**, and `poll_social` sends nothing. -/
theorem left_behind_waits_on : ¬ ∀ (_ : PyLower) (args : ClockArgs), 0 < args.batchWaitSeconds →
    ∀ (kw : List String) (threshold topK cap : Int) (t₀ : Rat) (acts : List (ClockAct Unit))
      (s : ClockState Int Unit),
      run (clockStep args) (.start (.new kw threshold topK cap) t₀) acts = some s →
      AnsweredInTime args s := by
  intro h
  let lower : PyLower := ⟨id⟩
  have hend : (run (clockStep fiveOrTen) (.start (.new [] 3 3 200 : EventScheduler Int) 0)
      leftBehind).map (fun s => decide (s.clock = 12 ∧ s.arrivals = [0, 0, 11] ∧
        s.turns.relay.voiceActive = false ∧ s.turns.relay.socialTurnInFlight = false ∧
        s.turns.relay.scheduler.queue.map (·.seq) = [1, 2] ∧
        (s.turns.relay.pollSocial 12 5 10).2 = none)) = some true := by decide +kernel
  obtain ⟨s, hrun, hs⟩ := Option.map_eq_some_iff.mp hend
  obtain ⟨hclock, harr, hvoice, hflight, hqueue, hnone⟩ := of_decide_eq_true hs
  obtain ⟨x, hx, hseq⟩ := List.mem_map.mp (hqueue ▸ List.mem_cons_self)
  have harrived : s.arrivedAt x = some 0 := by simp [ClockState.arrivedAt, harr, hseq]
  obtain ⟨text, hsent⟩ := h lower fiveOrTen (by decide +kernel) [] 3 3 200 0 leftBehind s hrun 12
    (le_of_eq hclock) hvoice hflight x hx 0 harrived (by decide +kernel)
  have hsilent : (s.turns.relay.pollSocial 12 fiveOrTen.batchMinEvents
    fiveOrTen.batchWaitSeconds).2 = none := hnone
  rw [hsilent] at hsent
  cases hsent

end Livehost
