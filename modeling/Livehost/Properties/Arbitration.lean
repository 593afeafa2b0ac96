import Livehost.Gateway
import Livehost.Infra.Machine
import Livehost.Properties.Scheduler

/-!
# Voice arbitration

The two flags of the relay stand for the gateway's turn state, and any `turn_done` or `aborted`
clears them. `OwnCompletion` says that a completion looked at during an utterance is that
utterance's own. Runs that keep to it are exactly the ones in which no poller can ever speak
into an utterance (`arbitration_iff`); a barge-in leaves them, because its abort is answered
by an `aborted` that clears `voiceActive` (`barge_in_speaks_over`).
-/

namespace Livehost

open Infra

variable {σ : Type}

/-! ## The law and its condition -/

/-- The action hands a text turn to the gateway. -/
def handsTurn (s : TwoParty σ) : PartyAct → Bool
  | .pollSocial now least wait => (s.relay.pollSocial now least wait).2.isSome
  | .pollIdle now idle => (s.relay.pollIdle now idle).2.isSome
  | _ => false

/-- The action is a poll tick or the arrival of a social event. -/
def PartyAct.isLocal : PartyAct → Bool
  | .pollSocial _ _ _ | .pollIdle _ _ | .arrive _ _ => true
  | _ => false

/-- A completion that is not the one of the utterance being heard. -/
def foreign (heard : Option Nat) (m : Message Turn) : Bool :=
  m.completes && heard.isSome && (hear heard m).isSome

/-- When `pump_down` looks at a message during an utterance, a completion is the utterance's
own. -/
def OwnCompletion (s : TwoParty σ) (a : PartyAct) : Prop :=
  ∀ now m rest, a = .pump now → s.pump.pc = .receiving → s.downlink = m :: rest →
    foreign s.heard m = false

theorem ownCompletion_of_isLocal {s : TwoParty σ} {a : PartyAct} (ha : a.isLocal = true) :
    OwnCompletion s a := by
  rintro now m rest rfl
  simp [PartyAct.isLocal] at ha

/-! ## While an utterance is heard, the streamer is taken to be talking -/

/-- What steps that meet `OwnCompletion` keep. -/
structure PartyInv (s : TwoParty σ) : Prop where
  streaming : s.pump.pc.streaming = true
  active : s.heard ≠ none → s.relay.voiceActive = true

theorem partyInv_start (scheduler : EventScheduler σ) (t₀ : Rat) :
    PartyInv (.start scheduler t₀) :=
  ⟨rfl, fun h => absurd rfl h⟩

theorem PartyInv.gateway {s s' : TwoParty σ} {a : PartyAct} (h : PartyInv s)
    (hs : gatewayStep s a = some s') : PartyInv s' := by
  obtain ⟨hr, hp, hh⟩ := gatewayStep_frame hs
  exact ⟨by rw [hp]; exact h.streaming, by rw [hr, hh]; exact h.active⟩

/-- What `pump_down` makes of a message keeps the invariant unless the message is foreign. -/
theorem active_receive {r : Relay σ} {heard : Option Nat} {now : Rat} {m : Message Turn}
    (hactive : heard ≠ none → r.voiceActive = true) (hown : foreign heard m = false) :
    hear heard m ≠ none → (r.receive now m).1.voiceActive = true := by
  intro hh
  cases hc : m.completes with
  | true =>
    -- an own completion ends the utterance, and before one nothing was heard
    exfalso
    cases heard with
    | none => match m, hc, hh with
      | .json .turnDone (.voice k), _, hh => simp [hear] at hh
      | .json .turnDone (.text k), _, hh => exact hh rfl
      | .json .turnDone .control, _, hh => exact hh rfl
      | .json .aborted _, _, hh => exact hh rfl
    | some k =>
      have : (hear (some k) m).isSome = true := Option.isSome_iff_ne_none.mpr hh
      simp [foreign, hc, this] at hown
  | false =>
    match m, hc, hh with
    | .bytes _, _, hh => exact hactive hh
    | .json .speechStart _, _, _ => rfl
    | .json .other _, _, hh => exact hactive hh

/-- With the invariant, a turn is handed over only outside utterances. -/
theorem PartyInv.quiet {s : TwoParty σ} {a : PartyAct} (h : PartyInv s)
    (ha : handsTurn s a = true) : s.heard = none := by
  have hvoice : s.relay.voiceActive = false := by
    cases a with
    | pollSocial now least wait =>
      rcases s.relay.pollSocial_cases now least wait with hp | ⟨turn, sched, -, hv, -⟩
      · simp [handsTurn, hp] at ha
      · exact hv
    | pollIdle now idle =>
      rcases s.relay.pollIdle_cases now idle with hp | ⟨-, hv, -⟩
      · simp [handsTurn, hp] at ha
      · exact hv
    | _ => simp [handsTurn] at ha
  by_contra hh
  rw [h.active hh] at hvoice
  exact Bool.noConfusion hvoice

section

variable [Score σ] [PyLower]

theorem partyInv_step {s s' : TwoParty σ} {a : PartyAct} (h : PartyInv s)
    (hc : OwnCompletion s a) (hs : partyStep s a = some s') : PartyInv s' := by
  cases a with
  | pump now =>
    cases hd : s.downlink with
    | nil => simp [partyStep, hd] at hs
    | cons m rest =>
      simp only [partyStep, hd, Option.map_eq_some_iff] at hs
      obtain ⟨⟨relay, pump⟩, hstep, rfl⟩ := hs
      obtain ⟨hpc, rfl, hpc'⟩ := downStep_message hstep
      refine ⟨?_, active_receive h.active (hc now m rest rfl hpc hd)⟩
      show pump.pc.streaming = true
      rw [hpc']
      split <;> rfl
  | resume =>
    simp only [partyStep, Option.map_eq_some_iff] at hs
    obtain ⟨⟨relay, pump⟩, hstep, rfl⟩ := hs
    obtain ⟨rfl | rfl, hpc⟩ := downStep_resumed h.streaming hstep
    · exact ⟨hpc, h.active⟩
    · exact ⟨hpc, h.active⟩
  | pollSocial now least wait =>
    cases hs
    refine ⟨h.streaming, fun hh => ?_⟩
    rcases s.relay.pollSocial_cases now least wait with hp | ⟨turn, sched, -, -, -, -, hp⟩
    · exact (congrArg (·.1.voiceActive) hp).trans (h.active hh)
    · exact (congrArg (·.1.voiceActive) hp).trans (h.active hh)
  | pollIdle now idle =>
    cases hs
    refine ⟨h.streaming, fun hh => ?_⟩
    rcases s.relay.pollIdle_cases now idle with hp | ⟨-, -, -, hp⟩
    · exact (congrArg (·.1.voiceActive) hp).trans (h.active hh)
    · exact (congrArg (·.1.voiceActive) hp).trans (h.active hh)
  | arrive now event =>
    cases hs
    exact ⟨h.streaming, fun hh => (s.relay.arrive_flags now event).1.trans (h.active hh)⟩
  | begin => exact h.gateway (a := .begin) hs
  | finish => exact h.gateway (a := .finish) hs
  | take => exact h.gateway (a := .take) hs
  | complete turn => exact h.gateway (a := .complete turn) hs
  | abandon turn => exact h.gateway (a := .abandon turn) hs
  | chatter message => exact h.gateway (a := .chatter message) hs

/-! ## Runs -/

/-- **The law.** No step of the run hands a text turn over during an utterance. -/
def NeverSpeaksOver (s : TwoParty σ) (acts : List PartyAct) : Prop :=
  ∀ pre a post m, acts = pre ++ a :: post → run partyStep s pre = some m →
    handsTurn m a = true → m.heard = none

/-- The law, whatever the pollers do from any point of the run on. -/
def NeverCanSpeakOver (s : TwoParty σ) (acts : List PartyAct) : Prop :=
  ∀ pre post ext, acts = pre ++ post → (∀ a ∈ ext, a.isLocal = true) →
    NeverSpeaksOver s (pre ++ ext)

/-- **A run of own completions never speaks over the streamer**, nor does anything the pollers
add to it. -/
theorem neverSpeaksOver_of_along {s : TwoParty σ} (hi : PartyInv s) {acts : List PartyAct}
    (hc : Along partyStep OwnCompletion s acts) : NeverSpeaksOver s acts := by
  rintro pre a post m rfl hm ha
  exact (run_inv_along (fun s a s' hi hc hs => partyInv_step hi hc hs) hi
    (along_append.mp hc).1 hm).quiet ha

theorem neverCanSpeakOver_of_along {s : TwoParty σ} (hi : PartyInv s) {acts : List PartyAct}
    (hc : Along partyStep OwnCompletion s acts) : NeverCanSpeakOver s acts := by
  rintro pre post ext rfl hext
  refine neverSpeaksOver_of_along hi (along_append.mpr ⟨(along_append.mp hc).1, fun m _ => ?_⟩)
  rw [along_iff]
  rintro p a q m' rfl -
  exact ownCompletion_of_isLocal (hext a (by simp))

/-! ## A foreign completion lets the pollers speak -/

/-- The step that looks at a foreign completion ends with both flags clear, mid-utterance. -/
theorem foreign_clears {s : TwoParty σ} (now : Rat) {m : Message Turn}
    {rest : List (Message Turn)} (hpc : s.pump.pc = .receiving) (hd : s.downlink = m :: rest)
    (hf : foreign s.heard m = true) :
    ∃ s', partyStep s (.pump now) = some s' ∧ s'.heard ≠ none ∧
      s'.relay.voiceActive = false ∧ s'.relay.socialTurnInFlight = false := by
  simp only [foreign, Bool.and_eq_true] at hf
  obtain ⟨⟨hm, -⟩, hh⟩ := hf
  obtain ⟨hvoice, hflight⟩ := s.relay.receive_completes now hm
  simp only [partyStep, hd, downStep, hpc, Option.map_some, Option.some.injEq]
  exact ⟨_, rfl, Option.isSome_iff_ne_none.mp hh, hvoice, hflight⟩

/-- A gift is never lost by its own `enqueue`, whatever the scheduler's arguments. -/
theorem gift_is_pending (s : EventScheduler σ) {event : SocialEvent} (hk : event.kind = .gift) :
    s.scored event ∈ (s.enqueue event).queue := by
  by_contra hgone
  exact lost_is_unprotected (by simp) hgone (Or.inl hk)

/-- With both flags clear, a gift and a tick of `poll_social` make a turn. -/
theorem gift_is_spoken (s : TwoParty σ) (now : Rat) {event : SocialEvent}
    (hk : event.kind = .gift) (hvoice : s.relay.voiceActive = false)
    (hflight : s.relay.socialTurnInFlight = false) :
    handsTurn { s with relay := s.relay.arrive now event } (.pollSocial now 1 0) = true := by
  have hmem := gift_is_pending s.relay.scheduler hk
  have hflags := s.relay.arrive_flags now event
  have hsched := s.relay.arrive_scheduler now event
  have hpending : (s.relay.arrive now event).scheduler.hasPending = true := by
    rw [hsched, EventScheduler.hasPending, Bool.not_eq_true', List.isEmpty_eq_false_iff]
    exact List.ne_nil_of_mem hmem
  have hready : (s.relay.arrive now event).batchReady now 1 0 = true := by
    have hlen := List.length_pos_of_mem hmem
    rw [Relay.batchReady, hsched, Bool.or_eq_true]
    exact Or.inl (decide_eq_true (by unfold EventScheduler.pendingCount; omega))
  obtain ⟨turn, sched, -, hp⟩ :=
    Relay.pollSocial_sends (hflags.2.trans hflight) (hflags.1.trans hvoice) hpending hready
  show ((s.relay.arrive now event).pollSocial now 1 0).2.isSome = true
  rw [hp]
  rfl

/--
**When the relay keeps to the law.** Whatever the pollers go on to do, a run on a fresh
connection never speaks into an utterance exactly when every completion that `pump_down` looks
at during an utterance is that utterance's own.
-/
theorem arbitration_iff (scheduler : EventScheduler σ) (t₀ : Rat) (acts : List PartyAct) :
    NeverCanSpeakOver (.start scheduler t₀) acts ↔
      Along partyStep OwnCompletion (.start scheduler t₀) acts := by
  refine ⟨fun hsafe => ?_, neverCanSpeakOver_of_along (partyInv_start scheduler t₀)⟩
  rw [along_iff]
  rintro pre a post s rfl hs now m rest rfl hpc hd
  -- if the completion is foreign, a gift and a tick behind it break the law
  by_contra hf
  obtain ⟨s', hstep, hheard, hvoice, hflight⟩ :=
    foreign_clears now hpc hd (by simpa using hf)
  let gift : SocialEvent := { kind := .gift, userId := "", userName := "" }
  let s'' : TwoParty σ := { s' with relay := s'.relay.arrive now gift }
  have hext := hsafe (pre ++ [.pump now]) post [.arrive now gift, .pollSocial now 1 0]
    (by simp) (by simp [PartyAct.isLocal])
  have hrun : run partyStep (.start scheduler t₀) (pre ++ [.pump now, .arrive now gift])
      = some s'' :=
    run_append_some.mpr ⟨s, hs, run_cons_some.mpr ⟨s', hstep, rfl⟩⟩
  have hhands : handsTurn s'' (.pollSocial now 1 0) = true :=
    gift_is_spoken s' now rfl hvoice hflight
  exact hheard (hext (pre ++ [.pump now, .arrive now gift]) (.pollSocial now 1 0) [] s''
    (by simp) hrun hhands)

end

/-- A comment that nobody scores up. -/
def plainComment : SocialEvent :=
  { kind := .comment, userId := "a", userName := "A", text := some "hi" }

/-- A comment is spoken, the streamer barges in, and the `aborted` that answers the abort lets the
next comment be spoken into the same utterance. -/
def bargeInRun : List PartyAct :=
  [.arrive 0 plainComment, .pollSocial 0 1 0, .take, .begin, .pump 0, .resume, .resume, .take,
    .pump 0, .arrive 0 plainComment]

/-- **A barge-in breaks the law**: the abort's acknowledgement is a foreign completion. -/
theorem barge_in_speaks_over :
    ¬ ∀ (_ : PyLower) (scheduler : EventScheduler Int) (t₀ : Rat) (acts : List PartyAct),
      NeverSpeaksOver (.start scheduler t₀) acts := by
  intro h
  have hlaw := h ⟨id⟩ (EventScheduler.new [] 3 3 200) 0 (bargeInRun ++ [.pollSocial 0 1 0])
    bargeInRun (.pollSocial 0 1 0) [] _ rfl rfl rfl
  exact Option.some_ne_none 0 hlaw

end Livehost
