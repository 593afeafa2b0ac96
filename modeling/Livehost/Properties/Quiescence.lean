import Livehost.Gateway
import Livehost.Infra.Machine

/-!
# The relay is never silent for good

While one of its flags is up, the relay sends no turn, and only a `turn_done`, an `aborted` or the
end of a barge-in takes the flags down. So a flag that stayed up would silence the co-host for the
rest of the session. With a gateway that ends what it was asked for, it does not: as soon as the
gateway owes nothing more, both flags are down.

The gateway may give a text turn up without a word only where it received an abort behind it.

* `KeptParties` — the two parties, and the turns that may be given up
* `Owed` — what the flags wait for
* `keptStep_debt` — the parties get done with it
* `falls_quiet` — from every reachable state, and however they go on
-/

namespace Livehost

open Infra

variable {σ : Type}

/-! ## The parties -/

/-- The parties on one connection. -/
structure KeptParties (σ : Type) where
  parties : TwoParty σ
  /-- How many text turns had been received when the last abort was. -/
  abortedAt : Nat := 0

def KeptParties.start (scheduler : EventScheduler σ) (t₀ : Rat) : KeptParties σ :=
  { parties := .start scheduler t₀ }

/-- A step of a gateway that keeps to its part. -/
def keptStep [Score σ] [PyLower] (k : KeptParties σ) (a : PartyAct) : Option (KeptParties σ) :=
  match a with
  | .abandon turn =>
    if turn < k.abortedAt then
      (partyStep k.parties (.abandon turn)).map fun parties => { k with parties }
    else none
  | .take =>
    (partyStep k.parties .take).map fun parties =>
      match k.parties.uplink with
      | .abort :: _ => { parties, abortedAt := k.parties.gateway.received }
      | _ => { k with parties }
  | a => (partyStep k.parties a).map fun parties => { k with parties }

/-- A step by which the parties get done with what they are at: no new utterance, no new turn, no
poll tick and nothing from the room. -/
def PartyAct.settles : PartyAct → Bool
  | .finish | .take | .complete _ | .abandon _ | .pump _ | .resume => true
  | _ => false

/-! ## What the flags wait for -/

def Message.starts : Message Turn → Bool
  | .json .speechStart _ => true
  | _ => false

/-- A completion is on its way to the relay. -/
def Completing (downlink : List (Message Turn)) : Prop := ∃ m ∈ downlink, m.completes = true

/-- Behind every `speech_start` there is a completion, or the streamer is still talking. -/
def Answered (talking : Bool) : List (Message Turn) → Prop
  | [] => True
  | m :: rest => (m.starts = true → talking = true ∨ Completing rest) ∧ Answered talking rest

theorem Completing.concat {downlink : List (Message Turn)} (h : Completing downlink)
    (m : Message Turn) : Completing (downlink ++ [m]) := by
  obtain ⟨c, hc, hcompletes⟩ := h
  exact ⟨c, List.mem_append_left _ hc, hcompletes⟩

theorem completing_concat {m : Message Turn} (downlink : List (Message Turn))
    (h : m.completes = true) : Completing (downlink ++ [m]) :=
  ⟨m, List.mem_append_right _ (List.mem_singleton_self m), h⟩

/-- A message that begins no utterance. -/
theorem Answered.concat {talking talking' : Bool} {m : Message Turn}
    {downlink : List (Message Turn)} (h : Answered talking downlink) (hm : m.starts = false)
    (hon : talking = true → talking' = true ∨ m.completes = true) :
    Answered talking' (downlink ++ [m]) := by
  induction downlink with
  | nil => exact ⟨fun hs => absurd (hm.symm.trans hs) (by decide), trivial⟩
  | cons d downlink ih =>
    obtain ⟨hd, hrest⟩ := h
    refine ⟨fun hs => ?_, ih hrest⟩
    rcases hd hs with htalking | hcompleting
    · exact (hon htalking).imp_right (completing_concat downlink)
    · exact Or.inr (hcompleting.concat m)

/-- An utterance begins. -/
theorem Answered.begin {downlink : List (Message Turn)} (h : Answered false downlink)
    (m : Message Turn) : Answered true (downlink ++ [m]) := by
  induction downlink with
  | nil => exact ⟨fun _ => Or.inl rfl, trivial⟩
  | cons d downlink ih => exact ⟨fun _ => Or.inl rfl, ih h.2⟩

/-- **What the flags wait for**: `voice_active` for the end of an utterance, the turn flag for a
text turn that is on its way, or received behind the last abort, or for what ends it. -/
structure Owed (k : KeptParties σ) : Prop where
  streaming : k.parties.pump.pc.streaming = true
  marked : k.abortedAt ≤ k.parties.gateway.received
  answered : Answered k.parties.gateway.talking k.parties.downlink
  voice : k.parties.relay.voiceActive = true →
    k.parties.gateway.talking = true ∨ Completing k.parties.downlink
  flight : k.parties.relay.socialTurnInFlight = true →
    (∃ text, .text text ∈ k.parties.uplink) ∨
      (∃ turn ∈ k.parties.gateway.texts, k.abortedAt ≤ turn) ∨ Completing k.parties.downlink

theorem owed_start (scheduler : EventScheduler σ) (t₀ : Rat) : Owed (.start scheduler t₀) where
  streaming := rfl
  marked := Nat.le_refl _
  answered := trivial
  voice h := by cases h
  flight h := by cases h

/-- The gateway sends a message that begins no utterance. -/
theorem Owed.sends {k : KeptParties σ} (h : Owed k) {m : Message Turn} (hm : m.starts = false)
    {gateway : Gateway} (uplink : List Uplink) {abortedAt : Nat}
    (hmarked : abortedAt ≤ gateway.received)
    (htalking : k.parties.gateway.talking = true → gateway.talking = true ∨ m.completes = true)
    (hturn : m.completes = true ∨ uplink = k.parties.uplink ∧ abortedAt = k.abortedAt ∧
      gateway.texts = k.parties.gateway.texts) :
    Owed { parties := { k.parties with gateway, uplink, downlink := k.parties.downlink ++ [m] }
           abortedAt } where
  streaming := h.streaming
  marked := hmarked
  answered := h.answered.concat hm htalking
  voice hvoice := by
    rcases h.voice hvoice with hon | hcompleting
    · exact (htalking hon).imp_right (completing_concat _)
    · exact Or.inr (hcompleting.concat m)
  flight hflight := by
    rcases hturn with hcompletes | ⟨rfl, rfl, htexts⟩
    · exact Or.inr (Or.inr (completing_concat _ hcompletes))
    · rcases h.flight hflight with htext | hturn | hcompleting
      · exact Or.inl htext
      · exact Or.inr (Or.inl (htexts ▸ hturn))
      · exact Or.inr (Or.inr (hcompleting.concat m))

/-- The relay's side goes on. -/
theorem Owed.relays {k : KeptParties σ} (h : Owed k) {relay : Relay σ} {pump : Down Turn}
    {uplink : List Uplink} (hpump : pump.pc.streaming = true)
    (hvoice : relay.voiceActive = true → k.parties.relay.voiceActive = true)
    (hflight : relay.socialTurnInFlight = true →
      k.parties.relay.socialTurnInFlight = true ∨ ∃ text, .text text ∈ uplink)
    (huplink : ∀ up ∈ k.parties.uplink, up ∈ uplink) :
    Owed { k with parties := { k.parties with relay, pump, uplink } } where
  streaming := hpump
  marked := h.marked
  answered := h.answered
  voice hv := h.voice (hvoice hv)
  flight hf := by
    rcases hflight hf with hf | htext
    · exact (h.flight hf).imp_left fun ⟨text, htext⟩ => ⟨text, huplink _ htext⟩
    · exact Or.inl htext

/-- A poller hands a turn over. -/
theorem Owed.hands {k : KeptParties σ} (h : Owed k) {relay : Relay σ} (text : String)
    (hvoice : relay.voiceActive = true → k.parties.relay.voiceActive = true) :
    Owed { k with parties := { k.parties with
      relay, uplink := k.parties.uplink ++ [.text text] } } := by
  have hmem : Uplink.text text ∈ k.parties.uplink ++ [.text text] :=
    List.mem_append_right _ (List.mem_singleton_self _)
  exact h.relays h.streaming hvoice (fun _ => Or.inr ⟨text, hmem⟩)
    fun _ => List.mem_append_left _

/-- What is up behind a message was up before it, or is up because of it. -/
theorem receive_flags (r : Relay σ) (now : Rat) (m : Message Turn) :
    ((r.receive now m).1.voiceActive = true →
      m.starts = true ∨ m.completes = false ∧ r.voiceActive = true) ∧
    ((r.receive now m).1.socialTurnInFlight = true →
      m.completes = false ∧ r.socialTurnInFlight = true) := by
  match m with
  | .bytes _ => exact ⟨fun h => Or.inr ⟨rfl, h⟩, fun h => ⟨rfl, h⟩⟩
  | .json .speechStart _ => exact ⟨fun _ => Or.inl rfl, fun h => ⟨rfl, h⟩⟩
  | .json .turnDone _ => exact ⟨(fun h => by cases h), fun h => by cases h⟩
  | .json .aborted _ => exact ⟨(fun h => by cases h), fun h => by cases h⟩
  | .json .other _ => exact ⟨fun h => Or.inr ⟨rfl, h⟩, fun h => ⟨rfl, h⟩⟩

theorem Completing.tail {m : Message Turn} {rest : List (Message Turn)}
    (h : Completing (m :: rest)) (hm : m.completes = false) : Completing rest := by
  obtain ⟨c, hc, hcompletes⟩ := h
  rcases List.mem_cons.mp hc with rfl | hc
  · rw [hm] at hcompletes
    cases hcompletes
  · exact ⟨c, hc, hcompletes⟩

section

variable [Score σ] [PyLower] {k k' : KeptParties σ}

/-- `pump_down` takes a message. -/
theorem Owed.pump (h : Owed k) {now : Rat} (hs : keptStep k (.pump now) = some k') : Owed k' := by
  obtain ⟨s, hstep, rfl⟩ := Option.map_eq_some_iff.mp hs
  cases hd : k.parties.downlink with
  | nil => simp [partyStep, hd] at hstep
  | cons m rest =>
    simp only [partyStep, hd, Option.map_eq_some_iff] at hstep
    obtain ⟨⟨relay, pump⟩, hdown, rfl⟩ := hstep
    obtain ⟨-, rfl, hpc⟩ := downStep_message hdown
    obtain ⟨hvoice, hflight⟩ := receive_flags k.parties.relay now m
    have hanswered := h.answered
    rw [hd] at hanswered
    refine ⟨?_, h.marked, hanswered.2, fun hv => ?_, fun hf => ?_⟩
    · show pump.pc.streaming = true
      rw [hpc]
      split <;> rfl
    · rcases hvoice hv with hstarts | ⟨hm, hactive⟩
      · exact hanswered.1 hstarts
      · have howed := h.voice hactive
        rw [hd] at howed
        exact howed.imp_right fun hcompleting => hcompleting.tail hm
    · obtain ⟨hm, hactive⟩ := hflight hf
      have howed := h.flight hactive
      rw [hd] at howed
      rcases howed with ⟨text, htext⟩ | hturn | hcompleting
      · refine Or.inl ⟨text, ?_⟩
        show _ ∈ if _ then _ else _
        split
        · exact List.mem_append_left _ htext
        · exact htext
      · exact Or.inr (Or.inl hturn)
      · exact Or.inr (Or.inr (hcompleting.tail hm))

/-- The gateway takes what the relay sent. -/
theorem Owed.take (h : Owed k) (hs : keptStep k .take = some k') : Owed k' := by
  obtain ⟨s, hstep, rfl⟩ := Option.map_eq_some_iff.mp hs
  cases hu : k.parties.uplink with
  | nil => simp [partyStep, gatewayStep, hu] at hstep
  | cons up rest =>
    cases up with
    | text text =>
      simp only [partyStep, gatewayStep, hu, Option.some.injEq] at hstep
      subst hstep
      refine ⟨h.streaming, h.marked.trans (Nat.le_succ _), h.answered, h.voice, fun hf => ?_⟩
      rcases h.flight hf with - | ⟨turn, hturn, hle⟩ | hcompleting
      · exact Or.inr (Or.inl ⟨_, List.mem_append_right _ (List.mem_singleton_self _), h.marked⟩)
      · exact Or.inr (Or.inl ⟨turn, List.mem_append_left _ hturn, hle⟩)
      · exact Or.inr (Or.inr hcompleting)
    | abort =>
      simp only [partyStep, gatewayStep, hu, Option.some.injEq] at hstep
      subst hstep
      exact h.sends (m := .json .aborted .control) rfl rest (Nat.le_refl _) (fun hon => Or.inl hon)
        (Or.inl rfl)

/-- **Every step keeps it.** -/
theorem Owed.step {a : PartyAct} (h : Owed k) (hs : keptStep k a = some k') : Owed k' := by
  cases a with
  | pump now => exact h.pump hs
  | take => exact h.take hs
  | begin =>
    obtain ⟨s, hstep, rfl⟩ := Option.map_eq_some_iff.mp hs
    cases htalking : k.parties.gateway.talking with
    | true => simp [partyStep, gatewayStep, htalking] at hstep
    | false =>
      simp only [partyStep, gatewayStep, htalking, Bool.false_eq_true, if_false,
        Option.some.injEq] at hstep
      subst hstep
      have hanswered := h.answered
      rw [htalking] at hanswered
      refine ⟨h.streaming, h.marked, hanswered.begin _, fun _ => Or.inl rfl, fun hf => ?_⟩
      exact (h.flight hf).imp_right fun howed => howed.imp_right fun hcompleting =>
        hcompleting.concat _
  | finish =>
    obtain ⟨s, hstep, rfl⟩ := Option.map_eq_some_iff.mp hs
    simp only [partyStep, gatewayStep, Option.ite_none_right_eq_some, Option.some.injEq] at hstep
    obtain ⟨-, rfl⟩ := hstep
    exact h.sends rfl k.parties.uplink h.marked (fun _ => Or.inr rfl) (Or.inl rfl)
  | complete turn =>
    obtain ⟨s, hstep, rfl⟩ := Option.map_eq_some_iff.mp hs
    simp only [partyStep, gatewayStep, Option.ite_none_right_eq_some, Option.some.injEq] at hstep
    obtain ⟨-, rfl⟩ := hstep
    exact h.sends rfl k.parties.uplink h.marked (fun _ => Or.inr rfl) (Or.inl rfl)
  | chatter m =>
    obtain ⟨s, hstep, rfl⟩ := Option.map_eq_some_iff.mp hs
    simp only [partyStep, gatewayStep, Option.ite_none_right_eq_some, Option.some.injEq] at hstep
    obtain ⟨hchatter, rfl⟩ := hstep
    have hstarts : m.starts = false := by
      match m, hchatter with
      | .bytes _, _ => rfl
      | .json .other _, _ => rfl
    exact h.sends hstarts k.parties.uplink h.marked Or.inl (Or.inr ⟨rfl, rfl, rfl⟩)
  | abandon turn =>
    simp only [keptStep] at hs
    split at hs
    next hlt =>
      obtain ⟨s, hstep, rfl⟩ := Option.map_eq_some_iff.mp hs
      simp only [partyStep, gatewayStep, Option.ite_none_right_eq_some, Option.some.injEq] at hstep
      obtain ⟨-, rfl⟩ := hstep
      refine ⟨h.streaming, h.marked, h.answered, h.voice, fun hf => ?_⟩
      -- the turn that is owed is another one
      refine (h.flight hf).imp_right fun howed => howed.imp_left ?_
      rintro ⟨other, hother, hle⟩
      have hne : other ≠ turn := fun he => absurd (he ▸ hle) (Nat.not_le_of_lt hlt)
      exact ⟨other, (List.mem_erase_of_ne hne).mpr hother, hle⟩
    next => cases hs
  | resume =>
    obtain ⟨s, hstep, rfl⟩ := Option.map_eq_some_iff.mp hs
    simp only [partyStep, Option.map_eq_some_iff] at hstep
    obtain ⟨⟨relay, pump⟩, hdown, rfl⟩ := hstep
    obtain ⟨rfl | rfl, hpc⟩ := downStep_resumed h.streaming hdown
    · exact h.relays hpc id Or.inl fun _ => id
    · exact h.relays hpc id (fun hf => by cases hf) fun _ => id
  | pollSocial now least wait =>
    cases hs
    show Owed { k with parties := { k.parties with
      relay := (k.parties.relay.pollSocial now least wait).1
      uplink := sendText k.parties.uplink (k.parties.relay.pollSocial now least wait).2 } }
    rcases k.parties.relay.pollSocial_cases now least wait with hp | ⟨turn, sched, -, -, -, -, hp⟩
    · rw [hp]
      exact h
    · rw [hp]
      exact h.hands _ id
  | pollIdle now idle =>
    cases hs
    show Owed { k with parties := { k.parties with
      relay := (k.parties.relay.pollIdle now idle).1
      uplink := sendText k.parties.uplink (k.parties.relay.pollIdle now idle).2 } }
    rcases k.parties.relay.pollIdle_cases now idle with hp | ⟨-, -, -, hp⟩
    · rw [hp]
      exact h
    · rw [hp]
      exact h.hands _ id
  | arrive now event =>
    cases hs
    obtain ⟨hvoice, hflight⟩ := k.parties.relay.arrive_flags now event
    exact h.relays h.streaming (fun hv => hvoice ▸ hv) (fun hf => Or.inl (hflight ▸ hf)) fun _ => id

/-! ## Getting done -/

/-- How many steps a place of `pump_down` is away from the next message. -/
def DownPc.debt : DownPc Turn → Nat
  | .forwarding _ => 1
  | .aborting _ => 2
  | _ => 0

def Uplink.isText : Uplink → Bool
  | .text _ => true
  | .abort => false

/-- How many steps the parties are at most away from being done. A message is looked at and
forwarded, and a `speech_start` may be answered by an abort; an abort is taken, and its `aborted`
comes back; a text turn is taken, and ended with a message. -/
def TwoParty.debt (s : TwoParty σ) : Nat :=
  3 * s.uplink.length + s.uplink.countP Uplink.isText + 2 * s.downlink.length +
    4 * s.downlink.countP Message.starts + 3 * s.gateway.texts.length +
    3 * s.gateway.talking.toNat + s.pump.pc.debt

omit [Score σ] [PyLower] in
theorem receive_aborts_starts {r : Relay σ} {now : Rat} {m : Message Turn}
    (h : (r.receive now m).2 = true) : m.starts = true := by
  match m, h with
  | .json .speechStart _, _ => rfl

/-- A step that settles something leaves less to settle. -/
theorem keptStep_debt {a : PartyAct} (h : Owed k) (ha : a.settles = true)
    (hs : keptStep k a = some k') : k'.parties.debt < k.parties.debt := by
  cases a with
  | finish =>
    obtain ⟨s, hstep, rfl⟩ := Option.map_eq_some_iff.mp hs
    simp only [partyStep, gatewayStep, Option.ite_none_right_eq_some, Option.some.injEq] at hstep
    obtain ⟨htalking, rfl⟩ := hstep
    simp [TwoParty.debt, htalking, Message.starts]
    omega
  | take =>
    obtain ⟨s, hstep, rfl⟩ := Option.map_eq_some_iff.mp hs
    cases hu : k.parties.uplink with
    | nil => simp [partyStep, gatewayStep, hu] at hstep
    | cons up rest =>
      cases up <;> simp only [partyStep, gatewayStep, hu, Option.some.injEq] at hstep <;>
        subst hstep <;>
        simp [TwoParty.debt, hu, List.countP_cons, Uplink.isText, Message.starts] <;> omega
  | complete turn =>
    obtain ⟨s, hstep, rfl⟩ := Option.map_eq_some_iff.mp hs
    simp only [partyStep, gatewayStep, Option.ite_none_right_eq_some, Option.some.injEq] at hstep
    obtain ⟨hturn, rfl⟩ := hstep
    have hlength := List.length_erase_of_mem hturn
    have hpos := List.length_pos_of_mem hturn
    simp [TwoParty.debt, Message.starts, hlength]
    omega
  | abandon turn =>
    simp only [keptStep] at hs
    split at hs
    next =>
      obtain ⟨s, hstep, rfl⟩ := Option.map_eq_some_iff.mp hs
      simp only [partyStep, gatewayStep, Option.ite_none_right_eq_some, Option.some.injEq] at hstep
      obtain ⟨hturn, rfl⟩ := hstep
      have hlength := List.length_erase_of_mem hturn
      have hpos := List.length_pos_of_mem hturn
      simp [TwoParty.debt, hlength]
      omega
    next => cases hs
  | pump now =>
    obtain ⟨s, hstep, rfl⟩ := Option.map_eq_some_iff.mp hs
    cases hd : k.parties.downlink with
    | nil => simp [partyStep, hd] at hstep
    | cons m rest =>
      simp only [partyStep, hd, Option.map_eq_some_iff] at hstep
      obtain ⟨⟨relay, pump⟩, hdown, rfl⟩ := hstep
      obtain ⟨hreceiving, rfl, hpc⟩ := downStep_message hdown
      cases haborts : (k.parties.relay.receive now m).2 with
      | true =>
        have hstarts : m.starts = true := receive_aborts_starts haborts
        rw [haborts] at hpc
        simp [TwoParty.debt, hd, hpc, hreceiving, DownPc.debt, hstarts, Uplink.isText]
        omega
      | false =>
        rw [haborts] at hpc
        simp [TwoParty.debt, hd, hpc, hreceiving, DownPc.debt, List.countP_cons]
        omega
  | resume =>
    obtain ⟨s, hstep, rfl⟩ := Option.map_eq_some_iff.mp hs
    simp only [partyStep, Option.map_eq_some_iff] at hstep
    obtain ⟨⟨relay, pump⟩, hdown, rfl⟩ := hstep
    have hstreaming := h.streaming
    cases hpc : k.parties.pump.pc <;> rw [hpc] at hstreaming <;>
      simp only [DownPc.streaming, Bool.false_eq_true] at hstreaming <;>
      simp only [downStep, hpc, Option.some.injEq, Prod.mk.injEq, reduceCtorEq] at hdown
    all_goals
      obtain ⟨-, rfl⟩ := hdown
      simp [TwoParty.debt, hpc, DownPc.debt]
  | _ => cases ha

/-- The parties are done where nothing is left to settle. -/
theorem Owed.settled (h : Owed k) (hnone : ∀ a, a.settles = true → keptStep k a = none) :
    k.parties.uplink = [] ∧ k.parties.downlink = [] ∧ k.parties.gateway.texts = [] ∧
      k.parties.gateway.talking = false := by
  have hpc : k.parties.pump.pc = .receiving := by
    have hresume := hnone .resume rfl
    have hstreaming := h.streaming
    cases hpc : k.parties.pump.pc <;> rw [hpc] at hstreaming <;>
      simp only [DownPc.streaming, Bool.false_eq_true] at hstreaming <;>
      simp [keptStep, partyStep, downStep, hpc] at hresume
  refine ⟨?_, ?_, ?_, ?_⟩
  · have htake := hnone .take rfl
    cases hu : k.parties.uplink with
    | nil => rfl
    | cons up rest => cases up <;> simp [keptStep, partyStep, gatewayStep, hu] at htake
  · have hpump := hnone (.pump 0) rfl
    cases hd : k.parties.downlink with
    | nil => rfl
    | cons m rest => simp [keptStep, partyStep, downStep, hd, hpc] at hpump
  · cases ht : k.parties.gateway.texts with
    | nil => rfl
    | cons turn rest =>
      have hcomplete := hnone (.complete turn) rfl
      simp [keptStep, partyStep, gatewayStep, ht] at hcomplete
  · have hfinish := hnone .finish rfl
    cases htalking : k.parties.gateway.talking with
    | false => rfl
    | true => simp [keptStep, partyStep, gatewayStep, htalking] at hfinish

/--
**The relay is never silent for good.** Take any run of the two parties on a connection, with a
gateway that ends every utterance with a `turn_done`, answers every abort, and gives a text turn up
without a word only behind an abort. However the parties go on with what they are at, they are done
after a bounded number of steps; and then both flags are down, so with something pending and the
batch gate open the next tick of `poll_social` hands a turn over.
-/
theorem falls_quiet (scheduler : EventScheduler σ) (t₀ : Rat) {acts more : List PartyAct}
    (h : run keptStep (.start scheduler t₀) acts = some k)
    (hmore : ∀ a ∈ more, a.settles = true) (hgoes : run keptStep k more = some k') :
    more.length ≤ k.parties.debt ∧
      ((∀ a, a.settles = true → keptStep k' a = none) →
        k'.parties.relay.voiceActive = false ∧ k'.parties.relay.socialTurnInFlight = false ∧
        ∀ now least wait, k'.parties.relay.scheduler.hasPending = true →
          k'.parties.relay.batchReady now least wait = true →
          (k'.parties.relay.pollSocial now least wait).2.isSome = true) := by
  have howed : Owed k := run_inv (fun _ _ _ hi hs => hi.step hs) (owed_start scheduler t₀) h
  obtain ⟨howed', hfew⟩ := run_descends (I := Owed) (p := fun a => a.settles = true)
    (φ := fun k => k.parties.debt) (fun _ _ _ hi ha hs => ⟨hi.step hs, keptStep_debt hi ha hs⟩)
    howed hmore hgoes
  refine ⟨by omega, fun hnone => ?_⟩
  obtain ⟨huplink, hdownlink, htexts, htalking⟩ := howed'.settled hnone
  have hvoice : k'.parties.relay.voiceActive = false := by
    by_contra hactive
    rcases howed'.voice (Bool.not_eq_false _ ▸ hactive) with hon | ⟨m, hm, -⟩
    · rw [htalking] at hon
      cases hon
    · rw [hdownlink] at hm
      cases hm
  have hflight : k'.parties.relay.socialTurnInFlight = false := by
    by_contra hactive
    rcases howed'.flight (Bool.not_eq_false _ ▸ hactive) with
      ⟨text, htext⟩ | ⟨turn, hturn, -⟩ | ⟨m, hm, -⟩
    · rw [huplink] at htext
      cases htext
    · rw [htexts] at hturn
      cases hturn
    · rw [hdownlink] at hm
      cases hm
  refine ⟨hvoice, hflight, fun now least wait hpending hready => ?_⟩
  obtain ⟨turn, sched, -, hp⟩ := Relay.pollSocial_sends hflight hvoice hpending hready
  rw [hp]
  rfl

end

/-- The streamer talks over a turn that the gateway has not taken yet. -/
def talkedOver : List PartyAct :=
  [ .arrive 0 { kind := .comment, userId := "a", userName := "A", text := some "hi" },
    .pollSocial 0 1 0, .begin, .pump 1 ]

/-- The turn and the abort are taken, and everything is ended. -/
def getsDone : List PartyAct :=
  [ .resume, .resume, .take, .take, .finish, .complete 0, .pump 2, .resume, .pump 2, .resume,
    .pump 2, .resume ]

/-- Nothing is on its way, and nothing is owed. -/
def TwoParty.idle (s : TwoParty σ) : Bool :=
  s.uplink.isEmpty && s.downlink.isEmpty && s.gateway.texts.isEmpty && !s.gateway.talking &&
    match s.pump.pc with
    | .receiving => true
    | _ => false

theorem keptStep_idle [Score σ] [PyLower] {k : KeptParties σ} (h : k.parties.idle = true)
    {a : PartyAct} (ha : a.settles = true) : keptStep k a = none := by
  simp only [TwoParty.idle, Bool.and_eq_true, List.isEmpty_iff, Bool.not_eq_true'] at h
  obtain ⟨⟨⟨⟨huplink, hdownlink⟩, htexts⟩, htalking⟩, hpc⟩ := h
  cases a with
  | finish => simp [keptStep, partyStep, gatewayStep, htalking]
  | take => simp [keptStep, partyStep, gatewayStep, huplink]
  | complete turn => simp [keptStep, partyStep, gatewayStep, htexts]
  | abandon turn => simp [keptStep, partyStep, gatewayStep, htexts]
  | pump now => simp [keptStep, partyStep, hdownlink]
  | resume =>
    cases hplace : k.parties.pump.pc <;> simp_all [keptStep, partyStep, downStep]
  | _ => cases ha

/-- Both flags are down again. -/
theorem talkedOver_falls_quiet : ∃ (_ : PyLower) (k k' : KeptParties Int),
    run keptStep (.start (EventScheduler.new [] 3 3 200) 0) talkedOver = some k ∧
      run keptStep k getsDone = some k' ∧ k'.parties.relay.voiceActive = false ∧
      k'.parties.relay.socialTurnInFlight = false := by
  let lower : PyLower := ⟨id⟩
  let start : KeptParties Int := .start (EventScheduler.new [] 3 3 200) 0
  have hidle : ((run keptStep start (talkedOver ++ getsDone)).map (·.parties.idle)) = some true :=
    rfl
  obtain ⟨k', hboth, hidle⟩ := Option.map_eq_some_iff.mp hidle
  obtain ⟨k, hrun, hgoes⟩ := run_append_some.mp hboth
  obtain ⟨-, hquiet⟩ := falls_quiet (EventScheduler.new [] 3 3 200) 0 hrun (by decide) hgoes
  obtain ⟨hvoice, hflight, -⟩ := hquiet fun a ha => keptStep_idle hidle ha
  exact ⟨lower, k, k', hrun, hgoes, hvoice, hflight⟩

end Livehost
