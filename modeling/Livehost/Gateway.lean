import Livehost.Api.Down

/-!
# The relay and the gateway

Two parties with a FIFO channel each way, on one unbroken connection. The gateway's side is the
contract `tests/fake_gateway.py` stands for: `speech_start` when the streamer begins an
utterance, one `turn_done` when that voice turn ends, one `aborted` for every abort received,
and at most one `turn_done` for a text turn, at any time after it was received. The relay's
side is the model of `relay.py`.

The `body` of a message says which turn it belongs to. The gateway writes it and the relay
forwards it unread; `heard` reads it, to say which utterance the streamer is in as far as
`pump_down` has got.
-/

namespace Livehost

variable {σ : Type}

/-- The turn an event of the gateway belongs to. -/
inductive Turn
  | voice (utterance : Nat)
  | text (turn : Nat)
  | control
  deriving DecidableEq

/-- What the relay sends up: a text turn or an abort. -/
inductive Uplink
  | text (formatted : String)
  | abort

structure Gateway where
  /-- How many utterances have begun. -/
  utterances : Nat := 0
  /-- The streamer is in utterance `utterances - 1`. -/
  talking : Bool := false
  /-- How many text turns were received. -/
  received : Nat := 0
  /-- The text turns that still owe a `turn_done`. -/
  texts : List Nat := []

structure TwoParty (σ : Type) where
  relay : Relay σ
  pump : Down Turn := { pc := .receiving, attempt := 1 }
  uplink : List Uplink := []
  downlink : List (Message Turn) := []
  gateway : Gateway := {}
  /-- The utterance whose `speech_start` `pump_down` has looked at and whose `turn_done` it has
  not. -/
  heard : Option Nat := none

/-- A message that is none of the three events the relay reads. -/
def Message.isChatter {β : Type} : Message β → Bool
  | .bytes _ | .json .other _ => true
  | _ => false

inductive PartyAct
  /-- The streamer begins an utterance. -/
  | begin
  /-- The utterance ends. -/
  | finish
  /-- The gateway takes a message from its channel. -/
  | take
  /-- The gateway completes a text turn. -/
  | complete (turn : Nat)
  /-- The gateway gives a text turn up without a word. -/
  | abandon (turn : Nat)
  /-- The gateway emits anything else. -/
  | chatter (message : Message Turn)
  /-- `pump_down` takes a message from its channel. -/
  | pump (now : Rat)
  /-- What `pump_down` awaits returns. -/
  | resume
  | pollSocial (now : Rat) (batchMinEvents : Int) (batchWaitSeconds : Rat)
  | pollIdle (now idleSeconds : Rat)
  | arrive (now : Rat) (event : SocialEvent)

/-- `heard` after `pump_down` looked at a message. -/
def hear (heard : Option Nat) : Message Turn → Option Nat
  | .json .speechStart (.voice k) => some k
  | .json .turnDone (.voice k) => if heard = some k then none else heard
  | _ => heard

/-- The text a poller handed over goes up. -/
def sendText (uplink : List Uplink) : Option String → List Uplink
  | none => uplink
  | some text => uplink ++ [.text text]

/-- The gateway's step. -/
def gatewayStep (s : TwoParty σ) : PartyAct → Option (TwoParty σ)
  | .begin =>
    -- one utterance at a time
    if s.gateway.talking then none
    else
      some { s with
        gateway := { s.gateway with utterances := s.gateway.utterances + 1, talking := true }
        downlink := s.downlink ++ [.json .speechStart (.voice s.gateway.utterances)] }
  | .finish =>
    if s.gateway.talking then
      some { s with
        gateway := { s.gateway with talking := false }
        downlink := s.downlink ++ [.json .turnDone (.voice (s.gateway.utterances - 1))] }
    else none
  | .take =>
    match s.uplink with
    | [] => none
    | .text _ :: uplink =>
      some { s with
        uplink
        gateway := { s.gateway with
          received := s.gateway.received + 1
          texts := s.gateway.texts ++ [s.gateway.received] } }
    | .abort :: uplink =>
      some { s with uplink, downlink := s.downlink ++ [.json .aborted .control] }
  | .complete turn =>
    if turn ∈ s.gateway.texts then
      some { s with
        gateway := { s.gateway with texts := s.gateway.texts.erase turn }
        downlink := s.downlink ++ [.json .turnDone (.text turn)] }
    else none
  | .abandon turn =>
    if turn ∈ s.gateway.texts then
      some { s with gateway := { s.gateway with texts := s.gateway.texts.erase turn } }
    else none
  | .chatter message =>
    if message.isChatter then some { s with downlink := s.downlink ++ [message] } else none
  | _ => none

/-- The gateway's steps do not touch the relay's side. -/
theorem gatewayStep_frame {s s' : TwoParty σ} {a : PartyAct} (h : gatewayStep s a = some s') :
    s'.relay = s.relay ∧ s'.pump = s.pump ∧ s'.heard = s.heard := by
  unfold gatewayStep at h
  split at h <;> try split at h
  all_goals cases h <;> exact ⟨rfl, rfl, rfl⟩

def partyStep [Score σ] [PyLower] (s : TwoParty σ) : PartyAct → Option (TwoParty σ)
  | .pump now =>
    match s.downlink with
    | [] => none
    | message :: downlink =>
      (downStep downArgs s.relay s.pump (.message now message)).map fun (relay, pump) =>
        { s with
          relay, pump, downlink
          uplink := if (s.relay.receive now message).2 then s.uplink ++ [.abort] else s.uplink
          heard := hear s.heard message }
  | .resume =>
    (downStep downArgs s.relay s.pump .resumed).map fun (relay, pump) => { s with relay, pump }
  | .pollSocial now least wait =>
    let (relay, text) := s.relay.pollSocial now least wait
    some { s with relay, uplink := sendText s.uplink text }
  | .pollIdle now idle =>
    let (relay, text) := s.relay.pollIdle now idle
    some { s with relay, uplink := sendText s.uplink text }
  | .arrive now event => some { s with relay := s.relay.arrive now event }
  | a => gatewayStep s a

/-- The two parties on a fresh connection. -/
def TwoParty.start (scheduler : EventScheduler σ) (t₀ : Rat) : TwoParty σ :=
  { relay := Relay.new scheduler t₀ }

end Livehost
