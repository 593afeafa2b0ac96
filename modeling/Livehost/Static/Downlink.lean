import Livehost.Static.Audio

/-!
# The downlink of the page

`static/livehost.js`: the part of `onmessage` that is about audio, with `lhFeedOpus`,
`lhInitOpusDecoder` and `lhResetOpus`. A binary frame is a piece of the promise chain, or, once the
server has announced Opus, a packet for the decoder; both start buffers behind the ones before.

A decoder calls `output` in the order of its packets, at most once for each of them. It calls
nothing once it is closed: by `close()`, or because it fails, after which it calls `error`. The
browser has a decoder wherever Opus is announced, and the sample rates it is given are valid.
-/

namespace Livehost

/-- A chunk that `lhFeedOpus` hands to a decoder. -/
structure OpusPacket where
  decoder : Nat
  timestamp : Nat
  deriving DecidableEq, Repr

/-- An `AudioDecoder`. -/
structure OpusDecoder where
  sampleRate : Nat
  /-- The packets whose output is still to come. -/
  pending : List Nat := []
  closed : Bool := false
  deriving DecidableEq, Repr

/-- Decoders and packets are numbered in the order they are made. -/
structure LhDownlink where
  audio : LhAudio := {}
  outCodec : String := "wav"
  outRate : Nat := 24000
  opusDec : Option Nat := none
  opusTs : Nat := 0
  decoders : List OpusDecoder := []
  packets : List OpusPacket := []
  /-- The buffer sources of decoders: what stands for a link there is the number of a packet. -/
  opusSources : List Nat := []
  deriving DecidableEq, Repr

/-- The messages that `onmessage` reads anything about audio in. -/
inductive DownlinkMessage
  | sessionStarted (outputSampleRate : Option Nat)
  | audioStart (codec : Option String) (sampleRate : Option Nat)
  | aborted
  deriving DecidableEq, Repr

inductive DownlinkAct
  /-- `startLhSession`, up to its first await. -/
  | startLhSession
  /-- `startLhSession`, where it has settled whether Opus is asked for. -/
  | opusMode (on : Bool)
  /-- A click on Stop. -/
  | stop
  | message (m : DownlinkMessage)
  | frame
  /-- A step of a link, of a buffer source or of the clock. -/
  | audio (a : AudioAct)
  /-- The `output` callback, and whether it ends in its `catch`. -/
  | output (decoder packet : Nat) (buffer : Option AudioBuffer)
  /-- The `error` callback. -/
  | error (decoder : Nat)
  deriving DecidableEq, Repr

namespace LhDownlink

/-- `if (rate) lh.outRate = rate`. -/
def setOutRate (s : LhDownlink) (rate : Option Nat) : LhDownlink :=
  { s with outRate := (rate.filter (· ≠ 0)).getD s.outRate }

/-- `dec.close()`, and nothing where it is closed. -/
def closeDecoder (s : LhDownlink) (d : Nat) : LhDownlink :=
  { s with decoders := s.decoders.modify d fun dec => { dec with pending := [], closed := true } }

/-- `lh.opusDec` is there and not closed. -/
def hasDecoder (s : LhDownlink) : Bool :=
  match s.opusDec.bind fun d => s.decoders[d]? with
  | some dec => !dec.closed
  | none => false

/-- What closes the decoder that was there. -/
def closeOpusDec (s : LhDownlink) : LhDownlink :=
  match s.opusDec with
  | some d => s.closeDecoder d
  | none => s

def lhResetOpus (s : LhDownlink) : LhDownlink :=
  { s.closeOpusDec with opusDec := none, opusTs := 0 }

def lhInitOpusDecoder (s : LhDownlink) : LhDownlink :=
  let s := s.closeOpusDec
  { s with
    audio := s.audio.lhAudioCtx
    opusTs := 0
    decoders := s.decoders ++ [{ sampleRate := s.outRate }]
    opusDec := some s.decoders.length }

/-- `lh.opusDec.decode(…)`. -/
def decodeOpus (s : LhDownlink) (d : Nat) : LhDownlink :=
  { s with
    decoders := s.decoders.modify d fun dec =>
      { dec with pending := dec.pending ++ [s.packets.length] }
    packets := s.packets ++ [{ decoder := d, timestamp := s.opusTs }]
    opusTs := s.opusTs + 60000 }

def lhFeedOpus (s : LhDownlink) : LhDownlink :=
  let s := if s.hasDecoder then s else s.lhInitOpusDecoder
  match s.opusDec with
  | some d => s.decodeOpus d
  | none => s

def lhStopAudio (s : LhDownlink) : LhDownlink :=
  { s.lhResetOpus with audio := s.audio.lhStopAudio }

def onMessage (s : LhDownlink) : DownlinkMessage → LhDownlink
  | .sessionStarted rate => s.setOutRate rate
  | .audioStart codec rate =>
    let s := { s with outCodec := (codec.filter (· ≠ "")).getD "wav" }
    if codec = some "opus" then s.setOutRate rate else s
  | .aborted => s.lhStopAudio

def onFrame (s : LhDownlink) : LhDownlink :=
  if s.outCodec = "opus" then s.lhFeedOpus
  else { s with audio := s.audio.lhEnqueueAudioBytes }

/-- `lhScheduleBuffer`, from the `output` callback. -/
def scheduleOpus (s : LhDownlink) (packet : Nat) (buffer : AudioBuffer) : LhDownlink :=
  { s with
    audio := s.audio.lhScheduleBuffer packet buffer
    opusSources := s.opusSources ++ [s.audio.started.length] }

/-- The outputs of the packets up to this one are not to come any more. -/
def takeOutput (s : LhDownlink) (d packet : Nat) : LhDownlink :=
  { s with
    decoders := s.decoders.modify d fun dec =>
      { dec with pending := dec.pending.filter (packet < ·) } }

/-- The state after an action, `none` where it cannot happen. -/
def next (s : LhDownlink) : DownlinkAct → Option LhDownlink
  | .startLhSession => some { s.lhStopAudio with outCodec := "wav" }
  | .opusMode on => some (if on then { s with outRate := 24000 } else s).lhResetOpus
  | .stop => some s.lhStopAudio
  | .message m => some (s.onMessage m)
  | .frame => some s.onFrame
  -- these two are called by the actions above only
  | .audio .lhEnqueueAudioBytes | .audio .lhStopAudio => none
  | .audio a => do
    let audio ← s.audio.next a
    some { s with audio }
  | .output d packet buffer => do
    let dec ← s.decoders[d]?
    if packet ∈ dec.pending then
      match buffer with
      | some buffer => some ((s.takeOutput d packet).scheduleOpus packet buffer)
      | none => some (s.takeOutput d packet)
    else none
  | .error d => do
    let dec ← s.decoders[d]?
    if dec.closed then none else some (s.closeDecoder d)

end LhDownlink

end Livehost
