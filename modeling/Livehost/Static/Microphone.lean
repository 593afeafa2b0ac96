import Livehost.Infra.Machine
import Livehost.Static.AudioCapture
import Livehost.Static.Downlink
import Livehost.Static.Session

/-!
# The microphone of the page

`static/livehost.js` with `createMicCapture` of `static/audio-capture.js`: the session of the page
and its downlink together, the captures that record, and the `onframe` that `startLhSession` gives
each of them, with `lhIsSpeaking`.

A capture is named after the socket whose `onopen` starts it. From the moment its `start()` resolves
until its `stop()` its processor gives one block of samples after the other; where `start()` rejects
it gives none. `onframe` reads `lh.ws` and `lh.nextTime` when a block comes, whatever session its
own capture is of.
-/

namespace Livehost

open Infra

/-- `STREAM_SAMPLE_RATE`, as the number the samples are brought down to. -/
def streamRate : Rat := 16000

def LhAudio.lhIsSpeaking (s : LhAudio) : Bool :=
  s.ctx.isSome && decide (s.currentTime + 3 / 20 < s.nextTime)

/-- A call of `lh.ws.send` in `onframe`. -/
structure MicFrame where
  capture : Nat
  socket : Nat
  pcm : List Int
  deriving DecidableEq, Repr

/-- The object `lh`, with the captures and what they sent. -/
structure Lh where
  page : LhPage := {}
  downlink : LhDownlink := {}
  /-- The captures whose processors run. -/
  recording : List Nat := []
  sent : List MicFrame := []
  deriving DecidableEq, Repr

inductive LhAct
  /-- A step of the session, and what `lh.opusMode` becomes if it is a warm-up that succeeds. -/
  | page (a : PageAct) (opusMode : Bool)
  /-- A step of the downlink alone. -/
  | downlink (a : DownlinkAct)
  /-- `onaudioprocess` of a capture, with the block and the rate of its context. -/
  | processed (capture : Nat) (input : List Rat) (sampleRate : Rat)
  deriving DecidableEq, Repr

/-- What a step of the session does to the downlink. -/
def PageAct.onDownlink (opusMode : Bool) : PageAct → List DownlinkAct
  | .start _ => [.startLhSession]
  | .stop => [.stop]
  | .warmed _ (.ok _ _) => [.opusMode opusMode]
  | _ => []

namespace Lh

/-- `lh.ws`, where its `readyState` is `OPEN`. -/
def openWs (s : Lh) : Option Nat :=
  s.page.ws.filter fun i => s.page.sockets[i]?.any fun w => w.readyState = .opened

def onframe (s : Lh) (capture : Nat) (pcm : List Int) : Lh :=
  match s.openWs with
  | none => s
  | some socket =>
    if s.downlink.audio.lhIsSpeaking then s
    else { s with sent := s.sent ++ [{ capture, socket, pcm }] }

/-- The captures whose processors run after a step of the session. -/
def recordingAfter (s : Lh) : PageAct → List Nat
  | .captured i => s.recording ++ [i]
  -- `lh.capture.stop()`
  | .stop => s.recording.filter fun i => some i ≠ s.page.capture
  | _ => s.recording

/-- The state after an action, `none` where it cannot happen. -/
def next (ticket : String) (s : Lh) : LhAct → Option Lh
  | .page a opusMode => do
    let page ← s.page.next ticket a
    let downlink ← run LhDownlink.next s.downlink (a.onDownlink opusMode)
    some { s with page, downlink, recording := s.recordingAfter a }
  -- these are parts of the session's steps
  | .downlink .startLhSession | .downlink (.opusMode _) | .downlink .stop => none
  | .downlink a => do
    let downlink ← s.downlink.next a
    some { s with downlink }
  | .processed capture input sampleRate =>
    if capture ∈ s.recording then
      some (s.onframe capture (downsampleToPcm16 input sampleRate streamRate))
    else none

end Lh

end Livehost
