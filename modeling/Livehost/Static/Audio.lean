import Mathlib.Algebra.Order.Ring.Rat

/-!
# The reply audio of the page

`static/livehost.js`: `lhEnqueueAudioBytes`, `lhScheduleBuffer` and `lhStopAudio`. A reply comes in
pieces; each is a link of a promise chain that decodes its bytes and starts them where the piece
before it ends.

A link may begin when the promise it was chained to has settled; its `catch` lets every link
settle. `lhStopAudio` leaves the links alone: it replaces the chain, and the generation a link
closes over tells it from the later ones. Times are rational numbers, `|| 0` and `|| []` change
nothing about them. The decoder of Opus packets is not part of this.
-/

namespace Livehost

/-- A decoded `AudioBuffer`; an empty one cannot be made. -/
structure AudioBuffer where
  length : Nat
  sampleRate : Nat
  length_pos : 0 < length
  sampleRate_pos : 0 < sampleRate
  deriving DecidableEq, Repr

def AudioBuffer.duration (buf : AudioBuffer) : Rat := buf.length / buf.sampleRate

inductive LinkPhase
  | waiting
  /-- `await ctx.resume()`. -/
  | resuming
  /-- `await ctx.decodeAudioData(bytes)`. -/
  | decoding
  | settled
  deriving DecidableEq, Repr

/-- A call of `lhEnqueueAudioBytes`. -/
structure AudioLink where
  /-- The link whose promise it is chained to. -/
  chainedTo : Option Nat
  gen : Nat
  phase : LinkPhase := .waiting
  deriving DecidableEq, Repr

/-- A buffer source, started. -/
structure AudioSource where
  /-- The link that decoded its buffer. -/
  link : Nat
  buffer : AudioBuffer
  start : Rat
  deriving DecidableEq, Repr

/-- Links and buffer sources are numbered in the order they are made. -/
structure LhAudio where
  /-- `currentTime` of `lh.ctx`. -/
  ctx : Option Rat := none
  nextTime : Rat := 0
  sources : List Nat := []
  /-- The last link of `lh.chain`. -/
  chain : Option Nat := none
  audioGen : Nat := 0
  links : List AudioLink := []
  started : List AudioSource := []
  /-- The buffer sources `stop()` was called on, and those whose `onended` ran. -/
  stopped : List Nat := []
  ended : List Nat := []
  deriving DecidableEq, Repr

inductive AudioAct
  | lhEnqueueAudioBytes
  /-- A link begins, and finds the context suspended or not. -/
  | begin (link : Nat) (suspended : Bool)
  | resumed (link : Nat)
  | resumeFailed (link : Nat)
  | decoded (link : Nat) (buffer : AudioBuffer)
  | decodeFailed (link : Nat)
  | ended (source : Nat)
  /-- The clock of the context goes on. -/
  | advance (seconds : Rat)
  | lhStopAudio
  deriving DecidableEq, Repr

namespace LhAudio

def lhAudioCtx (s : LhAudio) : LhAudio := { s with ctx := some (s.ctx.getD 0) }

def currentTime (s : LhAudio) : Rat := s.ctx.getD 0

def lhStopAudio (s : LhAudio) : LhAudio :=
  { s with
    audioGen := s.audioGen + 1
    stopped := s.stopped ++ s.sources
    sources := []
    nextTime := 0
    chain := none }

def lhEnqueueAudioBytes (s : LhAudio) : LhAudio :=
  { s with
    links := s.links ++ [{ chainedTo := s.chain, gen := s.audioGen }]
    chain := some s.links.length }

def lhScheduleBuffer (s : LhAudio) (link : Nat) (buffer : AudioBuffer) : LhAudio :=
  let s := s.lhAudioCtx
  let start := max (s.currentTime + 1 / 20) s.nextTime
  { s with
    started := s.started ++ [{ link, buffer, start }]
    nextTime := start + buffer.duration
    sources := s.sources ++ [s.started.length] }

def onended (s : LhAudio) (source : Nat) : LhAudio :=
  { s with
    ended := source :: s.ended
    sources := s.sources.filter fun i => i ≠ source }

/-! ## A link -/

/-- The promise a link is chained to has settled. -/
def Settled (s : LhAudio) : Option Nat → Prop
  | none => True
  | some i => ∃ l ∈ s.links[i]?, l.phase = .settled

instance (s : LhAudio) (i : Option Nat) : Decidable (s.Settled i) :=
  match i with
  | none => isTrue trivial
  | some i =>
    match hl : s.links[i]? with
    | none => isFalse (by simp [Settled, hl])
    | some l => decidable_of_iff (l.phase = .settled) (by simp [Settled, hl])

def setPhase (s : LhAudio) (i : Nat) (phase : LinkPhase) : LhAudio :=
  { s with links := s.links.modify i fun l => { l with phase } }

/-- The state after `f`, where the link is in the phase. -/
def inPhase (s : LhAudio) (i : Nat) (phase : LinkPhase) (f : AudioLink → LhAudio) :
    Option LhAudio := do
  let l ← s.links[i]?
  if l.phase = phase then some (f l) else none

/-- The state after an action, `none` where it cannot happen. -/
def next (s : LhAudio) : AudioAct → Option LhAudio
  | .lhEnqueueAudioBytes => some s.lhEnqueueAudioBytes
  | .lhStopAudio => some s.lhStopAudio
  | .begin i suspended => do
    let l ← s.links[i]?
    if l.phase = .waiting ∧ s.Settled l.chainedTo then
      some (s.lhAudioCtx.setPhase i (if suspended then .resuming else .decoding))
    else none
  | .resumed i => s.inPhase i .resuming fun _ => s.setPhase i .decoding
  | .resumeFailed i => s.inPhase i .resuming fun _ => s.setPhase i .settled
  | .decoded i buffer => s.inPhase i .decoding fun l =>
    -- superseded by a barge-in while decoding
    if l.gen ≠ s.audioGen then s.setPhase i .settled
    else (s.setPhase i .settled).lhScheduleBuffer i buffer
  | .decodeFailed i => s.inPhase i .decoding fun _ => s.setPhase i .settled
  | .ended i => if i < s.started.length ∧ i ∉ s.ended then some (s.onended i) else none
  | .advance seconds => do
    let time ← s.ctx
    if 0 ≤ seconds then some { s with ctx := some (time + seconds) } else none

end LhAudio

end Livehost
