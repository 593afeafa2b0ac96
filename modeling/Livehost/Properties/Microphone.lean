import Livehost.Properties.PageSession
import Livehost.Properties.ReplyFrames
import Livehost.Static.Microphone

/-!
# Who hears the microphone

`lhIsSpeaking` knows of the reply audio `lh.nextTime` alone, a number that is written where a buffer
is started and where all are stopped. It is the end of the last buffer that is still to be heard, or
it is past, as long as the browser ends a buffer in its time.

A capture is stopped by the click on Stop that finds it in `lh.capture`, and by nothing else. The
next session does not ask whether one still records.

* `Timed` — `lh.nextTime` and the buffer sources
* `lhIsSpeaking_iff` — what the gate says
* `Miked` — `lh.capture` and the captures that record
* `mic_frames` — what is sent in a run, and when it is the session's own
-/

namespace Livehost

open Infra

/-! ## The clock of the reply audio -/

namespace LhAudio

variable {s s' : LhAudio}

/-- A buffer source is still to be heard at the time, or later. -/
def HeardPast (s : LhAudio) (time : Rat) : Prop :=
  ∃ i src, s.started[i]? = some src ∧ i ∉ s.stopped ∧ time < src.finish

/-- What the page knows of the clock, of `lh.nextTime` and of the buffer sources. -/
structure Timed (s : LhAudio) : Prop where
  ctx : s.started = [] ∨ s.ctx.isSome = true
  clock : 0 ≤ s.currentTime
  sources : ∀ i ∈ s.sources, i < s.started.length ∧ i ∉ s.stopped
  stopped : ∀ i ∈ s.stopped, i < s.started.length
  /-- What is neither stopped nor over is in `lh.sources`, and ends before `lh.nextTime`. -/
  playing : ∀ i src, s.started[i]? = some src → i ∈ s.stopped ∨ src.finish ≤ s.currentTime ∨
    i ∈ s.sources ∧ src.finish ≤ s.nextTime
  /-- `lh.nextTime` is the end of something, unless it is past. -/
  nextTime : s.nextTime ≤ s.currentTime ∨
    ∃ i src, s.started[i]? = some src ∧ i ∈ s.sources ∧ src.finish = s.nextTime

/-- A step that starts, stops and ends nothing. -/
structure Passes (s s' : LhAudio) : Prop where
  started : s'.started = s.started
  sources : s'.sources = s.sources
  stopped : s'.stopped = s.stopped
  nextTime : s'.nextTime = s.nextTime
  clock : s.currentTime ≤ s'.currentTime
  ctx : s.ctx.isSome = true → s'.ctx.isSome = true

theorem Passes.rfl : Passes s s := ⟨Eq.refl _, Eq.refl _, Eq.refl _, Eq.refl _, le_refl _, id⟩

theorem Passes.lhAudioCtx (s : LhAudio) : Passes s s.lhAudioCtx :=
  ⟨Eq.refl _, Eq.refl _, Eq.refl _, Eq.refl _, le_refl _, fun _ => Eq.refl _⟩

theorem Timed.passes (h : Timed s) (hp : Passes s s') : Timed s' := by
  refine ⟨?_, h.clock.trans hp.clock, ?_, ?_, ?_, ?_⟩
  · rw [hp.started]
    exact h.ctx.imp_right hp.ctx
  · rw [hp.sources, hp.started, hp.stopped]
    exact h.sources
  · rw [hp.stopped, hp.started]
    exact h.stopped
  · intro i src hsrc
    rw [hp.started] at hsrc
    rw [hp.stopped, hp.sources, hp.nextTime]
    exact (h.playing i src hsrc).imp_right (Or.imp_left fun hover => hover.trans hp.clock)
  · rw [hp.started, hp.sources, hp.nextTime]
    exact h.nextTime.imp_left fun hpast => hpast.trans hp.clock

/-- **A buffer starts**: it ends last. -/
theorem Timed.schedule (h : Timed s) (link : Nat) (buffer : AudioBuffer) :
    Timed (s.lhScheduleBuffer link buffer) := by
  have hlast : (s.lhScheduleBuffer link buffer).nextTime
      = max (s.currentTime + 1 / 20) s.nextTime + buffer.duration := rfl
  have hlater : s.nextTime ≤ (s.lhScheduleBuffer link buffer).nextTime := by
    rw [hlast]
    exact (le_max_right _ _).trans (le_add_of_nonneg_right buffer.duration_pos.le)
  have hlength : (s.lhScheduleBuffer link buffer).started.length = s.started.length + 1 := by
    simp [lhScheduleBuffer, LhAudio.lhAudioCtx]
  refine ⟨Or.inr rfl, h.clock, ?_, ?_, ?_, ?_⟩
  · intro i hi
    rw [hlength]
    rcases List.mem_append.mp hi with hi | hi
    · obtain ⟨hlt, hnot⟩ := h.sources i hi
      exact ⟨by omega, hnot⟩
    · cases List.mem_singleton.mp hi
      show s.started.length < s.started.length + 1 ∧ s.started.length ∉ s.stopped
      exact ⟨Nat.lt_succ_self _, fun hi => absurd (h.stopped _ hi) (Nat.lt_irrefl _)⟩
  · intro i hi
    rw [hlength]
    have hlt : i < s.started.length := h.stopped i hi
    omega
  · intro i src hsrc
    rcases getElem?_concat_iff.mp hsrc with ⟨rfl, rfl⟩ | hsrc
    · exact Or.inr (Or.inr ⟨List.mem_append_right _ (List.mem_singleton_self _), le_refl _⟩)
    · refine (h.playing i src hsrc).imp_right (Or.imp_right ?_)
      rintro ⟨hi, hle⟩
      exact ⟨List.mem_append_left _ hi, hle.trans hlater⟩
  · right
    exact ⟨s.started.length, _, List.getElem?_concat_length,
      List.mem_append_right _ (List.mem_singleton_self _), rfl⟩

/-- **A buffer is ended** that is stopped or over. -/
theorem Timed.onended (h : Timed s) {k : Nat} (hk : k ∈ s.stopped ∨
    ∃ src, s.started[k]? = some src ∧ src.finish ≤ s.currentTime) : Timed (s.onended k) := by
  have hkept : ∀ i, i ∈ s.sources → i ≠ k → i ∈ (s.onended k).sources := by
    intro i hi hik
    exact List.mem_filter.mpr ⟨hi, by simpa using hik⟩
  refine ⟨h.ctx, h.clock, fun i hi => h.sources i (List.mem_filter.mp hi).1, h.stopped, ?_, ?_⟩
  · intro i src hsrc
    rcases h.playing i src hsrc with hstopped | hover | ⟨hi, hle⟩
    · exact Or.inl hstopped
    · exact Or.inr (Or.inl hover)
    · by_cases hik : i = k
      · subst hik
        rcases hk with hk | ⟨src', hsrc', hover⟩
        · exact Or.inl hk
        · cases hsrc.symm.trans hsrc'
          exact Or.inr (Or.inl hover)
      · exact Or.inr (Or.inr ⟨hkept i hi hik, hle⟩)
  · rcases h.nextTime with hpast | ⟨i, src, hsrc, hi, hfinish⟩
    · exact Or.inl hpast
    · by_cases hik : i = k
      · -- what `lh.nextTime` was the end of is over
        subst hik
        rcases hk with hk | ⟨src', hsrc', hover⟩
        · exact absurd hk (h.sources i hi).2
        · cases hsrc.symm.trans hsrc'
          exact Or.inl (hfinish ▸ hover)
      · exact Or.inr ⟨i, src, hsrc, hkept i hi hik, hfinish⟩

/-- **All buffers are stopped** that are not over. -/
theorem Timed.stop (h : Timed s) : Timed s.lhStopAudio := by
  refine ⟨h.ctx, h.clock, ?_, ?_, ?_, Or.inl h.clock⟩
  · intro i hi
    cases hi
  · intro i hi
    rcases List.mem_append.mp hi with hi | hi
    · exact h.stopped i hi
    · exact (h.sources i hi).1
  · intro i src hsrc
    rcases h.playing i src hsrc with hstopped | hover | ⟨hi, -⟩
    · exact Or.inl (List.mem_append_left _ hstopped)
    · exact Or.inr (Or.inl hover)
    · exact Or.inl (List.mem_append_right _ hi)

/-- **What the gate says**: something is heard past the lead. -/
theorem lhIsSpeaking_iff (h : Timed s) :
    s.lhIsSpeaking = true ↔ s.HeardPast (s.currentTime + 3 / 20) := by
  have hnow : s.currentTime ≤ s.currentTime + 3 / 20 := le_add_of_nonneg_right (by norm_num)
  constructor
  · intro hspeaking
    simp only [lhIsSpeaking, Bool.and_eq_true, decide_eq_true_eq] at hspeaking
    rcases h.nextTime with hpast | ⟨i, src, hsrc, hi, hfinish⟩
    · exact absurd (hpast.trans hnow) (not_le_of_gt hspeaking.2)
    · exact ⟨i, src, hsrc, (h.sources i hi).2, hfinish ▸ hspeaking.2⟩
  · rintro ⟨i, src, hsrc, hstopped, hlt⟩
    have hctx : s.ctx.isSome = true := by
      refine h.ctx.resolve_left fun hnone => ?_
      rw [hnone] at hsrc
      cases hsrc
    have hle : src.finish ≤ s.nextTime := by
      rcases h.playing i src hsrc with hi | hover | ⟨-, hle⟩
      · exact absurd hi hstopped
      · exact absurd (hover.trans hnow) (not_le_of_gt hlt)
      · exact hle
    simp only [lhIsSpeaking, hctx, Bool.true_and, decide_eq_true_eq]
    exact lt_of_lt_of_le hlt hle

theorem inPhase_passes {i : Nat} {phase phase' : LinkPhase}
    (hs : s.inPhase i phase (fun _ => s.setPhase i phase') = some s') : Passes s s' := by
  obtain ⟨l, -, -, rfl⟩ := inPhase_some hs
  exact ⟨rfl, rfl, rfl, rfl, le_refl _, id⟩

/-- The browser ends a buffer source when it is over, or stopped. -/
def EndsInTime (s : LhAudio) : AudioAct → Prop
  | .ended i => i ∈ s.stopped ∨ ∃ src, s.started[i]? = some src ∧ src.finish ≤ s.currentTime
  | _ => True

/-- **One step** of a link, of a buffer source or of the clock. -/
theorem Timed.next {a : AudioAct} (h : Timed s) (ha : s.EndsInTime a) (hs : s.next a = some s') :
    Timed s' := by
  cases a with
  | lhEnqueueAudioBytes =>
    cases hs
    exact h.passes ⟨rfl, rfl, rfl, rfl, le_refl _, id⟩
  | lhStopAudio =>
    cases hs
    exact h.stop
  | begin i suspended =>
    obtain ⟨l, -, hs⟩ := Option.bind_eq_some_iff.mp hs
    rw [Option.ite_none_right_eq_some] at hs
    obtain ⟨-, hs⟩ := hs
    cases hs
    exact h.passes ⟨rfl, rfl, rfl, rfl, le_refl _, fun _ => rfl⟩
  | resumed i | resumeFailed i | decodeFailed i => exact h.passes (inPhase_passes hs)
  | decoded i buffer =>
    obtain ⟨l, -, -, rfl⟩ := inPhase_some hs
    have hsettled : Timed (s.setPhase i .settled) :=
      h.passes ⟨rfl, rfl, rfl, rfl, le_refl _, id⟩
    split
    · exact hsettled
    · exact hsettled.schedule i buffer
  | ended i =>
    simp only [LhAudio.next, Option.ite_none_right_eq_some, Option.some.injEq] at hs
    obtain ⟨-, rfl⟩ := hs
    exact h.onended ha
  | advance seconds =>
    obtain ⟨time, hctx, hs⟩ := Option.bind_eq_some_iff.mp hs
    rw [Option.ite_none_right_eq_some] at hs
    obtain ⟨hle, hs⟩ := hs
    cases hs
    refine h.passes ⟨rfl, rfl, rfl, rfl, ?_, fun _ => rfl⟩
    show s.ctx.getD 0 ≤ time + seconds
    rw [hctx]
    exact le_add_of_nonneg_right hle

theorem timed_init : Timed {} := by
  refine ⟨Or.inl rfl, le_refl _, ?_, ?_, ?_, Or.inl (le_refl _)⟩
  · intro i hi
    cases hi
  · intro i hi
    cases hi
  · intro i src hsrc
    cases hsrc

end LhAudio

namespace LhDownlink

variable {s s' : LhDownlink}

/-- A step of the downlink that ends a buffer source, ends it in its time. -/
def EndsInTime (s : LhDownlink) : DownlinkAct → Prop
  | .audio a => s.audio.EndsInTime a
  | _ => True

theorem closeOpusDec_audio (s : LhDownlink) : s.closeOpusDec.audio = s.audio := by
  unfold LhDownlink.closeOpusDec
  split <;> rfl

theorem lhInitOpusDecoder_audio (s : LhDownlink) :
    s.lhInitOpusDecoder.audio = s.audio.lhAudioCtx :=
  congrArg LhAudio.lhAudioCtx (closeOpusDec_audio s)

theorem lhFeedOpus_passes (s : LhDownlink) : s.audio.Passes s.lhFeedOpus.audio := by
  obtain ⟨t, d, ht, -, -, heq⟩ := lhFeedOpus_eq s
  rw [heq]
  rcases ht with rfl | rfl
  · exact .rfl
  · show s.audio.Passes s.lhInitOpusDecoder.audio
    rw [lhInitOpusDecoder_audio]
    exact .lhAudioCtx s.audio

/-- **One step** of the downlink. -/
theorem next_timed {a : DownlinkAct} (h : s.audio.Timed) (ha : s.EndsInTime a)
    (hs : s.next a = some s') : s'.audio.Timed := by
  by_cases hstops : a.stops = true
  · obtain ⟨haudio, -⟩ := next_stops hstops hs
    exact haudio ▸ h.stop
  cases a with
  | startLhSession | stop => exact absurd rfl hstops
  | opusMode on =>
    cases hs
    have haudio : ∀ t : LhDownlink, t.lhResetOpus.audio = t.audio := closeOpusDec_audio
    rw [haudio]
    cases on <;> exact h
  | message m =>
    cases hs
    cases m with
    | sessionStarted rate => exact h
    | audioStart codec rate =>
      simp only [onMessage]
      split <;> exact h
    | aborted => exact absurd rfl hstops
  | frame =>
    cases hs
    unfold onFrame
    split
    · exact h.passes (lhFeedOpus_passes s)
    · exact h.passes ⟨rfl, rfl, rfl, rfl, le_refl _, id⟩
  | audio a =>
    obtain ⟨-, -, audio, haudio, rfl⟩ := next_audio hs
    exact h.next ha haudio
  | output d k buffer =>
    obtain ⟨dec, -, hs⟩ := Option.bind_eq_some_iff.mp hs
    rw [Option.ite_none_right_eq_some] at hs
    obtain ⟨-, hs⟩ := hs
    cases buffer with
    | none =>
      cases hs
      exact h
    | some buffer =>
      cases hs
      exact h.schedule k buffer
  | error d =>
    obtain ⟨dec, -, hs⟩ := Option.bind_eq_some_iff.mp hs
    split at hs
    · cases hs
    · cases hs
      exact h

theorem onDownlink_timed {a : PageAct} {opusMode : Bool} (h : s.audio.Timed)
    (hs : run LhDownlink.next s (a.onDownlink opusMode) = some s') : s'.audio.Timed := by
  have hends : Along LhDownlink.next EndsInTime s (a.onDownlink opusMode) := by
    cases a with
    | start _ | stop => exact ⟨trivial, fun _ _ => trivial⟩
    | warmed call reply =>
      cases reply with
      | ok uuid soloMode => exact ⟨trivial, fun _ _ => trivial⟩
      | notOk | failed => trivial
    | opened _ | errored _ | closed _ | closing _ | captured _ | captureDenied _ => trivial
  exact run_inv_along (fun _ _ _ => next_timed) h hends hs

end LhDownlink

/-! ## The captures of the page -/

/-- A socket that still connects, or whose session has no microphone, has started no capture. -/
def LhSocket.Sound (w : LhSocket) : Prop :=
  w.readyState = .connecting ∨ w.soloMode = true → w.captureStart = .notCalled

/-- A step that starts and stops no capture, and creates no socket. -/
def PageAct.plain (ticket : String) : PageAct → Bool
  | .stop | .captured _ => false
  | .warmed _ (.ok _ _) => decide (ticket = "")
  | _ => true

namespace LhPage

variable {ticket : String} {s s' : LhPage}

/-- The `start()` of the socket's capture has resolved or rejected. -/
def Settled (s : LhPage) (i : Nat) : Prop :=
  ∃ w, s.sockets[i]? = some w ∧ w.captureStart = .settled

/-- What a step may do to a socket. -/
def Goes (w w' : LhSocket) : Prop :=
  w.Sound → w'.Sound ∧ (w.captureStart = .settled → w'.captureStart = .settled)

/-- What a step does to the sockets. -/
inductive Sockets (s s' : LhPage) : Prop
  | same (h : s'.sockets = s.sockets)
  | created (w : LhSocket) (hw : w.captureStart = .notCalled)
    (h : s'.sockets = s.sockets ++ [w])
  | modified (i : Nat) (f : LhSocket → LhSocket)
    (hf : ∀ w, s.sockets[i]? = some w → Goes w (f w))
    (h : s'.sockets = s.sockets.modify i f)

theorem next_sockets {a : PageAct} (hs : s.next ticket a = some s') : Sockets s s' := by
  have hclose : ∀ r : ReadyState, r.close ≠ .connecting := by
    intro r
    cases r <;> simp [ReadyState.close]
  cases a with
  | start sttAvailable =>
    simp only [next, Option.ite_none_left_eq_some, Option.some.injEq] at hs
    obtain ⟨-, rfl⟩ := hs
    cases sttAvailable <;> exact .same rfl
  | stop =>
    simp only [next, Option.ite_none_left_eq_some, Option.some.injEq] at hs
    obtain ⟨-, rfl⟩ := hs
    cases hws : s.ws with
    | none => exact .same (by simp [stopLhSession, setLhSessionUI, hws])
    | some i =>
      refine .modified i (fun w => { w with readyState := w.readyState.close }) ?_
        (by simp [stopLhSession, setLhSessionUI, closeSocket, modifySocket, hws])
      intro w _ hw
      exact ⟨fun h => hw (Or.inr (h.resolve_left (hclose _))), id⟩
  | warmed call reply =>
    simp only [next, Option.ite_none_right_eq_some, Option.some.injEq] at hs
    obtain ⟨-, rfl⟩ := hs
    cases reply with
    | notOk | failed => exact .same rfl
    | ok uuid solo =>
      by_cases ht : ticket = ""
      · exact .same (by simp [warmReturned, ht, setLhSessionUI])
      · exact .created { call, sessionId := uuid, soloMode := solo } rfl
          (by simp [warmReturned, ht])
  | errored i =>
    obtain ⟨w, -, -, rfl⟩ := socket_guard hs
    exact .same rfl
  | opened i =>
    obtain ⟨w, hw, hconnecting, rfl⟩ := socket_guard hs
    cases hsolo : w.soloMode with
    | true =>
      refine .modified i (fun v => { v with readyState := .opened }) ?_ rfl
      intro v _ hv
      exact ⟨fun h => hv (Or.inr (h.resolve_left (by simp))), id⟩
    | false =>
      refine .modified i (fun v => { v with readyState := .opened, captureStart := .awaited }) ?_
        (List.modify_modify_eq ..)
      intro v hv hsound
      cases hw.symm.trans hv
      have hfresh : w.captureStart = .notCalled := hsound (Or.inl hconnecting)
      refine ⟨fun h => ?_, fun h => ?_⟩
      · rcases h with h | h
        · cases h
        · cases hsolo.symm.trans h
      · cases hfresh.symm.trans h
  | closed i =>
    obtain ⟨w, -, -, rfl⟩ := socket_guard hs
    refine .modified i (fun v => { v with readyState := .closed }) ?_ rfl
    intro v _ hv
    exact ⟨fun h => hv (Or.inr (h.resolve_left (by simp))), id⟩
  | closing i =>
    obtain ⟨w, -, -, rfl⟩ := socket_guard hs
    refine .modified i (fun v => { v with readyState := .closing }) ?_ rfl
    intro v _ hv
    exact ⟨fun h => hv (Or.inr (h.resolve_left (by simp))), id⟩
  | captured i =>
    obtain ⟨w, hw, hawaited, rfl⟩ := socket_guard hs
    refine .modified i (fun v => { v with captureStart := .settled }) ?_ rfl
    intro v hv hsound
    cases hw.symm.trans hv
    refine ⟨fun h => ?_, fun _ => rfl⟩
    cases (hsound h).symm.trans hawaited
  | captureDenied i =>
    obtain ⟨w, hw, hawaited, rfl⟩ := socket_guard hs
    refine .modified i
      (fun v => { v with captureStart := .settled, readyState := v.readyState.close }) ?_
      (List.modify_modify_eq ..)
    intro v hv hsound
    cases hw.symm.trans hv
    refine ⟨fun h => ?_, fun _ => rfl⟩
    have hsolo : w.soloMode = true := h.resolve_left (hclose _)
    cases (hsound (Or.inr hsolo)).symm.trans hawaited

/-- Sockets stay sound, and a capture that is settled stays so. -/
theorem Sockets.keep (h : Sockets s s') (hsound : ∀ w ∈ s.sockets, w.Sound) :
    (∀ w ∈ s'.sockets, w.Sound) ∧ ∀ i, s.Settled i → s'.Settled i := by
  cases h with
  | same h =>
    unfold Settled
    rw [h]
    exact ⟨hsound, fun _ => id⟩
  | created w hw h =>
    unfold Settled
    rw [h]
    refine ⟨fun v hv => ?_, ?_⟩
    · rcases List.mem_append.mp hv with hv | hv
      · exact hsound v hv
      · cases List.mem_singleton.mp hv
        exact fun _ => hw
    · rintro i ⟨v, hv, hsettled⟩
      exact ⟨v, getElem?_concat_of_some hv w, hsettled⟩
  | modified j f hf h =>
    unfold Settled
    rw [h]
    refine ⟨fun v hv => ?_, ?_⟩
    · obtain ⟨i, hi⟩ := List.mem_iff_getElem?.mp hv
      obtain ⟨w, hw, rfl⟩ := getElem?_modify_iff.mp hi
      have hold : w.Sound := hsound w (List.mem_of_getElem? hw)
      split
      next hij => exact (hf w (hij ▸ hw) hold).1
      next => exact hold
    · rintro i ⟨w, hw, hsettled⟩
      refine ⟨_, getElem?_modify_iff.mpr ⟨w, hw, rfl⟩, ?_⟩
      split
      next hij => exact (hf w (hij ▸ hw) (hsound w (List.mem_of_getElem? hw))).2 hsettled
      next => exact hsettled

/-- What a step does to `lh.ws` and `lh.capture`. -/
inductive Refs (ticket : String) (s : LhPage) : PageAct → LhPage → Prop
  | kept {a : PageAct} {s' : LhPage} (hplain : a.plain ticket = true)
    (hws : s'.ws = s.ws) (hcapture : s'.capture = s.capture) : Refs ticket s a s'
  | created {call : Nat} {uuid : String} {solo : Bool} {s' : LhPage} (hticket : ticket ≠ "")
    (hws : s'.ws = some s.sockets.length) (hcapture : s'.capture = s.capture) :
    Refs ticket s (.warmed call (.ok uuid solo)) s'
  | stopped {s' : LhPage} (hcapture : s'.capture = none) : Refs ticket s .stop s'
  | captured {i : Nat} {s' : LhPage} (hnew : ¬s.Settled i) (hsettled : s'.Settled i)
    (hws : s'.ws = s.ws) (hcapture : s'.capture = some i) : Refs ticket s (.captured i) s'

theorem next_refs {a : PageAct} (hs : s.next ticket a = some s') : Refs ticket s a s' := by
  cases a with
  | start sttAvailable =>
    simp only [next, Option.ite_none_left_eq_some, Option.some.injEq] at hs
    obtain ⟨-, rfl⟩ := hs
    cases sttAvailable <;> exact .kept rfl rfl rfl
  | stop =>
    simp only [next, Option.ite_none_left_eq_some, Option.some.injEq] at hs
    obtain ⟨-, rfl⟩ := hs
    cases hws : s.ws <;>
      exact .stopped (by simp [stopLhSession, setLhSessionUI, closeSocket, modifySocket, hws])
  | warmed call reply =>
    simp only [next, Option.ite_none_right_eq_some, Option.some.injEq] at hs
    obtain ⟨-, rfl⟩ := hs
    cases reply with
    | notOk | failed => exact .kept rfl rfl rfl
    | ok uuid solo =>
      by_cases ht : ticket = ""
      · exact .kept (by simp [PageAct.plain, ht]) (by simp [warmReturned, ht, setLhSessionUI])
          (by simp [warmReturned, ht, setLhSessionUI])
      · exact .created ht (by simp [warmReturned, ht]) (by simp [warmReturned, ht])
  | errored i | closed i | closing i | captureDenied i =>
    obtain ⟨w, -, -, rfl⟩ := socket_guard hs
    exact .kept rfl rfl rfl
  | opened i =>
    obtain ⟨w, -, -, rfl⟩ := socket_guard hs
    refine .kept rfl (onopen_ws i w.soloMode) ?_
    unfold onopen
    split <;> rfl
  | captured i =>
    obtain ⟨w, hw, hawaited, rfl⟩ := socket_guard hs
    refine .captured ?_ ⟨_, getElem?_modify_iff.mpr ⟨w, hw, rfl⟩, ?_⟩ rfl rfl
    · rintro ⟨v, hv, hsettled⟩
      cases hw.symm.trans hv
      cases hawaited.symm.trans hsettled
    · rw [if_pos rfl]

end LhPage

namespace Lh

variable {ticket : String} {s s' : Lh}

/-- What holds of the captures in every state. -/
structure Miked (s : Lh) : Prop where
  sound : ∀ w ∈ s.page.sockets, w.Sound
  settled : ∀ i ∈ s.recording, s.page.Settled i
  capture : ∀ i, s.page.capture = some i → i ∈ s.recording

/-- The capture that records is that of `lh.ws`, and there is no other. -/
structure Own (s : Lh) : Prop where
  recording : s.recording = s.page.capture.toList
  ws : ∀ i, s.page.capture = some i → s.page.ws = some i

/-- A capture starts under its own socket; a socket is created when none records. -/
def Proper (ticket : String) (s : Lh) : LhAct → Prop
  | .page (.captured i) _ => s.page.ws = some i
  | .page (.warmed _ (.ok _ _)) _ => ticket ≠ "" → s.page.capture = none
  | _ => True

/-- The browser ends buffer sources in their time. -/
def EndsInTime (s : Lh) : LhAct → Prop
  | .downlink a => s.downlink.EndsInTime a
  | _ => True

/-! ## One step -/

/-- What a step can do. -/
inductive Effect (ticket : String) (s : Lh) : LhAct → Lh → Prop
  | page {a : PageAct} {opusMode : Bool} {page : LhPage} {downlink : LhDownlink}
    (hpage : s.page.next ticket a = some page)
    (hdownlink : run LhDownlink.next s.downlink (a.onDownlink opusMode) = some downlink) :
    Effect ticket s (.page a opusMode)
      { s with page, downlink, recording := s.recordingAfter a }
  | downlink {a : DownlinkAct} {downlink : LhDownlink}
    (hdownlink : s.downlink.next a = some downlink) :
    Effect ticket s (.downlink a) { s with downlink }
  | processed {capture : Nat} {input : List Rat} {sampleRate : Rat}
    (hrecording : capture ∈ s.recording) :
    Effect ticket s (.processed capture input sampleRate)
      (s.onframe capture (downsampleToPcm16 input sampleRate streamRate))

theorem next_effect {a : LhAct} (hs : s.next ticket a = some s') : Effect ticket s a s' := by
  cases a with
  | page a opusMode =>
    obtain ⟨page, hpage, hs⟩ := Option.bind_eq_some_iff.mp hs
    obtain ⟨downlink, hdownlink, hs⟩ := Option.bind_eq_some_iff.mp hs
    cases hs
    exact .page hpage hdownlink
  | downlink a =>
    cases a with
    | startLhSession | opusMode _ | stop => cases hs
    | message _ | frame | audio _ | output _ _ _ | error _ =>
      simp only [next, Option.bind_eq_bind, Option.bind_eq_some_iff, Option.some.injEq] at hs
      obtain ⟨downlink, hdownlink, rfl⟩ := hs
      exact .downlink hdownlink
  | processed capture input sampleRate =>
    simp only [next, Option.ite_none_right_eq_some, Option.some.injEq] at hs
    obtain ⟨hrecording, rfl⟩ := hs
    exact .processed hrecording

theorem onframe_page (capture : Nat) (pcm : List Int) :
    (s.onframe capture pcm).page = s.page ∧
      (s.onframe capture pcm).downlink = s.downlink ∧
      (s.onframe capture pcm).recording = s.recording := by
  unfold onframe
  split
  · exact ⟨rfl, rfl, rfl⟩
  · split <;> exact ⟨rfl, rfl, rfl⟩

theorem timed_step {a : LhAct} (h : s.downlink.audio.Timed) (ha : s.EndsInTime a)
    (hs : s.next ticket a = some s') : s'.downlink.audio.Timed := by
  cases next_effect hs with
  | page _ hdownlink => exact LhDownlink.onDownlink_timed h hdownlink
  | downlink hdownlink => exact LhDownlink.next_timed h ha hdownlink
  | processed _ =>
    rw [(onframe_page _ _).2.1]
    exact h

theorem Miked.congr (h : Miked s) (hpage : s'.page = s.page)
    (hrecording : s'.recording = s.recording) : Miked s' := by
  refine ⟨?_, ?_, ?_⟩ <;> rw [hpage]
  · exact h.sound
  · rw [hrecording]
    exact h.settled
  · rw [hrecording]
    exact h.capture

theorem Own.congr (h : Own s) (hpage : s'.page = s.page)
    (hrecording : s'.recording = s.recording) : Own s' := by
  refine ⟨?_, ?_⟩ <;> rw [hpage]
  · rw [hrecording]
    exact h.recording
  · exact h.ws

theorem recordingAfter_plain {a : PageAct} (ha : a.plain ticket = true) :
    s.recordingAfter a = s.recording := by
  cases a with
  | stop | captured _ => cases ha
  | start _ | warmed _ _ | opened _ | errored _ | closed _ | closing _ | captureDenied _ => rfl

theorem proper_plain {a : PageAct} (ha : a.plain ticket = true) (opusMode : Bool) :
    s.Proper ticket (.page a opusMode) := by
  cases a with
  | stop | captured _ => cases ha
  | warmed call reply =>
    cases reply with
    | ok uuid solo => exact fun hticket => absurd (of_decide_eq_true ha) hticket
    | notOk | failed => trivial
  | start _ | opened _ | errored _ | closed _ | closing _ | captureDenied _ => trivial

theorem miked_step {a : LhAct} (h : Miked s) (hs : s.next ticket a = some s') : Miked s' := by
  cases next_effect hs with
  | downlink _ => exact h.congr rfl rfl
  | processed _ =>
    obtain ⟨hpage, -, hrecording⟩ := onframe_page (s := s) _ _
    exact h.congr hpage hrecording
  | @page a opusMode page downlink hpage _ =>
    obtain ⟨hsound, hkept⟩ := (LhPage.next_sockets hpage).keep h.sound
    have hsettled : ∀ i ∈ s.recording, page.Settled i := fun i hi => hkept i (h.settled i hi)
    cases LhPage.next_refs hpage with
    | kept hplain _ hcapture =>
      show Miked { s with page, downlink, recording := s.recordingAfter a }
      rw [recordingAfter_plain hplain]
      exact ⟨hsound, hsettled, fun i hi => h.capture i (hcapture ▸ hi)⟩
    | created _ _ hcapture =>
      exact ⟨hsound, hsettled, fun i hi => h.capture i (hcapture ▸ hi)⟩
    | stopped hcapture =>
      refine ⟨hsound, fun i hi => hsettled i (List.mem_filter.mp hi).1, fun i hi => ?_⟩
      cases hcapture.symm.trans hi
    | @captured k _ _ hsettles _ hcapture =>
      refine ⟨hsound, fun i hi => ?_, fun i hi => ?_⟩
      · rcases List.mem_append.mp hi with hi | hi
        · exact hsettled i hi
        · cases List.mem_singleton.mp hi
          exact hsettles
      · cases hcapture.symm.trans hi
        exact List.mem_append_right _ (List.mem_singleton_self _)

/-- **One step.** The session has its own capture still, exactly after a proper step. -/
theorem own_step {a : LhAct} (hm : Miked s) (h : Own s) (hs : s.next ticket a = some s') :
    Own s' ↔ s.Proper ticket a := by
  cases next_effect hs with
  | downlink _ => exact iff_of_true (h.congr rfl rfl) trivial
  | processed _ =>
    obtain ⟨hpage, -, hrecording⟩ := onframe_page (s := s) _ _
    exact iff_of_true (h.congr hpage hrecording) trivial
  | @page a opusMode page downlink hpage _ =>
    cases LhPage.next_refs hpage with
    | kept hplain hws hcapture =>
      refine iff_of_true ⟨?_, fun i hi => ?_⟩ (proper_plain hplain opusMode)
      · show s.recordingAfter a = page.capture.toList
        rw [recordingAfter_plain hplain, hcapture]
        exact h.recording
      · exact hws.trans (h.ws i (hcapture ▸ hi))
    | created hticket hws hcapture =>
      constructor
      · intro hown _
        refine Option.eq_none_iff_forall_ne_some.mpr fun i hi => ?_
        -- the capture that records is of an older socket than the new one
        obtain ⟨w, hw, -⟩ := hm.settled i (hm.capture i hi)
        have hlt : i < s.page.sockets.length := (List.getElem?_eq_some_iff.mp hw).1
        have hnew : some s.page.sockets.length = some i :=
          hws.symm.trans (hown.ws i (hcapture ▸ hi))
        cases hnew
        exact absurd hlt (Nat.lt_irrefl _)
      · intro hproper
        have hnone : page.capture = none := hcapture.trans (hproper hticket)
        refine ⟨?_, fun i hi => ?_⟩
        · show s.recording = page.capture.toList
          rw [hcapture]
          exact h.recording
        · cases hnone.symm.trans hi
    | stopped hcapture =>
      refine iff_of_true ⟨?_, fun i hi => ?_⟩ trivial
      · show (s.recording.filter fun i => some i ≠ s.page.capture) = page.capture.toList
        rw [hcapture, h.recording]
        cases s.page.capture <;> simp
      · cases hcapture.symm.trans hi
    | @captured k _ hunsettled _ hws hcapture =>
      constructor
      · intro hown
        exact hws.symm.trans (hown.ws k hcapture)
      · intro hproper
        have hnone : s.page.capture = none := by
          refine Option.eq_none_iff_forall_ne_some.mpr fun i hi => ?_
          cases (h.ws i hi).symm.trans hproper
          exact hunsettled (hm.settled k (hm.capture k hi))
        refine ⟨?_, fun i hi => ?_⟩
        · show s.recording ++ [k] = page.capture.toList
          rw [hcapture, h.recording, hnone]
          rfl
        · cases hcapture.symm.trans hi
          exact hws.trans hproper

/-- **A capture that is not `lh.capture` is never stopped.** -/
theorem recording_step {a : LhAct} (hm : Miked s) {i : Nat}
    (hi : i ∈ s.recording ∧ s.page.capture ≠ some i) (hs : s.next ticket a = some s') :
    i ∈ s'.recording ∧ s'.page.capture ≠ some i := by
  obtain ⟨hrecording, hne⟩ := hi
  cases next_effect hs with
  | downlink _ => exact ⟨hrecording, hne⟩
  | processed _ =>
    obtain ⟨hpage, -, hsame⟩ := onframe_page (s := s) _ _
    rw [hpage, hsame]
    exact ⟨hrecording, hne⟩
  | @page a opusMode page downlink hpage _ =>
    cases LhPage.next_refs hpage with
    | kept hplain _ hcapture =>
      show i ∈ s.recordingAfter a ∧ page.capture ≠ some i
      rw [recordingAfter_plain hplain, hcapture]
      exact ⟨hrecording, hne⟩
    | created _ _ hcapture => exact ⟨hrecording, hcapture ▸ hne⟩
    | stopped hcapture =>
      refine ⟨List.mem_filter.mpr ⟨hrecording, by simpa using Ne.symm hne⟩, ?_⟩
      show page.capture ≠ some i
      rw [hcapture]
      exact Option.some_ne_none i ∘ Eq.symm
    | @captured k _ hunsettled _ _ hcapture =>
      refine ⟨List.mem_append_left _ hrecording, fun he => ?_⟩
      cases hcapture.symm.trans he
      exact hunsettled (hm.settled i hrecording)

/-! ## What is sent -/

open Classical in
/-- What the gateway is to hear of a step: a block that is processed while `lh.ws` is open and no
reply buffer is heard past the next 0.15 seconds. -/
noncomputable def gated (s : Lh) : LhAct → List MicFrame
  | .processed capture input sampleRate =>
    match s.openWs with
    | none => []
    | some socket =>
      if s.downlink.audio.HeardPast (s.downlink.audio.currentTime + 3 / 20) then []
      else [{ capture, socket, pcm := downsampleToPcm16 input sampleRate streamRate }]
  | _ => []

theorem sent_step {a : LhAct} (h : s.downlink.audio.Timed) (hs : s.next ticket a = some s') :
    s'.sent = s.sent ++ s.gated a := by
  cases next_effect hs with
  | page _ _ => exact (List.append_nil _).symm
  | downlink _ => exact (List.append_nil _).symm
  | @processed capture input sampleRate _ =>
    have hgate := LhAudio.lhIsSpeaking_iff h
    unfold gated onframe
    cases s.openWs with
    | none => exact (List.append_nil _).symm
    | some socket =>
      by_cases hspeaking : s.downlink.audio.lhIsSpeaking = true
      · simp only [hspeaking, if_true, if_pos (hgate.mp hspeaking), List.append_nil]
      · simp only [hspeaking, if_neg (hspeaking ∘ hgate.mpr)]
        rfl

/-- The frame is of its socket's own capture. -/
def FrameOwn (s : Lh) (f : MicFrame) : Prop := f.capture = f.socket ∧ s.page.Settled f.socket

theorem frames_step {a : LhAct} (hm : Miked s) (h : Own s) (hframes : ∀ f ∈ s.sent, s.FrameOwn f)
    (hs : s.next ticket a = some s') : ∀ f ∈ s'.sent, s'.FrameOwn f := by
  cases next_effect hs with
  | downlink _ => exact hframes
  | @page a opusMode page downlink hpage _ =>
    intro f hf
    obtain ⟨hsame, hsettled⟩ := hframes f hf
    exact ⟨hsame, ((LhPage.next_sockets hpage).keep hm.sound).2 _ hsettled⟩
  | @processed capture input sampleRate hrecording =>
    -- the capture that records is `lh.capture`, and that is of `lh.ws`
    have hcapture : s.page.capture = some capture := by
      rw [h.recording] at hrecording
      exact Option.mem_toList.mp hrecording
    unfold onframe
    split
    · exact hframes
    next socket hopen =>
      split
      · exact hframes
      · intro f hf
        rcases List.mem_append.mp hf with hf | hf
        · exact hframes f hf
        · cases List.mem_singleton.mp hf
          have hws : s.page.ws = some socket := (Option.filter_eq_some_iff.mp hopen).1
          have hsame : capture = socket := Option.some.inj ((h.ws capture hcapture).symm.trans hws)
          exact ⟨hsame, hsame ▸ hm.settled capture hrecording⟩

/-! ## Runs -/

theorem miked_init : Miked {} := by
  refine ⟨?_, ?_, ?_⟩
  · intro w hw
    cases hw
  · intro i hi
    cases hi
  · intro i hi
    cases hi

/--
**Who hears the microphone.** In a run where the browser ends buffer sources in their time,
`onframe` sends the blocks that are processed while `lh.ws` is open and no reply buffer is heard
past the next 0.15 seconds, each once and in order, and nothing else. A capture that records and is
not `lh.capture` is never stopped. The one capture that records is that of `lh.ws` all along exactly
if every capture starts under its own socket and every socket is created when none records; every
frame is then of the session it is sent in, and a session without a microphone is sent none.
-/
theorem mic_frames (ticket : String) {acts : List LhAct} {s : Lh}
    (h : run (next ticket) {} acts = some s) (hends : Along (next ticket) EndsInTime {} acts) :
    s.sent = trace (next ticket) gated {} acts ∧
    (∀ i more t, i ∈ s.recording ∧ s.page.capture ≠ some i →
      run (next ticket) s more = some t → i ∈ t.recording) ∧
    ((∀ pre post m, acts = pre ++ post → run (next ticket) {} pre = some m → m.Own) ↔
      Along (next ticket) (Proper ticket) {} acts) ∧
    (Along (next ticket) (Proper ticket) {} acts → ∀ f ∈ s.sent, f.capture = f.socket ∧
      ∀ w, s.page.sockets[f.socket]? = some w → w.soloMode = false) := by
  have hmiked : Miked s := run_inv (fun _ _ _ => miked_step) miked_init h
  have hown : Own ({} : Lh) := ⟨rfl, fun i hi => by cases hi⟩
  refine ⟨?_, ?_, ?_, ?_⟩
  · have hsent : s.downlink.audio.Timed ∧ s.sent = [] ++ trace (next ticket) gated {} acts :=
      run_trace_inv_along (I := fun s seen => s.downlink.audio.Timed ∧ s.sent = seen)
        (fun s a s' seen hi ha hs => ⟨timed_step hi.1 ha hs, hi.2 ▸ sent_step hi.1 hs⟩)
        ⟨LhAudio.timed_init, rfl⟩ hends h
    exact hsent.2
  · intro i more t hi ht
    have hkept := run_inv (I := fun s => Miked s ∧ i ∈ s.recording ∧ s.page.capture ≠ some i)
      (fun s a s' hs hstep => ⟨miked_step hs.1 hstep, recording_step hs.1 hs.2 hstep⟩)
      ⟨hmiked, hi⟩ ht
    exact hkept.2.1
  · exact always_iff_along (J := Miked)
      (fun s a s' hm hs => ⟨miked_step hm hs, fun ho => own_step hm ho hs⟩) miked_init hown h
  · intro hproper f hf
    obtain ⟨-, -, hframes⟩ := run_inv_along
      (I := fun s => Miked s ∧ Own s ∧ ∀ f ∈ s.sent, s.FrameOwn f)
      (fun s a s' hs ha hstep => ⟨miked_step hs.1 hstep, (own_step hs.1 hs.2.1 hstep).mpr ha,
        frames_step hs.1 hs.2.1 hs.2.2 hstep⟩)
      ⟨miked_init, hown, fun f hf => by cases hf⟩ hproper h
    obtain ⟨hsame, v, hv, hsettled⟩ := hframes f hf
    refine ⟨hsame, fun w hw => ?_⟩
    cases hw.symm.trans hv
    refine Bool.eq_false_iff.mpr fun hsolo => ?_
    have hnone : v.captureStart = .notCalled :=
      hmiked.sound v (List.mem_of_getElem? hv) (Or.inr hsolo)
    cases hsettled.symm.trans hnone

/-- Half a second of a reply: a block that comes at its start, and one that comes near its end. -/
def answered (echo voice : List Rat) : List LhAct :=
  [.page (.start true) false, .page (.warmed 0 (.ok "a" false)) false, .page (.opened 0) false,
    .page (.captured 0) false, .downlink .frame, .downlink (.audio (.begin 0 false)),
    .downlink (.audio (.decoded 0 LhAudio.halfSecond)), .processed 0 echo 48000,
    .downlink (.audio (.advance (1 / 2))), .processed 0 voice 48000,
    .downlink (.audio (.advance (1 / 10)))]

theorem answered_heard :
    ∃ s, run (next "ticket") {} (answered [1, 1, 1] [0, 1, 1 / 2] ++
        [.downlink (.audio (.ended 0))]) = some s ∧ s.sent = [⟨0, 0, [16383]⟩] ∧
      s.sent = trace (next "ticket") gated {} (answered [1, 1, 1] [0, 1, 1 / 2] ++
        [.downlink (.audio (.ended 0))]) := by
  have hsent : (run (next "ticket") {} (answered [1, 1, 1] [0, 1, 1 / 2] ++
      [.downlink (.audio (.ended 0))])).map (·.sent) = some [⟨0, 0, [16383]⟩] := by decide +kernel
  have hover : (run (next "ticket") {} (answered [1, 1, 1] [0, 1, 1 / 2])).all (fun m =>
      m.downlink.audio.started[0]?.any fun src =>
        src.finish ≤ m.downlink.audio.currentTime) = true := by decide +kernel
  obtain ⟨s, hs, hsent⟩ := Option.map_eq_some_iff.mp hsent
  refine ⟨s, hs, hsent, (mic_frames "ticket" hs (along_append.mpr ⟨?quiet, ?ended⟩)).1⟩
  case quiet =>
    simp [answered, Along, EndsInTime, LhDownlink.EndsInTime, LhAudio.EndsInTime]
  case ended =>
    intro m hm
    rw [hm, Option.all_some, Option.any_eq_true] at hover
    obtain ⟨src, hsrc, hfinish⟩ := hover
    exact ⟨Or.inr ⟨src, hsrc, of_decide_eq_true hfinish⟩, fun _ _ => trivial⟩

/-- The server closes a session, and its capture goes on into the next one, which is to have no
microphone. -/
def keptOn (voice : List Rat) : List LhAct :=
  [.page (.start true) false, .page (.warmed 0 (.ok "a" false)) false, .page (.opened 0) false,
    .page (.captured 0) false, .page (.closed 0) false, .page (.start true) false,
    .page (.warmed 1 (.ok "b" true)) false, .page (.opened 1) false, .processed 0 voice 48000]

example (voice : List Rat) : ∃ s, run (next "ticket") {} (keptOn voice) = some s ∧
    s.sent = [⟨0, 1, downsampleToPcm16 voice 48000 streamRate⟩] :=
  ⟨_, rfl, rfl⟩

end Lh

end Livehost
