import Livehost.Properties.Decoders
import Livehost.Properties.ReplyAudio

/-!
# Frames of both codecs

A stop leaves every frame of before it behind: the links by their generation, the packets with their
decoder, which is closed. Of the frames since, those of one codec play in the order they came, and
whatever they are of, a buffer starts where the one before it ends.

* `next_cases` — what a step of a link can do
* `Heard` — the buffer sources since a stop
* `frames_in_order` — order, intervals, barge-in and time stamps in every run
-/

namespace Livehost

open Infra

/-! ## Steps of a link -/

namespace LhAudio

variable {b c : Nat} {s s' : LhAudio}

/-- The buffer source is silent, or it is one that a stop would stop. -/
def Accounted (s : LhAudio) (c i : Nat) : Prop :=
  i ∈ s.stopped ∨ i ∈ s.ended ∨ c ≤ i ∧ i ∈ s.sources

/-- A step that starts nothing and stops nothing. -/
structure Quiet (s s' : LhAudio) : Prop where
  started : s'.started = s.started
  nextTime : s'.nextTime = s.nextTime
  settled : ∀ i, s.Settled (some i) → s'.Settled (some i)
  accounted : ∀ c i, s.Accounted c i → s'.Accounted c i

/-- The bytes of the link are being decoded, and no stop has come since it was chained. -/
def Decoding (s : LhAudio) (i : Nat) : Prop :=
  ∃ l, s.links[i]? = some l ∧ l.phase = .decoding ∧ l.gen = s.audioGen

theorem Quiet.setPhase {i : Nat} {phase : LinkPhase} {l : AudioLink}
    (hl : s.links[i]? = some l) (hunsettled : l.phase ≠ .settled) :
    Quiet s (s.setPhase i phase) := by
  refine ⟨rfl, rfl, fun j hj => hj.setPhase fun hij => ?_, fun _ _ => id⟩
  subst hij
  obtain ⟨l', hl', hsettled⟩ := hj
  cases hl.symm.trans hl'
  exact absurd hsettled hunsettled

theorem Quiet.inPhase {i : Nat} {phase phase' : LinkPhase} (hphase : phase ≠ .settled)
    (hs : s.inPhase i phase (fun _ => s.setPhase i phase') = some s') : Quiet s s' := by
  obtain ⟨l, hl, rfl, rfl⟩ := inPhase_some hs
  exact .setPhase hl hphase

theorem Chained.inPhase {i : Nat} {phase phase' : LinkPhase} (h : Chained b s)
    (hphase : phase ≠ .waiting ∧ phase ≠ .settled)
    (hs : s.inPhase i phase (fun _ => s.setPhase i phase') = some s') : Chained b s' := by
  obtain ⟨l, hl, rfl, rfl⟩ := inPhase_some hs
  exact h.setPhase hl hphase.2 fun hw => absurd hw hphase.1

/-- **What a step can do**, but for the two that the page takes itself. -/
theorem next_cases {a : AudioAct} (henqueue : a ≠ .lhEnqueueAudioBytes) (hstop : a ≠ .lhStopAudio)
    (h : Chained b s) (hs : s.next a = some s') :
    Chained b s' ∧ (Quiet s s' ∨ ∃ i buffer, s.Decoding i ∧
      Chained b (s.setPhase i .settled) ∧
      s' = (s.setPhase i .settled).lhScheduleBuffer i buffer) := by
  cases a with
  | lhEnqueueAudioBytes => exact absurd rfl henqueue
  | lhStopAudio => exact absurd rfl hstop
  | begin i suspended =>
    obtain ⟨l, hl, hs⟩ := Option.bind_eq_some_iff.mp hs
    rw [Option.ite_none_right_eq_some] at hs
    obtain ⟨⟨hwaiting, hbegins⟩, hs⟩ := hs
    cases hs
    have hctx : Chained b s.lhAudioCtx := h.congr rfl rfl rfl
    have hunsettled : l.phase ≠ .settled := by simp [hwaiting]
    have hquiet : Quiet s.lhAudioCtx
        (s.lhAudioCtx.setPhase i (if suspended then .resuming else .decoding)) :=
      .setPhase hl hunsettled
    exact ⟨hctx.setPhase hl hunsettled fun _ => (Settled.congr rfl).mpr hbegins,
      Or.inl ⟨hquiet.started, hquiet.nextTime, hquiet.settled, hquiet.accounted⟩⟩
  | resumed i | resumeFailed i =>
    exact ⟨h.inPhase (by decide) hs, Or.inl (.inPhase (by decide) hs)⟩
  | decodeFailed i => exact ⟨h.inPhase (by decide) hs, Or.inl (.inPhase (by decide) hs)⟩
  | decoded i buffer =>
    obtain ⟨l, hl, hphase, rfl⟩ := inPhase_some hs
    have hunsettled : l.phase ≠ .settled := by simp [hphase]
    have hset : Chained b (s.setPhase i .settled) :=
      h.setPhase hl hunsettled (by simp [hphase])
    by_cases hgen : l.gen = s.audioGen
    · rw [if_neg (not_not_intro hgen)]
      exact ⟨hset.congr rfl rfl rfl, Or.inr ⟨i, buffer, ⟨l, hl, hphase, hgen⟩, hset, rfl⟩⟩
    · rw [if_pos hgen]
      exact ⟨hset, Or.inl (.setPhase hl hunsettled)⟩
  | ended k =>
    simp only [LhAudio.next, Option.ite_none_right_eq_some, Option.some.injEq] at hs
    obtain ⟨-, rfl⟩ := hs
    refine ⟨h.congr rfl rfl rfl, Or.inl ⟨rfl, rfl, fun _ => id, fun c i hi => ?_⟩⟩
    by_cases hik : i = k
    · exact Or.inr (Or.inl (hik ▸ List.mem_cons_self))
    · rcases hi with hi | hi | ⟨hc, hi⟩
      · exact Or.inl hi
      · exact Or.inr (Or.inl (List.mem_cons_of_mem _ hi))
      · exact Or.inr (Or.inr ⟨hc, List.mem_filter.mpr ⟨hi, by simpa using hik⟩⟩)
  | advance seconds =>
    obtain ⟨time, -, hs⟩ := Option.bind_eq_some_iff.mp hs
    rw [Option.ite_none_right_eq_some] at hs
    obtain ⟨-, hs⟩ := hs
    cases hs
    exact ⟨h.congr rfl rfl rfl, Or.inl ⟨rfl, rfl, fun _ => id, fun _ _ => id⟩⟩

/-- A link that is decoding is one since the stop, and the settled ones are before it. -/
theorem Decoding.after {i : Nat} (hi : s.Decoding i) (h : Chained b s) :
    b ≤ i ∧ ∀ j, s.Settled (some j) → j < i := by
  obtain ⟨l, hl, hphase, hgen⟩ := hi
  have hb : b ≤ i := (h.gen i l hl).mp hgen
  refine ⟨hb, fun j hj => ?_⟩
  -- a later link would have begun behind this one
  by_contra hle
  have hsettled : s.Settled (some i) := by
    by_cases he : j = i
    · exact he ▸ hj
    · exact h.order j i hb (by omega) hj.begun
  obtain ⟨l', hl', hsettled⟩ := hsettled
  cases hl.symm.trans hl'
  rw [hphase] at hsettled
  cases hsettled

end LhAudio

/-! ## Frames -/

theorem sublist_range' {l : List Nat} {b n : Nat} (hsorted : l.Pairwise (· < ·))
    (hbounds : ∀ i ∈ l, b ≤ i ∧ i < n) : l.Sublist (List.range' b (n - b)) := by
  refine List.sublist_of_subperm_of_pairwise ?_ hsorted List.pairwise_lt_range'
  refine List.subperm_of_subset hsorted.nodup fun i hi => ?_
  obtain ⟨hle, hlt⟩ := hbounds i hi
  rw [List.mem_range'_1]
  omega

/-- What a buffer source is the sound of. -/
inductive AudioFrame
  | link (i : Nat)
  | packet (k : Nat)
  deriving DecidableEq, Repr

/-- Of two frames of one codec, `f` came first. -/
def AudioFrame.Before : AudioFrame → AudioFrame → Prop
  | .link i, .link j => i < j
  | .packet k, .packet l => k < l
  | _, _ => True

/-- What calls `lhStopAudio`. -/
def DownlinkAct.stops : DownlinkAct → Bool
  | .startLhSession | .stop | .message .aborted => true
  | _ => false

def AudioFrame.link? : AudioFrame → Option Nat
  | .link i => some i
  | .packet _ => none

def AudioFrame.packet? : AudioFrame → Option Nat
  | .packet k => some k
  | .link _ => none

namespace LhDownlink

variable {b p c : Nat} {s s' : LhDownlink}

/-- The frame had come by then. -/
def Came (s : LhDownlink) : AudioFrame → Prop
  | .link i => i < s.audio.links.length
  | .packet k => k < s.packets.length

/-- The buffer sources, each with its frame. -/
def heard (s : LhDownlink) : List (AudioFrame × AudioSource) :=
  s.audio.started.zipIdx.map fun (src, i) =>
    (if i ∈ s.opusSources then .packet src.link else .link src.link, src)

theorem heard_congr (hstarted : s'.audio.started = s.audio.started)
    (hopus : s'.opusSources = s.opusSources) : s'.heard = s.heard := by
  rw [heard, heard, hstarted, hopus]

/-- One more source. -/
theorem heard_concat {src : AudioSource} (hstarted : s'.audio.started = s.audio.started ++ [src])
    (hopus : ∀ i < s.audio.started.length, i ∈ s'.opusSources ↔ i ∈ s.opusSources) :
    s'.heard = s.heard ++ [(if s.audio.started.length ∈ s'.opusSources then .packet src.link
      else .link src.link, src)] := by
  rw [heard, heard, hstarted, List.zipIdx_append, List.map_append]
  congr 1
  · refine List.map_congr_left fun x hx => ?_
    obtain ⟨-, hlt, -⟩ := List.mem_zipIdx hx
    simp only [hopus x.2 (by omega)]
  · simp

/-! ## Buffer sources -/

/-- The frame came since the stop, and its turn is over. -/
def Done (b p : Nat) (s : LhDownlink) : AudioFrame → Prop
  | .link i => b ≤ i ∧ s.audio.Settled (some i)
  | .packet k => p ≤ k ∧ k < s.packets.length ∧ ∀ l, s.Pending l → k < l

/-- A step after which the packets still to come are those before, or new. -/
structure Later (s s' : LhDownlink) : Prop where
  packets : s.packets.length ≤ s'.packets.length
  pending : ∀ k, s'.Pending k → s.Pending k ∨ s.packets.length ≤ k

theorem Later.rfl : Later s s := ⟨Nat.le_refl _, fun _ => Or.inl⟩

theorem Later.done (h : Later s s')
    (hsettled : ∀ i, s.audio.Settled (some i) → s'.audio.Settled (some i)) {f : AudioFrame}
    (hf : s.Done b p f) : s'.Done b p f := by
  cases f with
  | link i => exact ⟨hf.1, hsettled i hf.2⟩
  | packet k =>
    obtain ⟨hp, hlt, hbefore⟩ := hf
    refine ⟨hp, hlt.trans_le h.packets, fun l hl => ?_⟩
    rcases h.pending l hl with hl | hl
    · exact hbefore l hl
    · omega

/-- The buffer sources since a stop are those from the `c`-th on: those of one codec are in the
order of their frames, each starts behind the one before it, and the next one behind all of them.
Every other one is stopped or has ended. -/
structure Heard (b p c : Nat) (s : LhDownlink) : Prop where
  base : c ≤ s.audio.started.length
  known : ∀ i ∈ s.opusSources, i < s.audio.started.length
  done : ∀ h ∈ s.heard.drop c, s.Done b p h.1
  ordered : (s.heard.drop c).Pairwise fun x y => x.1.Before y.1 ∧ x.2.finish ≤ y.2.start
  nextTime : ∀ h ∈ s.heard.drop c, h.2.finish ≤ s.audio.nextTime
  accounted : ∀ i < s.audio.started.length, s.audio.Accounted c i

theorem length_heard (s : LhDownlink) : s.heard.length = s.audio.started.length := by simp [heard]

/-- A step that starts nothing and stops nothing. -/
theorem Heard.quiet (h : Heard b p c s) (hlater : Later s s')
    (hopus : s'.opusSources = s.opusSources) (haudio : LhAudio.Quiet s.audio s'.audio) :
    Heard b p c s' := by
  have hheard : s'.heard = s.heard := heard_congr haudio.started hopus
  refine ⟨?_, ?_, ?_, ?_, ?_, ?_⟩
  · exact haudio.started ▸ h.base
  · exact haudio.started ▸ hopus ▸ h.known
  · rw [hheard]
    exact fun x hx => hlater.done haudio.settled (h.done x hx)
  · exact hheard ▸ h.ordered
  · exact hheard ▸ haudio.nextTime ▸ h.nextTime
  · exact fun i hi => haudio.accounted c i (h.accounted i (haudio.started ▸ hi))

/-- `lhScheduleBuffer`, from either side. -/
def schedule (s : LhDownlink) (f : AudioFrame) (buffer : AudioBuffer) : LhDownlink :=
  match f with
  | .link i => { s with audio := s.audio.lhScheduleBuffer i buffer }
  | .packet k => s.scheduleOpus k buffer

/-- What it starts. -/
def scheduled (s : LhDownlink) (f : AudioFrame) (buffer : AudioBuffer) : AudioSource where
  link := match f with | .link i => i | .packet k => k
  buffer := buffer
  start := max (s.audio.lhAudioCtx.currentTime + 1 / 20) s.audio.nextTime

theorem schedule_started (s : LhDownlink) (f : AudioFrame) (buffer : AudioBuffer) :
    (s.schedule f buffer).audio.started = s.audio.started ++ [s.scheduled f buffer] := by
  cases f <;> rfl

theorem schedule_heard (h : Heard b p c s) (f : AudioFrame) (buffer : AudioBuffer) :
    (s.schedule f buffer).heard = s.heard ++ [(f, s.scheduled f buffer)] := by
  have hfresh : s.audio.started.length ∉ s.opusSources := fun hc => (h.known _ hc).false
  cases f with
  | link i =>
    rw [heard_concat (schedule_started s (.link i) buffer) fun _ _ => Iff.rfl]
    exact congrArg (fun f => s.heard ++ [(f, _)]) (if_neg hfresh)
  | packet k =>
    have hopus : ∀ i < s.audio.started.length,
        i ∈ s.opusSources ++ [s.audio.started.length] ↔ i ∈ s.opusSources := fun i hi => by
      simp [hi.ne]
    rw [heard_concat (schedule_started s (.packet k) buffer) hopus]
    exact congrArg (fun f => s.heard ++ [(f, _)]) (if_pos (by simp [schedule, scheduleOpus]))

/-- **A buffer starts** behind those of earlier frames. -/
theorem Heard.schedule (h : Heard b p c s) {f : AudioFrame} (hf : s.Done b p f)
    (hbefore : ∀ x ∈ s.heard.drop c, x.1.Before f) (buffer : AudioBuffer) :
    Heard b p c (s.schedule f buffer) := by
  have hstart : s.audio.nextTime ≤ (s.scheduled f buffer).start := le_max_right _ _
  have hnext : (s.schedule f buffer).audio.nextTime = (s.scheduled f buffer).finish := by
    cases f <;> rfl
  have hfinish : (s.scheduled f buffer).start ≤ (s.scheduled f buffer).finish :=
    le_add_of_nonneg_right buffer.duration_pos.le
  have hdrop : (s.schedule f buffer).heard.drop c =
      s.heard.drop c ++ [(f, s.scheduled f buffer)] := by
    rw [schedule_heard h, List.drop_append_of_le_length (by rw [length_heard]; exact h.base)]
  have hdone : ∀ g, s.Done b p g → (s.schedule f buffer).Done b p g := fun g hg => by
    cases f <;> cases g <;> exact hg
  have hlength : (s.schedule f buffer).audio.started.length = s.audio.started.length + 1 := by
    rw [schedule_started, List.length_append, List.length_singleton]
  have hbase := h.base
  refine ⟨by omega, ?_, ?_, ?_, ?_, ?_⟩
  · intro i hi
    rw [hlength]
    cases f with
    | link j => exact (h.known i hi).trans (Nat.lt_succ_self _)
    | packet k =>
      rcases List.mem_append.mp hi with hi | hi
      · exact (h.known i hi).trans (Nat.lt_succ_self _)
      · exact List.mem_singleton.mp hi ▸ Nat.lt_succ_self _
  · rw [hdrop]
    intro x hx
    rcases List.mem_append.mp hx with hx | hx
    · exact hdone _ (h.done x hx)
    · cases List.mem_singleton.mp hx
      exact hdone f hf
  · rw [hdrop]
    refine List.pairwise_append.mpr ⟨h.ordered, List.pairwise_singleton _ _, fun x hx y hy => ?_⟩
    cases List.mem_singleton.mp hy
    exact ⟨hbefore x hx, (h.nextTime x hx).trans hstart⟩
  · rw [hdrop, hnext]
    intro x hx
    rcases List.mem_append.mp hx with hx | hx
    · exact (h.nextTime x hx).trans (hstart.trans hfinish)
    · cases List.mem_singleton.mp hx
      exact le_refl _
  · intro i hi
    have hstopped : (s.schedule f buffer).audio.stopped = s.audio.stopped := by cases f <;> rfl
    have hended : (s.schedule f buffer).audio.ended = s.audio.ended := by cases f <;> rfl
    have hsources : (s.schedule f buffer).audio.sources =
        s.audio.sources ++ [s.audio.started.length] := by cases f <;> rfl
    rw [LhAudio.Accounted, hstopped, hended, hsources]
    by_cases hlast : i = s.audio.started.length
    · exact Or.inr (Or.inr ⟨hlast ▸ h.base, by simp [hlast]⟩)
    · rcases h.accounted i (by omega) with hi | hi | ⟨hc, hi⟩
      · exact Or.inl hi
      · exact Or.inr (Or.inl hi)
      · exact Or.inr (Or.inr ⟨hc, List.mem_append_left _ hi⟩)

/-- **A stop stops every buffer source that has not ended**, and drops every packet. -/
theorem Heard.stop (h : Heard b p c s) (b' p' : Nat) :
    Heard b' p' s.audio.started.length s.lhStopAudio ∧ ∀ i < s.audio.started.length,
      i ∈ s.lhStopAudio.audio.stopped ∨ i ∈ s.lhStopAudio.audio.ended := by
  have hdead : ∀ i < s.audio.started.length,
      i ∈ s.lhStopAudio.audio.stopped ∨ i ∈ s.lhStopAudio.audio.ended := by
    intro i hi
    rcases h.accounted i hi with hi | hi | ⟨-, hi⟩
    · exact Or.inl (List.mem_append_left _ hi)
    · exact Or.inr hi
    · exact Or.inl (List.mem_append_right _ hi)
  have hnone : s.lhStopAudio.heard.drop s.audio.started.length = [] := by
    rw [List.drop_eq_nil_iff, length_heard]
    exact Nat.le_refl _
  have hknown : s.lhStopAudio.opusSources = s.opusSources := by
    unfold LhDownlink.lhStopAudio LhDownlink.lhResetOpus LhDownlink.closeOpusDec
    split <;> rfl
  refine ⟨⟨Nat.le_refl _, hknown ▸ h.known, ?_, ?_, ?_, fun i hi => ?_⟩, hdead⟩
  · rw [hnone]
    intro x hx
    cases hx
  · rw [hnone]
    exact .nil
  · rw [hnone]
    intro x hx
    cases hx
  · exact (hdead i hi).imp_right Or.inl

/-! ## Steps -/

/-- The links from the `b`-th on, the packets from the `p`-th on and the buffer sources from the
`c`-th on are those since the last stop. -/
structure Since (b p c : Nat) (s : LhDownlink) : Prop where
  chained : LhAudio.Chained b s.audio
  fed : Fed p s
  heard : Heard b p c s

/-- A step of what the codec and the rate are. -/
theorem Since.congr (h : Since b p c s) (haudio : s'.audio = s.audio)
    (hopusDec : s'.opusDec = s.opusDec) (hdecoders : s'.decoders = s.decoders)
    (hpackets : s'.packets = s.packets) (hopus : s'.opusSources = s.opusSources) :
    Since b p c s' := by
  have hopen : ∀ d, s'.Open d → s.Open d := fun d => by rw [Open, Open, hdecoders]; exact id
  have hpending : ∀ k, s'.Pending k → s.Pending k := fun k => by
    rw [Pending, Pending, hdecoders]
    exact id
  refine ⟨haudio ▸ h.chained, ⟨hpackets ▸ h.fed.base, ?_, hdecoders ▸ h.fed.closed, ?_, ?_⟩, ?_⟩
  · exact fun d hd => hopusDec ▸ h.fed.opened d (hopen d hd)
  · exact fun k hk => hpackets ▸ h.fed.pending k (hpending k hk)
  · exact hopusDec ▸ hdecoders ▸ h.fed.opusDec
  · refine h.heard.quiet ⟨hpackets ▸ Nat.le_refl _, fun k hk => Or.inl (hpending k hk)⟩ hopus ?_
    exact haudio ▸ ⟨rfl, rfl, fun _ => id, fun _ _ => id⟩

theorem Since.stop (h : Since b p c s) :
    Since s.audio.links.length s.packets.length s.audio.started.length s.lhStopAudio := by
  obtain ⟨hfed, hpending⟩ := h.fed.lhResetOpus
  have hpackets : s.lhStopAudio.packets = s.packets := by
    unfold LhDownlink.lhStopAudio LhDownlink.lhResetOpus LhDownlink.closeOpusDec
    split <;> rfl
  refine ⟨h.chained.stop, ?_, (h.heard.stop _ _).1⟩
  exact ⟨hpackets ▸ Nat.le_refl _, hfed.opened, hfed.closed,
    fun k hk => absurd hk (hpending k), hfed.opusDec⟩

/-- What a stop leaves: the frames and the buffer sources of before. -/
theorem next_stops {a : DownlinkAct} (ha : a.stops = true) (hs : s.next a = some s') :
    s'.audio = s.audio.lhStopAudio ∧ s'.opusDec = none ∧
      s'.decoders = s.lhStopAudio.decoders ∧ s'.packets = s.packets ∧
      s'.opusSources = s.opusSources := by
  have hstop : s.lhStopAudio.packets = s.packets ∧ s.lhStopAudio.opusSources = s.opusSources := by
    unfold LhDownlink.lhStopAudio LhDownlink.lhResetOpus LhDownlink.closeOpusDec
    split <;> exact ⟨rfl, rfl⟩
  cases a with
  | startLhSession | stop =>
    cases hs
    exact ⟨rfl, rfl, rfl, hstop⟩
  | message m =>
    cases m with
    | aborted =>
      cases hs
      exact ⟨rfl, rfl, rfl, hstop⟩
    | sessionStarted _ | audioStart _ _ => cases ha
  | opusMode _ | frame | audio _ | output _ _ _ | error _ => cases ha

theorem Since.stops {a : DownlinkAct} (h : Since b p c s) (ha : a.stops = true)
    (hs : s.next a = some s') :
    Since s.audio.links.length s.packets.length s.audio.started.length s' := by
  obtain ⟨haudio, hopusDec, hdecoders, hpackets, hopus⟩ := next_stops ha hs
  have hstop := next_stops (a := .stop) rfl (rfl : s.next .stop = _)
  exact h.stop.congr haudio hopusDec hdecoders (hpackets.trans hstop.2.2.2.1.symm)
    (hopus.trans hstop.2.2.2.2.symm)

/-- A step of the decoders alone. -/
theorem Since.decoders (h : Since b p c s) (hfed : Fed p s') (hlater : Later s s')
    (hopus : s'.opusSources = s.opusSources)
    (haudio : s'.audio = s.audio ∨ s'.audio = s.audio.lhAudioCtx) : Since b p c s' := by
  have hquiet : LhAudio.Quiet s.audio s'.audio := by
    rcases haudio with haudio | haudio <;> rw [haudio]
    all_goals exact ⟨rfl, rfl, fun _ => id, fun _ _ => id⟩
  refine ⟨?_, hfed, h.heard.quiet hlater hopus hquiet⟩
  rcases haudio with haudio | haudio <;> rw [haudio]
  · exact h.chained
  · exact h.chained.congr rfl rfl rfl

theorem Since.reset (h : Since b p c s) : Since b p c s.lhResetOpus := by
  obtain ⟨hfed, hpending⟩ := h.fed.lhResetOpus
  have hpackets : s.lhResetOpus.packets = s.packets ∧ s.lhResetOpus.opusSources = s.opusSources ∧
      s.lhResetOpus.audio = s.audio := by
    unfold LhDownlink.lhResetOpus LhDownlink.closeOpusDec
    split <;> exact ⟨rfl, rfl, rfl⟩
  exact h.decoders hfed ⟨hpackets.1 ▸ Nat.le_refl _, fun k hk => absurd hk (hpending k)⟩
    hpackets.2.1 (Or.inl hpackets.2.2)

theorem Since.init (h : Since b p c s) : Since b p c s.lhInitOpusDecoder := by
  obtain ⟨hfed, hpending⟩ := h.fed.lhInitOpusDecoder
  have hsame : s.lhInitOpusDecoder.packets = s.packets ∧
      s.lhInitOpusDecoder.opusSources = s.opusSources ∧
      s.lhInitOpusDecoder.audio = s.audio.lhAudioCtx := by
    unfold LhDownlink.lhInitOpusDecoder LhDownlink.closeOpusDec
    split <;> exact ⟨rfl, rfl, rfl⟩
  exact h.decoders hfed ⟨hsame.1 ▸ Nat.le_refl _, fun k hk => absurd hk (hpending k)⟩ hsame.2.1
    (Or.inr hsame.2.2)

theorem Since.feed (h : Since b p c s) : Since b p c s.lhFeedOpus := by
  have hdecode : ∀ {t d}, Since b p c t → t.Open d → Since b p c (t.decodeOpus d) := by
    intro t d ht hopen
    refine ht.decoders (ht.fed.decodeOpus hopen) ⟨?_, fun k hk => ?_⟩ rfl (Or.inl rfl)
    · simp [LhDownlink.decodeOpus]
    · exact (decodeOpus_pending hk).imp_right fun hk => hk.ge
  obtain ⟨t, d, ht, -, hopen, heq⟩ := lhFeedOpus_eq s
  rw [heq]
  rcases ht with rfl | rfl
  · exact hdecode h hopen
  · exact hdecode h.init hopen

/-- A step of the links alone. -/
theorem Since.links {audio : LhAudio} (h : Since b p c s) (hchained : LhAudio.Chained b audio)
    (hquiet : LhAudio.Quiet s.audio audio) : Since b p c { s with audio } :=
  ⟨hchained, ⟨h.fed.base, h.fed.opened, h.fed.closed, h.fed.pending, h.fed.opusDec⟩,
    h.heard.quiet ⟨Nat.le_refl _, fun _ => Or.inl⟩ rfl hquiet⟩

/-- **A piece is decoded**: the pieces heard since the stop are before it. -/
theorem Since.decoded {i : Nat} (h : Since b p c s) (hi : s.audio.Decoding i)
    (buffer : AudioBuffer) (hchained : LhAudio.Chained b (s.audio.setPhase i .settled)) :
    Since b p c { s with audio := (s.audio.setPhase i .settled).lhScheduleBuffer i buffer } := by
  obtain ⟨hb, hafter⟩ := hi.after h.chained
  obtain ⟨l, hl, hphase, -⟩ := hi
  have hset : Since b p c { s with audio := s.audio.setPhase i .settled } :=
    h.links hchained (.setPhase hl (by simp [hphase]))
  refine ⟨hset.chained.congr rfl rfl rfl, ?_, hset.heard.schedule (f := .link i) ?_ ?_ buffer⟩
  · exact ⟨h.fed.base, h.fed.opened, h.fed.closed, h.fed.pending, h.fed.opusDec⟩
  · exact ⟨hb, _, LhAudio.getElem?_setPhase_self hl, rfl⟩
  · intro x hx
    have hdone := h.heard.done x hx
    cases hf : x.1 with
    | link j =>
      rw [hf] at hdone
      exact hafter j hdone.2
    | packet k => trivial

/-- **A packet is put out**: the packets heard since the stop are before it. -/
theorem Since.output {d k : Nat} {dec : OpusDecoder} (h : Since b p c s)
    (hdec : s.decoders[d]? = some dec) (hk : k ∈ dec.pending) :
    Since b p c (s.takeOutput d k) ∧
      ∀ buffer, Since b p c ((s.takeOutput d k).scheduleOpus k buffer) := by
  have hpending : s.Pending k := ⟨dec, List.mem_of_getElem? hdec, hk⟩
  obtain ⟨hp, hlt⟩ := h.fed.pending k hpending
  have htaken : Since b p c (s.takeOutput d k) :=
    h.decoders (h.fed.takeOutput hdec hk)
      ⟨Nat.le_refl _, fun l hl => Or.inl (takeOutput_pending h.fed hdec hk hl).1⟩ rfl (Or.inl rfl)
  refine ⟨htaken, fun buffer => ⟨htaken.chained.congr rfl rfl rfl, ?_, ?_⟩⟩
  · exact ⟨htaken.fed.base, htaken.fed.opened, htaken.fed.closed, htaken.fed.pending,
      htaken.fed.opusDec⟩
  · refine htaken.heard.schedule (f := .packet k) ⟨hp, hlt, fun l hl => ?_⟩ (fun x hx => ?_) buffer
    · exact (takeOutput_pending h.fed hdec hk hl).2
    · have hdone := h.heard.done x hx
      cases hf : x.1 with
      | link j => trivial
      | packet j =>
        rw [hf] at hdone
        exact hdone.2.2 k hpending

theorem Since.next {a : DownlinkAct} (h : Since b p c s) (ha : ¬a.stops = true)
    (hs : s.next a = some s') : Since b p c s' := by
  cases a with
  | startLhSession | stop => exact absurd rfl ha
  | opusMode on =>
    cases hs
    have hrate : Since b p c (if on then { s with outRate := 24000 } else s) := by
      cases on
      · exact h
      · exact h.congr rfl rfl rfl rfl rfl
    exact hrate.reset
  | message m =>
    cases hs
    cases m with
    | sessionStarted rate => exact h.congr rfl rfl rfl rfl rfl
    | audioStart codec rate =>
      simp only [onMessage]
      split <;> exact h.congr rfl rfl rfl rfl rfl
    | aborted => exact absurd rfl ha
  | frame =>
    cases hs
    unfold onFrame
    split
    · exact h.feed
    · refine h.links h.chained.enqueue ⟨rfl, rfl, fun i hi => ?_, fun _ _ => id⟩
      obtain ⟨l, hl, hsettled⟩ := hi
      exact ⟨l, getElem?_concat_of_some hl _, hsettled⟩
  | audio a =>
    obtain ⟨henqueue, hstop, audio, haudio, rfl⟩ := next_audio hs
    obtain ⟨hchained, hquiet | ⟨i, buffer, hi, hset, rfl⟩⟩ :=
      LhAudio.next_cases henqueue hstop h.chained haudio
    · exact h.links hchained hquiet
    · exact h.decoded hi buffer hset
  | output d k buffer =>
    obtain ⟨dec, hdec, hs⟩ := Option.bind_eq_some_iff.mp hs
    rw [Option.ite_none_right_eq_some] at hs
    obtain ⟨hk, hs⟩ := hs
    cases buffer with
    | none =>
      cases hs
      exact (h.output hdec hk).1
    | some buffer =>
      cases hs
      exact (h.output hdec hk).2 buffer
  | error d =>
    obtain ⟨dec, hdec, hs⟩ := Option.bind_eq_some_iff.mp hs
    split at hs
    · cases hs
    · cases hs
      exact h.decoders (h.fed.closeDecoder d)
        ⟨Nat.le_refl _, fun k hk => Or.inl (closeDecoder_pending hk)⟩ rfl (Or.inl rfl)

/-! ## Runs -/

theorem closeOpusDec_heard (s : LhDownlink) : s.closeOpusDec.heard = s.heard := by
  unfold LhDownlink.closeOpusDec
  split <;> rfl

theorem lhFeedOpus_heard (s : LhDownlink) : s.lhFeedOpus.heard = s.heard := by
  obtain ⟨t, d, ht, -, -, heq⟩ := lhFeedOpus_eq s
  rw [heq]
  rcases ht with rfl | rfl
  · rfl
  · exact closeOpusDec_heard s

/-- A buffer source stays among those heard. -/
theorem Since.next_heard {a : DownlinkAct} (h : Since b p c s) (hs : s.next a = some s') :
    s.heard <+: s'.heard := by
  by_cases ha : a.stops = true
  · obtain ⟨haudio, -, -, -, hopus⟩ := next_stops ha hs
    have heq : s'.heard = s.heard := heard_congr (by rw [haudio]; rfl) hopus
    exact heq ▸ List.prefix_rfl
  cases a with
  | startLhSession | stop => exact absurd rfl ha
  | opusMode on =>
    cases hs
    have hreset : ∀ t : LhDownlink, t.lhResetOpus.heard = t.heard := closeOpusDec_heard
    rw [hreset]
    cases on <;> exact List.prefix_rfl
  | message m =>
    cases hs
    cases m with
    | sessionStarted rate => exact List.prefix_rfl
    | audioStart codec rate =>
      simp only [onMessage]
      split <;> exact List.prefix_rfl
    | aborted => exact absurd rfl ha
  | frame =>
    cases hs
    unfold onFrame
    split
    · exact (lhFeedOpus_heard s).symm ▸ List.prefix_rfl
    · exact List.prefix_rfl
  | audio a =>
    obtain ⟨henqueue, hstop, audio, haudio, rfl⟩ := next_audio hs
    obtain ⟨-, hquiet | ⟨i, buffer, hi, hset, rfl⟩⟩ :=
      LhAudio.next_cases henqueue hstop h.chained haudio
    · have heq : { s with audio }.heard = s.heard := heard_congr hquiet.started rfl
      exact heq ▸ List.prefix_rfl
    · have hfresh : Heard b p c { s with audio := s.audio.setPhase i .settled } := by
        obtain ⟨l, hl, hphase, -⟩ := hi
        exact (h.links hset (.setPhase hl (by simp [hphase]))).heard
      exact (schedule_heard hfresh (.link i) buffer).symm ▸ List.prefix_append _ _
  | output d k buffer =>
    obtain ⟨dec, hdec, hs⟩ := Option.bind_eq_some_iff.mp hs
    rw [Option.ite_none_right_eq_some] at hs
    obtain ⟨hk, hs⟩ := hs
    cases buffer with
    | none =>
      cases hs
      exact List.prefix_rfl
    | some buffer =>
      cases hs
      exact (schedule_heard (h.output hdec hk).1.heard (.packet k) buffer).symm ▸
        List.prefix_append _ _
  | error d =>
    obtain ⟨dec, hdec, hs⟩ := Option.bind_eq_some_iff.mp hs
    split at hs
    · cases hs
    · cases hs
      exact List.prefix_rfl

theorem since_init : Since 0 0 0 {} ∧ Stamped {} := by
  refine ⟨⟨LhAudio.since_init.1, ⟨Nat.le_refl _, ?_, by simp, ?_, by simp⟩,
    ⟨Nat.le_refl _, by simp, by simp [heard], .nil, by simp [heard], by simp⟩⟩,
    ⟨fun d => rfl, nofun, nofun⟩⟩
  · rintro d ⟨dec, hdec, -⟩
    simp at hdec
  · rintro k ⟨dec, hdec, -⟩
    simp at hdec

/-- Every state is one since some stop, or since the page was loaded. -/
theorem exists_since {acts : List DownlinkAct} (h : run next {} acts = some s) :
    (∃ b p c, Since b p c s) ∧ Stamped s := by
  refine run_inv (I := fun s => (∃ b p c, Since b p c s) ∧ Stamped s) ?_
    ⟨⟨0, 0, 0, since_init.1⟩, since_init.2⟩ h
  rintro s a s' ⟨⟨b, p, c, hi⟩, hstamped⟩ hs
  refine ⟨?_, hstamped.next hs⟩
  by_cases ha : a.stops = true
  · exact ⟨_, _, _, hi.stops ha hs⟩
  · exact ⟨b, p, c, hi.next ha hs⟩

/-- The state right after a stop, or the first one. -/
theorem since_stop {acts : List DownlinkAct} (h : run next {} acts = some s)
    (hlast : acts = [] ∨ ∃ a, acts.getLast? = some a ∧ a.stops = true) :
    Since s.audio.links.length s.packets.length s.heard.length s := by
  rw [length_heard]
  rcases hlast with rfl | ⟨a, hlast, ha⟩
  · cases h
    exact since_init.1
  · obtain ⟨acts, rfl⟩ := List.getLast?_eq_some_iff.mp hlast
    obtain ⟨m, hm, hstop⟩ := run_concat_some.mp h
    obtain ⟨⟨b, p, c, hi⟩, -⟩ := exists_since hm
    obtain ⟨haudio, -, -, hpackets, -⟩ := next_stops ha hstop
    rw [haudio, hpackets]
    exact hi.stops ha hstop

/-- No stop comes in between. -/
theorem since_run {acts : List DownlinkAct} (h : Since b p c s)
    (hacts : ∀ a ∈ acts, ¬a.stops = true) (hr : run next s acts = some s') :
    Since b p c s' ∧ s.heard <+: s'.heard := by
  refine run_inv_along (P := fun _ a => ¬DownlinkAct.stops a = true)
    (I := fun t => Since b p c t ∧ s.heard <+: t.heard) ?_ ⟨h, List.prefix_rfl⟩ ?_ hr
  · rintro t a t' ⟨hi, hext⟩ ha ht
    exact ⟨hi.next ha ht, hext.trans (hi.next_heard ht)⟩
  · exact along_of_forall hacts

/-- The frames of one codec that are heard since the stop, in their order. -/
theorem Since.sublist (h : Since b p c s) :
    ((s.heard.drop c).filterMap (·.1.link?)).Sublist
        (List.range' b (s.audio.links.length - b)) ∧
      ((s.heard.drop c).filterMap (·.1.packet?)).Sublist
        (List.range' p (s.packets.length - p)) := by
  have hdone := h.heard.done
  refine ⟨sublist_range' ?_ fun i hi => ?_, sublist_range' ?_ fun k hk => ?_⟩
  · refine h.heard.ordered.filterMap _ fun x y hxy i hi j hj => ?_
    cases hx : x.1 <;> cases hy : y.1 <;> simp_all [AudioFrame.link?, AudioFrame.Before]
  · obtain ⟨x, hx, hlink⟩ := List.mem_filterMap.mp hi
    have hx := hdone x hx
    cases hf : x.1 with
    | link j =>
      rw [hf] at hx hlink
      cases hlink
      obtain ⟨hle, l, hl, -⟩ := hx
      exact ⟨hle, (List.getElem?_eq_some_iff.mp hl).1⟩
    | packet k =>
      rw [hf] at hlink
      cases hlink
  · refine h.heard.ordered.filterMap _ fun x y hxy i hi j hj => ?_
    cases hx : x.1 <;> cases hy : y.1 <;> simp_all [AudioFrame.packet?, AudioFrame.Before]
  · obtain ⟨x, hx, hpacket⟩ := List.mem_filterMap.mp hk
    have hx := hdone x hx
    cases hf : x.1 with
    | link j =>
      rw [hf] at hpacket
      cases hpacket
    | packet l =>
      rw [hf] at hx hpacket
      cases hpacket
      exact ⟨hx.1, hx.2.1⟩

/-- A buffer of a frame of before the stop was started before it, and is silent. -/
theorem Since.silent (h : Since b p c s) {i : Nat} {f : AudioFrame} {src : AudioSource}
    (hsrc : s.heard[i]? = some (f, src))
    (hf : match f with | .link j => j < b | .packet k => k < p) :
    i < c ∧ (i ∈ s.audio.stopped ∨ i ∈ s.audio.ended) := by
  have hi : i < c := by
    by_contra hle
    have hmem : (f, src) ∈ s.heard.drop c := by
      refine List.mem_of_getElem? (i := i - c) ?_
      rw [List.getElem?_drop, Nat.add_sub_cancel' (Nat.le_of_not_lt hle)]
      exact hsrc
    have hdone := h.heard.done _ hmem
    cases f with
    | link j => exact absurd hdone.1 (Nat.not_le_of_lt hf)
    | packet k => exact absurd hdone.1 (Nat.not_le_of_lt hf)
  have hlt : i < s.audio.started.length := by
    rw [← length_heard]
    exact (List.getElem?_eq_some_iff.mp hsrc).1
  refine ⟨hi, ?_⟩
  rcases h.heard.accounted i hlt with hstopped | hended | ⟨hle, -⟩
  · exact Or.inl hstopped
  · exact Or.inr hended
  · omega

/--
**Frames of both codecs play in order and die on barge-in.** In a run, let `m` be the state right
after the last stop (the server's `aborted`, a click on Stop, a start), or the first state where
there was none. The buffers started since play one behind the other; those of pieces are in the
order of the pieces that came since, those of packets in the order of the packets that came since;
and no frame that came before is started since, or is neither stopped nor over. One decoder at most
is open, and the packets of each carry the time stamps 0, 60000, 120000, ….
-/
theorem frames_in_order (pre post : List DownlinkAct) {m t : LhDownlink}
    (hpre : pre = [] ∨ ∃ a, pre.getLast? = some a ∧ a.stops = true)
    (hpost : ∀ a ∈ post, ¬a.stops = true)
    (hm : run next {} pre = some m) (ht : run next m post = some t) :
    let since := t.heard.drop m.heard.length
    m.heard <+: t.heard ∧
    (since.filterMap (·.1.link?)).Sublist (List.range' m.audio.links.length
      (t.audio.links.length - m.audio.links.length)) ∧
    (since.filterMap (·.1.packet?)).Sublist (List.range' m.packets.length
      (t.packets.length - m.packets.length)) ∧
    since.Pairwise (fun x y =>
      x.2.start < y.2.start ∧ x.2.interval ∩ y.2.interval = ∅) ∧
    (∀ i f src, t.heard[i]? = some (f, src) → m.Came f →
      i < m.heard.length ∧ (i ∈ t.audio.stopped ∨ i ∈ t.audio.ended)) ∧
    (∀ d e, t.Open d → t.Open e → d = e) ∧
    ∀ d, t.stamps d = (List.range (t.stamps d).length).map (60000 * ·) := by
  intro since
  obtain ⟨hsince, hext⟩ := since_run (since_stop hm hpre) hpost ht
  obtain ⟨-, hstamped⟩ := exists_since (run_append_some.mpr ⟨m, hm, ht⟩)
  refine ⟨hext, hsince.sublist.1, hsince.sublist.2, ?_, fun i f src hsrc hf => ?_, ?_,
    hstamped.stamps⟩
  · exact hsince.heard.ordered.imp fun h => AudioSource.interval_inter h.2
  · refine hsince.silent hsrc ?_
    cases f <;> exact hf
  · intro d e hd he
    exact Option.some.inj ((hsince.fed.opened d hd).symm.trans (hsince.fed.opened e he))

/-- A packet is pending at the barge-in, and a piece is decoding. -/
def bargeIn : List DownlinkAct :=
  [.message (.audioStart (some "opus") (some 48000)), .frame,
    .message (.audioStart none none), .frame, .audio (.begin 0 false), .message .aborted]

/-- Its output and its buffer are left; a packet and a piece come behind them. -/
def nextFrames : List DownlinkAct :=
  [.audio (.decoded 0 LhAudio.halfSecond), .frame,
    .message (.audioStart (some "opus") none), .frame, .output 1 1 (some LhAudio.halfSecond),
    .audio (.begin 1 false), .audio (.advance 1), .audio (.decoded 1 LhAudio.halfSecond)]

theorem nextFrames_in_order :
    ∃ m t, run next {} bargeIn = some m ∧ run next m nextFrames = some t ∧
      t.heard.map Prod.fst = [.packet 1, .link 1] ∧
      t.heard.Pairwise fun x y => x.2.start < y.2.start ∧ x.2.interval ∩ y.2.interval = ∅ :=
  ⟨_, _, rfl, rfl, rfl, (frames_in_order bargeIn nextFrames (Or.inr ⟨_, rfl, rfl⟩) (by decide)
    rfl rfl).2.2.2.1⟩

end LhDownlink

end Livehost
