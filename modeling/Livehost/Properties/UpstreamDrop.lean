import Livehost.Spec.Sessions

/-!
# Upstream drops and the TikTok session

A drop of the upstream connection is the business of the down task, which redials or gives up; the
handler, its ingestor and its registry entry are meant to outlive it. What the redial does not cover
is the browser: `pump_up` sends every frame on whatever connection `Upstream._ws` points at, and a
send on a dropped one raises out of the receive loop, into the teardown.

* `upstream_drop_iff` — the session outlives every drop exactly when no frame is sent on a dropped
  connection
* `audio_after_drop_tears_down` — a drop and one audio frame
-/

namespace Livehost

open Infra Spec

variable {σ β : Type}

/-! ## The law and its condition -/

/-- While the browser has not disconnected, a handler whose first connect succeeded is in its
receive loop, has not stopped its ingestor and holds its registry entry, unless its owner reclaimed
it. -/
def Kept (s : Server σ β) : Prop :=
  ∀ i, ((s.streams i).pc.running = true ∨ (s.streams i).pc.inTeardown = true) →
    (s.streams i).browserGone = false →
    (s.streams i).pc.inTeardown = false ∧ (s.streams i).stopCalled = false ∧
      (s.registry.get (s.streams i).config.sessionId = some ((s.streams i).session i) ∨
        Reclaimed s.history (s.streams i).config.sessionId ((s.streams i).session i))

/-- **The law.** Every state of the run keeps the sessions, and so does the state after a send that
the run left hanging on a dropped connection has raised. -/
def KeepsSessions [Score σ] [PyLower] (acts : List (ServerAct β)) : Prop :=
  ∀ pre post ext (s : Server σ β), acts = pre ++ post →
    (ext = [] ∨ ∃ i, ext = [.stream i .forwardRaises]) →
    run serverStep .start (pre ++ ext) = some s → Kept s

/-- No frame is handed to `pump_up` while the upstream connection is down, and the connection does
not drop while `pump_up` is sending. -/
def SendsOnLive (s : Server σ β) (a : ServerAct β) : Prop :=
  ∀ i,
    (∀ frame, a = .stream i (.frame frame) → (s.streams i).pc = .receiving →
      frame.payload = true → (s.streams i).live = true) ∧
    (a = .stream i .drop → (s.streams i).live = true →
      ∀ dead, (s.streams i).pc ≠ .forwarding dead)

/-! ## One handler -/

/-- What holds of every handler in every run. -/
def NotYetGone (h : Stream σ β) : Prop :=
  h.pc.inTeardown = false → h.browserGone = false ∧ h.stopCalled = false

/-- What holds of every handler in a run that sends on live connections only. -/
structure DropInv (h : Stream σ β) : Prop where
  gone : h.pc.inTeardown = true → h.browserGone = true
  sends : ∀ dead, h.pc = .forwarding dead → dead = false ∧ h.live = true

section Step

variable [Score σ] [PyLower] {i : Nat} {r r' : LivehostSessionRegistry} {h h' : Stream σ β}
  {act : StreamAct β} {returned : Option Nat}

theorem NotYetGone.step (hi : NotYetGone h) (hm : Stream.Moves i r h act r' h' returned) :
    NotYetGone h' := by
  unfold NotYetGone at *
  cases hm with
  | ingest act result =>
    rw [Stream.afterStop_inTeardown]
    exact hi
  | tasksEnded hpc =>
    rw [Stream.afterStop_inTeardown]
    exact fun hc => by cases hc
  | task act h' hrun hstep =>
    obtain ⟨-, hgone, hstop, -, -⟩ := Stream.taskStep_frame hstep
    rw [hgone, hstop]
    exact fun _ => hi (StreamPc.not_inTeardown hrun)
  | frame frame hpc => exact fun _ => hi (by rw [hpc]; rfl)
  | granted config hpc | refused config hpc | dialed now hpc =>
    exact fun _ => hi (by rw [hpc]; rfl)
  | dialFails hpc | reported hpc | forwarded hpc => exact fun _ => hi (by rw [hpc]; rfl)
  | disconnect | forwardRaises | closed => exact fun hc => (by cases hc)

theorem DropInv.step (hi : DropInv h) (hm : Stream.Moves i r h act r' h' returned)
    (hframe : ∀ frame, act = .frame frame → h.pc = .receiving → frame.payload = true →
      h.live = true)
    (hdrop : act = .drop → h.live = true → ∀ dead, h.pc ≠ .forwarding dead) : DropInv h' := by
  cases hm with
  | ingest act result =>
    refine ⟨?_, fun dead hpc => hi.sends dead ((h.afterStop_forwarding result dead).mp hpc)⟩
    rw [Stream.afterStop_inTeardown]
    exact hi.gone
  | tasksEnded hpc =>
    constructor
    · intro _
      exact hi.gone (by rw [hpc]; rfl)
    · intro dead hf
      rw [Stream.afterStop_forwarding] at hf
      cases hf
  | task act h' hrun hstep =>
    obtain ⟨-, hgone, -, -, ⟨hact, hlive, hpc⟩ | ⟨-, hpc, hlive⟩⟩ := Stream.taskStep_frame hstep
    · -- nothing was being sent when the connection dropped
      have hsend := hdrop hact hlive
      constructor
      · intro ht
        rw [hpc, StreamPc.not_inTeardown (by rw [StreamPc.running_drop, hrun])] at ht
        cases ht
      · intro dead hf
        rw [hpc] at hf
        cases hh : h.pc <;> rw [hh] at hf <;> cases hf
        exact absurd hh (hsend _)
    · constructor
      · intro ht
        rw [hpc, StreamPc.not_inTeardown hrun] at ht
        cases ht
      · intro dead hf
        rw [hpc] at hf
        obtain ⟨hdead, hl⟩ := hi.sends dead hf
        exact ⟨hdead, hlive hl⟩
  | frame frame hpc =>
    cases hp : frame.payload with
    | false => constructor <;> intros <;> contradiction
    | true =>
      have hlive := hframe frame rfl hpc hp
      constructor
      · intro ht
        cases ht
      · intro dead hf
        cases hf
        exact ⟨by rw [hlive]; rfl, hlive⟩
  | forwardRaises hpc => cases (hi.sends true hpc).1
  | disconnect => exact ⟨fun _ => rfl, fun dead hf => by cases hf⟩
  | closed hpc => exact ⟨fun _ => hi.gone (by rw [hpc]; rfl), fun dead hf => by cases hf⟩
  | granted | refused | dialed | dialFails | reported | forwarded =>
    exact ⟨fun hc => (by cases hc), fun dead hf => by cases hf⟩

end Step

/-! ## The server -/

section Server

variable [Score σ] [PyLower] {s s' : Server σ β}

theorem notYetGone_run {acts : List (ServerAct β)} (h : run serverStep .start acts = some s) :
    ∀ i, NotYetGone (s.streams i) := by
  refine run_inv (I := fun s => ∀ i, NotYetGone (s.streams i)) ?_ (fun _ _ => ⟨rfl, rfl⟩) h
  intro s a s' hi hs
  refine streams_inv (I := fun _ => NotYetGone) hi (fun _ i _ _ => hi i) ?_ hs
  intro i act registry h returned _ hm
  exact (hi i).step hm

theorem dropInv_run {acts : List (ServerAct β)}
    (hc : Along serverStep SendsOnLive (.start : Server σ β) acts)
    (h : run serverStep .start acts = some s) : ∀ i, DropInv (s.streams i) := by
  refine run_inv_along (I := fun s => ∀ i, DropInv (s.streams i)) ?_ ?_ hc h
  · intro s a s' hi hc hs
    refine streams_inv (I := fun _ => DropInv) hi (fun _ i _ _ => ⟨(hi i).gone, (hi i).sends⟩) ?_ hs
    intro i act registry h returned ha hm
    refine (hi i).step hm ?_ ?_
    · intro frame he
      exact (hc i).1 frame (by rw [ha, he])
    · intro he
      exact (hc i).2 (by rw [ha, he])
  · intro i
    constructor
    · intro h
      cases h
    · intro dead h
      cases h

/-- A running handler holds its entry. -/
theorem kept_of_dropInv {acts : List (ServerAct β)} (h : run serverStep .start acts = some s)
    (hi : ∀ i, DropInv (s.streams i)) : Kept s := by
  rintro i hdialed hgone
  have hteardown : (s.streams i).pc.inTeardown = false := by
    cases ht : (s.streams i).pc.inTeardown with
    | false => rfl
    | true =>
      rw [(hi i).gone ht] at hgone
      cases hgone
  have hrun : (s.streams i).pc.running = true := by
    rw [hteardown] at hdialed
    exact hdialed.resolve_right Bool.false_ne_true
  exact ⟨hteardown, (notYetGone_run h i hteardown).2,
    holds_or_reclaimed h (Stream.conn_of_running hrun)⟩

/-- A handler's own step, at the server. -/
theorem serverStep_stream {i : Nat} {act : StreamAct β} {registry : LivehostSessionRegistry}
    {h : Stream σ β} (hstep : (s.streams i).step i s.registry act = some (registry, h, none)) :
    ∃ s', serverStep s (.stream i act) = some s' ∧ s'.streams i = h :=
  ⟨s.afterStream i registry h none, by rw [serverStep, hstep]; rfl, Function.update_self ..⟩

/-- A send on a dropped connection raises into the teardown. -/
theorem not_kept_of_dead {i : Nat} (hpc : (s.streams i).pc = .forwarding true)
    (hn : NotYetGone (s.streams i)) :
    ∃ s', serverStep s (.stream i .forwardRaises) = some s' ∧ ¬ Kept s' := by
  have hstep : (s.streams i).step i s.registry .forwardRaises
      = some (s.registry, { s.streams i with pc := .cancelling }, none) := by
    simp only [Stream.step, hpc]
  obtain ⟨s', hs', hstr⟩ := serverStep_stream hstep
  refine ⟨s', hs', fun hk => ?_⟩
  have hki := hk i
  rw [hstr] at hki
  exact Bool.noConfusion (hki (Or.inr rfl) (hn (by rw [hpc]; rfl)).1).1

/-- A frame that is handed to `pump_up` on a dropped connection. -/
theorem dead_of_frame {i : Nat} {frame : Frame} (hpc : (s.streams i).pc = .receiving)
    (hp : frame.payload = true) (hlive : (s.streams i).live = false) :
    ∃ s', serverStep s (.stream i (.frame frame)) = some s' ∧
      (s'.streams i).pc = .forwarding true := by
  have hstep : (s.streams i).step i s.registry (.frame frame)
      = some (s.registry, { s.streams i with pc := .forwarding true }, none) := by
    simp only [Stream.step, hpc, hp, hlive, if_true, Bool.not_false]
  obtain ⟨s', hs', hstr⟩ := serverStep_stream hstep
  exact ⟨s', hs', by rw [hstr]⟩

/-- A connection that drops while `pump_up` is sending on it. -/
theorem dead_of_drop {i : Nat} {dead : Bool} (hpc : (s.streams i).pc = .forwarding dead)
    (hlive : (s.streams i).live = true) :
    ∃ s', serverStep s (.stream i .drop) = some s' ∧ (s'.streams i).pc = .forwarding true := by
  have hstep : (s.streams i).step i s.registry .drop
      = some (s.registry, (s.streams i).dropped, none) := by
    simp [Stream.step, Stream.taskStep, hpc, hlive, StreamPc.running]
  obtain ⟨s', hs', hstr⟩ := serverStep_stream hstep
  exact ⟨s', hs', by rw [hstr]; simp [Stream.dropped, hpc, StreamPc.drop]⟩

/--
**When an upstream drop costs nothing.** A run keeps every session through all its drops, redials,
frames, events and ticks, and through whatever its last send gives, exactly when no frame is handed
to `pump_up` on a dropped connection and no connection drops while `pump_up` is sending on it.
-/
theorem upstream_drop_iff (acts : List (ServerAct β)) :
    KeepsSessions (σ := σ) acts ↔ Along serverStep SendsOnLive (.start : Server σ β) acts := by
  constructor
  · intro hkeeps
    rw [along_iff]
    rintro pre a post s rfl hs i
    -- after either step the send is dead, and one raise away from the teardown
    have hdead : ∀ s', serverStep s a = some s' → (s'.streams i).pc ≠ .forwarding true := by
      intro s' hs' hpc
      have hrun := run_concat_some.mpr ⟨s, hs, hs'⟩
      obtain ⟨s'', hs'', hnot⟩ := not_kept_of_dead hpc (notYetGone_run hrun i)
      exact hnot (hkeeps (pre ++ [a]) post [.stream i .forwardRaises] s'' (by simp)
        (Or.inr ⟨i, rfl⟩) (run_concat_some.mpr ⟨s', hrun, hs''⟩))
    constructor
    · intro frame ha hpc hp
      by_contra hlive
      obtain ⟨s', hs', hf⟩ := dead_of_frame hpc hp (by simpa using hlive)
      exact hdead s' (by rw [ha]; exact hs') hf
    · intro ha hlive dead hpc
      obtain ⟨s', hs', hf⟩ := dead_of_drop hpc hlive
      exact hdead s' (by rw [ha]; exact hs') hf
  · rintro hc pre post ext s rfl hext hs
    have hpre := (along_append.mp hc).1
    have hall : Along serverStep SendsOnLive (.start : Server σ β) (pre ++ ext) := by
      refine along_append.mpr ⟨hpre, fun m _ => ?_⟩
      rcases hext with rfl | ⟨i, rfl⟩
      · trivial
      · exact ⟨fun j => ⟨fun frame he => by simp at he, fun he => by simp at he⟩,
          fun _ _ => trivial⟩
    exact kept_of_dropInv hs (dropInv_run hall hs)

end Server

/-- The upstream connection drops, and the browser goes on sending audio. -/
def audioAfterDrop : List (ServerAct Unit) :=
  [.stream 0 (.accept { sessionId := "room", userId := "u1" }), .stream 0 (.dialed 0),
    .stream 0 .drop, .stream 0 (.frame { bytes := some [0] }), .stream 0 .forwardRaises]

/-- **One audio frame after a drop costs the session.** -/
theorem audio_after_drop_tears_down :
    ¬ ∀ (_ : PyLower) (acts : List (ServerAct Unit)), KeepsSessions (σ := Int) acts := by
  intro h
  have hkept := h ⟨id⟩ audioAfterDrop audioAfterDrop [] [] _ rfl (Or.inl rfl) rfl 0 (Or.inr rfl) rfl
  exact Bool.noConfusion hkept.1

end Livehost
