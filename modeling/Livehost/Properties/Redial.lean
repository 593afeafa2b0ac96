import Livehost.Api.Down
import Livehost.Infra.Machine

/-!
# Redialling after a drop

`_redial` retries on `OSError`. The websockets package reports a refused handshake and an abnormal
end of the stream by exceptions of its own, which derive from `Exception` directly and go past that
clause: the down task ends with the first of them.

* `redials_iff` — every drop is redialled exactly when every failure is an `OSError`
* `closed_stream_ends_task` — the first connection ends with `ConnectionClosedError`
-/

namespace Livehost

open Infra

variable {σ β : Type}

/-- The down task with its relay, as a machine. -/
def redialStep (args : RedialArgs) (s : Relay σ × Down β) (a : DownAct β) :
    Option (Relay σ × Down β) :=
  downStep args s.1 s.2 a

/-- What fails is a connect, refused at the handshake or by the system, or the stream of events,
which ends with `ConnectionClosedError`. -/
def PackageFailure (s : Relay σ × Down β) (a : DownAct β) : Prop :=
  ∀ exc, a = .raises exc →
    s.2.pc = .connecting ∧ (exc = .invalidStatus ∨ exc = .osError) ∨
      s.2.pc = .receiving ∧ exc = .connectionClosed

/-- **The law**: a failure before the last attempt leads to another attempt, after a sleep; and the
task does not end with an exception. -/
structure Redials (args : RedialArgs) (s₀ : Relay σ × Down β) (acts : List (DownAct β)) : Prop where
  again : ∀ pre exc post s s', acts = pre ++ .raises exc :: post →
    run (redialStep args) s₀ pre = some s → redialStep args s (.raises exc) = some s' →
    s'.2.attempt < args.maxAttempts →
    (∃ seconds, s'.2.pc = .sleeping seconds) ∧
      ∃ t, redialStep args s' .resumed = some t ∧ t.2.attempt = s'.2.attempt + 1 ∧
        (t.2.pc = .connecting ∨ t.2.pc = .receiving)
  silent : ∀ pre post s exc, acts = pre ++ post → run (redialStep args) s₀ pre = some s →
    s.2.pc ≠ .raised exc

/-! ## One failure -/

/-- The exception clause: an `OSError` is slept on, and the rest leaves the loop. -/
theorem raises_package {args : RedialArgs} {s s' : Relay σ × Down β} {exc : Exc}
    (hp : PackageFailure s (.raises exc)) (hs : redialStep args s (.raises exc) = some s') :
    s' = (s.1, redialExcept s.2 exc) := by
  rcases hp exc rfl with ⟨hpc, -⟩ | ⟨hpc, -⟩
  · simpa [redialStep, downStep, hpc] using hs.symm
  · simpa [redialStep, downStep, hpc] using hs.symm

/-- Whatever else a step is, it does not end the task with an exception. -/
theorem not_raised_step {args : RedialArgs} {s s' : Relay σ × Down β} {a : DownAct β}
    (hp : PackageFailure s a) (ha : ∀ exc, a = .raises exc → exc = .osError)
    (hs : redialStep args s a = some s') (exc : Exc) : s'.2.pc ≠ .raised exc := by
  have hloop : ∀ (r : Relay σ) (d : Down β), (redialLoop args r d).2.pc ≠ .raised exc := by
    intro r d
    unfold redialLoop
    split
    · dsimp only
      split <;> simp
    · simp
  cases a with
  | raises exc' =>
    rw [raises_package hp hs, ha exc' rfl]
    simp [redialExcept, Exc.retryable]
  | start | resumed =>
    simp only [redialStep, downStep] at hs
    split at hs <;> cases hs <;> first | exact hloop s.1 s.2 | simp
  | message now m =>
    simp only [redialStep, downStep] at hs
    split at hs <;> cases hs
    cases (s.1.receive now m).2 <;> simp
  | connected | ended =>
    simp only [redialStep, downStep] at hs
    split at hs <;> cases hs
    simp

/-- A sleep before the last attempt is followed by the next one. -/
theorem sleeping_resumes {args : RedialArgs} {s : Relay σ × Down β} {seconds : Nat}
    (hpc : s.2.pc = .sleeping seconds) (hlt : s.2.attempt < args.maxAttempts) :
    ∃ t, redialStep args s .resumed = some t ∧ t.2.attempt = s.2.attempt + 1 ∧
      (t.2.pc = .connecting ∨ t.2.pc = .receiving) := by
  refine ⟨redialLoop args s.1 s.2, by simp [redialStep, downStep, hpc], ?_⟩
  unfold redialLoop
  rw [if_pos hlt]
  dsimp only
  split
  · exact ⟨rfl, Or.inr rfl⟩
  · exact ⟨rfl, Or.inl rfl⟩

/-! ## Every run -/

/--
**Every drop is redialled, and nothing is raised**, for every bound on the attempts and every run in
which what fails is a connect or the stream of events, exactly when every failure of the run is an
`OSError`: no handshake is refused with `InvalidStatus`, and no stream ends with
`ConnectionClosedError`.
-/
theorem redials_iff (args : RedialArgs) {s₀ s : Relay σ × Down β} {acts : List (DownAct β)}
    (hstart : s₀.2 = {}) (hpackage : Along (redialStep args) PackageFailure s₀ acts)
    (hrun : run (redialStep args) s₀ acts = some s) :
    Redials args s₀ acts ↔ ∀ exc, .raises exc ∈ acts → exc = .osError := by
  constructor
  · intro h exc hmem
    obtain ⟨pre, post, rfl⟩ := List.append_of_mem hmem
    obtain ⟨m, hm, hrest⟩ := run_append_some.mp hrun
    obtain ⟨m', hm', -⟩ := run_cons_some.mp hrest
    have hp := along_iff.mp hpackage pre (.raises exc) post m rfl hm
    by_contra hne
    -- the exception is not slept on, and so ends the task
    have hraised : m'.2.pc = .raised exc := by
      rw [raises_package hp hm']
      rcases hp exc rfl with ⟨-, rfl | rfl⟩ | ⟨-, rfl⟩
      · rfl
      · exact absurd rfl hne
      · rfl
    exact h.silent (pre ++ [.raises exc]) post m' exc (by simp)
      (run_concat_some.mpr ⟨m, hm, hm'⟩) hraised
  · intro hos
    constructor
    · rintro pre exc post m m' rfl hm hm' hlt
      have hp := along_iff.mp hpackage pre (.raises exc) post m rfl hm
      have hexc : exc = .osError := hos exc (by simp)
      have he := raises_package hp hm'
      subst hexc
      have hsleep : m'.2.pc = .sleeping (min (2 ^ (m.2.attempt - 1)) 10) := by rw [he]; rfl
      exact ⟨⟨_, hsleep⟩, sleeping_resumes hsleep hlt⟩
    · rintro pre post m exc rfl hm
      refine run_inv_along (I := fun s => ∀ exc, s.2.pc ≠ .raised exc)
        (P := fun s a => PackageFailure s a ∧ ∀ exc, a = .raises exc → exc = .osError)
        (fun _ _ _ _ hp hs exc => not_raised_step hp.1 hp.2 hs exc) ?_ ?_ hm exc
      · simp [hstart]
      · refine along_iff.mpr fun pre' a post' m' he hm' => ⟨?_, fun exc' hr => ?_⟩
        · exact along_iff.mp hpackage pre' a (post' ++ post) m' (by simp [he]) hm'
        · exact hos exc' (by simp [he, hr])

/-- The connect is refused by the system, and the next one succeeds. -/
def refusedOnce : List (DownAct Unit) :=
  [.start, .raises .osError, .resumed, .connected]

/-- A relay with nothing in it. -/
def emptyRelay : Relay Int := .new (.new [] 3 3 200) 0

theorem refusedOnce_redials :
    Redials { maxAttempts := 5, alreadyConnected := false } (emptyRelay, {}) refusedOnce ↔
      ∀ exc, DownAct.raises exc ∈ refusedOnce → exc = .osError := by
  refine redials_iff _ rfl ?_ (show run _ _ refusedOnce = some _ from rfl)
  refine along_cons rfl (fun _ he => (by cases he)) ?_
  refine along_cons rfl (fun _ he => (by cases he; exact Or.inl ⟨rfl, Or.inr rfl⟩)) ?_
  refine along_cons rfl (fun _ he => (by cases he)) (along_cons rfl (fun _ he => (by cases he)) ?_)
  trivial

/-- **A stream that ends abnormally ends the down task**, with four attempts left. -/
theorem closed_stream_ends_task :
    ¬ ∀ (maxAttempts : Nat) (acts : List (DownAct Unit)),
      Along (redialStep { maxAttempts, alreadyConnected := true }) PackageFailure
        (emptyRelay, {}) acts →
      Redials { maxAttempts, alreadyConnected := true } (emptyRelay, {}) acts := by
  intro h
  have hlaw := h 5 [.start, .raises .connectionClosed] ?_
  · exact hlaw.silent [.start, .raises .connectionClosed] [] _ .connectionClosed rfl rfl rfl
  · refine along_cons rfl (fun _ he => (by cases he)) ?_
    exact along_cons rfl (fun _ he => (by cases he; exact Or.inr ⟨rfl, rfl⟩)) trivial

end Livehost
