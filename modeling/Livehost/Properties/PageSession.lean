import Livehost.Infra.Machine
import Livehost.Infra.Objects
import Livehost.Static.Session
import Mathlib.Data.List.DropRight

/-!
# The page follows its own socket

`lh.ws` and `lh.sessionId` are written by every call of `startLhSession` and by the handlers of
every socket, none of which asks whether it still belongs to the session on the page.

* `Effect` — what a step can do to `lh.ws`, `lh.sessionId` and the live sockets
* `lawful_step` — which steps keep the law
* `session_follows_iff` — the runs that keep it
-/

namespace Livehost

open Infra

namespace PageAct

def isStart : PageAct → Bool
  | .start _ => true
  | _ => false

def isStop : PageAct → Bool
  | .stop => true
  | _ => false

/-- The clicks on Start. -/
def starts (past : List PageAct) : Nat := past.countP isStart

/-- The clicks on Start before the last click on Stop. -/
def stoppedStarts (past : List PageAct) : Nat :=
  starts (past.rdropWhile fun a => !a.isStop)

theorem starts_concat (past : List PageAct) (a : PageAct) :
    starts (past ++ [a]) = starts past + if a.isStart then 1 else 0 := by
  simp [starts, List.countP_cons]

theorem stoppedStarts_concat (past : List PageAct) (a : PageAct) :
    stoppedStarts (past ++ [a]) = if a.isStop then starts past else stoppedStarts past := by
  unfold stoppedStarts
  rw [List.rdropWhile_concat]
  cases a <;> simp [isStop, starts_concat, isStart]

end PageAct

open PageAct

namespace LhPage

variable {ticket : String} {s s' : LhPage} {past : List PageAct}

/-! ## The law -/

/-- The `i`-th socket is connecting or open, and belongs to a call and a session. -/
def Live (s : LhPage) (i call : Nat) (id : String) : Prop :=
  ∃ w, s.sockets[i]? = some w ∧ w.readyState.live = true ∧ w.call = call ∧ w.sessionId = id

/-- **The law**, in a state and what led to it: `lh.sessionId` is that of `lh.ws` where this is
open, and no socket of a Start before the last Stop is open or may still open. -/
structure Lawful (s : LhPage) (past : List PageAct) : Prop where
  own : ∀ i w, s.ws = some i → s.sockets[i]? = some w → w.readyState = .opened →
    s.sessionId = some w.sessionId
  stopped : ∀ i call id, s.Live i call id → stoppedStarts past ≤ call

/-- The law in every state of a run, and still if the socket of `lh.ws` opened next. -/
def AlwaysLawful (ticket : String) (acts : List PageAct) : Prop :=
  ∀ pre post m, acts = pre ++ post → run (next ticket) {} pre = some m →
    m.Lawful pre ∧ ∀ i m', m.ws = some i → m.next ticket (.opened i) = some m' →
      m'.Lawful (pre ++ [.opened i])

/-- A step that belongs to the session on the page: a warm-up succeeds that no Stop followed; a
Stop finds no live socket but that of `lh.ws`; a socket that closes leaves no other live one as
`lh.ws`. -/
def Timely (ticket : String) : LhPage × List PageAct → PageAct → Prop
  | (_, past), .warmed call (.ok _ _) => ticket ≠ "" → stoppedStarts past ≤ call
  | (s, _), .stop => ∀ i call id, s.Live i call id → s.ws = some i
  | (s, _), .closed i => ∀ j call id, s.ws = some j → s.Live j call id → j = i
  | _, _ => True

/-! ## What a step does -/

theorem live_modifySocket {f : LhSocket → LhSocket}
    (hf : ∀ w, (f w).call = w.call ∧ (f w).sessionId = w.sessionId) {i j call : Nat} {id : String} :
    (s.modifySocket j f).Live i call id ↔ if j = i then
      ∃ w, s.sockets[i]? = some w ∧ (f w).readyState.live = true ∧ w.call = call ∧ w.sessionId = id
      else s.Live i call id := by
  simp only [Live, modifySocket, getElem?_modify_iff]
  by_cases h : j = i
  · simp only [h, if_true]
    constructor
    · rintro ⟨_, ⟨w, hw, rfl⟩, hl, hc, hid⟩
      exact ⟨w, hw, hl, (hf w).1 ▸ hc, (hf w).2 ▸ hid⟩
    · rintro ⟨w, hw, hl, hc, hid⟩
      exact ⟨f w, ⟨w, hw, rfl⟩, hl, (hf w).1.trans hc, (hf w).2.trans hid⟩
  · simp [h]

/-- What a step can do to `lh.ws`, `lh.sessionId` and the live sockets. -/
inductive Effect (ticket : String) (s : LhPage) : PageAct → LhPage → Prop
  /-- No socket comes to life. -/
  | quiet {a : PageAct} {s' : LhPage} (htimely : ∀ past, Timely ticket (s, past) a)
    (hstop : a.isStop = false) (hws : s'.ws = s.ws) (hid : s'.sessionId = s.sessionId)
    (hlive : ∀ i call id, s'.Live i call id → s.Live i call id) : Effect ticket s a s'
  /-- A warm-up succeeds and a socket is created. -/
  | created {call : Nat} {uuid : String} {solo : Bool} {s' : LhPage} (hticket : ticket ≠ "")
    (hwarming : call ∈ s.warming) (hws : s'.ws = some s.sockets.length)
    (hid : s'.sessionId = some uuid)
    (hlive : ∀ i c id, s'.Live i c id ↔
      (i = s.sockets.length ∧ c = call ∧ id = uuid) ∨ s.Live i c id) :
    Effect ticket s (.warmed call (.ok uuid solo)) s'
  /-- A warm-up succeeds and there is no ticket. -/
  | refused {call : Nat} {uuid : String} {solo : Bool} {s' : LhPage} (hticket : ticket = "")
    (hsockets : s'.sockets = s.sockets) : Effect ticket s (.warmed call (.ok uuid solo)) s'
  | stopped {s' : LhPage} (hws : s'.ws = none)
    (hlive : ∀ i call id, s'.Live i call id ↔ s.ws ≠ some i ∧ s.Live i call id) :
    Effect ticket s .stop s'
  | closed {i : Nat} {s' : LhPage} (hws : s'.ws = s.ws) (hid : s'.sessionId = none)
    (hlive : ∀ j call id, s'.Live j call id ↔ j ≠ i ∧ s.Live j call id) :
    Effect ticket s (.closed i) s'

/-- A socket that `f` does not bring to life. -/
theorem live_of_modifySocket {f : LhSocket → LhSocket}
    (hf : ∀ w, (f w).call = w.call ∧ (f w).sessionId = w.sessionId) {j : Nat}
    (hdead : ∀ w, s.sockets[j]? = some w → (f w).readyState.live = true → w.readyState.live = true)
    {i call : Nat} {id : String} (h : (s.modifySocket j f).Live i call id) : s.Live i call id := by
  rw [live_modifySocket hf] at h
  split at h
  next he =>
    subst he
    obtain ⟨w, hw, hl, hcall, hid⟩ := h
    exact ⟨w, hw, hdead w hw hl, hcall, hid⟩
  · exact h

/-- A socket that `f` ends. -/
theorem live_modifySocket_dead {f : LhSocket → LhSocket}
    (hf : ∀ w, (f w).call = w.call ∧ (f w).sessionId = w.sessionId) {j : Nat}
    (hdead : ∀ w, (f w).readyState.live = false) {i call : Nat} {id : String} :
    (s.modifySocket j f).Live i call id ↔ i ≠ j ∧ s.Live i call id := by
  rw [live_modifySocket hf]
  split
  next he => simp [hdead, he]
  next hne => simp [Ne.symm hne]

theorem live_closeSocket {j i call : Nat} {id : String} :
    (s.closeSocket j).Live i call id ↔ i ≠ j ∧ s.Live i call id := by
  have hclose : ∀ r : ReadyState, r.close.live = false := by rintro (_ | _ | _ | _) <;> rfl
  exact live_modifySocket_dead (by simp) (by simp [hclose])

theorem live_congr (h : s'.sockets = s.sockets) {i call : Nat} {id : String} :
    s'.Live i call id ↔ s.Live i call id := by
  unfold Live
  rw [h]

/-- A socket is created. -/
theorem live_concat {w : LhSocket} (hw : w.readyState = .connecting)
    (h : s'.sockets = s.sockets ++ [w]) {i call : Nat} {id : String} :
    s'.Live i call id ↔
      (i = s.sockets.length ∧ call = w.call ∧ id = w.sessionId) ∨ s.Live i call id := by
  unfold Live
  rw [h]
  simp only [getElem?_concat_iff]
  constructor
  · rintro ⟨v, ⟨rfl, rfl⟩ | hv, hl, rfl, rfl⟩
    · exact Or.inl ⟨rfl, rfl, rfl⟩
    · exact Or.inr ⟨v, hv, hl, rfl, rfl⟩
  · rintro (⟨rfl, rfl, rfl⟩ | ⟨v, hv, hl, rfl, rfl⟩)
    · exact ⟨w, Or.inl ⟨rfl, rfl⟩, by rw [hw]; rfl, rfl, rfl⟩
    · exact ⟨v, Or.inr hv, hl, rfl, rfl⟩

theorem Effect.of_sockets {a : PageAct} (htimely : ∀ past, Timely ticket (s, past) a)
    (hstop : a.isStop = false) (hws : s'.ws = s.ws) (hid : s'.sessionId = s.sessionId)
    (hsockets : s'.sockets = s.sockets) : Effect ticket s a s' :=
  .quiet htimely hstop hws hid fun _ _ _ => (live_congr hsockets).mp

/-- What an event of a socket finds. -/
theorem socket_guard {i : Nat} {p : LhSocket → Prop} [DecidablePred p] {f : LhSocket → LhPage}
    (h : (do let w ← s.sockets[i]?; if p w then some (f w) else none) = some s') :
    ∃ w, s.sockets[i]? = some w ∧ p w ∧ s' = f w := by
  obtain ⟨w, hw, h⟩ := Option.bind_eq_some_iff.mp h
  split at h
  next hp => exact ⟨w, hw, hp, (Option.some.inj h).symm⟩
  next => cases h

theorem start_effect (sttAvailable : Bool) :
    Effect ticket s (.start sttAvailable) (s.startLhSession sttAvailable) := by
  cases sttAvailable <;> exact .of_sockets (fun _ => trivial) rfl rfl rfl rfl

theorem warmed_effect {call : Nat} (hwarming : call ∈ s.warming) (reply : WarmReply) :
    Effect ticket s (.warmed call reply)
      (warmReturned ticket { s with warming := s.warming.erase call } call reply) := by
  cases reply with
  | notOk | failed => exact .of_sockets (fun _ => trivial) rfl rfl rfl rfl
  | ok uuid solo =>
    by_cases ht : ticket = ""
    · exact .refused ht (by simp [warmReturned, ht, setLhSessionUI])
    · refine .created ht hwarming (by simp [warmReturned, ht]) (by simp [warmReturned, ht]) ?_
      intro i c id
      exact live_concat (w := { call, sessionId := uuid, soloMode := solo }) rfl
        (by simp [warmReturned, ht])

theorem stop_effect : Effect ticket s .stop s.stopLhSession := by
  cases hws : s.ws with
  | none =>
    refine .stopped (by simp [stopLhSession, setLhSessionUI, hws]) fun i call id => ?_
    rw [live_congr (s := s) (by simp [stopLhSession, setLhSessionUI, hws])]
    simp [hws]
  | some j =>
    refine .stopped (by simp [stopLhSession, setLhSessionUI, hws]) fun i call id => ?_
    rw [live_congr (s := s.closeSocket j)
      (by simp [stopLhSession, setLhSessionUI, closeSocket, modifySocket, hws])]
    rw [live_closeSocket]
    simp [hws, eq_comm]

theorem next_effect {a : PageAct} (hs : s.next ticket a = some s') : Effect ticket s a s' := by
  cases a with
  | start sttAvailable =>
    simp only [next, Option.ite_none_left_eq_some, Option.some.injEq] at hs
    exact hs.2 ▸ start_effect sttAvailable
  | stop =>
    simp only [next, Option.ite_none_left_eq_some, Option.some.injEq] at hs
    exact hs.2 ▸ stop_effect
  | warmed call reply =>
    simp only [next, Option.ite_none_right_eq_some, Option.some.injEq] at hs
    exact hs.2 ▸ warmed_effect hs.1 reply
  | errored i =>
    obtain ⟨w, -, -, rfl⟩ := socket_guard hs
    exact .of_sockets (fun _ => trivial) rfl rfl rfl rfl
  | opened i =>
    obtain ⟨w, hw, hconn, rfl⟩ := socket_guard hs
    refine .quiet (fun _ => trivial) rfl (by unfold onopen; split <;> rfl)
      (by unfold onopen; split <;> rfl) fun j call id h => ?_
    have hopen : (s.modifySocket i fun w => { w with readyState := .opened }).Live j call id := by
      unfold onopen at h
      split at h
      · exact h
      · exact live_of_modifySocket (by simp) (by simp) h
    refine live_of_modifySocket (by simp) (fun v hv _ => ?_) hopen
    cases hw.symm.trans hv
    rw [hconn]
    rfl
  | closed i =>
    obtain ⟨w, -, -, rfl⟩ := socket_guard hs
    refine .closed rfl rfl fun j call id => ?_
    have hdead : (s.modifySocket i fun w => { w with readyState := .closed }).Live j call id ↔
        j ≠ i ∧ s.Live j call id := live_modifySocket_dead (by simp) (by simp [ReadyState.live])
    exact hdead
  | closing i =>
    obtain ⟨w, -, -, rfl⟩ := socket_guard hs
    refine .quiet (fun _ => trivial) rfl rfl rfl fun j call id h => ?_
    exact live_of_modifySocket (by simp) (by simp [ReadyState.live]) h
  | captured i =>
    obtain ⟨w, -, -, rfl⟩ := socket_guard hs
    refine .quiet (fun _ => trivial) rfl rfl rfl fun j call id h => ?_
    have hsettled :
        (s.modifySocket i fun w => { w with captureStart := .settled }).Live j call id := h
    exact live_of_modifySocket (by simp) (by simp) hsettled
  | captureDenied i =>
    obtain ⟨w, -, -, rfl⟩ := socket_guard hs
    refine .quiet (fun _ => trivial) rfl rfl rfl fun j call id h => ?_
    have hsettled :
        (s.modifySocket i fun w => { w with captureStart := .settled }).Live j call id :=
      (live_closeSocket.mp h).2
    exact live_of_modifySocket (by simp) (by simp) hsettled

/-! ## One step -/

/-- Calls and sockets are numbered by the clicks on Start, and there is no socket without a
ticket. -/
structure Numbered (ticket : String) (s : LhPage) (past : List PageAct) : Prop where
  calls : s.calls = starts past
  warming : ∀ call ∈ s.warming, call < starts past
  live : ∀ i call id, s.Live i call id → ticket ≠ "" ∧ call < starts past

/-- The law for every live socket, whether it is open yet or not. -/
structure Sound (s : LhPage) (past : List PageAct) : Prop where
  own : ∀ i call id, s.ws = some i → s.Live i call id → s.sessionId = some id
  stopped : ∀ i call id, s.Live i call id → stoppedStarts past ≤ call

theorem warmReturned_calls (call : Nat) (reply : WarmReply) :
    (warmReturned ticket s call reply).calls = s.calls ∧
      (warmReturned ticket s call reply).warming = s.warming := by
  cases reply with
  | notOk | failed => exact ⟨rfl, rfl⟩
  | ok uuid solo => by_cases ht : ticket = "" <;> simp [warmReturned, ht, setLhSessionUI]

theorem next_calls {a : PageAct} (hs : s.next ticket a = some s') :
    s'.calls = s.calls + (if a.isStart then 1 else 0) ∧
      ∀ call ∈ s'.warming, call ∈ s.warming ∨ a.isStart = true ∧ call = s.calls := by
  cases a with
  | start sttAvailable =>
    simp only [next, Option.ite_none_left_eq_some, Option.some.injEq] at hs
    obtain ⟨-, rfl⟩ := hs
    cases sttAvailable with
    | true => simp [startLhSession, setLhSessionUI, isStart]
    | false => exact ⟨rfl, fun call => Or.inl⟩
  | stop =>
    simp only [next, Option.ite_none_left_eq_some, Option.some.injEq] at hs
    obtain ⟨-, rfl⟩ := hs
    cases hws : s.ws <;>
      simp [stopLhSession, setLhSessionUI, closeSocket, modifySocket, isStart, hws]
  | warmed call reply =>
    simp only [next, Option.ite_none_right_eq_some, Option.some.injEq] at hs
    obtain ⟨-, rfl⟩ := hs
    rw [(warmReturned_calls call reply).1, (warmReturned_calls call reply).2]
    exact ⟨rfl, fun c hc => Or.inl (List.mem_of_mem_erase hc)⟩
  | opened i =>
    obtain ⟨w, -, -, rfl⟩ := socket_guard hs
    unfold onopen
    split <;> exact ⟨rfl, fun c => Or.inl⟩
  | errored i | closed i | closing i | captured i | captureDenied i =>
    obtain ⟨w, -, -, rfl⟩ := socket_guard hs
    exact ⟨rfl, fun c => Or.inl⟩

theorem numbered_step {a : PageAct} (h : Numbered ticket s past)
    (hs : s.next ticket a = some s') : Numbered ticket s' (past ++ [a]) := by
  obtain ⟨hcalls, hwarming⟩ := next_calls hs
  have hstarts : starts past ≤ starts (past ++ [a]) := by
    rw [starts_concat]
    omega
  refine ⟨?_, fun call hc => ?_, fun i call id hl => ?_⟩
  · rw [hcalls, h.calls, starts_concat]
  · rcases hwarming call hc with hc | ⟨ha, rfl⟩
    · exact lt_of_lt_of_le (h.warming call hc) hstarts
    · rw [h.calls, starts_concat, if_pos ha]
      omega
  · suffices hcall : ticket ≠ "" ∧ call < starts past from
      ⟨hcall.1, lt_of_lt_of_le hcall.2 hstarts⟩
    cases next_effect hs with
    | quiet _ _ _ _ hlive => exact h.live i call id (hlive i call id hl)
    | created hticket hc _ _ hlive =>
      rcases (hlive i call id).mp hl with ⟨-, rfl, -⟩ | hl
      · exact ⟨hticket, h.warming _ hc⟩
      · exact h.live i call id hl
    | refused _ hsockets => exact h.live i call id ((live_congr hsockets).mp hl)
    | stopped _ hlive => exact h.live i call id ((hlive i call id).mp hl).2
    | closed _ _ hlive => exact h.live i call id ((hlive i call id).mp hl).2

theorem Sound.quiet {a : PageAct} (h : Sound s past) (hstop : a.isStop = false)
    (hws : s'.ws = s.ws) (hid : s'.sessionId = s.sessionId)
    (hlive : ∀ i call id, s'.Live i call id → s.Live i call id) : Sound s' (past ++ [a]) := by
  refine ⟨fun i call id hi hl => ?_, fun i call id hl => ?_⟩
  · rw [hid]
    exact h.own i call id (hws ▸ hi) (hlive i call id hl)
  · rw [stoppedStarts_concat, hstop]
    exact h.stopped i call id (hlive i call id hl)

/-- **One step.** A sound state stays sound exactly in a timely step. -/
theorem sound_step {a : PageAct} (hn : Numbered ticket s past) (h : Sound s past)
    (hs : s.next ticket a = some s') :
    Sound s' (past ++ [a]) ↔ Timely ticket (s, past) a := by
  cases next_effect hs with
  | quiet htimely hstop hws hid hlive =>
    exact iff_of_true (h.quiet hstop hws hid hlive) (htimely past)
  | @created call uuid solo _ hticket hwarming hws hid hlive =>
    have hpast : stoppedStarts (past ++ [.warmed call (.ok uuid solo)]) = stoppedStarts past := by
      rw [stoppedStarts_concat]
      rfl
    constructor
    · intro hsound _
      have hnew := hsound.stopped _ call uuid ((hlive _ _ _).mpr (Or.inl ⟨rfl, rfl, rfl⟩))
      rwa [hpast] at hnew
    · intro htimely
      refine ⟨fun i c id hi hl => ?_, fun i c id hl => ?_⟩
      · rcases (hlive i c id).mp hl with ⟨-, -, rfl⟩ | hl
        · exact hid
        · -- the socket of `lh.ws` is the new one
          obtain ⟨w, hw, -⟩ := hl
          have hlt := (List.getElem?_eq_some_iff.mp hw).1
          rw [hws, Option.some.injEq] at hi
          omega
      · rw [hpast]
        rcases (hlive i c id).mp hl with ⟨-, rfl, -⟩ | hl
        · exact htimely hticket
        · exact h.stopped i c id hl
  | refused hticket hsockets =>
    refine iff_of_true ⟨fun i call id _ hl => ?_, fun i call id hl => ?_⟩
      fun hne => absurd hticket hne
    all_goals exact absurd hticket (hn.live i call id ((live_congr hsockets).mp hl)).1
  | stopped hws hlive =>
    have hpast : stoppedStarts (past ++ [.stop]) = starts past := by
      rw [stoppedStarts_concat]
      rfl
    constructor
    · intro hsound i call id hl
      by_contra hne
      have hstopped := hsound.stopped i call id ((hlive i call id).mpr ⟨hne, hl⟩)
      have hcall := (hn.live i call id hl).2
      omega
    · intro htimely
      have hnone : ∀ i call id, ¬ s'.Live i call id := fun i call id hl =>
        ((hlive i call id).mp hl).1 (htimely i call id ((hlive i call id).mp hl).2)
      exact ⟨fun i call id _ hl => absurd hl (hnone i call id),
        fun i call id hl => absurd hl (hnone i call id)⟩
  | @closed i _ hws hid hlive =>
    have hpast : stoppedStarts (past ++ [.closed i]) = stoppedStarts past := by
      rw [stoppedStarts_concat]
      rfl
    constructor
    · intro hsound j call id hj hl
      by_contra hne
      have hown := hsound.own j call id (hws ▸ hj) ((hlive j call id).mpr ⟨hne, hl⟩)
      rw [hid] at hown
      cases hown
    · intro htimely
      refine ⟨fun j call id hj hl => ?_, fun j call id hl => ?_⟩
      · obtain ⟨hne, hl⟩ := (hlive j call id).mp hl
        exact absurd (htimely j call id (hws ▸ hj) hl) hne
      · rw [hpast]
        exact h.stopped j call id ((hlive j call id).mp hl).2

/-! ## Runs -/

theorem Sound.lawful (h : Sound s past) : s.Lawful past where
  own i w hi hw hopen := h.own i w.call w.sessionId hi ⟨w, hw, by rw [hopen]; rfl, rfl, rfl⟩
  stopped := h.stopped

@[simp] theorem onopen_ws (i : Nat) (soloMode : Bool) : (s.onopen i soloMode).ws = s.ws := by
  unfold onopen
  split <;> rfl

@[simp] theorem onopen_sessionId (i : Nat) (soloMode : Bool) :
    (s.onopen i soloMode).sessionId = s.sessionId := by
  unfold onopen
  split <;> rfl

/-- A state is sound exactly when the law holds and still would if `lh.ws` opened next. -/
theorem sound_iff (ticket : String) : Sound s past ↔ s.Lawful past ∧
    ∀ i s', s.ws = some i → s.next ticket (.opened i) = some s' →
      s'.Lawful (past ++ [.opened i]) := by
  constructor
  · intro h
    refine ⟨h.lawful, fun i s' _ hs => ?_⟩
    cases next_effect hs with
    | quiet _ hstop hws hid hlive =>
      exact (h.quiet hstop hws hid hlive).lawful
  · rintro ⟨h, hopened⟩
    refine ⟨?_, h.stopped⟩
    rintro i call id hi ⟨w, hw, hl, -, rfl⟩
    cases hr : w.readyState with
    | opened => exact h.own i w hi hw hr
    | closing | closed => simp [hr, ReadyState.live] at hl
    | connecting =>
      -- the socket would open under the `lh.sessionId` there is
      have hs : s.next ticket (.opened i) = some (s.onopen i w.soloMode) := by
        simp [next, hw, hr]
      have hsockets : ∃ v, (s.onopen i w.soloMode).sockets[i]? = some v ∧
          v.readyState = .opened ∧ v.sessionId = w.sessionId := by
        unfold onopen
        cases w.soloMode <;> simp [modifySocket, setLhSessionUI, hw]
      obtain ⟨v, hv, hopen, hid⟩ := hsockets
      have hown := (hopened i _ hi hs).own i v (by simpa using hi) hv hopen
      rw [← hid, ← hown]
      simp

/--
**The page follows its own socket exactly in timely steps.** In a run, `lh.sessionId` is that of
`lh.ws` wherever this is open (or opened next), and no socket of a Start before the last Stop is
open or may still open, if and only if every step of the run is timely.
-/
theorem session_follows_iff (ticket : String) (acts : List PageAct) (t : LhPage)
    (h : run (next ticket) {} acts = some t) :
    AlwaysLawful ticket acts ↔ Along (recorded (next ticket)) (Timely ticket) ({}, []) acts := by
  have hrun : run (recorded (next ticket)) ({}, []) acts = some (t, acts) := by
    rw [run_recorded, h]
    rfl
  have hnone : ∀ i call id, ¬ ({} : LhPage).Live i call id := by
    rintro i call id ⟨w, hw, -⟩
    simp at hw
  refine Iff.trans ?_ (always_iff_along (I := fun p => Sound p.1 p.2)
    (J := fun p => Numbered ticket p.1 p.2) ?_ ?_ ?_ hrun)
  · -- the states of the run, with and without their history
    constructor
    · rintro hall pre post ⟨m, past⟩ he hm
      rw [run_recorded, Option.map_eq_some_iff] at hm
      obtain ⟨m, hm, he'⟩ := hm
      cases he'
      exact (sound_iff ticket).mpr (hall pre post m he hm)
    · rintro hall pre post m he hm
      exact (sound_iff ticket).mp (hall pre post (m, pre) he (by rw [run_recorded, hm]; rfl))
  · rintro ⟨s, past⟩ a p hn hs
    obtain ⟨s', hnext, rfl⟩ := recorded_some.mp hs
    exact ⟨numbered_step hn hnext, fun hsound => sound_step hn hsound hnext⟩
  · exact ⟨rfl, fun _ hc => (by cases hc), fun i call id hl => absurd hl (hnone i call id)⟩
  · exact ⟨fun i call id _ hl => absurd hl (hnone i call id),
      fun i call id hl => absurd hl (hnone i call id)⟩

/-- A session is stopped, and the next one is started behind the close event of its socket. -/
def twoSessions : List PageAct :=
  [.start true, .warmed 0 (.ok "a" true), .opened 0, .stop, .closed 0,
    .start true, .warmed 1 (.ok "b" true), .opened 1]

theorem twoSessions_lawful : AlwaysLawful "ticket" twoSessions := by
  refine (session_follows_iff "ticket" twoSessions _ rfl).mpr ?_
  refine along_cons rfl trivial (along_cons rfl (fun _ => by decide) (along_cons rfl trivial
    (along_cons rfl ?stop (along_cons rfl ?closed (along_cons rfl trivial (along_cons rfl
      (fun _ => by decide) (along_cons rfl trivial trivial)))))))
  case stop =>
    rintro (_ | i) call id ⟨w, hw, -⟩
    · rfl
    · cases hw
  case closed =>
    intro j call id hj
    cases hj

/-- A Stop during the warm-up is followed by the socket of the Start before it. -/
def stoppedWarmup : List PageAct :=
  [.start true, .stop, .warmed 0 (.ok "a" true), .opened 0]

theorem stoppedWarmup_opens :
    ∃ m, run (next "ticket") {} stoppedWarmup = some m ∧ ¬ m.Lawful stoppedWarmup := by
  refine ⟨_, rfl, fun h => ?_⟩
  exact absurd (h.stopped 0 0 "a" ⟨_, rfl, rfl, rfl, rfl⟩) (by decide)

/-- The close event of a stopped session comes when the next one is open. -/
def lateClose : List PageAct :=
  [.start true, .warmed 0 (.ok "a" true), .opened 0, .stop,
    .start true, .warmed 1 (.ok "b" true), .opened 1, .closed 0]

theorem lateClose_clears :
    ∃ m, run (next "ticket") {} lateClose = some m ∧ ¬ m.Lawful lateClose := by
  refine ⟨_, rfl, fun h => ?_⟩
  cases h.own 1 _ rfl rfl rfl

end LhPage

end Livehost
