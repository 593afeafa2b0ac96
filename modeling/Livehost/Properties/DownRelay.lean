import Livehost.Infra.Machine
import Livehost.Properties.EventFlow
import Livehost.Properties.Frames

/-!
# Everything is relayed verbatim

`pump_down` reads a message and awaits its send to the browser before it reads the next one. There
are two ways for a message to be read and not to arrive. Where the send raises, it is gone, and the
attempt of `_redial` is over. And in front of the `speech_start` of a barge-in an abort is awaited:
where that raises, the `speech_start` is gone with the connection.

* `RelayedAt` — the law of the down task
* `relayed_step` — every step keeps it
* `down_verbatim` — what the browser reads, against what the gateway wrote
-/

namespace Livehost

open Infra

variable {σ β : Type}

/-- The message of a barge-in. -/
def Message.isSpeechStart : Message β → Bool
  | .json .speechStart _ => true
  | _ => false

/-- An abort is awaited in front of a `speech_start` only. -/
theorem receive_isSpeechStart {r : Relay σ} {now : Rat} {message : Message β}
    (h : (r.receive now message).2 = true) : message.isSpeechStart = true := by
  match message, h with
  | .json .speechStart _, _ => rfl

/-- What happens to a message in `pump_down`. -/
inductive Traffic (β : Type)
  /-- `upstream.events()` yielded it. -/
  | read (message : Message β)
  /-- The awaited `send_json` or `send_bytes` of it has returned. -/
  | sent (message : Message β)
  /-- The awaited abort in front of its forward raised. -/
  | cut (message : Message β)
  /-- The awaited `send_json` or `send_bytes` of it raised. -/
  | unsent (message : Message β)

def readOf (seen : List (Traffic β)) : List (Message β) :=
  seen.filterMap fun
    | .read message => some message
    | _ => none

def sentOf (seen : List (Traffic β)) : List (Message β) :=
  seen.filterMap fun
    | .sent message => some message
    | _ => none

def cutOf (seen : List (Traffic β)) : List (Message β) :=
  seen.filterMap fun
    | .cut message => some message
    | _ => none

def unsentOf (seen : List (Traffic β)) : List (Message β) :=
  seen.filterMap fun
    | .unsent message => some message
    | _ => none

/-- The messages that `pump_down` is done with, sent or not. -/
def settledOf (seen : List (Traffic β)) : List (Message β) :=
  seen.filterMap fun
    | .read _ => none
    | .sent message | .cut message | .unsent message => some message

@[simp] theorem readOf_append (seen seen' : List (Traffic β)) :
    readOf (seen ++ seen') = readOf seen ++ readOf seen' := List.filterMap_append

@[simp] theorem sentOf_append (seen seen' : List (Traffic β)) :
    sentOf (seen ++ seen') = sentOf seen ++ sentOf seen' := List.filterMap_append

@[simp] theorem cutOf_append (seen seen' : List (Traffic β)) :
    cutOf (seen ++ seen') = cutOf seen ++ cutOf seen' := List.filterMap_append

@[simp] theorem unsentOf_append (seen seen' : List (Traffic β)) :
    unsentOf (seen ++ seen') = unsentOf seen ++ unsentOf seen' := List.filterMap_append

@[simp] theorem settledOf_append (seen seen' : List (Traffic β)) :
    settledOf (seen ++ seen') = settledOf seen ++ settledOf seen' := List.filterMap_append

/-- What a step of the down task does to a message. -/
def downTraffic (d : Down β) : DownAct β → List (Traffic β)
  | .message _ message => [.read message]
  | .resumed =>
    match d.pc with
    | .forwarding message => [.sent message]
    | _ => []
  | .raises _ =>
    match d.pc with
    | .aborting message => [.cut message]
    | .forwarding message => [.unsent message]
    | _ => []
  | _ => []

/-! ## The law -/

/-- The message that was read and that `pump_down` is not done with. -/
def DownPc.inHand : DownPc β → List (Message β)
  | .aborting message | .forwarding message => [message]
  | _ => []

/-- In an attempt of `_redial`: connecting, or on a connection. -/
def DownPc.inAttempt : DownPc β → Bool
  | .connecting | .receiving | .aborting _ | .forwarding _ => true
  | _ => false

/-- The attempts of `_redial` that are over. -/
def Down.spent (d : Down β) : Nat := if d.pc.inAttempt then d.attempt - 1 else d.attempt

/-- **The law of the down task.** -/
structure RelayedAt (args : RedialArgs) (d : Down β) (seen : List (Traffic β)) : Prop where
  settled : readOf seen = settledOf seen ++ d.pc.inHand
  onlySpeech : ∀ message ∈ cutOf seen, message.isSpeechStart = true
  aborts : ∀ message, d.pc = .aborting message → message.isSpeechStart = true
  /-- An attempt loses one message at most, as it ends. -/
  few : (cutOf seen).length + (unsentOf seen).length ≤ d.spent
  bound : d.attempt ≤ args.maxAttempts
  begun : d.pc.inAttempt = true → 0 < d.attempt

variable {args : RedialArgs} {d d' : Down β} {seen : List (Traffic β)}

theorem relayed_new (args : RedialArgs) : RelayedAt args ({} : Down β) [] where
  settled := rfl
  onlySpeech := by simp [cutOf]
  aborts _ hpc := by cases hpc
  few := Nat.zero_le _
  bound := Nat.zero_le _
  begun h := by cases h

theorem Down.spent_le (d : Down β) : d.spent ≤ d.attempt := by
  unfold Down.spent
  split <;> omega

theorem Down.spent_over {d : Down β} (h : d.pc.inAttempt = false) : d.spent = d.attempt := by
  rw [Down.spent, h]
  rfl

theorem Down.spent_on {d : Down β} (h : d.pc.inAttempt = true) : d.spent = d.attempt - 1 := by
  rw [Down.spent, h]
  rfl

/-- Nothing is read and nothing settled. -/
theorem RelayedAt.silent (hi : RelayedAt args d seen) (hhand : d'.pc.inHand = d.pc.inHand)
    (haborts : ∀ message, d'.pc ≠ .aborting message) (hspent : d.spent ≤ d'.spent)
    (hbound : d'.attempt ≤ args.maxAttempts)
    (hbegun : d'.pc.inAttempt = true → 0 < d'.attempt) : RelayedAt args d' seen :=
  ⟨by rw [hhand]; exact hi.settled, hi.onlySpeech, fun m hpc => absurd hpc (haborts m),
    hi.few.trans hspent, hbound, hbegun⟩

/-- The task goes on in its attempt, or ends in it. -/
theorem RelayedAt.goesOn {pc : DownPc β} (hi : RelayedAt args d seen)
    (hon : d.pc.inAttempt = true) (hhand : pc.inHand = d.pc.inHand)
    (haborts : ∀ message, pc ≠ .aborting message) : RelayedAt args { d with pc } seen := by
  refine hi.silent hhand haborts ?_ hi.bound fun _ => hi.begun hon
  rw [d.spent_on hon, Down.spent]
  split <;> dsimp only <;> omega

/-- The loop head of `_redial`. -/
theorem RelayedAt.loop (r : Relay σ) (hi : RelayedAt args d seen)
    (hover : d.pc.inAttempt = false) : RelayedAt args (redialLoop args r d).2 seen := by
  have hhand : d.pc.inHand = [] := by
    cases hpc : d.pc <;> rw [hpc] at hover <;> first | rfl | cases hover
  have hspent : d.spent = d.attempt := d.spent_over hover
  unfold redialLoop
  split
  next hlt =>
    dsimp only
    split
    · exact hi.silent hhand.symm (by simp) (le_of_eq hspent) hlt fun _ => Nat.succ_pos _
    · exact hi.silent hhand.symm (by simp) (le_of_eq hspent) hlt fun _ => Nat.succ_pos _
  next => exact hi.silent hhand.symm (by simp) (le_of_eq hspent) hi.bound fun h => by cases h

/-- What the exception clause of `_redial` leaves: the attempt is over, and nothing is in hand. -/
theorem redialExcept_place (d : Down β) (exc : Exc) :
    (redialExcept d exc).pc.inHand = [] ∧ (redialExcept d exc).pc.inAttempt = false ∧
      (redialExcept d exc).attempt = d.attempt := by
  unfold redialExcept
  split <;> exact ⟨rfl, rfl, rfl⟩

theorem redialExcept_spent (d : Down β) (exc : Exc) : (redialExcept d exc).spent = d.attempt := by
  obtain ⟨-, hover, hattempt⟩ := redialExcept_place d exc
  rw [Down.spent_over hover, hattempt]

/-- An attempt ends with nothing in hand. -/
theorem RelayedAt.except (hi : RelayedAt args d seen) (hhand : d.pc.inHand = []) (exc : Exc) :
    RelayedAt args (redialExcept d exc) seen := by
  obtain ⟨hempty, hover, hattempt⟩ := redialExcept_place d exc
  refine hi.silent (by rw [hempty, hhand]) (redialExcept_not_aborting d exc) ?_
    (hattempt ▸ hi.bound) fun h => ?_
  · rw [redialExcept_spent]
    exact d.spent_le
  · rw [hover] at h
    cases h

/-- An awaited abort or send raises: its message is lost, with the attempt. -/
theorem RelayedAt.lose (hi : RelayedAt args d seen) {message : Message β} {loss : Traffic β}
    (hhand : d.pc.inHand = [message]) (hon : d.pc.inAttempt = true)
    (hread : readOf [loss] = []) (hsettled : settledOf [loss] = [message])
    (hone : (cutOf [loss]).length + (unsentOf [loss]).length = 1)
    (hspeech : ∀ m ∈ cutOf [loss], m.isSpeechStart = true) (exc : Exc) :
    RelayedAt args (redialExcept d exc) (seen ++ [loss]) := by
  obtain ⟨hempty, hover, hattempt⟩ := redialExcept_place d exc
  have hfew : (cutOf seen).length + (unsentOf seen).length ≤ d.attempt - 1 :=
    d.spent_on hon ▸ hi.few
  have hpos : 0 < d.attempt := hi.begun hon
  refine ⟨?_, ?_, fun m hpc => absurd hpc (redialExcept_not_aborting d exc m), ?_,
    hattempt ▸ hi.bound, fun h => ?_⟩
  · rw [readOf_append, settledOf_append, hempty, hi.settled, hhand, hread, hsettled]
  · rw [cutOf_append]
    intro m hm
    rcases List.mem_append.mp hm with hm | hm
    · exact hi.onlySpeech m hm
    · exact hspeech m hm
  · rw [cutOf_append, unsentOf_append, List.length_append, List.length_append,
      redialExcept_spent]
    omega
  · rw [hover] at h
    cases h

/-- The awaited abort has returned, and the send is awaited. -/
theorem RelayedAt.forward (hi : RelayedAt args d seen) {message : Message β}
    (hpc : d.pc = .aborting message) : RelayedAt args { d with pc := .forwarding message } seen :=
  hi.goesOn (by rw [hpc]; rfl) (by rw [hpc]; rfl) (by simp)

/-- A message is read or sent, and the attempt goes on. -/
theorem RelayedAt.booked (hi : RelayedAt args d seen) (hon : d.pc.inAttempt = true)
    {t : Traffic β} {pc : DownPc β} (hin : pc.inAttempt = true) (hcut : cutOf [t] = [])
    (hunsent : unsentOf [t] = [])
    (hhand : d.pc.inHand ++ readOf [t] = settledOf [t] ++ pc.inHand)
    (haborts : ∀ message, pc = .aborting message → message.isSpeechStart = true) :
    RelayedAt args { d with pc } (seen ++ [t]) := by
  refine ⟨?_, ?_, haborts, ?_, hi.bound, fun _ => hi.begun hon⟩
  · rw [readOf_append, settledOf_append, hi.settled, List.append_assoc, hhand, List.append_assoc]
  · rw [cutOf_append, hcut, List.append_nil]
    exact hi.onlySpeech
  · rw [cutOf_append, hcut, unsentOf_append, hunsent, List.append_nil, List.append_nil,
      Down.spent_on hin, ← d.spent_on hon]
    exact hi.few

/-- The awaited send has returned. -/
theorem RelayedAt.delivered (hi : RelayedAt args d seen) {message : Message β}
    (hpc : d.pc = .forwarding message) :
    RelayedAt args { d with pc := .receiving } (seen ++ [.sent message]) := by
  refine hi.booked (by rw [hpc]; rfl) rfl rfl rfl ?_ (by simp)
  rw [hpc]
  rfl

/-- A message is read; an abort is awaited in front of a `speech_start` only. -/
theorem RelayedAt.taken (hi : RelayedAt args d seen) (hpc : d.pc = .receiving)
    {message : Message β} {aborts : Bool} (hspeech : aborts = true → message.isSpeechStart = true) :
    RelayedAt args { d with pc := if aborts then .aborting message else .forwarding message }
      (seen ++ [.read message]) := by
  have hon : d.pc.inAttempt = true := by rw [hpc]; rfl
  have hnone : d.pc.inHand = [] := by rw [hpc]; rfl
  cases aborts with
  | true =>
    refine hi.booked hon rfl rfl rfl (by rw [hnone]; rfl) ?_
    intro m hm
    cases hm
    exact hspeech rfl
  | false => exact hi.booked hon rfl rfl rfl (by rw [hnone]; rfl) (by simp)

/-- **Every step of the down task keeps the law.** -/
theorem relayed_step {r r' : Relay σ} {a : DownAct β} (hi : RelayedAt args d seen)
    (hs : downStep args r d a = some (r', d')) :
    RelayedAt args d' (seen ++ downTraffic d a) := by
  cases a <;> simp only [downStep] at hs
  case start =>
    rw [show downTraffic d .start = [] from rfl, List.append_nil]
    cases hpc : d.pc <;> simp only [hpc, reduceCtorEq, Option.some.injEq] at hs
    have hd : d' = (redialLoop args r d).2 := by rw [hs]
    subst hd
    exact hi.loop r (by rw [hpc]; rfl)
  case connected =>
    rw [show downTraffic d .connected = [] from rfl, List.append_nil]
    cases hpc : d.pc <;> simp only [hpc, reduceCtorEq, Option.some.injEq, Prod.mk.injEq] at hs
    obtain ⟨-, rfl⟩ := hs
    exact hi.goesOn (by rw [hpc]; rfl) (by rw [hpc]; rfl) (by simp)
  case message now message =>
    cases hpc : d.pc <;> simp only [hpc, reduceCtorEq, Option.some.injEq, Prod.mk.injEq] at hs
    obtain ⟨-, rfl⟩ := hs
    exact hi.taken hpc receive_isSpeechStart
  case ended =>
    rw [show downTraffic d .ended = [] from rfl, List.append_nil]
    cases hpc : d.pc <;> simp only [hpc, reduceCtorEq, Option.some.injEq, Prod.mk.injEq] at hs
    obtain ⟨-, rfl⟩ := hs
    exact hi.goesOn (by rw [hpc]; rfl) (by rw [hpc]; rfl) (by simp)
  case resumed =>
    cases hpc : d.pc <;>
      simp only [hpc, reduceCtorEq, Option.some.injEq, Prod.mk.injEq] at hs <;>
      simp only [downTraffic, hpc, List.append_nil]
    case aborting message =>
      obtain ⟨-, rfl⟩ := hs
      exact hi.forward hpc
    case forwarding message =>
      obtain ⟨-, rfl⟩ := hs
      exact hi.delivered hpc
    case sleeping seconds =>
      have hd : d' = (redialLoop args r d).2 := by rw [hs]
      subst hd
      exact hi.loop r (by rw [hpc]; rfl)
  case raises exc =>
    cases hpc : d.pc <;>
      simp only [hpc, reduceCtorEq, Option.some.injEq, Prod.mk.injEq] at hs <;>
      simp only [downTraffic, hpc, List.append_nil]
    case aborting message =>
      obtain ⟨-, rfl⟩ := hs
      refine hi.lose (by rw [hpc]; rfl) (by rw [hpc]; rfl) rfl rfl rfl (fun m hm => ?_) exc
      rw [List.mem_singleton.mp hm]
      exact hi.aborts message hpc
    case forwarding message =>
      obtain ⟨-, rfl⟩ := hs
      exact hi.lose (by rw [hpc]; rfl) (by rw [hpc]; rfl) rfl rfl rfl (fun m hm => by cases hm) exc
    case created | sleeping =>
      obtain ⟨-, rfl⟩ := hs
      have hspent : d.spent = d.attempt := d.spent_over (by rw [hpc]; rfl)
      exact hi.silent (by rw [hpc]; rfl) (by simp) (le_of_eq hspent) hi.bound fun h => by cases h
    case connecting | receiving =>
      obtain ⟨-, rfl⟩ := hs
      exact hi.except (by rw [hpc]; rfl) exc

/-! ## In the handler -/

variable {h h' : Stream σ β}

/-- What a step of the server does to the messages of handler `i`. -/
def Server.traffic (i : Nat) (s : Server σ β) : ServerAct β → List (Traffic β)
  | .stream j (.down act) =>
    if j = i then downTraffic (s.streams i).down act else []
  | _ => []

/-- The law of a handler's down task; before the tasks are made nothing was read. -/
structure RelaysAt (h : Stream σ β) (seen : List (Traffic β)) : Prop where
  relayed : RelayedAt downArgs h.down seen
  before : h.pc.entered = false → seen = []

theorem RelaysAt.congr (hi : RelaysAt h seen) (hdown : h'.down = h.down)
    (hpc : h'.pc.entered = h.pc.entered) : RelaysAt h' seen :=
  ⟨hdown ▸ hi.relayed, fun he => hi.before (hpc ▸ he)⟩

/-- A step of the down task keeps it. -/
theorem RelaysAt.down {a : DownAct β} (hi : RelaysAt h seen) (hpc : h.pc.running = true)
    (hs : h.downStep a = some h') : RelaysAt h' (seen ++ downTraffic h.down a) := by
  unfold Stream.downStep at hs
  split at hs
  next =>
    obtain ⟨⟨relay, down⟩, hdown, rfl⟩ := Option.map_eq_some_iff.mp hs
    refine ⟨relayed_step hi.relayed hdown, fun he => ?_⟩
    simp [StreamPc.entered, hpc] at he
  next => cases hs

section

variable [Score σ] [PyLower]

/-- No other task touches the down task. -/
theorem taskStep_down {act : StreamAct β} (hs : h.taskStep act = some h')
    (hact : ∀ a, act ≠ .down a) : h'.down = h.down := by
  cases act with
  | down a => exact absurd rfl (hact a)
  | drain now note =>
    obtain ⟨relay, queue, rfl⟩ := Stream.drainStep_frame hs
    rfl
  | drop | pollSocial | socialSent | socialRaises | pollIdle | idleSent | idleRaises =>
    simp only [Stream.taskStep] at hs
    split at hs <;> cases hs
    rfl
  | _ => cases hs

/-- A handler's step that is none of its down task. -/
theorem RelaysAt.moves {i : Nat} {registry registry' : LivehostSessionRegistry}
    {act : StreamAct β} {returned : Option Nat} (hi : RelaysAt h seen)
    (hm : Stream.Moves i registry h act registry' h' returned) (hact : ∀ a, act ≠ .down a) :
    RelaysAt h' seen := by
  cases hm with
  | dialed now hpc =>
    have hseen : seen = [] := hi.before (by rw [hpc]; rfl)
    subst hseen
    exact ⟨relayed_new downArgs, fun _ => rfl⟩
  | frame frame hpc =>
    refine hi.congr rfl ?_
    rw [hpc]
    dsimp only
    split <;> rfl
  | granted config hpc | refused config hpc | dialFails hpc | reported hpc | disconnect hpc
  | forwarded hpc | forwardRaises hpc | closed hpc =>
    exact hi.congr rfl (by rw [hpc]; rfl)
  | tasksEnded hpc =>
    refine hi.congr rfl ?_
    rw [Stream.afterStop_entered, hpc]
    rfl
  | ingest a result hstarted hcall hstep =>
    exact hi.congr rfl (h.afterStop_entered result)
  | task act h' hpc hstep =>
    refine hi.congr (taskStep_down hstep hact) ?_
    obtain ⟨-, -, -, -, ⟨-, -, hplace⟩ | ⟨-, hplace, -⟩⟩ := Stream.taskStep_frame hstep
    · rw [hplace, StreamPc.entered_drop]
    · rw [hplace]

/-- **A step of the server keeps the law**, of every handler. -/
theorem relaysAt_step {i : Nat} {s s' : Server σ β} {a : ServerAct β}
    (hi : RelaysAt (s.streams i) seen) (hs : serverStep s a = some s') :
    RelaysAt (s'.streams i) (seen ++ s.traffic i a) := by
  have hother : ∀ {j : Nat} {h : Stream σ β}, s'.streams = Function.update s.streams j h →
      j ≠ i → RelaysAt (s'.streams i) seen := by
    intro j h hstr hj
    rw [hstr, Function.update_of_ne (Ne.symm hj)]
    exact hi
  rcases serverStep_cases hs with ⟨j, act, registry, h, returned, rfl, hm, -, -, hstr⟩ |
    ⟨-, -, hno, ⟨r, j, op, -, hstr⟩ | ⟨-, hstr⟩⟩
  · by_cases hj : j = i
    · subst hj
      rw [hstr, Function.update_self]
      by_cases hact : ∃ a, act = .down a
      · obtain ⟨a, rfl⟩ := hact
        cases hm with
        | task act h' hpc hstep =>
          rw [Server.traffic, if_pos rfl]
          exact hi.down hpc hstep
      · have htraffic : s.traffic j (.stream j act) = [] := by
          cases act <;> first | rfl | exact absurd ⟨_, rfl⟩ hact
        rw [htraffic, List.append_nil]
        exact hi.moves hm fun a he => hact ⟨a, he⟩
    · have htraffic : s.traffic i (.stream j act) = [] := by
        cases act <;> simp [Server.traffic, hj]
      rw [htraffic, List.append_nil]
      exact hother hstr hj
  · have htraffic : s.traffic i a = [] := by
      cases a with
      | stream j act => exact absurd rfl (hno j act)
      | _ => rfl
    rw [htraffic, List.append_nil, hstr]
    by_cases hj : j = i
    · subst hj
      rw [Function.update_self]
      exact hi.congr rfl rfl
    · rw [Function.update_of_ne (Ne.symm hj)]
      exact hi
  · have htraffic : s.traffic i a = [] := by
      cases a with
      | stream j act => exact absurd rfl (hno j act)
      | _ => rfl
    rw [htraffic, List.append_nil, hstr]
    exact hi

theorem relaysAt_run {acts : List (ServerAct β)} {s : Server σ β}
    (h : run serverStep .start acts = some s) (i : Nat) :
    RelaysAt (s.streams i) (trace serverStep (Server.traffic i) (.start : Server σ β) acts) := by
  have hstart : RelaysAt ((.start : Server σ β).streams i) [] :=
    ⟨relayed_new downArgs, fun _ => rfl⟩
  exact run_trace_inv (I := fun (s : Server σ β) seen => RelaysAt (s.streams i) seen)
    (fun s a s' seen hi hs => relaysAt_step hi hs) hstart h

end

/-! ## What the browser reads -/

/-- A `speech_start` of the gateway's. -/
def WireFrame.speechStart (F : Type) [JsonFloat F] (frame : WireFrame) : Bool :=
  (Upstream.event (F := F) frame).any Message.isSpeechStart

theorem sentOf_sublist (seen : List (Traffic β)) : (sentOf seen).Sublist (settledOf seen) := by
  induction seen with
  | nil => exact List.Sublist.refl _
  | cons t seen ih =>
    cases t with
    | read m => exact ih
    | sent m => exact ih.cons_cons m
    | cut m | unsent m => exact ih.cons m

theorem length_settledOf (seen : List (Traffic β)) :
    (settledOf seen).length =
      (sentOf seen).length + ((cutOf seen).length + (unsentOf seen).length) := by
  induction seen with
  | nil => rfl
  | cons t seen ih =>
    cases t with
    | read m => exact ih
    | sent m | cut m | unsent m =>
      simp only [settledOf, sentOf, cutOf, unsentOf, List.filterMap_cons, List.length_cons] at ih ⊢
      omega

/-- Where no send raised, only what an abort stood in front of is not sent. -/
theorem settledOf_filter {seen : List (Traffic β)} (hunsent : unsentOf seen = [])
    (hcut : ∀ m ∈ cutOf seen, m.isSpeechStart = true) :
    (settledOf seen).filter (fun m => !m.isSpeechStart) =
      (sentOf seen).filter (fun m => !m.isSpeechStart) := by
  induction seen with
  | nil => rfl
  | cons t seen ih =>
    cases t with
    | read m => exact ih hunsent hcut
    | sent m =>
      show (m :: settledOf seen).filter _ = (m :: sentOf seen).filter _
      rw [List.filter_cons, List.filter_cons, ih hunsent hcut]
    | cut m =>
      obtain ⟨hm, hrest⟩ := List.forall_mem_cons.mp hcut
      show (m :: settledOf seen).filter _ = (sentOf seen).filter _
      rw [List.filter_cons, hm]
      exact ih hunsent hrest
    | unsent m => cases hunsent

/-- **The law at the messages**: those sent are those read, but for what was lost or is in hand. -/
theorem RelayedAt.verbatim (hi : RelayedAt args d seen) :
    (sentOf seen).Sublist (readOf seen) ∧
      (readOf seen).length ≤ (sentOf seen).length + args.maxAttempts ∧
      (unsentOf seen = [] → (∀ m, d.pc ≠ .forwarding m) →
        (sentOf seen).filter (fun m => !m.isSpeechStart) =
          (readOf seen).filter (fun m => !m.isSpeechStart)) ∧
      (cutOf seen = [] → unsentOf seen = [] → d.pc.inHand = [] →
        sentOf seen = readOf seen) := by
  refine ⟨?_, ?_, fun hunsent hpc => ?_, fun hcut hunsent hempty => ?_⟩
  · rw [hi.settled]
    exact (sentOf_sublist seen).trans (List.sublist_append_left _ _)
  · rw [hi.settled, List.length_append, length_settledOf]
    have hfew : (cutOf seen).length + (unsentOf seen).length ≤ d.spent := hi.few
    have hbound : d.attempt ≤ args.maxAttempts := hi.bound
    -- the message in hand is of an attempt that is not over
    have hone : d.spent + d.pc.inHand.length ≤ d.attempt := by
      cases hpc : d.pc with
      | aborting m | forwarding m =>
        have hon : d.pc.inAttempt = true := by rw [hpc]; rfl
        have hpos : 0 < d.attempt := hi.begun hon
        rw [d.spent_on hon]
        show d.attempt - 1 + 1 ≤ d.attempt
        omega
      | _ => exact d.spent_le
    omega
  · have hhand : d.pc.inHand.filter (fun m => !m.isSpeechStart) = [] := by
      refine List.filter_eq_nil_iff.mpr fun m hm => ?_
      cases hpc' : d.pc with
      | aborting m' =>
        rw [hpc'] at hm
        rw [List.mem_singleton.mp hm, hi.aborts m' hpc']
        simp
      | forwarding m' => exact absurd hpc' (hpc m')
      | _ => rw [hpc'] at hm; cases hm
    rw [hi.settled, List.filter_append, hhand, List.append_nil,
      settledOf_filter hunsent hi.onlySpeech]
  · rw [hi.settled, hempty, List.append_nil]
    refine (sentOf_sublist seen).eq_of_length ?_
    rw [length_settledOf, hcut, hunsent]
    rfl

section

variable {F : Type} [JsonFloat F] {frames : List WireFrame} {messages : List (Message (Json F))}

/-- Frame for frame, the browser reads of what is sent what the gateway wrote. -/
theorem frames_read (h : frames.map Upstream.event = messages.map some)
    (hplain : ∀ frame ∈ frames, frame.Plain F) :
    frames.map (WireFrame.read F) = messages.map (fun m => (sendMessage m).read F) ∧
      (frames.filter (!·.speechStart F)).map (WireFrame.read F) =
        (messages.filter (fun m => !m.isSpeechStart)).map (fun m => (sendMessage m).read F) := by
  induction frames generalizing messages with
  | nil =>
    cases messages with
    | nil => exact ⟨rfl, rfl⟩
    | cons m messages => cases h
  | cons frame frames ih =>
    cases messages with
    | nil => cases h
    | cons m messages =>
      obtain ⟨hm, hrest⟩ := List.cons_eq_cons.mp h
      obtain ⟨hframe, hframes⟩ := List.forall_mem_cons.mp hplain
      obtain ⟨hreads, hbeside⟩ := ih hrest hframes
      have hread : frame.read F = (sendMessage m).read F := (read_sendMessage hm hframe).symm
      have hspeech : frame.speechStart F = m.isSpeechStart := by
        rw [WireFrame.speechStart, hm]
        rfl
      refine ⟨by rw [List.map_cons, List.map_cons, hread, hreads], ?_⟩
      rw [List.filter_cons, List.filter_cons, hspeech]
      cases m.isSpeechStart with
      | true => exact hbeside
      | false => exact congrArg₂ List.cons hread hbeside

/-- What is sent is taken for what was read. -/
theorem event_sent {sent : List (Message (Json F))}
    (h : frames.map Upstream.event = messages.map some) (hsub : sent.Sublist messages) :
    ∀ m ∈ sent, Upstream.event (sendMessage m) = some m := by
  intro m hm
  have hmem : some m ∈ frames.map Upstream.event := by
    rw [h]
    exact List.mem_map_of_mem (hsub.subset hm)
  obtain ⟨frame, -, hframe⟩ := List.mem_map.mp hmem
  exact event_sendMessage hframe

/-- The frames of the messages that are no `speech_start`. -/
theorem filter_sent {sent : List (Message (Json F))}
    (h : ∀ m ∈ sent, Upstream.event (sendMessage m) = some m) :
    (sent.map sendMessage).filter (!·.speechStart F) =
      (sent.filter (fun m => !m.isSpeechStart)).map sendMessage := by
  rw [List.filter_map]
  refine congrArg (List.map sendMessage) (List.filter_congr fun m hm => ?_)
  show (!(Upstream.event (sendMessage m)).any Message.isSpeechStart) = !m.isSpeechStart
  rw [h m hm]
  rfl

end

/--
**Everything is relayed verbatim.** In every run of the server, let a handler's `pump_down` have
read its messages off plain frames of the gateway's, over however many connections. What the browser
reads of the frames whose send has returned is what the gateway wrote, in the order it wrote it,
with at most five frames left out. A frame that is no `speech_start` is left out only where its own
send raised or still stands; and none at all is, unless an awaited send or abort has raised or still
stands.
-/
theorem down_verbatim [Score σ] [PyLower] {F : Type} [JsonFloat F]
    {acts : List (ServerAct (Json F))} {s : Server σ (Json F)}
    (h : run serverStep .start acts = some s) (i : Nat) {frames : List WireFrame}
    (hframes : frames.map Upstream.event =
      (readOf (trace serverStep (Server.traffic i) (.start : Server σ (Json F)) acts)).map some)
    (hplain : ∀ frame ∈ frames, frame.Plain F) :
    let seen := trace serverStep (Server.traffic i) (.start : Server σ (Json F)) acts
    let told := (sentOf seen).map sendMessage
    (told.map (WireFrame.read F)).Sublist (frames.map (WireFrame.read F)) ∧
      frames.length ≤ told.length + upstreamReconnectMaxAttempts ∧
      (unsentOf seen = [] → (∀ m, (s.streams i).down.pc ≠ .forwarding m) →
        (told.filter (!·.speechStart F)).map (WireFrame.read F) =
          (frames.filter (!·.speechStart F)).map (WireFrame.read F)) ∧
      (cutOf seen = [] → unsentOf seen = [] → (s.streams i).down.pc.inHand = [] →
        told.map (WireFrame.read F) = frames.map (WireFrame.read F)) := by
  intro seen told
  obtain ⟨hsub, hfew, hbeside, hall⟩ := (relaysAt_run h i).relayed.verbatim
  obtain ⟨hread, hother⟩ := frames_read hframes hplain
  have htold : told.map (WireFrame.read F) =
      (sentOf seen).map (fun m => (sendMessage m).read F) := List.map_map
  have hlength : frames.length = (readOf seen).length := by
    have hlen := congrArg List.length hframes
    rwa [List.length_map, List.length_map] at hlen
  refine ⟨?_, ?_, fun hunsent hpc => ?_, fun hcut hunsent hempty => ?_⟩
  · rw [htold, hread]
    exact hsub.map _
  · rw [hlength, List.length_map]
    exact hfew
  · rw [filter_sent (event_sent hframes hsub), hother, List.map_map, hbeside hunsent hpc]
    rfl
  · rw [htold, hread, hall hcut hunsent hempty]

/-- The streamer talks over an idle prompt, as the gateway may write it. -/
def speechStart : Json WholeFloat := .obj [("event", .str "speech_start")]

theorem speechStart_proper (constants : Bool) : speechStart.Proper constants :=
  ⟨by simp, trivial, trivial⟩

theorem event_speechStart :
    Upstream.event (.text (jsonDumps speechStart)) = some (.json .speechStart speechStart) := by
  rw [Upstream.event, jsonLoadsText_jsonDumps (speechStart_proper true)]
  rfl

/-- A barge-in whose abort raises, and a turn's end on the next connection, which is sent. -/
def lostBargeIn : List (ServerAct (Json WholeFloat)) :=
  [ .stream 0 (.accept { sessionId := "room", idleTopicSeconds := 1 }), .stream 0 (.dialed 0),
    .stream 0 (.down .start), .stream 0 (.pollIdle 5), .stream 0 .idleSent,
    .stream 0 (.down (.message 6 (.json .speechStart speechStart))),
    .stream 0 (.down (.raises .osError)), .stream 0 (.down .resumed), .stream 0 (.down .connected),
    .stream 0 (.down (.message 9 (.json .turnDone turnDone))), .stream 0 (.down .resumed) ]

/-- The browser misses the `speech_start` only. -/
theorem lostBargeIn_verbatim : ∃ (_ : PyLower) (s : Server Int (Json WholeFloat))
    (told : List WireFrame), run serverStep .start lostBargeIn = some s ∧
    told = [sendMessage (.json .turnDone turnDone)] ∧
    (told.map (WireFrame.read WholeFloat)).Sublist
      ([.text (jsonDumps speechStart), .text (jsonDumps turnDone)].map
        (WireFrame.read WholeFloat)) := by
  let lower : PyLower := ⟨id⟩
  let start : Server Int (Json WholeFloat) := .start
  have hruns : (run serverStep start lostBargeIn).isSome = true := by decide +kernel
  obtain ⟨s, hrun⟩ := Option.isSome_iff_exists.mp hruns
  have hframes : [.text (jsonDumps speechStart), .text (jsonDumps turnDone)].map Upstream.event =
      (readOf (trace serverStep (Server.traffic 0) start lostBargeIn)).map some := by
    rw [List.map_cons, List.map_cons, event_speechStart, event_turnDone]
    with_unfolding_all rfl
  have hplain : ∀ frame ∈ [.text (jsonDumps speechStart), .text (jsonDumps turnDone)],
      WireFrame.Plain WholeFloat frame := by
    simp only [List.forall_mem_cons]
    exact ⟨plain_jsonDumps (speechStart_proper false), plain_jsonDumps (turnDone_proper false),
      by simp⟩
  exact ⟨lower, s, _, hrun, by with_unfolding_all rfl, (down_verbatim hrun 0 hframes hplain).1⟩

end Livehost
