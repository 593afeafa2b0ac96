import Livehost.Properties.Turns
import Mathlib.Data.List.Chain

/-!
# What the redial loop promises

`_redial` is one loop with two awaits that may fail, a first attempt that may find its connection
live, and a sleep behind every failure. What it does is read off the list of `RedialEvent`s that a
run shows, whatever the pollers and the drain loop do in between.

* `Follows` — which event may come right after which
* `redialInv_step` — the events are a chain, and their last one tells where the task stands
* `RedialArgs.transcript` — what the loop is to show for a list of outcomes
* `seen_prefix_transcript`, `transcript_occurs` — it shows nothing else, and each of them
* `redial_contract` — attempts, connects, sleeps and ends, for every bound on the attempts
-/

namespace Livehost

open Infra

variable {σ β : Type}

/-- What `_redial` does, with the number of the attempt it does it in. -/
inductive RedialEvent
  | attempt (i : Nat)
  /-- `upstream.connect()` is awaited, and returned. -/
  | connect (i : Nat)
  | connected (i : Nat)
  /-- `run_once()` is awaited, and returned. -/
  | runOnce (i : Nat)
  | ran (i : Nat)
  /-- One of the two raised. -/
  | failed (i : Nat) (exc : Exc)
  /-- A sleep begins. -/
  | sleep (i seconds : Nat)
  /-- A cancellation came before the first attempt or hit a sleep. -/
  | cancelled (exc : Exc)
  /-- `_redial` returned, or raised. -/
  | returned
  | raised (exc : Exc)
  deriving DecidableEq, Repr

namespace RedialEvent

def isConnect : RedialEvent → Bool
  | .connect _ => true
  | _ => false

/-- The number of an attempt that begins. -/
def attemptNumber : RedialEvent → Option Nat
  | .attempt i => some i
  | _ => none

end RedialEvent

/-! ## The observer -/

/-- What the task did that left the loop head, or a sleep, and stands where `d` does. -/
def headSeen (d : Down β) : List RedialEvent :=
  match d.pc with
  | .connecting => [.attempt d.attempt, .connect d.attempt]
  | .receiving => [.attempt d.attempt, .runOnce d.attempt]
  | .returned => [.returned]
  | .raised exc => [.cancelled exc]
  | _ => []

/-- What the await raised, if it did. -/
def DownAct.raised : DownAct β → Option Exc
  | .raises exc => some exc
  | _ => none

/-- What a step of the down task shows, read off the places the task stood at and stands at. -/
def downSeen (d : Down β) (a : DownAct β) (d' : Down β) : List RedialEvent :=
  match d.pc, d'.pc with
  | .created, _ | .sleeping _, _ => headSeen d'
  | .connecting, .receiving => [.connected d.attempt, .runOnce d.attempt]
  | .receiving, .returned => [.ran d.attempt, .returned]
  | _, .sleeping seconds =>
    (a.raised.map (.failed d.attempt)).toList ++ [.sleep d.attempt seconds]
  | _, .raised exc => (a.raised.map (.failed d.attempt)).toList ++ [.raised exc]
  | _, _ => []

/-- What a step of the relay's coroutines shows of `_redial`. -/
def redialSeen (args : RedialArgs) (s : TurnsState σ β) : TurnsAct β → List RedialEvent
  | .down a =>
    match downStep args s.relay s.down a with
    | some (_, d') => downSeen s.down a d'
    | none => []
  | _ => []

/-! ## Outcomes -/

/-- What the two awaits of an attempt come to: they return, or raise. -/
structure AttemptOutcome where
  connect : Option Exc
  runOnce : Option Exc

/-- Whether the attempt leaves `upstream.connect()` out. -/
def RedialArgs.skipsConnect (args : RedialArgs) (i : Nat) : Bool :=
  args.alreadyConnected && i == 1

/-- What ends the attempt. -/
def AttemptOutcome.raised (args : RedialArgs) (i : Nat) (o : AttemptOutcome) : Option Exc :=
  if args.skipsConnect i then o.runOnce else o.connect.or o.runOnce

/-- The await that an attempt ends with. -/
def awaitSeen (i : Nat) (returns : RedialEvent) : Option Exc → RedialEvent
  | none => returns
  | some exc => .failed i exc

/-- The awaits of an attempt. -/
def attemptSeen (args : RedialArgs) (i : Nat) (o : AttemptOutcome) : List RedialEvent :=
  if args.skipsConnect i then [.runOnce i, awaitSeen i (.ran i) o.runOnce]
  else
    match o.connect with
    | some exc => [.connect i, .failed i exc]
    | none => [.connect i, .connected i, .runOnce i, awaitSeen i (.ran i) o.runOnce]

/-- What the end of an attempt leads to, where `more` comes behind a sleep. -/
def endSeen (i : Nat) (more : List RedialEvent) : Option Exc → List RedialEvent
  | none => [.returned]
  | some exc =>
    if exc.retryable then .sleep i (min (2 ^ (i - 1)) 10) :: more else [.raised exc]

/-- **The transcript** of the outcomes behind `i` attempts, up to the sleep behind the last one. -/
def RedialArgs.transcript (args : RedialArgs) (i : Nat) :
    List AttemptOutcome → List RedialEvent
  | [] => if i < args.maxAttempts then [] else [.returned]
  | o :: os =>
    if i < args.maxAttempts then
      .attempt (i + 1) :: attemptSeen args (i + 1) o ++
        endSeen (i + 1) (args.transcript (i + 1) os) (o.raised args (i + 1))
    else [.returned]

/-- The loop is over. -/
def DownPc.over : DownPc β → Bool
  | .returned | .raised _ => true
  | _ => false

/-! ## The order of the events -/

/-- What may come right after an event. -/
def Follows (args : RedialArgs) : RedialEvent → RedialEvent → Prop
  | .attempt i, .connect j => j = i ∧ (args.alreadyConnected = true → i ≠ 1)
  | .attempt i, .runOnce j => j = i ∧ args.alreadyConnected = true ∧ i = 1
  | .connect i, .connected j => j = i
  | .connect i, .failed j _ => j = i
  | .connected i, .runOnce j => j = i
  | .runOnce i, .ran j => j = i
  | .runOnce i, .failed j _ => j = i
  | .ran _, .returned => True
  | .failed i exc, .sleep j seconds =>
    exc.retryable = true ∧ j = i ∧ seconds = min (2 ^ (i - 1)) 10
  | .failed _ exc, .raised exc' => exc.retryable = false ∧ exc' = exc
  | .sleep i _, .attempt j => i < args.maxAttempts ∧ j = i + 1
  | .sleep i _, .returned => i = args.maxAttempts
  | .sleep _ _, .cancelled _ => True
  | _, _ => False

/-- What may come first. -/
def Begins (args : RedialArgs) : RedialEvent → Prop
  | .attempt i => i = 1 ∧ 0 < args.maxAttempts
  | .returned => args.maxAttempts = 0
  | .cancelled _ => True
  | _ => False

/-- The last event, as the place of the task tells it. -/
def LastAt (d : Down β) (last : Option RedialEvent) : Prop :=
  match d.pc with
  | .created => last = none ∧ d.attempt = 0
  | .connecting => last = some (.connect d.attempt)
  | .receiving | .aborting _ | .forwarding _ => last = some (.runOnce d.attempt)
  | .sleeping _ => ∃ seconds, last = some (.sleep d.attempt seconds)
  | .returned => last = some .returned
  | .raised exc => last = some (.raised exc) ∨ last = some (.cancelled exc)

/-- **The invariant**: the events are a chain that ends where the task stands, and the attempts
are numbered from one. -/
structure RedialInv (args : RedialArgs) (d : Down β) (seen : List RedialEvent) : Prop where
  first : ∀ e ∈ seen.head?, Begins args e
  chain : seen.IsChain (Follows args)
  last : LastAt d seen.getLast?
  bound : d.attempt ≤ args.maxAttempts
  numbers : seen.filterMap RedialEvent.attemptNumber = List.range' 1 d.attempt
  connects : seen.countP RedialEvent.isConnect
    = if args.alreadyConnected then d.attempt - 1 else d.attempt

section Steps

variable {args : RedialArgs} {d d' : Down β} {seen : List RedialEvent}

/-- What comes next may come first, or follows the last event. -/
def Links (args : RedialArgs) (last : Option RedialEvent) (e : RedialEvent) : Prop :=
  match last with
  | none => Begins args e
  | some l => Follows args l e

/-- A step that shows something. -/
theorem RedialInv.extend {e : RedialEvent} {es : List RedialEvent} (h : RedialInv args d seen)
    (hlink : Links args seen.getLast? e) (hchain : (e :: es).IsChain (Follows args))
    (hlast : LastAt d' (e :: es).getLast?) (hbound : d'.attempt ≤ args.maxAttempts)
    (hnumbers : List.range' 1 d'.attempt
      = List.range' 1 d.attempt ++ (e :: es).filterMap RedialEvent.attemptNumber)
    (hconnects : (if args.alreadyConnected then d'.attempt - 1 else d'.attempt)
      = (if args.alreadyConnected then d.attempt - 1 else d.attempt)
        + (e :: es).countP RedialEvent.isConnect) :
    RedialInv args d' (seen ++ e :: es) where
  first := by
    cases seen with
    | nil => simpa [Links] using hlink
    | cons e' seen => simpa using h.first
  chain := by
    refine List.isChain_append.mpr ⟨h.chain, hchain, fun l hl e' he => ?_⟩
    cases he
    rw [Option.mem_def] at hl
    rw [hl] at hlink
    exact hlink
  last := by
    rw [List.getLast?_append_of_ne_nil _ (List.cons_ne_nil e es)]
    exact hlast
  bound := hbound
  numbers := by rw [List.filterMap_append, h.numbers, hnumbers]
  connects := by rw [List.countP_append, h.connects, hconnects]

/-- A step that shows nothing leaves the task on its connection. -/
theorem RedialInv.silent (h : RedialInv args d seen) (hlast : LastAt d' seen.getLast?)
    (hattempt : d'.attempt = d.attempt) : RedialInv args d' (seen ++ []) := by
  rw [List.append_nil]
  exact ⟨h.first, h.chain, hlast, hattempt ▸ h.bound, hattempt ▸ h.numbers, hattempt ▸ h.connects⟩

/-- The loop head begins the next attempt, or gives up behind the last one. -/
theorem RedialInv.loop {σ : Type} (r : Relay σ) (h : RedialInv args d seen)
    (hlast : seen.getLast? = none ∧ d.attempt = 0 ∨
      ∃ seconds, seen.getLast? = some (.sleep d.attempt seconds)) :
    RedialInv args (redialLoop args r d).2
      (seen ++ headSeen (redialLoop args r d).2) := by
  have hnumbers : List.range' 1 (d.attempt + 1) = List.range' 1 d.attempt ++ [d.attempt + 1] := by
    rw [List.range'_1_concat, Nat.add_comm]
  by_cases hlt : d.attempt < args.maxAttempts
  · have hlink : Links args seen.getLast? (.attempt (d.attempt + 1)) := by
      rcases hlast with ⟨hlast, hzero⟩ | ⟨seconds, hlast⟩
      · rw [hlast]
        exact ⟨by omega, by omega⟩
      · rw [hlast]
        exact ⟨hlt, rfl⟩
    by_cases hfirst : (args.alreadyConnected && d.attempt + 1 == 1) = true
    · simp only [redialLoop, hlt, hfirst, if_true]
      have hconn : args.alreadyConnected = true ∧ d.attempt = 0 := by simpa using hfirst
      refine h.extend hlink ?_ rfl hlt (by simp [hnumbers, RedialEvent.attemptNumber]) ?_
      · simp [Follows, hconn]
      · simp [hconn, RedialEvent.isConnect]
    · simp only [redialLoop, hlt, hfirst, if_true, Bool.false_eq_true, if_false]
      have hconn : args.alreadyConnected = true → d.attempt ≠ 0 := by simpa using hfirst
      refine h.extend hlink ?_ rfl hlt (by simp [hnumbers, RedialEvent.attemptNumber]) ?_
      · simpa [Follows] using hconn
      · cases hc : args.alreadyConnected with
        | true =>
          have hne := hconn hc
          simp [RedialEvent.isConnect]
          omega
        | false => simp [RedialEvent.isConnect]
  · simp only [redialLoop, hlt, if_false]
    refine h.extend ?_ (List.isChain_singleton _) rfl h.bound
      (by simp [RedialEvent.attemptNumber]) (by simp [RedialEvent.isConnect])
    have hbound := h.bound
    rcases hlast with ⟨hlast, hzero⟩ | ⟨seconds, hlast⟩
    · rw [hlast]
      show args.maxAttempts = 0
      omega
    · rw [hlast]
      show d.attempt = args.maxAttempts
      omega

/-- The exception clause: a failure is slept on, or goes on. -/
theorem RedialInv.except (h : RedialInv args d seen) {exc : Exc}
    (hlast : ∃ l, seen.getLast? = some l ∧ ∀ e, Follows args l (.failed d.attempt e))
    (hraises : d.pc ≠ .created ∧ ∀ seconds, d.pc ≠ .sleeping seconds) :
    RedialInv args (redialExcept d exc)
      (seen ++ downSeen d (.raises exc) (redialExcept d exc)) := by
  obtain ⟨l, hlast, hfollows⟩ := hlast
  have hlink : Links args seen.getLast? (.failed d.attempt exc) := by
    rw [hlast]
    exact hfollows exc
  have hseen : downSeen d (.raises exc) (redialExcept d exc) = .failed d.attempt exc ::
      if exc.retryable then [.sleep d.attempt (min (2 ^ (d.attempt - 1)) 10)]
      else [.raised exc] := by
    unfold downSeen
    cases hpc : d.pc
    case created => exact absurd hpc hraises.1
    case sleeping seconds => exact absurd hpc (hraises.2 seconds)
    all_goals cases hretry : exc.retryable <;> simp [redialExcept, hretry, DownAct.raised]
  rw [hseen]
  cases hretry : exc.retryable with
  | true =>
    refine h.extend hlink (by simp [Follows, hretry]) ?_ ?_ ?_ ?_
    · simp [LastAt, redialExcept, hretry]
    all_goals simp [redialExcept, hretry, h.bound, RedialEvent.attemptNumber, RedialEvent.isConnect]
  | false =>
    refine h.extend hlink (by simp [Follows, hretry]) ?_ ?_ ?_ ?_
    · simp [LastAt, redialExcept, hretry]
    all_goals simp [redialExcept, hretry, h.bound, RedialEvent.attemptNumber, RedialEvent.isConnect]

/-- **Every step of the down task** keeps the events in order. -/
theorem redialInv_down {r r' : Relay σ} {a : DownAct β} (h : RedialInv args d seen)
    (hs : downStep args r d a = some (r', d')) :
    RedialInv args d' (seen ++ downSeen d a d') := by
  have hlast := h.last
  unfold LastAt at hlast
  cases a <;> simp only [downStep] at hs
  case start =>
    cases hpc : d.pc <;> simp only [hpc, reduceCtorEq, Option.some.injEq] at hs hlast
    have he : d' = (redialLoop args r d).2 := by rw [hs]
    subst he
    simp only [downSeen, hpc]
    exact h.loop r (Or.inl hlast)
  case resumed =>
    cases hpc : d.pc <;> simp only [hpc, reduceCtorEq, Option.some.injEq] at hs hlast
    case aborting | forwarding =>
      cases hs
      simp only [downSeen, hpc]
      exact h.silent hlast rfl
    case sleeping =>
      have he : d' = (redialLoop args r d).2 := by rw [hs]
      subst he
      simp only [downSeen, hpc]
      exact h.loop r (Or.inr hlast)
  case connected =>
    cases hpc : d.pc <;>
      simp only [hpc, reduceCtorEq, Option.some.injEq, Prod.mk.injEq] at hs hlast
    obtain ⟨-, rfl⟩ := hs
    simp only [downSeen, hpc]
    refine h.extend (by rw [hlast]; rfl) ?_ rfl h.bound ?_ ?_
    · simp [Follows]
    · simp [RedialEvent.attemptNumber]
    · simp [RedialEvent.isConnect]
  case ended =>
    cases hpc : d.pc <;>
      simp only [hpc, reduceCtorEq, Option.some.injEq, Prod.mk.injEq] at hs hlast
    obtain ⟨-, rfl⟩ := hs
    simp only [downSeen, hpc]
    refine h.extend (by rw [hlast]; rfl) ?_ rfl h.bound ?_ ?_
    · simp [Follows]
    · simp [RedialEvent.attemptNumber]
    · simp [RedialEvent.isConnect]
  case message now m =>
    cases hpc : d.pc <;>
      simp only [hpc, reduceCtorEq, Option.some.injEq, Prod.mk.injEq] at hs hlast
    obtain ⟨-, rfl⟩ := hs
    have hsilent : downSeen d (.message now m) { d with
        pc := if (r.receive now m).2 then .aborting m else .forwarding m } = [] := by
      simp only [downSeen, hpc]
      cases (r.receive now m).2 <;> rfl
    rw [hsilent]
    refine h.silent ?_ rfl
    unfold LastAt
    cases (r.receive now m).2 <;> exact hlast
  case raises exc =>
    cases hpc : d.pc <;>
      simp only [hpc, reduceCtorEq, Option.some.injEq, Prod.mk.injEq] at hs hlast
    case created =>
      obtain ⟨-, rfl⟩ := hs
      simp only [downSeen, hpc, headSeen]
      refine h.extend (by rw [hlast.1]; trivial) (List.isChain_singleton _) (Or.inr rfl)
        h.bound ?_ ?_
      · simp [RedialEvent.attemptNumber]
      · simp [RedialEvent.isConnect]
    case sleeping =>
      obtain ⟨-, rfl⟩ := hs
      obtain ⟨seconds, hlast⟩ := hlast
      simp only [downSeen, hpc, headSeen]
      refine h.extend (by rw [hlast]; trivial) (List.isChain_singleton _) (Or.inr rfl)
        h.bound ?_ ?_
      · simp [RedialEvent.attemptNumber]
      · simp [RedialEvent.isConnect]
    all_goals
      obtain ⟨-, rfl⟩ := hs
      exact h.except ⟨_, hlast, fun _ => rfl⟩ (by simp [hpc])

/-- What the neighbours of an event are. -/
theorem RedialInv.neighbours (h : RedialInv args d seen) {pre post : List RedialEvent}
    {e : RedialEvent} (he : seen = pre ++ e :: post) :
    (∀ l ∈ pre.getLast?, Follows args l e) ∧ (pre = [] → Begins args e) ∧
      (∀ e' ∈ post.head?, Follows args e e') ∧ (post = [] → LastAt d (some e)) := by
  subst he
  obtain ⟨-, hpost, hjoin⟩ := List.isChain_append.mp h.chain
  refine ⟨fun l hl => hjoin l hl e rfl, ?_, fun e' he' => ?_, ?_⟩
  · rintro rfl
    exact h.first e rfl
  · cases post with
    | nil => cases he'
    | cons b post =>
      cases he'
      exact (List.isChain_cons_cons.mp hpost).1
  · rintro rfl
    simpa using h.last

/-- Nothing comes after an event that nothing follows. -/
theorem RedialInv.ends (h : RedialInv args d seen) {pre post : List RedialEvent} {e : RedialEvent}
    (he : seen = pre ++ e :: post) (hlast : ∀ e', ¬ Follows args e e') : post = [] := by
  cases post with
  | nil => rfl
  | cons e' post => exact absurd ((h.neighbours he).2.2.1 e' rfl) (hlast e')

/-- The task never stands between an attempt's end and what it leads to. -/
theorem not_lastAt {e : RedialEvent} (he : (∃ i, e = .ran i) ∨ ∃ i exc, e = .failed i exc) :
    ¬ LastAt d (some e) := by
  unfold LastAt
  rcases he with ⟨i, rfl⟩ | ⟨i, exc, rfl⟩ <;> cases d.pc <;> simp

/-- What an event that is not the first comes behind. -/
theorem RedialInv.behind (h : RedialInv args d seen) {pre post : List RedialEvent}
    {e : RedialEvent} (he : seen = pre ++ e :: post) (hbegins : ¬ Begins args e) :
    ∃ l, pre.getLast? = some l ∧ Follows args l e := by
  obtain ⟨hprev, hfirst, -, -⟩ := h.neighbours he
  cases hl : pre.getLast? with
  | none => exact absurd (hfirst (List.getLast?_eq_none_iff.mp hl)) hbegins
  | some l => exact ⟨l, rfl, hprev l hl⟩

/-- What comes right after the end of an attempt. -/
theorem RedialInv.ahead (h : RedialInv args d seen) {pre post : List RedialEvent}
    {e : RedialEvent} (he : seen = pre ++ e :: post)
    (hends : (∃ i, e = .ran i) ∨ ∃ i exc, e = .failed i exc) :
    ∃ e' rest, post = e' :: rest ∧ Follows args e e' ∧ seen = (pre ++ [e]) ++ e' :: rest := by
  obtain ⟨-, -, hnext, hlast⟩ := h.neighbours he
  cases post with
  | nil => exact absurd (hlast rfl) (not_lastAt hends)
  | cons e' rest => exact ⟨e', rest, rfl, hnext e' rfl, by rw [he, List.append_assoc]; rfl⟩

/-! ## What the chain says -/

theorem RedialInv.runOnce (h : RedialInv args d seen) {pre post : List RedialEvent} {i : Nat}
    (he : seen = pre ++ .runOnce i :: post) :
    pre.getLast? = some (.connected i) ∨
      args.alreadyConnected = true ∧ i = 1 ∧ pre.getLast? = some (.attempt 1) := by
  obtain ⟨l, hl, hfollows⟩ := h.behind he id
  cases l <;> simp only [Follows] at hfollows
  case attempt j =>
    obtain ⟨rfl, hconn, rfl⟩ := hfollows
    exact Or.inr ⟨hconn, rfl, hl⟩
  case connected j =>
    subst hfollows
    exact Or.inl hl

theorem RedialInv.connected (h : RedialInv args d seen) {pre post : List RedialEvent} {i : Nat}
    (he : seen = pre ++ .connected i :: post) : pre.getLast? = some (.connect i) := by
  obtain ⟨l, hl, hfollows⟩ := h.behind he id
  cases l <;> simp only [Follows] at hfollows
  subst hfollows
  exact hl

theorem RedialInv.ran (h : RedialInv args d seen) {pre post : List RedialEvent} {i : Nat}
    (he : seen = pre ++ .ran i :: post) : post = [.returned] := by
  obtain ⟨e', rest, rfl, hfollows, he'⟩ := h.ahead he (by simp)
  cases e' <;> simp only [Follows] at hfollows
  rw [h.ends he' (by simp [Follows])]

theorem RedialInv.raised (h : RedialInv args d seen) {pre post : List RedialEvent} {i : Nat}
    {exc : Exc} (he : seen = pre ++ .failed i exc :: post) (hretry : exc.retryable = false) :
    post = [.raised exc] := by
  obtain ⟨e', rest, rfl, hfollows, he'⟩ := h.ahead he (by simp)
  cases e' <;> simp only [Follows, hretry, Bool.false_eq_true, false_and, true_and] at hfollows
  rw [h.ends he' (by simp [Follows]), hfollows]

theorem RedialInv.slept (h : RedialInv args d seen) {pre post : List RedialEvent} {i : Nat}
    {exc : Exc} (he : seen = pre ++ .failed i exc :: post) (hretry : exc.retryable = true) :
    ∃ rest, post = .sleep i (min (2 ^ (i - 1)) 10) :: rest ∧
      ∀ e ∈ rest.head?, i < args.maxAttempts ∧ e = .attempt (i + 1) ∨
        i = args.maxAttempts ∧ e = .returned ∨ ∃ exc, e = .cancelled exc := by
  obtain ⟨e', rest, rfl, hfollows, hsleep⟩ := h.ahead he (by simp)
  cases e' <;> simp only [Follows, hretry, Bool.true_eq_false, false_and, true_and] at hfollows
  next j seconds =>
    obtain ⟨rfl, rfl⟩ := hfollows
    refine ⟨rest, rfl, fun e he' => ?_⟩
    have hnext := (h.neighbours hsleep).2.2.1 e he'
    cases e <;> simp only [Follows] at hnext
    case attempt k => exact Or.inl ⟨hnext.1, by rw [hnext.2]⟩
    case returned => exact Or.inr (Or.inl ⟨hnext, rfl⟩)
    case cancelled exc => exact Or.inr (Or.inr ⟨exc, rfl⟩)

theorem RedialInv.returned (h : RedialInv args d seen) {pre post : List RedialEvent}
    (he : seen = pre ++ .returned :: post) :
    post = [] ∧ (pre = [] → args.maxAttempts = 0) ∧
      ∀ l ∈ pre.getLast?, (∃ i, l = .ran i) ∨ ∃ seconds, l = .sleep args.maxAttempts seconds := by
  refine ⟨h.ends he (by simp [Follows]), (h.neighbours he).2.1, fun l hl => ?_⟩
  have hfollows := (h.neighbours he).1 l hl
  cases l <;> simp only [Follows] at hfollows
  case ran i => exact Or.inl ⟨i, rfl⟩
  case sleep i seconds => exact Or.inr ⟨seconds, by rw [hfollows]⟩

end Steps

/-! ## Every run -/

theorem redialInv_step [Score σ] [PyLower] {args : RedialArgs} {s s' : TurnsState σ β}
    {a : TurnsAct β} {seen : List RedialEvent} (hi : RedialInv args s.down seen)
    (hs : turnsStep args s a = some s') :
    RedialInv args s'.down (seen ++ redialSeen args s a) := by
  cases a with
  | down a =>
    obtain ⟨⟨r', d'⟩, hd, rfl⟩ := Option.map_eq_some_iff.mp hs
    simp only [redialSeen, hd]
    exact redialInv_down hi hd
  | pollSocial | pollIdle | arrive =>
    cases hs
    exact hi.silent hi.last rfl

theorem redialInv_trace [Score σ] [PyLower] (args : RedialArgs) (r : Relay σ)
    (acts : List (TurnsAct β)) :
    ∃ d : Down β, RedialInv args d
      (trace (turnsStep args) (redialSeen args) ⟨r, {}⟩ acts) := by
  have h0 : RedialInv args ({} : Down β) [] :=
    ⟨by simp, .nil, ⟨rfl, rfl⟩, Nat.zero_le _, rfl, by simp⟩
  have htrace : ∃ s : TurnsState σ β,
      RedialInv args s.down ([] ++ trace (turnsStep args) (redialSeen args) ⟨r, {}⟩ acts) :=
    trace_inv (I := fun s seen => RedialInv args s.down seen)
      (fun _ _ _ _ hi hs => redialInv_step hi hs) h0 acts
  obtain ⟨t, ht⟩ := htrace
  exact ⟨t.down, ht⟩

/-! ## What the outcomes tell -/

/-- What comes behind the place of the task, if the attempt it is in, or the next one, comes to `o`
and those behind it to `os`. -/
def RedialArgs.ahead (args : RedialArgs) (d : Down β) (o : AttemptOutcome)
    (os : List AttemptOutcome) : List RedialEvent :=
  let more := args.transcript d.attempt os
  let ran := awaitSeen d.attempt (.ran d.attempt) o.runOnce :: endSeen d.attempt more o.runOnce
  match d.pc with
  | .created | .sleeping _ => args.transcript d.attempt (o :: os)
  | .connecting =>
    match o.connect with
    | some exc => .failed d.attempt exc :: endSeen d.attempt more (some exc)
    | none => .connected d.attempt :: .runOnce d.attempt :: ran
  | .receiving | .aborting _ | .forwarding _ => ran
  | .returned | .raised _ => []

/-- What was seen is told by the outcomes of the attempts so far, whatever the others come to. -/
def Told (args : RedialArgs) (d : Down β) (seen : List RedialEvent) : Prop :=
  ∃ past, ∀ o os, (d.pc.streaming = true → o.connect = none) →
    seen ++ args.ahead d o os = args.transcript 0 (past ++ o :: os)

section Told

variable {args : RedialArgs} {d d' : Down β} {seen : List RedialEvent}

/-- A step that no outcome of an attempt decides. -/
theorem Told.step {more : List RedialEvent} (h : Told args d seen)
    (hahead : ∀ o os, (d'.pc.streaming = true → o.connect = none) →
      (d.pc.streaming = true → o.connect = none) ∧
        args.ahead d o os = more ++ args.ahead d' o os) : Told args d' (seen ++ more) := by
  obtain ⟨past, hpast⟩ := h
  refine ⟨past, fun o os hconnect => ?_⟩
  obtain ⟨hconnect', hsame⟩ := hahead o os hconnect
  rw [List.append_assoc, ← hsame]
  exact hpast o os hconnect'

/-- The outcome `o₀` ends the attempt. -/
theorem Told.outcome {more : List RedialEvent} (h : Told args d seen) (o₀ : AttemptOutcome)
    (hconnect : d.pc.streaming = true → o₀.connect = none)
    (hahead : ∀ o os, args.ahead d o₀ (o :: os) = more ++ args.ahead d' o os) :
    Told args d' (seen ++ more) := by
  obtain ⟨past, hpast⟩ := h
  refine ⟨past ++ [o₀], fun o os _ => ?_⟩
  rw [List.append_assoc, ← hahead, hpast o₀ (o :: os) hconnect, List.append_assoc]
  rfl

/-- From the head comes the next attempt, or the return. -/
theorem Told.loop (r : Relay σ) (h : Told args d seen)
    (hhead : d.pc = .created ∨ ∃ seconds, d.pc = .sleeping seconds) :
    Told args (redialLoop args r d).2 (seen ++ headSeen (redialLoop args r d).2) := by
  have hout : d.pc.streaming = false := by
    rcases hhead with hpc | ⟨seconds, hpc⟩ <;> rw [hpc] <;> rfl
  refine h.step fun o os hconnect => ⟨fun hin => ?_, ?_⟩
  · rw [hout] at hin
    cases hin
  have hahead : args.ahead d o os = args.transcript d.attempt (o :: os) := by
    rcases hhead with hpc | ⟨seconds, hpc⟩ <;> rw [RedialArgs.ahead, hpc]
  rw [hahead, RedialArgs.transcript]
  by_cases hlt : d.attempt < args.maxAttempts
  · cases hskips : args.skipsConnect (d.attempt + 1) with
    | true =>
      have hloop : redialLoop args r d
          = (Livehost.runOnce r, { pc := .receiving, attempt := d.attempt + 1 }) := by
        rw [redialLoop, if_pos hlt]
        exact if_pos hskips
      rw [hloop, if_pos hlt]
      simp only [attemptSeen, AttemptOutcome.raised, hskips, if_true]
      rfl
    | false =>
      have hloop : redialLoop args r d
          = (r, { pc := .connecting, attempt := d.attempt + 1 }) := by
        rw [redialLoop, if_pos hlt]
        exact if_neg (by simpa [RedialArgs.skipsConnect] using hskips)
      rw [hloop, if_pos hlt]
      simp only [attemptSeen, AttemptOutcome.raised, hskips, Bool.false_eq_true, if_false]
      cases hc : o.connect <;> simp [RedialArgs.ahead, headSeen, hc]
  · have hloop : redialLoop args r d = (r, { d with pc := .returned }) := by
      rw [redialLoop, if_neg hlt]
    rw [hloop, if_neg hlt]
    rfl

/-- A failure ends its attempt. -/
theorem Told.except (h : Told args d seen) {exc : Exc} (o₀ : AttemptOutcome)
    (hconnect : d.pc.streaming = true → o₀.connect = none)
    (hplace : d.pc ≠ .created ∧ ∀ seconds, d.pc ≠ .sleeping seconds)
    (hahead : ∀ os, args.ahead d o₀ os =
      .failed d.attempt exc :: endSeen d.attempt (args.transcript d.attempt os) (some exc)) :
    Told args (redialExcept d exc)
      (seen ++ downSeen d (.raises exc) (redialExcept d exc)) := by
  refine h.outcome o₀ hconnect fun o os => ?_
  rw [hahead]
  unfold downSeen
  cases hpc : d.pc
  case created => exact absurd hpc hplace.1
  case sleeping seconds => exact absurd hpc (hplace.2 seconds)
  all_goals
    cases hretry : exc.retryable <;>
      simp [redialExcept, endSeen, RedialArgs.ahead, hretry, DownAct.raised]

/-- **Every step of the down task**, but a cancellation outside an attempt, is told. -/
theorem Told.down {r r' : Relay σ} {a : DownAct β} (h : Told args d seen)
    (hs : downStep args r d a = some (r', d')) :
    (∃ exc, .cancelled exc ∈ downSeen d a d') ∨ Told args d' (seen ++ downSeen d a d') := by
  cases a <;> simp only [downStep] at hs
  case start =>
    cases hpc : d.pc <;> simp only [hpc, reduceCtorEq, Option.some.injEq] at hs
    have he : d' = (redialLoop args r d).2 := by rw [hs]
    subst he
    simp only [downSeen, hpc]
    exact Or.inr (h.loop r (Or.inl hpc))
  case resumed =>
    cases hpc : d.pc <;> simp only [hpc, reduceCtorEq, Option.some.injEq] at hs
    case aborting | forwarding =>
      cases hs
      refine Or.inr (h.step fun o os hconnect => ⟨fun _ => hconnect rfl, ?_⟩)
      simp [downSeen, RedialArgs.ahead, hpc]
    case sleeping seconds =>
      have he : d' = (redialLoop args r d).2 := by rw [hs]
      subst he
      simp only [downSeen, hpc]
      exact Or.inr (h.loop r (Or.inr ⟨seconds, hpc⟩))
  case connected =>
    cases hpc : d.pc <;> simp only [hpc, reduceCtorEq, Option.some.injEq, Prod.mk.injEq] at hs
    obtain ⟨-, rfl⟩ := hs
    refine Or.inr (h.step fun o os hconnect => ⟨fun _ => hconnect rfl, ?_⟩)
    have hnone := hconnect rfl
    simp [downSeen, RedialArgs.ahead, hpc, hnone]
  case ended =>
    cases hpc : d.pc <;> simp only [hpc, reduceCtorEq, Option.some.injEq, Prod.mk.injEq] at hs
    obtain ⟨-, rfl⟩ := hs
    refine Or.inr (h.outcome ⟨none, none⟩ (fun _ => rfl) fun o os => ?_)
    simp [downSeen, RedialArgs.ahead, hpc, awaitSeen, endSeen]
  case message now m =>
    cases hpc : d.pc <;> simp only [hpc, reduceCtorEq, Option.some.injEq, Prod.mk.injEq] at hs
    obtain ⟨-, rfl⟩ := hs
    refine Or.inr (h.step fun o os hconnect => ⟨fun _ => hconnect ?_, ?_⟩)
    · cases (r.receive now m).2 <;> rfl
    · cases haborts : (r.receive now m).2 <;> simp [downSeen, RedialArgs.ahead, hpc]
  case raises exc =>
    cases hpc : d.pc <;> simp only [hpc, reduceCtorEq, Option.some.injEq, Prod.mk.injEq] at hs
    case created | sleeping =>
      obtain ⟨-, rfl⟩ := hs
      exact Or.inl ⟨exc, by simp [downSeen, headSeen, hpc]⟩
    case connecting =>
      obtain ⟨-, rfl⟩ := hs
      refine Or.inr (h.except ⟨some exc, none⟩ (by simp [hpc, DownPc.streaming]) (by simp [hpc])
        fun os => ?_)
      rw [RedialArgs.ahead, hpc]
    all_goals
      obtain ⟨-, rfl⟩ := hs
      refine Or.inr (h.except ⟨none, some exc⟩ (fun _ => rfl) (by simp [hpc]) fun os => ?_)
      rw [RedialArgs.ahead, hpc]
      rfl

end Told

theorem told_step [Score σ] [PyLower] {args : RedialArgs} {s s' : TurnsState σ β}
    {a : TurnsAct β} {seen : List RedialEvent}
    (hi : (∃ exc, .cancelled exc ∈ seen) ∨ Told args s.down seen)
    (hs : turnsStep args s a = some s') :
    (∃ exc, .cancelled exc ∈ seen ++ redialSeen args s a) ∨
      Told args s'.down (seen ++ redialSeen args s a) := by
  rcases hi with ⟨exc, hexc⟩ | htold
  · exact Or.inl ⟨exc, List.mem_append_left _ hexc⟩
  cases a with
  | down a =>
    obtain ⟨⟨r', d'⟩, hd, rfl⟩ := Option.map_eq_some_iff.mp hs
    simp only [redialSeen, hd]
    refine (htold.down hd).imp_left ?_
    rintro ⟨exc, hexc⟩
    exact ⟨exc, List.mem_append_right _ hexc⟩
  | pollSocial | pollIdle | arrive =>
    cases hs
    exact Or.inr (by simpa [redialSeen] using htold)

/-- **What a run shows begins a transcript**, unless a cancellation comes outside an attempt. -/
theorem seen_prefix_transcript [Score σ] [PyLower] (args : RedialArgs) (r : Relay σ)
    (acts : List (TurnsAct β))
    (hcancel : ∀ exc, .cancelled exc ∉
      trace (turnsStep args) (redialSeen args) (⟨r, {}⟩ : TurnsState σ β) acts) :
    ∃ os, trace (turnsStep args) (redialSeen args) (⟨r, {}⟩ : TurnsState σ β) acts <+:
      args.transcript 0 os := by
  have h0 : Told args ({} : Down β) [] := ⟨[], fun _ _ _ => rfl⟩
  obtain ⟨s, hs⟩ : ∃ s : TurnsState σ β,
      (∃ exc, .cancelled exc ∈
        [] ++ trace (turnsStep args) (redialSeen args) (⟨r, {}⟩ : TurnsState σ β) acts) ∨
      Told args s.down
        ([] ++ trace (turnsStep args) (redialSeen args) (⟨r, {}⟩ : TurnsState σ β) acts) :=
    trace_inv (I := fun s seen => (∃ exc, .cancelled exc ∈ seen) ∨ Told args s.down seen)
      (fun _ _ _ _ hi hs => told_step hi hs) (Or.inr h0) acts
  rcases hs with ⟨exc, hexc⟩ | ⟨past, hpast⟩
  · exact absurd hexc (hcancel exc)
  · exact ⟨_, _, hpast ⟨none, none⟩ [] fun _ => rfl⟩

/-! ## Every list of outcomes -/

section Outcomes

variable [Score σ] [PyLower] {args : RedialArgs}

/-- The task stands at the loop head, or in the sleep before it, behind `i` attempts. -/
def AtHead (i : Nat) (d : Down β) : Prop :=
  d.attempt = i ∧ (d.pc = .created ∨ ∃ seconds, d.pc = .sleeping seconds)

/-- `acts` leads from `s` to `s'` and shows `seen`. -/
def Shows (args : RedialArgs) (s s' : TurnsState σ β) (acts : List (TurnsAct β))
    (seen : List RedialEvent) : Prop :=
  run (turnsStep args) s acts = some s' ∧ trace (turnsStep args) (redialSeen args) s acts = seen

theorem Shows.append {s m t : TurnsState σ β} {as bs : List (TurnsAct β)}
    {seen more : List RedialEvent} (h : Shows args s m as seen) (h' : Shows args m t bs more) :
    Shows args s t (as ++ bs) (seen ++ more) :=
  ⟨run_append_some.mpr ⟨m, h.1, h'.1⟩, by rw [trace_append h.1, h.2, h'.2]⟩

/-- One step of the down task. -/
theorem Shows.down {s : TurnsState σ β} {a : DownAct β} {r : Relay σ} {d : Down β}
    (h : downStep args s.relay s.down a = some (r, d)) :
    Shows args s ⟨r, d⟩ [.down a] (downSeen s.down a d) := by
  have hstep : turnsStep args s (.down a) = some ⟨r, d⟩ := by simp [turnsStep, h]
  exact ⟨run_cons_some.mpr ⟨_, hstep, rfl⟩, by simp [trace, hstep, redialSeen, h]⟩

/-- Some run from `s` shows `seen`, and ends the loop if `ends`. -/
def Occurs (args : RedialArgs) (s : TurnsState σ β) (seen : List RedialEvent) (ends : Prop) :
    Prop :=
  ∃ acts s', Shows args s s' acts seen ∧ (ends → s'.down.pc.over = true)

theorem Shows.occurs {s m : TurnsState σ β} {acts : List (TurnsAct β)}
    {seen more : List RedialEvent} {ends : Prop} (h : Shows args s m acts seen)
    (hm : Occurs args m more ends) : Occurs args s (seen ++ more) ends := by
  obtain ⟨acts', s', hshows, hover⟩ := hm
  exact ⟨acts ++ acts', s', h.append hshows, hover⟩

theorem Shows.occurs_over {s s' : TurnsState σ β} {acts : List (TurnsAct β)}
    {seen : List RedialEvent} {ends : Prop} (h : Shows args s s' acts seen)
    (hover : s'.down.pc.over = true) : Occurs args s seen ends :=
  ⟨acts, s', h, fun _ => hover⟩

/-- From the head the loop begins the next attempt, or is over behind the last one. -/
theorem shows_head {i : Nat} {s : TurnsState σ β} (hs : AtHead i s.down) :
    ∃ a, Shows args s ⟨(redialLoop args s.relay s.down).1, (redialLoop args s.relay s.down).2⟩
      [.down a] (headSeen (redialLoop args s.relay s.down).2) := by
  obtain ⟨-, hpc | ⟨seconds, hpc⟩⟩ := hs
  · have hstep : downStep args s.relay s.down .start = some (redialLoop args s.relay s.down) := by
      rw [downStep, hpc]
    have h := Shows.down hstep
    rw [downSeen, hpc] at h
    exact ⟨.start, h⟩
  · have hstep : downStep args s.relay s.down .resumed =
        some (redialLoop args s.relay s.down) := by
      rw [downStep, hpc]
    have h := Shows.down hstep
    rw [downSeen, hpc] at h
    exact ⟨.resumed, h⟩

/-- Behind the last attempt the loop returns. -/
theorem occurs_giveUp {i : Nat} {s : TurnsState σ β} {ends : Prop} (hs : AtHead i s.down)
    (hlast : ¬ i < args.maxAttempts) : Occurs args s [.returned] ends := by
  obtain ⟨a, h⟩ : ∃ a, Shows args s _ [.down a] _ := shows_head hs
  have hloop : redialLoop args s.relay s.down = (s.relay, { s.down with pc := .returned }) := by
    rw [redialLoop, if_neg (by rw [hs.1]; exact hlast)]
  rw [hloop] at h
  exact h.occurs_over rfl

/-- A failed attempt is slept on, or ends the loop. -/
theorem occurs_failed {i : Nat} {s : TurnsState σ β} {exc : Exc} {more : List RedialEvent}
    {ends : Prop} (hpc : s.down.pc = .connecting ∨ s.down.pc = .receiving)
    (hi : s.down.attempt = i)
    (hmore : ∀ m : TurnsState σ β, AtHead i m.down → Occurs args m more ends) :
    Occurs args s (.failed i exc :: endSeen i more (some exc)) ends := by
  have hstep : downStep args s.relay s.down (.raises exc)
      = some (s.relay, redialExcept s.down exc) := by
    rcases hpc with hpc | hpc <;> rw [downStep, hpc]
  have h := Shows.down hstep
  cases hretry : exc.retryable with
  | true =>
    have hseen : downSeen s.down (.raises exc) (redialExcept s.down exc)
        = [.failed i exc, .sleep i (min (2 ^ (i - 1)) 10)] := by
      rcases hpc with hpc | hpc <;> simp [downSeen, redialExcept, hpc, hretry, hi, DownAct.raised]
    rw [hseen] at h
    simp only [endSeen, hretry, if_true]
    refine h.occurs (hmore _ ?_)
    simp [AtHead, redialExcept, hretry, hi]
  | false =>
    have hseen : downSeen s.down (.raises exc) (redialExcept s.down exc)
        = [.failed i exc, .raised exc] := by
      rcases hpc with hpc | hpc <;> simp [downSeen, redialExcept, hpc, hretry, hi, DownAct.raised]
    rw [hseen] at h
    simp only [endSeen, hretry, Bool.false_eq_true, if_false]
    exact h.occurs_over (by simp [redialExcept, hretry, DownPc.over])

/-- `run_once()` returns, or raises. -/
theorem occurs_run {i : Nat} {s : TurnsState σ β} {raised : Option Exc} {more : List RedialEvent}
    {ends : Prop} (hpc : s.down.pc = .receiving) (hi : s.down.attempt = i)
    (hmore : ∀ m : TurnsState σ β, AtHead i m.down → Occurs args m more ends) :
    Occurs args s (awaitSeen i (.ran i) raised :: endSeen i more raised) ends := by
  cases raised with
  | some exc => exact occurs_failed (Or.inr hpc) hi hmore
  | none =>
    have hstep : downStep args s.relay s.down .ended =
        some (s.relay, { s.down with pc := .returned }) := by
      rw [downStep, hpc]
    have h := Shows.down hstep
    simp only [downSeen, hpc, hi] at h
    exact h.occurs_over rfl

/-- **The transcript of every list of outcomes occurs.** -/
theorem transcript_occurs (os : List AttemptOutcome) {i : Nat} {s : TurnsState σ β}
    (hs : AtHead i s.down) :
    Occurs args s (args.transcript i os) (args.maxAttempts ≤ i + os.length) := by
  induction os generalizing i s with
  | nil =>
    rw [RedialArgs.transcript]
    split
    next hlt =>
      refine ⟨[], s, ⟨rfl, rfl⟩, fun hle => ?_⟩
      rw [List.length_nil] at hle
      omega
    next hlast => exact occurs_giveUp hs hlast
  | cons o os ih =>
    rw [RedialArgs.transcript]
    split
    next hlt =>
      have hmore : ∀ m : TurnsState σ β, AtHead (i + 1) m.down →
          Occurs args m (args.transcript (i + 1) os)
            (args.maxAttempts ≤ i + (o :: os).length) := by
        intro m hm
        have h := ih hm
        rwa [Nat.add_assoc, Nat.add_comm 1] at h
      obtain ⟨a, h⟩ : ∃ a, Shows args s _ [.down a] _ := shows_head hs
      cases hskips : args.skipsConnect (i + 1) with
      | true =>
        have hloop : redialLoop args s.relay s.down
            = (runOnce s.relay, { pc := .receiving, attempt := i + 1 }) := by
          rw [redialLoop, hs.1, if_pos hlt]
          exact if_pos hskips
        rw [hloop] at h
        simp only [attemptSeen, AttemptOutcome.raised, hskips, if_true]
        exact h.occurs (occurs_run rfl rfl hmore)
      | false =>
        have hloop : redialLoop args s.relay s.down
            = (s.relay, { pc := .connecting, attempt := i + 1 }) := by
          rw [redialLoop, hs.1, if_pos hlt]
          exact if_neg (by simpa [RedialArgs.skipsConnect] using hskips)
        rw [hloop] at h
        simp only [attemptSeen, AttemptOutcome.raised, hskips, Bool.false_eq_true, if_false]
        cases hconnect : o.connect with
        | some exc => exact h.occurs (occurs_failed (Or.inl rfl) rfl hmore)
        | none =>
          have hconnected : Shows args (⟨s.relay, ⟨.connecting, i + 1⟩⟩ : TurnsState σ β)
              ⟨runOnce s.relay, ⟨.receiving, i + 1⟩⟩ [.down .connected]
              [.connected (i + 1), .runOnce (i + 1)] := Shows.down rfl
          exact h.occurs (hconnected.occurs (occurs_run rfl rfl hmore))
    next hlast => exact occurs_giveUp hs hlast

/-- **The loop never hangs**: while it is not over, what it awaits can come. -/
theorem redial_progress (s : TurnsState σ β) :
    s.down.pc.over = true ∨ ∃ a, (turnsStep args s (.down a)).isSome = true := by
  cases hpc : s.down.pc with
  | created => exact Or.inr ⟨.start, by simp [turnsStep, downStep, hpc]⟩
  | connecting => exact Or.inr ⟨.connected, by simp [turnsStep, downStep, hpc]⟩
  | receiving => exact Or.inr ⟨.ended, by simp [turnsStep, downStep, hpc]⟩
  | aborting | forwarding | sleeping =>
    exact Or.inr ⟨.resumed, by simp [turnsStep, downStep, hpc]⟩
  | returned | raised => exact Or.inl rfl

end Outcomes

/-- The loop head enters `pump_down` through `_run_once`, if it does. -/
theorem redialLoop_streaming {args : RedialArgs} {r : Relay σ} {d : Down β}
    (hin : (redialLoop args r d).2.pc.streaming = true) : (redialLoop args r d).1 = runOnce r := by
  unfold redialLoop at hin ⊢
  split
  next hlt =>
    rw [if_pos hlt] at hin
    dsimp only at hin ⊢
    split
    · rfl
    next hconn =>
      rw [if_neg hconn] at hin
      cases hin
  next hlt =>
    rw [if_neg hlt] at hin
    cases hin

/-- **Every entry into `pump_down`** finds both flags cleared. -/
theorem enters_cleared [Score σ] [PyLower] {args : RedialArgs} {s s' : TurnsState σ β}
    {a : TurnsAct β} (hs : turnsStep args s a = some s') (hout : s.down.pc.streaming = false)
    (hin : s'.down.pc.streaming = true) :
    s'.relay.voiceActive = false ∧ s'.relay.socialTurnInFlight = false := by
  have hcleared : ∀ r, r = runOnce s.relay →
      r.voiceActive = false ∧ r.socialTurnInFlight = false := by
    rintro r rfl
    exact ⟨rfl, rfl⟩
  cases a with
  | down a =>
    obtain ⟨⟨r', d'⟩, hd, rfl⟩ := Option.map_eq_some_iff.mp hs
    refine hcleared r' ?_
    cases hpc : s.down.pc <;> rw [hpc] at hout <;>
      simp only [DownPc.streaming, reduceCtorEq] at hout
    all_goals
      cases a <;> simp only [downStep, hpc, reduceCtorEq, Option.some.injEq, Prod.mk.injEq] at hd
    case created.start | sleeping.resumed =>
      have hloop : (redialLoop args s.relay s.down).2.pc.streaming = true := by
        rw [hd]
        exact hin
      have hr := redialLoop_streaming hloop
      rwa [hd] at hr
    case connecting.connected => exact hd.1.symm
    case connecting.raises exc =>
      obtain ⟨-, rfl⟩ := hd
      cases hretry : exc.retryable <;> simp [redialExcept, hretry, DownPc.streaming] at hin
    all_goals
      obtain ⟨-, rfl⟩ := hd
      simp [DownPc.streaming] at hin
  | pollSocial | pollIdle | arrive =>
    cases hs
    rw [hout] at hin
    cases hin

/--
**The redial loop.** For every bound on the attempts, with and without a live connection handed
over, whatever the awaits of the task give it and whatever the pollers and the drain loop do in
between: the attempts are numbered from one and no more than the bound; `run_once()` is called only
behind the `connect()` of its attempt, or first thing in the first attempt on a live connection; the
first return of `run_once()` ends the loop; a failure that is not retryable goes on at once; a
retryable one is slept on, and then comes the next attempt, or behind the last one the return; and
`pump_down` is entered with both flags cleared. While the loop is not over something it awaits can
come; what a run shows that is not cancelled outside an attempt begins the transcript of some list
of outcomes; and every list of outcomes occurs with just its transcript, which ends the loop when
there is an outcome for each attempt.
-/
theorem redial_contract [Score σ] [PyLower] (args : RedialArgs) (r : Relay σ)
    (acts : List (TurnsAct β)) :
    let seen := trace (turnsStep args) (redialSeen args) ⟨r, {}⟩ acts
    (∃ n ≤ args.maxAttempts, seen.filterMap RedialEvent.attemptNumber = List.range' 1 n) ∧
    seen.countP RedialEvent.isConnect
      ≤ (if args.alreadyConnected then args.maxAttempts - 1 else args.maxAttempts) ∧
    (∀ pre i post, seen = pre ++ RedialEvent.runOnce i :: post →
      pre.getLast? = some (.connected i) ∨
        args.alreadyConnected = true ∧ i = 1 ∧ pre.getLast? = some (.attempt 1)) ∧
    (∀ pre i post, seen = pre ++ RedialEvent.connected i :: post →
      pre.getLast? = some (.connect i)) ∧
    (∀ pre i post, seen = pre ++ RedialEvent.ran i :: post → post = [.returned]) ∧
    (∀ pre i exc post, seen = pre ++ RedialEvent.failed i exc :: post → exc.retryable = false →
      post = [.raised exc]) ∧
    (∀ pre i exc post, seen = pre ++ RedialEvent.failed i exc :: post → exc.retryable = true →
      ∃ rest, post = .sleep i (min (2 ^ (i - 1)) 10) :: rest ∧
        ∀ e ∈ rest.head?, i < args.maxAttempts ∧ e = .attempt (i + 1) ∨
          i = args.maxAttempts ∧ e = .returned ∨ ∃ exc, e = .cancelled exc) ∧
    (∀ pre post, seen = pre ++ RedialEvent.returned :: post → post = [] ∧
      (pre = [] → args.maxAttempts = 0) ∧
      ∀ l ∈ pre.getLast?, (∃ i, l = .ran i) ∨ ∃ seconds, l = .sleep args.maxAttempts seconds) ∧
    (∀ (s s' : TurnsState σ β) a, turnsStep args s a = some s' →
      s.down.pc.streaming = false → s'.down.pc.streaming = true →
      s'.relay.voiceActive = false ∧ s'.relay.socialTurnInFlight = false) ∧
    (∀ s : TurnsState σ β, run (turnsStep args) ⟨r, {}⟩ acts = some s →
      s.down.pc.over = true ∨ ∃ a, (turnsStep args s (.down a)).isSome = true) ∧
    ((∀ exc, .cancelled exc ∉ seen) → ∃ os, seen <+: args.transcript 0 os) ∧
    ∀ os, ∃ acts' s', run (turnsStep args) (⟨r, {}⟩ : TurnsState σ β) acts' = some s' ∧
      trace (turnsStep args) (redialSeen args) ⟨r, {}⟩ acts' = args.transcript 0 os ∧
      (args.maxAttempts ≤ os.length → s'.down.pc.over = true) := by
  intro seen
  obtain ⟨d, h⟩ := redialInv_trace args r acts
  have hconnects := h.connects
  have hbound := h.bound
  refine ⟨⟨d.attempt, hbound, h.numbers⟩, ?_, fun _ _ _ => h.runOnce, fun _ _ _ => h.connected,
    fun _ _ _ => h.ran, fun _ _ _ _ => h.raised, fun _ _ _ _ => h.slept, fun _ _ => h.returned,
    fun s s' a => enters_cleared, fun s _ => redial_progress s, seen_prefix_transcript args r acts,
    fun os => ?_⟩
  · rw [hconnects]
    split <;> omega
  · have hhead : AtHead 0 ({} : Down β) := ⟨rfl, Or.inl rfl⟩
    have hoccurs : Occurs args (⟨r, {}⟩ : TurnsState σ β) (args.transcript 0 os)
        (args.maxAttempts ≤ 0 + os.length) := transcript_occurs os hhead
    obtain ⟨acts', s', ⟨hrun, hseen⟩, hover⟩ := hoccurs
    exact ⟨acts', s', hrun, hseen, fun hle => hover (by omega)⟩

/-- A live connection drops, the redial is refused, and the third connection drops too. -/
def threeDrops : List AttemptOutcome :=
  [⟨none, some .osError⟩, ⟨some .osError, none⟩, ⟨none, some .osError⟩]

/-- A relay with nothing pending. -/
def nothingPending : Relay Int := .new (.new [] 3 3 200) 0

/-- Two connects, a sleep behind each failure, and the return behind the third. -/
theorem threeDrops_give_up : ∃ (_ : PyLower) (acts : List (TurnsAct Unit))
    (s : TurnsState Int Unit),
    run (turnsStep ⟨3, true⟩) (⟨nothingPending, {}⟩ : TurnsState Int Unit) acts = some s ∧
    trace (turnsStep ⟨3, true⟩) (redialSeen ⟨3, true⟩) ⟨nothingPending, {}⟩ acts =
      [.attempt 1, .runOnce 1, .failed 1 .osError, .sleep 1 1,
        .attempt 2, .connect 2, .failed 2 .osError, .sleep 2 2,
        .attempt 3, .connect 3, .connected 3, .runOnce 3, .failed 3 .osError, .sleep 3 4,
        .returned] ∧
    s.down.pc.over = true := by
  let lower : PyLower := ⟨id⟩
  obtain ⟨-, -, -, -, -, -, -, -, -, -, -, hoccurs⟩ :=
    redial_contract (β := Unit) ⟨3, true⟩ nothingPending []
  obtain ⟨acts, s, hrun, hseen, hover⟩ := hoccurs threeDrops
  exact ⟨lower, acts, s, hrun, hseen.trans (by decide +kernel), hover (by decide)⟩

end Livehost
