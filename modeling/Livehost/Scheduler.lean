import Livehost.Schemas
import Livehost.Infra.StableSort

/-!
# The event scheduler

`livehost/scheduler.py`: a priority queue of social events. `enqueue` appends, re-sorts and
evicts at most one entry when the cap is exceeded; `nextTurn` pops one event of a small backlog
or takes the first `batchTopK` of a large one and clears the rest.

The queue is the sorted list of the source. `seq` stands for the identity of a `_ScoredEvent`
object: the number of `enqueue` calls before the one that made it. No decision reads it.
-/

namespace Livehost

open Infra

variable {σ : Type}

/-! ## Scores -/

def kindBaseScore : Kind → Int
  | .gift => 500
  | .follow => 200
  | .share => 100
  | .comment => 100
  | .like => 0

theorem kindBaseScore_bounds (kind : Kind) : 0 ≤ kindBaseScore kind ∧ kindBaseScore kind ≤ 500 := by
  cases kind <;> decide

def mentionBonus : Int := 100000

/-- Entries scoring at or above this are never evicted by the queue cap. -/
def protectedScoreFloor : Int := 500

/-- `any(kw.lower() in lowered for kw in mention_keywords if kw)`. -/
def mentionsAny [PyLower] (text : String) (mentionKeywords : List String) : Bool :=
  mentionKeywords.any fun kw => kw != "" && pyIn (PyLower.lower kw) (PyLower.lower text)

/-- The event's text is not blank and contains a mention keyword. -/
def matchesKeyword [PyLower] (event : SocialEvent) (mentionKeywords : List String) : Bool :=
  nonBlank event.text && !mentionKeywords.isEmpty &&
    mentionsAny (event.text.getD "") mentionKeywords

def scoreEvent [Score σ] [PyLower] (event : SocialEvent) (mentionKeywords : List String) : σ :=
  let base : σ := (kindBaseScore event.kind : σ)
  let score :=
    if event.kind = .gift ∧ event.giftValue.getD 0 ≠ 0 then
      base + ((event.giftValue.getD 0 : Int) : σ)
    else base
  if matchesKeyword event mentionKeywords then score + (mentionBonus : σ) else score

/-- `_ScoredEvent`. -/
structure ScoredEvent (σ : Type) where
  event : SocialEvent
  score : σ
  seq : Nat
  deriving DecidableEq

structure SocialTurn where
  events : List SocialEvent
  overflowCount : Nat := 0
  deriving DecidableEq, Repr

/-- What `_evict_one` may remove: neither a gift nor at or above the floor. -/
def ScoredEvent.evictable [Score σ] (candidate : ScoredEvent σ) : Bool :=
  candidate.event.kind != .gift && decide (candidate.score < (protectedScoreFloor : σ))

/-! ## The scheduler -/

structure EventScheduler (σ : Type) where
  mentionKeywords : List String := []
  individualThreshold : Int := 3
  batchTopK : Int := 3
  maxQueueSize : Int := 200
  queue : List (ScoredEvent σ) := []
  /-- How many `enqueue` calls there have been. -/
  enqueued : Nat := 0

/-- A fresh scheduler, as `EventScheduler(...)` builds it. -/
def EventScheduler.new (mentionKeywords : List String)
    (individualThreshold batchTopK maxQueueSize : Int) : EventScheduler σ :=
  { mentionKeywords, individualThreshold, batchTopK, maxQueueSize }

/-! ## Eviction -/

section Evict

variable [Score σ]

/-- The scan of `_evict_one` from index `i - 1` down: delete the first evictable entry met. -/
def evictFrom (queue : List (ScoredEvent σ)) : Nat → List (ScoredEvent σ)
  | 0 => queue
  | i + 1 =>
    match queue[i]? with
    | some candidate => if candidate.evictable then queue.eraseIdx i else evictFrom queue i
    | none => evictFrom queue i

def evictOne (queue : List (ScoredEvent σ)) : List (ScoredEvent σ) :=
  evictFrom queue queue.length

/-- `evictFrom` on a queue whose entries from index `i` on are all protected. -/
theorem evictFrom_spec : ∀ (pre post : List (ScoredEvent σ)),
    (∀ y ∈ post, y.evictable = false) →
    (evictFrom (pre ++ post) pre.length = pre ++ post ∧ ∀ y ∈ pre ++ post, y.evictable = false) ∨
    ∃ l x r, pre ++ post = l ++ x :: r ∧ evictFrom (pre ++ post) pre.length = l ++ r ∧
      x.evictable = true ∧ ∀ y ∈ r, y.evictable = false := by
  intro pre
  induction pre using List.reverseRecOn with
  | nil => exact fun post hpost => Or.inl ⟨rfl, hpost⟩
  | append_singleton pre x ih =>
    intro post hpost
    have hget : (pre ++ [x] ++ post)[pre.length]? = some x := by simp
    rw [List.length_append, List.length_singleton, evictFrom, hget]
    by_cases hx : x.evictable = true
    · refine Or.inr ⟨pre, x, post, by simp, ?_, hx, hpost⟩
      simp [hx, List.eraseIdx_append_of_length_le]
    · have hx' : x.evictable = false := by simpa using hx
      simp only [hx', Bool.false_eq_true, if_false, List.append_assoc, List.singleton_append]
      refine ih (x :: post) fun y hy => ?_
      rcases List.mem_cons.mp hy with rfl | hy
      · exact hx'
      · exact hpost y hy

/-- **`_evict_one` removes the last evictable entry**, and nothing when every entry is protected. -/
theorem evictOne_cases (queue : List (ScoredEvent σ)) :
    (evictOne queue = queue ∧ ∀ y ∈ queue, y.evictable = false) ∨
    ∃ l x r, queue = l ++ x :: r ∧ evictOne queue = l ++ r ∧
      x.evictable = true ∧ ∀ y ∈ r, y.evictable = false := by
  simpa [evictOne] using evictFrom_spec queue [] (by simp)

end Evict

namespace EventScheduler

/-! ## `next_turn` -/

def hasPending (s : EventScheduler σ) : Bool := !s.queue.isEmpty

def pendingCount (s : EventScheduler σ) : Nat := s.queue.length

def nextTurn (s : EventScheduler σ) : Option SocialTurn × EventScheduler σ :=
  match s.queue with
  | [] => (none, s)
  | top :: rest =>
    if (s.queue.length : Int) ≤ s.individualThreshold then
      (some { events := [top.event] }, { s with queue := rest })
    else
      let topK := pyTake s.batchTopK s.queue
      (some { events := topK.map (·.event), overflowCount := s.queue.length - topK.length },
        { s with queue := [] })

/-- What a batch finds behind its first `batchTopK` entries. -/
def overflow (s : EventScheduler σ) : List (ScoredEvent σ) :=
  s.queue.drop (pyTake s.batchTopK s.queue).length

/-- A backlog up to the threshold: the first entry is popped. -/
theorem nextTurn_single {s : EventScheduler σ} {top : ScoredEvent σ} {rest : List (ScoredEvent σ)}
    (hq : s.queue = top :: rest) (h : (s.queue.length : Int) ≤ s.individualThreshold) :
    s.nextTurn = (some { events := [top.event] }, { s with queue := rest }) := by
  rw [hq] at h
  simp only [nextTurn, hq, h, if_true]

/-- A backlog above it: the first `batchTopK` entries are taken, and the others dropped. -/
theorem nextTurn_batch {s : EventScheduler σ} (hne : s.queue ≠ [])
    (h : s.individualThreshold < s.queue.length) :
    s.nextTurn =
      (some { events := (pyTake s.batchTopK s.queue).map (·.event)
              overflowCount := s.overflow.length }, { s with queue := [] }) := by
  cases hq : s.queue with
  | nil => exact absurd hq hne
  | cons top rest =>
    rw [hq] at h
    simp only [nextTurn, overflow, hq, not_le.mpr h, if_false, List.length_drop]

/--
**What `nextTurn` does to the queue**: it is cut into what the turn delivers, what the turn
counts as overflow and what stays pending. Only a batch drops events, and a batch leaves
nothing pending.
-/
theorem nextTurn_cases (s : EventScheduler σ) :
    (s.queue = [] ∧ s.nextTurn = (none, s)) ∨
    ∃ turn delivered dropped pending, s.queue = delivered ++ dropped ++ pending ∧
      s.nextTurn = (some turn, { s with queue := pending }) ∧
      turn.events = delivered.map (·.event) ∧ turn.overflowCount = dropped.length ∧
      (dropped = [] ∨ pending = []) ∧ delivered ++ dropped ≠ [] := by
  cases hq : s.queue with
  | nil => exact Or.inl ⟨rfl, by simp only [nextTurn, hq]⟩
  | cons top rest =>
    right
    rw [← hq]
    by_cases h : (s.queue.length : Int) ≤ s.individualThreshold
    · exact ⟨_, [top], [], rest, hq, nextTurn_single hq h, rfl, rfl, Or.inl rfl, by simp⟩
    · have hcut : pyTake s.batchTopK s.queue ++ s.overflow = s.queue := pyTake_append_drop ..
      have hne : s.queue ≠ [] := by simp [hq]
      exact ⟨_, pyTake s.batchTopK s.queue, s.overflow, [], by simp [hcut],
        nextTurn_batch hne (not_le.mp h), rfl, rfl, Or.inr rfl, by rw [hcut]; exact hne⟩

/-- What a turn drops: nothing, or the overflow of a batch. -/
theorem nextTurn_dropped (s : EventScheduler σ) {turn : SocialTurn}
    {delivered dropped pending : List (ScoredEvent σ)}
    (hq : s.queue = delivered ++ dropped ++ pending)
    (hn : s.nextTurn = (some turn, { s with queue := pending }))
    (hev : turn.events = delivered.map (·.event)) (hov : turn.overflowCount = dropped.length) :
    dropped = if s.individualThreshold < s.queue.length then s.overflow else [] := by
  have hne : s.queue ≠ [] := by
    intro hnil
    have hnone : s.nextTurn = (none, s) := by simp only [nextTurn, hnil]
    rw [hnone] at hn
    cases hn
  split
  next hbatch =>
    rw [nextTurn_batch hne hbatch] at hn
    obtain ⟨hturn, hpending⟩ := Prod.mk.inj hn
    have hp : pending = [] := (congrArg (·.queue) hpending).symm
    have hlen : delivered.length = (pyTake s.batchTopK s.queue).length := by
      have hevents := congrArg List.length hev
      rw [← Option.some.inj hturn] at hevents
      simpa using hevents.symm
    unfold overflow
    rw [← hlen, hq, hp, List.append_nil, List.drop_left]
  next hsmall =>
    obtain ⟨top, rest, htop⟩ := List.exists_cons_of_ne_nil hne
    rw [nextTurn_single htop (not_lt.mp hsmall)] at hn
    obtain ⟨hturn, -⟩ := Prod.mk.inj hn
    rw [← Option.some.inj hturn] at hov
    exact List.length_eq_zero_iff.mp hov.symm

theorem nextTurn_frame (s : EventScheduler σ) :
    s.nextTurn.2 = { s with queue := s.nextTurn.2.queue } := by
  rcases nextTurn_cases s with ⟨-, h⟩ | ⟨turn, delivered, dropped, pending, -, h, -⟩ <;> rw [h]

@[simp] theorem nextTurn_maxQueueSize (s : EventScheduler σ) :
    s.nextTurn.2.maxQueueSize = s.maxQueueSize := by rw [nextTurn_frame]

/-- A turn takes something off the queue. -/
theorem nextTurn_shortens {s s' : EventScheduler σ} {turn : SocialTurn}
    (hn : s.nextTurn = (some turn, s')) : s'.queue.length < s.queue.length := by
  rcases s.nextTurn_cases with ⟨-, h⟩ | ⟨_, delivered, dropped, pending, hq, h, -, -, -, hne⟩
  · rw [h] at hn; cases hn
  · rw [h] at hn
    cases hn
    have hpos := List.length_pos_of_ne_nil hne
    rw [hq, List.length_append]
    show pending.length < _
    omega

/-! ## `enqueue` -/

variable [Score σ] [PyLower]

/-- The entry `enqueue` makes for `event`. -/
def scored (s : EventScheduler σ) (event : SocialEvent) : ScoredEvent σ :=
  { event, score := scoreEvent event s.mentionKeywords, seq := s.enqueued }

/-- The queue after the append and the sort, before the cap is looked at. -/
def sortedWith (s : EventScheduler σ) (event : SocialEvent) : List (ScoredEvent σ) :=
  sortDesc (·.score) (s.queue ++ [s.scored event])

def enqueue (s : EventScheduler σ) (event : SocialEvent) : EventScheduler σ :=
  let queue := s.sortedWith event
  { s with
    queue := if s.maxQueueSize < queue.length then evictOne queue else queue
    enqueued := s.enqueued + 1 }

theorem sortedWith_perm (s : EventScheduler σ) (event : SocialEvent) :
    (s.sortedWith event).Perm (s.queue ++ [s.scored event]) := sortDesc_perm _ _

/-- **What `enqueue` does to the queue**: the sorted queue with the new entry, or that queue
without its last evictable entry when the cap is exceeded. -/
theorem enqueue_cases (s : EventScheduler σ) (event : SocialEvent) :
    ((s.enqueue event).queue = s.sortedWith event ∧
      (((s.sortedWith event).length : Int) ≤ s.maxQueueSize ∨
        ∀ y ∈ s.sortedWith event, y.evictable = false)) ∨
    ∃ l x r, s.maxQueueSize < (s.sortedWith event).length ∧ s.sortedWith event = l ++ x :: r ∧
      (s.enqueue event).queue = l ++ r ∧ x.evictable = true ∧ ∀ y ∈ r, y.evictable = false := by
  by_cases hcap : s.maxQueueSize < (s.sortedWith event).length
  · have hq : (s.enqueue event).queue = evictOne (s.sortedWith event) := if_pos hcap
    rcases evictOne_cases (s.sortedWith event) with ⟨he, hall⟩ | ⟨l, x, r, hs, he, hx, hr⟩
    · exact Or.inl ⟨hq.trans he, Or.inr hall⟩
    · exact Or.inr ⟨l, x, r, hcap, hs, hq.trans he, hx, hr⟩
  · exact Or.inl ⟨if_neg hcap, Or.inl (not_lt.mp hcap)⟩

@[simp] theorem enqueue_maxQueueSize (s : EventScheduler σ) (event : SocialEvent) :
    (s.enqueue event).maxQueueSize = s.maxQueueSize := rfl

/-! ## Sequences of calls -/

/-- One call on the scheduler. -/
inductive Call
  | enqueue (event : SocialEvent)
  | nextTurn

/-- The scheduler after a call. -/
def call (s : EventScheduler σ) : Call → EventScheduler σ
  | .enqueue event => s.enqueue event
  | .nextTurn => s.nextTurn.2

/-- The scheduler after a sequence of calls. -/
def calls (s : EventScheduler σ) (cs : List Call) : EventScheduler σ := cs.foldl call s

@[simp] theorem calls_concat (s : EventScheduler σ) (cs : List Call) (c : Call) :
    s.calls (cs ++ [c]) = (s.calls cs).call c := by simp [calls]

end EventScheduler

end Livehost
