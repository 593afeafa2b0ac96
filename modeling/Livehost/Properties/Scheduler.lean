import Livehost.Scheduler

/-!
# The order of the pending queue

`SchedulerInv` holds in every state that `enqueue` and `nextTurn` calls reach: the queue is
strictly ordered by score, then by arrival, and only protected entries may hold it above the
cap. From it follow which entry an eviction takes and which entries a turn takes.

* `schedulerInv_calls` — the invariant
* `queue_order_and_cap` — order, cap, evictions and turns in every reachable state
-/

namespace Livehost

open Infra

variable {σ : Type} [Score σ]

/-- Greater score first, the earlier enqueued first among equal scores. -/
def Before : ScoredEvent σ → ScoredEvent σ → Prop := KeyDesc (·.score) (·.seq < ·.seq)

instance : Std.Irrefl fun a b : ScoredEvent σ => a.seq < b.seq := ⟨fun _ => Nat.lt_irrefl _⟩

instance : Std.Asymm fun a b : ScoredEvent σ => a.seq < b.seq := ⟨fun _ _ => Nat.lt_asymm⟩

instance : Std.Irrefl (Before (σ := σ)) := inferInstanceAs (Std.Irrefl (KeyDesc _ _))

instance : Std.Antisymm (Before (σ := σ)) := inferInstanceAs (Std.Antisymm (KeyDesc _ _))

instance : DecidableRel (Before (σ := σ)) :=
  inferInstanceAs (DecidableRel (KeyDesc _ fun a b : ScoredEvent σ => a.seq < b.seq))

/-- A gift, or an entry scored at or above the floor. -/
def Protected (x : ScoredEvent σ) : Prop :=
  x.event.kind = .gift ∨ (protectedScoreFloor : σ) ≤ x.score

instance (x : ScoredEvent σ) : Decidable (Protected x) := inferInstanceAs (Decidable (_ ∨ _))

theorem evictable_eq_false {x : ScoredEvent σ} : x.evictable = false ↔ Protected x := by
  simp [ScoredEvent.evictable, Protected, or_iff_not_imp_left]

theorem evictable_eq_true {x : ScoredEvent σ} : x.evictable = true ↔ ¬ Protected x := by
  rw [← evictable_eq_false, Bool.not_eq_false]

/-- What the queue of a reachable scheduler satisfies. -/
structure SchedulerInv (s : EventScheduler σ) : Prop where
  ordered : s.queue.Pairwise Before
  fresh : ∀ x ∈ s.queue, x.seq < s.enqueued
  capped : (s.queue.length : Int) ≤ s.maxQueueSize ∨ ∀ x ∈ s.queue, Protected x

theorem schedulerInv_new (kw : List String) (threshold topK cap : Int) :
    SchedulerInv (EventScheduler.new kw threshold topK cap : EventScheduler σ) where
  ordered := List.Pairwise.nil
  fresh := by simp [EventScheduler.new]
  capped := Or.inr (by simp [EventScheduler.new])

theorem SchedulerInv.descending {s : EventScheduler σ} (h : SchedulerInv s) :
    s.queue.Pairwise fun a b => b.score ≤ a.score := h.ordered.imp fun hab => hab.key_le

/-! ## `next_turn` -/

theorem schedulerInv_nextTurn {s : EventScheduler σ} (h : SchedulerInv s) :
    SchedulerInv s.nextTurn.2 := by
  rcases s.nextTurn_cases with ⟨-, hn⟩ | ⟨turn, delivered, dropped, pending, hq, hn, -⟩
  · rw [hn]; exact h
  · have hsub : pending.Sublist s.queue := by rw [hq]; exact List.sublist_append_right _ _
    rw [hn]
    refine ⟨h.ordered.sublist hsub, fun x hx => h.fresh x (hsub.subset hx), ?_⟩
    rcases h.capped with hc | hc
    · have hlen := hsub.length_le
      left
      show (pending.length : Int) ≤ s.maxQueueSize
      omega
    · exact Or.inr fun x hx => hc x (hsub.subset hx)

/-- **A turn takes the first entries of the order**, and what it leaves pending or drops comes
after every entry it delivers. -/
theorem nextTurn_takes_first {s s' : EventScheduler σ} {turn : SocialTurn} (h : SchedulerInv s)
    (hn : s.nextTurn = (some turn, s')) :
    turn.events = (s.queue.take turn.events.length).map (·.event) ∧
      s'.queue.Sublist (s.queue.drop turn.events.length) ∧
      ∀ d ∈ s.queue.take turn.events.length, ∀ x ∈ s.queue.drop turn.events.length,
        Before d x := by
  have hsplit := h.ordered
  rw [← List.take_append_drop turn.events.length s.queue] at hsplit
  refine ⟨?_, ?_, (List.pairwise_append.mp hsplit).2.2⟩
  all_goals
    rcases s.nextTurn_cases with ⟨-, hn'⟩ | ⟨turn', delivered, dropped, pending, hq, hn', hev, -⟩
    · rw [hn'] at hn; cases hn
    rw [hn'] at hn
    cases hn
    have hlen : turn.events.length = delivered.length := by simp [hev]
  · rw [hq, hlen, List.append_assoc, List.take_left, hev]
  · rw [hq, hlen, List.append_assoc, List.drop_left]
    exact List.sublist_append_right _ _

/-! ## `enqueue` -/

variable [PyLower]

theorem sortedWith_ordered {s : EventScheduler σ} (h : SchedulerInv s) (event : SocialEvent) :
    (s.sortedWith event).Pairwise Before :=
  sortDesc_concat_pairwise h.ordered fun x hx => h.fresh x hx

theorem sortedWith_eq {s : EventScheduler σ} (h : SchedulerInv s) (event : SocialEvent) :
    s.sortedWith event = insertDesc (·.score) (s.scored event) s.queue :=
  (sortDesc_concat (s.scored event) s.queue).trans
    (congrArg (insertDesc (·.score) (s.scored event)) (sortDesc_of_ordered h.descending))

theorem mem_sortedWith {s : EventScheduler σ} {event : SocialEvent} {x : ScoredEvent σ} :
    x ∈ s.sortedWith event ↔ x ∈ s.queue ∨ x = s.scored event := by
  rw [(s.sortedWith_perm event).mem_iff]
  simp

theorem length_sortedWith (s : EventScheduler σ) (event : SocialEvent) :
    (s.sortedWith event).length = s.queue.length + 1 := by
  rw [(s.sortedWith_perm event).length_eq]
  simp

theorem enqueue_sublist (s : EventScheduler σ) (event : SocialEvent) :
    (s.enqueue event).queue.Sublist (s.sortedWith event) := by
  rcases s.enqueue_cases event with ⟨hq, -⟩ | ⟨l, x, r, -, hs, hq, -⟩
  · rw [hq]
  · rw [hq, hs]
    exact (List.sublist_cons_self x r).append_left l

/-- An `enqueue` evicts no more than it appends. -/
theorem length_le_enqueue (s : EventScheduler σ) (event : SocialEvent) :
    s.queue.length ≤ (s.enqueue event).queue.length := by
  have hlen := length_sortedWith s event
  rcases s.enqueue_cases event with ⟨hq, -⟩ | ⟨l, x, r, -, hs, hq, -⟩
  · rw [hq]
    omega
  · rw [hs] at hlen
    simp only [List.length_append, List.length_cons] at hlen
    rw [hq, List.length_append]
    omega

theorem schedulerInv_enqueue {s : EventScheduler σ} (h : SchedulerInv s) (event : SocialEvent) :
    SchedulerInv (s.enqueue event) := by
  have hsub := enqueue_sublist s event
  refine ⟨(sortedWith_ordered h event).sublist hsub, fun x hx => ?_, ?_⟩
  · rcases mem_sortedWith.mp (hsub.subset hx) with hx | rfl
    · have hold := h.fresh x hx
      show x.seq < s.enqueued + 1
      omega
    · show s.enqueued < s.enqueued + 1
      omega
  · rcases s.enqueue_cases event with ⟨hq, hc | hc⟩ | ⟨l, x, r, hover, hs, hq, hx, hr⟩
    · exact Or.inl (by rw [hq]; exact hc)
    · exact Or.inr fun y hy => evictable_eq_false.mp (hc y (by rw [← hq]; exact hy))
    · -- one entry came and one went: either the queue was within the cap before, or the
      -- evicted entry is the new one and the queue is the old one, all protected
      rcases h.capped with hc | hc
      · left
        have hlen := length_sortedWith s event
        rw [hs] at hlen
        simp only [List.length_append, List.length_cons] at hlen
        rw [hq, EventScheduler.enqueue_maxQueueSize, List.length_append]
        omega
      · right
        have hxnew : x = s.scored event := by
          have hxmem : x ∈ s.sortedWith event := by rw [hs]; simp
          rcases mem_sortedWith.mp hxmem with hx' | hx'
          · exact absurd (hc x hx') (evictable_eq_true.mp hx)
          · exact hx'
        have hperm : (x :: (l ++ r)).Perm (x :: s.queue) := by
          have := s.sortedWith_perm event
          rw [hs, ← hxnew] at this
          exact (List.perm_middle.symm.trans this).trans (List.perm_append_singleton _ _)
        intro y hy
        rw [hq] at hy
        exact hc y (((List.perm_cons x).mp hperm).mem_iff.mp hy)

/-- What an `enqueue` loses is unprotected, and everything behind it in the order is protected. -/
theorem lost_cases {s : EventScheduler σ} {event : SocialEvent} {x : ScoredEvent σ}
    (hx : x ∈ s.queue ++ [s.scored event]) (hgone : x ∉ (s.enqueue event).queue) :
    ∃ l r, s.sortedWith event = l ++ x :: r ∧ ¬ Protected x ∧ ∀ y ∈ r, Protected y := by
  have hxs : x ∈ s.sortedWith event := (s.sortedWith_perm event).mem_iff.mpr hx
  rcases s.enqueue_cases event with ⟨hq, -⟩ | ⟨l, z, r, -, hs, hq, hz, hr⟩
  · exact absurd hxs (by rw [← hq]; exact hgone)
  · have hxz : x = z := by
      rw [hs] at hxs
      rw [hq] at hgone
      simp only [List.mem_append, List.mem_cons, not_or] at hxs hgone
      tauto
    subst hxz
    exact ⟨l, r, hs, evictable_eq_true.mp hz, fun y hy => evictable_eq_false.mp (hr y hy)⟩

/-- An `enqueue` loses an entry only where the queue would be longer than the cap. -/
theorem lost_above_cap {s : EventScheduler σ} {event : SocialEvent} {x : ScoredEvent σ}
    (hx : x ∈ s.queue ++ [s.scored event]) (hgone : x ∉ (s.enqueue event).queue) :
    s.maxQueueSize < s.queue.length + 1 := by
  have hlen := length_sortedWith s event
  rcases s.enqueue_cases event with ⟨hq, -⟩ | ⟨-, -, -, hover, -⟩
  · rw [hq] at hgone
    exact absurd ((s.sortedWith_perm event).mem_iff.mpr hx) hgone
  · rw [hlen] at hover
    exact_mod_cast hover

theorem lost_is_unprotected {s : EventScheduler σ} {event : SocialEvent} {x : ScoredEvent σ}
    (hx : x ∈ s.queue ++ [s.scored event]) (hgone : x ∉ (s.enqueue event).queue) :
    ¬ Protected x := by
  obtain ⟨-, -, -, h, -⟩ := lost_cases hx hgone
  exact h

/-- **An eviction takes the last unprotected entry of the order**: the least score among the
unprotected entries, and the latest enqueued of those with that score. -/
theorem evicted_is_last {s : EventScheduler σ} (h : SchedulerInv s) {event : SocialEvent}
    {x : ScoredEvent σ} (hx : x ∈ s.queue ++ [s.scored event])
    (hgone : x ∉ (s.enqueue event).queue) :
    ¬ Protected x ∧
      ∀ y ∈ s.queue ++ [s.scored event], ¬ Protected y → y = x ∨ Before y x := by
  obtain ⟨l, r, hs, hun, hr⟩ := lost_cases hx hgone
  refine ⟨hun, fun y hy hyun => ?_⟩
  have hys : y ∈ l ++ x :: r := by rw [← hs]; exact (s.sortedWith_perm event).mem_iff.mpr hy
  have hord := sortedWith_ordered h event
  rw [hs] at hord
  rcases List.mem_append.mp hys with hy | hy
  · exact Or.inr ((List.pairwise_append.mp hord).2.2 y hy x List.mem_cons_self)
  · -- what stands behind the evicted entry is protected
    rcases List.mem_cons.mp hy with rfl | hy
    · exact Or.inl rfl
    · exact absurd (hr y hy) hyun

/-! ## Every reachable state -/

theorem schedulerInv_calls {s : EventScheduler σ} (h : SchedulerInv s)
    (cs : List EventScheduler.Call) : SchedulerInv (s.calls cs) := by
  induction cs using List.reverseRecOn with
  | nil => exact h
  | append_singleton cs c ih =>
    rw [EventScheduler.calls_concat]
    cases c with
    | enqueue event => exact schedulerInv_enqueue ih event
    | nextTurn => exact schedulerInv_nextTurn ih

/-- The calls leave the settings alone. -/
theorem calls_settings (s : EventScheduler σ) (cs : List EventScheduler.Call) :
    (s.calls cs).mentionKeywords = s.mentionKeywords ∧
      (s.calls cs).individualThreshold = s.individualThreshold ∧
      (s.calls cs).batchTopK = s.batchTopK ∧ (s.calls cs).maxQueueSize = s.maxQueueSize := by
  induction cs using List.reverseRecOn with
  | nil => exact ⟨rfl, rfl, rfl, rfl⟩
  | append_singleton cs c ih =>
    rw [EventScheduler.calls_concat]
    cases c with
    | enqueue event => exact ih
    | nextTurn =>
      have hcall : (s.calls cs).call .nextTurn = _ := (s.calls cs).nextTurn_frame
      rw [hcall]
      exact ih

/-- The entries of a queue carry the scores of their events. -/
def Scored (s : EventScheduler σ) : Prop :=
  ∀ x ∈ s.queue, x.score = scoreEvent x.event s.mentionKeywords

theorem scored_enqueue {s : EventScheduler σ} (h : Scored s) (event : SocialEvent) :
    Scored (s.enqueue event) := by
  intro x hx
  rcases mem_sortedWith.mp ((enqueue_sublist s event).subset hx) with hx | rfl
  · exact h x hx
  · rfl

theorem scored_nextTurn {s : EventScheduler σ} (h : Scored s) : Scored s.nextTurn.2 := by
  rcases s.nextTurn_cases with ⟨-, hn⟩ | ⟨turn, delivered, dropped, pending, hq, hn, -⟩
  · rw [hn]
    exact h
  · rw [hn]
    exact fun x hx => h x (by rw [hq]; exact List.mem_append_right _ hx)

theorem scored_calls {s : EventScheduler σ} (h : Scored s) (cs : List EventScheduler.Call) :
    Scored (s.calls cs) := by
  induction cs using List.reverseRecOn with
  | nil => exact h
  | append_singleton cs c ih =>
    rw [EventScheduler.calls_concat]
    cases c with
    | enqueue event => exact scored_enqueue ih event
    | nextTurn => exact scored_nextTurn ih

theorem scored_new (kw : List String) (threshold topK cap : Int) :
    Scored (EventScheduler.new kw threshold topK cap : EventScheduler σ) := by
  simp [Scored, EventScheduler.new]

/--
**Order and cap of the pending queue.** In every state that calls on a fresh scheduler reach:
the queue is strictly ordered; it is within the cap or holds protected entries only; an entry
that the next `enqueue` loses is the last unprotected one, and is lost to a queue above the cap; and
the next turn is made of the first entries, everything it leaves or drops coming later.
-/
theorem queue_order_and_cap (kw : List String) (threshold topK cap : Int)
    (cs : List EventScheduler.Call) :
    let s := (EventScheduler.new kw threshold topK cap : EventScheduler σ).calls cs
    s.queue.Pairwise Before ∧
    ((s.queue.length : Int) ≤ cap ∨ ∀ x ∈ s.queue, Protected x) ∧
    (∀ event, ∀ x ∈ s.queue ++ [s.scored event], x ∉ (s.enqueue event).queue →
      cap < s.queue.length + 1 ∧ ¬ Protected x ∧
        ∀ y ∈ s.queue ++ [s.scored event], ¬ Protected y → y = x ∨ Before y x) ∧
    ∀ turn s', s.nextTurn = (some turn, s') →
      turn.events = (s.queue.take turn.events.length).map (·.event) ∧
      s'.queue.Sublist (s.queue.drop turn.events.length) ∧
      ∀ d ∈ s.queue.take turn.events.length, ∀ x ∈ s.queue.drop turn.events.length,
        Before d x := by
  intro s
  have hinv : SchedulerInv s := schedulerInv_calls (schedulerInv_new kw threshold topK cap) cs
  have hcap : s.maxQueueSize = cap := (calls_settings _ cs).2.2.2
  refine ⟨hinv.ordered, by rw [← hcap]; exact hinv.capped, ?_, ?_⟩
  · exact fun event x hx hgone => ⟨hcap ▸ lost_above_cap hx hgone, evicted_is_last hinv hx hgone⟩
  · exact fun turn s' hn => nextTurn_takes_first hinv hn

/-- A follow of the viewer. -/
def followOf (userId : String) : SocialEvent := { kind := .follow, userId, userName := userId }

def twoFollows : List EventScheduler.Call :=
  [.enqueue (followOf "a"), .enqueue (followOf "b")]

omit [PyLower] in
/-- Two follows fill a queue of two: a third is evicted, and a batch of one takes the first. -/
theorem twoFollows_order : ∃ _ : PyLower,
    let s : EventScheduler Int := (EventScheduler.new [] 0 1 2).calls twoFollows
    (s.enqueue (followOf "c")).queue = s.queue ∧ ¬ Protected (s.scored (followOf "c")) ∧
    (∀ y ∈ s.queue, ¬ Protected y → Before y (s.scored (followOf "c"))) ∧
    ∃ turn s', s.nextTurn = (some turn, s') ∧ turn.events = [followOf "a"] ∧
      turn.overflowCount = 1 ∧ ∀ d ∈ s.queue.take 1, ∀ x ∈ s.queue.drop 1, Before d x := by
  let lower : PyLower := ⟨id⟩
  let s : EventScheduler Int := (EventScheduler.new [] 0 1 2).calls twoFollows
  obtain ⟨-, -, hlost, hturn⟩ := queue_order_and_cap (σ := Int) [] 0 1 2 twoFollows
  have hgone : s.scored (followOf "c") ∉ (s.enqueue (followOf "c")).queue := by decide +kernel
  obtain ⟨-, hunprotected, hlast⟩ :=
    hlost (followOf "c") _ (List.mem_append_right _ (List.mem_singleton_self _)) hgone
  have hnew : s.scored (followOf "c") ∉ s.queue := by decide +kernel
  refine ⟨lower, by decide +kernel, hunprotected, fun y hy hyun => ?_, _, _, rfl,
    by decide +kernel, by decide +kernel, ?_⟩
  · refine (hlast y (List.mem_append_left _ hy) hyun).resolve_left ?_
    rintro rfl
    exact hnew hy
  · exact (hturn _ _ rfl).2.2

end Livehost
