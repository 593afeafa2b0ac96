import Livehost.Spec.Ledger

/-!
# What the scheduler loses

Two things take an entry out of the scheduler and into no turn: an eviction, and the overflow of a
batch. An eviction spares gifts and mentions. A batch does not look at what it drops.

* `never_lost_iff` — gifts and mentions are kept exactly when no batch is made over one that stands
  behind its first `batch_top_k` entries
* `fourth_gift_is_lost` — four gifts and one `next_turn`, with the default settings
-/

namespace Livehost.Spec

variable {σ : Type}

/-! ## What is lost -/

/-- The entries that were evicted or dropped. -/
def Ledger.lost (L : Ledger σ) : List (ScoredEvent σ) :=
  L.evicted ++ L.turns.flatMap (·.dropped)

theorem count_taken (turns : List (Delivery σ)) (i : Nat) :
    ((turns.flatMap Delivery.taken).map (·.seq)).count i =
      ((turns.flatMap (·.delivered)).map (·.seq)).count i +
        ((turns.flatMap (·.dropped)).map (·.seq)).count i := by
  induction turns with
  | nil => rfl
  | cons d turns ih =>
    simp only [List.flatMap_cons, List.map_append, List.count_append, Delivery.taken] at ih ⊢
    omega

variable [Score σ] {L : Ledger σ} {kw : List String}

/-- An enqueued event is pending, delivered or lost, once. -/
theorem Accounted.count_places (h : Accounted L) {i : Nat} (hi : i < L.events.length) :
    (L.sched.queue.map (·.seq)).count i +
      ((L.turns.flatMap (·.delivered)).map (·.seq)).count i + (L.lost.map (·.seq)).count i = 1 := by
  have hone : (L.places.map (·.seq)).count i = 1 := by
    rw [h.once.count_eq, List.count_eq_one_of_mem List.nodup_range (List.mem_range.mpr hi)]
  simp only [Ledger.places, Ledger.lost, List.map_append, List.count_append, count_taken] at hone ⊢
  omega

theorem Accounted.lost_genuine (h : Accounted L) {x : ScoredEvent σ} (hx : x ∈ L.lost) :
    L.events[x.seq]? = some x.event := by
  refine h.genuine x ?_
  simp only [Ledger.lost, Ledger.places, List.mem_append, List.mem_flatMap] at hx ⊢
  rcases hx with hx | ⟨d, hd, hx⟩
  · exact Or.inl (Or.inr hx)
  · exact Or.inr ⟨d, hd, List.mem_append_right _ hx⟩

/-! ## The law and its condition -/

section

variable [PyLower]

/-- A gift, or an event that matched a mention keyword. -/
def Precious (mentionKeywords : List String) (event : SocialEvent) : Prop :=
  event.kind = .gift ∨ matchesKeyword event mentionKeywords = true

/-- Each enqueued gift and mention is pending or among the events of one turn, once. -/
def Ledger.Keeps (mentionKeywords : List String) (L : Ledger σ) : Prop :=
  ∀ i event, L.events[i]? = some event → Precious mentionKeywords event →
    (L.sched.queue.map (·.seq)).count i +
      ((L.turns.flatMap (·.delivered)).map (·.seq)).count i = 1

/-- **The law**: it does so at every moment of the calls. -/
def NeverLost (σ : Type) [Score σ] (kw : List String) (threshold topK cap : Int)
    (cs : List EventScheduler.Call) : Prop :=
  ∀ pre post, cs = pre ++ post → (ledger kw threshold topK cap pre : Ledger σ).Keeps kw

/-- No batch is made over a gift or a mention behind its first `batch_top_k` entries. -/
def NoneBehind (σ : Type) [Score σ] (kw : List String) (threshold topK cap : Int)
    (cs : List EventScheduler.Call) : Prop :=
  ∀ pre post, cs = pre ++ .nextTurn :: post →
    let s : EventScheduler σ := (EventScheduler.new kw threshold topK cap).calls pre
    threshold < s.queue.length → ∀ x ∈ s.overflow, ¬ Precious kw x.event

/-- **What is precious is kept exactly when nothing precious is lost.** -/
theorem keeps_iff (h : Accounted L) : L.Keeps kw ↔ ∀ x ∈ L.lost, ¬ Precious kw x.event := by
  constructor
  · intro hk x hx hprecious
    have hget := h.lost_genuine hx
    have hcount := h.count_places (List.getElem?_eq_some_iff.mp hget).1
    have hpos : 0 < (L.lost.map (·.seq)).count x.seq :=
      List.count_pos_iff.mpr (List.mem_map_of_mem hx)
    have hone := hk x.seq x.event hget hprecious
    omega
  · intro hlost i event hget hprecious
    have hcount := h.count_places (List.getElem?_eq_some_iff.mp hget).1
    have hzero : (L.lost.map (·.seq)).count i = 0 := by
      refine List.count_eq_zero.mpr fun hmem => ?_
      obtain ⟨x, hx, rfl⟩ := List.mem_map.mp hmem
      rw [h.lost_genuine hx, Option.some.injEq] at hget
      exact hlost x hx (by rw [hget]; exact hprecious)
    omega

/-! ## An eviction spares what is precious -/

/-- The bonus alone lifts a mention over the floor. -/
theorem mention_protected [ExactScore σ] {event : SocialEvent} (hgift : event.kind ≠ .gift)
    (hmatch : matchesKeyword event kw = true) :
    (protectedScoreFloor : σ) ≤ scoreEvent event kw := by
  obtain ⟨hlow, hhigh⟩ := kindBaseScore_bounds event.kind
  have hscore :
      (scoreEvent event kw : σ) = (kindBaseScore event.kind : σ) + (mentionBonus : σ) := by
    simp [scoreEvent, hgift, hmatch]
  unfold mentionBonus at hscore
  rw [hscore, ExactScore.cast_add (by omega) (by omega) (by omega)]
  unfold protectedScoreFloor
  exact ExactScore.cast_le (by omega) (by omega) (by omega)

theorem precious_protected [ExactScore σ] {x : ScoredEvent σ}
    (hscore : x.score = scoreEvent x.event kw) (h : Precious kw x.event) : Protected x := by
  by_cases hgift : x.event.kind = .gift
  · exact Or.inl hgift
  · right
    rw [hscore]
    exact mention_protected hgift (h.resolve_left hgift)

theorem lost_book_enqueue [ExactScore σ] (hs : Scored L.sched) (hkw : L.sched.mentionKeywords = kw)
    (hlost : ∀ x ∈ L.lost, ¬ Precious kw x.event) (event : SocialEvent) :
    ∀ x ∈ (L.book (.enqueue event)).lost, ¬ Precious kw x.event := by
  intro x hx hprecious
  have hx : x ∈ (L.evicted ++ gone (L.sched.queue ++ [L.sched.scored event])
      (L.sched.enqueue event).queue) ++ L.turns.flatMap (·.dropped) := hx
  simp only [List.mem_append, or_right_comm (c := x ∈ L.turns.flatMap _)] at hx
  rcases hx with hx | hx
  · exact hlost x (List.mem_append.mpr hx) hprecious
  · obtain ⟨hmem, hgone⟩ := mem_gone.mp hx
    have hscore : x.score = scoreEvent x.event kw := by
      rcases List.mem_append.mp hmem with hq | hnew
      · rw [← hkw]
        exact hs x hq
      · rw [List.mem_singleton.mp hnew, ← hkw]
        rfl
    exact lost_is_unprotected hmem hgone (precious_protected hscore hprecious)

/-! ## A batch drops what is behind it -/

theorem lost_book_nextTurn (h : Accounted L) (hlost : ∀ x ∈ L.lost, ¬ Precious kw x.event)
    (hbehind : L.sched.individualThreshold < L.sched.queue.length →
      ∀ x ∈ L.sched.overflow, ¬ Precious kw x.event) :
    ∀ x ∈ (L.book .nextTurn).lost, ¬ Precious kw x.event := by
  rcases book_nextTurn_cases h with
    ⟨-, hbook⟩ | ⟨turn, delivered, dropped, pending, hq, hn, hev, hov, hbook⟩
  · rw [hbook]
    exact hlost
  · intro x hx
    rw [hbook] at hx
    simp only [Ledger.lost, List.flatMap_append, List.flatMap_singleton, ← List.append_assoc] at hx
    rcases List.mem_append.mp hx with hx | hx
    · exact hlost x hx
    · rw [L.sched.nextTurn_dropped hq hn hev hov] at hx
      split at hx
      next hbatch => exact hbehind hbatch x hx
      next => cases hx

/-- What stands behind the first entries of a batch is lost with it. -/
theorem overflow_lost (h : Accounted L)
    (hbatch : L.sched.individualThreshold < L.sched.queue.length) {x : ScoredEvent σ}
    (hx : x ∈ L.sched.overflow) : x ∈ (L.book .nextTurn).lost := by
  rcases book_nextTurn_cases h with
    ⟨hq, -⟩ | ⟨turn, delivered, dropped, pending, hq, hn, hev, hov, hbook⟩
  · simp [EventScheduler.overflow, hq] at hx
  · rw [hbook]
    have hdropped := L.sched.nextTurn_dropped hq hn hev hov
    rw [if_pos hbatch] at hdropped
    simp [Ledger.lost, hdropped, hx]

/-! ## Every sequence of calls -/

theorem ledger_settings (kw : List String) (threshold topK cap : Int)
    (cs : List EventScheduler.Call) :
    let s := (ledger kw threshold topK cap cs : Ledger σ).sched
    s.mentionKeywords = kw ∧ s.individualThreshold = threshold := by
  intro s
  have hs : s = (EventScheduler.new kw threshold topK cap).calls cs := ledger_sched ..
  obtain ⟨hkw, hthreshold, -⟩ := calls_settings (σ := σ) (.new kw threshold topK cap) cs
  rw [hs]
  exact ⟨hkw, hthreshold⟩

theorem nothing_precious_lost [ExactScore σ] {threshold topK cap : Int} :
    ∀ {cs : List EventScheduler.Call}, NoneBehind σ kw threshold topK cap cs →
      ∀ x ∈ (ledger kw threshold topK cap cs : Ledger σ).lost, ¬ Precious kw x.event := by
  intro cs
  induction cs using List.reverseRecOn with
  | nil => simp [ledger, Ledger.open, Ledger.lost]
  | append_singleton cs c ih =>
    intro hbehind
    have hlost := ih fun pre post he => hbehind pre (post ++ [c]) (by simp [he])
    obtain ⟨hkw, hthreshold⟩ := ledger_settings (σ := σ) kw threshold topK cap cs
    have hsched := ledger_sched (σ := σ) kw threshold topK cap cs
    rw [ledger_concat]
    cases c with
    | enqueue event =>
      have hscored : Scored (ledger kw threshold topK cap cs : Ledger σ).sched := by
        rw [hsched]
        exact scored_calls (scored_new kw threshold topK cap) cs
      exact lost_book_enqueue hscored hkw hlost event
    | nextTurn =>
      refine lost_book_nextTurn (accounted_ledger kw threshold topK cap cs) hlost fun hbatch => ?_
      rw [hthreshold, hsched] at hbatch
      rw [hsched]
      exact hbehind cs [] (by simp) hbatch

/--
**Gifts and mentions are kept** at every moment of a sequence of calls, pending or delivered by one
turn, exactly when no `next_turn` of the calls makes a batch while one of them stands behind the
first `batch_top_k` entries.
-/
theorem never_lost_iff [ExactScore σ] (kw : List String) (threshold topK cap : Int)
    (cs : List EventScheduler.Call) :
    NeverLost σ kw threshold topK cap cs ↔ NoneBehind σ kw threshold topK cap cs := by
  constructor
  · rintro hkeeps pre post rfl s hbatch x hx
    have hlaw := hkeeps (pre ++ [.nextTurn]) post (by simp)
    rw [ledger_concat] at hlaw
    have h := accounted_ledger (σ := σ) kw threshold topK cap pre
    have hsched := ledger_sched (σ := σ) kw threshold topK cap pre
    have hthreshold := (ledger_settings (σ := σ) kw threshold topK cap pre).2
    refine (keeps_iff (accounted_nextTurn h)).mp hlaw x (overflow_lost h ?_ ?_)
    · rw [hthreshold, hsched]
      exact hbatch
    · rw [hsched]
      exact hx
  · rintro hbehind pre post rfl
    refine (keeps_iff (accounted_ledger kw threshold topK cap pre)).mpr
      (nothing_precious_lost fun pre' post' he => ?_)
    exact hbehind pre' (post' ++ post) (by simp [he])

end

/-! ## Four gifts -/

/-- A gift worth nothing in particular. -/
def rose : SocialEvent :=
  { kind := .gift, userId := "a", userName := "A", giftName := some "Rose", giftValue := some 1 }

/-- Four gifts, and a turn. -/
def fourGifts : List EventScheduler.Call :=
  [.enqueue rose, .enqueue rose, .enqueue rose, .enqueue rose, .nextTurn]

/-- The law for four gifts and a threshold of three comes down to the batch over the fourth. -/
theorem fourGifts_keeps_iff : ∃ _ : PyLower,
    NeverLost Int [] 3 3 200 fourGifts ↔ NoneBehind Int [] 3 3 200 fourGifts :=
  let lower : PyLower := ⟨id⟩
  ⟨lower, never_lost_iff [] 3 3 200 fourGifts⟩

/-- **The fourth gift is lost** with the default settings. -/
theorem fourth_gift_is_lost : ¬ ∀ (_ : PyLower) (kw : List String) (threshold topK cap : Int),
    0 ≤ threshold → 0 ≤ topK → 0 ≤ cap → ∀ cs, NeverLost Int kw threshold topK cap cs := by
  intro h
  have hlaw := h ⟨id⟩ [] 3 3 200 (by decide) (by decide) (by decide) fourGifts fourGifts [] rfl
  have hcount := hlaw 3 rose rfl (Or.inl rfl)
  exact absurd hcount (by decide)

end Livehost.Spec
