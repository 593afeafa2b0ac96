import Livehost.Properties.Scheduler
import Mathlib.Data.List.Range
import Mathlib.Algebra.Order.Group.Multiset
import Mathlib.Tactic.Abel

/-!
# Where every enqueued event is

The ledger watches a scheduler from outside: it compares the queue before and after each call
and looks at the turn the call returned. An entry that an `enqueue` loses is booked as evicted;
of the entries that a `nextTurn` takes out of the queue, the first `turn.events.length` are
booked as delivered by that turn and the others as its overflow.

`Accounted` is the law: every enqueued event is booked in one place, once.

* `scheduler_accounts` — the law holds after every sequence of calls
-/

namespace Livehost.Spec

variable {σ : Type}

/-- A turn returned by `nextTurn`, with the entries it took out of the queue. -/
structure Delivery (σ : Type) where
  turn : SocialTurn
  delivered : List (ScoredEvent σ)
  dropped : List (ScoredEvent σ)

/-- The entries a turn took out of the queue. -/
def Delivery.taken (d : Delivery σ) : List (ScoredEvent σ) := d.delivered ++ d.dropped

structure Ledger (σ : Type) where
  sched : EventScheduler σ
  /-- The enqueued events, in order. -/
  events : List SocialEvent
  evicted : List (ScoredEvent σ)
  turns : List (Delivery σ)

/-- Every entry of the ledger: pending, evicted, delivered or dropped. -/
def Ledger.places (L : Ledger σ) : List (ScoredEvent σ) :=
  L.sched.queue ++ L.evicted ++ L.turns.flatMap Delivery.taken

def Ledger.open (kw : List String) (threshold topK cap : Int) : Ledger σ :=
  { sched := .new kw threshold topK cap, events := [], evicted := [], turns := [] }

/-! ## What a list loses -/

section Gone

variable [DecidableEq σ]

/-- The entries of `before` that are not in `after`. -/
def gone (before after : List (ScoredEvent σ)) : List (ScoredEvent σ) :=
  before.filter fun x => x ∉ after

@[simp] theorem mem_gone {before after : List (ScoredEvent σ)} {x : ScoredEvent σ} :
    x ∈ gone before after ↔ x ∈ before ∧ x ∉ after := by
  simp [gone]

theorem gone_perm {before after : List (ScoredEvent σ)} (hb : before.Nodup)
    (ha : after.Nodup) (hsub : after ⊆ before) : (after ++ gone before after).Perm before := by
  have hdis : List.Disjoint after (gone before after) :=
    fun x hx hg => (mem_gone.mp hg).2 hx
  refine (List.perm_ext_iff_of_nodup (ha.append (hb.filter _) hdis) hb).mpr fun x => ?_
  by_cases hx : x ∈ after
  · simp [hx, hsub hx]
  · simp [hx]

/-- When only its tail stays, a list loses what stands before the tail. -/
theorem gone_append {out stay : List (ScoredEvent σ)} (h : (out ++ stay).Nodup) :
    gone (out ++ stay) stay = out := by
  obtain ⟨-, -, hdis⟩ := List.nodup_append.mp h
  unfold gone
  rw [List.filter_append, List.filter_eq_self.mpr, List.filter_eq_nil_iff.mpr, List.append_nil]
  · exact fun x hx => by simp [hx]
  · intro x hx
    simpa using fun hs => hdis x hx x hs rfl

end Gone

/-! ## The law -/

variable [Score σ]

/-- **The law of the ledger.** -/
structure Accounted (L : Ledger σ) : Prop where
  /-- Each enqueued event is in one place, once. -/
  once : (L.places.map (·.seq)).Perm (List.range L.events.length)
  /-- The entry of the `i`-th enqueued event holds that event. -/
  genuine : ∀ x ∈ L.places, L.events[x.seq]? = some x.event
  /-- A turn speaks the events booked as delivered by it. -/
  spoken : ∀ d ∈ L.turns, d.turn.events = d.delivered.map (·.event)
  /-- A turn counts the events booked as dropped by it. -/
  counted : ∀ d ∈ L.turns, d.turn.overflowCount = d.dropped.length
  /-- Only unprotected entries are evicted. -/
  unprotected : ∀ x ∈ L.evicted, ¬ Protected x
  /-- The scheduler numbers its entries by the `enqueue` calls. -/
  numbered : L.sched.enqueued = L.events.length

theorem accounted_open (kw : List String) (threshold topK cap : Int) :
    Accounted (.open kw threshold topK cap : Ledger σ) := by
  constructor <;> simp [Ledger.open, Ledger.places, EventScheduler.new]

variable {L : Ledger σ}

theorem Accounted.nodup (h : Accounted L) : L.places.Nodup :=
  List.Nodup.of_map _ (h.once.nodup_iff.mpr List.nodup_range)

theorem Accounted.queue_nodup (h : Accounted L) : L.sched.queue.Nodup :=
  h.nodup.of_append_left.of_append_left

theorem Accounted.seq_lt (h : Accounted L) {x : ScoredEvent σ} (hx : x ∈ L.places) :
    x.seq < L.events.length :=
  List.mem_range.mp (h.once.mem_iff.mp (List.mem_map_of_mem hx))

/-- The law speaks of the places as a bag. -/
theorem Accounted.of_places {L' : Ledger σ} (h : Accounted L) (hp : L'.places.Perm L.places)
    (hev : L'.events = L.events) (hn : L'.sched.enqueued = L.sched.enqueued)
    (hspoken : ∀ d ∈ L'.turns, d.turn.events = d.delivered.map (·.event))
    (hcounted : ∀ d ∈ L'.turns, d.turn.overflowCount = d.dropped.length)
    (hun : ∀ x ∈ L'.evicted, ¬ Protected x) : Accounted L' where
  once := by rw [hev]; exact (hp.map _).trans h.once
  genuine := fun x hx => by rw [hev]; exact h.genuine x (hp.mem_iff.mp hx)
  spoken := hspoken
  counted := hcounted
  unprotected := hun
  numbered := by rw [hn, hev]; exact h.numbered

theorem Accounted.sum_overflow (h : Accounted L) :
    (L.turns.map (·.turn.overflowCount)).sum = (L.turns.flatMap (·.dropped)).length := by
  rw [List.length_flatMap]
  congr 1
  exact List.map_congr_left h.counted

/-! ## Booking a call -/

variable [PyLower]

def Ledger.book (L : Ledger σ) : EventScheduler.Call → Ledger σ
  | .enqueue event =>
    { L with
      sched := L.sched.enqueue event
      events := L.events ++ [event]
      evicted := L.evicted ++
        gone (L.sched.queue ++ [L.sched.scored event]) (L.sched.enqueue event).queue }
  | .nextTurn =>
    match L.sched.nextTurn with
    | (none, sched) => { L with sched }
    | (some turn, sched) =>
      let out := gone L.sched.queue sched.queue
      { L with
        sched
        turns := L.turns ++
          [{ turn, delivered := out.take turn.events.length,
             dropped := out.drop turn.events.length }] }

/-- The ledger of a fresh scheduler after a sequence of calls. -/
def ledger (kw : List String) (threshold topK cap : Int) (cs : List EventScheduler.Call) :
    Ledger σ :=
  cs.foldl Ledger.book (.open kw threshold topK cap)

@[simp] theorem ledger_concat (kw : List String) (threshold topK cap : Int)
    (cs : List EventScheduler.Call) (c : EventScheduler.Call) :
    (ledger kw threshold topK cap (cs ++ [c]) : Ledger σ)
      = (ledger kw threshold topK cap cs).book c := by
  simp [ledger]

theorem book_sched (L : Ledger σ) (c : EventScheduler.Call) :
    (L.book c).sched = L.sched.call c := by
  cases c with
  | enqueue event => rfl
  | nextTurn =>
    rcases hn : L.sched.nextTurn with ⟨_ | turn, sched⟩ <;>
      simp [Ledger.book, EventScheduler.call, hn]

/-- The ledger follows the scheduler it watches. -/
theorem ledger_sched (kw : List String) (threshold topK cap : Int)
    (cs : List EventScheduler.Call) :
    (ledger kw threshold topK cap cs : Ledger σ).sched
      = (EventScheduler.new kw threshold topK cap).calls cs := by
  induction cs using List.reverseRecOn with
  | nil => rfl
  | append_singleton cs c ih =>
    rw [EventScheduler.calls_concat, ledger_concat, book_sched, ih]

/-! ## `enqueue` keeps the law -/

theorem Accounted.scored_not_mem (h : Accounted L) (event : SocialEvent) :
    L.sched.scored event ∉ L.places := by
  intro hmem
  have hlt := h.seq_lt hmem
  have hseq : (L.sched.scored event).seq = L.sched.enqueued := rfl
  rw [hseq, h.numbered] at hlt
  omega

theorem Accounted.queue_scored_nodup (h : Accounted L) (event : SocialEvent) :
    (L.sched.queue ++ [L.sched.scored event]).Nodup := by
  refine h.queue_nodup.append (List.nodup_singleton _) fun x hx hx' => ?_
  rw [List.mem_singleton.mp hx'] at hx
  exact h.scored_not_mem event (by simp [Ledger.places, hx])

/-- Booking an `enqueue` adds the new entry to the places and moves the others around. -/
theorem places_book_enqueue (h : Accounted L) (event : SocialEvent) :
    (L.book (.enqueue event)).places.Perm (L.places ++ [L.sched.scored event]) := by
  have hnd := h.queue_scored_nodup event
  have hsorted := L.sched.sortedWith_perm event
  have hsub := enqueue_sublist L.sched event
  have hgone := gone_perm hnd ((hsorted.nodup_iff.mpr hnd).sublist hsub)
    fun x hx => hsorted.mem_iff.mp (hsub.subset hx)
  simp only [Ledger.places, Ledger.book, ← Multiset.coe_eq_coe, ← Multiset.coe_add] at hgone ⊢
  -- as bags: what stays in the queue and what is evicted are the old queue and the new entry
  rw [← add_assoc, add_right_comm (Multiset.ofList (L.sched.enqueue event).queue), hgone]
  abel

theorem accounted_enqueue (h : Accounted L) (event : SocialEvent) :
    Accounted (L.book (.enqueue event)) := by
  have hp := places_book_enqueue h event
  constructor
  · have hlast : (L.sched.scored event).seq = L.events.length := h.numbered
    have hmap := hp.map (·.seq)
    rw [List.map_append, List.map_singleton, hlast] at hmap
    show List.Perm _ (List.range (L.events ++ [event]).length)
    rw [List.length_append, List.length_singleton, List.range_succ]
    exact hmap.trans (h.once.append_right _)
  · intro x hx
    show (L.events ++ [event])[x.seq]? = some x.event
    rcases List.mem_append.mp (hp.mem_iff.mp hx) with hx | hx
    · rw [List.getElem?_append_left (h.seq_lt hx)]
      exact h.genuine x hx
    · rw [List.mem_singleton.mp hx]
      show (L.events ++ [event])[L.sched.enqueued]? = some event
      rw [h.numbered, List.getElem?_concat_length]
  · exact h.spoken
  · exact h.counted
  · intro x hx
    rcases List.mem_append.mp hx with hx | hx
    · exact h.unprotected x hx
    · obtain ⟨hmem, hgone⟩ := mem_gone.mp hx
      exact lost_is_unprotected hmem hgone
  · show L.sched.enqueued + 1 = (L.events ++ [event]).length
    rw [h.numbered, List.length_append, List.length_singleton]

/-! ## `next_turn` keeps the law -/

/-- Booking a `nextTurn` moves what the turn took out of the queue to the turns. -/
theorem book_nextTurn_cases (h : Accounted L) :
    (L.sched.queue = [] ∧ L.book .nextTurn = L) ∨
    ∃ turn delivered dropped pending, L.sched.queue = delivered ++ dropped ++ pending ∧
      L.sched.nextTurn = (some turn, { L.sched with queue := pending }) ∧
      turn.events = delivered.map (·.event) ∧ turn.overflowCount = dropped.length ∧
      L.book .nextTurn =
        { L with
          sched := { L.sched with queue := pending }
          turns := L.turns ++ [{ turn, delivered, dropped }] } := by
  rcases L.sched.nextTurn_cases with
    ⟨hq, hn⟩ | ⟨turn, delivered, dropped, pending, hq, hn, hev, hov, -⟩
  · exact Or.inl ⟨hq, by unfold Ledger.book; simp only [hn]⟩
  · have hnd := h.queue_nodup
    rw [hq] at hnd
    have hout : gone L.sched.queue pending = delivered ++ dropped := by rw [hq, gone_append hnd]
    have hlen : turn.events.length = delivered.length := by simp [hev]
    refine Or.inr ⟨turn, delivered, dropped, pending, hq, hn, hev, hov, ?_⟩
    unfold Ledger.book
    simp only [hn, hout, hlen, List.take_left, List.drop_left]

theorem accounted_nextTurn (h : Accounted L) : Accounted (L.book .nextTurn) := by
  rcases book_nextTurn_cases h with
    ⟨-, hbook⟩ | ⟨turn, delivered, dropped, pending, hq, -, hev, hov, hbook⟩
  · rw [hbook]; exact h
  · rw [hbook]
    refine h.of_places ?_ rfl rfl ?_ ?_ h.unprotected
    · simp only [Ledger.places, hq, List.flatMap_append, List.flatMap_singleton, Delivery.taken,
        ← Multiset.coe_eq_coe, ← Multiset.coe_add]
      abel
    all_goals
      intro d hd
      rcases List.mem_append.mp hd with hd | hd
    · exact h.spoken d hd
    · rw [List.mem_singleton.mp hd]; exact hev
    · exact h.counted d hd
    · rw [List.mem_singleton.mp hd]; exact hov

/-- Nothing is evicted from a queue below the cap. -/
theorem evicted_below_cap (L : Ledger σ) (event : SocialEvent)
    (h : L.sched.queue.length < L.sched.maxQueueSize) :
    (L.book (.enqueue event)).evicted = L.evicted := by
  have hnone : gone (L.sched.queue ++ [L.sched.scored event])
      (L.sched.enqueue event).queue = [] := by
    refine List.eq_nil_iff_forall_not_mem.mpr fun x hx => ?_
    obtain ⟨hmem, hgone⟩ := mem_gone.mp hx
    have hover := lost_above_cap hmem hgone
    omega
  show L.evicted ++ _ = L.evicted
  rw [hnone, List.append_nil]

/-! ## Every sequence of calls -/

theorem accounted_ledger (kw : List String) (threshold topK cap : Int)
    (cs : List EventScheduler.Call) :
    Accounted (ledger kw threshold topK cap cs : Ledger σ) := by
  induction cs using List.reverseRecOn with
  | nil => exact accounted_open kw threshold topK cap
  | append_singleton cs c ih =>
    rw [ledger_concat]
    cases c with
    | enqueue event => exact accounted_enqueue ih event
    | nextTurn => exact accounted_nextTurn ih

/--
**Every enqueued event is accounted for.** After every sequence of calls on a fresh scheduler,
each enqueued event is pending, evicted, in the events of one returned turn or in the overflow
of one returned turn, in exactly one of these places and once; the overflow counts add up to the
number of dropped events; what was evicted was neither a gift nor at or above the floor; and while
less than `max_queue_size` events are pending, the next `enqueue` evicts none.
-/
theorem scheduler_accounts (kw : List String) (threshold topK cap : Int)
    (cs : List EventScheduler.Call) :
    let L : Ledger σ := ledger kw threshold topK cap cs
    L.sched = (EventScheduler.new kw threshold topK cap).calls cs ∧
    ((L.sched.queue ++ L.evicted ++ L.turns.flatMap fun d => d.delivered ++ d.dropped).map
      (·.seq)).Perm (List.range L.events.length) ∧
    (∀ x ∈ L.sched.queue ++ L.evicted ++ L.turns.flatMap fun d => d.delivered ++ d.dropped,
      L.events[x.seq]? = some x.event) ∧
    (∀ d ∈ L.turns, d.turn.events = d.delivered.map (·.event) ∧
      d.turn.overflowCount = d.dropped.length) ∧
    (L.turns.map (·.turn.overflowCount)).sum = (L.turns.flatMap (·.dropped)).length ∧
    (∀ x ∈ L.evicted, x.event.kind ≠ .gift ∧ x.score < (protectedScoreFloor : σ)) ∧
    ∀ event, (L.sched.queue.length : Int) < cap →
      (L.book (.enqueue event)).evicted = L.evicted := by
  intro L
  have h : Accounted L := accounted_ledger kw threshold topK cap cs
  refine ⟨ledger_sched kw threshold topK cap cs, h.once, h.genuine,
    fun d hd => ⟨h.spoken d hd, h.counted d hd⟩, h.sum_overflow, fun x hx => ?_,
    fun event hbelow => evicted_below_cap L event ?_⟩
  · simpa [Protected, not_or] using h.unprotected x hx
  · have hcap : L.sched.maxQueueSize = cap := by
      have hsched : L.sched = (EventScheduler.new kw threshold topK cap).calls cs :=
        ledger_sched kw threshold topK cap cs
      rw [hsched]
      exact (calls_settings _ cs).2.2.2
    rwa [hcap]

/-- Three follows on a queue of two, a batch of one, and a fourth follow. -/
def crowded : List EventScheduler.Call :=
  twoFollows ++ [.enqueue (followOf "c"), .nextTurn, .enqueue (followOf "d")]

omit [PyLower] in
/-- The first is spoken, the second in the overflow, the third evicted and the fourth pending. -/
theorem crowded_accounted : ∃ _ : PyLower,
    let L : Ledger Int := ledger [] 0 1 2 crowded
    L.turns.map (fun d => (d.delivered.map (·.seq), d.dropped.map (·.seq))) = [([0], [1])] ∧
    L.evicted.map (·.seq) = [2] ∧ L.sched.queue.map (·.seq) = [3] ∧
    ((L.sched.queue ++ L.evicted ++ L.turns.flatMap fun d => d.delivered ++ d.dropped).map
      (·.seq)).Perm [0, 1, 2, 3] := by
  let lower : PyLower := ⟨id⟩
  obtain ⟨-, honce, -⟩ := scheduler_accounts (σ := Int) [] 0 1 2 crowded
  have hfour : List.range (ledger [] 0 1 2 crowded : Ledger Int).events.length = [0, 1, 2, 3] := by
    decide +kernel
  rw [hfour] at honce
  exact ⟨lower, by decide +kernel, by decide +kernel, by decide +kernel, honce⟩

end Livehost.Spec
