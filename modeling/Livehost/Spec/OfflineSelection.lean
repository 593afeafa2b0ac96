import Livehost.Properties.Scheduler
import Mathlib.Data.List.Nodup

/-!
# Eviction as a selection

The scheduler keeps or evicts one entry at each arrival. What it ends up with is what one would
select with all arrivals at hand: the protected ones, and of the others as many as the cap leaves
room for, the first in the order.

* `selected_enqueue` — an arrival and its eviction keep the selection
* `eviction_is_offline_selection` — the queue is the offline selection, and without ties it does not
  depend on the order of arrival
-/

namespace Livehost.Spec

open Infra

variable {σ : Type} [Score σ]

/-! ## The selection -/

/-- The protected entries. -/
def protectedOnes (xs : List (ScoredEvent σ)) : List (ScoredEvent σ) :=
  xs.filter fun x => Protected x

/-- The entries that may be evicted. -/
def others (xs : List (ScoredEvent σ)) : List (ScoredEvent σ) := xs.filter fun x => ¬ Protected x

/-- How many of the others the cap leaves room for. -/
def room (cap : Int) (xs : List (ScoredEvent σ)) : Nat := (cap - (protectedOnes xs).length).toNat

/-- The first of the others, as many as there is room for. -/
def admitted (cap : Int) (xs : List (ScoredEvent σ)) : List (ScoredEvent σ) :=
  (sortDesc (·.score) (others xs)).take (room cap xs)

/-- The protected entries and the admitted ones, sorted. -/
def offlineSelection (cap : Int) (xs : List (ScoredEvent σ)) : List (ScoredEvent σ) :=
  sortDesc (·.score) (xs.filter fun x => Protected x ∨ x ∈ admitted cap xs)

theorem length_eq_add (xs : List (ScoredEvent σ)) :
    xs.length = (protectedOnes xs).length + (others xs).length := by
  simpa [protectedOnes, others] using List.length_eq_length_filter_add (l := xs)
    fun x => decide (Protected x)

theorem others_eq_nil {xs : List (ScoredEvent σ)} (h : ∀ x ∈ xs, Protected x) : others xs = [] :=
  List.filter_eq_nil_iff.mpr fun x hx => by simp [h x hx]

theorem protectedOnes_append (xs ys : List (ScoredEvent σ)) :
    protectedOnes (xs ++ ys) = protectedOnes xs ++ protectedOnes ys := List.filter_append ..

theorem others_append (xs ys : List (ScoredEvent σ)) :
    others (xs ++ ys) = others xs ++ others ys := List.filter_append ..

theorem protectedOnes_cons (x : ScoredEvent σ) (xs : List (ScoredEvent σ)) :
    protectedOnes (x :: xs) = if Protected x then x :: protectedOnes xs else protectedOnes xs := by
  simp [protectedOnes, List.filter_cons]

theorem others_cons (x : ScoredEvent σ) (xs : List (ScoredEvent σ)) :
    others (x :: xs) = if Protected x then others xs else x :: others xs := by
  by_cases h : Protected x <;> simp [others, h]

theorem mem_parts {x : ScoredEvent σ} {xs : List (ScoredEvent σ)} :
    x ∈ xs ↔ x ∈ protectedOnes xs ∨ x ∈ others xs := by
  by_cases h : Protected x <;> simp [protectedOnes, others, h]

theorem mem_of_admitted {cap : Int} {x : ScoredEvent σ} {xs : List (ScoredEvent σ)}
    (h : x ∈ admitted cap xs) : x ∈ xs :=
  List.mem_of_mem_filter (mem_sortDesc.mp (List.mem_of_mem_take h))

theorem parts_perm (xs : List (ScoredEvent σ)) : (protectedOnes xs ++ others xs).Perm xs := by
  simpa [protectedOnes, others] using List.filter_append_perm (fun x => decide (Protected x)) xs

/-! ## One arrival -/

/-- The queue holds the protected entries and the admitted ones. -/
structure Selected (s : EventScheduler σ) (xs : List (ScoredEvent σ)) : Prop where
  inv : SchedulerInv s
  kept : protectedOnes s.queue = sortDesc (·.score) (protectedOnes xs)
  first : others s.queue = admitted s.maxQueueSize xs

theorem Selected.mem {s : EventScheduler σ} {xs : List (ScoredEvent σ)} (h : Selected s xs)
    {x : ScoredEvent σ} (hx : x ∈ s.queue) : x ∈ xs := by
  rcases mem_parts.mp hx with hx | hx
  · rw [h.kept, mem_sortDesc] at hx
    exact List.mem_of_mem_filter hx
  · rw [h.first] at hx
    exact mem_of_admitted hx

variable [PyLower]

/-- What the cap does to a sorted queue that has at most one of the others too many: the protected
entries stay, and the others are cut to the room they have. -/
theorem others_enqueue (s : EventScheduler σ) (event : SocialEvent)
    (hone : (others (s.sortedWith event)).length ≤ room s.maxQueueSize (s.sortedWith event) + 1) :
    protectedOnes (s.enqueue event).queue = protectedOnes (s.sortedWith event) ∧
      others (s.enqueue event).queue
        = (others (s.sortedWith event)).take (room s.maxQueueSize (s.sortedWith event)) := by
  have hsplit := length_eq_add (s.sortedWith event)
  rcases s.enqueue_cases event with ⟨hq, hfits⟩ | ⟨l, x, r, hover, hs, hq, hx, hr⟩
  · -- nothing is evicted: the others have room, or there are none
    rw [hq]
    refine ⟨rfl, (List.take_of_length_le ?_).symm⟩
    rcases hfits with hfits | hall
    · unfold room
      omega
    · rw [others_eq_nil fun y hy => evictable_eq_false.mp (hall y hy)]
      exact Nat.zero_le _
  · -- the last of the others is evicted, and it is the one that has no room
    have hx : ¬ Protected x := evictable_eq_true.mp hx
    have hr : others r = [] := others_eq_nil fun y hy => evictable_eq_false.mp (hr y hy)
    have hothers : others (s.sortedWith event) = others l ++ [x] := by
      rw [hs, others_append, others_cons, if_neg hx, hr]
    have hcut : (others l).length = room s.maxQueueSize (s.sortedWith event) := by
      have hcount := congrArg List.length hothers
      rw [List.length_append, List.length_singleton] at hcount
      unfold room at hone ⊢
      omega
    rw [hq]
    constructor
    · rw [hs, protectedOnes_append, protectedOnes_append, protectedOnes_cons, if_neg hx]
    · rw [hothers, List.take_left' hcut, others_append, hr, List.append_nil]

/-- The protected part of the queue with the new entry, before the cap is looked at. -/
theorem Selected.kept_sortedWith {s : EventScheduler σ} {xs : List (ScoredEvent σ)}
    (h : Selected s xs) (event : SocialEvent) : protectedOnes (s.sortedWith event) =
      sortDesc (·.score) (protectedOnes (xs ++ [s.scored event])) := by
  rw [sortedWith_eq h.inv, protectedOnes_append, protectedOnes_cons]
  by_cases hz : Protected (s.scored event)
  · rw [if_pos hz, show protectedOnes [] = [] from rfl, sortDesc_concat, ← h.kept]
    exact filter_insertDesc_of_pos (by simp [hz]) h.inv.descending
  · rw [if_neg hz, show protectedOnes [] = [] from rfl, List.append_nil, ← h.kept]
    exact filter_insertDesc_of_neg (by simp [hz]) _

theorem Selected.room_sortedWith {s : EventScheduler σ} {xs : List (ScoredEvent σ)}
    (h : Selected s xs) (event : SocialEvent) (cap : Int) :
    room cap (s.sortedWith event) = room cap (xs ++ [s.scored event]) := by
  unfold room
  rw [h.kept_sortedWith, (sortDesc_perm _ _).length_eq]

/-- Cut to the room they have, the others in the queue are those to admit; and at most one of them
is too many. -/
theorem Selected.admitted_sortedWith {s : EventScheduler σ} {xs : List (ScoredEvent σ)}
    (h : Selected s xs) (event : SocialEvent) :
    (others (s.sortedWith event)).take (room s.maxQueueSize (xs ++ [s.scored event]))
        = admitted s.maxQueueSize (xs ++ [s.scored event]) ∧
      (others (s.sortedWith event)).length
        ≤ room s.maxQueueSize (xs ++ [s.scored event]) + 1 := by
  have hlen : (others s.queue).length ≤ room s.maxQueueSize xs := by
    rw [h.first]
    exact List.length_take_le ..
  unfold admitted
  rw [sortedWith_eq h.inv, others_append, others_cons]
  by_cases hz : Protected (s.scored event)
  · -- a protected arrival takes the room of one of the others
    have hroom : room s.maxQueueSize (xs ++ [s.scored event]) ≤ room s.maxQueueSize xs ∧
        room s.maxQueueSize xs ≤ room s.maxQueueSize (xs ++ [s.scored event]) + 1 := by
      unfold room
      rw [protectedOnes_append, protectedOnes_cons, if_pos hz, List.length_append]
      simp only [protectedOnes, List.filter_nil, List.length_cons, List.length_nil]
      omega
    have hothers : others (insertDesc (·.score) (s.scored event) s.queue) = others s.queue :=
      filter_insertDesc_of_neg (by simp [hz]) _
    rw [if_pos hz, show others [] = [] from rfl, List.append_nil, hothers]
    refine ⟨?_, hlen.trans hroom.2⟩
    rw [h.first, admitted, List.take_take, min_eq_left hroom.1]
  · -- another arrival is admitted or not, and may push one out
    have hroom : room s.maxQueueSize (xs ++ [s.scored event]) = room s.maxQueueSize xs := by
      unfold room
      rw [protectedOnes_append, protectedOnes_cons, if_neg hz]
      simp [protectedOnes]
    have hothers : others (insertDesc (·.score) (s.scored event) s.queue)
        = insertDesc (·.score) (s.scored event) (others s.queue) :=
      filter_insertDesc_of_pos (by simp [hz]) h.inv.descending
    rw [if_neg hz, show others [] = [] from rfl, hothers, hroom, length_insertDesc]
    refine ⟨?_, Nat.succ_le_succ hlen⟩
    rw [h.first, admitted, take_insertDesc, sortDesc_concat]

/-- **An arrival and its eviction keep the selection.** -/
theorem selected_enqueue {s : EventScheduler σ} {xs : List (ScoredEvent σ)} (h : Selected s xs)
    (event : SocialEvent) : Selected (s.enqueue event) (xs ++ [s.scored event]) := by
  have hroom := h.room_sortedWith event s.maxQueueSize
  obtain ⟨hadmitted, hone⟩ := h.admitted_sortedWith event
  rw [← hroom] at hadmitted hone
  obtain ⟨hkept, hfirst⟩ := others_enqueue s event hone
  exact ⟨schedulerInv_enqueue h.inv event, hkept.trans (h.kept_sortedWith event),
    hfirst.trans hadmitted⟩

/-! ## All arrivals -/

/-- The entries of events that arrive in this order. -/
def arrivals (kw : List String) (events : List SocialEvent) : List (ScoredEvent σ) :=
  events.mapIdx fun i event => { event, score := scoreEvent event kw, seq := i }

/-- A fresh scheduler after the events were enqueued. -/
def fill (kw : List String) (threshold topK cap : Int) (events : List SocialEvent) :
    EventScheduler σ :=
  (EventScheduler.new kw threshold topK cap).calls (events.map .enqueue)

variable {kw : List String} {threshold topK cap : Int} {events : List SocialEvent}

theorem fill_concat (event : SocialEvent) :
    (fill kw threshold topK cap (events ++ [event]) : EventScheduler σ)
      = (fill kw threshold topK cap events).enqueue event := by
  unfold fill
  rw [List.map_append, List.map_singleton, EventScheduler.calls_concat]
  rfl

theorem fill_enqueued :
    (fill kw threshold topK cap events : EventScheduler σ).enqueued = events.length := by
  induction events using List.reverseRecOn with
  | nil => rfl
  | append_singleton events event ih =>
    rw [fill_concat, List.length_append, List.length_singleton, ← ih]
    rfl

/-- The entry that the next `enqueue` makes is the next arrival. -/
theorem arrivals_concat (event : SocialEvent) :
    (arrivals kw (events ++ [event]) : List (ScoredEvent σ))
      = arrivals kw events ++ [(fill kw threshold topK cap events).scored event] := by
  have hkw : (fill kw threshold topK cap events : EventScheduler σ).mentionKeywords = kw :=
    (calls_settings _ _).1
  unfold arrivals EventScheduler.scored
  rw [List.mapIdx_concat, fill_enqueued, hkw]

theorem arrivals_pairwise :
    (arrivals kw events : List (ScoredEvent σ)).Pairwise (·.seq < ·.seq) := by
  rw [List.pairwise_iff_getElem]
  intro i j hi hj hij
  simpa [arrivals] using hij

variable (σ kw events) in
/-- The entries are made of the events, one of each. -/
theorem arrivals_event : (arrivals kw events : List (ScoredEvent σ)).map (·.event) = events := by
  refine List.ext_getElem (by simp [arrivals]) fun i hi hi' => ?_
  simp [arrivals]

theorem selected_fill : Selected (fill kw threshold topK cap events : EventScheduler σ)
    (arrivals kw events) := by
  induction events using List.reverseRecOn with
  | nil =>
    refine ⟨schedulerInv_new kw threshold topK cap, rfl, ?_⟩
    show [] = List.take _ []
    rw [List.take_nil]
  | append_singleton events event ih =>
    rw [fill_concat, arrivals_concat]
    exact selected_enqueue ih event

theorem fill_cap : (fill kw threshold topK cap events : EventScheduler σ).maxQueueSize = cap :=
  (calls_settings _ _).2.2.2

theorem arrivals_score {x : ScoredEvent σ} (hx : x ∈ arrivals kw events) :
    x.score = scoreEvent x.event kw := by
  obtain ⟨i, hi, rfl⟩ := List.mem_mapIdx.mp hx
  rfl

/-- The queue and the offline selection are in the same order and have the same entries. -/
theorem queue_eq_offlineSelection :
    (fill kw threshold topK cap events : EventScheduler σ).queue
      = offlineSelection cap (arrivals kw events) := by
  have h : Selected (fill kw threshold topK cap events : EventScheduler σ) (arrivals kw events) :=
    selected_fill
  refine List.Pairwise.eq_of_mem_iff h.inv.ordered ?_ fun x => ?_
  · refine sortDesc_pairwise ((arrivals_pairwise.filter _).imp ?_)
    exact fun hab _ => hab
  · rw [mem_parts, h.kept, h.first, fill_cap, offlineSelection]
    simp only [mem_sortDesc, List.mem_filter, decide_eq_true_eq, protectedOnes]
    constructor
    · rintro (⟨hx, hp⟩ | hx)
      · exact ⟨hx, Or.inl hp⟩
      · exact ⟨mem_of_admitted hx, Or.inr hx⟩
    · rintro ⟨hx, hp | hx'⟩
      · exact Or.inl ⟨hx, hp⟩
      · exact Or.inr hx'

/-! ## The order of arrival -/

/-- The entry of the event is protected. -/
def protectedEvent (σ : Type) [Score σ] (kw : List String) (event : SocialEvent) : Bool :=
  decide (event.kind = .gift ∨ (protectedScoreFloor : σ) ≤ scoreEvent event kw)

theorem protected_arrival {x : ScoredEvent σ} (hx : x ∈ arrivals kw events) :
    Protected x ↔ protectedEvent σ kw x.event = true := by
  unfold protectedEvent Protected
  rw [arrivals_score hx, decide_eq_true_eq]

theorem protectedOnes_events :
    (protectedOnes (arrivals kw events : List (ScoredEvent σ))).map (·.event)
      = events.filter (protectedEvent σ kw) := by
  rw [← arrivals_event σ kw events, List.filter_map, arrivals_event]
  refine congrArg (List.map _) (List.filter_congr fun x hx => ?_)
  simp [protected_arrival hx]

theorem others_events :
    (others (arrivals kw events : List (ScoredEvent σ))).map (·.event)
      = events.filter fun event => !protectedEvent σ kw event := by
  rw [← arrivals_event σ kw events, List.filter_map, arrivals_event]
  refine congrArg (List.map _) (List.filter_congr fun x hx => ?_)
  simp [protected_arrival hx]

/-- Without ties, the events of the queue are selected from the events as a bag. -/
theorem queue_events (hinj : ∀ a ∈ events, ∀ b ∈ events,
    (scoreEvent a kw : σ) = scoreEvent b kw → a = b) :
    let score := fun event => (scoreEvent event kw : σ)
    let chosen := events.filter (protectedEvent σ kw)
    (fill kw threshold topK cap events : EventScheduler σ).queue.map (·.event) =
      sortDesc score (sortDesc score chosen ++
        (sortDesc score (events.filter fun event => !protectedEvent σ kw event)).take
          (cap - chosen.length).toNat) := by
  intro score chosen
  have h : Selected (fill kw threshold topK cap events : EventScheduler σ) (arrivals kw events) :=
    selected_fill
  have hscore : ∀ xs : List (ScoredEvent σ), (∀ x ∈ xs, x ∈ arrivals kw events) →
      (sortDesc (·.score) xs).map (·.event) = sortDesc score (xs.map (·.event)) := fun xs hxs =>
    map_sortDesc fun x hx => (arrivals_score (hxs x hx)).symm
  have hkept : (protectedOnes (fill kw threshold topK cap events : EventScheduler σ).queue).map
      (·.event) = sortDesc score chosen := by
    rw [h.kept, hscore _ fun x hx => mem_parts.mpr (Or.inl hx), protectedOnes_events]
  have hfirst : (others (fill kw threshold topK cap events : EventScheduler σ).queue).map (·.event)
      = (sortDesc score (events.filter fun event => !protectedEvent σ kw event)).take
          (cap - chosen.length).toNat := by
    rw [h.first, fill_cap, admitted, List.map_take, hscore _ fun x hx => mem_parts.mpr (Or.inr hx),
      others_events, room, ← List.length_map (·.event), protectedOnes_events]
  have hsorted := hscore (fill kw threshold topK cap events : EventScheduler σ).queue fun _ => h.mem
  rw [sortDesc_of_ordered h.inv.descending] at hsorted
  have hevent : ∀ event ∈
      (fill kw threshold topK cap events : EventScheduler σ).queue.map (·.event),
      event ∈ events := by
    intro event he
    obtain ⟨x, hx, rfl⟩ := List.mem_map.mp he
    rw [← arrivals_event σ kw events]
    exact List.mem_map_of_mem (h.mem hx)
  rw [← hkept, ← hfirst, ← List.map_append]
  exact hsorted.trans (sortDesc_eq_of_perm ((parts_perm _).symm.map _)
    fun a ha b hb => hinj a (hevent a ha) b (hevent b hb))

/--
**Streaming eviction equals offline selection.** After any events were enqueued into a fresh
scheduler, whatever the cap, the queue is the sort of all protected entries and of the first
unprotected ones that the cap leaves room for; and when no two events have one score, the events of
the queue do not depend on the order of arrival.
-/
theorem eviction_is_offline_selection (kw : List String) (threshold topK cap : Int)
    (events : List SocialEvent) :
    (fill kw threshold topK cap events : EventScheduler σ).queue
        = offlineSelection cap (arrivals kw events) ∧
    ((events.map fun event => (scoreEvent event kw : σ)).Nodup → ∀ events', events.Perm events' →
      (fill kw threshold topK cap events' : EventScheduler σ).queue.map (·.event)
        = (fill kw threshold topK cap events : EventScheduler σ).queue.map (·.event)) := by
  refine ⟨queue_eq_offlineSelection, fun hnd events' hperm => ?_⟩
  have hinj : ∀ a ∈ events, ∀ b ∈ events, (scoreEvent a kw : σ) = scoreEvent b kw → a = b :=
    fun a ha b hb he => List.inj_on_of_nodup_map hnd ha hb he
  have hinj' : ∀ a ∈ events', ∀ b ∈ events', (scoreEvent a kw : σ) = scoreEvent b kw → a = b :=
    fun a ha b hb => hinj a (hperm.mem_iff.mpr ha) b (hperm.mem_iff.mpr hb)
  rw [queue_events hinj, queue_events hinj']
  have hsort : ∀ p : SocialEvent → Bool,
      sortDesc (fun event => (scoreEvent event kw : σ)) (events'.filter p)
        = sortDesc (fun event => (scoreEvent event kw : σ)) (events.filter p) := fun p =>
    sortDesc_eq_of_perm (hperm.symm.filter p) fun a ha b hb =>
      hinj' a (List.mem_of_mem_filter ha) b (List.mem_of_mem_filter hb)
  rw [hsort, hsort, (hperm.symm.filter _).length_eq]

end Livehost.Spec
