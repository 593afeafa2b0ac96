import Livehost.Infra.Machine
import Livehost.Infra.Objects
import Livehost.Static.Audio
import Mathlib.Data.List.Sort
import Mathlib.Order.Interval.Set.Disjoint

/-!
# Reply audio plays in order and dies on barge-in

Since the last `lhStopAudio`, links are chained one behind the other, a link begins when the one
before it has settled, and a buffer starts where the one before it ends. A link of before the stop
may still be running; its generation keeps it from starting anything.

* `Chained` — the links since a stop
* `Played` — the buffer sources since a stop
* `reply_audio_in_order` — order, intervals and barge-in in every run
-/

namespace Livehost

open Infra

/-- The end of the play interval. -/
def AudioSource.finish (src : AudioSource) : Rat := src.start + src.buffer.duration

/-- `[start, start + duration)`. -/
def AudioSource.interval (src : AudioSource) : Set Rat := Set.Ico src.start src.finish

theorem AudioBuffer.duration_pos (buf : AudioBuffer) : 0 < buf.duration := by
  have hlength : (0 : Rat) < buf.length := by exact_mod_cast buf.length_pos
  have hrate : (0 : Rat) < buf.sampleRate := by exact_mod_cast buf.sampleRate_pos
  exact div_pos hlength hrate

/-- A source that starts where another ends, or later, plays apart from it. -/
theorem AudioSource.interval_inter {x y : AudioSource} (h : x.finish ≤ y.start) :
    x.start < y.start ∧ x.interval ∩ y.interval = ∅ := by
  have hmeet : min x.finish y.finish ≤ max x.start y.start :=
    (min_le_left _ _).trans (h.trans (le_max_right _ _))
  refine ⟨?_, (Set.Ico_disjoint_Ico.mpr hmeet).inter_eq⟩
  calc
    x.start < x.start + x.buffer.duration := lt_add_of_pos_right _ x.buffer.duration_pos
    _ ≤ y.start := h

namespace LhAudio

variable {b c : Nat} {s s' : LhAudio}

/-! ## Links -/

/-- The link has begun. -/
def Begun (s : LhAudio) (i : Nat) : Prop := ∃ l ∈ s.links[i]?, l.phase ≠ .waiting

/-- The links since a stop are those from the `b`-th on: they are of the current generation, each
is chained to the one before it, and it begins when the ones before it have settled. -/
structure Chained (b : Nat) (s : LhAudio) : Prop where
  base : b ≤ s.links.length
  gen_le : ∀ (i : Nat) (l : AudioLink), s.links[i]? = some l → l.gen ≤ s.audioGen
  gen : ∀ (i : Nat) (l : AudioLink), s.links[i]? = some l → (l.gen = s.audioGen ↔ b ≤ i)
  chain : s.chain = if s.links.length = b then none else some (s.links.length - 1)
  chainedTo : ∀ (i : Nat) (l : AudioLink), s.links[i]? = some l → b ≤ i →
    l.chainedTo = if i = b then none else some (i - 1)
  order : ∀ i j, b ≤ j → j < i → s.Begun i → s.Settled (some j)

theorem Settled.begun {i : Nat} (h : s.Settled (some i)) : s.Begun i := by
  obtain ⟨l, hl, hsettled⟩ := h
  exact ⟨l, hl, by simp [hsettled]⟩

/-- A link of the step is at the place it had, with the same call behind it. -/
theorem getElem?_setPhase {i j : Nat} {phase : LinkPhase} {l : AudioLink}
    (h : (s.setPhase i phase).links[j]? = some l) :
    ∃ l₀, s.links[j]? = some l₀ ∧ l = if i = j then { l₀ with phase } else l₀ := by
  exact getElem?_modify_iff.mp h

theorem getElem?_setPhase_self {i : Nat} {phase : LinkPhase} {l : AudioLink}
    (h : s.links[i]? = some l) : (s.setPhase i phase).links[i]? = some { l with phase } := by
  simp [setPhase, h]

theorem getElem?_setPhase_ne {i j : Nat} {phase : LinkPhase} (h : i ≠ j) :
    (s.setPhase i phase).links[j]? = s.links[j]? := by simp [setPhase, h]

/-- A settled link stays settled, unless it is the one that moves. -/
theorem Settled.setPhase {i j : Nat} {phase : LinkPhase} (h : s.Settled (some j))
    (hi : i = j → phase = .settled) : (s.setPhase i phase).Settled (some j) := by
  obtain ⟨l, hl, hsettled⟩ := h
  by_cases hij : i = j
  · subst hij
    exact ⟨_, getElem?_setPhase_self hl, hi rfl⟩
  · exact ⟨l, (getElem?_setPhase_ne hij).trans hl, hsettled⟩

/-- **A link moves on**: it had begun and not settled, or it begins behind the settled one. -/
theorem Chained.setPhase {i : Nat} {phase : LinkPhase} {l : AudioLink} (h : Chained b s)
    (hl : s.links[i]? = some l) (hunsettled : l.phase ≠ .settled)
    (hbegins : l.phase = .waiting → s.Settled l.chainedTo) : Chained b (s.setPhase i phase) := by
  have hlength : (s.setPhase i phase).links.length = s.links.length := List.length_modify ..
  have hcall : ∀ (j : Nat) (l' : AudioLink), (s.setPhase i phase).links[j]? = some l' →
      ∃ l₀, s.links[j]? = some l₀ ∧ l'.gen = l₀.gen ∧ l'.chainedTo = l₀.chainedTo := by
    intro j l' hl'
    obtain ⟨l₀, hl₀, rfl⟩ := getElem?_setPhase hl'
    refine ⟨l₀, hl₀, ?_⟩
    split <;> exact ⟨rfl, rfl⟩
  refine ⟨hlength ▸ h.base, ?_, ?_, ?_, ?_, ?_⟩
  · intro j l' hl'
    obtain ⟨l₀, hl₀, hgen, -⟩ := hcall j l' hl'
    exact hgen ▸ h.gen_le j l₀ hl₀
  · intro j l' hl'
    obtain ⟨l₀, hl₀, hgen, -⟩ := hcall j l' hl'
    exact hgen ▸ h.gen j l₀ hl₀
  · rw [hlength]
    exact h.chain
  · intro j l' hl' hj
    obtain ⟨l₀, hl₀, -, hchained⟩ := hcall j l' hl'
    exact hchained ▸ h.chainedTo j l₀ hl₀ hj
  · intro k j hj hjk hbegun
    have hall : s.Settled (some j) := by
      by_cases hik : i = k
      · subst hik
        by_cases hwaiting : l.phase = .waiting
        · -- it begins: the link before it has settled, so it had begun, behind the ones before it
          have hprev := hbegins hwaiting
          rw [h.chainedTo i l hl (by omega), if_neg (by omega)] at hprev
          by_cases hj' : j = i - 1
          · exact hj' ▸ hprev
          · exact h.order (i - 1) j hj (by omega) hprev.begun
        · exact h.order i j hj hjk ⟨l, hl, hwaiting⟩
      · obtain ⟨l', hl', hne⟩ := hbegun
        exact h.order k j hj hjk ⟨l', (getElem?_setPhase_ne hik).symm.trans hl', hne⟩
    refine hall.setPhase fun hij => ?_
    subst hij
    obtain ⟨l', hl', hsettled⟩ := hall
    cases hl.symm.trans hl'
    exact absurd hsettled hunsettled

theorem Settled.congr {s s' : LhAudio} (h : s'.links = s.links) {i : Option Nat} :
    s'.Settled i ↔ s.Settled i := by
  cases i <;> simp [LhAudio.Settled, h]

/-- The links as they were. -/
theorem Chained.congr (h : Chained b s) (hlinks : s'.links = s.links) (hchain : s'.chain = s.chain)
    (hgen : s'.audioGen = s.audioGen) : Chained b s' := by
  refine ⟨?_, ?_, ?_, ?_, ?_, ?_⟩
  · exact hlinks ▸ h.base
  · exact hlinks ▸ hgen ▸ h.gen_le
  · exact hlinks ▸ hgen ▸ h.gen
  · rw [hchain, hlinks]
    exact h.chain
  · exact hlinks ▸ h.chainedTo
  · intro i j hj hij ⟨l, hl, hne⟩
    exact (Settled.congr hlinks).mpr (h.order i j hj hij ⟨l, hlinks ▸ hl, hne⟩)

/-- A link is chained to the last one. -/
theorem Chained.enqueue (h : Chained b s) : Chained b s.lhEnqueueAudioBytes := by
  have hcase : ∀ (i : Nat) (l : AudioLink), s.lhEnqueueAudioBytes.links[i]? = some l →
      (i = s.links.length ∧ l = { chainedTo := s.chain, gen := s.audioGen }) ∨
        s.links[i]? = some l := fun i l => getElem?_concat_iff.mp
  have hlength : s.lhEnqueueAudioBytes.links.length = s.links.length + 1 := by
    simp [lhEnqueueAudioBytes]
  have hbase := h.base
  refine ⟨by omega, ?_, ?_, ?_, ?_, ?_⟩
  · intro i l hl
    rcases hcase i l hl with ⟨-, rfl⟩ | hl
    · exact Nat.le_refl _
    · exact h.gen_le i l hl
  · intro i l hl
    rcases hcase i l hl with ⟨rfl, rfl⟩ | hl
    · exact iff_of_true rfl hbase
    · exact h.gen i l hl
  · rw [hlength, if_neg (by omega), Nat.add_sub_cancel]
    rfl
  · intro i l hl hi
    rcases hcase i l hl with ⟨rfl, rfl⟩ | hl
    · exact h.chain
    · exact h.chainedTo i l hl hi
  · intro i j hj hij ⟨l, hl, hne⟩
    rcases hcase i l hl with ⟨-, rfl⟩ | hl
    · exact absurd rfl hne
    · obtain ⟨l', hl', hsettled⟩ := h.order i j hj hij ⟨l, hl, hne⟩
      exact ⟨l', getElem?_concat_of_some hl' _, hsettled⟩

/-- A stop leaves every link behind. -/
theorem Chained.stop (h : Chained b s) : Chained s.links.length s.lhStopAudio := by
  have hlt : ∀ (i : Nat) (l : AudioLink), s.links[i]? = some l → i < s.links.length := fun i l hl =>
    (List.getElem?_eq_some_iff.mp hl).1
  refine ⟨Nat.le_refl _, ?_, ?_, (if_pos rfl).symm, ?_, ?_⟩
  · intro i l hl
    exact Nat.le_succ_of_le (h.gen_le i l hl)
  · intro i l hl
    refine iff_of_false (Nat.ne_of_lt (Nat.lt_succ_of_le (h.gen_le i l hl))) ?_
    exact Nat.not_le_of_lt (hlt i l hl)
  · intro i l hl hi
    exact absurd (hlt i l hl) (Nat.not_lt_of_le hi)
  · rintro i j hj hij ⟨l, hl, -⟩
    have hi := hlt i l hl
    omega

/-! ## Buffer sources -/

/-- The buffer sources since a stop are those from the `c`-th on: their links have settled, they
are in the order of the links, one behind the other, and the next one starts behind them. Every
other one is stopped or has ended. -/
structure Played (b c : Nat) (s : LhAudio) : Prop where
  base : c ≤ s.started.length
  link : ∀ src ∈ s.started.drop c, b ≤ src.link ∧ s.Settled (some src.link)
  ordered : (s.started.drop c).Pairwise fun x y => x.link < y.link ∧ x.finish ≤ y.start
  nextTime : ∀ src ∈ s.started.drop c, src.finish ≤ s.nextTime
  playing : ∀ i, i < s.started.length → i ∈ s.stopped ∨ i ∈ s.ended ∨ c ≤ i ∧ i ∈ s.sources

/-- A step that starts and ends nothing. -/
theorem Played.quiet (h : Played b c s) (hstarted : s'.started = s.started)
    (hnext : s'.nextTime = s.nextTime) (hstopped : s'.stopped = s.stopped)
    (hended : s'.ended = s.ended) (hsources : s'.sources = s.sources)
    (hsettled : ∀ i, s.Settled (some i) → s'.Settled (some i)) : Played b c s' := by
  refine ⟨?_, ?_, ?_, ?_, ?_⟩
  · exact hstarted ▸ h.base
  · rw [hstarted]
    exact fun src hsrc => ⟨(h.link src hsrc).1, hsettled _ (h.link src hsrc).2⟩
  · exact hstarted ▸ h.ordered
  · rw [hstarted, hnext]
    exact h.nextTime
  · rw [hstarted, hstopped, hended, hsources]
    exact h.playing

/-- **A buffer starts** behind those of earlier links. -/
theorem Played.schedule {i : Nat} (h : Played b c s) (hb : b ≤ i) (hsettled : s.Settled (some i))
    (hlater : ∀ src ∈ s.started.drop c, src.link < i) (buffer : AudioBuffer) :
    Played b c (s.lhScheduleBuffer i buffer) := by
  have hstart : s.nextTime ≤ max (s.lhAudioCtx.currentTime + 1 / 20) s.nextTime := le_max_right _ _
  have hpos := buffer.duration_pos
  have hdrop : (s.lhScheduleBuffer i buffer).started.drop c = s.started.drop c ++
      [⟨i, buffer, max (s.lhAudioCtx.currentTime + 1 / 20) s.nextTime⟩] := by
    rw [← List.drop_append_of_le_length h.base]
    rfl
  refine ⟨?_, ?_, ?_, ?_, ?_⟩
  · have hbase := h.base
    simp only [lhScheduleBuffer, lhAudioCtx, List.length_append]
    omega
  · intro src hsrc
    rw [hdrop] at hsrc
    rcases List.mem_append.mp hsrc with hsrc | hsrc
    · exact h.link src hsrc
    · cases List.mem_singleton.mp hsrc
      exact ⟨hb, hsettled⟩
  · rw [hdrop]
    refine List.pairwise_append.mpr ⟨h.ordered, List.pairwise_singleton _ _, ?_⟩
    intro x hx y hy
    cases List.mem_singleton.mp hy
    exact ⟨hlater x hx, (h.nextTime x hx).trans hstart⟩
  · intro src hsrc
    rw [hdrop] at hsrc
    rcases List.mem_append.mp hsrc with hsrc | hsrc
    · exact (h.nextTime src hsrc).trans (hstart.trans (le_add_of_nonneg_right hpos.le))
    · cases List.mem_singleton.mp hsrc
      exact le_refl _
  · intro k hk
    simp only [lhScheduleBuffer, lhAudioCtx, List.length_append, List.length_singleton] at hk ⊢
    by_cases hlast : k = s.started.length
    · exact Or.inr (Or.inr ⟨hlast ▸ h.base, by simp [hlast]⟩)
    · rcases h.playing k (by omega) with hk | hk | ⟨hc, hk⟩
      · exact Or.inl hk
      · exact Or.inr (Or.inl hk)
      · exact Or.inr (Or.inr ⟨hc, List.mem_append_left _ hk⟩)

theorem Played.onended (h : Played b c s) (k : Nat) : Played b c (s.onended k) := by
  refine ⟨h.base, h.link, h.ordered, h.nextTime, fun i hi => ?_⟩
  by_cases hik : i = k
  · exact Or.inr (Or.inl (hik ▸ List.mem_cons_self))
  · rcases h.playing i hi with hi | hi | ⟨hc, hi⟩
    · exact Or.inl hi
    · exact Or.inr (Or.inl (List.mem_cons_of_mem _ hi))
    · exact Or.inr (Or.inr ⟨hc, List.mem_filter.mpr ⟨hi, by simpa using hik⟩⟩)

/-- **A stop stops every buffer source that has not ended.** -/
theorem Played.stop (h : Played b c s) (b' : Nat) :
    Played b' s.started.length s.lhStopAudio ∧
      ∀ i, i < s.started.length → i ∈ s.lhStopAudio.stopped ∨ i ∈ s.lhStopAudio.ended := by
  have hdead : ∀ i, i < s.started.length →
      i ∈ s.lhStopAudio.stopped ∨ i ∈ s.lhStopAudio.ended := by
    intro i hi
    rcases h.playing i hi with hi | hi | ⟨-, hi⟩
    · exact Or.inl (List.mem_append_left _ hi)
    · exact Or.inr hi
    · exact Or.inl (List.mem_append_right _ hi)
  have hnone : s.lhStopAudio.started.drop s.started.length = [] := List.drop_length
  refine ⟨⟨Nat.le_refl _, ?_, ?_, ?_, ?_⟩, hdead⟩
  · rw [hnone]
    intro src hsrc
    cases hsrc
  · rw [hnone]
    exact .nil
  · rw [hnone]
    intro src hsrc
    cases hsrc
  · intro i hi
    exact (hdead i hi).imp_right Or.inl

/-! ## Steps -/

/-- The links from the `b`-th on and the buffer sources from the `c`-th on are those since the last
stop. -/
def Since (b c : Nat) (s : LhAudio) : Prop := Chained b s ∧ Played b c s

theorem Since.setPhase {i : Nat} {phase : LinkPhase} {l : AudioLink} (h : Since b c s)
    (hl : s.links[i]? = some l) (hunsettled : l.phase ≠ .settled)
    (hbegins : l.phase = .waiting → s.Settled l.chainedTo) : Since b c (s.setPhase i phase) := by
  refine ⟨h.1.setPhase hl hunsettled hbegins, h.2.quiet rfl rfl rfl rfl rfl fun j hj => ?_⟩
  refine hj.setPhase fun hij => ?_
  subst hij
  obtain ⟨l', hl', hsettled⟩ := hj
  cases hl.symm.trans hl'
  exact absurd hsettled hunsettled

theorem inPhase_some {i : Nat} {phase : LinkPhase} {f : AudioLink → LhAudio}
    (hs : s.inPhase i phase f = some s') :
    ∃ l, s.links[i]? = some l ∧ l.phase = phase ∧ s' = f l := by
  obtain ⟨l, hl, hs⟩ := Option.bind_eq_some_iff.mp hs
  rw [Option.ite_none_right_eq_some] at hs
  exact ⟨l, hl, hs.1, (Option.some.inj hs.2).symm⟩

/-- A link in the middle of an await goes on. -/
theorem Since.inPhase {i : Nat} {phase phase' : LinkPhase} (h : Since b c s)
    (hphase : phase ≠ .waiting ∧ phase ≠ .settled)
    (hs : s.inPhase i phase (fun _ => s.setPhase i phase') = some s') : Since b c s' := by
  obtain ⟨l, hl, rfl, rfl⟩ := inPhase_some hs
  exact h.setPhase hl hphase.2 fun hw => absurd hw hphase.1

/-- **A piece is decoded**: it starts only where its link is of the current generation. -/
theorem Since.decoded {i : Nat} {buffer : AudioBuffer} (h : Since b c s)
    (hs : s.next (.decoded i buffer) = some s') : Since b c s' := by
  obtain ⟨l, hl, hphase, rfl⟩ := inPhase_some hs
  have hunsettled : l.phase ≠ .settled := by simp [hphase]
  have hbegins : l.phase = .waiting → s.Settled l.chainedTo := by simp [hphase]
  have hset : Since b c (s.setPhase i .settled) := h.setPhase hl hunsettled hbegins
  by_cases hgen : l.gen = s.audioGen
  · rw [if_neg (not_not_intro hgen)]
    refine ⟨hset.1.congr rfl rfl rfl, hset.2.schedule ((h.1.gen i l hl).mp hgen)
      ⟨_, getElem?_setPhase_self hl, rfl⟩ (fun src hsrc => ?_) buffer⟩
    -- a later link would have begun behind this one
    obtain ⟨-, hsettled⟩ := h.2.link src hsrc
    by_contra hle
    have hi : s.Settled (some i) := by
      by_cases he : src.link = i
      · exact he ▸ hsettled
      · exact h.1.order src.link i ((h.1.gen i l hl).mp hgen) (by omega) hsettled.begun
    obtain ⟨l', hl', hsettled'⟩ := hi
    cases hl.symm.trans hl'
    exact hunsettled hsettled'
  · rw [if_pos hgen]
    exact hset

theorem Since.next {a : AudioAct} (h : Since b c s) (ha : a ≠ .lhStopAudio)
    (hs : s.next a = some s') : Since b c s' := by
  cases a with
  | lhStopAudio => exact absurd rfl ha
  | lhEnqueueAudioBytes =>
    cases hs
    refine ⟨h.1.enqueue, h.2.quiet rfl rfl rfl rfl rfl fun i hi => ?_⟩
    obtain ⟨l, hl, hsettled⟩ := hi
    exact ⟨l, getElem?_concat_of_some hl _, hsettled⟩
  | begin i suspended =>
    obtain ⟨l, hl, hs⟩ := Option.bind_eq_some_iff.mp hs
    rw [Option.ite_none_right_eq_some] at hs
    obtain ⟨⟨hwaiting, hbegins⟩, hs⟩ := hs
    cases hs
    have hctx : Since b c s.lhAudioCtx :=
      ⟨h.1.congr rfl rfl rfl, h.2.quiet rfl rfl rfl rfl rfl fun _ => id⟩
    exact hctx.setPhase hl (by simp [hwaiting]) fun _ => (Settled.congr rfl).mpr hbegins
  | resumed i | resumeFailed i => exact h.inPhase (by decide) hs
  | decodeFailed i => exact h.inPhase (by decide) hs
  | decoded i buffer => exact h.decoded hs
  | ended k =>
    simp only [LhAudio.next, Option.ite_none_right_eq_some, Option.some.injEq] at hs
    obtain ⟨-, rfl⟩ := hs
    exact ⟨h.1.congr rfl rfl rfl, h.2.onended k⟩
  | advance seconds =>
    obtain ⟨time, -, hs⟩ := Option.bind_eq_some_iff.mp hs
    rw [Option.ite_none_right_eq_some] at hs
    obtain ⟨-, hs⟩ := hs
    cases hs
    exact ⟨h.1.congr rfl rfl rfl, h.2.quiet rfl rfl rfl rfl rfl fun _ => id⟩

/-- A buffer source stays among those started. -/
theorem next_started {a : AudioAct} (hs : s.next a = some s') : s.started <+: s'.started := by
  cases a with
  | lhEnqueueAudioBytes | lhStopAudio =>
    cases hs
    exact List.prefix_rfl
  | begin i suspended =>
    obtain ⟨l, -, hs⟩ := Option.bind_eq_some_iff.mp hs
    rw [Option.ite_none_right_eq_some] at hs
    obtain ⟨-, hs⟩ := hs
    cases hs
    exact List.prefix_rfl
  | resumed i | resumeFailed i | decodeFailed i =>
    obtain ⟨l, -, -, rfl⟩ := inPhase_some hs
    exact List.prefix_rfl
  | decoded i buffer =>
    obtain ⟨l, -, -, rfl⟩ := inPhase_some hs
    split
    · exact List.prefix_rfl
    · exact List.prefix_append _ _
  | ended k =>
    simp only [LhAudio.next, Option.ite_none_right_eq_some, Option.some.injEq] at hs
    obtain ⟨-, rfl⟩ := hs
    exact List.prefix_rfl
  | advance seconds =>
    obtain ⟨time, -, hs⟩ := Option.bind_eq_some_iff.mp hs
    rw [Option.ite_none_right_eq_some] at hs
    obtain ⟨-, hs⟩ := hs
    cases hs
    exact List.prefix_rfl

/-! ## Runs -/

theorem since_init : Since 0 0 {} := by
  refine ⟨⟨Nat.le_refl _, by simp, by simp, rfl, by simp, ?_⟩,
    ⟨Nat.le_refl _, by simp, .nil, by simp, by simp⟩⟩
  rintro i j - - ⟨l, hl, -⟩
  simp at hl

/-- Every state is one since some stop, or since the page was loaded. -/
theorem exists_since {acts : List AudioAct} (h : run next {} acts = some s) :
    ∃ b c, Since b c s := by
  refine run_inv (I := fun s => ∃ b c, Since b c s) ?_ ⟨0, 0, since_init⟩ h
  rintro s a s' ⟨b, c, hi⟩ hs
  by_cases ha : a = .lhStopAudio
  · subst ha
    cases hs
    exact ⟨_, _, hi.1.stop, (hi.2.stop _).1⟩
  · exact ⟨b, c, hi.next ha hs⟩

/-- The state right after a stop, or the first one. -/
theorem since_stop {acts : List AudioAct} (h : run next {} acts = some s)
    (hlast : acts = [] ∨ acts.getLast? = some .lhStopAudio) :
    Since s.links.length s.started.length s := by
  rcases hlast with rfl | hlast
  · cases h
    exact since_init
  · obtain ⟨acts, rfl⟩ := List.getLast?_eq_some_iff.mp hlast
    obtain ⟨m, hm, hstop⟩ := run_concat_some.mp h
    cases hstop
    obtain ⟨b, c, hi⟩ := exists_since hm
    exact ⟨hi.1.stop, (hi.2.stop _).1⟩

/-- No stop comes in between. -/
theorem since_run {acts : List AudioAct} (h : Since b c s) (hacts : .lhStopAudio ∉ acts)
    (hr : run next s acts = some s') : Since b c s' ∧ s.started <+: s'.started := by
  refine run_inv_along (P := fun _ a => a ≠ AudioAct.lhStopAudio)
    (I := fun t => Since b c t ∧ s.started <+: t.started) ?_ ⟨h, List.prefix_rfl⟩ ?_ hr
  · rintro t a t' ⟨hi, hext⟩ ha ht
    exact ⟨hi.next ha ht, hext.trans (next_started ht)⟩
  · exact along_of_forall fun a ha he => hacts (he ▸ ha)

/-- Each link since the stop starts one buffer at most, in their order. -/
theorem Played.sublist (h : Played b c s) : ((s.started.drop c).map (·.link)).Sublist
    (List.range' b (s.links.length - b)) := by
  have hsorted : ((s.started.drop c).map (·.link)).Pairwise (· < ·) :=
    List.pairwise_map.mpr (h.ordered.imp And.left)
  refine List.sublist_of_subperm_of_pairwise ?_ hsorted List.pairwise_lt_range'
  refine List.subperm_of_subset hsorted.nodup fun i hi => ?_
  obtain ⟨src, hsrc, rfl⟩ := List.mem_map.mp hi
  obtain ⟨hle, l, hl, -⟩ := h.link src hsrc
  have hlt := (List.getElem?_eq_some_iff.mp hl).1
  rw [List.mem_range'_1]
  omega

/-- A buffer of a link of before the stop was started before it, and is silent. -/
theorem Played.silent (h : Played b c s) {i : Nat} {src : AudioSource}
    (hsrc : s.started[i]? = some src) (hlink : src.link < b) :
    i < c ∧ (i ∈ s.stopped ∨ i ∈ s.ended) := by
  have hi : i < c := by
    by_contra hle
    have hmem : src ∈ s.started.drop c := by
      refine List.mem_of_getElem? (i := i - c) ?_
      rw [List.getElem?_drop, Nat.add_sub_cancel' (Nat.le_of_not_lt hle)]
      exact hsrc
    exact absurd (h.link src hmem).1 (Nat.not_le_of_lt hlink)
  refine ⟨hi, ?_⟩
  rcases h.playing i (List.getElem?_eq_some_iff.mp hsrc).1 with hstopped | hended | ⟨hle, -⟩
  · exact Or.inl hstopped
  · exact Or.inr hended
  · omega

/--
**Reply audio plays in order and dies on barge-in.** In a run, let `m` be the state right after the
last `lhStopAudio`, or the first state where there was none. The buffers started since are in the
order of the pieces enqueued since, each in an interval behind the one before it; and no piece
enqueued before is started since, or is neither stopped nor over.
-/
theorem reply_audio_in_order (pre post : List AudioAct) {m t : LhAudio}
    (hpre : pre = [] ∨ pre.getLast? = some .lhStopAudio) (hpost : .lhStopAudio ∉ post)
    (hm : run next {} pre = some m) (ht : run next m post = some t) :
    let since := t.started.drop m.started.length
    m.started <+: t.started ∧
    (since.map (·.link)).Sublist
      (List.range' m.links.length (t.links.length - m.links.length)) ∧
    since.Pairwise (fun x y => x.start < y.start ∧ x.interval ∩ y.interval = ∅) ∧
    ∀ i src, t.started[i]? = some src → src.link < m.links.length →
      i < m.started.length ∧ (i ∈ t.stopped ∨ i ∈ t.ended) := by
  intro since
  obtain ⟨⟨-, hplayed⟩, hext⟩ := since_run (since_stop hm hpre) hpost ht
  refine ⟨hext, hplayed.sublist, ?_, fun i src => hplayed.silent⟩
  exact hplayed.ordered.imp fun h => AudioSource.interval_inter h.2

/-- Half a second of audio. -/
def halfSecond : AudioBuffer := ⟨12000, 24000, by decide, by decide⟩

/-- A piece is still decoding at the barge-in; two more come behind it. -/
def bargeIn : List AudioAct :=
  [.lhEnqueueAudioBytes, .begin 0 false, .lhStopAudio]

def nextReply : List AudioAct :=
  [.lhEnqueueAudioBytes, .lhEnqueueAudioBytes, .begin 1 true, .resumed 1, .decoded 0 halfSecond,
    .decoded 1 halfSecond, .begin 2 false, .advance 1, .decoded 2 halfSecond]

theorem nextReply_in_order :
    ∃ m t, run next {} bargeIn = some m ∧ run next m nextReply = some t ∧
      t.started.map (·.link) = [1, 2] ∧
      t.started.Pairwise (fun x y => x.start < y.start ∧ x.interval ∩ y.interval = ∅) :=
  ⟨_, _, rfl, rfl, rfl,
    (reply_audio_in_order bargeIn nextReply (Or.inr rfl) (by decide) rfl rfl).2.2.1⟩

end LhAudio

end Livehost
