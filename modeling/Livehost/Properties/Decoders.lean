import Livehost.Static.Downlink
import Livehost.Infra.Objects

/-!
# The decoders of the page

A decoder is opened where a packet finds none, and closed before the next one is opened, so
`lh.opusDec` is the only one that can be open. Each counts its packets' time from zero.

* `Fed` — only `lh.opusDec` is open, and what it is to put out came since the last stop
* `lhFeedOpus_eq` — a packet goes to an open decoder
* `Stamped` — the time stamps of each decoder's packets
-/

namespace Livehost

open Infra

namespace LhDownlink

variable {p : Nat} {s s' : LhDownlink}

/-! ## Decoders -/

/-- A packet whose output is still to come. -/
def Pending (s : LhDownlink) (k : Nat) : Prop := ∃ dec ∈ s.decoders, k ∈ dec.pending

/-- The decoder is there and not closed. -/
def Open (s : LhDownlink) (d : Nat) : Prop := ∃ dec, s.decoders[d]? = some dec ∧ dec.closed = false

/-- The packets since a stop are those from the `p`-th on: only they are still to be put out, and
only by `lh.opusDec`. -/
structure Fed (p : Nat) (s : LhDownlink) : Prop where
  base : p ≤ s.packets.length
  opened : ∀ d, s.Open d → s.opusDec = some d
  closed : ∀ dec ∈ s.decoders, dec.closed = true → dec.pending = []
  pending : ∀ k, s.Pending k → p ≤ k ∧ k < s.packets.length
  opusDec : ∀ d, s.opusDec = some d → d < s.decoders.length

/-- A decoder behind a write through a reference. -/
theorem mem_modify {f : OpusDecoder → OpusDecoder} {decs : List OpusDecoder} {d : Nat}
    {dec : OpusDecoder} (h : dec ∈ decs.modify d f) : dec ∈ decs ∨ ∃ dec₀ ∈ decs, dec = f dec₀ := by
  obtain ⟨e, he⟩ := List.mem_iff_getElem?.mp h
  obtain ⟨dec₀, hdec₀, rfl⟩ := getElem?_modify_iff.mp he
  have hmem := List.mem_of_getElem? hdec₀
  split
  · exact Or.inr ⟨dec₀, hmem, rfl⟩
  · exact Or.inl hmem

theorem closeDecoder_pending {d k : Nat} (h : (s.closeDecoder d).Pending k) : s.Pending k := by
  obtain ⟨dec, hdec, hk⟩ := h
  rcases mem_modify hdec with hdec | ⟨dec₀, -, rfl⟩
  · exact ⟨dec, hdec, hk⟩
  · cases hk

theorem closeDecoder_open {d e : Nat} (h : (s.closeDecoder d).Open e) : e ≠ d ∧ s.Open e := by
  obtain ⟨dec, hdec, hopen⟩ := h
  obtain ⟨dec₀, hdec₀, rfl⟩ := getElem?_modify_iff.mp hdec
  split at hopen
  · cases hopen
  next hne => exact ⟨Ne.symm hne, dec₀, hdec₀, hopen⟩

theorem Fed.closeDecoder (h : Fed p s) (d : Nat) : Fed p (s.closeDecoder d) where
  base := h.base
  opened e he := h.opened e (closeDecoder_open he).2
  closed dec hdec hclosed := by
    rcases mem_modify hdec with hdec | ⟨dec₀, -, rfl⟩
    · exact h.closed dec hdec hclosed
    · rfl
  pending k hk := h.pending k (closeDecoder_pending hk)
  opusDec e he := by
    rw [LhDownlink.closeDecoder, List.length_modify]
    exact h.opusDec e he

/-- **No decoder is left open.** -/
theorem Fed.closeOpusDec (h : Fed p s) :
    Fed p s.closeOpusDec ∧ (∀ d, ¬s.closeOpusDec.Open d) ∧
      ∀ k, s.closeOpusDec.Pending k → s.Pending k := by
  unfold LhDownlink.closeOpusDec
  split
  next d hd =>
    refine ⟨h.closeDecoder d, fun e he => ?_, fun k => closeDecoder_pending⟩
    obtain ⟨hne, he⟩ := closeDecoder_open he
    have he := h.opened e he
    rw [hd] at he
    exact hne (Option.some.inj he).symm
  next hd =>
    refine ⟨h, fun e he => ?_, fun k => id⟩
    have he := h.opened e he
    rw [hd] at he
    cases he

/-- What is pending is pending in an open decoder. -/
theorem Fed.not_pending (h : Fed p s) (hopen : ∀ d, ¬s.Open d) (k : Nat) : ¬s.Pending k := by
  rintro ⟨dec, hdec, hk⟩
  obtain ⟨d, hd⟩ := List.mem_iff_getElem?.mp hdec
  have hclosed : dec.closed = true := by
    by_contra hne
    exact hopen d ⟨dec, hd, Bool.eq_false_iff.mpr hne⟩
  rw [h.closed dec hdec hclosed] at hk
  cases hk

theorem Fed.lhResetOpus (h : Fed p s) : Fed p s.lhResetOpus ∧ ∀ k, ¬s.lhResetOpus.Pending k := by
  obtain ⟨hfed, hopen, -⟩ := h.closeOpusDec
  have hnone : ∀ d, s.lhResetOpus.opusDec = some d → d < s.lhResetOpus.decoders.length := nofun
  exact ⟨⟨hfed.base, fun d hd => absurd hd (hopen d), hfed.closed, hfed.pending, hnone⟩,
    hfed.not_pending hopen⟩

theorem Fed.lhInitOpusDecoder (h : Fed p s) :
    Fed p s.lhInitOpusDecoder ∧ ∀ k, ¬s.lhInitOpusDecoder.Pending k := by
  obtain ⟨hfed, hopen, -⟩ := h.closeOpusDec
  have hnew : ∀ d dec, s.lhInitOpusDecoder.decoders[d]? = some dec →
      (d = s.closeOpusDec.decoders.length ∧ dec = { sampleRate := s.closeOpusDec.outRate }) ∨
        s.closeOpusDec.decoders[d]? = some dec := fun d dec => getElem?_concat_iff.mp
  have hpending : ∀ k, ¬s.lhInitOpusDecoder.Pending k := by
    rintro k ⟨dec, hdec, hk⟩
    obtain ⟨d, hd⟩ := List.mem_iff_getElem?.mp hdec
    rcases hnew d dec hd with ⟨-, rfl⟩ | hd
    · cases hk
    · exact hfed.not_pending hopen k ⟨dec, List.mem_of_getElem? hd, hk⟩
  refine ⟨⟨hfed.base, ?_, ?_, fun k hk => absurd hk (hpending k), ?_⟩, hpending⟩
  · rintro d ⟨dec, hdec, hclosed⟩
    rcases hnew d dec hdec with ⟨rfl, -⟩ | hdec
    · rfl
    · exact absurd ⟨dec, hdec, hclosed⟩ (hopen d)
  · intro dec hdec hclosed
    obtain ⟨d, hd⟩ := List.mem_iff_getElem?.mp hdec
    rcases hnew d dec hd with ⟨-, rfl⟩ | hd
    · rfl
    · exact hfed.closed dec (List.mem_of_getElem? hd) hclosed
  · intro d hd
    cases hd
    simp [LhDownlink.lhInitOpusDecoder]

/-- `lhFeedOpus` decodes with `lh.opusDec`, which is open. -/
theorem lhFeedOpus_eq (s : LhDownlink) : ∃ t d, (t = s ∨ t = s.lhInitOpusDecoder) ∧
    t.opusDec = some d ∧ t.Open d ∧ s.lhFeedOpus = t.decodeOpus d := by
  unfold LhDownlink.lhFeedOpus
  dsimp only
  cases hhas : s.hasDecoder with
  | true =>
    rw [if_pos rfl]
    unfold hasDecoder at hhas
    cases hd : s.opusDec with
    | none => simp [hd] at hhas
    | some d =>
      cases hdec : s.decoders[d]? with
      | none => simp [hd, hdec] at hhas
      | some dec => exact ⟨s, d, Or.inl rfl, hd, ⟨dec, hdec, by simpa [hd, hdec] using hhas⟩, rfl⟩
  | false =>
    rw [if_neg (by decide)]
    refine ⟨_, _, Or.inr rfl, rfl, ⟨_, List.getElem?_concat_length, rfl⟩, rfl⟩

theorem decodeOpus_pending {d k : Nat} (h : (s.decodeOpus d).Pending k) :
    s.Pending k ∨ k = s.packets.length := by
  obtain ⟨dec, hdec, hk⟩ := h
  rcases mem_modify hdec with hdec | ⟨dec₀, hdec₀, rfl⟩
  · exact Or.inl ⟨dec, hdec, hk⟩
  · rcases List.mem_append.mp hk with hk | hk
    · exact Or.inl ⟨dec₀, hdec₀, hk⟩
    · exact Or.inr (List.mem_singleton.mp hk)

theorem Fed.decodeOpus (h : Fed p s) {d : Nat} (hopen : s.Open d) : Fed p (s.decodeOpus d) := by
  have hlength : (s.decodeOpus d).packets.length = s.packets.length + 1 := by
    simp [LhDownlink.decodeOpus]
  have hbase := h.base
  refine ⟨by omega, ?_, ?_, ?_, ?_⟩
  · rintro e ⟨dec, hdec, hclosed⟩
    obtain ⟨dec₀, hdec₀, rfl⟩ := getElem?_modify_iff.mp hdec
    refine h.opened e ⟨dec₀, hdec₀, ?_⟩
    split at hclosed <;> exact hclosed
  · intro dec hdec hclosed
    obtain ⟨e, he⟩ := List.mem_iff_getElem?.mp hdec
    obtain ⟨dec₀, hdec₀, rfl⟩ := getElem?_modify_iff.mp he
    split
    next hde =>
      -- the one that is fed is open
      obtain ⟨dec', hdec', hopen⟩ := hopen
      rw [hde] at hdec'
      cases hdec₀.symm.trans hdec'
      rw [if_pos hde] at hclosed
      exact absurd (hclosed.symm.trans hopen) (by decide)
    next hde =>
      rw [if_neg hde] at hclosed
      exact h.closed dec₀ (List.mem_of_getElem? hdec₀) hclosed
  · intro k hk
    rcases decodeOpus_pending hk with hk | rfl
    · obtain ⟨hle, hlt⟩ := h.pending k hk
      omega
    · omega
  · intro e he
    simp only [LhDownlink.decodeOpus, List.length_modify]
    exact h.opusDec e he

theorem Fed.lhFeedOpus (h : Fed p s) : Fed p s.lhFeedOpus := by
  obtain ⟨t, d, ht, -, hopen, heq⟩ := lhFeedOpus_eq s
  rw [heq]
  rcases ht with rfl | rfl
  · exact h.decodeOpus hopen
  · exact h.lhInitOpusDecoder.1.decodeOpus hopen

/-- What is still to come behind an output comes behind its packet. -/
theorem takeOutput_pending {d k l : Nat} (h : Fed p s) {dec : OpusDecoder}
    (hdec : s.decoders[d]? = some dec) (hk : k ∈ dec.pending)
    (hl : (s.takeOutput d k).Pending l) : s.Pending l ∧ k < l := by
  have hopen : ∀ {e dec}, s.decoders[e]? = some dec → ∀ {m}, m ∈ dec.pending →
      s.opusDec = some e := fun he _ hm => h.opened _ ⟨_, he, by
    by_contra hne
    rw [h.closed _ (List.mem_of_getElem? he) (Bool.not_eq_false _ ▸ hne)] at hm
    cases hm⟩
  obtain ⟨dec', hdec', hl⟩ := hl
  obtain ⟨e, he⟩ := List.mem_iff_getElem?.mp hdec'
  obtain ⟨dec₀, hdec₀, rfl⟩ := getElem?_modify_iff.mp he
  split at hl
  · obtain ⟨hl, hlt⟩ := List.mem_filter.mp hl
    exact ⟨⟨dec₀, List.mem_of_getElem? hdec₀, hl⟩, by simpa using hlt⟩
  next hne =>
    -- another decoder would be open
    have he := hopen hdec₀ hl
    rw [hopen hdec hk] at he
    exact absurd (Option.some.inj he) hne

theorem Fed.takeOutput (h : Fed p s) {d k : Nat} {dec : OpusDecoder}
    (hdec : s.decoders[d]? = some dec) (hk : k ∈ dec.pending) : Fed p (s.takeOutput d k) where
  base := h.base
  opened e := by
    rintro ⟨dec', hdec', hclosed⟩
    obtain ⟨dec₀, hdec₀, rfl⟩ := getElem?_modify_iff.mp hdec'
    refine h.opened e ⟨dec₀, hdec₀, ?_⟩
    split at hclosed <;> exact hclosed
  closed dec' hdec' hclosed := by
    rcases mem_modify hdec' with hdec' | ⟨dec₀, hdec₀, rfl⟩
    · exact h.closed dec' hdec' hclosed
    · simp [h.closed dec₀ hdec₀ hclosed]
  pending l hl := h.pending l (takeOutput_pending h hdec hk hl).1
  opusDec e he := by
    simp only [LhDownlink.takeOutput, List.length_modify]
    exact h.opusDec e he

/-! ## Time stamps -/

/-- The time stamps of a decoder's packets. -/
def stamps (s : LhDownlink) (d : Nat) : List Nat :=
  (s.packets.filter (·.decoder = d)).map (·.timestamp)

/-- Sixty milliseconds apart, from zero. -/
structure Stamped (s : LhDownlink) : Prop where
  stamps : ∀ d, s.stamps d = (List.range (s.stamps d).length).map (60000 * ·)
  opusTs : ∀ d, s.opusDec = some d → s.opusTs = 60000 * (s.stamps d).length
  made : ∀ pkt ∈ s.packets, pkt.decoder < s.decoders.length

theorem Stamped.congr (h : Stamped s) (hpackets : s'.packets = s.packets)
    (hlength : s'.decoders.length = s.decoders.length)
    (hopusTs : ∀ d, s'.opusDec = some d → s.opusDec = some d ∧ s'.opusTs = s.opusTs) :
    Stamped s' := by
  have hstamps : ∀ d, s'.stamps d = s.stamps d := fun d => by
    rw [LhDownlink.stamps, LhDownlink.stamps, hpackets]
  refine ⟨fun d => ?_, fun d hd => ?_, fun pkt hpkt => ?_⟩
  · rw [hstamps]
    exact h.stamps d
  · rw [hstamps, (hopusTs d hd).2]
    exact h.opusTs d (hopusTs d hd).1
  · rw [hlength]
    exact h.made pkt (hpackets ▸ hpkt)

theorem Stamped.closeOpusDec (h : Stamped s) : Stamped s.closeOpusDec := by
  unfold LhDownlink.closeOpusDec
  split
  · exact h.congr rfl (List.length_modify ..) fun d hd => ⟨hd, rfl⟩
  · exact h

theorem Stamped.lhResetOpus (h : Stamped s) : Stamped s.lhResetOpus :=
  h.closeOpusDec.congr rfl rfl fun d hd => by cases hd

theorem Stamped.lhInitOpusDecoder (h : Stamped s) : Stamped s.lhInitOpusDecoder := by
  have h := h.closeOpusDec
  refine ⟨h.stamps, fun d hd => ?_, fun pkt hpkt => ?_⟩
  · cases hd
    -- no packet was for it
    have hnone : s.closeOpusDec.stamps s.closeOpusDec.decoders.length = [] := by
      rw [LhDownlink.stamps, List.filter_eq_nil_iff.mpr, List.map_nil]
      intro pkt hpkt
      simpa using (h.made pkt hpkt).ne
    exact (congrArg (fun l => 60000 * l.length) hnone).symm
  · have hlt := h.made pkt hpkt
    simp only [LhDownlink.lhInitOpusDecoder, List.length_append, List.length_singleton]
    omega

theorem Stamped.decodeOpus (h : Stamped s) {d : Nat} (hd : s.opusDec = some d) (hopen : s.Open d) :
    Stamped (s.decodeOpus d) := by
  have hstamps : ∀ e, (s.decodeOpus d).stamps e =
      s.stamps e ++ if d = e then [60000 * (s.stamps e).length] else [] := fun e => by
    by_cases hde : d = e
    · subst hde
      simp [LhDownlink.decodeOpus, LhDownlink.stamps, h.opusTs d hd]
    · simp [LhDownlink.decodeOpus, LhDownlink.stamps, hde]
  refine ⟨fun e => ?_, fun e he => ?_, fun pkt hpkt => ?_⟩
  · rw [hstamps]
    have hold := h.stamps e
    split
    · rw [List.length_append, List.length_singleton, List.range_succ, List.map_append, ← hold]
      rfl
    · simpa using hold
  · cases hd.symm.trans he
    rw [hstamps, if_pos rfl, List.length_append, List.length_singleton, Nat.mul_succ]
    exact congrArg (· + 60000) (h.opusTs d hd)
  · simp only [LhDownlink.decodeOpus, List.length_modify]
    rcases List.mem_append.mp hpkt with hpkt | hpkt
    · exact h.made pkt hpkt
    · cases List.mem_singleton.mp hpkt
      obtain ⟨dec, hdec, -⟩ := hopen
      exact (List.getElem?_eq_some_iff.mp hdec).1

theorem Stamped.lhFeedOpus (h : Stamped s) : Stamped s.lhFeedOpus := by
  obtain ⟨t, d, ht, hd, hopen, heq⟩ := lhFeedOpus_eq s
  rw [heq]
  rcases ht with rfl | rfl
  · exact h.decodeOpus hd hopen
  · exact h.lhInitOpusDecoder.decodeOpus hd hopen

theorem next_audio {a : AudioAct} (hs : s.next (.audio a) = some s') :
    a ≠ .lhEnqueueAudioBytes ∧ a ≠ .lhStopAudio ∧
      ∃ audio, s.audio.next a = some audio ∧ s' = { s with audio } := by
  cases a with
  | lhEnqueueAudioBytes | lhStopAudio => cases hs
  | _ =>
    obtain ⟨audio, haudio, hs⟩ := Option.bind_eq_some_iff.mp hs
    cases hs
    exact ⟨nofun, nofun, audio, haudio, rfl⟩

theorem Stamped.next {a : DownlinkAct} (h : Stamped s) (hs : s.next a = some s') : Stamped s' := by
  have hsame : ∀ {t : LhDownlink}, t.packets = s.packets → t.decoders.length = s.decoders.length →
      t.opusDec = s.opusDec → t.opusTs = s.opusTs → Stamped t :=
    fun hpackets hlength hopusDec hopusTs =>
      h.congr hpackets hlength fun d hd => ⟨hopusDec ▸ hd, hopusTs⟩
  have hstop : Stamped s.lhStopAudio := h.lhResetOpus.congr rfl rfl fun d hd => by cases hd
  cases a with
  | startLhSession | stop =>
    cases hs
    exact hstop.congr rfl rfl fun d hd => by cases hd
  | opusMode on =>
    cases hs
    refine Stamped.lhResetOpus ?_
    cases on
    · exact h
    · exact hsame rfl rfl rfl rfl
  | message m =>
    cases hs
    cases m with
    | sessionStarted rate => exact hsame rfl rfl rfl rfl
    | audioStart codec rate =>
      simp only [onMessage]
      split <;> exact hsame rfl rfl rfl rfl
    | aborted => exact hstop
  | frame =>
    cases hs
    unfold onFrame
    split
    · exact h.lhFeedOpus
    · exact hsame rfl rfl rfl rfl
  | audio a =>
    obtain ⟨-, -, audio, -, rfl⟩ := next_audio hs
    exact hsame rfl rfl rfl rfl
  | output d k buffer =>
    obtain ⟨dec, hdec, hs⟩ := Option.bind_eq_some_iff.mp hs
    rw [Option.ite_none_right_eq_some] at hs
    obtain ⟨hk, hs⟩ := hs
    cases buffer <;> cases hs <;> exact hsame rfl (List.length_modify ..) rfl rfl
  | error d =>
    obtain ⟨dec, hdec, hs⟩ := Option.bind_eq_some_iff.mp hs
    split at hs
    · cases hs
    · cases hs
      exact hsame rfl (List.length_modify ..) rfl rfl

end LhDownlink

end Livehost
