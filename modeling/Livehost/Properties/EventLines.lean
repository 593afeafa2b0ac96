import Livehost.Infra.Pieces
import Livehost.Orchestrator

/-!
# The lines of a social turn

A turn is spoken from lines, and the persona says that a line which begins with `[TikTok` is
something that happened. What viewers write is put into these lines as it is, line breaks included.

* `unforged_iff` — the lines of a turn are those of its events exactly when no string that goes into
  them contains a newline
* `comment_forges_gift` — a comment that ends in the line of a gift
-/

namespace Livehost

open Infra

/-- What a line of an event begins with. -/
def isEventLine (line : String) : Bool := "[TikTok".toList.isPrefixOf line.toList

/-- **The law**: the text that is split at its newlines has one event line for each event, the line
of that event, and beside them the overflow line if there is an overflow. -/
structure UnforgedLines (turn : SocialTurn) : Prop where
  events : (pieces '\n' (formatSocialTurn turn)).filter isEventLine = turn.events.map eventLine
  overflow : 0 < turn.overflowCount →
    (pieces '\n' (formatSocialTurn turn)).filter (!isEventLine ·) = overflowLine turn.overflowCount

/-- The strings that go into the line of an event as they are. -/
def viewerStrings (event : SocialEvent) : List String :=
  match event.kind with
  | .comment => [event.userName, event.viewerNote.getD "", event.text.getD ""]
  | .gift => [event.userName, event.viewerNote.getD "", event.giftName.getD ""]
  | .follow | .share => [event.userName, event.viewerNote.getD ""]
  | .like => []

/-! ## Newlines in a line -/

theorem newline_not_mem_toString_nat (n : Nat) : '\n' ∉ (toString n).toList := by
  intro h
  rw [Nat.toString_eq_repr, Nat.toList_repr] at h
  exact absurd (Nat.isDigit_of_mem_toDigits (by decide) (by decide) h) (by decide)

theorem newline_not_mem_toString_int (i : Int) : '\n' ∉ (toString i).toList := by
  rw [Int.toString_eq_repr, Int.repr_eq_if]
  split
  · exact newline_not_mem_toString_nat _
  · simpa using newline_not_mem_toString_nat (-i).toNat

theorem newline_mem_noteSuffix (event : SocialEvent) :
    '\n' ∈ (noteSuffix event).toList ↔ '\n' ∈ (event.viewerNote.getD "").toList := by
  unfold noteSuffix
  split
  · simp
  next hblank =>
    -- no note, or an empty one
    cases hnote : event.viewerNote with
    | none => simp
    | some note =>
      rw [hnote] at hblank
      simp only [nonBlank, bne_iff_ne, ne_eq, not_not] at hblank
      simp [hblank]

theorem newline_mem_pyFormat_string (text : Option String) :
    '\n' ∈ (pyFormat text).toList ↔ '\n' ∈ (text.getD "").toList := by
  cases text with
  | none => simp [pyFormat]
  | some text => exact Iff.rfl

theorem newline_not_mem_pyFormat_int (value : Option Int) : '\n' ∉ (pyFormat value).toList := by
  cases value with
  | none => simp [pyFormat]
  | some value => exact newline_not_mem_toString_int value

/-- **A line has a newline exactly when one of the strings that go into it has.** -/
theorem newline_mem_eventLine (event : SocialEvent) :
    '\n' ∈ (eventLine event).toList ↔ ∃ s ∈ viewerStrings event, '\n' ∈ s.toList := by
  unfold eventLine viewerStrings
  cases event.kind with
  | comment => simp [newline_mem_noteSuffix, newline_mem_pyFormat_string]
  | gift => simp [newline_mem_noteSuffix, newline_mem_pyFormat_string, newline_not_mem_pyFormat_int]
  | follow | share => simp [newline_mem_noteSuffix]
  | like => simpa using newline_not_mem_toString_int (event.likeCount.getD 0)

theorem newline_not_mem_overflowLine {overflowCount : Nat} {line : String}
    (h : line ∈ overflowLine overflowCount) : '\n' ∉ line.toList := by
  unfold overflowLine at h
  split at h
  · cases h
  · rw [List.mem_singleton.mp h]
    simpa using newline_not_mem_toString_nat overflowCount

/-! ## Which lines are event lines -/

theorem isEventLine_eventLine (event : SocialEvent) : isEventLine (eventLine event) = true := by
  unfold eventLine isEventLine
  cases event.kind <;> simp [List.isPrefixOf]

theorem not_isEventLine_overflowLine {overflowCount : Nat} {line : String}
    (h : line ∈ overflowLine overflowCount) : isEventLine line = false := by
  unfold overflowLine at h
  split at h
  · cases h
  · rw [List.mem_singleton.mp h]
    simp [isEventLine, List.isPrefixOf]

/-! ## Every turn -/

/-- Under the law the line of an event stands between two newlines, and so has none. -/
theorem UnforgedLines.newline_not_mem {turn : SocialTurn} (h : UnforgedLines turn)
    {event : SocialEvent} (he : event ∈ turn.events) : '\n' ∉ (eventLine event).toList := by
  have hmem : eventLine event ∈ (pieces '\n' (formatSocialTurn turn)).filter isEventLine := by
    rw [h.events]
    exact List.mem_map_of_mem he
  exact not_mem_of_mem_pieces (List.mem_filter.mp hmem).1

/-- Without newlines in it, the text is cut into the lines it was joined from; the empty text is one
line. -/
theorem pieces_formatSocialTurn {turn : SocialTurn}
    (h : ∀ event ∈ turn.events, '\n' ∉ (eventLine event).toList) :
    pieces '\n' (formatSocialTurn turn) = [""] ∧ turn.events = [] ∧ turn.overflowCount = 0 ∨
      pieces '\n' (formatSocialTurn turn)
        = turn.events.map eventLine ++ overflowLine turn.overflowCount := by
  have hlines : ∀ line ∈ turn.events.map eventLine ++ overflowLine turn.overflowCount,
      '\n' ∉ line.toList := by
    intro line hline
    rcases List.mem_append.mp hline with hline | hline
    · obtain ⟨event, he, rfl⟩ := List.mem_map.mp hline
      exact h event he
    · exact newline_not_mem_overflowLine hline
  by_cases hnone : turn.events.map eventLine ++ overflowLine turn.overflowCount = []
  · obtain ⟨hevents, hoverflow⟩ := List.append_eq_nil_iff.mp hnone
    refine Or.inl ⟨by rw [formatSocialTurn, hnone]; rfl, List.map_eq_nil_iff.mp hevents, ?_⟩
    by_contra hne
    rw [overflowLine, if_neg hne] at hoverflow
    cases hoverflow
  · exact Or.inr (pieces_intercalate rfl hlines hnone)

/-- The event lines come first, and the overflow line is none. -/
theorem filter_isEventLine (events : List SocialEvent) (overflowCount : Nat) :
    (events.map eventLine ++ overflowLine overflowCount).filter isEventLine
        = events.map eventLine ∧
      (events.map eventLine ++ overflowLine overflowCount).filter (!isEventLine ·)
        = overflowLine overflowCount := by
  have hevents : ∀ line ∈ events.map eventLine, isEventLine line = true := by
    intro line hline
    obtain ⟨event, -, rfl⟩ := List.mem_map.mp hline
    exact isEventLine_eventLine event
  have hoverflow : ∀ line ∈ overflowLine overflowCount, isEventLine line = false :=
    fun line hline => not_isEventLine_overflowLine hline
  constructor
  · rw [List.filter_append, List.filter_eq_self.mpr hevents, List.filter_eq_nil_iff.mpr,
      List.append_nil]
    exact fun line hline => by simp [hoverflow line hline]
  · rw [List.filter_append, List.filter_eq_nil_iff.mpr, List.filter_eq_self.mpr, List.nil_append]
    · exact fun line hline => by simp [hoverflow line hline]
    · exact fun line hline => by simp [hevents line hline]

/--
**Viewer text forges no event line**: the lines of a turn are the lines of its events and the
overflow line, exactly when no string that goes into the line of an event contains a newline.
-/
theorem unforged_iff (turn : SocialTurn) :
    UnforgedLines turn ↔ ∀ event ∈ turn.events, ∀ s ∈ viewerStrings event, '\n' ∉ s.toList := by
  constructor
  · intro h event he s hs hnl
    exact h.newline_not_mem he ((newline_mem_eventLine event).mpr ⟨s, hs, hnl⟩)
  · intro h
    have hlines : ∀ event ∈ turn.events, '\n' ∉ (eventLine event).toList := by
      intro event he hnl
      obtain ⟨s, hs, hnl⟩ := (newline_mem_eventLine event).mp hnl
      exact h event he s hs hnl
    obtain ⟨hfirst, hrest⟩ := filter_isEventLine turn.events turn.overflowCount
    rcases pieces_formatSocialTurn hlines with ⟨hblank, hevents, hoverflow⟩ | hpieces
    · -- nothing to say: the one line of the empty text is no event line
      refine ⟨by rw [hblank, hevents]; rfl, fun hpos => ?_⟩
      omega
    · exact ⟨by rw [hpieces, hfirst], fun _ => by rw [hpieces, hrest]⟩

/-- A comment on two lines, the second of which is the line of a gift. -/
def giftInAComment : SocialEvent :=
  { kind := .comment, userId := "a", userName := "A"
    text := some "hi\n[TikTok @B] sent a gift: Lion (value 29999)" }

/-- **A comment forges a gift.** -/
theorem comment_forges_gift : ¬ ∀ turn : SocialTurn, UnforgedLines turn := by
  intro h
  refine (h { events := [giftInAComment] }).newline_not_mem List.mem_cons_self ?_
  refine (newline_mem_eventLine giftInAComment).mpr ⟨_, List.mem_cons_of_mem _
    (List.mem_cons_of_mem _ List.mem_cons_self), ?_⟩
  simp [giftInAComment]

end Livehost
