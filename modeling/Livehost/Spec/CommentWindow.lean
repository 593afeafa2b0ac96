import Livehost.Spec.ViewerHistory

/-!
# The window of recent comments

`_upsert` appends a non-empty comment text to the list it read back and keeps
`recent_comments[-limit:]` of it. For a limit of zero that slice is the whole list.

* `kept` — what a limit leaves of a viewer's texts
* `stored_notes` — the row of a viewer holds what the limit leaves
* `window_kept_iff` — the window is the last `limit` texts exactly for a positive limit, or where
  nobody has written anything
-/

namespace Livehost.Spec

open ViewerMemoryStore

/-- The arguments of a call of `note_and_record`, and the time it reads. -/
structure Note where
  ownerKey : String
  memoryId : String
  event : SocialEvent
  now : Rat

def Note.key (n : Note) : ViewerKey := keyOf n.ownerKey n.memoryId n.event

def Note.call (n : Note) : Call := .noteAndRecord n.ownerKey n.memoryId n.event n.now

/-- The non-empty comment text of a call. -/
def Note.text (n : Note) : Option String :=
  if n.event.kind = .comment ∧ nonBlank n.event.text then n.event.text else none

/-- The store after the calls. -/
def afterNotes (limit : Int) (notes : List Note) : ViewerMemoryStore :=
  (ViewerMemoryStore.new limit).calls (notes.map Note.call)

/-- The lookup of a call, as `_build_note` and `_upsert` get it. -/
def lookupRow (s : ViewerMemoryStore) (key : ViewerKey) : Option LookupRow :=
  (s.viewers.lookup key).map (·.lookupColumns)

/-- The call raises nothing inside its `try`. -/
def Recorded (s : ViewerMemoryStore) (n : Note) : Prop :=
  ∃ note s', buildNote (lookupRow s n.key) = .ok note ∧
    s.upsert n.key n.event (lookupRow s n.key) n.now = .ok s'

/-- No call meets a storage failure. -/
def AllRecorded (limit : Int) (notes : List Note) : Prop :=
  ∀ pre n post, notes = pre ++ n :: post → Recorded (afterNotes limit pre) n

/-- The non-empty comment texts of a viewer, oldest first. -/
def textsBy (key : ViewerKey) (notes : List Note) : List String :=
  notes.filterMap fun n => if n.key = key then n.text else none

/-- The row of a viewer holds these texts; a viewer without a row has none. -/
def StoredTexts (s : ViewerMemoryStore) (key : ViewerKey) (texts : List String) : Prop :=
  match s.viewers.lookup key with
  | none => texts = []
  | some row => ∃ comments, row.recentComments = .dumped comments ∧ comments.map (·.text) = texts

/-- **The law**: after every call, every viewer's row holds the last `min limit k` of the viewer's
`k` texts. -/
def WindowKept (limit : Nat) (notes : List Note) : Prop :=
  ∀ pre post, notes = pre ++ post → ∀ key, StoredTexts (afterNotes limit pre) key
    ((textsBy key pre).rtake (min limit (textsBy key pre).length))

/-! ## One call -/

/-- What a limit leaves of the texts. -/
def kept (limit : Nat) (texts : List String) : List String :=
  if limit = 0 then texts else texts.rtake limit

theorem kept_concat (limit : Nat) (texts : List String) (text : String) :
    pyDrop (-(limit : Int)) (kept limit texts ++ [text]) = kept limit (texts ++ [text]) := by
  cases limit with
  | zero => simp [kept, pyDrop]
  | succ n => simpa [kept] using (pyDrop_neg n _).trans (rtake_slide n texts text)

theorem map_pyDrop {α β : Type*} (f : α → β) (k : Int) (xs : List α) :
    (pyDrop k xs).map f = pyDrop k (xs.map f) := by
  unfold pyDrop
  split <;> simp [List.map_drop]

theorem textsBy_concat (key : ViewerKey) (notes : List Note) (n : Note) :
    textsBy key (notes ++ [n])
      = textsBy key notes ++ (if n.key = key then n.text else none).toList := by
  simp only [textsBy, List.filterMap_append, List.filterMap_cons, List.filterMap_nil]
  cases (if n.key = key then n.text else none) <;> rfl

theorem afterNotes_concat (limit : Int) (notes : List Note) (n : Note) :
    afterNotes limit (notes ++ [n]) = (afterNotes limit notes).call n.call := by
  simp [afterNotes, calls_concat]

/-- `_upsert` reads back the texts it stored. -/
theorem StoredTexts.read {s : ViewerMemoryStore} {key : ViewerKey} {texts : List String}
    {cols : Columns} (h : StoredTexts s key texts)
    (hcols : Columns.ofRow (lookupRow s key) = .ok cols) :
    cols.recentComments.map (·.text) = texts := by
  unfold StoredTexts at h
  unfold lookupRow at hcols
  cases hrow : s.viewers.lookup key with
  | none =>
    rw [hrow] at h hcols
    cases hcols
    exact h.symm
  | some row =>
    rw [hrow] at h hcols
    obtain ⟨comments, hdumped, htexts⟩ := h
    rw [Option.map_some, ViewerRow.lookupColumns, hdumped] at hcols
    cases hcols
    exact htexts

/-- The list an event leaves in the columns. -/
theorem record_texts (limit : Nat) (cols : Columns) (n : Note) {texts : List String}
    (h : cols.recentComments.map (·.text) = kept limit texts) :
    (cols.record limit n.event n.now).recentComments.map (·.text)
      = kept limit (texts ++ n.text.toList) := by
  cases hk : n.event.kind with
  | comment =>
    cases hb : nonBlank n.event.text with
    | false =>
      have hnone : n.text = none := if_neg fun hc => by simp [hb] at hc
      simpa [Columns.record, hk, hb, hnone] using h
    | true =>
      obtain ⟨text, htext⟩ : ∃ text, n.event.text = some text := by
        cases ht : n.event.text with
        | none => simp [ht, nonBlank] at hb
        | some text => exact ⟨text, rfl⟩
      have hsome : n.text = some text := (if_pos ⟨hk, hb⟩).trans htext
      have hslide := kept_concat limit texts text
      rw [← h] at hslide
      rw [htext] at hb
      simpa [Columns.record, hk, hb, htext, hsome, map_pyDrop] using hslide
  | _ =>
    have hnone : n.text = none := if_neg fun hc => by simp [hk] at hc
    simpa [Columns.record, hk, hnone] using h

/-- A call that is recorded writes the columns it read, with the event recorded in them. -/
theorem Recorded.call {s : ViewerMemoryStore} {n : Note} (h : Recorded s n) :
    ∃ cols, Columns.ofRow (lookupRow s n.key) = .ok cols ∧
      s.call n.call
        = s.write n.key n.event (cols.record s.recentCommentsLimit n.event n.now) n.now := by
  obtain ⟨note, s', hnote, hup⟩ := h
  have hcall : s.call n.call = s' := congrArg Prod.snd (noteAndRecord_ok hnote hup)
  unfold ViewerMemoryStore.upsert at hup
  cases hcols : Columns.ofRow (lookupRow s n.key) with
  | error e => simp [hcols, bind, Except.bind] at hup
  | ok cols =>
    rw [hcols] at hup
    refine ⟨cols, rfl, hcall.trans ?_⟩
    simp only [bind, Except.bind, pure, Except.pure] at hup
    split at hup
    · exact (Except.ok.inj hup).symm
    · cases hup

theorem storedTexts_write {s : ViewerMemoryStore} {key : ViewerKey} {event : SocialEvent}
    {cols : Columns} {now : Rat} {texts : List String}
    (h : cols.recentComments.map (·.text) = texts) :
    StoredTexts (s.write key event cols now) key texts := by
  unfold StoredTexts write
  rw [AList.lookup_insert]
  exact ⟨_, rfl, h⟩

theorem storedTexts_write_of_ne {s : ViewerMemoryStore} {k key : ViewerKey} {event : SocialEvent}
    {cols : Columns} {now : Rat} {texts : List String} (hk : k ≠ key)
    (h : StoredTexts s k texts) : StoredTexts (s.write key event cols now) k texts := by
  unfold StoredTexts at h ⊢
  rwa [(lookup_write s key event cols now).1 k hk]

/-! ## Sequences of calls -/

/-- The store holds what the limit leaves of every viewer's texts. -/
structure Windows (limit : Nat) (s : ViewerMemoryStore) (notes : List Note) : Prop where
  size : s.recentCommentsLimit = limit
  texts : ∀ key, StoredTexts s key (kept limit (textsBy key notes))

theorem Windows.call {limit : Nat} {s : ViewerMemoryStore} {notes : List Note}
    (h : Windows limit s notes) {n : Note} (hn : Recorded s n) :
    Windows limit (s.call n.call) (notes ++ [n]) := by
  obtain ⟨cols, hcols, hcall⟩ := hn.call
  rw [hcall]
  refine ⟨h.size, fun key => ?_⟩
  rw [textsBy_concat]
  by_cases hk : n.key = key
  · subst hk
    rw [if_pos rfl, h.size]
    exact storedTexts_write (record_texts limit cols n ((h.texts n.key).read hcols))
  · rw [if_neg hk, Option.toList_none, List.append_nil]
    exact storedTexts_write_of_ne (Ne.symm hk) (h.texts key)

theorem AllRecorded.left {limit : Int} {notes post : List Note}
    (h : AllRecorded limit (notes ++ post)) : AllRecorded limit notes := by
  rintro pre n rest rfl
  exact h pre n (rest ++ post) (by simp)

/-- **After every call the row of every viewer holds what the limit leaves.** -/
theorem stored_notes {limit : Nat} {notes : List Note} (h : AllRecorded limit notes) :
    Windows limit (afterNotes limit notes) notes := by
  induction notes using List.reverseRecOn with
  | nil =>
    refine ⟨rfl, fun key => ?_⟩
    cases limit with
    | zero => rfl
    | succ n => exact List.rtake_nil _
  | append_singleton notes n ih =>
    rw [afterNotes_concat]
    exact (ih h.left).call (h notes n [] rfl)

theorem StoredTexts.unique {s : ViewerMemoryStore} {key : ViewerKey} {texts texts' : List String}
    (h : StoredTexts s key texts) (h' : StoredTexts s key texts') : texts = texts' := by
  unfold StoredTexts at h h'
  cases hrow : s.viewers.lookup key with
  | none =>
    rw [hrow] at h h'
    exact h.trans h'.symm
  | some row =>
    rw [hrow] at h h'
    obtain ⟨comments, hdumped, htexts⟩ := h
    obtain ⟨comments', hdumped', htexts'⟩ := h'
    have hc : comments = comments' := RecentJson.dumped.inj (hdumped.symm.trans hdumped')
    rw [← htexts, ← htexts', hc]

/-- The last `min limit k` of `k` items are the last `limit`. -/
theorem rtake_min {α : Type*} (limit : Nat) (xs : List α) :
    xs.rtake (min limit xs.length) = xs.rtake limit := by
  unfold List.rtake
  congr 1
  omega

/--
**The window is bounded exactly by a positive limit.** Along every sequence of calls that meets no
storage failure, every viewer's row holds the last `min limit k` of the viewer's `k` texts after
every call if and only if the limit is not zero or nobody has written a text.
-/
theorem window_kept_iff (limit : Nat) (notes : List Note) (hok : AllRecorded limit notes) :
    WindowKept limit notes ↔ limit ≠ 0 ∨ ∀ key, textsBy key notes = [] := by
  constructor
  · intro hkept
    by_cases hl : limit = 0
    · refine Or.inr fun key => ?_
      subst hl
      have hstored : StoredTexts _ key (textsBy key notes) := (stored_notes hok).texts key
      have hwindow := hkept notes [] (List.append_nil _).symm key
      rw [rtake_min] at hwindow
      exact (hstored.unique hwindow).trans (by simp)
    · exact Or.inl hl
  · rintro hcond pre post rfl key
    have hstored := (stored_notes hok.left).texts key
    rw [rtake_min]
    rcases hcond with hl | hnone
    · rwa [kept, if_neg hl] at hstored
    · have hpre : textsBy key pre = [] := by
        have happ := hnone key
        rw [textsBy, List.filterMap_append] at happ
        exact (List.append_eq_nil_iff.mp happ).1
      simpa [hpre, kept] using hstored

/-- Bao says hi, and a second later says it again. -/
def baoSaysHi : List Note := [⟨"owner", "mem", hi, 0⟩, ⟨"owner", "mem", hi, 1⟩]

theorem baoSaysHi_recorded (limit : Nat) : AllRecorded limit baoSaysHi := by
  intro pre n post he
  match pre, he with
  | [], he =>
    cases he
    exact ⟨none, _, rfl, rfl⟩
  | [_], he =>
    cases he
    exact ⟨_, _, rfl, rfl⟩
  | _ :: _ :: _, he => simp [baoSaysHi] at he

/-- A limit of one keeps the second comment. -/
theorem baoSaysHi_window : WindowKept 1 baoSaysHi :=
  (window_kept_iff 1 baoSaysHi (baoSaysHi_recorded 1)).mpr (Or.inl one_ne_zero)

/-- A limit of zero keeps both. -/
theorem zero_limit_keeps_comments : AllRecorded 0 baoSaysHi ∧ ¬ WindowKept 0 baoSaysHi := by
  refine ⟨baoSaysHi_recorded 0, fun hkept => ?_⟩
  have hwindow := hkept baoSaysHi [] rfl (keyOf "owner" "mem" hi)
  have hstored := (stored_notes (baoSaysHi_recorded 0)).texts (keyOf "owner" "mem" hi)
  exact absurd (hstored.unique hwindow) (by decide)

end Livehost.Spec
