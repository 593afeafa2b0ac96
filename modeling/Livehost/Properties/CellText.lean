import Livehost.MemoryFile
import Livehost.Properties.Frames
import Livehost.Spec.CommentWindow

/-!
# The viewer memory through its cells

The file keeps the recent comments as text, and `Livehost/Memory.lean` as a list. What `json.dumps`
wrote is read as what it was, whatever the viewers write; and a cell that the note cannot be read
off is one that nothing is ever written over.

* `Stored` — the file holds the rows of the memory, in this form
* `file_refines` — every sequence of calls returns the same of both
-/

namespace Livehost

open Infra

variable {F : Type} [PyJson F]

/-! ## Cells -/

/-- The dictionaries of some comments. -/
def commentValues (items : List (String × F)) : Json F :=
  .arr (items.map fun c => commentValue c.1 c.2)

/-- No note can be read off the cell: it is not JSON, or none that `_build_note` gets through. A
cell that spells a lone surrogate is not one of them. -/
def Unusable (F : Type) [PyJson F] (text : String) : Prop :=
  spellsLone F text = false ∧
    ∀ recentComments : Json F, loadsCell text = .ok recentComments →
      ∃ e, ViewerFile.lastSaid recentComments = .error e

/-- The cell is what `json.dumps` wrote of the comments, or unusable. -/
def CellHolds (F : Type) [PyJson F] (text : String) : RecentJson → Prop
  | .dumped comments => ∃ items : List (String × F), text = jsonDumps (commentValues items) ∧
      comments = items.map fun c => ⟨c.1, PyJson.value c.2⟩
  | .corrupt => Unusable F text

omit [PyJson F] in
theorem commentValues_proper (items : List (String × F)) :
    (commentValues items).Proper true := by
  show ProperItems true (items.map fun c => commentValue c.1 c.2)
  induction items with
  | nil => trivial
  | cons c items ih => exact ⟨⟨(by decide : ["text", "ts"].Nodup), trivial, trivial, trivial⟩, ih⟩

theorem loadsCell_dumps (items : List (String × F)) :
    loadsCell (jsonDumps (commentValues items)) = .ok (commentValues items) := by
  rw [loadsCell, jsonLoadsText_jsonDumps (commentValues_proper items)]

/-- The note quotes the last comment. -/
theorem lastSaid_comments (items : List (String × F)) :
    ViewerFile.lastSaid (commentValues items) = .ok
      (match items.getLast? with
      | some last => ["lần trước nói: \"" ++ quoted last.1 ++ "\""]
      | none => []) := by
  unfold ViewerFile.lastSaid commentValues
  cases items using List.reverseRecOn with
  | nil => rfl
  | append_singleton items c =>
    have htruthy : truthy (.arr ((items ++ [c]).map fun c => commentValue c.1 c.2) : Json F)
        = true := by simp [truthy]
    rw [if_pos htruthy, List.getLast?_concat, lastOf, List.getLast?_map, List.getLast?_concat]
    rfl

/-! ## Rows -/

/-- The row of the file is that of the memory. -/
structure RowHolds (r : FileRow F) (row : ViewerRow) : Prop where
  userName : r.userName = row.userName
  commentCount : r.commentCount = row.commentCount
  liked : r.liked = row.liked
  shared : r.shared = row.shared
  followed : r.followed = row.followed
  giftCount : r.giftCount = row.giftCount
  giftValueTotal : r.giftValueTotal = row.giftValueTotal
  recentComments : CellHolds F r.recentComments row.recentComments
  firstSeen : PyJson.value r.firstSeen = row.firstSeen
  lastSeen : PyJson.value r.lastSeen = row.lastSeen

/-- The file holds the rows of the memory. -/
structure Stored (t : ViewerFile F) (s : ViewerMemoryStore) : Prop where
  limit : t.recentCommentsLimit = s.recentCommentsLimit
  viewers : InStep RowHolds t.viewers s.viewers

/-- The columns in `_upsert`, as values. -/
structure ColumnsHold (c : CellColumns F) (cols : Columns) : Prop where
  integers : c.integers = cols.integers
  recentComments : ∃ items : List (String × F), c.recentComments = commentValues items ∧
    cols.recentComments = items.map fun c => ⟨c.1, PyJson.value c.2⟩

/-- The cell of the row is one that `json.dumps` wrote. -/
def Written (row : ViewerRow) : Prop := row.recentComments ≠ .corrupt

variable {r : FileRow F} {row : ViewerRow}

theorem buildNote_unusable (h : RowHolds r row) (hcorrupt : row.recentComments = .corrupt) :
    (∃ e, ViewerFile.buildNote F (some r.lookupColumns) = .error e) ∧
      ∃ e, buildNote (some row.lookupColumns) = .error e := by
  have hcell := h.recentComments
  rw [hcorrupt] at hcell
  refine ⟨?_, .jsonDecode, ?_⟩
  · simp only [FileRow.lookupColumns, ViewerFile.buildNote]
    cases hload : (loadsCell r.recentComments : Except CellException (Json F)) with
    | error e => exact ⟨e, rfl⟩
    | ok recentComments =>
      obtain ⟨e, hsaid⟩ := hcell.2 recentComments hload
      refine ⟨e, ?_⟩
      simp only [bind, Except.bind, hsaid]
  · simp only [ViewerRow.lookupColumns, buildNote, hcorrupt]
    rfl

theorem buildNote_agree (h : RowHolds r row) (hwritten : Written row) :
    Agree (· = ·) (ViewerFile.buildNote F (some r.lookupColumns))
      (buildNote (some row.lookupColumns)) := by
  have hcell := h.recentComments
  cases hrecent : row.recentComments with
  | corrupt => exact absurd hrecent hwritten
  | dumped comments =>
    rw [hrecent] at hcell
    obtain ⟨items, htext, rfl⟩ := hcell
    simp only [FileRow.lookupColumns, ViewerRow.lookupColumns, ViewerFile.buildNote, buildNote,
      hrecent, htext, loadsCell_dumps, jsonLoads, bind, Except.bind, pure, Except.pure,
      lastSaid_comments, List.getLast?_map, h.commentCount, h.liked, h.shared, h.followed,
      h.giftValueTotal]
    cases items.getLast? with
    | none => simp [Agree]
    | some last => rfl

theorem columnsHold_new : ColumnsHold ({} : CellColumns F) {} := ⟨rfl, [], rfl, rfl⟩

theorem ofRow_agree (h : RowHolds r row) (hwritten : Written row) :
    Agree ColumnsHold (CellColumns.ofRow (F := F) (some r.lookupColumns))
      (Columns.ofRow (some row.lookupColumns)) := by
  have hcell := h.recentComments
  cases hrecent : row.recentComments with
  | corrupt => exact absurd hrecent hwritten
  | dumped comments =>
    rw [hrecent] at hcell
    obtain ⟨items, htext, rfl⟩ := hcell
    simp only [FileRow.lookupColumns, ViewerRow.lookupColumns, CellColumns.ofRow, Columns.ofRow,
      hrecent, htext, loadsCell_dumps, jsonLoads, bind, Except.bind, pure, Except.pure]
    refine ⟨?_, items, rfl, rfl⟩
    simp only [CellColumns.integers, Columns.integers, h.commentCount, h.liked, h.shared,
      h.followed, h.giftCount, h.giftValueTotal]

/-- **An event is recorded alike**, and nothing is raised. -/
theorem record_holds {c : CellColumns F} {cols : Columns} (h : ColumnsHold c cols) (limit : Int)
    (event : SocialEvent) (now : F) :
    ∃ c', c.record limit event now = .ok c' ∧
      ColumnsHold c' (cols.record limit event (PyJson.value now)) := by
  obtain ⟨hintegers, items, hitems, hcomments⟩ := h
  simp only [CellColumns.integers, Columns.integers, List.cons.injEq, and_true] at hintegers
  obtain ⟨hcommentCount, hliked, hshared, hfollowed, hgiftCount, hgiftValueTotal⟩ := hintegers
  unfold CellColumns.record Columns.record
  cases event.kind with
  | comment =>
    cases htext : nonBlank event.text with
    | true =>
      simp only [if_true, hitems, commentValues]
      refine ⟨_, rfl, ?_, pyDrop (-limit) (items ++ [(event.text.getD "", now)]), ?_, ?_⟩
      · simp only [CellColumns.integers, Columns.integers, *]
      · rw [commentValues, Spec.map_pyDrop, List.map_append]
        rfl
      · rw [hcomments, Spec.map_pyDrop, List.map_append]
        rfl
    | false =>
      simp only [Bool.false_eq_true, if_false]
      refine ⟨_, rfl, ?_, items, hitems, hcomments⟩
      simp only [CellColumns.integers, Columns.integers, *]
  | _ =>
    refine ⟨_, rfl, ?_, items, hitems, hcomments⟩
    simp only [CellColumns.integers, Columns.integers, *]

/-! ## Calls -/

variable {t : ViewerFile F} {s : ViewerMemoryStore}

/-- **One row is written in both.** -/
theorem Stored.write (h : Stored t s) (key : ViewerKey) (event : SocialEvent) {c : CellColumns F}
    {cols : Columns} (hcols : ColumnsHold c cols) (now : F) :
    Stored (t.write key event c now) (s.write key event cols (PyJson.value now)) := by
  obtain ⟨hintegers, items, hitems, hcomments⟩ := hcols
  simp only [CellColumns.integers, Columns.integers, List.cons.injEq, and_true] at hintegers
  obtain ⟨hcommentCount, hliked, hshared, hfollowed, hgiftCount, hgiftValueTotal⟩ := hintegers
  have hfirstSeen : PyJson.value (((t.viewers.lookup key).map (·.firstSeen)).getD now) =
      ((s.viewers.lookup key).map (·.firstSeen)).getD (PyJson.value now) := by
    have hlookup := h.viewers.lookup key
    cases ht : t.viewers.lookup key with
    | none =>
      rw [ht] at hlookup
      cases hs : s.viewers.lookup key with
      | none => rfl
      | some row =>
        rw [hs] at hlookup
        cases hlookup
    | some r =>
      rw [ht] at hlookup
      cases hs : s.viewers.lookup key with
      | none =>
        rw [hs] at hlookup
        cases hlookup
      | some row =>
        rw [hs] at hlookup
        cases hlookup with
        | some hrow => exact hrow.firstSeen
  refine ⟨h.limit, h.viewers.insert key ?_⟩
  exact ⟨rfl, hcommentCount, hliked, hshared, hfollowed, hgiftCount, hgiftValueTotal,
    ⟨items, congrArg jsonDumps hitems, hcomments⟩, hfirstSeen, rfl⟩

theorem upsert_agree (h : Stored t s) (key : ViewerKey) (event : SocialEvent)
    {o : Option LookupCells} {o' : Option LookupRow}
    (hrow : Agree ColumnsHold (CellColumns.ofRow (F := F) o) (Columns.ofRow o')) (now : F) :
    Agree Stored (t.upsert key event o now) (s.upsert key event o' (PyJson.value now)) := by
  refine hrow.bind fun c cols hcols => ?_
  obtain ⟨c', hrecord, hcols'⟩ := record_holds hcols t.recentCommentsLimit event now
  rw [hrecord, ← h.limit]
  refine Agree.ite ?_ (h.write key event hcols' now) trivial
  rw [hcols'.integers]

theorem ViewerMemoryStore.noteAndRecord_eq (s : ViewerMemoryStore) (ownerKey memoryId : String)
    (event : SocialEvent) (now : Rat) :
    let key := keyOf ownerKey memoryId event
    let row := (s.viewers.lookup key).map (·.lookupColumns)
    s.noteAndRecord ownerKey memoryId event now = caught (do
      let note ← buildNote row
      let s ← s.upsert key event row now
      pure (note, s)) (none, s) := by
  unfold ViewerMemoryStore.noteAndRecord caught
  dsimp only
  split <;> simp_all

/-- A call answers alike, where the row can be read and where there is none. -/
theorem Stored.noteAndRecord_readable (h : Stored t s) {key : ViewerKey}
    {ownerKey memoryId : String} {event : SocialEvent} {now : F} {o : Option LookupCells}
    {o' : Option LookupRow} (hkey : ViewerMemoryStore.keyOf ownerKey memoryId event = key)
    (ho : (t.viewers.lookup key).map (·.lookupColumns) = o)
    (ho' : (s.viewers.lookup key).map (·.lookupColumns) = o')
    (hnote : Agree (· = ·) (ViewerFile.buildNote F o) (buildNote o'))
    (hrow : Agree ColumnsHold (CellColumns.ofRow (F := F) o) (Columns.ofRow o')) :
    (t.noteAndRecord ownerKey memoryId event now).1 =
        (s.noteAndRecord ownerKey memoryId event (PyJson.value now)).1 ∧
      Stored (t.noteAndRecord ownerKey memoryId event now).2
        (s.noteAndRecord ownerKey memoryId event (PyJson.value now)).2 := by
  have hboth : Agree (fun x y => x.1 = y.1 ∧ Stored x.2 y.2)
      (do
        let note ← ViewerFile.buildNote F o
        let t ← t.upsert key event o now
        pure (note, t))
      (do
        let note ← buildNote o'
        let s ← s.upsert key event o' (PyJson.value now)
        pure (note, s)) :=
    hnote.bind fun note note' heq =>
      (upsert_agree h key event hrow now).bind fun _ _ hst => ⟨heq, hst⟩
  subst hkey ho ho'
  rw [ViewerMemoryStore.noteAndRecord_eq]
  let unchanged : Option String × ViewerFile F := (none, t)
  let unchanged' : Option String × ViewerMemoryStore := (none, s)
  have hgivenUp : unchanged.1 = unchanged'.1 ∧ Stored unchanged.2 unchanged'.2 := ⟨rfl, h⟩
  exact hboth.caught hgivenUp

/-- **`note_and_record` is the same at both levels.** -/
theorem Stored.noteAndRecord (h : Stored t s) (ownerKey memoryId : String) (event : SocialEvent)
    (now : F) :
    (t.noteAndRecord ownerKey memoryId event now).1 =
        (s.noteAndRecord ownerKey memoryId event (PyJson.value now)).1 ∧
      Stored (t.noteAndRecord ownerKey memoryId event now).2
        (s.noteAndRecord ownerKey memoryId event (PyJson.value now)).2 := by
  have hlookup := h.viewers.lookup (ViewerMemoryStore.keyOf ownerKey memoryId event)
  generalize ht : t.viewers.lookup (ViewerMemoryStore.keyOf ownerKey memoryId event) = o at hlookup
  generalize hs : s.viewers.lookup (ViewerMemoryStore.keyOf ownerKey memoryId event) = o' at hlookup
  cases hlookup with
  | none =>
    exact h.noteAndRecord_readable rfl (congrArg _ ht) (congrArg _ hs) rfl columnsHold_new
  | @some r row hrow =>
    by_cases hwritten : Written row
    · exact h.noteAndRecord_readable rfl (congrArg _ ht) (congrArg _ hs)
        (buildNote_agree hrow hwritten) (ofRow_agree hrow hwritten)
    · -- both give up before they write
      obtain ⟨⟨e, hnote⟩, e', hnote'⟩ := buildNote_unusable hrow (not_not.mp hwritten)
      have hfile : t.noteAndRecord ownerKey memoryId event now = (none, t) := by
        simp only [ViewerFile.noteAndRecord, ht, Option.map_some, hnote]
        rfl
      have hmemory : s.noteAndRecord ownerKey memoryId event (PyJson.value now) = (none, s) := by
        simp only [ViewerMemoryStore.noteAndRecord, hs, Option.map_some, hnote']
        rfl
      rw [hfile, hmemory]
      exact ⟨rfl, h⟩

/-- **A cleanup deletes the same rows.** -/
theorem Stored.cleanup (h : Stored t s) (retentionDays : Int) (now : F) :
    (t.cleanup retentionDays now).1 = (s.cleanup retentionDays (PyJson.value now)).1 ∧
      Stored (t.cleanup retentionDays now).2
        (s.cleanup retentionDays (PyJson.value now)).2 := by
  have hkept := h.viewers.filter
    (p := fun row => ¬ PyJson.value row.2.lastSeen < PyJson.value now - retentionDays * 86400)
    (q := fun row => ¬ row.2.lastSeen < PyJson.value now - retentionDays * 86400)
    fun x y hxy => by rw [hxy.lastSeen]
  refine ⟨?_, h.limit, hkept⟩
  show t.viewers.entries.length - _ = s.viewers.entries.length - _
  rw [List.Forall₂.length_eq h.viewers, hkept.length_eq]

/-! ## Sequences of calls -/

/-- The call on the memory that a call on the file is. -/
def ViewerFile.Call.onMemory : ViewerFile.Call F → ViewerMemoryStore.Call
  | .noteAndRecord ownerKey memoryId event now =>
    .noteAndRecord ownerKey memoryId event (PyJson.value now)
  | .cleanup retentionDays now => .cleanup retentionDays (PyJson.value now)

/-- What a call on the memory returns. -/
def ViewerMemoryStore.answer (s : ViewerMemoryStore) : Call → Option String ⊕ Nat
  | .noteAndRecord ownerKey memoryId event now =>
    .inl (s.noteAndRecord ownerKey memoryId event now).1
  | .cleanup retentionDays now => .inr (s.cleanup retentionDays now).1

def ViewerMemoryStore.answers (s : ViewerMemoryStore) : List Call → List (Option String ⊕ Nat)
  | [] => []
  | c :: cs => s.answer c :: (s.call c).answers cs

theorem Stored.call (h : Stored t s) (c : ViewerFile.Call F) :
    (t.call c).1 = s.answer c.onMemory ∧ Stored (t.call c).2 (s.call c.onMemory) := by
  cases c with
  | noteAndRecord ownerKey memoryId event now =>
    obtain ⟨hnote, hstored⟩ := h.noteAndRecord ownerKey memoryId event now
    exact ⟨congrArg Sum.inl hnote, hstored⟩
  | cleanup retentionDays now =>
    obtain ⟨hdeleted, hstored⟩ := h.cleanup retentionDays now
    exact ⟨congrArg Sum.inr hdeleted, hstored⟩

/-- **Every sequence of calls leaves cells of the memory's rows.** -/
theorem Stored.calls (h : Stored t s) (cs : List (ViewerFile.Call F)) :
    Stored (t.calls cs).2 (s.calls (cs.map ViewerFile.Call.onMemory)) := by
  induction cs generalizing t s with
  | nil => exact h
  | cons c cs ih => exact ih (h.call c).2

/--
**The file refines the memory.** Where the cells are what `json.dumps` wrote, whatever the texts of
the viewers, or such that no note can be read off them, every sequence of calls returns the notes
and the counts that it returns of the memory, and leaves cells of the memory's rows.
-/
theorem file_refines (h : Stored t s) (cs : List (ViewerFile.Call F)) :
    (t.calls cs).1 = s.answers (cs.map ViewerFile.Call.onMemory) ∧
      Stored (t.calls cs).2 (s.calls (cs.map ViewerFile.Call.onMemory)) := by
  refine ⟨?_, h.calls cs⟩
  induction cs generalizing t s with
  | nil => rfl
  | cons c cs ih =>
    obtain ⟨hanswer, hstored⟩ := h.call c
    exact congrArg₂ List.cons hanswer (ih hstored)

/-- Whole seconds; no list and no dictionary is asked for its `repr`. -/
instance : PyJson WholeFloat where
  value x := x.whole
  repr _ := ""

/-- A comment of the viewer. -/
def saysAt (userId text : String) (seconds : Int) : ViewerFile.Call WholeFloat :=
  .noteAndRecord "owner" "memory" { kind := .comment, userId, userName := "v", text } ⟨seconds⟩

/-- **The note quotes the comment out of its cell**, and the viewer with an empty cell is let be. -/
theorem quotation_read_back : ∃ t : ViewerFile WholeFloat,
    (t.calls [saysAt "new" "\"hi\"\n🎁" 1, saysAt "broken" "hi" 2, saysAt "new" "again" 3]).1 =
      [.inl none, .inl none,
        .inl (some "đã bình luận 1 lần, lần trước nói: \"\"hi\"\n🎁\"")] := by
  let broken : ViewerKey := ⟨"owner", "memory", "broken"⟩
  let row : FileRow WholeFloat := ⟨"v", 1, 0, 0, 0, 0, 0, "", ⟨0⟩, ⟨0⟩⟩
  let row' : ViewerRow := ⟨"v", 1, 0, 0, 0, 0, 0, .corrupt, 0, 0⟩
  have hrow : RowHolds row row' :=
    ⟨rfl, rfl, rfl, rfl, rfl, rfl, rfl, ⟨rfl, fun _ hload => by cases hload⟩, rfl, rfl⟩
  have hstored : Stored (F := WholeFloat) { viewers := AList.insert broken row ∅ }
      { viewers := AList.insert broken row' ∅ } := ⟨rfl, InStep.empty.insert broken hrow⟩
  refine ⟨_, (file_refines hstored _).1.trans ?_⟩
  rfl

end Livehost
