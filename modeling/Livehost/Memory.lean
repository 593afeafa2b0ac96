import Livehost.Schemas
import Mathlib.Algebra.Order.Ring.Rat
import Mathlib.Data.List.AList

/-!
# The viewer memory

`livehost/memory.py`: what is known of every viewer, kept in one SQLite table with the primary key
`(owner_key, memory_id, platform_user_id)`. The table is an association list without duplicate
keys. `noteAndRecord` looks a viewer up, builds the note from what it finds, and then writes the
event into the row; `cleanup` deletes the rows that were not written to for too long.

The lookup hands over a tuple in the order of `_LOOKUP_COLUMNS`, which `buildNote` and `upsert`
take apart separately. Two exceptions of the source can arise from the data, and both make
`noteAndRecord` return no note and write nothing: a `recent_comments` cell that is not JSON, and an
integer that SQLite cannot hold.
-/

namespace Livehost

/-! ## Rows -/

structure ViewerKey where
  ownerKey : String
  memoryId : String
  platformUserId : String
  deriving DecidableEq, Repr

/-- An element of the JSON list in `recent_comments`. -/
structure RecentComment where
  text : String
  ts : Rat
  deriving DecidableEq, Repr

/-- A `recent_comments` cell: the text `json.dumps` made of a list, or text that `json.loads`
refuses. -/
inductive RecentJson
  | dumped (comments : List RecentComment)
  | corrupt
  deriving DecidableEq, Repr

structure ViewerRow where
  userName : String
  commentCount : Int
  liked : Int
  shared : Int
  followed : Int
  giftCount : Int
  giftValueTotal : Int
  recentComments : RecentJson
  firstSeen : Rat
  lastSeen : Rat
  deriving DecidableEq, Repr

/-- A row of the lookup, in the order of `_LOOKUP_COLUMNS`. -/
abbrev LookupRow : Type := Int × Int × Int × Int × Int × Int × RecentJson

def ViewerRow.lookupColumns (row : ViewerRow) : LookupRow :=
  (row.commentCount, row.liked, row.shared, row.followed, row.giftCount, row.giftValueTotal,
    row.recentComments)

/-- What makes `note_and_record` give up. -/
inductive MemoryError
  | overflow
  | jsonDecode
  deriving DecidableEq, Repr

def jsonLoads : RecentJson → Except MemoryError (List RecentComment)
  | .dumped comments => .ok comments
  | .corrupt => .error .jsonDecode

/-- The integers an SQLite column holds. -/
def InSqliteRange (n : Int) : Prop := -2 ^ 63 ≤ n ∧ n < 2 ^ 63

instance (n : Int) : Decidable (InSqliteRange n) := inferInstanceAs (Decidable (_ ∧ _))

/-! ## The note -/

/-- `last_text` as the note quotes it. -/
def quoted (text : String) : String :=
  if 80 < text.length then String.ofList (text.toList.take 80) ++ "…" else text

def buildNote : Option LookupRow → Except MemoryError (Option String)
  | none => .ok none
  | some (commentCount, liked, shared, followed, _, giftValueTotal, recentJson) => do
    let parts := if commentCount > 0 then [s!"đã bình luận {commentCount} lần"] else []
    let parts := if liked ≠ 0 then parts ++ ["từng thả tim"] else parts
    let parts := if shared ≠ 0 then parts ++ ["từng chia sẻ live"] else parts
    let parts := if followed ≠ 0 then parts ++ ["đã follow"] else parts
    let parts :=
      if giftValueTotal > 0 then parts ++ [s!"từng tặng quà ({giftValueTotal} coin)"] else parts
    let recentComments ← jsonLoads recentJson
    let parts :=
      match recentComments.getLast? with
      | some last => parts ++ ["lần trước nói: \"" ++ quoted last.text ++ "\""]
      | none => parts
    pure (if parts.isEmpty then none else some (", ".intercalate parts))

/-! ## The write -/

/-- The columns as `_upsert` holds them, and what an event makes of them. -/
structure Columns where
  commentCount : Int := 0
  liked : Int := 0
  shared : Int := 0
  followed : Int := 0
  giftCount : Int := 0
  giftValueTotal : Int := 0
  recentComments : List RecentComment := []

def Columns.ofRow : Option LookupRow → Except MemoryError Columns
  | none => .ok {}
  | some (commentCount, liked, shared, followed, giftCount, giftValueTotal, recentJson) => do
    let recentComments ← jsonLoads recentJson
    pure { commentCount, liked, shared, followed, giftCount, giftValueTotal, recentComments }

def Columns.record (cols : Columns) (limit : Int) (event : SocialEvent) (now : Rat) : Columns :=
  match event.kind with
  | .comment =>
    let cols := { cols with commentCount := cols.commentCount + 1 }
    if nonBlank event.text then
      let recentComments := cols.recentComments ++ [{ text := event.text.getD "", ts := now }]
      { cols with recentComments := pyDrop (-limit) recentComments }
    else cols
  | .like => { cols with liked := 1 }
  | .share => { cols with shared := 1 }
  | .follow => { cols with followed := 1 }
  | .gift =>
    { cols with
      giftCount := cols.giftCount + 1
      giftValueTotal := cols.giftValueTotal + event.giftValue.getD 0 }

/-- The integers that are bound to a statement. -/
def Columns.integers (cols : Columns) : List Int :=
  [cols.commentCount, cols.liked, cols.shared, cols.followed, cols.giftCount, cols.giftValueTotal]

structure ViewerMemoryStore where
  recentCommentsLimit : Int := 5
  viewers : AList fun _ : ViewerKey => ViewerRow := ∅

namespace ViewerMemoryStore

/-- The statement of `_upsert`: an `INSERT` where there is no row, an `UPDATE` of every column but
`first_seen` where there is one. -/
def write (s : ViewerMemoryStore) (key : ViewerKey) (event : SocialEvent) (cols : Columns)
    (now : Rat) : ViewerMemoryStore :=
  { s with
    viewers := s.viewers.insert key {
      userName := event.userName
      commentCount := cols.commentCount
      liked := cols.liked
      shared := cols.shared
      followed := cols.followed
      giftCount := cols.giftCount
      giftValueTotal := cols.giftValueTotal
      recentComments := .dumped cols.recentComments
      firstSeen := ((s.viewers.lookup key).map (·.firstSeen)).getD now
      lastSeen := now } }

def upsert (s : ViewerMemoryStore) (key : ViewerKey) (event : SocialEvent)
    (row : Option LookupRow) (now : Rat) : Except MemoryError ViewerMemoryStore := do
  let cols ← Columns.ofRow row
  let cols := cols.record s.recentCommentsLimit event now
  -- binding an integer out of range raises before anything is written
  if ∀ n ∈ cols.integers, InSqliteRange n then pure (s.write key event cols now)
  else throw .overflow

/-- `_MAX_MEMORY_ID_LENGTH`. -/
def maxMemoryIdLength : Nat := 64

/-- The primary key `note_and_record` works on. -/
def keyOf (ownerKey memoryId : String) (event : SocialEvent) : ViewerKey :=
  ⟨ownerKey, String.ofList (memoryId.toList.take maxMemoryIdLength), event.userId⟩

def noteAndRecord (s : ViewerMemoryStore) (ownerKey memoryId : String) (event : SocialEvent)
    (now : Rat) : Option String × ViewerMemoryStore :=
  let key := keyOf ownerKey memoryId event
  let row := (s.viewers.lookup key).map (·.lookupColumns)
  match (do
    let note ← buildNote row
    let s ← s.upsert key event row now
    pure (note, s) : Except MemoryError (Option String × ViewerMemoryStore)) with
  | .ok result => result
  | .error _ => (none, s)

/-- `DELETE FROM viewers WHERE last_seen < ?`, with the number of rows deleted. -/
def cleanup (s : ViewerMemoryStore) (retentionDays : Int) (now : Rat) : Nat × ViewerMemoryStore :=
  let cutoff := now - retentionDays * 86400
  let kept := s.viewers.entries.filter fun row => ¬ row.2.lastSeen < cutoff
  (s.viewers.entries.length - kept.length,
    { s with viewers := ⟨kept, s.viewers.nodupKeys.sublist List.filter_sublist⟩ })

/-! ## Sequences of calls -/

/-- One call on the store, at the time `time.time()` gave. -/
inductive Call
  | noteAndRecord (ownerKey memoryId : String) (event : SocialEvent) (now : Rat)
  | cleanup (retentionDays : Int) (now : Rat)

/-- The store after a call. -/
def call (s : ViewerMemoryStore) : Call → ViewerMemoryStore
  | .noteAndRecord ownerKey memoryId event now =>
    (s.noteAndRecord ownerKey memoryId event now).2
  | .cleanup retentionDays now => (s.cleanup retentionDays now).2

/-- The store after a sequence of calls. -/
def calls (s : ViewerMemoryStore) (cs : List Call) : ViewerMemoryStore := cs.foldl call s

/-- A fresh store. -/
def new (recentCommentsLimit : Int) : ViewerMemoryStore := { recentCommentsLimit }

/-! ## What a call does to the rows -/

theorem noteAndRecord_ok {s s' : ViewerMemoryStore} {ownerKey memoryId : String}
    {event : SocialEvent} {now : Rat} {note : Option String}
    (hn : buildNote ((s.viewers.lookup (keyOf ownerKey memoryId event)).map (·.lookupColumns))
      = .ok note)
    (hu : s.upsert (keyOf ownerKey memoryId event) event
      ((s.viewers.lookup (keyOf ownerKey memoryId event)).map (·.lookupColumns)) now = .ok s') :
    s.noteAndRecord ownerKey memoryId event now = (note, s') := by
  simp only [noteAndRecord, hn, hu]
  rfl

theorem upsert_ok {s : ViewerMemoryStore} {key : ViewerKey} {event : SocialEvent}
    {row : Option LookupRow} {now : Rat} {cols : Columns} (hr : Columns.ofRow row = .ok cols)
    (hfits : ∀ n ∈ (cols.record s.recentCommentsLimit event now).integers, InSqliteRange n) :
    s.upsert key event row now
      = .ok (s.write key event (cols.record s.recentCommentsLimit event now) now) := by
  rw [upsert, hr]
  exact if_pos hfits

/-- The written row holds the columns, and no other row changes. -/
theorem lookup_write (s : ViewerMemoryStore) (key : ViewerKey) (event : SocialEvent)
    (cols : Columns) (now : Rat) :
    (∀ k, k ≠ key → (s.write key event cols now).viewers.lookup k = s.viewers.lookup k) ∧
    ∃ row, (s.write key event cols now).viewers.lookup key = some row ∧ row.lastSeen = now ∧
      Columns.ofRow (some row.lookupColumns) = .ok cols :=
  ⟨fun _ hk => AList.lookup_insert_ne hk, _, AList.lookup_insert _, rfl, rfl⟩

theorem lookup_cleanup (s : ViewerMemoryStore) (retentionDays : Int) (now : Rat)
    (key : ViewerKey) :
    (s.cleanup retentionDays now).2.viewers.lookup key
      = (s.viewers.lookup key).filter fun row =>
          decide (¬ row.lastSeen < now - retentionDays * 86400) := by
  ext row
  rw [Option.mem_def.symm.trans (AList.mem_lookup_iff), cleanup]
  simp only [List.mem_filter, Option.filter_eq_some_iff]
  rw [← AList.mem_lookup_iff]
  rfl

end ViewerMemoryStore

end Livehost
