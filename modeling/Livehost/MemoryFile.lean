import Livehost.Infra.InStep
import Livehost.Memory
import Livehost.Upstream

/-!
# The cells of the viewer memory

`livehost/memory.py` once more, at the level of the SQLite file: a `recent_comments` cell is text,
which `json.dumps` wrote or somebody else did. What `json.loads` makes of it may be any value, and
`_build_note` and `_upsert` each take it as a list of dictionaries without asking. The exceptions
they run into are Python's for such a value; `note_and_record` catches them all.

`F` and its operations are parameters, and so is `repr`, which an f-string calls on a list or a
dictionary. What `json.loads` makes of a cell that escapes half of a surrogate pair has a string
that is none here: such cells are told apart, and nothing is said of them.
-/

namespace Livehost

open Infra

/-- What Python knows of a JSON value beyond its text. -/
class PyJson (F : Type) extends JsonFloat F where
  /-- The rational number that a float is. -/
  value : F → Rat
  repr : Json F → String

/-- What is raised in `note_and_record`. -/
inductive CellException
  | jsonDecodeError
  | attributeError
  | indexError
  | keyError
  | typeError
  | overflowError
  /-- Nothing is raised: the cell spells a lone surrogate, and what is read of it has no model. -/
  | loneSurrogate
  deriving DecidableEq, Repr

variable {F : Type} [PyJson F]

/-! ## Values -/

/-- `if value:`. -/
def truthy : Json F → Bool
  | .null => false
  | .bool b => b
  | .int n => n ≠ 0
  | .float x => PyJson.value x ≠ 0
  | .constant _ => true
  | .str s => s ≠ ""
  | .arr items => !items.isEmpty
  | .obj members => !members.isEmpty

/-- `value[-1]`. -/
def lastOf : Json F → Except CellException (Json F)
  | .arr items => items.getLast?.elim (.error .indexError) .ok
  | .str s => s.toList.getLast?.elim (.error .indexError) fun c => .ok (.str (String.ofList [c]))
  | .obj _ => .error .keyError
  | _ => .error .typeError

/-- `value["text"]`. -/
def textOf : Json F → Except CellException (Json F)
  | .obj members => (members.lookup "text").elim (.error .keyError) .ok
  | _ => .error .typeError

/-- `last_text` as the note quotes it. -/
def quotedValue : Json F → Except CellException String
  | .str s => .ok (quoted s)
  -- a slice of a list is not concatenated with a string, and a dictionary has no slices
  | .arr items => if 80 < items.length then .error .typeError else .ok (PyJson.repr (.arr items))
  | .obj members =>
    if 80 < members.length then .error .typeError else .ok (PyJson.repr (.obj members))
  | _ => .error .typeError

/-- `json.loads(recent_json)`. -/
def loadsCell (text : String) : Except CellException (Json F) :=
  match jsonLoadsText text with
  | some value => .ok value
  | none => .error (if spellsLone F text then .loneSurrogate else .jsonDecodeError)

/-! ## Rows -/

structure FileRow (F : Type) where
  userName : String
  commentCount : Int
  liked : Int
  shared : Int
  followed : Int
  giftCount : Int
  giftValueTotal : Int
  recentComments : String
  firstSeen : F
  lastSeen : F

/-- A row of the lookup, in the order of `_LOOKUP_COLUMNS`. -/
abbrev LookupCells : Type := Int × Int × Int × Int × Int × Int × String

omit [PyJson F] in
def FileRow.lookupColumns (row : FileRow F) : LookupCells :=
  (row.commentCount, row.liked, row.shared, row.followed, row.giftCount, row.giftValueTotal,
    row.recentComments)

/-- The columns as `_upsert` holds them. -/
structure CellColumns (F : Type) where
  commentCount : Int := 0
  liked : Int := 0
  shared : Int := 0
  followed : Int := 0
  giftCount : Int := 0
  giftValueTotal : Int := 0
  recentComments : Json F := .arr []

def CellColumns.ofRow : Option LookupCells → Except CellException (CellColumns F)
  | none => .ok {}
  | some (commentCount, liked, shared, followed, giftCount, giftValueTotal, recentJson) => do
    let recentComments ← loadsCell recentJson
    pure { commentCount, liked, shared, followed, giftCount, giftValueTotal, recentComments }

/-- `{"text": event.text, "ts": now}`. -/
def commentValue (text : String) (now : F) : Json F :=
  .obj [("text", .str text), ("ts", .float now)]

def CellColumns.record (cols : CellColumns F) (limit : Int) (event : SocialEvent) (now : F) :
    Except CellException (CellColumns F) :=
  match event.kind with
  | .comment =>
    let cols := { cols with commentCount := cols.commentCount + 1 }
    if nonBlank event.text then
      match cols.recentComments with
      | .arr items =>
        let items := items ++ [commentValue (event.text.getD "") now]
        .ok { cols with recentComments := .arr (pyDrop (-limit) items) }
      -- only a list has `append`
      | _ => .error .attributeError
    else .ok cols
  | .like => .ok { cols with liked := 1 }
  | .share => .ok { cols with shared := 1 }
  | .follow => .ok { cols with followed := 1 }
  | .gift =>
    .ok { cols with
      giftCount := cols.giftCount + 1
      giftValueTotal := cols.giftValueTotal + event.giftValue.getD 0 }

omit [PyJson F] in
/-- The integers that are bound to a statement. -/
def CellColumns.integers (cols : CellColumns F) : List Int :=
  [cols.commentCount, cols.liked, cols.shared, cols.followed, cols.giftCount, cols.giftValueTotal]

structure ViewerFile (F : Type) where
  recentCommentsLimit : Int := 5
  viewers : AList fun _ : ViewerKey => FileRow F := ∅

namespace ViewerFile

/-- What the note says of `recent_comments`. -/
def lastSaid (recentComments : Json F) : Except CellException (List String) :=
  if truthy recentComments then do
    let last ← lastOf recentComments
    let text ← textOf last
    let quotation ← quotedValue text
    pure ["lần trước nói: \"" ++ quotation ++ "\""]
  else pure []

variable (F) in
def buildNote : Option LookupCells → Except CellException (Option String)
  | none => .ok none
  | some (commentCount, liked, shared, followed, _, giftValueTotal, recentJson) => do
    let parts := if commentCount > 0 then [s!"đã bình luận {commentCount} lần"] else []
    let parts := if liked ≠ 0 then parts ++ ["từng thả tim"] else parts
    let parts := if shared ≠ 0 then parts ++ ["từng chia sẻ live"] else parts
    let parts := if followed ≠ 0 then parts ++ ["đã follow"] else parts
    let parts :=
      if giftValueTotal > 0 then parts ++ [s!"từng tặng quà ({giftValueTotal} coin)"] else parts
    let recentComments : Json F ← loadsCell recentJson
    let said ← lastSaid recentComments
    let parts := parts ++ said
    pure (if parts.isEmpty then none else some (", ".intercalate parts))

/-- The statement of `_upsert`. -/
def write (t : ViewerFile F) (key : ViewerKey) (event : SocialEvent) (cols : CellColumns F)
    (now : F) : ViewerFile F :=
  { t with
    viewers := t.viewers.insert key {
      userName := event.userName
      commentCount := cols.commentCount
      liked := cols.liked
      shared := cols.shared
      followed := cols.followed
      giftCount := cols.giftCount
      giftValueTotal := cols.giftValueTotal
      recentComments := jsonDumps cols.recentComments
      firstSeen := ((t.viewers.lookup key).map (·.firstSeen)).getD now
      lastSeen := now } }

def upsert (t : ViewerFile F) (key : ViewerKey) (event : SocialEvent) (row : Option LookupCells)
    (now : F) : Except CellException (ViewerFile F) := do
  let cols ← CellColumns.ofRow row
  let cols ← cols.record t.recentCommentsLimit event now
  if ∀ n ∈ cols.integers, InSqliteRange n then pure (t.write key event cols now)
  else throw .overflowError

def noteAndRecord (t : ViewerFile F) (ownerKey memoryId : String) (event : SocialEvent) (now : F) :
    Option String × ViewerFile F :=
  let key := ViewerMemoryStore.keyOf ownerKey memoryId event
  let row := (t.viewers.lookup key).map (·.lookupColumns)
  let attempt : Except CellException (Option String × ViewerFile F) := do
    let note ← buildNote F row
    let t ← t.upsert key event row now
    pure (note, t)
  caught attempt (none, t)

/-- `DELETE FROM viewers WHERE last_seen < ?`, with the number of rows deleted. -/
def cleanup (t : ViewerFile F) (retentionDays : Int) (now : F) : Nat × ViewerFile F :=
  let cutoff := PyJson.value now - retentionDays * 86400
  let kept := t.viewers.entries.filter fun row => ¬ PyJson.value row.2.lastSeen < cutoff
  (t.viewers.entries.length - kept.length,
    { t with viewers := ⟨kept, t.viewers.nodupKeys.sublist List.filter_sublist⟩ })

/-! ## Sequences of calls -/

variable (F) in
/-- One call, at the time `time.time()` gave. -/
inductive Call
  | noteAndRecord (ownerKey memoryId : String) (event : SocialEvent) (now : F)
  | cleanup (retentionDays : Int) (now : F)

/-- What a call returns, and the file behind it. -/
def call (t : ViewerFile F) : Call F → (Option String ⊕ Nat) × ViewerFile F
  | .noteAndRecord ownerKey memoryId event now =>
    let (note, t) := t.noteAndRecord ownerKey memoryId event now
    (.inl note, t)
  | .cleanup retentionDays now =>
    let (deleted, t) := t.cleanup retentionDays now
    (.inr deleted, t)

/-- What a sequence of calls returns, and the file behind it. -/
def calls (t : ViewerFile F) : List (Call F) → List (Option String ⊕ Nat) × ViewerFile F
  | [] => ([], t)
  | c :: cs =>
    let (answer, t) := t.call c
    let (answers, t) := t.calls cs
    (answer :: answers, t)

end ViewerFile

end Livehost
