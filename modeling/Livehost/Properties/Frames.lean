import Livehost.Upstream

/-!
# What the other side reads

Every text frame that the plugin writes is JSON, and what the other side parses is what the plugin
meant: no text of a viewer's, and no session id, can spell out another member or end the object.

* `read_sendMessage` — the browser reads what the gateway wrote
* `frames_read_back` — every frame of the plugin's
-/

namespace Livehost

open Infra

variable {F : Type} [JsonFloat F]

theorem jsonLoadsText_jsonDumps {value : Json F} (h : value.Proper true) :
    jsonLoadsText (jsonDumps value) = some value := by
  have hproper : value.Proper pythonJson.constants := h
  rw [jsonLoadsText, jsonDumps, String.toList_ofList, readJson_writeJson _ hproper]

/-- What is written of a value without constants, the browser reads. -/
theorem jsonParse_written (style : JsonStyle) {value : Json F} (h : value.Proper false) :
    jsonParse (String.ofList (writeJson style value)) = some value := by
  have hproper : value.Proper browserJson.constants := h
  rw [jsonParse, String.toList_ofList, readJson_writeJson _ hproper]

/-- Python reads what the browser reads, as the same. -/
theorem jsonLoadsText_of_parse {text : String} {value : Json F} (h : jsonParse text = some value) :
    jsonLoadsText text = some value :=
  readJson_lax h

theorem read_control {payload : List (String × Json F)} (h : (Json.obj payload).Proper false) :
    (Upstream.control payload).read F = some (.inr (.obj payload)) := by
  rw [Upstream.control, WireFrame.read, jsonDumps, jsonParse_written _ h]
  rfl

theorem read_sendJson {value : Json F} (h : value.Proper false) :
    (sendJson value).read F = some (.inr value) := by
  rw [sendJson, WireFrame.read, jsonParse_written _ h]
  rfl

/-- What `pump_down` takes is an object, read off the frame. -/
theorem event_json {frame : WireFrame} {event : EventName} {body : Json F}
    (h : Upstream.event frame = some (.json event body)) :
    ∃ text members, frame = .text text ∧ body = .obj members ∧ event = eventName members ∧
      body.Proper true ∧ jsonLoadsText text = some body := by
  cases frame with
  | bytes data => cases h
  | text s =>
    rw [Upstream.event] at h
    split at h
    next members hparse =>
      cases h
      exact ⟨s, members, rfl, rfl, rfl, readJson_proper hparse, hparse⟩
    next => cases h

/-- The value of a plain frame is what the browser reads of it. -/
theorem event_plain {frame : WireFrame} {event : EventName} {body : Json F}
    (h : Upstream.event frame = some (.json event body)) (hplain : frame.Plain F) :
    body.Proper false ∧ frame.read F = some (.inr body) := by
  obtain ⟨text, -, rfl, -, -, -, hloads⟩ := event_json h
  obtain ⟨value, hparse, hproper⟩ := hplain
  have hsame : some value = some body := (jsonLoadsText_of_parse hparse).symm.trans hloads
  cases hsame
  exact ⟨hproper, by rw [WireFrame.read, hparse]; rfl⟩

/-- **The browser reads what the gateway wrote.** -/
theorem read_sendMessage {frame : WireFrame} {message : Message (Json F)}
    (h : Upstream.event frame = some message) (hplain : frame.Plain F) :
    (sendMessage message).read F = frame.read F := by
  cases message with
  | bytes data =>
    cases frame with
    | bytes data' =>
      cases h
      rfl
    | text s =>
      rw [Upstream.event] at h
      split at h <;> cases h
  | json event body =>
    obtain ⟨hproper, hread⟩ := event_plain h hplain
    rw [sendMessage, read_sendJson hproper, hread]

/-- What `pump_down` hands over, another `pump_down` would take for the same. -/
theorem event_sendMessage {frame : WireFrame} {message : Message (Json F)}
    (h : Upstream.event frame = some message) :
    Upstream.event (sendMessage message) = some message := by
  cases message with
  | bytes data => rfl
  | json event body =>
    obtain ⟨-, members, -, rfl, rfl, hproper, -⟩ := event_json h
    have hproper' : (Json.obj members).Proper pythonJson.constants := hproper
    rw [sendMessage, sendJson, Upstream.event, jsonLoadsText, String.toList_ofList,
      readJson_writeJson _ hproper']

/--
**Every frame is read as it was meant.** For any text, the gateway reads a turn of that text, an
abort and a flush; of any plain frame of the gateway's that `pump_down` takes, the browser reads the
same; for any session id it reads the error of it; and what `JSON.parse` reads of a text,
`json.loads` reads of it too.
-/
theorem frames_read_back (F : Type) [JsonFloat F] :
    (∀ text, (Upstream.sendText F text).read F =
      some (.inr (.obj [("type", .str "text"), ("text", .str text)]))) ∧
    (Upstream.abort F).read F = some (.inr (.obj [("type", .str "abort")])) ∧
    (Upstream.flush F).read F = some (.inr (.obj [("type", .str "flush")])) ∧
    (∀ frame (message : Message (Json F)), Upstream.event frame = some message → frame.Plain F →
      (sendMessage message).read F = frame.read F) ∧
    (∀ sessionId, (sessionNotFound F sessionId).read F = some (.inr (.obj
      [("event", .str "error"), ("message", .str ("Session '" ++ sessionId ++ "' not found"))]))) ∧
    (gatewayUnavailable F).read F =
      some (.inr (.obj [("event", .str "error"), ("message", .str "gateway unavailable")])) ∧
    ∀ text (value : Json F), jsonParse text = some value → jsonLoadsText text = some value := by
  have hone : ∀ kind, (Json.obj (F := F) [("type", .str kind)]).Proper false := fun kind =>
    ⟨by simp, trivial, trivial⟩
  have hturn : ∀ text,
      (Json.obj (F := F) [("type", .str "text"), ("text", .str text)]).Proper false :=
    fun text => ⟨by simp, trivial, trivial, trivial⟩
  have herror : ∀ message,
      (Json.obj (F := F) [("event", .str "error"), ("message", .str message)]).Proper false :=
    fun message => ⟨by simp, trivial, trivial, trivial⟩
  exact ⟨fun text => read_control (hturn text), read_control (hone _), read_control (hone _),
    fun _ _ => read_sendMessage, fun _ => read_sendJson (herror _), read_sendJson (herror _),
    fun _ _ => jsonLoadsText_of_parse⟩

/-- The end of a turn, as the gateway may write it. -/
def turnDone : Json WholeFloat :=
  .obj [("event", .str "turn_done"), ("text", .str "\", \"event\": \"aborted"),
    ("seconds", .float ⟨2⟩)]

theorem turnDone_proper (constants : Bool) : turnDone.Proper constants :=
  ⟨by simp, trivial, trivial, trivial, trivial⟩

theorem event_turnDone :
    Upstream.event (.text (jsonDumps turnDone)) = some (.json .turnDone turnDone) := by
  rw [Upstream.event, jsonLoadsText_jsonDumps (turnDone_proper true)]
  rfl

/-- What `json.dumps` writes of a value without constants is plain. -/
theorem plain_jsonDumps {value : Json F} (h : value.Proper false) :
    WireFrame.Plain F (.text (jsonDumps value)) :=
  ⟨value, jsonParse_written _ h, h⟩

theorem turnDone_read_back :
    (sendMessage (.json .turnDone turnDone)).read WholeFloat = some (.inr turnDone) := by
  rw [(frames_read_back WholeFloat).2.2.2.1 _ _ event_turnDone
    (plain_jsonDumps (turnDone_proper false)), WireFrame.read, jsonDumps,
    jsonParse_written _ (turnDone_proper false)]
  rfl

end Livehost
