import Livehost.Infra.JsonText
import Livehost.Relay

/-!
# Frames

The text frames that the plugin writes: `livehost/upstream.py` to the gateway, with `json.dumps`,
and Starlette's `send_json` to the browser. What `Upstream.events` parses of the gateway's,
`pump_down` hands to `send_json`, and the page parses again.

`F` is the type of the finite double-precision floats: what `float.__repr__` writes, Python and the
browser read alike, and both read what is too large as an infinity. Python writes and reads the
words of `NaN` and the infinities, and `JSON.parse` throws on them. Half of a surrogate pair may be
escaped in a text; what is read of that is no string here, and has no UTF-8, so that `send_json`
raises. On a text that is no JSON, and on JSON that is no object, `pump_down` raises.
-/

namespace Livehost

open Infra

variable {F : Type} [JsonFloat F]

/-- `json.dumps(value)`. -/
def jsonDumps (value : Json F) : String := String.ofList (writeJson ⟨true, true⟩ value)

/-- How Python reads JSON. -/
def pythonJson : JsonDialect := { constants := true }

/-- How a browser reads JSON. -/
def browserJson : JsonDialect := { constants := false }

/-- `json.loads(text)`, `none` where it raises, or where the text spells a lone surrogate. -/
def jsonLoadsText (text : String) : Option (Json F) := pythonJson.readJson text.toList

/-- `JSON.parse(text)`, `none` where it throws, or where the text spells a lone surrogate. -/
def jsonParse (text : String) : Option (Json F) := browserJson.readJson text.toList

/-- How Python reads JSON, but that it has a character for half of a surrogate pair. -/
def lenientJson : JsonDialect := { constants := true, lone := some '\uFFFD' }

variable (F) in
/-- `json.loads(text)` returns a value, with half of a surrogate pair in one of its strings. -/
def spellsLone (text : String) : Bool :=
  (lenientJson.readJson (F := F) text.toList).isSome && (jsonLoadsText (F := F) text).isNone

/-- A frame of a WebSocket. -/
inductive WireFrame
  | bytes (data : List UInt8)
  | text (s : String)

/-! ## To the gateway -/

namespace Upstream

/-- `_control(**payload)`. -/
def control (payload : List (String × Json F)) : WireFrame := .text (jsonDumps (.obj payload))

variable (F)

def sendText (text : String) : WireFrame :=
  control (F := F) [("type", .str "text"), ("text", .str text)]

def abort : WireFrame := control (F := F) [("type", .str "abort")]

def flush : WireFrame := control (F := F) [("type", .str "flush")]

end Upstream

/-! ## From the gateway to the browser -/

omit [JsonFloat F] in
/-- What `message.get("event")` is. -/
def eventName (members : List (String × Json F)) : EventName :=
  match members.lookup "event" with
  | some (.str "speech_start") => .speechStart
  | some (.str "turn_done") => .turnDone
  | some (.str "aborted") => .aborted
  | _ => .other

/-- What `Upstream.events` yields of a frame, `none` where it or `pump_down` raises with it. -/
def Upstream.event : WireFrame → Option (Message (Json F))
  | .bytes data => some (.bytes data)
  | .text text =>
    match jsonLoadsText text with
    | some (.obj members) => some (.json (eventName members) (.obj members))
    | _ => none

/-- `websocket.send_json(value)`. -/
def sendJson (value : Json F) : WireFrame :=
  .text (String.ofList (writeJson ⟨false, false⟩ value))

/-- `send_json(message)` or `send_bytes(message)`. -/
def sendMessage : Message (Json F) → WireFrame
  | .bytes data => .bytes data
  | .json _ body => sendJson body

variable (F)

/-- What the other side reads of a frame, `none` where `JSON.parse` throws. -/
def WireFrame.read : WireFrame → Option (List UInt8 ⊕ Json F)
  | .bytes data => some (.inl data)
  | .text s => (jsonParse s).map .inr

/-- The browser reads the frame, as a value of finite numbers and of strings without lone
surrogates. -/
def WireFrame.Plain : WireFrame → Prop
  | .bytes _ => True
  | .text s => ∃ value : Json F, jsonParse s = some value ∧ value.Proper false

/-- The error frames of `livehost_stream`. -/
def errorFrame (message : String) : WireFrame :=
  sendJson (F := F) (.obj [("event", .str "error"), ("message", .str message)])

def sessionNotFound (sessionId : String) : WireFrame :=
  errorFrame F ("Session '" ++ sessionId ++ "' not found")

def gatewayUnavailable : WireFrame := errorFrame F "gateway unavailable"

end Livehost
