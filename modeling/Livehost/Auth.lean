import Livehost.Schemas
import Mathlib.Algebra.Order.Ring.Rat
import Mathlib.Data.List.DropRight

/-!
# Tickets

`livehost/auth.py`: the gateway's answer to a ticket, and what `introspect` makes of it. Beside it
stands the parsing of the `Authorization` header, with which `_caller_user_id` of
`livehost/api/control.py` gets at the ticket.
-/

namespace Livehost

/-! ## The header -/

/-- Python's `str.isspace` of a character. -/
def pyIsSpace (c : Char) : Bool :=
  let n := c.toNat
  9 ≤ n && n ≤ 13 || 28 ≤ n && n ≤ 32 || n == 0x85 || n == 0xa0 || n == 0x1680 ||
    0x2000 ≤ n && n ≤ 0x200a || n == 0x2028 || n == 0x2029 || n == 0x202f || n == 0x205f ||
    n == 0x3000

/-- Python's `str.strip()`. -/
def pyStrip (s : String) : String :=
  String.ofList ((s.toList.dropWhile pyIsSpace).rdropWhile pyIsSpace)

/-- Python's `head, _, tail = s.partition(sep)`. -/
def pyPartition (sep : Char) (s : String) : String × String :=
  (String.ofList (s.toList.takeWhile (· != sep)),
    String.ofList ((s.toList.dropWhile (· != sep)).drop 1))

/-- The ticket that `_caller_user_id` passes to `introspect`, if it does. -/
def bearerTicket [PyLower] (authorization : Option String) : Option String :=
  let (scheme, ticket) := pyPartition ' ' (authorization.getD "")
  if PyLower.lower scheme != "bearer" || pyStrip ticket == "" then none
  else some (pyStrip ticket)

/-! ## The gateway's answer -/

/-- A JSON value. The keys of an object are distinct. -/
inductive JsonValue
  | null
  | bool (b : Bool)
  | number (n : Rat)
  | string (s : String)
  | array (items : List JsonValue)
  | object (fields : List (String × JsonValue))

/-- Python's truth value. -/
def JsonValue.truthy : JsonValue → Bool
  | .null => false
  | .bool b => b
  | .number n => n != 0
  | .string s => s != ""
  | .array items => !items.isEmpty
  | .object fields => !fields.isEmpty

/-- A string, or nothing. -/
def JsonValue.string? : JsonValue → Option String
  | .string s => some s
  | _ => none

/-- The fields of a dictionary, or nothing. -/
def JsonValue.fields? : JsonValue → Option (List (String × JsonValue))
  | .object fields => some fields
  | _ => none

structure IntrospectResult where
  userId : Option String
  sessionToken : Option String
  deriving DecidableEq, Repr

/-- `_INACTIVE`. -/
def inactive : IntrospectResult := { userId := none, sessionToken := none }

/-- What the request to the gateway comes to. -/
inductive IntrospectReply
  /-- `httpx.HTTPError`. -/
  | httpError
  /-- A response, with its body where that is JSON. -/
  | response (statusCode : Nat) (body : Option JsonValue)

/-- `introspect`, from the gateway's answer on. -/
def introspect : IntrospectReply → IntrospectResult
  | .httpError => inactive
  | .response statusCode body =>
    if statusCode ≠ 200 then inactive
    else
      match (body.bind JsonValue.fields?).bind (·.lookup "data") |>.bind JsonValue.fields? with
      | none => inactive
      | some data =>
        if !((data.lookup "active").map JsonValue.truthy).getD false then inactive
        else
          match (data.lookup "user_id").bind JsonValue.string? with
          | none => inactive
          | some userId =>
            { userId := some userId
              sessionToken := (data.lookup "session_token").bind JsonValue.string? }

end Livehost
