import Livehost.Infra.QueryString
import Livehost.Auth

/-!
# The query string

What the handler of `livehost/api/ws.py` reads off the query of its URL, and what it writes into the
query of the upstream's (`livehost/upstream.py`). Starlette reads a query with `parse_qsl`, blank
values kept, and of several values of one name it gives out the last.

The numbers among the parameters go through Python's `int` and `float`, which are not modelled here.
-/

namespace Livehost

open Infra

/-! ## Reading -/

/-- Starlette's `QueryParams`: the pairs in order. -/
abbrev QueryParams := List (String × String)

/-- `QueryParams(query_string)`. -/
def QueryParams.parse (queryString : String) : QueryParams :=
  (parseQsl queryString.toList).map fun (name, value) => (String.ofList name, String.ofList value)

/-- `q.get(name)`. -/
def QueryParams.get (q : QueryParams) (name : String) : Option String := q.reverse.lookup name

/-- `value or default`, of a string that may be missing. -/
def pyOr (value : Option String) (default : String) : String :=
  match value with
  | some s => if s = "" then default else s
  | none => default

/-! ## `build_upstream_url` -/

/-- A dictionary of query parameters, in the order of insertion. -/
abbrev Params := List (String × Option String)

/-- `params[name] = value`. -/
def Params.set (params : Params) (name : String) (value : Option String) : Params :=
  if params.any (·.1 == name) then params.map fun p => if p.1 == name then (name, value) else p
  else params ++ [(name, value)]

/-- `urllib.parse.urlencode`. -/
def urlencode (query : List (String × String)) : String :=
  String.ofList (Infra.urlencode (query.map fun (name, value) => (name.toList, value.toList)))

/-- `base.split("://", 1)[-1]`. -/
def afterScheme (base : String) : String :=
  match base.toList.tails.find? ("://".toList.isPrefixOf ·) with
  | some rest => String.ofList (rest.drop 3)
  | none => base

/-- The part of the URL in front of the query. -/
def upstreamEndpoint (base : String) : String :=
  let scheme := if "https://".toList.isPrefixOf base.toList then "wss" else "ws"
  let host := String.ofList ((afterScheme base).toList.rdropWhile (· == '/'))
  scheme ++ "://" ++ host ++ "/v1/conversation/stream?"

/-- The parameters that have a value other than the blank one. -/
def Params.nonblank (params : Params) : List (String × String) :=
  params.filterMap fun (name, value) => (value.filter (· ≠ "")).map (name, ·)

/-- `build_upstream_url`. -/
def buildUpstreamUrl (base : String) (params : Params) : String :=
  upstreamEndpoint base ++ urlencode params.nonblank

/-! ## `livehost_stream` -/

/-- `resume_params`. -/
def resumeParams (params : Params) (sessionId : Option String) : Params :=
  match sessionId with
  | some id => if id = "" then params else params.set "session_id" (some id)
  | none => params

/-- The ticket that the handler introspects. -/
def QueryParams.ticket (q : QueryParams) : String := pyOr (q.get "ticket") ""

/-- The id that the handler claims; `uuid4` is `str(uuid.uuid4())`. -/
def QueryParams.sessionId (q : QueryParams) (uuid4 : String) : String :=
  pyOr (q.get "session_id") uuid4

def QueryParams.skipLikeShare (q : QueryParams) : Bool := q.get "skip_like_share" == some "1"

def QueryParams.memoryId (q : QueryParams) : String := pyOr (q.get "memory_id") ""

/-- The dictionary that the handler passes to `resume_params`. -/
def QueryParams.upstreamParams (q : QueryParams) : Params :=
  [("profile", q.get "profile"),
    ("tts_profile", q.get "tts_profile"),
    ("language", q.get "language"),
    ("stt_model", q.get "stt_model"),
    ("voice", q.get "voice"),
    ("sample_rate", q.get "sample_rate"),
    ("audio_codec", q.get "audio_codec"),
    ("audio_out", q.get "audio_out"),
    ("output_sample_rate", q.get "output_sample_rate"),
    ("output", some (pyOr (q.get "output") "audio,text")),
    ("system_prompt", q.get "system_prompt")]

/-- The URL of the handler's `Upstream`. -/
def QueryParams.upstreamUrl (q : QueryParams) (gatewayUrl uuid4 : String) : String :=
  buildUpstreamUrl gatewayUrl (resumeParams q.upstreamParams (some (q.sessionId uuid4)))

/-! ## Lookups -/

namespace QueryParams

variable {q : QueryParams} {name : String}

@[simp] theorem get_nil : get [] name = none := rfl

theorem get_append (q q' : QueryParams) (name : String) :
    get (q ++ q') name = (get q' name).or (get q name) := by
  unfold get
  rw [List.reverse_append, List.lookup_append]

@[simp] theorem get_singleton (name' value : String) :
    get [(name', value)] name = if name = name' then some value else none := by
  by_cases h : name = name' <;> simp [get, h]

theorem get_cons (p : String × String) (q : QueryParams) (name : String) :
    get (p :: q) name = (get q name).or (if name = p.1 then some p.2 else none) := by
  rw [show p :: q = [p] ++ q from rfl, get_append, get_singleton]

/-- Where every name is there once, the one value is the last. -/
theorem get_filterMap {names : List String} {value : String → Option String} (h : names.Nodup) :
    get (names.filterMap fun name => (value name).map (name, ·)) name =
      if name ∈ names then value name else none := by
  induction names with
  | nil => rfl
  | cons first names ih =>
    obtain ⟨hfirst, hrest⟩ := List.nodup_cons.mp h
    have ih := ih hrest
    cases hvalue : value first with
    | none =>
      rw [List.filterMap_cons_none (by rw [hvalue]; rfl), ih]
      by_cases hname : name = first
      · subst hname
        simp [hfirst, hvalue]
      · simp [hname]
    | some v =>
      rw [List.filterMap_cons_some (by rw [hvalue]; rfl), get_cons, ih]
      by_cases hname : name = first
      · subst hname
        simp [hfirst, hvalue]
      · simp [hname]

theorem names_filterMap (names : List String) (value : String → Option String) :
    (names.filterMap fun name => (value name).map (name, ·)).map Prod.fst =
      names.filter fun name => (value name).isSome := by
  induction names with
  | nil => rfl
  | cons first names ih => cases hvalue : value first <;> simp [hvalue, ih]

end QueryParams

/-- **What `urlencode` writes is read back.** -/
theorem parse_urlencode (query : List (String × String)) :
    QueryParams.parse (urlencode query) = query := by
  unfold QueryParams.parse urlencode
  rw [String.toList_ofList, parseQsl_urlencode, List.map_map]
  simp [Function.comp_def]

end Livehost
