import Livehost.QueryParams

/-!
# What the gateway is told

The browser's query string can be anything. Of it, the query of the upstream's URL carries some
parameters under the names that `livehost_stream` spells out, and no text of the browser's can add
one, change another, or end the query.

* `nonblank_resumeParams` — the dictionary behind the URL
* `get_upstream` — what is read under a name
* `upstream_query` — what the gateway reads, name by name
-/

namespace Livehost

open Infra

/-- What is passed on as it is, if it is not blank. -/
def passedOn : List String :=
  ["profile", "tts_profile", "language", "stt_model", "voice", "sample_rate", "audio_codec",
    "audio_out", "output_sample_rate", "system_prompt"]

/-- The names in the order of the URL. -/
def upstreamNames : List String :=
  ["profile", "tts_profile", "language", "stt_model", "voice", "sample_rate", "audio_codec",
    "audio_out", "output_sample_rate", "output", "system_prompt", "session_id"]

/-- What the gateway is told under a name. -/
def QueryParams.forwarded (q : QueryParams) (uuid4 name : String) : Option String :=
  if name = "session_id" then some (q.sessionId uuid4)
  else if name = "output" then some (pyOr (q.get "output") "audio,text")
  else if name ∈ passedOn then (q.get name).filter (· ≠ "")
  else none

theorem pyOr_ne {value : Option String} {default : String} (h : default ≠ "") :
    pyOr value default ≠ "" := by
  unfold pyOr
  split
  · split
    · exact h
    next hs => exact hs
  · exact h

/-- **The dictionary behind the URL.** -/
theorem nonblank_resumeParams (q : QueryParams) {uuid4 : String} (hid : q.sessionId uuid4 ≠ "") :
    (resumeParams q.upstreamParams (some (q.sessionId uuid4))).nonblank =
      upstreamNames.filterMap fun name => (q.forwarded uuid4 name).map (name, ·) := by
  have houtput : pyOr (q.get "output") "audio,text" ≠ "" := pyOr_ne (by decide)
  let value (name : String) : Option String :=
    if name = "session_id" then some (q.sessionId uuid4)
    else if name = "output" then some (pyOr (q.get "output") "audio,text")
    else q.get name
  have hset : resumeParams q.upstreamParams (some (q.sessionId uuid4)) =
      upstreamNames.map fun name => (name, value name) := by
    rw [resumeParams, if_neg hid, Params.set, if_neg (by simp [QueryParams.upstreamParams])]
    rfl
  rw [hset, Params.nonblank, List.filterMap_map]
  refine List.filterMap_congr fun name hname => congrArg (Option.map (name, ·)) ?_
  simp only [value, QueryParams.forwarded]
  split
  · simp [hid]
  split
  · simp [houtput]
  next hs ho =>
    have hpassed : name ∈ passedOn := by
      simp only [upstreamNames, List.mem_cons, List.not_mem_nil, or_false, hs, ho, or_false,
        false_or] at hname
      simpa [passedOn] using hname
    rw [if_pos hpassed]

/-- **What is read under a name** in the query of the URL. -/
theorem get_upstream (q : QueryParams) {uuid4 : String} (hid : q.sessionId uuid4 ≠ "")
    (name : String) :
    (QueryParams.parse
      (urlencode (resumeParams q.upstreamParams (some (q.sessionId uuid4))).nonblank)).get name =
        q.forwarded uuid4 name := by
  rw [parse_urlencode, nonblank_resumeParams q hid, QueryParams.get_filterMap (by decide)]
  split
  · rfl
  next hname =>
    unfold QueryParams.forwarded
    simp only [upstreamNames, List.mem_cons, List.not_mem_nil, or_false, not_or] at hname
    simp [passedOn, hname]

/--
**What the gateway is told.** Whatever pairs the browser's query string is read as: the URL of the
upstream ends in a query of unreserved characters, `%`, `+`, `=` and `&`; no name is in it twice;
and under each name the gateway reads what `livehost_stream` forwards under it: the id the handler
claims, the output or its default, the ten parameters that are passed on where the browser gave them
and they are not blank, and nothing under any other name.
-/
theorem upstream_query (q : QueryParams) (gatewayUrl uuid4 : String) (huuid : uuid4 ≠ "") :
    ∃ query, q.upstreamUrl gatewayUrl uuid4 = upstreamEndpoint gatewayUrl ++ query ∧
      (∀ c ∈ query.toList, formChar c = true) ∧
      ((QueryParams.parse query).map Prod.fst).Nodup ∧
      ∀ name, (QueryParams.parse query).get name = q.forwarded uuid4 name := by
  have hid : q.sessionId uuid4 ≠ "" := pyOr_ne huuid
  refine ⟨urlencode (resumeParams q.upstreamParams (some (q.sessionId uuid4))).nonblank, rfl,
    fun c hc => ?_, ?_, get_upstream q hid⟩
  · rw [urlencode, String.toList_ofList] at hc
    exact formChar_urlencode hc
  · rw [parse_urlencode, nonblank_resumeParams q hid, QueryParams.names_filterMap]
    exact List.Pairwise.filter _ (by decide)

/-- A profile that spells out another parameter, and a parameter that is not passed on. -/
def forgedQuery : String := "profile=a%26token%3Db&token=c&session_id=room"

/-- **The gateway reads one profile**, and no token. -/
theorem forgedQuery_forwarded : ∃ query,
    (QueryParams.parse forgedQuery).upstreamUrl "http://127.0.0.1:8000" "0" =
      "ws://127.0.0.1:8000/v1/conversation/stream?" ++ query ∧
    (QueryParams.parse query).get "profile" = some "a&token=b" ∧
    (QueryParams.parse query).get "token" = none := by
  obtain ⟨query, hurl, -, -, hget⟩ :=
    upstream_query (QueryParams.parse forgedQuery) "http://127.0.0.1:8000" "0" (by decide)
  exact ⟨query, hurl, (hget "profile").trans (by decide), (hget "token").trans (by decide)⟩

end Livehost
