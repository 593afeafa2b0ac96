import Livehost.Static.StartSession
import Livehost.Properties.UpstreamQuery

/-!
# What the page asks for

The controls of the page reach the plugin in the query that `startLhSession` builds, and from there
the gateway in the one that `build_upstream_url` builds. Whatever is typed into them, the plugin
reads what the page sent, and the gateway what the plugin passes on of it.

* `parse_streamQuery` — the plugin reads the pairs that the page wrote
* `page_to_gateway` — what the plugin and the gateway are told
-/

namespace Livehost

open Infra

/-! ## Pairs -/

/-- The pairs that the query is read as, behind the URL parser of the browser. -/
def Sent (query : String) (items : QueryParams) : Prop :=
  Spells query.toList (items.map fun (name, value) => (name.toList, value.toList))

theorem Sent.parse {query : String} {items : QueryParams} (h : Sent query items) :
    QueryParams.parse (browserQuery query) = items := by
  rw [QueryParams.parse, browserQuery, String.toList_ofList, Spells.parse h, List.map_map]
  simp [Function.comp_def]

/-- Text that is written into a query as it is. -/
def PlainText (s : String) : Prop := s.toList.all plainChar = true

instance (s : String) : Decidable (PlainText s) := inferInstanceAs (Decidable (_ = true))

theorem sent_first (name : String) (hname : PlainText name) (value : String) :
    Sent (name ++ "=" ++ encodeURIComponent value) [(name, value)] := by
  have h := Spells.one (clean_plain hname) (clean_encodeURIComponent value.toList)
  rw [sideText_plain hname, sideText_encodeURIComponent] at h
  simpa [Sent, encodeURIComponent] using h

variable {params : String} {items : QueryParams}

theorem Sent.encoded (h : Sent params items) (name : String) (hname : PlainText name)
    (value : String) :
    Sent (addParam params name (encodeURIComponent value)) (items ++ [(name, value)]) := by
  have h := h.append (clean_plain hname) (clean_encodeURIComponent value.toList)
  rw [sideText_plain hname, sideText_encodeURIComponent] at h
  simpa [Sent, addParam, encodeURIComponent] using h

theorem Sent.plain (h : Sent params items) (name value : String) (hname : PlainText name)
    (hvalue : PlainText value) : Sent (addParam params name value) (items ++ [(name, value)]) := by
  have h := h.append (clean_plain hname) (clean_plain hvalue)
  rw [sideText_plain hname, sideText_plain hvalue] at h
  simpa [Sent, addParam] using h

/-- The value, if it is not blank. -/
def nonblank (value : String) : Option String := if value = "" then none else some value

/-- The pair of a value that may be missing. -/
def itemOf (name : String) (value : Option String) : QueryParams :=
  (value.map (name, ·)).toList

/-- The pairs of the values that are there. -/
def Params.given (params : Params) : QueryParams :=
  params.flatMap fun (name, value) => itemOf name value

/-- What is looked up under a name. -/
def Params.value (params : Params) (name : String) : Option String := (params.lookup name).join

theorem get_given {params : Params} (h : (params.map Prod.fst).Nodup) (name : String) :
    params.given.get name = params.value name := by
  induction params with
  | nil => rfl
  | cons p params ih =>
    obtain ⟨first, value⟩ := p
    rw [List.map_cons, List.nodup_cons] at h
    have hget : QueryParams.get (itemOf first value) name =
        if name = first then value else none := by
      cases value <;> simp [itemOf]
    have hgiven : Params.given ((first, value) :: params) =
        itemOf first value ++ Params.given params := List.flatMap_cons
    rw [hgiven, QueryParams.get_append, hget, ih h.2, Params.value, Params.value, List.lookup_cons]
    by_cases hname : name = first
    · subst hname
      have hnone : params.lookup name = none := List.lookup_eq_none_iff.mpr fun p hp => by
        simp only [bne_iff_ne, ne_eq]
        exact fun hc => h.1 (List.mem_map.mpr ⟨p, hp, hc.symm⟩)
      simp [hnone]
    · simp [hname, beq_eq_false_iff_ne.mpr hname]

theorem Sent.value (h : Sent params items) (name : String) (hname : PlainText name)
    (value : String) :
    Sent (addValue params name value) (items ++ itemOf name (nonblank value)) := by
  unfold addValue
  split
  next hblank => simpa [itemOf, nonblank, hblank] using h
  next hvalue =>
    have hitem : itemOf name (nonblank value) = [(name, value)] := by
      simp [itemOf, nonblank, hvalue]
    rw [hitem]
    exact h.encoded name hname value

theorem Sent.plainIf (h : Sent params items) (name value : String) (hname : PlainText name)
    (hvalue : PlainText value) (b : Bool) :
    Sent (if b then addParam params name value else params)
      (items ++ itemOf name (if b then some value else none)) := by
  cases b with
  | false => simpa [itemOf] using h
  | true => exact h.plain name value hname hvalue

theorem Sent.queryIs {params' : String} {items' : QueryParams} (h : Sent params items)
    (hparams : params = params') (hitems : items = items') : Sent params' items' := by
  subst hparams hitems
  exact h

/-! ## The query of the page -/

/-- What the page sends, in order. -/
def SessionForm.sent (form : SessionForm) (opusSupported : Bool)
    (sessionId memoryId ticket : String) : Params :=
  let whenOpus (value : String) := if form.opus && opusSupported then some value else none
  [("session_id", some sessionId),
    ("sample_rate", some streamSampleRate),
    ("memory_id", some memoryId),
    ("profile", nonblank form.profile),
    ("tts_profile", nonblank form.ttsProfile),
    ("language", nonblank (jsTrim form.language)),
    ("system_prompt", nonblank form.finalPersona),
    ("idle_topic_seconds", nonblank form.idleTopic),
    ("skip_like_share", if form.skipLikeShare then some "1" else none),
    ("batch_min_events", nonblank form.batchMinEvents),
    ("batch_wait_seconds", nonblank form.batchWaitSeconds),
    ("output", whenOpus "audio,text"),
    ("audio_out", whenOpus "opus"),
    ("output_sample_rate", whenOpus "24000"),
    ("ticket", some ticket)]

variable (form : SessionForm) (opusSupported : Bool) (sessionId memoryId ticket : String)

/-- **The query spells out** what is sent. -/
theorem sent_streamQuery :
    Sent (form.streamQuery opusSupported sessionId memoryId ticket)
      (form.sent opusSupported sessionId memoryId ticket).given := by
  have h : Sent ("session_id=" ++ encodeURIComponent sessionId) [("session_id", sessionId)] :=
    sent_first "session_id" (by decide) sessionId
  have h := h.plain "sample_rate" streamSampleRate (by decide) (by decide)
  have h := h.encoded "memory_id" (by decide) memoryId
  have h := h.value "profile" (by decide) form.profile
  have h := h.value "tts_profile" (by decide) form.ttsProfile
  have h := h.value "language" (by decide) (jsTrim form.language)
  have h := h.value "system_prompt" (by decide) form.finalPersona
  have h := h.value "idle_topic_seconds" (by decide) form.idleTopic
  have h := h.plainIf "skip_like_share" "1" (by decide) (by decide) form.skipLikeShare
  have h := h.value "batch_min_events" (by decide) form.batchMinEvents
  have h := h.value "batch_wait_seconds" (by decide) form.batchWaitSeconds
  have h := h.plainIf "output" "audio,text" (by decide) (by decide) (form.opus && opusSupported)
  have h := h.plainIf "audio_out" "opus" (by decide) (by decide) (form.opus && opusSupported)
  have h := h.plainIf "output_sample_rate" "24000" (by decide) (by decide)
    (form.opus && opusSupported)
  have h := h.encoded "ticket" (by decide) ticket
  refine h.queryIs ?_ ?_
  · unfold SessionForm.streamQuery
    cases form.opus && opusSupported with
    | false => simp only [Bool.false_eq_true, if_false]
    | true => simp only [if_true]
  · simp only [List.append_assoc]
    rfl

/-- **The plugin reads what is sent.** -/
theorem parse_streamQuery :
    QueryParams.parse (browserQuery (form.streamQuery opusSupported sessionId memoryId ticket)) =
      (form.sent opusSupported sessionId memoryId ticket).given :=
  (sent_streamQuery form opusSupported sessionId memoryId ticket).parse

theorem get_sent (name : String) :
    (form.sent opusSupported sessionId memoryId ticket).given.get name =
      (form.sent opusSupported sessionId memoryId ticket).value name :=
  get_given (by simp [SessionForm.sent]) name

/-! ## The gateway -/

/-- What the gateway is told of it. -/
def SessionForm.told (form : SessionForm) (opusSupported : Bool) (sessionId : String) : Params :=
  let whenOpus (value : String) := if form.opus && opusSupported then some value else none
  [("profile", nonblank form.profile),
    ("tts_profile", nonblank form.ttsProfile),
    ("language", nonblank (jsTrim form.language)),
    ("sample_rate", some streamSampleRate),
    ("audio_out", whenOpus "opus"),
    ("output_sample_rate", whenOpus "24000"),
    ("output", some "audio,text"),
    ("system_prompt", nonblank form.finalPersona),
    ("session_id", some sessionId)]

@[simp] theorem nonblank_filter (value : String) :
    (nonblank value).filter (fun s => !decide (s = "")) = nonblank value := by
  by_cases h : value = "" <;> simp [nonblank, h]

/-- **What is passed on of it** is what the gateway is told. -/
theorem forwarded_sent {sessionId : String} (hid : sessionId ≠ "") (uuid4 name : String) :
    (form.sent opusSupported sessionId memoryId ticket).given.forwarded uuid4 name =
      (form.told opusSupported sessionId).value name := by
  unfold QueryParams.forwarded QueryParams.sessionId
  simp only [get_sent]
  split
  next hname =>
    subst hname
    have hsent : (form.sent opusSupported sessionId memoryId ticket).value "session_id" =
        some sessionId := rfl
    rw [hsent, pyOr, if_neg hid]
    rfl
  split
  next hname =>
    subst hname
    have hsent : (form.sent opusSupported sessionId memoryId ticket).value "output" =
        if form.opus && opusSupported then some "audio,text" else none := rfl
    rw [hsent]
    cases form.opus && opusSupported <;> rfl
  split
  next hpassed =>
    simp only [passedOn, List.mem_cons, List.not_mem_nil, or_false] at hpassed
    rcases hpassed with rfl | rfl | rfl | rfl | rfl | rfl | rfl | rfl | rfl | rfl
    all_goals
      simp only [Params.value, SessionForm.sent, SessionForm.told]
      cases form.opus && opusSupported <;> simp [List.lookup_cons, streamSampleRate]
  next hs ho hpassed =>
    simp only [passedOn, List.mem_cons, List.not_mem_nil, or_false, not_or] at hpassed
    have hnone : (form.told opusSupported sessionId).lookup name = none := by
      simp [SessionForm.told, hs, ho, hpassed]
    rw [Params.value, hnone]
    rfl

/--
**What the page asks for.** Whatever is typed into the controls: the plugin reads the pairs that the
page wrote, with the ticket, the ids and the switch as they are; and the gateway reads, under every
name, what the page told it, and nothing else.
-/
theorem page_to_gateway {sessionId : String} (hid : sessionId ≠ "") (gatewayUrl uuid4 : String) :
    let q := QueryParams.parse
      (browserQuery (form.streamQuery opusSupported sessionId memoryId ticket))
    q = (form.sent opusSupported sessionId memoryId ticket).given ∧
      q.ticket = ticket ∧ q.sessionId uuid4 = sessionId ∧ q.memoryId = memoryId ∧
      q.skipLikeShare = form.skipLikeShare ∧
      ∃ query, q.upstreamUrl gatewayUrl uuid4 = upstreamEndpoint gatewayUrl ++ query ∧
        ∀ name, (QueryParams.parse query).get name =
          (form.told opusSupported sessionId).value name := by
  rw [parse_streamQuery]
  have hor : ∀ value, pyOr (some value) "" = value := fun value => by
    unfold pyOr
    dsimp only
    split
    next h => exact h.symm
    · rfl
  have hsession : (form.sent opusSupported sessionId memoryId ticket).given.sessionId uuid4
      = sessionId := by
    rw [QueryParams.sessionId, get_sent]
    exact if_neg hid
  refine ⟨rfl, ?_, hsession, ?_, ?_, _, rfl, fun name => ?_⟩
  · rw [QueryParams.ticket, get_sent]
    exact hor ticket
  · rw [QueryParams.memoryId, get_sent]
    exact hor memoryId
  · rw [QueryParams.skipLikeShare, get_sent]
    have hsent : (form.sent opusSupported sessionId memoryId ticket).value "skip_like_share" =
        if form.skipLikeShare then some "1" else none := rfl
    rw [hsent]
    cases form.skipLikeShare <;> rfl
  · rw [get_upstream _ (by rwa [hsession])]
    exact forwarded_sent form opusSupported memoryId ticket hid uuid4 name

/-- A persona that spells out another parameter. -/
def forgedForm : SessionForm := { persona := "a&token=b#+%26 đ", profile := "host", opus := true }

/-- **The gateway reads one persona**, and no token. -/
theorem forgedForm_told : ∃ query,
    (QueryParams.parse (browserQuery (forgedForm.streamQuery true "1" "2" "3"))).upstreamUrl
      "https://gateway" "0" = "wss://gateway/v1/conversation/stream?" ++ query ∧
    (QueryParams.parse query).get "system_prompt" = some "a&token=b#+%26 đ" ∧
    (QueryParams.parse query).get "token" = none := by
  obtain ⟨-, -, -, -, -, query, hurl, hget⟩ :=
    page_to_gateway forgedForm true "2" "3" (show "1" ≠ "" by decide) "https://gateway" "0"
  exact ⟨query, hurl, (hget "system_prompt").trans (by decide), (hget "token").trans (by decide)⟩

end Livehost
