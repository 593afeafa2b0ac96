import Livehost.QueryParams

/-!
# The URL of the page's session

`static/livehost.js`: the query that `startLhSession` builds from the controls of the page, and
appends to the URL of its WebSocket. The browser parses that URL before it sends the query.

The ids come from `crypto.randomUUID()`, the memory id also from `localStorage`, and the ticket from
the page's own URL. The text of a control is a string of Unicode characters: on a lone surrogate
`encodeURIComponent` would raise.
-/

namespace Livehost

open Infra

/-! ## The persona -/

/-- The persona of a blank field. -/
def defaultLivehostPersona : String :=
  "Bạn đang trực tiếp livestream trên TikTok với vai trò chủ kênh — không phải trợ lý ảo, " ++
  "đừng bao giờ tự nhận là AI/assistant. Trò chuyện tự nhiên, thân thiện, tự tin như một " ++
  "host thật đang dẫn chương trình.\n\nCác dòng bắt đầu bằng \"[TikTok @tên]: nội dung\" là " ++
  "bình luận thật của người xem trong buổi live — hãy đọc và phản hồi trực tiếp, gọi đúng " ++
  "tên người đó, như thể bạn vừa nghe thấy họ nói. Tương tự, thông báo về follow, gift, " ++
  "share, like là sự kiện thật đang diễn ra ngay lúc đó — hãy cảm ơn hoặc ăn mừng tự nhiên, " ++
  "đừng đọc lại nguyên văn như tin nhắn hệ thống. Phần trong ngoặc đơn ngay sau tên người " ++
  "xem (nếu có), ví dụ \"(đã bình luận 2 lần)\", là trí nhớ riêng của bạn về người xem đó " ++
  "từ những lần trước — hãy dùng nó để trò chuyện tiếp một cách tự nhiên, tuyệt đối không " ++
  "đọc to nguyên văn phần trong ngoặc đó.\n\nNói thẳng, dứt khoát — tránh rào đón kiểu \"có " ++
  "vẻ như\", \"có lẽ\", \"hình như\", \"mình nghĩ có thể\". Nếu không chắc một thông tin, " ++
  "hãy nói rõ là không chắc, đừng vòng vo."

/-- `TONE_DIRECTIVES`. -/
def toneDirectives : String → Option String
  | "serious" => some (
      "Tông giọng: nghiêm túc, điềm tĩnh, chuyên nghiệp. Đi thẳng vào nội dung, hạn chế đùa " ++
      "giỡn hay pha trò, không dùng ngôn ngữ quá suồng sã.")
  | "cheerful" => some (
      "Tông giọng: vui vẻ, năng lượng cao, hào hứng. Dùng câu cảm thán tự nhiên, phản ứng " ++
      "nhiệt tình với comment/gift/follow, giữ không khí sôi động.")
  | "playful" => some (
      "Tông giọng: cợt nhả, trêu chọc viewer một cách duyên dáng và thân thiện, hay đùa " ++
      "giỡn, thoải mái, không nghiêm trọng hoá vấn đề gì -- nhưng vẫn tôn trọng, không xúc " ++
      "phạm ai.")
  | _ => none

/-- `REPLY_LENGTH_DIRECTIVES`. -/
def replyLengthDirectives : String → Option String
  | "1" => some "Độ dài trả lời: đúng 1 câu, ngắn gọn, không lan man."
  | "1-2" => some "Độ dài trả lời: 1-2 câu."
  | "2-3" => some "Độ dài trả lời: 2-3 câu."
  | _ => none

/-- The characters that `String.prototype.trim` removes. -/
def jsIsSpace (c : Char) : Bool :=
  let n := c.toNat
  9 ≤ n && n ≤ 13 || n == 32 || n == 0xa0 || n == 0x1680 || 0x2000 ≤ n && n ≤ 0x200a ||
    n == 0x2028 || n == 0x2029 || n == 0x202f || n == 0x205f || n == 0x3000 || n == 0xfeff

/-- `s.trim()`. -/
def jsTrim (s : String) : String :=
  String.ofList ((s.toList.dropWhile jsIsSpace).rdropWhile jsIsSpace)

/-- `a || b`, of strings. -/
def jsOr (a b : String) : String := if a = "" then b else a

/-- The controls that `startLhSession` reads. -/
structure SessionForm where
  profile : String := ""
  /-- `dataset.systemPrompt` of the selected profile. -/
  profileSystemPrompt : String := ""
  ttsProfile : String := ""
  language : String := "vi"
  persona : String := ""
  tone : String := ""
  replyLength : String := ""
  idleTopic : String := ""
  skipLikeShare : Bool := false
  batchMinEvents : String := ""
  batchWaitSeconds : String := ""
  opus : Bool := false

/-- `finalPersona`: the typed persona, that of the profile, or the default one without a profile;
the directives follow it. -/
def SessionForm.finalPersona (form : SessionForm) : String :=
  let basePersona := jsOr (jsTrim form.persona)
    (if form.profile = "" then defaultLivehostPersona else form.profileSystemPrompt)
  let extraDirectives :=
    [toneDirectives form.tone, replyLengthDirectives form.replyLength].filterMap id
  "\n\n".intercalate ((basePersona :: extraDirectives).filter (· ≠ ""))

/-! ## The query -/

/-- `encodeURIComponent`. -/
def encodeURIComponent (s : String) : String :=
  String.ofList (Infra.encodeURIComponent s.toList)

/-- ``params += `&name=${raw}` ``. -/
def addParam (params name raw : String) : String := params ++ "&" ++ name ++ "=" ++ raw

/-- ``if (value) params += `&name=${encodeURIComponent(value)}` ``. -/
def addValue (params name value : String) : String :=
  if value = "" then params else addParam params name (encodeURIComponent value)

/-- `STREAM_SAMPLE_RATE`. -/
def streamSampleRate : String := "16000"

/-- The query of the WebSocket; `opusSupported` is `lhOpusSupported()`. -/
def SessionForm.streamQuery (form : SessionForm) (opusSupported : Bool)
    (sessionId memoryId ticket : String) : String :=
  let params := "session_id=" ++ encodeURIComponent sessionId
  let params := addParam params "sample_rate" streamSampleRate
  let params := addParam params "memory_id" (encodeURIComponent memoryId)
  let params := addValue params "profile" form.profile
  let params := addValue params "tts_profile" form.ttsProfile
  let params := addValue params "language" (jsTrim form.language)
  let params := addValue params "system_prompt" form.finalPersona
  let params := addValue params "idle_topic_seconds" form.idleTopic
  let params := if form.skipLikeShare then addParam params "skip_like_share" "1" else params
  let params := addValue params "batch_min_events" form.batchMinEvents
  let params := addValue params "batch_wait_seconds" form.batchWaitSeconds
  let params :=
    if form.opus && opusSupported then
      addParam (addParam (addParam params "output" "audio,text") "audio_out" "opus")
        "output_sample_rate" "24000"
    else params
  addParam params "ticket" (encodeURIComponent ticket)

/-- The query that the browser sends. -/
def browserQuery (query : String) : String := String.ofList (urlQuery query.toList)

end Livehost
