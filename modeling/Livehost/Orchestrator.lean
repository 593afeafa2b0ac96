import Livehost.Scheduler

/-!
# The orchestrator

`livehost/orchestrator.py`: the decision whether a social turn may start, and the text the turn
is spoken from.
-/

namespace Livehost

variable {σ : Type}

/-- An optional value in an f-string: `None` is printed as such. -/
def pyFormat {α : Type} [ToString α] : Option α → String
  | none => "None"
  | some a => toString a

/-- The viewer-memory note in parentheses, or nothing when there is none. -/
def noteSuffix (event : SocialEvent) : String :=
  if nonBlank event.viewerNote then " (" ++ event.viewerNote.getD "" ++ ")" else ""

/-- The line of one event. -/
def eventLine (event : SocialEvent) : String :=
  match event.kind with
  | .comment =>
    "[TikTok @" ++ event.userName ++ "]" ++ noteSuffix event ++ ": " ++ pyFormat event.text
  | .gift =>
    "[TikTok @" ++ event.userName ++ "]" ++ noteSuffix event ++ " sent a gift: " ++
      pyFormat event.giftName ++ " (value " ++ pyFormat event.giftValue ++ ")"
  | .follow =>
    "[TikTok @" ++ event.userName ++ "]" ++ noteSuffix event ++ " just followed the stream"
  | .share => "[TikTok @" ++ event.userName ++ "]" ++ noteSuffix event ++ " shared the stream"
  | .like => "[TikTok] " ++ toString (event.likeCount.getD 0) ++ " new likes"

/-- The line that reports the overflow of a batch. -/
def overflowLine (overflowCount : Nat) : List String :=
  if overflowCount = 0 then []
  else ["(and " ++ toString overflowCount ++ " more from other viewers)"]

def formatSocialTurn (turn : SocialTurn) : String :=
  "\n".intercalate (turn.events.map eventLine ++ overflowLine turn.overflowCount)

/-- `LiveHostOrchestrator.poll_social_turn`, with the scheduler it leaves. -/
def pollSocialTurn (scheduler : EventScheduler σ) (voiceActive : Bool) :
    Option (SocialTurn × String) × EventScheduler σ :=
  if voiceActive || !scheduler.hasPending then (none, scheduler)
  else
    match scheduler.nextTurn with
    | (none, scheduler) => (none, scheduler)
    | (some turn, scheduler) => (some (turn, formatSocialTurn turn), scheduler)

/-- With the streamer quiet and something pending there is a turn. -/
theorem pollSocialTurn_pending {scheduler : EventScheduler σ} (h : scheduler.hasPending = true) :
    ∃ turn scheduler', scheduler.nextTurn = (some turn, scheduler') ∧
      pollSocialTurn scheduler false = (some (turn, formatSocialTurn turn), scheduler') := by
  rcases scheduler.nextTurn_cases with ⟨hq, -⟩ | ⟨turn, -, -, pending, -, hn, -⟩
  · simp [EventScheduler.hasPending, hq] at h
  · exact ⟨turn, _, hn, by simp [pollSocialTurn, h, hn]⟩

end Livehost
