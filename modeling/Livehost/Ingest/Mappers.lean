import Livehost.Schemas

/-!
# From TikTok events to social events

The mappers of `livehost/ingest/tiktok.py`, and the listeners that queue what they return. Of an
event of the TikTokLive package they read the fields that `TikTokEvent` has; the avatar, the random
id and the time go into fields that are left out.
-/

namespace Livehost

structure TikTokUser where
  uniqueId : String
  nickname : String
  deriving DecidableEq, Repr

structure TikTokGift where
  user : TikTokUser
  streaking : Bool
  giftName : String
  repeatCount : Int
  diamondCount : Int
  deriving DecidableEq, Repr

inductive TikTokEvent
  | comment (user : TikTokUser) (comment : String)
  | gift (event : TikTokGift)
  | like (user : TikTokUser) (count : Int)
  | follow (user : TikTokUser)
  | share (user : TikTokUser)
  deriving DecidableEq, Repr

def mapComment (user : TikTokUser) (comment : String) : SocialEvent :=
  { kind := .comment, userId := user.uniqueId, userName := user.nickname, text := some comment }

/-- `none` while the streak goes on, so that the value is final. -/
def mapGift (event : TikTokGift) : Option SocialEvent :=
  if event.streaking then none
  else
    some { kind := .gift, userId := event.user.uniqueId, userName := event.user.nickname
           giftName := some event.giftName
           giftValue := some (event.repeatCount * event.diamondCount) }

def mapLike (user : TikTokUser) (count : Int) : SocialEvent :=
  { kind := .like, userId := user.uniqueId, userName := user.nickname, likeCount := some count }

def mapFollow (user : TikTokUser) : SocialEvent :=
  { kind := .follow, userId := user.uniqueId, userName := user.nickname }

def mapShare (user : TikTokUser) : SocialEvent :=
  { kind := .share, userId := user.uniqueId, userName := user.nickname }

/-- What the listener of the event puts into the queue. -/
def mapEvent : TikTokEvent → Option SocialEvent
  | .comment user comment => some (mapComment user comment)
  | .gift event => mapGift event
  | .like user count => some (mapLike user count)
  | .follow user => some (mapFollow user)
  | .share user => some (mapShare user)

/-- An event as the drain loop gets it from the mappers, with the note it fills in. -/
def Mapped (event : SocialEvent) : Prop :=
  ∃ (source : TikTokEvent) (social : SocialEvent) (note : Option String),
    mapEvent source = some social ∧ event = { social with viewerNote := note }

/-- A gift has a value and no text. -/
theorem Mapped.gift {event : SocialEvent} (h : Mapped event) (hkind : event.kind = .gift) :
    event.text = none ∧ ∃ value, event.giftValue = some value := by
  obtain ⟨source, social, note, hmap, rfl⟩ := h
  cases source with
  | gift source =>
    simp only [mapEvent, mapGift] at hmap
    split at hmap <;> cases hmap
    exact ⟨rfl, _, rfl⟩
  | comment | like | follow | share =>
    cases hmap
    cases hkind

end Livehost
