import Livehost.Properties.Orphans
import Livehost.Properties.FailedSend
import Livehost.Properties.Ownership
import Livehost.Properties.UpstreamDrop
import Livehost.Properties.Arbitration
import Livehost.Properties.Turns
import Livehost.Properties.OneConnection
import Livehost.Properties.Releases
import Livehost.Properties.Redial
import Livehost.Properties.Clock
import Livehost.Properties.BatchWindow
import Livehost.Properties.BatchTurn
import Livehost.Properties.EventLines
import Livehost.Properties.Priorities
import Livehost.Properties.Backoff
import Livehost.Properties.Abandoned
import Livehost.Properties.RedialContract
import Livehost.Properties.Callers
import Livehost.Properties.PageSession
import Livehost.Properties.ReplyFrames
import Livehost.Properties.OneStore
import Livehost.Properties.EventFlow
import Livehost.Properties.CallsReturn
import Livehost.Properties.DownRelay
import Livehost.Properties.Reports
import Livehost.Properties.Remembered
import Livehost.Properties.Quiescence
import Livehost.Properties.PageQuery
import Livehost.Properties.Downsampler
import Livehost.Spec.Coroutines
import Livehost.Spec.ViewerHistory
import Livehost.Spec.CommentWindow
import Livehost.Spec.Losses
import Livehost.Spec.OfflineSelection
import Livehost.Properties.Microphone
