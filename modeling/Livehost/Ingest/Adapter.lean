import Livehost.Api.Control
import Livehost.Ingest.Mappers

/-!
# The client adapter, and the server with its rooms

`livehost/ingest/tiktok.py`: a `TikTokLiveClientAdapter` puts what its listeners map into a queue of
its own, and the generator that `events()` returns takes one item after the other out of it. The
client of TikTokLive behind it calls the listeners when it likes.

`LiveServer` is the server with the adapters of every ingestor. What an `anext` of the ingestor
returns is no longer free: it is the front of the queue of the client it works with.
-/

namespace Livehost

open Infra

variable {σ β : Type}

structure TikTokLiveClientAdapter where
  /-- `None` is the signal to reconnect. -/
  queue : List (Option SocialEvent) := []
  deriving DecidableEq, Repr

/-- The events of TikTokLive that the adapter listens to. -/
inductive ClientEvent
  | social (event : TikTokEvent)
  | disconnect
  | liveEnd
  deriving DecidableEq, Repr

/-- What the listener of the event puts into the queue. -/
def ClientEvent.items : ClientEvent → List (Option SocialEvent)
  | .social event => (mapEvent event).toList.map some
  | .disconnect | .liveEnd => [none]

/-- `_on_comment`, `_on_gift`, `_on_like`, `_on_follow`, `_on_share` and `_on_disconnect`. -/
def TikTokLiveClientAdapter.on (a : TikTokLiveClientAdapter) (event : ClientEvent) :
    TikTokLiveClientAdapter :=
  { a with queue := a.queue ++ event.items }

/-- `await self._queue.get()` returns the item. -/
def TikTokLiveClientAdapter.get (a : TikTokLiveClientAdapter) (item : Option SocialEvent) :
    Option TikTokLiveClientAdapter :=
  match a.queue with
  | front :: queue => if front = item then some { queue } else none
  | [] => none

/-- What the generator yields to an `anext` with this outcome. -/
def RunAct.item : RunAct → Option (Option SocialEvent)
  | .event social => some (some social)
  | .streamEnds => some none
  | _ => none

/-- The adapters behind a step of the task, `none` where the adapter it works with does not give
what the step takes. Calling `events()` does not raise. -/
def adaptersAfter (adapters : List TikTokLiveClientAdapter) (act : RunAct) :
    Option (List TikTokLiveClientAdapter) :=
  match act.item, act with
  | some item, _ => do
    let a ← adapters.getLast?
    let a ← a.get item
    some (adapters.dropLast ++ [a])
  | none, .connected false => none
  | none, _ => some adapters

/-- The server, and for each handler the adapters of its ingestor's clients in the order they were
built. -/
structure LiveServer (σ β : Type) where
  server : Server σ β := .start
  adapters : Nat → List TikTokLiveClientAdapter := fun _ => []

inductive LiveAct (β : Type)
  /-- A client of a handler's ingestor calls a listener. -/
  | listener (i client : Nat) (event : ClientEvent)
  | server (act : ServerAct β)

namespace LiveServer

/-- The adapters that the factory has not made yet. -/
def withBuilt (s : LiveServer σ β) (i : Nat) (adapters : List TikTokLiveClientAdapter) :
    LiveServer σ β :=
  let clients := (s.server.streams i).ingestor.clients
  { s with
    adapters := Function.update s.adapters i
      (adapters ++ List.replicate (clients.length - adapters.length) {}) }

def step [Score σ] [PyLower] (s : LiveServer σ β) : LiveAct β → Option (LiveServer σ β)
  | .listener i client event =>
    if client < (s.adapters i).length then
      some { s with
        adapters := Function.update s.adapters i ((s.adapters i).modify client (·.on event)) }
    else none
  | .server (.stream i (.ingest (.run act))) => do
    let adapters ← adaptersAfter (s.adapters i) act
    let server ← serverStep s.server (.stream i (.ingest (.run act)))
    some ({ s with server }.withBuilt i adapters)
  | .server act => do
    let server ← serverStep s.server act
    some { s with server }

end LiveServer

end Livehost
