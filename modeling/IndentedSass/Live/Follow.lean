import IndentedSass.Live.Event
import IndentedSass.Live.Hub
import IndentedSass.Service.Store
import IndentedSass.Watch

/-!
# Following a template location

Watches a template location and tells the clients about every batch of changes. With a shared store
an event is sent over a channel, and every instance that listens there passes it on to its clients.
-/

namespace IndentedSass.Live
open Service

/-- The channel that events are sent over. -/
def channel : Text := "sass:changed"

/-- How events reach the clients: directly, or over the channel of a store. -/
inductive Route where
  | direct
  | through (store : Store)

/-- Sends an event on its way: the route after that, and whether the clients get the event. An event
that cannot be sent is lost. -/
def Route.send (text : Text) : Route → Bool × Route
  | .direct => (true, .direct)
  | .through store =>
    match store.publish channel text with
    | (.ok (), store) => (true, .through store)
    | (.error _, store) => (false, .through store)

/-- A template location that is followed. -/
structure Follower where
  location : Text
  machine : Machine
  watched : Watch.Watched
  hub : Hub
  route : Route

namespace Follower

/-- Starts to follow a location. -/
def start (location : Text) (m : Machine) (depth : Int) (route : Route) :
    Except Fault Follower := do
  checkLocation location
  let watched ← Watch.start location Library.extension m
  return ⟨location, m, watched, .new depth, route⟩

/-- A client subscribes. -/
def subscribe (f : Follower) : Follower := { f with hub := f.hub.subscribe.2 }

/-- Some deeds fall close together; if they change source files, the clients hear of it. -/
def step (deeds : List Watch.Deed) (f : Follower) : Follower :=
  let (machine, watched, noticed) := Watch.notice f.watched f.machine deeds
  match Watch.batchOf? Library.extension noticed with
  | none => { f with machine, watched }
  | some changed =>
    let watched := Watch.refresh f.location Library.extension machine watched
    let text := event f.location changed
    let (reaches, route) := f.route.send text
    let hub := if reaches then f.hub.broadcast text else f.hub
    { f with machine, watched, hub, route }

/-- A client takes its messages. -/
def drain (i : Nat) (f : Follower) : List Text × Follower :=
  let (messages, hub) := f.hub.drain i
  (messages, { f with hub })

end Follower

end IndentedSass.Live
