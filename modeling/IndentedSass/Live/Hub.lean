import IndentedSass.Fault

/-!
# Clients that listen for changes

Each client has a queue of messages that it has not taken yet. A broadcast puts a message into the
queue of every client that is subscribed; a client whose queue is full is dropped instead. A client
that is no longer subscribed can still take what is in its queue.
-/

namespace IndentedSass.Live

/-- A client: the messages that wait for it, the oldest first, and whether it is subscribed. -/
structure Client where
  queue : List Text
  isSubscribed : Bool
  deriving DecidableEq, Repr

namespace Client

/-- A client that has just subscribed. -/
def new : Client := ⟨[], true⟩

/-- The client without its subscription. -/
def close (c : Client) : Client := { c with isSubscribed := false }

/-- Offers a message to a client with room for `depth` messages. -/
def offer (depth : Nat) (message : Text) (c : Client) : Client :=
  if !c.isSubscribed then c
  else if c.queue.length < depth then { c with queue := c.queue ++ [message] }
  else c.close

/-- Takes the oldest message. -/
def take (c : Client) : Option Text × Client :=
  match c.queue with
  | [] => (none, c)
  | message :: rest => (some message, { c with queue := rest })

/-- Whether a client has taken all that it will ever get. -/
def isFinished (c : Client) : Bool := c.queue.isEmpty && !c.isSubscribed

end Client

/-- All clients that ever subscribed, in order, and how many messages each may have waiting. -/
structure Hub where
  depth : Nat
  clients : List Client
  deriving DecidableEq, Repr

namespace Hub

/-- How many messages may wait for a client, unless told otherwise. -/
def defaultDepth : Nat := 10

/-- A hub without clients. -/
def new (depth : Int) : Hub := ⟨if depth ≤ 0 then defaultDepth else depth.toNat, []⟩

/-- Adds a client, and gives its number. -/
def subscribe (h : Hub) : Nat × Hub :=
  (h.clients.length, { h with clients := h.clients ++ [.new] })

/-- Ends the subscription of a client; that may be done more than once. -/
def unsubscribe (i : Nat) (h : Hub) : Hub :=
  { h with clients := h.clients.modify i Client.close }

/-- Sends a message to every subscribed client. -/
def broadcast (message : Text) (h : Hub) : Hub :=
  { h with clients := h.clients.map (Client.offer h.depth message) }

/-- A client takes its oldest message. -/
def receive (i : Nat) (h : Hub) : Option Text × Hub :=
  match h.clients[i]? with
  | none => (none, h)
  | some c => ((c.take).1, { h with clients := h.clients.set i c.take.2 })

/-- A client takes all its messages. -/
def drain (i : Nat) (h : Hub) : List Text × Hub :=
  match h.clients[i]? with
  | none => ([], h)
  | some c => (c.queue, { h with clients := h.clients.set i { c with queue := [] } })

/-- How many clients are subscribed. -/
def subscribed (h : Hub) : Nat := h.clients.countP Client.isSubscribed

end Hub

end IndentedSass.Live
