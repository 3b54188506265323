import IndentedSass.Fault

/-!
# The shared store

Instances of the service share finished style sheets through a store of texts under keys, and tell
each other about changes over the channels of the store. A store that is down answers nothing.
-/

namespace IndentedSass.Service

/-- A text in the store, and how long it is kept, in nanoseconds. -/
structure Stored where
  text : Text
  lifetime : Int
  deriving DecidableEq, Repr

/-- The texts by key, what was sent over channels, and whether the store is down. -/
structure Store where
  entries : List (Text × Stored)
  sent : List (Text × Text)
  isDown : Bool
  deriving DecidableEq, Repr

namespace Store

/-- An empty store. -/
def empty : Store := ⟨[], [], false⟩

/-- The text under a key. -/
def get? (s : Store) (key : Text) : Option Text :=
  if s.isDown then none else (s.entries.lookup key).map Stored.text

/-- Puts a text under a key, whatever state the store is in. -/
def force (key text : Text) (lifetime : Int) (s : Store) : Store :=
  { s with entries := s.entries.filter (fun entry => entry.1 != key) ++ [(key, ⟨text, lifetime⟩)] }

/-- Puts a text under a key. -/
def put (key text : Text) (lifetime : Int) (s : Store) : Store :=
  if s.isDown then s else s.force key text lifetime

/-- Sends a message over a channel. -/
def publish (channel message : Text) (s : Store) : Except Fault Unit × Store :=
  if s.isDown then (.error (.tagged "cannot send message" (.plain "redis down")), s)
  else (.ok (), { s with sent := s.sent ++ [(channel, message)] })

end Store

end IndentedSass.Service
