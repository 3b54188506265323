import IndentedSass.Live.Hub

/-!
# Connections of listening clients

A connection carries the messages of one client as frames, each of which has to be read within ten
seconds, and a ping every thirty seconds. Two parties send frames: the loop that passes on messages,
and the reader of what the client sends, which answers with a closing frame. Only one of them holds
the line at a time, and nothing can be sent after a closing frame or a frame that failed.

A connection moves by single steps (`step?`) until it blocks (`settle`); what is due later happens
as time passes (`advance`). Times are in milliseconds.
-/

namespace IndentedSass.Live

/-- What the server sends. -/
inductive Frame where
  | message (text : Text)
  | ping
  | close (code : Nat)
  deriving DecidableEq, Repr

/-- What a client sees: a frame, or that the connection is gone. -/
inductive Receipt where
  | frame (f : Frame)
  | lost
  deriving DecidableEq, Repr

/-- What the loop does that passes on messages: nothing, send a frame that is to be read until some
time, wait for the line to send one, or no longer run. -/
inductive Sender where
  | idle
  | sending (f : Frame) (due : Nat)
  | waiting (f : Frame) (due : Nat)
  | done
  deriving DecidableEq, Repr

/-- What the reader does: read, send a closing frame, wait for the line to send one, or no longer
run. -/
inductive Reader where
  | reading
  | sending (code due : Nat)
  | waiting (code due : Nat)
  | done
  deriving DecidableEq, Repr

/-- The state of a connection. -/
structure Connection where
  client : Client
  /-- Whether the client reads what is sent. -/
  isReading : Bool
  /-- Whether the client has hung up. -/
  isGone : Bool
  /-- Whether nothing can be sent any more. -/
  isBroken : Bool
  nextPing : Nat
  /-- Whether a ping is due. -/
  hasPing : Bool
  sender : Sender
  reader : Reader
  /-- What the client has seen, in order. -/
  seen : List Receipt
  deriving DecidableEq, Repr

namespace Connection

/-- The time that a frame of the loop has. -/
def sendTime : Nat := 10000

/-- The time that a closing frame of the reader has. -/
def closeTime : Nat := 1000

/-- The time between two pings. -/
def pingTime : Nat := 30000

/-- The longest message that a client may send. -/
def longestMessage : Nat := 512

/-- The codes of closing frames. -/
def closeNormal : Nat := 1000

/-- The code for a client that fell behind. -/
def closeGoingAway : Nat := 1001

/-- The code for a message that is too long. -/
def closeTooBig : Nat := 1009

/-- A connection of a client that has just subscribed. -/
def new (isReading : Bool) (now : Nat) : Connection :=
  ⟨.new, isReading, false, false, now + pingTime, false, .idle, .reading, []⟩

/-- The loop ends, and with it the subscription and the connection. -/
def endSender (c : Connection) : Connection :=
  { c with sender := .done, client := c.client.close }

/-- The reader ends, and with it the subscription. -/
def endReader (c : Connection) : Connection :=
  { c with reader := .done, client := c.client.close }

/-- The client sees something. -/
def see (r : Receipt) (c : Connection) : Connection := { c with seen := c.seen ++ [r] }

/-- The loop tries to send a frame. -/
def trySend (f : Frame) (now : Nat) (c : Connection) : Connection :=
  match c.reader with
  | .sending .. => { c with sender := .waiting f (now + sendTime) }
  | _ =>
    if c.isBroken then c.endSender else { c with sender := .sending f (now + sendTime) }

/-- The reader tries to answer with a closing frame. -/
def tryClose (code now : Nat) (c : Connection) : Connection :=
  match c.sender with
  | .sending .. => { c with reader := .waiting code (now + closeTime) }
  | _ => if c.isBroken then c.endReader else { c with reader := .sending code (now + closeTime) }

/-- A frame of the loop is read; after a closing frame the client hangs up. -/
def deliver (f : Frame) (c : Connection) : Connection :=
  let c := c.see (.frame f)
  match f with
  | .close _ => { c.endSender with isGone := true, isBroken := true }
  | _ => { c with sender := .idle }

/-- What the idle loop does next: pass on a message, close the connection when there will be no
more, or ping. -/
def nextSend? (now : Nat) (c : Connection) : Option Connection :=
  match c.client.take with
  | (some message, client) => some ({ c with client }.trySend (.message message) now)
  | (none, _) =>
    if !c.client.isSubscribed then some (c.trySend (.close closeGoingAway) now)
    else if c.hasPing then some ({ c with hasPing := false }.trySend .ping now)
    else none

/-- The next step at this very time, unless all is blocked. -/
def step? (now : Nat) (c : Connection) : Option Connection :=
  if c.isGone then
    if c.sender = .done && c.reader = .done then none else some c.endSender.endReader
  else if c.sender = .done then
    if c.reader != .done then some c.endReader
    else if c.isReading then some { c.see .lost with isGone := true }
    else none
  else
    match c.sender, c.reader with
    | .sending f _, _ => if c.isReading then some (c.deliver f) else none
    | _, .sending code _ =>
      if c.isReading then
        some { (c.see (.frame (.close code))).endReader with isGone := true, isBroken := true }
      else
        match c.sender with
        | .idle => c.nextSend? now
        | _ => none
    | _, .waiting code due =>
      some (if c.isBroken then c.endReader else { c with reader := .sending code due })
    | .waiting f due, _ =>
      some (if c.isBroken || due ≤ now then { c.endSender with isBroken := true }
        else { c with sender := .sending f due })
    | .idle, _ => c.nextSend? now
    | .done, _ => none

/-- Takes steps until all is blocked. -/
def settleFrom (now : Nat) : (fuel : Nat) → Connection → Connection
  | 0, c => c
  | fuel + 1, c =>
    match c.step? now with
    | none => c
    | some c => settleFrom now fuel c

/-- Takes steps until all is blocked. Every message takes two steps. -/
def settle (now : Nat) (c : Connection) : Connection :=
  settleFrom now (2 * c.client.queue.length + 16) c

/-! ## Time -/

/-- When something happens by itself. -/
def dueTimes (c : Connection) : List Nat :=
  let ping := if c.sender = .done then [] else [c.nextPing]
  let sender := match c.sender with
    | .sending _ due => [due]
    | .waiting (.message _) _ => []
    | .waiting _ due => [due]
    | _ => []
  let reader := match c.reader with
    | .sending _ due | .waiting _ due => [due]
    | _ => []
  ping ++ sender ++ reader

/-- What happens at a time: pings fall due, and frames that were not read fail. -/
def expire (now : Nat) (c : Connection) : Connection :=
  let c := if c.sender != .done && c.nextPing ≤ now then
      { c with hasPing := true, nextPing := c.nextPing + pingTime }
    else c
  let c := match c.sender with
    | .sending _ due => if due ≤ now then { c.endSender with isBroken := true } else c
    | .waiting (.message _) _ => c
    | .waiting _ due => if due ≤ now then c.endSender else c
    | _ => c
  match c.reader with
  | .sending _ due => if due ≤ now then { c.endReader with isBroken := true } else c
  | .waiting _ due => if due ≤ now then c.endReader else c
  | _ => c

/-- Lets time pass up to `target`. -/
def advanceFrom (target : Nat) : (fuel : Nat) → Connection → Connection
  | 0, c => c
  | fuel + 1, c =>
    match (c.dueTimes.filter (· ≤ target)).min? with
    | none => c
    | some now => advanceFrom target fuel ((c.expire now).settle now)

/-- Lets time pass from `now` up to `target`. -/
def advance (now target : Nat) (c : Connection) : Connection :=
  advanceFrom target (target - now + 4) c

/-! ## What clients do -/

/-- The client starts to read. -/
def resume (c : Connection) : Connection := { c with isReading := true }

/-- The client sends a message; one that is too long ends the connection. -/
def send (size now : Nat) (c : Connection) : Connection :=
  if size > longestMessage && !c.isGone && c.reader = .reading then c.tryClose closeTooBig now
  else c

/-- The client sends a closing frame, which is answered. -/
def sendClose (now : Nat) (c : Connection) : Connection :=
  if !c.isGone && c.reader = .reading then c.tryClose closeNormal now else c

/-- The client hangs up. -/
def hangUp (c : Connection) : Connection :=
  if c.isGone then c
  else { (if c.isReading then c.see .lost else c) with isGone := true }

end Connection

/-! ## All connections -/

/-- The connections of a server, in the order they were made, and the time. -/
structure Server where
  now : Nat
  connections : List Connection
  deriving DecidableEq, Repr

namespace Server

/-- A server without connections. -/
def new : Server := ⟨0, []⟩

/-- Lets every connection run until it blocks. -/
def settle (s : Server) : Server :=
  { s with connections := s.connections.map (Connection.settle s.now) }

/-- A client connects. -/
def connect (isReading : Bool) (s : Server) : Server :=
  settle { s with connections := s.connections ++ [Connection.new isReading s.now] }

/-- Sends a message to every subscribed client. -/
def broadcast (message : Text) (s : Server) : Server :=
  settle { s with connections := s.connections.map fun c =>
    { c with client := c.client.offer Hub.defaultDepth message } }

/-- Sends a message several times. -/
def broadcastTimes (message : Text) : (count : Nat) → Server → Server
  | 0, s => s
  | count + 1, s => broadcastTimes message count (s.broadcast message)

/-- A client does something. -/
def act (i : Nat) (f : Connection → Connection) (s : Server) : Server :=
  settle { s with connections := s.connections.modify i f }

/-- Time passes. -/
def sleep (duration : Nat) (s : Server) : Server :=
  let target := s.now + duration
  { now := target, connections := s.connections.map (Connection.advance s.now target) }

/-- How many clients are subscribed. -/
def subscribed (s : Server) : Nat := s.connections.countP fun c => c.client.isSubscribed

/-- What every client has seen since the last time, and the server after that. -/
def collect (s : Server) : List (List Receipt) × Server :=
  (s.connections.map Connection.seen,
    { s with connections := s.connections.map fun c => { c with seen := [] } })

end Server

end IndentedSass.Live
