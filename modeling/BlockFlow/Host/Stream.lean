import BlockFlow.Host.Failure
import BlockFlow.Host.Message

/-!
# Streams

A connection has two ends, and what is sent at one end waits at the other one until it is taken. A
message is let in as long as those that wait do not take all the space there is.

1. `Side`, `Connection`, `Endpoint`: the two ends of a connection, and the name of one of them.
2. `enqueue`, `isReady`: how an end fills up, and what a poll sees of it.
3. `send`, `receive`, `endOutput`, `close`: what can be done at an end.
-/

namespace BlockFlow.Host

/-- One end of a connection. -/
structure Side where
  /-- The messages that wait to be taken, first one first. -/
  inbox : List (List UInt8) := []
  /-- Nothing more will arrive. -/
  inputEnded : Bool := false
  /-- Nothing more can be sent. -/
  outputEnded : Bool := false
  /-- The other end was closed before it took what had been sent from here. -/
  reset : Bool := false
  deriving Repr, DecidableEq, Inhabited

namespace Side

/-- The space that waiting messages have. -/
def capacity : Nat := 212992

/-- The space of all messages that wait. -/
def load (s : Side) : Nat := s.inbox.foldr (fun m n => Message.weight m.length + n) 0

/-- Whether one more message is let in. -/
def hasRoom (s : Side) : Bool := s.load < capacity

/-- Messages come in, in order, until there is no room: how many bytes came in, and the end after
it. -/
def enqueue (s : Side) : List (List UInt8) → Nat × Side
  | [] => (0, s)
  | m :: ms =>
    if s.hasRoom then
      let (n, s) := { s with inbox := s.inbox ++ [m] }.enqueue ms
      (m.length + n, s)
    else (0, s)

theorem flatten_enqueue (s : Side) (ms : List (List UInt8)) :
    (s.enqueue ms).2.inbox.flatten = s.inbox.flatten ++ ms.flatten.take (s.enqueue ms).1 := by
  induction ms generalizing s with
  | nil => simp [enqueue]
  | cons m ms ih =>
    rw [enqueue]
    split
    · simp [ih, List.take_append, List.take_of_length_le]
    · simp

/-- What an end is asked for in a poll, and what it has: input or its end, room for output. A
connection that ended both ways and one that was reset are always ready. -/
def isReady (own other : Side) (read write : Bool) : Bool :=
  (read && (!own.inbox.isEmpty || own.inputEnded)) || (write && other.load * 4 ≤ capacity) ||
    (own.inputEnded && own.outputEnded) || own.reset

end Side

/-- The two ends of a connection. -/
structure Connection where
  first : Side := {}
  second : Side := {}
  deriving Repr, DecidableEq, Inhabited

/-- An end of a connection: the number of the connection and which end it is. -/
structure Endpoint where
  connection : Nat
  isSecond : Bool
  deriving Repr, DecidableEq, Inhabited

/-- The other end of the same connection. -/
def Endpoint.other (e : Endpoint) : Endpoint := ⟨e.connection, !e.isSecond⟩

/-- How a stream goes on after what has been received. -/
inductive Ending where
  | ongoing
  | ended
  | failed (f : Failure)
  deriving Repr, DecidableEq, Inhabited

/-- All connections there have been, by number. -/
structure Streams where
  connections : List Connection := []
  deriving Repr, Inhabited

namespace Streams

/-- An end of a connection. -/
def side (t : Streams) (e : Endpoint) : Side :=
  let c := t.connections.getD e.connection {}
  if e.isSecond then c.second else c.first

/-- The connections with one end changed. -/
def modify (t : Streams) (e : Endpoint) (f : Side → Side) : Streams :=
  ⟨t.connections.modify e.connection fun c =>
    if e.isSecond then { c with second := f c.second } else { c with first := f c.first }⟩

/-- A new connection: its number, and the connections with it. -/
def connect (t : Streams) : Nat × Streams :=
  (t.connections.length, ⟨t.connections ++ [Connection.mk {} {}]⟩)

/-- Send bytes from an end: how many of them there was room for, and the connections after it. It
fails if there are bytes and no room for any. -/
def send (t : Streams) (e : Endpoint) (bytes : List UInt8) : Except Failure (Nat × Streams) :=
  if (t.side e).outputEnded then .error .brokenPipe
  else
    let (sent, other) := (t.side e.other).enqueue (Message.messages bytes)
    if sent = 0 && !bytes.isEmpty then .error .wouldBlock
    else .ok (sent, t.modify e.other fun _ => other)

/-- Take all that waits at an end: the bytes, and how the stream goes on. A reset is told once. -/
def receive (t : Streams) (e : Endpoint) : (List UInt8 × Ending) × Streams :=
  let s := t.side e
  let ending :=
    if s.reset then .failed .connectionReset else if s.inputEnded then .ended else .ongoing
  ((s.inbox.flatten, ending), t.modify e fun s => { s with inbox := [], reset := false })

def endOutput (t : Streams) (e : Endpoint) : Streams :=
  (t.modify e fun s => { s with outputEnded := true }).modify e.other fun s =>
    { s with inputEnded := true }

/-- Close an end. If `refused`, or if something waits there, the other end is reset. -/
def close (t : Streams) (e : Endpoint) (refused : Bool) : Streams :=
  let reset := refused || !(t.side e).inbox.isEmpty
  (t.modify e fun _ => { inputEnded := true, outputEnded := true }).modify e.other fun s =>
    { s with inputEnded := true, outputEnded := true, reset := s.reset || reset }

end Streams

end BlockFlow.Host
