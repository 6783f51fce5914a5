import BlockFlow.Duration
import BlockFlow.Host.Files
import BlockFlow.Host.Stream
import BlockFlow.Keyed

/-!
# The host

The host is what the engine runs on: a clock, files, open descriptors with their streams, sockets
that tell of their readiness themselves, and clients that talk to servers.

1. `Host`: its state; `now`, `pass`, `readClock`: its clock, which never goes back.
2. `listen`, `accept`, `receive`, `send`, `transmit`, `close`: open descriptors.
3. `connect`, `halfClose`, `hangUp`: clients.
4. `pollRaw`, `wait`, `reading`: what is ready.
-/

namespace BlockFlow

namespace Host

inductive Clock where
  /-- It moves only when it is told to. -/
  | manual (now : Instant)
  /-- It moves by itself. -/
  | running (now : Instant)
  deriving Repr, DecidableEq, Inhabited

namespace Clock

/-- The time of a clock. -/
def now : Clock → Instant
  | manual t => t
  | running t => t

/-- A clock when time has passed. One that moves by itself moves on, as far as there are
instants. -/
def pass (d : Duration) : Clock → Clock
  | manual t => manual t
  | running t => running ((t.later? d).getD t)

theorem now_le_pass (c : Clock) (d : Duration) : c.now ≤ (c.pass d).now := by
  cases c with
  | manual t => exact Nat.le_refl _
  | running t =>
    cases h : t.later? d with
    | none => simp [now, pass, h, Instant.le_def]
    | some u => simpa [now, pass, h] using Instant.le_of_later? h

end Clock

/-- What a descriptor is open on. -/
inductive Opened where
  | stream (e : Endpoint)
  /-- A listener with its number and the connections that wait to be accepted. -/
  | listener (number : Nat) (waiting : List Nat)
  deriving Repr, DecidableEq, Inhabited

/-- What a socket says of itself. -/
structure Reading where
  read : Bool := false
  write : Bool := false
  /-- The socket cannot tell. -/
  fails : Bool := false
  deriving Repr, DecidableEq, Inhabited

end Host

/-- The clock, the files, the streams and the clients around an engine. -/
structure Host where
  clock : Host.Clock
  files : Host.Files := .fresh
  streams : Host.Streams := {}
  descriptors : Keyed Fd Host.Opened := .empty
  /-- The number of listeners so far. -/
  listeners : Nat := 0
  sockets : Keyed String Host.Reading := .empty
  /-- The descriptors of clients by their names. -/
  clients : Keyed String Fd := .empty
  /-- The greatest number of descriptors of one poll. -/
  pollLimit : Nat := 512

namespace Host

/-- The time at which clocks start. -/
def start : Instant := ⟨1000000 * Duration.second⟩

/-- A host with a clock that has to be moved. -/
def manual : Host := { clock := .manual start }

/-- A host with a clock that moves by itself. -/
def running : Host := { clock := .running start }

instance : Inhabited Host := ⟨manual⟩

/-! ## Clock -/

def now (h : Host) : Instant := h.clock.now

def pass (h : Host) (d : Duration) : Host := { h with clock := h.clock.pass d }

/-- The time from one look at a clock to the next one, if nothing waits between them. -/
def tick : Duration := ⟨2 * Duration.micro⟩

/-- Look at the clock. A clock that moves by itself is later at the next look. -/
def readClock (h : Host) : Instant × Host := (h.now, h.pass tick)

/-! ## Descriptors -/

/-- The least descriptor number that is given to new descriptors. -/
def firstFd : Fd := 3

/-- The least number from `fd` on that is not open, among at most `n` numbers. -/
def lowestFree (h : Host) : Nat → Fd → Fd
  | 0, fd => fd
  | n + 1, fd => if h.descriptors.contains fd then lowestFree h n (fd + 1) else fd

def nextFd (h : Host) : Fd := h.lowestFree h.descriptors.size firstFd

/-- Open a descriptor: its number, and the host with it. -/
def openLowest (h : Host) (opened : Opened) : Fd × Host :=
  (h.nextFd, { h with descriptors := h.descriptors.insert h.nextFd opened })

/-- Close a descriptor. The connections that wait at a listener are refused. -/
def close (h : Host) (fd : Fd) : Host :=
  let closed := { h with descriptors := h.descriptors.erase fd }
  match h.descriptors.get? fd with
  | none => h
  | some (.stream e) => { closed with streams := h.streams.close e false }
  | some (.listener _ waiting) =>
    { closed with streams := waiting.foldl (fun t n => t.close ⟨n, true⟩ true) h.streams }

/-- Open a listener at an address. -/
def listen (h : Host) (path : String) : Except Failure Fd × Host :=
  match h.files.makeSocket path h.listeners with
  | .error f => (.error f, h)
  | .ok files =>
    let (fd, h) := { h with files, listeners := h.listeners + 1 }.openLowest
      (.listener h.listeners [])
    (.ok fd, h)

/-- The number of connections that wait at a listener. -/
def waiting (h : Host) (fd : Fd) : Nat :=
  match h.descriptors.get? fd with
  | some (.listener _ waiting) => waiting.length
  | _ => 0

/-- Accept the next connection that waits at a listener. -/
def accept (h : Host) (fd : Fd) : Option Fd × Host :=
  match h.descriptors.get? fd with
  | some (.listener number (n :: waiting)) =>
    let left := { h with descriptors := h.descriptors.insert fd (.listener number waiting) }
    let (fd, h) := left.openLowest (.stream ⟨n, true⟩)
    (some fd, h)
  | _ => (none, h)

/-- Take all that waits at a descriptor, and tell how its stream goes on. -/
def receive (h : Host) (fd : Fd) : (List UInt8 × Ending) × Host :=
  match h.descriptors.get? fd with
  | some (.stream e) =>
    let (received, streams) := h.streams.receive e
    (received, { h with streams })
  | some (.listener _ _) => (([], .failed .invalidArgument), h)
  | none => (([], .failed .badDescriptor), h)

/-- Send bytes at a descriptor: how many of them there was room for. -/
def send (h : Host) (fd : Fd) (bytes : List UInt8) : Except Failure Nat × Host :=
  match h.descriptors.get? fd with
  | some (.stream e) =>
    match h.streams.send e bytes with
    | .ok (sent, streams) => (.ok sent, { h with streams })
    | .error f => (.error f, h)
  | some (.listener _ _) => (.error .notConnected, h)
  | none => (.error .badDescriptor, h)

/-- Send all bytes at a descriptor. It fails if there is no room for all of them; those that there
was room for have been sent then. -/
def transmit (h : Host) (fd : Fd) (bytes : List UInt8) : Except Failure Unit × Host :=
  match h.send fd bytes with
  | (.ok sent, h) => (if sent < bytes.length then .error .wouldBlock else .ok (), h)
  | (.error f, h) => (.error f, h)

/-- Open a connection at two given descriptors, which are closed first. -/
def pair (h : Host) (a b : Fd) : Host :=
  let h := (h.close a).close b
  let (n, streams) := h.streams.connect
  let descriptors := (h.descriptors.insert a (.stream ⟨n, false⟩)).insert b (.stream ⟨n, true⟩)
  { h with streams, descriptors }

def removeFile (h : Host) (path : String) : Except Failure Unit × Host :=
  match h.files.remove path with
  | .ok files => (.ok (), { h with files })
  | .error f => (.error f, h)

/-! ## Clients -/

/-- The listening descriptor of a number. -/
def listenerFd? (h : Host) (number : Nat) : Option (Fd × List Nat) :=
  h.descriptors.toList.findSome? fun
    | (fd, .listener n waiting) => if n = number then some (fd, waiting) else none
    | _ => none

/-- Connect a client to an address. A client of the same name hangs up. -/
def connect (h : Host) (name path : String) : Except Failure Unit × Host :=
  match h.files.listenerAt path with
  | .error f => (.error f, h)
  | .ok number =>
    match h.listenerFd? number with
    | none => (.error .connectionRefused, h)
    | some (fd, waiting) =>
      let (n, streams) := h.streams.connect
      let queued := h.descriptors.insert fd (.listener number (waiting ++ [n]))
      let (own, h) := { h with streams, descriptors := queued }.openLowest (.stream ⟨n, false⟩)
      let h := match h.clients.get? name with
        | some old => h.close old
        | none => h
      (.ok (), { h with clients := h.clients.insert name own })

/-- A client hangs up; whether there was one. -/
def hangUp (h : Host) (name : String) : Bool × Host :=
  match h.clients.get? name with
  | some fd => (true, { h.close fd with clients := h.clients.erase name })
  | none => (false, h)

/-- A client ends its output. -/
def halfClose (h : Host) (fd : Fd) : Host :=
  match h.descriptors.get? fd with
  | some (.stream e) => { h with streams := h.streams.endOutput e }
  | _ => h

/-! ## Polling -/

/-- The longest time that a poll waits: as many milliseconds as a signed 32-bit integer counts. -/
def longestWait : Duration := .ofMillis (UInt32.size / 2 - 1)

/-- A poll without a result waits for as long as it may. -/
def wait (h : Host) (d : Duration) : Host := h.pass ⟨min d.nanos longestWait.nanos⟩

/-- Whether a descriptor is ready; a number that is not open always is. -/
def isReady (h : Host) (fd : Fd) (read write : Bool) : Bool :=
  match h.descriptors.get? fd with
  | none => true
  | some (.stream e) => (h.streams.side e).isReady (h.streams.side e.other) read write
  | some (.listener _ waiting) => read && !waiting.isEmpty

/-- Poll descriptors: how many are ready, and which ones. -/
def pollRaw (h : Host) (requests : List (Fd × Bool × Bool)) : Except Failure (Nat × List Bool) :=
  if h.pollLimit < requests.length then .error .invalidArgument
  else
    let ready := requests.map fun (fd, read, write) => h.isReady fd read write
    .ok (ready.count true, ready)

/-- What a socket says of itself. A socket that nothing is known of is not ready. -/
def reading (h : Host) (socket : String) : Reading := (h.sockets.get? socket).getD {}

end Host

end BlockFlow
