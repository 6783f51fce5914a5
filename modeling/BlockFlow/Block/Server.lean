import BlockFlow.Buffer
import BlockFlow.Script
import BlockFlow.Text.Lines
import BlockFlow.Text.Utf8

/-!
# Command servers

A server listens at the address that its configuration names and executes the commands that its
clients send, one in a line. A line that begins with a brace is a structured command. Every line
that is not blank gets a reply: whether it succeeded, and the records of all live blocks after it.

1. `Server`, `Client`: the contents of a server.
2. `configure`, `start`, `stop`: its life.
3. `acceptClients`, `serve`: what it does when one of its descriptors is ready.
4. `hook`, `report`, `release`: the server as a block.
-/

namespace BlockFlow

/-- A client of a server and the bytes of it that are no whole line yet. -/
structure Client where
  fd : Fd
  pending : List UInt8 := []
  deriving Repr, DecidableEq, Inhabited

/-- The contents of a server. -/
structure Server where
  path : Option String := none
  listener : Option Fd := none
  clients : List Client := []
  /-- The number of lines executed, and of those that failed. Counters of 64 bits hold them; that
  these overflow is out of scope here. -/
  commands : Nat := 0
  failures : Nat := 0
  deriving Repr, DecidableEq, Inhabited

namespace Server

open Script

variable {F M S : Type}

def report (s : Server) (buffer : List UInt8) : Nat × List UInt8 :=
  let clients := textOfNat s.clients.length
  let commands := textOfNat s.commands
  let failures := textOfNat s.failures
  Buffer.write buffer (bytesOf s!"clients={clients} commands={commands} failures={failures}")

def descriptors (s : Server) : List Fd := s.listener.toList ++ s.clients.map (·.fd)

/-- All that a server has open is closed. -/
def release (s : Server) (h : Host) : Host := s.descriptors.foldl Host.close h

/-! ## Configuration, start and stop -/

/-- The address that an entry of the configuration names. -/
def address? (entry : List Char) : Option (List Char) :=
  match Text.cutAt? '=' entry with
  | some (key, value) =>
    if key = ['p', 'a', 't', 'h'] && !value.isEmpty then some value else none
  | none => none

/-- Entries of the configuration are applied in order. -/
def applyEntries (id : BlockId) : Server → List (List Char) → Script F M S Server
  | s, [] => return s
  | s, entry :: entries =>
    match address? entry with
    | some path => applyEntries id { s with path := some (String.ofList path) } entries
    | none => do
      notify (.entryUnknown id (String.ofList entry))
      applyEntries id s entries

/-- The configuration is a text of entries with blanks between them. -/
def configure (s : Server) (id : BlockId) (conf : String) : Script F M S Server :=
  applyEntries id s (Text.words conf.toList)

/-- The server begins to listen. A file at its address is removed first. -/
def start (s : Server) (id : BlockId) : Script F M S Server := do
  match s.path with
  | none => do
    notify (.addressMissing id)
    return s
  | some path => do
    discard (ask (.removeFile path))
    match ← ask (.listen path) with
    | .error f => do
      notify (.listenFailed id path f)
      return s
    | .ok fd => do
      match ← ask (.watch (.reading id fd)) with
      | .error _ => do
        ask (.close fd)
        return s
      | .ok () => do
        notify (.listening id path)
        return { s with listener := some fd }

/-- Descriptors are not watched any more. -/
def unwatchAll (id : BlockId) : List Fd → Script F M S Unit
  | [] => return
  | fd :: fds => do
    ask (.unwatch (.reading id fd))
    unwatchAll id fds

def closeAll : List Fd → Script F M S Unit
  | [] => return
  | fd :: fds => do
    ask (.close fd)
    closeAll fds

def removeAddress (s : Server) : Script F M S Unit :=
  match s.path with
  | none => return
  | some path => do
    match ← ask (.removeFile path) with
    | .ok () => return
    | .error f => notify (.addressNotRemoved path f)

/-- The server stops to listen and hangs up on its clients. -/
def stop (s : Server) (id : BlockId) : Script F M S Server := do
  let fds := s.clients.map (·.fd)
  unwatchAll id fds
  closeAll fds
  unwatchAll id s.listener.toList
  closeAll s.listener.toList
  removeAddress s
  notify (.listeningStopped id)
  return { s with clients := [], listener := none }

/-! ## Clients -/

/-- Waiting clients are accepted, at most `n` of them. A client whose descriptor cannot be watched
is hung up on. -/
def acceptClients (id : BlockId) (listener : Fd) : Nat → Server → Script F M S Server
  | 0, s => return s
  | n + 1, s => do
    match ← ask (.accept listener) with
    | none => return s
    | some fd => do
      match ← ask (.watch (.reading id fd)) with
      | .ok () => do
        notify (.clientConnected id fd)
        acceptClients id listener n { s with clients := s.clients ++ [{ fd }] }
      | .error _ => do
        ask (.close fd)
        acceptClients id listener n s

/-- A command line is executed: whether it succeeded. -/
def execute (fd : Fd) (line : List Char) : Script F M S Bool := do
  let result ←
    if line.head? = some '\x7b' then ask (.loadBytes (Text.Utf8.encode line))
    else ask (.line (String.ofList line))
  match result with
  | .ok () => return true
  | .error e => do
    notify (.clientCommandFailed fd e)
    return false

def reply (succeeded : Bool) (dump : String) : String :=
  (if succeeded then "OK " else "KO ") ++ dump ++ "\n"

/-- The whole lines of received bytes, and the bytes after the last of them. -/
def splitLines (bytes : List UInt8) : List (List UInt8) × List UInt8 :=
  let pieces := Text.piecesBy (· == Text.lineFeed) bytes
  (pieces.dropLast, pieces.getLast (Text.piecesBy_ne_nil _ _))

/-- The bytes of whole lines and of what follows the last of them. -/
def joinLines (lines : List (List UInt8)) (rest : List UInt8) : List UInt8 :=
  lines.flatMap (· ++ [Text.lineFeed]) ++ rest

/-- The server without a client. -/
def forget (s : Server) (fd : Fd) : Server :=
  { s with clients := s.clients.filter (·.fd ≠ fd) }

/-- The server with other pending bytes of a client. -/
def hold (s : Server) (fd : Fd) (pending : List UInt8) : Server :=
  { s with clients := s.clients.map fun c => if c.fd = fd then { c with pending } else c }

/-- Lines of a client are executed in order, each with its reply, while the client can be reached;
whether it still can. A line is counted and taken from the pending bytes, which end in `rest`,
before it is executed. -/
def serveLines (fd : Fd) (rest : List UInt8) :
    Server → List (List UInt8) → Script F M Server (Server × Bool)
  | s, [] => return (s, true)
  | s, bytes :: lines =>
    match Text.trim (Text.Utf8.decodeLenient bytes) with
    | [] => serveLines fd rest s lines
    | c :: cs => do
      let s := { s with commands := s.commands + 1 }
      leaveAs (s.hold fd (joinLines lines rest))
      let succeeded ← execute fd (c :: cs)
      let s := { s with failures := if succeeded then s.failures else s.failures + 1 }
      let dump ← ask .dump
      match ← ask (.transmit fd (bytesOf (reply succeeded dump))) with
      | .ok () => serveLines fd rest s lines
      | .error f => do
        notify (.clientUnreachable fd f)
        return (s, false)

/-- A client that is ready is served: what it sent is received, and its whole lines are executed. -/
def serve (s : Server) (id : BlockId) (fd : Fd) : Script F M Server Server := do
  match s.clients.find? (·.fd = fd) with
  | none => return s
  | some client => do
    let (bytes, ending) ← ask (.receive fd)
    match ending with
    | .failed f => notify (.clientUnreadable id fd f)
    | _ => pure ()
    let (lines, pending) := splitLines (client.pending ++ bytes)
    let (s, reachable) ← serveLines fd pending s lines
    if reachable && ending = .ongoing then return s.hold fd pending
    else
      notify (.clientDisconnected id fd)
      ask (.unwatch (.reading id fd))
      ask (.close fd)
      return s.forget fd

/-- A descriptor of the server is ready. -/
def onEvent (s : Server) (id : BlockId) (w : Watch) : Script F M Server Server := do
  if s.listener = some w.source.fd then
    let n ← ask (.waiting w.source.fd)
    acceptClients id w.source.fd n s
  else serve s id w.source.fd

/-! ## The server as a block -/

/-- The script that leaves a server as the result of another one. -/
def leaving (script : Script F M Server Server) : Script F M Server Reply := do
  leaveAs (← script)
  return {}

def hook (s : Server) (id : BlockId) : Hook → Script F M Server Reply
  | .start => leaving (s.start id)
  | .stop => leaving (s.stop id)
  | .configure conf => leaving (s.configure id conf)
  | .event w => leaving (s.onEvent id w)
  | .data payload => return ⟨stopPort, payload⟩
  | .control payload => return ⟨stopPort, payload⟩
  | .bind _ _ => return {}
  | .timer _ => return {}

end Server

end BlockFlow
