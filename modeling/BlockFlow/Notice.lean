import BlockFlow.Error
import BlockFlow.Timer
import BlockFlow.Text.Utf8
import BlockFlow.Watch.Basic

/-!
# Notices

The engine and its blocks tell what they do in notices. A notice has a level, a wording and fields;
here stands the whole list of them.

1. `Level`: how grave a notice is.
2. `Notice`: the notices of factories, blocks, flows, timers, descriptors, commands, and of the
   built-in blocks.
3. `level`, `message`, `fields`: how a notice is shown.
-/

namespace BlockFlow

/-- How grave a notice is. -/
inductive Level where
  | debug
  | info
  | warn
  | error
  deriving Repr, DecidableEq, Inhabited

namespace Level

/-- The rank of a level; graver levels have greater ranks. -/
def rank : Level → Nat
  | .debug => 0
  | .info => 1
  | .warn => 2
  | .error => 3

def name : Level → String
  | .debug => "DEBUG"
  | .info => "INFO"
  | .warn => "WARN"
  | .error => "ERROR"

def named? (s : String) : Option Level := [debug, info, warn, error].find? (·.name = s)

end Level

/-- Something that the engine or a block tells. -/
inductive Notice where
  -- factories
  | factoryRegistered (type : String)
  | factoryReplaced (type : String)
  -- blocks
  | addForbidden (id : BlockId)
  | addDuplicate (id : BlockId)
  | addUnknownType (type : String)
  | buildFailed (id : BlockId) (type : String)
  | added (id : BlockId) (type : String)
  | alreadyStarted (id : BlockId)
  | started (id : BlockId)
  | alreadyStopped (id : BlockId)
  | stopped (id : BlockId)
  | deleteStarted (id : BlockId)
  | deleteUnknownType (id : BlockId) (type : String)
  | deleted (id : BlockId)
  | bindUnknown (id dest : BlockId)
  | bound (id : BlockId) (port : Port) (dest : BlockId)
  | configured (id : BlockId) (conf : String)
  | forced (id : BlockId)
  | notFound (id : BlockId)
  | busy (id : BlockId)
  | reentrantDropped (id : BlockId)
  -- flows
  | controlUnknown (id : BlockId)
  | flowNotFound (id : BlockId) (kind : FlowKind)
  | flowNotStarted (id : BlockId) (kind : FlowKind)
  | flowStarted (id : BlockId) (port : Port) (kind : FlowKind)
  | flowVanished (id : BlockId) (kind : FlowKind)
  | flowUnbound (id : BlockId) (port : Port) (kind : FlowKind)
  | flowEnded (id : BlockId) (port : Port) (kind : FlowKind)
  | flowLimit (id : BlockId) (kind : FlowKind) (max : Nat)
  | flowLost (id : BlockId) (port : Port) (dest : BlockId) (kind : FlowKind)
  | flowRouted (id : BlockId) (port : Port) (dest : BlockId) (kind : FlowKind)
  | flowDropped (id : BlockId) (kind : FlowKind)
  -- timers
  | timerUnknownOwner (id : BlockId) (tid : TimerId)
  | timerOutOfRange (id : BlockId) (tid : TimerId)
  | timerArmed (id : BlockId) (tid : TimerId) (delay : Duration)
  | timerDisarmed (id : BlockId) (tid : TimerId)
  | timerOrphaned (id : BlockId) (tid : TimerId)
  | timerExpired (id : BlockId) (tid : TimerId)
  -- descriptors
  | socketSilent (owner : BlockId)
  | watchUnknownOwner (owner : BlockId) (fd : Fd)
  | watchRefused (owner : BlockId) (fd : Fd) (cause : WatchError)
  | watched (owner : BlockId) (fd : Fd)
  | unwatched (owner : BlockId) (fd : Fd)
  | pollFailed (cause : Host.Failure)
  | polled (size ready : Nat)
  | eventUnwatched (owner : BlockId) (fd : Fd)
  | eventOrphaned (owner : BlockId) (fd : Fd)
  -- commands
  | commandGiven (id : BlockId) (kind : CommandKind) (arg : String)
  | commandForbidden (kind : CommandKind)
  | argumentMissing (id : BlockId) (kind : CommandKind)
  | initIgnored (id : BlockId)
  | bindInvalid (id : BlockId) (arg : String)
  | lineMalformed (line : String)
  | codeUnknown (code : Int32)
  | fileUnreadable (path : String) (cause : Host.Failure)
  | fileApplied (path : String)
  | fileRejected (path : String) (cause : CommandError)
  | lineNotText (number : Nat) (damage : Text.Utf8.Damage)
  | batchUndecodable
  | dumpCut (needed capacity : Nat)
  -- the main loop
  | loopStarted
  | loopStopped
  -- hello blocks
  | helloBound (id : BlockId) (port : Port) (dest : BlockId)
  | helloStarted (id : BlockId) (name : String)
  | helloStopped (id : BlockId) (name : String)
  | helloConfigured (id : BlockId) (conf : String)
  | helloData (id : BlockId) (port : Port)
  -- servers
  | clientConnected (id : BlockId) (fd : Fd)
  | clientUnreadable (id : BlockId) (fd : Fd) (cause : Host.Failure)
  | clientCommandFailed (fd : Fd) (cause : CommandError)
  | clientUnreachable (fd : Fd) (cause : Host.Failure)
  | clientDisconnected (id : BlockId) (fd : Fd)
  | addressNotRemoved (path : String) (cause : Host.Failure)
  | entryUnknown (id : BlockId) (entry : String)
  | addressMissing (id : BlockId)
  | listenFailed (id : BlockId) (path : String) (cause : Host.Failure)
  | listening (id : BlockId) (path : String)
  | listeningStopped (id : BlockId)
  deriving Repr, DecidableEq

namespace Notice

def level : Notice → Level
  | .factoryRegistered _ => .debug
  | .factoryReplaced _ => .debug
  | .addForbidden _ => .warn
  | .addDuplicate _ => .warn
  | .addUnknownType _ => .warn
  | .buildFailed .. => .error
  | .added .. => .info
  | .alreadyStarted _ => .debug
  | .started _ => .info
  | .alreadyStopped _ => .debug
  | .stopped _ => .info
  | .deleteStarted _ => .warn
  | .deleteUnknownType .. => .error
  | .deleted _ => .info
  | .bindUnknown .. => .warn
  | .bound .. => .debug
  | .configured .. => .debug
  | .forced _ => .warn
  | .notFound _ => .warn
  | .busy _ => .warn
  | .reentrantDropped _ => .warn
  | .controlUnknown _ => .error
  | .flowNotFound .. => .warn
  | .flowNotStarted .. => .warn
  | .flowStarted .. => .debug
  | .flowVanished .. => .error
  | .flowUnbound .. => .error
  | .flowEnded .. => .debug
  | .flowLimit .. => .error
  | .flowLost .. => .error
  | .flowRouted .. => .debug
  | .flowDropped .. => .debug
  | .timerUnknownOwner .. => .error
  | .timerOutOfRange .. => .error
  | .timerArmed .. => .debug
  | .timerDisarmed .. => .debug
  | .timerOrphaned .. => .warn
  | .timerExpired .. => .debug
  | .socketSilent _ => .warn
  | .watchUnknownOwner .. => .error
  | .watchRefused .. => .error
  | .watched .. => .debug
  | .unwatched .. => .debug
  | .pollFailed _ => .error
  | .polled .. => .debug
  | .eventUnwatched .. => .debug
  | .eventOrphaned .. => .warn
  | .commandGiven .. => .debug
  | .commandForbidden _ => .error
  | .argumentMissing .. => .error
  | .initIgnored _ => .debug
  | .bindInvalid .. => .error
  | .lineMalformed _ => .error
  | .codeUnknown _ => .error
  | .fileUnreadable .. => .error
  | .fileApplied _ => .info
  | .fileRejected .. => .warn
  | .lineNotText .. => .error
  | .batchUndecodable => .error
  | .dumpCut .. => .warn
  | .loopStarted => .info
  | .loopStopped => .info
  | .helloBound .. => .debug
  | .helloStarted .. => .info
  | .helloStopped .. => .info
  | .helloConfigured .. => .debug
  | .helloData .. => .debug
  | .clientConnected .. => .debug
  | .clientUnreadable .. => .error
  | .clientCommandFailed .. => .debug
  | .clientUnreachable .. => .warn
  | .clientDisconnected .. => .debug
  | .addressNotRemoved .. => .debug
  | .entryUnknown .. => .warn
  | .addressMissing _ => .error
  | .listenFailed .. => .error
  | .listening .. => .info
  | .listeningStopped _ => .info

def message : Notice → String
  | .factoryRegistered _ => "Registered block factory"
  | .factoryReplaced _ => "Replaced block factory"
  | .addForbidden _ => "Forbidden block ID"
  | .addDuplicate _ => "Block already exists"
  | .addUnknownType _ => "No factory found for block type"
  | .buildFailed .. => "Failed to build block"
  | .added .. => "Add block"
  | .alreadyStarted _ => "Block already started"
  | .started _ => "Start block"
  | .alreadyStopped _ => "Block already stopped"
  | .stopped _ => "Stop block"
  | .deleteStarted _ => "Block not stopped"
  | .deleteUnknownType .. => "No factory found for block type"
  | .deleted _ => "Delete block"
  | .bindUnknown .. => "Binding destination not found"
  | .bound .. => "Bind block"
  | .configured .. => "Configure block"
  | .forced _ => "Force removal of block"
  | .notFound _ => "Block not found"
  | .busy _ => "Block busy in one of its callbacks"
  | .reentrantDropped _ => "Block busy, reentrant call dropped"
  | .controlUnknown _ => "Failed to notify block: unknown block"
  | .flowNotFound .. => "Block not found, flow dropped"
  | .flowNotStarted .. => "Block not started, flow dropped"
  | .flowStarted .. => "Start flow"
  | .flowVanished .. => "Block vanished during flow"
  | .flowUnbound .. => "No binding for port"
  | .flowEnded .. => "End of flow"
  | .flowLimit .. => "Flow hop limit reached"
  | .flowLost .. => "Destination block not found"
  | .flowRouted .. => "Route flow"
  | .flowDropped .. => "Flow dropped by block"
  | .timerUnknownOwner .. => "Cannot arm timer of unknown block"
  | .timerOutOfRange .. => "Timer delay out of range"
  | .timerArmed .. => "Arm timer"
  | .timerDisarmed .. => "Disarm timer"
  | .timerOrphaned .. => "Timer owner not found, timer dropped"
  | .timerExpired .. => "Timer expired"
  | .socketSilent _ => "Failed to query socket readiness: socket closed"
  | .watchUnknownOwner .. => "Descriptor owner not found"
  | .watchRefused _ _ cause => s!"Failed to watch descriptor: {cause.message}"
  | .watched .. => "Watch descriptor"
  | .unwatched .. => "Unwatch descriptor"
  | .pollFailed cause => s!"Failed to poll descriptors: {cause.message}"
  | .polled .. => "Descriptors ready"
  | .eventUnwatched .. => "Descriptor removed during poll, event dropped"
  | .eventOrphaned .. => "Descriptor owner not found, event dropped"
  | .commandGiven .. => "Execute block command"
  | .commandForbidden _ => "Forbidden block ID"
  | .argumentMissing .. => "Missing command argument"
  | .initIgnored _ => "Legacy init command ignored"
  | .bindInvalid _ arg => (CommandError.invalidBind arg).message
  | .lineMalformed _ => "Malformed configuration line"
  | .codeUnknown _ => "Unknown command value"
  | .fileUnreadable _ cause => s!"Failed to read configuration file: {cause.message}"
  | .fileApplied _ => "Configuration OK"
  | .fileRejected _ cause => s!"Configuration KO: {cause.message}"
  | .lineNotText _ damage => s!"Configuration line is not valid UTF-8: {damage.message}"
  | .batchUndecodable => "Malformed structured command"
  | .dumpCut .. => "Not enough space to dump blocks"
  | .loopStarted => "Started manager"
  | .loopStopped => "Stopped manager"
  | .helloBound .. => "Hello bind"
  | .helloStarted .. => "Hello world"
  | .helloStopped .. => "Goodbye world"
  | .helloConfigured .. => "Hello configure"
  | .helloData .. => "Hello data"
  | .clientConnected .. => "Client connected"
  | .clientUnreadable _ _ cause => s!"Failed to read from client: {cause.message}"
  | .clientCommandFailed _ cause => s!"Command failed: {cause.message}"
  | .clientUnreachable _ cause => s!"Failed to reply to client: {cause.message}"
  | .clientDisconnected .. => "Client disconnected"
  | .addressNotRemoved _ cause => s!"Socket file not removed: {cause.message}"
  | .entryUnknown .. => "Unknown configuration entry"
  | .addressMissing _ => "No socket path configured"
  | .listenFailed _ _ cause => s!"Failed to bind socket: {cause.message}"
  | .listening .. => "Listening for commands"
  | .listeningStopped _ => "Stopped listening for commands"

/-! ## Fields -/

/-- The field of the block that a notice is about. -/
def block (id : BlockId) : String × String := ("bk_id", id.toText)

def destination (id : BlockId) : String × String := ("bk_id_dst", id.toText)

def blockType (type : String) : String × String := ("bk_type", type)

def portField (port : Port) : String × String := ("port", textOfInt32 port)

def flow (kind : FlowKind) : String × String := ("flow", kind.label)

/-- The field of a timer number. -/
def timer (tid : TimerId) : String × String := ("tid", textOfInt32 tid)

/-- The field of a descriptor number. -/
def descriptor (fd : Fd) : String × String := ("fd", textOfInt32 fd)

def command (kind : CommandKind) : String × String := ("cmd", kind.label)

/-- The milliseconds of a delay as far as 64 bits hold them. -/
def shownMillis (d : Duration) : Nat := d.millis % UInt64.size

def fields : Notice → List (String × String)
  | .factoryRegistered type => [blockType type]
  | .factoryReplaced type => [blockType type]
  | .addForbidden id => [block id]
  | .addDuplicate id => [block id]
  | .addUnknownType type => [blockType type]
  | .buildFailed id type => [block id, blockType type]
  | .added id type => [block id, blockType type]
  | .alreadyStarted id => [block id]
  | .started id => [block id]
  | .alreadyStopped id => [block id]
  | .stopped id => [block id]
  | .deleteStarted id => [block id]
  | .deleteUnknownType id type => [block id, blockType type]
  | .deleted id => [block id]
  | .bindUnknown id dest => [block id, destination dest]
  | .bound id port dest => [block id, portField port, destination dest]
  | .configured id conf => [block id, ("conf", conf)]
  | .forced id => [block id]
  | .notFound id => [block id]
  | .busy id => [block id]
  | .reentrantDropped id => [block id]
  | .controlUnknown id => [block id]
  | .flowNotFound id kind => [block id, flow kind]
  | .flowNotStarted id kind => [block id, flow kind]
  | .flowStarted id port kind => [block id, portField port, flow kind]
  | .flowVanished id kind => [block id, flow kind]
  | .flowUnbound id port kind => [block id, portField port, flow kind]
  | .flowEnded id port kind => [block id, portField port, flow kind]
  | .flowLimit id kind max => [block id, flow kind, ("max", textOfNat max)]
  | .flowLost id port dest kind => [block id, portField port, destination dest, flow kind]
  | .flowRouted id port dest kind => [block id, portField port, destination dest, flow kind]
  | .flowDropped id kind => [block id, flow kind]
  | .timerUnknownOwner id tid => [block id, timer tid]
  | .timerOutOfRange id tid => [block id, timer tid]
  | .timerArmed id tid delay => [block id, timer tid, ("delay_ms", textOfNat (shownMillis delay))]
  | .timerDisarmed id tid => [block id, timer tid]
  | .timerOrphaned id tid => [block id, timer tid]
  | .timerExpired id tid => [block id, timer tid]
  | .socketSilent owner => [block owner]
  | .watchUnknownOwner owner fd => [block owner, descriptor fd]
  | .watchRefused owner fd _ => [block owner, descriptor fd]
  | .watched owner fd => [block owner, descriptor fd]
  | .unwatched owner fd => [block owner, descriptor fd]
  | .pollFailed _ => []
  | .polled size ready => [("poll_size", textOfNat size), ("ready", textOfNat ready)]
  | .eventUnwatched owner fd => [block owner, descriptor fd]
  | .eventOrphaned owner fd => [block owner, descriptor fd]
  | .commandGiven id kind arg => [block id, command kind, ("arg", arg)]
  | .commandForbidden kind => [command kind]
  | .argumentMissing id kind => [block id, command kind]
  | .initIgnored id => [block id]
  | .bindInvalid id _ => [block id]
  | .lineMalformed line => [("line", line)]
  | .codeUnknown code => [("code", textOfInt32 code)]
  | .fileUnreadable path _ => [("path", path)]
  | .fileApplied path => [("path", path)]
  | .fileRejected path _ => [("path", path)]
  | .lineNotText number _ => [("line", textOfNat number)]
  | .batchUndecodable => []
  | .dumpCut needed capacity => [("needed", textOfNat needed), ("capacity", textOfNat capacity)]
  | .loopStarted => []
  | .loopStopped => []
  | .helloBound id port dest => [block id, portField port, destination dest]
  | .helloStarted id name => [block id, ("name", name)]
  | .helloStopped id name => [block id, ("name", name)]
  | .helloConfigured id conf => [block id, ("conf", conf)]
  | .helloData id port => [block id, portField port]
  | .clientConnected id fd => [block id, descriptor fd]
  | .clientUnreadable id fd _ => [block id, descriptor fd]
  | .clientCommandFailed fd _ => [descriptor fd]
  | .clientUnreachable fd _ => [descriptor fd]
  | .clientDisconnected id fd => [block id, descriptor fd]
  | .addressNotRemoved path _ => [("path", path)]
  | .entryUnknown id entry => [block id, ("entry", entry)]
  | .addressMissing id => [block id]
  | .listenFailed id path _ => [block id, ("path", path)]
  | .listening id path => [block id, ("path", path)]
  | .listeningStopped id => [block id]

end Notice

end BlockFlow
