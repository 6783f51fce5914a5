import BlockFlow.Duration
import BlockFlow.Host.Failure
import BlockFlow.Json.Reader
import BlockFlow.Text.Quoted

/-!
# Errors of the engine and of its commands

1. `EngineError`: why an operation on blocks or timers is refused.
2. `CommandError`: why a command, a line or a batch of them fails.
-/

namespace BlockFlow

/-- Why an operation on blocks or timers is refused. -/
inductive EngineError where
  | forbiddenId (id : BlockId)
  | duplicateBlock (id : BlockId)
  | unknownType (type : String)
  | constructionFailed (type : String)
  | blockNotFound (id : BlockId)
  | blockStarted (id : BlockId)
  | blockBusy (id : BlockId)
  | delayOutOfRange (delay : Duration)
  deriving Repr, DecidableEq, Inhabited

def EngineError.message : EngineError → String
  | .forbiddenId id => s!"Forbidden block ID: {id.toText}"
  | .duplicateBlock id => s!"Block already exists: {id.toText}"
  | .unknownType type => s!"No factory found for block type: {type}"
  | .constructionFailed type => s!"Failed to build block of type: {type}"
  | .blockNotFound id => s!"Block not found: {id.toText}"
  | .blockStarted id => s!"Block not stopped: {id.toText}"
  | .blockBusy id => s!"Block busy in one of its callbacks: {id.toText}"
  | .delayOutOfRange delay => s!"Timer delay out of range: {delay.toText}"

/-- Why a command fails. -/
inductive CommandError where
  | unreadable (path : String) (cause : Host.Failure)
  | malformedLine (line : String)
  | unknownCommand (code : Int32)
  | forbiddenId (id : BlockId)
  | missingArgument (kind : CommandKind)
  | invalidBind (arg : String)
  | undecodable (fault : Json.Fault)
  | engine (cause : EngineError)
  | rejected (failed total : Nat)
  deriving Repr, DecidableEq, Inhabited

def CommandError.message : CommandError → String
  | .unreadable path cause => s!"Failed to read configuration file {path}: {cause.message}"
  | .malformedLine line => s!"Malformed configuration line: {quote line}"
  | .unknownCommand code => s!"Unknown command value: {textOfInt32 code}"
  | .forbiddenId id => s!"Forbidden block ID: {id.toText}"
  | .missingArgument kind => s!"Missing argument for {kind.label}"
  | .invalidBind arg => s!"Corrupted binding parameters: {quote arg}"
  | .undecodable _ => "Malformed structured command"
  | .engine cause => cause.message
  | .rejected failed total => s!"{failed} of {total} configuration entries failed"

end BlockFlow
