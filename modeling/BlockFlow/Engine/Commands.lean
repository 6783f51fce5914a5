import BlockFlow.Command.Json
import BlockFlow.Command.Line
import BlockFlow.Engine.Lifecycle
import BlockFlow.Text.Lines

/-!
# Commands

Commands come as lines, as texts and files of lines, and as structured commands; all of them end in
`exec`. A batch goes on after a command that fails, and its result counts the failures.

1. `exec`, `line`, `command`: one command.
2. `applyLines`, `loadText`, `loadFile`: texts and files of lines.
3. `loadBytes`: structured commands.
4. `dumpInto`: the records of all live blocks.
-/

namespace BlockFlow.Run

variable {K : Kit}

/-! ## One command -/

/-- An operation on a block that a command asks for. -/
def obey (call : Call K) (id : BlockId) : Order → Run K (Except EngineError Unit)
  | .add type => add id type
  | .init => do
    if (← manager).blocks.contains id then
      notify (.initIgnored id)
      return .ok ()
    else refuse (.notFound id) (.blockNotFound id)
  | .conf entry => conf call id entry
  | .bind port dest => bind call id port dest
  | .start => start call id
  | .stop => stop call id
  | .del => del id

def exec (call : Call K) (kind : CommandKind) (id : BlockId) (arg : Option String) :
    Run K (Except CommandError Unit) := do
  notify (.commandGiven id kind (arg.getD ""))
  if id.isSink then refuse (.commandForbidden kind) (.forbiddenId id)
  else
    match Order.ofArgument kind arg with
    | .error .missing => refuse (.argumentMissing id kind) (.missingArgument kind)
    | .error (.notABinding arg) => refuse (.bindInvalid id arg) (.invalidBind arg)
    | .ok order => return (← obey call id order).mapError .engine

def command (call : Call K) (c : Command) : Run K (Except CommandError Unit) :=
  exec call c.kind c.id c.arg?

def line (call : Call K) (cs : List Char) : Run K (Except CommandError Unit) :=
  match Line.parse cs with
  | .error .malformed =>
    refuse (.lineMalformed (String.ofList cs)) (.malformedLine (String.ofList cs))
  | .error (.unknownCode code) => refuse (.codeUnknown code) (.unknownCommand code)
  | .ok (kind, id, arg) => exec call kind id arg

/-! ## Lines -/

/-- How many entries there were and how many of them failed. -/
structure Tally where
  failed : Nat := 0
  total : Nat := 0
  deriving Repr, DecidableEq

/-- The result of entries that were all tried. -/
def Tally.result (t : Tally) : Except CommandError Unit :=
  if t.failed = 0 then .ok () else .error (.rejected t.failed t.total)

/-- One more entry. -/
def Tally.count {ε α : Type} (t : Tally) : Except ε α → Tally
  | .ok _ => { t with total := t.total + 1 }
  | .error _ => ⟨t.failed + 1, t.total + 1⟩

/-- Lines are executed in order; blank ones are passed over, and one that is no text fails. -/
def applyLines (call : Call K) :
    (number : Nat) → Tally → List (Except Text.Utf8.Damage (List Char)) → Run K Tally
  | _, tally, [] => return tally
  | number, tally, .error damage :: rest => do
    notify (.lineNotText number damage)
    applyLines call (number + 1) (tally.count (.error damage : Except _ Unit)) rest
  | number, tally, .ok cs :: rest => do
    if Text.isBlankText cs then applyLines call (number + 1) tally rest
    else
      let result ← line call cs
      applyLines call (number + 1) (tally.count result) rest

def loadText (call : Call K) (text : String) : Run K (Except CommandError Unit) :=
  return (← applyLines call 1 {} ((Text.lines text.toList).map .ok)).result

def loadFile (call : Call K) (path : String) : Run K (Except CommandError Unit) := do
  match (← host).files.read path with
  | .error cause => refuse (.fileUnreadable path cause) (.unreadable path cause)
  | .ok content => do
    let pieces := Text.piecesBy (· == Text.lineFeed) content
    let result := (← applyLines call 1 {} (pieces.map Text.Utf8.decode)).result
    match result with
    | .ok () => notify (.fileApplied path)
    | .error cause => notify (.fileRejected path cause)
    return result

/-! ## Structured commands -/

def applyCommands (call : Call K) : Tally → List Command → Run K Tally
  | tally, [] => return tally
  | tally, c :: cs => do
    let result ← command call c
    applyCommands call (tally.count result) cs

/-- The structured commands that bytes spell are executed. -/
def loadBytes (call : Call K) (bytes : List UInt8) : Run K (Except CommandError Unit) := do
  match Command.Batch.ofBytes bytes with
  | .error fault => refuse .batchUndecodable (.undecodable fault)
  | .ok (.one c) => command call c
  | .ok (.many cs) => return (← applyCommands call {} cs).result

/-! ## Records -/

/-- The records of all live blocks are written into a buffer: the number of bytes written, and the
buffer. -/
def dumpInto (buffer : List UInt8) : Run K (Nat × List UInt8) := do
  let dump := bytesOf (← manager).dump
  if buffer.length < dump.length then notify (.dumpCut dump.length buffer.length)
  return Buffer.write buffer dump

end BlockFlow.Run
