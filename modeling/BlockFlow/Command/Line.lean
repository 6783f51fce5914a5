import BlockFlow.Command.Basic
import BlockFlow.Error
import BlockFlow.Text.Blank

/-!
# Command lines

A line has the code of a command, a block number and an optional argument, set apart by blanks. What
the argument means depends on the kind of the command.

1. `Order`: what a command asks for once its argument is understood.
2. `bindArgument?`: a port and a destination with a colon between them.
3. `Line.parse`: the parts of a line.
-/

namespace BlockFlow

/-- What a command asks for. -/
inductive Order where
  | add (type : String)
  | init
  | conf (entry : String)
  | bind (port : Port) (dest : BlockId)
  | start
  | stop
  | del
  deriving Repr, DecidableEq, Inhabited

namespace Order

/-- The port and the destination that an argument names, the port before the first colon. -/
def bindArgument? (arg : List Char) : Option (Port × BlockId) := do
  let (port, dest) ← Text.cutAt? ':' (Text.trim arg)
  let port ← Text.Numeral.readInt32? (Text.trim port)
  let dest ← Text.Numeral.readInt32? (Text.trim dest)
  return (port, ⟨dest⟩)

/-- Why an argument is not understood. -/
inductive Fault where
  | missing
  | notABinding (arg : String)
  deriving Repr, DecidableEq

/-- What a kind of command asks for with an argument: the first token of the argument is a type, the
argument without the blanks around it is an entry. -/
def ofArgument (kind : CommandKind) (arg : Option String) : Except Fault Order :=
  match kind with
  | .add =>
    match arg.bind (Text.token? ·.toList) with
    | some (type, _) => .ok (.add (String.ofList type))
    | none => .error .missing
  | .init => .ok .init
  | .conf =>
    match arg.map (Text.trim ·.toList) with
    | some (c :: cs) => .ok (.conf (String.ofList (c :: cs)))
    | _ => .error .missing
  | .bind =>
    match arg with
    | none => .error .missing
    | some arg =>
      match bindArgument? arg.toList with
      | some (port, dest) => .ok (.bind port dest)
      | none => .error (.notABinding arg)
  | .start => .ok .start
  | .stop => .ok .stop
  | .del => .ok .del

end Order

namespace Line

/-- Why a line has no parts. -/
inductive Fault where
  | malformed
  | unknownCode (code : Int32)
  deriving Repr, DecidableEq

/-- The two leading numbers of a line, and the rest of it. -/
def numbers? (line : List Char) : Option (Int32 × Int32 × List Char) := do
  let (code, rest) ← Text.token? line
  let (id, rest) ← Text.token? rest
  return (← Text.Numeral.readInt32? code, ← Text.Numeral.readInt32? id, rest)

/-- The argument that the rest of a line is, if it is not blank. -/
def argument? (rest : List Char) : Option String :=
  match Text.trim rest with
  | [] => none
  | c :: cs => some (String.ofList (c :: cs))

/-- The parts of a line: the kind of the command, the block and the argument. -/
def parse (line : List Char) : Except Fault (CommandKind × BlockId × Option String) :=
  match numbers? line with
  | none => .error .malformed
  | some (code, id, rest) =>
    match CommandKind.ofCode? code with
    | none => .error (.unknownCode code)
    | some kind => .ok (kind, ⟨id⟩, argument? rest)

def render (kind : CommandKind) (id : BlockId) (arg : Option String) : String :=
  let head := s!"{textOfNat kind.code} {id.toText}"
  match arg with
  | some arg => s!"{head} {arg}"
  | none => head

end Line

end BlockFlow
