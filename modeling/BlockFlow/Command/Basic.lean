import BlockFlow.Json.Decode
import BlockFlow.Basic

/-!
# Structured commands

A command names what is to be done to a block. Each command is also a kind with a block and an
optional argument, which is how command lines write it.
-/

namespace BlockFlow

/-- A command to a block. -/
inductive Command where
  | add (id : BlockId) (type : String)
  | start (id : BlockId)
  | stop (id : BlockId)
  | del (id : BlockId)
  | conf (id : BlockId) (entry : String)
  | bind (id : BlockId) (port : Port) (dest : BlockId)
  deriving Repr, DecidableEq, Inhabited

namespace Command

def kind : Command → CommandKind
  | .add .. => .add
  | .start _ => .start
  | .stop _ => .stop
  | .del _ => .del
  | .conf .. => .conf
  | .bind .. => .bind

def id : Command → BlockId
  | .add id _ => id
  | .start id => id
  | .stop id => id
  | .del id => id
  | .conf id _ => id
  | .bind id _ _ => id

/-- A port and a destination, as the argument of a binding. -/
def bindArgument (port : Port) (dest : BlockId) : String :=
  s!"{textOfInt32 port}:{dest.toText}"

def arg? : Command → Option String
  | .add _ type => some type
  | .start _ => none
  | .stop _ => none
  | .del _ => none
  | .conf _ entry => some entry
  | .bind _ port dest => some (bindArgument port dest)

end Command

end BlockFlow
