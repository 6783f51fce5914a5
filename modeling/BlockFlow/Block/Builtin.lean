import BlockFlow.Block.Hello
import BlockFlow.Block.Server
import BlockFlow.Engine.Perform

/-!
# The built-in blocks

There are two built-in kinds of blocks: hello blocks and command servers. Each has a type name of
its own.
-/

namespace BlockFlow

/-- The built-in kinds of blocks. -/
inductive BuiltinKind where
  | hello
  | server
  deriving Repr, DecidableEq, Inhabited

def BuiltinKind.typeName : BuiltinKind → String
  | .hello => "hello"
  | .server => "ncli"

/-- The contents of a built-in block. -/
inductive Builtin where
  | hello (h : Hello)
  | server (s : Server)
  deriving Repr, Inhabited

namespace Builtin

variable {F M : Type}

def build : BuiltinKind → Builtin
  | .hello => .hello {}
  | .server => .server {}

def hook (b : Builtin) (id : BlockId) (h : Hook) : Script F M Builtin Reply :=
  match b with
  | .hello c => (c.hook id h).mapState .hello
  | .server s => (s.hook id h).mapState .server

def report : Builtin → List UInt8 → Nat × List UInt8
  | .hello h => h.report
  | .server s => s.report

/-- What is left of a built-in block is closed. -/
def release : Builtin → Host → Host
  | .hello _ => id
  | .server s => s.release

/-- An engine that runs built-in blocks alone. -/
@[reducible] def kit : Kit where
  Factory := BuiltinKind
  Contents := Builtin
  Remark := Empty
  build := fun kind h => (some (build kind), h)
  hook := hook
  report := report
  release := release

def registerAll {K : Kit} (factory : BuiltinKind → K.Factory) : Run K Unit := do
  Run.register BuiltinKind.hello.typeName (factory .hello)
  Run.register BuiltinKind.server.typeName (factory .server)

end Builtin

end BlockFlow
