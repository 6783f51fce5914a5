import BlockFlow.Basic
import BlockFlow.Json.Decode
import BlockFlow.Json.Printer

/-!
# Bindings

A binding leads from a port of a block to a destination. A block has its bindings in the order in
which they were made, and the first one of a port is the one that counts.
-/

namespace BlockFlow

/-- A port of a block and where it leads. -/
structure Binding where
  port : Port
  dest : BlockId
  deriving Repr, DecidableEq, Inhabited

namespace Binding

/-- The first binding of a port. -/
def route? (bindings : List Binding) (port : Port) : Option Binding :=
  bindings.find? (·.port = port)

/-- Bindings added at the end leave the routes there are as they are. -/
theorem route?_append {bs : List Binding} {port : Port} {b : Binding} (h : route? bs port = some b)
    (cs : List Binding) : route? (bs ++ cs) port = some b := by
  rw [route?] at h ⊢
  simp [h]

def fieldNames : String × String := ("port", "dest")

def toJson (b : Binding) : Json :=
  .object [(fieldNames.1, .ofInt b.port.toInt), (fieldNames.2, .ofInt b.dest.value.toInt)]

open Json Reader

def readId : Reader BlockId := BlockId.mk <$> int32

/-- The fields of a binding that were read so far, with one more. -/
def readMember (n : Nat) (fields : Option Port × Option BlockId) (name : String) :
    Reader (Option Port × Option BlockId) := do
  if name = fieldNames.1 then return (← once fields.1 int32, fields.2)
  else if name = fieldNames.2 then return (fields.1, ← once fields.2 readId)
  else
    colon
    ignored n
    return fields

def read (n : Nat) : Reader Binding := do
  match ← peek with
  | some '[' => do
    skip
    let port ← required (← item true int32)
    let dest ← required (← item false readId)
    closing ']'
    return ⟨port, dest⟩
  | some '\x7b' => do
    skip
    let fields ← members n (readMember n) (none, none)
    return ⟨← required fields.1, ← required fields.2⟩
  | _ => otherKind

/-- The binding whose JSON form a text spells. -/
def ofText (cs : List Char) : Except Fault Binding := readAll read cs

end Binding

end BlockFlow
