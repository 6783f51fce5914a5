import BlockFlow.Command.Basic
import BlockFlow.Json.Printer

/-!
# Structured commands in JSON

A command is an object whose member `cmd` names its kind, the other members being its fields, or an
array of the name and the fields in order. A batch is one command or an array of commands.

1. `Tag`, `toJson`: the kinds that have a JSON form, and the form.
2. `ofValues?`, `ofMembers?`: a command of a kind and the values or members that are its fields.
3. `ofText`: one command, the kind of which is read before the fields are.
4. `Batch.ofBytes`: a batch, which is read as a value first.
-/

namespace BlockFlow.Command

/-- The kinds of commands that have a JSON form. -/
inductive Tag where
  | add
  | start
  | stop
  | del
  | conf
  | bind
  deriving Repr, DecidableEq, Inhabited

namespace Tag

/-- All tags, in the order of their positions. -/
def all : List Tag := [add, start, stop, del, conf, bind]

def name : Tag → String
  | .add => "add"
  | .start => "start"
  | .stop => "stop"
  | .del => "del"
  | .conf => "conf"
  | .bind => "bind"

def named? (s : String) : Option Tag := all.find? (·.name = s)

def ofValue? : Json → Option Tag
  | .text s => named? s
  | .number (.integer n) => if n < 0 then none else all[n.toNat]?
  | _ => none

end Tag

def tagMember : String := "cmd"

def idToJson (id : BlockId) : Json := .ofInt id.value.toInt

def tag : Command → Tag
  | .add .. => .add
  | .start _ => .start
  | .stop _ => .stop
  | .del _ => .del
  | .conf .. => .conf
  | .bind .. => .bind

def fieldsToJson : Command → List (String × Json)
  | .add id type => [("id", idToJson id), ("type", .text type)]
  | .start id => [("id", idToJson id)]
  | .stop id => [("id", idToJson id)]
  | .del id => [("id", idToJson id)]
  | .conf id entry => [("id", idToJson id), ("conf", .text entry)]
  | .bind id port dest =>
    [("id", idToJson id), ("port", .ofInt port.toInt), ("dest", idToJson dest)]

def toJson (c : Command) : Json := .object ((tagMember, .text c.tag.name) :: c.fieldsToJson)

/-! ## Fields -/

/-- The 32-bit integer that a value is. -/
def int32? : Json → Option Int32
  | .number (.integer n) => if Text.Numeral.fitsInt32 n then some (Int32.ofInt n) else none
  | _ => none

def id? (v : Json) : Option BlockId := BlockId.mk <$> int32? v

def text? : Json → Option String
  | .text s => some s
  | _ => none

/-- The names of the fields of a kind of command, in order. -/
def fieldNames : Tag → List String
  | .add => ["id", "type"]
  | .start => ["id"]
  | .stop => ["id"]
  | .del => ["id"]
  | .conf => ["id", "conf"]
  | .bind => ["id", "port", "dest"]

/-- The command of a kind with the given fields. -/
def ofValues? : Tag → List Json → Option Command
  | .add, [id, type] => do return .add (← id? id) (← text? type)
  | .start, [id] => do return .start (← id? id)
  | .stop, [id] => do return .stop (← id? id)
  | .del, [id] => do return .del (← id? id)
  | .conf, [id, entry] => do return .conf (← id? id) (← text? entry)
  | .bind, [id, port, dest] => do return .bind (← id? id) (← int32? port) (← id? dest)
  | _, _ => none

/-- The value of the only member with the given name. -/
def only? (name : String) (members : List (String × Json)) : Option Json :=
  match members.filter (·.1 = name) with
  | [m] => some m.2
  | _ => none

/-- The command of a kind with the given members; other members are ignored. -/
def ofMembers? (tag : Tag) (members : List (String × Json)) : Option Command := do
  ofValues? tag (← (fieldNames tag).mapM (only? · members))

def ofValue? : Json → Option Command
  | .object members => do
    let tag ← Tag.ofValue? (← only? tagMember members)
    ofMembers? tag (members.filter (·.1 ≠ tagMember))
  | .array (tag :: fields) => do ofValues? (← Tag.ofValue? tag) fields
  | _ => none

/-! ## One command -/

open Json Reader

def readTag : Reader Tag := do
  match Tag.named? (← Reader.text) with
  | some tag => return tag
  | none => throw .mismatch

def readInner (n : Nat) : Reader Json := value n (maxNesting - 1)

/-- The tag and the other members read so far, with one more. -/
def readMember (n : Nat) (done : Option Tag × List (String × Json)) (name : String) :
    Reader (Option Tag × List (String × Json)) := do
  if name = tagMember then return (← once done.1 readTag, done.2)
  else
    colon
    return (done.1, (name, ← readInner n) :: done.2)

/-- At most `n` items of an array after its first one. -/
def readRest (n : Nat) : Reader (List Json) := itemsFrom (readInner n) n false

def read (n : Nat) : Reader Command := do
  match ← peek with
  | some '[' => do
    skip
    let tag ← required (← item true readTag)
    let fields ← readRest n
    let command ← required (ofValues? tag fields)
    closing ']'
    return command
  | some '\x7b' => do
    skip
    let (tag, fields) ← members n (readMember n) (none, [])
    required (ofMembers? (← required tag) fields)
  | _ => otherKind

def ofText (cs : List Char) : Except Fault Command := readAll read cs

/-! ## Batches -/

/-- One command, or a list of them. -/
inductive Batch where
  | one (c : Command)
  | many (cs : List Command)
  deriving Repr, DecidableEq

namespace Batch

def ofValue? (v : Json) : Option Batch :=
  match Command.ofValue? v with
  | some c => some (.one c)
  | none =>
    match v with
    | .array vs => .many <$> vs.mapM Command.ofValue?
    | _ => none

def read (n : Nat) : Reader Batch := do required (ofValue? (← value n maxNesting))

def ofBytes (bs : List UInt8) : Except Fault Batch := readBytes read bs

end Batch

end BlockFlow.Command
