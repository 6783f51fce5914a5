import BlockFlow.Json.Decode
import BlockFlow.Json.Printer

/-!
# Payloads

A payload is what a message carries from block to block: nothing, bytes, a text or a JSON value. Its
own JSON form names the kind.
-/

namespace BlockFlow

/-- What a message carries. -/
inductive Payload where
  | empty
  | bytes (bs : List UInt8)
  | text (s : String)
  | json (v : Json)
  deriving Repr, Inhabited

namespace Payload

/-- The number of bytes of a payload; a JSON value counts with its text. -/
def size : Payload → Nat
  | .empty => 0
  | .bytes bs => bs.length
  | .text s => s.utf8ByteSize
  | .json v => v.textSize

/-- Whether a payload has no bytes. -/
def isEmpty (p : Payload) : Bool := p.size = 0

/-- The bytes of a payload; nothing and a JSON value have none to look at. -/
def bytes? : Payload → Option (List UInt8)
  | .bytes bs => some bs
  | .text s => some (bytesOf s)
  | .empty => none
  | .json _ => none

/-- Whether the payload is the one that messages carry by default. -/
def isDefault : Payload → Bool
  | .empty => true
  | _ => false

/-- A payload with text added at its end; one that holds neither text nor bytes stays as it is. -/
def append (p : Payload) (s : String) : Payload :=
  match p with
  | .text t => .text (t ++ s)
  | .bytes bs => .bytes (bs ++ bytesOf s)
  | .empty => .empty
  | .json v => .json v

/-! ## The JSON form -/

inductive Kind where
  | empty
  | bytes
  | text
  | json
  deriving Repr, DecidableEq

def Kind.name : Kind → String
  | .empty => "Empty"
  | .bytes => "Bytes"
  | .text => "Text"
  | .json => "Json"

def Kind.named? (s : String) : Option Kind := [Kind.empty, .bytes, .text, .json].find? (·.name = s)

def toJson : Payload → Json
  | .empty => .text Kind.empty.name
  | .bytes bs => .object [(Kind.bytes.name, .array (bs.map fun b => .ofNat b.toNat))]
  | .text s => .object [(Kind.text.name, .text s)]
  | .json v => .object [(Kind.json.name, v)]

open Json Reader

/-- A payload in its JSON form; `n` bounds the parts of arrays and objects. -/
def read (n : Nat) : Reader Payload :=
  variant Kind.named?
    (fun kind => if kind = .empty then pure Payload.empty else throw .mismatch)
    (fun
      | .empty => do null; return .empty
      | .bytes => .bytes <$> list n byte
      | .text => .text <$> Reader.text
      | .json => do return .json (← value n (maxNesting - 1)).normalize)

/-- The payload whose JSON form a text spells. -/
def ofText (cs : List Char) : Except Fault Payload := readAll read cs

end Payload

end BlockFlow
