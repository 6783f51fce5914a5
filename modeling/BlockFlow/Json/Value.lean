import BlockFlow.Number.Binary64

/-!
# JSON values

A value keeps the members of an object in the order of its text, repeated names included. Its
normal form sorts the members by name and keeps the last one of each name; this is the form in
which values travel between blocks.
-/

namespace BlockFlow

/-- A JSON number: an integer of 64 bits, signed or not, or a binary64 number. -/
inductive Json.Number where
  | integer (n : Int)
  | binary (x : Binary64)
  deriving Repr, DecidableEq

inductive Json where
  | null
  | bool (b : Bool)
  | number (n : Json.Number)
  | text (s : String)
  | array (items : List Json)
  | object (members : List (String × Json))
  deriving Repr, Inhabited

namespace Json

def ofInt (n : Int) : Json := .number (.integer n)

def ofNat (n : Nat) : Json := ofInt n

/-- The member of an object with the given name, the last one if there are several. -/
def member? (name : String) : Json → Option Json
  | .object ms => (ms.reverse.find? (·.1 = name)).map (·.2)
  | _ => none

/-- Members sorted by name with one more; a member of the same name is replaced. -/
def insertMember (name : String) (value : Json) : List (String × Json) → List (String × Json)
  | [] => [(name, value)]
  | m :: ms =>
    if name = m.1 then (name, value) :: ms
    else if name < m.1 then (name, value) :: m :: ms
    else m :: insertMember name value ms

mutual

/-- The value with the members of each object sorted by name, the last of each name kept. -/
def normalize : Json → Json
  | .array items => .array (normalizeItems items)
  | .object members => .object (normalizeMembers members [])
  | .null => .null
  | .bool b => .bool b
  | .number n => .number n
  | .text s => .text s

/-- The items in normal form. -/
def normalizeItems : List Json → List Json
  | [] => []
  | x :: xs => normalize x :: normalizeItems xs

/-- The members in normal form, added in order to members that are so already. -/
def normalizeMembers : List (String × Json) → List (String × Json) → List (String × Json)
  | [], done => done
  | (name, value) :: ms, done => normalizeMembers ms (insertMember name (normalize value) done)

end

end Json

end BlockFlow
