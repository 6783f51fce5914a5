import BlockFlow.Host.Failure
import BlockFlow.Text.Blank
import BlockFlow.Text.Utf8

/-!
# Files

The host keeps files in a tree of directories. An entry is named by the names on the way to it from
the root; a path that does not begin at the root begins at the working directory.

1. `Files`, `fresh`: the tree, and the one with an empty working directory.
2. `Place`, `locate`: what a path leads to.
3. `read`, `write`, `makeDirectory`, `makeParents`, `remove`, `makeSocket`: operations on entries.
-/

namespace BlockFlow.Host

/-- What an entry of a directory is. -/
inductive Node where
  | file (content : List UInt8)
  | directory
  /-- The address of a listener, which has a number of its own. -/
  | socket (listener : Nat)
  deriving Repr, DecidableEq, Inhabited

/-- The names on the way from the root to an entry. -/
abbrev Way := List (List Char)

/-- The entries of the host, and the way to the working directory. -/
structure Files where
  entries : List (Way × Node)
  work : Way
  deriving Repr

namespace Files

/-- The way to the working directory of a fresh host. -/
def freshWork : Way := [['t', 'm', 'p'], ['w', 'o', 'r', 'k']]

/-- Nothing but an empty working directory and what is above it. -/
def fresh : Files :=
  ⟨[(freshWork.take 1, .directory), (freshWork, .directory)], freshWork⟩

instance : Inhabited Files := ⟨fresh⟩

/-! ## Places -/

/-- Where a path leads. -/
inductive Place where
  /-- An entry that is there. -/
  | found (way : Way) (node : Node)
  /-- No entry, in a directory that is there. -/
  | vacant (way : Way)
  deriving Repr

/-- The greatest number of bytes of a name. -/
def maxName : Nat := 255

/-- The first number of bytes that no path has. -/
def maxPath : Nat := 4096

/-- The entry at the end of a way. -/
def find? (t : Files) (way : Way) : Option Node :=
  if way.isEmpty then some .directory else (t.entries.find? (·.1 = way)).map (·.2)

/-- Follow the names of a path from a directory at the end of a way. -/
def walk (t : Files) : Way → List (List Char) → Except Failure Place
  | way, [] => .ok (.found way .directory)
  | way, name :: names =>
    if maxName < (Text.Utf8.encode name).length then .error .nameTooLong
    else if name = [] || name = ['.'] then walk t way names
    else if name = ['.', '.'] then walk t way.dropLast names
    else
      let here := way ++ [name]
      match t.find? here, names with
      | some node, [] => .ok (.found here node)
      | some .directory, _ => walk t here names
      | some _, _ => .error .notADirectory
      | none, [] => .ok (.vacant here)
      | none, _ => .error .noSuchEntry

/-- Whether a text can be a path. -/
def checkPath (path : String) : Except Failure Unit :=
  if path.toList.contains '\x00' then .error .nulInName
  else if path.isEmpty then .error .noSuchEntry
  else if maxPath ≤ path.utf8ByteSize then .error .nameTooLong
  else .ok ()

/-- The way to the directory at which a path begins. -/
def origin (t : Files) (path : String) : Way :=
  if path.toList.head? = some '/' then [] else t.work

/-- The names of a path; slashes without a name between them give empty names. -/
def namesOf (path : String) : List (List Char) := Text.piecesBy (· == '/') path.toList

/-- Where a path leads, or why it leads nowhere. A slash at its end asks for a directory. -/
def locate (t : Files) (path : String) : Except Failure Place := do
  checkPath path
  t.walk (t.origin path) (namesOf path)

/-- Where a path leads whose slashes at the end are left out. -/
def locateBare (t : Files) (path : String) : Except Failure Place := do
  checkPath path
  t.walk (t.origin path) ((namesOf path).reverse.dropWhile (·.isEmpty)).reverse

/-! ## Operations -/

/-- The entries with one more, or with another one at the end of a way. -/
def put (t : Files) (way : Way) (node : Node) : Files :=
  { t with entries := (t.entries.filter (·.1 ≠ way)) ++ [(way, node)] }

def read (t : Files) (path : String) : Except Failure (List UInt8) := do
  match ← t.locate path with
  | .found _ (.file content) => .ok content
  | .found _ .directory => .error .isADirectory
  | .found _ (.socket _) => .error .noSuchDevice
  | .vacant _ => .error .noSuchEntry

/-- Give a file a content; the file is made if there is none. -/
def write (t : Files) (path : String) (content : List UInt8) : Except Failure Files := do
  match ← t.locate path with
  | .found way (.file _) => .ok (t.put way (.file content))
  | .vacant way => .ok (t.put way (.file content))
  | .found _ .directory => .error .isADirectory
  | .found _ (.socket _) => .error .noSuchDevice

def makeDirectory (t : Files) (path : String) : Except Failure Files := do
  match ← t.locateBare path with
  | .vacant way => .ok (t.put way .directory)
  | .found _ _ => .error .entryExists

/-- Make the directories that names go through, from a directory at the end of a way to the last
name but one. -/
def makeParentsFrom (t : Files) : Way → List (List Char) → Files
  | way, name :: next :: names =>
    if name = [] || name = ['.'] then t.makeParentsFrom way (next :: names)
    else if name = ['.', '.'] then t.makeParentsFrom way.dropLast (next :: names)
    else
      let here := way ++ [name]
      match t.find? here with
      | some _ => t.makeParentsFrom here (next :: names)
      | none => (t.put here .directory).makeParentsFrom here (next :: names)
  | _, _ => t

/-- Make the directories that a path goes through. -/
def makeParents (t : Files) (path : String) : Files :=
  t.makeParentsFrom (t.origin path) (namesOf path)

/-- Whether a path leads to an entry. -/
def exists? (t : Files) (path : String) : Bool :=
  match t.locate path with
  | .ok (.vacant _) => false
  | .ok _ => true
  | .error _ => false

/-- Remove an entry that is no directory. -/
def remove (t : Files) (path : String) : Except Failure Files := do
  match ← t.locate path with
  | .found _ .directory => .error .isADirectory
  | .found way _ => .ok { t with entries := t.entries.filter (·.1 ≠ way) }
  | .vacant _ => .error .noSuchEntry

/-! ## Addresses of streams -/

/-- The first number of bytes that no address of a stream has. -/
def maxAddress : Nat := 108

/-- Whether a path can be the address of a stream. -/
def checkAddress (path : String) : Except Failure Unit :=
  if path.toList.contains '\x00' then .error .nulInAddress
  else if maxAddress ≤ path.utf8ByteSize then .error .addressTooLong
  else .ok ()

/-- Make the address of a listener. What is there already is in use, whatever it is; an address that
is not there cannot be a directory. -/
def makeSocket (t : Files) (path : String) (listener : Nat) : Except Failure Files := do
  checkAddress path
  match ← t.locateBare path with
  | .found _ _ => .error .addressInUse
  | .vacant way =>
    if path.toList.getLast? = some '/' then .error .noSuchEntry
    else .ok (t.put way (.socket listener))

def listenerAt (t : Files) (path : String) : Except Failure Nat := do
  checkAddress path
  if path.isEmpty then throw .invalidArgument
  match ← t.locate path with
  | .found _ (.socket listener) => .ok listener
  | .found _ _ => .error .connectionRefused
  | .vacant _ => .error .noSuchEntry

end Files

end BlockFlow.Host
