import BlockFlow.Host.Basic
import BlockFlow.Json.Decode
import BlockFlow.Json.Printer

/-!
# Settings of an engine

Every setting has a default, so a text of settings lists only what it changes. Settings without room
for any descriptor or any hop are refused.

1. `Settings`, `toJson`: the settings and their JSON form.
2. `ofText`, `ofFile`: settings that are read and checked.
-/

namespace BlockFlow

/-- How an engine behaves. -/
structure Settings where
  /-- How long one poll of descriptors may wait, in milliseconds. -/
  pollMillis : UInt64 := 10
  /-- Watched descriptor numbers stay below this one. -/
  maxFd : Fd := 1024
  /-- The greatest number of hops of one flow, if there is one. -/
  maxHops : Option UInt64 := none
  /-- Whether the destination of a binding must be there when the binding is made. -/
  strictBind : Bool := false
  /-- Which messages are logged by default. -/
  logLevel : String := "info"
  deriving Repr, DecidableEq, Inhabited

namespace Settings

/-- How long one poll of descriptors may wait. -/
def pollTimeout (s : Settings) : Duration := .ofMillis s.pollMillis.toNat

/-- Why settings are not accepted. -/
inductive Problem where
  | unreadable (path : String) (cause : Host.Failure)
  | undecodable (fault : Json.Fault)
  | maxFdNotPositive (maxFd : Fd)
  | noHops
  deriving Repr, DecidableEq

def Problem.message : Problem → String
  | .unreadable path cause => s!"Failed to read engine config {path}: {cause.message}"
  | .undecodable _ => "Invalid engine config"
  | .maxFdNotPositive n =>
    s!"Invalid engine config value: max_fd must be positive, got {textOfInt32 n}"
  | .noHops => "Invalid engine config value: max_flow_hops must be at least 1"

/-! ## The JSON form -/

inductive Field where
  | pollMillis
  | maxFd
  | maxHops
  | strictBind
  | logLevel
  deriving Repr, DecidableEq

namespace Field

def all : List Field := [pollMillis, maxFd, maxHops, strictBind, logLevel]

def name : Field → String
  | .pollMillis => "poll_timeout_ms"
  | .maxFd => "max_fd"
  | .maxHops => "max_flow_hops"
  | .strictBind => "strict_bind"
  | .logLevel => "log_level"

def named? (s : String) : Option Field := all.find? (·.name = s)

def toJson (s : Settings) : Field → Json
  | .pollMillis => .ofNat s.pollMillis.toNat
  | .maxFd => .ofInt s.maxFd.toInt
  | .maxHops =>
    match s.maxHops with
    | none => .null
    | some n => .ofNat n.toNat
  | .strictBind => .bool s.strictBind
  | .logLevel => .text s.logLevel

open Json Reader

def read (s : Settings) : Field → Reader Settings
  | .pollMillis => do return { s with pollMillis := ← uint64 }
  | .maxFd => do return { s with maxFd := ← int32 }
  | .maxHops => do return { s with maxHops := ← nullable uint64 }
  | .strictBind => do return { s with strictBind := ← bool }
  | .logLevel => do return { s with logLevel := ← Reader.text }

end Field

def toJson (s : Settings) : Json := .object (Field.all.map fun f => (f.name, f.toJson s))

open Json Reader

/-- The settings read so far and the fields they came from, with one more member. -/
def readMember (n : Nat) (done : Settings × List Field) (name : String) :
    Reader (Settings × List Field) := do
  match Field.named? name with
  | some f =>
    if done.2.contains f then throw .mismatch
    colon
    return (← f.read done.1, f :: done.2)
  | none =>
    colon
    ignored n
    return done

/-- The items of an array are read into fields, in order, as far as they go. -/
def readItems (s : Settings) : (first : Bool) → List Field → Reader Settings
  | _, [] => return s
  | first, f :: fs => do
    match ← item first (f.read s) with
    | some s => readItems s false fs
    | none => return s

def read (n : Nat) : Reader Settings := do
  match ← peek with
  | some '[' => do
    skip
    let s ← readItems {} true Field.all
    closing ']'
    return s
  | some '\x7b' => do
    skip
    return (← members n (readMember n) ({}, [])).1
  | _ => otherKind

/-- Settings that can be used. -/
def check (s : Settings) : Except Problem Settings :=
  if s.maxFd ≤ 0 then .error (.maxFdNotPositive s.maxFd)
  else if s.maxHops = some 0 then .error .noHops
  else .ok s

def ofText (cs : List Char) : Except Problem Settings :=
  match readAll read cs with
  | .ok s => s.check
  | .error fault => .error (.undecodable fault)

def ofFile (files : Host.Files) (path : String) : Except Problem Settings :=
  match files.read path with
  | .error cause => .error (.unreadable path cause)
  | .ok content =>
    match Text.Utf8.decode content with
    | .error _ => .error (.unreadable path .notUtf8)
    | .ok cs => ofText cs

end Settings

end BlockFlow
