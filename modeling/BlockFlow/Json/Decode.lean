import BlockFlow.Json.Parser
import BlockFlow.Text.Numeral

/-!
# Reading values of a known kind

1. `otherKind`: what a value of another kind than asked for is answered with.
2. `int32`, `uint64`, `byte`, `bool`, `text`, `null`, `nullable`: readers of simple values.
3. `variant`: one of several named alternatives, as a name alone or as an object of one member,
   whose name has to be a string.
4. `once`, `item`: the fields of a record, as members of an object or as items of an array.
-/

namespace BlockFlow.Json.Reader

/-- The answer to a value of another kind than asked for: a mismatch, unless it is no value. -/
def otherKind {α : Type} : Reader α := do
  match ← peek with
  | none => throw .truncated
  | some c =>
    match c with
    | 'n' => do skip; literal ['u', 'l', 'l']
    | 't' => do skip; literal ['r', 'u', 'e']
    | 'f' => do skip; literal ['a', 'l', 's', 'e']
    | '"' => do skip; discard string
    | '-' => do skip; discard (numeral true)
    | '[' => pure ()
    | '\x7b' => pure ()
    | c => if c.isDigit then discard (numeral false) else throw .malformed
    throw .mismatch

/-- An integer between two bounds. -/
def intBetween (lower upper : Int) : Reader Int := do
  let number ←
    match ← peek with
    | some '-' => do skip; numeral true
    | some c => if c.isDigit then numeral false else otherKind
    | none => throw .truncated
  match number with
  | .integer n => if lower ≤ n ∧ n ≤ upper then return n else throw .mismatch
  | .binary _ => throw .mismatch

def int32 : Reader Int32 := Int32.ofInt <$> intBetween (-2147483648) 2147483647

def uint64 : Reader UInt64 := do
  return UInt64.ofNat (← intBetween 0 18446744073709551615).toNat

def byte : Reader UInt8 := do return UInt8.ofNat (← intBetween 0 255).toNat

def bool : Reader Bool := do
  match ← peek with
  | none => throw .truncated
  | some 't' => do skip; literal ['r', 'u', 'e']; return true
  | some 'f' => do skip; literal ['a', 'l', 's', 'e']; return false
  | _ => otherKind

def text : Reader String := do
  match ← peek with
  | none => throw .truncated
  | some '"' => do skip; string
  | _ => otherKind

def null : Reader Unit := do
  match ← peek with
  | none => throw .truncated
  | some 'n' => do skip; literal ['u', 'l', 'l']
  | _ => otherKind

/-- A value or `null`. -/
def nullable {α : Type} (reader : Reader α) : Reader (Option α) := do
  match ← peek with
  | some 'n' => do skip; literal ['u', 'l', 'l']; return none
  | _ => some <$> reader

def list {α : Type} (n : Nat) (reader : Reader α) : Reader (List α) := do
  match ← peek with
  | none => throw .truncated
  | some '[' => do skip; items n reader
  | _ => otherKind

/-- The alternative that a string names. -/
def alternative {β : Type} (named : String → Option β) : Reader β := do
  match ← peek with
  | none => throw .truncated
  | some '"' => do
    skip
    match named (← string) with
    | some b => return b
    | none => throw .mismatch
  | some _ => throw .malformed

/-- One of several alternatives: a string that names one, read on by `bare`, or an object whose one
member is named for one, its value read by `filled`. -/
def variant {α β : Type} (named : String → Option β) (bare filled : β → Reader α) : Reader α := do
  match ← peek with
  | none => throw .truncated
  | some '"' => do bare (← alternative named)
  | some '\x7b' => do
    skip
    let b ← alternative named
    colon
    let x ← filled b
    match ← peek with
    | none => throw .truncated
    | some '\x7d' => do skip; return x
    | some _ => throw .malformed
  | some _ => throw .malformed

/-- An alternative that carries nothing. -/
def plainVariant {α : Type} (named : String → Option α) : Reader α :=
  variant named pure fun a => do null; return a

/-- The value of a field that may occur once; `known` is what has been read for it. -/
def once {α : Type} (known : Option α) (reader : Reader α) : Reader (Option α) := do
  if known.isSome then throw .mismatch
  colon
  some <$> reader

/-- The next item of an array, if there is one. -/
def item {α : Type} (first : Bool) (reader : Reader α) : Reader (Option α) := do
  if ← another ']' first then some <$> reader else return none

def required {α : Type} (field : Option α) : Reader α :=
  match field with
  | some a => pure a
  | none => throw .mismatch

end BlockFlow.Json.Reader
