import BlockFlow.Json.Value
import BlockFlow.Text.Hex
import BlockFlow.Text.Utf8

/-!
# Reading JSON, piece by piece

A reader takes the pieces of a text and gives what it read with the rest of them, or the first
fault. The kinds of fault are part of the protocol: a text that is no JSON, one that ends early, and
a value that is not of the kind asked for. An ill-formed part is no character of JSON; inside of a
string it is found only when the string has ended.

1. `Fault`, `Reader`: faults and readers; `peek`, `literal`: the simplest readers.
2. `stringChars`, `string`: strings with their escapes.
3. `numeral`: numbers, integers of 64 bits kept exactly and all others as binary64.
-/

namespace BlockFlow.Json

open Text.Utf8 (Piece)

/-- Why a text is not read. -/
inductive Fault where
  /-- It is no JSON text. -/
  | malformed
  /-- It ends inside of a value. -/
  | truncated
  /-- It has a value that is not of the kind asked for. -/
  | mismatch
  deriving Repr, DecidableEq

/-- A reader gives a result and the rest of the pieces, or a fault. -/
abbrev Reader := StateT (List Piece) (Except Fault)

/-- The characters that may stand around values. -/
def isSpace (c : Char) : Bool := c = ' ' || c = '\n' || c = '\t' || c = '\r'

def afterSpaces (ps : List Piece) : List Piece := ps.dropWhile (isSpace ·.shown)

/-- The next character after spaces; it is not taken. -/
def peek : Reader (Option Char) := do
  modify afterSpaces
  return (← get).head?.map Piece.shown

/-- The next character itself, without skipping spaces. -/
def peekHere : Reader (Option Char) := return (← get).head?.map Piece.shown

/-- Take one piece. -/
def skip : Reader Unit := modify List.tail

/-- The next character is taken; the text must not end here. -/
def next : Reader Char := do
  match ← get with
  | [] => throw .truncated
  | p :: r => do set r; return p.shown

/-- The rest of a word after its first character. -/
def literal : List Char → Reader Unit
  | [] => pure ()
  | c :: cs => do
    if (← next) = c then literal cs else throw .malformed

/-! ## Strings -/

/-- The number that four hexadecimal digits stand for. -/
def hexValue? (a b c d : Piece) : Option Nat :=
  Text.Hex.four? a.shown b.shown c.shown d.shown

/-- Why a text does not begin with four hexadecimal digits: four bytes are looked at together, so a
text of fewer of them ends early. -/
def hexFault (ps : List Piece) : Fault :=
  if Text.Utf8.width ps < 4 then .truncated else .malformed

/-- Four hexadecimal digits. -/
def hexFour : Reader Nat := do
  match ← get with
  | a :: b :: c :: d :: r =>
    match hexValue? a b c d with
    | some n => do set r; return n
    | none => throw .malformed
  | short => throw (hexFault short)

/-- The character that an escape of one letter stands for. -/
def escaped? : Char → Option Char
  | '"' => some '"'
  | '\\' => some '\\'
  | '/' => some '/'
  | 'b' => some '\x08'
  | 'f' => some '\x0c'
  | 'n' => some '\n'
  | 'r' => some '\r'
  | 't' => some '\t'
  | _ => none

/-- Whether a code unit is the first of a surrogate pair. -/
def isHighSurrogate (n : Nat) : Bool := 0xD800 ≤ n && n ≤ 0xDBFF

/-- Whether a code unit is the second of a surrogate pair. -/
def isLowSurrogate (n : Nat) : Bool := 0xDC00 ≤ n && n ≤ 0xDFFF

/-- The character of a surrogate pair. -/
def ofSurrogates (high low : Nat) : Char :=
  Char.ofNat ((high - 0xD800) * 0x400 + (low - 0xDC00) + 0x10000)

/-- Why a text does not begin with the second escape of a surrogate pair. -/
def pairFault : List Piece → Fault
  | [] => .truncated
  | p :: r =>
    if p.shown ≠ '\\' then .malformed
    else
      match r with
      | [] => .truncated
      | q :: r => if q.shown ≠ 'u' then .malformed else hexFault r

/-- The characters of a string and the pieces after it, or a fault. -/
abbrev StringResult := Except Fault (List Char × List Piece)

/-- A character before the rest of a string. -/
def before (c : Char) : StringResult → StringResult
  | .ok (cs, rest) => .ok (c :: cs, rest)
  | .error f => .error f

/-- An ill-formed part before the rest of a string. -/
def spoilt : StringResult → StringResult
  | .ok _ => .error .malformed
  | .error f => .error f

/-- The characters of a string after its opening quote, and the pieces after its closing one. -/
def stringChars : List Piece → StringResult
  | [] => .error .truncated
  | .bad _ :: r => spoilt (stringChars r)
  | .cut _ :: r => spoilt (stringChars r)
  | .char '"' :: r => .ok ([], r)
  | .char '\\' :: .char 'u' :: a :: b :: c :: d :: r =>
    match hexValue? a b c d with
    | none => .error .malformed
    | some n =>
      if isLowSurrogate n then .error .malformed
      else if isHighSurrogate n then
        match r with
        | .char '\\' :: .char 'u' :: e :: f :: g :: h :: r =>
          match hexValue? e f g h with
          | none => .error .malformed
          | some m =>
            if isLowSurrogate m then before (ofSurrogates n m) (stringChars r)
            else .error .malformed
        | r => .error (pairFault r)
      else before (Char.ofNat n) (stringChars r)
  | .char '\\' :: .char 'u' :: short => .error (hexFault short)
  | [.char '\\'] => .error .truncated
  | .char '\\' :: p :: r =>
    match escaped? p.shown with
    | some x => before x (stringChars r)
    | none => .error .malformed
  | .char c :: r => if c.toNat < 0x20 then .error .malformed else before c (stringChars r)

/-- A string after its opening quote. -/
def string : Reader String := fun ps =>
  match stringChars ps with
  | .ok (cs, rest) => .ok (String.ofList cs, rest)
  | .error f => .error f

/-! ## Numbers -/

/-- The greatest significand that is kept exactly. -/
def maxSignificand : Nat := UInt64.size - 1

/-- The greatest exponent that is read digit by digit. -/
def maxWritten : Nat := UInt32.size / 2 - 1

/-- The digits at the front of the text are taken. -/
def takeDigits : Reader (List Char) := do
  let ps ← get
  set (ps.dropWhile (·.shown.isDigit))
  return (ps.takeWhile (·.shown.isDigit)).map Piece.shown

/-- The value of a digit. -/
def digitValue (c : Char) : Nat := c.toNat - '0'.toNat

/-- A significand with digits added while it stays within its bound: the significand, the number of
digits it took, and the number of those it did not. After the first digit that does not fit all
digits are left out. -/
def addDigits (significand : Nat) : List Char → Nat × Nat × Nat
  | [] => (significand, 0, 0)
  | d :: ds =>
    let wider := significand * 10 + digitValue d
    if wider ≤ maxSignificand then
      let (s, taken, left) := addDigits wider ds
      (s, taken + 1, left)
    else (significand, 0, ds.length + 1)

/-- The number of a significand and a power of ten. -/
def scaled (negative : Bool) (significand : Nat) (power : Int) : Reader Number :=
  match Binary64.ofDecimal negative significand power with
  | some x => pure (.binary x)
  | none => throw .malformed

def zero (negative : Bool) : Number := .binary ⟨negative, .zero⟩

/-- An exponent after its mark; `power` is the power of ten of the significand so far. -/
def exponentPart (negative : Bool) (significand : Nat) (power : Int) : Reader Number := do
  let sign ← peekHere
  if sign = some '+' || sign = some '-' then skip
  let first ← next
  if !first.isDigit then throw .malformed
  let written := Nat.ofDigitChars 10 (first :: (← takeDigits)) 0
  if maxWritten < written then
    if significand ≠ 0 && sign ≠ some '-' then throw .malformed
    return zero negative
  scaled negative significand (if sign = some '-' then power - written else power + written)

/-- The rest of a number after the digits of its significand, which is no integer. -/
def afterDigits (negative : Bool) (significand : Nat) (power : Int) : Reader Number := do
  match ← peekHere with
  | some 'e' | some 'E' => do skip; exponentPart negative significand power
  | _ => scaled negative significand power

/-- The digits after the decimal point, of which there must be one, and the rest of the number. -/
def decimalPart (negative : Bool) (significand : Nat) (power : Int) : Reader Number := do
  let digits ← takeDigits
  if digits.isEmpty then
    if (← get).isEmpty then throw .truncated else throw .malformed
  let (wider, taken, _) := addDigits significand digits
  afterDigits negative wider (power - taken)

/-- The integer of a sign and an absolute value; what does not fit 64 bits is no integer, nor is a
negative zero. -/
def integer (negative : Bool) (n : Nat) : Reader Number :=
  if !negative then pure (.integer n)
  else if n ≠ 0 && n ≤ UInt64.size / 2 then pure (.integer (-n))
  else scaled true n 0

/-- A number after its sign. -/
def numeral (negative : Bool) : Reader Number := do
  let first ← next
  if !first.isDigit then throw .malformed
  let digits ← takeDigits
  if first = '0' && !digits.isEmpty then throw .malformed
  let (significand, _, left) := addDigits (digitValue first) digits
  match ← peekHere with
  | some '.' => do skip; decimalPart negative significand left
  | some 'e' | some 'E' => do skip; exponentPart negative significand left
  | _ => if left = 0 then integer negative significand else scaled negative significand left

end BlockFlow.Json
